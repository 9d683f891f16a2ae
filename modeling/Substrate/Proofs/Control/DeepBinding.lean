import Substrate.Proofs.Construct.Stages
import Substrate.Proofs.Control.Naming
import Substrate.Proofs.Control.Retention

/-!
# Shallow tables implement deep binding

What a thread finds for a symbol is its innermost binding, or the global value. Assignments change just
that, bindings end with their scopes however these are left, and a binding that is refused cannot be seen.
`Dynamic.Implements` says so of the machine's own operations; `Run.implements_deep_binding` shows it along
every run.

Making a symbol is one of these operations. It continues a run if the new symbol is safe from finalizers
while it is made. If it is not, then its number may be written into another symbol, and bindings of the
one are seen through the other: `Machine.binding_seen_by_other`.
-/

namespace Substrate

namespace Dynamic

variable {γ α : Type}

/-! ## Operations on runs -/

namespace Run

variable {m m' m₁ m₂ : Machine γ} {symbols symbols₂ : List Value} {d d₂ : State}
  {symbol value : Value} {body : Op γ (Outcome Value)} {scope : ControlStack.Scope}

/-! ### Assigning -/

theorem setSymbolValue (h : Run m symbols d) (hsymbol : symbol ∈ symbols) (hvalue : value ≠ .empty) :
    ∃ m', Machine.setSymbolValue symbol value m = .ok () m' ∧
      Run m' symbols (d.act m.running.id (.setSymbolValue symbol value)) := by
  obtain ⟨key, hagrees⟩ := h.agrees
  obtain ⟨m', hrun, -⟩ := hagrees.setSymbolValue hsymbol hvalue
  have hact := h.act (.setSymbolValue symbol value) ⟨hsymbol, hvalue⟩ nofun
  rw [Machine.after, hrun] at hact
  exact ⟨m', hrun, hact⟩

/-- An act that has nothing to do with a symbol changes nothing about it, and no act does so on another
thread, unless it assigns the global value. -/
theorem symbolValue_after (h : Run m symbols d) {act : Act} (hproper : Proper symbols act)
    {thread : Thread} (hthread : thread ∈ (m.after act).threads) (hsymbol : symbol ∈ symbols)
    (hother : thread.id ≠ m.running.id ∨ symbol ∉ (d.threads m.running.id).concerned act)
    (hglobal : ∀ value, act = .setSymbolValue symbol value →
      d.innermost m.running.id symbol ≠ none) :
    Machine.symbolValue symbol { m.after act with running := thread }
      = .ok (d.value thread.id symbol) { m.after act with running := thread } := by
  by_cases hok : ∀ symbol value, act = .enterBinding symbol value →
      ∃ entered m', Machine.enterBinding symbol value m = .ok entered m'
  · obtain ⟨key, hagrees⟩ := (h.act act hproper hok).agrees
    rw [hagrees.symbolValue_eq hthread hsymbol, State.value_act act hother hglobal]
  · push Not at hok
    obtain ⟨bound, value, rfl, hfails⟩ := hok
    cases hrun : Machine.enterBinding bound value m with
    | ok entered m' => exact absurd hrun (hfails entered m')
    | error fault m' =>
      obtain ⟨key, hagrees⟩ := (h.unbindable hproper.1 hrun).agrees
      have hafter : m.after (.enterBinding bound value) = m' := by rw [Machine.after, hrun]; rfl
      rw [hafter] at hthread ⊢
      exact hagrees.symbolValue_eq hthread hsymbol

/-! ### Binding -/

theorem enterBinding (h : Run m symbols d) (hsymbol : symbol ∈ symbols) (hvalue : value ≠ .empty)
    {entered : Outcome ControlStack.Scope}
    (hrun : Machine.enterBinding symbol value m = .ok entered m') :
    Run m' symbols (d.act m.running.id (.enterBinding symbol value)) := by
  have hact := h.act (.enterBinding symbol value) ⟨hsymbol, hvalue⟩ fun _ _ heq => by
    cases heq
    exact ⟨entered, m', hrun⟩
  rwa [Machine.after, hrun] at hact

/-- A symbol is bound as long as there are not too many scopes. -/
theorem bindable (h : Run m symbols d) (hsymbol : symbol ∈ symbols) (value : Value)
    (hcount : m.nextBinding < ControlStack.tableLimit) :
    ∃ entered m', Machine.enterBinding symbol value m = .ok entered m' ∧
      (entered.isOk ↔ (d.threads m.running.id).scopes.length < (d.threads m.running.id).frameLimit) := by
  obtain ⟨key, hagrees⟩ := h.agrees
  have hmirrors := hagrees.threads m.running (Agrees.running_mem m)
  obtain ⟨hfull, hrun⟩ | ⟨hroom, hrun⟩ | ⟨_, _, _, -, -, hlarge⟩ :=
    Machine.enterBinding_of_index (hagrees.index_eq hsymbol) value
  · refine ⟨_, _, hrun, iff_of_false Bool.false_ne_true ?_⟩
    exact Nat.not_lt.mpr (hmirrors.full_iff.mpr hfull)
  · refine ⟨_, _, hrun, iff_of_true rfl ?_⟩
    exact Nat.not_le.mp (mt hmirrors.full_iff.mp hroom)
  · have hkey := hagrees.fresh symbol hsymbol
    have hword := hagrees.word symbol hsymbol
    omega

theorem binds (h : Run m symbols d) (hsymbol : symbol ∈ symbols) (value : Value)
    (hcount : m.nextBinding < ControlStack.tableLimit)
    (hroom : (d.threads m.running.id).scopes.length < (d.threads m.running.id).frameLimit) :
    ∃ scope m', Machine.enterBinding symbol value m = .ok (.ok scope) m' ∧
      m'.running.id = m.running.id ∧ m'.nextBinding = m.nextBinding := by
  obtain ⟨entered, m', hrun, hok⟩ := h.bindable hsymbol value hcount
  have hsame := Machine.after_same (.enterBinding symbol value) m
  rw [Machine.after, hrun] at hsame
  cases entered with
  | error unwind => cases hok.mpr hroom
  | ok scope => exact ⟨scope, m', hrun, hsame⟩

/-- A binding that is refused changes nothing that can be seen. -/
theorem refused (h : Run m symbols d) (hsymbol : symbol ∈ symbols) (hvalue : value ≠ .empty)
    {unwind : Unwind} (hrun : Machine.enterBinding symbol value m = .ok (.error unwind) m') :
    unwind = .error (.frameStackOverflow (d.threads m.running.id).frameLimit) ∧
      (d.threads m.running.id).frameLimit ≤ (d.threads m.running.id).scopes.length ∧
      (∀ body, Machine.binding symbol value body m = .ok (.error unwind) m') ∧ Run m' symbols d := by
  obtain ⟨key, hagrees⟩ := h.agrees
  have hmirrors := hagrees.threads m.running (Agrees.running_mem m)
  obtain ⟨cell, hcell, -⟩ := hagrees.symbol symbol hsymbol
  have hrefused := h.enterBinding hsymbol hvalue hrun
  obtain ⟨hfull, hcase⟩ | ⟨-, hcase⟩ | ⟨_, _, _, hcase, -⟩ :=
    Machine.enterBinding_of_index (hagrees.index_eq hsymbol) value
  · cases hrun.symm.trans hcase
    rw [State.act_refused (hmirrors.full_iff.mpr hfull)] at hrefused
    exact ⟨by rw [hmirrors.frameLimit], hmirrors.full_iff.mpr hfull,
      fun body => Machine.binding_of_refused hcell.isKind hrun, hrefused⟩
  · cases hrun.symm.trans hcase
  · cases hrun.symm.trans hcase

/-- The scope of a binding is the innermost one, inside all others. -/
theorem entered (h : Run m symbols d) (hsymbol : symbol ∈ symbols) (hvalue : value ≠ .empty)
    (hrun : Machine.enterBinding symbol value m = .ok (.ok scope) m₁) :
    Run m₁ symbols (d.act m.running.id (.enterBinding symbol value)) ∧
      ((d.act m.running.id (.enterBinding symbol value)).threads m.running.id).scopes
        = ⟨scope.serial, some (symbol, value)⟩ :: (d.threads m.running.id).scopes ∧
      scope.depth = (d.threads m.running.id).scopes.length := by
  obtain ⟨key, hagrees⟩ := h.agrees
  have hmirrors := hagrees.threads m.running (Agrees.running_mem m)
  refine ⟨h.enterBinding hsymbol hvalue hrun, ?_⟩
  obtain ⟨-, hcase⟩ | ⟨hroom, hcase⟩ | ⟨_, _, _, hcase, -⟩ :=
    Machine.enterBinding_of_index (hagrees.index_eq hsymbol) value
  · cases hrun.symm.trans hcase
  · cases hrun.symm.trans hcase
    refine ⟨?_, hmirrors.length_eq.symm⟩
    rw [State.act_bound (Nat.not_le.mp (mt hmirrors.full_iff.mp hroom)), hmirrors.nextSerial]
    rfl
  · cases hrun.symm.trans hcase

/-- A body that comes back, with a value, an exit or an error, ends its binding. -/
theorem returned (h : Run m symbols d) (hsymbol : symbol ∈ symbols)
    (hrun : Machine.enterBinding symbol value m = .ok (.ok scope) m₁) {result : Outcome Value}
    (hbody : body m₁ = .ok result m₂) (h₂ : Run m₂ symbols₂ d₂) {inner : Opened}
    {outer : List Opened} (hscopes : (d₂.threads m₂.running.id).scopes = inner :: outer)
    (hserial : inner.serial = scope.serial) :
    ∃ m', Machine.binding symbol value body m = .ok result m' ∧
      Run m' symbols₂ (d₂.withScopes m₂.running.id outer) ∧ m'.running.id = m₂.running.id := by
  obtain ⟨_, hagrees⟩ := h.agrees
  obtain ⟨cell, hcell, -⟩ := hagrees.symbol symbol hsymbol
  obtain ⟨_, hagrees₂⟩ := h₂.agrees
  obtain ⟨kind, lower, htop⟩ :=
    (hagrees₂.threads m₂.running (Agrees.running_mem m₂)).onTop hscopes hserial
  have hleave := Machine.leave_apply htop
  have hact := h₂.act (.leaveBinding scope) trivial nofun
  rw [State.act_left hscopes hserial, Machine.after, hleave] at hact
  refine ⟨_, ?_, hact, rfl⟩
  rw [Machine.binding_of_entered hcell.isKind hrun, Machine.bind_of_ok (Machine.guarded_of_ok hbody),
    Machine.leaveBinding, Machine.bind_of_ok hleave]
  rfl

/-- A body that fails ends its binding, and with it the scopes that were entered inside. -/
theorem failed (h : Run m symbols d) (hsymbol : symbol ∈ symbols) (hvalue : value ≠ .empty)
    (hrun : Machine.enterBinding symbol value m = .ok (.ok scope) m₁) {fault : Fault}
    (hbody : body m₁ = .error fault m₂) (h₂ : Run m₂ symbols₂ d₂) {inner outer : List Opened}
    (hscopes : (d₂.threads m₂.running.id).scopes = inner ++ outer)
    (houter : outer.length = (d.threads m.running.id).scopes.length) :
    ∃ m', Machine.binding symbol value body m = .error fault m' ∧
      Run m' symbols₂ (d₂.withScopes m₂.running.id outer) ∧ m'.running.id = m₂.running.id := by
  obtain ⟨_, hagrees⟩ := h.agrees
  obtain ⟨cell, hcell, -⟩ := hagrees.symbol symbol hsymbol
  obtain ⟨-, -, hdepth⟩ := h.entered hsymbol hvalue hrun
  have hact := h₂.act (.abandon scope) trivial nofun
  rw [State.act_abandoned hscopes (houter.trans hdepth.symm)] at hact
  refine ⟨_, ?_, hact, rfl⟩
  rw [Machine.binding_of_entered hcell.isKind hrun]
  exact Machine.bind_of_error (Machine.guarded_of_error hbody)

/-! ### Nesting -/

/-- Wherever the operation ends, it is part of a run, on the same thread and with the same symbols. When
it comes back, the thread is in the scopes that it was in before, whatever their symbols are bound to by
then; when it fails, it may be in further scopes. -/
def Nests (x : Op γ α) (m : Machine γ) (symbols : List Value) (d : State) : Prop :=
  ∃ symbols' d' inner outer, Run (Machine.ending (x m)) symbols' d' ∧ symbols ⊆ symbols' ∧
    (Machine.ending (x m)).running.id = m.running.id ∧
    (d'.threads m.running.id).scopes = inner ++ outer ∧
    shape outer = shape (d.threads m.running.id).scopes ∧
    ∀ a m', x m = .ok a m' → inner = []

/-- Operations that leave the scopes as they are. -/
theorem nests_of_run {x : Op γ α} (hending : Machine.ending (x m) = m') (h : Run m' symbols d)
    (hid : m'.running.id = m.running.id) : Nests x m symbols d := by
  subst hending
  exact ⟨symbols, d, [], _, h, List.Subset.refl _, hid, rfl, rfl, fun _ _ _ => rfl⟩

theorem nests_of_withScopes {x : Op γ α} {outer : List Opened} (hending : Machine.ending (x m) = m')
    (h : Run m' symbols₂ (d₂.withScopes m.running.id outer)) (hsymbols : symbols ⊆ symbols₂)
    (hid : m'.running.id = m.running.id)
    (hshape : shape outer = shape (d.threads m.running.id).scopes) : Nests x m symbols d := by
  subst hending
  exact ⟨symbols₂, _, [], outer, h, hsymbols, hid, State.scopes_withScopes .., hshape,
    fun _ _ _ => rfl⟩

theorem nests_setSymbolValue (h : Run m symbols d) (hsymbol : symbol ∈ symbols)
    (hvalue : value ≠ .empty) : Nests (Machine.setSymbolValue symbol value) m symbols d := by
  have hact := h.act (.setSymbolValue symbol value) ⟨hsymbol, hvalue⟩ nofun
  refine ⟨symbols, _, [], _, hact, List.Subset.refl _, ?_, rfl, ?_, fun _ _ _ => rfl⟩
  · exact (Machine.after_same (.setSymbolValue symbol value) m).1
  · rw [State.threads_act_self]
    exact shape_assign symbol value _

theorem Nests.bind {β : Type} {x : Op γ α} {f : α → Op γ β} (hx : Nests x m symbols d)
    (hf : ∀ a m' symbols' d', x m = .ok a m' → Run m' symbols' d' → symbols ⊆ symbols' →
      Nests (f a) m' symbols' d') : Nests (x >>= f) m symbols d := by
  obtain ⟨symbols', d', inner, outer, hrun, hsymbols, hid, hscopes, hshape, hreturned⟩ := hx
  cases hcase : x m with
  | ok a m' =>
    rw [hcase] at hrun hid
    obtain rfl := hreturned a m' hcase
    obtain ⟨symbols₂, d₂, inner₂, outer₂, hrun₂, hsymbols₂, hid₂, hscopes₂, hshape₂, hreturned₂⟩ :=
      hf a m' symbols' d' hcase hrun hsymbols
    have hid' : m'.running.id = m.running.id := hid
    rw [hid'] at hscopes₂ hshape₂ hid₂
    rw [hscopes, List.nil_append] at hshape₂
    unfold Nests
    rw [Machine.bind_of_ok hcase]
    exact ⟨symbols₂, d₂, inner₂, outer₂, hrun₂, List.Subset.trans hsymbols hsymbols₂, hid₂, hscopes₂,
      hshape₂.trans hshape, hreturned₂⟩
  | error fault m' =>
    rw [hcase] at hrun hid
    unfold Nests
    rw [Machine.bind_of_error hcase]
    exact ⟨symbols', d', inner, outer, hrun, hsymbols, hid, hscopes, hshape,
      fun _ _ heq => by cases heq⟩

/-- A binding around a body that nests. -/
theorem nests_binding (h : Run m symbols d) (hsymbol : symbol ∈ symbols) (hvalue : value ≠ .empty)
    (hbody : ∀ scope m₁, Machine.enterBinding symbol value m = .ok (.ok scope) m₁ →
      Nests body m₁ symbols (d.act m.running.id (.enterBinding symbol value))) :
    Nests (Machine.binding symbol value body) m symbols d := by
  obtain ⟨_, hagrees⟩ := h.agrees
  obtain ⟨cell, hcell, -⟩ := hagrees.symbol symbol hsymbol
  obtain ⟨hid, -⟩ := Machine.after_same (.enterBinding symbol value) m
  rw [Machine.after] at hid
  cases hrun : Machine.enterBinding symbol value m with
  | error fault m' =>
    have hbinding : Machine.binding symbol value body m = .error fault m' := by
      rw [Machine.binding, Machine.bind_of_ok Machine.get_apply, if_pos hcell.isKind]
      exact Machine.bind_of_error hrun
    rw [hrun] at hid
    exact nests_of_run (by rw [hbinding]; rfl) (h.unbindable hsymbol hrun) hid
  | ok entered m₁ =>
    rw [hrun] at hid
    cases entered with
    | error unwind =>
      obtain ⟨-, -, hbinding, hsame⟩ := h.refused hsymbol hvalue hrun
      exact nests_of_run (by rw [hbinding]; rfl) hsame hid
    | ok scope =>
      have hid₁ : m₁.running.id = m.running.id := hid
      obtain ⟨-, hentered, -⟩ := h.entered hsymbol hvalue hrun
      obtain ⟨symbols', d', inner, outer, h₂, hsymbols, hid₂, hscopes, hshape, hreturned⟩ :=
        hbody scope m₁ hrun
      rw [hid₁] at hid₂ hscopes hshape
      rw [hentered] at hshape
      obtain ⟨top, rest, rfl, htop, hrest⟩ := List.map_eq_cons_iff.mp hshape
      cases hcase : body m₁ with
      | ok result m₂ =>
        rw [hcase] at h₂ hid₂
        have hsame : m₂.running.id = m.running.id := hid₂
        obtain rfl := hreturned result m₂ hcase
        rw [← hsame] at hscopes
        obtain ⟨m', hbinding, hrun', hid'⟩ :=
          h.returned hsymbol hrun hcase h₂ hscopes (congrArg Prod.fst htop)
        rw [hsame] at hrun' hid'
        exact nests_of_withScopes (by rw [hbinding]; rfl) hrun' hsymbols hid' hrest
      | error fault m₂ =>
        rw [hcase] at h₂ hid₂
        have hsame : m₂.running.id = m.running.id := hid₂
        have hlength : rest.length = (d.threads m.running.id).scopes.length := by
          simpa using congrArg List.length hrest
        rw [List.append_cons, ← hsame] at hscopes
        obtain ⟨m', hbinding, hrun', hid'⟩ :=
          h.failed hsymbol hvalue hrun hcase h₂ hscopes hlength
        rw [hsame] at hrun' hid'
        exact nests_of_withScopes (by rw [hbinding]; rfl) hrun' hsymbols hid' hrest

end Run

/-! ## Deep binding -/

/-- What deep binding promises, said of the operations of a machine. Scopes that are entered and left,
assignments and new symbols lead to machines that can go on in the same way. -/
structure Implements (m : Machine γ) (symbols : List Value) (d : State) : Prop where
  /-- A symbol has the value of its innermost binding on a thread, or its global value. -/
  symbolValue : ∀ thread ∈ m.threads, ∀ symbol ∈ symbols,
    Machine.symbolValue symbol { m with running := thread }
      = .ok ((d.innermost thread.id symbol).getD (d.globals symbol)) { m with running := thread }
  isBound : ∀ thread ∈ m.threads, ∀ symbol ∈ symbols,
    Machine.isBound symbol { m with running := thread }
      = .ok (d.value thread.id symbol != .unbound) { m with running := thread }
  /-- An assignment changes the innermost binding or, if there is none, the global value. -/
  setSymbolValue : ∀ symbol ∈ symbols, ∀ value, value ≠ .empty →
    ∃ m', Machine.setSymbolValue symbol value m = .ok () m' ∧
      Run m' symbols (d.act m.running.id (.setSymbolValue symbol value)) ∧
      ∀ thread other, (d.act m.running.id (.setSymbolValue symbol value)).value thread other
        = if other = symbol ∧ d.shares m.running.id symbol thread then value
          else d.value thread other
  /-- What is done with other symbols and on other threads is not seen, but for global values. -/
  isolated : ∀ act, Proper symbols act → ∀ thread ∈ (m.after act).threads, ∀ symbol ∈ symbols,
    (thread.id ≠ m.running.id ∨ symbol ∉ (d.threads m.running.id).concerned act) →
    (∀ value, act = .setSymbolValue symbol value → d.innermost m.running.id symbol ≠ none) →
    Machine.symbolValue symbol { m.after act with running := thread }
      = .ok (d.value thread.id symbol) { m.after act with running := thread }
  /-- A symbol is bound as long as there are not too many scopes. -/
  bindable : ∀ symbol ∈ symbols, ∀ value, m.nextBinding < ControlStack.tableLimit →
    ∃ entered m', Machine.enterBinding symbol value m = .ok entered m' ∧
      (entered.isOk ↔ (d.threads m.running.id).scopes.length < (d.threads m.running.id).frameLimit)
  /-- A new binding is the innermost one, inside all others. -/
  entered : ∀ symbol ∈ symbols, ∀ value, value ≠ .empty → ∀ scope m₁,
    Machine.enterBinding symbol value m = .ok (.ok scope) m₁ →
    Run m₁ symbols (d.act m.running.id (.enterBinding symbol value)) ∧
      ((d.act m.running.id (.enterBinding symbol value)).threads m.running.id).scopes
        = ⟨scope.serial, some (symbol, value)⟩ :: (d.threads m.running.id).scopes
  /-- A binding that is refused changes nothing that can be seen. -/
  refused : ∀ symbol ∈ symbols, ∀ value, value ≠ .empty → ∀ unwind m',
    Machine.enterBinding symbol value m = .ok (.error unwind) m' →
    unwind = .error (.frameStackOverflow (d.threads m.running.id).frameLimit) ∧
      (d.threads m.running.id).frameLimit ≤ (d.threads m.running.id).scopes.length ∧
      (∀ body, Machine.binding symbol value body m = .ok (.error unwind) m') ∧ Run m' symbols d
  /-- A body that comes back with a value, an exit or an error ends its binding and no other. -/
  returned : ∀ symbol ∈ symbols, ∀ value body scope m₁ result m₂ symbols₂ d₂ inner outer,
    Machine.enterBinding symbol value m = .ok (.ok scope) m₁ → body m₁ = .ok result m₂ →
    Run m₂ symbols₂ d₂ → (d₂.threads m₂.running.id).scopes = inner :: outer →
    inner.serial = scope.serial →
    ∃ m', Machine.binding symbol value body m = .ok result m' ∧
      Run m' symbols₂ (d₂.withScopes m₂.running.id outer) ∧ m'.running.id = m₂.running.id
  /-- A body that fails ends its binding and those inside it, and no other. -/
  failed : ∀ symbol ∈ symbols, ∀ value, value ≠ .empty →
    ∀ body scope m₁ fault m₂ symbols₂ d₂ inner outer,
    Machine.enterBinding symbol value m = .ok (.ok scope) m₁ → body m₁ = .error fault m₂ →
    Run m₂ symbols₂ d₂ → (d₂.threads m₂.running.id).scopes = inner ++ outer →
    outer.length = (d.threads m.running.id).scopes.length →
    ∃ m', Machine.binding symbol value body m = .error fault m' ∧
      Run m' symbols₂ (d₂.withScopes m₂.running.id outer) ∧ m'.running.id = m₂.running.id
  nests_setSymbolValue : ∀ symbol ∈ symbols, ∀ value, value ≠ .empty →
    Run.Nests (Machine.setSymbolValue symbol value) m symbols d
  nests_bind : ∀ {α β : Type} (x : Op γ α) (f : α → Op γ β), Run.Nests x m symbols d →
    (∀ a m' symbols' d', x m = .ok a m' → Run m' symbols' d' → symbols ⊆ symbols' →
      Run.Nests (f a) m' symbols' d') → Run.Nests (x >>= f) m symbols d
  /-- A binding around a body that nests is itself nested in the scopes around it. -/
  nests_binding : ∀ symbol ∈ symbols, ∀ value, value ≠ .empty → ∀ body,
    (∀ scope m₁, Machine.enterBinding symbol value m = .ok (.ok scope) m₁ →
      Run.Nests body m₁ symbols (d.act m.running.id (.enterBinding symbol value))) →
    Run.Nests (Machine.binding symbol value body) m symbols d
  /-- A symbol that is made is a new one without a value, and all others are as they were. -/
  makeSymbol : ∀ text v m', Tracked [] m symbols d → Machine.Host.plain.Calm [] text m →
    m'.nextBinding < wordLimit → Machine.makeSymbol text m = .ok v m' →
    ∃ symbols' d', Makes m symbols d v m' symbols' d'
  /-- A name has a symbol already, or it gets a new one. -/
  intern : ∀ text v m', Tracked [] m symbols d →
    Machine.Host.plain.Calm [] text { m with held := .symbols :: m.held } →
    m'.nextBinding < wordLimit → Machine.intern text m = .ok v m' →
    m.symbols.get? text = some v ∧ v ∈ symbols ∧ m'.symbols = m.symbols ∧ Run m' symbols d ∨
      m.symbols.get? text = none ∧ m'.symbols.get? text = some v ∧
        ∃ symbols' d', Makes m symbols d v m' symbols' d'
  /-- So it is on a host. If native frames are scanned there, then finalizers may make symbols, too. -/
  makeSymbol_host : ∀ (host : Machine.Host) frames text v m', Tracked (host.seen frames) m symbols d →
    host.Calm frames text m → m'.nextBinding < wordLimit →
    host.makeSymbol frames text m = .ok v m' → ∃ symbols' d', Makes m symbols d v m' symbols' d'
  intern_host : ∀ (host : Machine.Host) frames text v m', Tracked (host.seen frames) m symbols d →
    host.Calm frames text { m with held := .symbols :: m.held } →
    m'.nextBinding < wordLimit → host.intern frames text m = .ok v m' →
    m.symbols.get? text = some v ∧ v ∈ symbols ∧ m'.symbols = m.symbols ∧ Run m' symbols d ∨
      m.symbols.get? text = none ∧ m'.symbols.get? text = some v ∧
        ∃ symbols' d', Makes m symbols d v m' symbols' d'

/-- Along every run, the tables of the threads implement deep binding. -/
theorem Run.implements_deep_binding {m : Machine γ} {symbols : List Value} {d : State}
    (h : Run m symbols d) : Implements m symbols d := by
  obtain ⟨key, hagrees⟩ := h.agrees
  exact {
    symbolValue := fun thread hthread symbol hsymbol => hagrees.symbolValue_eq hthread hsymbol
    isBound := fun thread hthread symbol hsymbol => hagrees.isBound_eq hthread hsymbol
    setSymbolValue := fun symbol hsymbol value hvalue => by
      obtain ⟨m', hrun, hassigned⟩ := h.setSymbolValue hsymbol hvalue
      exact ⟨m', hrun, hassigned, fun thread other => State.value_assigned thread⟩
    isolated := fun act hproper thread hthread symbol hsymbol hother hglobal =>
      h.symbolValue_after hproper hthread hsymbol hother hglobal
    bindable := fun symbol hsymbol value hcount => h.bindable hsymbol value hcount
    entered := fun symbol hsymbol value hvalue scope m₁ hrun => by
      obtain ⟨hbound, hscopes, -⟩ := h.entered hsymbol hvalue hrun
      exact ⟨hbound, hscopes⟩
    refused := fun symbol hsymbol value hvalue unwind m' hrun => h.refused hsymbol hvalue hrun
    returned := fun symbol hsymbol value body scope m₁ result m₂ symbols₂ d₂ inner outer hrun hbody h₂ =>
      h.returned hsymbol hrun hbody h₂
    failed := fun symbol hsymbol value hvalue body scope m₁ fault m₂ symbols₂ d₂ inner outer hrun
        hbody h₂ => h.failed hsymbol hvalue hrun hbody h₂
    nests_setSymbolValue := fun symbol hsymbol value hvalue => h.nests_setSymbolValue hsymbol hvalue
    nests_bind := fun x f hx hf => hx.bind hf
    nests_binding := fun symbol hsymbol value hvalue body hbody => h.nests_binding hsymbol hvalue hbody
    makeSymbol := fun text v m' htracked hcalm hcount hrun => by
      have hplain : Tracked (Machine.Host.plain.seen []) m symbols d := htracked
      rw [← Machine.Host.plain_makeSymbol []] at hrun
      exact hplain.makeSymbol hcount hcalm hrun
    intern := fun text v m' htracked hcalm hcount hrun => by
      have hplain : Tracked (Machine.Host.plain.seen []) m symbols d := htracked
      rw [← Machine.Host.plain_intern []] at hrun
      exact hplain.intern hcount hcalm hrun
    makeSymbol_host := fun host frames text v m' htracked hcalm hcount hrun =>
      htracked.makeSymbol hcount hcalm hrun
    intern_host := fun host frames text v m' htracked hcalm hcount hrun =>
      htracked.intern hcount hcalm hrun }

theorem run_smallMachine (globals : Value → Value) :
    Run Machine.smallMachine [] ⟨globals, fun _ => .new Machine.smallOptions.frameLimit⟩ :=
  .start (show Machine.start .debug Machine.smallOptions () = .ok Machine.smallMachine from rfl) globals

/-- No finalizer is attached there that could run while a symbol is made. -/
theorem calm_smallMachine (text : String) : Machine.Host.plain.Calm [] text Machine.smallMachine :=
  ⟨Machine.Host.honest_smallMachine, .inl rfl, .inr (Machine.Host.quiet_of_unattended
    Machine.Host.sound_smallMachine Machine.Host.honest_smallMachine (.inl rfl) ⟨rfl, rfl⟩)⟩

/-- The name is long enough to be of the size class of its symbol. -/
def longName : String := String.ofList (List.replicate 40 'x')

/-- A symbol is made there. -/
theorem made_smallMachine : ∃ (symbol : Value) (m : Machine Unit) (others : List Value) (d : State),
    Machine.makeSymbol longName Machine.smallMachine = .ok symbol m ∧ Run m (symbol :: others) d ∧
      d.globals symbol = .unbound ∧ m.nextBinding = 1 ∧
      ∀ thread, d.threads thread = .new Machine.smallOptions.frameLimit := by
  have hrun : returns (fun _ m => m.nextBinding == 1)
      (Machine.makeSymbol longName Machine.smallMachine) = true := by decide +kernel
  obtain ⟨symbol, m, hmade, hcount⟩ := exists_of_returns hrun
  replace hcount : m.nextBinding = 1 := beq_iff_eq.mp hcount
  have htracked : Tracked (Machine.Host.plain.seen []) Machine.smallMachine [] _ :=
    ⟨run_smallMachine fun _ => .unbound, Machine.Host.sound_smallMachine, List.forall_mem_nil _,
      List.Subset.refl _⟩
  rw [← Machine.Host.plain_makeSymbol []] at hmade
  obtain ⟨others, d, hmakes⟩ :=
    htracked.makeSymbol (by rw [hcount]; decide) (calm_smallMachine longName) hmade
  rw [Machine.Host.plain_makeSymbol] at hmade
  exact ⟨symbol, m, others, _, hmade, hmakes.run, Function.update_self .., hcount,
    fun thread => congrFun hmakes.threads thread⟩

/-- A symbol is made and bound twice, and the inner binding is assigned to before its body fails: the
outer one is back. -/
theorem Run.implements_deep_binding_smallMachine :
    ∃ (symbol : Value) (m₀ m m' : Machine Unit) (scope : ControlStack.Scope),
      Machine.makeSymbol longName Machine.smallMachine = .ok symbol m₀ ∧
      Machine.enterBinding symbol .t m₀ = .ok (.ok scope) m ∧
      Machine.symbolValue symbol m = .ok .t m ∧
      Machine.binding symbol .nil (do
        Machine.setSymbolValue symbol .unbound
        throw (.panic "out of order")) m = .error (.panic "out of order") m' ∧
      Machine.symbolValue symbol m' = .ok .t m' := by
  obtain ⟨symbol, m₀, others, d₀, hmade, h₀, -, hcount₀, hthreads₀⟩ := made_smallMachine
  have hmem : symbol ∈ symbol :: others := List.mem_cons_self
  have hscopes₀ : (d₀.threads m₀.running.id).scopes = [] := by rw [hthreads₀]; rfl
  have hlimit₀ : 1 < (d₀.threads m₀.running.id).frameLimit := by rw [hthreads₀]; decide
  -- the outer binding
  obtain ⟨scope, m, henter, hid, hcount⟩ :=
    h₀.binds hmem .t (by rw [hcount₀]; decide) (by rw [hscopes₀]; exact Nat.lt_of_succ_lt hlimit₀)
  obtain ⟨h, hscopes⟩ := h₀.implements_deep_binding.entered symbol hmem .t (by decide) scope m henter
  have hlimit := State.frameLimit_act d₀ m₀.running.id (.enterBinding symbol .t) m₀.running.id
  generalize d₀.act m₀.running.id (.enterBinding symbol .t) = d at h hscopes hlimit
  rw [hscopes₀, ← hid] at hscopes
  rw [← hid] at hlimit hlimit₀
  -- the inner binding
  obtain ⟨scope₁, m₁, henter₁, hid₁, -⟩ := h.binds hmem .nil (by rw [hcount, hcount₀]; decide)
    (by rw [hscopes, hlimit]; exact hlimit₀)
  obtain ⟨h₁, hscopes₁⟩ :=
    h.implements_deep_binding.entered symbol hmem .nil (by decide) scope₁ m₁ henter₁
  generalize d.act m.running.id (.enterBinding symbol .nil) = d₁ at h₁ hscopes₁
  obtain ⟨m₂, hset, h₂, -⟩ := h₁.implements_deep_binding.setSymbolValue symbol hmem .unbound (by decide)
  have hid₂ : m₂.running.id = m₁.running.id := by
    have hsame := Machine.after_same (.setSymbolValue symbol .unbound) m₁
    rw [Machine.after, hset] at hsame
    exact hsame.1
  have hscopes₂ : ((d₁.act m₁.running.id (.setSymbolValue symbol .unbound)).threads
      m₂.running.id).scopes
        = [⟨scope₁.serial, some (symbol, .unbound)⟩] ++ (d.threads m.running.id).scopes := by
    rw [hid₂, State.threads_act_self, Environment.act, hid₁, hscopes₁]
    simp only [assign, if_true, List.singleton_append]
  have hbody : (do Machine.setSymbolValue symbol .unbound; throw (.panic "out of order") :
      Op Unit (Outcome Value)) m₁ = .error (.panic "out of order") m₂ := Machine.bind_of_ok hset
  obtain ⟨m', hfailed, h', hid'⟩ := h.implements_deep_binding.failed symbol hmem .nil (by decide) _
    scope₁ m₁ _ m₂ _ _ _ _ henter₁ hbody h₂ hscopes₂ rfl
  have hlookup : lookup symbol (d.threads m.running.id).scopes = some .t := by
    rw [hscopes]
    exact if_pos rfl
  refine ⟨symbol, m₀, m, m', scope, hmade, henter, ?_, hfailed, ?_⟩
  · have hvalue := h.implements_deep_binding.symbolValue m.running (Agrees.running_mem m) symbol hmem
    rwa [State.innermost, hlookup] at hvalue
  · have hvalue :=
      h'.implements_deep_binding.symbolValue m'.running (Agrees.running_mem m') symbol hmem
    rwa [State.innermost, hid', State.scopes_withScopes, hlookup] at hvalue

end Dynamic

namespace Machine

/-! ## Symbols with the same number -/

/-- A machine that collects before it has four kilobytes of objects, and that does not scan native
stacks. -/
def tightMachine : Machine Unit :=
  (Machine.start .release { Options.default with
    heap := ⟨4096, 1048576, .two, true⟩, stackScan := false } ()).toOption.get rfl

/-- Two names that are not of the size class of their symbols. -/
def nameOf (char : Char) : String := String.ofList (List.replicate 64 char)

/-- A name that takes as much memory as a symbol. Where a symbol has its number, it has zeros. -/
def zeroName : String := String.ofList (List.replicate 32 'a' ++ [Char.ofNat 0])

/-- While a symbol is made for `zeroName`, the finalizer of a vector that nobody has any more collects and
makes a symbol of its own. -/
def makeSymbols : Op Unit (Value × Value) := do
  let y ← intern (nameOf 'y')
  let abandoned ← allocateWords .vector 500
  onHeap (Heap.registerFinalizer abandoned [.collect, .intern (nameOf 'x')])
  discard (makeSymbol zeroName)
  let x ← intern (nameOf 'x')
  return (x, y)

/-- The memory of the third name was taken by the symbol `x` when it is written to. From then on `x` has
the number of `y`, and a binding of `x` is one of `y` as well. -/
theorem binding_seen_by_other : ∃ x y m, makeSymbols tightMachine = .ok (x, y) m ∧ x ≠ y ∧
    m.symbols.get? (nameOf 'x') = some x ∧ m.symbols.get? (nameOf 'y') = some y ∧
    m.heap.isLive x = true ∧ m.heap.isLive y = true ∧ (∃ m', symbolValue y m = .ok .unbound m') ∧
    ∃ m', binding x .t (do return .ok (← symbolValue y)) m = .ok (.ok .t) m' := by
  have hrun : returns (fun p m => (p.1 != p.2 && m.symbols.get? (nameOf 'x') == some p.1 &&
      m.symbols.get? (nameOf 'y') == some p.2 && m.heap.isLive p.1 && m.heap.isLive p.2) &&
      returns (fun v _ => v == .unbound) (symbolValue p.2 m) &&
      returns (fun result _ => result == .ok .t)
        (binding p.1 .t (do return .ok (← symbolValue p.2)) m))
      (makeSymbols tightMachine) = true := by decide +kernel
  obtain ⟨⟨x, y⟩, m, hok, hcheck⟩ := exists_of_returns hrun
  simp only [Bool.and_eq_true, bne_iff_ne, beq_iff_eq] at hcheck
  obtain ⟨⟨⟨⟨⟨⟨hne, hx⟩, hy⟩, hliveX⟩, hliveY⟩, hbefore⟩, hinside⟩ := hcheck
  obtain ⟨v, m₁, hvalue, hv⟩ := exists_of_returns hbefore
  obtain ⟨result, m₂, hbinding, hresult⟩ := exists_of_returns hinside
  obtain rfl := beq_iff_eq.mp hv
  obtain rfl := beq_iff_eq.mp hresult
  exact ⟨x, y, m, hok, hne, hx, hy, hliveX, hliveY, ⟨m₁, hvalue⟩, m₂, hbinding⟩

end Machine

end Substrate
