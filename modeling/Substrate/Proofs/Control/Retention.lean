import Mathlib.Logic.Relation
import Substrate.Proofs.Control.References
import Substrate.Proofs.Control.Symbols
import Substrate.Proofs.Machine.Roots

/-!
# Control keeps what it refers to

Collections mark from the control stacks of all threads. So whatever a control stack refers to is an
object as long as it refers to it, however acts of control, collections and the client's own work follow
each other on however many threads. `Machine.Secure` is the invariant of such runs.

Scopes are entered and left by separate acts in a run. `Machine.Performs` puts them together again: a
catch frame around a body that is a run is itself a run, and so are all other scopes (`Machine.Scoped`).
-/

namespace Substrate.Machine

variable {γ α : Type} {m m' : Machine γ}

/-! ## Secure machines -/

/-- What holds of a machine at any time: whatever its control stacks and its symbol table refer to is an
object. -/
structure Secure (m : Machine γ) : Prop where
  heap : m.heap.Rested
  mode : m.heap.mode = m.mode
  control : ∀ thread ∈ m.threads, thread.control.Holds m.heap.space.Accepts
  symbols : ∀ symbol ∈ m.symbols.symbols, m.heap.space.Accepts symbol

theorem Secure.running (hs : Secure m) : m.running.control.Holds m.heap.space.Accepts :=
  hs.control m.running (List.mem_append_right _ List.mem_cons_self)

theorem Secure.permitted (hs : Secure m)
    (hroots : ∀ location ∈ m.roots.locations, m.heap.space.Accepts ⟨m.memory.read location⟩) :
    ∀ call ∈ m.rootCalls, call.Permitted m.heap.space := by
  intro call hcall
  simp only [rootCalls, List.mem_append, List.mem_map, List.mem_flatMap] at hcall
  obtain ⟨_, ⟨location, hlocation, rfl⟩, rfl⟩ | ⟨_, _, rfl⟩ | ⟨v, ⟨thread, hthread, hv⟩, rfl⟩ |
    ⟨symbol, hsymbol, rfl⟩ := hcall
  · exact hroots location hlocation
  · trivial
  · exact ControlStack.holds_iff.mp (hs.control thread hthread) v hv
  · exact hs.symbols symbol hsymbol

/-- A collection keeps what the control stacks refer to. -/
theorem Secure.collect (hs : Secure m) (ht : m.heap.space.Traceable)
    (hroots : ∀ location ∈ m.roots.locations, m.heap.space.Accepts ⟨m.memory.read location⟩)
    {stats : Stats} (hrun : collectLocked m = .ok stats m') :
    Secure m' ∧ m'.heap.space.Traceable := by
  obtain ⟨hsurvives, hbeside, hmode⟩ :=
    survives_of_collectLocked hs.heap hs.mode ht (hs.permitted hroots) hrun
  have hkept : ∀ v, .value v ∈ m.rootCalls → m'.heap.space.Accepts v := fun v hv href =>
    (hsurvives.live _).mpr (.root (.inl (.inl ⟨_, hv, href, rfl⟩)))
  have hthreads : m'.threads = m.threads := by
    rw [threads, threads, hbeside.running, hbeside.waiting]
  refine ⟨⟨hsurvives.wellFormed.rested, ?_, fun thread hthread => ?_, fun symbol hsymbol => ?_⟩,
    hsurvives.wellFormed.traceable⟩
  · rw [hmode, hs.mode, hbeside.mode]
  · rw [hthreads] at hthread
    refine ControlStack.holds_iff.mpr fun v hv => hkept v ?_
    simp only [rootCalls, List.mem_append, List.mem_map, List.mem_flatMap]
    exact .inr (.inr (.inl ⟨v, ⟨thread, hthread, hv⟩, rfl⟩))
  · rw [hbeside.symbols] at hsymbol
    refine hkept symbol ?_
    simp only [rootCalls, List.mem_append, List.mem_map]
    exact .inr (.inr (.inr ⟨symbol, hsymbol, rfl⟩))

/-! ## Runs -/

/-- One step of a run: an act of the running thread on live values, a collection that is completed, or
anything else that threads and clients do. Acts are not interrupted: there is no safepoint in them. -/
inductive Step : Machine γ → Machine γ → Prop where
  | act {m : Machine γ} (act : Act) (hpassed : ∀ v ∈ act.passed, m.heap.space.Accepts v) :
      Step m (m.after act)
  | collect {m m' : Machine γ} {stats : Stats} (ht : m.heap.space.Traceable)
      (hroots : ∀ location ∈ m.roots.locations, m.heap.space.Accepts ⟨m.memory.read location⟩)
      (hrun : collectLocked m = .ok stats m') : Step m m'
  | attach {m m' : Machine γ} (hrun : Machine.attach m = .ok () m') : Step m m'
  | detach {m m' : Machine γ} (hrun : Machine.detach m = .ok () m') : Step m m'
  | switch {m m' : Machine γ} (hthreads : m'.threads.Perm m.threads)
      (hrest : m' = { m with running := m'.running, waiting := m'.waiting }) : Step m m'
  | work {m m' : Machine γ} (hmode : m'.mode = m.mode)
      (hheap : m'.heap = m.heap ∨ Heap.Work m.heap m'.heap)
      (hcontrol : m'.threads.map (·.control) = m.threads.map (·.control))
      (hsymbols : ∀ symbol ∈ m'.symbols.symbols,
        symbol ∈ m.symbols.symbols ∨ m'.heap.space.Accepts symbol) : Step m m'

/-- The machines at the end of a run. Native stacks are not scanned. -/
inductive Reachable : Machine γ → Prop where
  | start {mode : Mode} {options : Options} {client : γ} {m : Machine γ}
      (hscan : options.stackScan = false) (hrun : Machine.start mode options client = .ok m) :
      Reachable m
  | step {m m' : Machine γ} (h : Reachable m) (hstep : Step m m') : Reachable m'

theorem accepts_empty (s : Space) : s.Accepts .empty := fun href => by cases href

theorem accepts_nil (s : Space) : s.Accepts .nil := fun href => by cases href

/-- What is passed on from one state to the next stays secure. -/
theorem Secure.keeps (hs : Secure m) (hheap : m.heap.Keeps m'.heap) (hmode : m'.mode = m.mode)
    (hcontrol : ∀ thread ∈ m'.threads, thread.control.Holds m.heap.space.Accepts)
    (hsymbols : ∀ symbol ∈ m'.symbols.symbols,
      symbol ∈ m.symbols.symbols ∨ m'.heap.space.Accepts symbol) : Secure m' := by
  refine ⟨hheap.rested, hheap.mode.trans (hs.mode.trans hmode.symm), fun thread hthread => ?_,
    fun symbol hsymbol => ?_⟩
  · exact (hcontrol thread hthread).mono fun _ => hheap.accepts
  · exact (hsymbols symbol hsymbol).elim (fun hold => hheap.accepts (hs.symbols symbol hold)) id

theorem Secure.turned {c : ControlStack} (hs : Secure m) (hc : c.Holds m.heap.space.Accepts)
    (hturned : Turned m c m') : Secure m' := by
  obtain ⟨log, rfl⟩ := hturned
  refine hs.keeps hs.heap.keeps rfl (fun thread hthread => ?_) fun _ => .inl
  rcases List.mem_append.mp hthread with hwaiting | hrunning
  · exact hs.control thread (List.mem_append_left _ hwaiting)
  · obtain rfl := List.mem_singleton.mp hrunning
    exact hc

/-- An assignment to a global value writes to an object. -/
theorem Secure.assign (hs : Secure m) {symbol value : Value} {word : Nat}
    (hsymbol : m.heap.space.Accepts symbol)
    (hfield : m.heap.space.locate m.mode symbol .symbolValue = .ok (some word)) :
    m.heap.Keeps { m.heap with space := m.heap.space.setWord symbol.address word value.bits } := by
  obtain ⟨href, -, -⟩ := Space.locate_some hfield
  obtain ⟨cell, hcell⟩ := Option.isSome_iff_exists.mp (hsymbol href)
  exact hs.heap.write hcell word value.bits

theorem Secure.act (hs : Secure m) {act : Act} (hpassed : ∀ v ∈ act.passed, m.heap.space.Accepts v) :
    Secure (m.after act) := by
  obtain ⟨c, hturned, hturns⟩ | ⟨symbol, value, index, word, rfl, -, -, hfield, heq⟩ :=
    after_cases act m
  · exact hs.turned (hturns.holds (accepts_empty _) hs.running hpassed) hturned
  · rw [heq]
    exact hs.keeps (hs.assign (hpassed symbol List.mem_cons_self) hfield) rfl hs.control
      fun _ => .inl

theorem Secure.attach (hs : Secure m) (hrun : Machine.attach m = .ok () m') : Secure m' := by
  cases hrun
  refine hs.keeps hs.heap.keeps rfl (fun thread hthread => ?_) fun _ => .inl
  rcases List.mem_append.mp hthread with hwaiting | hrunning
  · refine hs.control thread ?_
    rw [List.reverse_cons] at hwaiting
    exact hwaiting
  · obtain rfl := List.mem_singleton.mp hrunning
    exact ControlStack.holds_new _ _

theorem Secure.detach (hs : Secure m) (hrun : Machine.detach m = .ok () m') : Secure m' := by
  obtain ⟨hthreads, hrest⟩ := detach_threads hrun
  rw [hrest]
  exact hs.keeps hs.heap.keeps rfl
    (fun thread hthread => hs.control thread (hthreads.subset hthread)) fun _ => .inl

/-- Every step keeps a machine secure. -/
theorem Secure.step (hs : Secure m) (hstep : Step m m') : Secure m' := by
  cases hstep with
  | act act hpassed => exact hs.act hpassed
  | collect ht hroots hrun => exact (hs.collect ht hroots hrun).1
  | attach hrun => exact hs.attach hrun
  | detach hrun => exact hs.detach hrun
  | switch hthreads hrest =>
    rw [hrest]
    exact hs.keeps hs.heap.keeps rfl
      (fun thread hthread => hs.control thread (hthreads.mem_iff.mp hthread)) fun _ => .inl
  | work hmode hheap hcontrol hsymbols =>
    have hkeeps : m.heap.Keeps m'.heap := by
      obtain heq | hwork := hheap
      · rw [heq]
        exact hs.heap.keeps
      · exact hs.heap.work hwork
    refine hs.keeps hkeeps hmode (fun thread hthread => ?_) hsymbols
    have hmem : thread.control ∈ m.threads.map (·.control) := hcontrol ▸ List.mem_map_of_mem hthread
    obtain ⟨old, hold, heq⟩ := List.mem_map.mp hmem
    rw [← heq]
    exact hs.control old hold

theorem Reachable.secure (h : Reachable m) : Secure m := by
  induction h with
  | @start mode options client m _ hrun =>
    obtain ⟨hmode, hheap, hsymbols, -, hthreads⟩ := start_ok hrun
    refine ⟨?_, ?_, fun thread hthread => ?_, ?_⟩
    · rw [hheap]
      exact (Heap.wellFormed_new mode options.heap).rested
    · rw [hheap, hmode]
      rfl
    · rw [hthreads] at hthread
      obtain rfl := List.mem_singleton.mp hthread
      exact ControlStack.holds_new _ _
    · rw [hsymbols]
      exact List.forall_mem_nil _
  | step _ hstep ih => exact ih.step hstep

/-! ## Scopes are runs -/

/-- Wherever the operation ends, it leads there step by step. -/
def Performs (x : Op γ α) (m : Machine γ) : Prop :=
  Relation.ReflTransGen Step m (ending (x m))

/-- If the operation comes back with a value, then with a live one. -/
def Answers (x : Op γ (Outcome Value)) (m : Machine γ) : Prop :=
  ∀ value m', x m = .ok (.ok value) m' → m'.heap.space.Accepts value

theorem Reachable.steps (h : Reachable m) (hsteps : Relation.ReflTransGen Step m m') :
    Reachable m' := by
  induction hsteps with
  | refl => exact h
  | tail _ hstep ih => exact ih.step hstep

theorem performs_pure (a : α) : Performs (pure a) m := .refl

theorem Performs.steps {x : Op γ α} (hx : Performs x m) {a : α} (hrun : x m = .ok a m') :
    Relation.ReflTransGen Step m m' := by
  unfold Performs at hx
  rwa [hrun] at hx

theorem Performs.bind {β : Type} {x : Op γ α} {f : α → Op γ β} (hx : Performs x m)
    (hf : ∀ a m', x m = .ok a m' → Performs (f a) m') : Performs (x >>= f) m := by
  unfold Performs at hx ⊢
  cases hrun : x m with
  | ok a m' =>
    rw [bind_of_ok hrun]
    rw [hrun] at hx
    exact hx.trans (hf a m' hrun)
  | error fault m' =>
    rw [bind_of_error hrun]
    rwa [hrun] at hx

theorem Performs.guarded {x : Op γ α} (hx : Performs x m) (scope : ControlStack.Scope) :
    Performs (guarded scope x) m := by
  unfold Performs at hx ⊢
  cases hrun : x m with
  | ok a m' =>
    rw [guarded_of_ok hrun]
    rwa [hrun] at hx
  | error fault m' =>
    rw [guarded_of_error hrun]
    rw [hrun] at hx
    exact hx.tail (.act (.abandon scope) (List.forall_mem_nil _))

theorem performs_catching {tag : Value} {body : Op γ (Outcome Value)}
    (htag : m.heap.space.Accepts tag)
    (hbody : ∀ scope m', enter (.catching tag) m = .ok (.ok scope) m' →
      Performs body m' ∧ Answers body m') : Performs (catching tag body) m := by
  refine Performs.bind (.single (.act (.enterCatch tag) ?_)) fun entered m₁ hentered => ?_
  · exact List.forall_mem_singleton.mpr htag
  cases entered with
  | error unwind => exact performs_pure _
  | ok scope =>
    obtain ⟨hperforms, hanswers⟩ := hbody scope m₁ hentered
    refine (hperforms.guarded scope).bind fun result m₂ hresult =>
      .single (.act (.leaveCatch scope result) ?_)
    cases result with
    | error unwind => exact List.forall_mem_nil _
    | ok value => exact List.forall_mem_singleton.mpr (hanswers value m₂ (of_guarded hresult))

theorem performs_unwindProtect {body cleanup : Op γ (Outcome Value)}
    (hbody : ∀ scope m', enter .protecting m = .ok (.ok scope) m' → Performs body m')
    (hcleanup : ∀ m', Relation.ReflTransGen Step m m' → Performs cleanup m') :
    Performs (unwindProtect body cleanup) m := by
  have henter : Performs (enter .protecting) m := .single (.act .enterProtect (List.forall_mem_nil _))
  refine henter.bind fun entered m₁ hentered => ?_
  cases entered with
  | error unwind => exact performs_pure _
  | ok scope =>
    have hguarded := (hbody scope m₁ hentered).guarded scope
    refine hguarded.bind fun result m₂ hresult => ?_
    have hstart : Performs (startCleanup scope) m₂ :=
      .single (.act (.startCleanup scope) (List.forall_mem_nil _))
    rw [leaveProtect_eq]
    refine hstart.bind fun expected m₃ hexpected => ?_
    have hsteps := ((henter.steps hentered).trans (hguarded.steps hresult)).trans
      (hstart.steps hexpected)
    exact (hcleanup m₃ hsteps).bind fun cleaned m₄ _ =>
      .single (.act (.endCleanup expected result cleaned) (List.forall_mem_nil _))

theorem performs_binding {symbol value : Value} {body : Op γ (Outcome Value)}
    (hkind : m.heap.space.isKind symbol .symbol = true) (hsymbol : m.heap.space.Accepts symbol)
    (hvalue : m.heap.space.Accepts value)
    (hbody : ∀ scope m', enterBinding symbol value m = .ok (.ok scope) m' → Performs body m') :
    Performs (binding symbol value body) m := by
  have hpassed : ∀ v ∈ (Act.enterBinding symbol value).passed, m.heap.space.Accepts v :=
    List.forall_mem_cons.mpr ⟨hsymbol, List.forall_mem_singleton.mpr hvalue⟩
  refine Performs.bind .refl fun m₁ m₂ hget => ?_
  cases hget
  rw [if_pos hkind]
  refine Performs.bind (.single (.act (.enterBinding symbol value) hpassed))
    fun entered m₁ hentered => ?_
  cases entered with
  | error unwind => exact performs_pure _
  | ok scope =>
    refine ((hbody scope m₁ hentered).guarded scope).bind fun result m₂ _ => ?_
    exact Performs.bind (.single (.act (.leaveBinding scope) (List.forall_mem_nil _)))
      fun _ _ _ => performs_pure _

theorem performs_recorded {closure : Value} {body : Op γ (Outcome Value)}
    (hclosure : m.heap.space.Accepts closure)
    (hbody : ∀ expected m', startCall closure m = .ok (.ok expected) m' → Performs body m') :
    Performs (recorded closure body) m := by
  rw [recorded_eq]
  refine Performs.bind (.single (.act (.startCall closure) ?_)) fun started m₁ hstarted => ?_
  · exact List.forall_mem_singleton.mpr hclosure
  cases started with
  | error unwind => exact performs_pure _
  | ok expected =>
    refine (hbody expected m₁ hstarted).bind fun result m₂ _ => ?_
    exact Performs.bind (.single (.act (.endCall expected) (List.forall_mem_nil _)))
      fun _ _ _ => performs_pure _

theorem performs_onNewThread {body : Op γ α}
    (hbody : ∀ m', attach m = .ok () m' → Performs body m') : Performs (onNewThread body) m := by
  have hattach : Performs attach m := .single (.attach rfl)
  refine hattach.bind fun _ m₁ hattached => ?_
  refine Performs.bind ?_ fun result m₂ _ => ?_
  · -- a fault in the body ends the body, not the thread that waits for it
    have hrun := hbody m₁ hattached
    unfold Performs at hrun ⊢
    dsimp only
    cases hx : body m₁ with
    | ok a m₂ => rwa [hx] at hrun
    | error fault m₂ =>
      rw [hx] at hrun
      cases fault <;> exact hrun
  · have hdetach : Performs detach m₂ := .single (.detach rfl)
    exact hdetach.bind fun _ _ _ => performs_pure _

/-- Scopes around bodies that are runs lead to the ends of runs, whichever way they are left. -/
structure Scoped (m : Machine γ) : Prop where
  unwindProtect : ∀ body cleanup : Op γ (Outcome Value),
    (∀ scope m', enter .protecting m = .ok (.ok scope) m' → Performs body m') →
    (∀ m', Relation.ReflTransGen Step m m' → Performs cleanup m') →
    Reachable (ending (Machine.unwindProtect body cleanup m))
  binding : ∀ (symbol value : Value) (body : Op γ (Outcome Value)),
    m.heap.space.isKind symbol .symbol = true → m.heap.space.Accepts symbol →
    m.heap.space.Accepts value →
    (∀ scope m', enterBinding symbol value m = .ok (.ok scope) m' → Performs body m') →
    Reachable (ending (Machine.binding symbol value body m))
  /-- The body is the code of the closure. -/
  recorded : ∀ (closure : Value) (body : Op γ (Outcome Value)), m.heap.space.Accepts closure →
    (∀ expected m', startCall closure m = .ok (.ok expected) m' → Performs body m') →
    Reachable (ending (Machine.recorded closure body m))
  onNewThread : ∀ {α : Type} (body : Op γ α), (∀ m', attach m = .ok () m' → Performs body m') →
    Reachable (ending (Machine.onNewThread body m))

theorem Reachable.scoped (h : Reachable m) : Scoped m where
  unwindProtect _ _ hbody hcleanup := h.steps (performs_unwindProtect hbody hcleanup)
  binding _ _ _ hkind hsymbol hvalue hbody := h.steps (performs_binding hkind hsymbol hvalue hbody)
  recorded _ _ hclosure hbody := h.steps (performs_recorded hclosure hbody)
  onNewThread _ hbody := h.steps (performs_onNewThread hbody)

/-! ## What is handed out -/

theorem exists_of_bind_ok {β : Type} {x : Op γ α} {f : α → Op γ β} {b : β}
    (h : (x >>= f) m = .ok b m') : ∃ a m₁, x m = .ok a m₁ ∧ f a m₁ = .ok b m' := by
  cases hx : x m with
  | ok a m₁ => exact ⟨a, m₁, rfl, by rwa [bind_of_ok hx] at h⟩
  | error fault m₁ =>
    rw [bind_of_error hx] at h
    cases h

theorem raise_ne_ok {fault : Fault} {a : α} (h : (raise fault : Op γ α) m = .ok a m') : False := by
  obtain ⟨m₁, herror, -⟩ := raise_turned (α := α) fault m
  cases h.symm.trans herror

/-- A catch frame comes back with the first of the values that it leaves in the register. -/
theorem headD_of_leaveCatch {scope : ControlStack.Scope} {result : Outcome Value} {value : Value}
    (hrun : leaveCatch scope result m = .ok (.ok value) m') :
    value = m'.running.control.values.headD .nil := by
  unfold leaveCatch at hrun
  obtain ⟨-, fault, m₁, hleave, -⟩ | ⟨-, hleave | ⟨fault, m₁, hleave, -⟩⟩ := leave_cases scope m
  · rw [bind_of_error hleave] at hrun
    cases hrun
  · rw [bind_of_ok hleave] at hrun
    rcases result with (target | error) | returned
    · dsimp only at hrun
      split at hrun
      · rw [bind_of_ok (onControl_apply _)] at hrun
        simp only [control_withControl] at hrun
        cases hexit : m.running.control.dropTop.pending.filter (·.target == scope.serial) with
        | none =>
          simp only [hexit] at hrun
          exact (raise_ne_ok hrun).elim
        | some exit =>
          simp only [hexit] at hrun
          cases hrun
          rfl
      · cases hrun
    · dsimp only at hrun
      rw [pendingExit, bind_of_ok (control_apply _)] at hrun
      cases hexit : (m.withControl m.running.control.dropTop).running.control.pending with
      | none =>
        simp only [hexit] at hrun
        cases hrun
      | some exit =>
        simp only [hexit] at hrun
        exact (raise_ne_ok hrun).elim
    · dsimp only at hrun
      rw [pendingExit, bind_of_ok (control_apply _)] at hrun
      cases hexit : (m.withControl m.running.control.dropTop).running.control.pending with
      | none =>
        simp only [hexit] at hrun
        cases hrun
        rfl
      | some exit =>
        simp only [hexit] at hrun
        exact (raise_ne_ok hrun).elim
  · rw [bind_of_error hleave] at hrun
    cases hrun

/-- A scope that comes back with a value was left. -/
theorem leaveCatch_of_catching {tag value : Value} {body : Op γ (Outcome Value)}
    (hrun : catching tag body m = .ok (.ok value) m') :
    ∃ scope result m₁, leaveCatch scope result m₁ = .ok (.ok value) m' := by
  obtain ⟨entered, m₁, -, hrest⟩ := exists_of_bind_ok hrun
  cases entered with
  | error unwind => cases hrest
  | ok scope =>
    obtain ⟨result, m₂, -, hleave⟩ := exists_of_bind_ok hrest
    exact ⟨scope, result, m₂, hleave⟩

/-- What an act does to the heap is to assign global values. With live values and symbols, this leaves
nothing that could not be traced. -/
theorem Secure.traceable_after (hs : Secure m) {act : Act}
    (hpassed : ∀ v ∈ act.passed, m.heap.space.Accepts v)
    (hsymbol : ∀ symbol value, act = .setSymbolValue symbol value →
      m.heap.space.isKind symbol .symbol = true)
    (ht : m.heap.space.Traceable) : (m.after act).heap.space.Traceable := by
  obtain ⟨c, ⟨log, heq⟩, -⟩ | ⟨symbol, value, index, word, rfl, -, -, hfield, heq⟩ :=
    after_cases act m
  · rw [heq]
    exact ht
  · rw [heq]
    exact Space.traceable_setWord hs.heap.valid ht
      (Space.locate_debug_of_isKind (hsymbol symbol value rfl) hfield)
      (hpassed value (List.mem_cons_of_mem _ List.mem_cons_self))

theorem view_ok {f : Mode → Space → Except Fault α} {a : α} (hrun : view f m = .ok a m') :
    f m.mode m.heap.space = .ok a ∧ m' = m := by
  obtain ⟨b, hf, hview⟩ | ⟨fault, m₁, -, hview, -⟩ := view_cases f m
  · cases hrun.symm.trans hview
    exact ⟨hf, rfl⟩
  · cases hrun.symm.trans hview

/-- The value of a live symbol is live. -/
theorem Secure.symbolValue (hs : Secure m) {symbol value : Value}
    (hkind : m.heap.space.isKind symbol .symbol = true) (hsymbol : m.heap.space.Accepts symbol)
    (ht : m.heap.space.Traceable) (hrun : symbolValue symbol m = .ok value m') :
    m'.heap.space.Accepts value := by
  obtain ⟨index, m₁, hindex, hrest⟩ := exists_of_bind_ok hrun
  obtain ⟨-, rfl⟩ := view_ok hindex
  rw [bind_of_ok (control_apply _)] at hrest
  split at hrest
  · obtain ⟨hfield, rfl⟩ := view_ok hrest
    exact Space.accepts_fieldGet ht hkind hsymbol hfield
  · cases hrest
    exact hs.running.bindingAt (accepts_empty _) index

/-- Whatever acts, collections and other work follow each other on whatever threads, as long as acts are
passed live values and collections are completed on heaps that can be traced: everything that is in a
frame, in a binding table, under way, set aside, in the values register or in the history of any thread
is live. So what a catch frame comes back with and leaves in the register is live, and so are the value
of a live symbol, the values and the backtrace at any time. Acts and collections themselves leave nothing
in the heap that cannot be traced. Protected bodies, bindings, calls and new threads lead to machines of
which all this holds again. -/
theorem Reachable.control_retained (h : Reachable m) :
    (∀ thread ∈ m.threads, thread.control.Holds m.heap.space.Accepts) ∧
    (∀ tag body value m', m.heap.space.Accepts tag →
      (∀ scope m₁, enter (.catching tag) m = .ok (.ok scope) m₁ →
        Performs body m₁ ∧ Answers body m₁) →
      catching tag body m = .ok (.ok value) m' →
      Reachable m' ∧ m'.heap.space.Accepts value ∧
        ∀ v ∈ m'.running.control.values, m'.heap.space.Accepts v) ∧
    (∀ symbol value m', m.heap.space.isKind symbol .symbol = true → m.heap.space.Accepts symbol →
      m.heap.space.Traceable → symbolValue symbol m = .ok value m' →
      m'.heap.space.Accepts value) ∧
    (∀ vs m', values m = .ok vs m' → ∀ v ∈ vs, m'.heap.space.Accepts v) ∧
    (∀ vs m', backtrace m = .ok vs m' → ∀ v ∈ vs, m'.heap.space.Accepts v) ∧
    (∀ act : Act, (∀ v ∈ act.passed, m.heap.space.Accepts v) →
      (∀ symbol value, act = .setSymbolValue symbol value →
        m.heap.space.isKind symbol .symbol = true) →
      m.heap.space.Traceable → (m.after act).heap.space.Traceable) ∧
    (∀ stats m', m.heap.space.Traceable →
      (∀ location ∈ m.roots.locations, m.heap.space.Accepts ⟨m.memory.read location⟩) →
      collectLocked m = .ok stats m' → m'.heap.space.Traceable) ∧
    Scoped m := by
  have hs := h.secure
  refine ⟨hs.control, fun tag body value m' htag hbody hrun => ?_,
    fun symbol value m' hkind hsymbol ht hrun => hs.symbolValue hkind hsymbol ht hrun,
    fun vs m' hrun => ?_, fun vs m' hrun v hv => ?_, fun act hpassed hsymbol ht =>
      hs.traceable_after hpassed hsymbol ht,
    fun stats m' ht hroots hrun => (hs.collect ht hroots hrun).2, h.scoped⟩
  · have hreach : Reachable m' := h.steps ((performs_catching htag hbody).steps hrun)
    have hvalues := hreach.secure.running.values
    refine ⟨hreach, ?_, hvalues⟩
    obtain ⟨scope, result, m₂, hleave⟩ := leaveCatch_of_catching hrun
    rw [headD_of_leaveCatch hleave]
    cases hregister : m'.running.control.values with
    | nil => exact accepts_nil _
    | cons v rest => exact hvalues v (hregister ▸ List.mem_cons_self)
  · cases hrun
    exact hs.running.values
  · cases hrun
    exact hs.running.history v (by simpa [ControlStack.backtrace] using hv)

/-- Options for a small heap. -/
def smallOptions : Options :=
  { Options.default with heap := ⟨4096, 65536, .two, true⟩, stackScan := false }

def smallMachine : Machine Unit :=
  (Machine.start .debug smallOptions ()).toOption.get rfl

/-- The machine with a vector that nothing refers to. -/
def vectorMachine : Machine Unit :=
  match Heap.tryAllocate .vector 200
      { smallMachine.heap with space := { smallMachine.heap.space with pages := .fresh } } with
  | .ok _ heap => { smallMachine with heap }
  | .error _ heap => { smallMachine with heap }

/-- Its heap is that of one allocation. -/
theorem exists_vectorMachine : ∃ result heap,
    Heap.tryAllocate .vector 200 { Heap.new .debug smallOptions.heap with
      space := { (Heap.new .debug smallOptions.heap).space with pages := .fresh } } = .ok result heap ∧
    heap.WellFormed ∧ vectorMachine = { smallMachine with heap } := by
  obtain ⟨result, heap, hrun, hw⟩ := (Heap.wellFormed_new .debug smallOptions.heap).tryAllocate
    (Ledger.fresh_start 65536) (show Kind.isHeap .vector = true from rfl) 200
  refine ⟨result, heap, hrun, hw, ?_⟩
  unfold vectorMachine
  exact hrun ▸ rfl

theorem reachable_vectorMachine : Reachable vectorMachine ∧ vectorMachine.heap.WellFormed := by
  obtain ⟨result, heap, hrun, hw, heq⟩ := exists_vectorMachine
  have hstart : Reachable smallMachine := .start (show smallOptions.stackScan = false from rfl)
    (show Machine.start .debug smallOptions () = .ok smallMachine from rfl)
  rw [heq]
  exact ⟨hstart.step (.work rfl (.inr (.allocate (Ledger.fresh_start 65536) rfl hrun)) rfl
    fun _ => .inl), hw⟩

theorem accepts_vectorMachine :
    vectorMachine.heap.space.Accepts (Value.ofAddress 0x7f0000000000) :=
  Heap.accepts_ofAddress reachable_vectorMachine.2.valid (by decide +kernel)

/-- A vector that nothing but an exit under way refers to is there after a collection. -/
theorem Reachable.control_retained_vectorMachine :
    ∃ m : Machine Unit, Reachable m ∧ m.heap.collections = 1 ∧
      m.running.control.pending = some ⟨1, [Value.ofAddress 0x7f0000000000]⟩ ∧
      (m.heap.space.object? 0x7f0000000000).isSome := by
  obtain ⟨hreach, hw⟩ := reachable_vectorMachine
  have htag : vectorMachine.heap.space.Accepts .t := fun href => by cases href
  have henter := hreach.step (.act (.enterCatch .t) (List.forall_mem_singleton.mpr htag))
  have hexit := henter.step (.act (.startExit .t [Value.ofAddress 0x7f0000000000])
    (List.forall_mem_cons.mpr ⟨htag, List.forall_mem_singleton.mpr accepts_vectorMachine⟩))
  generalize hm : ((vectorMachine.after (.enterCatch .t)).after
    (.startExit .t [Value.ofAddress 0x7f0000000000])) = m at hexit
  have hheap : m.heap = vectorMachine.heap := by
    rw [← hm]
    rfl
  have hlocations : m.roots.locations = [] := by
    rw [← hm]
    rfl
  have hcollected : (match collectLocked m with
      | .ok _ m' => m'.heap.collections == 1 &&
        m'.running.control.pending == some ⟨1, [Value.ofAddress 0x7f0000000000]⟩
      | .error _ _ => false) = true := by
    rw [← hm]
    decide +kernel
  split at hcollected
  next stats m' hrun =>
    simp only [Bool.and_eq_true, beq_iff_eq] at hcollected
    obtain ⟨hcount, hpending⟩ := hcollected
    have hstep : Step m m' := .collect (hheap ▸ hw.traceable) (by simp [hlocations]) hrun
    have hreach' := hexit.step hstep
    obtain ⟨hcontrol, -⟩ := hreach'.control_retained
    have hkept := (hcontrol m'.running (List.mem_append_right _ List.mem_cons_self)).pending _ hpending
      _ List.mem_cons_self
    exact ⟨m', hreach', hcount, hpending, hkept (by decide)⟩
  next => cases hcollected

end Substrate.Machine
