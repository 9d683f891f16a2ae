import Substrate.Proofs.Control.Acts

/-!
# Deep dynamic binding

With deep binding, every thread has the stack of the scopes that it has entered, and a scope that binds a
symbol has the symbol's value. The value of a symbol is that of the innermost scope that binds it, or its
global value if there is none. `Environment` and `State` say so, and what acts do to them.

A control stack has one table of current values instead, and its frames have the values that were current
before. `Stacked` reads the deep stack back from the frames: going outwards, each frame of a binding gives
the table the value that it had before. `Mirrors.turns` shows that acts keep the two in step.
-/

namespace Substrate

namespace Dynamic

/-- A scope that was entered: the serial number of its frame and, if it binds a symbol, the symbol with
the value that it has there. -/
structure Opened where
  serial : Nat
  binding : Option (Value × Value)
  deriving DecidableEq, Repr

/-- The innermost binding of a symbol; the innermost scope comes first. -/
def lookup (symbol : Value) : List Opened → Option Value
  | [] => none
  | ⟨_, some (bound, value)⟩ :: outer =>
    if bound = symbol then some value else lookup symbol outer
  | ⟨_, none⟩ :: outer => lookup symbol outer

/-- Changes the innermost binding of a symbol. -/
def assign (symbol value : Value) : List Opened → List Opened
  | [] => []
  | ⟨serial, some (bound, old)⟩ :: outer =>
    if bound = symbol then ⟨serial, some (bound, value)⟩ :: outer
    else ⟨serial, some (bound, old)⟩ :: assign symbol value outer
  | ⟨serial, none⟩ :: outer => ⟨serial, none⟩ :: assign symbol value outer

/-- The scopes of a thread. -/
structure Environment where
  scopes : List Opened
  nextSerial : Nat
  frameLimit : Nat

namespace Environment

def new (frameLimit : Nat) : Environment := ⟨[], 1, frameLimit⟩

/-- Enters a scope, unless there are too many. -/
def enter (env : Environment) (binding : Option (Value × Value)) : Environment :=
  if env.frameLimit ≤ env.scopes.length then env
  else
    { env with
      scopes := ⟨env.nextSerial, binding⟩ :: env.scopes
      nextSerial := env.nextSerial + 1 }

/-- Leaves the innermost scope, if it is the one that is to be left. -/
def leave (env : Environment) (serial : Nat) : Environment :=
  match env.scopes with
  | [] => env
  | scope :: outer => if scope.serial = serial then { env with scopes := outer } else env

/-- Leaves scopes until only `depth` of them are left. -/
def cut (env : Environment) (depth : Nat) : Environment :=
  { env with scopes := env.scopes.drop (env.scopes.length - depth) }

/-- The scopes after an act. -/
def act (env : Environment) : Act → Environment
  | .enterCatch _ => env.enter none
  | .enterProtect => env.enter none
  | .enterBinding symbol value => env.enter (some (symbol, value))
  | .leaveCatch scope _ => env.leave scope.serial
  | .startCleanup scope => env.leave scope.serial
  | .leaveBinding scope => env.leave scope.serial
  | .abandon scope => env.cut scope.depth
  | .setSymbolValue symbol value => { env with scopes := Dynamic.assign symbol value env.scopes }
  | _ => env

end Environment

/-- The global values of symbols, and the scopes of all threads by their number. -/
structure State where
  globals : Value → Value
  threads : Nat → Environment

namespace State

/-- The innermost binding of a symbol on a thread. -/
def innermost (d : State) (thread : Nat) (symbol : Value) : Option Value :=
  lookup symbol (d.threads thread).scopes

/-- The value of a symbol as a thread sees it. -/
def value (d : State) (thread : Nat) (symbol : Value) : Value :=
  (d.innermost thread symbol).getD (d.globals symbol)

/-- The state after an act of a thread. An assignment is to the innermost binding or, if there is none,
to the global value. -/
def act (d : State) (thread : Nat) (act : Act) : State where
  globals :=
    match act with
    | .setSymbolValue symbol value =>
      if (d.innermost thread symbol).isNone then Function.update d.globals symbol value
      else d.globals
    | _ => d.globals
  threads := Function.update d.threads thread ((d.threads thread).act act)

end State

/-! ## Lookup -/

variable {symbol other value : Value} {scopes : List Opened}

theorem assign_of_lookup_none (h : lookup symbol scopes = none) : assign symbol value scopes = scopes := by
  fun_induction assign symbol value scopes with
  | case1 => rfl
  | case2 => simp [lookup] at h
  | case3 serial bound old outer hne ih =>
    rw [lookup, if_neg hne] at h
    rw [ih h]
  | case4 serial outer ih => rw [ih h]

theorem lookup_assign_self (h : lookup symbol scopes ≠ none) :
    lookup symbol (assign symbol value scopes) = some value := by
  fun_induction assign symbol value scopes with
  | case1 => exact absurd rfl h
  | case2 => simp [lookup]
  | case3 serial bound old outer hne ih =>
    rw [lookup, if_neg hne] at h ⊢
    exact ih h
  | case4 serial outer ih => exact ih h

theorem lookup_assign_of_ne (hne : other ≠ symbol) :
    lookup other (assign symbol value scopes) = lookup other scopes := by
  fun_induction assign symbol value scopes with
  | case1 => rfl
  | case2 => rw [lookup, lookup, if_neg (Ne.symm hne), if_neg (Ne.symm hne)]
  | case3 serial bound old outer _ ih => rw [lookup, lookup, ih]
  | case4 serial outer ih => rw [lookup, lookup, ih]

/-- How scopes are nested, without the values of their bindings. -/
def shape (scopes : List Opened) : List (Nat × Option Value) :=
  scopes.map fun scope => (scope.serial, scope.binding.map (·.1))

theorem shape_assign (symbol value : Value) (scopes : List Opened) :
    shape (assign symbol value scopes) = shape scopes := by
  fun_induction assign symbol value scopes with
  | case1 => rfl
  | case2 => rfl
  | case3 serial bound old outer _ ih => exact congrArg (_ :: ·) ih
  | case4 serial outer ih => exact congrArg (_ :: ·) ih

/-- The symbols that scopes bind. -/
def boundSymbols (scopes : List Opened) : List Value :=
  (scopes.filterMap (·.binding)).map (·.1)

theorem lookup_append (inner outer : List Opened) :
    lookup symbol (inner ++ outer) = (lookup symbol inner).or (lookup symbol outer) := by
  fun_induction lookup symbol inner with
  | case1 => rfl
  | case2 => simp [lookup]
  | case3 serial bound value rest hne ih => rw [List.cons_append, lookup, if_neg hne, ih]
  | case4 serial rest ih => exact ih

theorem lookup_eq_none (h : symbol ∉ boundSymbols scopes) : lookup symbol scopes = none := by
  fun_induction lookup symbol scopes with
  | case1 => rfl
  | case2 => simp [boundSymbols] at h
  | case3 serial bound value rest hne ih =>
    exact ih fun hmem => h (List.mem_cons_of_mem _ hmem)
  | case4 serial rest ih => exact ih h

/-- Scopes that bind other symbols hide nothing. -/
theorem lookup_drop {count : Nat} (h : symbol ∉ boundSymbols (scopes.take count)) :
    lookup symbol (scopes.drop count) = lookup symbol scopes := by
  have hsplit := @lookup_append symbol (scopes.take count) (scopes.drop count)
  rw [List.take_append_drop, lookup_eq_none h, Option.none_or] at hsplit
  exact hsplit.symm

/-! ## What acts change -/

namespace Environment

variable {env : Environment}

/-- The symbols that an act has to do with: those that it binds or assigns, or whose bindings it ends. -/
def concerned (env : Environment) : Act → List Value
  | .enterBinding symbol _ => [symbol]
  | .setSymbolValue symbol _ => [symbol]
  | .leaveCatch _ _ => boundSymbols (env.scopes.take 1)
  | .startCleanup _ => boundSymbols (env.scopes.take 1)
  | .leaveBinding _ => boundSymbols (env.scopes.take 1)
  | .abandon scope => boundSymbols (env.scopes.take (env.scopes.length - scope.depth))
  | _ => []

theorem frameLimit_enter (env : Environment) (binding : Option (Value × Value)) :
    (env.enter binding).frameLimit = env.frameLimit := by
  unfold enter
  split <;> rfl

theorem frameLimit_leave (env : Environment) (serial : Nat) :
    (env.leave serial).frameLimit = env.frameLimit := by
  unfold leave
  split
  · rfl
  · split <;> rfl

theorem frameLimit_act (env : Environment) (act : Act) :
    (env.act act).frameLimit = env.frameLimit := by
  cases act with
  | enterCatch | enterProtect | enterBinding => exact frameLimit_enter env _
  | leaveCatch | startCleanup | leaveBinding => exact frameLimit_leave env _
  | abandon | setSymbolValue | endCleanup | startExit | setValues | startCall | endCall => rfl

theorem lookup_enter {binding : Option (Value × Value)}
    (h : ∀ value, binding ≠ some (symbol, value)) :
    lookup symbol (env.enter binding).scopes = lookup symbol env.scopes := by
  unfold enter
  split
  · rfl
  · rcases binding with _ | ⟨bound, value⟩
    · rfl
    · exact if_neg fun heq => h value (by rw [heq])

theorem lookup_leave (serial : Nat) (h : symbol ∉ boundSymbols (env.scopes.take 1)) :
    lookup symbol (env.leave serial).scopes = lookup symbol env.scopes := by
  unfold leave
  split
  · rfl
  · next scope outer hscopes =>
    split
    · rw [← lookup_drop h, hscopes]
      rfl
    · rfl

/-- What an act does not have to do with stays as it is. -/
theorem lookup_act (act : Act) (h : symbol ∉ env.concerned act) :
    lookup symbol (env.act act).scopes = lookup symbol env.scopes := by
  cases act with
  | enterCatch | enterProtect => exact lookup_enter nofun
  | enterBinding bound value =>
    refine lookup_enter fun value' heq => h ?_
    obtain ⟨rfl, -⟩ := Prod.mk.inj (Option.some.inj heq)
    exact List.mem_cons_self
  | leaveCatch scope | startCleanup scope | leaveBinding scope => exact lookup_leave scope.serial h
  | abandon scope => exact lookup_drop h
  | setSymbolValue bound value =>
    exact lookup_assign_of_ne fun heq => h (heq ▸ List.mem_cons_self)
  | endCleanup | startExit | setValues | startCall | endCall => rfl

end Environment

namespace State

variable {d : State} {thread : Nat}

theorem threads_act_self (act : Act) :
    (d.act thread act).threads thread = (d.threads thread).act act :=
  Function.update_self ..

theorem threads_act_of_ne {thread' : Nat} (hne : thread' ≠ thread) (act : Act) :
    (d.act thread act).threads thread' = d.threads thread' :=
  Function.update_of_ne hne ..

theorem act_eq {act : Act} (h : ∀ symbol value, act ≠ .setSymbolValue symbol value) :
    d.act thread act
      = { d with threads := Function.update d.threads thread ((d.threads thread).act act) } := by
  cases act with
  | setSymbolValue symbol value => exact absurd rfl (h symbol value)
  | _ => rfl

/-- An assignment to a symbol that is bound. -/
theorem act_assigned_own (h : d.innermost thread symbol ≠ none) :
    d.act thread (.setSymbolValue symbol value) = { d with
      threads := Function.update d.threads thread { d.threads thread with
        scopes := assign symbol value (d.threads thread).scopes } } := by
  have hglobals : (if (d.innermost thread symbol).isNone then Function.update d.globals symbol value
      else d.globals) = d.globals := if_neg (by simpa using h)
  unfold act
  dsimp only
  rw [hglobals]
  rfl

/-- An assignment to a symbol that is not bound. -/
theorem act_assigned_global (h : d.innermost thread symbol = none) :
    d.act thread (.setSymbolValue symbol value)
      = { d with globals := Function.update d.globals symbol value } := by
  have hscopes : (d.threads thread).act (.setSymbolValue symbol value) = d.threads thread := by
    simp only [Environment.act, assign_of_lookup_none h]
  unfold act
  dsimp only
  rw [hscopes, Function.update_eq_self, if_pos (by rw [h]; rfl)]

/-- The state with other scopes for a thread. -/
def withScopes (d : State) (thread : Nat) (scopes : List Opened) : State :=
  { d with threads := Function.update d.threads thread { d.threads thread with scopes } }

theorem scopes_withScopes (d : State) (thread : Nat) (scopes : List Opened) :
    ((d.withScopes thread scopes).threads thread).scopes = scopes := by
  simp only [withScopes, Function.update_self]

/-- A binding that is refused changes nothing. -/
theorem act_refused (hfull : (d.threads thread).frameLimit ≤ (d.threads thread).scopes.length) :
    d.act thread (.enterBinding symbol value) = d := by
  have hsame : (d.threads thread).act (.enterBinding symbol value) = d.threads thread := if_pos hfull
  rw [@act_eq d thread (.enterBinding symbol value) nofun, hsame, Function.update_eq_self]

theorem act_bound (hroom : (d.threads thread).scopes.length < (d.threads thread).frameLimit) :
    ((d.act thread (.enterBinding symbol value)).threads thread).scopes
      = ⟨(d.threads thread).nextSerial, some (symbol, value)⟩ :: (d.threads thread).scopes := by
  rw [threads_act_self, Environment.act, Environment.enter, if_neg (Nat.not_le.mpr hroom)]

/-- The innermost scope is left in the regular way. -/
theorem act_left {scope : ControlStack.Scope} {inner : Opened} {outer : List Opened}
    (hscopes : (d.threads thread).scopes = inner :: outer) (hserial : inner.serial = scope.serial) :
    d.act thread (.leaveBinding scope) = d.withScopes thread outer := by
  have hleft : (d.threads thread).act (.leaveBinding scope)
      = { d.threads thread with scopes := outer } := by
    simp only [Environment.act, Environment.leave, hscopes, if_pos hserial]
  rw [@act_eq d thread (.leaveBinding scope) nofun, hleft, withScopes]

/-- A scope is left with all scopes that were entered in it. -/
theorem act_abandoned {scope : ControlStack.Scope} {inner outer : List Opened}
    (hscopes : (d.threads thread).scopes = inner ++ outer) (hdepth : outer.length = scope.depth) :
    d.act thread (.abandon scope) = d.withScopes thread outer := by
  have hcut : (d.threads thread).act (.abandon scope) = { d.threads thread with scopes := outer } := by
    simp only [Environment.act, Environment.cut, hscopes, List.length_append, hdepth,
      Nat.add_sub_cancel, List.drop_left]
  rw [@act_eq d thread (.abandon scope) nofun, hcut, withScopes]

/-- Whether a thread sees what another one assigns to a symbol: they both see the global value, or they
are the same thread. -/
def shares (d : State) (thread : Nat) (symbol : Value) (thread' : Nat) : Bool :=
  if (d.innermost thread symbol).isNone then (d.innermost thread' symbol).isNone
  else thread' == thread

theorem frameLimit_act (d : State) (thread : Nat) (act : Act) (thread' : Nat) :
    ((d.act thread act).threads thread').frameLimit = (d.threads thread').frameLimit := by
  by_cases heq : thread' = thread
  · subst heq
    rw [threads_act_self, Environment.frameLimit_act]
  · rw [threads_act_of_ne heq]

theorem innermost_act_of_ne {thread' : Nat} (hne : thread' ≠ thread) (act : Act) (symbol : Value) :
    (d.act thread act).innermost thread' symbol = d.innermost thread' symbol := by
  rw [innermost, threads_act_of_ne hne, innermost]

theorem innermost_act_self {act : Act} (h : symbol ∉ (d.threads thread).concerned act) :
    (d.act thread act).innermost thread symbol = d.innermost thread symbol := by
  rw [innermost, threads_act_self, Environment.lookup_act act h, innermost]

theorem globals_assigned_of_ne (hne : other ≠ symbol) :
    (d.act thread (.setSymbolValue symbol value)).globals other = d.globals other := by
  unfold act
  dsimp only
  split
  · exact Function.update_of_ne hne ..
  · rfl

/-- An act changes nothing for other threads and other symbols, unless it assigns a global value. -/
theorem value_act {thread' : Nat} (act : Act)
    (h : thread' ≠ thread ∨ symbol ∉ (d.threads thread).concerned act)
    (hglobal : ∀ value, act = .setSymbolValue symbol value → d.innermost thread symbol ≠ none) :
    (d.act thread act).value thread' symbol = d.value thread' symbol := by
  have hinnermost : (d.act thread act).innermost thread' symbol = d.innermost thread' symbol := by
    by_cases heq : thread' = thread
    · subst heq
      exact innermost_act_self (h.resolve_left fun hne => hne rfl)
    · exact innermost_act_of_ne heq act symbol
  have hglobals : (d.act thread act).globals symbol = d.globals symbol := by
    cases act with
    | setSymbolValue assigned value =>
      by_cases heq : symbol = assigned
      · subst heq
        rw [act_assigned_own (hglobal value rfl)]
      · exact globals_assigned_of_ne heq
    | _ => rfl
  rw [State.value, hinnermost, hglobals, State.value]

/-- An assignment changes the innermost binding or the global value, and nothing else. -/
theorem value_assigned (thread' : Nat) :
    (d.act thread (.setSymbolValue symbol value)).value thread' other
      = if other = symbol ∧ d.shares thread symbol thread' then value else d.value thread' other := by
  by_cases hother : other = symbol
  · subst hother
    by_cases hown : d.innermost thread other = none
    · have hshares : d.shares thread other thread' = (d.innermost thread' other).isNone :=
        if_pos (by rw [hown]; rfl)
      have hvalue : (d.act thread (.setSymbolValue other value)).value thread' other
          = (d.innermost thread' other).getD value := by
        rw [act_assigned_global hown, State.value]
        simp only [Function.update_self]
        rfl
      rw [hshares, hvalue, State.value]
      cases d.innermost thread' other <;> simp
    · have hshares : d.shares thread other thread' = (thread' == thread) :=
        if_neg (by simpa using hown)
      rw [hshares]
      by_cases heq : thread' = thread
      · subst heq
        have hassigned : (d.act thread' (.setSymbolValue other value)).innermost thread' other
            = some value := by
          rw [innermost, threads_act_self]
          exact lookup_assign_self hown
        simp [State.value, hassigned]
      · rw [value_act _ (.inl heq) fun _ _ => hown]
        simp [heq]
  · rw [if_neg fun h => hother h.1]
    refine value_act _ (.inr ?_) fun value' heq => ?_
    · simpa [Environment.concerned] using hother
    · cases heq
      exact absurd rfl hother

end State

/-! ## Reading the deep stack back -/

/-- The frames, the innermost first, with the current values in the table, stand for the scopes. The
symbols are told apart by their keys; once all frames are gone, the table is empty. -/
inductive Stacked (symbols : List Value) (key : Value → Nat) (size : Nat) :
    List Frame → (Nat → Value) → List Opened → Prop where
  | nil {current : Nat → Value} (hempty : ∀ index, current index = .empty) :
      Stacked symbols key size [] current []
  | plain {frames : List Frame} {current : Nat → Value} {scopes : List Opened} {serial : Nat}
      {kind : FrameKind} (hplain : ∀ symbol index previous, kind ≠ .binding symbol index previous)
      (h : Stacked symbols key size frames current scopes) :
      Stacked symbols key size (⟨serial, kind⟩ :: frames) current (⟨serial, none⟩ :: scopes)
  | bound {frames : List Frame} {current : Nat → Value} {scopes : List Opened} {serial : Nat}
      {symbol value previous : Value} (hsymbol : symbol ∈ symbols) (hindex : key symbol < size)
      (hvalue : value ≠ .empty) (hcurrent : current (key symbol) = value)
      (h : Stacked symbols key size frames (Function.update current (key symbol) previous) scopes) :
      Stacked symbols key size (⟨serial, .binding symbol (key symbol) previous⟩ :: frames) current
        (⟨serial, some (symbol, value)⟩ :: scopes)

namespace Stacked

variable {symbols symbols' : List Value} {key key' : Value → Nat} {size size' : Nat}
  {frames : List Frame} {current : Nat → Value}

theorem serials_eq (h : Stacked symbols key size frames current scopes) :
    scopes.map (·.serial) = frames.map (·.serial) := by
  induction h with
  | nil => rfl
  | plain _ _ ih => simp only [List.map_cons, ih]
  | bound _ _ _ _ _ ih => simp only [List.map_cons, ih]

theorem mono (h : Stacked symbols key size frames current scopes) (hsize : size ≤ size') :
    Stacked symbols key size' frames current scopes := by
  induction h with
  | nil hempty => exact .nil hempty
  | plain hplain _ ih => exact .plain hplain ih
  | bound hsymbol hindex hvalue hcurrent _ ih =>
    exact .bound hsymbol (Nat.lt_of_lt_of_le hindex hsize) hvalue hcurrent ih

theorem subset (h : Stacked symbols key size frames current scopes) :
    boundSymbols scopes ⊆ symbols := by
  induction h with
  | nil => exact List.nil_subset _
  | plain _ _ ih => exact ih
  | bound hsymbol _ _ _ _ ih => exact List.cons_subset.mpr ⟨hsymbol, ih⟩

/-- Only the keys of bound symbols matter. -/
theorem rekey (h : Stacked symbols key size frames current scopes)
    (hkey : ∀ symbol ∈ boundSymbols scopes, symbol ∈ symbols →
      symbol ∈ symbols' ∧ key' symbol = key symbol) :
    Stacked symbols' key' size frames current scopes := by
  induction h with
  | nil hempty => exact .nil hempty
  | plain hplain _ ih => exact .plain hplain (ih hkey)
  | @bound _ _ _ _ symbol _ _ hsymbol hindex hvalue hcurrent _ ih =>
    obtain ⟨hsymbol', heq⟩ := hkey symbol List.mem_cons_self hsymbol
    have hrest := ih fun other hother => hkey other (List.mem_cons_of_mem _ hother)
    rw [← heq] at hindex hcurrent hrest ⊢
    exact .bound hsymbol' hindex hvalue hcurrent hrest

section

variable (hkey : ∀ a ∈ symbols, ∀ b ∈ symbols, key a = key b → a = b)
  (hsymbol : symbol ∈ symbols)
include hkey hsymbol

/-- The table has the value of the innermost binding, and an empty entry where there is none. -/
theorem lookup_eq (h : Stacked symbols key size frames current scopes) :
    lookup symbol scopes
      = if current (key symbol) = .empty then none else some (current (key symbol)) := by
  induction h with
  | nil hempty => rw [hempty, if_pos rfl, lookup]
  | plain _ _ ih => rw [lookup, ih]
  | @bound _ _ _ _ bound _ _ hbound _ hvalue hcurrent _ ih =>
    by_cases heq : bound = symbol
    · subst heq
      rw [lookup, if_pos rfl, hcurrent, if_neg hvalue]
    · have hne : key symbol ≠ key bound := fun h =>
        heq (hkey bound hbound symbol hsymbol h.symm)
      rw [lookup, if_neg heq, ih, Function.update_of_ne hne]

/-- A new value in the table is one for the innermost binding. -/
theorem assign (h : Stacked symbols key size frames current scopes) (hvalue : value ≠ .empty)
    (hown : current (key symbol) ≠ .empty) :
    Stacked symbols key size frames (Function.update current (key symbol) value)
      (assign symbol value scopes) := by
  induction h with
  | nil hempty => exact absurd (hempty _) hown
  | plain hplain _ ih => exact .plain hplain (ih hown)
  | @bound _ _ _ _ bound _ _ hbound hindex hold hcurrent hrest ih =>
    by_cases heq : bound = symbol
    · subst heq
      rw [Dynamic.assign, if_pos rfl]
      exact .bound hbound hindex hvalue (Function.update_self ..) (by rwa [Function.update_idem])
    · have hne : key symbol ≠ key bound := fun h =>
        heq (hkey bound hbound symbol hsymbol h.symm)
      have houter := ih (by rwa [Function.update_of_ne hne])
      rw [Function.update_comm hne.symm] at houter
      rw [Dynamic.assign, if_neg heq]
      exact .bound hbound hindex hold ((Function.update_of_ne hne.symm ..).trans hcurrent) houter

end

end Stacked

/-- The control stack stands for the environment. -/
structure Mirrors (symbols : List Value) (key : Value → Nat) (c : ControlStack)
    (env : Environment) : Prop where
  stacked : Stacked symbols key c.bindings.size c.frames.toList.reverse c.bindingAt env.scopes
  nextSerial : env.nextSerial = c.nextSerial
  frameLimit : env.frameLimit = c.frameLimit

theorem mirrors_new (symbols : List Value) (key : Value → Nat) (frameLimit invocationLimit : Nat) :
    Mirrors symbols key (.new frameLimit invocationLimit) (.new frameLimit) :=
  ⟨.nil fun _ => rfl, rfl, rfl⟩

namespace Mirrors

variable {symbols symbols' : List Value} {key key' : Value → Nat} {c c' : ControlStack}
  {env : Environment}

theorem length_eq (h : Mirrors symbols key c env) : env.scopes.length = c.frames.size := by
  simpa using congrArg List.length h.stacked.serials_eq

theorem full_iff (h : Mirrors symbols key c env) :
    env.frameLimit ≤ env.scopes.length ↔ c.frameLimit ≤ c.frames.size := by
  rw [h.length_eq, h.frameLimit]

/-- Exits, cleanups, calls and the values register have nothing to do with bindings. -/
theorem congr (h : Mirrors symbols key c env) (hframes : c'.frames = c.frames)
    (hbindings : c'.bindings = c.bindings) (hserial : c'.nextSerial = c.nextSerial)
    (hlimit : c'.frameLimit = c.frameLimit) : Mirrors symbols key c' env := by
  refine ⟨?_, h.nextSerial.trans hserial.symm, h.frameLimit.trans hlimit.symm⟩
  have hcurrent : c'.bindingAt = c.bindingAt := funext fun index => by
    rw [ControlStack.bindingAt, hbindings, ControlStack.bindingAt]
  rw [hframes, hbindings, hcurrent]
  exact h.stacked

theorem rekey (h : Mirrors symbols key c env)
    (hkey : ∀ symbol ∈ boundSymbols env.scopes, symbol ∈ symbols →
      symbol ∈ symbols' ∧ key' symbol = key symbol) : Mirrors symbols' key' c env :=
  ⟨h.stacked.rekey hkey, h.nextSerial, h.frameLimit⟩

/-! ### Entering -/

theorem pushed (h : Mirrors symbols key c env) {kind : FrameKind}
    (hplain : ∀ symbol index previous, kind ≠ .binding symbol index previous)
    (hroom : ¬c.frameLimit ≤ c.frames.size) : Mirrors symbols key (c.pushed kind) (env.enter none) := by
  rw [Environment.enter, if_neg (mt h.full_iff.mp hroom)]
  refine ⟨?_, congrArg (· + 1) h.nextSerial, h.frameLimit⟩
  have hframes : (c.pushed kind).frames.toList.reverse
      = ⟨c.nextSerial, kind⟩ :: c.frames.toList.reverse := by
    simp [ControlStack.pushed]
  rw [hframes, h.nextSerial]
  exact .plain hplain h.stacked

theorem reserve (h : Mirrors symbols key c env) (index : Nat) :
    Mirrors symbols key (c.reserve index) env := by
  refine ⟨?_, h.nextSerial, h.frameLimit⟩
  rw [funext (ControlStack.restored_reserve c index).bindingAt]
  refine h.stacked.mono ?_
  simp only [ControlStack.reserve, Array.size_append]
  omega

theorem bound (h : Mirrors symbols key c env) (hsymbol : symbol ∈ symbols) (hvalue : value ≠ .empty)
    (hroom : ¬c.frameLimit ≤ c.frames.size) :
    Mirrors symbols key (c.bound symbol (key symbol) value) (env.enter (some (symbol, value))) := by
  rw [Environment.enter, if_neg (mt h.full_iff.mp hroom)]
  refine ⟨?_, congrArg (· + 1) h.nextSerial, h.frameLimit⟩
  have hframes : (c.bound symbol (key symbol) value).frames.toList.reverse
      = ⟨c.nextSerial, .binding symbol (key symbol) (c.bindingAt (key symbol))⟩ ::
        c.frames.toList.reverse := by
    simp [ControlStack.bound, ControlStack.pushed, ControlStack.setBinding, ControlStack.reserve]
  have hsize : (c.bound symbol (key symbol) value).bindings.size
      = (c.reserve (key symbol)).bindings.size := Array.size_setIfInBounds
  rw [hframes, h.nextSerial, ControlStack.bindingAt_bound, hsize]
  refine .bound hsymbol (ControlStack.lt_size_reserve c _) hvalue (Function.update_self ..) ?_
  have hreserved := (h.reserve (key symbol)).stacked
  rw [funext (ControlStack.restored_reserve c _).bindingAt] at hreserved
  rwa [Function.update_idem, Function.update_eq_self]

/-! ### Leaving -/

/-- The innermost frame stands for the innermost scope. -/
theorem dropTop (h : Mirrors symbols key c env) :
    Mirrors symbols key c.dropTop { env with scopes := env.scopes.drop 1 } := by
  have hstacked := h.stacked
  cases hback : c.frames.back? with
  | none =>
    have hframes : c.frames = #[] := Array.back?_eq_none_iff.mp hback
    have hdrop : c.dropTop = c := by rw [ControlStack.dropTop, hback]
    have hscopes : env.scopes = [] := List.eq_nil_of_length_eq_zero (by simp [h.length_eq, hframes])
    rw [hdrop]
    exact ⟨by rw [hscopes] at hstacked ⊢; exact hstacked, h.nextSerial, h.frameLimit⟩
  | some frame =>
    obtain ⟨lower, hframes⟩ := Array.back?_eq_some_iff.mp hback
    rw [ControlStack.dropTop_top hframes]
    rw [hframes, Array.toList_push, List.reverse_append, List.reverse_singleton,
      List.singleton_append] at hstacked
    generalize env.scopes = scopes at hstacked
    cases hstacked with
    | @plain _ _ _ _ kind hplain hlower =>
      cases kind with
      | binding symbol index previous => exact absurd rfl (hplain symbol index previous)
      | catching | protecting => exact ⟨hlower, h.nextSerial, h.frameLimit⟩
    | @bound _ _ _ _ symbol _ previous _ hindex _ _ hlower =>
      refine ⟨?_, h.nextSerial, h.frameLimit⟩
      have hcurrent := ControlStack.bindingAt_setBinding
        (c := { c with frames := lower }) hindex previous
      have hsize : (c.bindings.setIfInBounds (key symbol) previous).size = c.bindings.size :=
        Array.size_setIfInBounds
      change Stacked symbols key (c.bindings.setIfInBounds (key symbol) previous).size
        lower.toList.reverse (ControlStack.setBinding { c with frames := lower } (key symbol)
          previous).bindingAt _
      rw [hcurrent, hsize]
      exact hlower

theorem dropFrames (h : Mirrors symbols key c env) (count : Nat) :
    Mirrors symbols key (ControlStack.dropFrames count c)
      { env with scopes := env.scopes.drop count } := by
  induction count generalizing c env with
  | zero => exact h
  | succ count ih =>
    have hrest := ih h.dropTop
    rwa [List.drop_drop, Nat.add_comm 1 count] at hrest

theorem abandon (h : Mirrors symbols key c env) (scope : ControlStack.Scope) :
    Mirrors symbols key (c.abandon scope) (env.cut scope.depth) := by
  unfold ControlStack.abandon Environment.cut
  rw [h.length_eq]
  exact (h.dropFrames _).congr rfl rfl rfl rfl

/-- A scope can be left if and only if its frame is the innermost one. -/
theorem leave_eq (h : Mirrors symbols key c env) (serial : Nat) :
    env.leave serial = if c.popProblem? serial = none then { env with scopes := env.scopes.drop 1 }
      else env := by
  have hserials := h.stacked.serials_eq
  rw [List.map_reverse] at hserials
  have htop : c.frames.back?.map (·.serial) = env.scopes.head?.map (·.serial) := by
    rw [← List.head?_map, hserials, List.head?_reverse, List.getLast?_map, Array.getLast?_toList]
  have hproblem : c.popProblem? serial = none ↔ c.frames.back?.map (·.serial) = some serial := by
    unfold ControlStack.popProblem?
    cases c.frames.back? with
    | none => simp
    | some frame => simp
  simp only [hproblem, htop, Environment.leave]
  cases env.scopes with
  | nil => rfl
  | cons scope outer => simp

/-- The frame of the innermost scope can be left. -/
theorem onTop (h : Mirrors symbols key c env) {scope : ControlStack.Scope} {inner : Opened}
    {outer : List Opened} (hscopes : env.scopes = inner :: outer)
    (hserial : inner.serial = scope.serial) : ∃ kind lower, Machine.OnTop c scope kind lower := by
  have hstacked := h.stacked
  rw [hscopes] at hstacked
  have hframes : ∀ {frame : Frame} {frames : List Frame},
      c.frames.toList.reverse = frame :: frames → c.frames = frames.reverse.toArray.push frame := by
    intro frame frames heq
    have htoList := congrArg List.reverse heq
    rw [List.reverse_reverse, List.reverse_cons] at htoList
    rw [← Array.toList_inj, htoList, Array.toList_push]
  generalize hreverse : c.frames.toList.reverse = frames at hstacked
  cases hstacked with
  | @plain frames _ _ _ kind hplain _ =>
    refine ⟨kind, frames.reverse.toArray, ?_, fun symbol index previous heq => ?_⟩
    · rw [hframes hreverse, ← hserial]
    · exact absurd heq (hplain symbol index previous)
  | @bound frames _ _ _ symbol _ previous _ hindex =>
    refine ⟨.binding symbol (key symbol) previous, frames.reverse.toArray, ?_, fun _ _ _ heq => ?_⟩
    · rw [hframes hreverse, ← hserial]
    · cases heq
      exact hindex

/-! ### Assigning -/

/-- What a symbol is bound to, as the table tells. -/
theorem lookup_eq (h : Mirrors symbols key c env)
    (hkey : ∀ a ∈ symbols, ∀ b ∈ symbols, key a = key b → a = b) (hsymbol : symbol ∈ symbols) :
    lookup symbol env.scopes = if (c.bindingAt (key symbol)).isEmpty then none
      else some (c.bindingAt (key symbol)) := by
  have hempty : ∀ v : Value, v.isEmpty = true ↔ v = .empty := by
    rintro ⟨bits⟩
    simp [Value.isEmpty, Value.empty]
  simp only [h.stacked.lookup_eq hkey hsymbol, hempty]

theorem setBinding (h : Mirrors symbols key c env)
    (hkey : ∀ a ∈ symbols, ∀ b ∈ symbols, key a = key b → a = b) (hsymbol : symbol ∈ symbols)
    (hvalue : value ≠ .empty) (hown : (c.bindingAt (key symbol)).isEmpty = false) :
    Mirrors symbols key (c.setBinding (key symbol) value)
      { env with scopes := assign symbol value env.scopes } := by
  have hindex : key symbol < c.bindings.size := by
    by_contra hlarge
    rw [ControlStack.bindingAt, Array.getD, dif_neg hlarge] at hown
    cases hown
  have hnow : c.bindingAt (key symbol) ≠ .empty := fun heq => by
    rw [heq] at hown
    cases hown
  refine ⟨?_, h.nextSerial, h.frameLimit⟩
  have hsize : (c.setBinding (key symbol) value).bindings.size = c.bindings.size :=
    Array.size_setIfInBounds
  rw [hsize, ControlStack.bindingAt_setBinding hindex]
  exact h.stacked.assign hkey hsymbol hvalue hnow

end Mirrors

/-! ## Acts -/

theorem act_of_frame {act : Act} {kind : FrameKind} (h : act.frame? = some kind) (env : Environment) :
    env.act act = env.enter none ∧
      ∀ symbol index previous, kind ≠ .binding symbol index previous := by
  cases act with
  | enterCatch | enterProtect =>
    obtain rfl := Option.some.inj h
    exact ⟨rfl, nofun⟩
  | _ => exact absurd h (by simp [Act.frame?])

theorem act_of_leaves {act : Act} {serial : Nat} (h : act.leaves? = some serial) (env : Environment) :
    env.act act = env.leave serial := by
  cases act with
  | leaveCatch | startCleanup | leaveBinding =>
    obtain rfl := Option.some.inj h
    rfl
  | _ => exact absurd h (by simp [Act.leaves?])

theorem act_of_plain {act : Act} (h : act.isPlain = true) (env : Environment) : env.act act = env := by
  cases act <;> first | rfl | exact absurd h (by simp [Act.isPlain])

/-- Acts on symbols that can be told apart, with values that can be told from missing ones. -/
def Proper (symbols : List Value) : Act → Prop
  | .enterBinding symbol value => symbol ∈ symbols ∧ value ≠ .empty
  | .setSymbolValue symbol value => symbol ∈ symbols ∧ value ≠ .empty
  | _ => True

/-- Acts other than binding a symbol do to the control stack what they do to the deep stack. -/
theorem Mirrors.turns {symbols : List Value} {key : Value → Nat} {c c' : ControlStack}
    {env : Environment} {mode : Mode} {s : Space} {act : Act} (h : Mirrors symbols key c env)
    (hkey : ∀ a ∈ symbols, ∀ b ∈ symbols, key a = key b → a = b)
    (hindex : ∀ symbol ∈ symbols, s.symbolBindingIndex mode symbol = .ok (key symbol))
    (hfield : ∀ symbol ∈ symbols, ∃ word, s.locate mode symbol .symbolValue = .ok (some word))
    (hproper : Proper symbols act) (hother : ∀ symbol value, act ≠ .enterBinding symbol value)
    (hturns : act.Turns mode s c c') : Mirrors symbols key c' (env.act act) := by
  have hleft : ∀ {serial : Nat}, act.leaves? = some serial → c.popProblem? serial = none →
      Mirrors symbols key c.dropTop (env.act act) := by
    intro serial hleaves htop
    rw [act_of_leaves hleaves, h.leave_eq, if_pos htop]
    exact h.dropTop
  cases hturns with
  | full hframe hfull =>
    rw [(act_of_frame hframe env).1, Environment.enter, if_pos (h.full_iff.mpr hfull)]
    exact h
  | entered hframe hnotfull =>
    obtain ⟨hact, hplain⟩ := act_of_frame hframe env
    rw [hact]
    exact h.pushed hplain hnotfull
  | misplaced hleaves hproblem =>
    rw [act_of_leaves hleaves, h.leave_eq, if_neg hproblem]
    exact h
  | left hleaves htop => exact hleft hleaves htop
  | returned htop => exact (hleft rfl htop).congr rfl rfl rfl rfl
  | caught htop => exact (hleft rfl htop).congr rfl rfl rfl rfl
  | uncaught htop => exact (hleft rfl htop).congr rfl rfl rfl rfl
  | suspended htop => exact (hleft rfl htop).congr rfl rfl rfl rfl
  | idle hplain =>
    rw [act_of_plain hplain]
    exact h
  | resumed | superseded | exiting | valued | called | uncalled => exact h.congr rfl rfl rfl rfl
  | abandoned scope => exact h.abandon scope
  | @unassigned symbol _ hnowhere =>
    obtain ⟨word, hword⟩ := hfield symbol hproper.1
    exact absurd hword (hnowhere _ word (hindex symbol hproper.1))
  | assigned hat hown =>
    cases (hindex _ hproper.1).symm.trans hat
    exact h.setBinding hkey hproper.1 hproper.2 hown
  | unknown | unreserved | cleared | refused | bound => exact absurd rfl (hother _ _)

end Dynamic

end Substrate
