import Substrate.Machine.Threads
import Substrate.Proofs.Control.Operations

/-!
# Control, act by act

A scope is entered, its body runs, and the scope is left. While the body runs, anything may happen: other
scopes, other threads, collections. So what a thread does to control is a sequence of acts, between which
the rest of the machine goes on. `Act.Turns` lists all that an act can do to the control stack, whether it
succeeds, is refused or fails; what holds of every run is derived from this list.
-/

namespace Substrate

/-- What a thread does to control at once. Scopes are entered and left by separate acts, and so are
cleanups and calls; `abandon` is what a fault does to each scope that it unwinds through. -/
inductive Act where
  | enterCatch (tag : Value)
  | leaveCatch (scope : ControlStack.Scope) (result : Outcome Value)
  | enterProtect
  | startCleanup (scope : ControlStack.Scope)
  | endCleanup (expected : Nat) (result cleaned : Outcome Value)
  | enterBinding (symbol value : Value)
  | leaveBinding (scope : ControlStack.Scope)
  | abandon (scope : ControlStack.Scope)
  | startExit (tag : Value) (values : List Value)
  | setValues (values : List Value)
  | setSymbolValue (symbol value : Value)
  | startCall (closure : Value)
  | endCall (expected : Nat)

namespace Machine

variable {γ α : Type} {m : Machine γ}

/-! ## Cleanups and calls in two halves -/

/-- Takes the frame of a protected body away and sets everything aside for its cleanup; gives how much is
set aside then. -/
def startCleanup (scope : ControlStack.Scope) : Op γ Nat := do
  leave scope
  suspend
  control (·.suspended.length)

theorem leaveProtect_eq (cleanup : Op γ (Outcome Value)) (scope : ControlStack.Scope)
    (result : Outcome Value) :
    leaveProtect cleanup scope result = (do
      let expected ← startCleanup scope
      unsuspend expected result (← cleanup)) := by
  simp only [leaveProtect, startCleanup, bind_assoc]

/-- Makes a call part of the history; gives the length of the history then. -/
def startCall (closure : Value) : Op γ (Outcome Nat) := do
  let limit ← control (·.invocationLimit)
  if limit ≤ (← control (·.history.size)) then
    return .error (.error (.invocationOverflow limit))
  modifyControl fun c => { c with history := c.history.push closure }
  return .ok (← control (·.history.size))

/-- Takes the latest call out of the history. -/
def endCall (expected : Nat) : Op γ Unit := do
  if (← control (·.history.size)) ≠ expected then
    raiseFatal .controlIntegrity "invocation history changed across a call"
  modifyControl fun c => { c with history := c.history.pop }

theorem startCall_full {closure : Value}
    (h : m.running.control.invocationLimit ≤ m.running.control.history.size) :
    startCall closure m
      = .ok (.error (.error (.invocationOverflow m.running.control.invocationLimit))) m := by
  rw [startCall, bind_of_ok (control_apply _), bind_of_ok (control_apply _), if_pos h]
  rfl

theorem startCall_called {closure : Value}
    (h : ¬m.running.control.invocationLimit ≤ m.running.control.history.size) :
    startCall closure m = .ok (.ok (calling m.running.control closure).history.size)
      (m.withControl (calling m.running.control closure)) := by
  rw [startCall, bind_of_ok (control_apply _), bind_of_ok (control_apply _), if_neg h]
  rfl

theorem recorded_eq (closure : Value) (body : Op γ (Outcome Value)) :
    recorded closure body = (do
      match ← startCall closure with
      | .error unwind => return .error unwind
      | .ok expected =>
        let result ← body
        endCall expected
        return result) := by
  funext m
  by_cases h : m.running.control.invocationLimit ≤ m.running.control.history.size
  · rw [recorded_full h, bind_of_ok (startCall_full h)]
    rfl
  · rw [recorded_apply h, bind_of_ok (startCall_called h)]
    refine congrFun (congrArg (body >>= ·) (funext fun result => ?_)) _
    simp only [endCall, bind_assoc]
    refine congrArg (control (·.history.size) >>= ·) (funext fun size => ?_)
    split <;> simp only [bind_assoc]

/-! ## Acts -/

/-- The machine at the end of an operation, however it ended. -/
def ending (r : EStateM.Result Fault (Machine γ) α) : Machine γ :=
  match r with
  | .ok _ m => m
  | .error _ m => m

/-- The machine after an act of the running thread. -/
def after (m : Machine γ) : Act → Machine γ
  | .enterCatch tag => ending (enter (.catching tag) m)
  | .leaveCatch scope result => ending (leaveCatch scope result m)
  | .enterProtect => ending (enter .protecting m)
  | .startCleanup scope => ending (startCleanup scope m)
  | .endCleanup expected result cleaned => ending (unsuspend expected result cleaned m)
  | .enterBinding symbol value => ending (enterBinding symbol value m)
  | .leaveBinding scope => ending (leave scope m)
  | .abandon scope => ending (modifyControl (·.abandon scope) m)
  | .startExit tag values => ending (startExit tag values m)
  | .setValues values => ending (setValues values m)
  | .setSymbolValue symbol value => ending (setSymbolValue symbol value m)
  | .startCall closure => ending (startCall closure m)
  | .endCall expected => ending (endCall expected m)

end Machine

/-! ## What an act can do -/

/-- The stack with the exit under way and the values register set aside. -/
def ControlStack.setAside (c : ControlStack) : ControlStack :=
  { c with pending := none, values := [], suspended := ⟨c.pending, c.values⟩ :: c.suspended }

namespace Act

/-- The frame that an act enters without binding anything. -/
def frame? : Act → Option FrameKind
  | enterCatch tag => some (.catching tag)
  | enterProtect => some .protecting
  | _ => none

/-- The serial number of the frame that an act takes away. -/
def leaves? : Act → Option Nat
  | leaveCatch scope _ => some scope.serial
  | startCleanup scope => some scope.serial
  | leaveBinding scope => some scope.serial
  | _ => none

/-- Acts that have to do neither with frames nor with bindings. -/
def isPlain : Act → Bool
  | endCleanup _ _ _ => true
  | startExit _ _ => true
  | setValues _ => true
  | startCall _ => true
  | endCall _ => true
  | _ => false

/-- What an act can make of a control stack. -/
inductive Turns (mode : Mode) (s : Space) (c : ControlStack) : Act → ControlStack → Prop where
  | full {act : Act} {kind : FrameKind} (hframe : act.frame? = some kind)
      (hfull : c.frameLimit ≤ c.frames.size) : Turns mode s c act c
  | entered {act : Act} {kind : FrameKind} (hframe : act.frame? = some kind)
      (hroom : ¬c.frameLimit ≤ c.frames.size) : Turns mode s c act (c.pushed kind)
  | misplaced {act : Act} {serial : Nat} (hleaves : act.leaves? = some serial)
      (hproblem : c.popProblem? serial ≠ none) : Turns mode s c act c
  | left {act : Act} {serial : Nat} (hleaves : act.leaves? = some serial)
      (htop : c.popProblem? serial = none) : Turns mode s c act c.dropTop
  | returned {scope : ControlStack.Scope} {value : Value} (htop : c.popProblem? scope.serial = none) :
      Turns mode s c (.leaveCatch scope (.ok value)) { c.dropTop with values := [value] }
  | caught {scope : ControlStack.Scope} {result : Outcome Value} {exit : PendingExit}
      (htop : c.popProblem? scope.serial = none) (hexit : c.dropTop.pending = some exit) :
      Turns mode s c (.leaveCatch scope result)
        { c.dropTop with pending := none, values := exit.values }
  | uncaught {scope : ControlStack.Scope} {result : Outcome Value}
      (htop : c.popProblem? scope.serial = none) :
      Turns mode s c (.leaveCatch scope result) { c.dropTop with pending := none }
  | suspended {scope : ControlStack.Scope} (htop : c.popProblem? scope.serial = none) :
      Turns mode s c (.startCleanup scope) c.dropTop.setAside
  | idle {act : Act} (hplain : act.isPlain = true) : Turns mode s c act c
  | resumed {expected : Nat} {result cleaned : Outcome Value} {saved : Suspended}
      (hsaved : c.suspended.head? = some saved) : Turns mode s c (.endCleanup expected result cleaned)
        { c with suspended := c.suspended.tail, pending := saved.exit, values := saved.values }
  | superseded {expected : Nat} {result cleaned : Outcome Value} :
      Turns mode s c (.endCleanup expected result cleaned) { c with suspended := c.suspended.tail }
  | abandoned (scope : ControlStack.Scope) : Turns mode s c (.abandon scope) (c.abandon scope)
  | exiting {tag : Value} {values : List Value} (target : Nat) :
      Turns mode s c (.startExit tag values) { c with pending := some ⟨target, values⟩ }
  | valued (values : List Value) : Turns mode s c (.setValues values) { c with values }
  | called (closure : Value) : Turns mode s c (.startCall closure) (Machine.calling c closure)
  | uncalled (expected : Nat) : Turns mode s c (.endCall expected) { c with history := c.history.pop }
  | unassigned {symbol value : Value} (hfield : ∀ index word,
      s.symbolBindingIndex mode symbol = .ok index →
        s.locate mode symbol .symbolValue ≠ .ok (some word)) :
      Turns mode s c (.setSymbolValue symbol value) c
  | assigned {symbol value : Value} {index : Nat} (hindex : s.symbolBindingIndex mode symbol = .ok index)
      (hown : (c.bindingAt index).isEmpty = false) :
      Turns mode s c (.setSymbolValue symbol value) (c.setBinding index value)
  | unknown {symbol value : Value} {fault : Fault}
      (hindex : s.symbolBindingIndex mode symbol = .error fault) :
      Turns mode s c (.enterBinding symbol value) c
  | unreserved {symbol value : Value} {index : Nat}
      (hindex : s.symbolBindingIndex mode symbol = .ok index)
      (hlarge : ControlStack.tableLimit ≤ index + 1) : Turns mode s c (.enterBinding symbol value) c
  | cleared {symbol value : Value} {index : Nat}
      (hindex : s.symbolBindingIndex mode symbol = .ok index) (hlarge : wordLimit ≤ index + 1) :
      Turns mode s c (.enterBinding symbol value) { c with bindings := #[] }
  | refused {symbol value : Value} {index : Nat}
      (hindex : s.symbolBindingIndex mode symbol = .ok index)
      (hfull : c.frameLimit ≤ c.frames.size) :
      Turns mode s c (.enterBinding symbol value) (c.reserve index)
  | bound {symbol value : Value} {index : Nat} (hindex : s.symbolBindingIndex mode symbol = .ok index)
      (hroom : ¬c.frameLimit ≤ c.frames.size) :
      Turns mode s c (.enterBinding symbol value) (c.bound symbol index value)

end Act

namespace Machine

variable {γ α β : Type} {m m' : Machine γ} {c c' : ControlStack}

/-- The operation ended with the given control stack, and nothing else changed but the log. -/
def Turned (m : Machine γ) (c : ControlStack) (m' : Machine γ) : Prop :=
  ∃ log, m' = { m.withControl c with log }

theorem turned_self (m : Machine γ) : Turned m m.running.control m := ⟨m.log, rfl⟩

theorem turned_withControl (m : Machine γ) (c : ControlStack) : Turned m c (m.withControl c) :=
  ⟨m.log, rfl⟩

theorem raise_turned (fault : Fault) (m : Machine γ) :
    ∃ m', (raise fault : Op γ α) m = .error fault m' ∧ Turned m m.running.control m' := by
  cases fault <;> exact ⟨_, rfl, _, rfl⟩

/-- A fault ends whatever was to follow. -/
theorem turned_raise_bind (fault : Fault) (f : α → Op γ β) (m : Machine γ) :
    Turned m m.running.control (ending ((raise fault >>= f) m)) := by
  obtain ⟨m', hrun, hturned⟩ := raise_turned (α := α) fault m
  rw [bind_of_error hrun]
  exact hturned

theorem turned_raise (fault : Fault) (m : Machine γ) :
    Turned m m.running.control (ending ((raise fault : Op γ α) m)) := by
  obtain ⟨m', hrun, hturned⟩ := raise_turned (α := α) fault m
  rw [hrun]
  exact hturned

/-- Looking at the heap gives an answer or a fault. -/
theorem view_cases (f : Mode → Space → Except Fault α) (m : Machine γ) :
    (∃ a, f m.mode m.heap.space = .ok a ∧ view f m = .ok a m) ∨
      ∃ fault m', f m.mode m.heap.space = .error fault ∧ view f m = .error fault m' ∧
        Turned m m.running.control m' := by
  unfold view
  cases f m.mode m.heap.space with
  | ok a => exact .inl ⟨a, rfl, rfl⟩
  | error fault =>
    obtain ⟨m', hrun, hturned⟩ := raise_turned (α := α) fault m
    exact .inr ⟨fault, m', rfl, hrun, hturned⟩

/-! ### Frames -/

theorem turns_enter {act : Act} {kind : FrameKind} (hframe : act.frame? = some kind)
    (m : Machine γ) : ∃ c, Turned m c (ending (enter kind m)) ∧
      act.Turns m.mode m.heap.space m.running.control c := by
  by_cases hfull : m.running.control.frameLimit ≤ m.running.control.frames.size
  · rw [enter_full hfull]
    exact ⟨_, turned_self m, .full hframe hfull⟩
  · rw [enter_pushed hfull]
    exact ⟨_, turned_withControl m _, .entered hframe hfull⟩

/-- The frame is taken away if it is the innermost one. -/
theorem leave_cases (scope : ControlStack.Scope) (m : Machine γ) :
    (m.running.control.popProblem? scope.serial ≠ none ∧
      ∃ fault m', leave scope m = .error fault m' ∧ Turned m m.running.control m') ∨
    m.running.control.popProblem? scope.serial = none ∧
      (leave scope m = .ok () (m.withControl m.running.control.dropTop) ∨
        ∃ fault m', leave scope m = .error fault m' ∧ Turned m m.running.control.dropTop m') := by
  rw [leave, bind_of_ok (control_apply _)]
  cases m.running.control.popProblem? scope.serial with
  | some message =>
    obtain ⟨m', hrun, hturned⟩ :=
      raise_turned (α := Unit) (.fatal .controlIntegrity message) m
    exact .inl ⟨by simp, _, m', hrun, hturned⟩
  | none =>
    refine .inr ⟨rfl, ?_⟩
    dsimp only
    rw [bind_of_ok (control_apply _), bind_of_ok (modifyControl_apply _)]
    cases m.running.control.lostBinding? with
    | none => exact .inl rfl
    | some index =>
      dsimp only
      rw [bind_of_ok (control_apply _)]
      obtain ⟨m', hrun, hturned⟩ := raise_turned (α := Unit) _
        (m.withControl m.running.control.dropTop)
      exact .inr ⟨_, m', hrun, hturned⟩

/-- What follows once the frame is taken away decides what an act does that takes it away. -/
theorem turns_leave {act : Act} {scope : ControlStack.Scope} (hleaves : act.leaves? = some scope.serial)
    {f : Unit → Op γ α} (m : Machine γ)
    (hf : m.running.control.popProblem? scope.serial = none →
      ∃ c, Turned m c (ending (f () (m.withControl m.running.control.dropTop))) ∧
        act.Turns m.mode m.heap.space m.running.control c) :
    ∃ c, Turned m c (ending ((leave scope >>= f) m)) ∧
      act.Turns m.mode m.heap.space m.running.control c := by
  obtain ⟨hproblem, fault, m', hrun, hturned⟩ | ⟨htop, hrun | ⟨fault, m', hrun, hturned⟩⟩ :=
    leave_cases scope m
  · rw [bind_of_error hrun]
    exact ⟨_, hturned, .misplaced hleaves hproblem⟩
  · rw [bind_of_ok hrun]
    exact hf htop
  · rw [bind_of_error hrun]
    exact ⟨_, hturned, .left hleaves htop⟩

theorem turns_leaveCatch (scope : ControlStack.Scope) (result : Outcome Value) (m : Machine γ) :
    ∃ c, Turned m c (ending (leaveCatch scope result m)) ∧
      (Act.leaveCatch scope result).Turns m.mode m.heap.space m.running.control c := by
  refine turns_leave rfl m fun htop => ?_
  rcases result with (target | error) | value
  · dsimp only
    split
    · rw [bind_of_ok (onControl_apply _)]
      dsimp only
      cases hexit : m.running.control.dropTop.pending.filter (·.target == scope.serial) with
      | none =>
        simp only [control_withControl, hexit]
        exact ⟨_, turned_raise _ (m.withControl { m.running.control.dropTop with pending := none }),
          .uncaught htop⟩
      | some exit =>
        simp only [control_withControl, hexit]
        exact ⟨_, turned_withControl m _, .caught htop (Option.filter_eq_some_iff.mp hexit).1⟩
    · exact ⟨_, turned_withControl m _, .left rfl htop⟩
  · dsimp only
    rw [pendingExit, bind_of_ok (control_apply _)]
    simp only [control_withControl]
    cases m.running.control.dropTop.pending with
    | none => exact ⟨_, turned_withControl m _, .left rfl htop⟩
    | some exit => exact ⟨_, turned_raise _ (m.withControl m.running.control.dropTop), .left rfl htop⟩
  · dsimp only
    rw [pendingExit, bind_of_ok (control_apply _)]
    simp only [control_withControl]
    cases m.running.control.dropTop.pending with
    | none => exact ⟨_, turned_withControl m _, .returned htop⟩
    | some exit => exact ⟨_, turned_raise _ (m.withControl m.running.control.dropTop), .left rfl htop⟩

theorem turns_startCleanup (scope : ControlStack.Scope) (m : Machine γ) :
    ∃ c, Turned m c (ending (startCleanup scope m)) ∧
      (Act.startCleanup scope).Turns m.mode m.heap.space m.running.control c :=
  turns_leave rfl m fun htop => ⟨_, turned_withControl m _, .suspended htop⟩

theorem turns_leaveBinding (scope : ControlStack.Scope) (m : Machine γ) :
    ∃ c, Turned m c (ending (leave scope m)) ∧
      (Act.leaveBinding scope).Turns m.mode m.heap.space m.running.control c := by
  have hturns : ∃ c, Turned m c (ending ((leave scope >>= pure) m)) ∧
      (Act.leaveBinding scope).Turns m.mode m.heap.space m.running.control c :=
    turns_leave rfl m fun htop => ⟨_, turned_withControl m _, .left rfl htop⟩
  rwa [bind_pure] at hturns

/-! ### Exits, cleanups and calls -/

theorem turns_endCleanup (expected : Nat) (result cleaned : Outcome Value) (m : Machine γ) :
    ∃ c, Turned m c (ending (unsuspend expected result cleaned m)) ∧
      (Act.endCleanup expected result cleaned).Turns m.mode m.heap.space m.running.control c := by
  rw [unsuspend, bind_of_ok (control_apply _)]
  split
  · exact ⟨_, turned_raise_bind _ _ m, .idle rfl⟩
  · dsimp only
    rw [bind_of_ok (onControl_apply _)]
    cases cleaned with
    | ok value =>
      cases hsaved : m.running.control.suspended.head? with
      | none => exact ⟨_, turned_withControl m _, .superseded⟩
      | some saved => exact ⟨_, turned_withControl m _, .resumed hsaved⟩
    | error unwind =>
      dsimp only
      cases (m.running.control.suspended.head?).bind (·.exit) with
      | none => exact ⟨_, turned_withControl m _, .superseded⟩
      | some exit => exact ⟨_, ⟨_, rfl⟩, .superseded⟩

theorem turns_startExit (tag : Value) (values : List Value) (m : Machine γ) :
    ∃ c, Turned m c (ending (startExit tag values m)) ∧
      (Act.startExit tag values).Turns m.mode m.heap.space m.running.control c := by
  rw [startExit, bind_of_ok (control_apply _)]
  cases m.running.control.findCatch? tag with
  | none =>
    dsimp only
    obtain ⟨shown, -, hview⟩ | ⟨fault, m', -, hview, hturned⟩ :=
      view_cases (fun mode space => space.render mode tag) m
    · rw [bind_of_ok hview, bind_of_ok get_apply]
      exact ⟨_, turned_raise _ m, .idle rfl⟩
    · rw [bind_of_error hview]
      exact ⟨_, hturned, .idle rfl⟩
  | some target =>
    dsimp only
    rw [pendingExit, bind_of_ok (control_apply _)]
    cases m.running.control.pending with
    | some exit => exact ⟨_, turned_raise _ m, .idle rfl⟩
    | none => exact ⟨_, ⟨_, rfl⟩, .exiting target⟩

theorem turns_startCall (closure : Value) (m : Machine γ) :
    ∃ c, Turned m c (ending (startCall closure m)) ∧
      (Act.startCall closure).Turns m.mode m.heap.space m.running.control c := by
  by_cases hfull : m.running.control.invocationLimit ≤ m.running.control.history.size
  · rw [startCall_full hfull]
    exact ⟨_, turned_self m, .idle rfl⟩
  · rw [startCall_called hfull]
    exact ⟨_, turned_withControl m _, .called closure⟩

theorem turns_endCall (expected : Nat) (m : Machine γ) :
    ∃ c, Turned m c (ending (endCall expected m)) ∧
      (Act.endCall expected).Turns m.mode m.heap.space m.running.control c := by
  rw [endCall, bind_of_ok (control_apply _)]
  split
  · exact ⟨_, turned_raise_bind _ _ m, .idle rfl⟩
  · exact ⟨_, turned_withControl m _, .uncalled expected⟩

/-! ### Bindings -/

/-- There is room for an entry of the table, or the index is beyond what a table can have. -/
theorem reserveBinding_turned (index : Nat) (m : Machine γ) :
    reserveBinding index m = .ok () (m.withControl (m.running.control.reserve index)) ∨
    ∃ fault m' c, reserveBinding index m = .error fault m' ∧ Turned m c m' ∧
      (c = m.running.control ∧ ControlStack.tableLimit ≤ index + 1 ∨
        c = { m.running.control with bindings := #[] } ∧ wordLimit ≤ index + 1) := by
  by_cases hsmall : index + 1 < ControlStack.tableLimit
  · exact .inl (reserveBinding_ok hsmall)
  have hlarge := Nat.not_lt.mp hsmall
  rw [reserveBinding, bind_of_ok (control_apply _)]
  split
  · rw [bind_of_ok get_apply]
    cases hadd : m.mode.add index 1 with
    | error fault =>
      obtain ⟨m', hrun, hturned⟩ := raise_turned (α := Nat) fault m
      exact .inr ⟨fault, m', _, bind_of_error hrun, hturned, .inl ⟨rfl, hlarge⟩⟩
    | ok size =>
      rw [bind_of_ok (ofExcept_apply _)]
      split
      · obtain ⟨m', hrun, hturned⟩ := raise_turned (α := PUnit) (.panic "capacity overflow") m
        exact .inr ⟨_, m', _, bind_of_error hrun, hturned, .inl ⟨rfl, hlarge⟩⟩
      · -- a size that wrapped around
        rename_i hfits
        have hwrapped : wordLimit ≤ index + 1 := by
          refine Nat.not_lt.mp fun hlt => hfits ?_
          rw [Mode.add, if_pos hlt] at hadd
          cases hadd
          exact hlarge
        dsimp only
        split
        · rw [bind_of_ok (modifyControl_apply _)]
          obtain ⟨m', hrun, hturned⟩ := raise_turned (α := PUnit) (.outOfBounds 0 index)
            (m.withControl { m.running.control with bindings := #[] })
          exact .inr ⟨_, m', _, bind_of_error hrun, hturned, .inr ⟨rfl, hwrapped⟩⟩
        · exact .inl rfl
  · rename_i hsize
    rw [ControlStack.reserve_of_lt (Nat.not_le.mp hsize)]
    exact .inl rfl

/-- A symbol is bound, or there are too many frames, or the table cannot have an entry for it. -/
theorem enterBinding_of_index {symbol : Value} {index : Nat}
    (hindex : m.heap.space.symbolBindingIndex m.mode symbol = .ok index) (value : Value) :
    (m.running.control.frameLimit ≤ m.running.control.frames.size ∧ enterBinding symbol value m
      = .ok (.error (.error (.frameStackOverflow m.running.control.frameLimit)))
        (m.withControl (m.running.control.reserve index))) ∨
    (¬m.running.control.frameLimit ≤ m.running.control.frames.size ∧ enterBinding symbol value m
      = .ok (.ok m.running.control.scope)
        (m.withControl (m.running.control.bound symbol index value))) ∨
    ∃ fault m' c, enterBinding symbol value m = .error fault m' ∧ Turned m c m' ∧
      (c = m.running.control ∧ ControlStack.tableLimit ≤ index + 1 ∨
        c = { m.running.control with bindings := #[] } ∧ wordLimit ≤ index + 1) := by
  obtain hroom | ⟨fault, m', c, hfault, hturned, hcontrol⟩ := reserveBinding_turned index m
  · by_cases hfull : m.running.control.frameLimit ≤ m.running.control.frames.size
    · exact .inl ⟨hfull, enterBinding_full hindex hroom value hfull⟩
    · exact .inr (.inl ⟨hfull, enterBinding_bound hindex hroom value hfull⟩)
  · refine .inr (.inr ⟨fault, m', c, ?_, hturned, hcontrol⟩)
    rw [enterBinding, bind_of_ok (bindingIndex_ok hindex), bind_of_error hfault]

theorem turns_enterBinding (symbol value : Value) (m : Machine γ) :
    ∃ c, Turned m c (ending (enterBinding symbol value m)) ∧
      (Act.enterBinding symbol value).Turns m.mode m.heap.space m.running.control c := by
  obtain ⟨index, hindex, -⟩ | ⟨fault, m', hindex, hview, hturned⟩ :=
    view_cases (fun mode space => space.symbolBindingIndex mode symbol) m
  · obtain ⟨hfull, hrun⟩ | ⟨hfull, hrun⟩ | ⟨fault, m', c, hrun, hturned, hcontrol⟩ :=
      enterBinding_of_index hindex value
    · rw [hrun]
      exact ⟨_, turned_withControl m _, .refused hindex hfull⟩
    · rw [hrun]
      exact ⟨_, turned_withControl m _, .bound hindex hfull⟩
    · rw [hrun]
      refine ⟨c, hturned, ?_⟩
      obtain ⟨rfl, hlarge⟩ | ⟨rfl, hlarge⟩ := hcontrol
      · exact .unreserved hindex hlarge
      · exact .cleared hindex hlarge
  · rw [enterBinding, bindingIndex, bind_of_error hview]
    exact ⟨_, hturned, .unknown hindex⟩

/-- An assignment to a symbol changes its innermost binding or its global value, or fails. -/
theorem setSymbolValue_cases (symbol value : Value) (m : Machine γ) :
    (∃ c, Turned m c (ending (setSymbolValue symbol value m)) ∧
      (Act.setSymbolValue symbol value).Turns m.mode m.heap.space m.running.control c) ∨
    ∃ index word, m.heap.space.symbolBindingIndex m.mode symbol = .ok index ∧
      (m.running.control.bindingAt index).isEmpty = true ∧
      m.heap.space.locate m.mode symbol .symbolValue = .ok (some word) ∧
      setSymbolValue symbol value m = .ok () { m with heap := { m.heap with
        space := m.heap.space.setWord symbol.address word value.bits } } := by
  obtain ⟨index, hindex, -⟩ | ⟨fault, m', hindex, hview, hturned⟩ :=
    view_cases (fun mode space => space.symbolBindingIndex mode symbol) m
  · rw [setSymbolValue, bind_of_ok (bindingIndex_ok hindex), bind_of_ok (control_apply _)]
    cases hown : (m.running.control.bindingAt index).isEmpty with
    | false => exact .inl ⟨_, turned_withControl m _, .assigned hindex hown⟩
    | true =>
      simp only [if_true, setField, onSpace, onHeap, Heap.onSpace, Space.fieldSet]
      cases hfield : m.heap.space.locate m.mode symbol .symbolValue with
      | error fault =>
        refine .inl ⟨_, turned_raise fault m, .unassigned fun _ word _ hword => ?_⟩
        cases hfield.symm.trans hword
      | ok place =>
        cases place with
        | none =>
          refine .inl ⟨_, turned_self m, .unassigned fun _ word _ hword => ?_⟩
          cases hfield.symm.trans hword
        | some word => exact .inr ⟨index, word, hindex, hown, rfl, rfl⟩
  · rw [setSymbolValue, bindingIndex, bind_of_error hview]
    refine .inl ⟨_, hturned, .unassigned fun index _ hok => ?_⟩
    cases hindex.symm.trans hok

/-! ### All acts -/

/-- An act leads to a control stack that it can lead to, or it sets the global value of a symbol. -/
theorem after_cases (act : Act) (m : Machine γ) :
    (∃ c, Turned m c (m.after act) ∧ act.Turns m.mode m.heap.space m.running.control c) ∨
    ∃ symbol value index word, act = .setSymbolValue symbol value ∧
      m.heap.space.symbolBindingIndex m.mode symbol = .ok index ∧
      (m.running.control.bindingAt index).isEmpty = true ∧
      m.heap.space.locate m.mode symbol .symbolValue = .ok (some word) ∧
      m.after act = { m with heap := { m.heap with
        space := m.heap.space.setWord symbol.address word value.bits } } := by
  cases act with
  | enterCatch tag => exact .inl (turns_enter rfl m)
  | leaveCatch scope result => exact .inl (turns_leaveCatch scope result m)
  | enterProtect => exact .inl (turns_enter rfl m)
  | startCleanup scope => exact .inl (turns_startCleanup scope m)
  | endCleanup expected result cleaned => exact .inl (turns_endCleanup expected result cleaned m)
  | enterBinding symbol value => exact .inl (turns_enterBinding symbol value m)
  | leaveBinding scope => exact .inl (turns_leaveBinding scope m)
  | abandon scope => exact .inl ⟨_, turned_withControl m _, .abandoned scope⟩
  | startExit tag values => exact .inl (turns_startExit tag values m)
  | setValues values => exact .inl ⟨_, turned_withControl m _, .valued values⟩
  | setSymbolValue symbol value =>
    refine (setSymbolValue_cases symbol value m).imp_right ?_
    rintro ⟨index, word, hindex, hown, hfield, hrun⟩
    exact ⟨symbol, value, index, word, rfl, hindex, hown, hfield, by rw [after, hrun]; rfl⟩
  | startCall closure => exact .inl (turns_startCall closure m)
  | endCall expected => exact .inl (turns_endCall expected m)

/-- The running thread goes on after an act, and no symbol is made. -/
theorem after_same (act : Act) (m : Machine γ) :
    (m.after act).running.id = m.running.id ∧ (m.after act).nextBinding = m.nextBinding := by
  obtain ⟨c, ⟨log, heq⟩, -⟩ | ⟨_, _, _, _, -, -, -, -, heq⟩ := after_cases act m
  · rw [heq]
    exact ⟨rfl, rfl⟩
  · rw [heq]
    exact ⟨rfl, rfl⟩

/-! ## Threads -/

/-- A machine starts with a new heap, without symbols and with one thread. -/
theorem start_ok {mode : Mode} {options : Options} {client : γ}
    (hrun : start mode options client = .ok m) :
    m.mode = mode ∧ m.heap = .new mode options.heap ∧ m.symbols = .empty ∧ m.nextThread = 2 ∧
      m.threads = [⟨1, .running, .new options.frameLimit options.invocationLimit⟩] := by
  unfold start at hrun
  cases hvalid : options.validate with
  | error e =>
    rw [hvalid] at hrun
    cases hrun
  | ok u =>
    rw [hvalid] at hrun
    cases hrun
    exact ⟨rfl, rfl, rfl, rfl, rfl⟩

/-- A thread that is detached is gone, unless it is the only one. -/
theorem detach_threads (hrun : detach m = .ok () m') : m'.threads.Sublist m.threads ∧
    m' = { m with running := m'.running, waiting := m'.waiting, log := m'.log } := by
  obtain ⟨log, hnote⟩ : ∃ log, noteDetached m = .ok () { m with log } := ⟨_, rfl⟩
  unfold detach at hrun
  rw [bind_of_ok hnote] at hrun
  cases hrun
  dsimp only
  cases hcase : m.waiting with
  | nil =>
    have hthreads : m.threads = [m.running] := by simp [threads, hcase]
    exact ⟨hthreads ▸ List.Sublist.refl _, rfl⟩
  | cons thread rest =>
    refine ⟨?_, rfl⟩
    rw [threads, threads, hcase, List.reverse_cons]
    exact List.sublist_append_left _ _

end Machine

end Substrate
