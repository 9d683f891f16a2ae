import Substrate.Proofs.Control.Program

/-!
# Operations on a control stack of their own

What the control operations do with a machine, step by step, when the frame that they take away is
the one they put there.
-/

namespace Substrate

variable {α β : Type}

theorem eq_ok_of_bind {x : Except Fault α} {f : α → Except Fault β} {b : β}
    (h : (x >>= f) = .ok b) : ∃ a, x = .ok a ∧ f a = .ok b := by
  cases x with
  | ok a => exact ⟨a, rfl, h⟩
  | error fault => cases h

theorem eq_error_of_bind {x : Except Fault α} {f : α → Except Fault β} {fault : Fault}
    (h : (x >>= f) = .error fault) : x = .error fault ∨ ∃ a, x = .ok a ∧ f a = .error fault := by
  cases x with
  | ok a => exact .inr ⟨a, rfl, h⟩
  | error f =>
    cases h
    exact .inl rfl

namespace Machine

variable {γ : Type} {m m' : Machine γ}

/-! ## Sequences -/

theorem bind_of_ok {x : Op γ α} {f : α → Op γ β} {a : α} (h : x m = .ok a m') :
    (x >>= f) m = f a m' :=
  Run.bind_of_ok h

theorem bind_of_error {x : Op γ α} {f : α → Op γ β} {fault : Fault} (h : x m = .error fault m') :
    (x >>= f) m = .error fault m' :=
  Run.bind_of_error h

/-- The machine with another control stack. -/
def withControl (m : Machine γ) (control : ControlStack) : Machine γ :=
  { m with running := { m.running with control } }

@[simp] theorem control_withControl (c : ControlStack) :
    (m.withControl c).running.control = c := rfl

theorem get_apply : (get : Op γ (Machine γ)) m = .ok m m := rfl

theorem ofExcept_apply (a : α) : (ofExcept (.ok a) : Op γ α) m = .ok a m := rfl

theorem control_apply (f : ControlStack → α) : control f m = .ok (f m.running.control) m := rfl

theorem modifyControl_apply (f : ControlStack → ControlStack) :
    modifyControl f m = .ok () (m.withControl (f m.running.control)) := rfl

theorem onControl_apply (f : ControlStack → α × ControlStack) :
    onControl f m
      = .ok (f m.running.control).1 (m.withControl (f m.running.control).2) := rfl

/-! ## Looking at the heap -/

/-- A fault that changes nothing but control and the log, and not the values register. -/
def Fails (x : Op γ α) (m : Machine γ) (fault : Fault) : Prop :=
  ∃ hidden : Hidden, x m = .error fault (m.under hidden) ∧
    hidden.control.values = m.running.control.values

/-- The operation changes nothing and its result is `answer`. -/
def Looks (x : Op γ α) (m : Machine γ) : Except Fault α → Prop
  | .ok a => x m = .ok a m
  | .error fault => Fails x m fault

theorem fails_raise (fault : Fault) : Fails (raise fault : Op γ α) m fault := by
  cases fault with
  | fatal kind message => exact ⟨⟨_, _⟩, rfl, rfl⟩
  | panic | blocked => exact ⟨m.hidden, rfl, rfl⟩

theorem looks_pure (a : α) : Looks (pure a : Op γ α) m (.ok a) := rfl

theorem looks_raise (fault : Fault) : Looks (raise fault : Op γ α) m (.error fault) :=
  fails_raise fault

theorem Fails.bind {x : Op γ α} {fault : Fault} (h : Fails x m fault) (f : α → Op γ β) :
    Fails (x >>= f) m fault := by
  obtain ⟨hidden, hrun, hvalues⟩ := h
  exact ⟨hidden, bind_of_error hrun, hvalues⟩

theorem Fails.after {x : Op γ α} {f : α → Op γ β} {a : α} {fault : Fault} (hx : x m = .ok a m)
    (h : Fails (f a) m fault) : Fails (x >>= f) m fault := by
  obtain ⟨hidden, hrun, hvalues⟩ := h
  exact ⟨hidden, (bind_of_ok hx).trans hrun, hvalues⟩

theorem looks_ofExcept (answer : Except Fault α) : Looks (ofExcept answer : Op γ α) m answer := by
  cases answer with
  | ok a => rfl
  | error fault => exact fails_raise fault

theorem looks_view (f : Mode → Space → Except Fault α) :
    Looks (view f : Op γ α) m (f m.mode m.heap.space) :=
  looks_ofExcept (f m.mode m.heap.space)

theorem Looks.bind {x : Op γ α} {f : α → Op γ β} {answer : Except Fault α}
    {next : α → Except Fault β} (hx : Looks x m answer) (hf : ∀ a, Looks (f a) m (next a)) :
    Looks (x >>= f) m (answer >>= next) := by
  cases answer with
  | error fault => exact Fails.bind hx f
  | ok a =>
    have hnext := hf a
    change Looks (x >>= f) m (next a)
    cases hanswer : next a with
    | ok b =>
      rw [hanswer] at hnext
      exact (bind_of_ok hx).trans hnext
    | error fault =>
      rw [hanswer] at hnext
      exact Fails.after hx hnext

theorem Looks.congr {x y : Op γ α} {answer : Except Fault α} (h : x m = y m)
    (hy : Looks y m answer) : Looks x m answer := by
  cases answer with
  | ok a => exact h.trans hy
  | error fault =>
    obtain ⟨hidden, hrun, hvalues⟩ := hy
    exact ⟨hidden, h.trans hrun, hvalues⟩

/-- What a broken contract leads to. -/
theorem looks_expect {m : Machine Journal} (found : List Hidden) (message : String → String)
    (v : Value) :
    Looks (expect false fun _ => do
        return message (← view fun mode space => space.render mode v)) m
      ((m.store found).misuse message v) := by
  have hmode : (m.store found).mode = m.mode := rfl
  unfold Store.misuse expect
  rw [if_neg Bool.false_ne_true, hmode]
  cases h : m.mode with
  | debug =>
    have hsame : ∀ x : Except Fault String,
        (do let shown ← x; .error (.fatal .contractViolation (message shown)))
          = ((do return message (← x)) >>= fun text =>
            .error (.fatal .contractViolation text) : Except Fault Unit) := by
      rintro (_ | _) <;> rfl
    refine Looks.congr (bind_of_ok rfl) ?_
    rw [h, hsame]
    have hmessage : Looks (do return message (← view fun mode space => space.render mode v)) m
        (do return message (← m.heap.space.render m.mode v)) :=
      (looks_view _).bind fun shown => looks_pure (message shown)
    rw [h] at hmessage
    exact hmessage.bind fun _ => looks_raise _
  | release =>
    refine Looks.congr (bind_of_ok rfl) ?_
    rw [h]
    rfl

theorem looks_entryOf? {m : Machine Journal} (found : List Hidden) (closure : Value) :
    Looks (entryOf? closure) m ((m.store found).codeOf? closure) := by
  have hspace : (m.store found).space = m.heap.space := rfl
  have hmode : (m.store found).mode = m.mode := rfl
  unfold Store.codeOf? entryOf?
  rw [hspace, hmode]
  refine Looks.congr (bind_of_ok rfl) ?_
  by_cases hkind : m.heap.space.isKind closure .closure
  · simp only [hkind, Bool.not_true, Bool.false_eq_true, if_false, if_true]
    refine (looks_view _).bind fun entry => ?_
    split
    · exact (looks_expect found _ closure).bind fun _ => looks_pure none
    · exact looks_pure (some entry)
  · simp only [hkind, Bool.not_false, if_true]
    exact (looks_expect found _ closure).bind fun _ => looks_pure none

theorem looks_symbolValue {m : Machine Journal} (found : List Hidden) (symbol : Value) :
    Looks (symbolValue symbol) m
      ((m.store found).symbolValue m.running.control.bindingAt symbol) := by
  refine (looks_view fun mode space => space.symbolBindingIndex mode symbol).bind fun index => ?_
  refine Looks.congr (bind_of_ok (control_apply _)) ?_
  split
  · exact looks_view fun mode space => space.fieldGet mode symbol .symbolValue
  · exact looks_pure _

/-! ## Scopes -/

theorem enter_full {kind : FrameKind}
    (h : m.running.control.frameLimit ≤ m.running.control.frames.size) :
    enter kind m
      = .ok (.error (.error (.frameStackOverflow m.running.control.frameLimit))) m := by
  rw [enter, bind_of_ok (onControl_apply _), ControlStack.enter_full h]
  rfl

theorem enter_pushed {kind : FrameKind}
    (h : ¬m.running.control.frameLimit ≤ m.running.control.frames.size) :
    enter kind m
      = .ok (.ok m.running.control.scope) (m.withControl (m.running.control.pushed kind)) := by
  rw [enter, bind_of_ok (onControl_apply _), ControlStack.enter_pushed h]
  rfl

theorem guarded_of_ok {scope : ControlStack.Scope} {body : Op γ α} {a : α} (h : body m = .ok a m') :
    guarded scope body m = .ok a m' := by
  rw [guarded, h]

theorem guarded_of_error {scope : ControlStack.Scope} {body : Op γ α} {fault : Fault}
    (h : body m = .error fault m') :
    guarded scope body m
      = .error fault (m'.withControl (m'.running.control.abandon scope)) := by
  rw [guarded, h]
  rfl

/-- The guard of a body changes nothing about a run that comes back. -/
theorem of_guarded {scope : ControlStack.Scope} {body : Op γ α} {a : α}
    (h : guarded scope body m = .ok a m') : body m = .ok a m' := by
  cases hrun : body m with
  | ok b m₁ => exact (guarded_of_ok hrun).symm.trans h
  | error fault m₁ => cases (guarded_of_error hrun).symm.trans h

/-- The frame of a scope is the innermost one and its binding is there. -/
structure OnTop (c : ControlStack) (scope : ControlStack.Scope) (kind : FrameKind)
    (lower : Array Frame) : Prop where
  frames : c.frames = lower.push ⟨scope.serial, kind⟩
  present : ∀ symbol index previous, kind = .binding symbol index previous → index < c.bindings.size

theorem leave_apply {scope : ControlStack.Scope} {kind : FrameKind} {lower : Array Frame}
    (h : OnTop m.running.control scope kind lower) :
    leave scope m
      = .ok () (m.withControl
        (({ m.running.control with frames := lower } : ControlStack).undo kind)) := by
  have hproblem : m.running.control.popProblem? scope.serial = none :=
    ControlStack.popProblem?_top h.frames
  have hlost : m.running.control.lostBinding? = none := by
    simp only [ControlStack.lostBinding?, h.frames, Array.back?_push]
    cases kind with
    | catching | protecting => rfl
    | binding symbol index previous =>
      exact if_neg (Nat.not_le.mpr (h.present symbol index previous rfl))
  rw [leave, bind_of_ok (control_apply _), hproblem]
  dsimp only
  rw [bind_of_ok (control_apply _), bind_of_ok (modifyControl_apply _), hlost,
    ControlStack.dropTop_top h.frames]
  rfl

section Entering

variable {tag : Value} {body cleanup : Op γ (Outcome Value)}

theorem catching_full (h : m.running.control.frameLimit ≤ m.running.control.frames.size) :
    catching tag body m
      = .ok (.error (.error (.frameStackOverflow m.running.control.frameLimit))) m := by
  rw [catching, bind_of_ok (enter_full h)]
  rfl

theorem catching_entered (h : ¬m.running.control.frameLimit ≤ m.running.control.frames.size) :
    catching tag body m
      = (guarded m.running.control.scope body >>= leaveCatch m.running.control.scope)
        (m.withControl (m.running.control.pushed (.catching tag))) := by
  rw [catching, bind_of_ok (enter_pushed h)]

theorem unwindProtect_full (h : m.running.control.frameLimit ≤ m.running.control.frames.size) :
    unwindProtect body cleanup m
      = .ok (.error (.error (.frameStackOverflow m.running.control.frameLimit))) m := by
  rw [unwindProtect, bind_of_ok (enter_full h)]
  rfl

theorem unwindProtect_entered
    (h : ¬m.running.control.frameLimit ≤ m.running.control.frames.size) :
    unwindProtect body cleanup m
      = (guarded m.running.control.scope body >>= leaveProtect cleanup m.running.control.scope)
        (m.withControl (m.running.control.pushed .protecting)) := by
  rw [unwindProtect, bind_of_ok (enter_pushed h)]

end Entering

/-! ## Catch frames -/

section Catching

variable {scope : ControlStack.Scope} {tag : Value} {lower : Array Frame}

theorem leaveCatch_value (h : OnTop m.running.control scope (.catching tag) lower)
    (hpending : m.running.control.pending = none) (value : Value) :
    leaveCatch scope (.ok value) m
      = .ok (.ok value)
        (m.withControl { m.running.control with frames := lower, values := [value] }) := by
  rw [leaveCatch, bind_of_ok (leave_apply h)]
  dsimp only
  rw [pendingExit, bind_of_ok (control_apply _)]
  simp only [control_withControl, ControlStack.undo, hpending]
  rfl

theorem leaveCatch_own (h : OnTop m.running.control scope (.catching tag) lower)
    {values : List Value} (hpending : m.running.control.pending = some ⟨scope.serial, values⟩) :
    leaveCatch scope (.error (.exit scope.serial)) m
      = .ok (.ok (values.headD .nil))
        (m.withControl
          { m.running.control with frames := lower, pending := none, values }) := by
  rw [leaveCatch, bind_of_ok (leave_apply h)]
  dsimp only
  rw [if_pos rfl, bind_of_ok (onControl_apply _)]
  simp only [control_withControl, ControlStack.undo, hpending, Option.filter, beq_self_eq_true,
    if_true]
  rfl

theorem leaveCatch_other (h : OnTop m.running.control scope (.catching tag) lower) {target : Nat}
    (hne : target ≠ scope.serial) :
    leaveCatch scope (.error (.exit target)) m
      = .ok (.error (.exit target)) (m.withControl { m.running.control with frames := lower }) := by
  rw [leaveCatch, bind_of_ok (leave_apply h)]
  dsimp only
  rw [if_neg hne]
  rfl

theorem leaveCatch_error (h : OnTop m.running.control scope (.catching tag) lower)
    (hpending : m.running.control.pending = none) (error : Error) :
    leaveCatch scope (.error (.error error)) m
      = .ok (.error (.error error))
        (m.withControl { m.running.control with frames := lower }) := by
  rw [leaveCatch, bind_of_ok (leave_apply h)]
  dsimp only
  rw [pendingExit, bind_of_ok (control_apply _)]
  simp only [control_withControl, ControlStack.undo, hpending]
  rfl

end Catching

/-! ## Protected bodies -/

section Protecting

variable {scope : ControlStack.Scope} {lower : Array Frame} {cleanup : Op γ (Outcome Value)}
  {result : Outcome Value}

/-- The control stack that a cleanup finds. -/
def cleaning (c : ControlStack) (lower : Array Frame) : ControlStack :=
  { c with
    frames := lower
    pending := none
    values := []
    suspended := ⟨c.pending, c.values⟩ :: c.suspended }

theorem leaveProtect_apply (h : OnTop m.running.control scope .protecting lower) :
    leaveProtect cleanup scope result m
      = (cleanup >>= unsuspend (m.running.control.suspended.length + 1) result)
        (m.withControl (cleaning m.running.control lower)) := by
  rw [leaveProtect, bind_of_ok (leave_apply h)]
  rfl

theorem unsuspend_value {saved : Suspended} {suspended : List Suspended} (value : Value)
    (h : m.running.control.suspended = saved :: suspended) :
    unsuspend (suspended.length + 1) result (.ok value) m
      = .ok result (m.withControl
        { m.running.control with suspended, pending := saved.exit, values := saved.values }) := by
  rw [unsuspend, bind_of_ok (control_apply _), h, List.length_cons, if_neg (not_not.mpr rfl)]
  dsimp only
  rw [bind_of_ok (onControl_apply _), h]
  rfl

/-- What was set aside is gone, and at most the log says so. -/
theorem unsuspend_unwind {saved : Suspended} {suspended : List Suspended} (unwind : Unwind)
    (h : m.running.control.suspended = saved :: suspended) :
    ∃ log, unsuspend (suspended.length + 1) result (.error unwind) m
      = .ok (.error unwind)
        (m.under ⟨{ m.running.control with suspended }, log⟩) := by
  rw [unsuspend, bind_of_ok (control_apply _), h, List.length_cons, if_neg (not_not.mpr rfl)]
  dsimp only
  rw [bind_of_ok (onControl_apply _), h]
  cases hexit : saved.exit with
  | none =>
    simp only [List.head?_cons, Option.bind_some, hexit]
    exact ⟨m.log, rfl⟩
  | some exit =>
    simp only [List.head?_cons, Option.bind_some, hexit]
    exact ⟨_, rfl⟩

end Protecting

/-! ## Calls -/

theorem recorded_full {closure : Value} {body : Op γ (Outcome Value)}
    (h : m.running.control.invocationLimit ≤ m.running.control.history.size) :
    recorded closure body m
      = .ok (.error (.error (.invocationOverflow m.running.control.invocationLimit))) m := by
  rw [recorded, bind_of_ok (control_apply _), bind_of_ok (control_apply _), if_pos h]
  rfl

/-- The control stack during a call. -/
def calling (c : ControlStack) (closure : Value) : ControlStack :=
  { c with history := c.history.push closure }

theorem recorded_apply {closure : Value} {body : Op γ (Outcome Value)}
    (h : ¬m.running.control.invocationLimit ≤ m.running.control.history.size) :
    recorded closure body m
      = (body >>= fun result => do
          if (← control (·.history.size)) ≠ (calling m.running.control closure).history.size then
            raiseFatal .controlIntegrity "invocation history changed across a call"
          modifyControl fun c => { c with history := c.history.pop }
          return result) (m.withControl (calling m.running.control closure)) := by
  rw [recorded, bind_of_ok (control_apply _), bind_of_ok (control_apply _), if_neg h]
  rfl

theorem recorded_ok {closure : Value} {body : Op γ (Outcome Value)} {result : Outcome Value}
    (h : ¬m.running.control.invocationLimit ≤ m.running.control.history.size)
    (hbody : body (m.withControl (calling m.running.control closure)) = .ok result m')
    (hhistory : m'.running.control.history = (calling m.running.control closure).history) :
    recorded closure body m
      = .ok result (m'.withControl
        { m'.running.control with history := m.running.control.history }) := by
  rw [recorded_apply h, bind_of_ok hbody, bind_of_ok (control_apply _), hhistory,
    if_neg (not_not.mpr rfl)]
  dsimp only
  rw [bind_of_ok (modifyControl_apply _), hhistory, calling, Array.pop_push]
  rfl

theorem recorded_error {closure : Value} {body : Op γ (Outcome Value)} {fault : Fault}
    (h : ¬m.running.control.invocationLimit ≤ m.running.control.history.size)
    (hbody : body (m.withControl (calling m.running.control closure)) = .error fault m') :
    recorded closure body m = .error fault m' :=
  (recorded_apply h).trans (bind_of_error hbody)

/-! ## Bindings -/

section Binding

variable {index : Nat}

theorem reserveBinding_ok (h : index + 1 < ControlStack.tableLimit) :
    reserveBinding index m = .ok () (m.withControl (m.running.control.reserve index)) := by
  rw [reserveBinding, bind_of_ok (control_apply _)]
  split
  · have hadd : m.mode.add index 1 = .ok (index + 1) := by
      rw [Mode.add, if_pos]
      simp only [ControlStack.tableLimit, wordLimit] at *
      omega
    rw [bind_of_ok get_apply, hadd, bind_of_ok (ofExcept_apply _), if_neg (Nat.not_le.mpr h)]
    dsimp only
    rw [if_neg (Nat.succ_ne_zero index)]
    rfl
  · rename_i hsize
    rw [ControlStack.reserve_of_lt (Nat.not_le.mp hsize)]
    rfl

/-- An index that there is no room for is beyond the table, so that its fault is raised. -/
theorem reserveBinding_error (hsound : m.running.control.Sound) (hindex : index < wordLimit)
    {fault : Fault} (h : roomFor m.mode index = .error fault) :
    Fails (reserveBinding index) m fault := by
  unfold roomFor at h
  split at h
  · cases h
  · rename_i hlarge
    have hsize : m.running.control.bindings.size ≤ index := by
      have htable := hsound.table
      omega
    unfold Fails
    rw [reserveBinding, bind_of_ok (control_apply _), if_pos hsize, bind_of_ok get_apply, Mode.add]
    split at h
    · rename_i hword
      cases h
      rw [if_pos hword, bind_of_ok (ofExcept_apply _), if_pos (Nat.not_lt.mp hlarge)]
      exact (fails_raise _).bind _
    · rename_i hword
      rw [if_neg hword]
      split at h
      · rename_i hmode
        cases h
        have hoverflow : Mode.debug.overflow "add" ((index + 1) % wordLimit)
            = .error (.panic "attempt to add with overflow") := by
          rw [Mode.overflow]
          rfl
        rw [hmode, hoverflow]
        exact Fails.bind (looks_ofExcept (.error _)) _
      · rename_i hmode
        cases h
        have hzero : (index + 1) % wordLimit = 0 := by
          simp only [wordLimit] at *
          omega
        rw [hmode, hzero]
        exact ⟨⟨{ m.running.control with bindings := #[] }, m.log⟩, rfl, rfl⟩

variable {symbol : Value}

theorem symbolBindingIndex_lt {mode : Mode} {s : Space}
    (h : s.symbolBindingIndex mode symbol = .ok index) : index < wordLimit := by
  unfold Space.symbolBindingIndex at h
  cases hword : s.rawWord mode symbol .symbol At.symbolBindingIndex with
  | error fault =>
    rw [hword] at h
    cases h
  | ok word =>
    rw [hword] at h
    cases h
    exact word.toNat_lt

theorem bindingIndex_ok (h : m.heap.space.symbolBindingIndex m.mode symbol = .ok index) :
    bindingIndex symbol m = .ok index m := by
  have hlooks : Looks (bindingIndex symbol) m (m.heap.space.symbolBindingIndex m.mode symbol) :=
    looks_view _
  rwa [h] at hlooks

theorem enterBinding_full (h : m.heap.space.symbolBindingIndex m.mode symbol = .ok index)
    (hroom : reserveBinding index m = .ok () (m.withControl (m.running.control.reserve index)))
    (value : Value) (hfull : m.running.control.frameLimit ≤ m.running.control.frames.size) :
    enterBinding symbol value m
      = .ok (.error (.error (.frameStackOverflow m.running.control.frameLimit)))
        (m.withControl (m.running.control.reserve index)) := by
  have hreserved : (m.withControl (m.running.control.reserve index)).running.control.frameLimit
      ≤ (m.withControl (m.running.control.reserve index)).running.control.frames.size := hfull
  rw [enterBinding, bind_of_ok (bindingIndex_ok h), bind_of_ok hroom,
    bind_of_ok (control_apply _), bind_of_ok (enter_full hreserved)]
  rfl

theorem enterBinding_bound (h : m.heap.space.symbolBindingIndex m.mode symbol = .ok index)
    (hroom : reserveBinding index m = .ok () (m.withControl (m.running.control.reserve index)))
    (value : Value) (hfull : ¬m.running.control.frameLimit ≤ m.running.control.frames.size) :
    enterBinding symbol value m
      = .ok (.ok m.running.control.scope)
        (m.withControl (m.running.control.bound symbol index value)) := by
  have hreserved : ¬(m.withControl (m.running.control.reserve index)).running.control.frameLimit
      ≤ (m.withControl (m.running.control.reserve index)).running.control.frames.size := hfull
  rw [enterBinding, bind_of_ok (bindingIndex_ok h), bind_of_ok hroom,
    bind_of_ok (control_apply _), bind_of_ok (enter_pushed hreserved), control_withControl,
    (ControlStack.restored_reserve _ index).bindingAt]
  rfl

theorem enterBinding_error (hsound : m.running.control.Sound) (value : Value) {fault : Fault}
    (h : (do
      roomFor m.mode (← m.heap.space.symbolBindingIndex m.mode symbol) : Except Fault Unit)
        = .error fault) : Fails (enterBinding symbol value) m fault := by
  have hlooks : Looks (bindingIndex symbol) m (m.heap.space.symbolBindingIndex m.mode symbol) :=
    looks_view _
  cases hindex : m.heap.space.symbolBindingIndex m.mode symbol with
  | error f =>
    rw [hindex] at h hlooks
    cases h
    exact Fails.bind hlooks _
  | ok index =>
    rw [hindex] at h hlooks
    have hword := symbolBindingIndex_lt hindex
    exact Fails.after hlooks ((reserveBinding_error hsound hword h).bind _)

theorem binding_of_entered {value : Value} {body : Op γ (Outcome Value)}
    {scope : ControlStack.Scope} (h : m.heap.space.isKind symbol .symbol = true)
    (henter : enterBinding symbol value m = .ok (.ok scope) m') :
    binding symbol value body m = (guarded scope body >>= leaveBinding scope) m' := by
  rw [binding, bind_of_ok get_apply, if_pos h, bind_of_ok henter]

theorem binding_of_refused {value : Value} {body : Op γ (Outcome Value)} {unwind : Unwind}
    (h : m.heap.space.isKind symbol .symbol = true)
    (henter : enterBinding symbol value m = .ok (.error unwind) m') :
    binding symbol value body m = .ok (.error unwind) m' := by
  rw [binding, bind_of_ok get_apply, if_pos h, bind_of_ok henter]
  rfl

section Store

variable {m : Machine Journal} {found : List Hidden} {value : Value}
  {body : Op Journal (Outcome Value)}

/-- A symbol with a binding index that there is room for. -/
theorem bindingIndex?_some (h : (m.store found).bindingIndex? symbol = .ok (some index)) :
    m.heap.space.isKind symbol .symbol = true ∧
      m.heap.space.symbolBindingIndex m.mode symbol = .ok index ∧
      index + 1 < ControlStack.tableLimit := by
  unfold Store.bindingIndex? at h
  split at h
  · rename_i hkind
    obtain ⟨i, hindex, h⟩ := eq_ok_of_bind h
    obtain ⟨_, hroom, h⟩ := eq_ok_of_bind h
    cases h
    refine ⟨hkind, hindex, ?_⟩
    unfold roomFor at hroom
    by_contra hlt
    rw [if_neg hlt] at hroom
    repeat' split at hroom
    all_goals cases hroom
  · obtain ⟨_, _, h⟩ := eq_ok_of_bind h
    cases h

theorem binding_none (h : (m.store found).bindingIndex? symbol = .ok none) :
    binding symbol value body m = body m := by
  unfold Store.bindingIndex? at h
  split at h
  · obtain ⟨_, _, h⟩ := eq_ok_of_bind h
    obtain ⟨_, _, h⟩ := eq_ok_of_bind h
    cases h
  · rename_i hother
    have hkind : ¬m.heap.space.isKind symbol .symbol = true := hother
    obtain ⟨_, hmisuse, _⟩ := eq_ok_of_bind h
    have hlooks := looks_expect (m := m) found ("binding a non-symbol " ++ ·) symbol
    rw [hmisuse] at hlooks
    rw [binding, bind_of_ok get_apply, if_neg hkind]
    exact bind_of_ok hlooks

theorem binding_error (hsound : m.running.control.Sound) {fault : Fault}
    (h : (m.store found).bindingIndex? symbol = .error fault) :
    Fails (binding symbol value body) m fault := by
  unfold Store.bindingIndex? at h
  split at h
  · rename_i hsymbol
    have hkind : m.heap.space.isKind symbol .symbol = true := hsymbol
    have hfails : Fails (enterBinding symbol value) m fault := by
      refine enterBinding_error hsound value ?_
      obtain hindex | ⟨i, hindex, h⟩ := eq_error_of_bind h
      · exact congrArg (· >>= _) hindex
      · obtain hroom | ⟨_, _, h⟩ := eq_error_of_bind h
        · exact (congrArg (· >>= _) hindex).trans hroom
        · cases h
    refine Fails.after get_apply ?_
    rw [if_pos hkind]
    exact hfails.bind _
  · rename_i hother
    have hkind : ¬m.heap.space.isKind symbol .symbol = true := hother
    obtain hmisuse | ⟨_, _, h⟩ := eq_error_of_bind h
    · have hlooks := looks_expect (m := m) found ("binding a non-symbol " ++ ·) symbol
      rw [hmisuse] at hlooks
      refine Fails.after get_apply ?_
      rw [if_neg hkind]
      exact Fails.bind hlooks _
    · cases h

end Store

end Binding

/-! ## Exits -/

theorem startExit_some {tag : Value} {target : Nat} (values : List Value)
    (htarget : m.running.control.findCatch? tag = some target)
    (hpending : m.running.control.pending = none) :
    ∃ log, startExit tag values m
      = .ok (.exit target)
        (m.under ⟨{ m.running.control with pending := some ⟨target, values⟩ }, log⟩) := by
  rw [startExit, bind_of_ok (control_apply _), htarget]
  dsimp only
  rw [pendingExit, bind_of_ok (control_apply _), hpending]
  exact ⟨_, rfl⟩

/-- The fault of an exit to a tag that is shown as `shown`. -/
def noCatchFrame (shown : String) (id : Nat) : Fault :=
  .fatal .controlIntegrity ("no catch frame for tag " ++ shown ++ " on thread " ++ toString id)

theorem startExit_none {tag : Value} (values : List Value)
    (htarget : m.running.control.findCatch? tag = none) :
    Looks (startExit tag values) m (do
      .error (noCatchFrame (← m.heap.space.render m.mode tag) m.running.id)) := by
  refine Looks.congr ((bind_of_ok (control_apply _)).trans (by rw [htarget])) ?_
  refine (looks_view fun mode space => space.render mode tag).bind fun shown => ?_
  exact Looks.congr (bind_of_ok get_apply) (looks_raise _)

end Machine

end Substrate
