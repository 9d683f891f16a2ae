import Substrate.Proofs.Control.Allocation
import Substrate.Proofs.Control.Operations

/-!
# Layers of the control stack

`Beneath` says that a stack is still there underneath another one: its frames are the innermost ones
again and no binding made since is in effect, but there may be more calls in progress and more exits
set aside. Every operation leaves the stack that it found beneath the one that it leaves, however it
ends, so that bodies may be put together from all of them and may get over faults. `Recovered` adds
that nothing is on top and no exit is under way.

A scope is guarded while its body runs: a fault in the body cuts the stack back to what the scope
found, which `Inside.guarded` shows for every kind of scope.
-/

namespace Substrate

/-! ## Stacks underneath others -/

namespace ControlStack

variable {mode : Mode} {written : Nat → Value → Prop} {c c₁ c' c'' : ControlStack}

/-- What may have become of an entry of the binding table. Only a visible binding can be assigned
to, and only a release build can lose one: the table starts again if its size wraps around. -/
def Entry (mode : Mode) (written : Value → Prop) (old new : Value) : Prop :=
  new = old ∨ old ≠ .empty ∧ (written new ∨ mode = .release ∧ new = .empty)

/-- `c` is underneath `c'`. Values that are `written` may have been assigned to its bindings. -/
structure Beneath (mode : Mode) (written : Nat → Value → Prop) (c c' : ControlStack) : Prop where
  frames : c'.frames = c.frames
  history : c.history.toList <+: c'.history.toList
  suspended : c.suspended <:+ c'.suspended
  bindings : ∀ index, Entry mode (written index) (c.bindingAt index) (c'.bindingAt index)
  table : mode = .debug → c.bindings.size ≤ c'.bindings.size
  frameLimit : c'.frameLimit = c.frameLimit
  invocationLimit : c'.invocationLimit = c.invocationLimit

/-- `c` is back: nothing is on top of it and no exit is under way. -/
structure Recovered (mode : Mode) (written : Nat → Value → Prop) (c c' : ControlStack) : Prop
    extends c.Beneath mode written c' where
  sameHistory : c'.history = c.history
  sameSuspended : c'.suspended = c.suspended
  pending : c'.pending = none

theorem Entry.trans {written : Value → Prop} {old new newer : Value}
    (h : Entry mode written old new) (h' : Entry mode written new newer) :
    Entry mode written old newer := by
  obtain rfl | ⟨hvisible, hchange⟩ := h'
  · exact h
  · refine .inr ⟨?_, hchange⟩
    obtain rfl | ⟨hold, -⟩ := h
    · exact hvisible
    · exact hold

theorem Beneath.refl (c : ControlStack) : c.Beneath mode written c :=
  ⟨rfl, List.prefix_refl _, List.suffix_refl _, fun _ => .inl rfl, fun _ => Nat.le_refl _, rfl, rfl⟩

theorem Beneath.trans (h : c.Beneath mode written c') (h' : c'.Beneath mode written c'') :
    c.Beneath mode written c'' :=
  ⟨h'.frames.trans h.frames, h.history.trans h'.history, h.suspended.trans h'.suspended,
    fun index => (h.bindings index).trans (h'.bindings index),
    fun hmode => Nat.le_trans (h.table hmode) (h'.table hmode), h'.frameLimit.trans h.frameLimit,
    h'.invocationLimit.trans h.invocationLimit⟩

theorem Beneath.update (h : c.Beneath mode written c') (pending : Option PendingExit)
    (values : List Value) : c.Beneath mode written { c' with pending, values } :=
  ⟨h.frames, h.history, h.suspended, h.bindings, h.table, h.frameLimit, h.invocationLimit⟩

theorem Restored.beneath (h : c.Restored c') : c.Beneath mode written c' := by
  refine ⟨h.frames, h.history ▸ List.prefix_refl _, h.suspended ▸ List.suffix_refl _,
    fun index => .inl (h.bindingAt index), fun _ => ?_, h.frameLimit, h.invocationLimit⟩
  obtain ⟨count, hcount⟩ := h.bindings
  rw [hcount, Array.size_append]
  exact Nat.le_add_right _ _

/-- The frame of a scope that binds nothing is taken away. -/
theorem Beneath.lower {kind : FrameKind} (h : (c.pushed kind).Beneath mode written c') :
    c.Beneath mode written { c' with frames := c.frames } :=
  ⟨rfl, h.history, h.suspended, h.bindings, h.table, h.frameLimit, h.invocationLimit⟩

theorem bindingAt_undo (c : ControlStack) (symbol : Value) (index : Nat) (previous : Value)
    (other : Nat) :
    (c.undo (.binding symbol index previous)).bindingAt other
      = if index = other ∧ index < c.bindings.size then previous else c.bindingAt other := by
  simp only [undo, bindingAt, Array.getD_eq_getD_getElem?, Array.getElem?_setIfInBounds]
  by_cases heq : index = other
  · subst heq
    by_cases hlt : index < c.bindings.size <;> simp [hlt]
  · simp [heq]

theorem size_bound (c : ControlStack) (symbol : Value) (index : Nat) (value : Value) :
    (c.bound symbol index value).bindings.size = max c.bindings.size (index + 1) := by
  simp only [bound, pushed, setBinding, reserve, Array.size_setIfInBounds, Array.size_append,
    Array.size_replicate]
  omega

/-- The frame of a binding is taken away. -/
theorem Beneath.unbind {symbol value : Value} {index : Nat}
    (h : (c.bound symbol index value).Beneath mode written c') :
    c.Beneath mode written (({ c' with frames := c.frames } : ControlStack).undo
      (.binding symbol index (c.bindingAt index))) := by
  have hsize := size_bound c symbol index value
  refine ⟨rfl, h.history, h.suspended, fun other => ?_, fun hmode => ?_, h.frameLimit,
    h.invocationLimit⟩
  · have hother : Entry mode (written other) _ (c'.bindingAt other) := h.bindings other
    rw [bindingAt_undo]
    rw [bindingAt_bound] at hother
    split
    · rename_i hback
      exact .inl (by rw [hback.1])
    · rename_i hgone
      by_cases heq : index = other
      · -- The entry is gone with the table, which a debug build never gives up.
        subst heq
        have hlost : c'.bindings.size ≤ index := Nat.not_lt.mp fun hlt => hgone ⟨rfl, hlt⟩
        have hmode : mode = .release := by
          cases hm : mode with
          | release => rfl
          | debug =>
            have htable := h.table hm
            omega
        have hempty : c'.bindingAt index = .empty := by
          simp [bindingAt, Array.getD_eq_getD_getElem?, hlost]
        by_cases hold : c.bindingAt index = .empty
        · exact .inl (hempty.trans hold.symm)
        · exact .inr ⟨hold, .inr ⟨hmode, hempty⟩⟩
      · rwa [Function.update_of_ne (Ne.symm heq)] at hother
  · have htable := h.table hmode
    simp only [undo, Array.size_setIfInBounds]
    omega

/-! ## Abandoned scopes -/

theorem Beneath.recovered (h : c.Beneath mode written c') :
    c.Recovered mode written
      { c' with history := c.history, suspended := c.suspended, pending := none } :=
  ⟨⟨h.frames, List.prefix_refl _, List.suffix_refl _, h.bindings, h.table, h.frameLimit,
    h.invocationLimit⟩, rfl, rfl, rfl⟩

/-- Cutting back removes everything on top of a stack that is beneath what is left of the frames. -/
theorem Beneath.recovered_abandon
    (h : c.Beneath mode written (dropFrames (c'.frames.size - c.frames.size) c')) :
    c.Recovered mode written (c'.abandon c.scope) := by
  have hhistory : (dropFrames (c'.frames.size - c.frames.size) c').history.shrink c.history.size
      = c.history := by
    refine Array.toList_inj.mp ?_
    rw [Array.toList_shrink]
    exact (List.prefix_iff_eq_take.mp h.history).symm
  have hsuspended := (List.suffix_iff_eq_drop.mp h.suspended).symm
  have hrecovered := h.recovered
  simp only [abandon, scope, hhistory, hsuspended]
  exact hrecovered

theorem Beneath.abandon (h : c.Beneath mode written c') :
    c.Recovered mode written (c'.abandon c.scope) := by
  refine Beneath.recovered_abandon ?_
  rw [h.frames, Nat.sub_self]
  exact h

/-- The same if the frame of the scope is still there. -/
theorem Beneath.abandon_top {frame : Frame} (hframes : c'.frames = c.frames.push frame)
    (h : c.Beneath mode written (({ c' with frames := c.frames } : ControlStack).undo frame.kind)) :
    c.Recovered mode written (c'.abandon c.scope) := by
  refine Beneath.recovered_abandon ?_
  rw [hframes, Array.size_push, Nat.add_sub_cancel_left]
  change c.Beneath mode written c'.dropTop
  rwa [dropTop_top hframes]

/-- Where nothing is assigned to, a debug build finds the same context again. -/
theorem Recovered.context (h : c.Recovered .debug written c') (hwritten : ∀ i v, ¬written i v) :
    c'.context = c.context ∧ c'.callsLeft = c.callsLeft := by
  have hbindings : c'.bindingAt = c.bindingAt := by
    funext index
    obtain hsame | ⟨-, hchange | ⟨hmode, -⟩⟩ := h.bindings index
    · exact hsame
    · exact absurd hchange (hwritten _ _)
    · cases hmode
  constructor
  · simp only [ControlStack.context, h.frames, hbindings, h.frameLimit, h.invocationLimit]
  · simp only [callsLeft, h.invocationLimit, h.sameHistory]

end ControlStack

namespace Machine

variable {γ α β : Type} {written : Nat → Value → Prop} {m m' m'' : Machine γ}

/-! ## Layered operations -/

/-- The control stack of `m` is beneath that of `m'`. -/
structure Beneath (written : Nat → Value → Prop) (m m' : Machine γ) : Prop where
  mode : m'.mode = m.mode
  control : m.running.control.Beneath m.mode written m'.running.control

/-- Nothing has happened to the control stack, except perhaps to its binding table. -/
structure Unmoved (written : Nat → Value → Prop) (m m' : Machine γ) : Prop
    extends Beneath written m m' where
  history : m'.running.control.history = m.running.control.history
  suspended : m'.running.control.suspended = m.running.control.suspended
  pending : m'.running.control.pending = m.running.control.pending

/-- What a layered operation comes back with, in one way or another. -/
def Leaves (written : Nat → Value → Prop) (m : Machine γ) :
    EStateM.Result Fault (Machine γ) α → Prop
  | .ok _ m' => Beneath written m m'
  | .error _ m' => Beneath written m m'

/-- However the operation ends, the stack that it found is beneath the one that it leaves. -/
def Layered (written : Nat → Value → Prop) (x : Op γ α) : Prop := ∀ m, Leaves written m (x m)

theorem Beneath.refl (m : Machine γ) : Beneath written m m := ⟨rfl, .refl _⟩

theorem Beneath.trans (h : Beneath written m m') (h' : Beneath written m' m'') :
    Beneath written m m'' :=
  ⟨h'.mode.trans h.mode, h.control.trans (h.mode ▸ h'.control)⟩

theorem Unmoved.trans (h : Unmoved written m m') (h' : Unmoved written m' m'') :
    Unmoved written m m'' :=
  ⟨h.toBeneath.trans h'.toBeneath, h'.history.trans h.history, h'.suspended.trans h.suspended,
    h'.pending.trans h.pending⟩

theorem unmoved_of_control (hmode : m'.mode = m.mode)
    (hcontrol : m'.running.control = m.running.control) : Unmoved written m m' :=
  ⟨⟨hmode, hcontrol ▸ .refl _⟩, by rw [hcontrol], by rw [hcontrol], by rw [hcontrol]⟩

theorem beneath_withControl {c : ControlStack}
    (h : m.running.control.Beneath m.mode written c) : Beneath written m (m.withControl c) :=
  ⟨rfl, h⟩

theorem Beneath.leaves (h : Beneath written m m') {r : EStateM.Result Fault (Machine γ) α}
    (hr : Leaves written m' r) : Leaves written m r := by
  cases r with
  | ok | error => exact h.trans hr

theorem Layered.error {x : Op γ α} (hx : Layered written x) {fault : Fault}
    (h : x m = .error fault m') : Beneath written m m' := by
  have hleaves := hx m
  rwa [h] at hleaves

theorem Layered.ok {x : Op γ α} (hx : Layered written x) {a : α} (h : x m = .ok a m') :
    Beneath written m m' := by
  have hleaves := hx m
  rwa [h] at hleaves

theorem layered_pure (a : α) : Layered written (pure a : Op γ α) := fun m => .refl m

theorem layered_get : Layered written (get : Op γ (Machine γ)) := fun m => .refl m

theorem layered_control (f : ControlStack → α) : Layered written (control f : Op γ α) :=
  fun m => .refl m

theorem layered_bind {x : Op γ α} {f : α → Op γ β} (hx : Layered written x)
    (hf : ∀ a, Layered written (f a)) : Layered written (x >>= f) := by
  intro m
  cases h : x m with
  | ok a m₁ =>
    rw [bind_of_ok h]
    exact (hx.ok h).leaves (hf a m₁)
  | error fault m₁ =>
    rw [bind_of_error h]
    exact hx.error h

theorem layered_ite {p : Prop} [Decidable p] {x y : Op γ α} (hx : Layered written x)
    (hy : Layered written y) : Layered written (if p then x else y) := by
  split
  · exact hx
  · exact hy

theorem layered_modifyControl {f : ControlStack → ControlStack}
    (hf : ∀ mode (c : ControlStack), c.Beneath mode written (f c)) :
    Layered written (modifyControl f : Op γ Unit) :=
  fun m => beneath_withControl (hf m.mode m.running.control)

/-- Faults of operations that leave control alone. -/
theorem unmoved_of_confined {x : Op γ α} (hx : ∀ allowed, Confined allowed x) {fault : Fault}
    (h : x m = .error fault m') : Unmoved written m m' := by
  have hcontained := hx m.heap.actions m (List.Subset.refl _)
  rw [h] at hcontained
  exact unmoved_of_control hcontained.2.1 hcontained.1

theorem layered_of_confined {x : Op γ α} (hx : ∀ allowed, Confined allowed x) :
    Layered written x := by
  intro m
  cases h : x m with
  | ok a m' =>
    have hkeeps := hx m.heap.actions m (List.Subset.refl _)
    rw [h] at hkeeps
    exact (unmoved_of_control hkeeps.mode hkeeps.control).toBeneath
  | error fault m' => exact (unmoved_of_confined hx h).toBeneath

theorem raise_apply (fault : Fault) (m : Machine γ) :
    ∃ m', (raise fault : Op γ α) m = .error fault m' ∧ Unmoved written m m' := by
  cases fault <;> exact ⟨_, rfl, unmoved_of_control rfl rfl⟩

theorem raise_bind (fault : Fault) (f : α → Op γ β) (m : Machine γ) :
    ∃ m', (raise fault >>= f) m = .error fault m' ∧ Unmoved written m m' := by
  obtain ⟨m', hrun, hunmoved⟩ := raise_apply (α := α) fault m
  exact ⟨m', bind_of_error hrun, hunmoved⟩

theorem layered_raise (fault : Fault) : Layered written (raise fault : Op γ α) := by
  intro m
  obtain ⟨m', hrun, hunmoved⟩ := raise_apply (α := α) fault m
  rw [hrun]
  exact hunmoved.toBeneath

theorem layered_ofExcept (answer : Except Fault α) :
    Layered written (ofExcept answer : Op γ α) := by
  cases answer with
  | ok a => exact layered_pure a
  | error fault => exact layered_raise fault

theorem layered_view (f : Mode → Space → Except Fault α) : Layered written (view f : Op γ α) :=
  fun m => layered_ofExcept (f m.mode m.heap.space) m

theorem layered_note (level : Level) (target message : String) :
    Layered written (note level target message : Op γ Unit) :=
  layered_of_confined fun _ => confined_note level target message

/-- Getting over a fault. -/
theorem layered_tryCatch {x : Op γ α} (hx : Layered written x) {handler : Fault → Op γ α}
    (hhandler : ∀ fault, Layered written (handler fault)) :
    Layered written (tryCatch x handler) := by
  intro m
  change Leaves written m (EStateM.tryCatch x handler m)
  delta EStateM.tryCatch
  dsimp only
  cases h : x m with
  | ok a m₁ => exact hx.ok h
  | error fault m₁ => exact (hx.error h).leaves (hhandler fault m₁)

/-! ## Exits, values and symbols -/

theorem layered_setValues (values : List Value) :
    Layered written (setValues values : Op γ Unit) :=
  layered_modifyControl fun _ c => (ControlStack.Beneath.refl c).update c.pending values

theorem layered_startExit (tag : Value) (values : List Value) :
    Layered written (startExit tag values : Op γ Unwind) := by
  refine layered_bind (layered_control _) fun target? => ?_
  cases target? with
  | none =>
    exact layered_bind (layered_view _) fun _ => layered_bind layered_get fun _ => layered_raise _
  | some target =>
    refine layered_bind (layered_control _) fun exit? => ?_
    cases exit? with
    | some exit => exact layered_raise _
    | none =>
      exact layered_bind layered_get fun _ => layered_bind (layered_note _ _ _) fun _ =>
        layered_bind (layered_modifyControl fun _ c => (ControlStack.Beneath.refl c).update _ _)
          fun _ => layered_pure _

theorem layered_exitTo (tag : Value) (values : List Value) :
    Layered written (exitTo tag values : Op γ (Outcome α)) :=
  layered_bind (layered_startExit tag values) fun _ => layered_pure _

theorem layered_symbolValue (symbol : Value) : Layered written (symbolValue symbol : Op γ Value) :=
  layered_bind (layered_view _) fun _ => layered_bind (layered_control _) fun _ =>
    layered_ite (layered_view _) (layered_pure _)

theorem beneath_setBinding {mode : Mode} {c : ControlStack} {index : Nat} {value : Value}
    (hvisible : c.bindingAt index ≠ .empty) (hwritten : written index value) :
    c.Beneath mode written (c.setBinding index value) := by
  have hindex : index < c.bindings.size := by
    by_contra hlarge
    exact hvisible (by simp [ControlStack.bindingAt, Array.getD, hlarge])
  refine ⟨rfl, List.prefix_refl _, List.suffix_refl _, fun other => ?_, fun _ => ?_, rfl, rfl⟩
  · rw [ControlStack.bindingAt_setBinding hindex, Function.update_apply]
    split
    · rename_i heq
      rw [heq]
      exact .inr ⟨hvisible, .inl hwritten⟩
    · exact .inl rfl
  · simp only [ControlStack.setBinding, Array.size_setIfInBounds, Nat.le_refl]

/-- An assignment goes to the innermost binding or to the heap. -/
theorem layered_setSymbolValue {symbol value : Value} (hwritten : ∀ index, written index value) :
    Layered written (setSymbolValue symbol value : Op γ Unit) := by
  refine layered_bind (layered_view _) fun index m => ?_
  rw [bind_of_ok (control_apply _)]
  split
  · exact layered_of_confined
      (fun _ => confined_onSpace fun mode => tame_fieldSet mode symbol _ value) m
  · rename_i hvisible
    refine beneath_withControl (beneath_setBinding (fun hempty => hvisible ?_) (hwritten index))
    rw [hempty]
    rfl

/-! ## Scopes -/

/-- The control stack of `m` is back in `m'`. -/
structure Recovered (written : Nat → Value → Prop) (m m' : Machine γ) : Prop where
  mode : m'.mode = m.mode
  control : m.running.control.Recovered m.mode written m'.running.control

theorem Unmoved.recovered (h : Unmoved written m m') (hpending : m.running.control.pending = none) :
    Recovered written m m' :=
  ⟨h.mode, h.control, h.history, h.suspended, h.pending.trans hpending⟩

/-- `m₀` is inside a scope with a frame of the given kind that was entered from `m`: whatever comes
on top of it, the stack of `m` is beneath it once the frame is taken away. -/
structure Inside (written : Nat → Value → Prop) (m m₀ : Machine γ) (kind : FrameKind) : Prop where
  mode : m₀.mode = m.mode
  frames : m₀.running.control.frames
    = m.running.control.frames.push ⟨m.running.control.nextSerial, kind⟩
  back : ∀ c, m₀.running.control.Beneath m.mode written c → m.running.control.Beneath m.mode written
    (({ c with frames := m.running.control.frames } : ControlStack).undo kind)

theorem inside_catching (m : Machine γ) (tag : Value) :
    Inside written m (m.withControl (m.running.control.pushed (.catching tag))) (.catching tag) :=
  ⟨rfl, rfl, fun _ h => h.lower⟩

theorem inside_protecting (m : Machine γ) :
    Inside written m (m.withControl (m.running.control.pushed .protecting)) .protecting :=
  ⟨rfl, rfl, fun _ h => h.lower⟩

theorem inside_bound (m : Machine γ) (symbol : Value) (index : Nat) (value : Value) :
    Inside written m (m.withControl (m.running.control.bound symbol index value))
      (.binding symbol index (m.running.control.bindingAt index)) :=
  ⟨rfl, rfl, fun _ h => h.unbind⟩

section Inside

variable {m₀ m₁ : Machine γ} {kind : FrameKind} {body : Op γ (Outcome Value)}

/-- The guard of a scope: a fault of its body is recovered from. -/
theorem Inside.guarded (h : Inside written m m₀ kind) (hbody : Layered written body)
    {fault : Fault} (hfault : body m₀ = .error fault m₁) :
    ∃ m', guarded m.running.control.scope body m₀ = .error fault m' ∧ Recovered written m m' := by
  have hbeneath := hbody.error hfault
  refine ⟨_, guarded_of_error hfault, hbeneath.mode.trans h.mode, ?_⟩
  refine ControlStack.Beneath.abandon_top (hbeneath.control.frames.trans h.frames) (h.back _ ?_)
  exact h.mode ▸ hbeneath.control

/-- The frame of a scope is taken away, even if its binding turns out to be lost. -/
theorem Inside.leave (h : Inside written m m₀ kind) (hbeneath : Beneath written m₀ m₁) :
    Leaves written m (leave m.running.control.scope m₁) := by
  have hframes := hbeneath.control.frames.trans h.frames
  have hproblem : m₁.running.control.popProblem? m.running.control.scope.serial = none :=
    ControlStack.popProblem?_top hframes
  have hback : Beneath written m (m₁.withControl m₁.running.control.dropTop) := by
    refine ⟨hbeneath.mode.trans h.mode, ?_⟩
    rw [control_withControl, ControlStack.dropTop_top hframes]
    exact h.back _ (h.mode ▸ hbeneath.control)
  rw [Machine.leave, bind_of_ok (control_apply _), hproblem]
  dsimp only
  rw [bind_of_ok (control_apply _), bind_of_ok (modifyControl_apply _)]
  refine hback.leaves ?_
  cases m₁.running.control.lostBinding? with
  | some index => exact layered_bind (layered_control _) (fun _ => layered_raise _) _
  | none => exact layered_pure () _

/-- A scope as a whole: `finish` removes its frame and goes on with what the body came back with. -/
theorem Inside.leaves (h : Inside written m m₀ kind) (hbody : Layered written body)
    {finish : Outcome Value → Op γ (Outcome Value)}
    (hfinish : ∀ result, ∃ rest, Layered written rest ∧
      finish result = Machine.leave m.running.control.scope >>= fun _ => rest) :
    Leaves written m ((Machine.guarded m.running.control.scope body >>= finish) m₀) := by
  cases hrun : body m₀ with
  | error fault m₁ =>
    obtain ⟨m', hguarded, hrecovered⟩ := h.guarded hbody hrun
    rw [bind_of_error hguarded]
    exact ⟨hrecovered.mode, hrecovered.control.toBeneath⟩
  | ok result m₁ =>
    obtain ⟨rest, hrest, heq⟩ := hfinish result
    have hleave := h.leave (hbody.ok hrun)
    rw [bind_of_ok (guarded_of_ok hrun), heq]
    cases hleft : Machine.leave m.running.control.scope m₁ with
    | ok _ m₂ =>
      rw [hleft] at hleave
      rw [bind_of_ok hleft]
      exact Beneath.leaves hleave (hrest m₂)
    | error fault m₂ =>
      rw [hleft] at hleave
      rwa [bind_of_error hleft]

end Inside

variable {body cleanup : Op γ (Outcome Value)}

theorem Layered.catching (hbody : Layered written body) (tag : Value) :
    Layered written (catching tag body) := by
  intro m
  by_cases hfull : m.running.control.frameLimit ≤ m.running.control.frames.size
  · rw [catching_full hfull]
    exact .refl m
  · rw [catching_entered hfull]
    refine (inside_catching m tag).leaves hbody fun result => ⟨_, ?_, rfl⟩
    split
    · refine layered_bind (layered_control _) fun exit? => ?_
      cases exit? with
      | some exit => exact layered_raise _
      | none => exact layered_bind (layered_setValues _) fun _ => layered_pure _
    · refine layered_ite (layered_bind (x := onControl _) (fun m => ?_) fun exit? => ?_)
        (layered_pure _)
      · exact beneath_withControl ((ControlStack.Beneath.refl _).update _ _)
      · split
        · exact layered_bind (layered_setValues _) fun _ => layered_pure _
        · exact layered_raise _
    · refine layered_bind (layered_control _) fun exit? => ?_
      cases exit? with
      | some exit => exact layered_raise _
      | none => exact layered_pure _

theorem Layered.block {body : Value → Op γ (Outcome Value)}
    (hbody : ∀ tag, Layered written (body tag)) : Layered written (block body) :=
  layered_bind (layered_of_confined fun _ => confined_cons .nil .nil) fun tag =>
    (hbody tag).catching tag

/-! ## Cleanups -/

/-- The control stack that the cleanup of a body finds has one more exit set aside. -/
theorem beneath_suspended {mode : Mode} (c : ControlStack) :
    c.Beneath mode written (cleaning c c.frames) :=
  ⟨rfl, List.prefix_refl _, List.suffix_cons _ _, fun _ => .inl rfl, fun _ => Nat.le_refl _, rfl,
    rfl⟩

/-- If a cleanup leaves as much set aside as it found, the last to be set aside is its own. -/
theorem beneath_unsuspended {mode : Mode} {c c' : ControlStack}
    (h : (cleaning c c.frames).Beneath mode written c')
    (hlength : c'.suspended.length = (cleaning c c.frames).suspended.length) :
    c.Beneath mode written { c' with suspended := c'.suspended.tail } := by
  have hsame := h.suspended.eq_of_length hlength.symm
  have hpopped : c'.suspended.tail = c.suspended := by rw [← hsame, cleaning, List.tail_cons]
  exact ⟨h.frames, h.history, hpopped ▸ List.suffix_refl _, h.bindings, h.table, h.frameLimit,
    h.invocationLimit⟩

theorem layered_cleaned (hcleanup : Layered written cleanup) (result : Outcome Value) :
    Layered written (do
      suspend
      let expected ← control (·.suspended.length)
      unsuspend expected result (← cleanup)) := by
  intro m
  change Leaves written m ((cleanup >>= unsuspend (m.running.control.suspended.length + 1) result)
    (m.withControl (cleaning m.running.control m.running.control.frames)))
  have hfound : Beneath written m (m.withControl (cleaning m.running.control _)) :=
    beneath_withControl (beneath_suspended m.running.control)
  cases hrun : cleanup (m.withControl (cleaning m.running.control m.running.control.frames)) with
  | error fault m₂ =>
    rw [bind_of_error hrun]
    exact hfound.trans (hcleanup.error hrun)
  | ok cleaned m₂ =>
    rw [bind_of_ok hrun, unsuspend, bind_of_ok (control_apply _)]
    have hleft := hcleanup.ok hrun
    split
    · obtain ⟨m₃, hraise, hunmoved⟩ := raise_bind _ _ m₂
      rw [raiseFatal, hraise]
      exact (hfound.trans hleft).trans hunmoved.toBeneath
    · rename_i hlength
      have hback : Beneath written m (m₂.withControl { m₂.running.control with
          suspended := m₂.running.control.suspended.tail }) :=
        ⟨hleft.mode, beneath_unsuspended hleft.control (not_not.mp hlength)⟩
      dsimp only
      rw [bind_of_ok (onControl_apply _)]
      refine hback.leaves ?_
      dsimp only
      generalize m₂.running.control.suspended.head? = saved?
      cases cleaned with
      | ok value =>
        cases saved? with
        | some saved =>
          exact layered_bind (layered_modifyControl fun _ c =>
            (ControlStack.Beneath.refl c).update _ _) (fun _ => layered_pure result) _
        | none => exact layered_pure result _
      | error unwind =>
        dsimp only
        cases saved?.bind (·.exit) with
        | some exit => exact layered_bind (layered_note _ _ _) (fun _ => layered_pure _) _
        | none => exact layered_pure _ _

theorem Layered.unwindProtect (hbody : Layered written body) (hcleanup : Layered written cleanup) :
    Layered written (unwindProtect body cleanup) := by
  intro m
  by_cases hfull : m.running.control.frameLimit ≤ m.running.control.frames.size
  · rw [unwindProtect_full hfull]
    exact .refl m
  · rw [unwindProtect_entered hfull]
    exact (inside_protecting m).leaves hbody fun result =>
      ⟨_, layered_cleaned hcleanup result, rfl⟩

/-! ## Bindings -/

/-- A contract that a value breaks. -/
theorem confined_misuse {allowed : List Action} (message : String → String) (v : Value) :
    Confined allowed (expect false fun _ => do
      return message (← view fun mode space => space.render mode v) : Op γ Unit) :=
  confined_expect false (confined_bind (confined_view fun mode s => s.tame_render mode v) fun _ =>
    confined_pure _)

/-- The table starts again. -/
theorem beneath_cleared (c : ControlStack) :
    c.Beneath .release written { c with bindings := #[] } := by
  refine ⟨rfl, List.prefix_refl _, List.suffix_refl _, fun index => ?_, (by simp), rfl, rfl⟩
  by_cases hold : c.bindingAt index = .empty
  · exact .inl hold.symm
  · exact .inr ⟨hold, .inr ⟨rfl, rfl⟩⟩

/-- There is an entry of the table for the index, or a fault. -/
theorem reserveBinding_cases (written : Nat → Value → Prop) (m : Machine γ) (index : Nat) :
    reserveBinding index m = .ok () (m.withControl (m.running.control.reserve index)) ∨
      ∃ fault m', reserveBinding index m = .error fault m' ∧ Unmoved written m m' := by
  rw [reserveBinding, bind_of_ok (control_apply _)]
  split
  · rw [bind_of_ok get_apply]
    cases hadd : m.mode.add index 1 with
    | error fault => exact .inr ⟨fault, raise_bind fault _ m⟩
    | ok size =>
      rw [bind_of_ok (ofExcept_apply _)]
      split
      · exact .inr ⟨_, raise_bind _ _ m⟩
      · dsimp only
        split
        · rename_i hzero
          have hmode : m.mode = .release := by
            cases hmode : m.mode with
            | release => rfl
            | debug =>
              rw [hmode, Mode.add, hzero] at hadd
              split at hadd <;> cases hadd
          have hcleared : Unmoved written m
              (m.withControl { m.running.control with bindings := #[] }) :=
            ⟨beneath_withControl (hmode ▸ beneath_cleared m.running.control), rfl, rfl, rfl⟩
          rw [bind_of_ok (modifyControl_apply _)]
          obtain ⟨m', hraise, hunmoved⟩ := raise_bind _ _ _
          exact .inr ⟨_, m', hraise, hcleared.trans hunmoved⟩
        · exact .inl rfl
  · rename_i hsize
    rw [ControlStack.reserve_of_lt (Nat.not_le.mp hsize)]
    exact .inl rfl

/-- The scope of a binding is entered, or else the stack is still there. -/
theorem enterBinding_cases (written : Nat → Value → Prop) (m : Machine γ) (symbol value : Value) :
    (∃ index, enterBinding symbol value m = .ok (.ok m.running.control.scope)
        (m.withControl (m.running.control.bound symbol index value))) ∨
      (∃ unwind m', enterBinding symbol value m = .ok (.error unwind) m' ∧ Beneath written m m') ∨
      ∃ fault m', enterBinding symbol value m = .error fault m' ∧ Unmoved written m m' := by
  cases hindex : m.heap.space.symbolBindingIndex m.mode symbol with
  | error fault =>
    obtain ⟨m', hrun, hunmoved⟩ := raise_apply (α := Nat) fault m
    have hlook : bindingIndex symbol m = .error fault m' := by
      rw [← hrun, bindingIndex, view, hindex]
      rfl
    exact .inr (.inr ⟨fault, m', bind_of_error hlook, hunmoved⟩)
  | ok index =>
    obtain hroom | ⟨fault, m', hfault, hunmoved⟩ := reserveBinding_cases written m index
    · by_cases hfull : m.running.control.frameLimit ≤ m.running.control.frames.size
      · refine .inr (.inl ⟨_, _, enterBinding_full hindex hroom value hfull, ?_⟩)
        exact beneath_withControl (ControlStack.restored_reserve _ index).beneath
      · exact .inl ⟨index, enterBinding_bound hindex hroom value hfull⟩
    · refine .inr (.inr ⟨fault, m', ?_, hunmoved⟩)
      rw [enterBinding, bind_of_ok (bindingIndex_ok hindex), bind_of_error hfault]

theorem binding_of_faulted {symbol value : Value} {fault : Fault}
    (hkind : m.heap.space.isKind symbol .symbol = true)
    (henter : enterBinding symbol value m = .error fault m') :
    binding symbol value body m = .error fault m' := by
  rw [binding, bind_of_ok get_apply, if_pos hkind, bind_of_error henter]

theorem binding_of_other {symbol value : Value}
    (hkind : ¬m.heap.space.isKind symbol .symbol = true) :
    binding symbol value body m = (do
      expect false fun _ => do
        return "binding a non-symbol " ++ (← view fun mode space => space.render mode symbol)
      body) m := by
  rw [binding, bind_of_ok get_apply, if_neg hkind]

theorem Layered.binding (hbody : Layered written body) (symbol value : Value) :
    Layered written (binding symbol value body) := by
  intro m
  by_cases hkind : m.heap.space.isKind symbol .symbol = true
  · obtain ⟨index, henter⟩ | ⟨unwind, m', henter, hbeneath⟩ | ⟨fault, m', henter, hunmoved⟩ :=
      enterBinding_cases written m symbol value
    · rw [binding_of_entered hkind henter]
      exact (inside_bound m symbol index value).leaves hbody fun result =>
        ⟨_, layered_pure result, rfl⟩
    · rwa [binding_of_refused hkind henter]
    · rw [binding_of_faulted hkind henter]
      exact hunmoved.toBeneath
  · rw [binding_of_other hkind]
    exact layered_bind (layered_of_confined fun _ => confined_misuse _ symbol) (fun _ => hbody) m

/-! ## Calls -/

theorem confined_entryOf? {allowed : List Action} (closure : Value) :
    Confined allowed (entryOf? closure : Op γ (Option Word)) := by
  refine confined_bind confined_get fun m => ?_
  split
  · exact confined_bind (confined_misuse _ closure) fun _ => confined_pure _
  · refine confined_bind (confined_view fun mode s => s.tame_rawWord mode closure _ _)
      fun entry => ?_
    split
    · exact confined_bind (confined_misuse _ closure) fun _ => confined_pure _
    · exact confined_pure _

/-- The closure of a call is part of the history while its code runs. -/
theorem beneath_calling {mode : Mode} (c : ControlStack) (closure : Value) :
    c.Beneath mode written (calling c closure) := by
  refine ⟨rfl, ?_, List.suffix_refl _, fun _ => .inl rfl, fun _ => Nat.le_refl _, rfl, rfl⟩
  rw [calling, Array.toList_push]
  exact List.prefix_append _ _

/-- As long as the code leaves the length of the history as it was, the last call is its own. -/
theorem beneath_popped {mode : Mode} {c c' : ControlStack} {closure : Value}
    (h : (calling c closure).Beneath mode written c')
    (hlength : c'.history.size = (calling c closure).history.size) :
    c.Beneath mode written { c' with history := c'.history.pop } := by
  have hsame : (calling c closure).history = c'.history :=
    Array.toList_inj.mp (h.history.eq_of_length hlength.symm)
  have hpopped : c'.history.pop = c.history := by rw [← hsame, calling, Array.pop_push]
  exact ⟨h.frames, hpopped ▸ List.prefix_refl _, h.suspended, h.bindings, h.table, h.frameLimit,
    h.invocationLimit⟩

theorem Layered.recorded (hbody : Layered written body) (closure : Value) :
    Layered written (recorded closure body) := by
  intro m
  by_cases hfull : m.running.control.invocationLimit ≤ m.running.control.history.size
  · rw [recorded_full hfull]
    exact .refl m
  · rw [recorded_apply hfull]
    have hfound : Beneath written m (m.withControl (calling m.running.control closure)) :=
      beneath_withControl (beneath_calling m.running.control closure)
    cases hrun : body (m.withControl (calling m.running.control closure)) with
    | error fault m₁ =>
      rw [bind_of_error hrun]
      exact hfound.trans (hbody.error hrun)
    | ok result m₁ =>
      rw [bind_of_ok hrun, bind_of_ok (control_apply _)]
      have hleft := hbody.ok hrun
      split
      · obtain ⟨m₂, hraise, hunmoved⟩ := raise_bind _ _ m₁
        rw [raiseFatal, hraise]
        exact (hfound.trans hleft).trans hunmoved.toBeneath
      · rename_i hlength
        exact ⟨hleft.mode, beneath_popped hleft.control (not_not.mp hlength)⟩

theorem Layered.call {run : Word → Value → List Value → Op γ (Outcome Value)}
    (hrun : ∀ entry closure args, Layered written (run entry closure args)) (closure : Value)
    (args : List Value) : Layered written (call run closure args) := by
  refine layered_bind (layered_of_confined fun _ => confined_entryOf? closure) fun entry? => ?_
  cases entry? with
  | none => exact layered_pure _
  | some entry => exact (hrun entry closure args).recorded closure

theorem Layered.toplevel (hbody : Layered written body) : Layered written (toplevel body) := by
  refine layered_bind hbody fun result => ?_
  split
  · exact layered_pure _
  · exact layered_pure _
  · exact layered_raise _

end Machine

/-! ## Programs -/

namespace Program

open Machine

variable {written : Nat → Value → Prop}

theorem layered_performWith {run : Word → Value → List Value → Op Journal (Outcome Value)}
    (hrun : ∀ entry closure args, Layered written (run entry closure args)) (p : Program) :
    Layered written (p.performWith run) := by
  have hrecord : ∀ event, Layered written (record event) := fun _ m => ⟨rfl, .refl _⟩
  induction p with
  | result | fail => exact layered_pure _
  | setValues values => exact layered_bind (layered_setValues values) fun _ => layered_pure _
  | exit tag values => exact layered_exitTo tag values
  | catching tag body ih => exact ih.catching tag
  | block body ih => exact Layered.block ih
  | protect label body cleanup ihbody ihcleanup =>
    exact (layered_bind (hrecord _) fun _ => ihbody).unwindProtect
      (layered_bind (hrecord _) fun _ => ihcleanup)
  | bind symbol value body ih => exact ih.binding symbol value
  | lookup symbol => exact layered_bind (layered_symbolValue symbol) fun _ => layered_pure _
  | call closure args => exact Layered.call hrun closure args
  | andThen first next ihfirst ihnext =>
    refine layered_bind ihfirst fun outcome => ?_
    split
    · exact ihnext _
    · exact layered_pure _
  | handling body handler ihbody ihhandler =>
    refine layered_bind ihbody fun outcome => ?_
    split
    · exact ihhandler _
    · exact layered_pure _

theorem layered_performWithin (code : Code) (depth : Nat) (p : Program) :
    Layered written (p.performWithin code depth) := by
  induction depth generalizing p with
  | zero =>
    exact layered_performWith
      (fun _ _ _ => layered_of_confined fun _ => confined_throw (by trivial)) p
  | succ depth ih => exact layered_performWith (fun entry closure args => ih _) p

/-- However a program ends, the control stack that it found is beneath the one that it leaves. -/
theorem layered_perform (code : Code) (p : Program) : Layered written (p.perform code) :=
  layered_bind (layered_control _) fun depth => layered_performWithin code depth p

end Program

end Substrate
