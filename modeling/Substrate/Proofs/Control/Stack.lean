import Mathlib.Logic.Function.Basic
import Substrate.Control

/-!
# Control stacks between scopes

The serial number of a frame is never used again, so that an exit can only be taken for its own
frame. `Reachable` are the control stacks that the operations lead to, and `Sound` is what all of
them have in common.

`Restored` says how a body leaves the stack that it found: everything as it was, except that the
binding table may have grown by empty entries.
-/

namespace Substrate.ControlStack

variable {c c' c'' : ControlStack}

/-- The binding table always has fewer entries than this. -/
abbrev tableLimit : Nat := 0x1000000000000000

/-- The control stacks that a thread can have. -/
inductive Reachable : ControlStack → Prop where
  | new (frameLimit invocationLimit : Nat) : Reachable (new frameLimit invocationLimit)
  | enter {c : ControlStack} (h : Reachable c) (kind : FrameKind) : Reachable (c.enter kind).2
  | leave {c : ControlStack} (h : Reachable c) : Reachable c.dropTop
  | abandon {c : ControlStack} (h : Reachable c) (scope : Scope) : Reachable (c.abandon scope)
  | reserve {c : ControlStack} (h : Reachable c) {index : Nat} (hindex : index + 1 < tableLimit) :
      Reachable (c.reserve index)
  | clear {c : ControlStack} (h : Reachable c) : Reachable { c with bindings := #[] }
  | setBinding {c : ControlStack} (h : Reachable c) (index : Nat) (value : Value) :
      Reachable (c.setBinding index value)
  /-- Exits, cleanups, calls and the values register. -/
  | update {c : ControlStack} (h : Reachable c) (pending : Option PendingExit)
      (suspended : List Suspended) (values : List Value) (history : Array Value) :
      Reachable { c with pending, suspended, values, history }

structure Sound (c : ControlStack) : Prop where
  serials : ∀ frame ∈ c.frames, frame.serial < c.nextSerial
  table : c.bindings.size < tableLimit

/-! ## Soundness -/

theorem sound_new (frameLimit invocationLimit : Nat) : (new frameLimit invocationLimit).Sound :=
  ⟨fun frame h => absurd h (Array.not_mem_empty frame), (by decide : 0 < tableLimit)⟩

/-- The stack with one more frame. -/
def pushed (c : ControlStack) (kind : FrameKind) : ControlStack :=
  { c with frames := c.frames.push ⟨c.nextSerial, kind⟩, nextSerial := c.nextSerial + 1 }

/-- The scope of that frame. -/
def scope (c : ControlStack) : Scope :=
  ⟨c.nextSerial, c.frames.size, c.history.size, c.suspended.length⟩

theorem enter_full {kind : FrameKind} (h : c.frameLimit ≤ c.frames.size) :
    c.enter kind = (.error (.frameStackOverflow c.frameLimit), c) := by
  simp only [enter, push, if_pos h]

theorem enter_pushed {kind : FrameKind} (h : ¬c.frameLimit ≤ c.frames.size) :
    c.enter kind = (.ok c.scope, c.pushed kind) := by
  simp only [enter, push, if_neg h, pushed, scope, Array.size_push, Nat.add_sub_cancel]

theorem Sound.pushed (h : c.Sound) (kind : FrameKind) : (c.pushed kind).Sound := by
  refine ⟨fun frame hframe => ?_, h.table⟩
  obtain hold | rfl := Array.mem_push.mp hframe
  · exact Nat.lt_succ_of_lt (h.serials frame hold)
  · exact Nat.lt_succ_self _

theorem Sound.enter (h : c.Sound) (kind : FrameKind) : (c.enter kind).2.Sound := by
  by_cases hfull : c.frameLimit ≤ c.frames.size
  · rw [enter_full hfull]
    exact h
  · rw [enter_pushed hfull]
    exact h.pushed kind

theorem Sound.undo (h : c.Sound) (kind : FrameKind) : (c.undo kind).Sound := by
  cases kind with
  | catching | protecting => exact h
  | binding _ index previous =>
    exact ⟨h.serials, by simpa only [ControlStack.undo, Array.size_setIfInBounds] using h.table⟩

theorem Sound.dropTop (h : c.Sound) : c.dropTop.Sound := by
  unfold ControlStack.dropTop
  split
  · apply Sound.undo
    refine ⟨fun frame hframe => h.serials frame ?_, h.table⟩
    rw [← Array.mem_toList_iff, Array.toList_pop] at hframe
    exact Array.mem_toList_iff.mp ((List.dropLast_sublist _).subset hframe)
  · exact h

theorem Sound.dropFrames (h : c.Sound) (count : Nat) : (dropFrames count c).Sound := by
  induction count generalizing c with
  | zero => exact h
  | succ count ih => exact ih h.dropTop

theorem Sound.abandon (h : c.Sound) (scope : Scope) : (c.abandon scope).Sound :=
  have := h.dropFrames (c.frames.size - scope.depth)
  ⟨this.serials, this.table⟩

theorem Sound.reserve (h : c.Sound) {index : Nat} (hindex : index + 1 < tableLimit) :
    (c.reserve index).Sound := by
  refine ⟨h.serials, ?_⟩
  have htable := h.table
  simp only [ControlStack.reserve, Array.size_append, Array.size_replicate]
  omega

theorem Sound.setBinding (h : c.Sound) (index : Nat) (value : Value) :
    (c.setBinding index value).Sound :=
  ⟨h.serials, by simpa only [ControlStack.setBinding, Array.size_setIfInBounds] using h.table⟩

theorem Sound.update (h : c.Sound) (pending : Option PendingExit) (suspended : List Suspended)
    (values : List Value) (history : Array Value) :
    ({ c with pending, suspended, values, history } : ControlStack).Sound :=
  ⟨h.serials, h.table⟩

theorem Reachable.sound (h : c.Reachable) : c.Sound := by
  induction h with
  | new frameLimit invocationLimit => exact sound_new frameLimit invocationLimit
  | enter _ kind ih => exact ih.enter kind
  | leave _ ih => exact ih.dropTop
  | abandon _ scope ih => exact ih.abandon scope
  | reserve _ hindex ih => exact ih.reserve hindex
  | clear _ ih => exact ⟨ih.serials, (by decide : 0 < tableLimit)⟩
  | setBinding _ index value ih => exact ih.setBinding index value
  | update _ pending suspended values history ih =>
    exact ih.update pending suspended values history

/-! ## Abandoned scopes -/

theorem values_dropTop (c : ControlStack) : c.dropTop.values = c.values := by
  unfold dropTop
  split
  · unfold undo
    split <;> rfl
  · rfl

theorem values_dropFrames (count : Nat) (c : ControlStack) :
    (dropFrames count c).values = c.values := by
  induction count generalizing c with
  | zero => rfl
  | succ count ih => exact (ih c.dropTop).trans (values_dropTop c)

theorem values_abandon (c : ControlStack) (scope : Scope) : (c.abandon scope).values = c.values :=
  values_dropFrames _ c

/-! ## Restored stacks -/

/-- `c'` is `c` again, up to empty entries at the end of the binding table. Exits under way and the
values register are not part of it. -/
structure Restored (c c' : ControlStack) : Prop where
  frames : c'.frames = c.frames
  history : c'.history = c.history
  suspended : c'.suspended = c.suspended
  bindings : ∃ count, c'.bindings = c.bindings ++ Array.replicate count Value.empty
  frameLimit : c'.frameLimit = c.frameLimit
  invocationLimit : c'.invocationLimit = c.invocationLimit

theorem Restored.refl (c : ControlStack) : c.Restored c :=
  ⟨rfl, rfl, rfl, ⟨0, by simp⟩, rfl, rfl⟩

theorem Restored.trans (h : c.Restored c') (h' : c'.Restored c'') : c.Restored c'' := by
  obtain ⟨count, hcount⟩ := h.bindings
  obtain ⟨count', hcount'⟩ := h'.bindings
  refine ⟨h'.frames.trans h.frames, h'.history.trans h.history, h'.suspended.trans h.suspended,
    ⟨count + count', ?_⟩, h'.frameLimit.trans h.frameLimit,
    h'.invocationLimit.trans h.invocationLimit⟩
  rw [hcount', hcount, Array.append_assoc, Array.replicate_append_replicate]

theorem Restored.update (h : c.Restored c') (pending : Option PendingExit) (values : List Value) :
    c.Restored { c' with pending, values } :=
  ⟨h.frames, h.history, h.suspended, h.bindings, h.frameLimit, h.invocationLimit⟩

/-- Empty entries at the end of the table cannot be told from missing ones. -/
theorem bindingAt_of_append {count : Nat}
    (h : c'.bindings = c.bindings ++ Array.replicate count Value.empty) (index : Nat) :
    c'.bindingAt index = c.bindingAt index := by
  simp only [bindingAt, h, Array.getD_eq_getD_getElem?, Array.getElem?_append,
    Array.getElem?_replicate]
  split
  · rfl
  · rename_i hsize
    rw [Array.getElem?_eq_none (Nat.not_lt.mp hsize)]
    split <;> rfl

theorem Restored.bindingAt (h : c.Restored c') (index : Nat) :
    c'.bindingAt index = c.bindingAt index := by
  obtain ⟨count, hcount⟩ := h.bindings
  exact bindingAt_of_append hcount index

/-! ## Own frames -/

theorem popProblem?_top {lower : Array Frame} {frame : Frame}
    (h : c.frames = lower.push frame) : c.popProblem? frame.serial = none := by
  simp only [popProblem?, h, Array.back?_push, if_pos]

theorem dropTop_top {lower : Array Frame} {frame : Frame} (h : c.frames = lower.push frame) :
    c.dropTop = ({ c with frames := lower } : ControlStack).undo frame.kind := by
  simp only [dropTop, h, Array.back?_push, Array.pop_push]

/-- The frame of a scope, once more the innermost one, is taken away. -/
theorem Restored.lower {kind : FrameKind} (h : (c.pushed kind).Restored c') :
    c.Restored { c' with frames := c.frames } :=
  ⟨rfl, h.history, h.suspended, h.bindings, h.frameLimit, h.invocationLimit⟩

theorem Sound.lower (h : c.Sound) {lower : Array Frame} {frame : Frame}
    (hframes : c.frames = lower.push frame) :
    ({ c with frames := lower } : ControlStack).Sound := by
  refine ⟨fun other hother => h.serials other ?_, h.table⟩
  rw [hframes]
  exact Array.mem_push.mpr (.inl hother)

/-! ## Bindings -/

theorem restored_reserve (c : ControlStack) (index : Nat) : c.Restored (c.reserve index) :=
  ⟨rfl, rfl, rfl, ⟨_, rfl⟩, rfl, rfl⟩

theorem lt_size_reserve (c : ControlStack) (index : Nat) :
    index < (c.reserve index).bindings.size := by
  simp only [reserve, Array.size_append, Array.size_replicate]
  omega

theorem reserve_of_lt {index : Nat} (h : index < c.bindings.size) : c.reserve index = c := by
  have hnone : index + 1 - c.bindings.size = 0 := by omega
  simp only [reserve, hnone, Array.replicate_zero, Array.append_empty]

theorem bindingAt_setBinding {index : Nat} (h : index < c.bindings.size) (value : Value) :
    (c.setBinding index value).bindingAt = Function.update c.bindingAt index value := by
  funext other
  simp only [bindingAt, setBinding, Array.getD_eq_getD_getElem?, Array.getElem?_setIfInBounds,
    Function.update_apply]
  by_cases hother : index = other
  · subst hother
    simp [h]
  · simp [hother, Ne.symm hother]

/-- Binding an entry and giving the previous one back changes nothing. -/
theorem setIfInBounds_bindingAt {index : Nat} (value : Value) :
    (c.bindings.setIfInBounds index value).setIfInBounds index (c.bindingAt index) = c.bindings := by
  rw [Array.setIfInBounds_setIfInBounds]
  by_cases hindex : index < c.bindings.size
  · refine Array.ext (by simp) fun other hother hother' => ?_
    rw [Array.getElem_setIfInBounds (by simpa using hother')]
    split
    · rename_i heq
      subst heq
      simp [bindingAt, Array.getD, hindex]
    · rfl
  · exact Array.setIfInBounds_eq_of_size_le (Nat.not_lt.mp hindex)

/-- The stack inside a binding. -/
def bound (c : ControlStack) (symbol : Value) (index : Nat) (value : Value) : ControlStack :=
  ((c.reserve index).pushed (.binding symbol index (c.bindingAt index))).setBinding index value

theorem Sound.bound (h : c.Sound) (symbol : Value) {index : Nat} (value : Value)
    (hindex : index + 1 < tableLimit) : (c.bound symbol index value).Sound :=
  ((h.reserve hindex).pushed _).setBinding index value

theorem bindingAt_bound (c : ControlStack) (symbol : Value) (index : Nat) (value : Value) :
    (c.bound symbol index value).bindingAt = Function.update c.bindingAt index value := by
  have hreserve : (c.reserve index).bindingAt = c.bindingAt :=
    funext (restored_reserve c index).bindingAt
  rw [← hreserve]
  exact bindingAt_setBinding (lt_size_reserve c index) value

/-- The frame of a binding, once more the innermost one, is taken away. -/
theorem Restored.unbind {symbol value : Value} {index : Nat}
    (h : (c.bound symbol index value).Restored c') :
    c.Restored (({ c' with frames := c.frames } : ControlStack).undo
      (.binding symbol index (c.bindingAt index))) := by
  obtain ⟨count, hcount⟩ := h.bindings
  refine ⟨rfl, h.history, h.suspended, ?_, h.frameLimit, h.invocationLimit⟩
  have hlt : index < ((c.reserve index).bindings.setIfInBounds index value).size := by
    rw [Array.size_setIfInBounds]
    exact lt_size_reserve c index
  have hback : c'.bindings.setIfInBounds index (c.bindingAt index)
      = (c.reserve index).bindings ++ Array.replicate count Value.empty := by
    rw [hcount, ← (restored_reserve c index).bindingAt index]
    refine (Array.setIfInBounds_append_left hlt).trans ?_
    rw [setIfInBounds_bindingAt]
  refine ⟨index + 1 - c.bindings.size + count, hback.trans ?_⟩
  rw [reserve, Array.append_assoc, Array.replicate_append_replicate]

theorem Restored.lt_size_unbind {symbol value : Value} {index : Nat}
    (h : (c.bound symbol index value).Restored c') : index < c'.bindings.size := by
  obtain ⟨count, hcount⟩ := h.bindings
  have hlt := lt_size_reserve c index
  rw [hcount, Array.size_append]
  simp only [bound, setBinding, pushed, Array.size_setIfInBounds]
  omega

end Substrate.ControlStack
