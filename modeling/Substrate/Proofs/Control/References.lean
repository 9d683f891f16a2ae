import Substrate.Proofs.Control.Acts

/-!
# What a control stack refers to

Values move between frames, the binding table, exits under way, what is set aside for cleanups, the
values register and the history of calls. A collection marks from all of these places. No act gets a
value from anywhere but from the stack and from what it is passed (`Act.Turns.holds`).
-/

namespace Substrate

/-! ## Control stacks -/

/-- `P` holds of the tag of a catch frame, and of symbol and previous value of a binding frame. -/
def FrameKind.Holds (P : Value → Prop) : FrameKind → Prop
  | catching tag => P tag
  | protecting => True
  | binding symbol _ previous => P symbol ∧ P previous

namespace ControlStack

variable {P : Value → Prop} {c : ControlStack} {kind : FrameKind}

/-- `P` holds of every value on the stack. -/
structure Holds (P : Value → Prop) (c : ControlStack) : Prop where
  frames : ∀ frame ∈ c.frames, frame.kind.Holds P
  pending : ∀ exit, c.pending = some exit → ∀ v ∈ exit.values, P v
  suspendedExits : ∀ saved ∈ c.suspended, ∀ exit, saved.exit = some exit → ∀ v ∈ exit.values, P v
  suspendedValues : ∀ saved ∈ c.suspended, ∀ v ∈ saved.values, P v
  bindings : ∀ v ∈ c.bindings, P v
  values : ∀ v ∈ c.values, P v
  history : ∀ v ∈ c.history, P v

theorem holds_new (frameLimit invocationLimit : Nat) : (new frameLimit invocationLimit).Holds P := by
  constructor <;> simp [new]

/-- What is held is marked by a collection. -/
theorem holds_iff : c.Holds P ↔ ∀ v ∈ c.references, P v := by
  have hkind : ∀ kind : FrameKind, kind.Holds P ↔ ∀ v ∈ kind.values, P v := by
    intro kind
    cases kind <;> simp [FrameKind.Holds, FrameKind.values]
  simp only [references, List.mem_append, List.mem_flatMap, List.mem_reverse, Option.mem_toList]
  constructor
  · rintro h v (((((⟨frame, hframe, hv⟩ | ⟨exit, hexit, hv⟩) | ⟨saved, hsaved, ⟨exit, hexit, hv⟩ | hv⟩) |
      hv) | hv) | hv)
    · exact (hkind _).mp (h.frames frame (Array.mem_toList_iff.mp hframe)) v hv
    · exact h.pending exit hexit v hv
    · exact h.suspendedExits saved hsaved exit hexit v hv
    · exact h.suspendedValues saved hsaved v hv
    · exact h.bindings v (Array.mem_toList_iff.mp hv)
    · exact h.values v hv
    · exact h.history v (Array.mem_toList_iff.mp hv)
  · intro h
    refine ⟨fun frame hframe => (hkind _).mpr fun v hv => h v ?_, fun exit hexit v hv => h v ?_,
      fun saved hsaved exit hexit v hv => h v ?_, fun saved hsaved v hv => h v ?_,
      fun v hv => h v ?_, fun v hv => h v ?_, fun v hv => h v ?_⟩
    · exact .inl (.inl (.inl (.inl (.inl ⟨frame, Array.mem_toList_iff.mpr hframe, hv⟩))))
    · exact .inl (.inl (.inl (.inl (.inr ⟨exit, hexit, hv⟩))))
    · exact .inl (.inl (.inl (.inr ⟨saved, hsaved, .inl ⟨exit, hexit, hv⟩⟩)))
    · exact .inl (.inl (.inl (.inr ⟨saved, hsaved, .inr hv⟩)))
    · exact .inl (.inl (.inr (Array.mem_toList_iff.mpr hv)))
    · exact .inl (.inr hv)
    · exact .inr (Array.mem_toList_iff.mpr hv)

theorem Holds.mono {Q : Value → Prop} (h : c.Holds P) (hPQ : ∀ v, P v → Q v) : c.Holds Q :=
  holds_iff.mpr fun v hv => hPQ v (holds_iff.mp h v hv)

/-! ### Frames and bindings -/

theorem Holds.pushed (h : c.Holds P) (hkind : kind.Holds P) : (c.pushed kind).Holds P := by
  refine ⟨fun frame hframe => ?_, h.pending, h.suspendedExits, h.suspendedValues, h.bindings, h.values,
    h.history⟩
  obtain hold | rfl := Array.mem_push.mp hframe
  · exact h.frames frame hold
  · exact hkind

theorem Holds.setBinding (h : c.Holds P) (index : Nat) {value : Value} (hvalue : P value) :
    (c.setBinding index value).Holds P := by
  refine ⟨h.frames, h.pending, h.suspendedExits, h.suspendedValues, fun v hv => ?_, h.values,
    h.history⟩
  rcases Array.mem_or_eq_of_mem_setIfInBounds hv with hv | rfl
  · exact h.bindings v hv
  · exact hvalue

theorem Holds.undo (h : c.Holds P) (hkind : kind.Holds P) : (c.undo kind).Holds P := by
  cases kind with
  | catching | protecting => exact h
  | binding symbol index previous => exact h.setBinding index hkind.2

theorem Holds.dropTop (h : c.Holds P) : c.dropTop.Holds P := by
  unfold ControlStack.dropTop
  split
  next frame hframe =>
    have hmem : ∀ other ∈ c.frames.pop, other ∈ c.frames := by
      intro other hother
      rw [← Array.mem_toList_iff, Array.toList_pop] at hother
      exact Array.mem_toList_iff.mp ((List.dropLast_sublist _).subset hother)
    have hlower : ({ c with frames := c.frames.pop } : ControlStack).Holds P :=
      ⟨fun other hother => h.frames other (hmem other hother), h.pending, h.suspendedExits,
        h.suspendedValues, h.bindings, h.values, h.history⟩
    exact hlower.undo (h.frames frame (Array.mem_of_back? hframe))
  next => exact h

theorem Holds.dropFrames (h : c.Holds P) (count : Nat) : (dropFrames count c).Holds P := by
  induction count generalizing c with
  | zero => exact h
  | succ count ih => exact ih h.dropTop

theorem Holds.abandon (h : c.Holds P) (scope : Scope) : (c.abandon scope).Holds P := by
  have hcut := h.dropFrames (c.frames.size - scope.depth)
  refine ⟨hcut.frames, nofun, fun saved hsaved => ?_, fun saved hsaved => ?_, hcut.bindings,
    hcut.values, fun v hv => ?_⟩
  · exact hcut.suspendedExits saved (List.mem_of_mem_drop hsaved)
  · exact hcut.suspendedValues saved (List.mem_of_mem_drop hsaved)
  · have hcalls : v ∈ ((ControlStack.dropFrames (c.frames.size - scope.depth) c).history.shrink
        scope.history).toList := Array.mem_toList_iff.mpr hv
    rw [Array.toList_shrink] at hcalls
    exact hcut.history v (Array.mem_toList_iff.mp (List.mem_of_mem_take hcalls))

/-- An entry of the table is there or empty. -/
theorem Holds.bindingAt (h : c.Holds P) (hempty : P .empty) (index : Nat) : P (c.bindingAt index) := by
  rw [ControlStack.bindingAt, Array.getD_eq_getD_getElem?]
  cases hentry : c.bindings[index]? with
  | none => exact hempty
  | some v => exact h.bindings v (Array.mem_of_getElem? hentry)

theorem Holds.reserve (h : c.Holds P) (hempty : P .empty) (index : Nat) : (c.reserve index).Holds P := by
  refine ⟨h.frames, h.pending, h.suspendedExits, h.suspendedValues, fun v hv => ?_, h.values,
    h.history⟩
  rcases Array.mem_append.mp hv with hv | hv
  · exact h.bindings v hv
  · obtain ⟨-, rfl⟩ := Array.mem_replicate.mp hv
    exact hempty

theorem Holds.bound (h : c.Holds P) (hempty : P .empty) {symbol value : Value} (hsymbol : P symbol)
    (hvalue : P value) (index : Nat) : (c.bound symbol index value).Holds P := by
  have hkind : FrameKind.Holds P (.binding symbol index (c.bindingAt index)) :=
    ⟨hsymbol, h.bindingAt hempty index⟩
  exact ((h.reserve hempty index).pushed hkind).setBinding index hvalue

end ControlStack

/-! ## Acts -/

namespace Act

/-- The values that an act is passed. -/
def passed : Act → List Value
  | enterCatch tag => [tag]
  | leaveCatch _ (.ok value) => [value]
  | enterBinding symbol value => [symbol, value]
  | startExit tag values => tag :: values
  | setValues values => values
  | setSymbolValue symbol value => [symbol, value]
  | startCall closure => [closure]
  | _ => []

theorem holds_frame {act : Act} {kind : FrameKind} {P : Value → Prop} (hframe : act.frame? = some kind)
    (hpassed : ∀ v ∈ act.passed, P v) : kind.Holds P := by
  cases act with
  | enterCatch tag =>
    obtain rfl := Option.some.inj hframe
    exact hpassed tag List.mem_cons_self
  | enterProtect =>
    obtain rfl := Option.some.inj hframe
    trivial
  | _ => exact absurd hframe (by simp [frame?])

/-- Whatever a stack holds after an act was on it before or was passed. -/
theorem Turns.holds {mode : Mode} {s : Space} {c c' : ControlStack} {act : Act} {P : Value → Prop}
    (h : act.Turns mode s c c') (hempty : P .empty) (hc : c.Holds P)
    (hpassed : ∀ v ∈ act.passed, P v) : c'.Holds P := by
  have hdrop := hc.dropTop
  cases h with
  | full | misplaced | idle | unassigned | unknown | unreserved => exact hc
  | entered hframe => exact hc.pushed (holds_frame hframe hpassed)
  | left => exact hdrop
  | returned =>
    exact ⟨hdrop.frames, hdrop.pending, hdrop.suspendedExits, hdrop.suspendedValues, hdrop.bindings,
      hpassed, hdrop.history⟩
  | caught _ hexit =>
    exact ⟨hdrop.frames, nofun, hdrop.suspendedExits, hdrop.suspendedValues,
      hdrop.bindings, hdrop.pending _ hexit, hdrop.history⟩
  | uncaught =>
    exact ⟨hdrop.frames, nofun, hdrop.suspendedExits, hdrop.suspendedValues,
      hdrop.bindings, hdrop.values, hdrop.history⟩
  | suspended =>
    refine ⟨hdrop.frames, nofun, fun saved hsaved => ?_, fun saved hsaved => ?_,
      hdrop.bindings, List.forall_mem_nil _, hdrop.history⟩
    · rcases List.mem_cons.mp hsaved with rfl | hsaved
      · exact hdrop.pending
      · exact hdrop.suspendedExits saved hsaved
    · rcases List.mem_cons.mp hsaved with rfl | hsaved
      · exact hdrop.values
      · exact hdrop.suspendedValues saved hsaved
  | resumed hsaved =>
    have hmem := List.mem_of_mem_head? hsaved
    exact ⟨hc.frames, hc.suspendedExits _ hmem, fun other h => hc.suspendedExits other
      (List.mem_of_mem_tail h), fun other h => hc.suspendedValues other (List.mem_of_mem_tail h),
      hc.bindings, hc.suspendedValues _ hmem, hc.history⟩
  | superseded =>
    exact ⟨hc.frames, hc.pending, fun other h => hc.suspendedExits other (List.mem_of_mem_tail h),
      fun other h => hc.suspendedValues other (List.mem_of_mem_tail h), hc.bindings, hc.values,
      hc.history⟩
  | abandoned scope => exact hc.abandon scope
  | exiting target =>
    refine ⟨hc.frames, fun exit h v hv => ?_, hc.suspendedExits, hc.suspendedValues, hc.bindings,
      hc.values, hc.history⟩
    cases h
    exact hpassed v (List.mem_cons_of_mem _ hv)
  | valued values =>
    exact ⟨hc.frames, hc.pending, hc.suspendedExits, hc.suspendedValues, hc.bindings, hpassed,
      hc.history⟩
  | called closure =>
    refine ⟨hc.frames, hc.pending, hc.suspendedExits, hc.suspendedValues, hc.bindings, hc.values,
      fun v hv => ?_⟩
    obtain hv | rfl := Array.mem_push.mp hv
    · exact hc.history v hv
    · exact hpassed v List.mem_cons_self
  | uncalled =>
    refine ⟨hc.frames, hc.pending, hc.suspendedExits, hc.suspendedValues, hc.bindings, hc.values,
      fun v hv => ?_⟩
    rw [← Array.mem_toList_iff, Array.toList_pop] at hv
    exact hc.history v (Array.mem_toList_iff.mp ((List.dropLast_sublist _).subset hv))
  | assigned =>
    exact hc.setBinding _ (hpassed _ (List.mem_cons_of_mem _ List.mem_cons_self))
  | cleared =>
    exact ⟨hc.frames, hc.pending, hc.suspendedExits, hc.suspendedValues,
      fun v hv => absurd hv (Array.not_mem_empty v), hc.values, hc.history⟩
  | refused => exact hc.reserve hempty _
  | bound =>
    exact hc.bound hempty (hpassed _ List.mem_cons_self)
      (hpassed _ (List.mem_cons_of_mem _ List.mem_cons_self)) _

end Act

end Substrate
