import Substrate.Proofs.Collection.Exactness
import Substrate.Proofs.Space.Footprint

/-!
# Work between collections

Between collections a client works on its heap object by object. What it stores need not be traceable
before the next collection begins. All that holds meanwhile is that no object is marked and that the
heap's own lists name objects (`Heap.Rested`); and no work takes an object away (`Heap.Keeps`).
-/

namespace Substrate

/-- Every object of a space is in the other one as well, with the same kind and size. -/
def Space.Retains (s t : Space) : Prop :=
  ∀ a cell, s.object? a = some cell → ∃ cell', t.object? a = some cell' ∧
    cell'.header.kind = cell.header.kind ∧ cell'.header.words = cell.header.words

theorem Space.Retains.refl (s : Space) : s.Retains s := fun _ cell hcell => ⟨cell, hcell, rfl, rfl⟩

theorem Space.Retains.isSome {s t : Space} (h : s.Retains t) {a : Nat}
    (ha : (s.object? a).isSome) : (t.object? a).isSome := by
  obtain ⟨cell, hcell⟩ := Option.isSome_iff_exists.mp ha
  obtain ⟨cell', hcell', -⟩ := h a cell hcell
  exact Option.isSome_of_eq_some hcell'

namespace Heap

variable {h h' : Heap} {a : Nat} {cell : Cell}

/-- What is true of a heap whenever no collection is under way and none has failed. -/
structure Rested (h : Heap) : Prop extends Intact h where
  unmarked : ∀ a cell, h.space.object? a = some cell → cell.header.marked = false

theorem WellFormed.rested (hw : h.WellFormed) : h.Rested := ⟨hw.intact, hw.unmarked⟩

theorem Rested.wellFormed (hr : h.Rested) (ht : h.space.Traceable) : h.WellFormed :=
  ⟨hr.valid, ht, hr.unmarked, hr.finalizers, hr.pending, hr.finalizing⟩

/-- The heap after some work on it: it is at rest again, and no object is gone. -/
structure Keeps (h h' : Heap) : Prop where
  rested : h'.Rested
  mode : h'.mode = h.mode
  objects : h.space.Retains h'.space

theorem Keeps.accepts (h₀ : h.Keeps h') {v : Value} (hv : h.space.Accepts v) : h'.space.Accepts v :=
  fun href => h₀.objects.isSome (hv href)

theorem Rested.keeps (hr : h.Rested) : h.Keeps h := ⟨hr, rfl, .refl h.space⟩

/-- A space with at least the same objects, none of them marked, in place of a heap's own. -/
theorem Rested.withSpace (hr : h.Rested) {s : Space} (hs : s.Valid)
    (hunmarked : ∀ a cell, s.object? a = some cell → cell.header.marked = false)
    (hobjects : h.space.Retains s) : h.Keeps { h with space := s } :=
  ⟨⟨⟨hs, fun entry hentry => hobjects.isSome (hr.finalizers entry hentry),
    fun entry hentry href => hobjects.isSome (hr.pending entry hentry href),
    fun v hv href => hobjects.isSome (hr.finalizing v hv href)⟩, hunmarked⟩, rfl, hobjects⟩

/-- What is live is an object. -/
theorem isSome_of_isLive (hs : h.space.Valid) {v : Value} (hlive : h.isLive v = true) :
    (h.space.object? v.address).isSome := by
  rw [← hs.findObject?_exact_isSome]
  simp only [Heap.isLive, Bool.and_eq_true] at hlive
  exact hlive.2

/-! ## Pieces of work -/

/-- One piece of a client's work on a heap. -/
inductive Work (h : Heap) : Heap → Prop where
  | allocate {h' : Heap} {pages : Pages} {kind : Kind} {words : Nat} {result : Option Value}
      (fresh : pages.Fresh h.space.Held) (hkind : kind.isHeap = true)
      (hrun : Heap.tryAllocate kind words { h with space := { h.space with pages } }
        = .ok result h') : Work h h'
  | write {a index : Nat} {cell : Cell} (hcell : h.space.object? a = some cell)
      (hindex : index < cell.header.words) (bits : Word) :
      Work h { h with space := h.space.setWord a index bits }
  | register {h' : Heap} {v : Value} {action : Finalizer}
      (hrun : Heap.registerFinalizer v action h = .ok () h') : Work h h'
  | take : Work h h.takePendingFinalizer.2
  | finish (object : Value) : Work h (h.finishFinalizer object)

theorem words_lt_of_allocate {s t : Space} {mode : Mode} {kind : Kind} {words : Nat}
    (h : s.allocate mode kind words = (.ok (some a), t)) : words < Space.payloadLimit := by
  refine Nat.not_le.mp fun hle => ?_
  rw [Space.allocate, if_pos hle] at h
  cases h

/-- What an allocation comes to. -/
theorem tryAllocate_cases (hvalid : h.space.Valid) {pages : Pages}
    (fresh : pages.Fresh h.space.Held) {kind : Kind} (hkind : kind.isHeap = true) {words : Nat}
    {result : Option Value}
    (hrun : Heap.tryAllocate kind words { h with space := { h.space with pages } }
      = .ok result h') :
    (h'.mode = h.mode ∧ h'.options = h.options ∧ h'.finalizers = h.finalizers ∧
      h'.pending = h.pending) ∧
    (result = none ∧ (∀ a, h'.space.object? a = h.space.object? a) ∨
      ∃ a cell, result = some (.ofAddress a) ∧ h.space.Adds h'.space a cell ∧
        cell.header = ⟨kind, false, 0, words⟩ ∧ (∀ i, cell.word i = 0) ∧
        words < Space.payloadLimit) := by
  obtain ⟨t, hanswer, ht⟩ | ⟨a, cell, t, hanswer, hadds, hheader, hzero⟩ :=
    hvalid.request h.mode fresh hkind words
  · simp only [Heap.tryAllocate, hanswer] at hrun
    cases hrun
    exact ⟨⟨rfl, rfl, rfl, rfl⟩, .inl ⟨rfl, ht.object? hvalid⟩⟩
  · have hlimit := words_lt_of_allocate hanswer
    have hbytes := allocationSize_eq h.mode (bytes_lt_of_payload hlimit)
    simp only [Heap.tryAllocate, hanswer, hbytes] at hrun
    cases hrun
    exact ⟨⟨rfl, rfl, rfl, rfl⟩, .inr ⟨a, cell, rfl, hadds, hheader, hzero, hlimit⟩⟩

/-- An allocation leaves all objects as they are. -/
theorem object_tryAllocate (hvalid : h.space.Valid) {pages : Pages}
    (fresh : pages.Fresh h.space.Held) {kind : Kind} (hkind : kind.isHeap = true) {words : Nat}
    {result : Option Value}
    (hrun : Heap.tryAllocate kind words { h with space := { h.space with pages } }
      = .ok result h') (hcell : h.space.object? a = some cell) :
    h'.space.object? a = some cell := by
  obtain ⟨-, ⟨-, hsame⟩ | ⟨_, _, -, hadds, -⟩⟩ := tryAllocate_cases hvalid fresh hkind hrun
  · exact (hsame a).trans hcell
  · exact hadds.object?_old hcell

theorem Rested.tryAllocate (hr : h.Rested) {pages : Pages} (fresh : pages.Fresh h.space.Held)
    {kind : Kind} (hkind : kind.isHeap = true) {words : Nat} {result : Option Value}
    (hrun : Heap.tryAllocate kind words { h with space := { h.space with pages } }
      = .ok result h') : h.Keeps h' := by
  obtain ⟨t, hanswer, ht⟩ | ⟨a, cell, t, hanswer, hadds, hheader, -⟩ :=
    hr.valid.request h.mode fresh hkind words
  · simp only [Heap.tryAllocate, hanswer] at hrun
    cases hrun
    have hview := ht.object? hr.valid
    exact hr.withSpace (ht.valid hr.valid) (fun x cell hx => hr.unmarked x cell (hview x ▸ hx))
      fun x cell hx => ⟨cell, (hview x).trans hx, rfl, rfl⟩
  · have hbytes := allocationSize_eq h.mode (bytes_lt_of_payload (words_lt_of_allocate hanswer))
    simp only [Heap.tryAllocate, hanswer, hbytes] at hrun
    cases hrun
    have hspace : h.Keeps { h with space := t } := by
      refine hr.withSpace hadds.valid (fun x cell' hx => ?_) fun x cell' hx => ?_
      · obtain ⟨rfl, rfl⟩ | hold := hadds.new_or_old hx
        · rw [hheader]
        · exact hr.unmarked x cell' hold
      · exact ⟨cell', hadds.object?_old hx, rfl, rfl⟩
    exact ⟨⟨⟨hspace.rested.valid, hspace.rested.finalizers, hspace.rested.pending,
      hspace.rested.finalizing⟩, hspace.rested.unmarked⟩, rfl, hspace.objects⟩

/-- An object in place of another one at the same address, equally unmarked. -/
theorem Rested.modifyCell (hr : h.Rested) (hcell : h.space.object? a = some cell) {f : Cell → Cell}
    (hkind : (f cell).header.kind = cell.header.kind)
    (hwords : (f cell).header.words = cell.header.words)
    (hmarked : (f cell).header.marked = cell.header.marked) :
    h.Keeps { h with space := h.space.modifyCell a f } := by
  have hfree : (f cell).header.kind ≠ .free := hkind ▸ Space.kind_of_object? hcell
  have hview := hr.valid.object?_modifyCell hcell hfree
  refine hr.withSpace (hr.valid.modifyCell hcell hfree hwords) (fun x cell' hx => ?_)
    fun x cell' hx => ?_
  · rw [hview] at hx
    split at hx
    · cases hx
      exact hmarked.trans (hr.unmarked a cell hcell)
    · exact hr.unmarked x cell' hx
  · by_cases hxa : x = a
    · subst hxa
      cases hcell.symm.trans hx
      exact ⟨f cell, by rw [hview, if_pos rfl], hkind, hwords⟩
    · exact ⟨cell', by rw [hview, if_neg hxa, hx], rfl, rfl⟩

theorem Rested.write (hr : h.Rested) (hcell : h.space.object? a = some cell) (index : Nat)
    (bits : Word) : h.Keeps { h with space := h.space.setWord a index bits } :=
  hr.modifyCell hcell (f := fun cell => cell.setWord index bits)
    (by rw [Cell.header_setWord]) (by rw [Cell.header_setWord]) (by rw [Cell.header_setWord])

/-- A registration that comes back has flagged a live object and attached the action to it, or it was
given something else and has changed nothing. -/
theorem registerFinalizer_cases {v : Value} {action : Finalizer}
    (hrun : Heap.registerFinalizer v action h = .ok () h') :
    (h.isLive v = true ∧ h' = { h with
      space := h.space.modifyHeader v.address (·.setFlag Header.hasFinalizer)
      finalizers := (v.address, action) :: h.finalizers.filter (·.1 != v.address) }) ∨ h' = h := by
  unfold Heap.registerFinalizer at hrun
  by_cases hlive : h.isLive v = true
  · rw [if_pos hlive] at hrun
    cases hrun
    exact .inl ⟨hlive, rfl⟩
  · rw [if_neg hlive] at hrun
    cases hviolation : h.mode.violation ("finalizer for non-object " ++ Text.hex v.address) with
    | error fault =>
      rw [hviolation] at hrun
      cases hrun
    | ok _ =>
      rw [hviolation] at hrun
      cases hrun
      exact .inr rfl

/-- A registration sets a flag at most. -/
theorem Rested.similar_registerFinalizer (hr : h.Rested) {v : Value} {action : Finalizer}
    (hrun : Heap.registerFinalizer v action h = .ok () h') : h.space.Similar h'.space := by
  obtain ⟨hlive, rfl⟩ | rfl := registerFinalizer_cases hrun
  · obtain ⟨cell, hcell⟩ := Option.isSome_iff_exists.mp (isSome_of_isLive hr.valid hlive)
    exact hr.valid.similar_modifyHeader hcell
      (f := fun header => header.setFlag Header.hasFinalizer) rfl rfl
  · exact .refl hr.valid

theorem Rested.registerFinalizer (hr : h.Rested) {v : Value} {action : Finalizer}
    (hrun : Heap.registerFinalizer v action h = .ok () h') : h.Keeps h' := by
  obtain ⟨hlive, rfl⟩ | rfl := registerFinalizer_cases hrun
  · have hsome := isSome_of_isLive hr.valid hlive
    obtain ⟨cell, hcell⟩ := Option.isSome_iff_exists.mp hsome
    have hspace := hr.modifyCell hcell
      (f := fun cell => cell.setHeader (cell.header.setFlag Header.hasFinalizer)) rfl rfl rfl
    refine ⟨⟨⟨hspace.rested.valid, fun entry hentry => ?_, hspace.rested.pending,
      hspace.rested.finalizing⟩, hspace.rested.unmarked⟩, rfl, hspace.objects⟩
    rcases List.mem_cons.mp hentry with rfl | hentry
    · exact hspace.objects.isSome hsome
    · exact hspace.rested.finalizers entry (List.mem_filter.mp hentry).1
  · exact hr.keeps

theorem Rested.takePendingFinalizer (hr : h.Rested) : h.Keeps h.takePendingFinalizer.2 := by
  unfold Heap.takePendingFinalizer
  split
  · exact hr.keeps
  next object action rest hpending =>
    refine ⟨⟨⟨hr.valid, hr.finalizers, fun entry hentry => ?_, fun v hv => ?_⟩, hr.unmarked⟩, rfl,
      .refl _⟩
    · exact hr.pending entry (by rw [hpending]; exact List.mem_cons_of_mem _ hentry)
    · rw [Array.toList_push, List.mem_append, List.mem_singleton] at hv
      rcases hv with hv | rfl
      · exact hr.finalizing v hv
      · exact hr.pending (v, action) (by rw [hpending]; exact List.mem_cons_self)

/-- Nothing new is left when an entry is taken out. -/
theorem mem_removeLast {values : Array Value} {v x : Value} (hx : x ∈ removeLast values v) :
    x ∈ values := by
  unfold removeLast at hx
  split at hx
  next index hfind =>
    have hlt : index < values.size := by
      have hmem := List.mem_of_find?_eq_some hfind
      simpa using hmem
    have hlast : values.back?.getD v ∈ values := by
      rw [Array.back?_eq_getElem?, Array.getElem?_eq_getElem (by omega), Option.getD_some]
      exact Array.getElem_mem _
    have hmem : x ∈ values.setIfInBounds index (values.back?.getD v) := by
      rw [← Array.mem_toList_iff, Array.toList_pop] at hx
      exact Array.mem_toList_iff.mp ((List.dropLast_sublist _).subset hx)
    rcases Array.mem_or_eq_of_mem_setIfInBounds hmem with hmem | rfl
    · exact hmem
    · exact hlast
  · exact hx

theorem Rested.finishFinalizer (hr : h.Rested) (object : Value) :
    h.Keeps (h.finishFinalizer object) := by
  refine ⟨⟨⟨hr.valid, hr.finalizers, hr.pending, fun v hv => ?_⟩, hr.unmarked⟩, rfl, .refl _⟩
  exact hr.finalizing v (Array.mem_toList_iff.mpr (mem_removeLast (Array.mem_toList_iff.mp hv)))

/-- No work takes an object away. -/
theorem Rested.work (hr : h.Rested) (hwork : Work h h') : h.Keeps h' := by
  cases hwork with
  | allocate fresh hkind hrun => exact hr.tryAllocate fresh hkind hrun
  | write hcell _ bits => exact hr.write hcell _ bits
  | register hrun => exact hr.registerFinalizer hrun
  | take => exact hr.takePendingFinalizer
  | finish object => exact hr.finishFinalizer object

end Heap

end Substrate
