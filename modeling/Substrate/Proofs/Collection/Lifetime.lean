import Substrate.Proofs.Collection.Work

/-!
# The life of a heap

Between collections a client allocates objects, writes to them, attaches finalizers and runs those that
are queued. All of this keeps a heap well-formed, as long as what the client writes can be traced, so
that every collection in the life of a heap finds what it relies on.
-/

namespace Substrate.Heap

variable {h h' : Heap} {a : Nat} {cell : Cell}

/-! ## Spaces -/

/-- In a zeroed object every slot is empty. -/
theorem traceable_adds {s t : Space} (hs : s.Traceable) (h : s.Adds t a cell)
    (hzero : ∀ index, cell.word index = 0) : t.Traceable := by
  have hcases : ∀ x cell', t.object? x = some cell' →
      (∀ index, cell'.word index = 0) ∨ s.object? x = some cell' := by
    intro x cell' hx
    rw [h.view] at hx
    by_cases hxa : x = a
    · rw [if_pos hxa] at hx
      cases hx
      exact .inl hzero
    · rw [if_neg hxa] at hx
      exact .inr hx
  have haccepts : ∀ v, s.Accepts v → t.Accepts v := by
    intro v hv href
    rw [h.view]
    split
    · rfl
    · exact hv href
  refine ⟨fun x cell' hx index hindex => ?_, fun x cell' word hx hword => ?_⟩
  · obtain hzero' | hold := hcases x cell' hx
    · rw [hzero']
      exact fun href => by cases href
    · exact haccepts _ (hs.slots x cell' hold index hindex)
  · obtain hzero' | hold := hcases x cell' hx
    · rw [hzero']
      exact Nat.zero_le _
    · exact hs.lengths x cell' word hold hword

theorem traceable_congr {s t : Space} (h : ∀ x, t.object? x = s.object? x) (hs : s.Traceable) :
    t.Traceable := by
  refine ⟨fun x cell hx index hindex href => ?_, fun x cell word hx hword => ?_⟩
  · rw [h] at hx ⊢
    exact hs.slots x cell hx index hindex href
  · rw [h] at hx
    exact hs.lengths x cell word hx hword

/-! ## Operations -/

theorem object?_new (mode : Mode) (options : HeapOptions) (a : Nat) (cell : Cell) :
    (Heap.new mode options).space.object? a ≠ some cell := by
  intro hcell
  have hmem := ((Ledger.accounts_start options.maxSize).live a).mpr (Option.isSome_of_eq_some hcell)
  cases hmem

theorem wellFormed_new (mode : Mode) (options : HeapOptions) : (Heap.new mode options).WellFormed := by
  have hnone := object?_new mode options
  exact ⟨(Ledger.accounts_start options.maxSize).valid, ⟨fun a cell hcell => absurd hcell (hnone a cell),
    fun a cell word hcell => absurd hcell (hnone a cell)⟩,
    fun a cell hcell => absurd hcell (hnone a cell), List.forall_mem_nil _, List.forall_mem_nil _,
    List.forall_mem_nil _⟩

/-- Allocation gives a reference to a new object or is refused, and never faults. -/
theorem WellFormed.tryAllocate (hw : h.WellFormed) {pages : Pages}
    (fresh : pages.Fresh h.space.Held) {kind : Kind} (hkind : kind.isHeap = true) (words : Nat) :
    ∃ result h', tryAllocate kind words { h with space := { h.space with pages } }
      = .ok result h' ∧ h'.WellFormed := by
  obtain ⟨t, hanswer, ht⟩ | ⟨a, cell, t, hanswer, hadds, -, hzero⟩ :=
    hw.valid.request h.mode fresh hkind words
  · have hrun : Heap.tryAllocate kind words { h with space := { h.space with pages } }
        = .ok none { h with space := t } := by simp only [Heap.tryAllocate, hanswer]
    exact ⟨_, _, hrun, (hw.rested.tryAllocate fresh hkind hrun).rested.wellFormed
      (traceable_congr (ht.object? hw.valid) hw.traceable)⟩
  · have hbytes := allocationSize_eq h.mode (bytes_lt_of_payload (words_lt_of_allocate hanswer))
    obtain ⟨h', hrun, rfl⟩ : ∃ h', Heap.tryAllocate kind words
        { h with space := { h.space with pages } } = .ok (some (.ofAddress a)) h' ∧ h'.space = t :=
      ⟨_, by simp only [Heap.tryAllocate, hanswer, hbytes]; rfl, rfl⟩
    exact ⟨_, h', hrun, (hw.rested.tryAllocate fresh hkind hrun).rested.wellFormed
      (traceable_adds hw.traceable hadds hzero)⟩

/-- A write to the payload of an object, after which everything can be traced. -/
theorem WellFormed.write (hw : h.WellFormed) (hcell : h.space.object? a = some cell)
    (index : Nat) (bits : Word) (ht : (h.space.setWord a index bits).Traceable) :
    ({ h with space := h.space.setWord a index bits } : Heap).WellFormed :=
  (hw.rested.write hcell index bits).rested.wellFormed ht

theorem WellFormed.registerFinalizer (hw : h.WellFormed) {v : Value} {action : Finalizer}
    (hrun : registerFinalizer v action h = .ok () h') : h'.WellFormed :=
  (hw.rested.registerFinalizer hrun).rested.wellFormed
    ((hw.rested.similar_registerFinalizer hrun).traceable hw.traceable)

theorem WellFormed.takePendingFinalizer (hw : h.WellFormed) :
    h.takePendingFinalizer.2.WellFormed := by
  refine hw.rested.takePendingFinalizer.rested.wellFormed ?_
  unfold Heap.takePendingFinalizer
  split <;> exact hw.traceable

theorem WellFormed.finishFinalizer (hw : h.WellFormed) (object : Value) :
    (h.finishFinalizer object).WellFormed :=
  (hw.rested.finishFinalizer object).rested.wellFormed hw.traceable

/-- The heaps at the end of a run. -/
inductive Reachable : Heap → Prop where
  | new (mode : Mode) (options : HeapOptions) : Reachable (.new mode options)
  | allocate {h h' : Heap} {pages : Pages} {kind : Kind} {words : Nat} {result : Option Value}
      (h₀ : Reachable h) (fresh : pages.Fresh h.space.Held) (hkind : kind.isHeap = true)
      (hrun : Heap.tryAllocate kind words { h with space := { h.space with pages } }
        = .ok result h') : Reachable h'
  | write {h : Heap} {a index : Nat} {cell : Cell} (h₀ : Reachable h)
      (hcell : h.space.object? a = some cell) (hindex : index < cell.header.words) (bits : Word)
      (ht : (h.space.setWord a index bits).Traceable) :
      Reachable { h with space := h.space.setWord a index bits }
  | register {h h' : Heap} {v : Value} {action : Finalizer} (h₀ : Reachable h)
      (hrun : Heap.registerFinalizer v action h = .ok () h') : Reachable h'
  | take {h : Heap} (h₀ : Reachable h) : Reachable h.takePendingFinalizer.2
  | finish {h : Heap} (h₀ : Reachable h) (object : Value) : Reachable (h.finishFinalizer object)
  | collect {h h' : Heap} {calls : List RootCall} {collection : Collection} (h₀ : Reachable h)
      (hcalls : ∀ call ∈ calls, call.Permitted h.space)
      (hrun : Heap.collect (RootCall.runAll h.mode calls) h = .ok ((), collection) h') :
      Reachable h'

/-- Heaps are well-formed all their lives. -/
theorem Reachable.wellFormed (hr : Reachable h) : h.WellFormed := by
  induction hr with
  | new mode options => exact wellFormed_new mode options
  | @allocate _ _ _ _ words _ _ fresh hkind hrun ih =>
    obtain ⟨result, h', hrun', hw⟩ := ih.tryAllocate fresh hkind words
    cases hrun.symm.trans hrun'
    exact hw
  | write _ hcell _ bits ht ih => exact ih.write hcell _ bits ht
  | register _ hrun ih => exact ih.registerFinalizer hrun
  | take _ ih => exact ih.takePendingFinalizer
  | finish _ object ih => exact ih.finishFinalizer object
  | collect _ hcalls hrun ih =>
    obtain ⟨collection, h', hrun', hsurvives⟩ := ih.collect hcalls
    cases hrun.symm.trans hrun'
    exact hsurvives.wellFormed

end Substrate.Heap
