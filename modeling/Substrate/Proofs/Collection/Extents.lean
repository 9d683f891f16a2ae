import Substrate.Proofs.Collection.Lifetime

/-!
# Extents over time

How far an object extends depends on the block that it is in. An allocation leaves every block where it
is, and a sweep every block that still has an object in it. So the extent of an object stays the same, and
an address inside an object leads there as long as there is the object.
-/

namespace Substrate

namespace Space

variable {s t u : Space} {a c x : Nat} {interior : Bool} {cell cell' : Cell}

/-! ## Allocations -/

/-- The mappings of the first space are mappings of the second, too. -/
structure Enlarges (s t : Space) : Prop where
  blocks : ∀ c i b, s.block? c i = some b → ∃ b', t.block? c i = some b' ∧ b'.start = b.start
  large : ∀ a : Nat, (s.large[a]?).isSome → (t.large[a]?).isSome

theorem Enlarges.refl (s : Space) : Enlarges s s := ⟨fun _ _ b hb => ⟨b, hb, rfl⟩, fun _ => id⟩

theorem Enlarges.trans (h : Enlarges s t) (h' : Enlarges t u) : Enlarges s u := by
  refine ⟨fun c i b hb => ?_, fun a ha => h'.large a (h.large a ha)⟩
  obtain ⟨b₁, hb₁, hstart₁⟩ := h.blocks c i b hb
  obtain ⟨b₂, hb₂, hstart₂⟩ := h'.blocks c i b₁ hb₁
  exact ⟨b₂, hb₂, hstart₂.trans hstart₁⟩

theorem enlarges_takeCell (s : Space) (c : Nat) : Enlarges s (s.takeCell c).2 := by
  unfold takeCell
  split
  · exact .refl s
  next pool _ =>
    refine ⟨fun c' i' b hb => ?_, fun _ => id⟩
    dsimp only
    rw [block?_takeAt]
    split
    next heq =>
      rw [heq.1, heq.2] at hb
      exact ⟨b.dropFirst, by rw [hb, Option.map_some], Block.start_dropFirst b⟩
    · exact ⟨b, hb, rfl⟩

theorem enlarges_addBlock (s : Space) (c : Nat) (b : Block) : Enlarges s (s.addBlock c b) := by
  refine ⟨fun c' i' b' hb => ?_, fun _ => id⟩
  cases hpool : s.pools[c]? with
  | none =>
    refine ⟨b', ?_, rfl⟩
    have hc : c ≠ c' := by
      rintro rfl
      simp [block?, hpool] at hb
    simpa [addBlock, block?, Array.getElem?_modify, hc] using hb
  | some pool =>
    rw [block?_addBlock hpool]
    split
    next heq =>
      have hlt : i' < pool.blocks.size := by
        rw [heq.1, block?, hpool, Option.bind_some] at hb
        exact (Array.getElem?_eq_some_iff.mp hb).1
      omega
    · exact ⟨b', hb, rfl⟩

theorem enlarges_modifyCell (s : Space) (a : Nat) (f : Cell → Cell) :
    Enlarges s (s.modifyCell a f) := by
  cases hindex : s.blockIndex[blockBase a]? with
  | none =>
    simp only [modifyCell, hindex]
    refine ⟨fun _ _ b hb => ⟨b, hb, rfl⟩, fun x hx => ?_⟩
    simp only [Std.TreeMap.getElem?_modify]
    split
    next heq =>
      rw [Nat.compare_eq_eq.mp heq, Option.isSome_map]
      exact hx
    · exact hx
  | some entry =>
    refine ⟨fun c' i' b hb => ?_, fun x hx => by rwa [large_modifyCell hindex]⟩
    rw [block?_modifyCell hindex]
    split
    next heq =>
      rw [heq.1, heq.2] at hb
      exact ⟨b.modifyCell a f, by rw [hb, Option.map_some], Block.start_modifyCell b a f⟩
    · exact ⟨b, hb, rfl⟩

theorem enlarges_allocateSmall (mode : Mode) (s : Space) (c : Nat) :
    Enlarges s (s.allocateSmall mode c).2 := by
  have htake := enlarges_takeCell s c
  unfold allocateSmall
  split
  next heq =>
    rw [heq] at htake
    exact htake
  next t heq =>
    rw [heq] at htake
    have hpages : ∀ pages, Enlarges s { t with pages } := fun pages =>
      htake.trans ⟨fun _ _ b hb => ⟨b, hb, rfl⟩, fun _ => id⟩
    repeat' split
    · exact htake
    · exact htake
    · exact hpages _
    · exact hpages _
    · exact (hpages _).trans (enlarges_addBlock _ _ _)

theorem enlarges_allocateLarge (mode : Mode) (s : Space) (bytes : Nat) :
    Enlarges s (s.allocateLarge mode bytes).2 := by
  unfold allocateLarge
  repeat' split
  · exact .refl s
  · exact .refl s
  · exact .refl s
  · exact ⟨fun _ _ b hb => ⟨b, hb, rfl⟩, fun _ => id⟩
  · refine ⟨fun _ _ b hb => ⟨b, hb, rfl⟩, fun x hx => ?_⟩
    simp only [Std.TreeMap.getElem?_insert]
    split
    · rfl
    · exact hx

/-- An allocation adds mappings and takes none away. -/
theorem enlarges_allocate (mode : Mode) (s : Space) (kind : Kind) (words : Nat) :
    Enlarges s (s.allocate mode kind words).2 := by
  have hbytes : Enlarges s (s.allocateBytes mode ((1 + words) * wordBytes)).2 := by
    unfold allocateBytes
    split
    · exact enlarges_allocateSmall mode s _
    · exact enlarges_allocateLarge mode s _
  unfold allocate
  split
  · exact .refl s
  · split
    next heq =>
      rw [heq] at hbytes
      exact hbytes.trans (enlarges_modifyCell _ _ _)
    next heq => exact heq ▸ hbytes

/-- An object that keeps its size keeps its extent. -/
theorem Enlarges.extent (h : Enlarges s t) (hs : s.Valid) (ht : t.Valid)
    (hcell : s.object? a = some cell) (hcell' : t.object? a = some cell')
    (hwords : cell'.header.words = cell.header.words) : t.extent a = s.extent a := by
  cases hs.object?_eq_some_iff.mp hcell with
  | @small c i j b hb hj _ haddress =>
    have hindex : s.blockIndex[blockBase a]? = some (c, i) :=
      haddress ▸ hs.indexed_address hb (Array.getElem?_eq_some_iff.mp hj).1
    obtain ⟨b₀, hb₀, hstart⟩ := hs.index_blockBase.mp hindex
    obtain ⟨b', hb', heq⟩ := h.blocks c i b₀ hb₀
    have hindex' : t.blockIndex[blockBase a]? = some (c, i) :=
      ht.index_blockBase.mpr ⟨b', hb', heq ▸ hstart⟩
    simp only [Space.extent, hindex, hindex']
  | large hobject _ =>
    obtain ⟨object, hobject'⟩ := Option.isSome_iff_exists.mp
      (h.large a (Option.isSome_of_eq_some hobject))
    simp only [Space.extent, hs.large_not_indexed hobject, ht.large_not_indexed hobject',
      header_of_object? hcell, header_of_object? hcell', hwords]

/-! ## Searches -/

/-- An address that leads to an object leads there in another space if the object extends as far
there. -/
theorem Valid.findObject?_of_extent (hs : s.Valid) (ht : t.Valid)
    (hfind : s.findObject? x interior = some a) (hobject : (t.object? a).isSome)
    (hextent : t.extent a = s.extent a) : t.findObject? x interior = some a := by
  cases interior with
  | false =>
    obtain ⟨rfl, -⟩ := hs.findObject?_exact.mp hfind
    exact ht.findObject?_exact.mpr ⟨rfl, hobject⟩
  | true =>
    obtain ⟨-, hcontains⟩ := hs.findObject?_interior.mp hfind
    exact ht.findObject?_interior.mpr ⟨hobject, by rwa [hextent]⟩

/-- The address of an object leads to it. -/
theorem Valid.findObject?_self (hs : s.Valid) (hobject : (s.object? a).isSome) :
    s.findObject? a interior = some a := by
  cases interior with
  | false => exact hs.findObject?_exact.mpr ⟨rfl, hobject⟩
  | true =>
    obtain ⟨cell, hcell⟩ := Option.isSome_iff_exists.mp hobject
    exact hs.findObject?_interior.mpr ⟨hobject, hs.contains_self hcell⟩

/-! ## Sweeps -/

/-- What a sweep keeps extends as far as before. -/
theorem Valid.extent_sweep (hs : s.Valid) (hobject : (s.sweep.2.object? a).isSome) :
    s.sweep.2.extent a = s.extent a := by
  obtain ⟨cell', hcell'⟩ := Option.isSome_iff_exists.mp hobject
  have hold := hcell'
  rw [hs.object?_sweep] at hold
  obtain ⟨cell, hfilter, rfl⟩ := Option.map_eq_some_iff.mp hold
  have hcell := (Option.filter_eq_some_iff.mp hfilter).1
  cases hs.sweep.object?_eq_some_iff.mp hcell' with
  | @small c i j b hb hj _ haddress =>
    have hindex : s.sweep.2.blockIndex[blockBase a]? = some (c, i) :=
      haddress ▸ hs.sweep.indexed_address hb (Array.getElem?_eq_some_iff.mp hj).1
    obtain ⟨b', hb', hstart⟩ := hs.sweep.index_blockBase.mp hindex
    obtain ⟨i₀, b₀, hb₀, rfl⟩ := block_of_sweep hb'
    have hindex₀ : s.blockIndex[blockBase a]? = some (c, i₀) :=
      hs.index_blockBase.mpr ⟨b₀, hb₀, hstart⟩
    simp only [extent, hindex, hindex₀]
  | large hobject' _ =>
    obtain ⟨object, hlarge, -, -⟩ := large_of_sweep hobject'
    simp only [extent, hs.large_not_indexed hlarge, hs.sweep.large_not_indexed hobject',
      header_of_object? hcell, header_of_object? hcell']
    rfl

end Space

namespace Heap

variable {h h' : Heap} {a x : Nat} {interior : Bool}

/-- An address that leads to an object leads there after an allocation. -/
theorem Rested.found_after_allocation (hr : h.Rested) {pages : Pages}
    (fresh : pages.Fresh h.space.Held) {kind : Kind} (hkind : kind.isHeap = true) {words : Nat}
    {result : Option Value}
    (hrun : Heap.tryAllocate kind words { h with space := { h.space with pages } }
      = .ok result h') (hfind : h.space.findObject? x interior = some a) :
    h'.space.findObject? x interior = some a := by
  have hkeeps := hr.tryAllocate fresh hkind hrun
  have henlarges : Space.Enlarges h.space h'.space := by
    have hpages : Space.Enlarges h.space { h.space with pages } :=
      ⟨fun _ _ b hb => ⟨b, hb, rfl⟩, fun _ => id⟩
    have hallocate := hpages.trans
      (Space.enlarges_allocate h.mode { h.space with pages } kind words)
    unfold Heap.tryAllocate at hrun
    dsimp only at hrun
    split at hrun
    next heq => cases hrun
    next heq =>
      cases hrun
      rwa [heq] at hallocate
    next heq =>
      split at hrun
      · cases hrun
      · cases hrun
        rwa [heq] at hallocate
  obtain ⟨cell, hcell⟩ := Option.isSome_iff_exists.mp (hr.valid.isSome_of_findObject? hfind)
  obtain ⟨cell', hcell', -, hwords⟩ := hkeeps.objects a cell hcell
  exact hr.valid.findObject?_of_extent hkeeps.rested.valid hfind
    (Option.isSome_of_eq_some hcell')
    (henlarges.extent hr.valid hkeeps.rested.valid hcell hcell' hwords)

/-- An address that leads to an object leads there after a collection that the object survives. -/
theorem WellFormed.found_after_collection (hw : h.WellFormed) {calls : List RootCall}
    (hcalls : ∀ call ∈ calls, call.Permitted h.space) {collection : Collection}
    (hrun : Heap.collect (RootCall.runAll h.mode calls) h = .ok ((), collection) h')
    (hfind : h.space.findObject? x interior = some a) (hobject : (h'.space.object? a).isSome) :
    h'.space.findObject? x interior = some a := by
  obtain ⟨m, hmarked, hempty, htraced⟩ := hw.markReachable hcalls
  obtain ⟨_, m', -, hqueued, -, htraced'⟩ :=
    hw.queueUnreached hempty htraced (k := { h with space := .vacant }) rfl
  have hspace : h'.space = m'.space.sweep.2 := by
    cases hrun.symm.trans (collect_eq hmarked hqueued)
    rfl
  rw [hspace] at hobject ⊢
  have hvalid := htraced'.similar.valid
  rw [← htraced'.similar.found] at hfind
  exact hvalid.findObject?_of_extent hvalid.sweep hfind hobject (hvalid.extent_sweep hobject)

end Heap

end Substrate
