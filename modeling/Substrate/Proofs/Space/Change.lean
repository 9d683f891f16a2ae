import Substrate.Proofs.Space.Lookup

/-!
# Changing an object

A change to one object is invisible everywhere else: the other objects, the mappings and the index
stay what they were. This is the frame rule that every write, mark and flag goes through.
-/

namespace Substrate.Space

variable {s : Space} {a c c' i i' j x : Nat} {b : Block} {cell : Cell} {f : Cell → Cell}

/-! ## Pools and blocks -/

theorem block?_modifyPool (s : Space) (c c' i : Nat) (f : Pool → Pool) :
    (s.modifyPool c f).block? c' i
      = if c' = c then (s.pools[c]?.map f).bind (·.blocks[i]?) else s.block? c' i := by
  simp only [block?, modifyPool, Array.getElem?_modify]
  by_cases h : c' = c
  · simp [h]
  · simp [h, Ne.symm h]

theorem block?_modifyBlock (s : Space) (c c' i i' : Nat) (f : Block → Block) :
    (s.modifyPool c (·.modifyBlock i f)).block? c' i'
      = if c' = c ∧ i' = i then (s.block? c i).map f else s.block? c' i' := by
  rw [block?_modifyPool]
  by_cases h : c' = c
  · subst h
    cases hpool : s.pools[c']? with
    | none => simp [block?, hpool]
    | some pool =>
      simp only [if_true, Option.map_some, Option.bind_some, Pool.modifyBlock,
        Array.getElem?_modify, block?, hpool, true_and]
      by_cases hi : i' = i
      · simp [hi]
      · simp [hi, Ne.symm hi]
  · simp [h]

@[simp] theorem blockIndex_modifyCell (s : Space) (a : Nat) (f : Cell → Cell) :
    (s.modifyCell a f).blockIndex = s.blockIndex := by
  unfold modifyCell
  split <;> rfl

@[simp] theorem size_pools_modifyCell (s : Space) (a : Nat) (f : Cell → Cell) :
    (s.modifyCell a f).pools.size = s.pools.size := by
  unfold modifyCell
  split
  · simp [modifyPool]
  · rfl

section Indexed

variable (h : s.blockIndex[blockBase a]? = some (c, i)) (f : Cell → Cell)
include h

/-- A change to a cell changes its block. -/
theorem block?_modifyCell (c' i' : Nat) :
    (s.modifyCell a f).block? c' i'
      = if c' = c ∧ i' = i then (s.block? c i).map (·.modifyCell a f) else s.block? c' i' := by
  simp only [modifyCell, h]
  exact block?_modifyBlock s c c' i i' _

theorem large_modifyCell : (s.modifyCell a f).large = s.large := by
  simp only [modifyCell, h]
  rfl

end Indexed

/-! ## Replacing a block -/

/-- The second space is the first one with another block in place of one of its blocks. -/
structure Replaces (s t : Space) (c i : Nat) (b b' : Block) : Prop where
  old : s.block? c i = some b
  blocks : ∀ c' i', t.block? c' i' = if c' = c ∧ i' = i then some b' else s.block? c' i'
  start : b'.start = b.start
  cellBytes : b'.cellBytes = b.cellBytes
  pools : t.pools.size = s.pools.size
  blockIndex : t.blockIndex = s.blockIndex
  large : t.large = s.large

section Replaces

variable {t : Space} {b' : Block}

/-- Every block of the new space has the place of one of the old space. -/
theorem Replaces.back (h : Replaces s t c i b b') {b₁ : Block} (h₁ : t.block? c' i' = some b₁) :
    ∃ b₀, s.block? c' i' = some b₀ ∧ b₁.start = b₀.start := by
  rw [h.blocks] at h₁
  by_cases heq : c' = c ∧ i' = i
  · rw [if_pos heq] at h₁
    cases h₁
    obtain ⟨rfl, rfl⟩ := heq
    exact ⟨b, h.old, h.start⟩
  · rw [if_neg heq] at h₁
    exact ⟨b₁, h₁, rfl⟩

theorem Replaces.valid (h : Replaces s t c i b b') (hs : s.Valid) (hb' : b'.Valid) : t.Valid := by
  refine ⟨h.pools.trans hs.pools, fun c' i' b₁ h₁ => ?_, fun base c' i' => ?_, ?_, ?_,
    fun a object c' i' b₁ hlarge h₁ => ?_⟩
  · rw [h.blocks] at h₁
    by_cases heq : c' = c ∧ i' = i
    · rw [if_pos heq] at h₁
      cases h₁
      exact ⟨hb', by rw [h.cellBytes, heq.1]; exact (hs.blocks c i b h.old).2⟩
    · rw [if_neg heq] at h₁
      exact hs.blocks c' i' b₁ h₁
  · rw [h.blockIndex, hs.index]
    constructor
    · rintro ⟨b₀, h₀, hstart⟩
      rw [h.blocks]
      by_cases heq : c' = c ∧ i' = i
      · obtain ⟨rfl, rfl⟩ := heq
        obtain rfl : b₀ = b := Option.some.inj (h₀.symm.trans h.old)
        exact ⟨b', if_pos ⟨rfl, rfl⟩, h.start.trans hstart⟩
      · exact ⟨b₀, by rw [if_neg heq]; exact h₀, hstart⟩
    · rintro ⟨b₁, h₁, hstart⟩
      obtain ⟨b₀, h₀, heq⟩ := h.back h₁
      exact ⟨b₀, h₀, heq.symm.trans hstart⟩
  · rw [h.large]
    exact hs.large
  · rw [h.large]
    exact hs.larges
  · rw [h.large] at hlarge
    obtain ⟨b₀, h₀, heq⟩ := h.back h₁
    rw [heq]
    exact hs.apart a object c' i' b₀ hlarge h₀

/-- If the new block differs from the old one in one cell, the spaces differ in that cell. -/
theorem Replaces.cell?_eq (h : Replaces s t c i b b') (hs : s.Valid) (hj : j < b.cells.size)
    (hcells : ∀ k : Nat, b'.cells[k]? = if k = j then some cell else b.cells[k]?) (x : Nat) :
    t.cell? x = if x = b.address j then some cell else s.cell? x := by
  have hpos := (hs.blocks c i b h.old).1.cellBytes_pos
  have hindexed := hs.indexed_address h.old hj
  cases hindex : s.blockIndex[blockBase x]? with
  | none =>
    have hne : x ≠ b.address j := by
      rintro rfl
      rw [hindexed] at hindex
      cases hindex
    rw [cell?_of_not_indexed (by rw [h.blockIndex]; exact hindex), cell?_of_not_indexed hindex,
      h.large, if_neg hne]
  | some entry =>
    obtain ⟨c', i'⟩ := entry
    obtain ⟨b₀, h₀, hstart, -⟩ := hs.index_blockBase.mp hindex
    have hindex' : t.blockIndex[blockBase x]? = some (c', i') := by rw [h.blockIndex]; exact hindex
    by_cases heq : c' = c ∧ i' = i
    · obtain ⟨rfl, rfl⟩ := heq
      obtain rfl : b₀ = b := Option.some.inj (h₀.symm.trans h.old)
      rw [cell?_of_indexed hindex' (by rw [h.blocks, if_pos ⟨rfl, rfl⟩]),
        cell?_of_indexed hindex h.old, Block.indexOf, h.start, h.cellBytes, ← Block.indexOf, hcells]
      by_cases hmod : (x - b₀.start) % b₀.cellBytes = 0
      · have haddress : x = b₀.address (b₀.indexOf x) := by
          rw [Block.address, Block.indexOf, Nat.div_mul_cancel (Nat.dvd_of_mod_eq_zero hmod)]
          omega
        have hiff : b₀.indexOf x = j ↔ x = b₀.address j := by
          rw [← Block.address_inj hpos, ← haddress]
        simp only [if_pos hmod, hiff]
      · have hne : x ≠ b₀.address j := by
          rintro rfl
          exact hmod (b₀.address_mod j)
        rw [if_neg hmod, if_neg hmod, if_neg hne]
    · have hne : x ≠ b.address j := by
        rintro rfl
        cases hindexed.symm.trans hindex
        exact heq ⟨rfl, rfl⟩
      rw [cell?_of_indexed hindex' (by rw [h.blocks, if_neg heq]; exact h₀),
        cell?_of_indexed hindex h₀, if_neg hne]

end Replaces

/-! ## Small objects -/

theorem Replaces.modifyCell (hs : s.Valid) (hb : s.block? c i = some b)
    (hcell : b.cells[j]? = some cell) :
    Replaces s (s.modifyCell (b.address j) f) c i b (b.modifyAt j f) := by
  have hj := (Array.getElem?_eq_some_iff.mp hcell).1
  have hindexed := hs.indexed_address hb hj
  refine ⟨hb, fun c' i' => ?_, rfl, rfl, size_pools_modifyCell s _ f, blockIndex_modifyCell s _ f,
    large_modifyCell hindexed f⟩
  rw [block?_modifyCell hindexed, hb, Option.map_some,
    Block.modifyCell_address (hs.blocks c i b hb).1.cellBytes_pos]

/-! ## Large objects -/

section Large

variable {object : Large} (hs : s.Valid) (hobject : s.large[a]? = some object)
include hs hobject

theorem modifyCell_large :
    s.modifyCell a f
      = { s with large := s.large.modify a fun object => { object with cell := f object.cell } } := by
  simp only [modifyCell, hs.large_not_indexed hobject]

theorem getElem?_large_modifyCell (x : Nat) :
    (s.modifyCell a f).large[x]?
      = if x = a then some { object with cell := f object.cell } else s.large[x]? := by
  rw [modifyCell_large hs hobject]
  simp only [Std.TreeMap.getElem?_modify, Nat.compare_eq_eq]
  by_cases hx : x = a
  · subst hx
    simp [hobject]
  · simp [hx, Ne.symm hx]

theorem cell?_modifyCell_large (x : Nat) :
    (s.modifyCell a f).cell? x = if x = a then some (f object.cell) else s.cell? x := by
  have hblock : ∀ c' i', (s.modifyCell a f).block? c' i' = s.block? c' i' := by
    intro c' i'
    rw [modifyCell_large hs hobject]
    rfl
  cases hindex : s.blockIndex[blockBase x]? with
  | none =>
    rw [cell?_of_not_indexed (by simpa using hindex), cell?_of_not_indexed hindex,
      getElem?_large_modifyCell hs hobject]
    by_cases hx : x = a
    · simp [hx]
    · simp [hx]
  | some entry =>
    obtain ⟨c', i'⟩ := entry
    obtain ⟨b', hb', -⟩ := hs.index_blockBase.mp hindex
    have hne : x ≠ a := by
      rintro rfl
      rw [hs.large_not_indexed hobject] at hindex
      cases hindex
    rw [cell?_of_indexed (by simpa using hindex) ((hblock c' i').trans hb'),
      cell?_of_indexed hindex hb', if_neg hne]

theorem Valid.modifyCell_large (hkind' : (f object.cell).header.kind ≠ .free)
    (hwords : (f object.cell).header.words = object.cell.header.words) :
    (s.modifyCell a f).Valid := by
  have hblock : ∀ c' i', (s.modifyCell a f).block? c' i' = s.block? c' i' := by
    intro c' i'
    rw [Space.modifyCell_large hs hobject]
    rfl
  -- every large object of the new space has the mapping of one of the old space
  have hback : ∀ (x : Nat) (object' : Large), (s.modifyCell a f).large[x]? = some object' →
      ∃ object₀, s.large[x]? = some object₀ ∧ object₀.bytes = object'.bytes ∧ object'.Valid x := by
    intro x object' h
    rw [getElem?_large_modifyCell hs hobject] at h
    by_cases hx : x = a
    · rw [if_pos hx] at h
      cases h
      subst hx
      have hvalid := hs.large x object hobject
      refine ⟨object, hobject, rfl, hvalid.aligned, hvalid.positive, hvalid.bounded, ?_, hkind'⟩
      rw [hwords]
      exact hvalid.fits
    · rw [if_neg hx] at h
      exact ⟨object', h, rfl, hs.large x object' h⟩
  refine ⟨?_, fun c' i' b' h => ?_, fun base c' i' => ?_, fun x object' h => ?_,
    fun x x' l l' h h' hlt => ?_, fun x l c' i' b' h h' => ?_⟩
  · rw [Space.modifyCell_large hs hobject]
    exact hs.pools
  · rw [hblock] at h
    exact hs.blocks c' i' b' h
  · rw [blockIndex_modifyCell, hs.index]
    simp only [hblock]
  · obtain ⟨-, -, -, hvalid⟩ := hback x object' h
    exact hvalid
  · obtain ⟨l₀, hl₀, hbytes, -⟩ := hback x l h
    obtain ⟨l₀', hl₀', -, -⟩ := hback x' l' h'
    rw [← hbytes]
    exact hs.larges x x' l₀ l₀' hl₀ hl₀' hlt
  · obtain ⟨l₀, hl₀, hbytes, -⟩ := hback x l h
    rw [hblock] at h'
    rw [← hbytes]
    exact hs.apart x l₀ c' i' b' hl₀ h'

end Large

/-! ## Any object -/

/-- A change that leaves an object an object of the same size keeps the space valid. -/
theorem Valid.modifyCell (hs : s.Valid) (h : s.object? a = some cell)
    (hkind : (f cell).header.kind ≠ .free)
    (hwords : (f cell).header.words = cell.header.words) : (s.modifyCell a f).Valid := by
  cases hs.object?_eq_some_iff.mp h with
  | small hb hcell hfree haddress =>
    subst haddress
    have hvalid := (hs.blocks _ _ _ hb).1.modifyAt hcell hfree hkind hwords
    exact (Replaces.modifyCell hs hb hcell).valid hs hvalid
  | large hlarge hcell =>
    subst hcell
    exact Valid.modifyCell_large hs hlarge hkind hwords

/-- A change to an object changes no other cell, whether it holds an object or not. -/
theorem Valid.cell?_modifyCell (hs : s.Valid) (h : s.object? a = some cell) (x : Nat) :
    (s.modifyCell a f).cell? x = if x = a then some (f cell) else s.cell? x := by
  cases hs.object?_eq_some_iff.mp h with
  | small hb hcell hfree haddress =>
    subst haddress
    have hj := (Array.getElem?_eq_some_iff.mp hcell).1
    refine (Replaces.modifyCell hs hb hcell).cell?_eq hs hj (fun k => ?_) x
    rw [Block.getElem?_cells_modifyAt, hcell, Option.map_some]
  | large hlarge hcell =>
    subst hcell
    exact cell?_modifyCell_large hs hlarge x

/-- A change to an object is seen at its own address only. -/
theorem Valid.object?_modifyCell (hs : s.Valid) (h : s.object? a = some cell)
    (hkind : (f cell).header.kind ≠ .free) (x : Nat) :
    (s.modifyCell a f).object? x = if x = a then some (f cell) else s.object? x := by
  rw [object?, hs.cell?_modifyCell h]
  by_cases hx : x = a
  · simp [hx, hkind]
  · simp [hx, object?]

/-- A payload word can be written in any object. -/
theorem Valid.setWord (hs : s.Valid) (h : s.object? a = some cell) (index : Nat) (bits : Word) :
    (s.setWord a index bits).Valid := by
  have hheader := Cell.header_setWord cell index bits
  exact hs.modifyCell h (hheader ▸ kind_of_object? h) (congrArg Header.words hheader)

theorem Valid.object?_setWord (hs : s.Valid) (h : s.object? a = some cell) (index : Nat)
    (bits : Word) (x : Nat) : (s.setWord a index bits).object? x
      = if x = a then some (cell.setWord index bits) else s.object? x :=
  hs.object?_modifyCell h ((Cell.header_setWord cell index bits).symm ▸ kind_of_object? h) x

theorem Valid.header_setWord (hs : s.Valid) (h : s.object? a = some cell) (index : Nat) (bits : Word) :
    (s.setWord a index bits).header a = s.header a := by
  rw [header_of_object? ((hs.object?_setWord h index bits a).trans (if_pos rfl)), Cell.header_setWord,
    header_of_object? h]

theorem Valid.word_setWord (hs : s.Valid) (h : s.object? a = some cell) (index : Nat) (bits : Word)
    (i : Nat) : (s.setWord a index bits).word a i = if index = i then bits else s.word a i := by
  rw [word_of_object? ((hs.object?_setWord h index bits a).trans (if_pos rfl)), Cell.word_setWord,
    word_of_object? h]

/-- A change that keeps the size of an object keeps the extents of all objects. -/
theorem Valid.extent_modifyCell (hs : s.Valid) (h : s.object? a = some cell)
    (hkind : (f cell).header.kind ≠ .free)
    (hwords : (f cell).header.words = cell.header.words) (hx : (s.object? x).isSome) :
    (s.modifyCell a f).extent x = s.extent x := by
  obtain ⟨cellx, hcellx⟩ := Option.isSome_iff_exists.mp hx
  have hview := hs.object?_modifyCell h hkind x
  have hheader : ((s.modifyCell a f).header x).words = (s.header x).words := by
    by_cases hxa : x = a
    · subst hxa
      rw [if_pos rfl] at hview
      rw [header_of_object? hview, header_of_object? h, hwords]
    · rw [if_neg hxa, hcellx] at hview
      rw [header_of_object? hview, header_of_object? hcellx]
  simp only [extent, blockIndex_modifyCell, hheader]

end Substrate.Space
