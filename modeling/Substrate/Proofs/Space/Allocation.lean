import Substrate.Proofs.Space.Change

/-!
# Allocation

A new object is taken from the free list of a block, from a new block, or from a mapping of its own.
Each way adds one object to the space, zeroed and at an address where none was, and leaves all others
alone; a refusal adds nothing. As long as the system hands out memory that nobody holds, no allocation
faults.
-/

namespace Substrate

theorem Header.new_eq {kind : Kind} (h : kind.isHeap = true) (words : Nat) :
    Header.new kind words = ⟨kind, false, 0, words⟩ := by
  rw [Header.new, Kind.ofHeaderByte_code h]

theorem Header.kind_new_ne_free {kind : Kind} (h : kind.isHeap = true) (words : Nat) :
    (Header.new kind words).kind ≠ .free := by
  rw [Header.new_eq h]
  rintro rfl
  cases h

namespace Space

variable {s t : Space} {a c i j x : Nat} {b : Block} {cell : Cell} {header : Header}

/-- The second space has one object more than the first one. -/
structure Adds (s t : Space) (a : Nat) (cell : Cell) : Prop where
  valid : t.Valid
  absent : s.object? a = none
  view : ∀ x, t.object? x = if x = a then some cell else s.object? x

theorem Adds.object?_new (h : Adds s t a cell) : t.object? a = some cell := by
  rw [h.view, if_pos rfl]

/-- What was there before is something else, and it is there as it was. -/
theorem Adds.object?_old (h : Adds s t a cell) {old : Cell} (hold : s.object? x = some old) :
    t.object? x = some old := by
  have hne : x ≠ a := by
    rintro rfl
    cases hold.symm.trans h.absent
  rw [h.view, if_neg hne, hold]

theorem Adds.new_or_old (h : Adds s t a cell) {found : Cell} (hfound : t.object? x = some found) :
    x = a ∧ found = cell ∨ s.object? x = some found := by
  rw [h.view] at hfound
  by_cases hx : x = a
  · rw [if_pos hx] at hfound
    exact .inl ⟨hx, (Option.some.inj hfound).symm⟩
  · rw [if_neg hx] at hfound
    exact .inr hfound

/-! ## Nothing new -/

/-- Two spaces with the same memory. -/
structure Same (s t : Space) : Prop where
  pools : t.pools.size = s.pools.size
  blocks : ∀ c i, t.block? c i = s.block? c i
  blockIndex : t.blockIndex = s.blockIndex
  large : t.large = s.large

theorem Same.valid (h : Same s t) (hs : s.Valid) : t.Valid := by
  refine ⟨h.pools.trans hs.pools, ?_, ?_, ?_, ?_, ?_⟩
  · simpa only [h.blocks] using hs.blocks
  · simpa only [h.blocks, h.blockIndex] using hs.index
  · simpa only [h.large] using hs.large
  · simpa only [h.large] using hs.larges
  · simpa only [h.blocks, h.large] using hs.apart

theorem Same.home (h : Same s t) : t.Home x cell ↔ s.Home x cell := by
  constructor
  · rintro (⟨hb, hcell, hkind, hx⟩ | ⟨hobject, hcell⟩)
    · exact .small ((h.blocks _ _).symm.trans hb) hcell hkind hx
    · exact .large (h.large ▸ hobject) hcell
  · rintro (⟨hb, hcell, hkind, hx⟩ | ⟨hobject, hcell⟩)
    · exact .small ((h.blocks _ _).trans hb) hcell hkind hx
    · exact .large (h.large ▸ hobject) hcell

theorem Same.object? (h : Same s t) (hs : s.Valid) (x : Nat) : t.object? x = s.object? x := by
  ext cell
  rw [(h.valid hs).object?_eq_some_iff, hs.object?_eq_some_iff, h.home]

theorem Same.trans {u : Space} (h : Same s t) (h' : Same t u) : Same s u :=
  ⟨h'.pools.trans h.pools, fun c i => (h'.blocks c i).trans (h.blocks c i),
    h'.blockIndex.trans h.blockIndex, h'.large.trans h.large⟩

theorem Same.adds {u : Space} (h : Same s t) (hs : s.Valid) (h' : Adds t u a cell) :
    Adds s u a cell := by
  refine ⟨h'.valid, (h.object? hs a).symm.trans h'.absent, fun x => ?_⟩
  rw [h'.view, h.object? hs]

theorem Same.pages (s : Space) (pages : Pages) : Same s { s with pages } :=
  ⟨rfl, fun _ _ => rfl, rfl, rfl⟩

theorem Same.held (h : Same s t) {r : Region} : t.Held r ↔ s.Held r := by
  constructor
  · rintro (hb | hobject)
    · exact .block ((h.blocks _ _).symm.trans hb)
    · exact .large (h.large ▸ hobject)
  · rintro (hb | hobject)
    · exact .block ((h.blocks _ _).trans hb)
    · exact .large (h.large ▸ hobject)

/-- There is no object in a region that is apart from all that the space holds. -/
theorem Valid.object?_eq_none (hs : s.Valid) {r : Region}
    (hapart : ∀ r', s.Held r' → r.stop ≤ r'.start ∨ r'.stop ≤ r.start) (hx : r.contains x) :
    s.object? x = none := by
  cases hcell : s.object? x with
  | none => rfl
  | some cell =>
    obtain ⟨-, -, r', hheld, hstart, hstop⟩ := hs.extent_held hcell
    have hself := Region.contains_iff.mp (hs.contains_self hcell)
    have hin := Region.contains_iff.mp hx
    have := hapart r' hheld
    omega

/-! ## A new block -/

/-- The second space is the first one with one block more. -/
structure Grows (s t : Space) (c i : Nat) (b : Block) : Prop where
  absent : s.block? c i = none
  blocks : ∀ c' i', t.block? c' i' = if c' = c ∧ i' = i then some b else s.block? c' i'
  pools : t.pools.size = s.pools.size
  blockIndex : t.blockIndex = s.blockIndex.insert b.start (c, i)
  large : t.large = s.large

section Grows

variable (h : Grows s t c i b) (hs : s.Valid)
  (hapart : ∀ r, s.Held r → b.start + blockBytes ≤ r.start ∨ r.stop ≤ b.start)
include h

/-- The blocks that there were keep their places. -/
theorem Grows.old {c' i' : Nat} {b' : Block} (hb' : s.block? c' i' = some b') :
    t.block? c' i' = some b' := by
  have hne : ¬ (c' = c ∧ i' = i) := by
    rintro ⟨rfl, rfl⟩
    rw [h.absent] at hb'
    cases hb'
  rw [h.blocks, if_neg hne, hb']

/-- Every block is the new one or was there before. -/
theorem Grows.cases {c' i' : Nat} {b' : Block} (hb' : t.block? c' i' = some b') :
    c' = c ∧ i' = i ∧ b' = b ∨ s.block? c' i' = some b' := by
  rw [h.blocks] at hb'
  by_cases heq : c' = c ∧ i' = i
  · rw [if_pos heq] at hb'
    exact .inl ⟨heq.1, heq.2, (Option.some.inj hb').symm⟩
  · rw [if_neg heq] at hb'
    exact .inr hb'

include hs hapart

theorem Grows.valid (hb : b.Valid) (hclass : b.cellBytes = classBytes c) : t.Valid := by
  refine ⟨h.pools.trans hs.pools, fun c' i' b' hb' => ?_, fun base c' i' => ?_, ?_, ?_,
    fun a object c' i' b' hlarge hb' => ?_⟩
  · obtain ⟨rfl, -, rfl⟩ | hold := h.cases hb'
    · exact ⟨hb, hclass⟩
    · exact hs.blocks c' i' b' hold
  · rw [h.blockIndex, Std.TreeMap.getElem?_insert]
    by_cases hbase : b.start = base
    · subst hbase
      simp only [Nat.compare_eq_eq, if_true, Option.some.injEq, Prod.mk.injEq]
      constructor
      · rintro ⟨rfl, rfl⟩
        exact ⟨b, by rw [h.blocks, if_pos ⟨rfl, rfl⟩], rfl⟩
      · rintro ⟨b', hb', hstart⟩
        obtain ⟨rfl, rfl, -⟩ | hold := h.cases hb'
        · exact ⟨rfl, rfl⟩
        · have := hapart _ (.block hold)
          simp only [blockBytes] at this
          omega
    · simp only [Nat.compare_eq_eq, if_neg hbase, hs.index]
      constructor
      · rintro ⟨b', hb', hstart⟩
        exact ⟨b', h.old hb', hstart⟩
      · rintro ⟨b', hb', hstart⟩
        obtain ⟨-, -, rfl⟩ | hold := h.cases hb'
        · exact absurd hstart hbase
        · exact ⟨b', hold, hstart⟩
  · simpa only [h.large] using hs.large
  · simpa only [h.large] using hs.larges
  · rw [h.large] at hlarge
    obtain ⟨-, -, rfl⟩ | hold := h.cases hb'
    · exact (hapart _ (.large hlarge)).symm
    · exact hs.apart a object c' i' b' hlarge hold

/-- If the new block holds one object, the space has that object more. -/
theorem Grows.adds (hb : b.Valid) (hclass : b.cellBytes = classBytes c)
    (hcell : b.cells[j]? = some cell) (hkind : cell.header.kind ≠ .free)
    (hfree : ∀ (k : Nat) (cell' : Cell), k ≠ j → b.cells[k]? = some cell' →
      cell'.header.kind = .free) :
    Adds s t (b.address j) cell := by
  have ht := h.valid hs hapart hb hclass
  have hnew : t.block? c i = some b := by rw [h.blocks, if_pos ⟨rfl, rfl⟩]
  have hmem := ht.address_mem hnew (Array.getElem?_eq_some_iff.mp hcell).1
  have hpos := hb.cellBytes_pos
  have habsent : s.object? (b.address j) = none :=
    hs.object?_eq_none (r := ⟨b.start, b.start + blockBytes⟩) hapart
      (Region.contains_iff.mpr ⟨hmem.1, by show _ < b.start + blockBytes; omega⟩)
  refine ⟨ht, habsent, fun x => ?_⟩
  have hhome : t.object? (b.address j) = some cell :=
    ht.object?_eq_some_iff.mpr (.small hnew hcell hkind rfl)
  by_cases hx : x = b.address j
  · rw [if_pos hx, hx, hhome]
  · rw [if_neg hx]
    ext cell'
    rw [ht.object?_eq_some_iff, hs.object?_eq_some_iff]
    constructor
    · rintro (⟨hb', hcell', hkind', rfl⟩ | ⟨hlarge, heq⟩)
      · obtain ⟨-, -, rfl⟩ | hold := h.cases hb'
        · exact absurd (hfree _ _ (fun heq => hx (heq ▸ rfl)) hcell') hkind'
        · exact .small hold hcell' hkind' rfl
      · exact .large (h.large ▸ hlarge) heq
    · rintro (⟨hb', hcell', hkind', rfl⟩ | ⟨hlarge, heq⟩)
      · exact .small (h.old hb') hcell' hkind' rfl
      · exact .large (h.large ▸ hlarge) heq

end Grows

/-! ## A mapping of its own -/

section Mapping

variable {object : Large}

/-- A large object in a mapping that nobody holds keeps the space valid. -/
theorem Valid.with_large (hs : s.Valid) (hobject : object.Valid a)
    (hapart : ∀ r, s.Held r → a + object.bytes ≤ r.start ∨ r.stop ≤ a)
    (hblocks : ∀ c i, t.block? c i = s.block? c i) (hpools : t.pools.size = s.pools.size)
    (hindex : t.blockIndex = s.blockIndex)
    (hlarge : ∀ x : Nat, t.large[x]? = if x = a then some object else s.large[x]?) : t.Valid := by
  have hcases : ∀ (x : Nat) (object' : Large), t.large[x]? = some object' →
      x = a ∧ object' = object ∨ s.large[x]? = some object' := by
    intro x object' hx
    rw [hlarge] at hx
    by_cases hxa : x = a
    · rw [if_pos hxa] at hx
      exact .inl ⟨hxa, (Option.some.inj hx).symm⟩
    · rw [if_neg hxa] at hx
      exact .inr hx
  refine ⟨hpools.trans hs.pools, ?_, ?_, fun x object' hx => ?_,
    fun x x' object₁ object₂ hx hx' hlt => ?_, fun x object' c i b hx hb => ?_⟩
  · simpa only [hblocks] using hs.blocks
  · simpa only [hblocks, hindex] using hs.index
  · obtain ⟨rfl, rfl⟩ | hold := hcases x object' hx
    · exact hobject
    · exact hs.large x object' hold
  · obtain ⟨rfl, rfl⟩ | hold := hcases x object₁ hx
    · obtain ⟨rfl, -⟩ | hold' := hcases x' object₂ hx'
      · omega
      · have := hapart _ (.large hold')
        simp only at this
        omega
    · obtain ⟨rfl, rfl⟩ | hold' := hcases x' object₂ hx'
      · have := hapart _ (.large hold)
        simp only at this
        omega
      · exact hs.larges x x' object₁ object₂ hold hold' hlt
  · rw [hblocks] at hb
    obtain ⟨rfl, rfl⟩ | hold := hcases x object' hx
    · exact hapart _ (.block hb)
    · exact hs.apart x object' c i b hold hb

/-- It is one object more. -/
theorem Valid.adds_large (hs : s.Valid) (hobject : object.Valid a)
    (hapart : ∀ r, s.Held r → a + object.bytes ≤ r.start ∨ r.stop ≤ a)
    (hblocks : ∀ c i, t.block? c i = s.block? c i) (hpools : t.pools.size = s.pools.size)
    (hindex : t.blockIndex = s.blockIndex)
    (hlarge : ∀ x : Nat, t.large[x]? = if x = a then some object else s.large[x]?) :
    Adds s t a object.cell := by
  have ht := hs.with_large hobject hapart hblocks hpools hindex hlarge
  have hpos : 0 < object.bytes := by
    have := hobject.fits
    simp only [wordBytes] at this
    omega
  have habsent : s.object? a = none :=
    hs.object?_eq_none (r := ⟨a, a + object.bytes⟩) hapart
      (Region.contains_iff.mpr ⟨Nat.le_refl a, Nat.lt_add_of_pos_right hpos⟩)
  refine ⟨ht, habsent, fun x => ?_⟩
  by_cases hx : x = a
  · subst hx
    rw [if_pos rfl]
    exact ht.object?_eq_some_iff.mpr (.large (by rw [hlarge, if_pos rfl]) rfl)
  · rw [if_neg hx]
    ext cell'
    rw [ht.object?_eq_some_iff, hs.object?_eq_some_iff]
    constructor
    · rintro (⟨hb, hcell, hkind, hx'⟩ | ⟨hobject', heq⟩)
      · exact .small ((hblocks _ _).symm.trans hb) hcell hkind hx'
      · rw [hlarge, if_neg hx] at hobject'
        exact .large hobject' heq
    · rintro (⟨hb, hcell, hkind, hx'⟩ | ⟨hobject', heq⟩)
      · exact .small ((hblocks _ _).trans hb) hcell hkind hx'
      · exact .large (by rw [hlarge, if_neg hx]; exact hobject') heq

end Mapping

/-! ## A cell of a block there is -/

/-- A free cell that becomes an object is one object more. -/
theorem Replaces.adds (hs : s.Valid) (hfree : b.free ≠ 0) (hkind : header.kind ≠ .free)
    (hfits : (1 + header.words) * wordBytes ≤ b.cellBytes)
    (h : Replaces s t c i b (b.take header)) :
    ∃ cell, Adds s t b.free cell ∧ cell.header = header ∧ ∀ j, cell.word j = 0 := by
  have hb := (hs.blocks c i b h.old).1
  obtain ⟨j, old, haddress, hold, hkindOld⟩ := hb.first hfree
  have hj := (Array.getElem?_eq_some_iff.mp hold).1
  have hcells := Block.getElem?_cells_take hb header haddress hold
  have hview := h.cell?_eq hs hj hcells
  refine ⟨(old.setWord 0 0).setHeader header, ⟨h.valid hs (hb.take hfree hkind hfits), ?_,
    fun x => ?_⟩, rfl, fun k => ?_⟩
  · rw [object?, haddress, hs.cell?_address h.old hj, hold]
    simp [hkindOld]
  · rw [object?, hview, haddress]
    by_cases hx : x = b.address j
    · simp [hx, hkind]
    · simp [hx, object?]
  · cases k with
    | zero => simp
    | succ k => simpa using hb.cleared j old hold hkindOld k

theorem block?_takeAt (s : Space) (c c' i i' : Nat) :
    (s.modifyPool c (Pool.takeAt i)).block? c' i'
      = if c' = c ∧ i' = i then (s.block? c i).map Block.dropFirst else s.block? c' i' := by
  rw [← block?_modifyBlock, block?_modifyPool, block?_modifyPool]
  cases s.pools[c]? <;> rfl

theorem pages_takeCell (s : Space) (c : Nat) : (s.takeCell c).2.pages = s.pages := by
  unfold takeCell
  split <;> rfl

/-- A pool gives the first free cell of its current block, or nothing and stays as it is. -/
theorem Valid.takeCell (hs : s.Valid) (hc : c < sizeClasses.length) :
    (∃ t, s.takeCell c = (none, t) ∧ Same s t) ∨
      ∃ i b t, s.takeCell c = (some b.free, t) ∧ b.free ≠ 0 ∧
        ∀ header, Replaces s (t.modifyHeader b.free fun _ => header) c i b (b.take header) := by
  obtain ⟨pool, hpool⟩ : ∃ pool, s.pools[c]? = some pool :=
    ⟨_, Array.getElem?_eq_getElem (by rw [hs.pools]; exact hc)⟩
  have htake : s.takeCell c = ((s.block? c pool.position).bind Block.next?,
      s.modifyPool c (Pool.takeAt pool.position)) := by
    simp only [Space.takeCell, block?, hpool, Option.bind_some]
  have hblocks := block?_takeAt s c (i := pool.position)
  have hsize : (s.modifyPool c (Pool.takeAt pool.position)).pools.size = s.pools.size := by
    simp [modifyPool]
  by_cases hnext : (s.block? c pool.position).bind Block.next? = none
  · refine .inl ⟨_, by rw [htake, hnext], hsize, fun c' i' => ?_, rfl, rfl⟩
    rw [hblocks]
    by_cases heq : c' = c ∧ i' = pool.position
    · rw [if_pos heq, heq.1, heq.2]
      cases hb : s.block? c pool.position with
      | none => rfl
      | some b =>
        have hfree : b.free = 0 := by simpa [hb, Block.next?] using hnext
        rw [Option.map_some, Block.dropFirst_of_free_eq_zero hfree]
    · rw [if_neg heq]
  · obtain ⟨a, ha⟩ := Option.ne_none_iff_exists'.mp hnext
    obtain ⟨b, hb, hfirst⟩ := Option.bind_eq_some_iff.mp ha
    obtain ⟨hfree, rfl⟩ := Block.next?_eq_some.mp hfirst
    refine .inr ⟨pool.position, b, _, by rw [htake, ha], hfree, fun header => ?_⟩
    obtain ⟨j, cell, haddress, hcell, -⟩ := (hs.blocks c _ b hb).1.first hfree
    have hindexed : (s.modifyPool c (Pool.takeAt pool.position)).blockIndex[blockBase b.free]?
        = some (c, pool.position) := by
      rw [haddress]
      exact hs.indexed_address hb (Array.getElem?_eq_some_iff.mp hcell).1
    refine ⟨hb, fun c' i' => ?_, by simp, by simp, (size_pools_modifyCell _ _ _).trans hsize,
      blockIndex_modifyCell _ _ _, large_modifyCell hindexed _⟩
    rw [modifyHeader, block?_modifyCell hindexed, hblocks, hblocks, hb]
    by_cases heq : c' = c ∧ i' = pool.position
    · simp [heq, Block.take]
    · simp [heq]

/-! ## Allocating memory -/

/-- What a request for the memory of an object comes to: nothing changes, or there is an object as
soon as its header is in place. -/
inductive Answers (s : Space) (header : Header) : Except Fault (Option Nat) × Space → Prop where
  | refused {t : Space} (h : Same s t) : Answers s header (.ok none, t)
  | granted {t : Space} {a : Nat} {cell : Cell}
      (h : Adds s (t.modifyHeader a fun _ => header) a cell) (hheader : cell.header = header)
      (hzero : ∀ j, cell.word j = 0) : Answers s header (.ok (some a), t)

theorem block?_addBlock {pool : Pool} (h : s.pools[c]? = some pool) (b : Block) (c' i' : Nat) :
    (s.addBlock c b).block? c' i'
      = if c' = c ∧ i' = pool.blocks.size then some b else s.block? c' i' := by
  have hlt := (Array.getElem?_eq_some_iff.mp h).1
  simp only [addBlock, block?, Array.getElem?_modify]
  by_cases hc : c' = c
  · subst hc
    simp only [h, if_true, Option.map_some, Option.bind_some, Pool.push, Array.getElem?_push,
      true_and]
  · simp [hc, Ne.symm hc]

/-- A block with one object in it, added to a pool. -/
theorem Grows.addBlock {pool : Pool} (h : s.pools[c]? = some pool) (hb : b.Valid)
    (hfree : b.free ≠ 0) (header : Header) :
    Grows s ((s.addBlock c b.dropFirst).modifyHeader b.free fun _ => header) c pool.blocks.size
      (b.take header) := by
  obtain ⟨j, cell, haddress, hcell, -⟩ := hb.first hfree
  have hj := hb.cell_le (Array.getElem?_eq_some_iff.mp hcell).1
  have hpos := hb.cellBytes_pos
  have hblocks := block?_addBlock h b.dropFirst
  have hbase : blockBase b.free = b.start := by
    refine blockBase_of_mem hb.aligned ?_ ?_
    · rw [haddress]
      exact Nat.le_add_right _ _
    · rw [haddress, Block.address]
      omega
  have hindex : (s.addBlock c b.dropFirst).blockIndex
      = s.blockIndex.insert b.start (c, pool.blocks.size) := by
    simp only [Space.addBlock, h, Block.start_dropFirst]
  have hindexed : (s.addBlock c b.dropFirst).blockIndex[blockBase b.free]?
      = some (c, pool.blocks.size) := by
    rw [hindex, hbase]
    simp
  refine ⟨?_, fun c' i' => ?_, ?_, ?_, large_modifyCell hindexed _⟩
  · simp [block?, h]
  · rw [modifyHeader, block?_modifyCell hindexed, hblocks, hblocks]
    by_cases heq : c' = c ∧ i' = pool.blocks.size
    · simp [heq, Block.take]
    · simp [heq]
  · rw [modifyHeader, size_pools_modifyCell]
    simp [Space.addBlock]
  · rw [modifyHeader, blockIndex_modifyCell, hindex, Block.start_take]

/-- A new block for a size class, in memory that nobody holds. -/
structure NewBlock (s : Space) (c : Nat) (b : Block) : Prop where
  valid : b.Valid
  cellBytes : b.cellBytes = classBytes c
  free : b.free ≠ 0
  cells : ∀ (j : Nat) (cell : Cell), b.cells[j]? = some cell → cell.header.kind = .free
  apart : ∀ r, s.Held r → b.start + blockBytes ≤ r.start ∨ r.stop ≤ b.start

/-- A cell comes from a block there is. If no block has one, a new block is refused because of the
maximum or by the system, or else the cell is the first one of the new block. -/
theorem Valid.allocateSmall_cases (mode : Mode) (hs : s.Valid) (fresh : s.pages.Fresh s.Held)
    (hc : c < sizeClasses.length) :
    (∃ i b t, s.takeCell c = (some b.free, t) ∧ b.free ≠ 0 ∧
      (∀ header, Replaces s (t.modifyHeader b.free fun _ => header) c i b (b.take header)) ∧
      s.allocateSmall mode c = (.ok (some b.free), t)) ∨
    ∃ t, s.takeCell c = (none, t) ∧ Same s t ∧
      (t.maxFootprint < t.footprint + blockBytes ∧ s.allocateSmall mode c = (.ok none, t) ∨
        s.pages.limit ≤ 2 * blockBytes ∧ s.allocateSmall mode c = (.ok none, t) ∨
        ∃ after b, NewBlock s c b ∧ t.footprint + blockBytes ≤ t.maxFootprint ∧
          s.allocateSmall mode c
            = (.ok (some b.free), ({ t with pages := after } : Space).addBlock c b.dropFirst)) := by
  obtain ⟨t, htake, hsame⟩ | ⟨i, b, t, htake, hfree, hreplaces⟩ := hs.takeCell hc
  · refine .inr ⟨t, htake, hsame, ?_⟩
    have hpages : t.pages = s.pages := by rw [← pages_takeCell s c, htake]
    simp only [allocateSmall, htake]
    by_cases hmax : t.maxFootprint < t.footprint + blockBytes
    · exact .inl ⟨hmax, if_pos hmax⟩
    · rw [if_neg hmax, hpages]
      obtain ⟨hlimit, bytes, error, hmap⟩ | ⟨start, after, hmap, -, haligned, hpos, hbound, hapart⟩ :=
        fresh.mapAligned_block mode
      · refine .inr (.inl ⟨hlimit, ?_⟩)
        rw [hmap, ← hpages]
      · obtain ⟨b, hnew, hb, rfl, hbytes, hfree, hcells⟩ :=
          Block.new_valid (classBytes_mem hc) haligned hpos hbound
        have hnext : b.next? = some b.free := if_neg hfree
        simp only [hmap, hnew, Block.allocate, hnext]
        exact .inr (.inr ⟨after, b, ⟨hb, hbytes, hfree, hcells, hapart⟩, Nat.not_lt.mp hmax, rfl⟩)
  · exact .inl ⟨i, b, t, htake, hfree, hreplaces, by simp only [allocateSmall, htake]⟩

/-- A new block serves the request that it was mapped for. -/
theorem Valid.answers_newBlock (hs : s.Valid) (hc : c < sizeClasses.length) (h : Same s t)
    (hnew : NewBlock s c b) (hkind : header.kind ≠ .free)
    (hfits : (1 + header.words) * wordBytes ≤ classBytes c) :
    Answers s header (.ok (some b.free), t.addBlock c b.dropFirst) := by
  obtain ⟨pool, hpool⟩ : ∃ pool, t.pools[c]? = some pool :=
    ⟨_, Array.getElem?_eq_getElem (by rw [h.pools, hs.pools]; exact hc)⟩
  obtain ⟨j, cell, haddress, hcell, hfreeCell⟩ := hnew.valid.first hnew.free
  have htake : (b.take header).Valid :=
    hnew.valid.take hnew.free hkind (by rw [hnew.cellBytes]; exact hfits)
  have htaken := Block.getElem?_cells_take hnew.valid header haddress hcell
  have hadds : Adds t ((t.addBlock c b.dropFirst).modifyHeader b.free fun _ => header)
      ((b.take header).address j) ((cell.setWord 0 0).setHeader header) := by
    refine (Grows.addBlock hpool hnew.valid hnew.free header).adds (h.valid hs) (fun r hr => ?_) htake
      (by rw [Block.cellBytes_take, hnew.cellBytes]) (by rw [htaken, if_pos rfl]) hkind
      fun k cell' hk hcell' => ?_
    · rw [Block.start_take]
      exact hnew.apart r (h.held.mp hr)
    · rw [htaken, if_neg hk] at hcell'
      exact hnew.cells k cell' hcell'
  have haddress' : (b.take header).address j = b.free := by
    rw [haddress, Block.address, Block.address, Block.start_take, Block.cellBytes_take]
  rw [haddress'] at hadds
  refine .granted (h.adds hs hadds) rfl fun k => ?_
  cases k with
  | zero => simp
  | succ k => simpa using hnew.valid.cleared j cell hcell hfreeCell k

theorem Valid.answers_small (mode : Mode) (hs : s.Valid) (fresh : s.pages.Fresh s.Held)
    (hc : c < sizeClasses.length) (hkind : header.kind ≠ .free)
    (hfits : (1 + header.words) * wordBytes ≤ classBytes c) :
    Answers s header (s.allocateSmall mode c) := by
  obtain ⟨i, b, t, -, hfree, hreplaces, hrun⟩ | ⟨t, -, hsame, hrefused⟩ :=
    hs.allocateSmall_cases mode fresh hc
  · have hreplaced := hreplaces header
    have hbytes := (hs.blocks c i b hreplaced.old).2
    obtain ⟨cell, hadds, hheader, hzero⟩ :=
      hreplaced.adds hs hfree hkind (by rw [hbytes]; exact hfits)
    exact hrun ▸ .granted hadds hheader hzero
  · obtain ⟨-, hrun⟩ | ⟨-, hrun⟩ | ⟨after, b, hnew, -, hrun⟩ := hrefused
    · exact hrun ▸ .refused hsame
    · exact hrun ▸ .refused hsame
    · exact hrun ▸ hs.answers_newBlock hc (hsame.trans (.pages t after)) hnew hkind hfits

/-- The space after a mapping for a large object. -/
def enlarged (s : Space) (pages : Pages) (bytes : Nat) : Space :=
  { s with
    pages
    footprint := s.footprint + bytes
    large := s.large.insert s.pages.next ⟨bytes, .zero⟩ }

/-- A mapping for a large object is refused because of the maximum or by the system, or else it is one
that nobody holds. -/
theorem allocateLarge_cases (mode : Mode) (fresh : s.pages.Fresh s.Held) {words : Nat}
    (hwords : words < payloadLimit) :
    (s.maxFootprint < s.footprint + pagesFor ((1 + words) * wordBytes) ∧
      s.allocateLarge mode ((1 + words) * wordBytes) = (.ok none, s)) ∨
    (s.pages.limit ≤ pagesFor ((1 + words) * wordBytes) ∧
      s.allocateLarge mode ((1 + words) * wordBytes) = (.ok none, s)) ∨
    ∃ after bytes, bytes = pagesFor ((1 + words) * wordBytes) ∧
      s.allocateLarge mode ((1 + words) * wordBytes)
        = (.ok (some s.pages.next), s.enlarged after bytes) ∧
      s.footprint + bytes ≤ s.maxFootprint ∧ s.pages.next + bytes < wordLimit ∧
      ∀ r, s.Held r → s.pages.next + bytes ≤ r.start ∨ r.stop ≤ s.pages.next := by
  have hround : roundUp mode ((1 + words) * wordBytes) pageBytes 0
      = .ok (pagesFor ((1 + words) * wordBytes)) :=
    roundUp_page mode (by simp only [payloadLimit, wordBytes, pageBytes, wordLimit] at *; omega)
  have hpos : 0 < (1 + words) * wordBytes := by
    simp only [wordBytes]
    omega
  simp only [allocateLarge, hround]
  by_cases hmax : s.maxFootprint < s.footprint + pagesFor ((1 + words) * wordBytes)
  · exact .inl ⟨hmax, if_pos hmax⟩
  · rw [if_neg hmax]
    obtain ⟨hlimit, mapped, error, hmap⟩ | ⟨after, hmap, -, hbound, hapart⟩ :=
      fresh.map_large mode hpos
        (by simp only [payloadLimit, wordBytes, pageBytes, wordLimit] at hwords ⊢; omega)
    · exact .inr (.inl ⟨hlimit, by simp only [hmap]⟩)
    · have hsize : Region.size ⟨s.pages.next, s.pages.next + pagesFor ((1 + words) * wordBytes)⟩
          = pagesFor ((1 + words) * wordBytes) := Nat.add_sub_cancel_left _ _
      simp only [hmap, hsize]
      exact .inr (.inr ⟨after, _, rfl, rfl, Nat.not_lt.mp hmax, hbound, hapart⟩)

/-- The header of a large object goes into its mapping. -/
theorem Valid.modifyHeader_enlarged (hs : s.Valid) (pages : Pages) {bytes : Nat} (hbytes : 0 < bytes)
    (hapart : ∀ r, s.Held r → s.pages.next + bytes ≤ r.start ∨ r.stop ≤ s.pages.next)
    (header : Header) :
    ∃ large, (s.enlarged pages bytes).modifyHeader s.pages.next (fun _ => header)
        = { s.enlarged pages bytes with large } ∧
      ∀ x : Nat, large[x]? = if x = s.pages.next then some ⟨bytes, Cell.zero.setHeader header⟩
        else s.large[x]? := by
  -- nobody holds the mapping, so that there is no block where it is
  have hnone : (s.enlarged pages bytes).blockIndex[blockBase s.pages.next]? = none := by
    change s.blockIndex[blockBase s.pages.next]? = none
    cases hentry : s.blockIndex[blockBase s.pages.next]? with
    | none => rfl
    | some entry =>
      obtain ⟨b, hb, hstart, hstop⟩ := hs.index_blockBase.mp hentry
      have := hapart _ (.block hb)
      simp only at this
      omega
  refine ⟨_, by simp only [modifyHeader, Space.modifyCell, hnone]; rfl, fun x => ?_⟩
  simp only [enlarged, Std.TreeMap.getElem?_modify, Std.TreeMap.getElem?_insert, Nat.compare_eq_eq]
  by_cases hx : s.pages.next = x
  · simp [hx]
  · simp [hx, Ne.symm hx]

theorem Valid.answers_large (mode : Mode) (hs : s.Valid) (fresh : s.pages.Fresh s.Held)
    (hkind : header.kind ≠ .free) (hwords : header.words < payloadLimit) :
    Answers s header (s.allocateLarge mode ((1 + header.words) * wordBytes)) := by
  obtain ⟨-, hrun⟩ | ⟨-, hrun⟩ | ⟨after, bytes, hbytes, hrun, -, hbound, hapart⟩ :=
    allocateLarge_cases mode fresh hwords
  · exact hrun ▸ .refused (.pages s s.pages)
  · exact hrun ▸ .refused (.pages s s.pages)
  · have hfits : (1 + header.words) * wordBytes ≤ bytes := hbytes ▸ le_pagesFor _
    have hpos : 0 < bytes := by
      simp only [wordBytes] at hfits
      omega
    obtain ⟨large, hmodify, hlarge⟩ := hs.modifyHeader_enlarged after hpos hapart header
    have hobject : Large.Valid ⟨bytes, Cell.zero.setHeader header⟩ s.pages.next :=
      ⟨fresh.aligned, fresh.positive, hbound, hfits, hkind⟩
    rw [hrun]
    refine .granted (hs.adds_large hobject hapart ?_ ?_ ?_ ?_) rfl fun j => ?_
    · rw [hmodify]
      exact fun _ _ => rfl
    · rw [hmodify]
      rfl
    · rw [hmodify]
      rfl
    · rw [hmodify]
      exact hlarge
    · simp

theorem Valid.answers (mode : Mode) (hs : s.Valid) (fresh : s.pages.Fresh s.Held)
    (hkind : header.kind ≠ .free) (hwords : header.words < payloadLimit) :
    Answers s header (s.allocateBytes mode ((1 + header.words) * wordBytes)) := by
  unfold allocateBytes
  split
  next sizeClass hclass =>
    obtain ⟨hlt, hle⟩ := sizeClassFor?_some hclass
    exact hs.answers_small mode fresh hlt hkind hle
  next => exact hs.answers_large mode fresh hkind hwords

/-! ## Allocating objects -/

/-- An allocation never faults. It leaves the space as it was, or adds one zeroed object of the
requested kind and size at an address where none was. -/
theorem Valid.allocate (mode : Mode) (hs : s.Valid) (fresh : s.pages.Fresh s.Held) {kind : Kind}
    (hkind : kind.isHeap = true) (words : Nat) :
    (∃ t, s.allocate mode kind words = (.ok none, t) ∧ Same s t) ∨
      ∃ a cell t, s.allocate mode kind words = (.ok (some a), t) ∧ Adds s t a cell ∧
        cell.header = ⟨kind, false, 0, words⟩ ∧ ∀ j, cell.word j = 0 := by
  have hfree := Header.kind_new_ne_free hkind words
  by_cases hlimit : payloadLimit ≤ words
  · exact .inl ⟨s, if_pos hlimit, rfl, fun _ _ => rfl, rfl, rfl⟩
  · have hanswers := hs.answers mode fresh hfree (Nat.not_le.mp hlimit)
    simp only [Space.allocate, if_neg hlimit]
    cases hanswer : s.allocateBytes mode ((1 + words) * wordBytes) with
    | mk result t =>
      rw [show (Header.new kind words).words = words from rfl, hanswer] at hanswers
      cases hanswers with
      | refused hsame => exact .inl ⟨_, rfl, hsame⟩
      | granted hadds hheader hzero =>
        exact .inr ⟨_, _, _, rfl, hadds, by rw [hheader, Header.new_eq hkind], hzero⟩

theorem Same.fresh (h : Same s t) {pages : Pages} (fresh : pages.Fresh s.Held) :
    pages.Fresh t.Held :=
  ⟨fresh.aligned, fresh.positive, fresh.bounded, fun bytes hbytes r hr =>
    fresh.apart bytes hbytes r (h.held.mp hr)⟩

/-- The same, whatever pages the system has to offer this time. -/
theorem Valid.request (mode : Mode) (hs : s.Valid) {pages : Pages} (fresh : pages.Fresh s.Held)
    {kind : Kind} (hkind : kind.isHeap = true) (words : Nat) :
    (∃ t, { s with pages }.allocate mode kind words = (.ok none, t) ∧ Same s t) ∨
      ∃ a cell t, { s with pages }.allocate mode kind words = (.ok (some a), t) ∧
        Adds s t a cell ∧ cell.header = ⟨kind, false, 0, words⟩ ∧ ∀ j, cell.word j = 0 := by
  have hsame := Same.pages s pages
  obtain ⟨t, hanswer, ht⟩ | ⟨a, cell, t, hanswer, hadds, hcell⟩ :=
    (hsame.valid hs).allocate mode (hsame.fresh fresh) hkind words
  · exact .inl ⟨t, hanswer, hsame.trans ht⟩
  · exact .inr ⟨a, cell, t, hanswer, hsame.adds hs hadds, hcell⟩

end Space

end Substrate
