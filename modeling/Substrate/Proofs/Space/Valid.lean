import Std.Data.TreeMap.Lemmas
import Substrate.Space
import Substrate.Proofs.Block.Sweep

/-!
# Valid spaces

`Space.Valid` is what holds of a space at all times: its blocks are valid, the index names every
block by its address, and no two mappings overlap. `Space.object?` is the view that everything else
is said in: the object that starts at an address, if there is one. `Space.Home` tells where it lives.
-/

namespace Substrate

/-- What is true of a large object at an address at all times. -/
structure Large.Valid (object : Large) (address : Nat) : Prop where
  aligned : address % pageBytes = 0
  positive : 0 < address
  bounded : address + object.bytes < wordLimit
  fits : (1 + object.cell.header.words) * wordBytes ≤ object.bytes
  kind : object.cell.header.kind ≠ .free

namespace Space

/-- The block of a size class at a position. -/
def block? (s : Space) (sizeClass position : Nat) : Option Block :=
  s.pools[sizeClass]?.bind (·.blocks[position]?)

/-- The regions that the space has from the system. -/
inductive Held (s : Space) : Region → Prop where
  | block {c i : Nat} {b : Block} (h : s.block? c i = some b) :
    Held s ⟨b.start, b.start + blockBytes⟩
  | large {a : Nat} {object : Large} (h : s.large[a]? = some object) :
    Held s ⟨a, a + object.bytes⟩

/-- What is true of a space at all times. -/
structure Valid (s : Space) : Prop where
  pools : s.pools.size = sizeClasses.length
  blocks : ∀ c i b, s.block? c i = some b → b.Valid ∧ b.cellBytes = classBytes c
  index : ∀ base c i, s.blockIndex[base]? = some (c, i) ↔
    ∃ b, s.block? c i = some b ∧ b.start = base
  large : ∀ (a : Nat) (object : Large), s.large[a]? = some object → object.Valid a
  larges : ∀ (a a' : Nat) (object object' : Large), s.large[a]? = some object →
    s.large[a']? = some object' → a < a' → a + object.bytes ≤ a'
  apart : ∀ (a : Nat) (object : Large) (c i : Nat) (b : Block), s.large[a]? = some object →
    s.block? c i = some b → a + object.bytes ≤ b.start ∨ b.start + blockBytes ≤ a

/-- The object that starts at an address. -/
def object? (s : Space) (address : Nat) : Option Cell :=
  (s.cell? address).filter fun cell => cell.header.kind ≠ .free

/-- Where the object at an address lives: in a cell of a block, or in a mapping of its own. -/
inductive Home (s : Space) (address : Nat) (cell : Cell) : Prop where
  | small {c i j : Nat} {b : Block} (hb : s.block? c i = some b) (hcell : b.cells[j]? = some cell)
      (hkind : cell.header.kind ≠ .free) (haddress : address = b.address j)
  | large {object : Large} (hobject : s.large[address]? = some object) (hcell : object.cell = cell)

variable {s : Space} {a base c c' i i' j : Nat} {b b' : Block} {cell : Cell}

/-! ## Blocks by address -/

theorem blockBase_of_mem (ha : base % blockBytes = 0) (h : base ≤ a) (h' : a < base + blockBytes) :
    blockBase a = base := by
  simp only [blockBase, blockBytes] at *
  omega

theorem le_of_blockBase (h : blockBase a = base) : base ≤ a ∧ a < base + blockBytes := by
  simp only [blockBase, blockBytes] at *
  omega

/-- The block that an address belongs to. -/
theorem Valid.index_blockBase (hs : s.Valid) :
    s.blockIndex[blockBase a]? = some (c, i) ↔
      ∃ b, s.block? c i = some b ∧ b.start ≤ a ∧ a < b.start + blockBytes := by
  rw [hs.index]
  constructor
  · rintro ⟨b, hb, hstart⟩
    exact ⟨b, hb, le_of_blockBase hstart.symm⟩
  · rintro ⟨b, hb, hle, hlt⟩
    exact ⟨b, hb, (blockBase_of_mem (hs.blocks c i b hb).1.aligned hle hlt).symm⟩

/-- A block is found under its address and nowhere else. -/
theorem Valid.block_unique (hs : s.Valid) (hb : s.block? c i = some b)
    (hb' : s.block? c' i' = some b') (h : b.start = b'.start) : c = c' ∧ i = i' := by
  have hfirst := (hs.index b.start c i).mpr ⟨b, hb, rfl⟩
  have hsecond := (hs.index b.start c' i').mpr ⟨b', hb', h.symm⟩
  exact Prod.mk.inj (Option.some.inj (hfirst.symm.trans hsecond))

theorem Valid.not_indexed_of_large (hs : s.Valid) {object : Large}
    (h : s.large[a]? = some object) {x : Nat} (hle : a ≤ x) (hlt : x < a + object.bytes) :
    s.blockIndex[blockBase x]? = none := by
  cases hindex : s.blockIndex[blockBase x]? with
  | none => rfl
  | some entry =>
    obtain ⟨b, hb, hstart, hstop⟩ := hs.index_blockBase.mp hindex
    have := hs.apart a object _ _ b h hb
    omega

/-! ## The cells of blocks -/

/-- The address of a cell lies in its block. -/
theorem Valid.address_mem (hs : s.Valid) (hb : s.block? c i = some b) (hj : j < b.cells.size) :
    b.start ≤ b.address j ∧ b.address j + b.cellBytes ≤ b.start + blockBytes := by
  have := (hs.blocks c i b hb).1.cell_le hj
  simp only [Block.address]
  omega

theorem Valid.indexed_address (hs : s.Valid) (hb : s.block? c i = some b) (hj : j < b.cells.size) :
    s.blockIndex[blockBase (b.address j)]? = some (c, i) := by
  have hmem := hs.address_mem hb hj
  have hpos := (hs.blocks c i b hb).1.cellBytes_pos
  exact hs.index_blockBase.mpr ⟨b, hb, hmem.1, by omega⟩

/-- The cell that starts at an address of an indexed block. -/
theorem cell?_of_indexed (h : s.blockIndex[blockBase a]? = some (c, i))
    (hb : s.block? c i = some b) :
    s.cell? a
      = if (a - b.start) % b.cellBytes = 0 then b.cells[b.indexOf a]? else none := by
  obtain ⟨pool, hpool, hblock⟩ := Option.bind_eq_some_iff.mp hb
  simp only [cell?, h]
  simp [hpool, hblock]

theorem cell?_of_not_indexed (h : s.blockIndex[blockBase a]? = none) :
    s.cell? a = (s.large[a]?).map (·.cell) := by
  simp only [cell?, h]

theorem Valid.cell?_address (hs : s.Valid) (hb : s.block? c i = some b) (hj : j < b.cells.size) :
    s.cell? (b.address j) = b.cells[j]? := by
  have hpos := (hs.blocks c i b hb).1.cellBytes_pos
  rw [cell?_of_indexed (hs.indexed_address hb hj) hb, if_pos (b.address_mod j),
    Block.indexOf_address hpos]

/-! ## Homes -/

/-- Every object has a home, and what has a home is an object. -/
theorem Valid.object?_eq_some_iff (hs : s.Valid) : s.object? a = some cell ↔ s.Home a cell := by
  rw [object?, Option.filter_eq_some_iff]
  constructor
  · rintro ⟨hcell, hkind⟩
    have hkind : cell.header.kind ≠ .free := by simpa using hkind
    cases hindex : s.blockIndex[blockBase a]? with
    | none =>
      rw [cell?_of_not_indexed hindex, Option.map_eq_some_iff] at hcell
      obtain ⟨object, hobject, heq⟩ := hcell
      exact .large hobject heq
    | some entry =>
      obtain ⟨c, i⟩ := entry
      obtain ⟨b, hb, hstart, -⟩ := hs.index_blockBase.mp hindex
      rw [cell?_of_indexed hindex hb] at hcell
      by_cases hmod : (a - b.start) % b.cellBytes = 0
      · rw [if_pos hmod] at hcell
        refine .small hb hcell hkind ?_
        rw [Block.address, Block.indexOf, Nat.div_mul_cancel (Nat.dvd_of_mod_eq_zero hmod)]
        omega
      · rw [if_neg hmod] at hcell
        cases hcell
  · rintro (⟨hb, hcell, hkind, rfl⟩ | ⟨hobject, rfl⟩)
    · have hj := (Array.getElem?_eq_some_iff.mp hcell).1
      exact ⟨(hs.cell?_address hb hj).trans hcell, by simpa using hkind⟩
    · have hl := hs.large a _ hobject
      have hfits := hl.fits
      have hnone := hs.not_indexed_of_large hobject (Nat.le_refl a) (by simp only [wordBytes] at hfits; omega)
      rw [cell?_of_not_indexed hnone, hobject]
      exact ⟨rfl, by simpa using hl.kind⟩

theorem kind_of_object? (h : s.object? a = some cell) : cell.header.kind ≠ .free := by
  rw [object?, Option.filter_eq_some_iff] at h
  simpa using h.2

theorem cell?_of_object? (h : s.object? a = some cell) : s.cell? a = some cell :=
  (Option.filter_eq_some_iff.mp h).1

theorem header_of_object? (h : s.object? a = some cell) : s.header a = cell.header := by
  rw [header, cell?_of_object? h]

theorem word_of_object? (h : s.object? a = some cell) : s.word a i = cell.word i := by
  rw [word, cell?_of_object? h]

end Space

end Substrate
