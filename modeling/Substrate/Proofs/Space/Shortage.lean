import Substrate.Proofs.Space.Refusal

/-!
# How short memory is

A sweep returns the blocks that it finds empty, all but one of each size class. So what a space has from
the system then is what objects keep from it (`Space.retained`) and one block for each size class that keeps
an empty one. A refusal says how close this is to the maximum
(`Settled.short`). It is not enough to look at what the objects take: a block that was kept for one size
class is of no use to another.
-/

namespace Substrate

/-- Counting by index. -/
theorem length_filter_range {α : Type} (p : α → Bool) (xs : List α) :
    ((List.range xs.length).filter fun i => xs[i]?.any p).length = (xs.filter p).length := by
  induction xs with
  | nil => rfl
  | cons x xs ih =>
    rw [List.length_cons, List.range_succ_eq_map, List.filter_cons, List.filter_map, List.filter_cons]
    have htail : ((List.range xs.length).filter
        ((fun i => (x :: xs)[i]?.any p) ∘ Nat.succ)).length = (xs.filter p).length := by
      rw [← ih]
      rfl
    cases hx : p x <;> simp [hx, htail]

/-- If no row has more than one element of the other sort, then the rows that have one make up for what
the elements of the first sort are short of. -/
theorem length_flatten_le {α : Type} {p : α → Bool} {rows : List (List α)}
    (h : ∀ row ∈ rows, (row.filter (!p ·)).length ≤ 1) :
    rows.flatten.length ≤ (rows.flatten.filter p).length + (rows.filter (·.any (!p ·))).length := by
  induction rows with
  | nil => exact Nat.le_refl 0
  | cons row rows ih =>
    have hrest := ih fun other hother => h other (List.mem_cons_of_mem _ hother)
    have hsplit := List.length_eq_length_filter_add (l := row) p
    have hfirst := h row List.mem_cons_self
    rw [List.flatten_cons, List.length_append, List.filter_append, List.length_append, List.filter_cons]
    cases hany : row.any (!p ·) with
    | true =>
      rw [if_pos rfl, List.length_cons]
      omega
    | false =>
      have hnone : row.filter (!p ·) = [] :=
        List.filter_eq_nil_iff.mpr fun x hx => by simpa using List.any_eq_false.mp hany x hx
      rw [hnone] at hsplit
      rw [if_neg Bool.false_ne_true]
      simp only [List.length_nil] at hsplit
      omega

namespace Block

variable {b : Block}

/-- Some cell holds an object. -/
def isOccupied (b : Block) : Bool :=
  b.cells.any fun cell => cell.header.kind != .free

/-- Some cell is free. -/
def hasRoom (b : Block) : Bool :=
  b.cells.any fun cell => cell.header.kind == .free

theorem Valid.isEmpty_of_not_isOccupied (hb : b.Valid) (h : b.isOccupied = false) :
    b.isEmpty = true := by
  obtain ⟨indices, hlist⟩ := hb.listed
  have hfree : ∀ (i : Nat) (cell : Cell), b.cells[i]? = some cell → cell.header.kind = .free := by
    intro i cell hcell
    have hnone := Array.any_eq_false'.mp h cell (Array.mem_of_getElem? hcell)
    simpa using hnone
  -- the free list visits every cell
  have hsub : List.range b.cells.size ⊆ indices := fun i hi => by
    have hcell := Array.getElem?_eq_getElem (List.mem_range.mp hi)
    exact (hlist.mem_iff i).mpr ⟨_, hcell, hfree i _ hcell⟩
  have hsup : indices ⊆ List.range b.cells.size := fun i hi => by
    obtain ⟨cell, hcell, -⟩ := (hlist.mem_iff i).mp hi
    exact List.mem_range.mpr (Array.getElem?_eq_some_iff.mp hcell).1
  have hle := List.nodup_range.length_le_of_subset hsub
  have hge := hlist.nodup.length_le_of_subset hsup
  rw [List.length_range] at hle hge
  rw [isEmpty, beq_iff_eq, hlist.count]
  exact Nat.le_antisymm hge hle

/-- A block without a free cell has an object. -/
theorem Valid.isOccupied_of_full (hb : b.Valid) (hfull : ∀ cell ∈ b.cells, cell.header.kind ≠ .free) :
    b.isOccupied = true := by
  have hbounds := sizeClasses_bounds hb.cellBytes
  have hsize : 0 < b.cells.size := by
    rw [hb.size]
    exact Nat.div_pos (by simp only [blockBytes]; omega) (by omega)
  refine Array.any_eq_true'.mpr ⟨b.cells[0], Array.getElem_mem hsize, ?_⟩
  simpa using hfull _ (Array.getElem_mem hsize)

end Block

namespace Space

variable {s : Space} {c words : Nat}

/-- The blocks that have an object. -/
def occupied (s : Space) : List Block :=
  s.blocks.filter Block.isOccupied

/-- Bytes that objects keep from the system: those of the blocks that have one, and the pages of the large
objects. -/
def retained (s : Space) : Nat :=
  blockBytes * s.occupied.length +
    (s.larges.map fun object => pagesFor ((1 + object.cell.header.words) * wordBytes)).sum

/-- The size classes that keep a block without objects. -/
def sparing (s : Space) : List Nat :=
  (List.range s.rows.length).filter fun c => s.rows[c]?.any fun row => row.any (!·.isOccupied)

/-- Bytes that an object with this payload needs: those of a block, unless a block with an object has
room for it, or those of its pages. -/
def need (s : Space) (words : Nat) : Nat :=
  match sizeClassFor? ((1 + words) * wordBytes) with
  | some c =>
    if s.rows[c]?.any fun row => row.any fun b => b.isOccupied && b.hasRoom then 0 else blockBytes
  | none => pagesFor ((1 + words) * wordBytes)

/-- No size class keeps more than one empty block. -/
def Frugal (s : Space) : Prop :=
  ∀ row ∈ s.rows, (row.filter Block.isEmpty).length ≤ 1

theorem block?_of_mem_row {row : List Block} {b : Block} (hrow : s.rows[c]? = some row) (hb : b ∈ row) :
    ∃ i, s.block? c i = some b := by
  obtain ⟨i, hi⟩ := List.mem_iff_getElem?.mp hb
  exact ⟨i, by rw [← getElem?_rows, hrow, Option.bind_some, hi]⟩

theorem Valid.length_blocks_le (hs : s.Valid) (hfrugal : s.Frugal) :
    s.blocks.length ≤ s.occupied.length + s.sparing.length := by
  rw [sparing, length_filter_range fun row : List Block => row.any (!·.isOccupied)]
  refine length_flatten_le fun row hrow => ?_
  obtain ⟨c, hc⟩ := List.mem_iff_getElem?.mp hrow
  refine Nat.le_trans (List.Sublist.length_le ?_) (hfrugal row hrow)
  have hsub : row.filter (!·.isOccupied) = (row.filter Block.isEmpty).filter (!·.isOccupied) := by
    rw [List.filter_filter]
    refine List.filter_congr fun b hb => ?_
    obtain ⟨i, hi⟩ := block?_of_mem_row hc hb
    cases hoccupied : b.isOccupied with
    | true => rfl
    | false => simp [(hs.blocks c i b hi).1.isEmpty_of_not_isOccupied hoccupied]
  rw [hsub]
  exact List.filter_sublist

/-- A size class without a free cell keeps no empty block, and no block that has room. -/
theorem Valid.full_row (hs : s.Valid) (hfull : s.Full c) {row : List Block}
    (hrow : s.rows[c]? = some row) {b : Block} (hb : b ∈ row) :
    b.isOccupied = true ∧ b.hasRoom = false := by
  obtain ⟨i, hi⟩ := block?_of_mem_row hrow hb
  refine ⟨(hs.blocks c i b hi).1.isOccupied_of_full (hfull i b hi), Array.any_eq_false'.mpr ?_⟩
  exact fun cell hcell => by simpa using hfull i b hi cell hcell

/-- What a refusal says about a space in which no size class keeps more than one empty block. -/
theorem Settled.short (hsettled : s.Settled) (hs : s.Valid) (hfrugal : s.Frugal)
    (hwords : words < payloadLimit) (hrefuses : s.Refuses words) :
    s.maxFootprint < s.retained + s.need words + blockBytes * s.sparing.length ∧
      ∀ c, sizeClassFor? ((1 + words) * wordBytes) = some c → c ∉ s.sparing := by
  have hblocks := Nat.mul_le_mul_left blockBytes (hs.length_blocks_le hfrugal)
  have hlarges := List.map_congr_left fun object hobject => (hsettled.larges object hobject).2
  have hfootprint := hsettled.footprint
  rw [hlarges] at hfootprint
  rw [Nat.mul_add] at hblocks
  unfold retained
  obtain hlimit | ⟨c, hclass, hfull, hmax⟩ | ⟨hclass, hmax⟩ := hrefuses
  · exact absurd hwords (Nat.not_lt.mpr hlimit)
  · have hneed : s.need words = blockBytes := by
      rw [need, hclass]
      refine if_neg fun hroom => ?_
      obtain ⟨row, hrow, hany⟩ := (Option.any_eq_true _ _).mp hroom
      obtain ⟨b, hb, hboth⟩ := List.any_eq_true.mp hany
      rw [(hs.full_row hfull hrow hb).2, Bool.and_false] at hboth
      cases hboth
    refine ⟨by omega, fun c' hclass' hmem => ?_⟩
    obtain rfl : c' = c := Option.some.inj (hclass'.symm.trans hclass)
    obtain ⟨row, hrow, hany⟩ := (Option.any_eq_true _ _).mp (List.mem_filter.mp hmem).2
    obtain ⟨b, hb, hspare⟩ := List.any_eq_true.mp hany
    rw [(hs.full_row hfull hrow hb).1] at hspare
    cases hspare
  · have hneed : s.need words = pagesFor ((1 + words) * wordBytes) := by rw [need, hclass]
    refine ⟨by omega, fun c hclass' => ?_⟩
    cases hclass'.symm.trans hclass

end Space

end Substrate
