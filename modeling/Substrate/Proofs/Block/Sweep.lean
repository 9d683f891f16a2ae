import Substrate.Proofs.Block.FreeList

/-!
# Sweeping a block

A sweep goes through the cells from the last one to the first. `Block.SweptCells` is what holds of the
cells behind the current one: the marked objects among them are left, without their marks, and the free
list visits the others in the order of their addresses.
-/

namespace Substrate.Block

variable {b : Block} {cellBytes address i : Nat} {cells : List Cell} {cell : Cell}

/-- Whether a sweep keeps the object in a cell. -/
def Kept (cell : Cell) : Prop :=
  cell.header.kind ≠ .free ∧ cell.header.marked = true

/-- A cell that was kept, without its mark. -/
def unmarked (cell : Cell) : Cell :=
  cell.setHeader cell.header.clearMark

theorem fate_cases (cell : Cell) :
    fate cell.header = .kept ∧ Kept cell ∨ fate cell.header ≠ .kept ∧ ¬ Kept cell := by
  unfold fate Kept
  by_cases hk : cell.header.kind = .free
  · simp [hk]
  · by_cases hm : cell.header.marked = true
    · simp [hk, hm]
    · simp [hk, hm]

/-- Cells that were swept: the objects that are kept lost their marks, and all other cells form the free
list. -/
structure SweptCells (cellBytes address : Nat) (cells : List Cell) (s : Sweeping) : Prop where
  length : s.cells.length = cells.length
  kept : ∀ (i : Nat) (cell : Cell), cells[i]? = some cell → Kept cell →
    s.cells[i]? = some (unmarked cell)
  freed : ∀ (i : Nat) (cell : Cell), cells[i]? = some cell → ¬ Kept cell →
    ∃ link, s.cells[i]? = some (.linking link)
  listed : ∃ indices, Links address cellBytes s.cells.toArray s.free indices ∧ indices.Nodup ∧
    (∀ i, i ∈ indices ↔ ∃ cell, cells[i]? = some cell ∧ ¬ Kept cell) ∧
    s.freeCells = indices.length
  bounded : s.free < wordLimit

/-- Links of the cells behind one. -/
theorem Links.behind {link : Nat} {indices : List Nat}
    (h : Links (address + cellBytes) cellBytes cells.toArray link indices) (cell : Cell) :
    Links address cellBytes (cell :: cells).toArray link (indices.map (· + 1)) := by
  induction indices generalizing link with
  | nil => exact h
  | cons i rest ih =>
    obtain ⟨hlink, next, hnext, hrest⟩ := h
    refine ⟨?_, next, ?_, ih hrest⟩
    · rw [hlink, Nat.add_mul, Nat.one_mul]
      omega
    · simpa using hnext

theorem nodup_map_succ {indices : List Nat} (h : indices.Nodup) : (indices.map (· + 1)).Nodup :=
  List.Pairwise.map _ (fun _ _ hne heq => hne (Nat.succ.inj heq)) h

section Sweep

variable {s : Sweeping} {swept : Swept}

theorem SweptCells.nil (cellBytes address : Nat) (swept : Swept) :
    SweptCells cellBytes address [] ⟨[], 0, 0, swept⟩ :=
  ⟨rfl, nofun, nofun, ⟨[], rfl, List.nodup_nil, by simp, rfl⟩,
    by show 0 < wordLimit; decide⟩

/-- A marked object loses its mark. -/
theorem SweptCells.keep (h : SweptCells cellBytes (address + cellBytes) cells s) (hkept : Kept cell) :
    SweptCells cellBytes address (cell :: cells)
      ⟨unmarked cell :: s.cells, s.free, s.freeCells, swept⟩ := by
  obtain ⟨indices, hlinks, hnodup, hmem, hcount⟩ := h.listed
  refine ⟨by simp [h.length], fun i c hc hk => ?_, fun i c hc hk => ?_,
    ⟨_, hlinks.behind _, nodup_map_succ hnodup, fun i => ?_, by simpa using hcount⟩, h.bounded⟩
  · cases i with
    | zero => rw [← Option.some.inj hc]; rfl
    | succ i => exact h.kept i c hc hk
  · cases i with
    | zero => exact absurd (Option.some.inj hc ▸ hkept) hk
    | succ i => exact h.freed i c hc hk
  · cases i with
    | zero => simp [hkept]
    | succ i => simp [hmem]

/-- Any other cell is cleared and becomes the first of the free list. -/
theorem SweptCells.free (h : SweptCells cellBytes (address + cellBytes) cells s)
    (hbound : address < wordLimit) (hkept : ¬ Kept cell) :
    SweptCells cellBytes address (cell :: cells)
      ⟨.linking (UInt64.ofNat s.free) :: s.cells, address, s.freeCells + 1, swept⟩ := by
  obtain ⟨indices, hlinks, hnodup, hmem, hcount⟩ := h.listed
  have hlisted : Links address cellBytes (Cell.linking (UInt64.ofNat s.free) :: s.cells).toArray
      address (0 :: indices.map (· + 1)) := by
    refine ⟨by simp, .linking (UInt64.ofNat s.free), rfl, ?_⟩
    rw [Cell.first_linking, UInt64.toNat_ofNat_of_lt' h.bounded]
    exact hlinks.behind _
  refine ⟨by simp [h.length], fun i c hc hk => ?_, fun i c hc hk => ?_,
    ⟨_, hlisted, List.nodup_cons.mpr ⟨by simp, nodup_map_succ hnodup⟩, fun i => ?_, by simp [hcount]⟩,
    hbound⟩
  · cases i with
    | zero => exact absurd (Option.some.inj hc ▸ hk) hkept
    | succ i => exact h.kept i c hc hk
  · cases i with
    | zero => exact ⟨_, rfl⟩
    | succ i => exact h.freed i c hc hk
  · cases i with
    | zero => simp [hkept]
    | succ i => simp [hmem]

/-- Sweeping the cells one by one, the last one first, sweeps them all. -/
theorem sweptCells_sweepCells (cells : List Cell) (address : Nat)
    (hbound : address + cells.length * cellBytes < wordLimit) :
    SweptCells cellBytes address cells (sweepCells cellBytes address cells) := by
  induction cells generalizing address with
  | nil => exact .nil ..
  | cons cell behind ih =>
    rw [List.length_cons, Nat.add_mul, Nat.one_mul] at hbound
    have hbehind := ih (address + cellBytes) (by omega)
    have hcases := fate_cases cell
    rw [sweepCells]
    cases hfate : fate cell.header with
    | unused => exact hbehind.free (by omega) (by simpa [hfate] using hcases)
    | kept => exact hbehind.keep (by simpa [hfate] using hcases)
    | freed => exact hbehind.free (by omega) (by simpa [hfate] using hcases)

end Sweep

theorem Valid.sweptCells (hb : b.Valid) :
    SweptCells b.cellBytes b.start b.cells.toList (sweepCells b.cellBytes b.start b.cells.toList) := by
  have hmul : b.cells.size * b.cellBytes ≤ blockBytes := by
    rw [hb.size]
    exact Nat.div_mul_le_self _ _
  have hbound := hb.bounded
  exact sweptCells_sweepCells _ _ (by rw [Array.length_toList]; omega)

theorem Valid.size_sweep (hb : b.Valid) : b.sweep.2.cells.size = b.cells.size := by
  have hlength := hb.sweptCells.length
  rwa [Array.length_toList] at hlength

theorem Valid.sweep_kept (hb : b.Valid) (hcell : b.cells[i]? = some cell) (hkept : Kept cell) :
    b.sweep.2.cells[i]? = some (unmarked cell) :=
  (List.getElem?_toArray ..).trans
    (hb.sweptCells.kept i cell ((Array.getElem?_toList ..).trans hcell) hkept)

theorem Valid.sweep_freed (hb : b.Valid) (hcell : b.cells[i]? = some cell) (hkept : ¬ Kept cell) :
    ∃ link, b.sweep.2.cells[i]? = some (.linking link) := by
  obtain ⟨link, hlink⟩ :=
    hb.sweptCells.freed i cell ((Array.getElem?_toList ..).trans hcell) hkept
  exact ⟨link, (List.getElem?_toArray ..).trans hlink⟩

/-- What is in a cell after a sweep. -/
theorem Valid.cell_sweep (hb : b.Valid) {c : Cell} (hc : b.sweep.2.cells[i]? = some c) :
    (∃ cell, b.cells[i]? = some cell ∧ Kept cell ∧ c = unmarked cell) ∨
      ∃ cell link, b.cells[i]? = some cell ∧ ¬ Kept cell ∧ c = .linking link := by
  have hlt : i < b.cells.size := by
    rw [← hb.size_sweep]
    exact (Array.getElem?_eq_some_iff.mp hc).1
  obtain ⟨cell, hcell⟩ : ∃ cell, b.cells[i]? = some cell := ⟨_, Array.getElem?_eq_getElem hlt⟩
  by_cases hkept : Kept cell
  · exact .inl ⟨cell, hcell, hkept, Option.some.inj (hc.symm.trans (hb.sweep_kept hcell hkept))⟩
  · obtain ⟨link, hlink⟩ := hb.sweep_freed hcell hkept
    exact .inr ⟨cell, link, hcell, hkept, Option.some.inj (hc.symm.trans hlink)⟩

/-- A swept block holds the objects that were marked, without their marks. -/
theorem Valid.object_sweep_iff (hb : b.Valid) {c : Cell} :
    b.sweep.2.cells[i]? = some c ∧ c.header.kind ≠ .free ↔
      ∃ cell, b.cells[i]? = some cell ∧ Kept cell ∧ c = unmarked cell := by
  constructor
  · rintro ⟨hc, hk⟩
    obtain hkept | ⟨cell, link, -, -, rfl⟩ := hb.cell_sweep hc
    · exact hkept
    · exact absurd rfl hk
  · rintro ⟨cell, hcell, hkept, rfl⟩
    exact ⟨hb.sweep_kept hcell hkept, hkept.1⟩

/-- A sweep keeps a block valid. -/
theorem Valid.sweep (hb : b.Valid) : b.sweep.2.Valid := by
  obtain ⟨indices, hlinks, hnodup, hmem, hcount⟩ := hb.sweptCells.listed
  refine
    { cellBytes := hb.cellBytes
      aligned := hb.aligned
      positive := hb.positive
      bounded := hb.bounded
      size := hb.size_sweep.trans hb.size
      listed := ⟨indices, hlinks, hnodup, fun i => ?_, hcount⟩
      cleared := fun i c hc hk j => ?_
      fits := fun i c hc hk => ?_ }
  · rw [hmem]
    constructor
    · rintro ⟨cell, hcell, hkept⟩
      obtain ⟨link, hlink⟩ := hb.sweep_freed ((Array.getElem?_toList ..).symm.trans hcell) hkept
      exact ⟨_, hlink, rfl⟩
    · rintro ⟨c, hc, hk⟩
      obtain ⟨cell, -, hkept, rfl⟩ | ⟨cell, link, hcell, hkept, -⟩ := hb.cell_sweep hc
      · exact absurd hk hkept.1
      · exact ⟨cell, (Array.getElem?_toList ..).trans hcell, hkept⟩
  · obtain ⟨cell, -, hkept, rfl⟩ | ⟨cell, link, hcell, hkept, rfl⟩ := hb.cell_sweep hc
    · exact absurd hk hkept.1
    · exact Cell.word_linking link j
  · obtain ⟨cell, hcell, hkept, rfl⟩ | ⟨cell, link, hcell, hkept, rfl⟩ := hb.cell_sweep hc
    · exact hb.fits i cell hcell hkept.1
    · exact absurd rfl hk

end Substrate.Block
