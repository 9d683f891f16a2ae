import Substrate.Proofs.Space.Reclaim

/-!
# Where a pool looks for a free cell

A pool looks for a free cell from its cursor on. This is as good as looking everywhere, because no block
before the cursor has a free cell: `Pool.Passed`, which every operation on a space maintains.
-/

namespace Substrate

/-! ## Pools -/

namespace Pool

variable {pool : Pool} {blocks : Array Block} {b : Block} {count position : Nat}

/-- The blocks before the cursor have no free cell. -/
structure Passed (pool : Pool) : Prop where
  cursor : pool.cursor ≤ pool.blocks.size
  spent : ∀ i < pool.cursor, ∀ b, pool.blocks[i]? = some b → b.next? = none

/-- The pool with its cursor at the first block. -/
def rewound (pool : Pool) : Pool := { pool with cursor := 0 }

/-- The blocks that are passed by have no free cell. -/
theorem seek_spent (blocks : Array Block) (count position : Nat) :
    position ≤ seek blocks count position ∧ seek blocks count position ≤ position + count ∧
      ∀ i, position ≤ i → i < seek blocks count position → ∀ b, blocks[i]? = some b →
        b.next? = none := by
  induction count generalizing position with
  | zero => exact ⟨Nat.le_refl _, Nat.le_refl _, fun i hle hlt => by rw [seek] at hlt; omega⟩
  | succ count ih =>
    rw [seek]
    split
    next block hblock =>
      split
      next hnext => exact ⟨Nat.le_refl _, by omega, fun i hle hlt => by omega⟩
      next hnext =>
        obtain ⟨hlow, hhigh, hpassed⟩ := ih (position + 1)
        refine ⟨by omega, by omega, fun i hle hlt b hb => ?_⟩
        obtain rfl | hne := Nat.eq_or_lt_of_le hle
        · obtain rfl := Option.some.inj (hblock.symm.trans hb)
          simpa using hnext
        · exact hpassed i hne hlt b hb
    next => exact ⟨Nat.le_refl _, by omega, fun i hle hlt => by omega⟩

/-- The search ends early only at a block with a free cell. -/
theorem next?_of_seek_lt (h : seek blocks count position < position + count)
    (hb : blocks[seek blocks count position]? = some b) : b.next? ≠ none := by
  induction count generalizing position with
  | zero => rw [seek] at h; omega
  | succ count ih =>
    rw [seek] at h hb
    split at h
    next block hblock =>
      rw [hblock] at hb
      dsimp only at hb
      split at h
      next hnext =>
        rw [if_pos hnext, hblock] at hb
        obtain rfl := Option.some.inj hb
        exact Option.ne_none_iff_isSome.mpr hnext
      next hnext =>
        rw [if_neg hnext] at hb
        exact ih (by omega) hb
    next hnone =>
      rw [hnone] at hb
      simp [hnone] at hb

/-- Blocks without a free cell may be left out of the search. -/
theorem seek_skip {skipped : Nat} (h : ∀ i, position ≤ i → i < position + skipped →
      ∃ b, blocks[i]? = some b ∧ b.next? = none) :
    seek blocks (skipped + count) position = seek blocks count (position + skipped) := by
  induction skipped generalizing position with
  | zero => rw [Nat.zero_add, Nat.add_zero]
  | succ skipped ih =>
    obtain ⟨b, hb, hnext⟩ := h position (Nat.le_refl _) (by omega)
    rw [Nat.add_right_comm, seek, hb]
    simp only [hnext, Option.isSome_none, Bool.false_eq_true, if_false]
    rw [ih fun i hle hlt => h i (by omega) (by omega), Nat.add_right_comm, Nat.add_assoc]

theorem Passed.position_rewound (h : pool.Passed) : pool.rewound.position = pool.position := by
  have hskip : seek pool.blocks (pool.cursor + (pool.blocks.size - pool.cursor)) 0
      = seek pool.blocks (pool.blocks.size - pool.cursor) (0 + pool.cursor) :=
    seek_skip fun i _ hlt => by
      have hi : i < pool.blocks.size := Nat.lt_of_lt_of_le (by omega) h.cursor
      have hb := Array.getElem?_eq_getElem hi
      exact ⟨_, hb, h.spent i (by omega) _ hb⟩
  rw [Nat.add_sub_cancel' h.cursor, Nat.zero_add] at hskip
  exact hskip

/-- A pool finds a free cell unless it has none. -/
theorem Passed.next?_eq_none_iff (h : pool.Passed) :
    (pool.blocks[pool.position]?).bind Block.next? = none ↔
      ∀ (i : Nat) (b : Block), pool.blocks[i]? = some b → b.next? = none := by
  obtain ⟨-, -, hpassed⟩ := seek_spent pool.blocks (pool.blocks.size - pool.cursor) pool.cursor
  constructor
  · intro hnone i b hb
    have hi := (Array.getElem?_eq_some_iff.mp hb).1
    by_cases hearly : pool.position < pool.blocks.size
    · have hfound := Array.getElem?_eq_getElem hearly
      have hnext : pool.blocks[pool.position].next? ≠ none :=
        next?_of_seek_lt (Nat.lt_of_lt_of_eq hearly (Nat.add_sub_cancel' h.cursor).symm) hfound
      rw [hfound] at hnone
      exact absurd hnone hnext
    · by_cases hcursor : i < pool.cursor
      · exact h.spent i hcursor b hb
      · exact hpassed i (Nat.not_lt.mp hcursor) (Nat.lt_of_lt_of_le hi (Nat.not_lt.mp hearly)) b hb
  · intro hspent
    refine Option.bind_eq_none_iff.mpr fun b hb => hspent _ b hb

theorem passed_empty : Pool.empty.Passed :=
  ⟨Nat.le_refl _, fun _ hlt => absurd hlt (Nat.not_lt_zero _)⟩

theorem passed_sweep (pool : Pool) : pool.sweep.2.Passed :=
  ⟨Nat.zero_le _, fun _ hlt => absurd hlt (Nat.not_lt_zero _)⟩

theorem Passed.modifyBlock (h : pool.Passed) (i : Nat) {f : Block → Block}
    (hf : ∀ b, (f b).next? = b.next?) : (pool.modifyBlock i f).Passed := by
  refine ⟨Nat.le_trans h.cursor (Nat.le_of_eq Array.size_modify.symm), fun j hj b hb => ?_⟩
  rw [Pool.modifyBlock, Array.getElem?_modify] at hb
  split at hb
  · obtain ⟨b₀, hb₀, rfl⟩ := Option.map_eq_some_iff.mp hb
    exact (hf b₀).trans (h.spent j hj b₀ hb₀)
  · exact h.spent j hj b hb

/-- Taking a cell moves the cursor to the block that it comes from. -/
theorem Passed.takeAt (h : pool.Passed) : (pool.takeAt pool.position).Passed := by
  obtain ⟨hlow, hhigh, hpassed⟩ := seek_spent pool.blocks (pool.blocks.size - pool.cursor) pool.cursor
  rw [Nat.add_sub_cancel' h.cursor] at hhigh
  refine ⟨Nat.le_trans hhigh (Nat.le_of_eq Array.size_modify.symm), fun j hj b hb => ?_⟩
  change j < pool.position at hj
  change (pool.blocks.modify pool.position Block.dropFirst)[j]? = some b at hb
  rw [Array.getElem?_modify, if_neg (Nat.ne_of_gt hj)] at hb
  by_cases hcursor : j < pool.cursor
  · exact h.spent j hcursor b hb
  · exact hpassed j (Nat.not_lt.mp hcursor) hj b hb

theorem passed_push (h : ∀ (i : Nat) (b : Block), pool.blocks[i]? = some b → b.next? = none)
    (b : Block) : (pool.push b).Passed := by
  refine ⟨by simp [push], fun i hi b' hb' => ?_⟩
  change i < pool.blocks.size at hi
  change (pool.blocks.push b)[i]? = some b' at hb'
  rw [Array.getElem?_push, if_neg (Nat.ne_of_lt hi)] at hb'
  exact h i b' hb'

end Pool

/-! ## Spaces -/

namespace Space

variable {s : Space} {c : Nat}

/-- In every pool the blocks before the cursor have no free cell. -/
def Passed (s : Space) : Prop :=
  ∀ (c : Nat) (pool : Pool), s.pools[c]? = some pool → pool.Passed

theorem passed_new (maxFootprint : Nat) : (Space.new maxFootprint).Passed := by
  intro c pool hpool
  rw [Space.new, Array.getElem?_replicate] at hpool
  split at hpool
  · obtain rfl := Option.some.inj hpool
    exact Pool.passed_empty
  · cases hpool

theorem Passed.modify (h : s.Passed) {pools : Array Pool} {f : Pool → Pool}
    (hpools : pools = s.pools.modify c f)
    (hf : ∀ pool, s.pools[c]? = some pool → (f pool).Passed) :
    ∀ (c' : Nat) (pool : Pool), pools[c']? = some pool → pool.Passed := by
  intro c' pool hpool
  rw [hpools, Array.getElem?_modify] at hpool
  split at hpool
  next heq =>
    obtain ⟨pool₀, hpool₀, rfl⟩ := Option.map_eq_some_iff.mp hpool
    exact hf pool₀ (heq ▸ hpool₀)
  next => exact h c' pool hpool

theorem Passed.modifyCell (h : s.Passed) (a : Nat) (f : Cell → Cell) : (s.modifyCell a f).Passed := by
  unfold Space.modifyCell
  split
  next sizeClass index _ =>
    refine h.modify rfl fun pool hpool => (h _ pool hpool).modifyBlock index fun b => ?_
    rw [Block.modifyCell]
    split <;> rfl
  next => exact h

theorem Passed.takeCell (h : s.Passed) (c : Nat) : (s.takeCell c).2.Passed := by
  unfold Space.takeCell
  split
  · exact h
  next pool hpool =>
    refine h.modify rfl fun pool' hpool' => ?_
    obtain rfl := Option.some.inj (hpool.symm.trans hpool')
    exact (h c pool hpool).takeAt

/-- A size class has no cell to give if none of its blocks has a free one. -/
theorem Passed.takeCell_eq_none_iff (h : s.Passed) :
    (s.takeCell c).1 = none ↔ ∀ i b, s.block? c i = some b → b.next? = none := by
  unfold Space.takeCell block?
  split
  next hnone => simp [hnone]
  next pool hpool => simpa [hpool] using (h c pool hpool).next?_eq_none_iff

theorem block?_takeCell_of_none (h : s.Passed) (hnone : (s.takeCell c).1 = none) (c' i : Nat) :
    (s.takeCell c).2.block? c' i = s.block? c' i := by
  have hspent := h.takeCell_eq_none_iff.mp hnone
  unfold Space.takeCell
  split
  · rfl
  next pool hpool =>
    rw [block?_takeAt]
    split
    next heq =>
      rw [heq.1, heq.2]
      cases hb : s.block? c pool.position with
      | none => rfl
      | some b =>
        rw [Option.map_some, Block.dropFirst_of_free_eq_zero]
        simpa [Block.next?] using hspent _ b hb
    next => rfl

theorem Passed.addBlock (h : s.Passed) (hspent : ∀ i b, s.block? c i = some b → b.next? = none)
    (b : Block) : (s.addBlock c b).Passed := by
  refine h.modify (c := c) (f := (·.push b)) rfl fun pool hpool => Pool.passed_push (fun i b' hb' => ?_) b
  exact hspent i b' (by rw [block?, hpool]; exact hb')

theorem Passed.allocateSmall (h : s.Passed) (mode : Mode) (c : Nat) :
    (s.allocateSmall mode c).2.Passed := by
  have htake := h.takeCell c
  have hblocks := block?_takeCell_of_none h (c := c)
  have hnone := h.takeCell_eq_none_iff (c := c)
  unfold Space.allocateSmall
  revert htake hblocks hnone
  cases s.takeCell c with
  | mk address? t =>
    intro htake hblocks hnone
    cases address? with
    | some address => exact htake
    | none =>
      have hspent : ∀ i b, t.block? c i = some b → b.next? = none := fun i b hb =>
        hnone.mp rfl i b ((hblocks rfl c i).symm.trans hb)
      dsimp only
      split
      · exact htake
      · split
        · exact htake
        · exact htake
        · split
          · exact htake
          · exact Passed.addBlock (s := { t with pages := _ }) htake hspent _

theorem Passed.allocate (h : s.Passed) (mode : Mode) (kind : Kind) (words : Nat) :
    (s.allocate mode kind words).2.Passed := by
  have hbytes : (s.allocateBytes mode ((1 + words) * wordBytes)).2.Passed := by
    unfold allocateBytes
    split
    · exact h.allocateSmall mode _
    · unfold allocateLarge
      repeat' split
      all_goals exact h
  unfold Space.allocate
  split
  · exact h
  · revert hbytes
    rcases s.allocateBytes mode ((1 + words) * wordBytes) with ⟨fault | _ | address, t⟩
    · exact id
    · exact id
    · exact fun hbytes => hbytes.modifyCell _ _

theorem passed_sweep (s : Space) : s.sweep.2.Passed := by
  intro c pool hpool
  rw [pools_sweep, Array.getElem?_map] at hpool
  obtain ⟨pool₀, -, rfl⟩ := Option.map_eq_some_iff.mp hpool
  exact pool₀.passed_sweep

end Space

end Substrate
