import Substrate.Proofs.Space.Footprint

/-!
# What a sweep gives back

A sweep reports how many objects it freed, how many bytes they took, and how many bytes the others take.
In a settled space this adds up: the objects before the sweep are those that it kept and those that it
freed, and every one of them is refunded, or counted as live, with the bytes that it was charged with.
Empty blocks but one for each size class go back to the system, and so do the mappings of large objects.
-/

namespace Substrate

/-! ## Objects that are kept or lost -/

/-- The payload size of the object in a cell if a sweep keeps it. -/
def Cell.kept? (cell : Cell) : Option Nat :=
  if cell.header.kind = .free then none
  else if cell.header.marked then some cell.header.words else none

/-- The payload size of the object in a cell if a sweep frees it. -/
def Cell.lost? (cell : Cell) : Option Nat :=
  if cell.header.kind = .free then none
  else if cell.header.marked then none else some cell.header.words

def Block.kept (b : Block) : List Nat :=
  b.cells.toList.filterMap Cell.kept?

def Block.lost (b : Block) : List Nat :=
  b.cells.toList.filterMap Cell.lost?

def Large.kept (object : Large) : List Nat :=
  if object.cell.header.marked then [object.cell.header.words] else []

def Large.lost (object : Large) : List Nat :=
  if object.cell.header.marked then [] else [object.cell.header.words]

theorem perm_filterMap_kept (cells : List Cell) :
    (cells.filterMap Cell.size?).Perm
      (cells.filterMap Cell.kept? ++ cells.filterMap Cell.lost?) := by
  induction cells with
  | nil => exact .refl _
  | cons cell cells ih =>
    by_cases hkind : cell.header.kind = .free
    · simpa [Cell.size?, Cell.kept?, Cell.lost?, hkind] using ih
    · cases hmarked : cell.header.marked with
      | true => simpa [Cell.size?, Cell.kept?, Cell.lost?, hkind, hmarked] using ih
      | false =>
        simp only [List.filterMap_cons, Cell.size?, Cell.kept?, Cell.lost?, hkind, hmarked, if_false,
          Bool.false_eq_true]
        exact (ih.cons _).trans List.perm_middle.symm

namespace Space

variable {s : Space} {b : Block}

/-- The payload sizes of the objects that a sweep keeps. -/
def kept (s : Space) : List Nat :=
  s.blocks.flatMap Block.kept ++ s.larges.flatMap Large.kept

/-- The payload sizes of the objects that a sweep frees. -/
def lost (s : Space) : List Nat :=
  s.blocks.flatMap Block.lost ++ s.larges.flatMap Large.lost

theorem perm_flatMap_append {α : Type} {f g h : α → List Nat} (l : List α)
    (hl : ∀ a ∈ l, (f a).Perm (g a ++ h a)) :
    (l.flatMap f).Perm (l.flatMap g ++ l.flatMap h) := by
  induction l with
  | nil => exact .refl _
  | cons a l ih =>
    simp only [List.flatMap_cons, List.append_assoc]
    refine ((hl a List.mem_cons_self).append
      (ih fun a' ha' => hl a' (List.mem_cons_of_mem _ ha'))).trans ?_
    rw [List.append_assoc]
    refine List.Perm.append_left _ ?_
    rw [← List.append_assoc, ← List.append_assoc]
    exact List.perm_append_comm.append_right _

/-- Every object is kept or lost. -/
theorem perm_sizes (s : Space) : s.sizes.Perm (s.kept ++ s.lost) := by
  have hblocks := perm_flatMap_append s.blocks fun b _ => perm_filterMap_kept b.cells.toList
  have hlarges : (s.larges.map (·.cell.header.words)).Perm
      (s.larges.flatMap Large.kept ++ s.larges.flatMap Large.lost) := by
    rw [List.map_eq_flatMap]
    refine perm_flatMap_append s.larges fun object _ => ?_
    unfold Large.kept Large.lost
    split <;> exact .refl _
  refine (hblocks.append hlarges).trans ?_
  simp only [kept, lost, List.append_assoc]
  refine List.Perm.append_left _ ?_
  rw [← List.append_assoc, ← List.append_assoc]
  exact List.perm_append_comm.append_right _

end Space

/-! ## Reports -/

/-- What a sweep reports that keeps and frees objects with the given payloads. -/
def dues (kept lost : List Nat) : Swept :=
  ⟨lost.length, (lost.map bytesFor).sum, (kept.map bytesFor).sum⟩

theorem dues_add (kept lost kept' lost' : List Nat) :
    (dues kept lost).add (dues kept' lost') = dues (kept ++ kept') (lost ++ lost') := by
  simp [dues, Swept.add]

/-- Reports add up. -/
theorem foldl_dues {α : Type} {f : α → Swept} {g h : α → List Nat} {l : List α}
    (hl : ∀ a ∈ l, f a = dues (g a) (h a)) (kept lost : List Nat) :
    l.foldl (fun swept a => swept.add (f a)) (dues kept lost)
      = dues (kept ++ l.flatMap g) (lost ++ l.flatMap h) := by
  induction l generalizing kept lost with
  | nil => simp
  | cons a l ih =>
    rw [List.foldl_cons, hl a List.mem_cons_self, dues_add,
      ih fun a' ha' => hl a' (List.mem_cons_of_mem _ ha')]
    simp only [List.flatMap_cons, List.append_assoc]

/-- What a pass over an array has counted in the end. -/
theorem snd_run_mapM {σ α β : Type} (f : α → StateM σ β) (xs : Array α) (state : σ) :
    ((xs.mapM f).run state).2 = xs.toList.foldl (fun state a => ((f a).run state).2) state := by
  have hlist : ∀ (l : List α) (state : σ), ((l.mapM f).run state).2
      = l.foldl (fun state a => ((f a).run state).2) state := by
    intro l
    induction l with
    | nil =>
      intro state
      rfl
    | cons a l ih =>
      intro state
      rw [List.foldl_cons, ← ih, List.mapM_cons]
      rfl
  rw [Array.mapM_eq_mapM_toList, ← hlist]
  rfl

/-! ## Blocks -/

namespace Block

variable {b : Block}

/-- A pass over cells counts them. -/
theorem swept_sweepCells (cellBytes address : Nat) (cells : List Cell) :
    (sweepCells cellBytes address cells).swept
      = ⟨(cells.filterMap Cell.lost?).length, (cells.filterMap Cell.lost?).length * cellBytes,
          (cells.filterMap Cell.kept?).length * cellBytes⟩ := by
  induction cells generalizing address with
  | nil => simp [sweepCells, Swept.nothing]
  | cons cell behind ih =>
    simp only [sweepCells, fate, ih]
    by_cases hkind : cell.header.kind = .free
    · simp [Cell.lost?, Cell.kept?, hkind]
    · cases hmarked : cell.header.marked with
      | true => simp [Cell.lost?, Cell.kept?, hkind, hmarked, Swept.add, Nat.add_mul]
      | false => simp [Cell.lost?, Cell.kept?, hkind, hmarked, Swept.add, Nat.add_mul]

/-- A block reports the bytes of its cells. -/
theorem fst_sweep (b : Block) :
    b.sweep.1 = ⟨b.lost.length, b.lost.length * b.cellBytes, b.kept.length * b.cellBytes⟩ :=
  swept_sweepCells b.cellBytes b.start b.cells.toList

theorem mem_sizes_of_mem_kept {words : Nat} (h : words ∈ b.kept ∨ words ∈ b.lost) :
    words ∈ b.sizes :=
  (perm_filterMap_kept b.cells.toList).mem_iff.mpr (List.mem_append.mpr h)

/-- These are the bytes that the objects were charged with. -/
theorem Fitted.sweep (hb : b.Fitted) : b.sweep.1 = dues b.kept b.lost := by
  have hsum : ∀ l : List Nat, (∀ words ∈ l, words ∈ b.sizes) →
      (l.map bytesFor).sum = l.length * b.cellBytes := by
    intro l hl
    rw [List.map_congr_left fun words hwords => hb words (hl words hwords), List.map_const',
      List.sum_replicate_nat]
  rw [fst_sweep, dues, hsum _ fun _ h => mem_sizes_of_mem_kept (.inr h),
    hsum _ fun _ h => mem_sizes_of_mem_kept (.inl h)]

/-- What is in a swept block. -/
theorem Valid.sizes_sweep (hb : b.Valid) : b.sweep.2.sizes = b.kept := by
  have hcells : b.sweep.2.cells.toList.map Cell.size? = b.cells.toList.map Cell.kept? := by
    refine List.ext_getElem? fun i => ?_
    rw [List.getElem?_map, List.getElem?_map, Array.getElem?_toList, Array.getElem?_toList]
    cases hget : b.sweep.2.cells[i]? with
    | none =>
      have hle := Array.getElem?_eq_none_iff.mp hget
      rw [Array.getElem?_eq_none_iff.mpr (hb.size_sweep ▸ hle)]
      rfl
    | some c =>
      obtain ⟨cell, hcell, hkept, rfl⟩ | ⟨cell, link, hcell, hkept, rfl⟩ := hb.cell_sweep hget
      · have hsome : cell.kept? = some cell.header.words := by
          rw [Cell.kept?, if_neg hkept.1, if_pos hkept.2]
        rw [hcell, Option.map_some, Option.map_some, hsome]
        exact congrArg some (if_neg hkept.1)
      · have hnone : cell.kept? = none := by
          rw [Cell.kept?]
          split
          · rfl
          next hkind => exact if_neg fun hmarked => hkept ⟨hkind, hmarked⟩
        rw [hcell, Option.map_some, Option.map_some, hnone]
        rfl
  have hfilter : ∀ (f : Cell → Option Nat) (l : List Cell),
      l.filterMap f = (l.map f).filterMap id := by
    intro f l
    rw [List.filterMap_map, Function.id_comp]
  rw [sizes, kept, hfilter, hcells, ← hfilter]

/-- An empty block holds no objects. -/
theorem Valid.sizes_of_isEmpty (hb : b.Valid) (hempty : b.isEmpty = true) : b.sizes = [] := by
  refine List.filterMap_eq_nil_iff.mpr fun cell hcell => ?_
  obtain ⟨i, hi⟩ := Array.mem_iff_getElem?.mp (Array.mem_toList_iff.mp hcell)
  by_contra hsome
  have hkind : cell.header.kind ≠ .free := fun hkind => hsome (if_pos hkind)
  rw [hb.isEmpty_eq_false hi hkind] at hempty
  cases hempty

end Block

/-! ## Pools -/

namespace Pool

variable {blocks : Array Block}

/-- Blocks that are given back hold nothing. -/
theorem flatMap_withoutSpares (h : ∀ b ∈ blocks, b.isEmpty = true → b.sizes = []) :
    (withoutSpares blocks).toList.flatMap Block.sizes = blocks.toList.flatMap Block.sizes := by
  have hfilter : ∀ (p : Block × Nat → Bool) (l : List (Block × Nat)),
      (∀ entry ∈ l, p entry = false → entry.1.sizes = []) →
      (l.filter p).flatMap (fun entry => entry.1.sizes) = l.flatMap fun entry => entry.1.sizes := by
    intro p l hl
    induction l with
    | nil => rfl
    | cons entry l ih =>
      have hrest := ih fun entry' hentry' => hl entry' (List.mem_cons_of_mem _ hentry')
      cases hp : p entry with
      | true => rw [List.filter_cons_of_pos hp, List.flatMap_cons, List.flatMap_cons, hrest]
      | false =>
        rw [List.filter_cons_of_neg (by simp [hp]), hrest, List.flatMap_cons,
          hl entry List.mem_cons_self hp, List.nil_append]
  rw [toList_withoutSpares, List.flatMap_map, hfilter, ← List.flatMap_map, List.zipIdx_map_fst]
  intro entry hentry hp
  rw [Bool.or_eq_false_iff, Bool.not_eq_false'] at hp
  have hmem : entry.1 ∈ blocks.toList := List.fst_mem_of_mem_zipIdx hentry
  exact h entry.1 (Array.mem_toList_iff.mp hmem) hp.1

/-- At most one block without an object is kept. -/
theorem length_spares (blocks : Array Block) :
    ((withoutSpares blocks).toList.filter Block.isEmpty).length ≤ 1 := by
  rw [toList_withoutSpares, List.filter_map, List.length_map, List.filter_filter]
  generalize hl : blocks.toList.zipIdx.filter _ = l
  -- what is left of the blocks without objects is at the place of the first of them
  have hsubset : l.map (·.2) ⊆ (blocks.findIdx? Block.isEmpty).toList := by
    intro i hi
    obtain ⟨entry, hentry, rfl⟩ := List.mem_map.mp hi
    rw [← hl, List.mem_filter] at hentry
    have hempty := hentry.2
    simp only [Function.comp_apply, Bool.and_eq_true, Bool.or_eq_true, Bool.not_eq_true'] at hempty
    obtain ⟨hempty, hfalse | hspare⟩ := hempty
    · rw [hempty] at hfalse
      cases hfalse
    · exact Option.mem_toList.mpr (beq_iff_eq.mp hspare).symm
  have hnodup : (l.map (·.2)).Nodup := by
    rw [← hl]
    refine List.Nodup.sublist (List.filter_sublist.map _) ?_
    rw [List.zipIdx_map_snd]
    exact List.nodup_range'
  calc l.length = (l.map (·.2)).length := (List.length_map _).symm
    _ ≤ (blocks.findIdx? Block.isEmpty).toList.length := hnodup.length_le_of_subset hsubset
    _ ≤ 1 := by cases blocks.findIdx? Block.isEmpty <;> simp

theorem fst_sweep (pool : Pool) : pool.sweep.1
    = pool.blocks.toList.foldl (fun swept b => swept.add b.sweep.1) .nothing :=
  snd_run_mapM (fun b : Block => do
    modify fun swept : Swept => swept.add b.sweep.1
    return b.sweep.2) pool.blocks .nothing

end Pool

/-! ## The space -/

namespace Space

variable {s : Space}

theorem mem_blocks_of_mem {pool : Pool} {b : Block} (hpool : pool ∈ s.pools.toList)
    (hb : b ∈ pool.blocks.toList) : b ∈ s.blocks :=
  List.mem_flatten.mpr ⟨_, List.mem_map.mpr ⟨pool, hpool, rfl⟩, hb⟩

theorem flatMap_blocks (s : Space) (f : Block → List Nat) :
    s.blocks.flatMap f = s.pools.toList.flatMap fun pool => pool.blocks.toList.flatMap f := by
  rw [Space.blocks, rows, ← List.flatMap_def, List.flatMap_assoc]

theorem blocks_sweep (s : Space) : s.sweep.2.blocks = s.pools.toList.flatMap fun pool =>
    (Pool.withoutSpares (pool.blocks.map (·.sweep.2))).toList := by
  rw [Space.blocks, rows, pools_sweep, Array.toList_map, List.map_map, ← List.flatMap_def]
  exact List.flatMap_congr fun pool _ => congrArg Array.toList pool.blocks_sweep

theorem larges_sweep (s : Space) : s.sweep.2.larges
    = (s.larges.filter (·.cell.header.marked)).map fun object =>
      { object with cell := Block.unmarked object.cell } := by
  have hlarge : s.sweep.2.large = (s.large.filter fun _ object => object.cell.header.marked).map
      fun _ object => { object with cell := Block.unmarked object.cell } := rfl
  rw [larges, hlarge, Std.TreeMap.toList_map, Std.TreeMap.toList_filter, larges, List.filter_map,
    List.map_map, List.map_map]
  rfl

/-- A sweep leaves what it keeps. -/
theorem Valid.sizes_sweep (hs : s.Valid) : s.sweep.2.sizes = s.kept := by
  have hblocks : s.sweep.2.blocks.flatMap Block.sizes = s.blocks.flatMap Block.kept := by
    rw [blocks_sweep, List.flatMap_assoc, flatMap_blocks]
    refine List.flatMap_congr fun pool hpool => ?_
    have hvalid : ∀ b ∈ pool.blocks.toList, b.Valid := by
      intro b hb
      obtain ⟨c, i, hb⟩ := mem_blocks.mp (mem_blocks_of_mem hpool hb)
      exact (hs.blocks c i b hb).1
    rw [Pool.flatMap_withoutSpares, Array.toList_map, List.flatMap_map]
    · exact List.flatMap_congr fun b hb => (hvalid b hb).sizes_sweep
    · intro b hb hempty
      obtain ⟨b₀, hb₀, rfl⟩ := Array.mem_map.mp hb
      exact (hvalid b₀ (Array.mem_toList_iff.mpr hb₀)).sweep.sizes_of_isEmpty hempty
  have hlarges : s.sweep.2.larges.map (·.cell.header.words) = s.larges.flatMap Large.kept := by
    rw [larges_sweep, List.map_map]
    induction s.larges with
    | nil => rfl
    | cons object rest ih =>
      rw [List.flatMap_cons, ← ih, Large.kept, List.filter_cons]
      split <;> rfl
  rw [sizes, hblocks, hlarges, kept]

theorem fst_sweepPools (s : Space) : s.sweepPools.1
    = s.pools.toList.foldl (fun swept pool => swept.add pool.sweep.1) .nothing :=
  snd_run_mapM (fun pool : Pool => do
    modify fun swept : Swept => swept.add pool.sweep.1
    return pool.sweep.2) s.pools .nothing

theorem fst_sweepLarges (s : Space) : s.sweepLarges.1
    = s.larges.foldl (fun swept object => swept.add (sweepLarge object)) .nothing := by
  rw [larges, List.foldl_map, sweepLarges]
  exact Std.TreeMap.foldl_eq_foldl_toList

/-- A sweep of a settled space refunds what it frees and counts what it keeps. -/
theorem Settled.sweep_report (hs : s.Settled) : s.sweep.1 = dues s.kept s.lost := by
  have hnothing : Swept.nothing = dues [] [] := rfl
  have hpool : ∀ pool ∈ s.pools.toList, pool.sweep.1
      = dues (pool.blocks.toList.flatMap Block.kept) (pool.blocks.toList.flatMap Block.lost) := by
    intro pool hpool
    rw [Pool.fst_sweep, hnothing,
      foldl_dues fun b hb => (hs.blocks b (mem_blocks_of_mem hpool hb)).sweep]
    rfl
  have hlarge : ∀ object ∈ s.larges, sweepLarge object = dues object.kept object.lost := by
    intro object hobject
    have hbytes := (hs.larges object hobject).1
    rw [sweepLarge, Large.kept, Large.lost]
    split <;> simp [dues, hbytes]
  have hsmall : s.sweepPools.1 = dues (s.blocks.flatMap Block.kept) (s.blocks.flatMap Block.lost) := by
    rw [fst_sweepPools, hnothing, foldl_dues hpool, flatMap_blocks, flatMap_blocks]
    rfl
  have hlarges : s.sweepPools.2.sweepLarges.1
      = dues (s.larges.flatMap Large.kept) (s.larges.flatMap Large.lost) := by
    rw [fst_sweepLarges, hnothing]
    exact foldl_dues hlarge [] []
  show s.sweepPools.1.add s.sweepPools.2.sweepLarges.1 = _
  rw [hsmall, hlarges, dues_add, kept, lost]

/-! ## The footprint -/

theorem foldl_size (pools : Array Pool) :
    pools.foldl (fun total pool => total + pool.blocks.size) 0
      = (pools.toList.map fun pool => pool.blocks.toList).flatten.length := by
  rw [← Array.foldl_toList, List.length_flatten, List.map_map, List.sum_eq_foldl, List.foldl_map]
  rfl

theorem footprint_sweep (s : Space) : s.sweep.2.footprint
    = s.footprint - (s.blocks.length - s.sweep.2.blocks.length) * blockBytes
      - ((s.larges.filter fun object => !object.cell.header.marked).map (·.bytes)).sum := by
  have hbefore := foldl_size s.pools
  have hafter := foldl_size s.sweep.2.pools
  have hfreed : s.large.foldl (fun freed _ object =>
      if object.cell.header.marked then freed else freed + object.bytes) 0
      = ((s.larges.filter fun object => !object.cell.header.marked).map (·.bytes)).sum := by
    have hfoldl : ∀ (l : List Large) (freed : Nat), l.foldl (fun freed object =>
        if object.cell.header.marked then freed else freed + object.bytes) freed
        = freed + ((l.filter fun object => !object.cell.header.marked).map (·.bytes)).sum := by
      intro l
      induction l with
      | nil => exact fun _ => rfl
      | cons object l ih =>
        intro freed
        rw [List.foldl_cons, ih, List.filter_cons]
        cases object.cell.header.marked <;> simp [Nat.add_assoc]
    rw [Std.TreeMap.foldl_eq_foldl_toList, ← Nat.zero_add (List.sum _), ← hfoldl, larges,
      List.foldl_map]
  rw [← hfreed, Space.blocks, Space.blocks, rows, rows, ← hbefore, ← hafter]
  rfl

/-- No sweep adds a block. -/
theorem length_blocks_sweep (s : Space) : s.sweep.2.blocks.length ≤ s.blocks.length := by
  rw [blocks_sweep, Space.blocks, rows, ← List.flatMap_def]
  induction s.pools.toList with
  | nil => exact Nat.le_refl 0
  | cons pool rest ih =>
    have hpool := (Pool.withoutSpares_sublist (pool.blocks.map (·.sweep.2))).length_le
    rw [Array.length_toList, Array.length_toList, Array.size_map] at hpool
    simp only [List.flatMap_cons, List.length_append, Array.length_toList]
    exact Nat.add_le_add hpool ih

/-- A settled space is settled after a sweep. -/
theorem Settled.sweep (hs : s.Settled) (hvalid : s.Valid) : s.sweep.2.Settled := by
  have hlarges : (s.sweep.2.larges.map (·.bytes)).sum
      + ((s.larges.filter fun object => !object.cell.header.marked).map (·.bytes)).sum
      = (s.larges.map (·.bytes)).sum := by
    rw [larges_sweep, List.map_map]
    induction s.larges with
    | nil => rfl
    | cons object rest ih =>
      rw [List.filter_cons, List.filter_cons, List.map_cons, List.sum_cons, ← ih]
      cases object.cell.header.marked <;> simp <;> omega
  have hfootprint : s.sweep.2.footprint
      = blockBytes * s.sweep.2.blocks.length + (s.sweep.2.larges.map (·.bytes)).sum := by
    have hle := length_blocks_sweep s
    rw [footprint_sweep, hs.footprint, ← hlarges]
    simp only [blockBytes]
    omega
  refine ⟨fun b hb => ?_, fun object hobject => ?_, hfootprint, ?_⟩
  · obtain ⟨c, i, hb⟩ := mem_blocks.mp hb
    obtain ⟨i₀, b₀, hb₀, rfl⟩ := block_of_sweep hb
    intro words hwords
    rw [(hvalid.blocks c i₀ b₀ hb₀).1.sizes_sweep] at hwords
    exact hs.blocks b₀ (mem_blocks.mpr ⟨c, i₀, hb₀⟩) words
      (Block.mem_sizes_of_mem_kept (.inl hwords))
  · rw [larges_sweep] at hobject
    obtain ⟨object₀, hobject₀, rfl⟩ := List.mem_map.mp hobject
    exact hs.larges object₀ (List.mem_of_mem_filter hobject₀)
  · have hle : s.sweep.2.footprint ≤ s.footprint := by
      rw [footprint_sweep]
      omega
    exact Nat.le_trans hle hs.bounded

end Space

end Substrate
