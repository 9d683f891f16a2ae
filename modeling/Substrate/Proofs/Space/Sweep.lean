import Substrate.Proofs.Space.Allocation

/-!
# Sweeping the space

A sweep drops blocks, moves others to new places and rebuilds the index. Seen through
`Space.object?`, none of this shows: the objects with a mark stay where they were, without it, and
all others are gone.
-/

namespace Substrate

/-! ## Going through an array -/

/-- A pass over an array that counts something on the way yields what a plain pass does. -/
theorem fst_run_mapM {σ α β : Type} {f : α → StateM σ β} {g : α → β}
    (h : ∀ a state, ((f a).run state).1 = g a) (xs : Array α) (state : σ) :
    ((xs.mapM f).run state).1 = xs.map g := by
  have hlist : ∀ (l : List α) (state : σ), ((l.mapM f).run state).1 = l.map g := by
    intro l
    induction l with
    | nil =>
      intro state
      rfl
    | cons a l ih =>
      intro state
      have ha := h a state
      simp only [List.mapM_cons, List.map_cons]
      rw [← ha, ← ih ((f a).run state).2]
      rfl
  rw [Array.mapM_eq_mapM_toList]
  apply Array.toList_inj.mp
  rw [Array.toList_map, ← hlist xs.toList state]
  rfl

section Index

variable {β : Type} {l : List (Nat × β)} {k : Nat} {v : β}

/-- What a table holds after entries were put into it, no two of which contradict each other. -/
theorem getElem?_foldl_insert (h : ∀ k v v', (k, v) ∈ l → (k, v') ∈ l → v = v')
    (t : Std.TreeMap Nat β) :
    (l.foldl (fun t entry => t.insert entry.1 entry.2) t)[k]? = some v ↔
      (k, v) ∈ l ∨ (∀ v', (k, v') ∉ l) ∧ t[k]? = some v := by
  induction l generalizing t with
  | nil => simp
  | cons entry l ih =>
    obtain ⟨k₀, v₀⟩ := entry
    rw [List.foldl_cons, ih fun k v v' hv hv' => h k v v' (.tail _ hv) (.tail _ hv')]
    simp only [Std.TreeMap.getElem?_insert, Nat.compare_eq_eq, List.mem_cons, Prod.mk.injEq]
    by_cases hk : k₀ = k
    · subst hk
      simp only [true_and, if_true, Option.some.injEq]
      have hv₀ : ∀ v', (k₀, v') ∈ l → v' = v₀ := fun v' hv' => h k₀ v' v₀ (.tail _ hv') (.head _)
      grind
    · grind

end Index

/-! ## Blocks that are kept -/

namespace Block

variable {b : Block} {i : Nat} {cell : Cell}

/-- A block with an object in it is not empty. -/
theorem Valid.isEmpty_eq_false (hb : b.Valid) (hcell : b.cells[i]? = some cell)
    (hkind : cell.header.kind ≠ .free) : b.isEmpty = false := by
  obtain ⟨indices, hlist⟩ := hb.listed
  have hi : i ∉ indices := hlist.not_mem hcell hkind
  -- the cell of the object and the free ones are different cells of the block
  have hlength : (i :: indices).length ≤ (List.range b.cells.size).length := by
    refine List.Nodup.length_le_of_subset (List.nodup_cons.mpr ⟨hi, hlist.nodup⟩) fun j hj => ?_
    rw [List.mem_range]
    rcases List.mem_cons.mp hj with rfl | hj
    · exact (Array.getElem?_eq_some_iff.mp hcell).1
    · obtain ⟨c, hc, -⟩ := (hlist.mem_iff j).mp hj
      exact (Array.getElem?_eq_some_iff.mp hc).1
  have hcount := hlist.count
  simp only [List.length_cons, List.length_range] at hlength
  simp only [isEmpty, beq_eq_false_iff_ne]
  omega

end Block

namespace Pool

variable {b b' : Block} {blocks : Array Block} {i j : Nat}

theorem toList_withoutSpares (blocks : Array Block) :
    (withoutSpares blocks).toList = ((blocks.toList.zipIdx.filter fun (block, index) =>
      !block.isEmpty || some index == blocks.findIdx? Block.isEmpty).map (·.1)) := by
  simp [withoutSpares]

/-- The kept blocks stay in their order. -/
theorem withoutSpares_sublist (blocks : Array Block) :
    (withoutSpares blocks).toList.Sublist blocks.toList := by
  rw [toList_withoutSpares]
  have hmap := (List.filter_sublist (p := fun (block, index) =>
    !block.isEmpty || some index == blocks.findIdx? Block.isEmpty)
    (l := blocks.toList.zipIdx)).map (·.1)
  rwa [List.zipIdx_map_fst] at hmap

/-- A block with an object in it is kept. -/
theorem mem_withoutSpares (h : b ∈ blocks) (hb : b.isEmpty = false) : b ∈ withoutSpares blocks := by
  rw [← Array.mem_toList_iff, toList_withoutSpares, List.mem_map]
  obtain ⟨i, hi, rfl⟩ := Array.mem_iff_getElem.mp h
  refine ⟨(blocks[i], i), List.mem_filter.mpr ⟨?_, by simp [hb]⟩, rfl⟩
  rw [List.mem_zipIdx_iff_getElem?]
  simp

/-- Sweeping a pool sweeps its blocks and gives spare ones back. -/
theorem blocks_sweep (pool : Pool) :
    pool.sweep.2.blocks = withoutSpares (pool.blocks.map (·.sweep.2)) := by
  have hswept := fst_run_mapM (σ := Swept) (g := fun block : Block => block.sweep.2)
    (f := fun block => do
      modify (·.add block.sweep.1)
      return block.sweep.2) (fun _ _ => rfl) pool.blocks .nothing
  exact congrArg withoutSpares hswept

end Pool

namespace Space

variable {s : Space} {a c c' i i' j x : Nat} {b b' : Block} {cell : Cell}

/-! ## The index -/

/-- The entries of the index of the given pools. -/
def entries (pools : Array Pool) : List (Nat × Nat × Nat) :=
  pools.toList.zipIdx.flatMap fun (pool, c) =>
    pool.blocks.toList.zipIdx.map fun (b, i) => (b.start, c, i)

theorem indexBlocks_eq (pools : Array Pool) :
    indexBlocks pools = (entries pools).foldl (fun t entry => t.insert entry.1 entry.2) ∅ := by
  simp only [indexBlocks, entries, List.foldl_flatMap, List.foldl_map, ← Array.foldl_toList,
    Array.toList_zipIdx]

theorem mem_entries {pools : Array Pool} {base : Nat} :
    (base, c, i) ∈ entries pools ↔
      ∃ b, pools[c]?.bind (·.blocks[i]?) = some b ∧ b.start = base := by
  simp only [entries, List.mem_flatMap, List.mem_map, Prod.exists, Prod.mk.injEq,
    List.mk_mem_zipIdx_iff_getElem?, Array.getElem?_toList, Option.bind_eq_some_iff]
  constructor
  · rintro ⟨pool, c', hpool, b, i', hb, hstart, rfl, rfl⟩
    exact ⟨b, ⟨pool, hpool, hb⟩, hstart⟩
  · rintro ⟨b, ⟨pool, hpool, hb⟩, hstart⟩
    exact ⟨pool, c, hpool, b, i, hb, hstart, rfl, rfl⟩

/-! ## Swept blocks -/

theorem pools_sweep (s : Space) : s.sweep.2.pools = s.pools.map (·.sweep.2) := by
  have hswept := fst_run_mapM (σ := Swept) (g := fun pool : Pool => pool.sweep.2)
    (f := fun pool => do
      modify (·.add pool.sweep.1)
      return pool.sweep.2) (fun _ _ => rfl) s.pools .nothing
  exact hswept

theorem blockIndex_sweep (s : Space) : s.sweep.2.blockIndex = indexBlocks s.sweep.2.pools := rfl

/-- The blocks of a swept space, by pool. -/
theorem block?_sweep (s : Space) (c i : Nat) :
    s.sweep.2.block? c i = s.pools[c]?.bind fun pool =>
      (Pool.withoutSpares (pool.blocks.map (·.sweep.2)))[i]? := by
  rw [block?, pools_sweep, Array.getElem?_map]
  cases s.pools[c]? with
  | none => rfl
  | some pool => simp [Pool.blocks_sweep]

/-- Every block of a swept space is a block of the space, swept. -/
theorem block_of_sweep (h : s.sweep.2.block? c i = some b') :
    ∃ i₀ b, s.block? c i₀ = some b ∧ b' = b.sweep.2 := by
  rw [block?_sweep] at h
  obtain ⟨pool, hpool, hget⟩ := Option.bind_eq_some_iff.mp h
  have hmem := Array.mem_toList_iff.mpr (Array.mem_of_getElem? hget)
  have hswept := Array.mem_toList_iff.mp ((Pool.withoutSpares_sublist _).subset hmem)
  obtain ⟨b, hb, rfl⟩ := Array.mem_map.mp hswept
  obtain ⟨i₀, hi₀⟩ := Array.mem_iff_getElem?.mp hb
  exact ⟨i₀, b, by simp [block?, hpool, hi₀], rfl⟩

/-- A block is still there after a sweep that left an object in it. -/
theorem exists_block_sweep (h : s.block? c i = some b) (hb : b.sweep.2.isEmpty = false) :
    ∃ i', s.sweep.2.block? c i' = some b.sweep.2 := by
  obtain ⟨pool, hpool, hget⟩ := Option.bind_eq_some_iff.mp h
  have hswept : b.sweep.2 ∈ pool.blocks.map (·.sweep.2) :=
    Array.mem_map.mpr ⟨b, Array.mem_of_getElem? hget, rfl⟩
  obtain ⟨i', hi'⟩ := Array.mem_iff_getElem?.mp (Pool.mem_withoutSpares hswept hb)
  exact ⟨i', by rw [block?_sweep, hpool]; exact hi'⟩

/-- The blocks of a pool start at different addresses. -/
theorem Valid.starts (hs : s.Valid) {pool : Pool} (h : s.pools[c]? = some pool) :
    pool.blocks.toList.Pairwise fun b b' => b.start ≠ b'.start := by
  rw [List.pairwise_iff_getElem]
  intro i j hi hj hlt heq
  have hblock : ∀ k (hk : k < pool.blocks.toList.length),
      s.block? c k = some pool.blocks.toList[k] := by
    intro k hk
    rw [block?, h, Option.bind_some, ← Array.getElem?_toList, List.getElem?_eq_getElem hk]
  have := (hs.block_unique (hblock i hi) (hblock j hj) heq).2
  omega

theorem Valid.block_sweep_unique (hs : s.Valid) (h : s.sweep.2.block? c i = some b)
    (h' : s.sweep.2.block? c' i' = some b') (heq : b.start = b'.start) : c = c' ∧ i = i' := by
  obtain ⟨i₀, b₀, h₀, rfl⟩ := block_of_sweep h
  obtain ⟨i₀', b₀', h₀', rfl⟩ := block_of_sweep h'
  obtain ⟨rfl, -⟩ := hs.block_unique h₀ h₀' heq
  refine ⟨rfl, ?_⟩
  rw [block?_sweep] at h h'
  obtain ⟨pool, hpool, hget⟩ := Option.bind_eq_some_iff.mp h
  rw [hpool, Option.bind_some] at h'
  -- the kept blocks are among the swept ones, and a sweep moves no block
  have hstarts : (Pool.withoutSpares (pool.blocks.map (·.sweep.2))).toList.Pairwise
      fun b b' => b.start ≠ b'.start := by
    refine List.Pairwise.sublist (Pool.withoutSpares_sublist _) ?_
    rw [Array.toList_map, List.pairwise_map]
    exact hs.starts hpool
  rw [← Array.getElem?_toList] at hget h'
  obtain ⟨hi, hgeti⟩ := List.getElem?_eq_some_iff.mp hget
  obtain ⟨hi', hgeti'⟩ := List.getElem?_eq_some_iff.mp h'
  rw [List.pairwise_iff_getElem] at hstarts
  rcases Nat.lt_trichotomy i i' with hlt | heq' | hlt
  · exact absurd (by rw [hgeti, hgeti']; exact heq) (hstarts i i' hi hi' hlt)
  · exact heq'
  · exact absurd (by rw [hgeti, hgeti']; exact heq.symm) (hstarts i' i hi' hi hlt)

/-! ## Swept large objects -/

theorem getElem?_large_sweep (s : Space) (a : Nat) :
    s.sweep.2.large[a]? = ((s.large[a]?).filter (·.cell.header.marked)).map fun object =>
      { object with cell := Block.unmarked object.cell } := by
  show (s.sweepPools.2.sweepLarges.2).large[a]? = _
  simp only [sweepLarges, Std.TreeMap.getElem?_map, Std.TreeMap.getElem?_filter']
  rfl

theorem large_of_sweep {object' : Large} (h : s.sweep.2.large[a]? = some object') :
    ∃ object, s.large[a]? = some object ∧ object.cell.header.marked = true ∧
      object' = { object with cell := Block.unmarked object.cell } := by
  rw [getElem?_large_sweep] at h
  obtain ⟨object, hobject, rfl⟩ := Option.map_eq_some_iff.mp h
  obtain ⟨hlarge, hmarked⟩ := Option.filter_eq_some_iff.mp hobject
  exact ⟨object, hlarge, hmarked, rfl⟩

/-! ## Swept spaces -/

theorem Valid.sweep (hs : s.Valid) : s.sweep.2.Valid := by
  refine ⟨?_, fun c i b h => ?_, fun base c i => ?_, fun a object h => ?_,
    fun a a' object object' h h' hlt => ?_, fun a object c i b h h' => ?_⟩
  · rw [pools_sweep, Array.size_map, hs.pools]
  · obtain ⟨i₀, b₀, h₀, rfl⟩ := block_of_sweep h
    obtain ⟨hvalid, hclass⟩ := hs.blocks c i₀ b₀ h₀
    exact ⟨hvalid.sweep, hclass⟩
  · rw [blockIndex_sweep, indexBlocks_eq, getElem?_foldl_insert]
    · simp only [mem_entries]
      exact ⟨fun h => h.resolve_right (by simp), .inl⟩
    · rintro k ⟨c, i⟩ ⟨c', i'⟩ hv hv'
      obtain ⟨b, hb, rfl⟩ := mem_entries.mp hv
      obtain ⟨b', hb', heq⟩ := mem_entries.mp hv'
      obtain ⟨rfl, rfl⟩ := hs.block_sweep_unique hb hb' heq.symm
      rfl
  · obtain ⟨object₀, h₀, -, rfl⟩ := large_of_sweep h
    obtain ⟨haligned, hpos, hbound, hfits, hkind⟩ := hs.large a object₀ h₀
    exact ⟨haligned, hpos, hbound, hfits, hkind⟩
  · obtain ⟨object₀, h₀, -, rfl⟩ := large_of_sweep h
    obtain ⟨object₀', h₀', -, -⟩ := large_of_sweep h'
    exact hs.larges a a' object₀ object₀' h₀ h₀' hlt
  · obtain ⟨object₀, h₀, -, rfl⟩ := large_of_sweep h
    obtain ⟨i₀, b₀, hb₀, rfl⟩ := block_of_sweep h'
    exact hs.apart a object₀ c i₀ b₀ h₀ hb₀

/-- After a sweep the objects that had a mark are where they were, without it; the others are
gone. -/
theorem Valid.object?_sweep (hs : s.Valid) (x : Nat) :
    s.sweep.2.object? x = ((s.object? x).filter (·.header.marked)).map Block.unmarked := by
  ext cell
  rw [hs.sweep.object?_eq_some_iff]
  simp only [Option.map_eq_some_iff, Option.filter_eq_some_iff, hs.object?_eq_some_iff]
  constructor
  · rintro (⟨hb, hcell, hkind, rfl⟩ | ⟨hobject, rfl⟩)
    · obtain ⟨i₀, b₀, h₀, rfl⟩ := block_of_sweep hb
      obtain ⟨cell₀, hcell₀, hkept, rfl⟩ :=
        (hs.blocks _ i₀ b₀ h₀).1.object_sweep_iff.mp ⟨hcell, hkind⟩
      exact ⟨cell₀, ⟨.small h₀ hcell₀ hkept.1 rfl, hkept.2⟩, rfl⟩
    · obtain ⟨object₀, h₀, hmarked, rfl⟩ := large_of_sweep hobject
      exact ⟨object₀.cell, ⟨.large h₀ rfl, hmarked⟩, rfl⟩
  · rintro ⟨cell₀, ⟨hhome, hmarked⟩, rfl⟩
    cases hhome with
    | @small c i j b hb hcell hkind haddress =>
      have hvalid := (hs.blocks c i b hb).1
      obtain ⟨hswept, hkind'⟩ := hvalid.object_sweep_iff.mpr ⟨cell₀, hcell, ⟨hkind, hmarked⟩, rfl⟩
      obtain ⟨i', hi'⟩ :=
        exists_block_sweep hb (hvalid.sweep.isEmpty_eq_false hswept hkind')
      exact .small hi' hswept hkind' haddress
    | @large object hobject hcell =>
      subst hcell
      have hswept : s.sweep.2.large[x]?
          = some { object with cell := Block.unmarked object.cell } := by
        rw [getElem?_large_sweep, hobject, Option.filter, if_pos hmarked, Option.map_some]
      exact .large hswept rfl

end Space

end Substrate
