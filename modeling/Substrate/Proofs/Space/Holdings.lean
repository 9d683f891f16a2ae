import Mathlib.Algebra.BigOperators.Group.List.Basic
import Mathlib.Algebra.GroupWithZero.Nat
import Mathlib.Data.List.Nodup
import Substrate.Proofs.Space.Sweep

/-!
# What a space holds

All blocks of a space, all its large objects, and the payload sizes of all objects in them. Most of what
happens to a space leaves these alone: `Space.outline` is what marks, flags and writes do not change.
An allocation adds one size; `Space.sizes` counts every object of `Space.objects` once.
-/

namespace Substrate

/-! ## Lists -/

section Lists

variable {α β : Type} {l l' : List α} {i : Nat} {a : α}

/-- A list around one of its places. -/
theorem exists_split (h : l[i]? = some a) :
    ∃ xs ys, l = xs ++ a :: ys ∧ ∀ f, l.modify i f = xs ++ f a :: ys := by
  obtain ⟨hi, rfl⟩ := List.getElem?_eq_some_iff.mp h
  refine ⟨l.take i, l.drop (i + 1), ?_, fun f => List.modify_eq_take_cons_drop hi⟩
  rw [← List.drop_eq_getElem_cons hi, List.take_append_drop]

/-- A change that does not show leaves what is seen of the list. -/
theorem map_modify_eq {g : α → β} {f : α → α} (h : ∀ a, g (f a) = g a) (l : List α) (i : Nat) :
    (l.modify i f).map g = l.map g := by
  refine List.ext_getElem? fun j => ?_
  rw [List.getElem?_map, List.getElem?_map, List.getElem?_modify]
  split
  · cases l[j]? with
    | none => rfl
    | some a => exact congrArg some (h a)
  · simp

/-- Rows of the same length with the same entries are the same. -/
theorem rows_ext {l l' : List (List α)} (hlength : l.length = l'.length)
    (h : ∀ c i : Nat, l[c]?.bind (·[i]?) = l'[c]?.bind (·[i]?)) : l = l' := by
  refine List.ext_getElem hlength fun c hc hc' => List.ext_getElem? fun i => ?_
  have hrow := h c i
  rwa [List.getElem?_eq_getElem hc, List.getElem?_eq_getElem hc', Option.bind_some,
    Option.bind_some] at hrow

end Lists

/-! ## Sizes -/

/-- The payload size of the object in a cell. -/
def Cell.size? (cell : Cell) : Option Nat :=
  if cell.header.kind = .free then none else some cell.header.words

/-- The payload sizes of the objects in a block. -/
def Block.sizes (b : Block) : List Nat :=
  b.cells.toList.filterMap Cell.size?

/-- What marks, flags and writes do not change of a block. -/
def Block.outline (b : Block) : Nat × List (Option Nat) :=
  (b.cellBytes, b.cells.toList.map Cell.size?)

/-- What they do not change of a large object. -/
def Large.outline (object : Large) : Nat × Nat :=
  (object.bytes, object.cell.header.words)

theorem Block.sizes_eq (b : Block) : b.sizes = b.outline.2.filterMap id := by
  rw [outline, List.filterMap_map, sizes, Function.id_comp]

namespace Space

variable {s t : Space} {a c i : Nat} {b b' : Block} {cell : Cell}

/-- The blocks, one row for each size class. -/
def rows (s : Space) : List (List Block) :=
  s.pools.toList.map fun pool => pool.blocks.toList

def blocks (s : Space) : List Block :=
  s.rows.flatten

def larges (s : Space) : List Large :=
  s.large.toList.map (·.2)

/-- The payload sizes of all objects. -/
def sizes (s : Space) : List Nat :=
  s.blocks.flatMap Block.sizes ++ s.larges.map (·.cell.header.words)

theorem getElem?_rows (s : Space) (c i : Nat) : s.rows[c]?.bind (·[i]?) = s.block? c i := by
  simp only [rows, block?, List.getElem?_map, Array.getElem?_toList]
  cases s.pools[c]? with
  | none => rfl
  | some pool => simp

theorem length_rows (s : Space) : s.rows.length = s.pools.size := by
  simp [rows]

theorem mem_blocks : b ∈ s.blocks ↔ ∃ c i, s.block? c i = some b := by
  rw [Space.blocks, List.mem_flatten]
  constructor
  · rintro ⟨row, hrow, hb⟩
    obtain ⟨c, hc⟩ := List.mem_iff_getElem?.mp hrow
    obtain ⟨i, hi⟩ := List.mem_iff_getElem?.mp hb
    exact ⟨c, i, by rw [← getElem?_rows, hc, Option.bind_some, hi]⟩
  · rintro ⟨c, i, hb⟩
    rw [← getElem?_rows] at hb
    obtain ⟨row, hrow, hi⟩ := Option.bind_eq_some_iff.mp hb
    exact ⟨row, List.mem_of_getElem? hrow, List.mem_of_getElem? hi⟩

theorem mem_larges {object : Large} :
    object ∈ s.larges ↔ ∃ a : Nat, s.large[a]? = some object := by
  simp only [larges, List.mem_map, Prod.exists, Std.TreeMap.mem_toList_iff_getElem?_eq_some,
    exists_eq_right]

/-! ## Blocks that change or come -/

theorem Same.blocks_eq (h : Same s t) : t.blocks = s.blocks := by
  have hrows : t.rows = s.rows := by
    refine rows_ext (by rw [length_rows, length_rows, h.pools]) fun c i => ?_
    rw [getElem?_rows, getElem?_rows, h.blocks]
  exact congrArg List.flatten hrows

theorem Replaces.exists_blocks (h : Replaces s t c i b b') :
    ∃ xs ys, s.blocks = xs ++ b :: ys ∧ t.blocks = xs ++ b' :: ys := by
  obtain ⟨row, hrow, hb⟩ := Option.bind_eq_some_iff.mp ((getElem?_rows s c i).trans h.old)
  have hrows : t.rows = s.rows.modify c (·.modify i fun _ => b') := by
    refine rows_ext (by rw [length_rows, List.length_modify, length_rows, h.pools]) fun c' i' => ?_
    rw [getElem?_rows, h.blocks, ← getElem?_rows, List.getElem?_modify]
    by_cases hc : c = c'
    · subst hc
      simp only [hrow, true_and, if_true, Option.map_eq_map, Option.map_some, Option.bind_some,
        List.getElem?_modify]
      by_cases hi : i = i'
      · subst hi
        simp [hb]
      · simp [hi, Ne.symm hi]
    · simp [hc, Ne.symm hc]
  obtain ⟨before, after, hsplit, hmodify⟩ := exists_split hrow
  obtain ⟨left, right, hleft, hset⟩ := exists_split hb
  refine ⟨before.flatten ++ left, right ++ after.flatten, ?_, ?_⟩
  · simp [Space.blocks, hsplit, hleft]
  · simp [Space.blocks, hrows, hmodify, hset]

theorem Grows.perm_blocks (h : Grows s t c i b) {pool : Pool} (hpool : s.pools[c]? = some pool)
    (hi : i = pool.blocks.size) : t.blocks.Perm (b :: s.blocks) := by
  have hrow : s.rows[c]? = some pool.blocks.toList := by simp [rows, hpool]
  have hrows : t.rows = s.rows.modify c (· ++ [b]) := by
    refine rows_ext (by rw [length_rows, List.length_modify, length_rows, h.pools]) fun c' i' => ?_
    rw [getElem?_rows, h.blocks, ← getElem?_rows, List.getElem?_modify]
    by_cases hc : c = c'
    · subst hc
      simp only [hrow, true_and, if_true, Option.map_eq_map, Option.map_some, Option.bind_some]
      rw [← Array.toList_push, Array.getElem?_toList, Array.getElem?_toList, Array.getElem?_push, hi]
    · simp [hc, Ne.symm hc]
  obtain ⟨before, after, hsplit, hmodify⟩ := exists_split hrow
  have hblocks : t.blocks = (before.flatten ++ pool.blocks.toList) ++ b :: after.flatten := by
    simp [Space.blocks, hrows, hmodify]
  have hbefore : s.blocks = (before.flatten ++ pool.blocks.toList) ++ after.flatten := by
    simp [Space.blocks, hsplit]
  rw [hblocks, hbefore]
  exact List.perm_middle

/-- A large object comes. -/
theorem perm_larges {object : Large} (habsent : s.large[a]? = none)
    (hlarge : ∀ x : Nat, t.large[x]? = if x = a then some object else s.large[x]?) :
    t.larges.Perm (object :: s.larges) := by
  have hequiv : t.large.Equiv (s.large.insert a object) := by
    refine Std.TreeMap.Equiv.of_forall_constGet?_eq fun x => ?_
    rw [hlarge, Std.TreeMap.getElem?_insert]
    simp only [Nat.compare_eq_eq, eq_comm (a := x)]
  have hfilter : s.large.toList.filter (fun entry => decide ¬(a == entry.1) = true) = s.large.toList := by
    refine List.filter_eq_self.mpr fun entry hentry => ?_
    have hget := Std.TreeMap.mem_toList_iff_getElem?_eq_some.mp hentry
    have hne : a ≠ entry.1 := by
      rintro rfl
      rw [habsent] at hget
      cases hget
    simpa using hne
  have hinsert := Std.TreeMap.toList_insert_perm (t := s.large) (k := a) (v := object)
  rw [hfilter, ← hequiv.toList_eq] at hinsert
  exact hinsert.map Prod.snd

/-! ## Outlines -/

/-- The spaces have the same memory, with objects of the same sizes in it. -/
structure Alike (s t : Space) : Prop where
  blocks : t.blocks.map Block.outline = s.blocks.map Block.outline
  larges : t.larges.map Large.outline = s.larges.map Large.outline
  footprint : t.footprint = s.footprint
  maxFootprint : t.maxFootprint = s.maxFootprint

namespace Alike

theorem refl (s : Space) : Alike s s :=
  ⟨rfl, rfl, rfl, rfl⟩

theorem trans {u : Space} (h : Alike s t) (h' : Alike t u) : Alike s u :=
  ⟨h'.blocks.trans h.blocks, h'.larges.trans h.larges, h'.footprint.trans h.footprint,
    h'.maxFootprint.trans h.maxFootprint⟩

theorem sizes (h : Alike s t) : t.sizes = s.sizes := by
  have hblocks : ∀ u : Space, u.blocks.flatMap Block.sizes
      = (u.blocks.map Block.outline).flatMap fun outline => outline.2.filterMap id := by
    intro u
    rw [List.flatMap_map, ← funext Block.sizes_eq]
  have hlarges : ∀ u : Space, u.larges.map (·.cell.header.words)
      = (u.larges.map Large.outline).map (·.2) := by
    intro u
    rw [List.map_map]
    rfl
  rw [Space.sizes, hblocks, hlarges, h.blocks, h.larges, ← hblocks, ← hlarges, Space.sizes]

end Alike

/-- A change to a cell that keeps kind and size of what is in it. -/
theorem alike_modifyCell (s : Space) (a : Nat) {f : Cell → Cell}
    (hf : ∀ cell, (f cell).header.kind = cell.header.kind ∧
      (f cell).header.words = cell.header.words) : Alike s (s.modifyCell a f) := by
  have hsize : ∀ cell, (f cell).size? = cell.size? := fun cell => by
    rw [Cell.size?, Cell.size?, (hf cell).1, (hf cell).2]
  have hblock : ∀ b : Block, (b.modifyCell a f).outline = b.outline := by
    intro b
    unfold Block.modifyCell
    split
    · simp only [Block.outline, Block.modifyAt, Array.toList_modify, map_modify_eq hsize]
    · rfl
  have hpool : ∀ (i : Nat) (pool : Pool), (pool.modifyBlock i (·.modifyCell a f)).blocks.toList.map
      Block.outline = pool.blocks.toList.map Block.outline := by
    intro i pool
    simp only [Pool.modifyBlock, Array.toList_modify, map_modify_eq hblock]
  unfold Space.modifyCell
  split
  next c i hindex =>
    refine ⟨?_, rfl, rfl, rfl⟩
    have hrows : (s.modifyPool c (·.modifyBlock i (·.modifyCell a f))).rows.map
        (List.map Block.outline) = s.rows.map (List.map Block.outline) := by
      simp only [rows, modifyPool, Array.toList_modify, List.map_map]
      exact map_modify_eq (hpool i) _ _
    simp only [Space.blocks, List.map_flatten, hrows]
  next hindex =>
    refine ⟨rfl, ?_, rfl, rfl⟩
    have hequiv : (s.large.modify a fun object => { object with cell := f object.cell }).map
        (fun _ => Large.outline) |>.Equiv (s.large.map fun _ => Large.outline) := by
      refine Std.TreeMap.Equiv.of_forall_constGet?_eq fun x => ?_
      rw [Std.TreeMap.getElem?_map, Std.TreeMap.getElem?_map, Std.TreeMap.getElem?_modify]
      split
      next heq =>
        obtain rfl := Nat.compare_eq_eq.mp heq
        cases s.large[a]? with
        | none => rfl
        | some object => exact congrArg some (congrArg (object.bytes, ·) (hf object.cell).2)
      next => rfl
    have hlist := congrArg (List.map Prod.snd) hequiv.toList_eq
    simpa only [Std.TreeMap.toList_map, List.map_map, larges, Function.comp_def] using hlist

theorem alike_modifyHeader (s : Space) (a : Nat) {f : Header → Header}
    (hf : ∀ header, (f header).kind = header.kind ∧ (f header).words = header.words) :
    Alike s (s.modifyHeader a f) :=
  alike_modifyCell s a fun cell => hf cell.header

/-! ## All objects -/

/-- The addresses of the objects in a block. -/
def addresses (b : Block) : List Nat :=
  (List.range b.cells.size).filterMap fun index => b.objectAt? (index * b.cellBytes)

theorem mem_addresses (hpos : 0 < b.cellBytes) {x : Nat} :
    x ∈ addresses b ↔ ∃ j cell, b.cells[j]? = some cell ∧ cell.header.kind ≠ .free ∧
      x = b.address j := by
  simp only [addresses, List.mem_filterMap, List.mem_range, objectAt?_eq_some_iff,
    Nat.mul_div_cancel _ hpos]
  constructor
  · rintro ⟨j, -, cell, hcell, hkind, hx⟩
    exact ⟨j, cell, hcell, hkind, hx⟩
  · rintro ⟨j, cell, hcell, hkind, hx⟩
    exact ⟨j, (Array.getElem?_eq_some_iff.mp hcell).1, cell, hcell, hkind, hx⟩

theorem nodup_addresses (hpos : 0 < b.cellBytes) : (addresses b).Nodup := by
  refine List.Nodup.filterMap (fun j j' x hx hx' => ?_) List.nodup_range
  rw [Option.mem_def, objectAt?_eq_some_iff, Nat.mul_div_cancel _ hpos] at hx hx'
  obtain ⟨-, -, -, hx⟩ := hx
  obtain ⟨-, -, -, hx'⟩ := hx'
  exact (Block.address_inj hpos).mp (hx.symm.trans hx')

theorem objects_eq (s : Space) : s.objects = s.blocks.flatMap addresses ++ s.large.keys := by
  simp only [objects, Space.blocks, rows, List.flatMap_def, List.map_flatten, List.map_map,
    List.flatten_flatten]
  rfl

theorem mem_keys_iff : a ∈ s.large.keys ↔ ∃ object, s.large[a]? = some object := by
  rw [Std.TreeMap.mem_keys, Std.TreeMap.mem_iff_isSome_getElem?, Option.isSome_iff_exists]

/-- No two blocks start at the same address. -/
theorem Valid.pairwise_blocks (hs : s.Valid) :
    s.blocks.Pairwise fun b b' => b.start ≠ b'.start := by
  have hblock : ∀ {c : Nat} {row : List Block} {b : Block}, s.rows[c]? = some row → b ∈ row →
      ∃ i, s.block? c i = some b := by
    intro c row b hrow hb
    obtain ⟨i, hi⟩ := List.mem_iff_getElem?.mp hb
    exact ⟨i, by rw [← getElem?_rows, hrow, Option.bind_some, hi]⟩
  rw [Space.blocks, List.pairwise_flatten]
  constructor
  · intro row hrow
    simp only [rows, List.mem_map] at hrow
    obtain ⟨pool, hpool, rfl⟩ := hrow
    obtain ⟨c, hc⟩ := Array.mem_iff_getElem?.mp (Array.mem_toList_iff.mp hpool)
    exact hs.starts hc
  · refine List.pairwise_iff_getElem.mpr fun c c' hc hc' hlt b hb b' hb' heq => ?_
    obtain ⟨i, hi⟩ := hblock (List.getElem?_eq_getElem hc) hb
    obtain ⟨i', hi'⟩ := hblock (List.getElem?_eq_getElem hc') hb'
    exact Nat.ne_of_lt hlt (hs.block_unique hi hi' heq).1

/-- The listed addresses are those of objects. -/
theorem Valid.mem_objects_iff (hs : s.Valid) : a ∈ s.objects ↔ (s.object? a).isSome := by
  have hhome : a ∈ s.objects ↔ ∃ cell, s.Home a cell := by
    rw [objects_eq, List.mem_append]
    constructor
    · rintro (h | h)
      · obtain ⟨b, hb, ha⟩ := List.mem_flatMap.mp h
        obtain ⟨c, i, hb⟩ := mem_blocks.mp hb
        have hpos := (hs.blocks c i b hb).1.cellBytes_pos
        obtain ⟨j, cell, hcell, hkind, rfl⟩ := (mem_addresses hpos).mp ha
        exact ⟨cell, .small hb hcell hkind rfl⟩
      · obtain ⟨object, hobject⟩ := mem_keys_iff.mp h
        exact ⟨object.cell, .large hobject rfl⟩
    · rintro ⟨cell, ⟨hb, hcell, hkind, rfl⟩ | ⟨hobject, rfl⟩⟩
      · have hpos := (hs.blocks _ _ _ hb).1.cellBytes_pos
        exact .inl (List.mem_flatMap.mpr ⟨_, mem_blocks.mpr ⟨_, _, hb⟩,
          (mem_addresses hpos).mpr ⟨_, cell, hcell, hkind, rfl⟩⟩)
      · exact .inr (mem_keys_iff.mpr ⟨_, hobject⟩)
  rw [hhome, Option.isSome_iff_exists]
  exact exists_congr fun cell => hs.object?_eq_some_iff.symm

/-- The block of an address in it. -/
theorem Valid.blockBase_of_mem_addresses (hs : s.Valid) (hb : b ∈ s.blocks) (ha : a ∈ addresses b) :
    blockBase a = b.start ∧ s.blockIndex[blockBase a]? ≠ none := by
  obtain ⟨c, i, hb⟩ := mem_blocks.mp hb
  have hvalid := (hs.blocks c i b hb).1
  obtain ⟨j, cell, hcell, -, rfl⟩ := (mem_addresses hvalid.cellBytes_pos).mp ha
  have hj := (Array.getElem?_eq_some_iff.mp hcell).1
  have hmem := hs.address_mem hb hj
  have hpos := hvalid.cellBytes_pos
  refine ⟨blockBase_of_mem hvalid.aligned hmem.1 (by omega), ?_⟩
  rw [hs.indexed_address hb hj]
  exact Option.some_ne_none _

/-- Every object is listed once. -/
theorem Valid.nodup_objects (hs : s.Valid) : s.objects.Nodup := by
  rw [objects_eq, List.nodup_append]
  refine ⟨List.nodup_flatMap.mpr ⟨fun b hb => ?_, ?_⟩, ?_, fun a ha a' ha' heq => ?_⟩
  · obtain ⟨c, i, hb⟩ := mem_blocks.mp hb
    exact nodup_addresses (hs.blocks c i b hb).1.cellBytes_pos
  · refine hs.pairwise_blocks.imp_of_mem fun {b b'} hb hb' hne a ha ha' => hne ?_
    exact (hs.blockBase_of_mem_addresses hb ha).1.symm.trans (hs.blockBase_of_mem_addresses hb' ha').1
  · exact s.large.distinct_keys.imp fun h heq => h (by rw [heq]; exact Std.ReflCmp.compare_self)
  · subst heq
    obtain ⟨b, hb, ha⟩ := List.mem_flatMap.mp ha
    obtain ⟨object, hobject⟩ := mem_keys_iff.mp ha'
    exact (hs.blockBase_of_mem_addresses hb ha).2 (hs.large_not_indexed hobject)

/-- The sizes in a block, by address. -/
theorem Valid.map_addresses (hs : s.Valid) (hb : b ∈ s.blocks) :
    (addresses b).map (fun a => (s.header a).words) = b.sizes := by
  obtain ⟨c, i, hb⟩ := mem_blocks.mp hb
  have hpos := (hs.blocks c i b hb).1.cellBytes_pos
  have hlist : b.cells.toList = (List.range b.cells.size).map fun j => b.cells.getD j .zero := by
    refine List.ext_getElem (by simp) fun j hj hj' => ?_
    simp [Array.getD_eq_getD_getElem?, show j < b.cells.size by simpa using hj]
  rw [Block.sizes, hlist, List.filterMap_map, addresses, List.map_filterMap]
  refine List.filterMap_congr fun j hj => ?_
  have hcell := Array.getElem?_eq_getElem (List.mem_range.mp hj)
  simp only [Block.objectAt?, Nat.mul_div_cancel _ hpos, hcell, Function.comp_apply,
    Array.getD_eq_getD_getElem?, Option.getD_some, Cell.size?]
  split
  next => rfl
  next hkind =>
    have hobject := hs.object?_eq_some_iff.mpr (.small hb hcell hkind rfl)
    rw [Option.map_some, header_of_object? hobject]

/-- The sizes are those of the objects, in the order of the list of objects. -/
theorem Valid.sizes_eq (hs : s.Valid) : s.sizes = s.objects.map fun a => (s.header a).words := by
  have hlarges : s.larges.map (·.cell.header.words) = s.large.keys.map fun a => (s.header a).words := by
    rw [Space.larges, ← Std.TreeMap.map_fst_toList_eq_keys, List.map_map, List.map_map]
    refine List.map_congr_left fun entry hentry => ?_
    have hget := Std.TreeMap.mem_toList_iff_getElem?_eq_some.mp hentry
    have hobject := hs.object?_eq_some_iff.mpr (.large hget rfl)
    simp only [Function.comp_apply, header_of_object? hobject]
  rw [sizes, hlarges, objects_eq, List.map_append, List.map_flatMap]
  exact congrArg (· ++ _) (List.flatMap_congr fun b hb => (hs.map_addresses hb).symm)

end Space

end Substrate
