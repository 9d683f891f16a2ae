import Substrate.Proofs.Space.Valid

/-!
# Looking up addresses

In a valid space the search for an address comes to the object whose extent contains it, and to
nothing if there is none. A search reads one header at most: `Space.consulted?` is the address of
that header, which is always the start of a cell or of a large object.
-/

namespace Substrate

/-! ## The entry below a key -/

section Entries

open Std.DTreeMap.Internal

variable {β : Type} {t : Std.TreeMap Nat β} {k a : Nat} {v : β}

theorem getEntryLE?_eq_findRev? (t : Std.TreeMap Nat β) (k : Nat) :
    t.getEntryLE? k = t.toList.findRev? fun entry => (compare entry.1 k).isLE := by
  have hmap := @Impl.Const.getEntryLE?_eq_map Nat β _ t.inner.inner k
  have hfind := Impl.getEntryLE?_eq_findRev? t.inner.wf.ordered (k := k)
  have hlist : t.toList = t.inner.inner.toListModel.map fun e => (e.1, e.2) :=
    Impl.Const.toList_eq_toListModel_map
  rw [hlist]
  refine (hmap.trans (congrArg _ hfind)).trans ?_
  simp only [List.findRev?_eq_find?_reverse, ← List.map_reverse, List.find?_map, Function.comp_def]

/-- The entry that is found has the greatest key that is not above the given one. -/
theorem getEntryLE?_eq_some (h : t.getEntryLE? k = some (a, v)) :
    t[a]? = some v ∧ a ≤ k ∧ ∀ x w, t[x]? = some w → x ≤ k → x ≤ a := by
  rw [getEntryLE?_eq_findRev?, List.findRev?_eq_find?_reverse, List.find?_eq_some_iff_append] at h
  obtain ⟨hle, above, below, hsplit, habove⟩ := h
  have hmem : (a, v) ∈ t.toList := by
    rw [← List.mem_reverse, hsplit]
    simp
  refine ⟨Std.TreeMap.mem_toList_iff_getElem?_eq_some.mp hmem, Nat.isLE_compare.mp hle, ?_⟩
  intro x w hx hxk
  have hmemx := Std.TreeMap.mem_toList_iff_getElem?_eq_some.mpr hx
  rw [← List.mem_reverse, hsplit, List.mem_append, List.mem_cons] at hmemx
  have hordered : t.toList.reverse.Pairwise fun e e' => e'.1 < e.1 := by
    rw [List.pairwise_reverse]
    exact t.ordered_keys_toList.imp fun h => Nat.compare_eq_lt.mp h
  rw [hsplit, List.pairwise_append] at hordered
  rcases hmemx with hin | heq | hin
  · have := habove _ hin
    simp [Nat.isLE_compare.mpr hxk] at this
  · cases heq
    exact Nat.le_refl _
  · have := (List.pairwise_cons.mp hordered.2.1).1 _ hin
    exact Nat.le_of_lt this

theorem getEntryLE?_eq_none (h : t.getEntryLE? k = none) {x : Nat} (hx : t[x]? = some v) :
    k < x := by
  rw [getEntryLE?_eq_findRev?, List.findRev?_eq_find?_reverse, List.find?_eq_none] at h
  have hnot := h (x, v) (by simpa using Std.TreeMap.mem_toList_iff_getElem?_eq_some.mpr hx)
  exact Nat.not_le.mp fun hle => hnot (Nat.isLE_compare.mpr hle)

end Entries

theorem Region.contains_iff {r : Region} {x : Nat} :
    r.contains x = true ↔ r.start ≤ x ∧ x < r.stop := by
  simp [Region.contains]

namespace Space

variable {s : Space} {a c i j o x : Nat} {b : Block} {cell : Cell} {object : Large}

/-! ## Extents -/

/-- The addresses that belong to an object: its whole cell, or the header and the payload if it has
a mapping of its own. -/
def extent (s : Space) (address : Nat) : Region :=
  match s.blockIndex[blockBase address]? with
  | some (sizeClass, _) => ⟨address, address + classBytes sizeClass⟩
  | none => ⟨address, address + (1 + (s.header address).words) * wordBytes⟩

theorem Valid.extent_small (hs : s.Valid) (hb : s.block? c i = some b) (hj : j < b.cells.size) :
    s.extent (b.address j) = ⟨b.address j, b.address j + b.cellBytes⟩ := by
  rw [extent, hs.indexed_address hb hj, (hs.blocks c i b hb).2]

theorem Valid.large_not_indexed (hs : s.Valid) (h : s.large[a]? = some object) :
    s.blockIndex[blockBase a]? = none := by
  have hfits := (hs.large a object h).fits
  simp only [wordBytes] at hfits
  exact hs.not_indexed_of_large h (Nat.le_refl a) (by omega)

theorem Valid.extent_large (hs : s.Valid) (h : s.large[a]? = some object) :
    s.extent a = ⟨a, a + (1 + object.cell.header.words) * wordBytes⟩ := by
  have hobject := hs.object?_eq_some_iff.mpr (.large h rfl)
  rw [extent, hs.large_not_indexed h, header_of_object? hobject]

/-! ## Searching -/

theorem objectAround?_of_indexed (h : s.blockIndex[blockBase x]? = some (c, i))
    (hb : s.block? c i = some b) : s.objectAround? x = b.objectAt? (x - b.start) := by
  obtain ⟨pool, hpool, hblock⟩ := Option.bind_eq_some_iff.mp hb
  simp only [objectAround?, h]
  simp [hpool, hblock]

theorem objectAt?_eq_some_iff {distance : Nat} :
    b.objectAt? distance = some o ↔
      ∃ cell, b.cells[distance / b.cellBytes]? = some cell ∧ cell.header.kind ≠ .free ∧
        o = b.address (distance / b.cellBytes) := by
  cases hcell : b.cells[distance / b.cellBytes]? with
  | none => simp [Block.objectAt?, hcell]
  | some cell =>
    by_cases hkind : cell.header.kind = .free
    · simp [Block.objectAt?, hcell, hkind]
    · simp [Block.objectAt?, hcell, hkind, @eq_comm _ o]

theorem Valid.contains_small (hs : s.Valid) (hb : s.block? c i = some b) (hj : j < b.cells.size) :
    (s.extent (b.address j)).contains x ↔ b.start ≤ x ∧ (x - b.start) / b.cellBytes = j := by
  have hpos := (hs.blocks c i b hb).1.cellBytes_pos
  rw [hs.extent_small hb hj, Region.contains_iff, Nat.div_eq_iff hpos]
  simp only [Block.address]
  omega

/-- In a block the search goes by the index of the cell. -/
theorem Valid.objectAround?_small (hs : s.Valid) (hindex : s.blockIndex[blockBase x]? = some (c, i))
    (hb : s.block? c i = some b) :
    s.objectAround? x = some o ↔
      ∃ j cell, b.cells[j]? = some cell ∧ cell.header.kind ≠ .free ∧ o = b.address j ∧
        (s.extent o).contains x := by
  obtain ⟨b', hb', hstart, -⟩ := hs.index_blockBase.mp hindex
  obtain rfl : b' = b := Option.some.inj (hb'.symm.trans hb)
  rw [objectAround?_of_indexed hindex hb, objectAt?_eq_some_iff]
  constructor
  · rintro ⟨cell, hcell, hkind, rfl⟩
    have hj := (Array.getElem?_eq_some_iff.mp hcell).1
    exact ⟨_, cell, hcell, hkind, rfl, (hs.contains_small hb hj).mpr ⟨hstart, rfl⟩⟩
  · rintro ⟨j, cell, hcell, hkind, rfl, hcontains⟩
    have hj := (Array.getElem?_eq_some_iff.mp hcell).1
    obtain ⟨-, rfl⟩ := (hs.contains_small hb hj).mp hcontains
    exact ⟨cell, hcell, hkind, rfl⟩

/-- Outside of the blocks it takes the last mapping that starts at the address or below. -/
theorem Valid.objectAround?_large (hs : s.Valid) (hindex : s.blockIndex[blockBase x]? = none) :
    s.objectAround? x = some o ↔
      ∃ object, s.large[o]? = some object ∧ (s.extent o).contains x := by
  simp only [objectAround?, hindex]
  constructor
  · intro h
    cases hentry : s.large.getEntryLE? x with
    | none => simp [hentry] at h
    | some entry =>
      obtain ⟨start, object⟩ := entry
      obtain ⟨hget, hle, -⟩ := getEntryLE?_eq_some hentry
      by_cases hend : start + (1 + object.cell.header.words) * wordBytes ≤ x
      · simp [hentry, hend] at h
      · simp only [hentry, Option.bind_eq_bind, Option.bind_some, if_neg hend,
          Option.some.injEq] at h
        subst h
        refine ⟨object, hget, ?_⟩
        rw [hs.extent_large hget, Region.contains_iff]
        exact ⟨hle, Nat.not_le.mp hend⟩
  · rintro ⟨object, hlarge, hcontains⟩
    rw [hs.extent_large hlarge, Region.contains_iff] at hcontains
    have hfits := (hs.large o object hlarge).fits
    simp only at hcontains
    cases hentry : s.large.getEntryLE? x with
    | none => exact absurd (getEntryLE?_eq_none hentry hlarge) (by omega)
    | some entry =>
      obtain ⟨start, object'⟩ := entry
      obtain ⟨hget, hle, hmax⟩ := getEntryLE?_eq_some hentry
      -- a mapping that starts in between would overlap the object's own
      have hstart : start = o := by
        have hge := hmax o object hlarge hcontains.1
        rcases Nat.lt_or_eq_of_le hge with hlt | heq
        · have := hs.larges o start object object' hlarge hget hlt
          omega
        · exact heq.symm
      subst hstart
      obtain rfl : object' = object := Option.some.inj (hget.symm.trans hlarge)
      simp only [Option.bind_eq_bind, Option.bind_some]
      rw [if_neg (by omega)]

/-- The index of blocks tells whether an address is in the extent of a small object or not. -/
theorem Valid.indexed_of_contains (hs : s.Valid) (hb : s.block? c i = some b)
    (hj : j < b.cells.size) (h : (s.extent (b.address j)).contains x) :
    s.blockIndex[blockBase x]? = some (c, i) := by
  have hmem := hs.address_mem hb hj
  rw [hs.extent_small hb hj, Region.contains_iff] at h
  simp only at h
  exact hs.index_blockBase.mpr ⟨b, hb, by omega, by omega⟩

theorem Valid.not_indexed_of_contains (hs : s.Valid) (hlarge : s.large[o]? = some object)
    (h : (s.extent o).contains x) : s.blockIndex[blockBase x]? = none := by
  have hfits := (hs.large o object hlarge).fits
  rw [hs.extent_large hlarge, Region.contains_iff] at h
  simp only at h
  exact hs.not_indexed_of_large hlarge h.1 (by omega)

/-- A search comes to an object exactly if the address lies in its extent. -/
theorem Valid.objectAround?_eq_some_iff (hs : s.Valid) :
    s.objectAround? x = some o ↔ (s.object? o).isSome ∧ (s.extent o).contains x := by
  constructor
  · intro h
    cases hindex : s.blockIndex[blockBase x]? with
    | some entry =>
      obtain ⟨b, hb, -⟩ := hs.index_blockBase.mp hindex
      obtain ⟨j, cell, hcell, hkind, haddress, hcontains⟩ :=
        (hs.objectAround?_small hindex hb).mp h
      rw [hs.object?_eq_some_iff.mpr (.small hb hcell hkind haddress)]
      exact ⟨rfl, hcontains⟩
    | none =>
      obtain ⟨object, hlarge, hcontains⟩ := (hs.objectAround?_large hindex).mp h
      rw [hs.object?_eq_some_iff.mpr (.large hlarge rfl)]
      exact ⟨rfl, hcontains⟩
  · rintro ⟨hobject, hcontains⟩
    obtain ⟨cell, hview⟩ := Option.isSome_iff_exists.mp hobject
    cases hs.object?_eq_some_iff.mp hview with
    | @small c i j b hb hcell hkind haddress =>
      subst haddress
      have hj := (Array.getElem?_eq_some_iff.mp hcell).1
      exact (hs.objectAround?_small (hs.indexed_of_contains hb hj hcontains) hb).mpr
        ⟨j, cell, hcell, hkind, rfl, hcontains⟩
    | @large object hlarge hcell =>
      exact (hs.objectAround?_large (hs.not_indexed_of_contains hlarge hcontains)).mpr
        ⟨object, hlarge, hcontains⟩

/-! ## Where objects are -/

/-- Every object starts at a word of the address space other than the first. -/
theorem Valid.object_address (hs : s.Valid) (h : s.object? a = some cell) :
    0 < a ∧ a % wordBytes = 0 ∧ a < wordLimit := by
  cases hs.object?_eq_some_iff.mp h with
  | @small c i j b hb hcell hkind haddress =>
    have hvalid := (hs.blocks c i b hb).1
    have hmem := hs.address_mem hb (Array.getElem?_eq_some_iff.mp hcell).1
    have hmod : j * b.cellBytes % wordBytes = 0 := by
      rw [Nat.mul_mod, (sizeClasses_bounds hvalid.cellBytes).2.2, Nat.mul_zero, Nat.zero_mod]
    have hstart := hvalid.aligned
    have hpos := hvalid.positive
    have hbound := hvalid.bounded
    subst haddress
    simp only [Block.address, blockBytes, wordBytes] at *
    omega
  | @large object hlarge hcell =>
    have hvalid := hs.large a object hlarge
    have haligned := hvalid.aligned
    have hpos := hvalid.positive
    have hbound := hvalid.bounded
    simp only [pageBytes, wordBytes] at *
    omega

/-- The extent of an object starts with its header and lies inside one mapping. -/
theorem Valid.extent_held (hs : s.Valid) (h : s.object? a = some cell) :
    (s.extent a).start = a ∧ a + (1 + cell.header.words) * wordBytes ≤ (s.extent a).stop ∧
      ∃ r, s.Held r ∧ r.start ≤ a ∧ (s.extent a).stop ≤ r.stop := by
  cases hs.object?_eq_some_iff.mp h with
  | @small c i j b hb hcell hkind haddress =>
    have hj := (Array.getElem?_eq_some_iff.mp hcell).1
    have hmem := hs.address_mem hb hj
    have hfits := (hs.blocks c i b hb).1.fits j cell hcell hkind
    subst haddress
    rw [hs.extent_small hb hj]
    exact ⟨rfl, Nat.add_le_add_left hfits _, _, .block hb, hmem⟩
  | @large object hlarge hcell =>
    subst hcell
    rw [hs.extent_large hlarge]
    have hfits := (hs.large a object hlarge).fits
    exact ⟨rfl, Nat.le_refl _, _, .large hlarge, Nat.le_refl _, Nat.add_le_add_left hfits _⟩

/-- The address of an object lies in its own extent. -/
theorem Valid.contains_self (hs : s.Valid) (h : s.object? a = some cell) :
    (s.extent a).contains a = true := by
  obtain ⟨hstart, hstop, -⟩ := hs.extent_held h
  simp only [wordBytes] at hstop
  exact Region.contains_iff.mpr ⟨Nat.le_of_eq hstart, by omega⟩

/-- An address belongs to one object at most. -/
theorem Valid.extent_unique (hs : s.Valid) {o' : Nat} (ho : (s.object? o).isSome)
    (ho' : (s.object? o').isSome) (h : (s.extent o).contains x) (h' : (s.extent o').contains x) :
    o = o' := by
  have hfirst := hs.objectAround?_eq_some_iff.mpr ⟨ho, h⟩
  have hsecond := hs.objectAround?_eq_some_iff.mpr ⟨ho', h'⟩
  exact Option.some.inj (hfirst.symm.trans hsecond)

/-! ## Finding objects -/

/-- With interior addresses allowed, the object found is the one whose extent contains the
address. -/
theorem Valid.findObject?_interior (hs : s.Valid) :
    s.findObject? x true = some o ↔ (s.object? o).isSome ∧ (s.extent o).contains x := by
  rw [← hs.objectAround?_eq_some_iff]
  unfold findObject?
  by_cases hx : x = 0
  · subst hx
    simp only [if_true, reduceCtorEq, false_iff]
    intro h
    obtain ⟨ho, hcontains⟩ := hs.objectAround?_eq_some_iff.mp h
    obtain ⟨cell, hcell⟩ := Option.isSome_iff_exists.mp ho
    have hstart := (hs.extent_held hcell).1
    have hpos := (hs.object_address hcell).1
    have := (Region.contains_iff.mp hcontains).1
    omega
  · cases h : s.objectAround? x <;> simp [hx]

/-- Without them, only the start of an object is found. -/
theorem Valid.findObject?_exact (hs : s.Valid) :
    s.findObject? x false = some o ↔ o = x ∧ (s.object? x).isSome := by
  have hinterior := hs.findObject?_interior (x := x) (o := o)
  unfold findObject? at hinterior ⊢
  by_cases hx : x = 0
  · subst hx
    simp only [if_true, reduceCtorEq, false_iff, not_and]
    rintro - h
    obtain ⟨cell, hcell⟩ := Option.isSome_iff_exists.mp h
    exact absurd (hs.object_address hcell).1 (by omega)
  · cases haround : s.objectAround? x with
    | none =>
      simp only [hx, if_false, reduceCtorEq, false_iff, not_and]
      rintro rfl h
      obtain ⟨cell, hcell⟩ := Option.isSome_iff_exists.mp h
      rw [hs.objectAround?_eq_some_iff.mpr ⟨h, hs.contains_self hcell⟩] at haround
      cases haround
    | some o' =>
      obtain ⟨ho', hcontains⟩ := hs.objectAround?_eq_some_iff.mp haround
      by_cases heq : o' = x
      · subst heq
        simp [hx, ho', eq_comm]
      · simp only [hx, if_false, Bool.not_false, Bool.true_and, bne_iff_ne, ne_eq, heq,
          not_false_eq_true, if_true, reduceCtorEq, false_iff, not_and]
        rintro rfl h
        obtain ⟨cell, hcell⟩ := Option.isSome_iff_exists.mp h
        exact heq (hs.extent_unique ho' h hcontains (hs.contains_self hcell))

/-- Whatever a search finds is an object. -/
theorem Valid.isSome_of_findObject? {interior : Bool} (hs : s.Valid)
    (hfind : s.findObject? x interior = some o) :
    (s.object? o).isSome := by
  cases interior with
  | false =>
    obtain ⟨rfl, hobject⟩ := hs.findObject?_exact.mp hfind
    exact hobject
  | true => exact (hs.findObject?_interior.mp hfind).1

theorem Valid.findObject?_exact_isSome (hs : s.Valid) :
    (s.findObject? x false).isSome = (s.object? x).isSome := by
  rw [Bool.eq_iff_iff, Option.isSome_iff_exists]
  simp [hs.findObject?_exact]

/-! ## What a search reads -/

/-- The address of the header that the search for an address reads, if it reads one. -/
def consulted? (s : Space) (address : Nat) : Option Nat :=
  match s.blockIndex[blockBase address]? with
  | some (sizeClass, position) => do
    let block ← s.block? sizeClass position
    let index := (address - block.start) / block.cellBytes
    if index < block.cells.size then some (block.address index) else none
  | none => (s.large.getEntryLE? address).map (·.1)

/-- The answer of a search depends on the header it reads and on nothing else in memory. -/
theorem Valid.objectAround?_eq_consulted (hs : s.Valid) :
    s.objectAround? x = (s.consulted? x).filter fun address =>
      (s.header address).kind ≠ .free ∧ ((s.blockIndex[blockBase x]?).isSome ∨
        x < address + (1 + (s.header address).words) * wordBytes) := by
  cases hindex : s.blockIndex[blockBase x]? with
  | some entry =>
    obtain ⟨c, i⟩ := entry
    obtain ⟨b, hb, -⟩ := hs.index_blockBase.mp hindex
    rw [objectAround?_of_indexed hindex hb]
    simp only [consulted?, hindex, hb, Option.bind_eq_bind, Option.bind_some, Option.isSome_some,
      true_or, and_true]
    by_cases hlt : (x - b.start) / b.cellBytes < b.cells.size
    · have hheader : s.header (b.address ((x - b.start) / b.cellBytes))
          = (b.cells[(x - b.start) / b.cellBytes]).header := by
        rw [header, hs.cell?_address hb hlt, Array.getElem?_eq_getElem hlt]
      simp only [Block.objectAt?, Array.getElem?_eq_getElem hlt, if_pos hlt, Option.filter_some,
        hheader]
      by_cases hkind : (b.cells[(x - b.start) / b.cellBytes]).header.kind = .free
      · simp [hkind]
      · simp [hkind]
    · simp [Block.objectAt?, Array.getElem?_eq_none (Nat.not_lt.mp hlt), if_neg hlt]
  | none =>
    simp only [objectAround?, consulted?, hindex]
    cases hentry : s.large.getEntryLE? x with
    | none => rfl
    | some entry =>
      obtain ⟨start, object⟩ := entry
      obtain ⟨hget, -⟩ := getEntryLE?_eq_some hentry
      have hobject := hs.object?_eq_some_iff.mpr (.large hget rfl)
      have hkind := kind_of_object? hobject
      simp only [Option.map_some, Option.filter_some, header_of_object? hobject,
        Option.bind_eq_bind, Option.bind_some]
      by_cases hend : start + (1 + object.cell.header.words) * wordBytes ≤ x
      · simp [hend, Nat.not_lt.mpr hend]
      · simp [hend, Nat.not_le.mp hend, hkind]

/-- A search reads no memory but that of the space. -/
theorem Valid.consulted?_held (hs : s.Valid) (h : s.consulted? x = some a) :
    ∃ r, s.Held r ∧ r.start ≤ a ∧ a + wordBytes ≤ r.stop := by
  unfold consulted? at h
  cases hindex : s.blockIndex[blockBase x]? with
  | some entry =>
    obtain ⟨c, i⟩ := entry
    obtain ⟨b, hb, -⟩ := hs.index_blockBase.mp hindex
    simp only [hindex, hb, Option.bind_eq_bind, Option.bind_some] at h
    by_cases hlt : (x - b.start) / b.cellBytes < b.cells.size
    · rw [if_pos hlt] at h
      cases h
      have hmem := hs.address_mem hb hlt
      have hsize := sizeClasses_bounds (hs.blocks c i b hb).1.cellBytes
      exact ⟨_, .block hb, hmem.1, by simp only [wordBytes]; omega⟩
    · rw [if_neg hlt] at h
      cases h
  | none =>
    simp only [hindex, Option.map_eq_some_iff] at h
    obtain ⟨⟨start, object⟩, hentry, rfl⟩ := h
    obtain ⟨hget, -⟩ := getEntryLE?_eq_some hentry
    have hfits := (hs.large start object hget).fits
    exact ⟨_, .large hget, Nat.le_refl _, by simp only [wordBytes] at *; omega⟩

end Space

end Substrate
