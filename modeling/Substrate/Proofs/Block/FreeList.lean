import Substrate.Proofs.Rounding

/-!
# Free lists

The cells of a block without an object are linked through their first payload words. `Block.Lists`
says that the list visits given cells, each once and no others; `Block.Valid` adds that every other
word of such a cell is zero and that every object fits its cell. A new block is valid, and so is a
block after its first free cell became an object and after a change to one of its objects.
-/

namespace Substrate

/-! ## Words of a cell -/

namespace Cell

theorem getElem?_setPadded (words : Array Word) (index j : Nat) (bits : Word) :
    (setPadded words index bits)[j]?.getD 0 = if index = j then bits else words[j]?.getD 0 := by
  unfold setPadded
  split
  next h =>
    rw [Array.getElem?_setIfInBounds]
    by_cases hj : index = j
    · subst hj
      simp [h]
    · simp [hj]
  next h =>
    simp only [Array.getElem?_push, Array.getElem?_append, Array.getElem?_replicate,
      Array.size_append, Array.size_replicate]
    grind

@[simp] theorem word_setWord (cell : Cell) (index j : Nat) (bits : Word) :
    (cell.setWord index bits).word j = if index = j then bits else cell.word j := by
  cases index with
  | zero => cases j <;> simp [setWord, word]
  | succ index => cases j <;> simp [setWord, word, getElem?_setPadded]

@[simp] theorem header_setWord (cell : Cell) (index : Nat) (bits : Word) :
    (cell.setWord index bits).header = cell.header := by
  cases index <;> rfl

@[simp] theorem word_setHeader (cell : Cell) (header : Header) (index : Nat) :
    (cell.setHeader header).word index = cell.word index := by
  cases index <;> rfl

@[simp] theorem header_setHeader (cell : Cell) (header : Header) :
    (cell.setHeader header).header = header := rfl

@[simp] theorem first_linking (link : Word) : (linking link).first = link := rfl

@[simp] theorem word_zero (index : Nat) : zero.word index = 0 := by
  cases index <;> simp [zero, word]

theorem word_linking (link : Word) (index : Nat) : (linking link).word (index + 1) = 0 := by
  simp [linking, word]

end Cell

/-! ## Size classes -/

theorem classBytes_mem {sizeClass : Nat} (h : sizeClass < sizeClasses.length) :
    classBytes sizeClass ∈ sizeClasses := by
  rw [classBytes, List.getD_eq_getElem?_getD, List.getElem?_eq_getElem h]
  exact List.getElem_mem h

theorem sizeClasses_bounds {bytes : Nat} (h : bytes ∈ sizeClasses) :
    16 ≤ bytes ∧ bytes ≤ 2048 ∧ bytes % wordBytes = 0 := by
  revert h bytes
  decide

theorem sizeClassFor?_some {bytes sizeClass : Nat} (h : sizeClassFor? bytes = some sizeClass) :
    sizeClass < sizeClasses.length ∧ bytes ≤ classBytes sizeClass := by
  obtain ⟨hlt, hle, -⟩ := List.findIdx?_eq_some_iff_getElem.mp h
  refine ⟨hlt, ?_⟩
  rw [classBytes, List.getD_eq_getElem?_getD, List.getElem?_eq_getElem hlt]
  simpa using hle

namespace Block

variable {b : Block} {start cellBytes link i : Nat} {cells cells' : Array Cell}
  {indices : List Nat} {cell : Cell}

/-! ## Links -/

/-- Following the links from an address on, one comes to the given cells, and then to zero. -/
def Links (start cellBytes : Nat) (cells : Array Cell) : Nat → List Nat → Prop
  | link, [] => link = 0
  | link, index :: rest =>
    link = start + index * cellBytes ∧
      ∃ cell, cells[index]? = some cell ∧ Links start cellBytes cells cell.first.toNat rest

/-- Links only depend on the first words of the cells they pass. -/
theorem Links.congr (h : Links start cellBytes cells link indices)
    (same : ∀ i ∈ indices, cells'[i]?.map (·.first) = cells[i]?.map (·.first)) :
    Links start cellBytes cells' link indices := by
  induction indices generalizing link with
  | nil => exact h
  | cons i rest ih =>
    obtain ⟨hlink, cell, hcell, hrest⟩ := h
    have hfirst := same i List.mem_cons_self
    rw [hcell, Option.map_some, Option.map_eq_some_iff] at hfirst
    obtain ⟨cell', hcell', heq⟩ := hfirst
    refine ⟨hlink, cell', hcell', ?_⟩
    rw [heq]
    exact ih hrest fun j hj => same j (List.mem_cons_of_mem _ hj)

/-- The free list of a block visits exactly the cells without an object, each of them once. -/
structure Lists (b : Block) (indices : List Nat) : Prop where
  links : Links b.start b.cellBytes b.cells b.free indices
  nodup : indices.Nodup
  mem_iff : ∀ i, i ∈ indices ↔ ∃ cell, b.cells[i]? = some cell ∧ cell.header.kind = .free
  count : b.freeCells = indices.length

/-- The cell of an object is not on the free list. -/
theorem Lists.not_mem (hlist : b.Lists indices) (hcell : b.cells[i]? = some cell)
    (hkind : cell.header.kind ≠ .free) : i ∉ indices := by
  intro hmem
  obtain ⟨c, hc, hfree⟩ := (hlist.mem_iff i).mp hmem
  exact hkind (Option.some.inj (hcell.symm.trans hc) ▸ hfree)

/-- What is true of a block at all times. -/
structure Valid (b : Block) : Prop where
  cellBytes : b.cellBytes ∈ sizeClasses
  aligned : b.start % blockBytes = 0
  positive : 0 < b.start
  bounded : b.start + blockBytes < wordLimit
  size : b.cells.size = blockBytes / b.cellBytes
  listed : ∃ indices, b.Lists indices
  cleared : ∀ (i : Nat) (cell : Cell), b.cells[i]? = some cell → cell.header.kind = .free →
    ∀ j, cell.word (j + 1) = 0
  fits : ∀ (i : Nat) (cell : Cell), b.cells[i]? = some cell → cell.header.kind ≠ .free →
    (1 + cell.header.words) * wordBytes ≤ b.cellBytes

/-! ## Addresses of cells -/

theorem Valid.cellBytes_pos (hb : b.Valid) : 0 < b.cellBytes := by
  have := sizeClasses_bounds hb.cellBytes
  omega

/-- Every cell lies inside the block. -/
theorem Valid.cell_le (hb : b.Valid) (hi : i < b.cells.size) :
    i * b.cellBytes + b.cellBytes ≤ blockBytes := by
  rw [hb.size] at hi
  calc i * b.cellBytes + b.cellBytes = (i + 1) * b.cellBytes := by rw [Nat.add_mul, Nat.one_mul]
    _ ≤ blockBytes / b.cellBytes * b.cellBytes := Nat.mul_le_mul_right _ hi
    _ ≤ blockBytes := Nat.div_mul_le_self _ _

theorem indexOf_address (h : 0 < b.cellBytes) (i : Nat) : b.indexOf (b.address i) = i := by
  rw [indexOf, address, Nat.add_sub_cancel_left, Nat.mul_div_cancel _ h]

theorem address_mod (b : Block) (i : Nat) : (b.address i - b.start) % b.cellBytes = 0 := by
  rw [address, Nat.add_sub_cancel_left, Nat.mul_mod_left]

theorem address_inj (h : 0 < b.cellBytes) {i j : Nat} : b.address i = b.address j ↔ i = j := by
  refine ⟨fun heq => ?_, fun heq => heq ▸ rfl⟩
  rw [← indexOf_address h i, heq, indexOf_address h]

theorem address_pos (hb : b.Valid) : 0 < b.address i :=
  Nat.lt_of_lt_of_le hb.positive (Nat.le_add_right _ _)

/-! ## Taking the first free cell -/

theorem next?_eq_some {a : Nat} : b.next? = some a ↔ b.free ≠ 0 ∧ b.free = a := by
  unfold next?
  split
  next h => simp [h]
  next h => simp [h]

theorem dropFirst_of_free_eq_zero (h : b.free = 0) : b.dropFirst = b := by
  obtain ⟨start, cellBytes, cells, free, freeCells⟩ := b
  simp only at h
  simp [dropFirst, h]

@[simp] theorem start_dropFirst (b : Block) : b.dropFirst.start = b.start := by
  rw [dropFirst]
  split <;> rfl

@[simp] theorem cellBytes_dropFirst (b : Block) : b.dropFirst.cellBytes = b.cellBytes := by
  rw [dropFirst]
  split <;> rfl

@[simp] theorem start_modifyCell (b : Block) (a : Nat) (f : Cell → Cell) :
    (b.modifyCell a f).start = b.start := by
  unfold modifyCell
  split <;> rfl

@[simp] theorem cellBytes_modifyCell (b : Block) (a : Nat) (f : Cell → Cell) :
    (b.modifyCell a f).cellBytes = b.cellBytes := by
  unfold modifyCell
  split <;> rfl

theorem modifyCell_address (h : 0 < b.cellBytes) (i : Nat) (f : Cell → Cell) :
    b.modifyCell (b.address i) f = b.modifyAt i f := by
  rw [modifyCell, if_pos (address_mod b i), indexOf_address h]

theorem dropFirst_eq (h : 0 < b.cellBytes) (hfree : b.free = b.address i) (hpos : b.free ≠ 0)
    (hcell : b.cells[i]? = some cell) :
    b.dropFirst = ⟨b.start, b.cellBytes, b.cells.modify i (·.setWord 0 0), cell.first.toNat,
      b.freeCells - 1⟩ := by
  have hindex : (b.free - b.start) / b.cellBytes = i := by
    rw [hfree]
    exact indexOf_address h i
  have hget : b.cells.getD i .zero = cell := by
    rw [Array.getD_eq_getD_getElem?, hcell, Option.getD_some]
  obtain ⟨start, cellBytes, cells, free, freeCells⟩ := b
  simp only at hindex hget hpos
  rw [dropFirst]
  simp only [if_neg hpos, hindex, hget]

/-- A block after its first free cell became an object with the given header. -/
def take (b : Block) (header : Header) : Block :=
  b.dropFirst.modifyCell b.free (·.setHeader header)

@[simp] theorem start_take (b : Block) (header : Header) : (b.take header).start = b.start := by
  simp [take]

@[simp] theorem cellBytes_take (b : Block) (header : Header) :
    (b.take header).cellBytes = b.cellBytes := by
  simp [take]

/-- The first free cell, if there is one. -/
theorem Valid.first (hb : b.Valid) (h : b.free ≠ 0) :
    ∃ i cell, b.free = b.address i ∧ b.cells[i]? = some cell ∧ cell.header.kind = .free := by
  obtain ⟨indices, hlist⟩ := hb.listed
  cases indices with
  | nil => exact absurd hlist.links h
  | cons i rest =>
    obtain ⟨hlink, -⟩ := hlist.links
    obtain ⟨cell, hcell, hkind⟩ := (hlist.mem_iff i).mp List.mem_cons_self
    exact ⟨i, cell, hlink, hcell, hkind⟩

/-- The cell that leaves the free list is the one that gets the header. -/
theorem take_eq (hb : b.Valid) (header : Header) (h : b.free = b.address i)
    (hcell : b.cells[i]? = some cell) :
    b.take header = ⟨b.start, b.cellBytes,
      (b.cells.modify i (·.setWord 0 0)).modify i (·.setHeader header), cell.first.toNat,
      b.freeCells - 1⟩ := by
  have hpos : b.free ≠ 0 := h ▸ Nat.ne_of_gt (address_pos hb)
  have hdrop := dropFirst_eq hb.cellBytes_pos h hpos hcell
  have haddress : b.dropFirst.address i = b.free := by
    rw [hdrop, h]
    rfl
  rw [take, ← haddress, modifyCell_address (by simpa using hb.cellBytes_pos), hdrop]
  rfl

theorem getElem?_cells_take (hb : b.Valid) (header : Header) (h : b.free = b.address i)
    (hcell : b.cells[i]? = some cell) (j : Nat) :
    (b.take header).cells[j]?
      = if j = i then some ((cell.setWord 0 0).setHeader header) else b.cells[j]? := by
  rw [take_eq hb header h hcell]
  simp only [Array.getElem?_modify]
  by_cases hj : j = i
  · subst hj
    simp [hcell]
  · simp [hj, Ne.symm hj]

/-- Turning the first free cell into an object keeps a block valid. -/
theorem Valid.take (hb : b.Valid) {header : Header} (hfree : b.free ≠ 0)
    (hkind : header.kind ≠ .free) (hfits : (1 + header.words) * wordBytes ≤ b.cellBytes) :
    (b.take header).Valid := by
  obtain ⟨i, cell, haddr, hcell, -⟩ := hb.first hfree
  have hcells := getElem?_cells_take hb header haddr hcell
  have htake := take_eq hb header haddr hcell
  obtain ⟨indices, hlist⟩ := hb.listed
  obtain ⟨rest, rfl⟩ : ∃ rest, indices = i :: rest := by
    cases indices with
    | nil => exact absurd hlist.links hfree
    | cons j rest =>
      have hj := hlist.links.1.symm.trans haddr
      exact ⟨rest, by rw [(address_inj hb.cellBytes_pos).mp hj]⟩
  obtain ⟨-, cell', hcell', hrest⟩ := hlist.links
  obtain rfl : cell' = cell := Option.some.inj (hcell'.symm.trans hcell)
  have hi : i ∉ rest := (List.nodup_cons.mp hlist.nodup).1
  refine
    { cellBytes := by simpa using hb.cellBytes
      aligned := by simpa using hb.aligned
      positive := by simpa using hb.positive
      bounded := by simpa using hb.bounded
      size := by simp [htake, hb.size]
      listed := ⟨rest, ?_, (List.nodup_cons.mp hlist.nodup).2, ?_, ?_⟩
      cleared := ?_
      fits := ?_ }
  · -- the links behind the taken cell do not pass it again
    rw [show (b.take header).free = cell'.first.toNat by rw [htake], start_take, cellBytes_take]
    refine hrest.congr fun j hj => ?_
    have hne : j ≠ i := fun heq => hi (heq ▸ hj)
    rw [hcells, if_neg hne]
  · intro j
    rw [hcells]
    by_cases hj : j = i
    · subst hj
      simp [hi, hkind]
    · simp only [hj, if_false]
      rw [← hlist.mem_iff, List.mem_cons]
      simp [hj]
  · simp [htake, hlist.count]
  · intro j c hc hk
    rw [hcells] at hc
    by_cases hj : j = i
    · rw [if_pos hj] at hc
      cases hc
      exact absurd hk hkind
    · rw [if_neg hj] at hc
      exact hb.cleared j c hc hk
  · intro j c hc hk
    rw [hcells] at hc
    simp only [cellBytes_take]
    by_cases hj : j = i
    · rw [if_pos hj] at hc
      cases hc
      exact hfits
    · rw [if_neg hj] at hc
      exact hb.fits j c hc hk

/-! ## Changing an object -/

theorem getElem?_cells_modifyAt (b : Block) (i j : Nat) (f : Cell → Cell) :
    (b.modifyAt i f).cells[j]? = if j = i then b.cells[i]?.map f else b.cells[j]? := by
  simp only [modifyAt, Array.getElem?_modify]
  by_cases hj : j = i
  · simp [hj]
  · simp [hj, Ne.symm hj]

/-- A change to an object that leaves it an object of the same size keeps a block valid. -/
theorem Valid.modifyAt (hb : b.Valid) {f : Cell → Cell} (hcell : b.cells[i]? = some cell)
    (hkind : cell.header.kind ≠ .free) (hkind' : (f cell).header.kind ≠ .free)
    (hwords : (f cell).header.words = cell.header.words) : (b.modifyAt i f).Valid := by
  have hcells : ∀ j, (b.modifyAt i f).cells[j]? = if j = i then some (f cell) else b.cells[j]? := by
    intro j
    rw [getElem?_cells_modifyAt, hcell, Option.map_some]
  obtain ⟨indices, hlist⟩ := hb.listed
  have hi : i ∉ indices := hlist.not_mem hcell hkind
  refine
    { cellBytes := hb.cellBytes
      aligned := hb.aligned
      positive := hb.positive
      bounded := hb.bounded
      size := by simpa [Block.modifyAt] using hb.size
      listed := ⟨indices, hlist.links.congr fun j hj => ?_, hlist.nodup, fun j => ?_, hlist.count⟩
      cleared := fun j c hc hk => ?_
      fits := fun j c hc hk => ?_ }
  · have hne : j ≠ i := fun heq => hi (heq ▸ hj)
    rw [hcells, if_neg hne]
  · rw [hcells, hlist.mem_iff]
    by_cases hj : j = i
    · subst hj
      simp [hcell, hkind, hkind']
    · simp [hj]
  · rw [hcells] at hc
    by_cases hj : j = i
    · rw [if_pos hj] at hc
      cases hc
      exact absurd hk hkind'
    · rw [if_neg hj] at hc
      exact hb.cleared j c hc hk
  · rw [hcells] at hc
    by_cases hj : j = i
    · rw [if_pos hj] at hc
      cases hc
      rw [hwords]
      exact hb.fits i cell hcell hkind
    · rw [if_neg hj] at hc
      exact hb.fits j c hc hk

/-! ## New blocks -/

theorem addressBelow_toNat {start cellBytes count index : Nat}
    (h : start + count * cellBytes < wordLimit) :
    (UInt64.ofNat (addressBelow start cellBytes count index)).toNat
      = addressBelow start cellBytes count index := by
  rw [UInt64.toNat_ofNat_of_lt']
  unfold addressBelow
  split
  next hlt =>
    have := Nat.mul_le_mul_right cellBytes (Nat.le_of_lt hlt)
    show _ < wordLimit
    omega
  next => decide

/-- The links of a new block pass the cells in the order of their addresses. -/
theorem links_new {start cellBytes count : Nat} (h : start + count * cellBytes < wordLimit)
    (hcells : ∀ i, i < count → cells[i]?
      = some (.linking (UInt64.ofNat (addressBelow start cellBytes count (i + 1))))) :
    ∀ length index, index + length = count →
      Links start cellBytes cells (addressBelow start cellBytes count index)
        (List.range' index length) := by
  intro length
  induction length with
  | zero =>
    intro index heq
    exact if_neg (by omega)
  | succ length ih =>
    intro index heq
    have hlt : index < count := by omega
    refine ⟨if_pos hlt, _, hcells index hlt, ?_⟩
    rw [Cell.first_linking, addressBelow_toNat h]
    exact ih (index + 1) (by omega)

theorem new_valid {start cellBytes : Nat} (hclass : cellBytes ∈ sizeClasses)
    (haligned : start % blockBytes = 0) (hpos : 0 < start) (hbound : start + blockBytes < wordLimit) :
    ∃ b, new start cellBytes = .ok b ∧ b.Valid ∧ b.start = start ∧ b.cellBytes = cellBytes ∧
      b.free ≠ 0 ∧
      ∀ (i : Nat) (cell : Cell), b.cells[i]? = some cell → cell.header.kind = .free := by
  have hsize := sizeClasses_bounds hclass
  have hcount : 0 < blockBytes / cellBytes := 
    Nat.div_pos (Nat.le_trans hsize.2.1 (by decide)) (by omega)
  have hmul : blockBytes / cellBytes * cellBytes ≤ blockBytes := Nat.div_mul_le_self _ _
  have hcells : ∀ i cell, ((List.range' 0 (blockBytes / cellBytes)).map fun index =>
      Cell.linking (UInt64.ofNat (addressBelow start cellBytes (blockBytes / cellBytes)
        (index + 1)))).toArray[i]? = some cell ↔ i < blockBytes / cellBytes ∧
      cell = .linking (UInt64.ofNat (addressBelow start cellBytes (blockBytes / cellBytes)
        (i + 1))) := by
    intro i cell
    simp only [List.getElem?_toArray, List.getElem?_map, ← List.range_eq_range']
    by_cases hi : i < blockBytes / cellBytes
    · simp [hi, eq_comm]
    · simp [hi]
  refine ⟨_, if_neg (by omega), ?_, rfl, rfl, ?_, ?_⟩
  · refine
      { cellBytes := hclass
        aligned := haligned
        positive := hpos
        bounded := hbound
        size := by simp
        listed := ⟨List.range (blockBytes / cellBytes), ?_, List.nodup_range, fun i => ?_, by simp⟩
        cleared := fun i cell hc _ j => ?_
        fits := fun i cell hc hk => ?_ }
    · rw [List.range_eq_range']
      exact links_new (by omega) (fun i hi => (hcells i _).mpr ⟨hi, rfl⟩) _ 0 (by omega)
    · simp only [hcells, List.mem_range]
      constructor
      · intro hi
        exact ⟨_, ⟨hi, rfl⟩, rfl⟩
      · rintro ⟨cell, ⟨hi, -⟩, -⟩
        exact hi
    · rw [((hcells i cell).mp hc).2]
      exact Cell.word_linking _ _
    · rw [((hcells i cell).mp hc).2] at hk
      exact absurd rfl hk
  · simp [addressBelow, hcount, Nat.ne_of_gt hpos]
  · intro i cell hc
    rw [((hcells i cell).mp hc).2]
    rfl

end Block

end Substrate
