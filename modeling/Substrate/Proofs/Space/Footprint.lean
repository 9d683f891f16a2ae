import Substrate.Proofs.Space.Holdings

/-!
# The footprint of a space

A space is charged for its blocks and for the mappings of its large objects, in whole pages, and never
takes more than its maximum. Every object has the size that it was charged with: that of the cells of its
block, or that of header and payload if it has a mapping of its own. `Space.Settled` says all of this;
allocations and sweeps keep it.
-/

namespace Substrate

/-- Bytes that an object with the given payload takes: a cell, or header and payload if no cell is large
enough. -/
def bytesFor (words : Nat) : Nat :=
  match sizeClassFor? ((1 + words) * wordBytes) with
  | some sizeClass => classBytes sizeClass
  | none => (1 + words) * wordBytes

/-- What fits in memory is charged without overflow. -/
theorem allocationSize_eq (mode : Mode) {words : Nat} (h : (1 + words) * wordBytes < wordLimit) :
    allocationSize mode words = .ok (bytesFor words) := by
  have hadd : mode.add 1 words = .ok (1 + words) :=
    if_pos (by simp only [wordLimit, wordBytes] at *; omega)
  have hmul : mode.mul (1 + words) wordBytes = .ok ((1 + words) * wordBytes) := if_pos h
  simp only [allocationSize, hadd, hmul, ok_bind, bytesFor]
  rfl

theorem bytes_lt_of_payload {words : Nat} (h : words < Space.payloadLimit) :
    (1 + words) * wordBytes < wordLimit := by
  simp only [Space.payloadLimit, wordLimit, wordBytes] at *
  omega

/-- Every object in the block was charged with one of its cells. -/
def Block.Fitted (b : Block) : Prop :=
  ∀ words ∈ b.sizes, bytesFor words = b.cellBytes

/-- The object was charged with header and payload, and its mapping consists of the pages for them. -/
def Large.Fitted (object : Large) : Prop :=
  bytesFor object.cell.header.words = (1 + object.cell.header.words) * wordBytes ∧
    object.bytes = pagesFor ((1 + object.cell.header.words) * wordBytes)

namespace Space

variable {s t : Space} {a c i : Nat} {b : Block} {header : Header} {words : Nat}

/-- Nothing is owed: every object has the size it was charged with, and the footprint is what the
memory adds up to. -/
structure Settled (s : Space) : Prop where
  blocks : ∀ b ∈ s.blocks, b.Fitted
  larges : ∀ object ∈ s.larges, object.Fitted
  footprint : s.footprint = blockBytes * s.blocks.length + (s.larges.map (·.bytes)).sum
  bounded : s.footprint ≤ s.maxFootprint

theorem settled_new (maxFootprint : Nat) : (Space.new maxFootprint).Settled := by
  have hblocks : (Space.new maxFootprint).blocks = [] := rfl
  have hlarges : (Space.new maxFootprint).larges = [] := rfl
  refine ⟨?_, ?_, ?_, Nat.zero_le _⟩
  · rw [hblocks]
    exact List.forall_mem_nil _
  · rw [hlarges]
    exact List.forall_mem_nil _
  · rw [hblocks, hlarges]
    rfl

theorem Alike.settled (h : Alike s t) (hs : s.Settled) : t.Settled := by
  refine ⟨fun b hb => ?_, fun object hobject => ?_, ?_, ?_⟩
  · have hmem : b.outline ∈ s.blocks.map Block.outline := h.blocks ▸ List.mem_map_of_mem hb
    obtain ⟨b₀, hb₀, heq⟩ := List.mem_map.mp hmem
    intro words hwords
    rw [Block.sizes_eq, ← heq, ← Block.sizes_eq] at hwords
    exact (hs.blocks b₀ hb₀ words hwords).trans (congrArg Prod.fst heq)
  · have hmem : object.outline ∈ s.larges.map Large.outline := h.larges ▸ List.mem_map_of_mem hobject
    obtain ⟨object₀, hobject₀, heq⟩ := List.mem_map.mp hmem
    obtain ⟨hbytes, hwords⟩ := Prod.mk.inj heq
    have hfitted := hs.larges object₀ hobject₀
    rwa [Large.Fitted, hbytes, hwords] at hfitted
  · have hlength : t.blocks.length = s.blocks.length := by
      rw [← List.length_map Block.outline, h.blocks, List.length_map]
    have hbytes : t.larges.map (·.bytes) = s.larges.map (·.bytes) := by
      have := congrArg (List.map Prod.fst) h.larges
      rwa [List.map_map, List.map_map] at this
    rw [h.footprint, hs.footprint, hlength, hbytes]
  · rw [h.footprint, h.maxFootprint]
    exact hs.bounded

/-- Bytes that the objects were charged with. -/
def bytesInUse (s : Space) : Nat :=
  (s.objects.map fun a => bytesFor (s.header a).words).sum

theorem Valid.bytesInUse_eq (hs : s.Valid) : s.bytesInUse = (s.sizes.map bytesFor).sum := by
  rw [hs.sizes_eq, List.map_map]
  rfl

/-- Every object lies in memory. -/
theorem Valid.bytes_lt (hs : s.Valid) (ha : a ∈ s.objects) :
    (1 + (s.header a).words) * wordBytes < wordLimit := by
  obtain ⟨cell, hcell⟩ := Option.isSome_iff_exists.mp (hs.mem_objects_iff.mp ha)
  rw [header_of_object? hcell]
  cases hs.object?_eq_some_iff.mp hcell with
  | @small c i j b hb hj hkind haddress =>
    have hvalid := (hs.blocks c i b hb).1
    have hfits := hvalid.fits j cell hj hkind
    have hbound := hvalid.bounded
    have hmem := hs.address_mem hb (Array.getElem?_eq_some_iff.mp hj).1
    omega
  | large hobject hlarge =>
    subst hlarge
    have hvalid := hs.large a _ hobject
    have hfits := hvalid.fits
    have hbound := hvalid.bounded
    omega

/-! ## Allocation -/

/-- What a request for the memory of an object costs: nothing if it is refused, and otherwise there is
one object more as soon as its header is in place. -/
inductive Charges (s : Space) (header : Header) : Except Fault (Option Nat) × Space → Prop where
  | refused {t : Space} (h : Alike s t) : Charges s header (.ok none, t)
  | granted {t : Space} {a : Nat} (hmax : t.maxFootprint = s.maxFootprint)
      (hsizes : (t.modifyHeader a fun _ => header).sizes.Perm (header.words :: s.sizes))
      (hsettled : s.Settled → (t.modifyHeader a fun _ => header).Settled) :
      Charges s header (.ok (some a), t)

/-- An object comes into a block. -/
theorem perm_sizes_take (hb : b.Valid) (hfree : b.free ≠ 0) (hkind : header.kind ≠ .free) :
    (b.take header).sizes.Perm (header.words :: b.sizes) := by
  obtain ⟨j, old, haddress, hold, hkindOld⟩ := hb.first hfree
  have hcells : (b.take header).cells.toList
      = b.cells.toList.modify j fun _ => (old.setWord 0 0).setHeader header := by
    refine List.ext_getElem? fun k => ?_
    rw [Array.getElem?_toList, Block.getElem?_cells_take hb header haddress hold,
      List.getElem?_modify, Array.getElem?_toList]
    by_cases hk : k = j
    · simp [hk, hold]
    · simp [hk, Ne.symm hk]
  obtain ⟨xs, ys, hsplit, hmodify⟩ := exists_split ((Array.getElem?_toList ..).trans hold)
  have hnone : old.size? = none := if_pos hkindOld
  have hsome : ((old.setWord 0 0).setHeader header).size? = some header.words := if_neg hkind
  rw [Block.sizes, Block.sizes, hcells, hmodify, hsplit]
  simp only [List.filterMap_append, List.filterMap_cons, hnone, hsome]
  exact List.perm_middle

theorem footprint_takeCell (s : Space) (c : Nat) :
    (s.takeCell c).2.footprint = s.footprint ∧ (s.takeCell c).2.maxFootprint = s.maxFootprint := by
  unfold takeCell
  split <;> exact ⟨rfl, rfl⟩

theorem footprint_modifyHeader (s : Space) (a : Nat) (f : Header → Header) :
    (s.modifyHeader a f).footprint = s.footprint ∧
      (s.modifyHeader a f).maxFootprint = s.maxFootprint := by
  unfold modifyHeader modifyCell
  split <;> exact ⟨rfl, rfl⟩

theorem Same.alike (h : Same s t) (hfootprint : t.footprint = s.footprint)
    (hmax : t.maxFootprint = s.maxFootprint) : Alike s t :=
  ⟨congrArg _ h.blocks_eq, by rw [larges, larges, h.large], hfootprint, hmax⟩

/-- One object more in a block of cells of its size. -/
theorem fitted_cons {b b' : Block} (hb : b.Fitted) (hsizes : b'.sizes.Perm (words :: b.sizes))
    (hcellBytes : b'.cellBytes = b.cellBytes) (hbytes : bytesFor words = b.cellBytes) :
    b'.Fitted := by
  intro words' hwords'
  rw [hcellBytes]
  rcases List.mem_cons.mp (hsizes.mem_iff.mp hwords') with rfl | hwords'
  · exact hbytes
  · exact hb words' hwords'

/-- A cell of a block there is costs nothing. -/
theorem Replaces.charges (h : Replaces s t c i b (b.take header)) (hb : b.Valid) (hfree : b.free ≠ 0)
    (hkind : header.kind ≠ .free) (hbytes : bytesFor header.words = b.cellBytes)
    (hfootprint : t.footprint = s.footprint) (hmax : t.maxFootprint = s.maxFootprint) :
    t.sizes.Perm (header.words :: s.sizes) ∧ (s.Settled → t.Settled) := by
  obtain ⟨xs, ys, hbefore, hafter⟩ := h.exists_blocks
  have hsizes := perm_sizes_take hb hfree hkind
  have hlarges : t.larges = s.larges := by rw [larges, larges, h.large]
  constructor
  · simp only [sizes, hbefore, hafter, hlarges, List.flatMap_append, List.flatMap_cons,
      List.append_assoc]
    refine ((hsizes.append_right _).append_left _).trans ?_
    exact List.perm_middle
  · intro hs
    refine ⟨fun b₁ hb₁ => ?_, by rw [hlarges]; exact hs.larges, ?_, ?_⟩
    · rw [hafter, List.mem_append, List.mem_cons] at hb₁
      have hold := hs.blocks
      rw [hbefore] at hold
      rcases hb₁ with hb₁ | rfl | hb₁
      · exact hold b₁ (List.mem_append_left _ hb₁)
      · exact fitted_cons (hold b (by simp)) hsizes (Block.cellBytes_take b header) hbytes
      · exact hold b₁ (by simp [hb₁])
    · rw [hfootprint, hs.footprint, hlarges, hbefore, hafter, List.length_append, List.length_append]
      rfl
    · rw [hfootprint, hmax]
      exact hs.bounded

/-- A new block costs its size. -/
theorem Grows.charges {pool : Pool} (hpool : s.pools[c]? = some pool)
    (h : Grows s t c pool.blocks.size (b.take header)) (hb : b.Valid) (hfree : b.free ≠ 0)
    (hnew : b.sizes = []) (hkind : header.kind ≠ .free) (hbytes : bytesFor header.words = b.cellBytes)
    (hfootprint : t.footprint = s.footprint + blockBytes) (hmax : t.maxFootprint = s.maxFootprint)
    (hlimit : s.footprint + blockBytes ≤ s.maxFootprint) :
    t.sizes.Perm (header.words :: s.sizes) ∧ (s.Settled → t.Settled) := by
  have hblocks := h.perm_blocks hpool rfl
  have hsizes := perm_sizes_take hb hfree hkind
  rw [hnew] at hsizes
  have hlarges : t.larges = s.larges := by rw [larges, larges, h.large]
  constructor
  · rw [sizes, sizes, hlarges]
    refine ((hblocks.flatMap_right _).append_right _).trans ?_
    rw [List.flatMap_cons, List.append_assoc]
    exact hsizes.append_right _
  · intro hs
    refine ⟨fun b₁ hb₁ => ?_, by rw [hlarges]; exact hs.larges, ?_, ?_⟩
    · rcases List.mem_cons.mp (hblocks.mem_iff.mp hb₁) with rfl | hb₁
      · refine fitted_cons (b := b) (fun words hwords => ?_) (hnew ▸ hsizes)
          (Block.cellBytes_take b header) hbytes
        rw [hnew] at hwords
        cases hwords
      · exact hs.blocks b₁ hb₁
    · rw [hfootprint, hs.footprint, hlarges, hblocks.length_eq, List.length_cons, Nat.mul_succ]
      omega
    · rw [hfootprint, hmax]
      exact hlimit

/-- A large object costs the pages of its mapping. -/
theorem charges_mapping (object : Large) (habsent : s.large[a]? = none)
    (hlarge : ∀ x : Nat, t.large[x]? = if x = a then some object else s.large[x]?)
    (hblocks : t.blocks = s.blocks) (hobject : object.Fitted)
    (hfootprint : t.footprint = s.footprint + object.bytes) (hmax : t.maxFootprint = s.maxFootprint)
    (hlimit : s.footprint + object.bytes ≤ s.maxFootprint) :
    t.sizes.Perm (object.cell.header.words :: s.sizes) ∧ (s.Settled → t.Settled) := by
  have hlarges := perm_larges habsent hlarge
  constructor
  · rw [sizes, sizes, hblocks]
    refine ((hlarges.map _).append_left _).trans ?_
    exact List.perm_middle
  · intro hs
    refine ⟨by rw [hblocks]; exact hs.blocks, fun object₁ hobject₁ => ?_, ?_, ?_⟩
    · rcases List.mem_cons.mp (hlarges.mem_iff.mp hobject₁) with rfl | hobject₁
      · exact hobject
      · exact hs.larges object₁ hobject₁
    · rw [hfootprint, hs.footprint, hblocks, (hlarges.map _).sum_eq, List.map_cons, List.sum_cons]
      omega
    · rw [hfootprint, hmax]
      exact hlimit

/-! ## Requests -/

theorem bytesFor_of_class (h : sizeClassFor? ((1 + words) * wordBytes) = some c) :
    bytesFor words = classBytes c := by
  simp only [bytesFor, h]

theorem bytesFor_of_none (h : sizeClassFor? ((1 + words) * wordBytes) = none) :
    bytesFor words = (1 + words) * wordBytes := by
  simp only [bytesFor, h]

theorem Valid.charges_newBlock (hs : s.Valid) (halike : Alike s t) (h : Same s t)
    (hclass : sizeClassFor? ((1 + header.words) * wordBytes) = some c) (hnew : NewBlock s c b)
    (hkind : header.kind ≠ .free) (hlimit : t.footprint + blockBytes ≤ t.maxFootprint) :
    Charges s header (.ok (some b.free), t.addBlock c b.dropFirst) := by
  obtain ⟨pool, hpool⟩ : ∃ pool, t.pools[c]? = some pool :=
    ⟨_, Array.getElem?_eq_getElem (by rw [h.pools, hs.pools]; exact (sizeClassFor?_some hclass).1)⟩
  have hsizes : b.sizes = [] := by
    refine List.filterMap_eq_nil_iff.mpr fun cell hcell => if_pos ?_
    obtain ⟨j, hj⟩ := Array.mem_iff_getElem?.mp (Array.mem_toList_iff.mp hcell)
    exact hnew.cells j cell hj
  have hprint := footprint_modifyHeader (t.addBlock c b.dropFirst) b.free fun _ => header
  obtain ⟨hperm, hsettled⟩ := (Grows.addBlock hpool hnew.valid hnew.free header).charges hpool
    hnew.valid hnew.free hsizes hkind ((bytesFor_of_class hclass).trans hnew.cellBytes.symm) hprint.1
    hprint.2 hlimit
  refine .granted halike.maxFootprint ?_ fun hs => hsettled (halike.settled hs)
  rw [← halike.sizes]
  exact hperm

theorem Valid.charges_small (mode : Mode) (hs : s.Valid) (fresh : s.pages.Fresh s.Held)
    (hclass : sizeClassFor? ((1 + header.words) * wordBytes) = some c)
    (hkind : header.kind ≠ .free) : Charges s header (s.allocateSmall mode c) := by
  have hprint := footprint_takeCell s c
  obtain ⟨i, b, t, htake, hfree, hreplaces, hrun⟩ | ⟨t, htake, hsame, hrefused⟩ :=
    hs.allocateSmall_cases mode fresh (sizeClassFor?_some hclass).1
  · rw [htake] at hprint
    have hheader := footprint_modifyHeader t b.free fun _ => header
    have hreplaced := hreplaces header
    have hb := hs.blocks c i b hreplaced.old
    obtain ⟨hperm, hsettled⟩ := hreplaced.charges hb.1 hfree hkind
      ((bytesFor_of_class hclass).trans hb.2.symm) (hheader.1.trans hprint.1)
      (hheader.2.trans hprint.2)
    exact hrun ▸ .granted hprint.2 hperm hsettled
  · rw [htake] at hprint
    have halike := hsame.alike hprint.1 hprint.2
    obtain ⟨-, hrun⟩ | ⟨-, hrun⟩ | ⟨after, b, hnew, hlimit, hrun⟩ := hrefused
    · exact hrun ▸ .refused halike
    · exact hrun ▸ .refused halike
    · exact hrun ▸ hs.charges_newBlock (t := { t with pages := after })
        (halike.trans ⟨rfl, rfl, rfl, rfl⟩) (hsame.trans (.pages t after)) hclass hnew hkind hlimit

theorem Valid.charges_large (mode : Mode) (hs : s.Valid) (fresh : s.pages.Fresh s.Held)
    (hclass : sizeClassFor? ((1 + header.words) * wordBytes) = none)
    (hwords : header.words < payloadLimit) :
    Charges s header (s.allocateLarge mode ((1 + header.words) * wordBytes)) := by
  obtain ⟨-, hrun⟩ | ⟨-, hrun⟩ | ⟨after, bytes, hbytes, hrun, hmax, -, hapart⟩ :=
    allocateLarge_cases mode fresh hwords
  · exact hrun ▸ .refused (.refl s)
  · exact hrun ▸ .refused (.refl s)
  · have hpos : 0 < bytes := by
      have hfits := le_pagesFor ((1 + header.words) * wordBytes)
      simp only [wordBytes] at hfits hbytes
      omega
    obtain ⟨large, hmodify, hlarge⟩ := hs.modifyHeader_enlarged after hpos hapart header
    have habsent : s.large[s.pages.next]? = none := by
      cases hobject : s.large[s.pages.next]? with
      | none => rfl
      | some object =>
        have hfits := (hs.large _ object hobject).fits
        have := hapart _ (.large hobject)
        simp only [wordBytes] at this hfits
        omega
    have hcharges := charges_mapping (s := s) (t := { s.enlarged after bytes with large })
      ⟨bytes, Cell.zero.setHeader header⟩ habsent hlarge rfl ⟨bytesFor_of_none hclass, hbytes⟩
      rfl rfl hmax
    rw [hrun]
    exact .granted rfl (hmodify ▸ hcharges.1) (hmodify ▸ hcharges.2)

/-- Every allocation is charged with what it takes. -/
theorem Valid.charges (mode : Mode) (hs : s.Valid) (fresh : s.pages.Fresh s.Held) {kind : Kind}
    (hkind : kind.isHeap = true) (words : Nat) :
    (∃ t, s.allocate mode kind words = (.ok none, t) ∧ Alike s t) ∨
      ∃ a t, s.allocate mode kind words = (.ok (some a), t) ∧ t.maxFootprint = s.maxFootprint ∧
        t.sizes.Perm (words :: s.sizes) ∧ (s.Settled → t.Settled) := by
  have hfree := Header.kind_new_ne_free hkind words
  by_cases hlimit : payloadLimit ≤ words
  · exact .inl ⟨s, if_pos hlimit, .refl s⟩
  · have hcharges : Charges s (Header.new kind words)
        (s.allocateBytes mode ((1 + words) * wordBytes)) := by
      unfold allocateBytes
      split
      next c hclass => exact hs.charges_small mode fresh hclass hfree
      next hclass => exact hs.charges_large mode fresh hclass (Nat.not_le.mp hlimit)
    simp only [Space.allocate, if_neg hlimit]
    generalize s.allocateBytes mode ((1 + words) * wordBytes) = answer at hcharges
    cases hcharges with
    | refused halike => exact .inl ⟨_, rfl, halike⟩
    | granted hmax hsizes hsettled =>
      exact .inr ⟨_, _, rfl, (footprint_modifyHeader _ _ _).2.trans hmax, hsizes, hsettled⟩

end Space

end Substrate
