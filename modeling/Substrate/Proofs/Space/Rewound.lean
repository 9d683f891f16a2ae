import Substrate.Proofs.Space.Cursor

/-!
# A space does not show its cursors

`Space.rewound` takes every cursor back to the first block. What is read from a space can be read from
the rewound one, and a change to memory changes the rewound one in the same way. An allocation gives the
same from either as long as the cursors only passed blocks without a free cell, and what it leaves
differs in the cursors at most. A sweep makes even this difference disappear.
-/

namespace Substrate

/-- Going through an array commutes with a change at one place. -/
theorem map_modify_comm {α β : Type} {g : α → β} {f : α → α} {f' : β → β}
    (h : ∀ a, g (f a) = f' (g a)) (xs : Array α) (i : Nat) :
    (xs.modify i f).map g = (xs.map g).modify i f' := by
  refine Array.ext_getElem? fun j => ?_
  rw [Array.getElem?_map, Array.getElem?_modify, Array.getElem?_modify, Array.getElem?_map]
  split
  · cases xs[j]? with
    | none => rfl
    | some a => exact congrArg some (h a)
  · rfl

namespace Pool

theorem passed_rewound (pool : Pool) : pool.rewound.Passed :=
  ⟨Nat.zero_le _, fun _ hlt => absurd hlt (Nat.not_lt_zero _)⟩

end Pool

namespace Space

variable {s t : Space} {f : Pool → Pool}

/-- The space with every cursor at the first block. -/
def rewound (s : Space) : Space := { s with pools := s.pools.map Pool.rewound }

theorem getElem?_pools_rewound (s : Space) (c : Nat) :
    s.rewound.pools[c]? = (s.pools[c]?).map Pool.rewound :=
  Array.getElem?_map

theorem passed_rewound (s : Space) : s.rewound.Passed := by
  intro c pool hpool
  rw [getElem?_pools_rewound] at hpool
  obtain ⟨pool₀, -, rfl⟩ := Option.map_eq_some_iff.mp hpool
  exact pool₀.passed_rewound

/-! ## Reading -/

@[simp] theorem blockIndex_rewound (s : Space) : s.rewound.blockIndex = s.blockIndex := rfl

@[simp] theorem large_rewound (s : Space) : s.rewound.large = s.large := rfl

@[simp] theorem footprint_rewound (s : Space) : s.rewound.footprint = s.footprint := rfl

@[simp] theorem cell?_rewound (s : Space) (a : Nat) : s.rewound.cell? a = s.cell? a := by
  unfold cell?
  rw [blockIndex_rewound, large_rewound]
  split
  next sizeClass index _ =>
    rw [getElem?_pools_rewound]
    cases s.pools[sizeClass]? <;> rfl
  next => rfl

@[simp] theorem header_rewound (s : Space) (a : Nat) : s.rewound.header a = s.header a := by
  rw [header, cell?_rewound, header]

@[simp] theorem word_rewound (s : Space) (a index : Nat) : s.rewound.word a index = s.word a index := by
  rw [word, cell?_rewound, word]

@[simp] theorem object?_rewound (s : Space) (a : Nat) : s.rewound.object? a = s.object? a := by
  rw [object?, cell?_rewound, object?]

theorem objectAround?_rewound (s : Space) (a : Nat) : s.rewound.objectAround? a = s.objectAround? a := by
  unfold objectAround?
  rw [blockIndex_rewound, large_rewound]
  split
  next sizeClass index _ =>
    rw [getElem?_pools_rewound]
    cases s.pools[sizeClass]? <;> rfl
  next => rfl

@[simp] theorem findObject?_rewound (s : Space) (a : Nat) (interior : Bool) :
    s.rewound.findObject? a interior = s.findObject? a interior := by
  rw [findObject?, objectAround?_rewound, findObject?]

theorem wordAt?_rewound (s : Space) (a : Nat) : s.rewound.wordAt? a = s.wordAt? a := by
  unfold wordAt?
  rw [blockIndex_rewound, large_rewound]
  split
  next sizeClass index _ =>
    rw [getElem?_pools_rewound]
    cases s.pools[sizeClass]? <;> rfl
  next => rfl

@[simp] theorem load_rewound (s : Space) (a : Nat) : s.rewound.load a = s.load a := by
  unfold load
  rw [wordAt?_rewound]
  split <;> simp

@[simp] theorem capacity_rewound (s : Space) : s.rewound.capacity = s.capacity := by
  rw [capacity, capacity, large_rewound, rewound, Array.foldl_map]
  rfl

theorem objects_rewound (s : Space) : s.rewound.objects = s.objects := by
  rw [objects, objects, large_rewound, rewound, Array.toList_map, List.flatMap_map]
  rfl

/-! ## Writing -/

theorem modifyPool_rewound (s : Space) (c : Nat) (hf : ∀ pool, (f pool).rewound = f pool.rewound) :
    (s.modifyPool c f).rewound = s.rewound.modifyPool c f :=
  congrArg (fun pools => { s with pools }) (map_modify_comm hf s.pools c)

theorem modifyCell_rewound (s : Space) (a : Nat) (f : Cell → Cell) :
    (s.modifyCell a f).rewound = s.rewound.modifyCell a f := by
  unfold modifyCell
  rw [blockIndex_rewound]
  split
  · exact modifyPool_rewound s _ fun _ => rfl
  · rfl

theorem modifyHeader_rewound (s : Space) (a : Nat) (f : Header → Header) :
    (s.modifyHeader a f).rewound = s.rewound.modifyHeader a f :=
  modifyCell_rewound s a _

theorem setWord_rewound (s : Space) (a index : Nat) (bits : Word) :
    (s.setWord a index bits).rewound = s.rewound.setWord a index bits :=
  modifyCell_rewound s a _

theorem store_rewound (s : Space) (a : Nat) (bits : Word) :
    (s.store a bits).rewound = s.rewound.store a bits := by
  unfold store
  rw [wordAt?_rewound]
  split
  · exact modifyHeader_rewound s _ _
  · exact setWord_rewound s _ _ _
  · rfl

/-! ## Sweeping -/

/-- A sweep takes the cursors back itself. -/
theorem sweep_rewound (s : Space) : s.rewound.sweep = s.sweep := by
  have hpools : s.rewound.sweepPools = s.sweepPools := by
    simp only [sweepPools, rewound, Array.mapM_map, Array.foldl_map]
    rfl
  rw [sweep, hpools, sweep]

/-! ## Allocating -/

@[simp] theorem rewound_rewound (s : Space) : s.rewound.rewound = s.rewound := by
  rw [rewound, rewound, Array.map_map]
  rfl

/-- A change to a pool that may move its cursor. -/
theorem rewound_modifyPool (s : Space) (c : Nat)
    (hf : ∀ pool, (f pool.rewound).rewound = (f pool).rewound) :
    (s.rewound.modifyPool c f).rewound = (s.modifyPool c f).rewound := by
  have hcomm : ∀ (pools : Array Pool) (c : Nat), (pools.modify c f).map Pool.rewound
      = (pools.map Pool.rewound).modify c fun pool => (f pool).rewound :=
    map_modify_comm fun pool => (hf pool).symm
  have hpools : (s.rewound.pools.modify c f).map Pool.rewound
      = (s.pools.modify c f).map Pool.rewound := by
    rw [hcomm, hcomm, rewound, Array.map_map]
    rfl
  exact congrArg (fun pools => { s with pools }) hpools

theorem takeCell_rewound (hs : s.Passed) (c : Nat) :
    (s.rewound.takeCell c).1 = (s.takeCell c).1 ∧
      (s.rewound.takeCell c).2.rewound = (s.takeCell c).2.rewound := by
  unfold takeCell
  rw [getElem?_pools_rewound]
  cases hpool : s.pools[c]? with
  | none => exact ⟨rfl, rewound_rewound s⟩
  | some pool =>
    dsimp only [Option.map_some]
    rw [(hs c pool hpool).position_rewound]
    exact ⟨rfl, rewound_modifyPool s c fun _ => rfl⟩

theorem addBlock_rewound (s : Space) (c : Nat) (b : Block) :
    (s.rewound.addBlock c b).rewound = (s.addBlock c b).rewound := by
  have hpools : (s.rewound.modifyPool c (·.push b)).rewound = (s.modifyPool c (·.push b)).rewound :=
    rewound_modifyPool s c fun _ => rfl
  have hadded : ∀ position : Nat, _ := fun position =>
    congrArg (fun t : Space => { t with
      blockIndex := s.blockIndex.insert b.start (c, position)
      footprint := s.footprint + blockBytes }) hpools
  unfold addBlock
  rw [getElem?_pools_rewound]
  cases s.pools[c]? with
  | none => exact hadded 0
  | some pool => exact hadded pool.blocks.size

/-- Spaces that differ in their cursors only have other pools, and these differ in their cursors. -/
theorem exists_pools (h : t.rewound = s.rewound) :
    ∃ pools, t = { s with pools } ∧ pools.map Pool.rewound = s.pools.map Pool.rewound := by
  obtain ⟨pools, blockIndex, large, footprint, maxFootprint, pages⟩ := t
  simp only [rewound, Space.mk.injEq] at h
  obtain ⟨hpools, rfl, rfl, rfl, rfl, rfl⟩ := h
  exact ⟨pools, rfl, hpools⟩

theorem allocateSmall_rewound (hs : s.Passed) (mode : Mode) (c : Nat) :
    (s.rewound.allocateSmall mode c).1 = (s.allocateSmall mode c).1 ∧
      (s.rewound.allocateSmall mode c).2.rewound = (s.allocateSmall mode c).2.rewound := by
  obtain ⟨hanswer, hspace⟩ := takeCell_rewound hs c
  unfold allocateSmall
  revert hanswer hspace
  rcases s.takeCell c with ⟨address?, t⟩
  rcases s.rewound.takeCell c with ⟨address?', t'⟩
  intro hanswer hspace
  obtain rfl : address?' = address? := hanswer
  obtain ⟨pools, rfl, hpools⟩ := exists_pools hspace
  have hsame : ∀ pages, { t with pools, pages }.rewound = { t with pages }.rewound := fun pages =>
    congrArg (fun pools => { t with pools, pages }) hpools
  cases address?' with
  | some address => exact ⟨rfl, hspace⟩
  | none =>
    dsimp only
    split
    · exact ⟨rfl, hspace⟩
    · split
      · exact ⟨rfl, hspace⟩
      · exact ⟨rfl, hsame _⟩
      · split
        · exact ⟨rfl, hsame _⟩
        · refine ⟨rfl, ?_⟩
          dsimp only
          rw [← addBlock_rewound, hsame, addBlock_rewound]

theorem allocateLarge_rewound (s : Space) (mode : Mode) (bytes : Nat) :
    s.rewound.allocateLarge mode bytes
      = ((s.allocateLarge mode bytes).1, (s.allocateLarge mode bytes).2.rewound) := by
  have hmax : s.rewound.maxFootprint = s.maxFootprint := rfl
  have hpages : s.rewound.pages = s.pages := rfl
  unfold allocateLarge
  rw [hmax, hpages, footprint_rewound]
  repeat' split
  all_goals rfl

/-- Where the cursors are does not matter to an allocation. -/
theorem allocate_rewound (hs : s.Passed) (mode : Mode) (kind : Kind) (words : Nat) :
    (s.rewound.allocate mode kind words).1 = (s.allocate mode kind words).1 ∧
      (s.rewound.allocate mode kind words).2.rewound = (s.allocate mode kind words).2.rewound := by
  obtain ⟨hanswer, hspace⟩ : (s.rewound.allocateBytes mode ((1 + words) * wordBytes)).1
        = (s.allocateBytes mode ((1 + words) * wordBytes)).1 ∧
      (s.rewound.allocateBytes mode ((1 + words) * wordBytes)).2.rewound
        = (s.allocateBytes mode ((1 + words) * wordBytes)).2.rewound := by
    unfold allocateBytes
    split
    · exact allocateSmall_rewound hs mode _
    · rw [allocateLarge_rewound]
      exact ⟨rfl, rewound_rewound _⟩
  unfold allocate
  split
  · exact ⟨rfl, rewound_rewound s⟩
  · revert hanswer hspace
    rcases s.rewound.allocateBytes mode ((1 + words) * wordBytes) with ⟨answer', t'⟩
    rcases s.allocateBytes mode ((1 + words) * wordBytes) with ⟨fault | _ | address, t⟩
    · rintro rfl hspace
      exact ⟨rfl, hspace⟩
    · rintro rfl hspace
      exact ⟨rfl, hspace⟩
    · rintro rfl hspace
      dsimp only at hspace ⊢
      rw [modifyHeader_rewound, modifyHeader_rewound, hspace]
      exact ⟨rfl, rfl⟩

/-! ## Twins -/

/-- Spaces that differ in their cursors only, none of which is beyond a free cell. -/
structure Twins (s t : Space) : Prop where
  same : t.rewound = s.rewound
  left : s.Passed
  right : t.Passed

namespace Twins

theorem refl (hs : s.Passed) : Twins s s :=
  ⟨rfl, hs, hs⟩

/-- What does not depend on the cursors is the same in both. -/
theorem read {α : Type} (h : Twins s t) (g : Space → α) (hg : ∀ s, g s.rewound = g s) : g t = g s :=
  (hg t).symm.trans ((congrArg g h.same).trans (hg s))

theorem header (h : Twins s t) (a : Nat) : t.header a = s.header a :=
  h.read (·.header a) (header_rewound · a)

theorem word (h : Twins s t) (a index : Nat) : t.word a index = s.word a index :=
  h.read (·.word a index) (word_rewound · a index)

theorem findObject? (h : Twins s t) (a : Nat) (interior : Bool) :
    t.findObject? a interior = s.findObject? a interior :=
  h.read (·.findObject? a interior) (findObject?_rewound · a interior)

/-- What does not look at the cursors keeps the two alike. -/
theorem write (h : Twins s t) {g : Space → Space} (hg : ∀ s, (g s).rewound = g s.rewound)
    (hpassed : ∀ s, s.Passed → (g s).Passed) : Twins (g s) (g t) :=
  ⟨(hg t).trans ((congrArg g h.same).trans (hg s).symm), hpassed s h.left, hpassed t h.right⟩

theorem modifyHeader (h : Twins s t) (a : Nat) (f : Header → Header) :
    Twins (s.modifyHeader a f) (t.modifyHeader a f) :=
  h.write (modifyHeader_rewound · a f) fun _ hs => hs.modifyCell a _

theorem setWord (h : Twins s t) (a index : Nat) (bits : Word) :
    Twins (s.setWord a index bits) (t.setWord a index bits) :=
  h.write (setWord_rewound · a index bits) fun _ hs => hs.modifyCell a _

theorem store (h : Twins s t) (a : Nat) (bits : Word) : Twins (s.store a bits) (t.store a bits) := by
  refine h.write (store_rewound · a bits) fun s hs => ?_
  unfold Space.store
  split
  · exact hs.modifyCell _ _
  · exact hs.modifyCell _ _
  · exact hs

theorem sweep (h : Twins s t) : t.sweep = s.sweep :=
  h.read Space.sweep sweep_rewound

theorem allocate (h : Twins s t) (mode : Mode) (kind : Kind) (words : Nat) :
    (t.allocate mode kind words).1 = (s.allocate mode kind words).1 ∧
      Twins (s.allocate mode kind words).2 (t.allocate mode kind words).2 := by
  obtain ⟨hanswer, hspace⟩ := allocate_rewound h.left mode kind words
  obtain ⟨hanswer', hspace'⟩ := allocate_rewound h.right mode kind words
  rw [h.same] at hanswer' hspace'
  exact ⟨hanswer'.symm.trans hanswer, hspace'.symm.trans hspace, h.left.allocate mode kind words,
    h.right.allocate mode kind words⟩

end Twins

end Space

end Substrate
