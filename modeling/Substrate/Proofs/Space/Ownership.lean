import Substrate.Proofs.Collection.Extents

/-!
# What a space has from the system

A space comes by memory in one way only: it asks the system for it when an object is allocated. Everything
else that is done to a space leaves it with what it held, or with less (`Space.Encloses`).

The pages that a space has with it are handed out in the order of their addresses, so that everything it
holds lies below the next one (`Space.Owned`). This is so at the beginning and stays so, whatever is done
to the space, in order or not: its own pages are always fresh.
-/

namespace Substrate.Space

variable {s t u : Space} {a c : Nat} {r : Region} {b : Block}

/-! ## No more memory -/

/-- The second space holds nothing that the first one did not hold, and the system has not been asked. -/
structure Encloses (s t : Space) : Prop where
  pages : t.pages = s.pages
  held : ∀ r, t.Held r → s.Held r

namespace Encloses

theorem refl (s : Space) : Encloses s s := ⟨rfl, fun _ => id⟩

theorem trans (h : Encloses s t) (h' : Encloses t u) : Encloses s u :=
  ⟨h'.pages.trans h.pages, fun r hr => h.held r (h'.held r hr)⟩

/-- Mappings stay where they are. -/
theorem of_mappings (hpages : t.pages = s.pages)
    (hblocks : ∀ c i b', t.block? c i = some b' → ∃ i' b, s.block? c i' = some b ∧ b'.start = b.start)
    (hlarge : ∀ (a : Nat) (object' : Large), t.large[a]? = some object' →
      ∃ object, s.large[a]? = some object ∧ object'.bytes = object.bytes) : Encloses s t := by
  refine ⟨hpages, ?_⟩
  rintro r (⟨hb⟩ | ⟨hobject⟩)
  · obtain ⟨i', b, hb, hstart⟩ := hblocks _ _ _ hb
    rw [hstart]
    exact .block hb
  · obtain ⟨object, hobject, hbytes⟩ := hlarge _ _ hobject
    rw [hbytes]
    exact .large hobject

end Encloses

theorem encloses_takeCell (s : Space) (c : Nat) : Encloses s (s.takeCell c).2 := by
  have hpages := pages_takeCell s c
  unfold takeCell at hpages ⊢
  split at hpages
  · exact .refl s
  · refine .of_mappings hpages (fun c' i' b' hb' => ?_) fun _ object hobject => ⟨object, hobject, rfl⟩
    rw [block?_takeAt] at hb'
    split at hb'
    next heq =>
      obtain ⟨b, hb, rfl⟩ := Option.map_eq_some_iff.mp hb'
      exact ⟨_, b, heq.1 ▸ hb, Block.start_dropFirst b⟩
    · exact ⟨i', b', hb', rfl⟩

theorem encloses_modifyCell (s : Space) (a : Nat) (f : Cell → Cell) :
    Encloses s (s.modifyCell a f) := by
  cases hindex : s.blockIndex[blockBase a]? with
  | none =>
    simp only [modifyCell, hindex]
    refine .of_mappings rfl (fun _ i b hb => ⟨i, b, hb, rfl⟩) fun x object' hobject' => ?_
    simp only [Std.TreeMap.getElem?_modify] at hobject'
    split at hobject'
    next heq =>
      obtain rfl := Nat.compare_eq_eq.mp heq
      obtain ⟨object, hobject, rfl⟩ := Option.map_eq_some_iff.mp hobject'
      exact ⟨object, hobject, rfl⟩
    · exact ⟨object', hobject', rfl⟩
  | some entry =>
    refine .of_mappings (by simp only [modifyCell, hindex, modifyPool]) (fun c' i' b' hb' => ?_)
      fun x object hobject => ⟨object, large_modifyCell hindex f ▸ hobject, rfl⟩
    rw [block?_modifyCell hindex] at hb'
    split at hb'
    next heq =>
      obtain ⟨b, hb, rfl⟩ := Option.map_eq_some_iff.mp hb'
      exact ⟨_, b, heq.1 ▸ hb, Block.start_modifyCell b a f⟩
    · exact ⟨i', b', hb', rfl⟩

theorem encloses_setWord (s : Space) (a index : Nat) (bits : Word) :
    Encloses s (s.setWord a index bits) :=
  encloses_modifyCell s a _

theorem encloses_sweep (s : Space) : Encloses s s.sweep.2 := by
  refine .of_mappings rfl (fun c i b' hb' => ?_) fun x object' hobject' => ?_
  · obtain ⟨i₀, b, hb, rfl⟩ := block_of_sweep hb'
    exact ⟨i₀, b, hb, rfl⟩
  · obtain ⟨object, hobject, -, rfl⟩ := large_of_sweep hobject'
    exact ⟨object, hobject, rfl⟩

/-! ## Memory in the order of addresses -/

/-- Everything that the space holds lies below the address at which its own pages go on. -/
structure Owned (s : Space) : Prop where
  aligned : s.pages.next % pageBytes = 0
  positive : 0 < s.pages.next
  bounded : s.pages.next + s.pages.limit ≤ wordLimit
  below : ∀ r, s.Held r → r.stop ≤ s.pages.next

/-- The pages of a space that owns its memory are fresh. -/
theorem Owned.fresh (h : s.Owned) : s.pages.Fresh s.Held :=
  ⟨h.aligned, h.positive, fun bytes hbytes => by have := h.bounded; omega,
    fun _ _ r hr => .inr (h.below r hr)⟩

theorem owned_new (maxFootprint : Nat) : (Space.new maxFootprint).Owned := by
  have hpages : (Space.new maxFootprint).pages = .fresh := rfl
  refine ⟨hpages ▸ rfl, hpages ▸ by decide, hpages ▸ by decide, ?_⟩
  rintro r (⟨hb⟩ | ⟨hobject⟩)
  · rw [Ledger.block?_new] at hb
    cases hb
  · cases hobject

theorem Owned.encloses (h : s.Owned) (hencloses : Encloses s t) : t.Owned :=
  ⟨hencloses.pages ▸ h.aligned, hencloses.pages ▸ h.positive, hencloses.pages ▸ h.bounded,
    fun r hr => hencloses.pages ▸ h.below r (hencloses.held r hr)⟩

/-- The system has gone on behind what the space was given, and the space holds nothing else that is new. -/
theorem Owned.advances (h : s.Owned) {stop : Nat} (hafter : s.pages.Advances stop t.pages)
    (hheld : ∀ r, t.Held r → s.Held r ∨ r.stop = stop) : t.Owned := by
  refine ⟨hafter.aligned, Nat.lt_of_lt_of_le h.positive hafter.next, hafter.bounded, fun r hr => ?_⟩
  obtain hold | hnew := hheld r hr
  · exact Nat.le_trans (h.below r hold) hafter.next
  · exact hnew ▸ hafter.stop

theorem held_addBlock (hr : (s.addBlock c b).Held r) :
    s.Held r ∨ r = ⟨b.start, b.start + blockBytes⟩ := by
  obtain ⟨hb⟩ | ⟨hobject⟩ := hr
  · cases hpool : s.pools[c]? with
    | none =>
      have hsame : ∀ c' i, (s.addBlock c b).block? c' i = s.block? c' i := by
        intro c' i
        by_cases hc : c = c'
        · rw [← hc, addBlock, block?, Array.getElem?_modify, if_pos rfl, hpool, block?, hpool]
          rfl
        · simp [addBlock, block?, Array.getElem?_modify, hc]
      exact .inl (.block (hsame _ _ ▸ hb))
    | some pool =>
      rw [block?_addBlock hpool] at hb
      split at hb
      · cases hb
        exact .inr rfl
      · exact .inl (.block hb)
  · exact .inl (.large hobject)

theorem Owned.allocateSmall (h : s.Owned) (mode : Mode) (c : Nat) :
    (s.allocateSmall mode c).2.Owned := by
  have htake := encloses_takeCell s c
  unfold Space.allocateSmall
  split
  next heq =>
    rw [heq] at htake
    exact h.encloses htake
  next t heq =>
    rw [heq] at htake
    have howned : t.Owned := h.encloses htake
    split
    · exact howned
    obtain ⟨-, bytes, error, hmap⟩ | ⟨start, after, hmap, hafter, -⟩ :=
      howned.fresh.mapAligned_block mode
    · rw [hmap]
      exact howned
    · have hgone : Owned { t with pages := after } :=
        howned.advances hafter fun r hr => .inl ((Same.pages t after).held.mp hr)
      rw [hmap]
      dsimp only
      split
      · exact hgone
      next b hnew =>
        have hstart : b.start = start := by
          unfold Block.new at hnew
          split at hnew
          · cases hnew
          · cases hnew
            rfl
        refine howned.advances hafter fun r hr => ?_
        obtain hold | rfl := held_addBlock hr
        · exact .inl ((Same.pages t after).held.mp hold)
        · exact .inr (by rw [Block.allocate, Block.start_dropFirst, hstart])

theorem Owned.allocateLarge (h : s.Owned) (mode : Mode) {words : Nat} (hwords : words < payloadLimit) :
    (s.allocateLarge mode ((1 + words) * wordBytes)).2.Owned := by
  have hpos : 0 < (1 + words) * wordBytes := Nat.mul_pos (by omega) (by decide)
  have hbytes : (1 + words) * wordBytes + 2 * pageBytes < wordLimit := by
    simp only [payloadLimit, wordBytes, pageBytes, wordLimit] at *
    omega
  unfold Space.allocateLarge
  split
  · exact h
  split
  · exact h
  obtain ⟨-, mapped, error, hmap⟩ | ⟨after, hmap, hafter, -⟩ := h.fresh.map_large mode hpos hbytes
  · rw [hmap]
    exact h
  · have hsize : Region.size ⟨s.pages.next, s.pages.next + pagesFor ((1 + words) * wordBytes)⟩
        = pagesFor ((1 + words) * wordBytes) := Nat.add_sub_cancel_left _ _
    simp only [hmap, hsize]
    refine h.advances hafter fun r hr => ?_
    obtain ⟨hb⟩ | ⟨hobject⟩ := hr
    · exact .inl (.block hb)
    · simp only [Std.TreeMap.getElem?_insert] at hobject
      split at hobject
      next heq =>
        obtain rfl := Nat.compare_eq_eq.mp heq
        cases hobject
        exact .inr rfl
      · exact .inl (.large hobject)

/-- Whatever is allocated, a space that owns its memory goes on to do so. -/
theorem Owned.allocate (h : s.Owned) (mode : Mode) (kind : Kind) (words : Nat) :
    (s.allocate mode kind words).2.Owned := by
  unfold Space.allocate
  split
  · exact h
  next hlimit =>
    have hbytes : (s.allocateBytes mode ((1 + words) * wordBytes)).2.Owned := by
      unfold allocateBytes
      split
      · exact h.allocateSmall mode _
      · exact h.allocateLarge mode (Nat.not_le.mp hlimit)
    split
    next heq =>
      rw [heq] at hbytes
      exact hbytes.encloses (encloses_modifyCell _ _ _)
    next heq => exact heq ▸ hbytes

end Substrate.Space

namespace Substrate

/-- The state that a computation leaves, however it ended. -/
def Run.left {α σ : Type} (r : EStateM.Result Fault σ α) : σ :=
  match r with
  | .ok _ s => s
  | .error _ s => s

namespace Heap

open Run (left)

/-- A request changes the space as an allocation does. -/
theorem left_tryAllocate (kind : Kind) (words : Nat) (h : Heap) :
    (left (tryAllocate kind words h)).space = (h.space.allocate h.mode kind words).2 := by
  unfold tryAllocate
  dsimp only
  split
  next hrun => rw [hrun]; rfl
  next hrun => rw [hrun]; rfl
  next hrun =>
    rw [hrun]
    split <;> rfl

theorem owned_tryAllocate {h : Heap} (howned : h.space.Owned) (kind : Kind) (words : Nat) :
    (left (tryAllocate kind words h)).space.Owned :=
  left_tryAllocate kind words h ▸ howned.allocate h.mode kind words

end Heap

end Substrate
