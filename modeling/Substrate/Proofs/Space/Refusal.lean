import Substrate.Proofs.Space.Rewound

/-!
# When an allocation is refused

If the system grants every mapping, a space refuses a request in three cases only: no header can hold the
number of payload words; the size class of the request has no free cell and the maximum leaves no room
for another block; the object would have a mapping of its own, for which the maximum leaves no room. A
refusal moves a cursor at most.
-/

namespace Substrate

/-- The system grants every request that a space makes; none of them reaches 64 GiB. -/
def Pages.Grants (pages : Pages) : Prop :=
  0x1000000000 ≤ pages.limit

/-- Of a request that is granted it remains to be seen that there was no reason to refuse it. -/
theorem refused_iff_of_granted {α : Type} {a : α} {reason change : Prop} (h : ¬ reason) :
    (some a = none ↔ reason) ∧ (some a = none → change) :=
  ⟨⟨(absurd · (Option.some_ne_none a)), fun hreason => absurd hreason h⟩,
    (absurd · (Option.some_ne_none a))⟩

/-- A block has no cell to give if each of its cells holds an object. -/
theorem Block.Valid.next?_eq_none_iff {b : Block} (hb : b.Valid) :
    b.next? = none ↔ ∀ cell ∈ b.cells, cell.header.kind ≠ .free := by
  have hfree : b.next? = none ↔ b.free = 0 := by simp [Block.next?]
  rw [hfree]
  constructor
  · intro hzero cell hcell hkind
    obtain ⟨indices, hlist⟩ := hb.listed
    obtain ⟨i, hi⟩ := Array.mem_iff_getElem?.mp hcell
    have hmem := (hlist.mem_iff i).mpr ⟨cell, hi, hkind⟩
    cases indices with
    | nil => cases hmem
    | cons first rest =>
      have hlink : b.free = b.address first := hlist.links.1
      have := Block.address_pos hb (i := first)
      omega
  · intro hfull
    by_contra hpos
    obtain ⟨i, cell, -, hcell, hkind⟩ := hb.first hpos
    exact hfull cell (Array.mem_iff_getElem?.mpr ⟨i, hcell⟩) hkind

namespace Space

variable {s t : Space} {c words : Nat}

/-- Every cell of the size class holds an object. -/
def Full (s : Space) (c : Nat) : Prop :=
  ∀ i b, s.block? c i = some b → ∀ cell ∈ b.cells, cell.header.kind ≠ .free

/-- There is no room for an object with this payload, however willing the system. -/
def Refuses (s : Space) (words : Nat) : Prop :=
  payloadLimit ≤ words ∨
    (∃ c, sizeClassFor? ((1 + words) * wordBytes) = some c ∧ s.Full c ∧
      s.maxFootprint < s.footprint + blockBytes) ∨
    (sizeClassFor? ((1 + words) * wordBytes) = none ∧
      s.maxFootprint < s.footprint + pagesFor ((1 + words) * wordBytes))

theorem Valid.takeCell_eq_none_iff (hs : s.Valid) (hp : s.Passed) :
    (s.takeCell c).1 = none ↔ s.Full c := by
  rw [hp.takeCell_eq_none_iff]
  exact forall₃_congr fun i b hb => (hs.blocks c i b hb).1.next?_eq_none_iff

/-- A size class that has nothing to give only moves its cursor. -/
theorem rewound_takeCell (hp : s.Passed) (hnone : (s.takeCell c).1 = none) :
    (s.takeCell c).2.rewound = s.rewound := by
  have hspent := hp.takeCell_eq_none_iff.mp hnone
  unfold takeCell
  cases hpool : s.pools[c]? with
  | none => rfl
  | some pool =>
    have htake : (pool.takeAt pool.position).rewound = pool.rewound := by
      have hblocks : pool.blocks.modify pool.position Block.dropFirst = pool.blocks := by
        refine Array.ext_getElem? fun i => ?_
        rw [Array.getElem?_modify]
        split
        next heq =>
          cases hb : pool.blocks[i]? with
          | none => rfl
          | some b =>
            have hnext := hspent i b (by rw [block?, hpool]; exact hb)
            have hfree : b.free = 0 := by simpa [Block.next?] using hnext
            rw [Option.map_some, Block.dropFirst_of_free_eq_zero hfree]
        next => rfl
      exact congrArg (Pool.mk · 0) hblocks
    have hpools : (s.pools.modify c (Pool.takeAt pool.position)).map Pool.rewound
        = s.pools.map Pool.rewound := by
      refine Array.ext_getElem? fun i => ?_
      rw [Array.getElem?_map, Array.getElem?_map, Array.getElem?_modify]
      split
      next heq =>
        subst heq
        rw [hpool]
        exact congrArg some htake
      next => rfl
    exact congrArg (fun pools => { s with pools }) hpools

theorem Valid.allocateSmall_eq_none_iff (mode : Mode) (hs : s.Valid) (hp : s.Passed)
    (fresh : s.pages.Fresh s.Held) (hgrants : s.pages.Grants) (hc : c < sizeClasses.length) :
    ∃ result t, s.allocateSmall mode c = (.ok result, t) ∧
      (result = none ↔ s.Full c ∧ s.maxFootprint < s.footprint + blockBytes) ∧
      (result = none → t.rewound = s.rewound) := by
  have hfull := hs.takeCell_eq_none_iff hp (c := c)
  have hrewound := rewound_takeCell hp (c := c)
  obtain ⟨i, b, t, htake, -, -, hrun⟩ | ⟨t, htake, -, hrefused⟩ :=
    hs.allocateSmall_cases mode fresh hc
  · rw [htake] at hfull
    exact ⟨_, _, hrun, refused_iff_of_granted fun h =>
      absurd (hfull.mpr h.1) (Option.some_ne_none _)⟩
  · rw [htake] at hfull hrewound
    have hrewound := hrewound rfl
    obtain ⟨pools, rfl, -⟩ := exists_pools hrewound
    obtain ⟨hmax, hrun⟩ | ⟨hlimit, -⟩ | ⟨after, b, -, hmax, hrun⟩ := hrefused
    · exact ⟨none, _, hrun, ⟨fun _ => ⟨hfull.mp rfl, hmax⟩, fun _ => rfl⟩, fun _ => hrewound⟩
    · exact absurd (Nat.le_trans hgrants hlimit) (by decide)
    · exact ⟨_, _, hrun, refused_iff_of_granted fun h => Nat.not_lt.mpr hmax h.2⟩

theorem allocateLarge_eq_none_iff (mode : Mode) (fresh : s.pages.Fresh s.Held)
    (hgrants : s.pages.Grants) (hwords : words < payloadLimit) :
    ∃ result t, s.allocateLarge mode ((1 + words) * wordBytes) = (.ok result, t) ∧
      (result = none ↔ s.maxFootprint < s.footprint + pagesFor ((1 + words) * wordBytes)) ∧
      (result = none → t.rewound = s.rewound) := by
  have hbytes := pagesFor_lt ((1 + words) * wordBytes)
  obtain ⟨hmax, hrun⟩ | ⟨hlimit, -⟩ | ⟨after, bytes, rfl, hrun, hmax, -⟩ :=
    allocateLarge_cases mode fresh hwords
  · exact ⟨none, s, hrun, ⟨fun _ => hmax, fun _ => rfl⟩, fun _ => rfl⟩
  · have := Nat.le_trans hgrants hlimit
    simp only [payloadLimit, wordBytes, pageBytes] at hwords hbytes this
    omega
  · exact ⟨_, _, hrun, refused_iff_of_granted (Nat.not_lt.mpr hmax)⟩

/-- What is refused is not taken from the system. -/
theorem Valid.pages_of_refused (hs : s.Valid) (fresh : s.pages.Fresh s.Held) {mode : Mode} {kind : Kind}
    (hrun : s.allocate mode kind words = (.ok none, t)) : t.pages = s.pages := by
  unfold Space.allocate at hrun
  split at hrun
  · cases hrun
    rfl
  next hlimit =>
    cases hbytes : s.allocateBytes mode ((1 + words) * wordBytes) with
    | mk result u =>
      rw [hbytes] at hrun
      unfold allocateBytes at hbytes
      cases hclass : sizeClassFor? ((1 + words) * wordBytes) with
      | some c =>
        rw [hclass] at hbytes
        have hpages := pages_takeCell s c
        obtain ⟨i, b, v, htake, -, -, hsmall⟩ | ⟨v, htake, -, hrefused⟩ :=
          hs.allocateSmall_cases mode fresh (sizeClassFor?_some hclass).1
        · cases hbytes.symm.trans hsmall
          cases hrun
        · rw [htake] at hpages
          obtain ⟨-, hsmall⟩ | ⟨-, hsmall⟩ | ⟨_, _, -, -, hsmall⟩ := hrefused
          all_goals
            cases hbytes.symm.trans hsmall
            cases hrun
          all_goals exact hpages
      | none =>
        rw [hclass] at hbytes
        obtain ⟨-, hlarge⟩ | ⟨-, hlarge⟩ | ⟨_, _, -, hlarge, -⟩ :=
          allocateLarge_cases mode fresh (Nat.not_le.mp hlimit)
        all_goals
          cases hbytes.symm.trans hlarge
          cases hrun
        all_goals rfl

/-- A request comes to nothing exactly if there is no room for it, and then only a cursor is moved. -/
theorem Valid.allocate_eq_none_iff (mode : Mode) (hs : s.Valid) (hp : s.Passed)
    (fresh : s.pages.Fresh s.Held) (hgrants : s.pages.Grants) (kind : Kind) (words : Nat) :
    ∃ result t, s.allocate mode kind words = (.ok result, t) ∧ (result = none ↔ s.Refuses words) ∧
      (result = none → t.rewound = s.rewound) := by
  unfold Space.allocate Refuses
  by_cases hlimit : payloadLimit ≤ words
  · rw [if_pos hlimit]
    exact ⟨none, s, rfl, ⟨fun _ => .inl hlimit, fun _ => rfl⟩, fun _ => rfl⟩
  · rw [if_neg hlimit]
    obtain ⟨result, t, hrun, hiff, hrewound⟩ : ∃ result t,
        s.allocateBytes mode ((1 + words) * wordBytes) = (.ok result, t) ∧
        (result = none ↔ (∃ c, sizeClassFor? ((1 + words) * wordBytes) = some c ∧ s.Full c ∧
            s.maxFootprint < s.footprint + blockBytes) ∨
          (sizeClassFor? ((1 + words) * wordBytes) = none ∧
            s.maxFootprint < s.footprint + pagesFor ((1 + words) * wordBytes))) ∧
        (result = none → t.rewound = s.rewound) := by
      unfold allocateBytes
      cases hclass : sizeClassFor? ((1 + words) * wordBytes) with
      | some c =>
        obtain ⟨result, t, hrun, hiff, hrewound⟩ :=
          hs.allocateSmall_eq_none_iff mode hp fresh hgrants (sizeClassFor?_some hclass).1
        exact ⟨result, t, hrun, by simpa using hiff, hrewound⟩
      | none =>
        obtain ⟨result, t, hrun, hiff, hrewound⟩ :=
          allocateLarge_eq_none_iff mode fresh hgrants (Nat.not_le.mp hlimit)
        exact ⟨result, t, hrun, by simpa using hiff, hrewound⟩
    rw [hrun]
    cases result with
    | none => exact ⟨none, t, rfl, ⟨fun _ => .inr (hiff.mp rfl), fun _ => rfl⟩, hrewound⟩
    | some address =>
      exact ⟨some address, _, rfl, refused_iff_of_granted fun h =>
        absurd (hiff.mpr (h.resolve_left hlimit)) (Option.some_ne_none _)⟩

end Space

end Substrate
