import Substrate.Block

/-!
# Rounding and mappings

Rounding to a power of two is division, as long as nothing wraps around. A system that keeps its
promise (`Pages.Fresh`) answers every request with whole pages that nobody else has, and what is cut
out of them for a block or a large object is where it should be.
-/

namespace Substrate

/-- A computation that went well goes on with its result. -/
@[simp] theorem ok_bind {α β : Type} (a : α) (f : α → Except Fault β) : (.ok a >>= f) = f a := rfl

/-! ## Powers of two -/

theorem testBit_mask {k i : Nat} (hk : k ≤ 64) :
    (wordLimit - Nat.pow 2 k).testBit i = (decide (i < 64) && decide (k ≤ i)) := by
  have hpos : 0 < Nat.pow 2 k := Nat.two_pow_pos k
  have hle : Nat.pow 2 k ≤ Nat.pow 2 64 := Nat.pow_le_pow_right (by decide) hk
  have key : (Nat.pow 2 64 - ((Nat.pow 2 k - 1) + 1)).testBit i
      = (decide (i < 64) && !(Nat.pow 2 k - 1).testBit i) :=
    Nat.testBit_two_pow_sub_succ (by change Nat.pow 2 k - 1 < Nat.pow 2 64; omega) i
  have low : (Nat.pow 2 k - 1).testBit i = decide (i < k) := Nat.testBit_two_pow_sub_one k i
  rw [Nat.sub_add_cancel hpos, low] at key
  refine Eq.trans key ?_
  by_cases h : i < k
  · simp [h]
  · simp [h, Nat.not_lt.mp h]

/-- Clearing the low bits of a word takes it down to a multiple of the alignment. -/
theorem roundDown_pow {x k : Nat} (hx : x < wordLimit) (hk : k < 64) :
    roundDown x (Nat.pow 2 k) = x / Nat.pow 2 k * Nat.pow 2 k := by
  have hpos : 0 < Nat.pow 2 k := Nat.two_pow_pos k
  have hlt : Nat.pow 2 k < Nat.pow 2 64 := Nat.pow_lt_pow_right (by decide) hk
  have hmask : wordLimit - 1 - wrappingSub (Nat.pow 2 k) 1 = wordLimit - Nat.pow 2 k := by
    have : Nat.pow 2 k < wordLimit := hlt
    unfold wrappingSub
    rw [show Nat.pow 2 k + wordLimit - 1 = Nat.pow 2 k - 1 + wordLimit by omega,
      Nat.add_mod_right, Nat.mod_eq_of_lt (by omega)]
    omega
  unfold roundDown
  rw [hmask]
  apply Nat.eq_of_testBit_eq
  intro i
  have hmul : (x / Nat.pow 2 k * Nat.pow 2 k).testBit i
      = (decide (k ≤ i) && (x / Nat.pow 2 k).testBit (i - k)) := by
    rw [Nat.mul_comm]
    exact Nat.testBit_two_pow_mul
  have hdiv : (x / Nat.pow 2 k).testBit (i - k) = x.testBit (i - k + k) :=
    Nat.testBit_div_two_pow x (i - k)
  rw [Nat.testBit_and, testBit_mask (by omega), hmul, hdiv]
  by_cases h : k ≤ i
  · by_cases h64 : i < 64
    · simp [h, h64, Nat.sub_add_cancel h]
    · have hbit : x.testBit i = false :=
        Nat.testBit_lt_two_pow (Nat.lt_of_lt_of_le hx (Nat.pow_le_pow_right (n := 2) (i := 64)
          (by decide) (by omega)))
      simp [h, h64, hbit, Nat.sub_add_cancel h]
  · simp [h]

/-- Rounding up that does not wrap around. -/
theorem roundUp_pow (mode : Mode) {x k : Nat} (hk : k < 64) (h : x + Nat.pow 2 k < wordLimit) :
    roundUp mode x (Nat.pow 2 k) 0
      = .ok ((x + Nat.pow 2 k - 1) / Nat.pow 2 k * Nat.pow 2 k) := by
  have hpos : 0 < Nat.pow 2 k := Nat.two_pow_pos k
  have hassert : mode.assert (decide (0 < Nat.pow 2 k)) "offset < alignment" = .ok () := by
    cases mode <;> simp [Mode.assert]
  have hraise : mode.add x (Nat.pow 2 k) = .ok (x + Nat.pow 2 k) := if_pos h
  have hlower : mode.sub (x + Nat.pow 2 k) 1 = .ok (x + Nat.pow 2 k - 1) := if_pos (by omega)
  have hstay : mode.add (x + Nat.pow 2 k - 1) 0 = .ok (x + Nat.pow 2 k - 1) := if_pos (by omega)
  have hround := roundDown_pow (x := x + Nat.pow 2 k - 1) (by omega) hk
  simp only [roundUp, hassert, hraise, hlower, hstay, hround, ok_bind]
  exact if_pos (Nat.zero_le _)

/-- The bytes of the whole pages that hold `bytes` bytes. -/
def pagesFor (bytes : Nat) : Nat := (bytes + pageBytes - 1) / pageBytes * pageBytes

theorem roundUp_page (mode : Mode) {bytes : Nat} (h : bytes + pageBytes < wordLimit) :
    roundUp mode bytes pageBytes 0 = .ok (pagesFor bytes) :=
  roundUp_pow mode (k := 12) (by decide) h

theorem le_pagesFor (bytes : Nat) : bytes ≤ pagesFor bytes := by
  unfold pagesFor pageBytes
  omega

theorem pagesFor_lt (bytes : Nat) : pagesFor bytes < bytes + pageBytes := by
  unfold pagesFor pageBytes
  omega

theorem pagesFor_mod (bytes : Nat) : pagesFor bytes % pageBytes = 0 :=
  Nat.mul_mod_left _ _

/-! ## What the system promises -/

/-- The promise of a system about the memory it hands out next: it starts at a page other than the
first, ends within the address space, and overlaps nothing that is held already. -/
structure Pages.Fresh (pages : Pages) (held : Region → Prop) : Prop where
  aligned : pages.next % pageBytes = 0
  positive : 0 < pages.next
  bounded : ∀ bytes < pages.limit, pages.next + bytes < wordLimit
  apart : ∀ bytes < pages.limit, ∀ r, held r → pages.next + bytes ≤ r.start ∨ r.stop ≤ pages.next

variable {pages : Pages} {held : Region → Prop}

/-- The system has gone on behind an address, and still ends with the address space. -/
structure Pages.Advances (pages : Pages) (stop : Nat) (after : Pages) : Prop where
  aligned : after.next % pageBytes = 0
  next : pages.next ≤ after.next
  stop : stop ≤ after.next
  bounded : after.next + after.limit ≤ wordLimit

/-- What the system grants is what was asked for, at the next unused address. Below its limit it refuses
nothing. -/
theorem Pages.request_eq (pages : Pages) (bytes : Nat) (h : 0 < bytes) :
    (pages.limit ≤ bytes ∧ ∃ error, pages.request bytes = (.error error, pages)) ∨
      bytes < pages.limit ∧ ∃ after, pages.request bytes = (.ok pages.next, after) ∧
        (pages.next + bytes < wordLimit → pages.Advances (pages.next + bytes) after) := by
  unfold Pages.request
  by_cases hl : pages.limit ≤ bytes
  · exact .inl ⟨hl, .noMemory, by simp [Nat.ne_of_gt h, hl]⟩
  · refine .inr ⟨Nat.not_le.mp hl, _, by rw [if_neg (Nat.ne_of_gt h), if_neg hl], fun hbound => ?_⟩
    have hle := Nat.min_le_right pages.limit
      (wordLimit - (pages.next + bytes + pageBytes - 1) / pageBytes * pageBytes)
    refine ⟨Nat.mul_mod_left _ _, ?_, ?_, ?_⟩
    all_goals
      simp only [pageBytes, wordLimit] at *
      omega

theorem Region.ofRange_of_le {start stop : Nat} (h : start ≤ stop) :
    Region.ofRange start stop = ⟨start, stop⟩ := by
  rw [Region.ofRange, Nat.max_eq_left h]

/-- An aligned region cut out of a mapping that does not wrap around. -/
theorem carve_eq (mode : Mode) (size base mapped : Nat) {k : Nat} (hk : k < 64)
    (h : base + Nat.pow 2 k < wordLimit)
    (hsize : (base + Nat.pow 2 k - 1) / Nat.pow 2 k * Nat.pow 2 k + size < wordLimit)
    (hmapped : base + mapped < wordLimit) :
    ∃ carving, carve mode size (Nat.pow 2 k) base mapped = .ok carving ∧
      carving.region = ⟨(base + Nat.pow 2 k - 1) / Nat.pow 2 k * Nat.pow 2 k,
        (base + Nat.pow 2 k - 1) / Nat.pow 2 k * Nat.pow 2 k + size⟩ := by
  have hstop : mode.add ((base + Nat.pow 2 k - 1) / Nat.pow 2 k * Nat.pow 2 k) size = .ok _ :=
    if_pos hsize
  have hend : mode.add base mapped = .ok (base + mapped) := if_pos hmapped
  unfold carve
  simp only [roundUp_pow mode hk h, hstop, hend, ok_bind]
  exact ⟨_, rfl, by simp [Region.ofRange]⟩

section MapAligned

variable {mode : Mode} {bytes alignment size raised mapped : Nat} {after : Pages}
  (hpower : mode.assert (isPowerOfTwo alignment) "is_power_of_two(alignment)" = .ok ())
  (hsize : roundUp mode bytes pageBytes 0 = .ok size)
  (hraised : mode.add size (max alignment pageBytes) = .ok raised)
  (hmapped : mode.sub raised pageBytes = .ok mapped)
include hpower hsize hraised hmapped

theorem Pages.mapAligned_refused {error : OsError}
    (h : pages.request mapped = (.error error, after)) :
    pages.mapAligned mode bytes alignment = .ok (.refused mapped error, after) := by
  simp only [Pages.mapAligned, hpower, hsize, hraised, hmapped, ok_bind, h]
  rfl

theorem Pages.mapAligned_granted {base : Nat} {carving : Carving}
    (h : pages.request mapped = (.ok base, after))
    (hcarve : carve mode size (max alignment pageBytes) base mapped = .ok carving) :
    pages.mapAligned mode bytes alignment = .ok (.granted carving.region, after) := by
  simp only [Pages.mapAligned, hpower, hsize, hraised, hmapped, ok_bind, h, hcarve]
  rfl

end MapAligned

/-- A mapping for a block, if it is granted, is aligned to its size and overlaps nothing held. -/
theorem Pages.Fresh.mapAligned_block (mode : Mode) (fresh : pages.Fresh held) :
    (pages.limit ≤ 2 * blockBytes ∧ ∃ bytes error, pages.mapAligned mode blockBytes blockBytes
      = .ok (.refused bytes error, pages)) ∨
    ∃ start after, pages.mapAligned mode blockBytes blockBytes
        = .ok (.granted ⟨start, start + blockBytes⟩, after) ∧
      pages.Advances (start + blockBytes) after ∧ start % blockBytes = 0 ∧ 0 < start ∧
      start + blockBytes < wordLimit ∧
      ∀ r, held r → start + blockBytes ≤ r.start ∨ r.stop ≤ start := by
  have hpower : mode.assert (isPowerOfTwo blockBytes) "is_power_of_two(alignment)" = .ok () := by
    cases mode <;> rfl
  have hsize : roundUp mode blockBytes pageBytes 0 = .ok blockBytes :=
    roundUp_page mode (by decide)
  have hraised : mode.add blockBytes (max blockBytes pageBytes) = .ok 131072 := rfl
  have hmapped : mode.sub 131072 pageBytes = .ok 126976 := rfl
  obtain ⟨hlimit, error, hr⟩ | ⟨hlt, after, hr, hafter⟩ := pages.request_eq 126976 (by decide)
  · exact .inl ⟨Nat.le_trans hlimit (by decide), 126976, error,
      mapAligned_refused hpower hsize hraised hmapped hr⟩
  · have hb := fresh.bounded _ hlt
    have hp := fresh.positive
    have ha := fresh.aligned
    simp only [wordLimit, pageBytes] at hb ha
    obtain ⟨carving, hc, hregion⟩ := carve_eq mode blockBytes pages.next 126976
      (k := 16) (by decide)
      (by simp only [Nat.pow_eq, wordLimit]; omega)
      (by simp only [Nat.pow_eq, wordLimit, blockBytes]; omega)
      (by simp only [wordLimit]; omega)
    have hmap := mapAligned_granted hpower hsize hraised hmapped hr hc
    rw [hregion] at hmap
    obtain ⟨haligned, hnext, hbehind, hend⟩ := hafter (fresh.bounded _ hlt)
    refine .inr ⟨_, after, hmap, ⟨haligned, hnext, ?_, hend⟩, Nat.mul_mod_left _ _, ?_, ?_, ?_⟩
    · simp only [Nat.pow_eq, blockBytes] at *
      omega
    · simp only [Nat.pow_eq]
      omega
    · simp only [Nat.pow_eq, blockBytes, wordLimit]
      omega
    · intro r hheld
      have := fresh.apart _ hlt r hheld
      simp only [Nat.pow_eq, blockBytes]
      omega

/-- A mapping for a large object, if it is granted, consists of whole pages that nobody holds. -/
theorem Pages.Fresh.map_large (mode : Mode) (fresh : pages.Fresh held) {bytes : Nat}
    (h : 0 < bytes) (hbytes : bytes + 2 * pageBytes < wordLimit) :
    (pages.limit ≤ pagesFor bytes ∧
      ∃ mapped error, pages.map mode bytes = .ok (.refused mapped error, pages)) ∨
    ∃ after, pages.map mode bytes
        = .ok (.granted ⟨pages.next, pages.next + pagesFor bytes⟩, after) ∧
      pages.Advances (pages.next + pagesFor bytes) after ∧
      pages.next + pagesFor bytes < wordLimit ∧
      ∀ r, held r → pages.next + pagesFor bytes ≤ r.start ∨ r.stop ≤ pages.next := by
  have hle := le_pagesFor bytes
  have hlt := pagesFor_lt bytes
  simp only [wordLimit, pageBytes] at hbytes hlt
  have hpower : mode.assert (isPowerOfTwo pageBytes) "is_power_of_two(alignment)" = .ok () := by
    cases mode <;> rfl
  have hsize : roundUp mode bytes pageBytes 0 = .ok (pagesFor bytes) :=
    roundUp_page mode (by simp only [wordLimit, pageBytes]; omega)
  have hraised : mode.add (pagesFor bytes) (max pageBytes pageBytes)
      = .ok (pagesFor bytes + pageBytes) :=
    if_pos (by simp only [wordLimit, pageBytes]; omega)
  have hmapped : mode.sub (pagesFor bytes + pageBytes) pageBytes = .ok (pagesFor bytes) := by
    rw [Mode.sub, if_pos (Nat.le_add_left _ _), Nat.add_sub_cancel]
  obtain ⟨hlimit, error, hr⟩ | ⟨hlimit, after, hr, hafter⟩ :=
    pages.request_eq (pagesFor bytes) (by omega)
  · exact .inl ⟨hlimit, pagesFor bytes, error, mapAligned_refused hpower hsize hraised hmapped hr⟩
  · have hb := fresh.bounded _ hlimit
    have ha := fresh.aligned
    have hwhole := pagesFor_mod bytes
    simp only [wordLimit, pageBytes] at hb ha hwhole
    have hbase : (pages.next + Nat.pow 2 12 - 1) / Nat.pow 2 12 * Nat.pow 2 12 = pages.next := by
      simp only [Nat.pow_eq]
      omega
    obtain ⟨carving, hc, hregion⟩ := carve_eq mode (pagesFor bytes) pages.next
      (pagesFor bytes) (k := 12) (by decide)
      (by simp only [Nat.pow_eq, wordLimit]; omega)
      (by rw [hbase]; exact hb)
      hb
    have hmap := mapAligned_granted hpower hsize hraised hmapped hr hc
    rw [hregion, hbase] at hmap
    exact .inr ⟨after, hmap, hafter hb, hb, fresh.apart _ hlimit⟩

end Substrate
