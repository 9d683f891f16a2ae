import Substrate.Proofs.Panics
import Substrate.Proofs.Wrapping
import Mathlib.Order.Bounds.Basic

/-!
# Aligned mappings

A region that is to start at a multiple of more than a page is cut out of a mapping that is larger by as
much as the region may have to be moved. What sticks out on either side is given back (`Cut.Apt`).

The size of the mapping is computed with words. A debug build notices when it does not fit into one. A
release build goes on with what is left of it, and a system that grants that much hands out memory that is
too small: the region is what was asked for exactly if the size has not wrapped around
(`Pages.mapAligned_exact`).
-/

namespace Substrate

open Fault (IsPanic)

/-- A mapping of `mapped` bytes at `base`, and how it is cut. -/
structure Cut where
  base : Nat
  mapped : Nat
  carving : Carving

/-- The mapping is cut the way it should be for a region of that size and alignment. -/
structure Cut.Apt (cut : Cut) (size alignment : Nat) : Prop where
  aligned : alignment ∣ cut.carving.region.start
  sized : IsLeast {bytes | pageBytes ∣ bytes ∧ size ≤ bytes} cut.carving.region.size
  inside : cut.base ≤ cut.carving.region.start ∧
    cut.carving.region.start ≤ cut.carving.region.stop ∧
    cut.carving.region.stop ≤ cut.base + cut.mapped
  before : cut.carving.before = ⟨cut.base, cut.carving.region.start⟩
  after : cut.carving.after = ⟨cut.carving.region.stop, cut.base + cut.mapped⟩

/-- Maps memory for an aligned region. It differs from `mapAligned` in that what is given back is part of
the answer. -/
def Pages.cutAligned (mode : Mode) (pages : Pages) (size alignment : Nat) :
    Except Fault (Option Cut) := do
  mode.assert (isPowerOfTwo alignment) "is_power_of_two(alignment)"
  let size ← roundUp mode size pageBytes 0
  let alignment := max alignment pageBytes
  let raised ← mode.add size alignment
  let mapped ← mode.sub raised pageBytes
  match pages.request mapped with
  | (.error _, _) => return none
  | (.ok base, _) => return some ⟨base, mapped, ← carve mode size alignment base mapped⟩

/-- How far an aligned region may have to be moved from the start of a mapping. -/
def slackFor (alignment : Nat) : Nat := max alignment pageBytes - pageBytes

/-- The bytes of a mapping that has room for an aligned region wherever it starts. -/
def spanFor (size alignment : Nat) : Nat := pagesFor size + slackFor alignment

variable {mode : Mode} {pages : Pages} {size alignment k : Nat} {cut : Cut}

/-! ## The arithmetic -/

theorem isLeast_pagesFor (size : Nat) :
    IsLeast {bytes | pageBytes ∣ bytes ∧ size ≤ bytes} (pagesFor size) := by
  refine ⟨⟨Nat.dvd_of_mod_eq_zero (pagesFor_mod size), le_pagesFor size⟩, ?_⟩
  rintro bytes ⟨⟨count, rfl⟩, hle⟩
  unfold pagesFor pageBytes at *
  omega

theorem isPowerOfTwo_pow (k : Nat) : isPowerOfTwo (Nat.pow 2 k) = true := by
  have hpos : Nat.pow 2 k ≠ 0 := Nat.ne_of_gt (Nat.two_pow_pos k)
  have hand : Nat.pow 2 k &&& (Nat.pow 2 k - 1) = 0 :=
    (Nat.and_two_pow_sub_one_eq_mod _ _).trans (Nat.mod_self _)
  rw [isPowerOfTwo, hand]
  simp

/-- An alignment of at least a page is a power of two as well. -/
theorem exists_pow_page (hk : k < 64) :
    ∃ j, max (Nat.pow 2 k) pageBytes = Nat.pow 2 j ∧ k ≤ j ∧ 12 ≤ j ∧ j < 64 := by
  obtain hle | hle := Nat.le_total k 12
  · exact ⟨12, Nat.max_eq_right (Nat.pow_le_pow_right (n := 2) (by decide) hle), hle, le_rfl, by decide⟩
  · exact ⟨k, Nat.max_eq_left (Nat.pow_le_pow_right (n := 2) (by decide) hle), le_rfl, hle, hk⟩

theorem max_page_eq (alignment : Nat) : max alignment pageBytes = slackFor alignment + pageBytes :=
  (Nat.sub_add_cancel (Nat.le_max_right alignment pageBytes)).symm

/-- The first multiple of an alignment is at most as far from a page as the alignment allows. -/
theorem aligned_start {base unit slack : Nat} (hbase : pageBytes ∣ base) (hunit : pageBytes ∣ unit)
    (hslack : unit = slack + pageBytes) :
    base ≤ (base + unit - 1) / unit * unit ∧ (base + unit - 1) / unit * unit ≤ base + slack := by
  have hpos : 0 < unit := by simp only [pageBytes] at hslack; omega
  have hdiv := Nat.div_add_mod' (base + unit - 1) unit
  have hmod := Nat.mod_lt (base + unit - 1) hpos
  have hmultiple : pageBytes ∣ (base + unit - 1) / unit * unit := Nat.dvd_mul_left_of_dvd hunit _
  generalize (base + unit - 1) / unit * unit = start at *
  simp only [pageBytes] at *
  omega

/-- How a carving comes about. Everything is reduced to words. -/
theorem exists_of_carve {base mapped : Nat} {carving : Carving} (hk : k < 64)
    (h : carve mode size (Nat.pow 2 k) base mapped = .ok carving) :
    ∃ start stop, start = (base + Nat.pow 2 k - 1) % wordLimit / Nat.pow 2 k * Nat.pow 2 k ∧
      stop = (start + size) % wordLimit ∧
      carving = ⟨.ofRange start stop, .ofRange base start,
        .ofRange stop ((base + mapped) % wordLimit)⟩ := by
  simp only [carve, bind_eq_ok_iff, roundUp_ok_iff hk, Mode.add_ok_iff] at h
  obtain ⟨start, ⟨-, rfl⟩, stop, ⟨-, rfl⟩, _, ⟨-, rfl⟩, hcarving⟩ := h
  cases hcarving
  exact ⟨_, _, rfl, rfl, rfl⟩

/-- The system only grants what is below its limit. -/
theorem Pages.request_ok {bytes base : Nat} {after : Pages} (h : pages.request bytes = (.ok base, after)) :
    base = pages.next ∧ bytes < pages.limit := by
  unfold Pages.request at h
  split at h
  · cases h
  split at h
  · cases h
  next hlimit =>
    cases h
    exact ⟨rfl, Nat.not_le.mp hlimit⟩

/-- What is known of a mapping that was granted: how much was asked for, and what it was cut into. -/
theorem exists_of_cutAligned (h : pages.cutAligned mode size alignment = .ok (some cut)) :
    ∃ rounded, rounded = (size + pageBytes - 1) % wordLimit / pageBytes * pageBytes ∧
      cut.mapped = (rounded + slackFor alignment) % wordLimit ∧
      (mode = .debug → size + pageBytes < wordLimit ∧ rounded + slackFor alignment < wordLimit) ∧
      cut.base = pages.next ∧ cut.mapped < pages.limit ∧
      carve mode rounded (max alignment pageBytes) cut.base cut.mapped = .ok cut.carving := by
  have hmax := max_page_eq alignment
  unfold Pages.cutAligned at h
  simp only [bind_eq_ok_iff, Mode.assert_ok_iff, roundUp_page_ok_iff, Mode.add_ok_iff] at h
  obtain ⟨-, -, rounded, ⟨hround, hrounded⟩, _, ⟨hraised, rfl⟩, mapped, hmapped, hrequest⟩ := h
  obtain ⟨-, hmapped⟩ := (Mode.sub_ok_iff (mod_wordLimit_lt _)).mp hmapped
  have hexact : mapped = (rounded + slackFor alignment) % wordLimit := by
    simp only [hmapped, hmax, wordLimit, pageBytes]
    omega
  split at hrequest
  · cases hrequest
  next base after hgranted =>
    obtain ⟨hbase, hlimit⟩ := Pages.request_ok hgranted
    obtain ⟨carving, hcarve, hcut⟩ := bind_eq_ok_iff.mp hrequest
    cases hcut
    refine ⟨rounded, hrounded, hexact, fun hdebug => ⟨hround hdebug, ?_⟩, hbase, hlimit, hcarve⟩
    have := hraised hdebug
    omega

/-! ## What the regions are -/

theorem Cut.Apt.size_le (h : cut.Apt size alignment) : pagesFor size ≤ cut.mapped := by
  have hsize : cut.carving.region.size = pagesFor size := h.sized.unique (isLeast_pagesFor size)
  have hstart := h.inside.1
  have hstop := h.inside.2.2
  unfold Region.size at hsize
  omega

/-- A size that has not wrapped around leads to the region that was asked for. -/
theorem apt_of_span (hk : k < 64) (hpage : pageBytes ∣ pages.next)
    (hbounded : ∀ bytes < pages.limit, pages.next + bytes < wordLimit)
    (h : pages.cutAligned mode size (Nat.pow 2 k) = .ok (some cut))
    (hspan : spanFor size (Nat.pow 2 k) < wordLimit) : cut.Apt size (Nat.pow 2 k) := by
  obtain ⟨rounded, hrounded, hmapped, -, hbase, hlimit, hcarve⟩ := exists_of_cutAligned h
  have hend := hbounded _ hlimit
  have hround : rounded = pagesFor size := by
    unfold spanFor at hspan
    rw [hrounded]
    unfold pagesFor at hspan ⊢
    simp only [wordLimit, pageBytes] at hspan ⊢
    omega
  obtain ⟨j, hj, hkj, hpagej, hj64⟩ := exists_pow_page hk
  have hunit := max_page_eq (Nat.pow 2 k)
  rw [hj] at hcarve hunit
  obtain ⟨start, stop, hstart, hstop, hcarving⟩ := exists_of_carve hj64 hcarve
  have hpages : pageBytes ∣ Nat.pow 2 j := Nat.pow_dvd_pow 2 hpagej
  obtain ⟨hfirst, hlast⟩ := aligned_start (hbase ▸ hpage) hpages hunit
  have hexact : cut.mapped = rounded + slackFor (Nat.pow 2 k) := by
    rw [hmapped, hround]
    exact Nat.mod_eq_of_lt hspan
  rw [← hbase, hexact] at hend
  have hbelow : cut.base + Nat.pow 2 j - 1 < wordLimit := by
    rw [← hbase] at hpage
    simp only [wordLimit, pageBytes] at *
    omega
  rw [Nat.mod_eq_of_lt hbelow] at hstart
  have hdvd : Nat.pow 2 k ∣ start := hstart ▸ Nat.dvd_mul_left_of_dvd (Nat.pow_dvd_pow 2 hkj) _
  rw [← hstart] at hfirst hlast
  rw [Nat.mod_eq_of_lt (by omega)] at hstop
  rw [hexact, Nat.mod_eq_of_lt hend, Region.ofRange_of_le (by omega), Region.ofRange_of_le hfirst,
    Region.ofRange_of_le (by omega)] at hcarving
  refine ⟨?_, ?_, ?_, ?_, ?_⟩
  · rw [hcarving]
    exact hdvd
  · rw [hcarving, Region.size, hstop, Nat.add_sub_cancel_left, hround]
    exact isLeast_pagesFor size
  · rw [hcarving, hexact]
    dsimp only
    omega
  · rw [hcarving]
  · rw [hcarving, hexact]

/-- A debug build does not ask for a mapping whose size has wrapped around. -/
theorem span_of_debug (hdebug : mode = .debug)
    (h : pages.cutAligned mode size alignment = .ok (some cut)) : spanFor size alignment < wordLimit := by
  obtain ⟨rounded, hrounded, -, hfits, -⟩ := exists_of_cutAligned h
  obtain ⟨hsize, hspan⟩ := hfits hdebug
  unfold spanFor pagesFor
  simp only [wordLimit, pageBytes] at *
  omega

/-- If the size has wrapped around, the mapping is too small for the region. -/
theorem not_apt_of_span (hk : k < 64)
    (h : pages.cutAligned mode size (Nat.pow 2 k) = .ok (some cut))
    (hspan : wordLimit ≤ spanFor size (Nat.pow 2 k)) : ¬cut.Apt size (Nat.pow 2 k) := by
  intro hapt
  have hle := hapt.size_le
  obtain ⟨rounded, hrounded, hmapped, -, -, -, -⟩ := exists_of_cutAligned h
  have hslack : slackFor (Nat.pow 2 k) < wordLimit := by
    have hpow : Nat.pow 2 k < wordLimit := Nat.pow_lt_pow_right (n := 64) (by decide) hk
    unfold slackFor
    omega
  unfold spanFor pagesFor at hspan
  unfold pagesFor at hle
  simp only [wordLimit, pageBytes] at *
  omega

/-! ## What is granted -/

/-- A region that is handed out is cut out of a mapping. -/
theorem exists_cut {region : Region} {after : Pages}
    (h : pages.mapAligned mode size alignment = .ok (.granted region, after)) :
    ∃ cut, pages.cutAligned mode size alignment = .ok (some cut) ∧ cut.carving.region = region := by
  unfold Pages.mapAligned at h
  simp only [bind_eq_ok_iff] at h
  obtain ⟨u, hpower, rounded, hrounded, raised, hraised, mapped, hmapped, hrequest⟩ := h
  split at hrequest
  · cases hrequest
  next base after hgranted =>
    obtain ⟨carving, hcarve, hregion⟩ := bind_eq_ok_iff.mp hrequest
    cases hregion
    refine ⟨⟨base, mapped, carving⟩, ?_, rfl⟩
    simp only [Pages.cutAligned, hpower, hrounded, hraised, hmapped, hgranted, hcarve, ok_bind]
    rfl

/-- A release build always comes to an answer. -/
theorem mapAligned_release (hk : k < 64) (pages : Pages) (size : Nat) :
    ∃ answer, pages.mapAligned .release size (Nat.pow 2 k) = .ok answer := by
  obtain ⟨j, hj, -, -, hj64⟩ := exists_pow_page hk
  have hround : ∀ x j, j < 64 → ∃ y, roundUp .release x (Nat.pow 2 j) 0 = .ok y := fun x j hj =>
    ⟨_, (roundUp_ok_iff hj).mpr ⟨nofun, rfl⟩⟩
  obtain ⟨rounded, hrounded⟩ : ∃ y, roundUp .release size pageBytes 0 = .ok y :=
    ⟨_, roundUp_page_ok_iff.mpr ⟨nofun, rfl⟩⟩
  obtain ⟨mapped, hmapped⟩ : ∃ y, Mode.release.sub ((rounded + Nat.pow 2 j) % wordLimit) pageBytes = .ok y :=
    ⟨_, (Mode.sub_ok_iff (mod_wordLimit_lt _)).mpr ⟨nofun, rfl⟩⟩
  have hpower : Mode.release.assert (isPowerOfTwo (Nat.pow 2 k)) "is_power_of_two(alignment)" = .ok () :=
    Mode.assert_ok_iff.mpr nofun
  simp only [Pages.mapAligned, hpower, hrounded, hj, Mode.add_release, hmapped, ok_bind]
  split
  · exact ⟨_, rfl⟩
  next base after hgranted =>
    obtain ⟨start, hstart⟩ := hround base j hj64
    simp only [carve, hstart, Mode.add_release, ok_bind]
    exact ⟨_, rfl⟩

/-- A request that the system does not refuse is granted. -/
theorem mapAligned_of_span (mode : Mode) (hk : k < 64) (hpage : pageBytes ∣ pages.next)
    (hlimit : pages.limit ≤ 1152921504606846976)
    (hbounded : ∀ bytes < pages.limit, pages.next + bytes < wordLimit) (hsize : 0 < size)
    (hspan : spanFor size (Nat.pow 2 k) < pages.limit) :
    ∃ region after, pages.mapAligned mode size (Nat.pow 2 k) = .ok (.granted region, after) := by
  have hend := hbounded _ hspan
  have hle := le_pagesFor size
  obtain ⟨count, hcount⟩ : pageBytes ∣ pagesFor size := Nat.dvd_of_mod_eq_zero (pagesFor_mod size)
  obtain ⟨j, hj, hkj, hpagej, hj64⟩ := exists_pow_page hk
  have hunit := max_page_eq (Nat.pow 2 k)
  rw [hj] at hunit
  obtain ⟨hfirst, hlast⟩ := aligned_start hpage (Nat.pow_dvd_pow 2 hpagej) hunit
  unfold spanFor at hspan hend
  have hpower : mode.assert (isPowerOfTwo (Nat.pow 2 k)) "is_power_of_two(alignment)" = .ok () :=
    Mode.assert_ok_iff.mpr fun _ => isPowerOfTwo_pow k
  have hrounded : roundUp mode size pageBytes 0 = .ok (pagesFor size) :=
    roundUp_page mode (by simp only [wordLimit, pageBytes] at *; omega)
  have hraised : mode.add (pagesFor size) (max (Nat.pow 2 k) pageBytes)
      = .ok (pagesFor size + Nat.pow 2 j) := by
    rw [hj]
    exact if_pos (by simp only [wordLimit, pageBytes] at *; omega)
  have hmapped : mode.sub (pagesFor size + Nat.pow 2 j) pageBytes
      = .ok (pagesFor size + slackFor (Nat.pow 2 k)) := by
    rw [Mode.sub, if_pos (by omega), hunit, ← Nat.add_assoc, Nat.add_sub_cancel]
  obtain ⟨hrefused, -⟩ | ⟨-, after, hgranted, -⟩ :=
    pages.request_eq (pagesFor size + slackFor (Nat.pow 2 k)) (by omega)
  · exact absurd hspan (Nat.not_lt.mpr hrefused)
  obtain ⟨carving, hcarve, hregion⟩ := carve_eq mode (pagesFor size) pages.next
    (pagesFor size + slackFor (Nat.pow 2 k)) hj64
    (by simp only [wordLimit, pageBytes] at *; omega)
    (Nat.lt_of_le_of_lt (Nat.add_le_add_right hlast _) (by omega)) hend
  rw [← hj] at hcarve
  exact ⟨_, after, Pages.mapAligned_granted hpower hrounded hraised hmapped hgranted hcarve⟩

/-- Every region that is handed out for a size and an alignment, in either mode, is what was asked for, cut
out of its mapping with nothing but the rest given back, unless the size of the mapping has wrapped around
in a release build. In that case it never is. A debug build stops with a panic instead, and nothing else
stops a request; what the system has room for is granted. -/
theorem Pages.mapAligned_exact (mode : Mode) {pages : Pages} (hpage : pageBytes ∣ pages.next)
    (hlimit : pages.limit ≤ 1152921504606846976)
    (hbounded : ∀ bytes < pages.limit, pages.next + bytes < wordLimit) {k : Nat} (hk : k < 64)
    (size : Nat) :
    (∀ region after, pages.mapAligned mode size (Nat.pow 2 k) = .ok (.granted region, after) →
      ∃ cut, pages.cutAligned mode size (Nat.pow 2 k) = .ok (some cut) ∧ cut.carving.region = region ∧
        (cut.Apt size (Nat.pow 2 k) ↔ mode = .debug ∨ spanFor size (Nat.pow 2 k) < wordLimit)) ∧
      (∀ fault, pages.mapAligned mode size (Nat.pow 2 k) = .error fault →
        mode = .debug ∧ IsPanic fault) ∧
      (0 < size → spanFor size (Nat.pow 2 k) < pages.limit →
        ∃ region after, pages.mapAligned mode size (Nat.pow 2 k) = .ok (.granted region, after)) := by
  refine ⟨fun region after h => ?_, fun fault h => ?_,
    mapAligned_of_span mode hk hpage hlimit hbounded⟩
  · obtain ⟨cut, hcut, hregion⟩ := exists_cut h
    refine ⟨cut, hcut, hregion, fun hapt => ?_, fun hfits => ?_⟩
    · by_contra hwrapped
      exact not_apt_of_span hk hcut (Nat.not_lt.mp (not_or.mp hwrapped).2) hapt
    · refine apt_of_span hk hpage hbounded hcut (hfits.elim (fun hdebug => ?_) id)
      exact span_of_debug hdebug hcut
  · refine ⟨?_, panics_mapAligned mode pages size _ fault h⟩
    cases mode with
    | debug => rfl
    | release =>
      obtain ⟨answer, hanswer⟩ := mapAligned_release hk pages size
      rw [hanswer] at h
      cases h

/-- A mapping that starts a page behind a multiple of the alignment. -/
theorem Pages.mapAligned_exact_trimmed :
    ∃ cut, Pages.cutAligned .release ⟨0x7f0000001000, 0x800000000⟩ 5000 (Nat.pow 2 13) = .ok (some cut) ∧
      cut.Apt 5000 (Nat.pow 2 13) := by
  have hbounded : ∀ bytes < 0x800000000, 0x7f0000001000 + bytes < wordLimit := fun bytes h => by
    simp only [wordLimit]
    omega
  have hexact := @Pages.mapAligned_exact .release ⟨0x7f0000001000, 0x800000000⟩ (by decide) (by decide)
    hbounded 13 (by decide) 5000
  obtain ⟨region, after, hgranted⟩ := hexact.2.2 (by decide) (by decide)
  obtain ⟨cut, hcut, -, hapt⟩ := hexact.1 region after hgranted
  exact ⟨cut, hcut, hapt.mpr (.inr (by decide))⟩

/-- The greatest size rounds up to nothing in a release build, and a region of that size is handed out. -/
theorem Pages.mapAligned_wrapped :
    ∃ region, (Pages.fresh.mapAligned .release 18446744073709551615 8192).map (·.1)
        = .ok (.granted region) ∧
      ¬IsLeast {bytes | pageBytes ∣ bytes ∧ 18446744073709551615 ≤ bytes} region.size := by
  refine ⟨⟨0x7f0000000000, 0x7f0000000000⟩, by decide +kernel, fun hleast => ?_⟩
  exact absurd hleast.1.2 (by decide)

end Substrate
