import Mathlib.Data.List.Pairwise
import Substrate.Proofs.Collection.Exactness
import Substrate.Proofs.Exclusions

/-!
# What a conservative scan reads

Exclusions are sorted by their start only, so they may overlap, and a short one may lie inside a long
one that began before it. `Exclusions.piecesFrom` walks over them with a cursor that never goes back.
What it leaves are the addresses that nothing excludes, cut into as few pieces as possible: two pieces
always have an excluded address between them. Hence a word that no exclusion touches lies in one piece,
and cutting every piece down to aligned words loses none.
-/

namespace Substrate

variable {e : Exclusions} {region hole piece : Region} {holes : List Region}
  {cursor stop address : Nat}

namespace Exclusions

/-! ## Exclusion sets -/

/-- The exclusion sets that excluding and lifting lead to. -/
inductive Reachable : Exclusions → Prop where
  | none : Reachable .none
  | exclude {e : Exclusions} (h : Reachable e) (start stop : Nat) :
      Reachable (e.exclude (.ofRange start stop))
  | lift {e : Exclusions} (h : Reachable e) (region : Region) : Reachable (e.lift region).2

/-- No exclusion is empty or ends before it starts. -/
def Proper (e : Exclusions) : Prop :=
  ∀ hole ∈ e.regions, hole.start < hole.stop

theorem Proper.exclude (h : e.Proper) (start stop : Nat) :
    (e.exclude (.ofRange start stop)).Proper := by
  intro hole hhole
  obtain hnew | hold := List.mem_append.mp ((regions_exclude e _).mem_iff.mp hhole)
  · have hempty := isEmpty_of_mem_kept hnew
    obtain rfl := List.mem_singleton.mp (List.mem_of_mem_filter hnew)
    simp only [Region.ofRange, Region.isEmpty, beq_eq_false_iff_ne] at hempty ⊢
    omega
  · exact h hole hold

theorem Reachable.sorted (h : e.Reachable) : e.Sorted := by
  induction h with
  | none => exact List.Pairwise.nil
  | exclude _ start stop ih => exact ih.exclude _
  | lift _ region ih => exact ih.lift region

theorem Reachable.proper (h : e.Reachable) : e.Proper := by
  induction h with
  | none => exact fun _ hhole => nomatch hhole
  | exclude _ start stop ih => exact ih.exclude start stop
  | lift _ region ih => exact fun hole hhole => ih hole (List.mem_of_mem_erase hhole)

theorem isExcluded_eq_false_iff :
    e.isExcluded address = false ↔ ∀ hole ∈ e.regions, hole.contains address = false := by
  simp [isExcluded, List.any_eq_false]

/-! ## Pieces -/

/-- Pieces start at the cursor or after it, and what lies between two of them has the start of an
exclusion in it. -/
theorem pairwise_piecesFrom (hsorted : holes.Pairwise fun hole later => hole.start ≤ later.start)
    (hproper : ∀ hole ∈ holes, hole.start < hole.stop) :
    (∀ piece ∈ piecesFrom cursor stop holes, cursor ≤ piece.start) ∧
      (piecesFrom cursor stop holes).Pairwise fun piece later => piece.stop < later.start := by
  induction holes generalizing cursor with
  | nil =>
    rw [piecesFrom]
    split <;> simp [Region.ofRange]
  | cons hole holes ih =>
    obtain ⟨hle, hapart⟩ := @ih (max cursor hole.stop) hsorted.of_cons
      fun other hother => hproper other (List.mem_cons_of_mem _ hother)
    have hhole := hproper hole List.mem_cons_self
    rw [piecesFrom]
    split
    next hgap =>
      rw [Region.ofRange_of_le hgap.le]
      refine ⟨?_, List.pairwise_cons.mpr ⟨fun later hlater => ?_, hapart⟩⟩
      · rintro piece (_ | ⟨_, hpiece⟩)
        · exact Nat.le_refl _
        · exact Nat.le_trans (Nat.le_max_left ..) (hle piece hpiece)
      · have := hle later hlater
        simp only
        omega
    next => exact ⟨fun piece hpiece => Nat.le_trans (Nat.le_max_left ..) (hle piece hpiece), hapart⟩

/-- The pieces have the addresses from the cursor on that are in no hole. -/
theorem contains_piecesFrom (hsorted : holes.Pairwise fun hole later => hole.start ≤ later.start)
    (hstart : ∀ hole ∈ holes, hole.start ≤ stop) :
    (∃ piece ∈ piecesFrom cursor stop holes, piece.contains address = true) ↔
      cursor ≤ address ∧ address < stop ∧ ∀ hole ∈ holes, hole.contains address = false := by
  induction holes generalizing cursor with
  | nil =>
    rw [piecesFrom]
    split
    next h => simp [Region.ofRange_of_le h.le, Region.contains]
    next h =>
      simp only [List.not_mem_nil, false_and, exists_false, false_iff]
      omega
  | cons hole holes ih =>
    obtain ⟨hfirst, hlater⟩ := List.pairwise_cons.mp hsorted
    have hhole := hstart hole List.mem_cons_self
    -- what comes before the hole is in none of those that start later
    have hbefore : address < hole.start → ∀ other ∈ holes, other.contains address = false := by
      intro hlt other hother
      have := hfirst other hother
      simp only [Region.contains, Bool.and_eq_false_iff, decide_eq_false_iff_not]
      omega
    have hrest := @ih (max cursor hole.stop) hlater
      fun other hother => hstart other (List.mem_cons_of_mem _ hother)
    have hcontains : hole.contains address = false ↔
        address < hole.start ∨ hole.stop ≤ address := by
      simp only [Region.contains, Bool.and_eq_false_iff, decide_eq_false_iff_not]
      omega
    rw [piecesFrom, List.forall_mem_cons, hcontains]
    split
    next hgap =>
      rw [List.exists_mem_cons_iff, hrest, Region.ofRange_of_le hgap.le, Region.contains_iff]
      dsimp only
      constructor
      · rintro (⟨hle, hlt⟩ | ⟨hle, hlt, hothers⟩)
        · exact ⟨hle, by omega, .inl hlt, hbefore hlt⟩
        · exact ⟨by omega, hlt, .inr (by omega), hothers⟩
      · rintro ⟨hle, hlt, hpast | hpast, hothers⟩
        · exact .inl ⟨hle, hpast⟩
        · exact .inr ⟨by omega, hlt, hothers⟩
    next hgap =>
      rw [hrest]
      constructor
      · rintro ⟨hle, hlt, hothers⟩
        exact ⟨by omega, hlt, .inr (by omega), hothers⟩
      · rintro ⟨hle, hlt, hpast, hothers⟩
        exact ⟨by omega, hlt, hothers⟩

theorem Reachable.pieces_apart (h : e.Reachable) (region : Region) :
    (e.pieces region).Pairwise fun piece later => piece.stop < later.start :=
  (pairwise_piecesFrom (h.sorted.sublist List.filter_sublist)
    fun hole hhole => h.proper hole (List.mem_of_mem_filter hhole)).2

theorem Reachable.apart_of_ne (h : e.Reachable) {other : Region} (hpiece : piece ∈ e.pieces region)
    (hother : other ∈ e.pieces region) (hne : piece ≠ other) :
    piece.stop < other.start ∨ other.stop < piece.start := by
  have hapart : (e.pieces region).Pairwise fun piece other =>
      piece.stop < other.start ∨ other.stop < piece.start := (h.pieces_apart region).imp .inl
  have : Std.Symm fun piece other : Region =>
      piece.stop < other.start ∨ other.stop < piece.start := ⟨fun _ _ => Or.symm⟩
  exact hapart.forall hpiece hother hne

theorem Reachable.contains_pieces (h : e.Reachable) :
    (∃ piece ∈ e.pieces region, piece.contains address = true) ↔
      region.contains address = true ∧ e.isExcluded address = false := by
  rw [pieces, contains_piecesFrom (h.sorted.sublist List.filter_sublist), Region.contains_iff,
    isExcluded_eq_false_iff, and_assoc]
  · refine and_congr_right fun hstart => and_congr_right fun hstop => ?_
    simp only [List.mem_filter, Region.overlaps, Region.contains, Bool.and_eq_true,
      Bool.and_eq_false_iff, decide_eq_true_eq, decide_eq_false_iff_not]
    constructor
    · intro hfree hole hhole
      by_cases hnear : hole.start < region.stop ∧ region.start < hole.stop
      · exact hfree hole ⟨hhole, hnear⟩
      · omega
    · exact fun hfree hole hhole => hfree hole hhole.1
  · intro hole hhole
    have := (List.mem_filter.mp hhole).2
    simp only [Region.overlaps, Bool.and_eq_true, decide_eq_true_eq] at this
    omega

/-! ## Words -/

/-- The addresses that a scan of what is not excluded in the region reads, in order. -/
def scanned (mode : Mode) (e : Exclusions) (region : Region) : Except Fault (List Nat) :=
  return (← (e.pieces region).mapM (·.scanned mode)).flatten

end Exclusions

theorem pairwise_wordAddresses (count start : Nat) : (wordAddresses count start).Pairwise (· < ·) := by
  induction count generalizing start with
  | zero => exact List.Pairwise.nil
  | succ count ih =>
    refine List.pairwise_cons.mpr ⟨fun x hx => ?_, ih _⟩
    obtain ⟨i, -, rfl⟩ := mem_wordAddresses.mp hx
    simp only [wordBytes]
    omega

/-- The words of pieces that lie apart come in ascending order. -/
theorem pairwise_words {pieces : List Region}
    (h : pieces.Pairwise fun piece later => piece.stop < later.start) :
    (pieces.flatMap Region.words).Pairwise (· < ·) := by
  refine List.pairwise_flatMap.mpr ⟨fun piece _ => pairwise_wordAddresses _ _, h.imp ?_⟩
  intro piece later hapart x hx y hy
  have := (Region.mem_words.mp hx).2.2
  have := (Region.mem_words.mp hy).2.1
  omega

theorem mapM_scanned (mode : Mode) {pieces : List Region}
    (h : ∀ piece ∈ pieces, piece.scanned mode = .ok piece.words) :
    pieces.mapM (·.scanned mode) = .ok (pieces.map Region.words) := by
  induction pieces with
  | nil => rfl
  | cons piece pieces ih =>
    obtain ⟨hpiece, hrest⟩ := List.forall_mem_cons.mp h
    rw [List.mapM_cons, hpiece, ok_bind, ih hrest, ok_bind]
    rfl

theorem Marking.scanPieces_eq (mode : Mode) (memory : Nat → Word) {pieces : List Region}
    (h : ∀ piece ∈ pieces, piece.scanned mode = .ok piece.words) (m : Marking) :
    scanPieces mode memory pieces m =
      .ok () ((pieces.flatMap Region.words).foldl (fun m a => m.markAmbiguous (memory a)) m) := by
  induction pieces generalizing m with
  | nil => rfl
  | cons piece pieces ih =>
    obtain ⟨hpiece, hrest⟩ := List.forall_mem_cons.mp h
    rw [List.flatMap_cons, List.foldl_append, ← ih hrest, scanPieces, hpiece]
    rfl

namespace Exclusions

theorem scanned_piece (mode : Mode) (hstop : region.stop + wordBytes ≤ wordLimit)
    (hpiece : piece ∈ e.pieces region) : piece.scanned mode = .ok piece.words := by
  obtain ⟨hlt, hle⟩ := mem_pieces hpiece
  exact Region.scanned_eq mode hlt (Nat.le_trans (Nat.add_le_add_right hle _) hstop)

theorem scanned_eq (mode : Mode) (hstop : region.stop + wordBytes ≤ wordLimit) :
    e.scanned mode region = .ok ((e.pieces region).flatMap Region.words) := by
  rw [scanned, mapM_scanned mode fun piece => scanned_piece mode hstop, ok_bind,
    ← List.flatMap_def]
  rfl

/-- A word that is not excluded lies in one piece: otherwise the piece of its first byte would end
inside the word, and the byte behind that piece would belong to another one that starts there. -/
theorem Reachable.mem_words (h : e.Reachable) :
    address ∈ (e.pieces region).flatMap Region.words ↔ address % wordBytes = 0 ∧
      region.start ≤ address ∧ address + wordBytes ≤ region.stop ∧
      ∀ byte, address ≤ byte → byte < address + wordBytes → e.isExcluded byte = false := by
  simp only [List.mem_flatMap, Region.mem_words]
  constructor
  · rintro ⟨piece, hpiece, hmod, hstart, hstop⟩
    have hbyte : ∀ byte, address ≤ byte → byte < address + wordBytes →
        region.contains byte = true ∧ e.isExcluded byte = false := fun byte hle hlt =>
      h.contains_pieces.mp ⟨piece, hpiece, Region.contains_iff.mpr ⟨by omega, by omega⟩⟩
    have hfirst := Region.contains_iff.mp (hbyte address (Nat.le_refl _) (by simp only [wordBytes]; omega)).1
    have hend := (mem_pieces hpiece).2
    exact ⟨hmod, hfirst.1, by omega, fun byte hle hlt => (hbyte byte hle hlt).2⟩
  · rintro ⟨hmod, hstart, hstop, hspares⟩
    have hbyte : ∀ byte, address ≤ byte → byte < address + wordBytes →
        ∃ piece ∈ e.pieces region, piece.start ≤ byte ∧ byte < piece.stop := by
      intro byte hle hlt
      simp only [← Region.contains_iff]
      exact h.contains_pieces.mpr
        ⟨Region.contains_iff.mpr ⟨by omega, by omega⟩, hspares byte hle hlt⟩
    obtain ⟨piece, hpiece, hle, hlt⟩ := hbyte address (Nat.le_refl _) (by simp only [wordBytes]; omega)
    refine ⟨piece, hpiece, hmod, hle, ?_⟩
    by_contra hcut
    obtain ⟨other, hother, hle', hlt'⟩ := hbyte piece.stop hlt.le (Nat.lt_of_not_le hcut)
    have hne : piece ≠ other := by
      rintro rfl
      omega
    have hapart := h.apart_of_ne hpiece hother hne
    omega

/-- A conservative scan visits exactly what it is permitted to. The pieces that exclusions leave of a
region, however they overlap, are not empty, lie apart in ascending order, and have the addresses of
the region that are not excluded. When the region does not end in the last word of the address space,
a scan reads every aligned word of the region once, in ascending order, unless one of its bytes is
excluded, and it reads nothing else. -/
theorem Reachable.scans_permitted_words (h : e.Reachable) (region : Region) :
    (∀ piece ∈ e.pieces region, piece.start < piece.stop) ∧
    (e.pieces region).Pairwise (fun piece later => piece.stop < later.start) ∧
    (∀ address, (∃ piece ∈ e.pieces region, piece.contains address = true) ↔
      region.contains address = true ∧ e.isExcluded address = false) ∧
    (region.stop + wordBytes ≤ wordLimit → ∀ mode, ∃ addresses,
      e.scanned mode region = .ok addresses ∧
      addresses.Pairwise (· < ·) ∧
      (∀ address, address ∈ addresses ↔ address % wordBytes = 0 ∧ region.start ≤ address ∧
        address + wordBytes ≤ region.stop ∧
        ∀ byte, address ≤ byte → byte < address + wordBytes → e.isExcluded byte = false) ∧
      ∀ memory m, Marking.scanRegion mode memory e region m =
        .ok () (addresses.foldl (fun m address => m.markAmbiguous (memory address)) m)) := by
  refine ⟨fun piece hpiece => (mem_pieces hpiece).1, h.pieces_apart region,
    fun _ => h.contains_pieces, fun hstop mode => ⟨_, scanned_eq mode hstop,
      pairwise_words (h.pieces_apart region), fun _ => h.mem_words, fun memory m => ?_⟩⟩
  exact Marking.scanPieces_eq mode memory (fun piece => scanned_piece mode hstop) m

/-- A long exclusion with a short one inside it, one that overlaps its end and one that was lifted
again: the words at 0 and 56 are left of the eight that the region touches. -/
theorem Reachable.scans_permitted_words_nested :
    ∃ e, e.Reachable ∧
      e = (((((Exclusions.none.exclude (.ofRange 32 52)).exclude (.ofRange 8 40)).exclude
        (.ofRange 60 64)).exclude (.ofRange 16 24)).lift (.ofRange 60 64)).2 ∧
      e.pieces ⟨0, 67⟩ = [⟨0, 8⟩, ⟨52, 67⟩] ∧
      (e.scanned .debug ⟨0, 67⟩ = .ok [0, 56]) ∧
      ∃ addresses, e.scanned .debug ⟨0, 67⟩ = .ok addresses ∧ addresses.Pairwise (· < ·) := by
  have h := ((((Reachable.none.exclude 32 52).exclude 8 40).exclude 60 64).exclude 16 24).lift
    (.ofRange 60 64)
  obtain ⟨-, -, -, hscan⟩ := Reachable.scans_permitted_words h ⟨0, 67⟩
  obtain ⟨addresses, hscanned, hascending, -⟩ := hscan (by decide) .debug
  exact ⟨_, h, rfl, by decide, by decide +kernel, addresses, hscanned, hascending⟩

end Exclusions

end Substrate
