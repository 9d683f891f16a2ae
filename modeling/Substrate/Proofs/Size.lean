import Substrate.Proofs.Decimal.Literal
import Substrate.Proofs.Rounding
import Substrate.Proofs.Text.Blank
import Substrate.Proofs.Text.Slices
import Substrate.Size

/-!
# The grammar of sizes

A size is a number, a unit and a mark for bytes, in this order and with nothing but blanks around them; the
unit and the mark may be missing (`Spelling`). Reading takes them off from the end before it looks at the
number, and it does so byte by byte. `reading_exact` says that this never cuts a character in two, that it
accepts what the grammar says and nothing else, and that there is one way only to take a text apart.
-/

namespace Substrate.Size

open Substrate.Text (Trimmed bytes withoutLastByte lastByte)
open Decimal (Closed)

variable {text number unit mark : List Char} {factor : Nat}

/-! ## Grammar -/

/-- A unit, which may be missing, and its factor. -/
inductive IsUnit : List Char → Nat → Prop where
  | one : IsUnit [] 1
  | kilo {c : Char} (h : c = 'k' ∨ c = 'K') : IsUnit [c] 1024
  | mega {c : Char} (h : c = 'm' ∨ c = 'M') : IsUnit [c] (1024 * 1024)
  | giga {c : Char} (h : c = 'g' ∨ c = 'G') : IsUnit [c] (1024 * 1024 * 1024)

/-- The mark for bytes, which may be missing. -/
inductive IsMark : List Char → Prop where
  | none : IsMark []
  | byte {c : Char} (h : c = 'b' ∨ c = 'B') : IsMark [c]

/-- The parts of a size, the number that it begins with and the factor of its unit. -/
structure Spelling where
  number : List Char
  unit : List Char
  mark : List Char
  value : Double
  factor : Nat

/-- The text consists of these parts, but for blanks at its ends. -/
structure Spelling.Of (p : Spelling) (text : List Char) : Prop where
  trimmed : Trimmed text (p.number ++ p.unit ++ p.mark)
  number : Double.read? p.number = some p.value
  unit : IsUnit p.unit p.factor
  mark : IsMark p.mark

theorem isUnit_iff {c : Char} : IsUnit [c] factor ↔ unitFactor? c = some factor := by
  constructor
  · rintro (_ | ⟨rfl | rfl⟩ | ⟨rfl | rfl⟩ | ⟨rfl | rfl⟩) <;> rfl
  · intro h
    unfold unitFactor? at h
    simp only [Bool.or_eq_true, beq_iff_eq] at h
    split at h
    next hc => cases h; exact .giga hc
    split at h
    next hc => cases h; exact .mega hc
    split at h
    next hc => cases h; exact .kilo hc
    next => cases h

/-! ## Taking a text apart -/

/-- A literal does not end in a letter that could be a unit or the mark. -/
theorem not_unit_of_closes {c : Char} (h : Decimal.Closes c) :
    unitFactor? c = none ∧ c ≠ 'b' ∧ c ≠ 'B' := by
  have hne : ∀ letter ∈ ['b', 'B', 'g', 'G', 'm', 'M', 'k', 'K'], c ≠ letter := by
    rintro letter hletter rfl
    simp only [List.mem_cons, List.not_mem_nil, or_false] at hletter
    rcases hletter with rfl | rfl | rfl | rfl | rfl | rfl | rfl | rfl <;>
      simp [Decimal.Closes, Decimal.isDigit] at h
  simp only [List.mem_cons, List.not_mem_nil, or_false, forall_eq_or_imp, forall_eq] at hne
  simp [unitFactor?, hne]

theorem dropByteMark_append (hnumber : Closed number) (hunit : IsUnit unit factor)
    (hmark : IsMark mark) : dropByteMark (number ++ unit ++ mark) = number ++ unit := by
  obtain ⟨c, hlast, hcloses⟩ := hnumber
  cases hmark with
  | none =>
    have hkept : ∀ letter, (number ++ unit).getLast? = some letter → letter ≠ 'b' ∧ letter ≠ 'B' := by
      intro letter hletter
      cases hunit with
      | one =>
        rw [List.append_nil, hlast] at hletter
        cases hletter
        exact (not_unit_of_closes hcloses).2
      | kilo h | mega h | giga h =>
        rw [List.getLast?_concat] at hletter
        cases hletter
        rcases h with rfl | rfl <;> decide
    rw [List.append_nil, dropByteMark]
    split
    next letter hletter => simp [hkept letter hletter]
    next => rfl
  | @byte letter h =>
    have hpos : 0 < number.length := List.length_pos_iff.mpr (by rintro rfl; cases hlast)
    have hlong : 1 < (number ++ unit ++ [letter]).length := by
      simp only [List.length_append, List.length_singleton]
      omega
    rw [dropByteMark, List.getLast?_concat]
    dsimp only
    rw [if_pos (by simpa only [hlong, decide_true, Bool.and_true, Bool.or_eq_true, beq_iff_eq] using h),
      List.dropLast_concat]

theorem splitUnit_append (hnumber : Closed number) (hunit : IsUnit unit factor) :
    splitUnit (number ++ unit) = (number, factor) := by
  have hletter : ∀ letter, IsUnit [letter] factor →
      splitUnit (number ++ [letter]) = (number, factor) := by
    intro letter h
    rw [splitUnit, List.getLast?_concat, Option.bind_some, isUnit_iff.mp h]
    exact congrArg (·, factor) (List.dropLast_concat ..)
  cases hunit with
  | one =>
    obtain ⟨c, hlast, hcloses⟩ := hnumber
    rw [List.append_nil, splitUnit, hlast, Option.bind_some, (not_unit_of_closes hcloses).1]
  | kilo h => exact hletter _ (.kilo h)
  | mega h => exact hletter _ (.mega h)
  | giga h => exact hletter _ (.giga h)

theorem exists_mark (text : List Char) : ∃ mark, text = dropByteMark text ++ mark ∧ IsMark mark := by
  unfold dropByteMark
  split
  next c hlast =>
    split
    next hbyte =>
      simp only [Bool.and_eq_true, Bool.or_eq_true, beq_iff_eq] at hbyte
      obtain ⟨init, rfl⟩ := List.getLast?_eq_some_iff.mp hlast
      exact ⟨[c], by rw [List.dropLast_concat], .byte hbyte.1⟩
    next => exact ⟨[], (List.append_nil text).symm, .none⟩
  next => exact ⟨[], (List.append_nil text).symm, .none⟩

theorem exists_unit (text : List Char) :
    ∃ unit, text = (splitUnit text).1 ++ unit ∧ IsUnit unit (splitUnit text).2 := by
  unfold splitUnit
  split
  next factor hfactor =>
    obtain ⟨c, hlast, hunit⟩ := Option.bind_eq_some_iff.mp hfactor
    obtain ⟨init, rfl⟩ := List.getLast?_eq_some_iff.mp hlast
    exact ⟨[c], by rw [List.dropLast_concat], isUnit_iff.mpr hunit⟩
  next => exact ⟨[], (List.append_nil text).symm, .one⟩

namespace Spelling

variable {p q : Spelling} {text : String}

/-- What reading finds is what a spelling says. -/
theorem Of.parts (h : p.Of text.toList) :
    dropByteMark (Text.trim text.toList) = p.number ++ p.unit ∧
      splitUnit (p.number ++ p.unit) = (p.number, p.factor) := by
  have hclosed := Decimal.read?_last h.number
  rw [Text.trimmed_iff.mp h.trimmed]
  exact ⟨dropByteMark_append hclosed h.unit h.mark, splitUnit_append hclosed h.unit⟩

theorem Of.read (h : p.Of text.toList) : readScaled? text = some (p.value, p.factor) := by
  obtain ⟨hmark, hunit⟩ := h.parts
  rw [readScaled?, hmark, hunit]
  dsimp only
  rw [h.number]
  rfl

/-- There is one way only to take a text apart. -/
theorem Of.unique (hp : p.Of text.toList) (hq : q.Of text.toList) : p = q := by
  obtain ⟨hmark, hunit⟩ := hp.parts
  obtain ⟨hmark', hunit'⟩ := hq.parts
  have hwhole : p.number ++ p.unit ++ p.mark = q.number ++ q.unit ++ q.mark :=
    (Text.trimmed_iff.mp hp.trimmed).symm.trans (Text.trimmed_iff.mp hq.trimmed)
  have hscaled : p.number ++ p.unit = q.number ++ q.unit := hmark.symm.trans hmark'
  have hsplit : (p.number, p.factor) = (q.number, q.factor) := by
    rw [← hunit, ← hunit', hscaled]
  obtain ⟨hnumber, hfactor⟩ := Prod.mk.inj hsplit
  have hvalue : p.value = q.value :=
    Option.some.inj (hp.number.symm.trans (hnumber ▸ hq.number))
  rw [hscaled] at hwhole
  rw [hnumber] at hscaled
  cases p
  cases q
  simp_all

theorem exists_of_read {x : Double} (h : readScaled? text = some (x, factor)) :
    ∃ p : Spelling, p.Of text.toList ∧ p.value = x ∧ p.factor = factor := by
  obtain ⟨mark, hmark, hisMark⟩ := exists_mark (Text.trim text.toList)
  obtain ⟨unit, hunit, hisUnit⟩ := exists_unit (dropByteMark (Text.trim text.toList))
  obtain ⟨value, hvalue, hpair⟩ := Option.map_eq_some_iff.mp h
  obtain ⟨rfl, rfl⟩ := Prod.mk.inj hpair
  refine ⟨⟨_, unit, mark, value, _⟩, ⟨Text.trimmed_iff.mpr ?_, hvalue, hisUnit, hisMark⟩, rfl, rfl⟩
  exact hmark.trans (congrArg (· ++ mark) hunit)

end Spelling

/-! ## Reading byte by byte -/

/-- The factor that the last byte of a text stands for. -/
def byteFactor? (byte : UInt8) : Option Nat :=
  if byte == 0x67 || byte == 0x47 then some (1024 * 1024 * 1024)
  else if byte == 0x6d || byte == 0x4d then some (1024 * 1024)
  else if byte == 0x6b || byte == 0x4b then some 1024
  else none

/-- The text without a final `b`, found and cut off by bytes. -/
def cutMark (mode : Mode) (text : List Char) : Except Fault (List Char) :=
  if 1 < (bytes text).length && (text.getLast? == some 'b' || text.getLast? == some 'B') then
    withoutLastByte mode text
  else pure text

/-- Reads a number and its factor with every cut made at a byte. A cut inside a character panics, and so
does looking for the last byte of nothing. -/
def readBytes (mode : Mode) (text : List Char) : Except Fault (Option (Double × Nat)) := do
  let text := Text.trim text
  if text.isEmpty then return none
  let text ← cutMark mode text
  match byteFactor? (← lastByte mode text) with
  | some factor => return (Double.read? (← withoutLastByte mode text)).map fun x => (x, factor)
  | none => return (Double.read? text).map fun x => (x, 1)

/-- The byte that a letter is, if it is the last one, stands for what the letter stands for. -/
theorem byteFactor?_lastByte (mode : Mode) (init : List Char) (c : Char) :
    ∃ byte, lastByte mode (init ++ [c]) = .ok byte ∧ byteFactor? byte = unitFactor? c := by
  obtain ⟨byte, hbyte, hiff⟩ := Text.lastByte_eq mode init c
  refine ⟨byte, hbyte, ?_⟩
  have hletter : ∀ letter : Char, letter.toNat < 128 →
      (byte == UInt8.ofNat letter.toNat) = (c == letter) := fun letter h => by
    rw [Bool.eq_iff_iff, beq_iff_eq, beq_iff_eq, hiff letter h]
  simp only [byteFactor?, unitFactor?, ← hletter 'g' (by decide), ← hletter 'G' (by decide),
    ← hletter 'm' (by decide), ← hletter 'M' (by decide), ← hletter 'k' (by decide),
    ← hletter 'K' (by decide)]
  rfl

theorem lt_of_unitFactor? {c : Char} (h : unitFactor? c = some factor) : c.toNat < 128 := by
  obtain ⟨letters, hletters⟩ : ∃ letters, letters = [c] := ⟨_, rfl⟩
  have hunit : IsUnit letters factor := hletters ▸ isUnit_iff.mpr h
  cases hunit with
  | one => cases hletters
  | kilo h | mega h | giga h =>
    cases hletters
    rcases h with rfl | rfl <;> decide

/-- A letter in front of which there is nothing is not taken for the mark, whether its bytes are counted
or its characters. -/
theorem one_lt_bytes_iff {init : List Char} {c : Char} (hc : c.toNat < 128) :
    1 < (bytes (init ++ [c])).length ↔ 1 < (init ++ [c]).length := by
  have hone : (bytes [c]).length = 1 := by simp [bytes, Text.encode_of_lt hc]
  cases init with
  | nil => rw [List.nil_append, hone, List.length_singleton]
  | cons d init =>
    have hsize := d.utf8Size_pos
    have hsplit : bytes (init ++ [c]) = bytes init ++ bytes [c] := List.flatMap_append
    rw [List.cons_append, Text.length_bytes_cons, hsplit, List.length_append, hone, List.length_cons,
      List.length_append, List.length_singleton]
    omega

/-- The mark is cut off where a character ends. -/
theorem cutMark_eq (mode : Mode) (text : List Char) :
    cutMark mode text = .ok (dropByteMark text) := by
  unfold cutMark dropByteMark
  cases hlast : text.getLast? with
  | none => rw [if_neg (by simp)]; rfl
  | some c =>
    obtain ⟨init, rfl⟩ := List.getLast?_eq_some_iff.mp hlast
    have hletter : (some c == some 'b' || some c == some 'B') = (c == 'b' || c == 'B') := rfl
    dsimp only
    rw [hletter]
    cases hc : c == 'b' || c == 'B' with
    | false => rw [Bool.and_false, Bool.false_and]; rfl
    | true =>
      have hascii : c.toNat < 128 := by
        simp only [Bool.or_eq_true, beq_iff_eq] at hc
        rcases hc with rfl | rfl <;> decide
      simp only [Bool.and_true, Bool.true_and, decide_eq_true_eq, one_lt_bytes_iff hascii,
        Text.withoutLastByte_eq mode init hascii, List.dropLast_concat]
      exact (apply_ite Except.ok ..).symm

theorem dropByteMark_ne_nil {text : List Char} (hne : text ≠ []) : dropByteMark text ≠ [] := by
  unfold dropByteMark
  split
  · split
    next hmark =>
      simp only [Bool.and_eq_true, decide_eq_true_eq] at hmark
      exact List.ne_nil_of_length_pos (by rw [List.length_dropLast]; omega)
    next => exact hne
  next => exact hne

/-- No cut is made inside a character, and the result is that of cutting off characters. -/
theorem readBytes_eq (mode : Mode) (text : String) :
    readBytes mode text.toList = .ok (readScaled? text) := by
  unfold readBytes readScaled?
  by_cases hempty : Text.trim text.toList = []
  · rw [hempty]
    rfl
  have hne := dropByteMark_ne_nil hempty
  simp only [List.isEmpty_iff, hempty, if_false, cutMark_eq, ok_bind]
  generalize dropByteMark (Text.trim text.toList) = rest at hne
  obtain ⟨init, c, rfl⟩ : ∃ init c, rest = init ++ [c] :=
    ⟨_, _, (List.dropLast_concat_getLast hne).symm⟩
  obtain ⟨byte, hbyte, hfactor⟩ := byteFactor?_lastByte mode init c
  rw [hbyte, ok_bind, hfactor, splitUnit, List.getLast?_concat, Option.bind_some]
  cases hunit : unitFactor? c with
  | none => rfl
  | some factor =>
    dsimp only
    rw [Text.withoutLastByte_eq mode init (lt_of_unitFactor? hunit), List.dropLast_concat]
    rfl

/-! ## What is read -/

/-- Reading a number with a unit never cuts inside a character. It finds a number and a factor exactly if
the text is spelled with them, and a text is spelled in one way only. -/
theorem reading_exact (text : String) :
    (∀ mode, readBytes mode text.toList = .ok (readScaled? text)) ∧
      (∀ x factor, readScaled? text = some (x, factor) ↔
        ∃ p : Spelling, p.Of text.toList ∧ p.value = x ∧ p.factor = factor) ∧
      ∀ p q : Spelling, p.Of text.toList → q.Of text.toList → p = q := by
  refine ⟨fun mode => readBytes_eq mode text, fun x factor => ⟨Spelling.exists_of_read, ?_⟩,
    fun p q => Spelling.Of.unique⟩
  rintro ⟨p, hp, rfl, rfl⟩
  exact hp.read

/-- One and a half kilobytes, between blanks. -/
theorem reading_kilobytes :
    ∃ p : Spelling, p.Of " 1.5kB\t".toList ∧ p.value = ⟨0x3ff8000000000000⟩ ∧ p.factor = 1024 :=
  ((reading_exact " 1.5kB\t").2.1 _ _).mp (by decide +kernel)

end Substrate.Size
