import Substrate.Text.Utf8

/-!
# Decoding what was encoded

The bytes of a text decode to the text. Characters are taken one by one: the first byte of a character
tells how many others belong to it, and all of them are bytes that may stand there. Where some second
bytes are forbidden, no character needs them: they would be shorter spellings, surrogates or beyond the
last plane.
-/

namespace Substrate.Text

theorem lowBits_continuation (n : Nat) : lowBits (UInt8.ofNat (n % 64 + 128)) = n % 64 := by
  simp only [lowBits, UInt8.toNat_ofNat']
  omega

theorem isContinuation_continuation (n : Nat) :
    isContinuation (UInt8.ofNat (n % 64 + 128)) = true := by
  simp only [isContinuation, Bool.and_eq_true, decide_eq_true_eq, UInt8.le_iff_toNat_le,
    UInt8.toNat_ofNat', UInt8.reduceToNat]
  omega

/-- How many bytes the first one announces. -/
theorem sequenceLength_ofNat {n : Nat} (h : n < 256) : sequenceLength (UInt8.ofNat n)
    = if n < 0x80 then 1 else if 0xc2 ≤ n ∧ n ≤ 0xdf then 2 else if 0xe0 ≤ n ∧ n ≤ 0xef then 3
      else if 0xf0 ≤ n ∧ n ≤ 0xf4 then 4 else 0 := by
  simp only [sequenceLength, UInt8.lt_iff_toNat_lt, UInt8.le_iff_toNat_le, UInt8.toNat_ofNat',
    UInt8.reduceToNat, Nat.mod_eq_of_lt h, Bool.and_eq_true, decide_eq_true_eq]

/-- Which second bytes are allowed, by the six bits that they carry. -/
theorem isSecond_ofNat {n k : Nat} (hn : n < 256) (hk : k < 64) :
    isSecond (UInt8.ofNat n) (UInt8.ofNat (k + 128)) = true ↔
      (n = 0xe0 → 0x20 ≤ k) ∧ (n = 0xed → k ≤ 0x1f) ∧ (n = 0xf0 → 0x10 ≤ k) ∧
        (n = 0xf4 → k ≤ 0xf) := by
  have heq : ∀ b : UInt8, UInt8.ofNat n = b ↔ n = b.toNat := by
    intro b
    rw [← UInt8.toNat_inj, UInt8.toNat_ofNat', Nat.mod_eq_of_lt hn]
  simp only [isSecond, isContinuation, beq_iff_eq, heq, UInt8.le_iff_toNat_le, UInt8.toNat_ofNat',
    UInt8.reduceToNat]
  repeat' split
  all_goals simp only [Bool.and_eq_true, decide_eq_true_eq]; omega

/-- The first byte of a character gives the character back, with as many bytes as it has, whatever
stands behind it. -/
theorem decodeFirst_encode (c : Char) (rest : List UInt8) :
    ∃ first more, String.utf8EncodeChar c = first :: more ∧
      decodeFirst first (more ++ rest) = (c, more.length) := by
  have hvalid : c.val.toNat < 0xd800 ∨ 0xdfff < c.val.toNat ∧ c.val.toNat < 0x110000 := c.valid
  have hchar : Char.ofNat c.val.toNat = c := c.ofNat_toNat
  unfold String.utf8EncodeChar
  generalize c.val.toNat = v at hvalid hchar
  dsimp only
  -- one case for each number of bytes
  split
  · refine ⟨_, _, rfl, ?_⟩
    have hlength := sequenceLength_ofNat (n := v) (by omega)
    rw [if_pos (by omega)] at hlength
    simp only [decodeFirst, hlength, UInt8.toNat_ofNat', List.length_nil]
    rw [Nat.mod_eq_of_lt (by omega), hchar]
  split
  · refine ⟨_, _, rfl, ?_⟩
    have hlength := sequenceLength_ofNat (n := v / 64 % 32 + 192) (by omega)
    rw [if_neg (by omega), if_pos (by omega)] at hlength
    have hsecond := (isSecond_ofNat (n := v / 64 % 32 + 192) (k := v % 64) (by omega)
      (by omega)).mpr (by omega)
    have hvalue : (v / 64 % 32 + 192) % 2 ^ 8 % 32 * 64 + v % 64 = v := by omega
    simp only [decodeFirst, hlength, List.cons_append, List.nil_append, hsecond, if_true,
      lowBits_continuation, UInt8.toNat_ofNat', List.length_cons, List.length_nil]
    rw [hvalue, hchar]
  split
  · refine ⟨_, _, rfl, ?_⟩
    have hlength := sequenceLength_ofNat (n := v / 4096 % 16 + 224) (by omega)
    rw [if_neg (by omega), if_neg (by omega), if_pos (by omega)] at hlength
    have hsecond := (isSecond_ofNat (n := v / 4096 % 16 + 224) (k := v / 64 % 64) (by omega)
      (by omega)).mpr (by omega)
    have hvalue : ((v / 4096 % 16 + 224) % 2 ^ 8 % 16 * 64 + v / 64 % 64) * 64 + v % 64 = v := by
      omega
    simp only [decodeFirst, hlength, List.cons_append, List.nil_append, hsecond,
      isContinuation_continuation, Bool.not_true, Bool.false_eq_true, if_false,
      lowBits_continuation, UInt8.toNat_ofNat', List.length_cons, List.length_nil]
    rw [hvalue, hchar]
  · refine ⟨_, _, rfl, ?_⟩
    have hlength := sequenceLength_ofNat (n := v / 262144 % 8 + 240) (by omega)
    rw [if_neg (by omega), if_neg (by omega), if_neg (by omega), if_pos (by omega)] at hlength
    have hsecond := (isSecond_ofNat (n := v / 262144 % 8 + 240) (k := v / 4096 % 64) (by omega)
      (by omega)).mpr (by omega)
    have hvalue : (((v / 262144 % 8 + 240) % 2 ^ 8 % 8 * 64 + v / 4096 % 64) * 64 + v / 64 % 64) * 64
        + v % 64 = v := by omega
    simp only [decodeFirst, hlength, List.cons_append, List.nil_append, hsecond,
      isContinuation_continuation, Bool.not_true, Bool.false_eq_true, if_false,
      lowBits_continuation, UInt8.toNat_ofNat', List.length_cons, List.length_nil]
    rw [hvalue, hchar]

theorem decodeFrom_skip (seen : List Char) (skipped rest : List UInt8) :
    decodeFrom seen skipped.length (skipped ++ rest) = decodeFrom seen 0 rest := by
  induction skipped with
  | nil => rfl
  | cons byte skipped ih => exact ih

theorem decodeFrom_encode (seen chars : List Char) :
    decodeFrom seen 0 (chars.flatMap String.utf8EncodeChar) = seen.reverse ++ chars := by
  induction chars generalizing seen with
  | nil => simp [decodeFrom]
  | cons c chars ih =>
    obtain ⟨first, more, hencode, hdecode⟩ :=
      decodeFirst_encode c (chars.flatMap String.utf8EncodeChar)
    rw [List.flatMap_cons, hencode, List.cons_append, decodeFrom, hdecode]
    dsimp only
    rw [decodeFrom_skip, ih]
    simp

/-- The bytes of a text decode to the text. -/
theorem ofUtf8_utf8 (text : String) : ofUtf8 (utf8 text) = text := by
  simp [ofUtf8, utf8, decodeFrom_encode]

end Substrate.Text
