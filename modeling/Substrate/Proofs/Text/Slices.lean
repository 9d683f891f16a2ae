import Substrate.Fault
import Substrate.Text.Utf8

/-!
# Texts cut by their bytes

A text can be cut in front of any of its bytes in which a character begins. The last byte may be cut off
if it is a character of its own, and one can see that from the byte alone: the bytes of longer characters
are `0x80` and above (`lastByte_eq`).
-/

namespace Substrate.Text

variable {c : Char}

/-- The bytes of a list of characters. -/
def bytes (text : List Char) : List UInt8 :=
  text.flatMap String.utf8EncodeChar

/-- The part of a text in front of a byte. It panics unless a character begins there. -/
def upTo : List Char → Nat → Except Fault (List Char)
  | _, 0 => .ok []
  | [], index + 1 =>
    .error (.panic ("byte index " ++ toString (index + 1) ++ " is out of bounds"))
  | c :: rest, index + 1 =>
    if c.utf8Size ≤ index + 1 then (c :: ·) <$> upTo rest (index + 1 - c.utf8Size)
    else .error (.panic ("byte index " ++ toString (index + 1) ++ " is not a char boundary"))

/-- The text in front of its last byte. -/
def withoutLastByte (mode : Mode) (text : List Char) : Except Fault (List Char) := do
  upTo text (← mode.sub (bytes text).length 1)

/-- The last byte of a text. -/
def lastByte (mode : Mode) (text : List Char) : Except Fault UInt8 := do
  let index ← mode.sub (bytes text).length 1
  match (bytes text)[index]? with
  | some byte => return byte
  | none => .error (.outOfBounds (bytes text).length index)

theorem length_bytes_cons (c : Char) (text : List Char) :
    (bytes (c :: text)).length = c.utf8Size + (bytes text).length := by
  simp [bytes]

theorem upTo_bytes (text more : List Char) : upTo (text ++ more) (bytes text).length = .ok text := by
  induction text with
  | nil => simp [bytes, upTo]
  | cons c text ih =>
    have hsize := c.utf8Size_pos
    obtain ⟨index, hindex⟩ : ∃ index, (bytes (c :: text)).length = index + 1 :=
      Nat.exists_eq_add_one.mpr (by rw [length_bytes_cons]; omega)
    have hrest : index + 1 - c.utf8Size = (bytes text).length := by
      rw [← hindex, length_bytes_cons, Nat.add_sub_cancel_left]
    have hfits : c.utf8Size ≤ index + 1 := by rw [← hindex, length_bytes_cons]; omega
    rw [hindex, List.cons_append, upTo, if_pos hfits, hrest, ih]
    rfl

/-- The bytes of a character that takes more than one of them are no characters of their own. -/
theorem le_of_mem_encode (hc : 128 ≤ c.toNat) {byte : UInt8} (h : byte ∈ String.utf8EncodeChar c) :
    128 ≤ byte.toNat := by
  have hvalid : c.val.toNat < 0x110000 := by
    have : c.val.toNat < 0xd800 ∨ 0xdfff < c.val.toNat ∧ c.val.toNat < 0x110000 := c.valid
    omega
  change 128 ≤ c.val.toNat at hc
  unfold String.utf8EncodeChar at h
  generalize c.val.toNat = v at hvalid hc h
  dsimp only at h
  rw [if_neg (by omega)] at h
  split at h
  · simp only [List.mem_cons, List.not_mem_nil, or_false] at h
    rcases h with rfl | rfl <;> simp only [UInt8.toNat_ofNat'] <;> omega
  split at h
  · simp only [List.mem_cons, List.not_mem_nil, or_false] at h
    rcases h with rfl | rfl | rfl <;> simp only [UInt8.toNat_ofNat'] <;> omega
  · simp only [List.mem_cons, List.not_mem_nil, or_false] at h
    rcases h with rfl | rfl | rfl | rfl <;> simp only [UInt8.toNat_ofNat'] <;> omega

theorem encode_of_lt (hc : c.toNat < 128) : String.utf8EncodeChar c = [UInt8.ofNat c.toNat] := by
  have hle : c.val.toNat ≤ 0x7f := Nat.le_of_lt_succ hc
  unfold String.utf8EncodeChar
  dsimp only
  rw [if_pos hle]
  rfl

/-- The last byte of a text tells whether a letter is its last character. -/
theorem lastByte_eq (mode : Mode) (text : List Char) (c : Char) :
    ∃ byte, lastByte mode (text ++ [c]) = .ok byte ∧
      ∀ letter : Char, letter.toNat < 128 → (byte = UInt8.ofNat letter.toNat ↔ c = letter) := by
  have hsize := c.utf8Size_pos
  have hlength : (bytes (text ++ [c])).length = (bytes text).length + c.utf8Size := by
    simp [bytes]
  have hlast : bytes (text ++ [c]) = bytes text ++ String.utf8EncodeChar c := by
    simp [bytes]
  have hindex : mode.sub (bytes (text ++ [c])).length 1
      = .ok ((bytes text).length + (c.utf8Size - 1)) := by
    rw [Mode.sub, if_pos (by omega), hlength]
    congr 1
    omega
  have hget : c.utf8Size - 1 < (String.utf8EncodeChar c).length := by
    rw [String.length_utf8EncodeChar]
    omega
  refine ⟨(String.utf8EncodeChar c)[c.utf8Size - 1], ?_, fun letter hletter => ⟨fun hbyte => ?_, ?_⟩⟩
  · have hfound : (bytes (text ++ [c]))[(bytes text).length + (c.utf8Size - 1)]?
        = some (String.utf8EncodeChar c)[c.utf8Size - 1] := by
      rw [hlast, List.getElem?_append_right (Nat.le_add_right _ _), Nat.add_sub_cancel_left,
        List.getElem?_eq_getElem hget]
    simp only [lastByte, hindex, bind, Except.bind, hfound]
    rfl
  · have hsmall : (UInt8.ofNat letter.toNat).toNat = letter.toNat :=
      UInt8.toNat_ofNat_of_lt' (Nat.lt_trans hletter (by decide))
    by_cases hc : c.toNat < 128
    · simp only [encode_of_lt hc, List.getElem_singleton] at hbyte
      have heq := congrArg UInt8.toNat hbyte
      rw [hsmall, UInt8.toNat_ofNat_of_lt' (Nat.lt_trans hc (by decide))] at heq
      exact Char.toNat_inj.mp heq
    · have := le_of_mem_encode (Nat.not_lt.mp hc) (List.getElem_mem hget)
      rw [hbyte, hsmall] at this
      omega
  · rintro rfl
    simp only [encode_of_lt hletter, List.getElem_singleton]

/-- A character of one byte can be cut off. -/
theorem withoutLastByte_eq (mode : Mode) (text : List Char) (hc : c.toNat < 128) :
    withoutLastByte mode (text ++ [c]) = .ok text := by
  have hlength : (bytes (text ++ [c])).length = (bytes text).length + 1 := by
    simp [bytes, encode_of_lt hc]
  have hindex : mode.sub (bytes (text ++ [c])).length 1 = .ok (bytes text).length := by
    rw [Mode.sub, if_pos (by omega), hlength, Nat.add_sub_cancel]
  simp only [withoutLastByte, hindex, bind, Except.bind]
  exact upTo_bytes text [c]

end Substrate.Text
