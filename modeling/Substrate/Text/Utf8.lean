/-!
# UTF-8

Texts as bytes. Decoding never fails: a byte sequence that no character has is replaced, as far
as it could have been the start of one, by the replacement character.
-/

namespace Substrate.Text

/-- The bytes of a text. -/
def utf8 (text : String) : List UInt8 :=
  text.toList.flatMap String.utf8EncodeChar

/-- Stands for bytes that are not a character. -/
def replacement : Char := '\uFFFD'

/-- Whether the byte continues a character. -/
def isContinuation (byte : UInt8) : Bool :=
  0x80 ≤ byte && byte ≤ 0xbf

/-- Whether a byte may follow the first byte of a sequence. After some first bytes only part of
the continuation bytes is left, since shorter spellings, surrogates and code points beyond the
last plane are no characters. -/
def isSecond (first second : UInt8) : Bool :=
  if first == 0xe0 then 0xa0 ≤ second && second ≤ 0xbf
  else if first == 0xed then 0x80 ≤ second && second ≤ 0x9f
  else if first == 0xf0 then 0x90 ≤ second && second ≤ 0xbf
  else if first == 0xf4 then 0x80 ≤ second && second ≤ 0x8f
  else isContinuation second

/-- Bytes in the sequence that a byte starts, zero when it starts none. -/
def sequenceLength (first : UInt8) : Nat :=
  if first < 0x80 then 1
  else if 0xc2 ≤ first && first ≤ 0xdf then 2
  else if 0xe0 ≤ first && first ≤ 0xef then 3
  else if 0xf0 ≤ first && first ≤ 0xf4 then 4
  else 0

/-- The payload bits of a continuation byte. -/
def lowBits (byte : UInt8) : Nat :=
  byte.toNat % 64

/-- The first character of the bytes and how many of the following bytes belong to it. -/
def decodeFirst (first : UInt8) (rest : List UInt8) : Char × Nat :=
  match sequenceLength first, rest with
  | 1, _ => (Char.ofNat first.toNat, 0)
  | 2, b :: _ =>
    if isSecond first b then (Char.ofNat (first.toNat % 32 * 64 + lowBits b), 1)
    else (replacement, 0)
  | 3, [b] => if isSecond first b then (replacement, 1) else (replacement, 0)
  | 3, b :: c :: _ =>
    if !isSecond first b then (replacement, 0)
    else if !isContinuation c then (replacement, 1)
    else (Char.ofNat ((first.toNat % 16 * 64 + lowBits b) * 64 + lowBits c), 2)
  | 4, [b] => if isSecond first b then (replacement, 1) else (replacement, 0)
  | 4, [b, c] =>
    if !isSecond first b then (replacement, 0)
    else if !isContinuation c then (replacement, 1)
    else (replacement, 2)
  | 4, b :: c :: d :: _ =>
    if !isSecond first b then (replacement, 0)
    else if !isContinuation c then (replacement, 1)
    else if !isContinuation d then (replacement, 2)
    else (Char.ofNat (((first.toNat % 8 * 64 + lowBits b) * 64 + lowBits c) * 64 + lowBits d), 3)
  | _, _ => (replacement, 0)

/-- Decodes the bytes after skipping the first `skip` of them; `seen` are the characters before
them, the last one first. -/
def decodeFrom (seen : List Char) : Nat → List UInt8 → List Char
  | _, [] => seen.reverse
  | skip + 1, _ :: rest => decodeFrom seen skip rest
  | 0, first :: rest =>
    let (c, used) := decodeFirst first rest
    decodeFrom (c :: seen) used rest

/-- The text of any bytes. -/
def ofUtf8 (bytes : List UInt8) : String :=
  String.ofList (decodeFrom [] 0 bytes)

end Substrate.Text
