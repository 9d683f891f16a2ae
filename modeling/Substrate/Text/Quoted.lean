import Substrate.Text.Printable

/-!
# Quoted text

How a text is shown inside double quotes, and how addresses are written. A character that would
not be seen, or that would melt into its neighbour, is written by its code point.
-/

namespace Substrate.Text

/-- Digits of `n` in base sixteen, in lower case. -/
def hexDigits (n : Nat) : String :=
  String.ofList (Nat.toDigits 16 n)

/-- An address or a word as it appears in messages. -/
def hex (n : Nat) : String :=
  "0x" ++ hexDigits n

/-- Exactly `width` digits in base sixteen, the most significant first. -/
def hexPadded (width n : Nat) : String :=
  let digits := Nat.toDigits 16 n
  String.ofList (List.replicate (width - digits.length) '0' ++ digits)

/-- One character between double quotes. -/
def escape (c : Char) : String :=
  if c == '\x00' then "\\0"
  else if c == '\t' then "\\t"
  else if c == '\r' then "\\r"
  else if c == '\n' then "\\n"
  else if c == '"' then "\\\""
  else if c == '\\' then "\\\\"
  else if isPrintable c && !isCombining c then c.toString
  else "\\u\x7b" ++ hexDigits c.toNat ++ "\x7d"

/-- The text in double quotes. -/
def quoted (text : String) : String :=
  "\"" ++ String.join (text.toList.map escape) ++ "\""

/-- A list of quoted texts. -/
def quotedList (texts : List String) : String :=
  "[" ++ String.intercalate ", " (texts.map quoted) ++ "]"

end Substrate.Text
