import Substrate.Decimal.Double
import Substrate.Text.Blank

/-!
# Sizes and flags as text

A size is a number with an optional `k`, `m` or `g`, in either case, that multiplies it by a power
of 1024, optionally followed by `b`. A byte count is shown with one decimal and the unit that
fits. Flags are words for yes and no.
-/

namespace Substrate.Size

/-! ## Showing byte counts -/

/-- One decimal of `n / unit`, followed by the name of the unit. -/
def renderIn (n unit : Nat) (name : String) : String :=
  let tenths := Decimal.roundDiv (10 * n) unit
  toString (tenths / 10) ++ "." ++ toString (tenths % 10) ++ name

/-- A byte count with a binary unit, such as `1.5M`. Counts below 1024 are exact. -/
def render (bytes : Nat) : String :=
  if bytes < 1024 then toString bytes ++ "B"
  else
    let n := Decimal.toDoublePrecision bytes
    if n < 1024 * 1024 then renderIn n 1024 "K"
    else if n < 1024 * 1024 * 1024 then renderIn n (1024 * 1024) "M"
    else renderIn n (1024 * 1024 * 1024) "G"

/-! ## Reading sizes -/

/-- The text without a final `b`, unless that is all of it. -/
def dropByteMark (text : List Char) : List Char :=
  match text.getLast? with
  | some c => if (c == 'b' || c == 'B') && 1 < text.length then text.dropLast else text
  | none => text

/-- The factor a unit letter stands for. -/
def unitFactor? (c : Char) : Option Nat :=
  if c == 'g' || c == 'G' then some (1024 * 1024 * 1024)
  else if c == 'm' || c == 'M' then some (1024 * 1024)
  else if c == 'k' || c == 'K' then some 1024
  else none

/-- Splits a unit letter off the end; without one the factor is one. -/
def splitUnit (text : List Char) : List Char × Nat :=
  match text.getLast?.bind unitFactor? with
  | some factor => (text.dropLast, factor)
  | none => (text, 1)

/-- Reads a number and the factor its unit stands for. -/
def readScaled? (text : String) : Option (Double × Nat) :=
  let (digits, factor) := splitUnit (dropByteMark (Text.trim text.toList))
  (Double.read? digits).map fun x => (x, factor)

/-- Reads a byte count. Fractions are cut off, negative sizes are refused, sizes beyond a word
are the largest word, and what is not a number is zero. -/
def read? (text : String) : Option Nat :=
  match readScaled? text with
  | some (x, factor) => if x.isNegative then none else some (x.times factor)
  | none => none

/-- Reads a factor; a unit behind it is checked and ignored. -/
def readFactor? (text : String) : Option Double :=
  (readScaled? text).map (·.1)

/-- Reads a flag. -/
def readFlag? (text : String) : Option Bool :=
  let word := String.ofList ((Text.trim text.toList).map Char.toLower)
  if word == "1" || word == "true" || word == "yes" || word == "on" then some true
  else if word == "0" || word == "false" || word == "no" || word == "off" then some false
  else none

end Substrate.Size
