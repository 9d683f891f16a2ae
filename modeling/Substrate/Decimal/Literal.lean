import Substrate.Decimal.Binary

/-!
# Number literals

Reading numbers. A floating-point literal is an optional sign followed by `inf`, `infinity` or
`nan` in any case, or by digits with an optional point (one side of it may be empty, not both) and
an optional exponent. A count is a run of digits that fits a word, with an optional plus sign.
-/

namespace Substrate.Decimal

/-- Why a literal could not be read. -/
inductive LiteralError where
  | emptyInteger
  | invalidDigit
  | tooLarge
  | emptyFloat
  | invalidFloat
  deriving DecidableEq, Repr

def LiteralError.message : LiteralError → String
  | emptyInteger => "cannot parse integer from empty string"
  | invalidDigit => "invalid digit found in string"
  | tooLarge => "number too large to fit in target type"
  | emptyFloat => "cannot parse float from empty string"
  | invalidFloat => "invalid float literal"

def isDigit (c : Char) : Bool :=
  48 ≤ c.toNat && c.toNat ≤ 57

/-- The number a run of digits denotes. -/
def digitsValue (digits : List Char) : Nat :=
  digits.foldl (fun n c => 10 * n + (c.toNat - 48)) 0

/-! ## Counts -/

/-- Reads the digits of a count from the left; the first thing that goes wrong is reported. -/
def readDigits (limit : Nat) : Nat → List Char → Except LiteralError Nat
  | n, [] => .ok n
  | n, c :: rest =>
    if !isDigit c then .error .invalidDigit
    else
      let next := 10 * n + (c.toNat - 48)
      if next < limit then readDigits limit next rest else .error .tooLarge

/-- Reads a count below `limit`. -/
def readCount (limit : Nat) (text : List Char) : Except LiteralError Nat :=
  match text with
  | [] => .error .emptyInteger
  | ['+'] => .error .invalidDigit
  | '+' :: digits => readDigits limit 0 digits
  | digits => readDigits limit 0 digits

/-! ## Floating-point literals -/

/-- The number that a floating-point literal denotes, before rounding. -/
inductive Literal where
  | notANumber (negative : Bool)
  | infinite (negative : Bool)
  /-- `mantissa * 10 ^ exponent` -/
  | finite (negative : Bool) (mantissa : Nat) (exponent : Int)

/-- An optional sign; tells whether it is a minus. -/
def splitSign : List Char → Bool × List Char
  | '-' :: rest => (true, rest)
  | '+' :: rest => (false, rest)
  | text => (false, text)

/-- The exponent part of a literal, which may be missing. -/
def readExponent? : List Char → Option Int
  | [] => some 0
  | c :: rest =>
    if c == 'e' || c == 'E' then
      let (negative, digits) := splitSign rest
      if digits.isEmpty || !digits.all isDigit then none
      else
        let n : Int := digitsValue digits
        some (if negative then -n else n)
    else none

/-- Digits, point and exponent. -/
def readUnsigned? (text : List Char) : Option (Nat × Int) :=
  let whole := text.takeWhile isDigit
  let rest := text.dropWhile isDigit
  let (fraction, rest) := match rest with
    | '.' :: tail => (tail.takeWhile isDigit, tail.dropWhile isDigit)
    | rest => ([], rest)
  if whole.isEmpty && fraction.isEmpty then none
  else do
    let exponent ← readExponent? rest
    return (digitsValue (whole ++ fraction), exponent - fraction.length)

/-- Reads a floating-point literal. -/
def readLiteral? (text : List Char) : Option Literal :=
  let (negative, body) := splitSign text
  let lower := body.map Char.toLower
  if lower == "inf".toList || lower == "infinity".toList then some (.infinite negative)
  else if lower == "nan".toList then some (.notANumber negative)
  else do
    let (mantissa, exponent) ← readUnsigned? body
    return .finite negative mantissa exponent

/-- The bits of the nearest number of a format. Literals far outside its range are infinite or
zero without any long computation. -/
def Literal.toBits (f : Format) : Literal → Nat
  | notANumber negative => (if negative then f.signBit else 0) + f.nanBits
  | infinite negative => (if negative then f.signBit else 0) + f.infinityBits
  | finite negative mantissa exponent =>
    let magnitude : Int := (toString mantissa).length + exponent
    let bits :=
      if mantissa == 0 || magnitude < -400 then 0
      else if 400 < magnitude then f.infinityBits
      else match exponent with
        | .ofNat k => nearestBits f (mantissa * Nat.pow 10 k) 1
        | .negSucc k => nearestBits f mantissa (Nat.pow 10 (k + 1))
    (if negative then f.signBit else 0) + bits

end Substrate.Decimal
