import Substrate.Decimal.Binary

/-!
# The shortest decimal of a floating-point number

A number is written with the fewest digits that read back as the same number; of two such
decimals with the same number of digits the nearer one is taken. `Style` says how the digits are
laid out around the decimal point.
-/

namespace Substrate.Decimal

/-- A positive decimal: `digits * 10 ^ exponent`. -/
structure Digits where
  digits : Nat
  exponent : Int

/-- The real numbers that read back as a given one, as multiples of a common unit: everything
between `low` and `high`, the ends included when `closed`. -/
structure Interval where
  value : Nat
  low : Nat
  high : Nat
  closed : Bool

namespace Interval

/-- The numbers nearest to `m * 2 ^ q`, in units of `2 ^ (q - 2)`. -/
def around (m : Nat) (evenEdge : Bool) : Interval :=
  ⟨4 * m, 4 * m - (if evenEdge then 1 else 2), 4 * m + 2, m % 2 == 0⟩

def contains (i : Interval) (x : Nat) : Bool :=
  (i.low < x && x < i.high) || (i.closed && (x == i.low || x == i.high))

def scale (i : Interval) (factor : Nat) : Interval :=
  ⟨i.value * factor, i.low * factor, i.high * factor, i.closed⟩

end Interval

/-- A multiple of `step` inside the interval: one of the two next to the value, the nearer one if
both are inside. -/
def gridPoint? (i : Interval) (step : Nat) : Option Nat :=
  let below := i.value / step
  let inBelow := i.contains (below * step)
  let inAbove := i.contains ((below + 1) * step)
  if inBelow && inAbove then
    if i.value - below * step < (below + 1) * step - i.value then some below else some (below + 1)
  else if inBelow then some below
  else if inAbove then some (below + 1)
  else none

/-- Tries ever finer powers of ten, from `10 ^ exponent` down. -/
def shortestFrom (i : Interval) (one : Nat) : Nat → Int → Digits
  | 0, exponent => ⟨i.value / one, exponent⟩
  | fuel + 1, exponent =>
    let (i', step) := match exponent with
      | .ofNat k => (i, one * Nat.pow 10 k)
      | .negSucc k => (i.scale (Nat.pow 10 (k + 1)), one)
    match gridPoint? i' step with
    | some d => if d == 0 then shortestFrom i one fuel (exponent - 1) else ⟨d, exponent⟩
    | none => shortestFrom i one fuel (exponent - 1)

/-- The shortest decimal that reads back as `m * 2 ^ q`, for positive `m`. -/
def shortest (m : Nat) (q : Int) (evenEdge : Bool) : Digits :=
  let unit := q - 2
  let (i, one) := match unit with
    | .ofNat k => ((Interval.around m evenEdge).scale (Nat.pow 2 k), 1)
    | .negSucc k => (Interval.around m evenEdge, Nat.pow 2 (k + 1))
  -- Start with a power of ten above the value: thirty digits per hundred bits and one to spare.
  let bits : Int := m.log2 + 1 + q
  let top : Int := if 0 ≤ bits then bits * 31 / 100 + 1 else bits * 30 / 100 + 1
  shortestFrom i one 1200 top

/-- How digits are laid out. -/
structure Style where
  /-- Whether a number that is whole is written with `.0`. -/
  pointed : Bool
  /-- Whether numbers far from one are written with an exponent. -/
  exponential : Bool

/-- Plain digits, whatever the size. -/
def Style.plain : Style := ⟨false, false⟩

/-- The form for values in a program text: always with a point or an exponent. -/
def Style.literal : Style := ⟨true, true⟩

/-- Drops factors of ten. -/
def stripZeros : Nat → Digits → Digits
  | 0, d => d
  | fuel + 1, d =>
    if d.digits != 0 && d.digits % 10 == 0 then stripZeros fuel ⟨d.digits / 10, d.exponent + 1⟩
    else d

def zeros (n : Nat) : String :=
  String.ofList (List.replicate n '0')

/-- Writes a positive decimal. The point falls `point` digits behind the start of the digits. -/
def Digits.render (d : Digits) (style : Style) : String :=
  let d := stripZeros 40 d
  let text := toString d.digits
  let count := text.length
  let point : Int := count + d.exponent
  if style.exponential && (point < -3 || 16 < point) then
    let first := String.ofList (text.toList.take 1)
    let rest := String.ofList (text.toList.drop 1)
    first ++ (if rest.isEmpty then "" else "." ++ rest) ++ "e" ++ toString (point - 1)
  else if point ≤ 0 then
    "0." ++ zeros (-point).toNat ++ text
  else if (count : Int) ≤ point then
    text ++ zeros (point.toNat - count) ++ (if style.pointed then ".0" else "")
  else
    String.ofList (text.toList.take point.toNat) ++ "." ++
      String.ofList (text.toList.drop point.toNat)

/-- Writes the number with the given bits. -/
def render (f : Format) (style : Style) (bits : Nat) : String :=
  match Parts.ofBits f bits with
  | .notANumber => "NaN"
  | .infinite negative => if negative then "-inf" else "inf"
  | .finite negative m q evenEdge =>
    let sign := if negative then "-" else ""
    if m == 0 then sign ++ "0" ++ (if style.pointed then ".0" else "")
    else sign ++ (shortest m q evenEdge).render style

end Substrate.Decimal
