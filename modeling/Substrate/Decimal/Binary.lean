/-!
# Binary floating-point numbers as ratios

A finite number of a binary format is `m * 2 ^ q` for natural `m` and an integer `q`. This module
takes the bits of a number apart and finds the bits of the number nearest to a ratio, halves going
to the even neighbour.
-/

namespace Substrate.Decimal

/-- A binary format: how many bits the fraction and the exponent have. -/
structure Format where
  fractionBits : Nat
  exponentBits : Nat

namespace Format

/-- Eight bytes. -/
def double : Format := ⟨52, 11⟩

/-- Four bytes. -/
def single : Format := ⟨23, 8⟩

/-- The exponent of the last place of the smallest numbers. -/
def least (f : Format) : Int :=
  2 - Nat.pow 2 (f.exponentBits - 1) - f.fractionBits

/-- The exponent field of infinities and of what is not a number. -/
def topExponent (f : Format) : Nat :=
  Nat.pow 2 f.exponentBits - 1

def infinityBits (f : Format) : Nat :=
  f.topExponent * Nat.pow 2 f.fractionBits

def signBit (f : Format) : Nat :=
  Nat.pow 2 (f.fractionBits + f.exponentBits)

/-- The bits that stand for "not a number". -/
def nanBits (f : Format) : Nat :=
  f.infinityBits + Nat.pow 2 (f.fractionBits - 1)

end Format

/-- What the bits of a number say. -/
inductive Parts where
  | notANumber
  | infinite (negative : Bool)
  /-- `m * 2 ^ q`, where `evenEdge` tells that the next smaller number is half as far away as the
  next larger one. -/
  | finite (negative : Bool) (m : Nat) (q : Int) (evenEdge : Bool)

/-- Takes the bits of a number apart. -/
def Parts.ofBits (f : Format) (bits : Nat) : Parts :=
  let negative := bits / f.signBit % 2 == 1
  let exponent := bits / Nat.pow 2 f.fractionBits % Nat.pow 2 f.exponentBits
  let fraction := bits % Nat.pow 2 f.fractionBits
  if exponent == f.topExponent then
    if fraction == 0 then .infinite negative else .notANumber
  else if exponent == 0 then
    .finite negative fraction f.least false
  else
    .finite negative (Nat.pow 2 f.fractionBits + fraction) (f.least + (exponent - 1 : Nat))
      (fraction == 0 && 1 < exponent)

/-- The quotient rounded to the nearest natural number, a half to the even neighbour. -/
def roundDiv (numerator denominator : Nat) : Nat :=
  let quotient := numerator / denominator
  let twice := 2 * (numerator % denominator)
  if denominator < twice || (twice == denominator && quotient % 2 == 1) then quotient + 1
  else quotient

/-- The quotient of `numerator / denominator` by `2 ^ q`, as a ratio. -/
def scaled (numerator denominator : Nat) (q : Int) : Nat × Nat :=
  match q with
  | .ofNat k => (numerator, denominator * Nat.pow 2 k)
  | .negSucc k => (numerator * Nat.pow 2 (k + 1), denominator)

/-- The bits of the non-negative number nearest to a ratio. -/
def nearestBits (f : Format) (numerator denominator : Nat) : Nat :=
  if numerator == 0 then 0
  else
    -- The last place of the result is `2 ^ q`, or twice that after rounding up.
    let estimate : Int := numerator.log2 - denominator.log2 - f.fractionBits
    let (n, d) := scaled numerator denominator estimate
    let exact := if n < d * Nat.pow 2 f.fractionBits then estimate - 1 else estimate
    let q := max exact f.least
    let (n, d) := scaled numerator denominator q
    let m := roundDiv n d
    let exponent := (q - f.least).toNat
    -- A carry out of the fraction runs into the exponent field, which is where it belongs.
    let bits := exponent * Nat.pow 2 f.fractionBits + m
    if f.infinityBits ≤ bits then f.infinityBits else bits

end Substrate.Decimal
