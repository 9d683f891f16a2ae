import Substrate.Decimal.Literal
import Substrate.Decimal.Shortest
import Substrate.Fault

/-!
# Doubles

Floating-point numbers of eight bytes, by their bits, with the few operations that sizes and growth
factors need. All of them are exact up to the rounding that the format prescribes.
-/

namespace Substrate

/-- A floating-point number of eight bytes. -/
structure Double where
  bits : Nat
  deriving DecidableEq, Repr, Inhabited

namespace Decimal

/-- The nearest number with at most 53 significant bits, a half going to the even neighbour. -/
def toDoublePrecision (n : Nat) : Nat :=
  if n < 0x20000000000000 then n
  else
    let unit := Nat.pow 2 (n.log2 - 52)
    roundDiv n unit * unit

end Decimal

namespace Double

def ofLiteral (literal : Decimal.Literal) : Double :=
  ⟨literal.toBits .double⟩

/-- Two. -/
def two : Double := ⟨0x4000000000000000⟩

def parts (x : Double) : Decimal.Parts := .ofBits .double x.bits

def isNaN (x : Double) : Bool :=
  match x.parts with
  | .notANumber => true
  | _ => false

/-- Whether the number is below zero; minus zero is not. -/
def isNegative (x : Double) : Bool :=
  match x.parts with
  | .notANumber => false
  | .infinite negative => negative
  | .finite negative m _ _ => negative && m != 0

/-- Whether the number is one or more. -/
def isAtLeastOne (x : Double) : Bool :=
  match x.parts with
  | .notANumber => false
  | .infinite negative => !negative
  | .finite negative m q _ =>
    !negative &&
      match q with
      | .ofNat k => 1 ≤ m * Nat.pow 2 k
      | .negSucc k => Nat.pow 2 (k + 1) ≤ m

/-- The product with a natural number, cut off to a natural number of one word: zero for what is
negative or not a number, the greatest word for what is too large. -/
def times (x : Double) (n : Nat) : Nat :=
  match x.parts with
  | .notANumber => 0
  | .infinite negative => if negative || n == 0 then 0 else wordLimit - 1
  | .finite negative m q _ =>
    if negative then 0
    else
      let product := Decimal.toDoublePrecision (Decimal.toDoublePrecision n * m)
      match q with
      | .ofNat k =>
        if product == 0 then 0
        else if 64 ≤ k then wordLimit - 1
        else min (product * Nat.pow 2 k) (wordLimit - 1)
      | .negSucc k => min (product / Nat.pow 2 (k + 1)) (wordLimit - 1)

/-- All digits of the number, without an exponent. -/
def render (x : Double) : String :=
  Decimal.render .double .plain x.bits

/-- Reads a floating-point literal. -/
def read? (text : List Char) : Option Double :=
  (Decimal.readLiteral? text).map ofLiteral

/-- Reads a floating-point literal, with the cause of a failure. -/
def read (text : List Char) : Except Decimal.LiteralError Double :=
  match read? text with
  | some x => .ok x
  | none => .error (if text.isEmpty then .emptyFloat else .invalidFloat)

end Double

end Substrate
