import Substrate.Fault

/-!
# Alignment and rounding

Alignments are meant to be powers of two, but nothing here depends on it: rounding down clears
the bits below the alignment, whatever it is.
-/

namespace Substrate

/-- Bytes in a machine word. -/
abbrev wordBytes : Nat := 8

def isPowerOfTwo (x : Nat) : Bool :=
  x != 0 && (x &&& (x - 1)) == 0

/-- Whether `x` lies `offset` bytes behind a multiple of `alignment`. -/
def isAligned (mode : Mode) (x alignment offset : Nat) : Except Fault Bool := do
  mode.assert (isPowerOfTwo alignment) "is_power_of_two(alignment)"
  mode.assert (offset < alignment) "offset < alignment"
  let mask ← mode.sub alignment 1
  return (x &&& mask) == offset

/-- Clears the bits of `x` that `alignment - 1` has. -/
def roundDown (x alignment : Nat) : Nat :=
  x &&& (wordLimit - 1 - wrappingSub alignment 1)

/-- The least address at or above `x` that lies `offset` bytes before a multiple of `alignment`. -/
def roundUp (mode : Mode) (x alignment offset : Nat) : Except Fault Nat := do
  mode.assert (offset < alignment) "offset < alignment"
  let raised ← mode.add x alignment
  let raised ← mode.sub raised 1
  let raised ← mode.add raised offset
  mode.sub (roundDown raised alignment) offset

/-- Words needed for `bytes` bytes. -/
def wordsFor (mode : Mode) (bytes : Nat) : Except Fault Nat := do
  let raised ← mode.add bytes wordBytes
  return (← mode.sub raised 1) / wordBytes

end Substrate
