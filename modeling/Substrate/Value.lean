import Substrate.Fault
import Substrate.Kind

/-!
# Tagged values

A value is one word. Its low bits tell how to read the rest:

* an odd word is a fixnum, the number in the upper 63 bits;
* `010` a character, `100` a constant, each with its number in the upper 61 bits;
* `110` a single float, with its bits in the upper half;
* `000` the address of an object, except that the zero word is the empty value.

Objects are aligned to eight bytes, so that no address looks like an immediate.
-/

namespace Substrate

/-- A machine word as it is stored. -/
abbrev Word : Type := UInt64

/-- A tagged word. -/
structure Value where
  bits : Word
  deriving DecidableEq, Repr, Inhabited

namespace Value

/-- What a zeroed slot holds. -/
def empty : Value := ⟨0⟩

/-- The constant with the given number. -/
def constant (n : Word) : Value := ⟨(n <<< 3) ||| 4⟩

def nil : Value := constant 0

def t : Value := constant 1

def eof : Value := constant 2

def unbound : Value := constant 3

def ofBool (b : Bool) : Value := if b then t else nil

/-- The value that refers to the object at an address. -/
def ofAddress (address : Nat) : Value := ⟨UInt64.ofNat address⟩

/-- The address a reference holds. -/
def address (v : Value) : Nat := v.bits.toNat

/-! ## Encoding -/

/-- Encodes an immediate of a kind from its payload. Bits that do not fit are lost. -/
def ofImmediate (mode : Mode) (kind : Kind) (bits : Word) : Except Fault Value :=
  match kind with
  | .empty => .ok empty
  | .fixnum => .ok ⟨(bits <<< 1) ||| 1⟩
  | .character => .ok ⟨(bits <<< 3) ||| 2⟩
  | .constant => .ok ⟨(bits <<< 3) ||| 4⟩
  | .singleFloat => .ok ⟨((bits &&& 0xffffffff) <<< 32) ||| 6⟩
  | kind => do
    mode.violation (kind.name ++ " is not an immediate kind")
    return empty

/-- The greatest fixnum. -/
def mostPositive : Int := 4611686018427387903

/-- The least fixnum. -/
def mostNegative : Int := -4611686018427387904

def fitsFixnum (n : Int) : Bool :=
  mostNegative ≤ n && n ≤ mostPositive

/-- The word of an integer in two's complement. -/
def wordOfInt (n : Int) : Word := UInt64.ofInt n

/-- The fixnum of a number that is known to be in range. -/
def ofInt (n : Int) : Value := ⟨(wordOfInt n <<< 1) ||| 1⟩

/-- The fixnum of any number of one word: out of range only a release build goes on. -/
def fixnum (mode : Mode) (n : Int) : Except Fault Value := do
  mode.assertWith (fitsFixnum n) (toString n ++ " is out of fixnum range")
  return ofInt n

/-! ## Recognising representations -/

def isEmpty (v : Value) : Bool := v.bits == 0

def isFixnum (v : Value) : Bool := v.bits &&& 1 != 0

def isHeapRef (v : Value) : Bool := v.bits != 0 && v.bits &&& 7 == 0

def isCharacter (v : Value) : Bool := v.bits &&& 7 == 2

def isConstant (v : Value) : Bool := v.bits &&& 7 == 4

def isSingleFloat (v : Value) : Bool := v.bits &&& 7 == 6

def isNil (v : Value) : Bool := v == nil

def isTrue (v : Value) : Bool := v != nil

/-- The kind of a value, given the kind in the header of the object it refers to. -/
def kindWith (v : Value) (header : Kind) : Kind :=
  if v.bits &&& 1 != 0 then .fixnum
  else if v.bits &&& 7 == 0 then if v.bits == 0 then .empty else header
  else if v.bits &&& 7 == 2 then .character
  else if v.bits &&& 7 == 4 then .constant
  else .singleFloat

/-! ## Decoding -/

/-- The number of a fixnum. -/
def toInt (v : Value) : Int := (v.bits.toInt64 >>> 1).toInt

/-- The code point of a character, the replacement character where there is none. -/
def codePoint (v : Value) : Nat :=
  let n := (v.bits >>> 3).toNat % 0x100000000
  if n < 0xd800 || (0xdfff < n && n < 0x110000) then n else 0xfffd

/-- The bits of a single float. -/
def floatBits (v : Value) : Nat := (v.bits >>> 32).toNat

def getFixnum (mode : Mode) (v : Value) : Except Fault Int := do
  mode.assert v.isFixnum "self.is_fixnum()"
  return v.toInt

/-- The address of the object that a value refers to; a debug build makes sure that it refers to
one. -/
def objectAddress (mode : Mode) (v : Value) : Except Fault Nat := do
  mode.assert v.isHeapRef "self.is_heap_ref()"
  return v.address

def getCharacter (mode : Mode) (v : Value) : Except Fault Nat := do
  mode.assert v.isCharacter "self.is_character()"
  return v.codePoint

def getSingleFloat (mode : Mode) (v : Value) : Except Fault Nat := do
  mode.assert v.isSingleFloat "self.is_single_float()"
  return v.floatBits

/-- The payload of an immediate of the given kind, zero for anything else. -/
def payload (v : Value) (kind : Kind) : Word :=
  match kind with
  | .fixnum => wordOfInt v.toInt
  | .character | .constant => v.bits >>> 3
  | .singleFloat => v.bits >>> 32
  | _ => 0

end Value

/-! ## Tag layouts -/

/-- How values are laid out on machines of a given word size. -/
structure TagConfig where
  wordBits : Nat
  tagBits : Nat
  /-- Every object address is a multiple of this. -/
  granule : Nat
  fixnumBits : Nat
  immediateSingleFloat : Bool
  deriving DecidableEq, Repr

namespace TagConfig

/-- The layout for a word size, which is itself a number of 32 bits. -/
def forWordBits (mode : Mode) (wordBits : Nat) : Except Fault TagConfig := do
  let fixnumBits ← match wordBits with
    | 0 => mode.overflow "subtract" 0xffffffff
    | n + 1 => pure n
  return ⟨wordBits, 3, 8, fixnumBits, 64 ≤ wordBits⟩

/-- The layout that `Value` uses. -/
def native : TagConfig := ⟨64, 3, 8, 63, true⟩

def tagMask (config : TagConfig) : Nat := Nat.pow 2 config.tagBits - 1

/-- The weight of the sign bit of a fixnum, as a signed word. -/
def signWeight (mode : Mode) (config : TagConfig) : Except Fault Int := do
  let shift ← match config.fixnumBits with
    | 0 => mode.overflow "subtract" 0xffffffff
    | n + 1 => pure n
  let shift ← if shift < 64 then pure shift else mode.overflow "shift left" (shift % 64)
  return if shift = 63 then -0x8000000000000000 else Int.ofNat (Nat.pow 2 shift)

def mostPositiveFixnum (mode : Mode) (config : TagConfig) : Except Fault Int := do
  let weight ← config.signWeight mode
  if weight = -0x8000000000000000 then
    match mode with
    | .debug => .error (.panic "attempt to subtract with overflow")
    | .release => .ok 0x7fffffffffffffff
  else .ok (weight - 1)

def mostNegativeFixnum (mode : Mode) (config : TagConfig) : Except Fault Int := do
  let weight ← config.signWeight mode
  if weight = -0x8000000000000000 then
    match mode with
    | .debug => .error (.panic "attempt to negate with overflow")
    | .release => .ok (-0x8000000000000000)
  else .ok (-weight)

end TagConfig

end Substrate
