import Substrate.Decimal.Shortest
import Substrate.Space
import Substrate.Text.Utf8

/-!
# Reading and writing objects

Access to objects by value: their kind, their fields and their raw payload words, and the readers
built on these. No access leaves the object it is given. In a debug build an access that the
object does not support is a broken contract; a release build reads zero and writes nothing.
-/

namespace Substrate.Space

/-! ## Kinds of values -/

/-- The kind of a value. -/
def kindOf (s : Space) (v : Value) : Kind :=
  if v.isHeapRef then v.kindWith (s.header v.address).kind else v.kindWith .invalid

/-- Whether a value is of a kind. -/
def isKind (s : Space) (v : Value) (kind : Kind) : Bool :=
  if kind.isHeap then v.isHeapRef && s.kindOf v == kind else s.kindOf v == kind

/-- The payload of an immediate, zero for an object. -/
def immediateBits (s : Space) (v : Value) : Word :=
  v.payload (s.kindOf v)

/-! ## Fields -/

/-- The payload word of a field, or nothing if the access would leave the object. -/
def locate (mode : Mode) (s : Space) (v : Value) (field : Field) : Except Fault (Option Nat) := do
  if !v.isHeapRef then
    mode.violation (field.title ++ " of non-heap value " ++ Text.hex v.address)
    return none
  let header := s.header v.address
  let word ← field.word mode
  if header.kind != field.kind then
    mode.violation (field.title ++ " of a " ++ header.kind.name)
  if header.words ≤ word then
    mode.violation (field.title ++ " is outside of a " ++ header.kind.name)
    return none
  return some word

def fieldGet (mode : Mode) (s : Space) (v : Value) (field : Field) : Except Fault Value := do
  match ← s.locate mode v field with
  | some word => return ⟨s.word v.address word⟩
  | none => return .empty

def fieldSet (mode : Mode) (v : Value) (field : Field) (value : Value) : Run Space Unit := fun s =>
  match s.locate mode v field with
  | .error fault => .error fault s
  | .ok none => .ok () s
  | .ok (some word) => .ok () (s.setWord v.address word value.bits)

/-! ## Raw payload words -/

/-- Checks that a value is an object of a kind with a payload word `index`. -/
def checkWord (mode : Mode) (s : Space) (v : Value) (kind : Kind) (index : Nat) :
    Except Fault Bool := do
  mode.assertWith (s.isKind v kind) ("expected " ++ kind.name ++ ", got " ++ (s.kindOf v).title)
  if (s.header v.address).words ≤ index then
    mode.violation ("word " ++ toString index ++ " outside of a " ++ kind.name)
    return false
  return true

/-- The payload word `index` of an object of a kind. -/
def rawWord (mode : Mode) (s : Space) (v : Value) (kind : Kind) (index : Nat) :
    Except Fault Word := do
  if ← s.checkWord mode v kind index then return s.word v.address index else return 0

def setRawWord (mode : Mode) (v : Value) (kind : Kind) (index : Nat) (bits : Word) :
    Run Space Unit := fun s =>
  match s.checkWord mode v kind index with
  | .error fault => .error fault s
  | .ok false => .ok () s
  | .ok true => .ok () (s.setWord v.address index bits)

/-! ## Vectors -/

def vectorLength (mode : Mode) (s : Space) (v : Value) : Except Fault Nat :=
  (·.toNat) <$> s.rawWord mode v .vector At.vectorLength

/-- Whether the vector has an element `index`. -/
def checkIndex (mode : Mode) (s : Space) (v : Value) (index : Nat) : Except Fault Bool := do
  if (← s.vectorLength mode v) ≤ index then
    mode.violation ("index " ++ toString index ++ " out of bounds")
    return false
  return true

def vectorRef (mode : Mode) (s : Space) (v : Value) (index : Nat) : Except Fault Value := do
  if ← s.checkIndex mode v index then s.fieldGet mode v (.vectorElt index) else return .empty

def vectorSet (mode : Mode) (v : Value) (index : Nat) (value : Value) : Run Space Unit := fun s =>
  match s.checkIndex mode v index with
  | .error fault => .error fault s
  | .ok false => .ok () s
  | .ok true => fieldSet mode v (.vectorElt index) value s

/-! ## Strings -/

def stringLength (mode : Mode) (s : Space) (v : Value) : Except Fault Nat :=
  (·.toNat) <$> s.rawWord mode v .string At.stringLength

/-- The eight bytes of a word, the lowest first. -/
def wordToBytes (bits : Word) : List UInt8 :=
  [bits.toUInt8, (bits >>> 8).toUInt8, (bits >>> 16).toUInt8, (bits >>> 24).toUInt8,
    (bits >>> 32).toUInt8, (bits >>> 40).toUInt8, (bits >>> 48).toUInt8, (bits >>> 56).toUInt8]

/-- The first `count` bytes of the payload words from `index` on. -/
def bytesFrom (s : Space) (address index count : Nat) : List UInt8 :=
  let words := (count + wordBytes - 1) / wordBytes
  match s.cell? address with
  | some cell =>
    ((List.range words).flatMap fun i => wordToBytes (cell.word (index + i))).take count
  | none => []

/-- The bytes of a string, never more than its payload has. -/
def stringBytes (mode : Mode) (s : Space) (v : Value) : Except Fault (List UInt8) := do
  if !s.isKind v .string then
    mode.violation ((s.kindOf v).title ++ " is not a string")
    return []
  let capacity := ((s.header v.address).words - 1) * wordBytes
  let length ← s.stringLength mode v
  if capacity < length then
    mode.violation
      ("string length " ++ toString length ++ " exceeds " ++ toString capacity ++ " bytes")
  return s.bytesFrom v.address At.stringBytes (min length capacity)

/-- The contents of a string; bytes that are no characters are replaced. -/
def stringText (mode : Mode) (s : Space) (v : Value) : Except Fault String :=
  Text.ofUtf8 <$> s.stringBytes mode v

/-! ## Numbers -/

/-- The bits of a double float. -/
def doubleBits (mode : Mode) (s : Space) (v : Value) : Except Fault Word := do
  mode.assert (s.isKind v .doubleFloat) "double.is_kind(Kind::DoubleFloat)"
  return s.word v.address 0

def bignumNegative (mode : Mode) (s : Space) (v : Value) : Except Fault Bool :=
  (· != 0) <$> s.rawWord mode v .bignum At.bignumSign

/-- The limbs `index`, `index + 1`, … of a bignum; `seen` are those before, the last one first. -/
def limbsFrom (mode : Mode) (s : Space) (v : Value) (seen : List Word) :
    Nat → Nat → Except Fault (List Word)
  | 0, _ => .ok seen.reverse
  | count + 1, index => do
    let limb ← s.rawWord mode v .bignum (At.bignumLimbs + index)
    limbsFrom mode s v (limb :: seen) count (index + 1)

/-- The magnitude of a bignum, least significant limb first. The length word alone says how many
limbs there are; no list holds `2 ^ 60` of them. -/
def bignumLimbs (mode : Mode) (s : Space) (v : Value) : Except Fault (List Word) := do
  let length ← (·.toNat) <$> s.rawWord mode v .bignum At.bignumLength
  if 0x1000000000000000 ≤ length then .error (.panic "capacity overflow")
  else s.limbsFrom mode v [] length 0

/-! ## Symbols, structures, streams and foreign references -/

def symbolBindingIndex (mode : Mode) (s : Space) (v : Value) : Except Fault Nat :=
  (·.toNat) <$> s.rawWord mode v .symbol At.symbolBindingIndex

def symbolFlags (mode : Mode) (s : Space) (v : Value) : Except Fault Word :=
  s.rawWord mode v .symbol At.symbolFlags

def structureLength (mode : Mode) (s : Space) (v : Value) : Except Fault Nat :=
  (·.toNat) <$> s.rawWord mode v .record At.recordLength

def foreignAddress (mode : Mode) (s : Space) (v : Value) : Except Fault Word :=
  s.rawWord mode v .foreign At.foreignAddress

def foreignSize (mode : Mode) (s : Space) (v : Value) : Except Fault Word :=
  s.rawWord mode v .foreign At.foreignSize

end Substrate.Space

namespace Substrate

/-- Direction of a stream. -/
inductive StreamMode where
  | input
  | output
  | io
  deriving DecidableEq, Repr

namespace StreamMode

def code : StreamMode → Word
  | input => 1
  | output => 2
  | io => 3

def ofCode? (n : Word) : Option StreamMode :=
  if n == 1 then some input else if n == 2 then some output else if n == 3 then some io else none

end StreamMode

namespace Space

def streamMode (mode : Mode) (s : Space) (v : Value) : Except Fault (Option StreamMode) :=
  StreamMode.ofCode? <$> s.rawWord mode v .stream At.streamMode

def streamPosition (mode : Mode) (s : Space) (v : Value) : Except Fault Word :=
  s.rawWord mode v .stream At.streamPosition

def streamHandle (mode : Mode) (s : Space) (v : Value) : Except Fault Word :=
  s.rawWord mode v .stream At.streamHandle

/-! ## Lists -/

/-- The elements of a list of at most `fuel` conses; `seen` are those before, the last one first. -/
def listFrom (mode : Mode) (s : Space) (seen : List Value) : Nat → Value → Except Fault (List Value)
  | 0, _ => .ok seen.reverse
  | fuel + 1, list =>
    if s.isKind list .cons then do
      let car ← s.fieldGet mode list .car
      let cdr ← s.fieldGet mode list .cdr
      listFrom mode s (car :: seen) fuel cdr
    else .ok seen.reverse

/-- The elements of a proper list. A list without a cycle has no more conses than the space. -/
def listElements (mode : Mode) (s : Space) (list : Value) : Except Fault (List Value) :=
  s.listFrom mode [] s.capacity list

/-! ## Showing values -/

/-- An object that is only shown by its kind. Addresses are not shown. -/
def shownAddress (kind : Kind) : String :=
  "#<" ++ kind.name ++ " 0x?>"

/-- The text of a value in messages. -/
def render (mode : Mode) (s : Space) (v : Value) : Except Fault String :=
  match s.kindOf v with
  | .empty => .ok "#<empty>"
  | .fixnum => .ok (toString v.toInt)
  | .character => .ok ("#\\" ++ (Char.ofNat v.codePoint).toString)
  | .singleFloat => .ok (Decimal.render .single .literal v.floatBits ++ "f0")
  | .constant =>
    .ok <|
      if v == .nil then "nil"
      else if v == .t then "t"
      else if v == .eof then "#<eof>"
      else if v == .unbound then "#<unbound>"
      else "#<constant " ++ toString (s.immediateBits v).toNat ++ ">"
  | .symbol => do
    let name ← s.fieldGet mode v .symbolName
    if s.isKind name .string then s.stringText mode name else return shownAddress .symbol
  | .string => Text.quoted <$> s.stringText mode v
  | .doubleFloat => do
    return Decimal.render .double .literal (← s.doubleBits mode v).toNat ++ "d0"
  | kind => .ok (shownAddress kind)

end Space

end Substrate
