import Substrate.Machine.Collect

/-!
# Constructors

One entry point per kind of object. Each allocates, which may collect, and then fills in the parts
it was given; nothing but the machine's roots keeps these parts alive in between.
-/

namespace Substrate.Machine

variable {γ : Type}

def setField (object : Value) (field : Field) (value : Value) : Op γ Unit :=
  onSpace fun mode => Space.fieldSet mode object field value

def setRaw (object : Value) (kind : Kind) (index : Nat) (bits : Word) : Op γ Unit :=
  onSpace fun mode => Space.setRawWord mode object kind index bits

/-- Payload words of an object of a kind whose tail has `length` items. -/
def payloadFor (kind : Kind) (length : Nat) : Op γ Nat := do
  ofExcept ((Layout.of kind).payloadWords (← get).mode length)

/-! ## Lists -/

def cons (car cdr : Value) : Op γ Value := do
  let cons ← allocateWords .cons 2
  setField cons .car car
  setField cons .cdr cdr
  return cons

/-- Conses the elements, given the last one first, in front of a list. -/
def consAll : List Value → Value → Op γ Value
  | [], list => pure list
  | element :: rest, list => fun m =>
    match cons element list m with
    | .ok list m => consAll rest list m
    | .error fault m => .error fault m

/-- A proper list, built from its last element. -/
def list (elements : List Value) : Op γ Value :=
  consAll elements.reverse .nil

/-! ## Vectors -/

/-- Writes the same word into `count` payload words from `index` on. -/
def fillWords (address : Nat) (bits : Word) : Nat → Nat → Space → Space
  | 0, _, s => s
  | count + 1, index, s => fillWords address bits count (index + 1) (s.setWord address index bits)

/-- A vector of `length` elements. What the elements of an empty fill hold is already there. The
vector itself may be gone before it is filled: what is written stays within the object that is there
then. -/
def makeVector (length : Nat) (fill : Value) : Op γ Value := do
  let vector ← allocateWords .vector (← payloadFor .vector length)
  setRaw vector .vector At.vectorLength (UInt64.ofNat length)
  if fill != .empty then
    match length with
    | 0 => pure ()
    | _ + 1 =>
      onSpace fun mode => Space.vectorSet mode vector 0 fill
      let words := ((← get).heap.space.header vector.address).words
      onSpace fun _ => modify (fillWords vector.address fill.bits (min length (words - 1)) 1)
  return vector

/-- Stores the values into the elements from `index` on. -/
def setElements (vector : Value) : Nat → List Value → Op γ Unit
  | _, [] => pure ()
  | index, value :: rest => do
    onSpace fun mode => Space.vectorSet mode vector index value
    setElements vector (index + 1) rest

/-! ## Numbers -/

/-- A double float by its bits. -/
def makeDouble (bits : Word) : Op γ Value := do
  let double ← allocateWords .doubleFloat (Layout.of .doubleFloat).fixedWords
  onSpace fun _ => modify (·.setWord double.address 0 bits)
  return double

/-- Stores the limbs from `index` on. -/
def setLimbs (bignum : Value) : Nat → List Word → Op γ Unit
  | _, [] => pure ()
  | index, limb :: rest => do
    setRaw bignum .bignum (At.bignumLimbs + index) limb
    setLimbs bignum (index + 1) rest

/-- A bignum from its sign and its magnitude, least significant limb first. -/
def makeBignum (negative : Bool) (limbs : List Word) : Op γ Value := do
  let bignum ← allocateWords .bignum (← payloadFor .bignum limbs.length)
  setRaw bignum .bignum At.bignumSign (if negative then 1 else 0)
  setRaw bignum .bignum At.bignumLength (UInt64.ofNat limbs.length)
  setLimbs bignum 0 limbs
  return bignum

def makeRatio (numerator denominator : Value) : Op γ Value := do
  let ratio ← allocateWords .ratio 2
  setField ratio .ratioNumerator numerator
  setField ratio .ratioDenominator denominator
  return ratio

def makeComplex (real imag : Value) : Op γ Value := do
  let complex ← allocateWords .complex 2
  setField complex .complexReal real
  setField complex .complexImag imag
  return complex

/-! ## Closures, streams, structures and foreign references -/

/-- A closure; `entry` stands for the code that a call runs. -/
def makeClosure (entry : Word) (env name : Value) : Op γ Value := do
  let closure ← allocateWords .closure (Layout.of .closure).fixedWords
  setRaw closure .closure At.closureEntry entry
  setField closure .closureEnv env
  setField closure .closureName name
  return closure

def makeStream (mode : StreamMode) (elementType buffer : Value) (handle : Word) : Op γ Value := do
  let stream ← allocateWords .stream (Layout.of .stream).fixedWords
  setRaw stream .stream At.streamMode mode.code
  setRaw stream .stream At.streamHandle handle
  setField stream .streamElementType elementType
  setField stream .streamBuffer buffer
  return stream

/-- Stores the values into the slots from `index` on. -/
def setSlots (record : Value) : Nat → List Value → Op γ Unit
  | _, [] => pure ()
  | index, value :: rest => do
    setField record (.structSlot index) value
    setSlots record (index + 1) rest

def makeStructure (type : Value) (slots : List Value) : Op γ Value := do
  let record ← allocateWords .record (← payloadFor .record slots.length)
  setRaw record .record At.recordLength (UInt64.ofNat slots.length)
  setField record .structType type
  setSlots record 0 slots
  return record

/-- A reference to memory that the collector never looks at. -/
def makeForeign (address size : Word) (tag : Value) : Op γ Value := do
  let foreign ← allocateWords .foreign (Layout.of .foreign).fixedWords
  setRaw foreign .foreign At.foreignAddress address
  setRaw foreign .foreign At.foreignSize size
  setField foreign .foreignTag tag
  return foreign

end Substrate.Machine
