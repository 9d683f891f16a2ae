import Substrate.Alignment
import Substrate.Value

/-!
# Object layouts

Each kind of object has fixed payload words, some of which hold values, and may have a tail whose
length is stored in one of the fixed words. Everything else in the payload (lengths, raw bits,
bytes) means nothing to the collector.

A `Field` is a payload word that holds a value and can be read and written by name.
-/

namespace Substrate

/-- What the variable part of an object is made of. -/
inductive TailItem where
  | values
  | words
  | bytes
  deriving DecidableEq, Repr

/-- The variable part of an object; one of its fixed words holds the number of items. -/
structure Tail where
  item : TailItem
  lengthWord : Nat
  deriving DecidableEq, Repr

structure Layout where
  fixedWords : Nat
  /-- The fixed words that hold values. -/
  valueWords : List Nat
  tail : Option Tail
  deriving DecidableEq, Repr

namespace Layout

/-- The layout of a kind. What is no object has no payload. -/
def of : Kind → Layout
  | .bignum => ⟨2, [], some ⟨.words, 1⟩⟩
  | .ratio => ⟨2, [0, 1], none⟩
  | .complex => ⟨2, [0, 1], none⟩
  | .doubleFloat => ⟨1, [], none⟩
  | .cons => ⟨2, [0, 1], none⟩
  | .symbol => ⟨7, [0, 1, 2, 3, 4], none⟩
  | .string => ⟨1, [], some ⟨.bytes, 0⟩⟩
  | .vector => ⟨1, [], some ⟨.values, 0⟩⟩
  | .closure => ⟨3, [1, 2], none⟩
  | .stream => ⟨5, [2, 3], none⟩
  | .record => ⟨2, [0], some ⟨.values, 1⟩⟩
  | .foreign => ⟨3, [2], none⟩
  | _ => ⟨0, [], none⟩

/-- Payload words of an object whose tail has `length` items. Bytes are followed by a zero. -/
def payloadWords (mode : Mode) (layout : Layout) (length : Nat) : Except Fault Nat := do
  let tail ← match layout.tail with
    | none => pure 0
    | some ⟨.bytes, _⟩ => (· / wordBytes) <$> mode.add length wordBytes
    | some _ => pure length
  mode.add layout.fixedWords tail

/-- The value words that exist in an object of `words` payload words. -/
def listedSlots (layout : Layout) (words : Nat) : List Nat :=
  layout.valueWords.filter (· < words)

/-- The word with the length of the tail, if the tail holds values and the word exists. -/
def valueLengthWord? (layout : Layout) (words : Nat) : Option Nat :=
  match layout.tail with
  | some ⟨.values, word⟩ => if word < words then some word else none
  | _ => none

/-- How many items of the tail there is room for. -/
def room (layout : Layout) (words : Nat) : Nat :=
  words - layout.fixedWords

/-- How many tail words hold values when the stored length is `length`: no more than there is
room for. A debug build does not put up with a length beyond that. -/
def tailCount (mode : Mode) (kind : Kind) (words length : Nat) : Except Fault Nat := do
  let room := (Layout.of kind).room words
  if room < length then
    mode.violation
      (kind.name ++ " of length " ++ toString length ++ " in " ++ toString words ++
        " payload words")
  return min length room

end Layout

/-! ## Positions of single words -/

namespace At

abbrev bignumSign : Nat := 0
abbrev bignumLength : Nat := 1
abbrev bignumLimbs : Nat := 2
abbrev symbolBindingIndex : Nat := 5
abbrev symbolFlags : Nat := 6
abbrev stringLength : Nat := 0
abbrev stringBytes : Nat := 1
abbrev vectorLength : Nat := 0
abbrev closureEntry : Nat := 0
abbrev streamMode : Nat := 0
abbrev streamPosition : Nat := 1
abbrev streamHandle : Nat := 4
abbrev recordLength : Nat := 1
abbrev foreignAddress : Nat := 0
abbrev foreignSize : Nat := 1

end At

/-! ## Fields -/

/-- A payload word that holds a value. -/
inductive Field where
  | car
  | cdr
  | symbolName
  | symbolValue
  | symbolFunction
  | symbolPlist
  | symbolPackage
  | ratioNumerator
  | ratioDenominator
  | complexReal
  | complexImag
  | vectorElt (index : Nat)
  | structType
  | structSlot (index : Nat)
  | closureEnv
  | closureName
  | streamElementType
  | streamBuffer
  | foreignTag
  deriving DecidableEq, Repr

namespace Field

/-- The kind of object the field belongs to. -/
def kind : Field → Kind
  | car | cdr => .cons
  | symbolName | symbolValue | symbolFunction | symbolPlist | symbolPackage => .symbol
  | ratioNumerator | ratioDenominator => .ratio
  | complexReal | complexImag => .complex
  | vectorElt _ => .vector
  | structType | structSlot _ => .record
  | closureEnv | closureName => .closure
  | streamElementType | streamBuffer => .stream
  | foreignTag => .foreign

/-- The payload word of the field. The word of an element is computed like any other number. -/
def word (mode : Mode) : Field → Except Fault Nat
  | car | symbolName | ratioNumerator | complexReal | structType => .ok 0
  | cdr | symbolValue | ratioDenominator | complexImag | closureEnv => .ok 1
  | symbolFunction | closureName | streamElementType | foreignTag => .ok 2
  | symbolPlist | streamBuffer => .ok 3
  | symbolPackage => .ok 4
  | vectorElt index => mode.add 1 index
  | structSlot index => mode.add 2 index

/-- The name in messages. -/
def title : Field → String
  | car => "Car"
  | cdr => "Cdr"
  | symbolName => "SymbolName"
  | symbolValue => "SymbolValue"
  | symbolFunction => "SymbolFunction"
  | symbolPlist => "SymbolPlist"
  | symbolPackage => "SymbolPackage"
  | ratioNumerator => "RatioNumerator"
  | ratioDenominator => "RatioDenominator"
  | complexReal => "ComplexReal"
  | complexImag => "ComplexImag"
  | vectorElt index => "VectorElt(" ++ toString index ++ ")"
  | structType => "StructType"
  | structSlot index => "StructSlot(" ++ toString index ++ ")"
  | closureEnv => "ClosureEnv"
  | closureName => "ClosureName"
  | streamElementType => "StreamElementType"
  | streamBuffer => "StreamBuffer"
  | foreignTag => "ForeignTag"

/-- The fields that need no index. -/
def plain : List Field :=
  [car, cdr, symbolName, symbolValue, symbolFunction, symbolPlist, symbolPackage, ratioNumerator,
    ratioDenominator, complexReal, complexImag, structType, closureEnv, closureName,
    streamElementType, streamBuffer, foreignTag]

def ofTitle? (title : String) : Option Field :=
  plain.find? (·.title == title)

end Field

end Substrate
