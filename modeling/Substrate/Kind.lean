/-!
# Kinds

A kind tells what a value is: one of the object kinds, which are also stored in object headers, one
of the immediate representations, or nothing known.
-/

namespace Substrate

inductive Kind where
  /-- The header of a cell that holds no object. -/
  | free
  | bignum
  | ratio
  | complex
  | doubleFloat
  | cons
  | symbol
  | string
  | vector
  | closure
  | stream
  | record
  | foreign
  | empty
  | fixnum
  | character
  | singleFloat
  | constant
  /-- Any pattern that stands for nothing known. -/
  | invalid
  deriving DecidableEq, Repr, Inhabited

namespace Kind

def all : List Kind :=
  [free, bignum, ratio, complex, doubleFloat, cons, symbol, string, vector, closure, stream,
    record, foreign, empty, fixnum, character, singleFloat, constant, invalid]

/-- The object kinds, in the order of their codes. -/
def heapKinds : List Kind :=
  [bignum, ratio, complex, doubleFloat, cons, symbol, string, vector, closure, stream, record,
    foreign]

/-- The byte that stands for the kind. -/
def code : Kind → Nat
  | free => 0
  | bignum => 1
  | ratio => 2
  | complex => 3
  | doubleFloat => 4
  | cons => 5
  | symbol => 6
  | string => 7
  | vector => 8
  | closure => 9
  | stream => 10
  | record => 11
  | foreign => 12
  | empty => 64
  | fixnum => 65
  | character => 66
  | singleFloat => 67
  | constant => 68
  | invalid => 255

/-- The kind that a header byte stands for. Bytes of immediates are not valid in headers. -/
def ofHeaderByte : Nat → Kind
  | 0 => free
  | 1 => bignum
  | 2 => ratio
  | 3 => complex
  | 4 => doubleFloat
  | 5 => cons
  | 6 => symbol
  | 7 => string
  | 8 => vector
  | 9 => closure
  | 10 => stream
  | 11 => record
  | 12 => foreign
  | _ => invalid

def isImmediate : Kind → Bool
  | empty | fixnum | character | singleFloat | constant => true
  | _ => false

def isHeap (kind : Kind) : Bool :=
  1 ≤ kind.code && kind.code ≤ 12

/-- The name in messages. -/
def name : Kind → String
  | free => "free"
  | bignum => "bignum"
  | ratio => "ratio"
  | complex => "complex"
  | doubleFloat => "double-float"
  | cons => "cons"
  | symbol => "symbol"
  | string => "string"
  | vector => "vector"
  | closure => "closure"
  | stream => "stream"
  | record => "structure"
  | foreign => "foreign"
  | empty => "empty"
  | fixnum => "fixnum"
  | character => "character"
  | singleFloat => "single-float"
  | constant => "constant"
  | invalid => "invalid"

/-- The name in assertions. -/
def title : Kind → String
  | free => "Free"
  | bignum => "Bignum"
  | ratio => "Ratio"
  | complex => "Complex"
  | doubleFloat => "DoubleFloat"
  | cons => "Cons"
  | symbol => "Symbol"
  | string => "String"
  | vector => "Vector"
  | closure => "Closure"
  | stream => "Stream"
  | record => "Structure"
  | foreign => "Foreign"
  | empty => "Empty"
  | fixnum => "Fixnum"
  | character => "Character"
  | singleFloat => "SingleFloat"
  | constant => "Constant"
  | invalid => "Invalid"

def ofName? (name : String) : Option Kind :=
  all.find? (·.name == name)

theorem ofHeaderByte_code {kind : Kind} (h : kind.isHeap = true) :
    ofHeaderByte kind.code = kind := by
  revert h
  cases kind <;> decide

end Kind

end Substrate
