import Substrate.Error
import Substrate.Heap
import Substrate.Text.Masked

/-!
# Data

The notation of scripts and of what they report: nothing, truth values, integers, texts, lists and
records. Readers take what they expect and treat everything else as missing.
-/

namespace Substrate

inductive Datum where
  | null
  | bool (b : Bool)
  | int (n : Int)
  | text (s : String)
  | list (items : List Datum)
  | record (fields : List (String × Datum))
  deriving Inhabited

namespace Datum

/-! ## Reading -/

/-- The field of a record; null if it is missing. -/
def get (d : Datum) (name : String) : Datum :=
  match d with
  | record fields => (fields.lookup name).getD null
  | _ => null

/-- The field of a record, unless it is missing or null. -/
def get? (d : Datum) (name : String) : Option Datum :=
  match d.get name with
  | null => none
  | field => some field

def items : Datum → List Datum
  | list items => items
  | _ => []

def item (d : Datum) (index : Nat) : Datum := d.items.getD index null

def string : Datum → String
  | text s => s
  | _ => ""

def isTrue : Datum → Bool
  | bool b => b
  | _ => false

/-- The value of a hexadecimal digit; anything else counts as zero. -/
def hexDigit (c : Char) : Nat :=
  if '0' ≤ c ∧ c ≤ '9' then c.toNat - '0'.toNat
  else if 'a' ≤ c ∧ c ≤ 'f' then c.toNat - 'a'.toNat + 10
  else if 'A' ≤ c ∧ c ≤ 'F' then c.toNat - 'A'.toNat + 10
  else 0

/-- A number, or hexadecimal digits. -/
def number : Datum → Int
  | int n => n
  | text s => Int.ofNat (s.toList.foldl (fun n c => n * 16 + hexDigit c) 0)
  | _ => 0

/-- A number as a word; negative numbers in two's complement. -/
def word (d : Datum) : Word := Value.wordOfInt d.number

/-- A size, index or address. -/
def nat (d : Datum) : Nat := d.word.toNat

/-- A number as a signed word. -/
def signed (d : Datum) : Int := d.word.toInt64.toInt

def kind (d : Datum) : Kind := (Kind.ofName? d.string).getD .invalid

/-- A field by its name, or an element by its name and index. -/
def field (d : Datum) : Field :=
  match d with
  | text s => (Field.ofTitle? s).getD .car
  | d =>
    if (d.item 0).string == "VectorElt" then .vectorElt (d.item 1).nat
    else .structSlot (d.item 1).nat

/-! ## Writing -/

def ofNat (n : Nat) : Datum := int n

def ofOption {α : Type} (f : α → Datum) (a : Option α) : Datum := (a.map f).getD null

def names (texts : List String) : Datum := list (texts.map text)

/-- Adds fields to a record. -/
def extend (d : Datum) (more : List (String × Datum)) : Datum :=
  match d with
  | record fields => record (fields ++ more)
  | d => d

def ok (d : Datum) : Datum := record [("ok", d)]

/-- The digits of a double float. -/
def bits64 (n : Nat) : Datum := text (Text.hexPadded 16 n)

/-- The digits of a single float. -/
def bits32 (n : Nat) : Datum := text (Text.hexPadded 8 n)

def ofStats (s : Stats) : Datum :=
  record [("bytes_allocated", ofNat s.bytesAllocated),
    ("objects_allocated", ofNat s.objectsAllocated),
    ("collections", ofNat s.collections), ("objects_reclaimed", ofNat s.objectsReclaimed),
    ("bytes_reclaimed", ofNat s.bytesReclaimed), ("live_bytes", ofNat s.liveBytes),
    ("footprint", ofNat s.footprint)]

/-! ### Failures -/

/-- A failure: what kind it is and its message. -/
def failure (name message : String) : Datum :=
  record [("error", text name), ("message", text (Text.masked message))]

def fatalName : FatalKind → String
  | .heapExhausted => "Fatal.HeapExhausted"
  | .controlIntegrity => "Fatal.ControlIntegrity"
  | .contractViolation => "Fatal.ContractViolation"
  | .internal => "Fatal.Internal"

def ofFault : Fault → Datum
  | .fatal kind message => failure (fatalName kind) message
  | .panic message => failure "Panic" message
  | .blocked => failure "Blocked" "waits for ever"

def errorName : Error → String
  | .primitiveCreation _ _ => "PrimitiveCreation"
  | .threadSpawn _ => "ThreadSpawn"
  | .threadJoin _ => "ThreadJoin"
  | .frameStackOverflow _ => "FrameStackOverflow"
  | .invocationOverflow _ => "InvocationOverflow"
  | .alreadyAttached => "AlreadyAttached"
  | .invalidOption _ _ => "InvalidOption"
  | .signal _ => "Signal"

def ofError (e : Error) : Datum := failure (errorName e) e.message

end Datum

end Substrate
