import Substrate.Layout

/-!
# Object headers and cells

Every object starts with a header word, followed by its payload. A cell is the memory of one
object: a header and payload words, all zero when the memory is fresh. A cell that holds no object
has the header of kind `free`, and its first payload word may link it to another one.
-/

namespace Substrate

structure Header where
  kind : Kind
  marked : Bool
  flags : UInt8
  /-- Payload words of the object. -/
  words : Nat
  deriving DecidableEq, Repr, Inhabited

namespace Header

/-- The flag of objects with a finalizer. -/
def hasFinalizer : UInt8 := 1

/-- The header of a zeroed cell. -/
def zero : Header := ⟨.free, false, 0, 0⟩

/-- The header of a new object. A kind that no header can hold is stored as invalid. -/
def new (kind : Kind) (words : Nat) : Header :=
  ⟨.ofHeaderByte kind.code, false, 0, words⟩

/-- Sets the mark; tells whether it was clear before. -/
def tryMark (h : Header) : Bool × Header :=
  (!h.marked, { h with marked := true })

def clearMark (h : Header) : Header :=
  { h with marked := false }

def setFlag (h : Header) (flag : UInt8) : Header :=
  { h with flags := h.flags ||| flag }

def clearFlag (h : Header) (flag : UInt8) : Header :=
  { h with flags := h.flags &&& ~~~flag }

/-- The header as a word: kind, mark and flags are its lowest bytes, the payload words its upper
half. -/
def toWord (h : Header) : Word :=
  UInt64.ofNat (h.kind.code + h.marked.toNat * 0x100 + h.flags.toNat * 0x10000 +
    h.words * 0x100000000)

/-- The header that a word stands for. -/
def ofWord (bits : Word) : Header :=
  let n := bits.toNat
  ⟨.ofHeaderByte (n % 256), n / 0x100 % 256 != 0, UInt8.ofNat (n / 0x10000), n / 0x100000000⟩

end Header

/-- The memory of one object. Words that were never written are zero and take no space. -/
structure Cell where
  header : Header
  /-- The first payload word. -/
  first : Word
  /-- The payload words behind it. -/
  rest : Array Word
  deriving Repr, Inhabited

namespace Cell

/-- Fresh memory. -/
def zero : Cell := ⟨.zero, 0, #[]⟩

/-- A cell without an object, whose first payload word refers to the next one. -/
def linking (link : Word) : Cell := ⟨.zero, link, #[]⟩

/-- The payload word at `index`. -/
def word (cell : Cell) : Nat → Word
  | 0 => cell.first
  | index + 1 => cell.rest.getD index 0

/-- Writes an entry of an array that goes on with zeros for ever. -/
def setPadded (words : Array Word) (index : Nat) (bits : Word) : Array Word :=
  if index < words.size then words.setIfInBounds index bits
  else (words ++ Array.replicate (index - words.size) 0).push bits

/-- Writes the payload word at `index`. -/
def setWord (cell : Cell) (index : Nat) (bits : Word) : Cell :=
  let ⟨header, first, rest⟩ := cell
  match index with
  | 0 => ⟨header, bits, rest⟩
  | index + 1 => ⟨header, first, setPadded rest index bits⟩

/-- Puts the header of an object into the cell. -/
def setHeader (cell : Cell) (header : Header) : Cell :=
  { cell with header }

end Cell

end Substrate
