import Substrate.Region
import Substrate.Value

/-!
# Memory outside the heap

Slots and buffers that belong to the client. The collector reads them where they are registered
as roots, and never writes them.
-/

namespace Substrate

/-- A piece of client memory. -/
structure Segment where
  base : Nat
  words : Array Word
  deriving Repr

namespace Segment

def region (s : Segment) : Region :=
  .ofRange s.base (s.base + s.words.size * wordBytes)

end Segment

/-- Client memory: what was reserved so far, the latest first, and where the next piece goes. -/
structure Memory where
  segments : List Segment
  next : Nat
  deriving Repr

namespace Memory

/-- No memory is in use yet. -/
def empty : Memory := ⟨[], 0x550000000000⟩

/-- Reserves memory with the given contents; gives its address. -/
def reserve (m : Memory) (words : Array Word) : Nat × Memory :=
  (m.next, ⟨⟨m.next, words⟩ :: m.segments, m.next + (words.size + 2) * wordBytes⟩)

def segment? (m : Memory) (address : Nat) : Option Segment :=
  m.segments.find? (·.region.contains address)

/-- The word at an address; memory that nobody reserved reads as zero. -/
def read (m : Memory) (address : Nat) : Word :=
  match m.segment? address with
  | some s => s.words.getD ((address - s.base) / wordBytes) 0
  | none => 0

/-- Writes the word at an address that was reserved. -/
def write (m : Memory) (address : Nat) (bits : Word) : Memory :=
  { m with
    segments := m.segments.map fun s =>
      if s.region.contains address then
        { s with words := s.words.setIfInBounds ((address - s.base) / wordBytes) bits }
      else s }

/-- Gives the piece of memory at an address back. -/
def free (m : Memory) (address : Nat) : Memory :=
  { m with segments := m.segments.filter (·.base != address) }

end Memory

end Substrate
