import Substrate.Alignment
import Substrate.Text.Quoted

/-!
# Memory regions and native stacks

A region is a half-open range of addresses. A native stack grows down from its origin; what is
live on it lies between the stack pointer and the origin.
-/

namespace Substrate

/-- The addresses from `start` up to, but not including, `stop`. -/
structure Region where
  start : Nat
  stop : Nat
  deriving DecidableEq, Repr

namespace Region

/-- The region between two addresses; an inverted range is empty. -/
def ofRange (start stop : Nat) : Region :=
  ⟨start, max stop start⟩

def size (r : Region) : Nat := r.stop - r.start

/-- How far the region starts behind a multiple of `alignment`. -/
def misalignment (mode : Mode) (r : Region) (alignment : Nat) : Except Fault Nat :=
  mode.mod r.start alignment

def isEmpty (r : Region) : Bool := r.start == r.stop

def contains (r : Region) (address : Nat) : Bool :=
  r.start ≤ address && address < r.stop

def overlaps (r s : Region) : Bool :=
  r.start < s.stop && s.start < r.stop

/-- Regions are ordered by their start, then by their end. -/
def order (r s : Region) : Ordering :=
  (compare r.start s.start).then (compare r.stop s.stop)

def render (r : Region) : String :=
  "[" ++ Text.hex r.start ++ ", " ++ Text.hex r.stop ++ ")"

end Region

/-! ## Stack bounds -/

/-- The native stack of a thread; an origin of zero means that it is not known. -/
structure StackBounds where
  origin : Nat
  bound : Nat
  deriving DecidableEq, Repr

namespace StackBounds

def isNone (s : StackBounds) : Bool := s.origin == 0

def contains (s : StackBounds) (address : Nat) : Bool :=
  s.bound < address && address ≤ s.origin

def size (mode : Mode) (s : StackBounds) : Except Fault Nat :=
  mode.sub s.origin s.bound

/-- What is live on the stack when the stack pointer is at `pointer`. -/
def liveRegion? (s : StackBounds) (pointer : Nat) : Option Region :=
  if s.isNone || !s.contains pointer then none else some (.ofRange pointer s.origin)

end StackBounds

/-! ## Scanning -/

/-- The addresses of `count` words from `address` on. -/
def wordAddresses : Nat → Nat → List Nat
  | 0, _ => []
  | count + 1, address => address :: wordAddresses count (address + wordBytes)

/-- The addresses of the aligned words that a scan of the region reads, in ascending order. -/
def Region.scanned (mode : Mode) (r : Region) : Except Fault (List Nat) := do
  let start ← roundUp mode r.start wordBytes 0
  let stop := roundDown r.stop wordBytes
  return wordAddresses ((stop - start) / wordBytes) start

end Substrate
