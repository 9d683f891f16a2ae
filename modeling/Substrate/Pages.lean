import Substrate.Error
import Substrate.Region

/-!
# Pages from the operating system

Memory comes in whole pages, zero-filled, at addresses that nothing else occupies. Alignments
beyond a page are had by asking for more and giving back what sticks out on either side.
-/

namespace Substrate

/-- Bytes in a page. -/
abbrev pageBytes : Nat := 4096

/-- The operating system's memory: everything from `next` on is still unused. -/
structure Pages where
  next : Nat
  /-- Requests for this many bytes or more are refused. -/
  limit : Nat
  deriving Repr

namespace Pages

/-- A system that has handed out nothing yet. -/
def fresh : Pages := ⟨0x7f0000000000, OsError.memoryBytes⟩

/-- Asks for `bytes` bytes; the answer is the address of the first one. Nothing is granted behind the end
of the address space. -/
def request (pages : Pages) (bytes : Nat) : Except OsError Nat × Pages :=
  if bytes = 0 then (.error .invalidArgument, pages)
  else if pages.limit ≤ bytes then (.error .noMemory, pages)
  else
    let after := (pages.next + bytes + pageBytes - 1) / pageBytes * pageBytes
    (.ok pages.next, ⟨after, min pages.limit (wordLimit - after)⟩)

end Pages

/-- An aligned region inside a mapping, and what is given back in front of it and behind it. -/
structure Carving where
  region : Region
  before : Region
  after : Region
  deriving DecidableEq, Repr

/-- Cuts the first aligned region of `size` bytes out of the mapping of `mapped` bytes at `base`. -/
def carve (mode : Mode) (size alignment base mapped : Nat) : Except Fault Carving := do
  let start ← roundUp mode base alignment 0
  let stop ← mode.add start size
  return ⟨.ofRange start stop, .ofRange base start, .ofRange stop (← mode.add base mapped)⟩

/-- The answer to a request for aligned memory. -/
inductive Mapping where
  | refused (bytes : Nat) (error : OsError)
  | granted (region : Region)
  deriving DecidableEq, Repr

/-- The record a refusal leaves in the log. -/
def Mapping.record? : Mapping → Option LogRecord
  | refused bytes error =>
    some ⟨.warn, "gc", "mmap of " ++ toString bytes ++ " bytes: " ++ error.description⟩
  | granted _ => none

/-- Maps `size` bytes, rounded up to whole pages, at a multiple of `alignment`. -/
def Pages.mapAligned (mode : Mode) (pages : Pages) (size alignment : Nat) :
    Except Fault (Mapping × Pages) := do
  mode.assert (isPowerOfTwo alignment) "is_power_of_two(alignment)"
  let size ← roundUp mode size pageBytes 0
  let alignment := max alignment pageBytes
  let raised ← mode.add size alignment
  let mapped ← mode.sub raised pageBytes
  match pages.request mapped with
  | (.error error, pages) => return (.refused mapped error, pages)
  | (.ok base, pages) => return (.granted (← carve mode size alignment base mapped).region, pages)

/-- Maps `size` bytes, rounded up to whole pages. -/
def Pages.map (mode : Mode) (pages : Pages) (size : Nat) : Except Fault (Mapping × Pages) :=
  pages.mapAligned mode size pageBytes

end Substrate
