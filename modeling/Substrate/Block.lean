import Substrate.Header
import Substrate.Pages

/-!
# Blocks of cells

A block is 64 KiB of memory, aligned to its size and split into cells of one size. The cells
without an object form a list, from which objects are allocated: the first payload word of each is
the address of the next one, and zero ends the list. All their other words are zero, so that every
new object starts zeroed. A sweep puts the list in the order of the addresses.

The links are memory like any other. Who writes to an object that is gone may cut the list; the
cells behind the cut are out of reach until the next sweep, and still count as free.
-/

namespace Substrate

/-- Bytes in a block. -/
abbrev blockBytes : Nat := 65536

/-! ## Size classes -/

/-- Cell sizes in bytes, header included, in ascending order. -/
def sizeClasses : List Nat :=
  [16, 24, 32, 48, 64, 80, 96, 128, 160, 192, 256, 384, 512, 768, 1024, 1536, 2048]

/-- The first class whose cells have room for `bytes` bytes. -/
def sizeClassFor? (bytes : Nat) : Option Nat :=
  sizeClasses.findIdx? (bytes ≤ ·)

/-- The cell size of a class. -/
def classBytes (sizeClass : Nat) : Nat :=
  sizeClasses.getD sizeClass 0

/-- Bytes an object with the given payload takes: a cell, or header and payload if no cell is
large enough. -/
def allocationSize (mode : Mode) (words : Nat) : Except Fault Nat := do
  let bytes ← mode.mul (← mode.add 1 words) wordBytes
  return match sizeClassFor? bytes with
    | some sizeClass => classBytes sizeClass
    | none => bytes

/-! ## Blocks -/

/-- What a sweep freed and what it kept. -/
structure Swept where
  freedObjects : Nat
  freedBytes : Nat
  liveBytes : Nat
  deriving DecidableEq, Repr

namespace Swept

def nothing : Swept := ⟨0, 0, 0⟩

def add (a b : Swept) : Swept :=
  ⟨a.freedObjects + b.freedObjects, a.freedBytes + b.freedBytes, a.liveBytes + b.liveBytes⟩

end Swept

structure Block where
  start : Nat
  cellBytes : Nat
  cells : Array Cell
  /-- The address of the first cell of the free list, or zero. -/
  free : Nat
  freeCells : Nat
  deriving Repr, Inhabited

namespace Block

/-- The address of a cell. -/
def address (b : Block) (index : Nat) : Nat :=
  b.start + index * b.cellBytes

/-- The index of the cell at or around an address of the block. -/
def indexOf (b : Block) (address : Nat) : Nat :=
  (address - b.start) / b.cellBytes

def hasFreeCells (b : Block) : Bool := b.freeCells != 0

def isEmpty (b : Block) : Bool := b.freeCells == b.cells.size

/-- Changes the cell at a position. -/
@[noinline] def modifyAt (b : Block) (index : Nat) (f : Cell → Cell) : Block :=
  let ⟨start, cellBytes, cells, free, freeCells⟩ := b
  ⟨start, cellBytes, cells.modify index f, free, freeCells⟩

/-- Changes the cell that starts at an address. -/
def modifyCell (b : Block) (address : Nat) (f : Cell → Cell) : Block :=
  if (address - b.start) % b.cellBytes = 0 then b.modifyAt (b.indexOf address) f else b

/-- The address of cell `index` out of `count`, or zero if there are no more. -/
def addressBelow (start cellBytes count index : Nat) : Nat :=
  if index < count then start + index * cellBytes else 0

/-- A block at a given address with all of its cells free, the first one to be used first. -/
def new (start cellBytes : Nat) : Except Fault Block :=
  if cellBytes = 0 then .error (.panic "attempt to divide by zero")
  else
    let count := blockBytes / cellBytes
    let cells := (List.range' 0 count).map fun index =>
      .linking (UInt64.ofNat (addressBelow start cellBytes count (index + 1)))
    .ok ⟨start, cellBytes, cells.toArray, addressBelow start cellBytes count 0, count⟩

/-- The address of the cell that is used next. -/
def next? (b : Block) : Option Nat :=
  if b.free = 0 then none else some b.free

/-- Takes the first cell off the free list and clears its link. -/
@[noinline] def dropFirst (b : Block) : Block :=
  let ⟨start, cellBytes, cells, free, freeCells⟩ := b
  if free = 0 then ⟨start, cellBytes, cells, 0, freeCells⟩
  else
    let index := (free - start) / cellBytes
    let link := (cells.getD index .zero).first
    ⟨start, cellBytes, cells.modify index (·.setWord 0 0), link.toNat, freeCells - 1⟩

/-- Takes a cell; gives its address. -/
def allocate (b : Block) : Option Nat × Block :=
  (b.next?, b.dropFirst)

/-- The address of the object whose cell is `distance` bytes behind the start of the block. -/
def objectAt? (b : Block) (distance : Nat) : Option Nat :=
  let index := distance / b.cellBytes
  match b.cells[index]? with
  | some cell => if cell.header.kind = .free then none else some (b.address index)
  | none => none

/-- The address of the object whose cell contains the given address. -/
def objectAround? (mode : Mode) (b : Block) (address : Nat) : Except Fault (Option Nat) := do
  let distance ← mode.sub address b.start
  return b.objectAt? distance

/-- What a sweep does with a cell. -/
inductive Fate where
  /-- The cell was free and still is. -/
  | unused
  /-- The object in it is marked and stays. -/
  | kept
  /-- The object in it is not marked, and the cell becomes free. -/
  | freed

/-- The fate of a cell with the given header. -/
def fate (header : Header) : Fate :=
  if header.kind = .free then .unused else if header.marked then .kept else .freed

/-- What a sweep leaves of the cells it went through. -/
structure Sweeping where
  cells : List Cell
  free : Nat
  freeCells : Nat
  swept : Swept

/-- Sweeps cells that lie one behind the other from an address on, the last one first. A marked object
loses its mark, and every other cell is cleared and put in front of the free list. -/
def sweepCells (cellBytes : Nat) : Nat → List Cell → Sweeping
  | _, [] => ⟨[], 0, 0, .nothing⟩
  | address, cell :: behind =>
    let ⟨cells, free, freeCells, swept⟩ := sweepCells cellBytes (address + cellBytes) behind
    match fate cell.header with
    | .unused => ⟨.linking (UInt64.ofNat free) :: cells, address, freeCells + 1, swept⟩
    | .kept =>
      ⟨cell.setHeader cell.header.clearMark :: cells, free, freeCells, swept.add ⟨0, 0, cellBytes⟩⟩
    | .freed =>
      ⟨.linking (UInt64.ofNat free) :: cells, address, freeCells + 1,
        swept.add ⟨1, cellBytes, 0⟩⟩

/-- Clears the marks of the marked objects and frees all other cells. -/
@[noinline] def sweep (b : Block) : Swept × Block :=
  let ⟨start, cellBytes, cells, _, _⟩ := b
  let ⟨cells, free, freeCells, swept⟩ := sweepCells cellBytes start cells.toList
  (swept, ⟨start, cellBytes, cells.toArray, free, freeCells⟩)

end Block

end Substrate
