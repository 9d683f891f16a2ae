import Substrate.Block

/-!
# Sessions on one block

Taking several cells at once, marking and finding cells by their distance from the block's start.
-/

namespace Substrate.Session

/-- A new block of the system's first memory. -/
def openBlock (mode : Mode) (cellBytes : Nat) : Except Fault Block := do
  match ← Pages.fresh.mapAligned mode blockBytes blockBytes with
  | (.granted region, _) => Block.new region.start cellBytes
  | (.refused _ _, _) => .error (.panic "no block")

/-- Takes `count` cells, giving their distances from the start of the block, in order. With a kind
each cell gets the header of an object that fills it. -/
def takeCells (kind? : Option Kind) (taken : List (Option Nat)) :
    Nat → Block → List (Option Nat) × Block
  | 0, b => (taken.reverse, b)
  | count + 1, b =>
    match b.allocate with
    | (none, b) => takeCells kind? (none :: taken) count b
    | (some address, b) =>
      let b := match kind? with
        | none => b
        | some kind =>
          let header := Header.new kind (b.cellBytes / wordBytes - 1)
          b.modifyCell address (·.setHeader header)
      takeCells kind? (some (address - b.start) :: taken) count b

/-- Marks the cell at a distance; tells whether it was unmarked. -/
def markCell (b : Block) (distance : Nat) : Bool × Block :=
  let index := distance / b.cellBytes
  let fresh := ((b.cells.getD index .zero).header.tryMark).1
  (fresh, b.modifyAt index fun cell => cell.setHeader cell.header.tryMark.2)

def markCells (b : Block) : List Nat → List Bool × Block
  | [] => ([], b)
  | distance :: rest =>
    let (fresh, b) := markCell b distance
    let (others, b) := markCells b rest
    (fresh :: others, b)

/-- The distance of the object around a distance, which may lie before the block. -/
def findCell (mode : Mode) (b : Block) (distance : Int) : Except Fault (Option Nat) := do
  let address := ((b.start + distance) % wordLimit).toNat
  return (← b.objectAround? mode address).map (· - b.start)

end Substrate.Session
