import Substrate.Object
import Substrate.Roots

/-!
# Marking

The state of one collection: the space that is traced and a stack of the objects whose fields are
still to be visited. An object is on the stack at most once, since it is only pushed when its mark
is set for the first time.

References are exact (`markValue`, `markSlot`) or ambiguous: a word that may be the address of an
object or anything else (`markAmbiguous`, `scanRegion`).
-/

namespace Substrate

structure Marking where
  space : Space
  /-- Whether ambiguous words may point into the middle of an object. -/
  interior : Bool
  stack : List Nat
  /-- Number of objects marked so far. -/
  marked : Nat

namespace Marking

def start (space : Space) (interior : Bool) : Marking :=
  ⟨space, interior, [], 0⟩

/-- Marks an object and remembers to visit its fields, unless it is marked already. -/
def markObject (m : Marking) (address : Nat) : Marking :=
  if (m.space.header address).marked then m
  else
    { m with
      space := m.space.modifyHeader address fun header => header.tryMark.2
      stack := address :: m.stack
      marked := m.marked + 1 }

/-- Marks the object an exact reference refers to. -/
def markValue (mode : Mode) (v : Value) : Run Marking Unit := fun m =>
  if v.isHeapRef then
    match mode with
    | .debug =>
      if (m.space.findObject? v.address false).isSome then .ok () (m.markObject v.address)
      else .error (.panic ("stale reference " ++ Text.hex v.address)) m
    | .release => .ok () (m.markObject v.address)
  else .ok () m

/-- Marks the object that a word refers to, if it refers to one. -/
def markAmbiguous (m : Marking) (word : Word) : Marking :=
  match m.space.findObject? word.toNat m.interior with
  | some object => m.markObject object
  | none => m

/-- Scans the parts of a region that are not excluded, word by word. -/
def scanPieces (mode : Mode) (memory : Nat → Word) : List Region → Run Marking Unit
  | [] => pure ()
  | piece :: pieces => do
    let addresses ← Run.ofExcept (piece.scanned mode)
    modify fun m => addresses.foldl (fun m address => m.markAmbiguous (memory address)) m
    scanPieces mode memory pieces

def scanRegion (mode : Mode) (memory : Nat → Word) (exclusions : Exclusions) (region : Region) :
    Run Marking Unit :=
  scanPieces mode memory (exclusions.pieces region)

/-- Marks each of the values. -/
def markValues (mode : Mode) : List Value → Run Marking Unit
  | [] => pure ()
  | v :: vs => do
    markValue mode v
    markValues mode vs

/-- Whether the object that a value refers to is marked. -/
def isMarked (m : Marking) (v : Value) : Bool :=
  v.isHeapRef && (m.space.header v.address).marked

/-! ## Tracing -/

/-- Marks what a payload word of an object refers to. -/
def markWord (mode : Mode) (address index : Nat) : Run Marking Unit := fun m =>
  markValue mode ⟨m.space.word address index⟩ m

/-- Marks what the listed payload words refer to. -/
def markListed (mode : Mode) (address : Nat) : List Nat → Run Marking Unit
  | [] => pure ()
  | index :: rest => do
    markWord mode address index
    markListed mode address rest

/-- Marks what `count` payload words from `index` on refer to. -/
def markRange (mode : Mode) (address : Nat) :
    Nat → Nat → Marking → EStateM.Result Fault Marking Unit
  | 0, _, m => .ok () m
  | count + 1, index, m =>
    match markWord mode address index m with
    | .ok () m => markRange mode address count (index + 1) m
    | .error fault m => .error fault m

theorem markListed_cons (mode : Mode) (a index : Nat) (indices : List Nat) (m : Marking) :
    markListed mode a (index :: indices) m =
      match markWord mode a index m with
      | .ok _ m₁ => markListed mode a indices m₁
      | .error fault m₁ => .error fault m₁ := by
  change EStateM.bind _ _ m = _
  unfold EStateM.bind
  cases markWord mode a index m <;> rfl

theorem markRange_eq (mode : Mode) (a count index : Nat) :
    markRange mode a count index = markListed mode a (List.range' index count) := by
  funext m
  induction count generalizing index m with
  | zero => rfl
  | succ count ih =>
    rw [List.range'_succ, markListed_cons, markRange]
    cases markWord mode a index m with
    | ok _ m₁ => exact ih (index + 1) m₁
    | error fault m₁ => rfl

/-- Visits every value that an object holds, as its layout says: first the fixed words, then the
tail. -/
def trace (mode : Mode) (address : Nat) : Run Marking Unit := fun m =>
  let header := m.space.header address
  let layout := Layout.of header.kind
  match markListed mode address (layout.listedSlots header.words) m with
  | .error fault m => .error fault m
  | .ok () m =>
    match layout.valueLengthWord? header.words with
    | none => .ok () m
    | some word =>
      let length := (m.space.word address word).toNat
      match Layout.tailCount mode header.kind header.words length with
      | .error fault => .error fault m
      | .ok count => markRange mode address count layout.fixedWords m

/-- Visits the objects on the stack until it is empty. A stack that is not empty after `fuel` visits
counts as one that never gets empty. -/
def drainWith (mode : Mode) : Nat → Marking → EStateM.Result Fault Marking Unit
  | 0, m => if m.stack.isEmpty then .ok () m else .error .blocked m
  | fuel + 1, m =>
    match m.stack with
    | [] => .ok () m
    | address :: rest =>
      match trace mode address { m with stack := rest } with
      | .ok () m => drainWith mode fuel m
      | .error fault m => .error fault m

/-- Traces everything that can be reached from the objects marked so far. Every object is pushed
at most once more, so that the space's capacity bounds the work. A stale reference, which only a
release build follows, may be pushed for every word that holds it. -/
def drain (mode : Mode) : Run Marking Unit := fun m =>
  drainWith mode (m.stack.length + m.space.capacity + m.space.footprint / wordBytes) m

end Marking

end Substrate
