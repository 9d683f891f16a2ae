import Substrate.Machine.Collect

/-!
# Root registration

Locations, regions, exclusions and libraries that the client tells the machine about, and the
lookups that turn words of unknown origin into values.
-/

namespace Substrate.Machine

variable {γ α : Type}

/-- Works on the root registry. -/
def onRoots (f : Registry → α × Registry) : Op γ α :=
  withLock .roots fun m =>
    let (a, roots) := f m.roots
    .ok a { m with roots }

/-- Reserves client memory with the given contents. -/
def reserve (words : Array Word) : Op γ Nat := fun m =>
  let (address, memory) := m.memory.reserve words
  .ok address { m with memory }

/-- A slot that holds a value; gives its address. -/
def makeSlot (v : Value) : Op γ Nat := reserve #[v.bits]

def readSlot (location : Nat) : Op γ Value := do
  return ⟨(← get).memory.read location⟩

def writeSlot (location : Nat) (v : Value) : Op γ Unit :=
  modify fun m => { m with memory := m.memory.write location v.bits }

/-- Adds a location to the exact roots. -/
def register (location : Nat) : Op γ Unit := do
  discard (onRoots (·.register location))

def unregister (location : Nat) : Op γ Unit := do
  discard (onRoots (·.unregister location))

/-- A registered slot. -/
def makeRoot (v : Value) : Op γ Nat := do
  let location ← makeSlot v
  register location
  return location

/-- Unregisters a slot and gives its memory back. -/
def dropRoot (location : Nat) : Op γ Unit := do
  unregister location
  modify fun m => { m with memory := m.memory.free location }

def addRegion (region : Region) : Op γ Unit :=
  onRoots fun r => ((), r.addRegion region)

def removeRegion (region : Region) : Op γ Bool :=
  onRoots (·.removeRegion region)

def exclude (region : Region) : Op γ Unit :=
  onRoots fun r => ((), r.exclude region)

def lift (region : Region) : Op γ Bool :=
  onRoots (·.lift region)

/-- Excludes the segments of a library. -/
def registerLibrary (name : String) (segments : List Region) : Op γ Unit := do
  note .debug "gc"
    ("foreign library " ++ name ++ " with " ++ toString segments.length ++ " segments")
  onRoots fun r => ((), r.registerLibrary name segments)

def unregisterLibrary (name : String) : Op γ Bool := do
  note .debug "gc" ("foreign library " ++ name ++ " unloaded")
  onRoots (·.unregisterLibrary name)

/-! ## Words of unknown origin -/

/-- The value of a word. An address is accepted only if a live object starts there. -/
def decode? (m : Machine γ) (bits : Word) : Option Value :=
  let v : Value := ⟨bits⟩
  if !v.isHeapRef || m.heap.isLive v then some v else none

/-- The kind of a word; invalid if it stands for nothing. -/
def kindOfWord (m : Machine γ) (bits : Word) : Kind :=
  match m.decode? bits with
  | some v => m.heap.space.kindOf v
  | none => .invalid

end Substrate.Machine
