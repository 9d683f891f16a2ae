import Substrate.Space

/-!
# Sessions on one space

Objects are given names when they are allocated, and are found, filled and marked by name.
-/

namespace Substrate.Session

structure Objects where
  mode : Mode
  space : Space
  names : List (String × Nat)

namespace Objects

def new (mode : Mode) (maxFootprint : Nat) : Objects :=
  ⟨mode, .new maxFootprint, []⟩

/-- The address that a name was last given to. -/
def address (o : Objects) (name : String) : Except Fault Nat :=
  match o.names.lookup name with
  | some address => .ok address
  | none => .error (.panic ("no object " ++ name))

/-- Allocates one object under each of the names; gives how many were refused and the address of
the last one that was not. -/
def allocate (kind : Kind) (words : Nat) :
    List String → Nat → Option Nat → Run Objects (Nat × Option Nat)
  | [], refused, last => pure (refused, last)
  | name :: rest, refused, last => fun o =>
    let ⟨mode, space, names⟩ := o
    match space.allocate mode kind words with
    | (.error fault, space) => .error fault ⟨mode, space, names⟩
    | (.ok none, space) => allocate kind words rest (refused + 1) last ⟨mode, space, names⟩
    | (.ok (some address), space) =>
      allocate kind words rest refused (some address) ⟨mode, space, (name, address) :: names⟩

/-- Whether objects of this payload have a place inside a block. -/
def isSmall (words : Nat) : Bool :=
  (words + 1) * wordBytes ≤ 2048

/-- Sets every payload word to ones. -/
def fill (name : String) : Run Objects Nat := fun o =>
  match o.address name with
  | .error fault => .error fault o
  | .ok address =>
    let words := (o.space.header address).words
    let space := (List.range words).foldl
      (fun space index => space.setWord address index 0xffffffffffffffff) o.space
    .ok words { o with space }

/-- Marks an object; tells whether it was unmarked. -/
def mark (name : String) : Run Objects Bool := fun o =>
  match o.address name with
  | .error fault => .error fault o
  | .ok address =>
    let fresh := (o.space.header address).tryMark.1
    .ok fresh { o with space := o.space.modifyHeader address (·.tryMark.2) }

/-- Looks for the object at a distance from a named one; gives the distance of what is found. -/
def find (o : Objects) (name : String) (plus : Int) (interior : Bool) :
    Except Fault (Option Int) := do
  let address ← o.address name
  let target := ((address + plus) % wordLimit).toNat
  return (o.space.findObject? target interior).map fun (found : Nat) => (found : Int) - address

def sweep (o : Objects) : Swept × Objects :=
  let (swept, space) := o.space.sweep
  (swept, { o with space })

end Objects

end Substrate.Session
