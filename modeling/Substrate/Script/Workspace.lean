import Substrate.Machine.Nesting
import Substrate.Machine.Roots
import Substrate.Machine.Threads
import Substrate.Script.Datum
import Substrate.Script.Syntax

/-!
# Workspaces

What a script keeps beside its machine: names for values, roots, slots, buffers and blocks, the
forms of the closures it made, what it holds back, and its log. A handle does not keep its object
alive. Once the object is reclaimed the handle dies; until its death is told, it still stands for
the word it was made from.

`Script` are the computations of a script. They go on until one of them unwinds.
-/

namespace Substrate.Script

structure Handle where
  name : String
  value : Value
  /-- The number of the weak reference that tells whether the object is gone. -/
  reference : Nat
  /-- Whether it is known to be dead. -/
  dead : Bool

structure Workspace where
  handles : List Handle
  roots : List (String × Nat)
  slots : List (String × Nat)
  buffers : List (String × Region)
  blocks : List (String × Value)
  /-- Forms that closures evaluate, by number. -/
  forms : Array Form
  held : List (String × Unwind)
  /-- How many cleanups of towers ran. -/
  cleanups : Nat
  log : Array Datum

namespace Workspace

def empty : Workspace := ⟨[], [], [], [], [], #[], [], 0, #[]⟩

/-- What a thread that the script spawns starts with. -/
def forSpawned (w : Workspace) : Workspace :=
  { empty with handles := w.handles, blocks := w.blocks, forms := w.forms }

end Workspace

/-- Replaces the entry of a name. -/
def assign {α : Type} (entries : List (String × α)) (name : String) (a : α) : List (String × α) :=
  (name, a) :: entries.filter (·.1 != name)

end Script

/-- A computation of a script. -/
def Script (α : Type) : Type := Op Script.Workspace (Outcome α)

namespace Script

variable {α : Type}

/-- A script from the operation that it stands for. -/
@[inline] def ofOutcome (x : Op Workspace (Outcome α)) : Script α := x

/-- The operation that a script stands for. -/
@[inline] def run (x : Script α) : Op Workspace (Outcome α) := x

/-- An operation that does not unwind. -/
@[inline] def op (x : Op Workspace α) : Script α := fun m =>
  match x m with
  | .ok a m => .ok (.ok a) m
  | .error fault m => .error fault m

@[inline] def unwind (u : Unwind) : Script α := fun m => .ok (.error u) m

def fail (e : Error) : Script α := unwind (.error e)

@[inline] def andThen {β : Type} (x : Script α) (f : α → Script β) : Script β := fun m =>
  match x m with
  | .ok (.ok a) m => f a m
  | .ok (.error u) m => .ok (.error u) m
  | .error fault m => .error fault m

instance : Monad Script where
  pure a := fun m => .ok (.ok a) m
  bind := andThen

/-! ## Workspace access -/

def workspace : Script Workspace := op (fun m => .ok m.client m)

@[inline] def modifyWorkspace (f : Workspace → Workspace) : Op Workspace Unit :=
  modify fun m => { m with client := f m.client }

def logDatum (d : Datum) : Op Workspace Unit :=
  modifyWorkspace fun w => { w with log := w.log.push d }

/-- The value of a handle that is not known to be dead. -/
def handle (name : String) : Script Value := do
  match (← workspace).handles.find? (·.name == name) with
  | none => fail (.signal ("no handle " ++ name))
  | some h => if h.dead then fail (.signal ("dead handle " ++ name)) else pure h.value

/-- How many collections there were. -/
def collectionCount : Op Workspace Nat := do return (← get).heap.collections

/-- Tells the handles that died in a collection: their names, in order. From now on they are
dead. -/
def tellDead : Op Workspace (List String) := do
  let m ← get
  let died (h : Handle) : Bool := !h.dead && (m.weak? h.reference).isNone
  let names := (m.client.handles.filter died).map (·.name)
  modifyWorkspace fun w =>
    { w with handles := w.handles.map fun h => if died h then { h with dead := true } else h }
  return names.mergeSort fun a b => a ≤ b

/-- Makes a value a handle, in place of the one of that name. -/
def setHandle (name : String) (v : Value) : Op Workspace Unit := do
  let reference ← Machine.makeWeak v
  modifyWorkspace fun w =>
    { w with handles := ⟨name, v, reference, false⟩ :: w.handles.filter (·.name != name) }

/-- The location of a root. -/
def rootLocation (name : String) : Script Nat := do
  match (← workspace).roots.lookup name with
  | some location => pure location
  | none => fail (.signal ("no root " ++ name))

def root (name : String) : Script Value := do
  let location ← rootLocation name
  op (Machine.readSlot location)

/-- Makes a root, in place of the one of that name. -/
def setRoot (name : String) (v : Value) : Op Workspace Unit := do
  let location ← Machine.makeRoot v
  match (← get).client.roots.lookup name with
  | some old => Machine.dropRoot old
  | none => pure ()
  modifyWorkspace fun w => { w with roots := assign w.roots name location }

def block (name : String) : Script Value := do
  match (← workspace).blocks.lookup name with
  | some tag => pure tag
  | none => fail (.signal ("no block " ++ name))

/-- Adds a form; gives its number. -/
def addForm (form : Form) : Op Workspace Nat := fun m =>
  .ok m.client.forms.size { m with client := { m.client with forms := m.client.forms.push form } }

end Script

end Substrate
