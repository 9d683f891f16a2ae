import Substrate.Error
import Substrate.Value

/-!
# The control stack

Each thread has an explicit stack of frames: catch frames, which exits aim at, frames of protected
bodies, and frames of dynamic bindings. Beside it stand an exit that is under way, what was set
aside while cleanups run, the thread's binding table, its values register and the history of the
calls in progress.

The binding table is shallow: entry `index` is the value that the symbol with this binding index
has on the thread, and an empty entry means that the global value is visible. A binding frame
remembers the entry it replaced.
-/

namespace Substrate

/-- Why a body did not return normally. -/
inductive Unwind where
  /-- An exit to the frame with the given serial number. -/
  | exit (target : Nat)
  | error (error : Error)
  deriving DecidableEq, Repr

inductive FrameKind where
  | catching (tag : Value)
  | protecting
  | binding (symbol : Value) (index : Nat) (previous : Value)
  deriving DecidableEq, Repr

structure Frame where
  serial : Nat
  kind : FrameKind
  deriving DecidableEq, Repr

/-- An exit under way: its frame and the values it carries there. -/
structure PendingExit where
  target : Nat
  values : List Value
  deriving DecidableEq, Repr

/-- What is set aside while a cleanup runs. -/
structure Suspended where
  exit : Option PendingExit
  values : List Value
  deriving DecidableEq, Repr

structure ControlStack where
  /-- The innermost frame is the last one. -/
  frames : Array Frame
  nextSerial : Nat
  pending : Option PendingExit
  /-- The latest one first. -/
  suspended : List Suspended
  bindings : Array Value
  values : List Value
  /-- Closures being called, the innermost last. -/
  history : Array Value
  frameLimit : Nat
  invocationLimit : Nat
  deriving Repr

/-- The values that a frame refers to. -/
def FrameKind.values : FrameKind → List Value
  | catching tag => [tag]
  | protecting => []
  | binding symbol _ previous => [symbol, previous]

namespace ControlStack

def new (frameLimit invocationLimit : Nat) : ControlStack where
  frames := #[]
  nextSerial := 1
  pending := none
  suspended := []
  bindings := #[]
  values := []
  history := #[]
  frameLimit
  invocationLimit

def depth (c : ControlStack) : Nat := c.frames.size

/-- Everything that the stack keeps alive. -/
def references (c : ControlStack) : List Value :=
  c.frames.toList.flatMap (·.kind.values) ++
    (c.pending.toList.flatMap (·.values)) ++
    (c.suspended.reverse.flatMap fun s => s.exit.toList.flatMap (·.values) ++ s.values) ++
    c.bindings.toList ++ c.values ++ c.history.toList

/-! ## Frames -/

/-- Adds a frame, with a serial number of its own, unless the limit is reached. -/
def push (c : ControlStack) (kind : FrameKind) : Except Error Nat × ControlStack :=
  if c.frameLimit ≤ c.frames.size then (.error (.frameStackOverflow c.frameLimit), c)
  else
    (.ok c.nextSerial,
      { c with frames := c.frames.push ⟨c.nextSerial, kind⟩, nextSerial := c.nextSerial + 1 })

/-- Gives back the table entry that a binding frame replaced. -/
def undo (c : ControlStack) (kind : FrameKind) : ControlStack :=
  match kind with
  | .binding _ index previous => { c with bindings := c.bindings.setIfInBounds index previous }
  | _ => c

/-- Removes the innermost frame. -/
def dropTop (c : ControlStack) : ControlStack :=
  match c.frames.back? with
  | some frame => { c with frames := c.frames.pop }.undo frame.kind
  | none => c

/-- The binding index of the innermost frame, if the table has no entry for it any more. -/
def lostBinding? (c : ControlStack) : Option Nat :=
  match c.frames.back? with
  | some ⟨_, .binding _ index _⟩ => if c.bindings.size ≤ index then some index else none
  | _ => none

/-- What is wrong with removing the frame with the given serial number: it has to be the innermost
one. -/
def popProblem? (c : ControlStack) (serial : Nat) : Option String :=
  match c.frames.back? with
  | some frame =>
    if frame.serial = serial then none
    else
      some ("frame #" ++ toString serial ++ " popped while #" ++ toString frame.serial ++
        " is on top of the stack")
  | none => some ("frame #" ++ toString serial ++ " popped from an empty stack")

/-- Removes the given number of frames, the innermost first. -/
def dropFrames : Nat → ControlStack → ControlStack
  | 0, c => c
  | count + 1, c => dropFrames count c.dropTop

/-- The innermost catch frame with the given tag. -/
def findCatch? (c : ControlStack) (tag : Value) : Option Nat :=
  c.frames.findSomeRev? fun frame =>
    match frame.kind with
    | .catching t => if t = tag then some frame.serial else none
    | _ => none

/-! ## Scopes -/

/-- A scope that was entered: the serial number of its frame, and what the stack has to be cut back
to when a fault unwinds through it. -/
structure Scope where
  serial : Nat
  /-- The number of frames below its own. -/
  depth : Nat
  history : Nat
  suspended : Nat
  deriving DecidableEq, Repr

/-- Enters a scope by pushing its frame. -/
def enter (c : ControlStack) (kind : FrameKind) : Except Error Scope × ControlStack :=
  match c.push kind with
  | (.error e, c) => (.error e, c)
  | (.ok serial, c) => (.ok ⟨serial, c.frames.size - 1, c.history.size, c.suspended.length⟩, c)

/-- Cuts the stack back to what it was when the scope was entered. Bindings are undone, no cleanup
runs and no exit stays under way. -/
def abandon (c : ControlStack) (scope : Scope) : ControlStack :=
  let c := dropFrames (c.frames.size - scope.depth) c
  { c with
    history := c.history.shrink scope.history
    suspended := c.suspended.drop (c.suspended.length - scope.suspended)
    pending := none }

/-! ## Bindings -/

/-- The table entry of a binding index; entries that do not exist are empty. -/
def bindingAt (c : ControlStack) (index : Nat) : Value :=
  c.bindings.getD index .empty

/-- Makes sure that the table has an entry for the index. -/
def reserve (c : ControlStack) (index : Nat) : ControlStack :=
  { c with bindings := c.bindings ++ Array.replicate (index + 1 - c.bindings.size) Value.empty }

def setBinding (c : ControlStack) (index : Nat) (value : Value) : ControlStack :=
  { c with bindings := c.bindings.setIfInBounds index value }

/-! ## Calls -/

/-- Closures being called, the innermost first. -/
def backtrace (c : ControlStack) : List Value := c.history.toList.reverse

end ControlStack

end Substrate
