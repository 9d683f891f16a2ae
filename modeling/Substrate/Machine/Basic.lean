import Substrate.Control
import Substrate.Heap
import Substrate.Machine.Memory
import Substrate.Options
import Substrate.SymbolTable

/-!
# Machines

A machine is one heap with its roots, its symbols and the threads attached to it. One thread runs;
the others wait for it in safe regions. The machine also carries the state of its client, so that
bodies and closure entries can work on both.

`Op` are the operations of the running thread. A fault leaves the machine as it is at that moment;
locks that were taken on the way are let go.
-/

namespace Substrate

/-- What a thread is doing, as a collector sees it. -/
inductive GcState where
  /-- May touch the heap at any time. -/
  | running
  /-- Parked until the collection under way is over. -/
  | waiting
  /-- Inside a safe region, away from the heap. -/
  | safe
  deriving DecidableEq, Repr

def GcState.code : GcState → Nat
  | running => 0
  | waiting => 1
  | safe => 2

structure Thread where
  id : Nat
  state : GcState
  control : ControlStack
  deriving Repr

/-- The locks of a machine. None of them can be taken twice by one thread. -/
inductive Guarded where
  | heap
  | roots
  | threads
  | symbols
  deriving DecidableEq, Repr

/-- A finalizer that ran: its label, the object, and the object's kind and the locks of its thread at
that time. -/
structure FinalizerReport where
  label : String
  kind : Kind
  object : Value
  /-- Whether the client is asked to hold on to the object. -/
  keep : Bool
  /-- The locks that the running thread held. -/
  held : List Guarded
  deriving Repr

structure Machine (γ : Type) where
  mode : Mode
  options : Options
  heap : Heap
  roots : Registry
  memory : Memory
  symbols : SymbolTable
  running : Thread
  /-- Threads that wait for the running one to end, the latest first. -/
  waiting : List Thread
  nextThread : Nat
  nextBinding : Nat
  /-- Whether a collection has stopped the other threads. -/
  collecting : Bool
  /-- Locks that the running thread holds. -/
  held : List Guarded
  /-- References that do not keep their object alive. A reference is lost with its object. -/
  weak : Array (Option Value)
  log : Array LogRecord
  reports : List FinalizerReport
  client : γ

/-- An operation of the running thread. -/
abbrev Op (γ α : Type) : Type := EStateM Fault (Machine γ) α

/-- What a body comes back with: a value, or the reason why it unwinds. -/
abbrev Outcome (α : Type) : Type := Except Unwind α

/-- Stands in for a heap that is being worked on. -/
def Heap.vacant : Heap := .new .debug ⟨0, 0, .two, false⟩

/-- Stands in for a thread that is being worked on. -/
def Thread.vacant : Thread := ⟨0, .running, .new 0 0⟩

/-- Works on the control stack of a thread. -/
@[noinline] def Thread.onControl {α : Type} (t : Thread) (f : ControlStack → α × ControlStack) :
    α × Thread :=
  let ⟨id, state, control⟩ := t
  let (a, control) := f control
  (a, ⟨id, state, control⟩)

namespace Machine

variable {γ α : Type}

/-! ## Log and faults -/

/-- Writes a record to the log. -/
def note (level : Level) (target message : String) : Op γ Unit :=
  modify fun m => { m with log := m.log.push ⟨level, target, message⟩ }

/-- Raises a fault; a fatal error is written to the log first. -/
def raise (fault : Fault) : Op γ α := do
  match fault.record? with
  | some record => modify fun m => { m with log := m.log.push record }
  | none => pure ()
  throw fault

def raiseFatal (kind : FatalKind) (message : String) : Op γ α :=
  raise (.fatal kind message)

/-- Continues with the result of a computation, or raises its fault. -/
def ofExcept (result : Except Fault α) : Op γ α :=
  match result with
  | .ok a => pure a
  | .error fault => raise fault

/-- Reads the objects in the heap. -/
@[inline] def view (f : Mode → Space → Except Fault α) : Op γ α := fun m =>
  ofExcept (f m.mode m.heap.space) m

/-- Works on the heap. -/
@[inline] def onHeap (x : Run Heap α) : Op γ α := fun m =>
  let heap := m.heap
  let m := { m with heap := .vacant }
  match x heap with
  | .ok a heap => .ok a { m with heap }
  | .error fault heap => raise fault { m with heap }

/-- Works on the objects in the heap. -/
@[inline] def onSpace (x : Mode → Run Space α) : Op γ α := fun m =>
  onHeap (Heap.onSpace (x m.mode)) m

/-- Applies a function to the heap. -/
@[inline] def modifyHeap (f : Heap → Heap) : Op γ Unit := fun m =>
  let heap := m.heap
  let m := { m with heap := .vacant }
  .ok () { m with heap := f heap }

/-- A condition that only a debug build checks. -/
def expect (condition : Bool) (message : Unit → Op γ String) : Op γ Unit := do
  if condition then return
  match (← get).mode with
  | .debug => raiseFatal .contractViolation (← message ())
  | .release => return

/-! ## Locks -/

/-- Runs an operation with a lock held. Waiting for a lock of one's own never ends. The lock is let
go on every way out. -/
@[inline] def withLock (lock : Guarded) (x : Op γ α) : Op γ α := fun m =>
  if m.held.contains lock then .error .blocked m
  else
    match x { m with held := lock :: m.held } with
    | .ok a m => .ok a { m with held := m.held.erase lock }
    | .error fault m => .error fault { m with held := m.held.erase lock }

/-! ## Threads -/

/-- The attached threads, in the order they were attached. -/
def threads (m : Machine γ) : List Thread :=
  m.waiting.reverse ++ [m.running]

/-- Works on the control stack of the running thread. -/
@[inline] def onControl (f : ControlStack → α × ControlStack) : Op γ α := fun m =>
  let running := m.running
  let m := { m with running := .vacant }
  let (a, running) := running.onControl f
  .ok a { m with running }

/-- Applies a function to the control stack of the running thread. -/
@[inline] def modifyControl (f : ControlStack → ControlStack) : Op γ Unit :=
  onControl fun c => ((), f c)

/-- Looks at the control stack of the running thread. -/
@[noinline] def control (f : ControlStack → α) : Op γ α := fun m =>
  .ok (f m.running.control) m

def setState (state : GcState) : Op γ Unit :=
  modify fun m => { m with running := { m.running with state } }

/-- Parks the running thread until the collection under way is over. The thread that runs it would
have to go on for that, and here no other thread is left to. -/
def park : Op γ Unit := do
  setState .waiting
  note .trace "safepoint" ("thread " ++ toString (← get).running.id ++ " parked")
  throw .blocked

/-- Goes back to running. -/
def resume : Op γ Unit := do
  setState .running
  if (← get).collecting then park
  note .trace "safepoint" ("thread " ++ toString (← get).running.id ++ " running")

/-- Polls for a collection and waits until it is over. -/
def safepoint : Op γ Unit := do
  if (← get).collecting then
    park
    resume

/-- Runs an operation in a safe region, so that collections need not wait for it. The thread goes
back to running on every way out; a region inside a region changes nothing. -/
def safeRegion (x : Op γ α) : Op γ α := fun m =>
  if m.running.state ≠ .running then x m
  else
    match (do setState .safe; x : Op γ α) m with
    | .ok a m =>
      match resume m with
      | .ok () m => .ok a m
      | .error fault m => .error fault m
    | .error fault m =>
      match resume m with
      | .ok () m => .error fault m
      | .error fault m => .error fault m

/-! ## Weak references -/

/-- Makes a weak reference to a value; gives its number. -/
def makeWeak (v : Value) : Op γ Nat := fun m =>
  .ok m.weak.size { m with weak := m.weak.push (some v) }

/-- The value of a weak reference, unless its object is gone. -/
def weak? (m : Machine γ) (number : Nat) : Option Value :=
  (m.weak[number]?).join

/-- Drops the references whose object is gone. -/
def clearWeak (m : Machine γ) : Machine γ :=
  { m with
    weak := m.weak.map fun reference => reference.filter fun v => !v.isHeapRef || m.heap.isLive v }

end Machine

end Substrate
