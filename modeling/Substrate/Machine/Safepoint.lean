import Substrate.Machine.Basic

/-!
# Stopping the world

The code that makes all threads of a machine stop for a collection, one atomic access or one lock
operation at a time, for any number of threads.

A collector holds the heap, takes the thread registry and the roots, raises a flag and waits until
no other registered thread is `running`. Threads see the flag when they poll it, or when they come
back from a safe region: they first say that they are `running` and only then look at the flag, so
that either they see it or the collector sees them. Those that see it park on a monitor until the
collector lowers the flag and wakes them.

`State.move` is one step of one thread; a move that the thread cannot make is refused. A thread that
records its stack pointer does so in the step that follows: nobody looks at it before that.

Each thread stores only its own state. The handle of a thread can be shared with native threads that are
not attached as that thread, and safepoints and safe regions do not ask who calls them. What such a
native thread stores through somebody else's handle is not modelled here.
-/

namespace Substrate.Safepoint

/-- What a thread goes on with once it is back from a safe region. -/
inductive Purpose where
  /-- Client code. -/
  | mutate
  /-- Allocation or collection; the thread holds the heap. -/
  | heap
  /-- Its own removal from the registry, which it holds. -/
  | detach
  deriving DecidableEq, Repr

/-- Where a thread is. -/
inductive Place where
  /-- Not attached. -/
  | outside
  /-- Has its number, about to take the registry to be added. -/
  | attaching
  /-- Holds the registry and is about to be added. -/
  | adding
  /-- Was added and is about to let go of the registry. -/
  | added
  /-- Runs client code that may touch the heap. -/
  | mutating
  /-- Runs client code in a safe region. -/
  | safe
  /-- Found the lock that its purpose needs held, about to see whether it is in a safe region, and
  whether it is. -/
  | yielding (inside : Bool) (purpose : Purpose)
  /-- About to enter a safe region. -/
  | sheltering (purpose : Purpose)
  /-- Waits for the lock that its purpose needs, in a safe region entered for that. -/
  | awaiting (purpose : Purpose)
  /-- Waits for the lock that its purpose needs, in a safe region that goes on after that. -/
  | blocked (purpose : Purpose)
  /-- Back from a safe region or from parking, about to say that it is running. -/
  | resuming (purpose : Purpose)
  /-- Has said that it is running, about to look at the flag. -/
  | rechecking (purpose : Purpose)
  /-- Has seen the flag, about to say that it waits. -/
  | stopping (purpose : Purpose)
  /-- About to take the monitor. -/
  | entering (purpose : Purpose)
  /-- Holds the monitor, about to look at the flag. -/
  | checking (purpose : Purpose)
  /-- Holds the monitor and has seen the flag, about to park. -/
  | parking (purpose : Purpose)
  /-- Has given the monitor up until it is woken. -/
  | parked (purpose : Purpose)
  /-- Holds the monitor and is done waiting, about to wake those that still wait. -/
  | exiting (purpose : Purpose)
  /-- About to let go of the monitor. -/
  | quitting (purpose : Purpose)
  /-- Not attached, waits for the heap. -/
  | visiting
  /-- Holds the heap: allocates from it, begins a collection or lets go of it. -/
  | holding
  /-- Begins a collection, about to take the registry. -/
  | takingRegistry
  /-- Holds heap and registry, about to take the roots. -/
  | takingRoots
  /-- Holds heap, registry and roots, about to raise the flag. -/
  | raising
  /-- Has raised the flag; the listed threads may still be running. -/
  | watching (left : List Nat)
  /-- All other threads have stopped: marks and sweeps. -/
  | collecting
  /-- Done, holds the monitor and is about to lower the flag. -/
  | lowering
  /-- Has lowered the flag, about to wake the parked threads. -/
  | waking
  /-- About to wake the parked threads once more, as everyone who leaves the monitor does. -/
  | leaving
  /-- About to let go of the monitor. -/
  | unlocking
  /-- About to let go of the roots. -/
  | releasingRoots
  /-- About to let go of the registry. -/
  | releasingRegistry
  /-- Holds the registry and is about to be removed from it. -/
  | removing
  /-- Was removed and is about to let go of the registry. -/
  | removed
  deriving DecidableEq, Repr, Inhabited

/-- What a thread can be told to do. -/
inductive Move where
  /-- Takes the only step there is. -/
  | advance
  /-- Begins to attach. -/
  | attach
  /-- Begins to detach. -/
  | detach
  /-- Looks at the flag. -/
  | poll
  /-- Enters a safe region. -/
  | enterSafe
  /-- Leaves the safe region. -/
  | leaveSafe
  /-- Takes the heap. -/
  | lockHeap
  /-- Begins a collection. -/
  | collect
  /-- Wakes up, for whatever reason. -/
  | wake
  /-- Dies in its collection. -/
  | fail
  deriving DecidableEq, Repr

structure State where
  /-- Whether a collection has been announced. -/
  flag : Bool
  heap : Option Nat
  registry : Option Nat
  roots : Option Nat
  monitor : Option Nat
  /-- The registered threads, in the order they were attached. -/
  members : List Nat
  /-- The number that the next attached thread gets. Numbers never come back. -/
  next : Nat
  /-- The number of each thread, by which a collector knows itself in the registry. -/
  number : Nat → Nat
  /-- What each thread says that it is doing. -/
  status : Nat → GcState
  place : Nat → Place

namespace State

/-- No thread is attached and nothing is held. -/
def initial : State where
  flag := false
  heap := none
  registry := none
  roots := none
  monitor := none
  members := []
  next := 0
  number _ := 0
  status _ := .running
  place _ := .outside

/-- Puts a thread to another place. -/
def goto (s : State) (thread : Nat) (place : Place) : State :=
  { s with place := fun other => if other = thread then place else s.place other }

/-- A thread says what it is doing. -/
def say (s : State) (thread : Nat) (state : GcState) : State :=
  { s with status := fun other => if other = thread then state else s.status other }

/-- A thread gets a number of its own. -/
def enroll (s : State) (thread : Nat) : State :=
  { s with
    number := fun other => if other = thread then s.next else s.number other
    next := s.next + 1 }

/-- The number by which a thread knows itself, if it is attached. -/
def current? (s : State) (thread : Nat) : Option Nat :=
  if thread ∈ s.members then some (s.number thread) else none

/-- The threads that have to stop for a collection of the given one. -/
def others (s : State) (thread : Nat) : List Nat :=
  s.members.filter fun other => some (s.number other) != s.current? thread

end State

/-- Where a thread that is back from a safe region goes on. -/
def Purpose.place : Purpose → Place
  | mutate => .mutating
  | heap => .holding
  | detach => .removing

/-- Where a thread waits in the safe region that it has entered. -/
def Purpose.refuge : Purpose → Place
  | mutate => .safe
  | purpose => .awaiting purpose

/-- Where a thread is after it was woken; it has to take the monitor again. -/
def Place.woken : Place → Place
  | parked purpose => .entering purpose
  | place => place

namespace State

/-- Wakes all parked threads. -/
def wakeAll (s : State) : State :=
  { s with place := fun thread => (s.place thread).woken }

/-- The one step that a thread can take on its own. -/
def advance (s : State) (thread : Nat) : Place → Option State
  | .attaching =>
    if s.registry = none then some ({ s with registry := some thread }.goto thread .adding)
    else none
  | .adding => some ({ s with members := s.members ++ [thread] }.goto thread .added)
  | .added => some ({ s with registry := none }.goto thread .mutating)
  | .yielding _ purpose =>
    some (s.goto thread (if s.status thread = .running then .sheltering purpose else .blocked purpose))
  | .sheltering purpose => some ((s.say thread .safe).goto thread purpose.refuge)
  | .awaiting .heap =>
    if s.heap = none then some ({ s with heap := some thread }.goto thread (.resuming .heap))
    else none
  | .awaiting .detach =>
    if s.registry = none then
      some ({ s with registry := some thread }.goto thread (.resuming .detach))
    else none
  | .blocked .heap =>
    if s.heap = none then some ({ s with heap := some thread }.goto thread .holding) else none
  | .blocked .detach =>
    if s.registry = none then some ({ s with registry := some thread }.goto thread .removing)
    else none
  | .resuming purpose => some ((s.say thread .running).goto thread (.rechecking purpose))
  | .rechecking purpose =>
    some (s.goto thread (if s.flag then .stopping purpose else purpose.place))
  | .stopping purpose => some ((s.say thread .waiting).goto thread (.entering purpose))
  | .entering purpose =>
    if s.monitor = none then
      some ({ s with monitor := some thread }.goto thread (.checking purpose))
    else none
  | .checking purpose =>
    some (s.goto thread (if s.flag then .parking purpose else .exiting purpose))
  | .parking purpose => some ({ s with monitor := none }.goto thread (.parked purpose))
  | .exiting purpose => some (s.wakeAll.goto thread (.quitting purpose))
  | .quitting purpose => some ({ s with monitor := none }.goto thread (.resuming purpose))
  | .visiting =>
    if s.heap = none then some ({ s with heap := some thread }.goto thread .holding) else none
  | .holding =>
    some ({ s with heap := none }.goto thread
      (if s.status thread = GcState.running then
        if thread ∈ s.members then .mutating else .outside
      else .safe))
  | .takingRegistry =>
    if s.registry = none then some ({ s with registry := some thread }.goto thread .takingRoots)
    else none
  | .takingRoots =>
    if s.roots = none then some ({ s with roots := some thread }.goto thread .raising) else none
  | .raising => some ({ s with flag := true }.goto thread (.watching (s.others thread)))
  | .watching [] => some (s.goto thread .collecting)
  | .watching (other :: left) =>
    if s.status other = .running then none else some (s.goto thread (.watching left))
  | .collecting =>
    if s.monitor = none then some ({ s with monitor := some thread }.goto thread .lowering)
    else none
  | .lowering => some ({ s with flag := false }.goto thread .waking)
  | .waking => some (s.wakeAll.goto thread .leaving)
  | .leaving => some (s.wakeAll.goto thread .unlocking)
  | .unlocking => some ({ s with monitor := none }.goto thread .releasingRoots)
  | .releasingRoots => some ({ s with roots := none }.goto thread .releasingRegistry)
  | .releasingRegistry => some ({ s with registry := none }.goto thread .holding)
  | .removing => some ({ s with members := s.members.filter (· != thread) }.goto thread .removed)
  | .removed =>
    some ({ s with registry := none }.goto thread
      (if s.status thread = GcState.running then .outside else .safe))
  | .outside | .mutating | .safe | .awaiting .mutate | .blocked .mutate | .parked _ => none

/-- What client code of an attached thread can do, `inside` or outside of a safe region. Regions in a
safe region have no effect of their own, and a thread that has polled in a safe region is running when
the region ends. -/
def act (s : State) (thread : Nat) (inside : Bool) : Move → Option State
  | .poll => some (if s.flag then s.goto thread (.stopping .mutate) else s)
  | .enterSafe => some (if s.status thread = .running then s.goto thread (.sheltering .mutate) else s)
  | .leaveSafe => some (s.goto thread (.resuming .mutate))
  | .lockHeap =>
    if s.heap = none then some ({ s with heap := some thread }.goto thread .holding)
    else some (s.goto thread (.yielding inside .heap))
  | .detach =>
    if s.registry = none then some ({ s with registry := some thread }.goto thread .removing)
    else some (s.goto thread (.yielding inside .detach))
  | _ => none

/-- One step of a thread. A lock that is free is taken at once; one that is held is waited for in a
safe region, unless the collection itself waits for it. -/
def move (s : State) (thread : Nat) (m : Move) : Option State :=
  match s.place thread, m with
  | place, .advance => s.advance thread place
  | .outside, .attach => some (((s.enroll thread).say thread .running).goto thread .attaching)
  | .outside, .lockHeap => some (s.goto thread .visiting)
  | .mutating, m => s.act thread false m
  | .safe, m => s.act thread true m
  | .holding, .collect => some (s.goto thread .takingRegistry)
  | .parked purpose, .wake => some (s.goto thread (.entering purpose))
  | .collecting, .fail => some (s.goto thread .releasingRoots)
  | _, _ => none

end State

/-- The states that some run leads to. -/
inductive Reachable : State → Prop where
  | initial : Reachable .initial
  | move {s t : State} {thread : Nat} {m : Move} (h : Reachable s)
      (step : s.move thread m = some t) : Reachable t

/-- Whether a thread's collection is under way: all others have stopped, and the flag has not been
lowered yet. -/
def Place.isCollecting : Place → Bool
  | .collecting | .lowering => true
  | _ => false

/-- Whether a thread keeps away from the heap: it is in a safe region, it is parked or about to
park, or it is on its way back and has not found the flag lowered yet. -/
def Place.isStopped : Place → Bool
  | .yielding inside _ => inside
  | .safe | .awaiting _ | .blocked _ | .resuming _ | .rechecking _ | .stopping _ | .entering _
  | .checking _ | .parking _ | .parked _ | .exiting _ | .quitting _ => true
  | _ => false

end Substrate.Safepoint
