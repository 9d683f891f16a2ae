/-!
# Guards

A guard stands for holding a mutex and lets go of it when it is dropped. It can let go for the time
of an action and take the mutex back afterwards. If that action does not return, the guard is
dropped all the same.

`State.move` is one step of one thread over a raw lock that remembers its holder. A thread can have
several guards at a time, since the action of a released guard may take the mutex again.
-/

namespace Substrate.Lock.Guard

/-- What a guard has of its mutex. -/
inductive Phase where
  | guarding
  /-- The mutex is released for the time of an action. -/
  | released
  deriving DecidableEq, Repr

inductive Move where
  /-- Takes the mutex; a thread that finds it held waits. -/
  | lock
  /-- Takes the mutex if it is free. -/
  | tryLock
  /-- Drops the innermost guard. -/
  | drop
  /-- Lets go for the time of an action. -/
  | release
  /-- The action returned: takes the mutex back. -/
  | regain
  /-- The action did not return: its guard is dropped on the way out. -/
  | unwind
  deriving DecidableEq, Repr

structure State where
  /-- The thread that took the raw lock last and has not let go. -/
  holder : Option Nat
  /-- The guards of each thread, the innermost first. -/
  guards : List (List Phase)
  /-- Threads that let go of the raw lock without holding it, the latest first. -/
  stray : List Nat
  deriving Repr

namespace State

def initial (threads : Nat) : State :=
  ⟨none, List.replicate threads [], []⟩

/-- The guards of a thread; there are no threads beyond the list. -/
def guardsOf? (s : State) (thread : Nat) : Option (List Phase) :=
  s.guards[thread]?

def withGuards (s : State) (thread : Nat) (guards : List Phase) : State :=
  { s with guards := s.guards.set thread guards }

/-- Takes the raw lock if it is free. -/
def acquire (s : State) (thread : Nat) : Option State :=
  match s.holder with
  | none => some { s with holder := some thread }
  | some _ => none

/-- Lets go of the raw lock, whoever holds it. -/
def unlock (s : State) (thread : Nat) : State :=
  if s.holder = some thread then { s with holder := none }
  else { s with holder := none, stray := thread :: s.stray }

/-- One step of a thread. -/
def move (s : State) (thread : Nat) (m : Move) : Option State :=
  match m, s.guardsOf? thread with
  | .lock, some guards => (s.acquire thread).map (·.withGuards thread (.guarding :: guards))
  | .tryLock, some guards =>
    match s.acquire thread with
    | some s => some (s.withGuards thread (.guarding :: guards))
    | none => some s
  | .drop, some (.guarding :: guards) => some ((s.unlock thread).withGuards thread guards)
  | .release, some (.guarding :: guards) =>
    some ((s.unlock thread).withGuards thread (.released :: guards))
  | .regain, some (.released :: guards) =>
    (s.acquire thread).map (·.withGuards thread (.guarding :: guards))
  | .unwind, some (.released :: guards) => some ((s.unlock thread).withGuards thread guards)
  | _, _ => none

end State

/-- The states that some run leads to. -/
inductive Reachable (threads : Nat) : State → Prop where
  | initial : Reachable threads (.initial threads)
  | move {s t : State} {thread : Nat} {m : Move} (h : Reachable threads s)
      (step : s.move thread m = some t) : Reachable threads t

end Substrate.Lock.Guard
