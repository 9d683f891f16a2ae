/-!
# Waiting for notifications

A condition variable is a count of notifications. A waiter reads the count, lets go of its lock and
parks; parking checks that the count is still the same and joins the queue in one step. A notifier
first adds one to the count and then wakes one waiter, or all of them. So a notification that comes
between the reading and the parking is not lost.
-/

namespace Substrate.Lock.Condvar

/-- Where a thread is in the code of the condition variable. -/
inductive Place where
  | outside
  /-- Has read the count and not parked yet. -/
  | reading (count : UInt32)
  /-- Parked after reading the count. -/
  | parked (count : UInt32)
  /-- Has added to the count and is about to wake one waiter. -/
  | wakingOne
  /-- Has added to the count and is about to wake all waiters. -/
  | wakingAll
  deriving DecidableEq, Repr, Inhabited

inductive Move where
  /-- Begins to wait. -/
  | read
  | park
  /-- Begins to notify one waiter. -/
  | signal
  /-- Begins to notify all waiters. -/
  | broadcast
  | wake
  /-- Gives up waiting when its time is over. -/
  | timeOut
  deriving DecidableEq, Repr

structure State where
  /-- Notifications so far; the count wraps around. -/
  count : UInt32
  /-- Parked threads, the one that waits longest first. -/
  queue : List Nat
  places : List Place
  deriving Repr

namespace State

def initial (threads : Nat) : State :=
  ⟨0, [], List.replicate threads .outside⟩

/-- Where a thread is; there are no threads beyond the list. -/
def place? (s : State) (thread : Nat) : Option Place :=
  s.places[thread]?

def goto (s : State) (thread : Nat) (place : Place) : State :=
  { s with places := s.places.set thread place }

/-- Takes threads back outside. -/
def release (s : State) (threads : List Nat) : State :=
  threads.foldl (fun s thread => s.goto thread .outside) s

/-- One step of a thread. -/
def move (s : State) (thread : Nat) (m : Move) : Option State :=
  match s.place? thread, m with
  | some .outside, .read => some (s.goto thread (.reading s.count))
  | some (.reading count), .park =>
    if count = s.count then
      some ({ s with queue := s.queue ++ [thread] }.goto thread (.parked count))
    else some (s.goto thread .outside)
  | some (.parked _), .timeOut =>
    some ({ s with queue := s.queue.erase thread }.goto thread .outside)
  | some .outside, .signal => some ({ s with count := s.count + 1 }.goto thread .wakingOne)
  | some .outside, .broadcast => some ({ s with count := s.count + 1 }.goto thread .wakingAll)
  | some .wakingOne, .wake =>
    some (({ s with queue := s.queue.drop 1 }.release (s.queue.take 1)).goto thread .outside)
  | some .wakingAll, .wake => some (({ s with queue := [] }.release s.queue).goto thread .outside)
  | _, _ => none

end State

end Substrate.Lock.Condvar
