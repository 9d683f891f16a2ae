import Substrate.Lock.Word

/-!
# Locking with parked waiters

The code of the lock, one atomic access at a time. A thread first tries to take the lock; if it
fails it spins for a while, then swaps the word to `contended` and parks as long as that does not
give it the lock. Parking checks the word and joins the queue in one step. Whoever lets go of a
contended lock wakes one of the parked threads.

`State.move` is one step of one thread; a move that the thread cannot make is refused. The holder may
call for the lock again, and then waits for itself. `counter` runs several threads through their
critical sections, one step each in turn; there the thread that waits longest is woken first.
-/

namespace Substrate.Lock.Parking

/-- Where a thread is in the code of the lock. -/
inductive Place where
  /-- Not in the code of the lock, whether or not it holds the lock. -/
  | outside
  /-- About to try for the first time. -/
  | trying
  /-- Waiting for the word to change, without parking. -/
  | spinning
  /-- About to swap the word. -/
  | swapping
  /-- About to park. -/
  | parking
  | parked
  /-- Has let go of a contended lock and is about to wake a thread. -/
  | waking
  deriving DecidableEq, Repr, Inhabited

/-- What a thread does next. -/
inductive Move where
  /-- Calls for the lock. -/
  | call
  /-- Tries to take the lock, without waiting for it. -/
  | attempt
  | tryFirst
  /-- Looking at the word changes nothing, so this may come at any time. -/
  | stopSpinning
  | swap
  | park
  /-- Lets go of the lock. -/
  | unlock
  /-- Wakes the thread at this position of the queue, if any thread is parked. -/
  | wake (position : Nat)
  deriving DecidableEq, Repr

structure State where
  word : Word
  /-- Parked threads, the one that waits longest first. -/
  queue : List Nat
  /-- Where each thread is. -/
  places : List Place
  /-- Threads that have taken the lock and not let go of it, the latest first. -/
  holders : List Nat
  deriving Repr

namespace State

/-- A free lock and `threads` threads. -/
def initial (threads : Nat) : State :=
  ⟨.unlocked, [], List.replicate threads .outside, []⟩

/-- Where a thread is; there are no threads beyond the list. -/
def place? (s : State) (thread : Nat) : Option Place :=
  s.places[thread]?

/-- Puts a thread to another place. -/
def goto (s : State) (thread : Nat) (place : Place) : State :=
  { s with places := s.places.set thread place }

/-- What an access that may take the lock leaves: the word, and the thread outside with the lock or
somewhere else without it. -/
def settle (s : State) (thread : Nat) (access : Bool × Word) (failed : Place) : State :=
  match access with
  | (true, word) => { s with word, holders := thread :: s.holders }.goto thread .outside
  | (false, word) => { s with word }.goto thread failed

/-- One step of a thread. -/
def move (s : State) (thread : Nat) (m : Move) : Option State :=
  match s.place? thread, m with
  | some .outside, .call => some (s.goto thread .trying)
  | some .outside, .attempt => some (s.settle thread s.word.tryLock .outside)
  | some .trying, .tryFirst => some (s.settle thread s.word.tryLock .spinning)
  | some .spinning, .stopSpinning => some (s.goto thread .swapping)
  | some .swapping, .swap => some (s.settle thread s.word.swapContended .parking)
  | some .parking, .park =>
    if s.word.mayPark then some ({ s with queue := s.queue ++ [thread] }.goto thread .parked)
    else some (s.goto thread .swapping)
  | some .outside, .unlock =>
    if thread ∈ s.holders then
      let (contended, word) := s.word.unlock
      some ({ s with word, holders := s.holders.erase thread }.goto thread
        (if contended then .waking else .outside))
    else none
  | some .waking, .wake position =>
    if s.queue = [] then some (s.goto thread .outside)
    else s.queue[position]?.map fun woken =>
      ({ s with queue := s.queue.eraseIdx position }.goto woken .swapping).goto thread .outside
  | _, _ => none

end State

/-- The states that some run leads to. -/
inductive Reachable (threads : Nat) : State → Prop where
  | initial : Reachable threads (.initial threads)
  | move {s t : State} {thread : Nat} {m : Move} (h : Reachable threads s)
      (step : s.move thread m = some t) : Reachable threads t

/-! ## Counting under a lock -/

/-- The move that takes a thread on, if there is one; `more` is whether it wants the lock again. -/
def nextMove? (place : Place) (holds more : Bool) : Option Move :=
  match place with
  | .outside => if holds then some .unlock else if more then some .call else none
  | .trying => some .tryFirst
  | .spinning => some .stopSpinning
  | .swapping => some .swap
  | .parking => some .park
  | .parked => none
  | .waking => some (.wake 0)

/-- Threads that each enter their critical section a number of times and add one there. -/
structure Counting where
  lock : State
  /-- How often each thread still has to enter. -/
  left : List Nat
  total : Nat
  deriving Repr

namespace Counting

/-- One step of a thread. What it does under the lock it does before it lets go. -/
def step (c : Counting) (thread : Nat) : Counting :=
  let left := c.left.getD thread 0
  let holds := c.lock.holders.contains thread
  let next? := (c.lock.place? thread).bind fun place => nextMove? place holds (left != 0)
  match next?.bind (c.lock.move thread) with
  | none => c
  | some lock =>
    if holds then { lock, left := c.left.set thread (left - 1), total := c.total + 1 }
    else { c with lock }

/-- One step of each thread. -/
def round (c : Counting) (threads : Nat) : Counting :=
  (List.range threads).foldl step c

def isDone (c : Counting) : Bool :=
  c.left.all (· == 0)

/-- Rounds until all threads are done, at most `fuel` of them. -/
def run (threads : Nat) : Nat → Counting → Counting
  | 0, c => c
  | fuel + 1, c => if c.isDone then c else run threads fuel (c.round threads)

end Counting

/-- What `threads` threads count that enter `rounds` times each. In every round the holder goes on,
or somebody takes the lock after no more than a few steps. -/
def counter (threads rounds : Nat) : Nat :=
  let start : Counting := ⟨.initial threads, List.replicate threads rounds, 0⟩
  (start.run threads (16 * (threads * rounds + 1))).total

end Substrate.Lock.Parking
