/-!
# The lock word

A lock is one byte with three states. `contended` means that the lock is held and that some thread
may be parked on it, so that its holder has to wake one when it lets go. A thread that was woken
takes the lock as `contended` again, since it cannot know whether others are still parked.
-/

namespace Substrate.Lock

inductive Word where
  | unlocked
  | locked
  | contended
  deriving DecidableEq, Repr, Inhabited

namespace Word

def isLocked (w : Word) : Bool := w != unlocked

/-- Takes the lock if it is free; tells whether it was. -/
def tryLock : Word → Bool × Word
  | unlocked => (true, locked)
  | w => (false, w)

/-- One attempt of a thread that is prepared to park: whatever the state was, it is `contended`
now, and the lock is the thread's if it was free. -/
def swapContended (w : Word) : Bool × Word :=
  (!w.isLocked, contended)

/-- Whether a thread that is about to park still has to. -/
def mayPark (w : Word) : Bool := w == contended

/-- Lets go of the lock; tells whether a parked thread has to be woken. -/
def unlock (w : Word) : Bool × Word :=
  (w == contended, unlocked)

/-- Takes a free lock at once. Nothing comes back if the lock is held, since the thread parks. -/
def lock? (w : Word) : Option Word :=
  match w.tryLock with
  | (true, w) => some w
  | (false, _) => none

/-- The lock is taken if it was free. -/
theorem fst_tryLock (w : Word) : w.tryLock.1 = !w.isLocked := by
  cases w <;> rfl

theorem isLocked_tryLock (w : Word) : w.tryLock.2.isLocked = true := by
  cases w <;> rfl

theorem tryLock_contended (w : Word) : w.tryLock.2 = contended ∨ w ≠ contended := by
  cases w <;> simp [tryLock]

end Word

end Substrate.Lock
