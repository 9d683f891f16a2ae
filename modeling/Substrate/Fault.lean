/-!
# Modes, faults and word arithmetic

A computation can stop the thread it runs on: by a fatal error, by a failed assertion or an
arithmetic overflow, or by waiting for something that nobody will ever do. The first two unwind
the thread and can be caught further out; whatever state they left behind stays as it is.

Whether an assertion or an overflow is noticed at all depends on the `Mode`. Addresses and sizes
are natural numbers below `2 ^ 64`; the operations of `Mode` keep them there.
-/

namespace Substrate

/-- How the code is built. A `debug` build checks assertions, contracts and arithmetic. A
`release` build drops the checks, and arithmetic wraps around. -/
inductive Mode where
  | debug
  | release
  deriving DecidableEq, Repr, Inhabited

/-- What a fatal error is about. -/
inductive FatalKind where
  | heapExhausted
  | controlIntegrity
  | contractViolation
  | internal
  deriving DecidableEq, Repr

/-- The words a fatal kind is announced with. -/
def FatalKind.title : FatalKind → String
  | heapExhausted => "heap exhausted"
  | controlIntegrity => "control integrity violation"
  | contractViolation => "contract violation"
  | internal => "internal error"

/-- Why a computation did not come back. -/
inductive Fault where
  /-- A fatal error; it is written to the log when it is raised. -/
  | fatal (kind : FatalKind) (message : String)
  /-- A failed assertion, an overflow or any other panic. -/
  | panic (message : String)
  /-- The thread waits for ever. -/
  | blocked
  deriving DecidableEq, Repr

/-- An index that is not below the length of what it indexes. -/
def Fault.outOfBounds (length index : Nat) : Fault :=
  .panic ("index out of bounds: the len is " ++ toString length ++ " but the index is " ++
    toString index)

/-- The line a fatal error is announced with. -/
def fatalLine (kind : FatalKind) (message : String) : String :=
  "fatal " ++ kind.title ++ ": " ++ message

/-- How important a log record is. -/
inductive Level where
  | error
  | warn
  | info
  | debug
  | trace
  deriving DecidableEq, Repr

/-- One line of the log: its level, the part of the machine that wrote it and the text. -/
structure LogRecord where
  level : Level
  target : String
  message : String
  deriving DecidableEq, Repr

/-- The record a fault leaves in the log when it is raised. Only fatal errors leave one. -/
def Fault.record? : Fault → Option LogRecord
  | .fatal kind message => some ⟨.error, "lisprt::fatal", fatalLine kind message⟩
  | .panic _ => none
  | .blocked => none

/-! ## Checks that only a debug build makes -/

namespace Mode

/-- Fails with the text of the condition when a debug build finds it false. -/
def assert (mode : Mode) (condition : Bool) (text : String) : Except Fault Unit :=
  match mode, condition with
  | .debug, false => .error (.panic ("assertion failed: " ++ text))
  | _, _ => .ok ()

/-- Fails with a message of its own when a debug build finds the condition false. -/
def assertWith (mode : Mode) (condition : Bool) (message : String) : Except Fault Unit :=
  match mode, condition with
  | .debug, false => .error (.panic message)
  | _, _ => .ok ()

/-- A broken contract is fatal in a debug build and goes unnoticed in a release build. -/
def violation (mode : Mode) (message : String) : Except Fault Unit :=
  match mode with
  | .debug => .error (.fatal .contractViolation message)
  | .release => .ok ()

end Mode

/-! ## Word arithmetic -/

/-- Words are the numbers below this one. -/
abbrev wordLimit : Nat := 18446744073709551616

/-- Subtraction modulo `2 ^ 64`. -/
def wrappingSub (a b : Nat) : Nat :=
  (a + wordLimit - b) % wordLimit

namespace Mode

/-- The outcome of an operation whose exact result is out of range: a panic, or the result that
wrapping around gives. -/
def overflow (mode : Mode) (operation : String) (wrapped : Nat) : Except Fault Nat :=
  match mode with
  | .debug => .error (.panic ("attempt to " ++ operation ++ " with overflow"))
  | .release => .ok wrapped

def add (mode : Mode) (a b : Nat) : Except Fault Nat :=
  if a + b < wordLimit then .ok (a + b) else mode.overflow "add" ((a + b) % wordLimit)

def sub (mode : Mode) (a b : Nat) : Except Fault Nat :=
  if b ≤ a then .ok (a - b) else mode.overflow "subtract" (wrappingSub a b)

def mul (mode : Mode) (a b : Nat) : Except Fault Nat :=
  if a * b < wordLimit then .ok (a * b) else mode.overflow "multiply" (a * b % wordLimit)

/-- Division panics on a zero divisor in either mode. -/
def div (_ : Mode) (a b : Nat) : Except Fault Nat :=
  if b = 0 then .error (.panic "attempt to divide by zero") else .ok (a / b)

/-- The remainder panics on a zero divisor in either mode. -/
def mod (_ : Mode) (a b : Nat) : Except Fault Nat :=
  if b = 0 then .error (.panic "attempt to calculate the remainder with a divisor of zero")
  else .ok (a % b)

end Mode

/-! ## Computations that can fault -/

/-- A computation over a state. The state survives a fault. -/
abbrev Run (σ α : Type) : Type := EStateM Fault σ α

/-- Runs a stateless computation inside a stateful one. -/
@[inline] def Run.ofExcept {σ α : Type} (result : Except Fault α) : Run σ α :=
  match result with
  | .ok a => pure a
  | .error fault => throw fault

namespace Run

variable {σ α β : Type} {s s' : σ} {x : Run σ α}

theorem bind_of_ok {f : α → Run σ β} {a : α} (h : x s = .ok a s') : (x >>= f) s = f a s' := by
  change EStateM.bind x f s = f a s'
  rw [EStateM.bind, h]

theorem bind_of_error {f : α → Run σ β} {fault : Fault} (h : x s = .error fault s') :
    (x >>= f) s = .error fault s' := by
  change EStateM.bind x f s = .error fault s'
  rw [EStateM.bind, h]

end Run

/-! ### How a run ends -/

variable {σ α : Type}

/-- The run comes back, with something that passes the check. -/
def returns (check : α → σ → Bool) : EStateM.Result Fault σ α → Bool
  | .ok a s => check a s
  | .error _ _ => false

theorem exists_of_returns {check : α → σ → Bool} {r : EStateM.Result Fault σ α}
    (h : returns check r = true) : ∃ a s, r = .ok a s ∧ check a s = true := by
  cases r with
  | ok a s => exact ⟨a, s, rfl, h⟩
  | error fault s => cases h

/-- The run fails, with a fault and in a state that pass the check. -/
def fails (check : Fault → σ → Bool) : EStateM.Result Fault σ α → Bool
  | .ok _ _ => false
  | .error fault s => check fault s

theorem exists_of_fails {check : Fault → σ → Bool} {r : EStateM.Result Fault σ α}
    (h : fails check r = true) : ∃ fault s, r = .error fault s ∧ check fault s = true := by
  cases r with
  | ok a s => cases h
  | error fault s => exact ⟨fault, s, rfl, h⟩

end Substrate
