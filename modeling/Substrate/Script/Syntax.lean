import Substrate.Object

/-!
# Scripts

A script works on a machine by two kinds of phrases. An `Expr` makes or finds a value; it may
allocate. A `Form` is evaluated: it can establish scopes, exit, fail, call and log.
-/

namespace Substrate.Script

/-- Code that a closure can run. -/
inductive Entry where
  /-- Yields how many arguments there are. -/
  | count
  /-- Yields the first argument. -/
  | first
  /-- Yields the closure's environment. -/
  | env
  /-- Calls the environment with the same arguments. -/
  | callEnv
  /-- Calls the closure itself with the same arguments. -/
  | recurse
  /-- Calls the closure itself with one less, down to zero. -/
  | countdown
  /-- Leaves the calls in progress in the values register. -/
  | backtrace
  /-- Exits to the first argument with the second. -/
  | throwFirst
  | error
  /-- Evaluates the form that the environment numbers. -/
  | form
  deriving DecidableEq, Repr

namespace Entry

def all : List Entry :=
  [count, first, env, callEnv, recurse, countdown, backtrace, throwFirst, error, form]

/-- The word that stands for the code; never zero. -/
def code (entry : Entry) : Word := UInt64.ofNat (all.idxOf entry + 1)

def ofCode? (code : Word) : Option Entry :=
  all.find? (·.code == code)

end Entry

/-- What a tower of scopes is made of. -/
inductive Tower where
  | catching
  | protecting
  | binding
  deriving DecidableEq, Repr

/-- What is asked of a thread from elsewhere. -/
inductive Probe where
  /-- Anything that needs the control stack. -/
  | control
  | owner
  | id
  | state
  | attached
  deriving DecidableEq, Repr

mutual

inductive Expr where
  | number (n : Int)
  /-- A value that needs no machine. -/
  | known (v : Value)
  | immediate (kind : Kind) (bits : Word)
  /-- The interned symbol of a name. -/
  | symbol (name : String)
  | handle (name : String)
  | root (name : String)
  /-- The tag of the latest block of a name. -/
  | block (name : String)
  /-- An argument of the innermost form that is being called. -/
  | argument (index : Nat)
  | string (text : String)
  | repeated (text : String) (count : Nat)
  | uninterned (name : String)
  | cons (car cdr : Expr)
  | list (elements : List Expr)
  /-- The list of the numbers below `count`. -/
  | range (count : Nat)
  /-- Conses nested in their cars. -/
  | chain (count : Nat)
  | vector (elements : List Expr)
  | filled (length : Nat) (fill : Expr)
  | double (bits : Word)
  | bignum (negative : Bool) (limbs : List Word)
  | ratio (numerator denominator : Expr)
  | complex (real imag : Expr)
  | record (type : Expr) (slots : List Expr)
  | stream (mode : StreamMode) (elementType buffer : Expr) (handle : Word)
  | foreign (address size : Word) (tag : Expr)
  | closure (entry : Entry) (env name : Expr)
  | lambda (body : Form) (name : Expr)
  | raw (kind : Kind) (bytes : Nat)

inductive Form where
  | value (e : Expr)
  | seq (body : List Form)
  | catching (tag : Expr) (body : List Form)
  | block (name : String) (body : List Form)
  | exit (tag : Expr) (value : Expr)
  | exitValues (tag : Expr) (values : List Expr)
  | protect (body : Form) (cleanup : List Form)
  | bind (symbol value : Expr) (body : List Form)
  | get (symbol : Expr)
  | set (symbol value : Expr)
  | isBound (symbol : Expr)
  | values
  | setValues (values : List Expr)
  | depth
  | error (text : String)
  | call (closure : Expr) (args : List Expr)
  | backtrace
  | log (e : Expr)
  | note (form : Form)
  /-- Drops whatever the form unwinds with. -/
  | discard (form : Form)
  /-- Handles errors of the form. -/
  | handle (form : Form)
  | toplevel (form : Form)
  /-- Stops faults of the form. -/
  | fence (form : Form)
  /-- Keeps what the form unwinds with under a name. -/
  | hold (name : String) (form : Form)
  /-- Unwinds with what is kept under a name. -/
  | release (name : String)
  | collect
  /-- Makes the value a handle. -/
  | keep (name : String) (form : Form)
  | nest (count : Nat) (tower : Tower) (form : Form)
  | cleanups
  | iterate (count : Nat) (form : Form)
  | spawn (form : Form)
  | spawnExit (tag : Expr)
  | probe (what : Probe)

end

end Substrate.Script
