import Mathlib.Logic.Function.Basic
import Substrate.Machine.Scopes
import Substrate.Proofs.Control.Stack

/-!
# Programs and their direct semantics

A `Program` is put together from the control operations. `perform` runs it on a machine, with frames,
an exit under way, exits set aside and a shallow binding table. `evaluate` says directly what it
means: established frames and bindings are a context that is handed inwards, and an exit is an ending
that is handed outwards, together with its values.

Every protected body has a label. When the body starts and when its cleanup starts, the label is
written into a journal, so that the order in which cleanups run can be seen.
-/

namespace Substrate

/-- What is seen of a protected body. -/
inductive CleanupEvent where
  | established (label : Nat)
  | cleaned (label : Nat)
  deriving DecidableEq, Repr

/-- The latest event last. -/
abbrev Journal : Type := List CleanupEvent

inductive Program where
  | result (value : Value)
  | setValues (values : List Value)
  | exit (tag : Value) (values : List Value)
  | fail (error : Error)
  | catching (tag : Value) (body : Program)
  /-- A catch frame with a tag of its own. -/
  | block (body : Value → Program)
  | protect (label : Nat) (body cleanup : Program)
  | bind (symbol value : Value) (body : Program)
  | lookup (symbol : Value)
  | call (closure : Value) (args : List Value)
  /-- Goes on with the value of the first program, unless that one unwinds. -/
  | andThen (first : Program) (next : Value → Program)
  /-- Goes on after an error, but not after an exit. -/
  | handling (body : Program) (handler : Error → Program)

/-- What the entries of closures stand for, given the closure and its arguments. -/
abbrev Code : Type := Word → Value → List Value → Program

/-! ## On a machine -/

/-- An unwind skips what comes after it. -/
def Machine.andThen {γ : Type} (first : Op γ (Outcome Value))
    (next : Value → Op γ (Outcome Value)) : Op γ (Outcome Value) := do
  match ← first with
  | .ok value => next value
  | .error unwind => return .error unwind

/-- A handler gets errors only. -/
def Machine.handling {γ : Type} (body : Op γ (Outcome Value))
    (handler : Error → Op γ (Outcome Value)) : Op γ (Outcome Value) := do
  match ← body with
  | .error (.error error) => handler error
  | outcome => return outcome

def Machine.record (event : CleanupEvent) : Op Journal Unit :=
  modify fun m => { m with client := m.client ++ [event] }

namespace Program

open Machine (record)

/-- Runs a program; `run` is what the entries of closures stand for. -/
def performWith (run : Word → Value → List Value → Op Journal (Outcome Value)) :
    Program → Op Journal (Outcome Value)
  | result value => return .ok value
  | setValues values => do
    Machine.setValues values
    return .ok .nil
  | exit tag values => Machine.exitTo tag values
  | fail error => return .error (.error error)
  | catching tag body => Machine.catching tag (performWith run body)
  | block body => Machine.block fun tag => performWith run (body tag)
  | protect label body cleanup =>
    Machine.unwindProtect
      (do record (.established label); performWith run body)
      (do record (.cleaned label); performWith run cleanup)
  | bind symbol value body => Machine.binding symbol value (performWith run body)
  | lookup symbol => do
    return .ok (← Machine.symbolValue symbol)
  | call closure args => Machine.call run closure args
  | andThen first next =>
    Machine.andThen (performWith run first) fun value => performWith run (next value)
  | handling body handler =>
    Machine.handling (performWith run body) fun error => performWith run (handler error)

/-- Runs a program whose calls are nested at most `depth` deep. -/
def performWithin (code : Code) : Nat → Program → Op Journal (Outcome Value)
  | 0 => performWith fun _ _ _ => throw .blocked
  | depth + 1 =>
    performWith fun entry closure args => performWithin code depth (code entry closure args)

/-- Runs a program. The limit of the thread bounds how deep its calls are nested. -/
def perform (code : Code) (p : Program) : Op Journal (Outcome Value) := do
  performWithin code (← Machine.control (·.invocationLimit)) p

end Program

/-! ## Contexts -/

/-- What a program finds around itself. -/
structure Context where
  /-- The established frames, the innermost first. A catch frame shows its tag. -/
  scopes : List (Option Value)
  /-- The values that symbols are bound to, by their binding index. -/
  bindings : Nat → Value
  frameLimit : Nat
  invocationLimit : Nat

/-- The innermost catch frame with a tag, by the number of frames around it. -/
def catcher? (tag : Value) : List (Option Value) → Option Nat
  | [] => none
  | scope :: outer => if scope = some tag then some outer.length else catcher? tag outer

/-- Whether the binding table can have an entry with the given index. The greatest word is out of
the table's reach in a way of its own: the size that it asks for is not a word. -/
def roomFor (mode : Mode) (index : Nat) : Except Fault Unit :=
  if index + 1 < ControlStack.tableLimit then .ok ()
  else if index + 1 < wordLimit then .error (.panic "capacity overflow")
  else
    match mode with
    | .debug => .error (.panic "attempt to add with overflow")
    | .release => .error (.outOfBounds 0 index)

/-! ## Stores -/

/-- The part of a machine that the direct semantics knows nothing about. -/
structure Hidden where
  control : ControlStack
  log : Array LogRecord

namespace Machine

variable {γ : Type}

def hidden (m : Machine γ) : Hidden := ⟨m.running.control, m.log⟩

/-- The machine with another control stack and log. -/
def under (m : Machine γ) (hidden : Hidden) : Machine γ :=
  { m with running := { m.running with control := hidden.control }, log := hidden.log }

/-- The machine without its control stack and log. -/
def world (m : Machine γ) : Machine γ := m.under ⟨.new 0 0, #[]⟩

end Machine

/-- What a program works on. -/
structure Store where
  /-- The heap, the journal and all else that is not control. -/
  world : Machine Journal
  /-- The values register. -/
  values : List Value
  /-- What the coming allocations find in the rest of the machine: a collection takes the control
  stack for roots. -/
  found : List Hidden

namespace Store

def record (s : Store) (event : CleanupEvent) : Store :=
  { s with world := { s.world with client := s.world.client ++ [event] } }

def mode (s : Store) : Mode := s.world.mode

def space (s : Store) : Space := s.world.heap.space

/-- What using a value of the wrong kind leads to. A release build goes on. -/
def misuse (s : Store) (message : String → String) (v : Value) : Except Fault Unit :=
  match s.mode with
  | .debug => do
    let shown ← s.space.render s.mode v
    .error (.fatal .contractViolation (message shown))
  | .release => .ok ()

/-- The binding index of a symbol, if the table can have such an entry. -/
def bindingIndex? (s : Store) (symbol : Value) : Except Fault (Option Nat) :=
  if s.space.isKind symbol .symbol then do
    let index ← s.space.symbolBindingIndex s.mode symbol
    roomFor s.mode index
    return some index
  else do
    s.misuse ("binding a non-symbol " ++ ·) symbol
    return none

/-- The innermost binding of a symbol, or its global value. -/
def symbolValue (s : Store) (bindings : Nat → Value) (symbol : Value) : Except Fault Value := do
  let index ← s.space.symbolBindingIndex s.mode symbol
  if (bindings index).isEmpty then s.space.fieldGet s.mode symbol .symbolValue
  else return bindings index

/-- The code of a closure. -/
def codeOf? (s : Store) (closure : Value) : Except Fault (Option Word) :=
  if s.space.isKind closure .closure then do
    let entry ← s.space.rawWord s.mode closure .closure At.closureEntry
    if entry == 0 then
      s.misuse (fun shown => "closure " ++ shown ++ " has no entry point") closure
      return none
    else return some entry
  else do
    s.misuse ("funcall of non-closure " ++ ·) closure
    return none

end Store

/-! ## Evaluation -/

/-- How an evaluation ends. -/
inductive Ending where
  | value (value : Value)
  /-- An exit to the catch frame that has `level` frames around it. -/
  | exit (level : Nat) (values : List Value)
  | error (error : Error)
  /-- An exit to a tag, shown as `shown`, that no established catch frame has. -/
  | uncaught (tag : Value) (shown : String)
  | fault (fault : Fault)
  deriving DecidableEq, Repr

/-- Whether nothing goes on after the ending, not even cleanups. -/
def Ending.stops : Ending → Bool
  | uncaught _ _ | fault _ => true
  | _ => false

structure Evaluation where
  ending : Ending
  store : Store

namespace Evaluation

def andThen (r : Evaluation) (next : Value → Store → Evaluation) : Evaluation :=
  match r.ending with
  | .value value => next value r.store
  | _ => r

def handled (r : Evaluation) (handler : Error → Store → Evaluation) : Evaluation :=
  match r.ending with
  | .error error => handler error r.store
  | _ => r

/-- What leaves a catch frame with `level` frames around it. -/
def delivered (level : Nat) (r : Evaluation) : Evaluation :=
  match r.ending with
  | .value value => ⟨.value value, { r.store with values := [value] }⟩
  | .exit target values =>
    if target = level then ⟨.value (values.headD .nil), { r.store with values }⟩ else r
  | _ => r

/-- What a cleanup leaves of the ending that it was run for: the ending goes on with its values
register, unless the cleanup does not end normally. -/
def resumed (r : Evaluation) (ending : Ending) (values : List Value) : Evaluation :=
  match r.ending with
  | .value _ => ⟨ending, { r.store with values }⟩
  | _ => r

/-- What leaves a protected body. The cleanup has a values register of its own. -/
def cleanedUp (r : Evaluation) (cleanup : Store → Evaluation) : Evaluation :=
  if r.ending.stops then r
  else (cleanup { r.store with values := [] }).resumed r.ending r.store.values

end Evaluation

namespace Context

/-- Evaluates a body inside one more frame. -/
def within (ctx : Context) (tag? : Option Value) (s : Store) (body : Context → Evaluation) :
    Evaluation :=
  if ctx.frameLimit ≤ ctx.scopes.length then ⟨.error (.frameStackOverflow ctx.frameLimit), s⟩
  else body { ctx with scopes := tag? :: ctx.scopes }

def bind (ctx : Context) (index : Nat) (value : Value) : Context :=
  { ctx with bindings := Function.update ctx.bindings index value }

end Context

namespace Store

/-- Goes on with the answer of a look at the heap. -/
def looking {α : Type} (s : Store) (answer : Except Fault α) (next : α → Evaluation) :
    Evaluation :=
  match answer with
  | .ok a => next a
  | .error fault => ⟨.fault fault, s⟩

/-- Goes on with the cons that the allocator gives. -/
def allocating (s : Store) (next : Value → Store → Evaluation) : Evaluation :=
  match Machine.cons .nil .nil (s.world.under (s.found.headD ⟨.new 0 0, #[]⟩)) with
  | .ok tag m => next tag ⟨m.world, s.values, s.found.tail⟩
  | .error fault m => ⟨.fault fault, ⟨m.world, s.values, s.found.tail⟩⟩

/-- Evaluates a body with a symbol bound to a value. -/
def binding (s : Store) (ctx : Context) (symbol value : Value) (body : Context → Evaluation) :
    Evaluation :=
  s.looking (s.bindingIndex? symbol) fun
    | some index => ctx.within none s fun inner => body (inner.bind index value)
    | none => body ctx

/-- Goes on with the code of a closure. -/
def calling (s : Store) (closure : Value) (callee : Word → Evaluation) : Evaluation :=
  s.looking (s.codeOf? closure) fun
    | some entry => callee entry
    | none => ⟨.value .nil, s⟩

/-- The ending of an exit that finds no catch frame. -/
def uncaught (s : Store) (tag : Value) : Evaluation :=
  s.looking (s.space.render s.mode tag) fun shown => ⟨.uncaught tag shown, s⟩

end Store

namespace Program

/-- The meaning of a program; `callee` is the meaning of calls. -/
def evaluateWith (callee : Word → Value → List Value → Context → Store → Evaluation) :
    Program → Context → Store → Evaluation
  | result value, _, s => ⟨.value value, s⟩
  | setValues values, _, s => ⟨.value .nil, { s with values }⟩
  | exit tag values, ctx, s =>
    match catcher? tag ctx.scopes with
    | some level => ⟨.exit level values, s⟩
    | none => s.uncaught tag
  | fail error, _, s => ⟨.error error, s⟩
  | catching tag body, ctx, s =>
    ctx.within (some tag) s fun inner =>
      (evaluateWith callee body inner s).delivered ctx.scopes.length
  | block body, ctx, s =>
    s.allocating fun tag s =>
      ctx.within (some tag) s fun inner =>
        (evaluateWith callee (body tag) inner s).delivered ctx.scopes.length
  | protect label body cleanup, ctx, s =>
    ctx.within none s fun inner =>
      (evaluateWith callee body inner (s.record (.established label))).cleanedUp fun s =>
        evaluateWith callee cleanup ctx (s.record (.cleaned label))
  | bind symbol value body, ctx, s =>
    s.binding ctx symbol value fun inner => evaluateWith callee body inner s
  | lookup symbol, ctx, s =>
    s.looking (s.symbolValue ctx.bindings symbol) fun value => ⟨.value value, s⟩
  | call closure args, ctx, s =>
    s.calling closure fun entry => callee entry closure args ctx s
  | andThen first next, ctx, s =>
    (evaluateWith callee first ctx s).andThen fun value s => evaluateWith callee (next value) ctx s
  | handling body handler, ctx, s =>
    (evaluateWith callee body ctx s).handled fun error s => evaluateWith callee (handler error) ctx s

/-- The meaning of a program where calls may be nested `calls` deep. -/
def evaluate (code : Code) : Nat → Program → Context → Store → Evaluation
  | 0 => evaluateWith fun _ _ _ ctx s => ⟨.error (.invocationOverflow ctx.invocationLimit), s⟩
  | calls + 1 =>
    evaluateWith fun entry closure args => evaluate code calls (code entry closure args)

end Program

/-! ## What a program finds on a machine -/

def FrameKind.tag? : FrameKind → Option Value
  | catching tag => some tag
  | _ => none

namespace ControlStack

def context (c : ControlStack) : Context where
  scopes := (c.frames.toList.map (·.kind.tag?)).reverse
  bindings := c.bindingAt
  frameLimit := c.frameLimit
  invocationLimit := c.invocationLimit

/-- How deep further calls may be nested. -/
def callsLeft (c : ControlStack) : Nat := c.invocationLimit - c.history.size

end ControlStack

def Machine.store (m : Machine Journal) (found : List Hidden) : Store :=
  ⟨m.world, m.running.control.values, found⟩

end Substrate
