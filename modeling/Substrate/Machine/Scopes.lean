import Substrate.Machine.Construct

/-!
# Scopes and exits

A body returns a value or unwinds: by an exit to a catch frame or by an error. Every scope looks at
what its body came back with. Catch frames stop the exits aimed at them, protected bodies run their
cleanup, and binding frames give the previous binding back. The values that an exit carries wait in
the control stack until the frame it aims at picks them up.

A fault unwinds through the scopes without running any cleanup; every scope it leaves cuts the
control stack back.
-/

namespace Substrate.Machine

variable {γ α : Type}

/-! ## Entering and leaving -/

/-- Enters a scope. -/
def enter (kind : FrameKind) : Op γ (Outcome ControlStack.Scope) := do
  match ← onControl (·.enter kind) with
  | .ok scope => return .ok scope
  | .error e => return .error (.error e)

/-- Runs the body of a scope. A fault in it abandons the scope. -/
@[inline] def guarded (scope : ControlStack.Scope) (body : Op γ α) : Op γ α := fun m =>
  match body m with
  | .ok a m => .ok a m
  | .error fault m =>
    match modifyControl (·.abandon scope) m with
    | .ok () m => .error fault m
    | .error _ m => .error fault m

/-- Removes the frame of a scope, which has to be the innermost one. A binding needs its entry of
the table back. -/
def leave (scope : ControlStack.Scope) : Op γ Unit := do
  match ← control (·.popProblem? scope.serial) with
  | some message => raiseFatal .controlIntegrity message
  | none =>
    let lost ← control (·.lostBinding?)
    modifyControl (·.dropTop)
    match lost with
    | some index => raise (.outOfBounds (← control (·.bindings.size)) index)
    | none => return

def setValues (values : List Value) : Op γ Unit :=
  modifyControl fun c => { c with values }

/-- What the last completed catch frame produced. -/
def values : Op γ (List Value) := control (·.values)

def frameDepth : Op γ Nat := control (·.depth)

/-! ## Catch frames -/

/-- The exit under way, if there is one. -/
def pendingExit : Op γ (Option PendingExit) := control (·.pending)

/-- Leaves a catch frame with what its body came back with. -/
def leaveCatch (scope : ControlStack.Scope) (result : Outcome Value) : Op γ (Outcome Value) := do
  leave scope
  match result with
  | .ok value =>
    match ← pendingExit with
    | some exit =>
      raiseFatal .controlIntegrity
        ("frame #" ++ toString scope.serial ++ " returned normally while an exit to #" ++
          toString exit.target ++ " was pending")
    | none =>
      setValues [value]
      return .ok value
  | .error (.exit target) =>
    if target = scope.serial then
      let pending ← onControl fun c => (c.pending, { c with pending := none })
      match pending.filter (·.target == scope.serial) with
      | some exit =>
        setValues exit.values
        return .ok (exit.values.headD .nil)
      | none =>
        raiseFatal .controlIntegrity
          ("exit to frame #" ++ toString scope.serial ++ " lost its values")
    else return .error (.exit target)
  | .error (.error e) =>
    match ← pendingExit with
    | some exit =>
      raiseFatal .controlIntegrity
        ("error raised while an exit to #" ++ toString exit.target ++ " was pending: " ++ e.message)
    | none => return .error (.error e)

/-- Runs a body inside a catch frame for `tag`. The value is that of the body, or the first value
of an exit to the frame; the values register holds all of them. -/
def catching (tag : Value) (body : Op γ (Outcome Value)) : Op γ (Outcome Value) := do
  match ← enter (.catching tag) with
  | .error unwind => return .error unwind
  | .ok scope => leaveCatch scope (← guarded scope body)

/-- Starts an exit with the given values to the innermost catch frame for `tag`. It is up to the
caller to unwind to that frame. -/
def startExit (tag : Value) (values : List Value) : Op γ Unwind := do
  match ← control (·.findCatch? tag) with
  | none =>
    let shown ← view fun mode space => space.render mode tag
    raiseFatal .controlIntegrity
      ("no catch frame for tag " ++ shown ++ " on thread " ++ toString (← get).running.id)
  | some target =>
    match ← pendingExit with
    | some exit =>
      raiseFatal .controlIntegrity
        ("exit to #" ++ toString target ++ " started while an exit to #" ++ toString exit.target ++
          " was pending")
    | none =>
      note .trace "control"
        ("thread " ++ toString (← get).running.id ++ ": exit to frame #" ++ toString target)
      modifyControl fun c => { c with pending := some ⟨target, values⟩ }
      return .exit target

/-- Exits to the innermost catch frame for `tag`. -/
def exitTo (tag : Value) (values : List Value) : Op γ (Outcome α) := do
  return .error (← startExit tag values)

/-- A catch frame with a tag of its own, which the body is given. -/
def block (body : Value → Op γ (Outcome Value)) : Op γ (Outcome Value) := do
  let tag ← cons .nil .nil
  catching tag (body tag)

/-! ## Protected bodies -/

/-- Sets the exit under way and the values register aside. -/
def suspend : Op γ Unit :=
  modifyControl fun c =>
    { c with
      pending := none
      values := []
      suspended := ⟨c.pending, c.values⟩ :: c.suspended }

/-- Goes on with what was set aside for a cleanup, unless the cleanup unwinds, which replaces it.
`expected` is how much was set aside when the cleanup started. -/
def unsuspend (expected : Nat) (result cleaned : Outcome Value) : Op γ (Outcome Value) := do
  if (← control (·.suspended.length)) ≠ expected then
    raiseFatal .controlIntegrity "suspended exits out of order after a cleanup"
  let saved ← onControl fun c => (c.suspended.head?, { c with suspended := c.suspended.tail })
  match cleaned with
  | .ok _ =>
    match saved with
    | some saved => modifyControl fun c => { c with pending := saved.exit, values := saved.values }
    | none => pure ()
    return result
  | .error unwind =>
    match saved.bind (·.exit) with
    | some exit => note .trace "control" ("cleanup superseded exit to #" ++ toString exit.target)
    | none => pure ()
    return .error unwind

/-- Leaves a protected body: its cleanup runs with nothing under way. -/
def leaveProtect (cleanup : Op γ (Outcome Value)) (scope : ControlStack.Scope)
    (result : Outcome Value) : Op γ (Outcome Value) := do
  leave scope
  suspend
  let expected ← control (·.suspended.length)
  unsuspend expected result (← cleanup)

/-- Runs a body, then a cleanup on every way out of it. -/
def unwindProtect (body cleanup : Op γ (Outcome Value)) : Op γ (Outcome Value) := do
  match ← enter .protecting with
  | .error unwind => return .error unwind
  | .ok scope => leaveProtect cleanup scope (← guarded scope body)

/-! ## Dynamic bindings -/

/-- The binding index of a symbol. -/
def bindingIndex (symbol : Value) : Op γ Nat :=
  view fun mode space => space.symbolBindingIndex mode symbol

/-- Makes room for an entry of the binding table. If the size of the table wraps around, the table
is empty and the entry does not exist. -/
def reserveBinding (index : Nat) : Op γ Unit := do
  if (← control (·.bindings.size)) ≤ index then
    let size ← ofExcept ((← get).mode.add index 1)
    if 0x1000000000000000 ≤ size then raise (.panic "capacity overflow")
    if size = 0 then
      modifyControl fun c => { c with bindings := #[] }
      raise (.outOfBounds 0 index)
    modifyControl (·.reserve index)

/-- Enters the scope of a binding. -/
def enterBinding (symbol value : Value) : Op γ (Outcome ControlStack.Scope) := do
  let index ← bindingIndex symbol
  reserveBinding index
  let previous ← control (·.bindingAt index)
  match ← enter (.binding symbol index previous) with
  | .error unwind => return .error unwind
  | .ok scope =>
    modifyControl (·.setBinding index value)
    return .ok scope

/-- Leaves the scope of a binding. -/
def leaveBinding (scope : ControlStack.Scope) (result : Outcome Value) : Op γ (Outcome Value) := do
  leave scope
  return result

/-- Runs a body with `symbol` bound to `value` on this thread. -/
def binding (symbol value : Value) (body : Op γ (Outcome Value)) : Op γ (Outcome Value) := do
  if (← get).heap.space.isKind symbol .symbol then
    match ← enterBinding symbol value with
    | .error unwind => return .error unwind
    | .ok scope => leaveBinding scope (← guarded scope body)
  else
    expect false fun _ => do
      return "binding a non-symbol " ++ (← view fun mode space => space.render mode symbol)
    body

/-- The innermost binding of a symbol on this thread, or its global value. -/
def symbolValue (symbol : Value) : Op γ Value := do
  let index ← bindingIndex symbol
  let own ← control (·.bindingAt index)
  if own.isEmpty then view fun mode space => space.fieldGet mode symbol .symbolValue
  else return own

/-- Changes the innermost binding of a symbol on this thread, or its global value. -/
def setSymbolValue (symbol value : Value) : Op γ Unit := do
  let index ← bindingIndex symbol
  let own ← control (·.bindingAt index)
  if own.isEmpty then setField symbol .symbolValue value
  else modifyControl (·.setBinding index value)

def isBound (symbol : Value) : Op γ Bool := do
  return (← symbolValue symbol) != .unbound

/-! ## Calls -/

/-- The code that a closure stands for; nothing if there is none. -/
def entryOf? (closure : Value) : Op γ (Option Word) := do
  if !(← get).heap.space.isKind closure .closure then
    expect false fun _ => do
      return "funcall of non-closure " ++ (← view fun mode space => space.render mode closure)
    return none
  let entry ← view fun mode space => space.rawWord mode closure .closure At.closureEntry
  if entry == 0 then
    expect false fun _ => do
      let shown ← view fun mode space => space.render mode closure
      return "closure " ++ shown ++ " has no entry point"
    return none
  return some entry

/-- Runs a call that is part of the history meanwhile. -/
def recorded (closure : Value) (body : Op γ (Outcome Value)) : Op γ (Outcome Value) := do
  let limit ← control (·.invocationLimit)
  if limit ≤ (← control (·.history.size)) then
    return .error (.error (.invocationOverflow limit))
  modifyControl fun c => { c with history := c.history.push closure }
  let expected ← control (·.history.size)
  let result ← body
  if (← control (·.history.size)) ≠ expected then
    raiseFatal .controlIntegrity "invocation history changed across a call"
  modifyControl fun c => { c with history := c.history.pop }
  return result

/-- Calls a closure; `run` is what an entry stands for. -/
def call (run : Word → Value → List Value → Op γ (Outcome Value)) (closure : Value)
    (args : List Value) : Op γ (Outcome Value) := do
  match ← entryOf? closure with
  | none => return .ok .nil
  | some entry => recorded closure (run entry closure args)

/-- Closures being called, the innermost first. -/
def backtrace : Op γ (List Value) := control (·.backtrace)

/-- Runs a body as the outermost scope. No exit leaves it, and errors come back to the caller. -/
def toplevel (body : Op γ (Outcome Value)) : Op γ (Except Error Value) := do
  match ← body with
  | .ok value => return .ok value
  | .error (.error e) => return .error e
  | .error (.exit target) =>
    raiseFatal .controlIntegrity
      ("exit to frame #" ++ toString target ++ " escaped to the top level")

end Substrate.Machine
