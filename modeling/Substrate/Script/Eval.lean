import Substrate.Script.Shown

/-!
# Evaluation

Expressions are evaluated from left to right, parts before wholes. Forms use the scopes of the
machine. Evaluation recurses on the form; calls, whose code the script supplies, are bounded by a
count that exceeds what the machine allows to be nested.
-/

namespace Substrate.Script

/-! ## Expressions -/

/-- Conses nested in their cars around `inner`. -/
def consChain : Nat → Value → Op Workspace Value
  | 0, inner => fun m => .ok inner m
  | count + 1, inner => fun m =>
    match Machine.cons inner .nil m with
    | .ok chain m => consChain count chain m
    | .error fault m => .error fault m

/-- Text repeated a number of times. -/
def repeatText (text : String) (count : Nat) : String :=
  if text.isEmpty then "" else String.join (List.replicate count text)

mutual

/-- Evaluates an expression; `args` are the arguments of the innermost form being called. -/
def evalExpr (args : List Value) : Expr → Script Value
  | .number n => op do Machine.ofExcept (Value.fixnum (← get).mode n)
  | .known v => pure v
  | .immediate kind bits => op do Machine.ofExcept (Value.ofImmediate (← get).mode kind bits)
  | .symbol name => op (Machine.intern name)
  | .handle name => handle name
  | .root name => root name
  | .block name => block name
  | .argument index => pure (args.getD index .unbound)
  | .string text => op (Machine.makeString text)
  | .repeated text count => op do
    if 0x8000000000000000 ≤ text.utf8ByteSize * count then
      Machine.raise (.panic "capacity overflow")
    Machine.makeString (repeatText text count)
  | .uninterned name => op (Machine.makeSymbol name)
  | .cons car cdr => do
    let car ← evalExpr args car
    let cdr ← evalExpr args cdr
    op (Machine.cons car cdr)
  | .list elements => do
    let elements ← evalExprs args elements
    op (Machine.list elements)
  | .range count => op (Machine.list ((List.range count).map fun (n : Nat) => Value.ofInt n))
  | .chain count => op (consChain count .nil)
  | .vector elements => do
    let elements ← evalExprs args elements
    op do
      let vector ← Machine.makeVector elements.length .nil
      Machine.setElements vector 0 elements
      return vector
  | .filled length fill => do
    let fill ← evalExpr args fill
    op (Machine.makeVector length fill)
  | .double bits => op (Machine.makeDouble bits)
  | .bignum negative limbs => op (Machine.makeBignum negative limbs)
  | .ratio numerator denominator => do
    let numerator ← evalExpr args numerator
    let denominator ← evalExpr args denominator
    op (Machine.makeRatio numerator denominator)
  | .complex real imag => do
    let real ← evalExpr args real
    let imag ← evalExpr args imag
    op (Machine.makeComplex real imag)
  | .record type slots => do
    let type ← evalExpr args type
    let slots ← evalExprs args slots
    op (Machine.makeStructure type slots)
  | .stream mode elementType buffer handle => do
    let elementType ← evalExpr args elementType
    let buffer ← evalExpr args buffer
    op (Machine.makeStream mode elementType buffer handle)
  | .foreign address size tag => do
    let tag ← evalExpr args tag
    op (Machine.makeForeign address size tag)
  | .closure entry env name => do
    let env ← evalExpr args env
    let name ← evalExpr args name
    op (Machine.makeClosure entry.code env name)
  | .lambda body name => do
    let name ← evalExpr args name
    op do
      let index ← addForm body
      Machine.makeClosure Entry.form.code (.ofInt index) name
  | .raw kind bytes => op (Machine.allocate kind bytes)

/-- Evaluates expressions from left to right. -/
def evalExprs (args : List Value) : List Expr → Script (List Value)
  | [] => pure []
  | e :: rest => do
    let v ← evalExpr args e
    let vs ← evalExprs args rest
    pure (v :: vs)

end

/-! ## Forms that look at what another form comes back with -/

/-- Stops whatever `accept` agrees to: it is logged under a name, and the form yields nil. -/
def intercept (label : String) (accept : Unwind → Bool) (body : Script Value) : Script Value :=
  ofOutcome do
    match ← body.run with
    | .error u =>
      if accept u then
        logDatum (.record [(label, showUnwind u)])
        return .ok .nil
      else return .error u
    | result => return result

def isError : Unwind → Bool
  | .error _ => true
  | .exit _ => false

/-- Stops a fault. A thread that waits for ever does not come back. -/
def fence (body : Script Value) : Script Value := fun m =>
  match body m with
  | .ok result m => .ok result m
  | .error .blocked m => .error .blocked m
  | .error fault m =>
    match logDatum (.record [("fenced", .ofFault fault)]) m with
    | .ok () m => .ok (.ok .nil) m
    | .error fault m => .error fault m

/-- Keeps what the body unwinds with. -/
def hold (name : String) (body : Script Value) : Script Value :=
  ofOutcome do
    match ← body.run with
    | .error u =>
      modifyWorkspace fun w => { w with held := assign w.held name u }
      logDatum (.record [("held", showUnwind u)])
      return .ok .nil
    | result => return result

/-- Unwinds again with what is kept under a name. -/
def release (name : String) : Script Value := do
  match (← workspace).held.lookup name with
  | none => pure .nil
  | some u =>
    op (modifyWorkspace fun w => { w with held := w.held.filter (·.1 != name) })
    unwind u

/-- Runs a body as an outermost scope; its error goes on from there. -/
def asToplevel (body : Script Value) : Script Value :=
  ofOutcome do
    match ← Machine.toplevel body.run with
    | .ok v => return .ok v
    | .error e => return .error (.error e)

/-- Runs a body a number of times and yields the last value. -/
def iterate (body : Script Value) : Nat → Value → Script Value
  | 0, last => fun m => .ok (.ok last) m
  | count + 1, _ => fun m =>
    match body m with
    | .ok (.ok v) m => iterate body count v m
    | .ok (.error u) m => .ok (.error u) m
    | .error fault m => .error fault m

/-! ## Towers of scopes -/

/-- Counts a cleanup. -/
def countCleanup : Op Workspace (Outcome Value) := do
  modifyWorkspace fun w => { w with cleanups := w.cleanups + 1 }
  return .ok .nil

/-- Binds the symbol of binding towers. -/
def enterTowerBinding (index : Nat) : Op Workspace (Outcome ControlStack.Scope) := do
  let symbol ← Machine.intern "*nest*"
  Machine.enterBinding symbol (.ofInt index)

/-- Runs a body inside a tower of scopes. -/
def nest (count : Nat) (tower : Tower) (body : Script Value) : Script Value :=
  match tower with
  | .catching =>
    Machine.nested count (fun index => Machine.enter (.catching (.ofInt index)))
      Machine.leaveCatch body.run
  | .protecting =>
    Machine.nested count (fun _ => Machine.enter .protecting)
      (Machine.leaveProtect countCleanup) body.run
  | .binding => Machine.nested count enterTowerBinding Machine.leaveBinding body.run

/-! ## Threads -/

/-- What a body comes back with, as data. A bare body may come back with an exit. -/
def showOutcome (bare : Bool) (body : Script Value) : Op Workspace Datum := do
  match ← (if bare then body else asToplevel body).run with
  | .ok v => return .ok (← showValue v)
  | .error u => return showUnwind u

/-- Evaluates a body and catches everything that stops it or keeps its value from being shown. -/
def attempt (bare : Bool) (body : Script Value) : Op Workspace Datum := fun m =>
  match showOutcome bare body m with
  | .ok shown m => .ok shown m
  | .error .blocked m => .error .blocked m
  | .error fault m => .ok (.ofFault fault) m

/-- Runs an operation in another workspace; the old one is back afterwards, whatever happens. -/
def inWorkspace {α : Type} (w : Workspace) (x : Op Workspace α) : Op Workspace α := fun m =>
  let outer := m.client
  match x { m with client := w } with
  | .ok a m => .ok a { m with client := outer }
  | .error fault m => .error fault { m with client := outer }

/-- What a spawned thread does: it evaluates a body and reports. -/
def reportSpawned (body : Script Value) : Op Workspace Datum := do
  let threads := (← get).threads.length
  let shown ← attempt false body
  let depth ← Machine.frameDepth
  let m ← get
  return .record
    [("result", shown), ("log", .list m.client.log.toList), ("depth", .ofNat depth),
      ("id", .ofNat m.running.id), ("threads", .ofNat threads), ("owner", .bool true)]

/-- Spawns a thread that evaluates a body, and logs its report. -/
def spawnForm (body : Script Value) : Script Value :=
  ofOutcome do
    let own := (← get).client.forSpawned
    match ← Machine.spawn (inWorkspace own (reportSpawned body)) with
    | .error e => return .error (.error e)
    | .ok report =>
      let entry := match report with
        | .ok d => d
        | .error fault => .ofFault fault
      logDatum (.record [("spawned", entry)])
      return .ok .nil

/-- Spawns a thread that exits to a tag, and logs how it ended. -/
def spawnExit (tag : Value) : Script Value :=
  ofOutcome do
    match ← Machine.spawn (Machine.startExit tag [.nil]) with
    | .error e => return .error (.error e)
    | .ok result =>
      let entry := match result with
        | .ok u => showUnwind u
        | .error fault => .ofFault fault
      logDatum (.record [("joined", entry)])
      return .ok .nil

/-- Asks something of the running thread from elsewhere. -/
def probe : Probe → Op Workspace Datum
  | .control => fun m =>
    match (Machine.reachFromElsewhere : Op Workspace Unit) m with
    | .ok () m => .ok .null m
    | .error fault m => .ok (.ofFault fault) m
  | .owner => return .bool false
  | .id => return .ofNat (← get).running.id
  | .state => return .ofNat (← get).running.state.code
  | .attached => return .bool false

/-! ## Forms -/

/-- Collects and logs the statistics and the handles that died. -/
def collectAndLog : Op Workspace Unit := do
  let stats ← Machine.collect
  let dead ← tellDead
  logDatum (.record [("collect", .ofStats stats), ("dead", .names dead)])

/-- Logs the names of the closures being called. -/
def logBacktrace : Op Workspace Nat := do
  let closures ← Machine.backtrace
  let names ← closures.mapM fun closure =>
    Machine.view fun mode space => space.fieldGet mode closure .closureName
  logDatum (.record [("backtrace", .list (← showValues names))])
  return closures.length

mutual

/-- Evaluates a form; `call` calls a closure. -/
def eval (call : Value → List Value → Script Value) (args : List Value) : Form → Script Value
  | .value e => evalExpr args e
  | .seq body => evalBody call args body
  | .catching tag body => do
    let tag ← evalExpr args tag
    ofOutcome (Machine.catching tag (evalBody call args body))
  | .block name body =>
    ofOutcome (Machine.block fun tag => do
      modifyWorkspace fun w => { w with blocks := assign w.blocks name tag }
      (evalBody call args body).run)
  | .exit tag value => do
    let tag ← evalExpr args tag
    let value ← evalExpr args value
    ofOutcome (Machine.exitTo tag [value])
  | .exitValues tag values => do
    let tag ← evalExpr args tag
    let values ← evalExprs args values
    ofOutcome (Machine.exitTo tag values)
  | .protect body cleanup =>
    ofOutcome (Machine.unwindProtect (eval call args body).run (evalBody call args cleanup).run)
  | .bind symbol value body => do
    let symbol ← evalExpr args symbol
    let value ← evalExpr args value
    ofOutcome (Machine.binding symbol value (evalBody call args body).run)
  | .get symbol => do
    let symbol ← evalExpr args symbol
    op (Machine.symbolValue symbol)
  | .set symbol value => do
    let symbol ← evalExpr args symbol
    let value ← evalExpr args value
    op (Machine.setSymbolValue symbol value)
    pure value
  | .isBound symbol => do
    let symbol ← evalExpr args symbol
    op do return .ofBool (← Machine.isBound symbol)
  | .values => op do
    let values ← Machine.values
    logDatum (.record [("values", .list (← showValues values))])
    return .ofInt values.length
  | .setValues values => do
    let values ← evalExprs args values
    op (Machine.setValues values)
    pure (values.headD .nil)
  | .depth => op do return .ofInt (← Machine.frameDepth)
  | .error text => fail (.signal text)
  | .call closure callArgs => do
    let closure ← evalExpr args closure
    let callArgs ← evalExprs args callArgs
    call closure callArgs
  | .backtrace => op do return .ofInt (← logBacktrace)
  | .log e => do
    let v ← evalExpr args e
    op do logDatum (.record [("log", ← showValue v)])
    pure v
  | .note form => do
    let v ← eval call args form
    op do logDatum (.record [("note", ← showValue v)])
    pure v
  | .discard form => intercept "discarded" (fun _ => true) (eval call args form)
  | .handle form => intercept "handled" isError (eval call args form)
  | .toplevel form => asToplevel (eval call args form)
  | .fence form => fence (eval call args form)
  | .hold name form => hold name (eval call args form)
  | .release name => release name
  | .collect => do
    op collectAndLog
    pure .nil
  | .keep name form => do
    let v ← eval call args form
    op (setHandle name v)
    pure v
  | .nest count tower form => nest count tower (eval call args form)
  | .cleanups => do pure (.ofInt (← workspace).cleanups)
  | .iterate count form => iterate (eval call args form) count .nil
  | .spawn form => spawnForm (eval call [] form)
  | .spawnExit tag => do
    let tag ← evalExpr args tag
    spawnExit tag
  | .probe what => do
    op do logDatum (.record [("foreign", ← probe what)])
    pure .nil

/-- Evaluates forms in order and yields the last value, nil if there is none. -/
def evalBody (call : Value → List Value → Script Value) (args : List Value) :
    List Form → Script Value
  | [] => pure .nil
  | form :: rest => do
    let v ← eval call args form
    match rest with
    | [] => pure v
    | rest => evalBody call args rest

end

/-! ## Calls -/

/-- An element that code relies on; `length` is how many there are. -/
def required {α : Type} (element? : Option α) (length index : Nat) : Script α :=
  match element? with
  | some a => pure a
  | none => op (Machine.raise (.outOfBounds length index))

/-- An argument that code relies on. -/
def argument (args : List Value) (index : Nat) : Script Value :=
  required args[index]? args.length index

/-- Runs the code of a closure. -/
def runEntry (call : Value → List Value → Script Value) (entry : Entry) (closure : Value)
    (args : List Value) : Script Value :=
  match entry with
  | .count => pure (.ofInt args.length)
  | .first => pure (args.headD .nil)
  | .env => op (Machine.view fun mode space => space.fieldGet mode closure .closureEnv)
  | .callEnv => do
    let env ← op (Machine.view fun mode space => space.fieldGet mode closure .closureEnv)
    call env args
  | .recurse => call closure args
  | .countdown => do
    let first ← argument args 0
    let n ← op do Machine.ofExcept (Value.getFixnum (← get).mode first)
    if n = 0 then op do return .ofInt (← Machine.backtrace).length
    else do
      let next ← op do Machine.ofExcept (Value.fixnum (← get).mode (n - 1))
      call closure [next]
  | .backtrace => op do
    let closures ← Machine.backtrace
    Machine.setValues closures
    return .ofInt closures.length
  | .throwFirst => do
    let tag ← argument args 0
    let value ← argument args 1
    ofOutcome (Machine.exitTo tag [value])
  | .error => fail (.signal "closure error")
  | .form => do
    let env ← op (Machine.view fun mode space => space.fieldGet mode closure .closureEnv)
    let number ← op do Machine.ofExcept (Value.getFixnum (← get).mode env)
    let index := (Value.wordOfInt number).toNat
    let forms := (← workspace).forms
    let form ← required forms[index]? forms.size index
    eval call args form

/-- Runs a computation on a stack of its own, which changes nothing about its result. -/
def onFreshStack {α : Type} (x : Script α) : Script α := fun m =>
  (Task.spawn (fun _ => x m) .dedicated).get

/-- Calls are spread over several stacks; each takes this many. -/
def callsPerStack : Nat := 256

/-- Calls a closure, with at most `fuel` calls nested. -/
def callWith : Nat → Value → List Value → Script Value
  | 0, _, _ => fun m => .error .blocked m
  | fuel + 1, closure, args =>
    let body := ofOutcome <| Machine.call (γ := Workspace) (fun code closure args =>
      match Entry.ofCode? code with
      | some entry => runEntry (callWith fuel) entry closure args
      | none => pure (Except.ok Value.nil)) closure args
    if fuel % callsPerStack = 0 then onFreshStack body else body

/-- More calls than can be nested: as many as fit on some number of stacks for each of the threads
that wait for each other. -/
def callBound (options : Options) : Nat :=
  (options.invocationLimit / callsPerStack + 1) * callsPerStack * OsError.threadLimit

/-- Evaluates a form on its own. -/
def evaluate (options : Options) (form : Form) : Script Value :=
  eval (callWith (callBound options)) [] form

end Substrate.Script
