import Substrate.Script.Command
import Substrate.Script.Eval

/-!
# Sessions with a machine

Runs commands one after the other. Each is answered by a record: its result, or why it failed. What
happened on the side is added to the answer: the handles that died, and the finalizers that ran.
-/

namespace Substrate.Script

/-! ## Parts of answers -/

def done : Datum := .ok .null

def boolean (b : Bool) : Datum := .ok (.bool b)

/-- A result, or the fault in its place. -/
def orFault {α : Type} (f : α → Datum) (result : Except Fault α) : Op Workspace Datum := fun m =>
  match result with
  | .ok a => .ok (f a) m
  | .error fault =>
    match (Machine.raise fault : Op Workspace Unit) m with
    | .ok () m => .ok (.ofFault fault) m
    | .error fault m => .ok (.ofFault fault) m

/-- What kind of value it is, by every test there is. -/
def tests (space : Space) (v : Value) : List Bool :=
  [v.isEmpty, v.isFixnum, v.isHeapRef, v.isCharacter, v.isConstant, v.isSingleFloat, v.isNil,
    v.isTrue, space.isKind v .cons, space.isKind v .symbol, space.isKind v .string,
    space.isKind v .vector, space.isKind v .closure, v.isNil || space.isKind v .cons]

/-- Everything that can be told of a value without its object. -/
def showImmediateParts (v : Value) : Op Workspace Datum := do
  let m ← get
  let space := m.heap.space
  let get {α : Type} (f : α → Datum) (zero : Datum) (result : Except Fault α) :=
    if v.isHeapRef then (pure zero : Op Workspace Datum) else orFault f result
  let fixnum ← get .int (.int 0) (v.getFixnum m.mode)
  let character ← get .ofNat (.int 0) (v.getCharacter m.mode)
  let float ← get .bits32 (.bits32 0) (v.getSingleFloat m.mode)
  let rendered ← renderValue v
  return .record
    [("raw", if v.isHeapRef then .null else .ofNat v.bits.toNat),
      ("kind", .text (space.kindOf v).name), ("bits", .ofNat (space.immediateBits v).toNat),
      ("is", .list ((tests space v).map Datum.bool)), ("fixnum", fixnum), ("character", character),
      ("float", float), ("debug", .text rendered)]

/-- An answer with the handles that died on the way, if there are any. -/
def withDead (dead : List String) (d : Datum) : Datum :=
  if dead.isEmpty then d else d.extend [("dead", .names dead)]

/-! ## Access by name -/

def readNat (f : Mode → Space → Except Fault Nat) : Op Workspace Datum := do
  return .ofNat (← Machine.view f)

def readWord (f : Mode → Space → Except Fault Word) : Op Workspace Datum := do
  return .ofNat (← Machine.view f).toNat

def readValue (f : Mode → Space → Except Fault Value) : Op Workspace Datum := do
  showValue (← Machine.view f)

def write (x : Mode → Run Space Unit) : Op Workspace Datum := do
  Machine.onSpace x
  return .null

/-- Reads or writes a part of an object. -/
def access (name : String) (v : Value) (n : Word) (new : Value) : Op Workspace Datum := do
  match name with
  | "car" => readValue fun mode space => space.fieldGet mode v .car
  | "cdr" => readValue fun mode space => space.fieldGet mode v .cdr
  | "set_car" => write fun mode => Space.fieldSet mode v .car new
  | "set_cdr" => write fun mode => Space.fieldSet mode v .cdr new
  | "vector_len" => readNat fun mode space => space.vectorLength mode v
  | "vector_ref" => readValue fun mode space => space.vectorRef mode v n.toNat
  | "vector_set" => write fun mode => Space.vectorSet mode v n.toNat new
  | "string_len" => readNat fun mode space => space.stringLength mode v
  | "string_str" | "string_to_string" =>
    return .text (← Machine.view fun mode space => space.stringText mode v)
  | "double_value" =>
    return .bits64 (← Machine.view fun mode space => space.doubleBits mode v).toNat
  | "bignum_negative" =>
    return .bool (← Machine.view fun mode space => space.bignumNegative mode v)
  | "bignum_limbs" =>
    let limbs ← Machine.view fun mode space => space.bignumLimbs mode v
    return .list (limbs.map fun limb => .ofNat limb.toNat)
  | "symbol_name" => readValue fun mode space => space.fieldGet mode v .symbolName
  | "symbol_binding_index" => readNat fun mode space => space.symbolBindingIndex mode v
  | "symbol_flags" => readWord fun mode space => space.symbolFlags mode v
  | "set_symbol_flags" => write fun mode => Space.setRawWord mode v .symbol At.symbolFlags n
  | "structure_len" => readNat fun mode space => space.structureLength mode v
  | "foreign_address" => readWord fun mode space => space.foreignAddress mode v
  | "foreign_size" => readWord fun mode space => space.foreignSize mode v
  | "stream_mode" =>
    return showStreamMode (← Machine.view fun mode space => space.streamMode mode v)
  | "stream_position" => readWord fun mode space => space.streamPosition mode v
  | "set_stream_position" => write fun mode => Space.setRawWord mode v .stream At.streamPosition n
  | "stream_handle" => readWord fun mode space => space.streamHandle mode v
  | "list_to_vec" =>
    return .list (← showValues (← Machine.view fun mode space => space.listElements mode v))
  | "list_length" =>
    return .ofNat (← Machine.view fun mode space => space.listElements mode v).length
  | "words" => readNat fun mode space => do return (space.header (← v.objectAddress mode)).words
  | "flags" => readNat fun mode space => do
    return (space.header (← v.objectAddress mode)).flags.toNat
  | _ => return .null

/-! ## Client memory -/

/-- The addresses of a part of a buffer. -/
def spanRegion (span : Span) : Script Region := do
  match (← workspace).buffers.lookup span.buffer with
  | none => fail (.signal ("no buffer " ++ span.buffer))
  | some whole =>
    pure (.ofRange (whole.start + span.from?.getD 0) (whole.start + span.to?.getD whole.size))

def spanRegions : List Span → Script (List Region)
  | [] => pure []
  | span :: rest => do
    let region ← spanRegion span
    let regions ← spanRegions rest
    pure (region :: regions)

def bufferWords : List BufferWord → Script (List Word)
  | [] => pure []
  | .plain bits :: rest => do
    let others ← bufferWords rest
    pure (bits :: others)
  | .near e distance :: rest => do
    let v ← evalExpr [] e
    let others ← bufferWords rest
    pure ((v.bits + distance) :: others)

def slotLocation (name : String) : Script Nat := do
  match (← workspace).slots.lookup name with
  | some location => pure location
  | none => fail (.signal ("no slot " ++ name))

/-! ## Churning -/

/-- One allocation of a churn. -/
def churnOne (kind : Kind) (length index : Nat) (root? : Option Nat) : Op Workspace Unit := do
  match kind, root? with
  | .cons, some location =>
    let list ← Machine.readSlot location
    let cons ← Machine.cons (.ofInt index) list
    Machine.writeSlot location cons
  | .cons, none => discard (Machine.cons (.ofInt index) .nil)
  | .vector, _ => discard (Machine.makeVector length .nil)
  | kind, _ => discard (Machine.allocate kind length)

/-- What is seen of a churn: which of the allocations collected, and which handles died in these
collections. Both have the latest first. -/
structure Churned where
  collected : List Nat
  dead : List (List String)

/-- Allocates `count` objects. -/
def churnAll (kind : Kind) (length : Nat) (root? : Option Nat) :
    Nat → Nat → Churned → Op Workspace Churned
  | 0, _, seen => fun m => .ok seen m
  | count + 1, index, seen => fun m =>
    let before := m.heap.collections
    match churnOne kind length index root? m with
    | .error fault m => .error fault m
    | .ok () m =>
      if m.heap.collections = before then churnAll kind length root? count (index + 1) seen m
      else
        match tellDead m with
        | .error fault m => .error fault m
        | .ok dead m =>
          churnAll kind length root? count (index + 1)
            ⟨index :: seen.collected, dead :: seen.dead⟩ m

/-! ## Threads -/

def stateCode : Op Workspace Nat := do return (← get).running.state.code

/-- Enters and leaves safe regions, once by a fault; gives the thread's state on the way. -/
def visitSafeRegions : Op Workspace Datum := do
  let before ← stateCode
  let (inside, nested, inner) ← Machine.safeRegion do
    let inside ← stateCode
    let nested ← Machine.safeRegion stateCode
    return (inside, nested, ← stateCode)
  let after ← stateCode
  let failed : Except Fault Unit ← fun m =>
    match (Machine.safeRegion (throw (.panic "inside")) : Op Workspace Unit) m with
    | .ok () m => .ok (.ok ()) m
    | .error fault m => .ok (.error fault) m
  let afterFault ← stateCode
  let fault := match failed with
    | .ok () => Datum.null
    | .error fault => .ofFault fault
  return .record
    [("ok", .list ([before, inside, nested, inner, after, afterFault].map Datum.ofNat)),
      ("panic", fault)]

/-- Collects while a list is referred to from the native stack only. -/
def collectOnStack : Op Workspace Datum := do
  let list ← Machine.list [.ofInt 1, .ofInt 2]
  if (← get).options.stackScan then
    let location ← Machine.makeRoot list
    discard Machine.collect
    Machine.dropRoot location
  else discard Machine.collect
  let heap := (← get).heap
  let live := heap.isLive list
  let rest ← Machine.view fun mode space => space.fieldGet mode list .cdr
  let restLive := heap.isLive rest
  return .ok (.list [.bool live, .bool restLive, ← showValue list])

/-! ## Commands -/

/-- Evaluates a form; tells its result and the state of the control stack behind it. -/
def evaluateForm (form : Form) (bare : Bool) : Op Workspace Datum := do
  modifyWorkspace fun w => { w with log := #[] }
  let options := (← get).options
  let shown ← attempt bare (evaluate options form)
  let log := (← get).client.log.toList
  let depth ← Machine.frameDepth
  let values ← showValues (← Machine.values)
  let calls := (← Machine.backtrace).length
  return .record
    [("result", shown), ("log", .list log), ("depth", .ofNat depth), ("values", .list values),
      ("calls", .ofNat calls)]

/-- Whether a word stands for a value, and its kind. -/
def showDecoded (f : Value → Op Workspace Datum) (none_ : Datum) (bits : Word) :
    Op Workspace Datum := do
  let m ← get
  let shown ← match m.decode? bits with
    | some v => f v
    | none => pure none_
  return .record [("ok", shown), ("kind", .text (m.kindOfWord bits).name)]

/-- Runs a command; gives its answer. -/
def perform : Command → Script Datum
  | .define name e => do
    let v ← evalExpr [] e
    op do
      let dead ← tellDead
      setHandle name v
      let shown ← showValue v
      let kind := ((← get).heap.space.kindOf v).name
      return withDead dead (.record [("ok", shown), ("kind", .text kind)])
  | .inspect e => do
    let v ← evalExpr [] e
    op do return .ok (← showValue v)
  | .render e => do
    let v ← evalExpr [] e
    op do return .ok (.text (← renderValue v))
  | .same a b => do
    let a ← evalExpr [] a
    let b ← evalExpr [] b
    pure (boolean (a == b))
  | .isKind e kind => do
    let v ← evalExpr [] e
    op do return boolean ((← get).heap.space.isKind v kind)
  | .immediate e => do
    let v ← evalExpr [] e
    op (showImmediateParts v)
  | .getField e field => do
    let v ← evalExpr [] e
    op do return .ok (← readValue fun mode space => space.fieldGet mode v field)
  | .setField e field new => do
    let v ← evalExpr [] e
    let new ← evalExpr [] new
    op do return .ok (← write fun mode => Space.fieldSet mode v field new)
  | .access name e n new => do
    let v ← evalExpr [] e
    let new ← evalExpr [] new
    op do return .ok (← access name v n new)
  | .poke e index bits => do
    let v ← evalExpr [] e
    op do
      let address ← Machine.view fun mode _ => v.objectAddress mode
      return .ok (← write fun _ => modify fun space => space.poke address index bits)
  | .peek e index => do
    let v ← evalExpr [] e
    op do return .ok (← readWord fun mode space => do
      return space.peek (← v.objectAddress mode) index)
  | .decodeNear e distance => do
    let v ← evalExpr [] e
    op (showDecoded (fun _ => pure (.bool true)) (.bool false) (v.bits + distance))
  | .decode bits =>
    op (showDecoded (fun v => do return .text (← renderValue v)) .null bits)
  | .root name e => do
    let v ← evalExpr [] e
    op (setRoot name v)
    pure done
  | .writeRoot name e => do
    let v ← evalExpr [] e
    let location ← rootLocation name
    op (Machine.writeSlot location v)
    pure done
  | .dropRoot name => do
    match (← workspace).roots.lookup name with
    | none => pure (boolean false)
    | some location =>
      op do
        Machine.dropRoot location
        modifyWorkspace fun w => { w with roots := w.roots.filter (·.1 != name) }
      pure (boolean true)
  | .renderRoot name => do
    let v ← root name
    op do
      let shown ← renderValue v
      return .ok (.text ("GlobalRoot(" ++ shown ++ ")"))
  | .slot name e => do
    let v ← evalExpr [] e
    op do
      let location ← Machine.makeSlot v
      modifyWorkspace fun w => { w with slots := assign w.slots name location }
    pure done
  | .writeSlot name e => do
    let v ← evalExpr [] e
    let location ← slotLocation name
    op (Machine.writeSlot location v)
    pure done
  | .register name => do
    let location ← slotLocation name
    op (Machine.register location)
    pure done
  | .unregister name => do
    let location ← slotLocation name
    op (Machine.unregister location)
    pure done
  | .buffer name words => do
    let words ← bufferWords words
    op do
      let base ← Machine.reserve words.toArray
      let region := Region.ofRange base (base + words.length * wordBytes)
      modifyWorkspace fun w => { w with buffers := assign w.buffers name region }
    pure done
  | .addRegion span => do
    let region ← spanRegion span
    op (Machine.addRegion region)
    pure done
  | .removeRegion span => do
    let region ← spanRegion span
    op do return boolean (← Machine.removeRegion region)
  | .exclude span => do
    let region ← spanRegion span
    op (Machine.exclude region)
    pure done
  | .lift span => do
    let region ← spanRegion span
    op do return boolean (← Machine.lift region)
  | .registerLibrary name segments => do
    let regions ← spanRegions segments
    op (Machine.registerLibrary name regions)
    pure done
  | .unregisterLibrary name => op do return boolean (← Machine.unregisterLibrary name)
  | .finalizer e label keep collect => do
    let v ← evalExpr [] e
    let actions := if collect then [Action.collect, .report label keep] else [.report label keep]
    op (Machine.onHeap (Heap.registerFinalizer v actions))
    pure done
  | .runFinalizers => do
    op Machine.runFinalizers
    pure done
  | .collect => op do
    let stats ← Machine.collect
    return .record [("ok", .ofStats stats), ("dead", .names (← tellDead))]
  | .stats => op do return .ok (.ofStats (← get).heap.stats)
  | .isLive name => op do
    let m ← get
    let v? := (m.client.handles.find? (·.name == name)).bind fun h => m.weak? h.reference
    return boolean (v?.any m.heap.isLive)
  | .isLiveValue e => do
    let v ← evalExpr [] e
    op do return boolean ((← get).heap.isLive v)
  | .churn kind count length root? => do
    let location? ← match root? with
      | none => pure none
      | some name => some <$> rootLocation name
    op do
      let seen ← churnAll kind length location? count 0 ⟨[], []⟩
      return .record
        [("ok", .ofStats (← get).heap.stats), ("dead", .names seen.dead.reverse.flatten),
          ("collected_at", .list (seen.collected.reverse.map Datum.ofNat))]
  | .symbolCount => op do return .ok (.ofNat (← get).symbols.size)
  | .threadCount => op do return .ok (.ofNat (← get).threads.length)
  | .attachAgain => fail .alreadyAttached
  | .abortPolicy => op do
    let abort := Datum.bool (← get).options.abortOnFatal
    return .ok (.list [abort, abort])
  | .safepoint => op do
    Machine.safepoint
    return .ok (.ofNat (← stateCode))
  | .safeRegion => op visitSafeRegions
  | .thread => op do
    let id := Datum.ofNat (← get).running.id
    return .ok (.list [id, .ofNat (← Machine.frameDepth), .int 1, .int 1, id])
  | .onStack => op collectOnStack
  | .evaluate form bare => op (evaluateForm form bare)

/-! ## Sessions -/

/-- The answer of a command, or why it failed. -/
def answer (command : Command) : Op Workspace Datum := fun m =>
  match (perform command).run m with
  | .ok (.ok d) m => .ok d m
  | .ok (.error u) m => .ok (showUnwind u) m
  | .error fault m => .ok (.ofFault fault) m

/-- Holds on to the objects that finalizers asked to keep. -/
def keepReported : List FinalizerReport → Op Workspace Unit
  | [] => pure ()
  | report :: rest => do
    if report.keep then setRoot report.label report.object
    keepReported rest

/-- Reports in the order they are told: by label, then by kind. -/
def sortReports (reports : List FinalizerReport) : List FinalizerReport :=
  reports.mergeSort fun a b =>
    a.label < b.label || (a.label == b.label && a.kind.name ≤ b.kind.name)

/-- The finalizers that ran. -/
def showReports (reports : List FinalizerReport) : Datum :=
  .list (reports.map fun report => .names [report.label, report.kind.name])

/-- Runs a command and adds what happened on the side. Handles can only die in a collection. -/
def step (command : Command) : Op Workspace Datum := do
  let before ← collectionCount
  let d ← answer command
  let reports := sortReports (← get).reports.reverse
  modify fun m => { m with reports := [] }
  keepReported reports
  let dead ← if (← collectionCount) = before then pure [] else tellDead
  let d := withDead dead d
  return if reports.isEmpty then d else d.extend [("finalized", showReports reports)]

/-- Runs commands in order; gives their answers, the last one first. -/
def steps : List Command → List Datum → Op Workspace (List Datum)
  | [], answers => fun m => .ok answers m
  | command :: rest, answers => fun m =>
    match step command m with
    | .ok d m => steps rest (d :: answers) m
    | .error fault m => steps rest (.ofFault fault :: answers) m

/-- Runs a whole session on a new machine; gives the answer and the log. -/
def session (mode : Mode) (options : Options) (commands : List Command) : Datum × Array LogRecord :=
  match Machine.start mode options Workspace.empty with
  | .error e => (.ofError e, #[])
  | .ok m =>
    let whole : Op Workspace Datum := do
      let answers ← steps commands []
      Machine.noteDetached
      let left := (← get).waiting.length
      return .record [("steps", .list answers.reverse), ("threads", .ofNat left)]
    match whole m with
    | .ok d m => (d, m.log)
    | .error fault m => (.ofFault fault, m.log)

end Substrate.Script
