import Substrate.Options

/-!
# Sessions on one heap

A session names the objects it allocates. A value is written as a name, a number or nothing. The
names of objects that a collection reclaims are forgotten.
-/

namespace Substrate.Session

/-- A value of a heap session. -/
inductive Operand where
  | named (name : String)
  | number (n : Int)
  | nothing

/-- A word of a buffer that is scanned: a number, or an address near an object. -/
inductive Entry where
  | word (bits : Word)
  | near (name : String) (distance : Int)

structure Heaps where
  heap : Heap
  /-- Names with their objects, the latest first. -/
  names : List (String × Value)
  /-- What the finalizers reported. -/
  log : List LogRecord

/-- What is done in a collection before the heap goes on by itself. -/
structure CollectPlan where
  mark : List Operand
  slots : List Operand
  ambiguous : List (Operand × Int)
  words : List Entry
  from? : Option Nat
  to? : Option Nat
  exclude : List (Nat × Nat)
  drain : Bool
  query : List Operand

/-- What a collection was seen to do. -/
structure CollectReport where
  stats : Stats
  dead : List String
  markedBefore : Nat
  markedAfter : Nat
  queried : List Bool

namespace Heaps

/-- Starts a session; the options have to be valid. -/
def start (mode : Mode) (options : Options) : Except Error Heaps := do
  options.validate
  return ⟨.new mode options.heap, [], []⟩

/-- Raises a fault that is written to the log. -/
def raise {α : Type} (fault : Fault) : Run Heaps α := fun s =>
  .error fault { s with log := s.log ++ fault.record?.toList }

def ofExcept {α : Type} (result : Except Fault α) : Run Heaps α :=
  match result with
  | .ok a => pure a
  | .error fault => raise fault

/-- Works on the heap of the session. -/
def onHeap {α : Type} (x : Run Heap α) : Run Heaps α := fun s =>
  match x s.heap with
  | .ok a heap => .ok a { s with heap }
  | .error fault heap => raise fault { s with heap }

/-- The value that is written; a name has to be known. -/
def resolve (mode : Mode) (names : List (String × Value)) : Operand → Except Fault Value
  | .named name =>
    match names.lookup name with
    | some v => .ok v
    | none => .error (.panic ("dead " ++ name))
  | .number n => Value.fixnum mode n
  | .nothing => .ok .nil

def value (operand : Operand) : Run Heaps Value := do
  let s ← get
  ofExcept (resolve s.heap.mode s.names operand)

/-- Forgets the names of reclaimed objects and gives them in order. -/
def forgetDead : Run Heaps (List String) := do
  let s ← get
  let dead := s.names.filter fun (_, v) => !s.heap.isLive v
  set { s with names := s.names.filter fun (_, v) => s.heap.isLive v }
  return ((dead.map (·.1)).eraseDups).mergeSort fun a b => a ≤ b

def allocate (name : String) (kind : Kind) (words : Nat) : Run Heaps Bool := do
  match ← onHeap (Heap.tryAllocate kind words) with
  | none => return false
  | some v =>
    modify fun s => { s with names := (name, v) :: s.names.filter (·.1 != name) }
    return true

def setField (v : Operand) (field : Field) (new : Operand) : Run Heaps Unit := do
  let object ← value v
  let new ← value new
  let mode := (← get).heap.mode
  onHeap (Heap.onSpace (Space.fieldSet mode object field new))

/-- The value of a field: the first name of the object, `?` if it has none, or the text of an
immediate. -/
def getField (v : Operand) (field : Field) : Run Heaps String := do
  let object ← value v
  let s ← get
  let result ← ofExcept (s.heap.space.fieldGet s.heap.mode object field)
  if result.isHeapRef then
    let names := (s.names.filter fun (_, named) => named == result).map (·.1)
    return ((names.mergeSort fun a b => a ≤ b).head?).getD "?"
  else
    ofExcept (s.heap.space.render s.heap.mode result)

/-- Writes a payload word, whatever it is for. -/
def poke (v : Operand) (word : Nat) (bits : Word) : Run Heaps Unit := do
  let object ← value v
  let address ← ofExcept (object.objectAddress (← get).heap.mode)
  onHeap (Heap.onSpace (modify fun space => space.poke address word bits))

def shouldCollect (words : Nat) : Run Heaps Bool := do
  ofExcept ((← get).heap.shouldCollect words)

def attach (v : Operand) (label : String) : Run Heaps Unit := do
  let object ← value v
  onHeap (Heap.registerFinalizer object [.report label false])

def flags (v : Operand) : Run Heaps Nat := do
  let object ← value v
  let heap := (← get).heap
  let address ← ofExcept (object.objectAddress heap.mode)
  return (heap.space.header address).flags.toNat

/-- Runs at most `count` queued finalizers; gives what they reported. -/
def takeSome (hold : Bool) : Nat → List String → Run Heaps (List String)
  | 0, reports => return reports
  | count + 1, reports => do
    let s ← get
    match s.heap.takePendingFinalizer with
    | (none, _) => return reports
    | (some (object, action), heap) =>
      let kind := (heap.space.kindOf object).name
      let labels := action.filterMap fun step => match step with
        | .report label _ => some (label ++ ":" ++ kind)
        | _ => none
      set { s with heap := if hold then heap else heap.finishFinalizer object }
      takeSome hold count (reports ++ labels)

/-- Runs all queued finalizers; gives their reports in order. -/
def take (hold : Bool) : Run Heaps (List String) := do
  let reports ← takeSome hold (← get).heap.pending.length []
  return reports.mergeSort fun a b => a ≤ b

def finish (v : Operand) : Run Heaps Unit := do
  let object ← value v
  modify fun s => { s with heap := s.heap.finishFinalizer object }

/-- Whether a value is a live object; a forgotten name is not. -/
def isLive (v : Operand) : Run Heaps Bool := do
  let s ← get
  match v with
  | .named name => return (s.names.lookup name).any s.heap.isLive
  | v => return s.heap.isLive (← value v)

/-! ## Collections -/

/-- Where the buffer that is scanned lies. -/
def bufferBase : Nat := 0x600000000000

def entryWord : Entry → Run Heaps Word
  | .word bits => return bits
  | .near name distance => do
    return (← value (.named name)).bits + Value.wordOfInt distance

def mapEntries : List Entry → Run Heaps (List Word)
  | [] => return []
  | entry :: rest => return (← entryWord entry) :: (← mapEntries rest)

/-- Marks the values one after the other, given how they are found. -/
def markOperands (mode : Mode) (find : Operand → Except Fault Value) :
    List Operand → Run Marking Unit
  | [] => pure ()
  | operand :: rest => do
    Marking.markValue mode (← Run.ofExcept (find operand))
    markOperands mode find rest

/-- Marks what lies at a distance from the values, one after the other. -/
def markNear (find : Operand → Except Fault Value) : List (Operand × Int) → Run Marking Unit
  | [] => pure ()
  | (operand, distance) :: rest => do
    let v ← Run.ofExcept (find operand)
    modify (·.markAmbiguous (v.bits + Value.wordOfInt distance))
    markNear find rest

/-- Tests the values one after the other. -/
def queryMarks (find : Operand → Except Fault Value) : List Operand → Run Marking (List Bool)
  | [] => return []
  | operand :: rest => do
    let v ← Run.ofExcept (find operand)
    let marked := (← get).isMarked v
    return marked :: (← queryMarks find rest)

/-- What the plan does in the collection, with the buffer that it scans. -/
def carryOut (mode : Mode) (find : Operand → Except Fault Value) (plan : CollectPlan)
    (buffer : Array Word) : Run Marking (Nat × Nat × List Bool) := do
  let memory := fun address => buffer.getD ((address - bufferBase) / wordBytes) 0
  let range (start stop : Nat) := Region.ofRange (bufferBase + start) (bufferBase + stop)
  let exclusions := plan.exclude.foldl
    (fun (e : Exclusions) (start, stop) => e.exclude (range start stop)) .none
  let region := range (plan.from?.getD 0) (plan.to?.getD (buffer.size * wordBytes))
  markOperands mode find plan.mark
  markOperands mode find plan.slots
  markNear find plan.ambiguous
  Marking.scanRegion mode memory exclusions region
  let before := (← get).marked
  if plan.drain then Marking.drain mode
  let after := (← get).marked
  return (before, after, ← queryMarks find plan.query)

/-- Runs a collection as planned. The buffer is filled beforehand. -/
def collect (plan : CollectPlan) : Run Heaps CollectReport := do
  let words ← mapEntries plan.words
  let s ← get
  let mode := s.heap.mode
  let trace := carryOut mode (resolve mode s.names) plan words.toArray
  let ((before, after, queried), collection) ← onHeap (Heap.collect trace)
  modify fun s => { s with log := s.log ++ [collection.record] }
  let dead ← forgetDead
  return ⟨(← get).heap.stats, dead, before, after, queried⟩

end Heaps

end Substrate.Session
