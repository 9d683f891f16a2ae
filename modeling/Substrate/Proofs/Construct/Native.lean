import Substrate.Proofs.Construct.Form

/-!
# Native frames

A constructor that allocates more than once, or whose allocation runs finalizers, has objects in its own
hands that no root refers to yet. They are in its native frame. A collection finds them there only if
native stacks are scanned.

`Host` says how a machine is hosted: which memory the system has to offer, and whether native stacks are
scanned. Its operations are those of the machine with the native frames written out: `frames` are the
values in the frames of everybody who waits for the operation. On a host that scans nothing, and with the
memory that the machine already has, they are the operations of the machine, whatever the frames are
(`plain_build`, `plain_makeSymbol`, `plain_intern` and `plain_list`).
-/

namespace Substrate.Machine

variable {γ : Type}

/-- Where a machine runs. -/
structure Host where
  /-- The memory that the system offers next to a space. -/
  system : Space → Pages
  /-- Whether collections scan native stacks. -/
  scans : Bool

namespace Host

variable (host : Host)

/-- What a collection sees of the native frames. -/
def seen (frames : List Value) : List Value :=
  if host.scans then frames else []

/-- Scans the words in native frames. -/
def scanFrames (frames : List Value) : Run Marking Unit :=
  modify fun k => (frames.map (·.bits)).foldl Marking.markAmbiguous k

def traceRoots (m : Machine γ) (frames : List Value) : Run Marking Unit := do
  m.traceRoots
  scanFrames (host.seen frames)

def markAndSweep (frames : List Value) : Op γ Stats := fun m =>
  let trace := host.traceRoots { m with heap := .vacant } frames
  match onHeap (Heap.collect trace) m with
  | .error fault m => .error fault m
  | .ok ((), collection) m =>
    .ok m.heap.stats { m with log := m.log.push collection.record }.clearWeak

def collectLocked (frames : List Value) : Op γ Stats :=
  withLock .threads <| withLock .roots do
    stopWorld
    let stats ← host.markAndSweep frames
    modify fun m => { m with collecting := false }
    return stats

/-- Takes memory for an object, from what the system offers if there is none left. -/
def tryAllocate (kind : Kind) (words : Nat) : Op γ (Option Value) :=
  onHeap fun h => Heap.tryAllocate kind words
    { h with space := { h.space with pages := host.system h.space } }

/-- Takes memory for an object, collecting if there is no other way to get it. -/
def claim (frames : List Value) (kind : Kind) (words : Nat) : Op γ Value := do
  match ← host.tryAllocate kind words with
  | some v => return v
  | none =>
    discard (host.collectLocked frames)
    match ← host.tryAllocate kind words with
    | some v => return v
    | none =>
      raiseFatal .heapExhausted
        ("cannot allocate a " ++ kind.name ++ " of " ++ toString words ++ " words within a " ++
          toString (← get).options.heap.maxSize ++ " byte heap")

def allocateLocked (frames : List Value) (kind : Kind) (words : Nat) : Op γ Value := do
  if ← ofExcept ((← get).heap.shouldCollect words) then
    discard (host.collectLocked frames)
  host.claim frames kind words

/-- The new object is in the frame of the allocation while finalizers run. -/
def allocateWith (finalize : List Value → Op γ Unit) (frames : List Value) (kind : Kind)
    (words : Nat) : Op γ Value := do
  expect kind.isHeap fun _ => return "allocation of a " ++ kind.name
  safepoint
  let v ← withLock .heap (host.allocateLocked frames kind words)
  if (← get).heap.hasPendingFinalizers then finalize (v :: frames)
  return v

def collectWith (finalize : List Value → Op γ Unit) (frames : List Value) : Op γ Stats := do
  let stats ← withLock .heap (host.collectLocked frames)
  finalize frames
  return stats

def makeStringWith (finalize : List Value → Op γ Unit) (frames : List Value) (text : String) :
    Op γ Value :=
  (Form.string text).build (host.allocateWith finalize frames)

/-- The name is in the frame of the constructor while the symbol is allocated. -/
def makeSymbolWith (finalize : List Value → Op γ Unit) (frames : List Value) (text : String) :
    Op γ Value := do
  let name ← host.makeStringWith finalize frames text
  (Form.symbol name).build (host.allocateWith finalize (name :: frames))

def internWith (finalize : List Value → Op γ Unit) (frames : List Value) (name : String) :
    Op γ Value :=
  withLock .symbols do
    match (← get).symbols.get? name with
    | some symbol => return symbol
    | none =>
      let symbol ← host.makeSymbolWith finalize frames name
      modify fun m => { m with symbols := m.symbols.insert name symbol }
      return symbol

def perform (finalize : List Value → Op γ Unit) (frames : List Value) (object : Value) :
    Action → Op γ Unit
  | .collect => discard (host.collectWith finalize frames)
  | .intern name => discard (host.internWith finalize frames name)
  | .vector words => discard (host.allocateWith finalize frames .vector words)
  | .report label keep =>
    modify fun m =>
      { m with reports := ⟨label, m.heap.space.kindOf object, object, keep, m.held⟩ :: m.reports }
  | .fail fault => raise fault

def performAll (finalize : List Value → Op γ Unit) (frames : List Value) (object : Value) :
    Finalizer → Op γ Unit
  | [] => pure ()
  | action :: rest => do
    host.perform finalize frames object action
    performAll finalize frames object rest

def finalizeWith : Nat → List Value → Op γ Unit
  | 0, _ => pure ()
  | fuel + 1, frames => do
    let m ← get
    if m.held.contains .heap then throw .blocked
    match m.heap.pending with
    | [] => return
    | (object, finalizer) :: _ =>
      modifyHeap fun heap => heap.takePendingFinalizer.2
      host.performAll (finalizeWith fuel) frames object finalizer
      modifyHeap (·.finishFinalizer object)
      finalizeWith fuel frames

def runFinalizers (frames : List Value) : Op γ Unit := do
  host.finalizeWith (← get).heap.finalizerCount frames

/-! ## Entry points -/

/-- Builds an object of a form. -/
def build (frames : List Value) (form : Form) : Op γ Value :=
  form.build (host.allocateWith host.runFinalizers frames)

def collect (frames : List Value) : Op γ Stats :=
  host.collectWith host.runFinalizers frames

def makeSymbol (frames : List Value) (text : String) : Op γ Value :=
  host.makeSymbolWith host.runFinalizers frames text

def intern (frames : List Value) (name : String) : Op γ Value :=
  host.internWith host.runFinalizers frames name

/-- The part of the list that is there already is in the frame of the constructor. -/
def consAll (frames : List Value) : List Value → Value → Op γ Value
  | [], list => pure list
  | element :: rest, list => do
    let list ← host.build (list :: frames) (.cons element list)
    consAll frames rest list

def list (frames : List Value) (elements : List Value) : Op γ Value :=
  host.consAll frames elements.reverse .nil

/-! ## Nothing to scan -/

/-- Native stacks are not scanned, and memory comes from where the space has it from. -/
def plain : Host := ⟨Space.pages, false⟩

variable (frames : List Value)

theorem plain_markAndSweep : plain.markAndSweep frames = (Machine.markAndSweep : Op γ Stats) := by
  have htrace : ∀ m : Machine γ, plain.traceRoots m frames = m.traceRoots := by
    intro m
    funext k
    change EStateM.bind _ _ k = _
    unfold EStateM.bind
    cases m.traceRoots k <;> rfl
  funext m
  unfold markAndSweep
  rw [htrace]
  rfl

theorem plain_collectLocked : plain.collectLocked frames = (Machine.collectLocked : Op γ Stats) := by
  unfold collectLocked Machine.collectLocked
  rw [plain_markAndSweep]

theorem plain_allocateLocked :
    plain.allocateLocked frames = (Machine.allocateLocked : Kind → Nat → Op γ Value) := by
  funext kind words
  unfold allocateLocked claim
  rw [plain_collectLocked]
  rfl

theorem plain_allocateWith (finalize : Op γ Unit) :
    plain.allocateWith (fun _ => finalize) frames = Machine.allocateWith finalize := by
  funext kind words
  unfold allocateWith Machine.allocateWith
  rw [plain_allocateLocked]

theorem plain_makeSymbolWith (finalize : Op γ Unit) :
    plain.makeSymbolWith (fun _ => finalize) frames = Machine.makeSymbolWith finalize := by
  funext text
  rw [makeSymbolWith_eq_build]
  simp only [makeSymbolWith, makeStringWith, plain_allocateWith]

theorem plain_internWith (finalize : Op γ Unit) :
    plain.internWith (fun _ => finalize) frames = Machine.internWith finalize := by
  funext name
  unfold internWith
  rw [plain_makeSymbolWith]
  rfl

theorem plain_perform (finalize : Op γ Unit) (object : Value) (action : Action) :
    plain.perform (fun _ => finalize) frames object action
      = Machine.perform finalize object action := by
  cases action with
  | collect =>
    simp only [perform, Machine.perform, collectWith, Machine.collectWith, plain_collectLocked]
  | intern name => simp only [perform, Machine.perform, plain_internWith]
  | vector words => simp only [perform, Machine.perform, plain_allocateWith]
  | report label keep => rfl
  | fail fault => rfl

theorem plain_performAll (finalize : Op γ Unit) (object : Value) (finalizer : Finalizer) :
    plain.performAll (fun _ => finalize) frames object finalizer
      = Machine.performAll finalize object finalizer := by
  induction finalizer with
  | nil => rfl
  | cons action rest ih => rw [performAll, Machine.performAll, plain_perform, ih]

theorem plain_finalizeWith (fuel : Nat) :
    plain.finalizeWith fuel = fun _ => (Machine.finalizeWith fuel : Op γ Unit) := by
  induction fuel with
  | zero => rfl
  | succ fuel ih =>
    funext frames
    unfold finalizeWith
    simp only [ih, plain_performAll]
    rfl

theorem plain_runFinalizers :
    plain.runFinalizers = fun _ => (Machine.runFinalizers : Op γ Unit) := by
  funext frames
  unfold runFinalizers Machine.runFinalizers
  simp only [plain_finalizeWith]

/-- Every form is built as the constructor of the machine builds it. -/
theorem plain_build (form : Form) : plain.build frames form = form.construct (γ := γ) := by
  rw [build, plain_runFinalizers, plain_allocateWith, Form.construct_eq]
  rfl

theorem plain_collect : plain.collect frames = (Machine.collect : Op γ Stats) := by
  rw [collect, plain_runFinalizers]
  simp only [collectWith, plain_collectLocked, Machine.collect, Machine.collectWith]

theorem plain_makeSymbol (text : String) :
    plain.makeSymbol frames text = (Machine.makeSymbol text : Op γ Value) := by
  rw [makeSymbol, plain_runFinalizers, plain_makeSymbolWith]
  rfl

theorem plain_intern (name : String) :
    plain.intern frames name = (Machine.intern name : Op γ Value) := by
  rw [intern, plain_runFinalizers, plain_internWith]
  rfl

theorem plain_list (elements : List Value) :
    plain.list frames elements = (Machine.list elements : Op γ Value) := by
  have hall : ∀ elements list,
      plain.consAll frames elements list = (Machine.consAll elements list : Op γ Value) := by
    intro elements
    induction elements with
    | nil => exact fun list => rfl
    | cons element rest ih =>
      intro list
      funext m
      rw [consAll, plain_build, Machine.consAll]
      unfold Form.construct
      cases hrun : Machine.cons element list m with
      | ok v m' => simp only [bind_of_ok hrun, ih, hrun]
      | error fault m' => simp only [bind_of_error hrun, hrun]
  exact hall _ _

end Host

end Substrate.Machine
