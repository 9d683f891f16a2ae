import Substrate.Machine.Basic

/-!
# Collection and allocation

A collection stops the other threads, marks from the roots and lowers its flag again when it is
over. Finalizers that it queued run afterwards, without any lock, on the thread that collected.

A finalizer may collect or allocate, which runs further finalizers. Each run takes one action out
of the finite stock of actions there are, so the number of actions bounds the nesting.
-/

namespace Substrate.Machine

variable {γ : Type}

/-! ## Roots -/

/-- Scans each of the regions. -/
def scanRegions (m : Machine γ) : List Region → Run Marking Unit
  | [] => pure ()
  | region :: rest => do
    Marking.scanRegion m.mode m.memory.read m.roots.exclusions region
    scanRegions m rest

/-- Marks what the control stacks refer to. -/
def markThreads (mode : Mode) : List Thread → Run Marking Unit
  | [] => pure ()
  | thread :: rest => do
    Marking.markValues mode thread.control.references
    markThreads mode rest

/-- Marks from everything that the machine knows to be in use: registered locations and regions,
the control stacks of all threads, and the symbol table. -/
def traceRoots (m : Machine γ) : Run Marking Unit := do
  Marking.markValues m.mode (m.roots.locations.map fun location => ⟨m.memory.read location⟩)
  scanRegions m m.roots.regions.toList
  markThreads m.mode m.threads
  Marking.markValues m.mode m.symbols.symbols

/-! ## Collections -/

/-- Stops the world: raises the flag and waits for every other thread to stop. -/
def stopWorld : Op γ Unit := do
  modify fun m => { m with collecting := true }
  let m ← get
  if m.waiting.any (·.state == .running) then throw .blocked
  note .trace "safepoint" (toString m.threads.length ++ " threads stopped")

/-- Marks and sweeps with the world stopped. -/
def markAndSweep : Op γ Stats := fun m =>
  let trace := traceRoots { m with heap := .vacant }
  match onHeap (Heap.collect trace) m with
  | .error fault m => .error fault m
  | .ok ((), collection) m =>
    .ok m.heap.stats { m with log := m.log.push collection.record }.clearWeak

/-- A collection by a thread that holds the heap. The flag is lowered only when it succeeds. -/
def collectLocked : Op γ Stats :=
  withLock .threads <| withLock .roots do
    stopWorld
    let stats ← markAndSweep
    modify fun m => { m with collecting := false }
    return stats

/-! ## Allocation -/

/-- Takes memory for an object, collecting first if the threshold says so, or if there is no other
way to get the memory. -/
def allocateLocked (kind : Kind) (words : Nat) : Op γ Value := do
  if ← ofExcept ((← get).heap.shouldCollect words) then
    discard collectLocked
  match ← onHeap (Heap.tryAllocate kind words) with
  | some v => return v
  | none =>
    discard collectLocked
    match ← onHeap (Heap.tryAllocate kind words) with
    | some v => return v
    | none =>
      raiseFatal .heapExhausted
        ("cannot allocate a " ++ kind.name ++ " of " ++ toString words ++ " words within a " ++
          toString (← get).options.heap.maxSize ++ " byte heap")

/-- Allocates a zeroed object. `finalize` runs the queued finalizers, if there are any. -/
def allocateWith (finalize : Op γ Unit) (kind : Kind) (words : Nat) : Op γ Value := do
  expect kind.isHeap fun _ => return "allocation of a " ++ kind.name
  safepoint
  let v ← withLock .heap (allocateLocked kind words)
  if (← get).heap.hasPendingFinalizers then finalize
  return v

/-- Collects, then runs the queued finalizers by `finalize`. -/
def collectWith (finalize : Op γ Unit) : Op γ Stats := do
  let stats ← withLock .heap collectLocked
  finalize
  return stats

/-! ## Strings and symbols -/

/-- The word made of the given bytes, the lowest first. -/
def wordOfBytes (bytes : List UInt8) : Word :=
  bytes.foldr (fun byte bits => (bits <<< 8) ||| byte.toUInt64) 0

/-- A word whose lowest bytes, at most eight, are replaced. -/
def overwrite (bits : Word) (bytes : List UInt8) : Word :=
  wordOfBytes (bytes ++ (Space.wordToBytes bits).drop bytes.length)

/-- Writes bytes into the payload, over `count` words from `index` on. What the last of these words
holds behind the last byte stays. -/
def writeBytes (address : Nat) : Nat → Nat → List UInt8 → Space → Space
  | 0, _, _, s => s
  | count + 1, index, bytes, s =>
    let bits := overwrite (s.word address index) (bytes.take wordBytes)
    writeBytes address count (index + 1) (bytes.drop wordBytes) (s.setWord address index bits)

def makeStringWith (finalize : Op γ Unit) (text : String) : Op γ Value := do
  let bytes := Text.utf8 text
  let words ← ofExcept ((Layout.of .string).payloadWords (← get).mode bytes.length)
  let string ← allocateWith finalize .string words
  onSpace fun mode =>
    Space.setRawWord mode string .string At.stringLength (UInt64.ofNat bytes.length)
  let count := (bytes.length + wordBytes - 1) / wordBytes
  onSpace fun _ => modify (writeBytes string.address count At.stringBytes bytes)
  return string

/-- A binding index that no symbol has. -/
def freshBinding : Op γ Nat := fun m =>
  .ok m.nextBinding { m with nextBinding := m.nextBinding + 1 }

/-- A symbol without a value, with a fresh binding index. -/
def makeSymbolWith (finalize : Op γ Unit) (text : String) : Op γ Value := do
  let name ← makeStringWith finalize text
  let symbol ← allocateWith finalize .symbol (Layout.of .symbol).fixedWords
  onSpace fun mode => Space.fieldSet mode symbol .symbolName name
  onSpace fun mode => Space.fieldSet mode symbol .symbolValue .unbound
  onSpace fun mode => Space.fieldSet mode symbol .symbolFunction .unbound
  onSpace fun mode => Space.fieldSet mode symbol .symbolPlist .nil
  onSpace fun mode => Space.fieldSet mode symbol .symbolPackage .nil
  let index ← freshBinding
  onSpace fun mode =>
    Space.setRawWord mode symbol .symbol At.symbolBindingIndex (UInt64.ofNat index)
  return symbol

/-- The symbol with the given name, made on first use while the symbol table is held. -/
def internWith (finalize : Op γ Unit) (name : String) : Op γ Value :=
  withLock .symbols do
    match (← get).symbols.get? name with
    | some symbol => return symbol
    | none =>
      let symbol ← makeSymbolWith finalize name
      modify fun m => { m with symbols := m.symbols.insert name symbol }
      return symbol

/-! ## Finalizers -/

/-- Does one step of a finalizer with its object. -/
def perform (finalize : Op γ Unit) (object : Value) : Action → Op γ Unit
  | .collect => discard (collectWith finalize)
  | .intern name => discard (internWith finalize name)
  | .vector words => discard (allocateWith finalize .vector words)
  | .report label keep =>
    modify fun m =>
      { m with reports := ⟨label, m.heap.space.kindOf object, object, keep, m.held⟩ :: m.reports }
  | .fail fault => raise fault

def performAll (finalize : Op γ Unit) (object : Value) : Finalizer → Op γ Unit
  | [] => pure ()
  | action :: rest => do
    perform finalize object action
    performAll finalize object rest

/-- Runs the queued finalizers, nested at most `fuel` deep. -/
def finalizeWith : Nat → Op γ Unit
  | 0 => pure ()
  | fuel + 1 => do
    let m ← get
    if m.held.contains .heap then throw .blocked
    match m.heap.pending with
    | [] => return
    | (object, finalizer) :: _ =>
      modifyHeap fun heap => heap.takePendingFinalizer.2
      performAll (finalizeWith fuel) object finalizer
      modifyHeap (·.finishFinalizer object)
      finalizeWith fuel

/-- Runs every queued finalizer. -/
def runFinalizers : Op γ Unit := do
  finalizeWith (← get).heap.finalizerCount

/-! ## Entry points -/

/-- Allocates a zeroed object with the given payload words. -/
def allocateWords (kind : Kind) (words : Nat) : Op γ Value :=
  allocateWith runFinalizers kind words

/-- Allocates a zeroed object with room for the given bytes. -/
def allocate (kind : Kind) (bytes : Nat) : Op γ Value := do
  allocateWords kind (← ofExcept (wordsFor (← get).mode bytes))

/-- Runs a full collection, then the finalizers that it queued. -/
def collect : Op γ Stats :=
  collectWith runFinalizers

def makeString (text : String) : Op γ Value := makeStringWith runFinalizers text

def makeSymbol (text : String) : Op γ Value := makeSymbolWith runFinalizers text

def intern (name : String) : Op γ Value := internWith runFinalizers name

end Substrate.Machine
