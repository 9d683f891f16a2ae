import Substrate.Marking
import Substrate.Size

/-!
# The heap

Objects, statistics, the threshold that decides when to collect, and finalizers.

A collection marks everything that the roots reach, then the objects whose finalizer has to run,
and sweeps the rest. The action attached to an object moves through three places: it is attached
to the object's address, queued once a collection finds the object unreachable, and taken out of
the queue to be run. The object stays alive until the run is over.
-/

namespace Substrate

/-- One step of what a finalizer does with its object. -/
inductive Action where
  /-- Runs a collection. -/
  | collect
  /-- Looks up or makes a symbol. -/
  | intern (name : String)
  /-- Allocates a vector with so many payload words. -/
  | vector (words : Nat)
  /-- Reports that the finalizer ran; `keep` asks the client to hold on to the object. -/
  | report (label : String) (keep : Bool)
  /-- Does not return. -/
  | fail (fault : Fault)
  deriving DecidableEq, Repr

/-- What is done, once, with an object that was found unreachable. -/
abbrev Finalizer : Type := List Action

structure Stats where
  bytesAllocated : Nat
  objectsAllocated : Nat
  collections : Nat
  objectsReclaimed : Nat
  bytesReclaimed : Nat
  /-- Bytes in live objects after the last collection. -/
  liveBytes : Nat
  /-- Bytes taken from the system. -/
  footprint : Nat
  deriving DecidableEq, Repr

/-- How a heap is set up. -/
structure HeapOptions where
  /-- The first threshold, and the least. -/
  minSize : Nat
  maxSize : Nat
  /-- The next threshold as a multiple of the live bytes. -/
  growth : Double
  interiorPointers : Bool
  deriving Repr

structure Heap where
  mode : Mode
  space : Space
  options : HeapOptions
  bytesAllocated : Nat
  objectsAllocated : Nat
  collections : Nat
  objectsReclaimed : Nat
  bytesReclaimed : Nat
  liveBytes : Nat
  allocatedSince : Nat
  threshold : Nat
  /-- Attached finalizers, by the address of their object. -/
  finalizers : List (Nat × Finalizer)
  /-- Finalizers that have to run, the next one first. -/
  pending : List (Value × Finalizer)
  /-- Objects whose finalizer is running. -/
  finalizing : Array Value

/-- What a collection did. -/
structure Collection where
  number : Nat
  swept : Swept
  marked : Nat
  footprint : Nat
  threshold : Nat
  deriving Repr

/-- The record a collection leaves in the log. -/
def Collection.record (c : Collection) : LogRecord :=
  ⟨.info, "gc",
    "collection #" ++ toString c.number ++ ": " ++ Size.render c.swept.liveBytes ++ " live in " ++
      toString c.marked ++ " objects, reclaimed " ++ Size.render c.swept.freedBytes ++ " in " ++
      toString c.swept.freedObjects ++ " objects, footprint " ++ Size.render c.footprint ++
      ", next at " ++ Size.render c.threshold⟩

namespace Space

/-- Stands in for a space that is being worked on. -/
def vacant : Space := .new 0

end Space

namespace Heap

def new (mode : Mode) (options : HeapOptions) : Heap where
  mode
  space := .new options.maxSize
  options
  bytesAllocated := 0
  objectsAllocated := 0
  collections := 0
  objectsReclaimed := 0
  bytesReclaimed := 0
  liveBytes := 0
  allocatedSince := 0
  threshold := options.minSize
  finalizers := []
  pending := []
  finalizing := #[]

def stats (h : Heap) : Stats where
  bytesAllocated := h.bytesAllocated
  objectsAllocated := h.objectsAllocated
  collections := h.collections
  objectsReclaimed := h.objectsReclaimed
  bytesReclaimed := h.bytesReclaimed
  liveBytes := h.liveBytes
  footprint := h.space.footprint

/-- Works on the space of a heap. -/
@[inline] def onSpace {α : Type} (x : Run Space α) : Run Heap α := fun h =>
  let space := h.space
  let h := { h with space := .vacant }
  match x space with
  | .ok a space => .ok a { h with space }
  | .error fault space => .error fault { h with space }

/-- Whether one more object with the given payload would cross the threshold. -/
def shouldCollect (h : Heap) (words : Nat) : Except Fault Bool := do
  let used ← h.mode.add h.liveBytes h.allocatedSince
  let total ← h.mode.add used (← allocationSize h.mode words)
  return h.threshold < total

/-- Allocates a zeroed object, without ever collecting. -/
def tryAllocate (kind : Kind) (words : Nat) : Run Heap (Option Value) := fun h =>
  let space := h.space
  let h := { h with space := .vacant }
  match space.allocate h.mode kind words with
  | (.error fault, space) => .error fault { h with space }
  | (.ok none, space) => .ok none { h with space }
  | (.ok (some address), space) =>
    match allocationSize h.mode words with
    | .error fault => .error fault { h with space }
    | .ok bytes =>
      .ok (some (.ofAddress address))
        { h with
          space
          allocatedSince := h.allocatedSince + bytes
          bytesAllocated := h.bytesAllocated + bytes
          objectsAllocated := h.objectsAllocated + 1 }

/-- Whether a value refers to an object that has not been reclaimed. -/
def isLive (h : Heap) (v : Value) : Bool :=
  v.isHeapRef && (h.space.findObject? v.address false).isSome

/-! ## Finalizers -/

/-- Attaches an action to an object, in place of the one attached before. -/
def registerFinalizer (v : Value) (action : Finalizer) : Run Heap Unit := fun h =>
  if h.isLive v then
    .ok ()
      { h with
        space := h.space.modifyHeader v.address (·.setFlag Header.hasFinalizer)
        finalizers := (v.address, action) :: h.finalizers.filter (·.1 != v.address) }
  else
    match h.mode.violation ("finalizer for non-object " ++ Text.hex v.address) with
    | .error fault => .error fault h
    | .ok () => .ok () h

def hasPendingFinalizers (h : Heap) : Bool :=
  !h.pending.isEmpty

/-- Takes the next action out of the queue. Its object stays alive until `finishFinalizer`. -/
def takePendingFinalizer (h : Heap) : Option (Value × Finalizer) × Heap :=
  match h.pending with
  | [] => (none, h)
  | (object, action) :: rest =>
    (some (object, action), { h with pending := rest, finalizing := h.finalizing.push object })

/-- Takes the last entry that is `v` out of an array; the last entry of all moves to its place. -/
def removeLast (values : Array Value) (v : Value) : Array Value :=
  match (List.range values.size).reverse.find? fun index => values.getD index .empty == v with
  | some index => (values.setIfInBounds index (values.back?.getD v)).pop
  | none => values

/-- The run of an object's finalizer is over. -/
def finishFinalizer (h : Heap) (object : Value) : Heap :=
  { h with finalizing := removeLast h.finalizing object }

/-- How many actions are attached or queued. -/
def finalizerCount (h : Heap) : Nat :=
  h.finalizers.length + h.pending.length

/-! ## Collection -/

/-- Marks everything that has to stay: what the client's roots reach, and the objects whose
finalizer is queued or running. -/
def markReachable {α : Type} (h : Heap) (traceRoots : Run Marking α) : Run Marking α := do
  let result ← traceRoots
  Marking.markValues h.mode (h.pending.map (·.1))
  Marking.markValues h.mode h.finalizing.toList
  Marking.drain h.mode
  return result

/-- Clears the flags of objects whose finalizers are no longer attached. -/
def clearFlags (entries : List (Nat × Finalizer)) (marking : Marking) : Marking :=
  entries.foldl (fun marking entry =>
    { marking with
      space := marking.space.modifyHeader entry.1 (·.clearFlag Header.hasFinalizer) }) marking

/-- Moves the actions of unmarked objects into the queue and marks what these objects reach. -/
def queueUnreached (h : Heap) (marking : Marking) :
    EStateM.Result Fault (Heap × Marking) Unit :=
  let reached := h.finalizers.filter fun entry => (marking.space.header entry.1).marked
  let unreached := h.finalizers.filter fun entry => !(marking.space.header entry.1).marked
  let queued := unreached.map fun entry => (Value.ofAddress entry.1, entry.2)
  let h := { h with finalizers := reached, pending := h.pending ++ queued }
  let markQueued : Run Marking Unit := do
    Marking.markValues h.mode (queued.map (·.1))
    Marking.drain h.mode
  match markQueued (clearFlags unreached marking) with
  | .ok () marking => .ok () (h, marking)
  | .error fault marking => .error fault (h, marking)

/-- Sweeps after marking and sets the next threshold. -/
def finish (h : Heap) (marking : Marking) : Collection × Heap :=
  let ⟨space, _, _, marked⟩ := marking
  let (swept, space) := space.sweep
  let threshold := max h.options.minSize (h.options.growth.times swept.liveBytes)
  (⟨h.collections + 1, swept, marked, space.footprint, threshold⟩,
    { h with
      space
      collections := h.collections + 1
      objectsReclaimed := h.objectsReclaimed + swept.freedObjects
      bytesReclaimed := h.bytesReclaimed + swept.freedBytes
      liveBytes := swept.liveBytes
      allocatedSince := 0
      threshold })

/-- Runs a collection. `traceRoots` marks what the heap does not know about itself. A fault on the
way leaves the marks that were set. -/
def collect {α : Type} (traceRoots : Run Marking α) : Run Heap (α × Collection) := fun h =>
  let marking := Marking.start h.space h.options.interiorPointers
  let h := { h with space := .vacant }
  match h.markReachable traceRoots marking with
  | .error fault marking => .error fault { h with space := marking.space }
  | .ok result marking =>
    match h.queueUnreached marking with
    | .error fault (h, marking) => .error fault { h with space := marking.space }
    | .ok () (h, marking) =>
      let (collection, h) := h.finish marking
      .ok (result, collection) h

end Heap

end Substrate
