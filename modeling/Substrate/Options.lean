import Substrate.Arguments
import Substrate.Error
import Substrate.Heap

/-!
# Options of a machine

Defaults, overridden by environment variables, overridden by command-line arguments. Variables
that cannot be read are ignored; arguments that cannot be read are errors. The merged options
have to be valid after each of the two layers.
-/

namespace Substrate

structure Options where
  heap : HeapOptions
  /-- Whether native stacks are scanned for references. -/
  stackScan : Bool
  /-- Control frames per thread. -/
  frameLimit : Nat
  /-- Nested calls per thread. -/
  invocationLimit : Nat
  /-- Stack size of the threads that the machine starts. -/
  threadStackSize : Option Nat
  /-- Whether a fatal error ends the process instead of the thread. -/
  abortOnFatal : Bool
  deriving Repr

namespace Options

def default : Options where
  heap :=
    { minSize := 4 * 1024 * 1024, maxSize := 1024 * 1024 * 1024, growth := .two,
      interiorPointers := true }
  stackScan := true
  frameLimit := 16 * 1024
  invocationLimit := 64 * 1024
  threadStackSize := none
  abortOnFatal := false

/-- Rejects options that no machine can run with. -/
def validate (o : Options) : Except Error Unit :=
  if o.heap.minSize = 0 then .error (.invalidOption "gc_min_heap_size" "0")
  else if o.heap.maxSize < o.heap.minSize then
    .error (.invalidOption "gc_max_heap_size"
      (toString o.heap.maxSize ++ " (smaller than minimum heap size " ++ toString o.heap.minSize ++
        ")"))
  else if !o.heap.growth.isAtLeastOne then
    .error (.invalidOption "gc_growth_factor" o.heap.growth.render)
  else if o.frameLimit = 0 then .error (.invalidOption "frame_limit" "0")
  else .ok ()

/-- The record that a new machine with these options leaves in the log. -/
def announcement (o : Options) : LogRecord :=
  let scan := if o.stackScan then "on" else "off"
  ⟨.info, "vm",
    "heap " ++ Size.render o.heap.minSize ++ ".." ++ Size.render o.heap.maxSize ++ ", growth " ++
      o.heap.growth.render ++ ", stack scan " ++ scan⟩

/-! ## Environment -/

/-- Environment variables with their values. -/
abbrev Environment : Type := List (String × String)

/-- The variables that the options look at. -/
def variableNames : List String :=
  ["LISPRT_GC_MIN_HEAP", "LISPRT_GC_MAX_HEAP", "LISPRT_GC_GROWTH", "LISPRT_FRAME_LIMIT",
    "LISPRT_STACK_SCAN", "LISPRT_INTERIOR_POINTERS", "LISPRT_ABORT_ON_FATAL"]

/-- Overrides an option by a variable that is set and can be read. -/
def override {α : Type} (env : Environment) (name : String) (read? : String → Option α)
    (o : Options) (set : α → Options) : Options :=
  match (env.lookup name).bind read? with
  | some a => set a
  | none => o

/-- The options that the environment asks for, not yet validated. -/
def mergeEnvironment (env : Environment) (o : Options) : Options :=
  let o := override env "LISPRT_GC_MIN_HEAP" Size.read? o fun n =>
    { o with heap := { o.heap with minSize := n } }
  let o := override env "LISPRT_GC_MAX_HEAP" Size.read? o fun n =>
    { o with heap := { o.heap with maxSize := n } }
  let o := override env "LISPRT_GC_GROWTH" Size.readFactor? o fun x =>
    { o with heap := { o.heap with growth := x } }
  let o := override env "LISPRT_FRAME_LIMIT" Size.read? o fun n => { o with frameLimit := n }
  let o := override env "LISPRT_STACK_SCAN" Size.readFlag? o fun b => { o with stackScan := b }
  let o := override env "LISPRT_INTERIOR_POINTERS" Size.readFlag? o fun b =>
    { o with heap := { o.heap with interiorPointers := b } }
  override env "LISPRT_ABORT_ON_FATAL" Size.readFlag? o fun b => { o with abortOnFatal := b }

def ofEnvironment (env : Environment) : Except Error Options := do
  let o := mergeEnvironment env default
  o.validate
  return o

/-! ## Arguments -/

/-- A step of taking arguments; those left survive an error. -/
abbrev Take (α : Type) : Type := EStateM Error Arguments α

def ofResult {α : Type} (result : Except Error α) : Take α :=
  match result with
  | .ok a => pure a
  | .error e => throw e

/-- Takes an option; its error is reported under `name`. -/
def takeValue {α : Type} (key name : String) (read : String → Except Decimal.LiteralError α) :
    Take (Option α) := fun args =>
  match Arguments.takeOption key read args with
  | .ok a args => .ok a args
  | .error e args => .error (.invalidOption name e.message) args

/-- Takes an option whose value is a size. The value is removed before it is read. -/
def takeSize (key : String) : Take (Option Nat) := do
  match ← takeValue key key .ok with
  | none => return none
  | some text =>
    match Size.read? text with
    | some n => return some n
    | none => throw (.invalidOption key text)

def takeFlag (flag : String) : Take Bool := fun args =>
  let (found, args) := Arguments.takeFlag args flag
  .ok found args

/-- The options that the environment and the arguments ask for. Arguments that are none of the
machine's are left. -/
def parse (env : Environment) : Take Options := do
  let o ← ofResult (ofEnvironment env)
  let o := match ← takeSize "--gc-min-heap-size" with
    | some n => { o with heap := { o.heap with minSize := n } }
    | none => o
  let o := match ← takeSize "--gc-max-heap-size" with
    | some n => { o with heap := { o.heap with maxSize := n } }
    | none => o
  let o := match ← takeValue "--gc-growth" "gc_growth_factor" Arguments.readDouble with
    | some x => { o with heap := { o.heap with growth := x } }
    | none => o
  let o := match ← takeValue "--frame-limit" "frame_limit" Arguments.readCount with
    | some n => { o with frameLimit := n }
    | none => o
  let o := match ← takeSize "--thread-stack-size" with
    | some n => { o with threadStackSize := some n }
    | none => o
  let o := if ← takeFlag "--no-stack-scan" then { o with stackScan := false } else o
  let o := if ← takeFlag "--no-interior-pointers" then
      { o with heap := { o.heap with interiorPointers := false } }
    else o
  let o := if ← takeFlag "--abort-on-fatal" then { o with abortOnFatal := true } else o
  ofResult o.validate
  return o

end Options

end Substrate
