import Substrate.Machine.Roots
import Substrate.Machine.Threads
import Substrate.Text.Lines

/-!
# The stress program

Mutator threads build lists, escape from a block with the sum of each list, and check it. What the
program prints, apart from the times it took, follows from its arguments and its environment.
-/

namespace Substrate.Stress

/-! ## Output -/

def usage : List String :=
  ["Usage: lisprt-stress [options]",
    "Options:",
    "  -h, --help: Print this help message",
    "  --threads <n>: Number of mutator threads (default: 4)",
    "  --iterations <n>: Lists built per thread (default: 200)",
    "  --list-length <n>: Conses per list (default: 10000)",
    "  --gc-min-heap-size <size>: Heap size that triggers the first collection",
    "  --gc-max-heap-size <size>: Largest heap footprint allowed",
    "  --gc-growth <factor>: Heap growth after a collection",
    "  --frame-limit <n>: Control frames per thread",
    "  --thread-stack-size <size>: Stack size of mutator threads",
    "  --no-stack-scan: Do not scan native stacks",
    "  --no-interior-pointers: Ignore pointers into the middle of objects",
    "  --abort-on-fatal: Abort instead of unwinding on fatal errors"]

/-- What a run did, as far as it does not depend on time. -/
structure Summary where
  lists : Nat
  length : Nat
  threads : Nat
  stats : Stats
  deriving Repr

/-- The lines of a summary; the run took `elapsed` seconds, its last collection `pause`
milliseconds. -/
def Summary.lines (s : Summary) (elapsed pause : String) : List String :=
  [toString s.lists ++ " lists of " ++ toString s.length ++ " conses on " ++ toString s.threads ++
      " threads in " ++ elapsed ++ "s",
    "allocated " ++ Size.render s.stats.bytesAllocated ++ " in " ++
      toString s.stats.objectsAllocated ++ " objects, " ++ toString s.stats.collections ++
      " collections, reclaimed " ++ Size.render s.stats.bytesReclaimed ++ " in " ++
      toString s.stats.objectsReclaimed ++ " objects",
    "live " ++ Size.render s.stats.liveBytes ++ ", footprint " ++ Size.render s.stats.footprint ++
      ", last pause " ++ pause ++ "ms"]

/-- How the program ends. -/
inductive Ending where
  | usage
  | finished (summary : Summary)
  /-- Something was wrong with the arguments, or a thread came back with an error. -/
  | failed (message : String)
  /-- A list did not add up. -/
  | miscounted (message : String)
  /-- A thread ended by a fault. -/
  | faulted (fault : Fault)
  /-- A fatal error ended the process. -/
  | aborted (kind : FatalKind) (message : String)
  /-- There are no addresses for the handles of so many threads. -/
  | tooManyThreads
  /-- There is no memory for the handles of so many threads; the system is asked for `bytes`. -/
  | outOfMemory (bytes : Nat)
  deriving Repr

/-- The exit code; nothing if a signal ended the process. -/
def Ending.code? : Ending → Option Nat
  | usage => some 0
  | finished _ => some 0
  | failed _ => some 1
  | miscounted _ => some 2
  | faulted _ => some 1
  | aborted _ _ => none
  | tooManyThreads => some 101
  | outOfMemory _ => none

/-- The lines of the standard output, given the times of the run. -/
def Ending.output (e : Ending) (elapsed pause : String) : List String :=
  match e with
  | usage => Stress.usage
  | finished summary => summary.lines elapsed pause
  | _ => []

/-- The messages of the error output, each of one line or more. -/
def Ending.complaint : Ending → List String
  | usage => []
  | finished _ => []
  | failed message => ["Error: " ++ message]
  | miscounted message => [message]
  | faulted (.fatal kind message) => [fatalLine kind message]
  | faulted _ => ["mutator thread panicked"]
  | aborted kind message => [fatalLine kind message]
  | tooManyThreads => ["capacity overflow"]
  | outOfMemory bytes => ["memory allocation of " ++ toString bytes ++ " bytes failed"]

/-- The lines of the error output. -/
def Ending.complaintLines (e : Ending) : List String :=
  e.complaint.flatMap Text.lines

/-! ## Arguments -/

structure Plan where
  threads : Nat
  iterations : Nat
  length : Nat
  options : Options
  deriving Repr

/-- Takes a count. -/
def takeCount (key : String) (fallback : Nat) : EStateM String Arguments Nat := fun args =>
  match Arguments.takeOption key Arguments.readCount args with
  | .ok n? args => .ok (n?.getD fallback) args
  | .error e args => .error e.message args

/-- Takes the options of the machine. -/
def takeOptions (env : Options.Environment) : EStateM String Arguments Options := fun args =>
  match Options.parse env args with
  | .ok options args => .ok options args
  | .error e args => .error e.message args

/-- Reads what is asked for; every argument has to be known. -/
def readPlan (env : Options.Environment) : EStateM String Arguments Plan := do
  let threads ← takeCount "--threads" 4
  let iterations ← takeCount "--iterations" 200
  let length ← takeCount "--list-length" 10000
  let options ← takeOptions env
  match ← get with
  | [] => return ⟨threads, iterations, length, options⟩
  | rest => throw ("unexpected arguments " ++ Text.quotedList rest)

/-! ## Running -/

/-- Conses the numbers from `index` on onto the list in a root. -/
def fill (location : Nat) : Nat → Nat → Op Unit Unit
  | 0, _ => fun m => .ok () m
  | count + 1, index => fun m =>
    let list : Value := ⟨m.memory.read location⟩
    match Machine.cons (.ofInt index) list m with
    | .error fault m => .error fault m
    | .ok cons m =>
      fill location count (index + 1) { m with memory := m.memory.write location cons.bits }

/-- The sum of a list of fixnums. -/
def sum (location : Nat) : Op Unit Int := do
  let list ← Machine.readSlot location
  let elements ← Machine.view fun mode space => space.listElements mode list
  return elements.foldl (fun total v => total + v.toInt) 0

/-- Escapes from a block, inside a binding, with the sum of the list in a root. -/
def escapeWithSum (level depth : Value) (location : Nat) : Op Unit (Except Error Value) :=
  Machine.toplevel <| Machine.binding level depth <| Machine.block fun tag => do
    let total ← sum location
    let value ← Machine.ofExcept (Value.fixnum (← get).mode total)
    Machine.exitTo tag [value]

/-- Builds a list and checks its sum; gives the error or the complaint if there is one. -/
def churn (depth : Value) (length : Nat) : Op Unit (Except Ending Unit) := do
  let depthRoot ← Machine.makeRoot depth
  let listRoot ← Machine.makeRoot .nil
  fill listRoot length 0
  let level ← Machine.intern "*level*"
  let result ← escapeWithSum level depth listRoot
  Machine.dropRoot listRoot
  Machine.dropRoot depthRoot
  match result with
  | .error e => return .error (.failed e.message)
  | .ok total =>
    let expected : Int := (length * (length - 1) / 2 : Nat)
    if total.toInt = expected then return .ok ()
    else
      return .error (.miscounted
        ("thread " ++ toString (← get).running.id ++ ": list sum " ++ toString total.toInt ++
          " != " ++ toString expected))

/-- Builds lists one after the other. -/
def churnAll (length : Nat) : Nat → Nat → Op Unit (Except Ending Unit)
  | 0, _ => fun m => .ok (.ok ()) m
  | count + 1, index => fun m =>
    match churn (.ofInt index) length m with
    | .ok (.ok ()) m => churnAll length count (index + 1) m
    | .ok (.error ending) m => .ok (.error ending) m
    | .error fault m => .error fault m

/-- How a fault ends the program. -/
def endingOf (options : Options) (fault : Fault) : Ending :=
  match fault, options.abortOnFatal with
  | .fatal kind message, true => .aborted kind message
  | fault, _ => .faulted fault

/-- Runs the threads. They share nothing but the heap, so that they can run one after the other. -/
def runThreads (plan : Plan) : Nat → Op Unit (Except Ending Unit)
  | 0 => fun m => .ok (.ok ()) m
  | count + 1 => fun m =>
    match Machine.spawn (churnAll plan.length plan.iterations 0) m with
    | .error fault m => .error fault m
    | .ok (.error e) m => .ok (.error (.failed e.message)) m
    | .ok (.ok (.error fault)) m => .ok (.error (endingOf plan.options fault)) m
    | .ok (.ok (.ok (.error ending))) m => .ok (.error ending) m
    | .ok (.ok (.ok (.ok ()))) m => runThreads plan count m

/-- The handle of a thread takes this many bytes. -/
def handleBytes : Nat := 24

/-- Runs the plan: all threads, then one collection. -/
def execute (plan : Plan) : Op Unit Ending := do
  let bytes := plan.threads * handleBytes
  if 0x8000000000000000 ≤ bytes then return .tooManyThreads
  if OsError.memoryBytes ≤ bytes then return .outOfMemory bytes
  match ← runThreads plan plan.threads with
  | .error ending => return ending
  | .ok () =>
    let stats ← Machine.collect
    return .finished ⟨plan.threads * plan.iterations, plan.length, plan.threads, stats⟩

/-- Runs the program. -/
def run (mode : Mode) (env : Options.Environment) (args : List String) : Ending :=
  match Arguments.takeAnyFlag args ["-h", "--help"] with
  | (true, _) => .usage
  | (false, args) =>
    match readPlan env args with
    | .error message _ => .failed message
    | .ok plan _ =>
      match Machine.start mode plan.options () with
      | .error e => .failed e.message
      | .ok m =>
        match execute plan m with
        | .ok ending _ => ending
        | .error fault _ => .faulted fault

end Substrate.Stress
