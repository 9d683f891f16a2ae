import Substrate.Machine.Scopes

/-!
# Attaching threads

A machine starts with one thread attached. A thread that it spawns is attached for as long as it
runs; whoever spawned it waits for it in a safe region. Each thread has a control stack of its own,
which no other thread can reach.
-/

namespace Substrate.Machine

variable {γ α : Type}

/-- A machine with its first thread attached. -/
def start (mode : Mode) (options : Options) (client : γ) : Except Error (Machine γ) := do
  options.validate
  return {
    mode
    options
    heap := .new mode options.heap
    roots := .empty
    memory := .empty
    symbols := .empty
    running := ⟨1, .running, .new options.frameLimit options.invocationLimit⟩
    waiting := []
    nextThread := 2
    nextBinding := 0
    collecting := false
    held := []
    weak := #[]
    log := #[options.announcement]
    reports := []
    client }

/-- Tells the log that the running thread is no longer attached. -/
def noteDetached : Op γ Unit := do
  note .debug "vm" ("thread " ++ toString (← get).running.id ++ " detached")

/-- Lets the running thread wait and attaches a new one, which runs instead. -/
def attach : Op γ Unit :=
  modify fun m =>
    { m with
      running := ⟨m.nextThread, .running, .new m.options.frameLimit m.options.invocationLimit⟩
      waiting := m.running :: m.waiting
      nextThread := m.nextThread + 1 }

/-- Detaches the running thread; the one that waited for it runs again. -/
def detach : Op γ Unit := do
  noteDetached
  modify fun m =>
    match m.waiting with
    | [] => m
    | thread :: rest => { m with running := thread, waiting := rest }

/-- Runs a body on a new thread and waits for it. A fault ends that thread only. -/
def onNewThread (body : Op γ α) : Op γ (Except Fault α) := do
  attach
  let result ← fun m =>
    match body m with
    | .ok a m => .ok (.ok a) m
    | .error .blocked m => .error .blocked m
    | .error fault m => .ok (.error fault) m
  detach
  return result

/-- Spawns a thread for a body and joins it at once. -/
def spawn (body : Op γ α) : Op γ (Except Error (Except Fault α)) := do
  let m ← get
  match OsError.ofThread? m.threads.length (m.options.threadStackSize.getD 0) with
  | some refusal => return .error (.threadSpawn refusal)
  | none =>
    note .trace "sync" "spawned posix thread"
    return .ok (← safeRegion (onNewThread body))

/-- Using the control stack of a thread from elsewhere is fatal. -/
def reachFromElsewhere : Op γ α := do
  raiseFatal .controlIntegrity
    ("control stack of thread " ++ toString (← get).running.id ++ " used from another thread")

end Substrate.Machine
