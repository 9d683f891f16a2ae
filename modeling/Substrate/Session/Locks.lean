import Substrate.Lock.Guard
import Substrate.Lock.Parking
import Substrate.Options
import Substrate.Script.Datum

/-!
# Sessions on locks

One thread works on a mutex, a condition variable and a monitor, with at most one guard of each, and
lets other threads work on them meanwhile. Nobody notifies the one who waits, so every wait with a
time limit ends by that limit.

There is a machine beside it. A session whose thread is attached to that machine waits in safe
regions for the threads that it joins, and for what it does with a guard that asks for this.
-/

namespace Substrate.Session

/-- What threads and locks are made of. -/
inductive Backend where
  | posix
  | parking
  deriving DecidableEq, Repr

namespace Backend

def name : Backend → String
  | posix => "posix"
  | parking => "parking"

def ofName (name : String) : Backend := if name == "parking" then parking else posix

end Backend

/-- Numbers behind a mutex. -/
structure Shared where
  items : List Int
  guard : Lock.Guard.State
  /-- Whether the guard of the session waits in safe regions. -/
  safely : Bool

namespace Shared

/-- The thread that the session runs on. -/
abbrev own : Nat := 0

/-- The thread that other work is done on. -/
abbrev other : Nat := 1

def new : Shared := ⟨[], .initial 2, false⟩

def isHeld (s : Shared) : Bool := s.guard.holder == some own

/-- A step of a thread; a step that cannot be made changes nothing. -/
def move (s : Shared) (thread : Nat) (m : Lock.Guard.Move) : Shared :=
  { s with guard := (s.guard.move thread m).getD s.guard }

def push (s : Shared) (n : Int) : Shared := { s with items := s.items ++ [n] }

/-- A thread tries to take the mutex and to add a number; tells whether it could. -/
def tryPush (s : Shared) (thread : Nat) (n : Int) : Bool × Shared :=
  match s.guard.holder with
  | some _ => (false, s)
  | none => (true, (((s.move thread .tryLock).push n).move thread .drop))

/-- Another thread waits for the mutex and adds a number. -/
def pushFrom (s : Shared) (n : Int) : Shared :=
  ((s.move other .lock).push n).move other .drop

/-- Runs an action while the guard has let go. -/
def unlocked {α : Type} (s : Shared) (action : Shared → α × Shared) : α × Shared :=
  let (a, s) := action (s.move own .release)
  (a, s.move own .regain)

def shown (s : Shared) : Datum := .list (s.items.map Datum.int)

end Shared

structure Locks where
  backend : Backend
  /-- Whether the thread of the session is attached to the machine. -/
  attached : Bool
  mutex : Shared
  monitor : Shared

namespace Locks

def new (backend : Backend) (attached : Bool) : Locks := ⟨backend, attached, .new, .new⟩

def notHeld : Datum := .failure "NotHeld" "no guard"

def wouldDeadlock : Datum := .failure "WouldDeadlock" "already held"

/-- A step that needs a guard. -/
def guarded (s : Shared) (f : Shared → Datum × Shared) : Datum × Shared :=
  if s.isHeld then f s else (notHeld, s)

def lock (safely : Bool) (s : Shared) : Datum × Shared :=
  if s.isHeld then (wouldDeadlock, s)
  else
    let s := { s.move Shared.own .lock with safely }
    (.ok s.shown, s)

def tryLock (safely : Bool) (s : Shared) : Datum × Shared :=
  if s.isHeld then (.ok (.bool false), s)
  else (.ok (.bool true), { s.move Shared.own .tryLock with safely })

def unlock (s : Shared) : Datum × Shared :=
  if s.isHeld then (.ok (.bool true), s.move Shared.own .drop) else (.ok (.bool false), s)

def push (s : Shared) (n : Int) : Datum × Shared :=
  guarded s fun s =>
    let s := s.push n
    (.ok s.shown, s)

/-- A wait that ends by its time limit. -/
def wait (s : Shared) : Datum × Shared :=
  guarded s fun s => (.ok (.bool true), s)

/-- Each of several threads adds its number; the one who waits for all of them sorts. -/
def gather (s : Shared) (count : Nat) : Datum × Shared :=
  if s.isHeld then (wouldDeadlock, s)
  else
    let s := (List.range count).foldl (fun s (n : Nat) => s.pushFrom n) s
    let s := { s with items := s.items.mergeSort fun a b => a ≤ b }
    (.ok s.shown, s)

/-- What a thread comes back with: twice its number, or what stopped it. -/
def spawn (d : Datum) : Datum :=
  match OsError.ofStackSize? (d.get "stack").nat, d.get? "panic", d.get? "fatal" with
  | some refusal, _, _ => .ofError (.threadSpawn refusal)
  | none, some text, _ => .ofFault (.panic text.string)
  | none, none, some text => .ofFault (.fatal .internal text.string)
  | none, none, none => .ok (.int (2 * (d.get "n").number))

/-- Two threads take turns. -/
def pingPong (count : Nat) : Datum :=
  .list ((List.replicate count [Datum.int 0, .int 1]).flatten)

/-- Runs one step. -/
def step (d : Datum) (l : Locks) : Datum × Locks :=
  let n := (d.get "n").number
  let count := (d.get "n").nat
  let safely := (d.get "safepoint").isTrue
  let onMutex (f : Shared → Datum × Shared) : Datum × Locks :=
    let (answer, mutex) := f l.mutex
    (answer, { l with mutex })
  let onMonitor (f : Shared → Datum × Shared) : Datum × Locks :=
    let (answer, monitor) := f l.monitor
    (answer, { l with monitor })
  match (d.get "do").string with
  | "name" => (.ok (.text l.backend.name), l)
  | "lock" => onMutex (lock safely)
  | "try_lock" => onMutex (tryLock safely)
  | "unlock" => onMutex unlock
  | "push" => onMutex (push · n)
  | "try_elsewhere" => onMutex fun s =>
    let (taken, s) := s.tryPush Shared.other n
    (.ok (.int (if taken then 1 else 0)), s)
  | "unlocked" => onMutex fun s => guarded s fun s =>
    let (taken, s) := s.unlocked (·.tryPush Shared.own n)
    (.record [("ok", .bool taken), ("items", s.shown), ("same", .bool true)], s)
  | "unlocked_contended" => onMutex fun s => guarded s fun s =>
    let ((), s) := s.unlocked fun s => ((), s.pushFrom n)
    (.record [("ok", s.shown), ("joined", .ok (.int n))], s)
  | "contended_push" => onMutex fun s => guarded s fun s =>
    let s := (s.move Shared.own .drop).pushFrom n
    (.ok (.ofNat s.items.length), s)
  | "wait_for" | "wait_until_now" | "wait_until" => onMutex wait
  | "wait_none" => onMutex fun s => guarded s fun s => (.ok (.int 1), s)
  | "notify_one" | "notify_all" | "m_notify" => (.ok .null, l)
  | "m_lock" => onMonitor (lock safely)
  | "m_try_lock" => onMonitor (tryLock safely)
  | "m_unlock" => onMonitor unlock
  | "m_push" => onMonitor (push · n)
  | "m_wait_for" | "m_wait_until_now" => onMonitor wait
  | "m_gather" => onMonitor (gather · count)
  | "owned" =>
    (.record
      [("ok", .list [.int n, .int (n + 1), .int (n + 2)]), ("peek", .int 3),
        ("monitor", .list [.int 1, .int 1])], l)
  | "counter" => (.ok (.ofNat (Lock.Parking.counter count (d.get "rounds").nat)), l)
  | "ping_pong" => (.ok (pingPong count), l)
  | "handoff" => (.record [("ok", .int n), ("joined", .ok (.int n))], l)
  | "spawn" => (spawn d, l)
  | "spawn_default" => (.ok (.int (n + 1)), l)
  | "detach" => (.ok (.int n), l)
  | _ => (.null, l)

/-! ## The log -/

/-- What the start of a thread leaves in the log. -/
def spawnRecord (backend : Backend) : LogRecord :=
  ⟨.trace, "sync", "spawned " ++ backend.name ++ " thread"⟩

/-- What `count` safe regions of the session's thread leave in the log. -/
def regionRecords (l : Locks) (count : Nat) : List LogRecord :=
  if l.attached then List.replicate count ⟨.trace, "safepoint", "thread 1 running"⟩ else []

/-- What starting `count` threads and joining them leaves in the log. -/
def joinRecords (l : Locks) (backend : Backend) (count : Nat) : List LogRecord :=
  List.replicate count (spawnRecord backend) ++ l.regionRecords count

/-- What is left by waiting with the guard of `s`. -/
def waitRecords (l : Locks) (s : Shared) : List LogRecord :=
  if s.isHeld && s.safely then l.regionRecords 1 else []

/-- What a step leaves in the log. -/
def records (l : Locks) (d : Datum) : List LogRecord :=
  let count := (d.get "n").nat
  let joined (count : Nat) := l.joinRecords l.backend count
  match (d.get "do").string with
  | "try_elsewhere" => joined 1
  | "unlocked_contended" =>
    if l.mutex.isHeld then
      spawnRecord l.backend :: l.waitRecords l.mutex ++ l.regionRecords 1
    else []
  | "contended_push" => if l.mutex.isHeld then joined 1 else []
  | "wait_for" => l.waitRecords l.mutex
  | "wait_until" => if (d.get "ms").nat = 0 then [] else l.waitRecords l.mutex
  | "m_wait_for" => l.waitRecords l.monitor
  | "m_gather" => if l.monitor.isHeld then [] else joined count
  | "counter" => joined count
  | "ping_pong" => joined 2
  | "handoff" => joined 1
  | "spawn" =>
    match OsError.ofStackSize? (d.get "stack").nat, d.get? "panic", d.get? "fatal" with
    | some _, _, _ => []
    | none, none, some text =>
      spawnRecord l.backend ::
        (Fault.fatal .internal text.string).record?.toList ++ l.regionRecords 1
    | none, _, _ => joined 1
  | "spawn_default" => l.joinRecords .posix 1
  | "detach" => [spawnRecord l.backend]
  | _ => []

/-! ## Sessions -/

/-- Runs the steps in order; `answers` are those of the steps before, the last one first. -/
def steps (l : Locks) (answers : List Datum) (log : Array LogRecord) :
    List Datum → List Datum × Array LogRecord × Locks
  | [] => (answers.reverse, log, l)
  | d :: rest =>
    let log := log ++ (l.records d).toArray
    let (answer, l) := step d l
    steps l (answer :: answers) log rest

/-- Runs a whole session; gives the answers, what the mutex and the monitor hold in the end, and the
log. -/
def session (backend : Backend) (attached : Bool) (commands : List Datum) :
    Datum × Array LogRecord :=
  let (answers, log, l) := steps (new backend attached) [] #[Options.default.announcement] commands
  let log := if attached then log.push ⟨.debug, "vm", "thread 1 detached"⟩ else log
  (.record [("steps", .list answers), ("items", l.mutex.shown), ("monitor", l.monitor.shown)], log)

end Locks

end Substrate.Session
