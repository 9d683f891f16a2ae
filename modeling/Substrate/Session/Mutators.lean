import Substrate.Machine.Roots
import Substrate.Machine.Threads

/-!
# Sessions with several mutators

Each mutator conses its own numbers onto a rooted list, makes garbage and polls for collections
after every step, while further collections are asked for. However they interleave, every list ends
up complete, so here they run one after the other.
-/

namespace Substrate.Session.Mutators

structure Plan where
  threads : Nat
  /-- Conses per mutator. -/
  length : Nat
  /-- Length of the vector that is thrown away after each cons. -/
  garbage : Nat
  /-- Collections while the mutators run. -/
  collects : Nat

/-- What is left in the end. -/
structure Report where
  /-- The sum of each list. -/
  sums : List Int
  /-- How many different conses the lists have. -/
  distinct : Nat
  stats : Stats

/-- What one mutator does: `count` more numbers from `n` on. -/
def mutate (garbage location : Nat) : Nat → Nat → Op Unit Unit
  | 0, _ => fun m => .ok () m
  | count + 1, n => fun m =>
    let turn : Op Unit Unit := do
      let list ← Machine.readSlot location
      let cons ← Machine.cons (.ofInt n) list
      Machine.writeSlot location cons
      discard (Machine.makeVector garbage .nil)
      Machine.safepoint
    match turn m with
    | .ok () m => mutate garbage location count (n + 1) m
    | .error fault m => .error fault m

/-- Runs the mutators from number `index` on. -/
def mutateAll (plan : Plan) : List Nat → Nat → Op Unit (Except Error Unit)
  | [], _ => return .ok ()
  | location :: rest, index => do
    match ← Machine.spawn (mutate plan.garbage location plan.length (index * plan.length)) with
    | .error e => return .error e
    | .ok (.error fault) => throw fault
    | .ok (.ok ()) => mutateAll plan rest (index + 1)

def collectTimes : Nat → Op Unit Unit
  | 0 => pure ()
  | count + 1 => do
    discard Machine.collect
    collectTimes count

def makeRoots : Nat → Op Unit (List Nat)
  | 0 => pure []
  | count + 1 => do
    let location ← Machine.makeRoot .nil
    return location :: (← makeRoots count)

/-- The conses of a list, at most `fuel` of them. -/
def consesFrom (space : Space) : Nat → Value → List Value
  | 0, _ => []
  | fuel + 1, list =>
    if space.isKind list .cons then
      list :: consesFrom space fuel ⟨space.word list.address 1⟩
    else []

/-- Reads the lists. -/
def report (locations : List Nat) (stats : Stats) : Op Unit Report := do
  let m ← get
  let space := m.heap.space
  let lists := locations.map fun location =>
    consesFrom space space.capacity ⟨m.memory.read location⟩
  let sums := lists.map fun conses =>
    conses.foldl (fun total cons => total + (Value.mk (space.word cons.address 0)).toInt) 0
  let addresses := (lists.flatten.map (·.address)).mergeSort fun a b => a ≤ b
  let distinct := addresses.foldl (fun (seen, last?) a =>
    if last? == some a then (seen, last?) else (seen + 1, some a)) ((0 : Nat), (none : Option Nat))
  return ⟨sums, distinct.1, stats⟩

/-- Runs the mutators and the collections, then one last collection. -/
def execute (plan : Plan) : Op Unit (Except Error Report) := do
  let locations ← makeRoots plan.threads
  match ← mutateAll plan locations 0 with
  | .error e => return .error e
  | .ok () =>
    collectTimes plan.collects
    let stats ← Machine.collect
    return .ok (← report locations stats)

/-- Runs a session on a new machine. -/
def session (mode : Mode) (options : Options) (plan : Plan) : Except Fault (Except Error Report) :=
  match Machine.start mode options () with
  | .error e => .ok (.error e)
  | .ok m =>
    match execute plan m with
    | .ok result _ => .ok result
    | .error fault _ => .error fault

end Substrate.Session.Mutators
