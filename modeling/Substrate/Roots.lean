import Substrate.Region

/-!
# Roots and exclusions

`Exclusions` are address ranges that are never scanned, sorted by their start. Excluding a range
twice takes two lifts to undo.

The `Registry` holds what the collector starts from: exact locations, regions that are scanned
word by word, and the exclusions, part of which belong to loaded libraries.
-/

namespace Substrate

structure Exclusions where
  regions : List Region
  deriving DecidableEq, Repr

namespace Exclusions

def none : Exclusions := ⟨[]⟩

/-- Adds a region behind all that do not start later. Empty regions are not kept. -/
def exclude (e : Exclusions) (region : Region) : Exclusions :=
  if region.isEmpty then e
  else
    let earlier := e.regions.takeWhile (·.start ≤ region.start)
    let later := e.regions.dropWhile (·.start ≤ region.start)
    ⟨earlier ++ region :: later⟩

/-- Undoes one exclusion of exactly this region; tells whether there was one. -/
def lift (e : Exclusions) (region : Region) : Bool × Exclusions :=
  (e.regions.contains region, ⟨e.regions.erase region⟩)

def isExcluded (e : Exclusions) (address : Nat) : Bool :=
  e.regions.any (·.contains address)

/-- What is left of the addresses from `cursor` to `stop` after taking out the holes, which are
sorted by their start. -/
def piecesFrom (cursor stop : Nat) : List Region → List Region
  | [] => if cursor < stop then [.ofRange cursor stop] else []
  | hole :: holes =>
    let rest := piecesFrom (max cursor hole.stop) stop holes
    if cursor < hole.start then .ofRange cursor hole.start :: rest else rest

/-- The parts of the region that may be scanned, in ascending order. -/
def pieces (e : Exclusions) (region : Region) : List Region :=
  piecesFrom region.start region.stop (e.regions.filter (·.overlaps region))

def render (e : Exclusions) : String :=
  "ExclusionSet \x7b regions: [" ++ String.intercalate ", " (e.regions.map Region.render) ++
    "] \x7d"

end Exclusions

structure Registry where
  /-- Addresses of slots that hold values, each at most once. -/
  locations : List Nat
  regions : Array Region
  exclusions : Exclusions
  /-- The segments of each loaded library. -/
  libraries : List (String × List Region)
  deriving Repr

namespace Registry

def empty : Registry := ⟨[], #[], .none, []⟩

/-- Adds a location; tells whether it is new. -/
def register (r : Registry) (location : Nat) : Bool × Registry :=
  if r.locations.contains location then (false, r)
  else (true, { r with locations := location :: r.locations })

/-- Removes a location; tells whether it was there. -/
def unregister (r : Registry) (location : Nat) : Bool × Registry :=
  if r.locations.contains location then
    (true, { r with locations := r.locations.erase location })
  else (false, r)

def addRegion (r : Registry) (region : Region) : Registry :=
  { r with regions := r.regions.push region }

/-- Removes the first such region; the last region takes its place. -/
def removeRegion (r : Registry) (region : Region) : Bool × Registry :=
  match r.regions.findIdx? (· == region) with
  | some index =>
    match r.regions.back? with
    | some last => (true, { r with regions := (r.regions.setIfInBounds index last).pop })
    | none => (true, r)
  | none => (false, r)

def exclude (r : Registry) (region : Region) : Registry :=
  { r with exclusions := r.exclusions.exclude region }

def lift (r : Registry) (region : Region) : Bool × Registry :=
  let (lifted, exclusions) := r.exclusions.lift region
  (lifted, { r with exclusions })

/-- The segments of a library. -/
def segments? (r : Registry) (name : String) : Option (List Region) :=
  (r.libraries.find? (·.1 == name)).map (·.2)

/-- Lifts the exclusions of a library; tells whether it was registered. -/
def unregisterLibrary (r : Registry) (name : String) : Bool × Registry :=
  match r.segments? name with
  | some segments =>
    (true,
      { r with
        exclusions := segments.foldl (fun e segment => (e.lift segment).2) r.exclusions
        libraries := r.libraries.filter (·.1 != name) })
  | none => (false, r)

/-- Excludes every segment of a library, in place of what was registered under its name. -/
def registerLibrary (r : Registry) (name : String) (segments : List Region) : Registry :=
  let (_, r) := r.unregisterLibrary name
  { r with
    exclusions := segments.foldl Exclusions.exclude r.exclusions
    libraries := (name, segments) :: r.libraries }

end Registry

end Substrate
