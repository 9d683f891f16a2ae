import Substrate.Heap

/-!
# Custody of finalizers

Every registered action is entered in a book, the latest first, with its object and its fate. It starts
as attached. A later registration for the same object replaces it, a collection that finds the object
unreachable queues it, taking it from the queue starts its run, and the run ends. Nothing is ever taken
out of the book, and an entry has one fate at a time.

The book is what a heap is compared with: it is kept beside a run and decides nothing in it.
-/

namespace Substrate

inductive Fate where
  | attached
  | replaced
  | queued
  | running
  | finished
  deriving DecidableEq, Repr

/-- An action that was registered for the object at an address, and what became of it. -/
structure Registration where
  object : Nat
  action : Finalizer
  fate : Fate
  deriving DecidableEq, Repr

abbrev Custody : Type := List Registration

namespace Custody

variable {c : Custody} {source target fate : Fate} {which : Nat → Bool}

/-- Gives a new fate to the entries with a certain fate, as far as their object is concerned. -/
def advance (source target : Fate) (which : Nat → Bool) (c : Custody) : Custody :=
  c.map fun entry =>
    if entry.fate = source ∧ which entry.object = true then { entry with fate := target } else entry

/-- Enters an action; it replaces the one that is attached to the same object. -/
def register (object : Nat) (action : Finalizer) (c : Custody) : Custody :=
  ⟨object, action, .attached⟩ :: c.advance .attached .replaced (· == object)

/-- A collection queues the attached actions whose object it did not reach. -/
def collect (reached : Nat → Bool) (c : Custody) : Custody :=
  c.advance .attached .queued (!reached ·)

/-- What was taken from the queue starts to run. -/
def take (taken : Option (Value × Finalizer)) (c : Custody) : Custody :=
  match taken with
  | none => c
  | some (v, _) => c.advance .queued .running (Value.ofAddress · == v)

/-- The run for an object is over. -/
def finish (v : Value) (c : Custody) : Custody :=
  c.advance .running .finished (Value.ofAddress · == v)

theorem take_some (v : Value) (action : Finalizer) (c : Custody) :
    c.take (some (v, action)) = c.advance .queued .running (Value.ofAddress · == v) := rfl

/-- The objects and actions of the entries with the given fate. -/
def having (fate : Fate) (c : Custody) : List (Nat × Finalizer) :=
  (c.filter (·.fate = fate)).map fun entry => (entry.object, entry.action)

@[simp] theorem having_nil (fate : Fate) : having fate [] = [] := rfl

theorem having_cons (fate : Fate) (entry : Registration) (c : Custody) :
    having fate (entry :: c)
      = if entry.fate = fate then (entry.object, entry.action) :: c.having fate
        else c.having fate := by
  by_cases h : entry.fate = fate <;> simp [having, h]

theorem mem_having {object : Nat} {action : Finalizer} :
    (object, action) ∈ c.having fate ↔ ⟨object, action, fate⟩ ∈ c := by
  induction c with
  | nil => simp
  | cons entry c ih =>
    obtain ⟨object', action', fate'⟩ := entry
    rw [having_cons]
    by_cases hfate : fate' = fate
    · simp [hfate, ih]
    · simp [hfate, Ne.symm hfate, ih]

theorem advance_cons (entry : Registration) (c : Custody) :
    advance source target which (entry :: c)
      = (if entry.fate = source ∧ which entry.object = true then { entry with fate := target }
        else entry) :: c.advance source target which := rfl

theorem mem_objects_filter (which : Nat → Bool) {l : List (Nat × Finalizer)} {a : Nat} :
    a ∈ (l.filter fun p => which p.1).map (·.1) ↔ a ∈ l.map (·.1) ∧ which a = true := by
  simp only [List.mem_map, List.mem_filter]
  constructor
  · rintro ⟨p, ⟨hp, hwhich⟩, rfl⟩
    exact ⟨⟨p, hp, rfl⟩, hwhich⟩
  · rintro ⟨⟨p, hp, rfl⟩, hwhich⟩
    exact ⟨p, ⟨hp, hwhich⟩, rfl⟩

/-! ## Moving entries -/

/-- Entries that move are gone from where they were. -/
theorem having_source (hne : source ≠ target) (which : Nat → Bool) (c : Custody) :
    (c.advance source target which).having source
      = (c.having source).filter fun p => !which p.1 := by
  induction c with
  | nil => rfl
  | cons entry c ih =>
    rw [advance_cons, having_cons, having_cons, ih]
    by_cases hfate : entry.fate = source
    · cases hwhich : which entry.object <;> simp [hfate, hwhich, hne.symm]
    · simp [hfate]

/-- Entries that move are where they move to. -/
theorem having_target (hne : source ≠ target) (which : Nat → Bool) (c : Custody) :
    ((c.advance source target which).having target).Perm
      (c.having target ++ (c.having source).filter fun p => which p.1) := by
  induction c with
  | nil => exact .refl _
  | cons entry c ih =>
    rw [advance_cons, having_cons, having_cons, having_cons]
    by_cases hfate : entry.fate = source
    · cases hwhich : which entry.object with
      | false => simpa [hfate, hwhich, hne] using ih
      | true =>
        simp only [hfate, hwhich, hne, and_self, if_true, if_false, List.filter_cons]
        exact (ih.cons _).trans List.perm_middle.symm
    · by_cases htarget : entry.fate = target
      · simpa [htarget, hne.symm] using ih
      · simpa [hfate, htarget] using ih

/-- Entries that move are neither lost nor doubled. -/
theorem perm_advance (hne : source ≠ target) (which : Nat → Bool) (c : Custody) :
    ((c.advance source target which).having source
        ++ (c.advance source target which).having target).Perm
      (c.having source ++ c.having target) := by
  have hsplit := List.filter_append_perm (fun p : Nat × Finalizer => which p.1) (c.having source)
  rw [having_source hne]
  refine ((having_target hne which c).append_left _).trans (.trans ?_ (hsplit.append_right _))
  rw [← List.append_assoc]
  refine List.perm_append_comm.trans ?_
  rw [List.append_assoc]

/-- All other entries stay where they are. -/
theorem having_other (hsource : fate ≠ source) (htarget : fate ≠ target) (which : Nat → Bool)
    (c : Custody) : (c.advance source target which).having fate = c.having fate := by
  induction c with
  | nil => rfl
  | cons entry c ih =>
    rw [advance_cons, having_cons, having_cons, ih]
    by_cases hfate : entry.fate = source
    · cases which entry.object <;> simp [hfate, hsource.symm, htarget.symm]
    · simp [hfate]

theorem having_register (object : Nat) (action : Finalizer) (c : Custody) :
    (c.register object action).having .attached
      = (object, action) :: (c.having .attached).filter fun p => !p.1 == object := by
  rw [register, having_cons, if_pos rfl, having_source (by decide)]

theorem having_register_of_ne (hattached : fate ≠ .attached) (hreplaced : fate ≠ .replaced)
    (object : Nat) (action : Finalizer) (c : Custody) :
    (c.register object action).having fate = c.having fate := by
  rw [register, having_cons, if_neg hattached.symm, having_other hattached hreplaced]

theorem having_attached_collect (reached : Nat → Bool) (c : Custody) :
    (c.collect reached).having .attached
      = (c.having .attached).filter fun p => reached p.1 := by
  simp only [collect, having_source (show Fate.attached ≠ .queued by decide), Bool.not_not]

theorem having_queued_collect (reached : Nat → Bool) (c : Custody) :
    ((c.collect reached).having .queued).Perm
      (c.having .queued ++ (c.having .attached).filter fun p => !reached p.1) :=
  having_target (by decide) _ c

theorem having_running_collect (reached : Nat → Bool) (c : Custody) :
    (c.collect reached).having .running = c.having .running :=
  having_other (by decide) (by decide) _ c

theorem having_finished_collect (reached : Nat → Bool) (c : Custody) :
    (c.collect reached).having .finished = c.having .finished :=
  having_other (by decide) (by decide) _ c

end Custody

end Substrate
