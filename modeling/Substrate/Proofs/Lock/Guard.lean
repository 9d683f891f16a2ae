import Mathlib.Data.List.Basic
import Substrate.Lock.Guard

/-!
# Guards and the raw lock under them

A raw lock excludes threads from each other only as long as whoever lets go of it holds it. Guards
use it lawfully in exactly those runs in which every action of a released guard returns: then at most
one guard of one thread has the mutex, and what a thread takes it gives back once.

An action that does not return leaves its guard to be dropped without the mutex. This is never
harmless: the drop lets go of a lock that somebody else has or nobody has, and two threads can be in
at once from then on.

The invariant behind both halves is `State.Sound`. Its `outer` clause is what forbids a thread to hold
the mutex by an outer guard while an inner one is released.
-/

namespace Substrate.Lock.Guard

variable {s t : State} {thread : Nat} {m : Move} {guards : List Phase}

/-! ## The raw lock -/

/-- What is done to the raw lock. -/
inductive Act where
  | taken (thread : Nat)
  | freed (thread : Nat)
  deriving DecidableEq

/-- Who holds a raw lock in the end, if it is taken only while it is free and freed only by whoever
holds it. -/
def custody : Option Nat → List Act → Option (Option Nat)
  | holder, [] => some holder
  | none, .taken thread :: acts => custody (some thread) acts
  | some _, .taken _ :: _ => none
  | holder, .freed thread :: acts => if holder = some thread then custody none acts else none

theorem custody_taken (thread : Nat) (acts : List Act) :
    custody none (.taken thread :: acts) = custody (some thread) acts := by
  simp only [custody]

theorem custody_freed (thread : Nat) (acts : List Act) :
    custody (some thread) (.freed thread :: acts) = custody none acts := by
  simp only [custody, if_pos]

/-- In lawful use each thread frees the lock as often as it takes it, but for the time it has it. -/
theorem count_taken {holder final : Option Nat} {acts : List Act}
    (h : custody holder acts = some final) (thread : Nat) :
    acts.count (.taken thread) + (if holder = some thread then 1 else 0) =
      acts.count (.freed thread) + (if final = some thread then 1 else 0) := by
  induction acts generalizing holder with
  | nil =>
    cases holder <;> cases h <;> simp
  | cons act acts ih =>
    cases act with
    | taken other =>
      cases holder with
      | none =>
        have := ih (custody_taken other acts ▸ h)
        by_cases heq : other = thread <;> simp_all
      | some holder => simp [custody] at h
    | freed other =>
      have hheld : holder = some other := by
        by_contra hne
        cases holder <;> simp_all [custody]
      subst hheld
      have := ih (custody_freed other acts ▸ h)
      by_cases heq : other = thread
      · simp_all
        omega
      · simp_all

namespace State

/-- What a step does to the raw lock. Dropping a guard frees the lock, whatever became of it. -/
def acts (s : State) (thread : Nat) : Move → List Act
  | .lock | .regain => [.taken thread]
  | .tryLock => if s.holder = none then [.taken thread] else []
  | .drop | .release | .unwind => [.freed thread]

/-- Takes steps in their order; gives what they do to the raw lock and where they lead. -/
def run (s : State) : List (Nat × Move) → Option (List Act × State)
  | [] => some ([], s)
  | (thread, m) :: steps =>
    match s.move thread m with
    | none => none
    | some t => (t.run steps).map fun (acts, u) => (s.acts thread m ++ acts, u)

/-- A step and the run from where it leads. -/
theorem run_cons {steps : List (Nat × Move)} {acts : List Act}
    (h : s.run ((thread, m) :: steps) = some (acts, t)) :
    ∃ u rest, s.move thread m = some u ∧ u.run steps = some (rest, t) ∧
      acts = s.acts thread m ++ rest := by
  rw [run] at h
  split at h
  · cases h
  next u hmove =>
    obtain ⟨⟨rest, v⟩, hrun, heq⟩ := Option.map_eq_some_iff.mp h
    cases heq
    exact ⟨u, rest, hmove, hrun, rfl⟩

/-! ## One step -/

@[simp] theorem holder_withGuards (s : State) (thread : Nat) (guards : List Phase) :
    (s.withGuards thread guards).holder = s.holder := rfl

@[simp] theorem stray_withGuards (s : State) (thread : Nat) (guards : List Phase) :
    (s.withGuards thread guards).stray = s.stray := rfl

theorem guardsOf?_withGuards {old : List Phase} (h : s.guardsOf? thread = some old)
    (guards : List Phase) (other : Nat) :
    (s.withGuards thread guards).guardsOf? other =
      if other = thread then some guards else s.guardsOf? other := by
  have hlt : thread < s.guards.length := (List.getElem?_eq_some_iff.mp h).1
  by_cases heq : other = thread
  · simp [guardsOf?, withGuards, heq, hlt]
  · simp [guardsOf?, withGuards, heq, List.getElem?_set_ne (Ne.symm heq)]

theorem acquire_eq_some (h : s.acquire thread = some t) :
    s.holder = none ∧ t = { s with holder := some thread } := by
  unfold acquire at h
  split at h
  next hfree => exact ⟨hfree, (Option.some.inj h).symm⟩
  · cases h

theorem acquire_eq_none (h : s.acquire thread = none) : s.holder ≠ none := by
  unfold acquire at h
  split at h
  · cases h
  next hheld => simp [hheld]

/-- Everything that a step can be: it takes the free lock for one more guard or for the innermost one,
finds it held, lets go of it with the innermost guard, or drops a guard that has let go. -/
theorem move_cases (h : s.move thread m = some t) :
    ∃ guards, s.guardsOf? thread = some guards ∧
      ((m = .lock ∨ m = .tryLock) ∧ s.holder = none ∧
          t = { s with holder := some thread }.withGuards thread (.guarding :: guards) ∨
        m = .tryLock ∧ s.holder ≠ none ∧ t = s ∨
        (∃ rest, m = .drop ∧ guards = .guarding :: rest ∧
          t = (s.unlock thread).withGuards thread rest) ∨
        (∃ rest, m = .release ∧ guards = .guarding :: rest ∧
          t = (s.unlock thread).withGuards thread (.released :: rest)) ∨
        (∃ rest, m = .regain ∧ guards = .released :: rest ∧ s.holder = none ∧
          t = { s with holder := some thread }.withGuards thread (.guarding :: rest)) ∨
        ∃ rest, m = .unwind ∧ guards = .released :: rest ∧
          t = (s.unlock thread).withGuards thread rest) := by
  unfold move at h
  split at h
  next guards hguards =>
    obtain ⟨u, hu, rfl⟩ := Option.map_eq_some_iff.mp h
    obtain ⟨hfree, rfl⟩ := acquire_eq_some hu
    exact ⟨guards, hguards, .inl ⟨.inl rfl, hfree, rfl⟩⟩
  next guards hguards =>
    split at h
    next u hu =>
      obtain ⟨hfree, rfl⟩ := acquire_eq_some hu
      exact ⟨guards, hguards, .inl ⟨.inr rfl, hfree, (Option.some.inj h).symm⟩⟩
    next hu =>
      exact ⟨guards, hguards, .inr (.inl ⟨rfl, acquire_eq_none hu, (Option.some.inj h).symm⟩)⟩
  next rest hguards =>
    exact ⟨_, hguards, .inr (.inr (.inl ⟨rest, rfl, rfl, (Option.some.inj h).symm⟩))⟩
  next rest hguards =>
    exact ⟨_, hguards, .inr (.inr (.inr (.inl ⟨rest, rfl, rfl, (Option.some.inj h).symm⟩)))⟩
  next rest hguards =>
    obtain ⟨u, hu, rfl⟩ := Option.map_eq_some_iff.mp h
    obtain ⟨hfree, rfl⟩ := acquire_eq_some hu
    exact ⟨_, hguards, .inr (.inr (.inr (.inr (.inl ⟨rest, rfl, rfl, hfree, rfl⟩))))⟩
  next rest hguards =>
    exact ⟨_, hguards, .inr (.inr (.inr (.inr (.inr ⟨rest, rfl, rfl, (Option.some.inj h).symm⟩))))⟩
  · cases h

/-! ## Sound states -/

/-- The thread with the raw lock has it by its innermost guard, and nobody has it otherwise. -/
structure Sound (s : State) : Prop where
  /-- The lock is held by a thread that there is. -/
  present : ∀ thread, s.holder = some thread → (s.guardsOf? thread).isSome
  innermost : ∀ thread guards, s.guardsOf? thread = some guards →
    (guards.head? = some .guarding ↔ s.holder = some thread)
  /-- A guard with another one inside has let go. -/
  outer : ∀ thread guards, s.guardsOf? thread = some guards → .guarding ∉ guards.tail

theorem sound_initial (threads : Nat) : (State.initial threads).Sound := by
  have hnil : ∀ thread guards, (State.initial threads).guardsOf? thread = some guards →
      guards = [] := by
    intro thread guards h
    simp only [guardsOf?, initial, List.getElem?_replicate] at h
    split at h <;> cases h
    rfl
  refine ⟨fun _ h => (by cases h), fun thread guards h => ?_, fun thread guards h => ?_⟩
  · rw [hnil thread guards h]
    simp [initial]
  · simp [hnil thread guards h]

/-- The lock was free and is taken for the innermost guard. -/
theorem Sound.take (hs : s.Sound) (hfree : s.holder = none) {old rest : List Phase}
    (hguards : s.guardsOf? thread = some old) (hrest : .guarding ∉ rest) :
    ({ s with holder := some thread }.withGuards thread (.guarding :: rest)).Sound := by
  have hview := guardsOf?_withGuards (s := { s with holder := some thread }) hguards (.guarding :: rest)
  refine ⟨fun other h => ?_, fun other guards h => ?_, fun other guards h => ?_⟩
  · obtain rfl : thread = other := Option.some.inj h
    simp [hview]
  · rw [hview] at h
    split at h
    next heq =>
      cases h
      simp [heq]
    next hne =>
      have hold := hs.innermost other guards h
      rw [hfree] at hold
      simpa [Ne.symm hne] using hold
  · rw [hview] at h
    split at h
    · cases h
      exact hrest
    · exact hs.outer other guards h

/-- The holder lets go with its innermost guard. -/
theorem Sound.free (hs : s.Sound) (guards : List Phase) {old : List Phase}
    (hold : s.guardsOf? thread = some (.guarding :: old))
    (hhead : guards.head? ≠ some .guarding) (htail : .guarding ∉ guards.tail) :
    ((s.unlock thread).withGuards thread guards).Sound ∧ s.holder = some thread ∧
      (s.unlock thread).holder = none ∧
      ((s.unlock thread).withGuards thread guards).stray = s.stray := by
  have hheld : s.holder = some thread := (hs.innermost thread _ hold).mp rfl
  have hview : ∀ other, ((s.unlock thread).withGuards thread guards).guardsOf? other =
      if other = thread then some guards else s.guardsOf? other := by
    simp only [unlock, hheld, if_pos]
    exact guardsOf?_withGuards (s := { s with holder := none }) hold guards
  have hfree : (s.unlock thread).holder = none := by simp [unlock, hheld]
  refine ⟨⟨fun other h => ?_, fun other found h => ?_, fun other found h => ?_⟩, hheld, hfree,
    by simp [unlock, hheld]⟩
  · rw [holder_withGuards, hfree] at h
    cases h
  · rw [holder_withGuards, hfree]
    rw [hview] at h
    split at h
    · cases h
      simpa using hhead
    next hne =>
      have := hs.innermost other found h
      simp only [hheld, Option.some.injEq] at this
      simpa [Ne.symm hne] using this
  · rw [hview] at h
    split at h
    · cases h
      exact htail
    · exact hs.outer other found h

/-- Innermost guards that have the mutex are only those of the holder, and none is outer. -/
theorem Sound.not_guarding (hs : s.Sound) (hguards : s.guardsOf? thread = some guards)
    (hother : s.holder ≠ some thread) : .guarding ∉ guards := by
  intro hmem
  cases guards with
  | nil => cases hmem
  | cons phase rest =>
    rcases List.mem_cons.mp hmem with rfl | htail
    · exact hother ((hs.innermost thread _ hguards).mp rfl)
    · exact hs.outer thread _ hguards htail

/-- A step other than an unwinding keeps a state sound and uses the raw lock lawfully. -/
theorem Sound.move (hs : s.Sound) (hm : m ≠ .unwind) (h : s.move thread m = some t) :
    t.Sound ∧ t.stray = s.stray ∧
      ∀ rest, custody s.holder (s.acts thread m ++ rest) = custody t.holder rest := by
  obtain ⟨guards, hguards, hcase⟩ := move_cases h
  obtain ⟨hm', hfree, rfl⟩ | ⟨rfl, hheld, rfl⟩ | ⟨rest, rfl, rfl, rfl⟩ | ⟨rest, rfl, rfl, rfl⟩ |
    ⟨rest, rfl, rfl, hfree, rfl⟩ | ⟨-, rfl, -⟩ := hcase
  · have hnew : .guarding ∉ guards := hs.not_guarding hguards (by simp [hfree])
    refine ⟨hs.take hfree hguards hnew, rfl, fun rest => ?_⟩
    obtain rfl | rfl := hm' <;> simp [acts, hfree, custody]
  · exact ⟨hs, rfl, fun rest => by simp [acts, hheld]⟩
  · have htail := hs.outer thread _ hguards
    obtain ⟨hsound, hheld, hfree, hstray⟩ := hs.free rest hguards
      (fun hhead => htail (List.mem_of_head? hhead)) (fun hmem => htail (List.mem_of_mem_tail hmem))
    exact ⟨hsound, hstray, fun later => by simp [acts, hheld, hfree, custody]⟩
  · obtain ⟨hsound, hheld, hfree, hstray⟩ := hs.free (.released :: rest) hguards (by simp)
      (hs.outer thread (.guarding :: rest) hguards)
    exact ⟨hsound, hstray, fun later => by simp [acts, hheld, hfree, custody]⟩
  · refine ⟨hs.take hfree hguards (hs.outer thread _ hguards), rfl, fun rest => ?_⟩
    simp [acts, hfree, custody]
  · exact absurd rfl hm

/-- The guard that an unwinding drops does not have the mutex, and neither has its thread. -/
theorem Sound.unwind (hs : s.Sound) (h : s.move thread .unwind = some t) (rest : List Act) :
    custody s.holder (s.acts thread .unwind ++ rest) = none ∧ t.stray = thread :: s.stray := by
  obtain ⟨guards, hguards, hcase⟩ := move_cases h
  obtain ⟨hm', -⟩ | ⟨hm', -⟩ | ⟨-, hm', -⟩ | ⟨-, hm', -⟩ | ⟨-, hm', -⟩ | ⟨tail, -, rfl, rfl⟩ := hcase
  · simp at hm'
  · cases hm'
  · cases hm'
  · cases hm'
  · cases hm'
  · have hother : s.holder ≠ some thread := fun hheld => by
      simpa using (hs.innermost thread _ hguards).mpr hheld
    refine ⟨?_, by simp [unlock, hother]⟩
    cases hholder : s.holder <;> simp_all [acts, custody]

/-! ## Runs -/

/-- A run without an unwinding stays sound and uses the raw lock lawfully. -/
theorem Sound.run (hs : s.Sound) {steps : List (Nat × Move)} {acts : List Act}
    (h : s.run steps = some (acts, t)) (hsteps : ∀ step ∈ steps, step.2 ≠ .unwind) :
    t.Sound ∧ t.stray = s.stray ∧ custody s.holder acts = some t.holder := by
  induction steps generalizing s acts with
  | nil =>
    cases h
    exact ⟨hs, rfl, by cases t.holder <;> rfl⟩
  | cons step steps ih =>
    obtain ⟨u, rest, hmove, hrun, rfl⟩ := run_cons h
    obtain ⟨hfirst, hlater⟩ := List.forall_mem_cons.mp hsteps
    obtain ⟨hu, hstray, hcustody⟩ := hs.move hfirst hmove
    obtain ⟨ht, hstray', hrest⟩ := ih hu hrun hlater
    exact ⟨ht, hstray'.trans hstray, (hcustody rest).trans hrest⟩

/-- An unwinding is against the law of the raw lock, wherever in a run it stands. -/
theorem Sound.not_unwind (hs : s.Sound) {steps : List (Nat × Move)} {acts : List Act}
    {final : Option Nat} (h : s.run steps = some (acts, t))
    (hlawful : custody s.holder acts = some final) : ∀ step ∈ steps, step.2 ≠ .unwind := by
  induction steps generalizing s acts with
  | nil => exact List.forall_mem_nil _
  | cons step steps ih =>
    obtain ⟨u, rest, hmove, hrun, rfl⟩ := run_cons h
    have hfirst : step.2 ≠ .unwind := by
      intro hunwind
      rw [hunwind] at hmove hlawful
      rw [(hs.unwind hmove rest).1] at hlawful
      cases hlawful
    obtain ⟨hu, -, hcustody⟩ := hs.move hfirst hmove
    exact List.forall_mem_cons.mpr ⟨hfirst, ih hu hrun (hcustody rest ▸ hlawful)⟩

/-- At most one guard of all threads has the mutex; it belongs to the thread that holds the raw lock,
which has such a guard. -/
structure Exclusive (s : State) : Prop where
  held : ∀ thread, s.holder = some thread ↔
    ∃ guards, s.guardsOf? thread = some guards ∧ .guarding ∈ guards
  once : ∀ thread guards, s.guardsOf? thread = some guards → guards.count .guarding ≤ 1

theorem Sound.exclusive (hs : s.Sound) : s.Exclusive where
  held thread := by
    constructor
    · intro hheld
      obtain ⟨guards, hguards⟩ := Option.isSome_iff_exists.mp (hs.present thread hheld)
      exact ⟨guards, hguards, List.mem_of_head? ((hs.innermost thread _ hguards).mpr hheld)⟩
    · rintro ⟨guards, hguards, hmem⟩
      by_contra hother
      exact hs.not_guarding hguards hother hmem
  once thread guards hguards := by
    have htail := List.count_eq_zero.mpr (hs.outer thread guards hguards)
    cases guards with
    | nil => simp
    | cons phase rest =>
      rw [List.count_cons]
      simp only [List.tail_cons] at htail
      split <;> omega

/-- Two threads never have the mutex at once. -/
theorem Exclusive.unique (h : s.Exclusive) {other : Nat} {mine theirs : List Phase}
    (hmine : s.guardsOf? thread = some mine) (hm : .guarding ∈ mine)
    (htheirs : s.guardsOf? other = some theirs) (ho : .guarding ∈ theirs) : thread = other :=
  Option.some.inj (((h.held thread).mpr ⟨mine, hmine, hm⟩).symm.trans
    ((h.held other).mpr ⟨theirs, htheirs, ho⟩))

/-- Whatever threads do with their guards, they use the raw lock lawfully if and only if no action of a
released guard is left by unwinding. In such a run the mutex is exclusive at the end, as it is after
every part of it, and each thread has let go of it as often as it has taken it, but for the time that it
holds it. -/
theorem lawful_iff_no_unwind {threads : Nat} {steps : List (Nat × Move)} {acts : List Act}
    (h : (State.initial threads).run steps = some (acts, s)) :
    ((∃ final, custody none acts = some final) ↔ ∀ step ∈ steps, step.2 ≠ .unwind) ∧
    ((∀ step ∈ steps, step.2 ≠ .unwind) →
      custody none acts = some s.holder ∧ s.stray = [] ∧ s.Exclusive ∧
      ∀ thread, acts.count (.taken thread) =
        acts.count (.freed thread) + if s.holder = some thread then 1 else 0) := by
  have hinitial := sound_initial threads
  refine ⟨⟨fun ⟨_, hlawful⟩ => hinitial.not_unwind h hlawful, fun hsteps =>
    ⟨_, (hinitial.run h hsteps).2.2⟩⟩, fun hsteps => ?_⟩
  obtain ⟨hs, hstray, hlawful⟩ := hinitial.run h hsteps
  exact ⟨hlawful, hstray, hs.exclusive, fun thread => by simpa [initial] using count_taken hlawful thread⟩

/-- A thread lets go for an action while another one goes in, and takes the mutex back. -/
def handover : List (Nat × Move) :=
  [(0, .lock), (0, .release), (1, .tryLock), (1, .drop), (0, .regain)]

theorem lawful_iff_no_unwind_handover :
    ∃ acts s, (State.initial 2).run handover = some (acts, s) ∧
      (∀ step ∈ handover, step.2 ≠ .unwind) ∧ custody none acts = some (some 0) ∧ s.Exclusive ∧
      acts.count (.taken 0) = 2 ∧ acts.count (.freed 0) = 1 := by
  refine ⟨_, _, rfl, by decide, ?_⟩
  have hrun : (State.initial 2).run handover = some (_, _) := rfl
  obtain ⟨-, hlawful⟩ := lawful_iff_no_unwind hrun
  obtain ⟨hcustody, -, hexclusive, hcount⟩ := hlawful (by decide)
  exact ⟨hcustody, hexclusive, hcount 0, by decide⟩

/-- Two threads have the mutex at once: an action is left by unwinding while the other thread is in,
and the guard that it drops frees the lock for one more. -/
theorem unwound_guard_admits_two :
    ¬ ∀ (threads : Nat) (steps : List (Nat × Move)) (acts : List Act) (s : State),
      (State.initial threads).run steps = some (acts, s) →
      s.Exclusive ∧ s.stray = [] ∧ custody none acts = some s.holder := by
  intro hclaim
  obtain ⟨hexclusive, -⟩ := hclaim 3
    [(0, .lock), (0, .release), (1, .lock), (0, .unwind), (2, .lock)] _ _ rfl
  have hboth : (1 : Nat) = 2 := by
    refine hexclusive.unique ?_ (List.mem_singleton.mpr rfl) ?_ (List.mem_singleton.mpr rfl)
    · exact rfl
    · exact rfl
  cases hboth

end State

end Substrate.Lock.Guard
