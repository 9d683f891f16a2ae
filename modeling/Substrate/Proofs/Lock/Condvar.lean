import Mathlib.Data.List.Nodup
import Substrate.Lock.Condvar

/-!
# No notification is lost

A waiter that read the count before a notification either was in the queue already when the notifier
added to the count, or it finds when it parks that its count is stale. A broadcast wakes the whole
queue. A signal wakes the front of it, and the front stays in front until it is woken or gives up,
whoever else joins or leaves the queue in the meantime.

The count wraps around, so the argument fails if `UInt32.size` notifications come between a waiter's
reading and its parking.
-/

namespace Substrate.Lock.Condvar

variable {s t u : State} {thread other waiter notifier threads : Nat} {m : Move} {p q : Place}
  {steps later before during : List (Nat × Move)} {count : UInt32}

/-- Where a thread is that has begun to notify. -/
def Move.waking? : Move → Option Place
  | .signal => some .wakingOne
  | .broadcast => some .wakingAll
  | _ => none

theorem Move.waking?_eq_some :
    m.waking? = some q ↔ m = .signal ∧ q = .wakingOne ∨ m = .broadcast ∧ q = .wakingAll := by
  cases m <;> simp [waking?, eq_comm]

/-- How many of the steps add to the count. -/
def notifications (steps : List (Nat × Move)) : Nat :=
  steps.countP fun step => step.2.waking?.isSome

theorem ofNat_notifications_cons (step : Nat × Move) (steps : List (Nat × Move)) :
    UInt32.ofNat (notifications (step :: steps)) =
      (if step.2.waking?.isSome then 1 else 0) + .ofNat (notifications steps) := by
  rw [notifications, List.countP_cons, UInt32.ofNat_add, UInt32.add_comm]
  split <;> rfl

/-- Fewer than `UInt32.size` notifications come between a reading of the waiter and the parking that
follows it. -/
def Unwrapped (waiter : Nat) (steps : List (Nat × Move)) : Prop :=
  ∀ earlier between later, steps = earlier ++ (waiter, .read) :: between ++ (waiter, .park) :: later →
    (waiter, .read) ∉ between → notifications between < UInt32.size

theorem unwrapped_of_length (h : steps.length < UInt32.size) (waiter : Nat) : Unwrapped waiter steps := by
  rintro earlier between later rfl -
  have : notifications between ≤ between.length := List.countP_le_length
  simp only [List.length_append, List.length_cons] at h
  omega

namespace State

/-- Makes the given moves one after another. -/
def run (s : State) : List (Nat × Move) → Option State
  | [] => some s
  | (thread, m) :: steps => (s.move thread m).bind (·.run steps)

def Parked (s : State) (thread : Nat) : Prop :=
  ∃ count, s.place? thread = some (.parked count)

/-- The thread has read the count and goes on waiting. -/
def Waits (s : State) (thread : Nat) : Prop :=
  (∃ count, s.place? thread = some (.reading count)) ∨ s.Parked thread

theorem run_cons : s.run ((thread, m) :: steps) = some u ↔
    ∃ t, s.move thread m = some t ∧ t.run steps = some u :=
  Option.bind_eq_some_iff

theorem run_append {xs ys : List (Nat × Move)} : s.run (xs ++ ys) = some u ↔
    ∃ t, s.run xs = some t ∧ t.run ys = some u := by
  induction xs generalizing s with
  | nil => simp [run]
  | cons x xs ih => grind [run_cons]

/-! ## One step -/

@[simp] theorem queue_goto (s : State) (thread : Nat) (q : Place) :
    (s.goto thread q).queue = s.queue := rfl

@[simp] theorem count_goto (s : State) (thread : Nat) (q : Place) :
    (s.goto thread q).count = s.count := rfl

@[simp] theorem place?_goto (s : State) (thread : Nat) (q : Place) (other : Nat) :
    (s.goto thread q).place? other =
      (s.place? other).map fun p => if other = thread then q else p := by
  by_cases h : other = thread
  · subst h
    simp only [place?, goto, List.getElem?_set_self', if_true]
    rfl
  · simp [place?, goto, h, List.getElem?_set_ne (Ne.symm h)]

@[simp] theorem place?_mk (s : State) (count : UInt32) (queue : List Nat) (other : Nat) :
    (State.mk count queue s.places).place? other = s.place? other := rfl

@[simp] theorem queue_release (s : State) (woken : List Nat) : (s.release woken).queue = s.queue := by
  induction woken generalizing s with
  | nil => rfl
  | cons w woken ih => exact ih (s.goto w .outside)

@[simp] theorem count_release (s : State) (woken : List Nat) : (s.release woken).count = s.count := by
  induction woken generalizing s with
  | nil => rfl
  | cons w woken ih => exact ih (s.goto w .outside)

@[simp] theorem place?_release (s : State) (woken : List Nat) (other : Nat) :
    (s.release woken).place? other =
      (s.place? other).map fun p => if other ∈ woken then .outside else p := by
  induction woken generalizing s with
  | nil => simp [release]
  | cons w woken ih =>
    refine (ih (s.goto w .outside)).trans ?_
    rw [place?_goto, Option.map_map]
    congr 1
    grind

theorem parked_goto (h : s.place? thread = some p) (q : Place) (other : Nat) :
    (s.goto thread q).Parked other ↔
      if other = thread then ∃ count, q = .parked count else s.Parked other := by
  simp only [Parked, place?_goto]
  split
  next heq => simp [heq, h]
  next => simp

@[simp] theorem parked_mk (s : State) (count : UInt32) (queue : List Nat) (other : Nat) :
    (State.mk count queue s.places).Parked other ↔ s.Parked other := Iff.rfl

theorem parked_release (s : State) (woken : List Nat) (other : Nat) :
    (s.release woken).Parked other ↔ s.Parked other ∧ other ∉ woken := by
  by_cases h : other ∈ woken <;> simp [Parked, h]

/-- What a move does. Waking takes the front of the queue, or all of it. -/
inductive Step (s : State) (thread : Nat) : Move → State → Prop where
  | read (hplace : s.place? thread = some .outside) :
      s.Step thread .read (s.goto thread (.reading s.count))
  | park (hplace : s.place? thread = some (.reading s.count)) :
      s.Step thread .park ({ s with queue := s.queue ++ [thread] }.goto thread (.parked s.count))
  | stale {count : UInt32} (hplace : s.place? thread = some (.reading count)) (hne : count ≠ s.count) :
      s.Step thread .park (s.goto thread .outside)
  | timeOut {count : UInt32} (hplace : s.place? thread = some (.parked count)) :
      s.Step thread .timeOut ({ s with queue := s.queue.erase thread }.goto thread .outside)
  | notify {m : Move} {q : Place} (hplace : s.place? thread = some .outside)
      (hwaking : m.waking? = some q) :
      s.Step thread m ({ s with count := s.count + 1 }.goto thread q)
  | wake {q : Place} {woken rest : List Nat} (hplace : s.place? thread = some q)
      (hqueue : s.queue = woken ++ rest)
      (hwoken : q = .wakingOne ∧ woken = s.queue.take 1 ∨ q = .wakingAll ∧ woken = s.queue) :
      s.Step thread .wake (({ s with queue := rest }.release woken).goto thread .outside)

theorem step_of_move (h : s.move thread m = some t) : s.Step thread m t := by
  unfold State.move at h
  cases hplace : s.place? thread with
  | none => simp [hplace] at h
  | some p =>
    rw [hplace] at h
    cases p <;> cases m <;> simp only [reduceCtorEq, Option.some.injEq] at h
    case outside.read =>
      subst h
      exact .read hplace
    case outside.signal | outside.broadcast =>
      subst h
      exact .notify hplace rfl
    case reading.park count =>
      split at h <;> cases h
      next hcount =>
        subst hcount
        exact .park hplace
      next hne => exact .stale hplace hne
    case parked.timeOut =>
      subst h
      exact .timeOut hplace
    case wakingOne.wake =>
      subst h
      exact .wake hplace (List.take_append_drop 1 s.queue).symm (.inl ⟨rfl, rfl⟩)
    case wakingAll.wake =>
      subst h
      exact .wake hplace (List.append_nil _).symm (.inr ⟨rfl, rfl⟩)

/-- The queue holds the parked threads. -/
structure Sound (s : State) : Prop where
  queued : ∀ thread, thread ∈ s.queue ↔ s.Parked thread
  nodup : s.queue.Nodup

theorem sound_initial (threads : Nat) : (State.initial threads).Sound := by
  refine ⟨fun thread => ?_, List.nodup_nil⟩
  simp [initial, Parked, place?, List.getElem?_replicate]

theorem Sound.step (hs : s.Sound) (h : s.Step thread m t) : t.Sound := by
  have hself : ∀ {p}, s.place? thread = some p → (thread ∈ s.queue ↔ ∃ count, p = .parked count) :=
    fun hplace => by simp [hs.queued, Parked, hplace]
  have hnodup := hs.nodup
  refine ⟨fun other => ?_, ?_⟩
  · have hother := hs.queued other
    cases h with
    | read hplace | stale hplace =>
      rw [parked_goto hplace, queue_goto]
      grind
    | notify hplace hwaking =>
      have := hself hplace
      rw [parked_goto (s := { s with count := s.count + 1 }) hplace, queue_goto, parked_mk]
      grind [Move.waking?_eq_some]
    | park hplace =>
      rw [parked_goto (s := { s with queue := s.queue ++ [thread] }) hplace, queue_goto, parked_mk]
      grind
    | timeOut hplace =>
      rw [parked_goto (s := { s with queue := s.queue.erase thread }) hplace, queue_goto, parked_mk]
      grind
    | @wake q woken rest hplace hqueue hwoken =>
      have := hself hplace
      have hthread : (State.release { s with queue := rest } woken).place? thread = some q := by
        rw [place?_release, place?_mk, hplace]
        grind
      rw [parked_goto hthread, parked_release, queue_goto, queue_release, parked_mk]
      grind
  · cases h with
    | park hplace =>
      have := hself hplace
      rw [queue_goto, List.nodup_append]
      grind
    | timeOut => exact hnodup.erase _
    | wake hplace hqueue =>
      rw [queue_goto, queue_release]
      grind
    | _ => exact hnodup

theorem Step.count_eq (h : s.Step thread m t) :
    t.count = s.count + if m.waking?.isSome then 1 else 0 := by
  cases h with
  | notify hplace hwaking => simp [hwaking]
  | _ => simp [Move.waking?]

/-- Whoever is parked was parked before, or has parked now and had read the count as it is. -/
theorem Step.of_parked (h : s.Step thread m t) (ht : t.place? waiter = some (.parked count)) :
    s.place? waiter = some (.parked count) ∨
      s.place? waiter = some (.reading count) ∧ count = s.count ∧ (thread, m) = (waiter, .park) := by
  cases h <;> simp only [place?_goto, place?_release, place?_mk, Option.map_eq_some_iff] at ht <;>
    grind [Move.waking?_eq_some]

theorem Step.of_reading (h : s.Step thread m t) (ht : t.place? waiter = some (.reading count)) :
    s.place? waiter = some (.reading count) ∧ (thread, m) ≠ (waiter, .read) ∨
      count = s.count ∧ (thread, m) = (waiter, .read) := by
  cases h <;> simp only [place?_goto, place?_release, place?_mk, Option.map_eq_some_iff] at ht <;>
    grind [Move.waking?_eq_some]

theorem Step.place?_notifier (h : s.Step notifier m t) (hm : m.waking? = some q) :
    t.place? notifier = some q := by
  cases h <;> simp_all [Move.waking?]

/-- The front of the queue stays there until it leaves the queue. -/
theorem Step.front (hs : s.Sound) (h : s.Step thread m t) (hfront : s.queue.head? = some waiter) :
    t.queue.head? = some waiter ∨ t.place? waiter = some .outside := by
  obtain ⟨rest, hqueue⟩ := List.head?_eq_some_iff.mp hfront
  obtain ⟨count, hparked⟩ := (hs.queued waiter).mp (List.mem_of_head? hfront)
  cases h with
  | read | stale | notify => exact .inl hfront
  | park => exact .inl (by simp [hqueue])
  | timeOut => grind [place?_goto, place?_mk, queue_goto]
  | wake => grind [place?_goto, place?_release, place?_mk, queue_goto, queue_release]

/-- A thread that is about to wake others stays where it is until it does so. -/
theorem Step.waking (hs : s.Sound) (h : s.Step thread m t) (hplace : s.place? notifier = some q)
    (hq : q = .wakingOne ∨ q = .wakingAll) (hne : (thread, m) ≠ (notifier, .wake)) :
    t.place? notifier = some q := by
  have hqueue : notifier ∉ s.queue := by simp [hs.queued, Parked, hplace]; grind
  cases h <;> simp only [place?_goto, place?_release, place?_mk, hplace, Option.map_some] <;> grind

/-- Nobody is left parked when all are woken, and not the front of the queue when one is. -/
theorem Step.woken (hs : s.Sound) (h : s.Step notifier .wake t) (hplace : s.place? notifier = some q)
    (hq : q = .wakingAll ∨ q = .wakingOne ∧ s.queue.head? = some waiter) : ¬t.Parked waiter := by
  have hqueue := hs.queued waiter
  rintro ⟨count, ht⟩
  cases h with
  | notify _ hwaking => simp [Move.waking?] at hwaking
  | @wake q' woken _ hnotifier hsplit hwoken =>
    obtain rfl : q = q' := Option.some.inj (hplace.symm.trans hnotifier)
    have hin : s.Parked waiter → waiter ∈ woken := by
      obtain ⟨hone, rfl⟩ | ⟨-, rfl⟩ := hwoken
      · obtain ⟨rest, hfront⟩ := List.head?_eq_some_iff.mp (hq.resolve_left (by simp [hone])).2
        simp [hfront]
      · exact hqueue.mpr
    simp only [place?_goto, place?_release, place?_mk, Option.map_eq_some_iff] at ht
    grind [Parked]

/-! ## Runs -/

theorem Sound.run (hs : s.Sound) (h : s.run steps = some t) : t.Sound := by
  induction steps generalizing s with
  | nil =>
    cases h
    exact hs
  | cons step steps ih =>
    obtain ⟨next, hnext, hrest⟩ := run_cons.mp h
    exact ih (hs.step (step_of_move hnext)) hrest

theorem count_run (h : s.run steps = some t) :
    t.count = s.count + .ofNat (notifications steps) := by
  induction steps generalizing s with
  | nil =>
    cases h
    simp [notifications]
  | cons step steps ih =>
    obtain ⟨next, hnext, hrest⟩ := run_cons.mp h
    rw [ih hrest, (step_of_move hnext).count_eq, ofNat_notifications_cons, UInt32.add_assoc]

/-- Whoever has read the count read it before the run, or did so last at some step of the run. -/
theorem of_reading_run (h : s.run steps = some t) (ht : t.place? waiter = some (.reading count)) :
    s.place? waiter = some (.reading count) ∧ (waiter, .read) ∉ steps ∨
      ∃ earlier later, steps = earlier ++ (waiter, .read) :: later ∧ (waiter, .read) ∉ later ∧
        t.count = count + .ofNat (notifications later) := by
  induction steps generalizing s with
  | nil =>
    cases h
    exact .inl ⟨ht, List.not_mem_nil⟩
  | cons step steps ih =>
    obtain ⟨next, hnext, hrest⟩ := run_cons.mp h
    have hstep := step_of_move hnext
    obtain ⟨hreading, hlast⟩ | ⟨earlier, later, rfl, hlast, hcount⟩ := ih hrest
    · obtain ⟨hbefore, hne⟩ | ⟨rfl, hread⟩ := hstep.of_reading hreading
      · exact .inl ⟨hbefore, by simp [hlast, Ne.symm hne]⟩
      · refine .inr ⟨[], steps, by simp [← hread], hlast, ?_⟩
        rw [count_run hrest, hstep.count_eq, (Prod.mk.inj hread).2]
        simp [Move.waking?]
    · exact .inr ⟨step :: earlier, later, rfl, hlast, hcount⟩

/-- Whoever is parked, and has not read the count during the run, was parked before the run or parked
at a step at which the count was as it had read it before the run. -/
theorem of_parked_run (h : s.run steps = some t) (hread : (waiter, .read) ∉ steps)
    (ht : t.place? waiter = some (.parked count)) :
    s.place? waiter = some (.parked count) ∨ s.place? waiter = some (.reading count) ∧
      ∃ between later, steps = between ++ (waiter, .park) :: later ∧
        count = s.count + .ofNat (notifications between) := by
  induction steps generalizing s with
  | nil =>
    cases h
    exact .inl ht
  | cons step steps ih =>
    obtain ⟨next, hnext, hrest⟩ := run_cons.mp h
    obtain ⟨hne, hlast⟩ := not_or.mp (mt List.mem_cons.mpr hread)
    have hstep := step_of_move hnext
    obtain hparked | ⟨hreading, between, later, rfl, hcount⟩ := ih hrest hlast
    · obtain hbefore | ⟨hbefore, hcount, hpark⟩ := hstep.of_parked hparked
      · exact .inl hbefore
      · exact .inr ⟨hbefore, [], steps, by simp [← hpark], by simp [notifications, hcount]⟩
    · obtain ⟨hbefore, -⟩ | ⟨-, hthis⟩ := hstep.of_reading hreading
      · refine .inr ⟨hbefore, step :: between, later, rfl, ?_⟩
        rw [hcount, hstep.count_eq, ofNat_notifications_cons, UInt32.add_assoc]
      · exact absurd hthis.symm hne

/-- Whoever is parked before and after a part of the run, and has not read the count since, was parked
in between. -/
theorem parked_throughout (hparked : s.Parked waiter) (hst : s.run steps = some t)
    (htu : t.run later = some u) (hread : (waiter, .read) ∉ steps ++ later)
    (hu : u.place? waiter = some (.parked count)) : t.place? waiter = some (.parked count) := by
  obtain h | ⟨h, -⟩ := of_parked_run htu (mt (List.mem_append_right steps) hread) hu
  · exact h
  obtain ⟨hs, -⟩ | ⟨_, _, rfl, -⟩ := of_reading_run hst h
  · obtain ⟨_, hparked⟩ := hparked
    simp [hs] at hparked
  · simp at hread

/-- The front of the queue is still the front if it is still parked. -/
theorem front_run (hs : s.Sound) (h : s.run steps = some t) (hread : (waiter, .read) ∉ steps)
    (hfront : s.queue.head? = some waiter) (ht : t.Parked waiter) : t.queue.head? = some waiter := by
  induction steps generalizing s with
  | nil =>
    cases h
    exact hfront
  | cons step steps ih =>
    obtain ⟨next, hnext, hrest⟩ := run_cons.mp h
    have hlast := List.not_mem_of_not_mem_cons hread
    have hstep := step_of_move hnext
    obtain hstays | hleft := hstep.front hs hfront
    · exact ih (hs.step hstep) hrest hlast hstays
    · obtain ⟨count, hcount⟩ := ht
      have := of_parked_run hrest hlast hcount
      grind

theorem waking_run (hs : s.Sound) (h : s.run steps = some t) (hplace : s.place? notifier = some q)
    (hq : q = .wakingOne ∨ q = .wakingAll) (hwake : (notifier, .wake) ∉ steps) :
    t.place? notifier = some q := by
  induction steps generalizing s with
  | nil =>
    cases h
    exact hplace
  | cons step steps ih =>
    obtain ⟨next, hnext, hrest⟩ := run_cons.mp h
    obtain ⟨hne, hlast⟩ := not_or.mp (mt List.mem_cons.mpr hwake)
    have hstep := step_of_move hnext
    exact ih (hs.step hstep) hrest (hstep.waking hs hplace hq (Ne.symm hne)) hlast

end State

/-! ## Notifying -/

/-- The waiter is parked after a notification only if it read the count again, or was parked before
the notification already: what it read before is stale. -/
theorem parked_before (hbefore : (State.initial threads).run before = some s)
    (hnotify : s.move notifier m = some t) (hm : m.waking? = some q) (hsteps : t.run steps = some u)
    (hread : (waiter, .read) ∉ steps) (hunwrapped : Unwrapped waiter (before ++ (notifier, m) :: steps))
    (hu : u.place? waiter = some (.parked count)) : t.place? waiter = some (.parked count) := by
  obtain hparked | ⟨hreading, between, later, rfl, hcount⟩ := State.of_parked_run hsteps hread hu
  · exact hparked
  exfalso
  have hstep := State.step_of_move hnotify
  obtain ⟨hs, -⟩ | ⟨-, hthis⟩ := hstep.of_reading hreading
  · obtain ⟨hinitial, -⟩ | ⟨earlier, rest, rfl, hlast, hsince⟩ := State.of_reading_run hbefore hs
    · simp [State.initial, State.place?, List.getElem?_replicate] at hinitial
    · have hfew := hunwrapped earlier (rest ++ (notifier, m) :: between) later (by simp)
        (by grind [Move.waking?_eq_some])
      rw [hstep.count_eq, hsince, hm, Option.isSome_some, if_pos rfl] at hcount
      have htotal : notifications (rest ++ (notifier, m) :: between) =
          notifications rest + 1 + notifications between := by
        simp [notifications, hm]
        omega
      have hzero : UInt32.ofNat (notifications (rest ++ (notifier, m) :: between)) = 0 := by
        rw [htotal, UInt32.ofNat_add, UInt32.ofNat_add, UInt32.ofNat_one]
        exact UInt32.left_eq_add.mp (by simpa only [UInt32.add_assoc] using hcount)
      have hnone := UInt32.toNat_ofNat_of_lt' hfew
      rw [hzero, UInt32.toNat_zero, htotal] at hnone
      omega
  · simp [(Prod.mk.inj hthis).2, Move.waking?] at hm

/-- However the run goes on after the steps `before` and `sent`, the waiter is not parked on what it
had read in `before`: it is not parked unless it has read the count again. -/
def Dismissed (threads : Nat) (before sent : List (Nat × Move)) (waiter : Nat) : Prop :=
  ∀ after u, (State.initial threads).run (before ++ sent ++ after) = some u →
    Unwrapped waiter (before ++ sent ++ after) → (waiter, .read) ∉ sent ++ after → ¬u.Parked waiter

/-- A notification dismisses whoever is not parked when it begins, and whoever the notifier wakes if
it is parked still. -/
theorem dismissed (hbefore : (State.initial threads).run before = some s) (hm : m.waking? = some q)
    (hwake : (notifier, .wake) ∉ during)
    (hwaiter : s.Parked waiter → q = .wakingAll ∨ q = .wakingOne ∧ s.queue.head? = some waiter) :
    Dismissed threads before ((notifier, m) :: during ++ [(notifier, .wake)]) waiter := by
  rintro after u hrun hunwrapped hread ⟨count, hu⟩
  simp only [List.cons_append, List.append_assoc, List.nil_append] at hrun hunwrapped hread
  obtain ⟨_, hs, hrun⟩ := State.run_append.mp hrun
  obtain rfl := Option.some.inj (hbefore.symm.trans hs)
  obtain ⟨begun, hnotify, hrest⟩ := State.run_cons.mp hrun
  obtain ⟨ready, hduring, hrun⟩ := State.run_append.mp hrest
  obtain ⟨done, hwakes, hafter⟩ := State.run_cons.mp hrun
  have hsound := (State.sound_initial threads).run hbefore
  have hbegin := State.step_of_move hnotify
  have hend := State.step_of_move hwakes
  -- the waiter has been parked all the time
  obtain ⟨-, hread⟩ := not_or.mp (mt List.mem_cons.mpr hread)
  have hbegun := parked_before hbefore hnotify hm hrest hread hunwrapped hu
  have hready := State.parked_throughout ⟨count, hbegun⟩ hduring hrun hread hu
  have hwoken : ready.run [(notifier, .wake)] = some done := State.run_cons.mpr ⟨done, hwakes, rfl⟩
  have hdone := State.parked_throughout ⟨count, hready⟩ hwoken hafter (by grind) hu
  have hparked : s.Parked waiter := by
    obtain h | ⟨-, -, h⟩ := hbegin.of_parked hbegun
    · exact ⟨count, h⟩
    · grind [Move.waking?_eq_some]
  -- so the notifier wakes it
  have hwaking := State.waking_run (hsound.step hbegin) hduring (hbegin.place?_notifier hm)
    (by grind [Move.waking?_eq_some]) hwake
  refine hend.woken ((hsound.step hbegin).run hduring) hwaking ?_ ⟨count, hdone⟩
  refine (hwaiter hparked).imp_right fun ⟨hone, hfront⟩ => ⟨hone, ?_⟩
  exact State.front_run hsound (State.run_cons.mpr ⟨begun, hnotify, hduring⟩) (by grind) hfront
    ⟨count, hready⟩

/-- A notification reaches those who wait. When a broadcast is complete, no waiter that had read the
count before is parked on that reading or will be. When a signal is complete and somebody had read the
count before and was waiting still, then one of those who were is not parked on that reading and will
not be. -/
theorem notification_dismisses (hbefore : (State.initial threads).run before = some s)
    (hwake : (notifier, .wake) ∉ during) :
    (∀ waiter, Dismissed threads before ((notifier, .broadcast) :: during ++ [(notifier, .wake)]) waiter) ∧
      ((∃ waiter, s.Waits waiter) → ∃ waiter, s.Waits waiter ∧
        Dismissed threads before ((notifier, .signal) :: during ++ [(notifier, .wake)]) waiter) := by
  have hs := (State.sound_initial threads).run hbefore
  refine ⟨fun waiter => dismissed hbefore rfl hwake fun _ => .inl rfl, fun ⟨waiter, hwaits⟩ => ?_⟩
  cases hfront : s.queue.head? with
  | some front =>
    have hparked : s.Parked front := (hs.queued front).mp (List.mem_of_head? hfront)
    exact ⟨front, .inr hparked, dismissed hbefore rfl hwake fun _ => .inr ⟨rfl, hfront⟩⟩
  | none =>
    have hnobody : ¬s.Parked waiter := by
      rw [← hs.queued, List.head?_eq_none_iff.mp hfront]
      exact List.not_mem_nil
    exact ⟨waiter, hwaits, dismissed hbefore rfl hwake fun hparked => absurd hparked hnobody⟩

/-- One thread has read the count and another is parked when a third begins to notify, and the first
tries to park before the third wakes anybody. After a broadcast neither is parked; a signal dismisses
one of them for good. -/
theorem notification_dismisses_crossed :
    ∃ s t, (State.initial 3).run [(0, .read), (1, .read), (1, .park)] = some s ∧
      s.run [(2, .broadcast), (0, .park), (2, .wake)] = some t ∧
      s.Waits 0 ∧ s.Parked 1 ∧ ¬t.Parked 0 ∧ ¬t.Parked 1 ∧
      ∃ waiter, s.Waits waiter ∧ Dismissed 3 [(0, .read), (1, .read), (1, .park)]
        [(2, .signal), (0, .park), (2, .wake)] waiter := by
  have hbefore : (State.initial 3).run [(0, .read), (1, .read), (1, .park)] =
      some ⟨0, [1], [.reading 0, .parked 0, .outside]⟩ := rfl
  have hwaits : State.Waits ⟨0, [1], [.reading 0, .parked 0, .outside]⟩ 0 := .inl ⟨0, rfl⟩
  have hwake : (2, Move.wake) ∉ [(0, Move.park)] := by simp
  obtain ⟨hbroadcast, hsignal⟩ := notification_dismisses hbefore hwake
  have hrun : (State.initial 3).run ([(0, .read), (1, .read), (1, .park)] ++
      [(2, .broadcast), (0, .park), (2, .wake)] ++ []) =
      some ⟨1, [], [.outside, .outside, .outside]⟩ := rfl
  have hdismissed := fun waiter => hbroadcast waiter [] _ hrun (unwrapped_of_length (by decide) waiter)
  exact ⟨_, _, hbefore, rfl, hwaits, ⟨0, rfl⟩, hdismissed 0 (by simp), hdismissed 1 (by simp),
    hsignal ⟨0, hwaits⟩⟩

end Substrate.Lock.Condvar
