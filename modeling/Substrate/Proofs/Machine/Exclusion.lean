import Mathlib.Data.List.Basic
import Substrate.Machine.Safepoint

/-!
# A collection has the machine to itself

From the moment a collector has found all other threads stopped until it lowers the flag, no other
registered thread runs client code, nobody is added to the registry or removed from it, and nobody
else collects. This holds for any number of threads, in whatever order they take their steps, also
when collections have died before.

`State.Turn` says what one step of a thread can do: what the others see of it, and what becomes of
the thread. `State.Sound` is the invariant that follows. Its heart is `stopped`: a thread that the
collector has counted as stopped either stays in its safe region or on the monitor, or comes back and
finds the flag raised.
-/

namespace Substrate.Safepoint

variable {s t u : State} {thread other c : Nat} {m : Move} {p q : Place}

namespace Place

/-! ## Places -/

/-- Whether a thread at this place holds the heap. -/
def holdsHeap : Place → Bool
  | resuming purpose | rechecking purpose | stopping purpose | entering purpose | checking purpose
  | parking purpose | parked purpose | exiting purpose | quitting purpose => purpose == .heap
  | holding | takingRegistry | takingRoots | raising | watching _ | collecting | lowering | waking
  | leaving | unlocking | releasingRoots | releasingRegistry => true
  | _ => false

/-- Whether a thread at this place holds the registry. -/
def holdsRegistry : Place → Bool
  | resuming purpose | rechecking purpose | stopping purpose | entering purpose | checking purpose
  | parking purpose | parked purpose | exiting purpose | quitting purpose => purpose == .detach
  | adding | added | takingRoots | raising | watching _ | collecting | lowering | waking | leaving
  | unlocking | releasingRoots | releasingRegistry | removing | removed => true
  | _ => false

/-- Whether a thread at this place has said that it is running. -/
def isRunning : Place → Bool
  | yielding inside _ => !inside
  | attaching | adding | added | mutating | sheltering _ | rechecking _ => true
  | _ => false

/-- Whether a thread at this place runs client code, or the code of a lock, in a safe region. -/
def isHidden : Place → Bool
  | yielding inside _ => inside
  | safe => true
  | _ => false

/-- Whether a thread at this place has its number but is not registered yet. -/
def isEnrolling : Place → Bool
  | attaching | adding => true
  | _ => false

/-- Whether a thread at this place may be registered. -/
def isAttached : Place → Bool
  | outside | attaching | adding | visiting | removed => false
  | _ => true

/-- The threads that a collector whose flag is up has not found stopped yet. -/
def pending : Place → Option (List Nat)
  | watching left => some left
  | collecting | lowering => some []
  | _ => none

@[simp] theorem holdsHeap_woken (p : Place) : p.woken.holdsHeap = p.holdsHeap := by
  cases p <;> rfl

@[simp] theorem holdsRegistry_woken (p : Place) : p.woken.holdsRegistry = p.holdsRegistry := by
  cases p <;> rfl

@[simp] theorem isRunning_woken (p : Place) : p.woken.isRunning = p.isRunning := by
  cases p <;> rfl

@[simp] theorem isHidden_woken (p : Place) : p.woken.isHidden = p.isHidden := by
  cases p <;> rfl

@[simp] theorem isEnrolling_woken (p : Place) : p.woken.isEnrolling = p.isEnrolling := by
  cases p <;> rfl

@[simp] theorem isAttached_woken (p : Place) : p.woken.isAttached = p.isAttached := by
  cases p <;> rfl

@[simp] theorem isStopped_woken (p : Place) : p.woken.isStopped = p.isStopped := by
  cases p <;> rfl

@[simp] theorem pending_woken (p : Place) : p.woken.pending = p.pending := by
  cases p <;> rfl

/-- A collector holds both locks as long as its flag is up. -/
theorem holds_of_pending {left : List Nat} (h : p.pending = some left) :
    p.holdsHeap = true ∧ p.holdsRegistry = true := by
  cases p with
  | watching | collecting | lowering => exact ⟨rfl, rfl⟩
  | _ => cases h

theorem pending_of_isCollecting (h : p.isCollecting = true) : p.pending = some [] := by
  cases p with
  | collecting | lowering => rfl
  | _ => cases h

/-- An attached thread that has none of the two locks has stopped, unless it says that it is
running. -/
theorem isStopped_of_not_isRunning (hheap : p.holdsHeap = false) (hregistry : p.holdsRegistry = false)
    (hattached : p.isAttached = true) (hrunning : p.isRunning = false) : p.isStopped = true := by
  cases p with
  | yielding inside purpose => simpa [isRunning, isStopped] using hrunning
  | safe | awaiting | blocked | resuming | rechecking | stopping | entering | checking | parking
  | parked | exiting | quitting => rfl
  | outside | attaching | adding | visiting | removed => cases hattached
  | added | removing => cases hregistry
  | mutating | sheltering => cases hrunning
  | _ => cases hheap

end Place

/-! ## One step -/

/-- What one step of a thread does that goes from one place to another. -/
structure State.Turn (s t : State) (thread : Nat) (p q : Place) : Prop where
  -- What the others see of it: locks are taken only when they are free and let go only by the
  -- thread that holds them, and all else that is shared is changed under a lock.
  others : ∀ other, other ≠ thread →
    t.place other = s.place other ∨ t.place other = (s.place other).woken
  status : ∀ other, other ≠ thread → t.status other = s.status other
  heap : t.heap = s.heap ∨ s.heap = none ∨ p.holdsHeap = true
  registry : t.registry = s.registry ∨ s.registry = none ∨ p.holdsRegistry = true
  flag : t.flag = s.flag ∨ p.holdsHeap = true
  members : t.members = s.members ∨ p = .adding ∧ t.members = s.members ++ [thread] ∨
    p = .removing ∧ t.members = s.members.filter (· != thread)
  number : t.number = s.number ∧ t.next = s.next ∧ (q.isEnrolling = true → p.isEnrolling = true) ∨
    p = .outside ∧ t.next = s.next + 1 ∧
      t.number = fun other => if other = thread then s.next else s.number other
  -- What becomes of the thread.
  place : t.place thread = q
  holdsHeap : q.holdsHeap = true → t.heap = some thread ∨ t.heap = s.heap ∧ p.holdsHeap = true
  holdsRegistry : q.holdsRegistry = true →
    t.registry = some thread ∨ t.registry = s.registry ∧ p.holdsRegistry = true
  isRunning : q.isRunning = true →
    t.status thread = .running ∨ t.status thread = s.status thread ∧ p.isRunning = true
  isHidden : q.isHidden = true →
    t.status thread ≠ .running ∨ t.status thread = s.status thread ∧ p.isHidden = true
  isAttached : thread ∈ t.members →
    q.isAttached = true ∨ thread ∈ s.members ∧ p.isAttached = false
  -- A thread that has stopped goes on only if it finds the flag down or a lock free.
  isStopped : p.isStopped = true → s.flag = true → s.heap ≠ none → s.registry ≠ none →
    (p.isHidden = true → s.status thread ≠ .running) → q.isStopped = true
  -- A collector watches all others, and stops watching those that do not say that they run.
  pending : ∀ left, q.pending = some left →
    p = .raising ∧ t.flag = true ∧ left = s.others thread ∨
    t.flag = s.flag ∧ ∃ before, p.pending = some before ∧
      ∀ other ∈ before, other ∈ left ∨ s.status other ≠ .running

theorem State.Turn.refl : s.Turn s thread (s.place thread) (s.place thread) where
  others _ _ := .inl rfl
  status _ _ := rfl
  heap := .inl rfl
  registry := .inl rfl
  flag := .inl rfl
  members := .inl rfl
  number := .inl ⟨rfl, rfl, id⟩
  place := rfl
  holdsHeap h := .inr ⟨rfl, h⟩
  holdsRegistry h := .inr ⟨rfl, h⟩
  isRunning h := .inr ⟨rfl, h⟩
  isHidden h := .inr ⟨rfl, h⟩
  isAttached h := by
    cases hattached : (s.place thread).isAttached with
    | true => exact .inl rfl
    | false => exact .inr ⟨h, rfl⟩
  isStopped h _ _ _ _ := h
  pending left h := .inr ⟨rfl, left, h, fun _ hmem => .inl hmem⟩

theorem State.move_turn (step : s.move thread m = some t) :
    ∃ q, s.Turn t thread (s.place thread) q := by
  by_cases hsame : t = s
  · subst hsame
    exact ⟨_, .refl⟩
  unfold State.move State.act State.advance Purpose.place Purpose.refuge at step
  generalize hp : s.place thread = p at step ⊢
  -- One goal for each line of the definitions. In each of them the places are known, and every
  -- field is one of its alternatives by computation or by the guard of that line.
  repeat' split at step
  all_goals cases step
  all_goals first
    | exact absurd rfl hsame
    | exact ⟨_, {
        others := fun other hne => by first | exact .inl (if_neg hne) | exact .inr (if_neg hne)
        status := fun other hne => by first | rfl | exact if_neg hne
        heap := by first | exact .inl rfl | exact .inr (.inl ‹_›) | exact .inr (.inr rfl)
        registry := by first | exact .inl rfl | exact .inr (.inl ‹_›) | exact .inr (.inr rfl)
        flag := by first | exact .inl rfl | exact .inr rfl
        members := by
          first | exact .inl rfl | exact .inr (.inl ⟨rfl, rfl⟩) | exact .inr (.inr ⟨rfl, rfl⟩)
        number := by
          first | exact .inl ⟨rfl, rfl, id⟩ | exact .inl ⟨rfl, rfl, nofun⟩ | exact .inr ⟨rfl, rfl, rfl⟩
        place := if_pos rfl
        holdsHeap := by first | exact fun _ => .inl rfl | exact fun h => .inr ⟨rfl, h⟩ | exact nofun
        holdsRegistry := by
          first | exact fun _ => .inl rfl | exact fun h => .inr ⟨rfl, h⟩ | exact nofun
        isRunning := by
          first
          | exact fun h => .inr ⟨rfl, h⟩
          | exact fun _ => .inl ‹_›
          | exact fun _ => .inl (if_pos rfl)
          | exact nofun
        isHidden := by
          first
          | exact fun h => .inr ⟨rfl, h⟩
          | exact fun _ => .inl ‹_›
          | exact fun _ => .inl (ne_of_eq_of_ne (if_pos rfl : _ = GcState.safe) nofun)
          | exact nofun
        isAttached := fun h => by
          first | exact .inl rfl | exact .inr ⟨h, rfl⟩ | contradiction | simp [State.goto] at h
        isStopped := fun h _ _ _ hhidden => by
          first | rfl | contradiction | exact absurd ‹_› (hhidden h)
        pending := by
          first
          | exact fun left h => .inr ⟨rfl, left, h, fun _ hmem => .inl hmem⟩
          | exact fun left h => .inl ⟨rfl, rfl, (Option.some.inj h).symm⟩
          | exact fun left h => .inr ⟨rfl, _, rfl, fun _ hmem => (List.mem_cons.mp hmem).elim
              (fun heq => .inr (heq ▸ ‹_›)) fun hmem => .inl (Option.some.inj h ▸ hmem)⟩
          | exact nofun }⟩

/-! ## The invariant -/

/-- A thread has a number that others may meet in the registry. -/
def State.Enrolled (s : State) (thread : Nat) : Prop :=
  thread ∈ s.members ∨ (s.place thread).isEnrolling = true

/-- What holds in every state of a run. -/
structure State.Sound (s : State) : Prop where
  heap : ∀ thread, (s.place thread).holdsHeap = true → s.heap = some thread
  registry : ∀ thread, (s.place thread).holdsRegistry = true → s.registry = some thread
  running : ∀ thread, (s.place thread).isRunning = true → s.status thread = .running
  hidden : ∀ thread, (s.place thread).isHidden = true → s.status thread ≠ .running
  attached : ∀ thread ∈ s.members, (s.place thread).isAttached = true
  numbered : ∀ thread, s.Enrolled thread → s.number thread < s.next
  distinct : ∀ thread other, s.Enrolled thread → s.Enrolled other →
    s.number thread = s.number other → thread = other
  stopped : ∀ thread left, (s.place thread).pending = some left →
    s.flag = true ∧ ∀ other ∈ s.members, other ≠ thread → other ∉ left →
      (s.place other).isStopped = true

namespace State

theorem sound_initial : initial.Sound where
  heap _ := nofun
  registry _ := nofun
  running _ := nofun
  hidden _ := nofun
  attached _ := nofun
  numbered _ h := h.elim nofun nofun
  distinct _ _ h := h.elim nofun nofun
  stopped _ _ := nofun

namespace Turn

/-- What a step leaves of the other threads, for everything that waking a thread does not change. -/
theorem other_eq {α : Type} (h : s.Turn t thread p q) (hne : other ≠ thread) (f : Place → α)
    (hf : ∀ place, f place.woken = f place) : f (t.place other) = f (s.place other) := by
  rcases h.others other hne with heq | heq
  · rw [heq]
  · rw [heq, hf]

theorem mem_members (h : s.Turn t thread p q) (hne : other ≠ thread) (hmem : other ∈ t.members) :
    other ∈ s.members := by
  rcases h.members with heq | ⟨-, heq⟩ | ⟨-, heq⟩
  · rwa [heq] at hmem
  · rw [heq, List.mem_append, List.mem_singleton] at hmem
    exact hmem.resolve_right hne
  · rw [heq] at hmem
    exact (List.mem_filter.mp hmem).1

/-- The registry changes only in the hands of a thread that holds it. -/
theorem members_eq (h : s.Turn t thread p q) (hp : p ≠ .adding ∧ p ≠ .removing) :
    t.members = s.members := by
  rcases h.members with heq | ⟨hadding, -⟩ | ⟨hremoving, -⟩
  · exact heq
  · exact absurd hadding hp.1
  · exact absurd hremoving hp.2

/-- Nobody has a number after a step who had none before, but for the one who asked for it. -/
theorem enrolled (h : s.Turn t thread (s.place thread) q) (hother : t.Enrolled other) :
    s.Enrolled other ∨ other = thread ∧ s.place thread = .outside := by
  by_cases hne : other = thread
  · subst hne
    rcases hother with hmem | henrolling
    · rcases h.members with heq | ⟨hadding, -⟩ | ⟨-, heq⟩
      · exact .inl (.inl (heq ▸ hmem))
      · exact .inl (.inr (by rw [hadding]; rfl))
      · exact .inl (.inl (List.mem_filter.mp (heq ▸ hmem)).1)
    · rcases h.number with ⟨-, -, hkept⟩ | ⟨houtside, -⟩
      · exact .inl (.inr (hkept (h.place ▸ henrolling)))
      · exact .inr ⟨rfl, houtside⟩
  · refine .inl (hother.imp (h.mem_members hne) fun henrolling => ?_)
    rwa [h.other_eq hne Place.isEnrolling Place.isEnrolling_woken] at henrolling

end Turn

namespace Sound

/-- Two threads never hold the heap. -/
theorem eq_of_holdsHeap (hs : s.Sound) (hthread : (s.place thread).holdsHeap = true)
    (hother : (s.place other).holdsHeap = true) : thread = other :=
  Option.some.inj ((hs.heap thread hthread).symm.trans (hs.heap other hother))

theorem eq_of_holdsRegistry (hs : s.Sound) (hthread : (s.place thread).holdsRegistry = true)
    (hother : (s.place other).holdsRegistry = true) : thread = other :=
  Option.some.inj ((hs.registry thread hthread).symm.trans (hs.registry other hother))

/-- No step of another thread changes the registry while a collector's flag is up. -/
theorem members_eq {left : List Nat} (hs : s.Sound) (h : s.Turn t thread (s.place thread) q)
    (hc : (s.place c).pending = some left) : t.members = s.members := by
  have hregistry := (Place.holds_of_pending hc).2
  refine h.members_eq ⟨fun hp => ?_, fun hp => ?_⟩ <;>
  · obtain rfl : thread = c := hs.eq_of_holdsRegistry (by rw [hp]; rfl) hregistry
    rw [hp] at hc
    cases hc

theorem heap_turn (hs : s.Sound) (h : s.Turn t thread (s.place thread) q)
    (hother : (t.place other).holdsHeap = true) : t.heap = some other := by
  by_cases hne : other = thread
  · subst hne
    rcases h.holdsHeap (h.place ▸ hother) with heq | ⟨heq, hholds⟩
    · exact heq
    · exact heq.trans (hs.heap _ hholds)
  · rw [h.other_eq hne Place.holdsHeap Place.holdsHeap_woken] at hother
    rcases h.heap with heq | hfree | hholds
    · exact heq.trans (hs.heap other hother)
    · rw [hs.heap other hother] at hfree
      cases hfree
    · exact absurd (hs.eq_of_holdsHeap hother hholds) hne

theorem registry_turn (hs : s.Sound) (h : s.Turn t thread (s.place thread) q)
    (hother : (t.place other).holdsRegistry = true) : t.registry = some other := by
  by_cases hne : other = thread
  · subst hne
    rcases h.holdsRegistry (h.place ▸ hother) with heq | ⟨heq, hholds⟩
    · exact heq
    · exact heq.trans (hs.registry _ hholds)
  · rw [h.other_eq hne Place.holdsRegistry Place.holdsRegistry_woken] at hother
    rcases h.registry with heq | hfree | hholds
    · exact heq.trans (hs.registry other hother)
    · rw [hs.registry other hother] at hfree
      cases hfree
    · exact absurd (hs.eq_of_holdsRegistry hother hholds) hne

theorem running_turn (hs : s.Sound) (h : s.Turn t thread (s.place thread) q)
    (hother : (t.place other).isRunning = true) : t.status other = .running := by
  by_cases hne : other = thread
  · subst hne
    rcases h.isRunning (h.place ▸ hother) with heq | ⟨heq, hrunning⟩
    · exact heq
    · exact heq.trans (hs.running _ hrunning)
  · rw [h.other_eq hne Place.isRunning Place.isRunning_woken] at hother
    exact (h.status other hne).trans (hs.running other hother)

theorem hidden_turn (hs : s.Sound) (h : s.Turn t thread (s.place thread) q)
    (hother : (t.place other).isHidden = true) : t.status other ≠ .running := by
  by_cases hne : other = thread
  · subst hne
    rcases h.isHidden (h.place ▸ hother) with hstatus | ⟨heq, hhidden⟩
    · exact hstatus
    · exact heq ▸ hs.hidden _ hhidden
  · rw [h.other_eq hne Place.isHidden Place.isHidden_woken] at hother
    exact h.status other hne ▸ hs.hidden other hother

theorem attached_turn (hs : s.Sound) (h : s.Turn t thread (s.place thread) q)
    (hmem : other ∈ t.members) : (t.place other).isAttached = true := by
  by_cases hne : other = thread
  · subst hne
    rcases h.isAttached hmem with hattached | ⟨hbefore, hnot⟩
    · exact h.place ▸ hattached
    · rw [hs.attached _ hbefore] at hnot
      cases hnot
  · rw [h.other_eq hne Place.isAttached Place.isAttached_woken]
    exact hs.attached other (h.mem_members hne hmem)

theorem numbers_turn (hs : s.Sound) (h : s.Turn t thread (s.place thread) q) :
    (∀ other, t.Enrolled other → t.number other < t.next) ∧
      ∀ other another, t.Enrolled other → t.Enrolled another →
        t.number other = t.number another → other = another := by
  rcases h.number with ⟨hnumber, hnext, hkept⟩ | ⟨houtside, hnext, hnumber⟩
  · have hback : ∀ other, t.Enrolled other → s.Enrolled other := by
      intro other hother
      rcases h.enrolled hother with hbefore | ⟨rfl, houtside⟩
      · exact hbefore
      · rcases hother with hmem | henrolling
        · rw [h.members_eq (by rw [houtside]; exact ⟨nofun, nofun⟩)] at hmem
          exact .inl hmem
        · exact .inr (hkept (h.place ▸ henrolling))
    rw [hnumber, hnext]
    exact ⟨fun other hother => hs.numbered other (hback other hother),
      fun other another hother hanother =>
        hs.distinct other another (hback other hother) (hback another hanother)⟩
  · -- The new number is above all that are in use.
    have hback : ∀ other, t.Enrolled other → other ≠ thread → s.Enrolled other :=
      fun other hother hne => (h.enrolled hother).resolve_right fun hnew => hne hnew.1
    have hold : ∀ other, t.Enrolled other → other ≠ thread → t.number other = s.number other ∧
        s.number other < s.next := fun other hother hne =>
      ⟨by rw [hnumber]; exact if_neg hne, hs.numbered other (hback other hother hne)⟩
    have hnew : t.number thread = s.next := by rw [hnumber]; exact if_pos rfl
    refine ⟨fun other hother => ?_, fun other another hother hanother heq => ?_⟩
    · by_cases hne : other = thread
      · rw [hne, hnew, hnext]
        exact Nat.lt_succ_self _
      · obtain ⟨hsame, hlt⟩ := hold other hother hne
        omega
    · by_cases hne : other = thread <;> by_cases hne' : another = thread
      · exact hne.trans hne'.symm
      · obtain ⟨hsame, hlt⟩ := hold another hanother hne'
        rw [hne, hnew] at heq
        omega
      · obtain ⟨hsame, hlt⟩ := hold other hother hne
        rw [hne', hnew] at heq
        omega
      · rw [(hold other hother hne).1, (hold another hanother hne').1] at heq
        exact hs.distinct other another (hback other hother hne) (hback another hanother hne') heq

/-- Who is registered, has none of the locks and does not say that it runs has stopped. -/
theorem isStopped_of_status {left : List Nat} (hs : s.Sound) (hc : (s.place c).pending = some left)
    (hmem : other ∈ s.members) (hne : other ≠ c) (hstatus : s.status other ≠ .running) :
    (s.place other).isStopped = true := by
  obtain ⟨hheap, hregistry⟩ := Place.holds_of_pending hc
  refine Place.isStopped_of_not_isRunning ?_ ?_ (hs.attached other hmem) ?_
  · exact Bool.eq_false_iff.mpr fun hholds => hne (hs.eq_of_holdsHeap hholds hheap)
  · exact Bool.eq_false_iff.mpr fun hholds => hne (hs.eq_of_holdsRegistry hholds hregistry)
  · exact Bool.eq_false_iff.mpr fun hrunning => hstatus (hs.running other hrunning)

/-- A collector finds itself in the registry by its number and watches all the others. -/
theorem mem_others (hs : s.Sound) (hmem : other ∈ s.members) (hne : other ≠ thread) :
    other ∈ s.others thread := by
  refine List.mem_filter.mpr ⟨hmem, bne_iff_ne.mpr fun heq => hne ?_⟩
  unfold State.current? at heq
  split at heq
  next hthread => exact hs.distinct other thread (.inl hmem) (.inl hthread) (Option.some.inj heq)
  next => cases heq

theorem isStopped_turn {left : List Nat} (hs : s.Sound) (h : s.Turn t thread (s.place thread) q)
    (hc : (s.place c).pending = some left) (hother : (s.place other).isStopped = true) :
    (t.place other).isStopped = true := by
  obtain ⟨hheap, hregistry⟩ := Place.holds_of_pending hc
  by_cases hmover : other = thread
  · subst hmover
    rw [h.place]
    refine h.isStopped hother (hs.stopped c left hc).1 ?_ ?_ (hs.hidden other)
    · rw [hs.heap c hheap]
      exact nofun
    · rw [hs.registry c hregistry]
      exact nofun
  · rwa [h.other_eq hmover Place.isStopped Place.isStopped_woken]

/-- What the step of a collector makes of the threads that it has counted as stopped. -/
theorem stopped_turn_self {left : List Nat} (hs : s.Sound) (h : s.Turn t thread (s.place thread) q)
    (hleft : q.pending = some left) :
    t.flag = true ∧ ∀ other ∈ t.members, other ≠ thread → other ∉ left →
      (t.place other).isStopped = true := by
  rcases h.pending left hleft with ⟨-, hflag, rfl⟩ | ⟨hflag, before, hbefore, hcounted⟩
  · refine ⟨hflag, fun other hmem hne hnot => absurd ?_ hnot⟩
    exact hs.mem_others (h.mem_members hne hmem) hne
  · obtain ⟨hraised, hstopped⟩ := hs.stopped thread before hbefore
    refine ⟨hflag.trans hraised, fun other hmem hne hnot => ?_⟩
    have hmember := h.mem_members hne hmem
    refine hs.isStopped_turn h hbefore ?_
    by_cases hwatched : other ∈ before
    · exact hs.isStopped_of_status hbefore hmember hne ((hcounted other hwatched).resolve_left hnot)
    · exact hstopped other hmember hne hwatched

/-- What the step of another thread makes of them. -/
theorem stopped_turn_other {left : List Nat} (hs : s.Sound) (h : s.Turn t thread (s.place thread) q)
    (hne : c ≠ thread) (hleft : (s.place c).pending = some left) :
    t.flag = true ∧ ∀ other ∈ t.members, other ≠ c → other ∉ left →
      (t.place other).isStopped = true := by
  obtain ⟨hraised, hstopped⟩ := hs.stopped c left hleft
  refine ⟨?_, fun other hmem hother hnot => ?_⟩
  · rcases h.flag with heq | hholds
    · exact heq.trans hraised
    · exact absurd (hs.eq_of_holdsHeap (Place.holds_of_pending hleft).1 hholds) hne
  · rw [hs.members_eq h hleft] at hmem
    exact hs.isStopped_turn h hleft (hstopped other hmem hother hnot)

theorem stopped_turn {left : List Nat} (hs : s.Sound) (h : s.Turn t thread (s.place thread) q)
    (hleft : (t.place c).pending = some left) :
    t.flag = true ∧ ∀ other ∈ t.members, other ≠ c → other ∉ left →
      (t.place other).isStopped = true := by
  by_cases hne : c = thread
  · subst hne
    exact hs.stopped_turn_self h (h.place ▸ hleft)
  · rw [h.other_eq hne Place.pending Place.pending_woken] at hleft
    exact hs.stopped_turn_other h hne hleft

theorem move (hs : s.Sound) (step : s.move thread m = some t) : t.Sound := by
  obtain ⟨q, h⟩ := State.move_turn step
  exact {
    heap := fun _ => hs.heap_turn h
    registry := fun _ => hs.registry_turn h
    running := fun _ => hs.running_turn h
    hidden := fun _ => hs.hidden_turn h
    attached := fun _ => hs.attached_turn h
    numbered := (hs.numbers_turn h).1
    distinct := (hs.numbers_turn h).2
    stopped := fun _ _ => hs.stopped_turn h }

end Sound

end State

theorem Reachable.sound (h : Reachable s) : s.Sound := by
  induction h with
  | initial => exact State.sound_initial
  | move _ step ih => exact ih.move step

/-- Lets the threads move in the given order. -/
def State.run (s : State) (moves : List (Nat × Move)) : Option State :=
  moves.foldlM (fun s move => s.move move.1 move.2) s

theorem Reachable.run {moves : List (Nat × Move)} (h : Reachable s)
    (hrun : s.run moves = some t) : Reachable t := by
  induction moves generalizing s with
  | nil => exact Option.some.inj hrun ▸ h
  | cons move moves ih =>
    obtain ⟨u, step, hrest⟩ := Option.bind_eq_some_iff.mp hrun
    exact ih (.move h step) hrest

/-! ## Exclusion -/

/-- The states that a run leads to all of whose steps are taken while a thread collects. -/
inductive During (c : Nat) (s : State) : State → Prop where
  | refl : During c s s
  | move {t u : State} {thread : Nat} {m : Move} (h : During c s t)
      (hc : (t.place c).isCollecting = true) (step : t.move thread m = some u) : During c s u

theorem During.reachable (h : During c s t) (hs : Reachable s) : Reachable t := by
  induction h with
  | refl => exact hs
  | move _ _ step ih => exact .move ih step

theorem During.members_eq (h : During c s t) (hs : Reachable s) : t.members = s.members := by
  induction h with
  | refl => rfl
  | move hbefore hc step ih =>
    obtain ⟨q, hturn⟩ := State.move_turn step
    have hsound := (hbefore.reachable hs).sound
    exact (hsound.members_eq hturn (Place.pending_of_isCollecting hc)).trans ih

/-- While a thread collects, all other registered threads have stopped, nobody else collects, and the
registry stays as it is. -/
theorem Reachable.collection_exclusive (h : Reachable s) (hc : (s.place c).isCollecting = true) :
    (∀ other ∈ s.members, other ≠ c → (s.place other).isStopped = true) ∧
      (∀ other, (s.place other).isCollecting = true → other = c) ∧
      ∀ t, During c s t → t.members = s.members := by
  have hsound := h.sound
  have hpending := Place.pending_of_isCollecting hc
  refine ⟨fun other hmem hne => ?_, fun other hother => ?_, fun t hrun => hrun.members_eq h⟩
  · exact (hsound.stopped c [] hpending).2 other hmem hne List.not_mem_nil
  · have hother' := Place.pending_of_isCollecting hother
    exact hsound.eq_of_holdsHeap (Place.holds_of_pending hother').1 (Place.holds_of_pending hpending).1

/-- Two threads are attached. The second is in a safe region when the first collects, and comes back
while the collection is under way. -/
def returning : List (Nat × Move) :=
  [(0, .attach), (0, .advance), (0, .advance), (0, .advance),
    (1, .attach), (1, .advance), (1, .advance), (1, .advance), (1, .enterSafe), (1, .advance),
    (0, .lockHeap), (0, .collect), (0, .advance), (0, .advance), (0, .advance), (0, .advance),
    (1, .leaveSafe), (1, .advance), (0, .advance)]

/-- The second thread says that it is running while the first collects, and yet it has not come
through. -/
theorem Reachable.collection_exclusive_returning :
    ∃ s, State.initial.run returning = some s ∧ s.place 0 = .collecting ∧ s.status 1 = .running ∧
      1 ∈ s.members ∧ (s.place 1).isStopped = true ∧
      ∀ t, During 0 s t → t.members = [0, 1] := by
  obtain ⟨s, hrun, hplace, hstatus, hmembers⟩ : ∃ s, State.initial.run returning = some s ∧
      s.place 0 = .collecting ∧ s.status 1 = .running ∧ s.members = [0, 1] :=
    ⟨_, rfl, rfl, rfl, rfl⟩
  have hmem : 1 ∈ s.members := by
    rw [hmembers]
    decide
  obtain ⟨hstopped, -, hkept⟩ :=
    (Reachable.initial.run hrun).collection_exclusive (by rw [hplace]; rfl)
  exact ⟨s, hrun, hplace, hstatus, hmem, hstopped 1 hmem (by decide),
    fun t h => (hkept t h).trans hmembers⟩

end Substrate.Safepoint
