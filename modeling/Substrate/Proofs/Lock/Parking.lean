import Mathlib.Data.List.Perm.Basic
import Substrate.Lock.Parking

/-!
# The parking lock

At most one thread holds the lock, and one does exactly while the word says that it is taken. No parked
thread is forgotten: either the word is contended, so that whoever lets go has to wake somebody, or a
thread is on its way to wake somebody, or a thread is about to swap the word to contended.

The middle cases are needed. A thread from outside can take the lock before a woken thread gets to it,
and then the word is `locked` although others are parked; what saves them is that the woken thread has
its swap still to do. `State.Sound` is the invariant, and `State.Sound.move` that every step keeps it.
-/

namespace Substrate.Lock.Parking

variable {s t : State} {thread other : Nat} {m : Move} {p q : Place}

namespace State

/-! ## One step -/

@[simp] theorem word_goto (s : State) (thread : Nat) (q : Place) : (s.goto thread q).word = s.word :=
  rfl

@[simp] theorem queue_goto (s : State) (thread : Nat) (q : Place) :
    (s.goto thread q).queue = s.queue := rfl

@[simp] theorem holders_goto (s : State) (thread : Nat) (q : Place) :
    (s.goto thread q).holders = s.holders := rfl

theorem place?_goto (h : s.place? thread = some p) (q : Place) (other : Nat) :
    (s.goto thread q).place? other = if other = thread then some q else s.place? other := by
  have hlt : thread < s.places.length := (List.getElem?_eq_some_iff.mp h).1
  by_cases heq : other = thread
  · simp [place?, goto, heq, hlt]
  · simp [place?, goto, heq, List.getElem?_set_ne (Ne.symm heq)]

theorem place?_settle (h : s.place? thread = some p) (access : Bool × Word) (q : Place) (other : Nat) :
    (s.settle thread access q).place? other =
      if other = thread then some (if access.1 then .outside else q) else s.place? other := by
  obtain ⟨taken, word⟩ := access
  cases taken
  · exact place?_goto (s := { s with word }) h q other
  · exact place?_goto (s := { s with word, holders := thread :: s.holders }) h .outside other

@[simp] theorem word_settle (s : State) (thread : Nat) (access : Bool × Word) (q : Place) :
    (s.settle thread access q).word = access.2 := by
  obtain ⟨taken, word⟩ := access
  cases taken <;> rfl

@[simp] theorem queue_settle (s : State) (thread : Nat) (access : Bool × Word) (q : Place) :
    (s.settle thread access q).queue = s.queue := by
  obtain ⟨taken, word⟩ := access
  cases taken <;> rfl

@[simp] theorem holders_settle (s : State) (thread : Nat) (access : Bool × Word) (q : Place) :
    (s.settle thread access q).holders = if access.1 then thread :: s.holders else s.holders := by
  obtain ⟨taken, word⟩ := access
  cases taken <;> rfl

/-! ## Sound states -/

/-- Somebody will look after the parked threads: whoever lets go of the lock, a thread that is about to
wake one, or a thread that is about to mark the word as contended. -/
def Tended (s : State) : Prop :=
  s.word = .contended ∨ ∃ other, s.place? other = some .waking ∨ s.place? other = some .swapping

structure Sound (s : State) : Prop where
  held : s.holders.length = if s.word.isLocked then 1 else 0
  queued : ∀ thread, thread ∈ s.queue ↔ s.place? thread = some .parked
  nodup : s.queue.Nodup
  tended : s.queue ≠ [] → s.Tended

theorem sound_initial (threads : Nat) : (State.initial threads).Sound := by
  refine ⟨rfl, fun thread => ?_, List.nodup_nil, fun h => absurd rfl h⟩
  simp [initial, place?, List.getElem?_replicate]

/-- A thread goes somewhere and leaves the lock as it is. -/
theorem Sound.goto (hs : s.Sound) (hplace : s.place? thread = some p) (hp : p ≠ .parked)
    (hq : q ≠ .parked) (htended : s.queue ≠ [] → q = .swapping ∨ p ≠ .waking ∧ p ≠ .swapping) :
    (s.goto thread q).Sound := by
  have hview := place?_goto hplace q
  refine ⟨hs.held, fun other => ?_, hs.nodup, fun hqueue => ?_⟩
  · rw [hview, queue_goto, hs.queued]
    grind
  · have := hs.tended hqueue
    have := htended hqueue
    simp only [Tended, hview, word_goto] at *
    grind

/-- An access that takes the lock if it is free. A word that was contended stays so, and a thread on which
parked threads may depend leaves the word contended. -/
theorem Sound.settle (hs : s.Sound) {access : Bool × Word} (hplace : s.place? thread = some p)
    (hp : p ≠ .parked) (hq : q ≠ .parked) (htaken : access.1 = !s.word.isLocked)
    (hword : access.2.isLocked = true)
    (htended : access.2 = .contended ∨ s.word ≠ .contended ∧ p ≠ .waking ∧ p ≠ .swapping) :
    (s.settle thread access q).Sound := by
  have hview := place?_settle hplace access q
  refine ⟨?_, fun other => ?_, ?_, fun hqueue => ?_⟩
  · have := hs.held
    rw [holders_settle, word_settle, htaken]
    grind
  · rw [hview, queue_settle, hs.queued]
    grind
  · rw [queue_settle]
    exact hs.nodup
  · rw [queue_settle] at hqueue
    have := hs.tended hqueue
    simp only [Tended, hview, word_settle] at *
    grind

/-- A thread joins the queue while the word is contended. -/
theorem Sound.park (hs : s.Sound) (hplace : s.place? thread = some .parking)
    (hword : s.word = .contended) :
    ({ s with queue := s.queue ++ [thread] }.goto thread .parked).Sound := by
  have hview := place?_goto (s := { s with queue := s.queue ++ [thread] }) hplace .parked
  have hnew : thread ∉ s.queue := by simp [hs.queued, hplace]
  refine ⟨hs.held, fun other => ?_, ?_, fun _ => .inl hword⟩
  · rw [hview, queue_goto, List.mem_append, hs.queued]
    grind [place?]
  · rw [queue_goto, List.nodup_append]
    grind [hs.nodup]

/-- The holder lets go; if the lock is contended it is going to wake somebody. -/
theorem Sound.unlock (hs : s.Sound) (hplace : s.place? thread = some .outside)
    (hholds : thread ∈ s.holders) :
    ({ s with word := s.word.unlock.2, holders := s.holders.erase thread }.goto thread
      (if s.word.unlock.1 then .waking else .outside)).Sound := by
  have hview := place?_goto (s := { s with word := s.word.unlock.2, holders := s.holders.erase thread })
    hplace (if s.word.unlock.1 then .waking else .outside)
  refine ⟨?_, fun other => ?_, hs.nodup, fun hqueue => ?_⟩
  · have hone : s.holders = [thread] := by
      have := hs.held
      grind [List.length_eq_one_iff]
    simp [hone, Word.unlock, Word.isLocked]
  · rw [hview, queue_goto]
    have := hs.queued other
    grind [place?]
  · obtain hword | ⟨other, hother⟩ := hs.tended hqueue
    · have hwakes : s.word.unlock.1 = true := by simp [Word.unlock, hword]
      exact .inr ⟨thread, .inl ((hview thread).trans (by simp [hwakes]))⟩
    · refine .inr ⟨other, ?_⟩
      rw [hview]
      grind [place?]

/-- A parked thread is taken out of the queue. It is going to swap the word. -/
theorem Sound.wake (hs : s.Sound) (hplace : s.place? thread = some .waking) {position woken : Nat}
    (hwoken : s.queue[position]? = some woken) :
    (({ s with queue := s.queue.eraseIdx position }.goto woken .swapping).goto thread .outside).Sound := by
  have hparked : s.place? woken = some .parked := (hs.queued woken).mp (List.mem_of_getElem? hwoken)
  have hne : thread ≠ woken := by
    rintro rfl
    simp [hplace] at hparked
  have hfirst := place?_goto (s := { s with queue := s.queue.eraseIdx position }) hparked .swapping
  have hview := place?_goto ((hfirst thread).trans ((if_neg hne).trans hplace)) .outside
  simp only [hfirst] at hview
  obtain ⟨hlt, rfl⟩ := List.getElem?_eq_some_iff.mp hwoken
  have hperm := List.getElem_cons_eraseIdx_perm hlt
  obtain ⟨hgone, hrest⟩ := List.nodup_cons.mp (hperm.nodup_iff.mpr hs.nodup)
  refine ⟨hs.held, fun other => ?_, hrest, fun _ => .inr ⟨s.queue[position], .inr ?_⟩⟩
  · rw [hview, queue_goto, queue_goto]
    have := hs.queued other
    have := hperm.mem_iff (a := other)
    grind [place?]
  · rw [hview, if_neg (Ne.symm hne), if_pos rfl]

theorem Sound.move (hs : s.Sound) (h : s.move thread m = some t) : t.Sound := by
  unfold State.move at h
  split at h
  next hplace =>
    cases h
    exact hs.goto hplace (by simp) (by simp) fun _ => .inr (by simp)
  next hplace =>
    cases h
    exact hs.settle hplace (by simp) (by simp) (Word.fst_tryLock _) (Word.isLocked_tryLock _)
      ((Word.tryLock_contended _).imp_right fun hword => ⟨hword, by simp⟩)
  next hplace =>
    cases h
    exact hs.settle hplace (by simp) (by simp) (Word.fst_tryLock _) (Word.isLocked_tryLock _)
      ((Word.tryLock_contended _).imp_right fun hword => ⟨hword, by simp⟩)
  next hplace =>
    cases h
    exact hs.goto hplace (by simp) (by simp) fun _ => .inl rfl
  next hplace =>
    cases h
    exact hs.settle hplace (by simp) (by simp) rfl rfl (.inl rfl)
  next hplace =>
    split at h <;> cases h
    next hpark => exact hs.park hplace (by simpa [Word.mayPark] using hpark)
    next => exact hs.goto hplace (by simp) (by simp) fun _ => .inl rfl
  next hplace =>
    split at h <;> cases h
    next hholds => exact hs.unlock hplace hholds
  next hplace =>
    split at h
    next hqueue =>
      cases h
      exact hs.goto hplace (by simp) (by simp) fun hne => absurd hqueue hne
    next =>
      obtain ⟨woken, hwoken, rfl⟩ := Option.map_eq_some_iff.mp h
      exact hs.wake hplace hwoken
  next => cases h

end State

/-! ## Reachable states -/

/-- Makes the given moves one after another. -/
def State.run (s : State) : List (Nat × Move) → Option State
  | [] => some s
  | (thread, m) :: steps => (s.move thread m).bind (·.run steps)

theorem Reachable.run {threads : Nat} {steps : List (Nat × Move)} (h : Reachable threads s)
    (hrun : s.run steps = some t) : Reachable threads t := by
  induction steps generalizing s with
  | nil =>
    cases hrun
    exact h
  | cons step steps ih =>
    obtain ⟨next, hnext, hrest⟩ := Option.bind_eq_some_iff.mp hrun
    exact ih (h.move hnext) hrest

theorem Reachable.sound {threads : Nat} (h : Reachable threads s) : s.Sound := by
  induction h with
  | initial => exact State.sound_initial threads
  | move _ step ih => exact ih.move step

/-- At any time at most one thread holds the lock, and one does exactly while the word is not `unlocked`.
The queue holds the threads that are parked. If there is one, then the word is contended, or a thread has
let go of a contended lock and has not yet woken anybody, or a thread is about to swap the word to
contended. -/
theorem Reachable.exclusive_and_tended {threads : Nat} (h : Reachable threads s) :
    s.holders.length ≤ 1 ∧ (s.word ≠ .unlocked ↔ s.holders ≠ []) ∧
    (∀ thread, thread ∈ s.queue ↔ s.place? thread = some .parked) ∧
    ((∃ thread, s.place? thread = some .parked) →
      s.word = .contended ∨ (∃ other, s.place? other = some .waking) ∨
        ∃ other, s.place? other = some .swapping) := by
  have hs := h.sound
  have hheld := hs.held
  refine ⟨?_, ?_, hs.queued, fun ⟨thread, hparked⟩ => ?_⟩
  · rw [hheld]
    split <;> omega
  · rw [← List.length_pos_iff, hheld]
    cases s.word <;> simp [Word.isLocked]
  · have hqueue : s.queue ≠ [] := List.ne_nil_of_mem ((hs.queued thread).mpr hparked)
    obtain hword | ⟨other, hwaking | hswapping⟩ := hs.tended hqueue
    · exact .inl hword
    · exact .inr (.inl ⟨other, hwaking⟩)
    · exact .inr (.inr ⟨other, hswapping⟩)

/-- A thread takes the lock while another is parked and a third is about to wake it. The word is
`locked` then, and only the third will see to it that the parked thread goes on. -/
theorem Reachable.exclusive_and_tended_barging :
    ∃ s, (State.initial 3).run [(0, .attempt), (1, .call), (1, .tryFirst), (1, .stopSpinning),
        (1, .swap), (1, .park), (0, .unlock), (2, .attempt)] = some s ∧
      s.word = .locked ∧ s.queue = [1] ∧ s.place? 0 = some .waking ∧ s.holders.length ≤ 1 ∧
      (s.word = .contended ∨ (∃ other, s.place? other = some .waking) ∨
        ∃ other, s.place? other = some .swapping) := by
  have hrun : (State.initial 3).run [(0, .attempt), (1, .call), (1, .tryFirst), (1, .stopSpinning),
      (1, .swap), (1, .park), (0, .unlock), (2, .attempt)]
      = some ⟨.locked, [1], [.waking, .parked, .outside], [2]⟩ := rfl
  obtain ⟨hholders, -, -, htended⟩ := Reachable.exclusive_and_tended (Reachable.initial.run hrun)
  exact ⟨_, hrun, rfl, rfl, rfl, hholders, htended ⟨1, rfl⟩⟩

end Substrate.Lock.Parking
