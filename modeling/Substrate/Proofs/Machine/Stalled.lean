import Substrate.Proofs.Machine.Exclusion
import Substrate.Proofs.Collection.Interrupted
import Substrate.Proofs.Control.Refinement

/-!
# Collections that die with the world stopped

A collection raises a flag that stops the other threads, and lowers it as its last step. If it fails on
the way, its locks are let go, but the flag stays up, although nobody is collecting any more. From then
on no thread gets past a safepoint, an allocation or the end of a safe region, until some collection is
completed.
-/

namespace Substrate.Machine

variable {γ α : Type} {m m' : Machine γ}

theorem modify_apply (f : Machine γ → Machine γ) : (modify f : Op γ Unit) m = .ok () (f m) := rfl

theorem setState_apply (state : GcState) :
    setState state m = .ok () { m with running := { m.running with state } } := rfl

/-! ## Roots -/

/-- The machines have the same roots. -/
structure SameRoots (m m' : Machine γ) : Prop where
  mode : m'.mode = m.mode
  roots : m'.roots = m.roots
  memory : m'.memory = m.memory
  symbols : m'.symbols = m.symbols
  running : m'.running = m.running
  waiting : m'.waiting = m.waiting

theorem SameRoots.scanRegions (h : SameRoots m m') (regions : List Region) :
    scanRegions m' regions = scanRegions m regions := by
  induction regions with
  | nil => rfl
  | cons region rest ih =>
    simp only [Machine.scanRegions, ih, h.mode, h.memory, h.roots]

theorem SameRoots.traceRoots (h : SameRoots m m') : m'.traceRoots = m.traceRoots := by
  simp only [Machine.traceRoots, h.scanRegions, threads, h.mode, h.roots, h.memory, h.symbols,
    h.running, h.waiting]

/-! ## One collection -/

/-- The running thread can collect: the other threads have stopped, and it holds none of the locks that
it has to take. -/
structure Poised (m : Machine γ) : Prop where
  stopped : ∀ thread ∈ m.waiting, thread.state ≠ .running
  threads : Guarded.threads ∉ m.held
  roots : Guarded.roots ∉ m.held

/-- What the rest of the machine can tell about a part of a collection: nothing but the flag. -/
structure Beside (m m' : Machine γ) : Prop extends SameRoots m m' where
  held : m'.held = m.held
  nextThread : m'.nextThread = m.nextThread
  nextBinding : m'.nextBinding = m.nextBinding

theorem Beside.trans {m'' : Machine γ} (h : Beside m m') (h' : Beside m' m'') : Beside m m'' :=
  ⟨⟨h'.mode.trans h.mode, h'.roots.trans h.roots, h'.memory.trans h.memory,
    h'.symbols.trans h.symbols, h'.running.trans h.running, h'.waiting.trans h.waiting⟩,
    h'.held.trans h.held, h'.nextThread.trans h.nextThread, h'.nextBinding.trans h.nextBinding⟩

/-- Marking and sweeping ends as the collection of the heap ends, and leaves the flag alone. -/
theorem markAndSweep_cases (m : Machine γ) :
    (∃ stats collection heap m', Heap.collect m.traceRoots m.heap = .ok ((), collection) heap ∧
      markAndSweep m = .ok stats m' ∧ Beside m m' ∧ m'.heap = heap ∧
      m'.collecting = m.collecting) ∨
    ∃ fault heap m', Heap.collect m.traceRoots m.heap = .error fault heap ∧
      markAndSweep m = .error fault m' ∧ Beside m m' ∧ m'.collecting = m.collecting := by
  have hroots : Machine.traceRoots { m with heap := .vacant } = m.traceRoots :=
    SameRoots.traceRoots ⟨rfl, rfl, rfl, rfl, rfl, rfl⟩
  unfold markAndSweep onHeap
  dsimp only
  rw [hroots]
  cases hrun : Heap.collect m.traceRoots m.heap with
  | ok result heap =>
    exact .inl ⟨_, result.2, heap, _, rfl, rfl, ⟨⟨rfl, rfl, rfl, rfl, rfl, rfl⟩, rfl, rfl, rfl⟩, rfl, rfl⟩
  | error fault heap =>
    refine .inr ⟨fault, heap, ?_⟩
    cases fault <;> exact ⟨_, rfl, rfl, ⟨⟨rfl, rfl, rfl, rfl, rfl, rfl⟩, rfl, rfl, rfl⟩, rfl⟩

/-- With the other threads stopped, the flag goes up and the world has stopped. -/
theorem stopWorld_eq (hstopped : ∀ thread ∈ m.waiting, thread.state ≠ .running) :
    ∃ m', stopWorld m = .ok () m' ∧ Beside m m' ∧ m'.heap = m.heap ∧ m'.collecting = true := by
  have hany : m.waiting.any (·.state == .running) = false := by
    rw [List.any_eq_false]
    exact fun thread hthread => by simpa using hstopped thread hthread
  refine ⟨{ m with
      collecting := true
      log := m.log.push ⟨.trace, "safepoint", toString m.threads.length ++ " threads stopped"⟩ },
    ?_, ⟨⟨rfl, rfl, rfl, rfl, rfl, rfl⟩, rfl, rfl, rfl⟩, rfl, rfl⟩
  unfold stopWorld
  rw [bind_of_ok (modify_apply _), bind_of_ok get_apply]
  dsimp only
  rw [hany]
  rfl

/-- Another thread runs on, so the world does not stop. -/
theorem stopWorld_blocked (hrunning : ¬ ∀ thread ∈ m.waiting, thread.state ≠ .running) :
    ∃ m', stopWorld m = .error .blocked m' := by
  have hany : m.waiting.any (·.state == .running) = true := by
    simpa [List.any_eq_true] using hrunning
  refine ⟨{ m with collecting := true }, ?_⟩
  unfold stopWorld
  rw [bind_of_ok (modify_apply _), bind_of_ok get_apply]
  dsimp only
  rw [hany]
  rfl

/-- A lock that is not held is taken and let go. -/
theorem withLock_apply {lock : Guarded} (h : lock ∉ m.held) (x : Op γ α) :
    withLock lock x m = match x { m with held := lock :: m.held } with
      | .ok a m' => .ok a { m' with held := m'.held.erase lock }
      | .error fault m' => .error fault { m' with held := m'.held.erase lock } :=
  if_neg (by simpa using h)

/-- After the locks are let go, only the flag can tell. -/
theorem Beside.released (h : Beside { m with held := .roots :: .threads :: m.held } m') (flag : Bool) :
    Beside m { m' with collecting := flag, held := (m'.held.erase .roots).erase .threads } := by
  refine ⟨⟨h.mode, h.roots, h.memory, h.symbols, h.running, h.waiting⟩, ?_, h.nextThread,
    h.nextBinding⟩
  dsimp only
  rw [h.held, List.erase_cons_head, List.erase_cons_head]

/-- A collection lowers the flag if it is completed, and leaves it raised if the collection of the heap
fails. -/
theorem Poised.collectLocked_cases (hp : Poised m) :
    (∃ stats collection heap m', Heap.collect m.traceRoots m.heap = .ok ((), collection) heap ∧
      collectLocked m = .ok stats m' ∧ Beside m m' ∧ m'.heap = heap ∧ m'.collecting = false) ∨
    ∃ fault heap m', Heap.collect m.traceRoots m.heap = .error fault heap ∧
      collectLocked m = .error fault m' ∧ Beside m m' ∧ m'.collecting = true := by
  have hinner : Guarded.roots ∉ ({ m with held := .threads :: m.held } : Machine γ).held := by
    simpa using hp.roots
  obtain ⟨m₂, hstop, hbeside₂, hheap, hflag₂⟩ :=
    stopWorld_eq (m := { m with held := .roots :: .threads :: m.held }) hp.stopped
  have hroots : m₂.traceRoots = m.traceRoots :=
    hbeside₂.traceRoots.trans (SameRoots.traceRoots ⟨rfl, rfl, rfl, rfl, rfl, rfl⟩)
  have hlocked : collectLocked m = _ := withLock_apply hp.threads _
  rw [withLock_apply hinner, bind_of_ok hstop] at hlocked
  have hcases := markAndSweep_cases m₂
  rw [hroots, hheap] at hcases
  obtain ⟨stats, collection, heap, m₃, hcollect, hrun, hbeside₃, hheap₃, -⟩ |
    ⟨fault, heap, m₃, hcollect, hrun, hbeside₃, hflag₃⟩ := hcases
  · rw [bind_of_ok hrun] at hlocked
    exact .inl ⟨stats, collection, heap, _, hcollect, hlocked,
      (hbeside₂.trans hbeside₃).released false, hheap₃, rfl⟩
  · rw [bind_of_error hrun] at hlocked
    exact .inr ⟨fault, heap, _, hcollect, hlocked,
      (hbeside₂.trans hbeside₃).released m₃.collecting, hflag₃.trans hflag₂⟩

/-! ## Afterwards -/

/-- With the flag down, a thread goes on. -/
theorem safepoint_of_lowered (h : m.collecting = false) : safepoint m = .ok () m := by
  unfold safepoint
  rw [bind_of_ok get_apply, if_neg (by simp [h])]
  rfl

theorem park_eq (m : Machine γ) : ∃ m', park m = .error .blocked m' := ⟨_, rfl⟩

/-- With the flag up, it waits for ever. -/
theorem safepoint_of_raised (h : m.collecting = true) : ∃ m', safepoint m = .error .blocked m' := by
  obtain ⟨m', hpark⟩ := park_eq m
  refine ⟨m', ?_⟩
  unfold safepoint
  rw [bind_of_ok get_apply, if_pos h]
  exact bind_of_error hpark

theorem resume_of_raised (h : m.collecting = true) : ∃ m', resume m = .error .blocked m' := by
  obtain ⟨m', hpark⟩ := park_eq { m with running := { m.running with state := .running } }
  refine ⟨m', ?_⟩
  unfold resume
  rw [bind_of_ok (setState_apply _), bind_of_ok get_apply]
  dsimp only
  rw [if_pos h]
  exact bind_of_error hpark

theorem allocateWith_of_raised (h : m.collecting = true) (finalize : Op γ Unit) {kind : Kind}
    (hkind : kind.isHeap = true) (words : Nat) :
    ∃ m', allocateWith finalize kind words m = .error .blocked m' := by
  obtain ⟨m', hsafepoint⟩ := safepoint_of_raised h
  refine ⟨m', ?_⟩
  have hexpect : expect kind.isHeap (fun _ => return "allocation of a " ++ kind.name) m
      = .ok () m := by
    rw [expect, if_pos hkind]
    rfl
  unfold allocateWith
  rw [bind_of_ok hexpect]
  exact bind_of_error hsafepoint

/-- A safe region does not end while the flag is up, whatever was done in it. -/
theorem safeRegion_of_raised {x : Op γ α} (hstate : m.running.state = .running)
    (hok : ∀ a m', x { m with running := { m.running with state := .safe } } = .ok a m' →
      m'.collecting = true)
    (herror : ∀ fault m', x { m with running := { m.running with state := .safe } } = .error fault m' →
      m'.collecting = true) :
    ∃ m', safeRegion x m = .error .blocked m' := by
  have hinside : (do setState .safe; x : Op γ α) m
      = x { m with running := { m.running with state := .safe } } := bind_of_ok (setState_apply _)
  unfold safeRegion
  rw [if_neg (by simp [hstate]), hinside]
  cases hx : x { m with running := { m.running with state := .safe } } with
  | ok a m₁ =>
    obtain ⟨m', hresume⟩ := resume_of_raised (hok a m₁ hx)
    exact ⟨m', by simp only [hresume]⟩
  | error fault m₁ =>
    obtain ⟨m', hresume⟩ := resume_of_raised (herror fault m₁ hx)
    exact ⟨m', by simp only [hresume]⟩

/-- No thread gets on, whichever of them runs: it stops at its next safepoint, at its next allocation
and at the end of a safe region. -/
structure Stalled (m : Machine γ) : Prop where
  safepoint : ∀ thread, ∃ m', safepoint { m with running := thread } = .error .blocked m'
  allocate : ∀ thread kind words, kind.isHeap = true →
    ∃ m', allocateWords kind words { m with running := thread } = .error .blocked m'
  safeRegion : ∀ thread, thread.state = .running →
    ∃ m', safeRegion (pure ()) { m with running := thread } = .error .blocked m'

/-- A machine is stalled exactly while the flag is up. -/
theorem stalled_iff : Stalled m ↔ m.collecting = true := by
  constructor
  · intro h
    refine Bool.not_eq_false _ ▸ fun hlowered => ?_
    obtain ⟨m', hblocked⟩ := h.safepoint m.running
    cases hblocked.symm.trans (safepoint_of_lowered hlowered)
  · intro h
    refine ⟨fun thread => safepoint_of_raised h, fun thread kind words hkind =>
      allocateWith_of_raised (m := { m with running := thread }) h _ hkind words,
      fun thread hstate => ?_⟩
    refine safeRegion_of_raised hstate (fun a m' hpure => ?_) fun fault m' hpure => ?_
    · cases hpure
      exact h
    · cases hpure

/-- A collection that is completed lowers the flag. One that fails while it traces the roots, marks or
sweeps lets go of its locks, but the machine is stalled from then on, until a collection is completed. -/
theorem Poised.collection_flag (hp : Poised m) :
    (∃ stats m', collectLocked m = .ok stats m' ∧ m'.held = m.held ∧ ¬ Stalled m') ∨
    ∃ fault heap m', Heap.collect m.traceRoots m.heap = .error fault heap ∧
      collectLocked m = .error fault m' ∧ m'.held = m.held ∧ Stalled m' := by
  obtain ⟨stats, collection, heap, m', -, hrun, hbeside, -, hflag⟩ |
    ⟨fault, heap, m', hcollect, hrun, hbeside, hflag⟩ := hp.collectLocked_cases
  · refine .inl ⟨stats, m', hrun, hbeside.held, fun hstalled => ?_⟩
    rw [stalled_iff.mp hstalled] at hflag
    cases hflag
  · exact .inr ⟨fault, heap, m', hcollect, hrun, hbeside.held, stalled_iff.mpr hflag⟩

/-- A machine that has one reference to an object, in its values register. -/
def holding (heap : Heap) (v : Value) : Machine Journal :=
  { narrowMachine.withControl { narrowMachine.running.control with values := [v] } with heap }

theorem poised_holding (heap : Heap) (v : Value) : Poised (holding heap v) :=
  ⟨List.forall_mem_nil _, List.not_mem_nil, List.not_mem_nil⟩

theorem Poised.collection_flag_holding :
    ∃ stats m', collectLocked (holding Heap.lonelyHeap (Value.ofAddress 0x7f0000000000))
      = .ok stats m' ∧ ¬ Stalled m' := by
  have hrun : returns (fun _ _ => true)
      (collectLocked (holding Heap.lonelyHeap (Value.ofAddress 0x7f0000000000))) = true := by
    decide +kernel
  obtain ⟨stats, m', hok, -, hgoes⟩ | ⟨fault, heap, m', -, herror, -⟩ :=
    (poised_holding Heap.lonelyHeap (Value.ofAddress 0x7f0000000000)).collection_flag
  · exact ⟨stats, m', hok, hgoes⟩
  · rw [herror] at hrun
    cases hrun

/-- A vector with a wrong length is enough to leave the flag raised. -/
theorem Poised.collection_flag_left_raised :
    ∃ fault m', collectLocked (holding Heap.spoiledHeap (Value.ofAddress 0x7f0000000000))
      = .error fault m' ∧ m'.held = [] ∧ Stalled m' := by
  have hrun : fails (fun _ m' => m'.held.isEmpty && m'.collecting)
      (collectLocked (holding Heap.spoiledHeap (Value.ofAddress 0x7f0000000000))) = true := by
    decide +kernel
  obtain ⟨fault, m', herror, hcheck⟩ := exists_of_fails hrun
  simp only [Bool.and_eq_true, List.isEmpty_iff] at hcheck
  exact ⟨fault, m', herror, hcheck.1, stalled_iff.mpr hcheck.2⟩

end Substrate.Machine

/-! ## Interleavings -/

namespace Substrate.Safepoint

variable {s t u : State} {thread other : Nat} {m : Move} {p q : Place}

/-- Whether a thread is about to collect, collects, or ends its collection. -/
def Place.drives : Place → Bool
  | .takingRegistry | .takingRoots | .raising | .watching _ | .collecting | .lowering | .waking
  | .leaving | .unlocking => true
  | _ => false

/-- Whether a thread has to find the flag lowered before it goes on. -/
def Place.isHalted : Place → Bool
  | .awaiting _ | .resuming _ | .rechecking _ | .stopping _ | .entering _ | .checking _ | .parking _
  | .parked _ | .exiting _ | .quitting _ => true
  | _ => false

theorem Place.drives_woken (p : Place) : p.woken.drives = p.drives := by
  cases p <;> rfl

theorem Place.isHalted_woken (p : Place) : p.woken.isHalted = p.isHalted := by
  cases p <;> rfl

/-- The flag is up, and nobody is there to lower it. -/
structure State.Deserted (s : State) : Prop where
  raised : s.flag = true
  idle : ∀ thread, (s.place thread).drives = false

/-- The thread goes from one place to another; it does not collect, and if it is halted, it does not
go on. -/
structure State.Stays (s t : State) (thread : Nat) (p q : Place) : Prop where
  place : t.place thread = q
  flag : t.flag = s.flag
  drives : q.drives = false
  halted : p.isHalted = true → q.isHalted = true

/-- What one step of a thread does while nobody collects. -/
theorem State.Deserted.move_cases (h : s.Deserted) (hm : m ≠ .collect)
    (step : s.move thread m = some t) : ∃ q, s.Stays t thread (s.place thread) q := by
  have hraised := h.raised
  have hidle := h.idle thread
  by_cases hsame : t = s
  · subst hsame
    exact ⟨_, rfl, rfl, hidle, id⟩
  unfold State.move State.act State.advance Purpose.refuge at step
  generalize hp : s.place thread = p at step hidle ⊢
  -- The lines that raise or lower the flag belong to the collector, and those that go on after a
  -- look at the flag find it raised.
  repeat' split at step
  all_goals cases step
  all_goals first
    | contradiction
    | exact ⟨_, if_pos rfl, rfl, rfl, by first | exact id | exact fun _ => rfl⟩

/-- As long as nobody begins another collection, nobody lowers the flag, and who is halted does not
go on. -/
theorem State.Deserted.move (h : s.Deserted) (hm : m ≠ .collect) (step : s.move thread m = some t) :
    t.Deserted ∧
      ∀ other, (s.place other).isHalted = true → (t.place other).isHalted = true := by
  obtain ⟨q, hstays⟩ := h.move_cases hm step
  obtain ⟨_, hturn⟩ := State.move_turn step
  refine ⟨⟨hstays.flag.trans h.raised, fun other => ?_⟩, fun other hhalted => ?_⟩
  · by_cases heq : other = thread
    · rw [heq, hstays.place]
      exact hstays.drives
    · rw [hturn.other_eq heq Place.drives Place.drives_woken]
      exact h.idle other
  · by_cases heq : other = thread
    · subst heq
      rw [hstays.place]
      exact hstays.halted hhalted
    · rwa [hturn.other_eq heq Place.isHalted Place.isHalted_woken]

/-- The states that a run leads to in which nobody begins a collection. -/
inductive Continues (s : State) : State → Prop where
  | refl : Continues s s
  | move {t u : State} {thread : Nat} {m : Move} (h : Continues s t) (hm : m ≠ .collect)
      (step : t.move thread m = some u) : Continues s u

theorem State.Deserted.run (h : s.Deserted) (hrun : Continues s t) :
    t.Deserted ∧
      ∀ other, (s.place other).isHalted = true → (t.place other).isHalted = true := by
  induction hrun with
  | refl => exact ⟨h, fun _ => id⟩
  | move _ hm step ih =>
    obtain ⟨hdeserted, hkept⟩ := ih
    obtain ⟨hdeserted', hkept'⟩ := hdeserted.move hm step
    exact ⟨hdeserted', fun other hhalted => hkept' other (hkept other hhalted)⟩

theorem State.move_fail (step : s.move thread .fail = some t) : t = s.goto thread .releasingRoots := by
  unfold State.move at step
  cases hp : s.place thread with
  | collecting =>
    rw [hp] at step
    exact (Option.some.inj step).symm
  | _ =>
    rw [hp] at step
    cases step

theorem State.move_poll (hraised : s.flag = true) (step : s.move thread .poll = some t) :
    t = s.goto thread (.stopping .mutate) := by
  unfold State.move at step
  cases hp : s.place thread with
  | mutating | safe =>
    rw [hp] at step
    simpa [State.act, hraised] using step.symm
  | _ =>
    rw [hp] at step
    cases step

/-- When the only collection under way dies, all threads are stalled, in whatever order they go on:
those that are halted never go on, and the others halt as soon as they look at the flag. -/
theorem State.fail_stalls (hraised : s.flag = true)
    (hothers : ∀ other, other ≠ thread → (s.place other).drives = false)
    (hfail : s.move thread .fail = some t) (hrun : Continues t u) :
    u.flag = true ∧
      (∀ other, (t.place other).isHalted = true → (u.place other).isHalted = true) ∧
      ∀ other v, u.move other .poll = some v → (v.place other).isHalted = true := by
  have hdeserted : t.Deserted := by
    rw [State.move_fail hfail]
    refine ⟨hraised, fun other => ?_⟩
    by_cases heq : other = thread
    · exact congrArg Place.drives (if_pos heq)
    · exact (congrArg Place.drives (if_neg heq)).trans (hothers other heq)
  obtain ⟨hlater, hkept⟩ := hdeserted.run hrun
  refine ⟨hlater.raised, hkept, fun other v step => ?_⟩
  rw [State.move_poll hlater.raised step]
  exact congrArg Place.isHalted (if_pos rfl)

end Substrate.Safepoint
