import Substrate.Proofs.Construct.Faults
import Substrate.Proofs.Machine.Recording

/-!
# Finalizers that are run again

When a finalizer fails, the run of the queue is broken off. The client may catch the fault and run what
is left of the queue, until there is nothing left (`Attempts`). Each finalizer that was queued, or came
to be queued meanwhile, is run once (`Accounted`). But an object is given up only if its finalizer came
to its end. If it did not, then the object outlives the next collection, and it is not given up by that
collection either (`Host.retried_finalizers`).
-/

namespace Substrate.Machine

variable {γ : Type} {m m' : Machine γ} {r r' : Machine (γ × List Performance)}

/-! ## Attempts -/

/-- One call that the client gets back from: it returns, or its fault is caught. Who waits for ever
catches nothing. -/
inductive Attempt (x : Op γ Unit) (m : Machine γ) : Machine γ → Prop where
  | returned {m' : Machine γ} (hrun : x m = .ok () m') : Attempt x m m'
  | caught {fault : Fault} {m' : Machine γ} (hrun : x m = .error fault m')
      (hfault : fault ≠ .blocked) : Attempt x m m'

/-- Any number of calls, one after the other. -/
abbrev Attempts (x : Op γ Unit) : Machine γ → Machine γ → Prop := Relation.ReflTransGen (Attempt x)

theorem Attempt.follows {x : Op γ Unit} (h : Attempt x m m') (hx : Recoverable x m) : Follows m m' := by
  cases h with
  | returned hrun => exact hx.of_ok hrun
  | caught hrun hfault => exact (hx.of_error hrun).resolve_left hfault

theorem Records.attempt {x' : Op (γ × List Performance) Unit} {x : Op γ Unit} (hx : Records x' x)
    (h : Attempt x r.forgetting m') :
    ∃ r', Attempt x' r r' ∧ r'.forgetting = m' ∧ Balanced r r' := by
  obtain ⟨hsame, hbalanced⟩ := hx r
  cases hrun : x' r with
  | ok _ r' =>
    rw [hrun] at hsame hbalanced
    have hplain : x r.forgetting = .ok () r'.forgetting := hsame.symm
    refine ⟨r', .returned hrun, ?_, hbalanced⟩
    cases h with
    | returned hrun' => cases hplain.symm.trans hrun'; rfl
    | caught hrun' => cases hplain.symm.trans hrun'
  | error fault r' =>
    rw [hrun] at hsame hbalanced
    have hplain : x r.forgetting = .error fault r'.forgetting := hsame.symm
    cases h with
    | returned hrun' => cases hplain.symm.trans hrun'
    | caught hrun' hfault =>
      cases hplain.symm.trans hrun'
      exact ⟨r', .caught hrun hfault, rfl, hbalanced⟩

/-- The books balance over any number of calls. -/
theorem Records.attempts {x' : Op (γ × List Performance) Unit} {x : Op γ Unit} (hx : Records x' x)
    (h : Attempts x r.forgetting m') :
    ∃ r', Attempts x' r r' ∧ r'.forgetting = m' ∧ Balanced r r' := by
  induction h with
  | refl => exact ⟨r, .refl, rfl, .refl r⟩
  | tail _ hlast ih =>
    obtain ⟨r₁, hattempts, rfl, hbalanced⟩ := ih
    obtain ⟨r', hattempt, hforgetting, hlater⟩ := hx.attempt hlast
    exact ⟨r', hattempts.tail hattempt, hforgetting, hbalanced.trans hlater⟩

/-! ## What is on record in the end -/

/-- Every finalizer that was queued, or has been queued meanwhile, was performed once. Of the objects
whose finalizers were performed, those are not given up whose finalizer did not come to its end. -/
structure Accounted (m : Machine γ) (performed : List Performance) (m' : Machine γ) : Prop where
  once : ∃ queued, m.heap.attached.Perm (queued ++ m'.heap.attached) ∧
    (performed.map (·.task)).Perm (m.heap.pending ++ queued)
  finalizing : m'.heap.finalizing.toList.Perm (unfinished performed ++ m.heap.finalizing.toList)

theorem Balanced.accounted (h : Balanced (m.recording []) r') (hempty : r'.heap.pending = []) :
    Accounted m r'.client.2 r'.forgetting := by
  obtain ⟨performed, queued, hclient, hattached, hpending, hfinalizing⟩ := h.balance
  obtain rfl : r'.client.2 = performed := hclient.trans (List.append_nil performed)
  rw [hempty, List.append_nil] at hpending
  exact ⟨⟨queued, hattached, hpending.symm⟩, hfinalizing⟩

namespace Host

variable {host : Host} {frames : List Value} {fuel : Nat}

/-- A run with enough fuel that returns leaves nothing in the queue. -/
theorem finalizeWith_empties (hfuel : r.heap.finalizerCount ≤ fuel)
    (hrun : host.finalizeWith fuel frames r.forgetting = .ok () m') : m'.heap.pending = [] := by
  induction fuel generalizing r with
  | zero =>
    cases hrun
    rw [Heap.finalizerCount] at hfuel
    exact List.length_eq_zero_iff.mp (show r.heap.pending.length = 0 by omega)
  | succ fuel ih =>
    by_cases hheld : Guarded.heap ∈ r.held
    · cases hrun.symm.trans (finalizeWith_held (m := r.forgetting) hheld)
    by_cases hpending : r.heap.pending = []
    · cases hrun.symm.trans (finalizeWith_nil (m := r.forgetting) hheld hpending)
      exact hpending
    · obtain ⟨r₁, hbalanced, hlength, ⟨-, hplain⟩ | ⟨fault, -, hplain⟩⟩ :=
        recordWith_step frames hheld hpending (records_finalizeWith host fuel)
      · have hcount := hbalanced.count
        exact ih (by omega) (hplain.symm.trans hrun)
      · cases hplain.symm.trans hrun

/-- A call that returns leaves nothing in the queue. -/
theorem runFinalizers_empties (hrun : host.runFinalizers frames m = .ok () m') :
    m'.heap.pending = [] :=
  finalizeWith_empties (r := m.recording []) (Nat.le_refl _) hrun

/-- If there is something to run, then there is fuel. -/
theorem exists_fuel (hpending : m.heap.pending ≠ []) :
    ∃ fuel, m.heap.finalizerCount = fuel + 1 := by
  have hlength := List.length_pos_iff.mpr hpending
  exact ⟨m.heap.finalizerCount - 1, by rw [Heap.finalizerCount]; omega⟩

theorem runFinalizers_held (hheld : Guarded.heap ∈ m.held) (hpending : m.heap.pending ≠ []) :
    host.runFinalizers frames m = .error .blocked m := by
  obtain ⟨fuel, hfuel⟩ := exists_fuel hpending
  rw [runFinalizers, bind_of_ok get_apply, hfuel, finalizeWith_held hheld]

/-- If there is something to run, then something is run. -/
theorem recordFinalizers_performs (hfree : Guarded.heap ∉ r.held) (hpending : r.heap.pending ≠ []) :
    r.client.2.length < (ending (host.recordFinalizers frames r)).client.2.length := by
  obtain ⟨fuel, hfuel⟩ := exists_fuel hpending
  obtain ⟨r₁, -, hlength, ⟨hstep, -⟩ | ⟨fault, hstep, -⟩⟩ :=
    recordWith_step frames hfree hpending (records_finalizeWith host fuel)
  · rw [recordFinalizers, bind_of_ok get_apply, hfuel, hstep]
    exact Nat.lt_of_lt_of_le hlength (records_finalizeWith host fuel frames r₁).balanced.length_le
  · rwa [recordFinalizers, bind_of_ok get_apply, hfuel, hstep]

/-- And that leaves fewer finalizers. -/
theorem finalizerCount_runFinalizers (host : Host) (frames : List Value)
    (hfree : Guarded.heap ∉ m.held) (hpending : m.heap.pending ≠ []) :
    (ending (host.runFinalizers frames m)).heap.finalizerCount < m.heap.finalizerCount := by
  obtain ⟨hsame, hbalanced⟩ := records_runFinalizers host frames (m.recording [])
  have hperforms : 0 < (ending (host.recordFinalizers frames (m.recording []))).client.2.length :=
    recordFinalizers_performs (r := m.recording []) hfree hpending
  have hcount : _ = m.heap.finalizerCount + 0 := hbalanced.count
  have hheap : (ending (host.runFinalizers frames m)).heap
      = (ending (host.recordFinalizers frames (m.recording []))).heap := by
    rw [show host.runFinalizers frames m = _ from hsame.symm]
    cases host.recordFinalizers frames (m.recording []) <;> rfl
  rw [hheap]
  omega

/-! ## Calls until the queue is empty -/

theorem Agrees.attempt {x y : Op γ Unit} (hagrees : host.Agrees x y)
    (hhonest : host.Honest m.heap.space) (h : Attempt y m m') :
    Attempt x m m' ∧ host.Honest m'.heap.space := by
  cases h with
  | returned hrun =>
    obtain ⟨hsame, hlater⟩ := hagrees.of_ok hhonest hrun
    exact ⟨.returned hsame, hlater⟩
  | caught hrun hfault =>
    obtain ⟨hsame, hlater⟩ := hagrees.of_error hhonest hrun
    exact ⟨.caught hsame hfault, hlater⟩

/-- On an honest host, everything goes on in order from one call to the next. -/
theorem Ready.attempts (hr : Ready host m) (hhonest : host.Honest m.heap.space)
    (h : Attempts (host.runFinalizers frames) m m') :
    Follows m m' ∧ host.Honest m'.heap.space := by
  induction h with
  | refl => exact ⟨.refl hr.toSound, hhonest⟩
  | tail _ hlast ih =>
    obtain ⟨hfollows, hhonest⟩ := ih
    have hready := hr.after hfollows
    have hguarded : Ready host.guarded _ := ⟨hready.toSound, hready.scannable, hready.interns⟩
    obtain ⟨hattempt, hlater⟩ := (agrees_runFinalizers frames).attempt hhonest hlast
    exact ⟨hfollows.trans (hattempt.follows
      (recoverable_runFinalizers host.scrupulous_guarded frames hguarded)), hlater⟩

/-- Whoever tries again gets to the end of the queue, or waits for ever. -/
theorem attempts_end (host : Host) (m : Machine γ) (frames : List Value) :
    (∃ m', Attempts (host.runFinalizers frames) m m' ∧ m'.heap.pending = []) ∨
      ∃ m₁ m₂, Attempts (host.runFinalizers frames) m m₁ ∧
        host.runFinalizers frames m₁ = .error .blocked m₂ := by
  induction hcount : m.heap.finalizerCount using Nat.strong_induction_on generalizing m with
  | _ count ih =>
    by_cases hpending : m.heap.pending = []
    · exact .inl ⟨m, .refl, hpending⟩
    by_cases hblocked : ∃ m₂, host.runFinalizers frames m = .error .blocked m₂
    · obtain ⟨m₂, hblocked⟩ := hblocked
      exact .inr ⟨m, m₂, .refl, hblocked⟩
    have hattempt : Attempt (host.runFinalizers frames) m (ending (host.runFinalizers frames m)) := by
      cases hrun : host.runFinalizers frames m with
      | ok _ m₁ => exact .returned hrun
      | error fault m₁ => exact .caught hrun fun hfault => hblocked ⟨m₁, hfault ▸ hrun⟩
    have hfree : Guarded.heap ∉ m.held := fun hheld =>
      hblocked ⟨m, runFinalizers_held hheld hpending⟩
    have hfewer := finalizerCount_runFinalizers host frames hfree hpending
    obtain ⟨m', hlater, hempty⟩ | ⟨m₁, m₂, hlater, hwaits⟩ := ih _ (hcount ▸ hfewer) _ rfl
    · exact .inl ⟨m', .head hattempt hlater, hempty⟩
    · exact .inr ⟨m₁, m₂, .head hattempt hlater, hwaits⟩

/-! ## The next collection -/

/-- References lead to the object from the roots or the frames, from these values, or from an object
whose finalizer is due because nothing of that refers to it. -/
def Spared (m : Machine γ) (frames values : List Value) (a : Nat) : Prop :=
  m.heap.space.Reaches (fun a =>
    (∃ call ∈ m.callsWith frames, call.Names m.heap.space m.heap.options.interiorPointers a) ∨
    (∃ v ∈ values, v.RefersTo a) ∨ m.heap.Due (m.callsWith frames) a) a

theorem Spared.of_subset {values values' : List Value} {a : Nat} (h : Spared m frames values a)
    (hsub : values ⊆ values') : Spared m frames values' a := by
  refine Space.Reaches.mono (fun a ha => .root ?_) h
  obtain hcall | ⟨v, hv, hrefers⟩ | hdue := ha
  · exact .inl hcall
  · exact .inr (.inl ⟨v, hsub hv, hrefers⟩)
  · exact .inr (.inr hdue)

/-- With an empty queue, the next collection is completed. What it spares is there afterwards, and it
gives up no object whose finalizer has not come to its end. -/
theorem collection_total (host : Host) (hs : Sound m) (hc : Collectable m)
    (hfree : Guarded.heap ∉ m.held) (hempty : m.heap.pending = []) (frames : List Value) :
    ∃ stats m', withLock .heap (host.collectLocked frames) m = .ok stats m' ∧
      m'.heap.finalizing = m.heap.finalizing ∧
      ∀ a, (m'.heap.space.object? a).isSome ↔
        Spared m (host.seen frames) m.heap.finalizing.toList a := by
  obtain ⟨stats, m₁, hrun⟩ := collectLocked_total host frames (hs.locked .heap) hc.locked
  obtain ⟨-, collection, hcollect⟩ :=
    host.collects_of_collectLocked (m := { m with held := .heap :: m.held }) hs.mode hrun
  obtain ⟨_, heap, hcollect', hsurvives⟩ := hs.wellFormed.collect (hs.permitted (host.seen frames))
  obtain rfl : m₁.heap = heap := by
    cases hcollect.symm.trans hcollect'
    rfl
  obtain ⟨queued, -, -, hfinalizing⟩ := Heap.queues_collect
    (RootCall.runAll m.heap.mode (m.callsWith (host.seen frames))) m.heap
  rw [hcollect'] at hfinalizing
  refine ⟨stats, { m₁ with held := m₁.held.erase .heap }, by rw [withLock_apply hfree, hrun],
    hfinalizing, fun a => (hsurvives.live a).trans ?_⟩
  constructor <;> refine Space.Reaches.mono fun a ha => .root ?_
  · obtain (hcall | ⟨entry, hentry, -⟩ | hv) | hdue := ha
    · exact .inl hcall
    · rw [hempty] at hentry
      cases hentry
    · exact .inr (.inl hv)
    · exact .inr (.inr hdue)
  · obtain hcall | hv | hdue := ha
    · exact .inl (.inl hcall)
    · exact .inl (.inr (.inr hv))
    · exact .inr hdue

/-- A call that returns has emptied the queue. Whoever catches the faults of finalizers and runs the rest
of the queue until it is empty gets there, unless a finalizer waits for ever. Then every finalizer that
was queued at the beginning, or came to be queued on the way, has been performed once, whether it came to
its end or not.

If the machine was in order and the thread can collect, then the next collection is completed. It leaves
the objects that it spares, among them those whose finalizers did not come to their end, whatever refers
to them, and it does not give them up either. Whatever else has been finalized is reclaimed. -/
theorem retried_finalizers (host : Host) (m : Machine γ) (frames : List Value) :
    (∀ m', host.runFinalizers frames m = .ok () m' → m'.heap.pending = []) ∧
    ((∃ m', Attempts (host.runFinalizers frames) m m' ∧ m'.heap.pending = []) ∨
      ∃ m₁ m₂, Attempts (host.runFinalizers frames) m m₁ ∧
        host.runFinalizers frames m₁ = .error .blocked m₂) ∧
    ∀ m', Attempts (host.runFinalizers frames) m m' → m'.heap.pending = [] →
      ∃ performed, Attempts (host.recordFinalizers frames) (m.recording []) (m'.recording performed) ∧
        Accounted m performed m' ∧
        (host.Honest m.heap.space → Ready host m → Poised m → Guarded.heap ∉ m.held →
          ∀ later : List Value, ∃ stats m'',
            withLock .heap (host.collectLocked later) m' = .ok stats m'' ∧
            host.collect later m' = (do host.runFinalizers later; return stats : Op γ Stats) m'' ∧
            m''.heap.finalizing = m'.heap.finalizing ∧
            ∀ a, (m''.heap.space.object? a).isSome ↔
              Spared m' (host.seen later) (unfinished performed ++ m.heap.finalizing.toList) a) := by
  refine ⟨fun m' => runFinalizers_empties, attempts_end host m frames, fun m' hattempts hempty => ?_⟩
  obtain ⟨r', hrecorded, rfl, hbalanced⟩ :=
    (records_runFinalizers host frames).attempts (r := m.recording []) hattempts
  have haccounted := hbalanced.accounted hempty
  refine ⟨r'.client.2, hrecorded, haccounted, fun hhonest hr hp hfree later => ?_⟩
  obtain ⟨hfollows, -⟩ := hr.attempts hhonest hattempts
  have hcollectable : Collectable m := ⟨hp, hr.scannable⟩
  obtain ⟨stats, m'', hrun, hfinalizing, hlive⟩ := collection_total host hfollows.sound
    (hcollectable.around hfollows.around) (hfollows.around.held ▸ hfree) hempty later
  refine ⟨stats, m'', hrun, bind_of_ok hrun, hfinalizing, fun a =>
    (hlive a).trans ⟨fun h => ?_, fun h => ?_⟩⟩
  · exact h.of_subset haccounted.finalizing.subset
  · exact h.of_subset haccounted.finalizing.symm.subset

end Host

/-! ## A finalizer that fails -/

/-- A vector that nothing refers to, with a finalizer that fails. -/
def failingHeap : Heap :=
  { disturbedHeap with
    finalizers := disturbedHeap.finalizers.map fun entry => (entry.1, [.fail (.panic "no such file")]) }

def failingMachine : Machine Unit :=
  { smallMachine with heap := failingHeap }

theorem ready_failingMachine : (Host.shy true).Ready failingMachine := by
  have hw := sound_disturbedMachine.wellFormed
  have hfailing : failingHeap.WellFormed := by
    refine ⟨hw.valid, hw.traceable, hw.unmarked, fun entry hentry => ?_, hw.pending, hw.finalizing⟩
    obtain ⟨attached, hattached, rfl⟩ := List.mem_map.mp hentry
    exact hw.finalizers attached hattached
  have hsound : Sound failingMachine :=
    sound_of_start (show Machine.start .debug smallOptions () = .ok smallMachine from rfl) hfailing
      sound_disturbedMachine.mode
  exact ⟨hsound, fun _ => List.forall_mem_nil _, .inl rfl⟩

/-- A collection has queued the finalizer. -/
def queuedMachine : Machine Unit :=
  ending (withLock .heap ((Host.shy true).collectLocked []) failingMachine)

theorem ready_queuedMachine : (Host.shy true).Ready queuedMachine := by
  have hr := ready_failingMachine
  have hlocked := hr.locked .heap
  have hrecoverable : Recoverable (withLock .heap ((Host.shy true).collectLocked [])) failingMachine :=
    recoverable_withLock (hlocked.collectLocked [])
  obtain ⟨m', hblocked⟩ | hfollows := hrecoverable
  · have hcompleted : returns (fun _ _ => true)
        (withLock .heap ((Host.shy true).collectLocked []) failingMachine) = true := by decide +kernel
    rw [hblocked] at hcompleted
    cases hcompleted
  · exact hr.after hfollows

theorem not_inUse_of_rootless {frames : List Value} {a : Nat} (hcalls : m.callsWith frames = []) :
    ¬ m.InUse frames a := by
  intro huse
  induction huse with
  | root hroot =>
    obtain ⟨call, hcall, -⟩ := hroot
    rw [hcalls] at hcall
    cases hcall
  | step _ _ _ ih => exact ih

/-- The finalizer fails, and the queue is empty. Nothing refers to the vector, which a collection then
leaves alone. -/
theorem queuedMachine_fails : ∃ m', Attempt ((Host.shy true).runFinalizers []) queuedMachine m' ∧
    m'.heap.pending = [] ∧ m'.callsWith [] = [] ∧ m'.heap.finalizing.size = 1 ∧
    ∃ entry ∈ queuedMachine.heap.pending, ∃ stats m'',
      withLock .heap ((Host.shy true).collectLocked []) m' = .ok stats m'' ∧
        m''.heap.isLive entry.1 = true := by
  have hrun : fails (fun fault m' => (fault == .panic "no such file" && m'.heap.pending.isEmpty &&
        (m'.callsWith []).isEmpty && m'.heap.finalizing.size == 1) &&
      returns (fun _ m'' => queuedMachine.heap.pending.any fun entry => m''.heap.isLive entry.1)
        (withLock .heap ((Host.shy true).collectLocked []) m'))
      ((Host.shy true).runFinalizers [] queuedMachine) = true := by decide +kernel
  obtain ⟨fault, m', hfails, hcheck⟩ := exists_of_fails hrun
  obtain ⟨hstate, hcollect⟩ := (Bool.and_eq_true_iff ..).mp hcheck
  simp only [Bool.and_eq_true, List.isEmpty_iff, beq_iff_eq] at hstate
  obtain ⟨⟨⟨rfl, hempty⟩, hcalls⟩, hsize⟩ := hstate
  obtain ⟨stats, m'', hcompleted, hany⟩ := exists_of_returns hcollect
  obtain ⟨entry, hentry, hlive⟩ := List.any_eq_true.mp hany
  exact ⟨m', .caught hfails nofun, hempty, hcalls, hsize, entry, hentry, stats, m'', hcompleted, hlive⟩

/-- One finalizer is performed, and it does not come to its end. -/
theorem Host.retried_finalizers_queuedMachine :
    ∃ m' performed, Attempts ((shy true).runFinalizers []) queuedMachine m' ∧ m'.heap.pending = [] ∧
      Accounted queuedMachine performed m' ∧ (unfinished performed).length = 1 ∧
      ∃ stats m'', withLock .heap ((shy true).collectLocked []) m' = .ok stats m'' := by
  obtain ⟨m', hattempt, hempty, -, hsize, -⟩ := queuedMachine_fails
  obtain ⟨hstopped, hthreads, hroots, hfree, hnone⟩ :
      (∀ thread ∈ queuedMachine.waiting, thread.state ≠ .running) ∧
        Guarded.threads ∉ queuedMachine.held ∧ Guarded.roots ∉ queuedMachine.held ∧
        Guarded.heap ∉ queuedMachine.held ∧ queuedMachine.heap.finalizing.toList = [] := by
    decide +kernel
  obtain ⟨-, -, hall⟩ := retried_finalizers (shy true) queuedMachine []
  obtain ⟨performed, -, haccounted, hlater⟩ := hall m' (.single hattempt) hempty
  obtain ⟨stats, m'', hcollect, -⟩ := hlater ((scrupulous_shy true).honest _)
    ready_queuedMachine ⟨hstopped, hthreads, hroots⟩ hfree []
  refine ⟨m', performed, .single hattempt, hempty, haccounted, ?_, stats, m'', hcollect⟩
  have hlength := haccounted.finalizing.length_eq
  rw [hnone, List.append_nil] at hlength
  exact hlength.symm.trans hsize

/-- The vector survives, although it is not in use. -/
theorem Host.failed_finalizer_pins :
    ¬∀ (host : Host) (m m' m'' : Machine Unit) (stats : Stats), host.Scrupulous → Ready host m →
      Attempts (host.runFinalizers []) m m' → m'.heap.pending = [] →
      withLock .heap (host.collectLocked []) m' = .ok stats m'' →
      ∀ entry ∈ m.heap.pending, m''.heap.isLive entry.1 = true →
        m'.InUse (host.seen []) entry.1.address := by
  intro hclaim
  obtain ⟨m', hattempt, hempty, hcalls, -, entry, hentry, stats, m'', hcollect, hlive⟩ :=
    queuedMachine_fails
  have huse := hclaim (shy true) queuedMachine m' m'' stats (scrupulous_shy true) ready_queuedMachine
    (.single hattempt) hempty hcollect entry hentry hlive
  refine not_inUse_of_rootless ?_ huse
  rwa [seen_of_scans _ rfl]

end Substrate.Machine
