import Substrate.Proofs.Construct.Settling
import Substrate.Proofs.Machine.Unlocked

/-!
# Order after a fault

A finalizer may fail anywhere: in an action that fails, in a collection or an allocation that it asks
for, in a finalizer that runs on the way. Whoever catches the fault goes on with the machine that is left
behind. An operation is `Recoverable` if this machine is in order, unless the thread waits for ever.
Runs of finalizers are recoverable (`Host.recoverable_runFinalizers`) if registered regions can be
scanned, and if native stacks are, or no finalizer makes a symbol.
-/

namespace Substrate.Machine

variable {γ α β : Type} {m m' m'' : Machine γ} {frames : List Value} {fault : Fault}

/-! ## Machines in order, with or without a fault -/

/-- The machine has gone on, and it is in order. What was in use may be gone. -/
structure Follows (m m' : Machine γ) : Prop where
  sound : Sound m'
  around : Around m m'

theorem Follows.refl (hs : Sound m) : Follows m m := ⟨hs, .refl m⟩

theorem Follows.trans (h : Follows m m') (h' : Follows m' m'') : Follows m m'' :=
  ⟨h'.sound, h.around.trans h'.around⟩

theorem Passes.follows (h : Passes frames m m') : Follows m m' := ⟨h.sound, h.around⟩

/-- Nothing that a collection looks at has changed. -/
theorem follows_of_heap (hs : Sound m) (haround : Around m m') (hheap : m'.heap = m.heap)
    (hsymbols : m'.symbols = m.symbols) : Follows m m' :=
  have hpasses : Passes [] m m' := .of_heap hs haround hheap hsymbols
  hpasses.follows

/-- A lock that is let go again makes no difference. -/
theorem Follows.unlocked {lock : Guarded} (h : Follows { m with held := lock :: m.held } m') :
    Follows m { m' with held := m'.held.erase lock } := by
  obtain ⟨hs, haround⟩ := h
  exact ⟨⟨⟨hs.heap, hs.mode, hs.control, hs.symbols⟩, hs.traceable, hs.locations, hs.texts⟩,
    haround.mode, haround.heapMode, haround.options, haround.roots, haround.memory, haround.running,
    haround.waiting, by simp [haround.held], haround.nextThread, haround.numbers, haround.interns⟩

/-- However the operation ends, the machine is in order, unless the thread waits for ever. -/
def Recoverable (x : Op γ α) (m : Machine γ) : Prop :=
  (∃ m', x m = .error .blocked m') ∨ Follows m (ending (x m))

theorem recoverable_of_ok {x : Op γ α} {a : α} (hrun : x m = .ok a m') (h : Follows m m') :
    Recoverable x m :=
  .inr (by rwa [hrun])

theorem recoverable_of_error {x : Op γ α} (hrun : x m = .error fault m')
    (h : fault = .blocked ∨ Follows m m') : Recoverable x m := by
  obtain rfl | hfollows := h
  · exact .inl ⟨m', hrun⟩
  · exact .inr (by rwa [hrun])

theorem Recoverable.of_ok {x : Op γ α} {a : α} (h : Recoverable x m) (hrun : x m = .ok a m') :
    Follows m m' := by
  obtain ⟨m₁, hblocked⟩ | hfollows := h
  · cases hrun.symm.trans hblocked
  · rwa [hrun] at hfollows

theorem Recoverable.of_error {x : Op γ α} (h : Recoverable x m) (hrun : x m = .error fault m') :
    fault = .blocked ∨ Follows m m' := by
  obtain ⟨m₁, hblocked⟩ | hfollows := h
  · cases hrun.symm.trans hblocked
    exact .inl rfl
  · exact .inr (by rwa [hrun] at hfollows)

theorem recoverable_pure (hs : Sound m) (a : α) : Recoverable (pure a : Op γ α) m := .inr (.refl hs)

theorem recoverable_get (hs : Sound m) : Recoverable (get : Op γ (Machine γ)) m := .inr (.refl hs)

theorem recoverable_raise (hs : Sound m) (fault : Fault) : Recoverable (raise fault : Op γ α) m := by
  cases fault with
  | fatal kind message =>
    exact .inr (follows_of_heap hs (.noted _ _) rfl rfl)
  | panic message => exact .inr (.refl hs)
  | blocked => exact .inl ⟨m, rfl⟩

theorem recoverable_ofExcept (hs : Sound m) (result : Except Fault α) :
    Recoverable (ofExcept result : Op γ α) m := by
  cases result with
  | ok a => exact recoverable_pure hs a
  | error fault => exact recoverable_raise hs fault

theorem recoverable_safepoint (hs : Sound m) : Recoverable (safepoint : Op γ Unit) m := by
  cases hrun : safepoint m with
  | ok _ m' =>
    obtain rfl := of_safepoint hrun
    exact recoverable_of_ok hrun (.refl hs)
  | error fault m' => exact recoverable_of_error hrun (.inl (error_of_safepoint hrun))

theorem recoverable_withLock {lock : Guarded} {x : Op γ α}
    (hx : Recoverable x { m with held := lock :: m.held }) : Recoverable (withLock lock x) m := by
  by_cases hheld : lock ∈ m.held
  · exact .inl ⟨m, withLock_of_held hheld x⟩
  obtain ⟨m₁, hblocked⟩ | hfollows := hx
  · exact .inl ⟨_, by rw [withLock_apply hheld, hblocked]⟩
  · exact .inr (by rw [ending_withLock x hheld]; exact hfollows.unlocked)

/-! ## Collections -/

namespace Host

variable {host : Host}

/-- A thread that is not poised for a collection waits for ever if it collects. -/
theorem collectLocked_blocked (host : Host) (frames : List Value) (hpoised : ¬ Poised m) :
    ∃ m', host.collectLocked frames m = .error .blocked m' := by
  unfold collectLocked
  by_cases hthreads : Guarded.threads ∈ m.held
  · exact ⟨m, withLock_of_held hthreads _⟩
  by_cases hroots : Guarded.roots ∈ m.held
  · rw [withLock_apply hthreads, withLock_of_held (List.mem_cons_of_mem _ hroots)]
    exact ⟨_, rfl⟩
  · have hinner : Guarded.roots ∉ ({ m with held := .threads :: m.held } : Machine γ).held := by
      simpa using hroots
    obtain ⟨m₁, hstop⟩ :=
      stopWorld_blocked (m := { m with held := .roots :: .threads :: m.held })
        fun hstopped => hpoised ⟨hstopped, hthreads, hroots⟩
    rw [withLock_apply hthreads, withLock_apply hinner, bind_of_error hstop]
    exact ⟨_, rfl⟩

theorem recoverable_collectLocked (host : Host) (frames : List Value) (hs : Sound m)
    (hscannable : Scannable m) : Recoverable (host.collectLocked frames) m := by
  by_cases hpoised : Poised m
  · obtain ⟨stats, m', hrun⟩ := collectLocked_total host frames hs ⟨hpoised, hscannable⟩
    exact recoverable_of_ok hrun (host.passes_collectLocked hs hrun).1.follows
  · exact .inl (host.collectLocked_blocked frames hpoised)

/-! ## Allocations and constructors -/

/-- The machine is in order, its regions can be scanned, and what a finalizer that makes a symbol has in
its hands is found in its native frame. -/
structure Ready (host : Host) (m : Machine γ) : Prop extends Sound m where
  scannable : Scannable m
  interns : host.scans = true ∨ ∀ text, ¬ m.heap.Interns text

theorem Ready.after (hr : Ready host m) (h : Follows m m') : Ready host m' := by
  obtain ⟨hs, haround⟩ := h
  refine ⟨hs, ?_, hr.interns.imp_right fun hnone text htext => hnone text (haround.interns text htext)⟩
  rw [Scannable, haround.mode, haround.roots]
  exact hr.scannable

theorem Ready.locked (hr : Ready host m) (lock : Guarded) :
    Ready host { m with held := lock :: m.held } :=
  ⟨hr.toSound.locked lock, hr.scannable, hr.interns⟩

theorem Ready.bind {x : Op γ α} {f : α → Op γ β} (hr : Ready host m) (hx : Recoverable x m)
    (hf : ∀ a m₁, x m = .ok a m₁ → Ready host m₁ → Recoverable (f a) m₁) : Recoverable (x >>= f) m := by
  cases hrun : x m with
  | ok a m₁ =>
    have hfollows := hx.of_ok hrun
    obtain ⟨m₂, hblocked⟩ | hlater := hf a m₁ hrun (hr.after hfollows)
    · exact .inl ⟨m₂, by rw [bind_of_ok hrun, hblocked]⟩
    · exact .inr (by rw [bind_of_ok hrun]; exact hfollows.trans hlater)
  | error fault m₁ => exact recoverable_of_error (bind_of_error hrun) (hx.of_error hrun)

theorem Ready.discard {x : Op γ α} (hr : Ready host m) (hx : Recoverable x m) :
    Recoverable (discard x : Op γ PUnit) m :=
  hr.bind hx fun _ _ _ hr₁ => recoverable_pure hr₁.toSound _

theorem Ready.collectLocked (hr : Ready host m) (frames : List Value) :
    Recoverable (host.collectLocked frames) m :=
  recoverable_collectLocked host frames hr.toSound hr.scannable

section

variable {kind : Kind} {words : Nat} (hhost : host.Scrupulous)
include hhost

theorem recoverable_tryAllocate (hs : Sound m) (hkind : kind.isHeap = true) :
    Recoverable (host.tryAllocate kind words) m := by
  cases hrun : host.tryAllocate kind words m with
  | ok result m' =>
    have hpasses : Passes [] m m' := passes_tryAllocate hs (hhost.honest _) hkind hrun
    exact recoverable_of_ok hrun hpasses.follows
  | error fault m' => exact absurd hrun (not_error_of_tryAllocate hs (hhost.honest _))

theorem recoverable_claim (hr : Ready host m) (hkind : kind.isHeap = true) :
    Recoverable (host.claim frames kind words) m := by
  refine hr.bind (recoverable_tryAllocate hhost hr.toSound hkind) fun result m₁ _ hr₁ => ?_
  cases result with
  | some v => exact recoverable_pure hr₁.toSound v
  | none =>
    refine hr₁.bind (hr₁.discard (hr₁.collectLocked frames)) fun _ m₂ _ hr₂ =>
      hr₂.bind (recoverable_tryAllocate hhost hr₂.toSound hkind) fun result m₃ _ hr₃ => ?_
    cases result with
    | some v => exact recoverable_pure hr₃.toSound v
    | none =>
      exact hr₃.bind (recoverable_get hr₃.toSound) fun _ _ _ hr₄ => recoverable_raise hr₄.toSound _

theorem recoverable_allocateLocked (hr : Ready host m) (hkind : kind.isHeap = true) :
    Recoverable (host.allocateLocked frames kind words) m := by
  refine hr.bind (recoverable_get hr.toSound) fun _ m₁ _ hr₁ =>
    hr₁.bind (recoverable_ofExcept hr₁.toSound _) fun due m₂ _ hr₂ => ?_
  cases due with
  | false => exact recoverable_claim hhost hr₂ hkind
  | true =>
    exact hr₂.bind (hr₂.discard (hr₂.collectLocked frames)) fun _ _ _ hr₃ =>
      recoverable_claim hhost hr₃ hkind

variable {finalize : List Value → Op γ Unit} {form : Form} {text : String}
  (hfinalize : ∀ frames m, Ready host m → Recoverable (finalize frames) m)
include hfinalize

theorem recoverable_allocateWith (hr : Ready host m) (hkind : kind.isHeap = true) :
    Recoverable (host.allocateWith finalize frames kind words) m := by
  have hexpect : Recoverable (expect kind.isHeap fun _ => return "allocation of a " ++ kind.name) m := by
    rw [expect, if_pos hkind]
    exact recoverable_pure hr.toSound ()
  refine hr.bind hexpect fun _ m₁ _ hr₁ => hr₁.bind (recoverable_safepoint hr₁.toSound) fun _ m₂ _ hr₂ =>
    hr₂.bind (recoverable_withLock (recoverable_allocateLocked hhost (hr₂.locked .heap) hkind))
      fun v m₃ _ hr₃ => hr₃.bind (recoverable_get hr₃.toSound) fun _ m₄ _ hr₄ => ?_
  split
  · exact hr₄.bind (hfinalize _ _ hr₄) fun _ _ _ hr₅ => recoverable_pure hr₅.toSound v
  · exact recoverable_pure hr₄.toSound v

omit hhost in
theorem recoverable_collectWith (hr : Ready host m) : Recoverable (host.collectWith finalize frames) m :=
  hr.bind (recoverable_withLock ((hr.locked .heap).collectLocked frames)) fun _ _ _ hr₁ =>
    hr₁.bind (hfinalize _ _ hr₁) fun _ _ _ hr₂ => recoverable_pure hr₂.toSound _

section

variable (hscans : host.scans = true) (hpassing : Passing finalize)
include hscans hpassing

/-- Filling in an object does not fail, so a constructor fails if its allocation does. -/
theorem recoverable_build (hr : Ready host m) (hkind : form.kind.isHeap = true)
    (hfits : m.mode = .debug ∨ form.Fits)
    (hparts : ∀ part ∈ form.parts, part.isHeapRef = true → m.InUse frames part.address) :
    Recoverable (form.build (host.allocateWith finalize frames)) m := by
  have hcareful : host.Careful finalize frames form.kind form.size m := .inl ⟨hscans, hpassing⟩
  cases hrun : form.build (host.allocateWith finalize frames) m with
  | ok v m' =>
    rw [← host.seen_of_scans hscans frames] at hparts
    have hbuilds := build_spec hr.toSound hhost hkind hcareful hfits hparts hrun
    exact recoverable_of_ok hrun hbuilds.passes.follows
  | error fault m' =>
    refine recoverable_of_error hrun ?_
    unfold Form.build at hrun
    rw [bind_of_ok get_apply] at hrun
    obtain hwords | ⟨words, m₁, hwords, hrest⟩ := error_of_bind hrun
    · exact (recoverable_ofExcept hr.toSound _).of_error hwords
    obtain ⟨hasked, rfl⟩ := of_ofExcept hwords
    obtain rfl := Form.words_eq hfits hasked
    obtain hallocate | ⟨v, m₂, hallocate, hrest⟩ := error_of_bind hrest
    · exact (recoverable_allocateWith hhost hfinalize hr hkind).of_error hallocate
    have hgives := allocateWith_gives hr.toSound hhost hkind hcareful hallocate
    obtain ⟨header, hheaderKind, hheaderWords, hzero⟩ := hgives.holds
    obtain ⟨m₃, index, hfill, -⟩ :=
      Form.fill_spec hzero hheaderKind hheaderWords (hheaderWords ▸ hgives.limit)
    rw [bind_of_ok hfill] at hrest
    cases hrest

theorem recoverable_makeSymbolWith (hr : Ready host m)
    (hfits : m.mode = .debug ∨ (Form.string text).Fits) :
    Recoverable (host.makeSymbolWith finalize frames text) m := by
  have hstring : Recoverable (host.makeStringWith finalize frames text) m :=
    recoverable_build hhost hfinalize hscans hpassing hr rfl hfits (List.forall_mem_nil _)
  refine hr.bind hstring fun name m₁ hname hr₁ => ?_
  have hbuilds := build_spec hr.toSound hhost rfl (.inl ⟨hscans, hpassing⟩) hfits
    (List.forall_mem_nil _) hname
  obtain ⟨cell, hcell, -⟩ := hbuilds.shows.object
  have hsmall : (Form.symbol name).Fits := (by decide : 0 + wordBytes < wordLimit)
  exact recoverable_build hhost hfinalize hscans hpassing hr₁ rfl (.inr hsmall)
    (List.forall_mem_singleton.mpr fun _ =>
      inUse_of_frame hr₁.toSound List.mem_cons_self (Option.isSome_of_eq_some hcell))

theorem recoverable_internWith (hr : Ready host m)
    (hfits : m.mode = .debug ∨ (Form.string text).Fits) :
    Recoverable (host.internWith finalize frames text) m := by
  cases hrun : host.internWith finalize frames text m with
  | ok v m' =>
    obtain ⟨hpasses, -⟩ := internWith_spec hhost hscans hpassing hr.toSound hfits hrun
    exact recoverable_of_ok hrun hpasses.follows
  | error fault m' =>
    have hmake : Recoverable (host.makeSymbolWith finalize frames text)
        { m with held := .symbols :: m.held } :=
      recoverable_makeSymbolWith hhost hfinalize hscans hpassing (hr.locked .symbols) hfits
    refine recoverable_of_error hrun ?_
    obtain hblocked | ⟨m₁, hinside, rfl⟩ := error_of_withLock hrun
    · exact .inl hblocked
    rw [bind_of_ok get_apply] at hinside
    dsimp only at hinside
    cases hlookup : m.symbols.get? text with
    | some symbol =>
      rw [hlookup] at hinside
      cases hinside
    | none =>
      rw [hlookup] at hinside
      obtain herror | ⟨symbol, m₂, -, hrest⟩ := error_of_bind hinside
      · exact (hmake.of_error herror).imp_right Follows.unlocked
      · cases hrest

end

/-! ## Finalizers -/

theorem recoverable_perform (hr : Ready host m) {object : Value} {action : Action}
    (hinterns : ∀ text, action = .intern text →
      (m.mode = .debug ∨ (Form.string text).Fits) ∧ host.scans = true ∧ Passing finalize) :
    Recoverable (host.perform finalize frames object action) m := by
  cases action with
  | collect => exact hr.discard (recoverable_collectWith hfinalize hr)
  | intern name =>
    obtain ⟨hfits, hscans, hpassing⟩ := hinterns name rfl
    exact hr.discard (recoverable_internWith hhost hfinalize hscans hpassing hr hfits)
  | vector words => exact hr.discard (recoverable_allocateWith hhost hfinalize hr rfl)
  | report label keep =>
    exact .inr (follows_of_heap hr.toSound (.noted _ _) rfl rfl)
  | fail fault => exact recoverable_raise hr.toSound fault

theorem recoverable_performAll (hr : Ready host m) {object : Value} {finalizer : Finalizer}
    (hinterns : ∀ text, .intern text ∈ finalizer →
      (m.mode = .debug ∨ (Form.string text).Fits) ∧ host.scans = true ∧ Passing finalize) :
    Recoverable (host.performAll finalize frames object finalizer) m := by
  induction finalizer generalizing m with
  | nil => exact recoverable_pure hr.toSound ()
  | cons action rest ih =>
    have hfirst : Recoverable (host.perform finalize frames object action) m :=
      recoverable_perform hhost hfinalize hr fun text htext =>
        hinterns text (htext ▸ List.mem_cons_self)
    refine hr.bind hfirst fun _ m₁ hrun hr₁ => ih hr₁ fun text htext => ?_
    rw [(hfirst.of_ok hrun).around.mode]
    exact hinterns text (List.mem_cons_of_mem _ htext)

end

/-- The finalizers themselves, however deep their runs are nested. -/
theorem recoverable_finalizeWith (hhost : host.Scrupulous) (fuel : Nat) (frames : List Value)
    (hr : Ready host m) : Recoverable (host.finalizeWith fuel frames) m := by
  induction fuel generalizing m frames with
  | zero => exact recoverable_pure hr.toSound ()
  | succ fuel ih =>
    by_cases hheld : Guarded.heap ∈ m.held
    · exact .inl ⟨m, finalizeWith_held hheld⟩
    cases hpending : m.heap.pending with
    | nil => exact recoverable_of_ok (finalizeWith_nil hheld hpending) (.refl hr.toSound)
    | cons entry rest =>
      obtain ⟨object, finalizer⟩ := entry
      have hinterns : ∀ text, .intern text ∈ finalizer →
          (m.mode = .debug ∨ (Form.string text).Fits) ∧ host.scans = true ∧
            Passing (γ := γ) (host.finalizeWith fuel) := by
        intro text htext
        have hqueued : m.heap.Interns text := .inr ⟨_, hpending ▸ List.mem_cons_self, htext⟩
        have hscans := hr.interns.resolve_right fun hnone => hnone text hqueued
        exact ⟨hr.texts.imp_right fun hfit => hfit text hqueued, hscans,
          passing_finalizeWith hhost hscans fuel⟩
      have htaken : Passes [] m { m with heap := m.heap.takePendingFinalizer.2 } :=
        passes_take hr.toSound
      have hfinished : ∀ {m₂ : Machine γ}, Ready host m₂ →
          Passes [] m₂ { m₂ with heap := m₂.heap.finishFinalizer object } :=
        fun hr₂ => passes_finish hr₂.toSound object
      unfold Recoverable
      rw [finalizeWith_cons hheld hpending]
      refine hr.bind (.inr htaken.follows) fun _ m₁ htake hr₁ =>
        hr₁.bind (recoverable_performAll hhost (fun frames _ => ih frames) hr₁ ?_) fun _ m₂ _ hr₂ =>
          hr₂.bind (.inr (hfinished hr₂).follows) fun _ _ _ hr₃ => ih frames hr₃
      cases htake
      exact hinterns

theorem recoverable_runFinalizers (hhost : host.Scrupulous) (frames : List Value) (hr : Ready host m) :
    Recoverable (host.runFinalizers frames) m :=
  hr.bind (recoverable_get hr.toSound) fun _ _ _ hr₁ => recoverable_finalizeWith hhost _ frames hr₁

end Host

end Substrate.Machine
