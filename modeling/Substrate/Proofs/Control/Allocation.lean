import Substrate.Proofs.Panics

/-!
# Allocation and control

Allocation may collect and run finalizers. It leaves the control stack and the client of the machine
alone, and its faults never concern the integrity of control, unless a finalizer itself fails that
way. `Confined` says both of an operation.
-/

namespace Substrate

/-- The fault is not about the integrity of control. -/
def Fault.Tame : Fault → Prop
  | .fatal .controlIntegrity _ => False
  | _ => True

/-! ## Looking at the heap -/

/-- If the result is a fault, then it is a tame one. -/
def Tame {α : Type} : Except Fault α → Prop
  | .ok _ => True
  | .error fault => fault.Tame

variable {α β : Type}

theorem tame_iff {x : Except Fault α} : Tame x ↔ OnlyFaults Fault.Tame x := by
  cases x with
  | ok a => exact ⟨fun _ => onlyFaults_ok a, fun _ => trivial⟩
  | error fault => exact ⟨fun h => onlyFaults_error (show fault.Tame from h), fun h => h fault rfl⟩

theorem Fault.IsPanic.tame {fault : Fault} (h : fault.IsPanic) : fault.Tame := by
  cases fault with
  | panic _ => trivial
  | _ => exact h.elim

theorem tame_of_panics {x : Except Fault α} (h : OnlyFaults Fault.IsPanic x) : Tame x :=
  tame_iff.mpr (h.mono fun _ => Fault.IsPanic.tame)

theorem tame_ok (a : α) : Tame (.ok a) := trivial

theorem tame_bind {x : Except Fault α} {f : α → Except Fault β} (hx : Tame x)
    (hf : ∀ a, Tame (f a)) : Tame (x >>= f) :=
  tame_iff.mpr ((tame_iff.mp hx).bind fun a => tame_iff.mp (hf a))

theorem tame_map {x : Except Fault α} (f : α → β) (hx : Tame x) : Tame (f <$> x) := by
  cases x with
  | ok a => exact tame_ok (f a)
  | error fault => exact hx

theorem tame_ite {c : Prop} [Decidable c] {x y : Except Fault α} (hx : Tame x) (hy : Tame y) :
    Tame (if c then x else y) := by
  split
  · exact hx
  · exact hy

namespace Mode

variable (mode : Mode)

theorem tame_assertWith (condition : Bool) (message : String) :
    Tame (mode.assertWith condition message) := by
  cases mode <;> cases condition <;> trivial

theorem tame_assert (condition : Bool) (text : String) : Tame (mode.assert condition text) :=
  tame_of_panics (panics_assert mode _ _)

theorem tame_violation (message : String) : Tame (mode.violation message) := by
  cases mode <;> trivial

theorem tame_add (a b : Nat) : Tame (mode.add a b) :=
  tame_of_panics (panics_add mode a b)

end Mode

open Mode

section Arithmetic

variable (mode : Mode)

theorem tame_payloadWords (layout : Layout) (length : Nat) :
    Tame (layout.payloadWords mode length) := by
  unfold Layout.payloadWords
  split
  · exact tame_bind (tame_ok _) fun _ => tame_add _ _ _
  · exact tame_bind (tame_map _ (tame_add _ _ _)) fun _ => tame_add _ _ _
  · exact tame_bind (tame_ok _) fun _ => tame_add _ _ _

theorem tame_tailCount (kind : Kind) (words length : Nat) :
    Tame (Layout.tailCount mode kind words length) :=
  tame_ite (tame_bind (tame_violation _ _) fun _ => tame_ok _) (tame_ok _)

theorem tame_fieldWord (field : Field) : Tame (field.word mode) := by
  cases field <;> first | exact tame_ok _ | exact tame_add _ _ _

end Arithmetic

namespace Space

variable (mode : Mode) (s : Space)

theorem tame_locate (v : Value) (field : Field) : Tame (s.locate mode v field) := by
  refine tame_ite (tame_bind (tame_violation _ _) fun _ => tame_ok _) ?_
  have hbound : ∀ word, Tame (do
      if (s.header v.address).words ≤ word then
        mode.violation (field.title ++ " is outside of a " ++ (s.header v.address).kind.name)
        return none
      return some word) :=
    fun word => tame_ite (tame_bind (tame_violation _ _) fun _ => tame_ok _) (tame_ok _)
  exact tame_bind (tame_fieldWord mode field) fun word =>
    tame_ite (tame_bind (tame_violation _ _) fun _ => hbound word) (hbound word)

theorem tame_fieldGet (v : Value) (field : Field) : Tame (s.fieldGet mode v field) := by
  refine tame_bind (tame_locate mode s v field) fun word? => ?_
  split <;> exact tame_ok _

theorem tame_checkWord (v : Value) (kind : Kind) (index : Nat) :
    Tame (s.checkWord mode v kind index) :=
  tame_bind (tame_assertWith _ _ _) fun _ =>
    tame_ite (tame_bind (tame_violation _ _) fun _ => tame_ok _) (tame_ok _)

theorem tame_rawWord (v : Value) (kind : Kind) (index : Nat) :
    Tame (s.rawWord mode v kind index) :=
  tame_bind (tame_checkWord mode s v kind index) fun _ => tame_ite (tame_ok _) (tame_ok _)

theorem tame_stringText (v : Value) : Tame (s.stringText mode v) :=
  have hlength : Tame (s.stringLength mode v) := tame_map _ (tame_rawWord mode s v _ _)
  tame_map _ <| tame_ite (tame_bind (tame_violation _ _) fun _ => tame_ok _) <|
    tame_bind hlength fun _ =>
      tame_ite (tame_bind (tame_violation _ _) fun _ => tame_ok _) (tame_ok _)

theorem tame_render (v : Value) : Tame (s.render mode v) := by
  unfold render
  split
  case h_6 =>
    exact tame_bind (tame_fieldGet mode s _ _) fun _ =>
      tame_ite (tame_stringText mode s _) (tame_ok _)
  case h_7 => exact tame_map _ (tame_stringText mode s _)
  case h_8 => exact tame_bind (tame_bind (tame_assert _ _ _) fun _ => tame_ok _) fun _ => tame_ok _
  all_goals exact tame_ok _

theorem tame_allocateSmall (sizeClass : Nat) : Tame (s.allocateSmall mode sizeClass).1 := by
  unfold allocateSmall
  split
  · exact tame_ok _
  · rename_i s _
    split
    · exact tame_ok _
    · have hmap := tame_of_panics (panics_mapAligned mode s.pages blockBytes blockBytes)
      split
      · rename_i hfault
        rwa [hfault] at hmap
      · exact tame_ok _
      · split
        · rename_i hnew
          rw [Block.new] at hnew
          split at hnew
          · cases hnew
            trivial
          · cases hnew
        · exact tame_ok _

theorem tame_allocateLarge (bytes : Nat) : Tame (s.allocateLarge mode bytes).1 := by
  unfold allocateLarge
  have hround := tame_of_panics (panics_roundUp mode bytes pageBytes 0)
  have hmap : Tame (s.pages.map mode bytes) :=
    tame_of_panics (panics_mapAligned mode s.pages bytes pageBytes)
  split
  · rename_i hfault
    rwa [hfault] at hround
  · split
    · exact tame_ok _
    · split
      · rename_i hfault
        rwa [hfault] at hmap
      · exact tame_ok _
      · exact tame_ok _

theorem tame_allocateBytes (bytes : Nat) : Tame (s.allocateBytes mode bytes).1 := by
  unfold allocateBytes
  split
  · exact tame_allocateSmall mode s _
  · exact tame_allocateLarge mode s bytes

theorem tame_allocate (kind : Kind) (words : Nat) : Tame (s.allocate mode kind words).1 := by
  have hbytes := tame_allocateBytes mode s ((1 + words) * wordBytes)
  unfold allocate
  split
  · exact tame_ok _
  · split
    · exact tame_ok _
    · rename_i hother
      rwa [hother] at hbytes

end Space

/-! ## Marking and collecting -/

/-- Every fault of the computation is a tame one. -/
def TameRun {σ : Type} (x : Run σ α) : Prop := ∀ s fault s', x s = .error fault s' → fault.Tame

section Runs

variable {σ : Type}

theorem tameRun_of_panics {x : Run σ α} (h : Run.OnlyFaults Fault.IsPanic x) : TameRun x :=
  h.mono fun _ => Fault.IsPanic.tame

theorem tameRun_pure (a : α) : TameRun (pure a : Run σ α) := Run.onlyFaults_pure a

theorem tameRun_bind {x : Run σ α} {f : α → Run σ β} (hx : TameRun x) (hf : ∀ a, TameRun (f a)) :
    TameRun (x >>= f) :=
  Run.OnlyFaults.bind hx hf

end Runs

namespace Marking

variable (mode : Mode)

theorem tame_markValue (v : Value) : TameRun (markValue mode v) :=
  tameRun_of_panics (panics_markValue mode v)

theorem tame_markValues (vs : List Value) : TameRun (markValues mode vs) :=
  tameRun_of_panics (panics_markValues mode vs)

theorem tame_markListed (address : Nat) (indices : List Nat) :
    TameRun (markListed mode address indices) := by
  induction indices with
  | nil => exact tameRun_pure ()
  | cons index rest ih =>
    exact tameRun_bind (fun m fault m' h => tame_markValue mode _ m fault m' h) fun _ => ih

theorem tame_trace (address : Nat) : TameRun (trace mode address) := by
  intro m fault m' h
  unfold trace at h
  dsimp only at h
  split at h
  · rename_i hlisted
    cases h
    exact tame_markListed mode _ _ _ _ _ hlisted
  · split at h
    · cases h
    · split at h
      · rename_i hcount
        cases h
        have htame := tame_tailCount mode (m.space.header address).kind
          (m.space.header address).words
        exact (hcount ▸ htame _ : Tame (.error fault : Except Fault Nat))
      · rw [markRange_eq] at h
        exact tame_markListed mode _ _ _ _ _ h

theorem tame_drainWith (fuel : Nat) : TameRun (drainWith mode fuel) := by
  induction fuel with
  | zero =>
    intro m fault m' h
    rw [drainWith] at h
    split at h
    · cases h
    · cases h
      trivial
  | succ fuel ih =>
    intro m fault m' h
    rw [drainWith] at h
    split at h
    · cases h
    · split at h
      · exact ih _ _ _ h
      · rename_i htrace
        cases h
        exact tame_trace mode _ _ _ _ htrace

theorem tame_drain : TameRun (drain mode) := fun _ _ _ h => tame_drainWith mode _ _ _ _ h

end Marking

namespace Heap

/-- What the attached and the queued finalizers will do. -/
def actions (h : Heap) : List Action :=
  h.finalizers.flatMap (·.2) ++ h.pending.flatMap (·.2)

/-- A computation on the heap that attaches no finalizers and has only tame faults. -/
structure Harmless (x : Run Heap α) : Prop where
  actions : ∀ h a h', x h = .ok a h' → h'.actions ⊆ h.actions
  faults : TameRun x

theorem harmless_onSpace {x : Run Space α} (hx : TameRun x) : Harmless (onSpace x) := by
  refine ⟨fun h a h' hrun => ?_, fun h fault h' hrun => ?_⟩
  · unfold onSpace at hrun
    dsimp only at hrun
    split at hrun
    · cases hrun
      exact List.Subset.refl _
    · cases hrun
  · unfold onSpace at hrun
    dsimp only at hrun
    split at hrun
    · cases hrun
    · rename_i hfault
      cases hrun
      exact hx _ _ _ hfault

theorem harmless_tryAllocate (kind : Kind) (words : Nat) : Harmless (tryAllocate kind words) := by
  refine ⟨fun h a h' hrun => ?_, fun h fault h' hrun => ?_⟩
  · unfold tryAllocate at hrun
    dsimp only at hrun
    repeat' split at hrun
    all_goals cases hrun
    all_goals exact List.Subset.refl _
  · have hallocate := Space.tame_allocate h.mode h.space kind words
    have hsize := tame_of_panics (panics_allocationSize h.mode words)
    unfold tryAllocate at hrun
    dsimp only at hrun
    split at hrun
    · rename_i hfault
      cases hrun
      rwa [hfault] at hallocate
    · cases hrun
    · split at hrun
      · rename_i hfault
        cases hrun
        rwa [hfault] at hsize
      · cases hrun

theorem tame_markReachable (h : Heap) {trace : Run Marking α} (htrace : TameRun trace) :
    TameRun (h.markReachable trace) :=
  tameRun_bind htrace fun _ => tameRun_bind (Marking.tame_markValues h.mode _) fun _ =>
    tameRun_bind (Marking.tame_markValues h.mode _) fun _ =>
      tameRun_bind (Marking.tame_drain h.mode) fun _ => tameRun_pure _

/-- Queueing moves finalizers and adds none. -/
theorem actions_queueUnreached {h h' : Heap} {marking marking' : Marking}
    (hqueue : h.queueUnreached marking = .ok () (h', marking') ∨
      ∃ fault, h.queueUnreached marking = .error fault (h', marking')) : h'.actions ⊆ h.actions := by
  unfold queueUnreached at hqueue
  dsimp only at hqueue
  have hqueued : h' = { h with
      finalizers := h.finalizers.filter fun entry => (marking.space.header entry.1).marked
      pending := h.pending ++ (h.finalizers.filter fun entry =>
        !(marking.space.header entry.1).marked).map fun entry => (Value.ofAddress entry.1, entry.2) } := by
    split at hqueue <;> obtain hqueue | ⟨fault, hqueue⟩ := hqueue <;> cases hqueue <;> rfl
  subst hqueued
  intro action haction
  simp only [actions, List.mem_append, List.mem_flatMap, List.mem_map, List.mem_filter] at haction ⊢
  obtain ⟨entry, ⟨hentry, -⟩, hin⟩ | ⟨queued, hold | ⟨entry, ⟨hentry, -⟩, rfl⟩, hin⟩ := haction
  · exact .inl ⟨entry, hentry, hin⟩
  · exact .inr ⟨queued, hold, hin⟩
  · exact .inl ⟨entry, hentry, hin⟩

theorem tame_queueUnreached {h h' : Heap} {marking marking' : Marking} {fault : Fault}
    (hqueue : h.queueUnreached marking = .error fault (h', marking')) : fault.Tame := by
  unfold queueUnreached at hqueue
  dsimp only at hqueue
  split at hqueue
  · cases hqueue
  · rename_i hfault
    cases hqueue
    exact tameRun_bind (Marking.tame_markValues _ _) (fun _ => Marking.tame_drain _) _ _ _ hfault

theorem harmless_collect {trace : Run Marking α} (htrace : TameRun trace) :
    Harmless (collect trace) := by
  refine ⟨fun h a h' hrun => ?_, fun h fault h' hrun => ?_⟩
  · unfold collect at hrun
    dsimp only at hrun
    split at hrun
    · cases hrun
    · split at hrun
      · cases hrun
      · rename_i hqueue
        cases hrun
        exact fun _ haction => actions_queueUnreached (.inl hqueue) haction
  · unfold collect at hrun
    dsimp only at hrun
    split at hrun
    · rename_i hmark
      cases hrun
      exact tame_markReachable _ htrace _ _ _ hmark
    · split at hrun
      · rename_i hqueue
        cases hrun
        exact tame_queueUnreached hqueue
      · cases hrun

end Heap

/-! ## Operations of a machine -/

namespace Machine

variable {γ : Type} {allowed : List Action} {m m' m'' : Machine γ}

/-- `m'` has the control stack, the mode and the client of `m`, and only `allowed` finalizers. -/
structure Keeps (allowed : List Action) (m m' : Machine γ) : Prop where
  control : m'.running.control = m.running.control
  mode : m'.mode = m.mode
  client : m'.client = m.client
  actions : m'.heap.actions ⊆ allowed

/-- What a confined operation may come back with. -/
def Contained (allowed : List Action) (m : Machine γ) :
    EStateM.Result Fault (Machine γ) α → Prop
  | .ok _ m' => Keeps allowed m m'
  | .error fault m' =>
    m'.running.control = m.running.control ∧ m'.mode = m.mode ∧
      (fault.Tame ∨ .fail fault ∈ allowed)

/-- The operation leaves control alone, and only finalizers make it fail otherwise than tamely. -/
def Confined (allowed : List Action) (x : Op γ α) : Prop :=
  ∀ m, m.heap.actions ⊆ allowed → Contained allowed m (x m)

theorem Keeps.trans (h : Keeps allowed m m') (h' : Keeps allowed m' m'') : Keeps allowed m m'' :=
  ⟨h'.control.trans h.control, h'.mode.trans h.mode, h'.client.trans h.client, h'.actions⟩

theorem Keeps.contained (h : Keeps allowed m m') {r : EStateM.Result Fault (Machine γ) α}
    (hr : Contained allowed m' r) : Contained allowed m r := by
  cases r with
  | ok a m'' => exact h.trans hr
  | error fault m'' => exact ⟨hr.1.trans h.control, hr.2.1.trans h.mode, hr.2.2⟩

theorem confined_pure (a : α) : Confined allowed (pure a : Op γ α) :=
  fun _ hm => ⟨rfl, rfl, rfl, hm⟩

theorem confined_bind {x : Op γ α} {f : α → Op γ β} (hx : Confined allowed x)
    (hf : ∀ a, Confined allowed (f a)) : Confined allowed (x >>= f) := by
  intro m hm
  change Contained allowed m (EStateM.bind x f m)
  have hfirst := hx m hm
  rw [EStateM.bind]
  split
  · rename_i hrun
    rw [hrun] at hfirst
    exact hfirst.contained (hf _ _ hfirst.actions)
  · rename_i hrun
    rwa [hrun] at hfirst

theorem confined_get : Confined allowed (get : Op γ (Machine γ)) := fun _ hm => ⟨rfl, rfl, rfl, hm⟩

/-- What follows on a look at the machine may rely on what it saw. -/
theorem confined_ofGet {f : Machine γ → Op γ α}
    (hf : ∀ m, m.heap.actions ⊆ allowed → Contained allowed m (f m m)) :
    Confined allowed (get >>= f) := hf

theorem confined_modify {f : Machine γ → Machine γ}
    (hf : ∀ m, (f m).running.control = m.running.control ∧ (f m).mode = m.mode ∧
      (f m).client = m.client ∧ (f m).heap.actions ⊆ m.heap.actions) :
    Confined allowed (modify f : Op γ Unit) :=
  fun m hm => ⟨(hf m).1, (hf m).2.1, (hf m).2.2.1, fun _ h => hm ((hf m).2.2.2 h)⟩

theorem confined_throw {fault : Fault} (h : fault.Tame) : Confined allowed (throw fault : Op γ α) :=
  fun _ _ => ⟨rfl, rfl, .inl h⟩

theorem confined_ite {c : Prop} [Decidable c] {x y : Op γ α} (hx : Confined allowed x)
    (hy : Confined allowed y) : Confined allowed (if c then x else y) := by
  split
  · exact hx
  · exact hy

theorem contained_raise {fault : Fault} (h : fault.Tame ∨ .fail fault ∈ allowed)
    (hcontrol : m'.running.control = m.running.control) (hmode : m'.mode = m.mode) :
    Contained allowed m ((raise fault : Op γ α) m') := by
  cases fault <;> exact ⟨hcontrol, hmode, h⟩

theorem confined_raise {fault : Fault} (h : fault.Tame ∨ .fail fault ∈ allowed) :
    Confined allowed (raise fault : Op γ α) :=
  fun _ _ => contained_raise h rfl rfl

theorem confined_raiseFatal {kind : FatalKind} {message : String} (h : kind ≠ .controlIntegrity) :
    Confined allowed (raiseFatal kind message : Op γ α) := by
  refine confined_raise (.inl ?_)
  cases kind with
  | controlIntegrity => exact absurd rfl h
  | heapExhausted | contractViolation | internal => trivial

theorem confined_ofExcept {x : Except Fault α} (hx : Tame x) :
    Confined allowed (ofExcept x : Op γ α) := by
  cases x with
  | ok a => exact confined_pure a
  | error fault => exact confined_raise (.inl hx)

theorem confined_view {f : Mode → Space → Except Fault α} (hf : ∀ mode space, Tame (f mode space)) :
    Confined allowed (view f : Op γ α) :=
  fun m hm => confined_ofExcept (hf m.mode m.heap.space) m hm

theorem confined_onHeap {x : Run Heap α} (hx : Heap.Harmless x) :
    Confined allowed (onHeap x : Op γ α) := by
  intro m hm
  unfold onHeap
  dsimp only
  split
  · rename_i hrun
    exact ⟨rfl, rfl, rfl, fun _ h => hm (hx.actions _ _ _ hrun h)⟩
  · rename_i hrun
    exact contained_raise (.inl (hx.faults _ _ _ hrun)) rfl rfl

theorem confined_onSpace {x : Mode → Run Space α} (hx : ∀ mode, TameRun (x mode)) :
    Confined allowed (onSpace x : Op γ α) :=
  fun m hm => confined_onHeap (Heap.harmless_onSpace (hx m.mode)) m hm

theorem confined_withLock (lock : Guarded) {x : Op γ α} (hx : Confined allowed x) :
    Confined allowed (withLock lock x) := by
  intro m hm
  have hrun := hx { m with held := lock :: m.held } hm
  unfold withLock
  split
  · exact ⟨rfl, rfl, .inl trivial⟩
  · split
    · rename_i hok
      rw [hok] at hrun
      exact ⟨hrun.control, hrun.mode, hrun.client, hrun.actions⟩
    · rename_i herror
      rwa [herror] at hrun

theorem confined_note (level : Level) (target message : String) :
    Confined allowed (note level target message : Op γ Unit) :=
  confined_modify fun _ => ⟨rfl, rfl, rfl, List.Subset.refl _⟩

theorem confined_expect (condition : Bool) {message : Unit → Op γ String}
    (hmessage : Confined allowed (message ())) : Confined allowed (expect condition message) := by
  refine confined_ite (confined_pure ()) (confined_bind confined_get fun m => ?_)
  split
  · exact confined_bind hmessage fun _ => confined_raiseFatal (by decide)
  · exact confined_pure ()

theorem confined_park : Confined allowed (park : Op γ Unit) :=
  confined_bind (confined_modify fun _ => ⟨rfl, rfl, rfl, List.Subset.refl _⟩) fun _ =>
    confined_bind confined_get fun _ =>
      confined_bind (confined_note _ _ _) fun _ => confined_throw trivial

theorem confined_resume : Confined allowed (resume : Op γ Unit) := by
  have hsay : Confined allowed (do
      note .trace "safepoint" ("thread " ++ toString (← get).running.id ++ " running")
      : Op γ Unit) :=
    confined_bind confined_get fun _ => confined_note _ _ _
  exact confined_bind (confined_modify fun _ => ⟨rfl, rfl, rfl, List.Subset.refl _⟩) fun _ =>
    confined_bind confined_get fun _ =>
      confined_ite (confined_bind confined_park fun _ => hsay) hsay

theorem confined_safepoint : Confined allowed (safepoint : Op γ Unit) :=
  confined_bind confined_get fun _ =>
    confined_ite (confined_bind confined_park fun _ => confined_resume) (confined_pure ())

/-! ## Collections -/

theorem confined_stopWorld : Confined allowed (stopWorld : Op γ Unit) := by
  refine confined_bind (confined_modify fun _ => ⟨rfl, rfl, rfl, List.Subset.refl _⟩) fun _ =>
    confined_bind confined_get fun m => ?_
  exact confined_ite (confined_bind (confined_throw trivial) fun _ => confined_note _ _ _)
    (confined_note _ _ _)

theorem confined_markAndSweep : Confined allowed (markAndSweep : Op γ Stats) := by
  intro m hm
  have htrace := tameRun_of_panics (panics_traceRoots { m with heap := .vacant })
  have hrun := confined_onHeap (Heap.harmless_collect htrace) m hm
  unfold markAndSweep
  dsimp only
  split
  · rename_i herror
    rwa [herror] at hrun
  · rename_i hok
    rw [hok] at hrun
    exact ⟨hrun.control, hrun.mode, hrun.client, hrun.actions⟩

theorem confined_collectLocked : Confined allowed (collectLocked : Op γ Stats) :=
  confined_withLock _ <| confined_withLock _ <| confined_bind confined_stopWorld fun _ =>
    confined_bind confined_markAndSweep fun _ =>
      confined_bind (confined_modify fun _ => ⟨rfl, rfl, rfl, List.Subset.refl _⟩) fun _ =>
        confined_pure _

/-! ## Finalizers -/

theorem confined_allocateLocked (kind : Kind) (words : Nat) :
    Confined allowed (allocateLocked kind words : Op γ Value) := by
  have htry : Confined allowed (onHeap (Heap.tryAllocate kind words) : Op γ (Option Value)) :=
    confined_onHeap (Heap.harmless_tryAllocate kind words)
  have hcollect : Confined allowed (discard collectLocked : Op γ PUnit) :=
    confined_bind confined_collectLocked fun _ => confined_pure _
  refine confined_bind confined_get fun m =>
    confined_bind (confined_ofExcept (tame_of_panics (panics_shouldCollect _ _))) fun due =>
      confined_ite (confined_bind hcollect fun _ => ?_) ?_
  all_goals
    refine confined_bind htry fun v? => ?_
    split
    · exact confined_pure _
    · refine confined_bind hcollect fun _ => confined_bind htry fun v? => ?_
      split
      · exact confined_pure _
      · exact confined_bind confined_get fun _ => confined_raiseFatal (by decide)

theorem tame_fieldSet (mode : Mode) (v : Value) (field : Field) (value : Value) :
    TameRun (Space.fieldSet mode v field value) := by
  intro s fault s' h
  have hlocate := Space.tame_locate mode s v field
  unfold Space.fieldSet at h
  split at h
  · rename_i hfault
    cases h
    rwa [hfault] at hlocate
  · cases h
  · cases h

theorem tame_setRawWord (mode : Mode) (v : Value) (kind : Kind) (index : Nat) (bits : Word) :
    TameRun (Space.setRawWord mode v kind index bits) := by
  intro s fault s' h
  have hcheck := Space.tame_checkWord mode s v kind index
  unfold Space.setRawWord at h
  split at h
  · rename_i hfault
    cases h
    rwa [hfault] at hcheck
  · cases h
  · cases h

section Finalizing

variable {finalize : Op γ Unit} (hfinalize : Confined allowed finalize)

include hfinalize

theorem confined_allocateWith (kind : Kind) (words : Nat) :
    Confined allowed (allocateWith finalize kind words) := by
  refine confined_bind (confined_expect _ (confined_pure _)) fun _ =>
    confined_bind confined_safepoint fun _ =>
      confined_bind (confined_withLock _ (confined_allocateLocked kind words)) fun v =>
        confined_bind confined_get fun m => ?_
  exact confined_ite (confined_bind hfinalize fun _ => confined_pure v) (confined_pure v)

theorem confined_collectWith : Confined allowed (collectWith finalize) :=
  confined_bind (confined_withLock _ confined_collectLocked) fun _ =>
    confined_bind hfinalize fun _ => confined_pure _

theorem confined_makeStringWith (text : String) :
    Confined allowed (makeStringWith finalize text) :=
  confined_bind confined_get fun _ =>
    confined_bind (confined_ofExcept (tame_payloadWords _ _ _)) fun _ =>
      confined_bind (confined_allocateWith hfinalize _ _) fun _ =>
        confined_bind (confined_onSpace fun mode => tame_setRawWord mode _ _ _ _) fun _ =>
          confined_bind (confined_onSpace fun _ => Run.onlyFaults_modify _) fun _ => confined_pure _

theorem confined_makeSymbolWith (text : String) :
    Confined allowed (makeSymbolWith finalize text) := by
  have hset : ∀ symbol field value,
      Confined allowed (onSpace fun mode => Space.fieldSet mode symbol field value : Op γ Unit) :=
    fun symbol field value => confined_onSpace fun mode => tame_fieldSet mode symbol field value
  exact confined_bind (confined_makeStringWith hfinalize text) fun _ =>
    confined_bind (confined_allocateWith hfinalize _ _) fun _ =>
      confined_bind (hset _ _ _) fun _ => confined_bind (hset _ _ _) fun _ =>
        confined_bind (hset _ _ _) fun _ => confined_bind (hset _ _ _) fun _ =>
          confined_bind (hset _ _ _) fun _ =>
            confined_bind (fun _ hm => ⟨rfl, rfl, rfl, hm⟩) fun _ =>
              confined_bind (confined_onSpace fun mode => tame_setRawWord mode _ _ _ _) fun _ =>
                confined_pure _

theorem confined_internWith (name : String) : Confined allowed (internWith finalize name) := by
  refine confined_withLock _ (confined_bind confined_get fun m => ?_)
  split
  · exact confined_pure _
  · exact confined_bind (confined_makeSymbolWith hfinalize name) fun _ =>
      confined_bind (confined_modify fun _ => ⟨rfl, rfl, rfl, List.Subset.refl _⟩) fun _ =>
        confined_pure _

theorem confined_perform (object : Value) {action : Action} (haction : action ∈ allowed) :
    Confined allowed (perform finalize object action) := by
  cases action with
  | collect => exact confined_bind (confined_collectWith hfinalize) fun _ => confined_pure _
  | intern name =>
    exact confined_bind (confined_internWith hfinalize name) fun _ => confined_pure _
  | vector words =>
    exact confined_bind (confined_allocateWith hfinalize .vector words) fun _ => confined_pure _
  | report label keep => exact confined_modify fun _ => ⟨rfl, rfl, rfl, List.Subset.refl _⟩
  | fail fault => exact confined_raise (.inr haction)

theorem confined_performAll (object : Value) {finalizer : Finalizer}
    (hallowed : finalizer ⊆ allowed) : Confined allowed (performAll finalize object finalizer) := by
  induction finalizer with
  | nil => exact confined_pure ()
  | cons action rest ih =>
    obtain ⟨haction, hrest⟩ := List.cons_subset.mp hallowed
    exact confined_bind (confined_perform hfinalize object haction) fun _ => ih hrest

end Finalizing

/-- Every finalizer that runs was attached before. -/
theorem confined_finalizeWith (fuel : Nat) : Confined allowed (finalizeWith fuel : Op γ Unit) := by
  induction fuel with
  | zero => exact confined_pure ()
  | succ fuel ih =>
    rw [finalizeWith]
    refine confined_ofGet fun m hm => ?_
    dsimp only
    split
    · exact ⟨rfl, rfl, .inl trivial⟩
    · rcases hpending : m.heap.pending with _ | ⟨⟨object, finalizer⟩, rest⟩
      · exact ⟨rfl, rfl, rfl, hm⟩
      · have hactions : m.heap.actions
            = m.heap.finalizers.flatMap (·.2) ++ (finalizer ++ rest.flatMap (·.2)) := by
          rw [Heap.actions, hpending, List.flatMap_cons]
        rw [hactions, List.append_subset, List.append_subset] at hm
        have htaken : m.heap.takePendingFinalizer.2.actions ⊆ allowed := by
          simp only [Heap.takePendingFinalizer, hpending, Heap.actions, List.append_subset]
          exact ⟨hm.1, hm.2.2⟩
        have hrest : Confined allowed (do
            performAll (finalizeWith fuel) object finalizer
            modifyHeap (·.finishFinalizer object)
            finalizeWith fuel : Op γ Unit) :=
          confined_bind (confined_performAll ih object hm.2.1) fun _ =>
            confined_bind (fun _ hm => ⟨rfl, rfl, rfl, hm⟩) fun _ => ih
        have hkeeps : Keeps allowed m { m with heap := m.heap.takePendingFinalizer.2 } :=
          ⟨rfl, rfl, rfl, htaken⟩
        exact hkeeps.contained (hrest _ htaken)

theorem confined_allocateWords (kind : Kind) (words : Nat) :
    Confined allowed (allocateWords kind words : Op γ Value) :=
  confined_allocateWith (confined_bind confined_get fun _ => confined_finalizeWith _) kind words

theorem confined_cons (car cdr : Value) : Confined allowed (cons car cdr : Op γ Value) :=
  confined_bind (confined_allocateWords _ _) fun _ =>
    confined_bind (confined_onSpace fun mode => tame_fieldSet mode _ _ _) fun _ =>
      confined_bind (confined_onSpace fun mode => tame_fieldSet mode _ _ _) fun _ =>
        confined_pure _

end Machine

end Substrate
