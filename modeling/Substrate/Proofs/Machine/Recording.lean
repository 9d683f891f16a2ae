import Substrate.Proofs.Machine.Unlocked

/-!
# A record of the finalizers that run

A finalizer is taken out of the queue, its actions are performed, and its object is given up. While it
runs, its actions may collect and allocate, which queues further finalizers and runs them right there.
`Host.recordWith` does what `Host.finalizeWith` does and has the client of the machine keep a record:
which finalizers ran, with which objects, and which of them came to their end.

`Records` relates an operation that may be recorded to the operation itself. It does the same, and the
books balance (`Balanced`): what was in the queue, or was put there meanwhile, is either on record or
still in the queue, and the objects that are not given up are those of the performances on record that
did not come to their end.
-/

namespace Substrate

/-- One run of a finalizer. -/
structure Performance where
  object : Value
  finalizer : Finalizer
  /-- Whether it came to its end. No fault lets it get there. -/
  returned : Bool

/-- What was taken out of the queue. -/
def Performance.task (p : Performance) : Value × Finalizer := (p.object, p.finalizer)

/-- The objects of the performances that did not come to their end. -/
def unfinished (performed : List Performance) : List Value :=
  (performed.filter (!·.returned)).map (·.object)

namespace Heap

variable {α : Type} {h h' h'' : Heap}

/-- The finalizers that are attached, with their objects. -/
def attached (h : Heap) : List (Value × Finalizer) :=
  h.finalizers.map fun entry => (.ofAddress entry.1, entry.2)

/-- Some of the attached finalizers may have been queued, and nothing else. -/
def Queues (h h' : Heap) : Prop :=
  ∃ queued, h.attached.Perm (queued ++ h'.attached) ∧ h'.pending = h.pending ++ queued ∧
    h'.finalizing = h.finalizing

theorem Queues.refl (h : Heap) : Queues h h := ⟨[], .refl _, (List.append_nil _).symm, rfl⟩

theorem queues_onSpace (x : Run Space α) (h : Heap) : Queues h (left (onSpace x h)) := by
  unfold onSpace
  dsimp only
  cases x h.space <;> exact .refl h

theorem queues_tryAllocate (kind : Kind) (words : Nat) (h : Heap) :
    Queues h (left (tryAllocate kind words h)) := by
  unfold tryAllocate
  dsimp only
  rcases h.space.allocate h.mode kind words with ⟨fault | address?, space⟩
  · exact .refl h
  · cases address? with
    | none => exact .refl h
    | some address =>
      dsimp only
      cases allocationSize h.mode words <;> exact .refl h

theorem queues_queueUnreached {marking marking' : Marking}
    (hrun : h.queueUnreached marking = .ok () (h', marking') ∨
      ∃ fault, h.queueUnreached marking = .error fault (h', marking')) : Queues h h' := by
  obtain ⟨hfinalizers, hpending, hfinalizing⟩ :
      h'.finalizers = h.finalizers.filter (fun entry => (marking.space.header entry.1).marked) ∧
      h'.pending = h.pending ++ (h.finalizers.filter fun entry =>
        !(marking.space.header entry.1).marked).map
          (fun entry => (Value.ofAddress entry.1, entry.2)) ∧ h'.finalizing = h.finalizing := by
    unfold queueUnreached at hrun
    dsimp only at hrun
    split at hrun <;> obtain hrun | ⟨fault, hrun⟩ := hrun <;> cases hrun <;> exact ⟨rfl, rfl, rfl⟩
  refine ⟨_, ?_, hpending, hfinalizing⟩
  rw [attached, attached, hfinalizers, ← List.map_append]
  refine List.Perm.map _ (List.perm_append_comm.trans ?_).symm
  exact List.filter_append_perm (fun entry : Nat × Finalizer => (marking.space.header entry.1).marked) _

/-- A collection queues the finalizers of unmarked objects, even if it is broken off then. -/
theorem queues_collect (trace : Run Marking α) (h : Heap) :
    Queues h (left (Heap.collect trace h)) := by
  unfold Heap.collect
  dsimp only
  split
  next => exact .refl h
  next =>
    split
    next hrun =>
      have hqueues := queues_queueUnreached (.inr ⟨_, hrun⟩)
      exact hqueues
    next hrun =>
      have hqueues := queues_queueUnreached (.inl hrun)
      exact hqueues

end Heap

namespace Machine

variable {γ α β : Type}

/-- The same machine, for a client with a record. -/
def recording (m : Machine γ) (performed : List Performance) : Machine (γ × List Performance) :=
  { m with client := (m.client, performed) }

/-- The same machine without the record. -/
def forgetting (r : Machine (γ × List Performance)) : Machine γ :=
  { r with client := r.client.1 }

/-- The result without the record. -/
def forgotten (result : EStateM.Result Fault (Machine (γ × List Performance)) α) :
    EStateM.Result Fault (Machine γ) α :=
  match result with
  | .ok a r => .ok a r.forgetting
  | .error fault r => .error fault r.forgetting

/-! ## Balance -/

/-- What has been in the queue from one state to the other is on record as performed or is still
there, and whatever is on record as unfinished is not given up. -/
structure Balanced (r r' : Machine (γ × List Performance)) : Prop where
  balance : ∃ performed queued, r'.client.2 = performed ++ r.client.2 ∧
    r.heap.attached.Perm (queued ++ r'.heap.attached) ∧
    (r.heap.pending ++ queued).Perm (performed.map (·.task) ++ r'.heap.pending) ∧
    r'.heap.finalizing.toList.Perm (unfinished performed ++ r.heap.finalizing.toList)

variable {r r' r'' : Machine (γ × List Performance)}

theorem balanced_of_queues (h : r.heap.Queues r'.heap) (hclient : r'.client.2 = r.client.2) :
    Balanced r r' := by
  obtain ⟨queued, hattached, hpending, hfinalizing⟩ := h
  exact ⟨[], queued, hclient, hattached, hpending ▸ .refl _, hfinalizing ▸ .refl _⟩

theorem Balanced.refl (r : Machine (γ × List Performance)) : Balanced r r :=
  balanced_of_queues (.refl r.heap) rfl

theorem Balanced.trans (h : Balanced r r') (h' : Balanced r' r'') : Balanced r r'' := by
  obtain ⟨performed, queued, hclient, hattached, hpending, hfinalizing⟩ := h.balance
  obtain ⟨performed', queued', hclient', hattached', hpending', hfinalizing'⟩ := h'.balance
  refine ⟨performed' ++ performed, queued ++ queued', ?_, ?_, ?_, ?_⟩
  · rw [hclient', hclient, List.append_assoc]
  · rw [List.append_assoc]
    exact hattached.trans (hattached'.append_left queued)
  · have hfirst := hpending.append_right queued'
    have hsecond := hpending'.append_left (performed.map (·.task))
    rw [List.append_assoc, List.append_assoc] at hfirst
    rw [List.map_append, List.append_assoc]
    exact (hfirst.trans hsecond).trans (List.perm_append_comm_assoc ..)
  · have hlater := hfinalizing.append_left (unfinished performed')
    rw [← List.append_assoc, unfinished, unfinished, ← List.map_append, ← List.filter_append] at hlater
    exact hfinalizing'.trans hlater

/-- Nothing is taken off the record. -/
theorem Balanced.length_le (h : Balanced r r') : r.client.2.length ≤ r'.client.2.length := by
  obtain ⟨performed, queued, hclient, -⟩ := h.balance
  rw [hclient, List.length_append]
  exact Nat.le_add_left ..

/-- A finalizer is attached, queued or on record. -/
theorem Balanced.count (h : Balanced r r') :
    r'.heap.finalizerCount + r'.client.2.length = r.heap.finalizerCount + r.client.2.length := by
  obtain ⟨performed, queued, hclient, hattached, hpending, -⟩ := h.balance
  have hattached := hattached.length_eq
  have hpending := hpending.length_eq
  simp only [Heap.attached, List.length_append, List.length_map] at hattached hpending
  rw [hclient, List.length_append, Heap.finalizerCount, Heap.finalizerCount]
  omega

/-! ## Operations that may be recorded -/

/-- From this state the first operation does what the second one does, and the books balance. -/
structure RecordsAt (r : Machine (γ × List Performance)) (x' : Op (γ × List Performance) α)
    (x : Op γ α) : Prop where
  same : forgotten (x' r) = x r.forgetting
  balanced : Balanced r (ending (x' r))

def Records (x' : Op (γ × List Performance) α) (x : Op γ α) : Prop := ∀ r, RecordsAt r x' x

theorem records_pure (a : α) : Records (pure a : Op (γ × List Performance) α) (pure a) :=
  fun r => ⟨rfl, .refl r⟩

theorem RecordsAt.bind {x' : Op (γ × List Performance) α} {x : Op γ α}
    {f' : α → Op (γ × List Performance) β} {f : α → Op γ β} (hx : RecordsAt r x' x)
    (hf : ∀ a r₁, x' r = .ok a r₁ → RecordsAt r₁ (f' a) (f a)) :
    RecordsAt r (x' >>= f') (x >>= f) := by
  obtain ⟨hsame, hbalanced⟩ := hx
  cases hrun : x' r with
  | ok a r₁ =>
    rw [hrun] at hsame hbalanced
    obtain ⟨hsame₁, hbalanced₁⟩ := hf a r₁ hrun
    have hplain : x r.forgetting = .ok a r₁.forgetting := hsame.symm
    constructor
    · rw [bind_of_ok hrun, bind_of_ok hplain]
      exact hsame₁
    · rw [bind_of_ok hrun]
      exact hbalanced.trans hbalanced₁
  | error fault r₁ =>
    rw [hrun] at hsame hbalanced
    have hplain : x r.forgetting = .error fault r₁.forgetting := hsame.symm
    constructor
    · rw [bind_of_error hrun, bind_of_error hplain]
      rfl
    · rw [bind_of_error hrun]
      exact hbalanced

theorem Records.bind {x' : Op (γ × List Performance) α} {x : Op γ α}
    {f' : α → Op (γ × List Performance) β} {f : α → Op γ β} (hx : Records x' x)
    (hf : ∀ a, Records (f' a) (f a)) : Records (x' >>= f') (x >>= f) :=
  fun r => (hx r).bind fun a r₁ _ => hf a r₁

/-- A look at the machine sees the same with a record and without. -/
theorem records_ofGet {f' : Machine (γ × List Performance) → Op (γ × List Performance) α}
    {f : Machine γ → Op γ α} (hf : ∀ r, RecordsAt r (f' r) (f r.forgetting)) :
    Records (get >>= f') (get >>= f) := fun r => ⟨(hf r).same, (hf r).balanced⟩

theorem records_ite {c : Prop} [Decidable c] {x' y' : Op (γ × List Performance) α} {x y : Op γ α}
    (hx : Records x' x) (hy : Records y' y) :
    Records (if c then x' else y') (if c then x else y) := by
  split
  · exact hx
  · exact hy

theorem records_modify {f' : Machine (γ × List Performance) → Machine (γ × List Performance)}
    {f : Machine γ → Machine γ} (hsame : ∀ r, (f' r).forgetting = f r.forgetting)
    (hclient : ∀ r, (f' r).client.2 = r.client.2) (hheap : ∀ r, (f' r).heap = r.heap) :
    Records (modify f' : Op (γ × List Performance) Unit) (modify f) := fun r =>
  ⟨congrArg (EStateM.Result.ok ()) (hsame r),
    balanced_of_queues (hheap r ▸ .refl r.heap) (hclient r)⟩

theorem records_throw (fault : Fault) :
    Records (throw fault : Op (γ × List Performance) α) (throw fault) := fun r => ⟨rfl, .refl r⟩

theorem records_raise (fault : Fault) :
    Records (raise fault : Op (γ × List Performance) α) (raise fault) := by
  intro r
  cases fault <;> exact ⟨rfl, balanced_of_queues (.refl r.heap) rfl⟩

theorem records_ofExcept (result : Except Fault α) :
    Records (ofExcept result : Op (γ × List Performance) α) (ofExcept result) := by
  cases result with
  | ok a => exact records_pure a
  | error fault => exact records_raise fault

theorem onHeap_of_ok {m : Machine γ} {x : Substrate.Run Heap α} {a : α} {heap : Heap}
    (h : x m.heap = .ok a heap) : onHeap x m = .ok a { m with heap } := by
  unfold onHeap
  dsimp only
  rw [h]

theorem onHeap_of_error {m : Machine γ} {x : Substrate.Run Heap α} {fault : Fault} {heap : Heap}
    (h : x m.heap = .error fault heap) : onHeap x m = raise fault { m with heap } := by
  unfold onHeap
  dsimp only
  rw [h]

theorem records_onHeap {x : Substrate.Run Heap α} (hx : ∀ h : Heap, h.Queues (Heap.left (x h))) :
    Records (onHeap x : Op (γ × List Performance) α) (onHeap x) := by
  intro r
  have hqueues := hx r.heap
  cases hrun : x r.heap with
  | ok a heap =>
    rw [hrun] at hqueues
    have hplain : onHeap x r.forgetting = .ok a { r.forgetting with heap } := onHeap_of_ok hrun
    constructor
    · rw [onHeap_of_ok hrun, hplain]
      rfl
    · rw [onHeap_of_ok hrun]
      exact balanced_of_queues hqueues rfl
  | error fault heap =>
    rw [hrun] at hqueues
    have hplain : onHeap x r.forgetting = raise fault { r.forgetting with heap } :=
      onHeap_of_error hrun
    have hleft : Balanced r { r with heap } := balanced_of_queues hqueues rfl
    obtain ⟨hsame, hbalanced⟩ := records_raise (α := α) fault { r with heap }
    constructor
    · rw [onHeap_of_error hrun, hplain]
      exact hsame
    · rw [onHeap_of_error hrun]
      exact hleft.trans hbalanced

theorem records_onSpace (x : Mode → Substrate.Run Space α) :
    Records (onSpace x : Op (γ × List Performance) α) (onSpace x) := fun r =>
  have h := records_onHeap (γ := γ) (fun h => Heap.queues_onSpace (x r.mode) h) r
  ⟨h.same, h.balanced⟩

theorem records_withLock (lock : Guarded) {x' : Op (γ × List Performance) α} {x : Op γ α}
    (hx : Records x' x) : Records (withLock lock x') (withLock lock x) := by
  intro r
  by_cases hlock : lock ∈ r.held
  · have hblocked := withLock_of_held (m := r.forgetting) hlock x
    exact ⟨by rw [withLock_of_held hlock, hblocked]; rfl,
      by rw [withLock_of_held hlock]; exact .refl r⟩
  · have hinside := hx { r with held := lock :: r.held }
    have hsame : forgotten (x' { r with held := lock :: r.held })
      = x { r.forgetting with held := lock :: r.forgetting.held } := hinside.same
    constructor
    · rw [withLock_apply hlock, withLock_apply (m := r.forgetting) hlock, ← hsame]
      cases x' { r with held := lock :: r.held } <;> rfl
    · rw [ending_withLock x' hlock]
      exact ⟨hinside.balanced.balance⟩

theorem records_note (level : Level) (target message : String) :
    Records (note level target message : Op (γ × List Performance) Unit) (note level target message) :=
  records_modify (fun _ => rfl) (fun _ => rfl) fun _ => rfl

theorem records_setState (state : GcState) :
    Records (setState state : Op (γ × List Performance) Unit) (setState state) :=
  records_modify (fun _ => rfl) (fun _ => rfl) fun _ => rfl

theorem records_expect (condition : Bool) {message' : Unit → Op (γ × List Performance) String}
    {message : Unit → Op γ String} (hmessage : Records (message' ()) (message ())) :
    Records (expect condition message') (expect condition message) := by
  refine records_ite (records_pure ()) (records_ofGet fun r => ?_)
  have hmode : r.forgetting.mode = r.mode := rfl
  rw [hmode]
  cases r.mode with
  | debug => exact (hmessage.bind fun _ => records_raise _) r
  | release => exact records_pure () r

theorem records_park : Records (park : Op (γ × List Performance) Unit) park :=
  (records_setState _).bind fun _ => records_ofGet fun r =>
    ((records_note .trace "safepoint" ("thread " ++ toString r.running.id ++ " parked")).bind
      fun _ => records_throw _) r

theorem records_resume : Records (resume : Op (γ × List Performance) Unit) resume := by
  have hsay : Records (do
      note .trace "safepoint" ("thread " ++ toString (← get).running.id ++ " running")
        : Op (γ × List Performance) Unit) (do
      note .trace "safepoint" ("thread " ++ toString (← get).running.id ++ " running")) :=
    records_ofGet fun r =>
      records_note .trace "safepoint" ("thread " ++ toString r.running.id ++ " running") r
  exact (records_setState _).bind fun _ => records_ofGet fun r =>
    records_ite (c := r.collecting = true) (records_park.bind fun _ => hsay) hsay r

theorem records_safepoint : Records (safepoint : Op (γ × List Performance) Unit) safepoint :=
  records_ofGet fun r => records_ite (c := r.collecting = true)
    (records_park.bind fun _ => records_resume) (records_pure ()) r

/-! ## Collections and allocations -/

theorem records_collecting (collecting : Bool) :
    Records (modify fun r => { r with collecting } : Op (γ × List Performance) Unit)
      (modify fun m => { m with collecting }) :=
  records_modify (fun _ => rfl) (fun _ => rfl) fun _ => rfl

theorem records_stopWorld : Records (stopWorld : Op (γ × List Performance) Unit) stopWorld := by
  refine (records_collecting true).bind fun _ => records_ofGet fun r => ?_
  have hnote := records_note (γ := γ) .trace "safepoint"
    (toString r.threads.length ++ " threads stopped")
  exact records_ite (c := r.waiting.any (·.state == .running) = true)
    ((records_throw _).bind fun _ => hnote) hnote r

theorem scanRegions_forgetting (r : Machine (γ × List Performance)) (regions : List Region) :
    scanRegions r.forgetting regions = scanRegions r regions := by
  induction regions with
  | nil => rfl
  | cons region rest ih =>
    rw [scanRegions, scanRegions, ih]
    rfl

namespace Host

variable (host : Host) (frames : List Value)

theorem traceRoots_forgetting (r : Machine (γ × List Performance)) :
    host.traceRoots r.forgetting frames = host.traceRoots r frames := by
  simp only [traceRoots, Machine.traceRoots, scanRegions_forgetting]
  rfl

/-- What is left to do when the heap has been collected. -/
def afterCollection (result : Unit × Collection) : Op γ Stats := fun m =>
  .ok m.heap.stats { m with log := m.log.push result.2.record }.clearWeak

theorem markAndSweep_eq (m : Machine γ) : host.markAndSweep frames m =
    (onHeap (Heap.collect (host.traceRoots { m with heap := .vacant } frames))
      >>= afterCollection) m := by
  unfold markAndSweep
  dsimp only
  cases hrun : onHeap (Heap.collect (host.traceRoots { m with heap := .vacant } frames)) m with
  | ok result m₁ => rw [bind_of_ok hrun]; rfl
  | error fault m₁ => rw [bind_of_error hrun]

theorem records_markAndSweep :
    Records (host.markAndSweep frames : Op (γ × List Performance) Stats) (host.markAndSweep frames) := by
  intro r
  have htrace : host.traceRoots { r.forgetting with heap := .vacant } frames
      = host.traceRoots { r with heap := .vacant } frames :=
    host.traceRoots_forgetting frames { r with heap := .vacant }
  have hafter : ∀ result, Records (afterCollection result : Op (γ × List Performance) Stats)
      (afterCollection result) := fun result r₁ =>
    ⟨rfl, balanced_of_queues (.refl r₁.heap) rfl⟩
  obtain ⟨hsame, hbalanced⟩ := (records_onHeap (γ := γ) (Heap.queues_collect
    (host.traceRoots { r with heap := .vacant } frames))).bind hafter r
  constructor
  · rw [markAndSweep_eq, markAndSweep_eq, htrace]
    exact hsame
  · rw [markAndSweep_eq]
    exact hbalanced

theorem records_collectLocked :
    Records (host.collectLocked frames : Op (γ × List Performance) Stats) (host.collectLocked frames) :=
  records_withLock _ <| records_withLock _ <| records_stopWorld.bind fun _ =>
    (host.records_markAndSweep frames).bind fun _ => (records_collecting false).bind fun _ =>
      records_pure _

theorem records_tryAllocate (kind : Kind) (words : Nat) :
    Records (host.tryAllocate kind words : Op (γ × List Performance) (Option Value))
      (host.tryAllocate kind words) :=
  records_onHeap fun h => by
    have hqueues := Heap.queues_tryAllocate kind words
      { h with space := { h.space with pages := host.system h.space } }
    exact hqueues

theorem records_claim (kind : Kind) (words : Nat) :
    Records (host.claim frames kind words : Op (γ × List Performance) Value)
      (host.claim frames kind words) := by
  refine (host.records_tryAllocate kind words).bind fun v? => ?_
  cases v? with
  | some v => exact records_pure v
  | none =>
    refine ((host.records_collectLocked frames).bind fun _ => records_pure _).bind fun _ =>
      (host.records_tryAllocate kind words).bind fun v? => ?_
    cases v? with
    | some v => exact records_pure v
    | none => exact records_ofGet fun r => records_raise _ r

theorem records_allocateLocked (kind : Kind) (words : Nat) :
    Records (host.allocateLocked frames kind words : Op (γ × List Performance) Value)
      (host.allocateLocked frames kind words) := by
  have hcollect := (host.records_collectLocked (γ := γ) frames).bind fun _ => records_pure PUnit.unit
  refine records_ofGet fun r => (records_ofExcept (r.heap.shouldCollect words)).bind (fun due => ?_) r
  exact records_ite (hcollect.bind fun _ => host.records_claim frames kind words)
    (host.records_claim frames kind words)

section

variable {host} {finalize' : List Value → Op (γ × List Performance) Unit}
  {finalize : List Value → Op γ Unit}
  (hfinalize : ∀ frames, Records (finalize' frames) (finalize frames))
include hfinalize

theorem records_allocateWith (frames : List Value) (kind : Kind) (words : Nat) :
    Records (host.allocateWith finalize' frames kind words)
      (host.allocateWith finalize frames kind words) := by
  refine (records_expect _ (records_pure _)).bind fun _ => records_safepoint.bind fun _ =>
    (records_withLock _ (host.records_allocateLocked frames kind words)).bind fun v =>
      records_ofGet fun r => ?_
  exact records_ite (c := r.heap.hasPendingFinalizers = true)
    ((hfinalize _).bind fun _ => records_pure v) (records_pure v) r

theorem records_collectWith (frames : List Value) :
    Records (host.collectWith finalize' frames) (host.collectWith finalize frames) :=
  (records_withLock _ (host.records_collectLocked frames)).bind fun stats =>
    (hfinalize frames).bind fun _ => records_pure stats

theorem records_build {form : Form} (frames : List Value)
    (hfill : ∀ v, Records (form.fill v : Op (γ × List Performance) Unit) (form.fill v)) :
    Records (form.build (host.allocateWith finalize' frames))
      (form.build (host.allocateWith finalize frames)) :=
  records_ofGet fun r => ((records_ofExcept (form.words r.mode)).bind fun words =>
    (records_allocateWith hfinalize frames form.kind words).bind fun v =>
      (hfill v).bind fun _ => records_pure v) r

theorem records_makeStringWith (frames : List Value) (text : String) :
    Records (host.makeStringWith finalize' frames text) (host.makeStringWith finalize frames text) :=
  records_build hfinalize frames fun _ => (records_onSpace _).bind fun _ => records_onSpace _

theorem records_makeSymbolWith (frames : List Value) (text : String) :
    Records (host.makeSymbolWith finalize' frames text) (host.makeSymbolWith finalize frames text) := by
  have hnumber : Records (freshBinding : Op (γ × List Performance) Nat) freshBinding := fun r =>
    ⟨rfl, balanced_of_queues (.refl r.heap) rfl⟩
  refine (records_makeStringWith hfinalize frames text).bind fun name =>
    records_build hfinalize _ fun v => Records.bind ?_ fun _ => hnumber.bind fun _ => records_onSpace _
  exact (records_onSpace _).bind fun _ => (records_onSpace _).bind fun _ =>
    (records_onSpace _).bind fun _ => (records_onSpace _).bind fun _ => records_onSpace _

theorem records_internWith (frames : List Value) (name : String) :
    Records (host.internWith finalize' frames name) (host.internWith finalize frames name) := by
  have hinsert : ∀ symbol, Records
      (modify fun r => { r with symbols := r.symbols.insert name symbol } :
        Op (γ × List Performance) Unit)
      (modify fun m => { m with symbols := m.symbols.insert name symbol }) := fun _ =>
    records_modify (fun _ => rfl) (fun _ => rfl) fun _ => rfl
  refine records_withLock _ (records_ofGet fun r => ?_)
  have hsymbols : r.forgetting.symbols = r.symbols := rfl
  rw [hsymbols]
  cases r.symbols.get? name with
  | some symbol => exact records_pure symbol r
  | none =>
    exact ((records_makeSymbolWith hfinalize frames name).bind fun symbol =>
      (hinsert symbol).bind fun _ => records_pure symbol) r

theorem records_perform (frames : List Value) (object : Value) (action : Action) :
    Records (host.perform finalize' frames object action)
      (host.perform finalize frames object action) := by
  cases action with
  | collect => exact (records_collectWith hfinalize frames).bind fun _ => records_pure _
  | intern name => exact (records_internWith hfinalize frames name).bind fun _ => records_pure _
  | vector words =>
    exact (records_allocateWith hfinalize frames .vector words).bind fun _ => records_pure _
  | report label keep => exact records_modify (fun _ => rfl) (fun _ => rfl) fun _ => rfl
  | fail fault => exact records_raise fault

theorem records_performAll (frames : List Value) (object : Value) (finalizer : Finalizer) :
    Records (host.performAll finalize' frames object finalizer)
      (host.performAll finalize frames object finalizer) := by
  induction finalizer with
  | nil => exact records_pure ()
  | cons action rest ih => exact (records_perform hfinalize frames object action).bind fun _ => ih

end

/-! ## The record -/

/-- Runs a finalizer and puts it on record, however it ends. -/
def recorded (object : Value) (finalizer : Finalizer) (x : Op (γ × List Performance) Unit) :
    Op (γ × List Performance) Unit := fun r =>
  match x r with
  | .ok a r => .ok a { r with client := (r.client.1, ⟨object, finalizer, true⟩ :: r.client.2) }
  | .error fault r =>
    .error fault { r with client := (r.client.1, ⟨object, finalizer, false⟩ :: r.client.2) }

/-- Runs the queued finalizers, nested at most `fuel` deep, and puts them on record. -/
def recordWith (host : Host) : Nat → List Value → Op (γ × List Performance) Unit
  | 0, _ => pure ()
  | fuel + 1, frames => do
    let r ← get
    if r.held.contains .heap then throw .blocked
    match r.heap.pending with
    | [] => return
    | (object, finalizer) :: _ =>
      modifyHeap fun heap => heap.takePendingFinalizer.2
      recorded object finalizer (host.performAll (recordWith host fuel) frames object finalizer)
      modifyHeap (·.finishFinalizer object)
      recordWith host fuel frames

/-- Runs every queued finalizer and puts them on record. -/
def recordFinalizers (host : Host) (frames : List Value) : Op (γ × List Performance) Unit := do
  host.recordWith (← get).heap.finalizerCount frames

section

variable {r r₁ : Machine (γ × List Performance)} {object : Value} {finalizer : Finalizer}
  {rest : List (Value × Finalizer)} (hpending : r.heap.pending = (object, finalizer) :: rest)
include hpending

/-- If a finalizer that is taken out of the queue does not come to its end, then its object is not
given up, as the record has it. -/
theorem balanced_unfinished (h : Balanced { r with heap := r.heap.takePendingFinalizer.2 } r₁) :
    Balanced r
      { r₁ with client := (r₁.client.1, ⟨object, finalizer, false⟩ :: r₁.client.2) } := by
  obtain ⟨performed, queued, hclient, hattached, hqueue, hfinalizing⟩ := h.balance
  simp only [Heap.takePendingFinalizer, hpending, Array.toList_push] at hattached hqueue hfinalizing
  refine ⟨⟨object, finalizer, false⟩ :: performed, queued, by simp [hclient], hattached, ?_, ?_⟩
  · rw [hpending]
    exact hqueue.cons (object, finalizer)
  · refine hfinalizing.trans ?_
    rw [← List.append_assoc]
    exact List.perm_append_comm

/-- Otherwise it is given up in the end. -/
theorem balanced_returned (h : Balanced { r with heap := r.heap.takePendingFinalizer.2 } r₁) :
    Balanced r { r₁ with
      client := (r₁.client.1, ⟨object, finalizer, true⟩ :: r₁.client.2)
      heap := r₁.heap.finishFinalizer object } := by
  obtain ⟨performed, queued, hclient, hattached, hqueue, hfinalizing⟩ := h.balance
  simp only [Heap.takePendingFinalizer, hpending, Array.toList_push] at hattached hqueue hfinalizing
  refine ⟨⟨object, finalizer, true⟩ :: performed, queued, by simp [hclient], hattached, ?_, ?_⟩
  · rw [hpending]
    exact hqueue.cons (object, finalizer)
  · rw [← List.append_assoc] at hfinalizing
    have hgiven := (hfinalizing.trans List.perm_append_comm).erase object
    rw [List.singleton_append, List.erase_cons_head] at hgiven
    exact (Heap.perm_removeLast _ object).trans hgiven

end

/-- If a finalizer is queued, then one is put on record, and either its fault ends the run, or the run
goes on with less fuel. -/
theorem recordWith_step {host : Host} {fuel : Nat} (frames : List Value)
    {r : Machine (γ × List Performance)} (hfree : Guarded.heap ∉ r.held)
    (hpending : r.heap.pending ≠ [])
    (hrecords : ∀ frames, Records (host.recordWith fuel frames : Op (γ × List Performance) Unit)
      (host.finalizeWith fuel frames)) :
    ∃ r₁, Balanced r r₁ ∧ r.client.2.length < r₁.client.2.length ∧
      (host.recordWith (fuel + 1) frames r = host.recordWith fuel frames r₁ ∧
        host.finalizeWith (fuel + 1) frames r.forgetting
          = host.finalizeWith fuel frames r₁.forgetting ∨
      ∃ fault, host.recordWith (fuel + 1) frames r = .error fault r₁ ∧
        host.finalizeWith (fuel + 1) frames r.forgetting = .error fault r₁.forgetting) := by
  obtain ⟨⟨object, finalizer⟩, rest, hqueue⟩ := List.exists_cons_of_ne_nil hpending
  have hrecord : host.recordWith (fuel + 1) frames r = (do
      modifyHeap fun heap => heap.takePendingFinalizer.2
      recorded object finalizer (host.performAll (recordWith host fuel) frames object finalizer)
      modifyHeap (·.finishFinalizer object)
      recordWith host fuel frames : Op (γ × List Performance) Unit) r := by
    rw [recordWith, bind_of_ok get_apply, if_neg (by simpa using hfree), hqueue]
  have hplain : host.finalizeWith (fuel + 1) frames r.forgetting = _ :=
    finalizeWith_cons (m := r.forgetting) hfree hqueue
  obtain ⟨hsame, hbalanced⟩ := records_performAll hrecords frames object finalizer
    { r with heap := r.heap.takePendingFinalizer.2 }
  have htake : modifyHeap (fun heap => heap.takePendingFinalizer.2) r
      = .ok () { r with heap := r.heap.takePendingFinalizer.2 } := rfl
  have htake' : modifyHeap (fun heap => heap.takePendingFinalizer.2) r.forgetting
      = .ok () (forgetting { r with heap := r.heap.takePendingFinalizer.2 }) := rfl
  rw [bind_of_ok htake] at hrecord
  rw [bind_of_ok htake'] at hplain
  cases hrun : host.performAll (host.recordWith fuel) frames object finalizer
      { r with heap := r.heap.takePendingFinalizer.2 } with
  | ok _ r₁ =>
    rw [hrun] at hsame hbalanced
    have hrecorded : recorded object finalizer
        (host.performAll (host.recordWith fuel) frames object finalizer)
        { r with heap := r.heap.takePendingFinalizer.2 } = .ok ()
          { r₁ with client := (r₁.client.1, ⟨object, finalizer, true⟩ :: r₁.client.2) } := by
      rw [recorded, hrun]
    rw [bind_of_ok hrecorded] at hrecord
    rw [bind_of_ok hsame.symm] at hplain
    exact ⟨_, balanced_returned hqueue hbalanced, Nat.lt_succ_of_le hbalanced.length_le,
      .inl ⟨hrecord, hplain⟩⟩
  | error fault r₁ =>
    rw [hrun] at hsame hbalanced
    have hrecorded : recorded object finalizer
        (host.performAll (host.recordWith fuel) frames object finalizer)
        { r with heap := r.heap.takePendingFinalizer.2 } = .error fault
          { r₁ with client := (r₁.client.1, ⟨object, finalizer, false⟩ :: r₁.client.2) } := by
      rw [recorded, hrun]
    rw [bind_of_error hrecorded] at hrecord
    rw [bind_of_error hsame.symm] at hplain
    exact ⟨_, balanced_unfinished hqueue hbalanced, Nat.lt_succ_of_le hbalanced.length_le,
      .inr ⟨fault, hrecord, hplain⟩⟩

theorem records_finalizeWith (host : Host) (fuel : Nat) (frames : List Value) :
    Records (host.recordWith fuel frames : Op (γ × List Performance) Unit)
      (host.finalizeWith fuel frames) := by
  induction fuel generalizing frames with
  | zero => exact records_pure ()
  | succ fuel ih =>
    intro r
    by_cases hheld : Guarded.heap ∈ r.held
    · have hrecord : host.recordWith (fuel + 1) frames r = .error .blocked r := by
        rw [recordWith, bind_of_ok get_apply, if_pos (by simpa using hheld)]
        rfl
      have hplain : host.finalizeWith (fuel + 1) frames r.forgetting = _ := finalizeWith_held hheld
      exact ⟨by rw [hrecord, hplain]; rfl, by rw [hrecord]; exact .refl r⟩
    by_cases hpending : r.heap.pending = []
    · have hrecord : host.recordWith (fuel + 1) frames r = .ok () r := by
        rw [recordWith, bind_of_ok get_apply, if_neg (by simpa using hheld), hpending]
        rfl
      have hplain : host.finalizeWith (fuel + 1) frames r.forgetting = _ :=
        finalizeWith_nil hheld hpending
      exact ⟨by rw [hrecord, hplain]; rfl, by rw [hrecord]; exact .refl r⟩
    obtain ⟨r₁, hbalanced, -, ⟨hrecord, hplain⟩ | ⟨fault, hrecord, hplain⟩⟩ :=
      recordWith_step frames hheld hpending ih
    · obtain ⟨hsame, hlater⟩ := ih frames r₁
      exact ⟨by rw [hrecord, hplain, hsame], by rw [hrecord]; exact hbalanced.trans hlater⟩
    · exact ⟨by rw [hrecord, hplain]; rfl, by rw [hrecord]; exact hbalanced⟩

theorem records_runFinalizers (host : Host) (frames : List Value) :
    Records (host.recordFinalizers frames : Op (γ × List Performance) Unit)
      (host.runFinalizers frames) :=
  records_ofGet fun r => records_finalizeWith host r.heap.finalizerCount frames r

end Host

end Machine

end Substrate
