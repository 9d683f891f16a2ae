import Substrate.Proofs.Collection.Accounting
import Substrate.Proofs.Space.Refusal

/-!
# A refused allocation leaves no trace

An allocation that is refused moves a cursor at most. Cursors do not show: a computation is
`Run.Indifferent` to a relation between states if it comes to the same from related states and leaves
related states, and marking, allocation and every other operation of a heap are indifferent to where the
cursors are. `Heap.Client` are the computations that can be put together from the operations of a heap,
with faults caught or not, and so a client that goes on after a refusal gets the answers that it would
have got without the call.
-/

namespace Substrate

/-! ## Computations that do not tell states apart -/

namespace Run

variable {σ α β : Type} {R : σ → σ → Prop}

/-- What a computation came to, apart from the state. -/
def answer : EStateM.Result Fault σ α → Except Fault α
  | .ok a _ => .ok a
  | .error fault _ => .error fault

/-- Catches a fault. -/
def attempt (x : Run σ α) : Run σ (Except Fault α) := fun s =>
  match x s with
  | .ok a s => .ok (.ok a) s
  | .error fault s => .ok (.error fault) s

/-- Outcomes with the same answer and related states. -/
inductive Agree (R : σ → σ → Prop) :
    EStateM.Result Fault σ α → EStateM.Result Fault σ α → Prop where
  | ok {s t : σ} (a : α) (h : R s t) : Agree R (.ok a s) (.ok a t)
  | error {s t : σ} (fault : Fault) (h : R s t) : Agree R (.error fault s) (.error fault t)

theorem Agree.answer_eq {r r' : EStateM.Result Fault σ α} (h : Agree R r r') : answer r' = answer r := by
  cases h <;> rfl

theorem Agree.cases {r r' : EStateM.Result Fault σ α} (h : Agree R r r') :
    (∃ a s t, r = .ok a s ∧ r' = .ok a t ∧ R s t) ∨
      ∃ fault s t, r = .error fault s ∧ r' = .error fault t ∧ R s t := by
  cases h with
  | ok a h => exact .inl ⟨a, _, _, rfl, rfl, h⟩
  | error fault h => exact .inr ⟨fault, _, _, rfl, rfl, h⟩

/-- The computation does not tell related states apart. -/
def Indifferent (R : σ → σ → Prop) (x : Run σ α) : Prop :=
  ∀ s t, R s t → Agree R (x s) (x t)

theorem indifferent_pure (a : α) : Indifferent R (pure a) :=
  fun _ _ h => .ok a h

theorem indifferent_throw (fault : Fault) : Indifferent R (throw fault : Run σ α) :=
  fun _ _ h => .error fault h

theorem indifferent_ofExcept (result : Except Fault α) : Indifferent R (Run.ofExcept result) := by
  cases result with
  | ok a => exact indifferent_pure a
  | error fault => exact indifferent_throw fault

theorem indifferent_modify {f : σ → σ} (hf : ∀ s t, R s t → R (f s) (f t)) :
    Indifferent R (modify f) :=
  fun s t h => .ok _ (hf s t h)

theorem Indifferent.bind {x : Run σ α} {f : α → Run σ β} (hx : Indifferent R x)
    (hf : ∀ a, Indifferent R (f a)) : Indifferent R (x >>= f) := by
  intro s t h
  change Agree R (EStateM.bind x f s) (EStateM.bind x f t)
  unfold EStateM.bind
  obtain ⟨a, s₁, t₁, hs, ht, h'⟩ | ⟨fault, s₁, t₁, hs, ht, h'⟩ := (hx s t h).cases
  · rw [hs, ht]
    exact hf a s₁ t₁ h'
  · rw [hs, ht]
    exact .error fault h'

theorem Indifferent.attempt {x : Run σ α} (hx : Indifferent R x) : Indifferent R (attempt x) := by
  intro s t h
  unfold Run.attempt
  obtain ⟨a, s₁, t₁, hs, ht, h'⟩ | ⟨fault, s₁, t₁, hs, ht, h'⟩ := (hx s t h).cases
  · rw [hs, ht]
    exact .ok _ h'
  · rw [hs, ht]
    exact .ok _ h'

end Run

open Run (Agree Indifferent)

/-! ## Marking -/

namespace Marking

variable {m k : Marking} {mode : Mode}

/-- Markers that differ in the cursors of their spaces. -/
inductive Twins (m : Marking) : Marking → Prop where
  | intro {t : Space} (h : m.space.Twins t) : Twins m { m with space := t }

theorem Twins.markObject (h : Twins m k) (a : Nat) : Twins (m.markObject a) (k.markObject a) := by
  obtain ⟨ht⟩ := h
  have hmark := ht.modifyHeader a fun header => header.tryMark.2
  unfold Marking.markObject
  dsimp only
  rw [ht.header a]
  split
  · exact ⟨ht⟩
  · exact @Twins.intro ⟨_, m.interior, a :: m.stack, m.marked + 1⟩ _ hmark

theorem indifferent_markValue (mode : Mode) (v : Value) : Indifferent Twins (markValue mode v) := by
  intro m k h
  have hmarked := h.markObject v.address
  obtain ⟨ht⟩ := h
  unfold markValue
  rw [ht.findObject?]
  split
  · cases mode with
    | debug =>
      dsimp only
      split
      · exact .ok _ hmarked
      · exact .error _ ⟨ht⟩
    | release => exact .ok _ hmarked
  · exact .ok _ ⟨ht⟩

theorem indifferent_markValues (vs : List Value) : Indifferent Twins (markValues mode vs) := by
  induction vs with
  | nil => exact Run.indifferent_pure ()
  | cons v vs ih => exact (indifferent_markValue mode v).bind fun _ => ih

theorem Twins.markAmbiguous (h : Twins m k) (word : Word) :
    Twins (m.markAmbiguous word) (k.markAmbiguous word) := by
  have hmarked := h.markObject
  obtain ⟨ht⟩ := h
  unfold Marking.markAmbiguous
  dsimp only
  rw [ht.findObject?]
  split
  · exact hmarked _
  · exact .intro ht

theorem Twins.foldl_markAmbiguous (h : Twins m k) (memory : Nat → Word) (addresses : List Nat) :
    Twins (addresses.foldl (fun m address => m.markAmbiguous (memory address)) m)
      (addresses.foldl (fun m address => m.markAmbiguous (memory address)) k) := by
  induction addresses generalizing m k with
  | nil => exact h
  | cons address addresses ih => exact ih (h.markAmbiguous _)

theorem indifferent_scanPieces (memory : Nat → Word) (pieces : List Region) :
    Indifferent Twins (scanPieces mode memory pieces) := by
  induction pieces with
  | nil => exact Run.indifferent_pure ()
  | cons piece pieces ih =>
    exact (Run.indifferent_ofExcept _).bind fun addresses =>
      (Run.indifferent_modify fun _ _ h => h.foldl_markAmbiguous memory addresses).bind fun _ => ih

theorem indifferent_markWord (mode : Mode) (a index : Nat) :
    Indifferent Twins (markWord mode a index) := by
  rintro m k ⟨ht⟩
  unfold markWord
  dsimp only
  rw [ht.word]
  exact indifferent_markValue mode _ m _ ⟨ht⟩

theorem indifferent_markListed (mode : Mode) (a : Nat) (indices : List Nat) :
    Indifferent Twins (markListed mode a indices) := by
  induction indices with
  | nil => exact Run.indifferent_pure ()
  | cons index indices ih => exact (indifferent_markWord mode a index).bind fun _ => ih

theorem indifferent_trace (mode : Mode) (a : Nat) : Indifferent Twins (trace mode a) := by
  rintro m _ ⟨ht⟩
  unfold trace
  dsimp only
  rw [ht.header a]
  obtain ⟨_, m₁, k₁, hm, hk, ⟨h'⟩⟩ | ⟨fault, m₁, k₁, hm, hk, h'⟩ := (indifferent_markListed mode a
    ((Layout.of (m.space.header a).kind).listedSlots (m.space.header a).words) m _ ⟨ht⟩).cases
  · rw [hm, hk]
    dsimp only
    split
    · exact .ok _ ⟨h'⟩
    next word _ =>
      rw [h'.word]
      split
      · exact .error _ ⟨h'⟩
      · rw [markRange_eq]
        exact indifferent_markListed mode a _ _ _ ⟨h'⟩
  · rw [hm, hk]
    exact .error fault h'

theorem indifferent_drainWith (mode : Mode) (fuel : Nat) : Indifferent Twins (drainWith mode fuel) := by
  induction fuel with
  | zero =>
    rintro m _ ⟨ht⟩
    unfold drainWith
    dsimp only
    split
    · exact .ok _ ⟨ht⟩
    · exact .error _ ⟨ht⟩
  | succ fuel ih =>
    rintro m _ ⟨ht⟩
    unfold drainWith
    dsimp only
    split
    · exact .ok _ ⟨ht⟩
    next a rest _ =>
      obtain ⟨_, m₁, k₁, hm, hk, h'⟩ | ⟨fault, m₁, k₁, hm, hk, h'⟩ :=
        (indifferent_trace mode a { m with stack := rest } _ ⟨ht⟩).cases
      · rw [hm, hk]
        exact ih m₁ k₁ h'
      · rw [hm, hk]
        exact .error fault h'

theorem indifferent_drain (mode : Mode) : Indifferent Twins (drain mode) := by
  rintro m _ ⟨ht⟩
  unfold drain
  dsimp only
  rw [ht.read Space.capacity Space.capacity_rewound, ht.read Space.footprint Space.footprint_rewound]
  exact indifferent_drainWith mode _ _ _ ⟨ht⟩

theorem indifferent_call (call : RootCall) : Indifferent Twins (call.run mode) := by
  cases call with
  | value v => exact indifferent_markValue mode v
  | slot memory location => exact indifferent_markValue mode _
  | ambiguous word => exact Run.indifferent_modify fun _ _ h => h.markAmbiguous word
  | scan memory exclusions region => exact indifferent_scanPieces memory _
  | drain => exact indifferent_drain mode

theorem indifferent_runAll (calls : List RootCall) :
    Indifferent Twins (RootCall.runAll mode calls) := by
  induction calls with
  | nil => exact Run.indifferent_pure ()
  | cons call calls ih => exact (indifferent_call call).bind fun _ => ih

end Marking

namespace Heap

variable {α β : Type} {h k : Heap} {m n : Marking}

/-! ## Collections -/

/-- Heaps that differ in the cursors of their spaces. -/
inductive Twins (h : Heap) : Heap → Prop where
  | intro {t : Space} (ht : h.space.Twins t) : Twins h { h with space := t }

theorem indifferent_markReachable (h : Heap) {x : Run Marking α}
    (hx : Indifferent Marking.Twins x) : Indifferent Marking.Twins (h.markReachable x) :=
  hx.bind fun _ => (Marking.indifferent_markValues _).bind fun _ =>
    (Marking.indifferent_markValues _).bind fun _ => (Marking.indifferent_drain _).bind fun _ =>
      Run.indifferent_pure _

theorem twins_clearFlags (hm : m.Twins n) (entries : List (Nat × Finalizer)) :
    (clearFlags entries m).Twins (clearFlags entries n) := by
  induction entries generalizing m n with
  | nil => exact hm
  | cons entry entries ih =>
    obtain ⟨ht⟩ := hm
    have hclear := ht.modifyHeader entry.1 (·.clearFlag Header.hasFinalizer)
    exact ih (@Marking.Twins.intro ⟨_, m.interior, m.stack, m.marked⟩ _ hclear)

/-- The queue is filled in the same way. -/
theorem queueUnreached_twins (h : Heap) (hm : m.Twins n) :
    Agree (fun s t => t.1 = s.1 ∧ s.2.Twins t.2) (h.queueUnreached m) (h.queueUnreached n) := by
  have hclear := twins_clearFlags hm (h.unreached m)
  have hmark : ∀ vs, Indifferent Marking.Twins (do
      Marking.markValues h.mode vs
      Marking.drain h.mode) := fun vs =>
    (Marking.indifferent_markValues vs).bind fun _ => Marking.indifferent_drain _
  have hrun := (hmark
    (((h.unreached m).map fun entry => (Value.ofAddress entry.1, entry.2)).map (·.1)) _ _ hclear).cases
  obtain ⟨ht⟩ := hm
  unfold queueUnreached
  simp only [ht.header]
  unfold unreached at hrun
  obtain ⟨_, m₁, n₁, hm, hn, h'⟩ | ⟨fault, m₁, n₁, hm, hn, h'⟩ := hrun
  · rw [hm, hn]
    exact .ok _ ⟨rfl, h'⟩
  · rw [hm, hn]
    exact .error fault ⟨rfl, h'⟩

/-- A collection does the same wherever the cursors are, and takes them back in the end. -/
theorem indifferent_collect {x : Run Marking α} (hx : Indifferent Marking.Twins x) :
    Indifferent Twins (Heap.collect x) := by
  rintro h _ @⟨t, ht⟩
  have hmark := (indifferent_markReachable { h with space := .vacant } hx
    (.start h.space h.options.interiorPointers) (.start t h.options.interiorPointers) ⟨ht⟩).cases
  unfold Heap.collect
  dsimp only
  obtain ⟨result, m, n, hm, hn, htwins⟩ | ⟨fault, m, n, hm, hn, ⟨ht'⟩⟩ := hmark
  · rw [hm, hn]
    dsimp only
    obtain ⟨_, ⟨h₁, m₁⟩, ⟨h₂, m₂⟩, hs, ht, hheap, ⟨ht'⟩⟩ |
      ⟨fault, ⟨h₁, m₁⟩, ⟨h₂, m₂⟩, hs, ht, hheap, ⟨ht'⟩⟩ :=
        (queueUnreached_twins { h with space := .vacant } htwins).cases
    · obtain rfl : h₂ = h₁ := hheap
      rw [hs, ht]
      dsimp only [finish]
      rw [ht'.sweep]
      exact .ok _ ⟨.refl (Space.passed_sweep _)⟩
    · obtain rfl : h₂ = h₁ := hheap
      rw [hs, ht]
      exact .error fault (@Twins.intro { h₂ with space := m₁.space } _ ht')
  · rw [hm, hn]
    exact .error fault (@Twins.intro { h with space := _ } _ ht')

/-- A completed collection leaves every cursor at the first block. -/
theorem passed_collect {x : Run Marking α} {h' : Heap} {result : α × Collection}
    (hrun : Heap.collect x h = .ok result h') : h'.space.Passed := by
  unfold Heap.collect at hrun
  dsimp only at hrun
  split at hrun
  · cases hrun
  · split at hrun
    · cases hrun
    · cases hrun
      exact Space.passed_sweep _

/-! ## The other operations -/

theorem Twins.tryAllocate (hk : h.Twins k) (kind : Kind) (words : Nat) :
    Agree Twins (Heap.tryAllocate kind words h) (Heap.tryAllocate kind words k) := by
  obtain @⟨t, ht⟩ := hk
  obtain ⟨hanswer, hspace⟩ := ht.allocate h.mode kind words
  unfold Heap.tryAllocate
  dsimp only
  revert hanswer hspace
  rcases t.allocate h.mode kind words with ⟨answer', t'⟩
  rcases h.space.allocate h.mode kind words with ⟨fault | _ | address, s'⟩
  · rintro rfl ht'
    exact .error fault (@Twins.intro { h with space := s' } _ ht')
  · rintro rfl ht'
    exact .ok none (@Twins.intro { h with space := s' } _ ht')
  · rintro rfl ht'
    dsimp only
    split
    · exact .error _ (@Twins.intro { h with space := s' } _ ht')
    next bytes _ =>
      exact .ok _ (@Twins.intro { h with
        space := s'
        allocatedSince := h.allocatedSince + bytes
        bytesAllocated := h.bytesAllocated + bytes
        objectsAllocated := h.objectsAllocated + 1 } _ ht')

theorem indifferent_registerFinalizer (v : Value) (action : Finalizer) :
    Indifferent Twins (registerFinalizer v action) := by
  rintro h _ @⟨t, ht⟩
  have hlive : isLive { h with space := t } v = h.isLive v := by
    rw [isLive, ht.findObject?, isLive]
  have hflag := ht.modifyHeader v.address (·.setFlag Header.hasFinalizer)
  unfold registerFinalizer
  rw [hlive]
  split
  · exact .ok _ (@Twins.intro { h with
      space := _
      finalizers := (v.address, action) :: h.finalizers.filter (·.1 != v.address) } _ hflag)
  · dsimp only
    split
    · exact .error _ ⟨ht⟩
    · exact .ok _ ⟨ht⟩

theorem Twins.takePendingFinalizer (hk : h.Twins k) :
    k.takePendingFinalizer.1 = h.takePendingFinalizer.1 ∧
      Twins h.takePendingFinalizer.2 k.takePendingFinalizer.2 := by
  obtain ⟨ht⟩ := hk
  unfold Heap.takePendingFinalizer
  dsimp only
  split
  · exact ⟨rfl, ⟨ht⟩⟩
  next object action rest _ =>
    exact ⟨rfl, @Twins.intro { h with pending := rest, finalizing := h.finalizing.push object } _ ht⟩

theorem indifferent_read (g : Space → α) (hg : ∀ s, g s.rewound = g s) :
    Indifferent Twins fun h => .ok (g h.space) h := by
  rintro h _ ⟨ht⟩
  dsimp only
  rw [ht.read g hg]
  exact .ok _ ⟨ht⟩

theorem indifferent_write {f : Space → Space} (hf : ∀ {s t : Space}, s.Twins t → (f s).Twins (f t)) :
    Indifferent Twins fun h => .ok () { h with space := f h.space } := by
  rintro h _ ⟨ht⟩
  exact .ok () (@Twins.intro { h with space := f h.space } _ (hf ht))

/-! ## Clients -/

/-- The computations that are put together from the operations of a heap. Memory is read and written by
words, of an object or wherever they are; what is kept outside of the blocks, such as the statistics, the
threshold and the queue, can be viewed. An allocation comes with what the system has to offer by then. -/
inductive Client : {α : Type} → Run Heap α → Prop where
  | pure {α : Type} (a : α) : Client (pure a)
  | throw {α : Type} (fault : Fault) : Client (throw fault : Run Heap α)
  | bind {α β : Type} {x : Run Heap α} {f : α → Run Heap β} (hx : Client x) (hf : ∀ a, Client (f a)) :
      Client (x >>= f)
  | attempt {α : Type} {x : Run Heap α} (hx : Client x) : Client (Run.attempt x)
  | view {α : Type} (g : Heap → α)
      (hg : ∀ (h : Heap) (pools : Array Pool), g { h with space := { h.space with pools } } = g h) :
      Client fun h => .ok (g h) h
  | objects : Client fun h => .ok h.space.objects h
  | find (address : Nat) (interior : Bool) : Client fun h => .ok (h.space.findObject? address interior) h
  | header (address : Nat) : Client fun h => .ok (h.space.header address) h
  | word (address index : Nat) : Client fun h => .ok (h.space.word address index) h
  | setWord (address index : Nat) (bits : Word) :
      Client fun h => .ok () { h with space := h.space.setWord address index bits }
  | load (address : Nat) : Client fun h => .ok (h.space.load address) h
  | store (address : Nat) (bits : Word) :
      Client fun h => .ok () { h with space := h.space.store address bits }
  | allocate (pages : Pages) (kind : Kind) (words : Nat) :
      Client fun h => Heap.tryAllocate kind words { h with space := { h.space with pages } }
  | register (v : Value) (action : Finalizer) : Client (registerFinalizer v action)
  | take : Client fun h => .ok h.takePendingFinalizer.1 h.takePendingFinalizer.2
  | finish (object : Value) : Client fun h => .ok () (h.finishFinalizer object)
  | collect (calls : List RootCall) : Client fun h => Heap.collect (RootCall.runAll h.mode calls) h

/-- No client sees where the cursors are. -/
theorem Client.indifferent {x : Run Heap α} (hx : Client x) : Indifferent Twins x := by
  induction hx with
  | pure a => exact Run.indifferent_pure a
  | throw fault => exact Run.indifferent_throw fault
  | bind _ _ ihx ihf => exact ihx.bind ihf
  | attempt _ ih => exact ih.attempt
  | view g hg =>
    rintro h _ @⟨t, ht⟩
    obtain ⟨pools, rfl, -⟩ := Space.exists_pools ht.same
    dsimp only
    rw [hg h pools]
    exact .ok _ (.intro ht)
  | objects => exact indifferent_read Space.objects Space.objects_rewound
  | find address interior =>
    exact indifferent_read (·.findObject? address interior) (Space.findObject?_rewound · address interior)
  | header address => exact indifferent_read (·.header address) (Space.header_rewound · address)
  | word address index =>
    exact indifferent_read (·.word address index) (Space.word_rewound · address index)
  | setWord address index bits => exact indifferent_write (·.setWord address index bits)
  | load address => exact indifferent_read (·.load address) (Space.load_rewound · address)
  | store address bits => exact indifferent_write (·.store address bits)
  | allocate pages kind words =>
    rintro h _ ⟨ht⟩
    have hoffer := ht.write (g := fun s => { s with pages }) (fun _ => rfl) fun _ hs => hs
    exact (@Twins.intro { h with space := { h.space with pages } } _ hoffer).tryAllocate kind words
  | register v action => exact indifferent_registerFinalizer v action
  | take =>
    intro h k hk
    obtain ⟨hanswer, hrest⟩ := hk.takePendingFinalizer
    dsimp only
    rw [hanswer]
    exact .ok _ hrest
  | finish object =>
    rintro h _ ⟨ht⟩
    exact .ok () (@Twins.intro (h.finishFinalizer object) _ ht)
  | collect calls =>
    rintro h _ ⟨ht⟩
    exact indifferent_collect (Marking.indifferent_runAll calls) h _ ⟨ht⟩

/-! ## The result -/

theorem passed_tryAllocate {h' : Heap} {kind : Kind} {words : Nat} {result : Option Value}
    (hrun : Heap.tryAllocate kind words h = .ok result h') (hp : h.space.Passed) : h'.space.Passed := by
  have hpassed := hp.allocate h.mode kind words
  unfold Heap.tryAllocate at hrun
  dsimp only at hrun
  split at hrun
  · cases hrun
  next hnone =>
    rw [hnone] at hpassed
    cases hrun
    exact hpassed
  next hsome =>
    rw [hsome] at hpassed
    split at hrun
    · cases hrun
    · cases hrun
      exact hpassed

/-- The cursors only ever pass blocks without a free cell. -/
theorem Reachable.passed (hr : Reachable h) : h.space.Passed := by
  induction hr with
  | new mode options => exact Space.passed_new _
  | allocate _ _ _ hrun ih => exact passed_tryAllocate hrun ih
  | write _ _ _ bits _ ih => exact ih.modifyCell _ _
  | register _ hrun ih =>
    obtain ⟨-, rfl⟩ | rfl := registerFinalizer_cases hrun
    · exact ih.modifyCell _ _
    · exact ih
  | take _ ih =>
    unfold takePendingFinalizer
    split
    · exact ih
    · exact ih
  | finish _ _ ih => exact ih
  | collect _ _ hrun _ => exact passed_collect hrun

/-- An allocation is refused exactly when it must be, and a refusal changes nothing. If the system grants
every mapping, then in every heap at the end of a run a request comes to nothing exactly if the payload is
too long for a header, or the size class has no free cell and another block would exceed the maximum, or
the object is too large for the size classes and its pages would exceed the maximum. The statistics, the
objects and their contents are then as they were, and whatever a client does next, it gets the answers
that it would have got without the call. -/
theorem Reachable.refusal_exact (hr : Reachable h) {pages : Pages} (fresh : pages.Fresh h.space.Held)
    (hgrants : pages.Grants) (kind : Kind) (words : Nat) :
    ∃ result h', Heap.tryAllocate kind words { h with space := { h.space with pages } } = .ok result h' ∧
      (result = none ↔
        2 ^ 32 ≤ words ∨
        (∃ c, sizeClassFor? ((1 + words) * wordBytes) = some c ∧
          (∀ i b, h.space.block? c i = some b → ∀ cell ∈ b.cells, cell.header.kind ≠ .free) ∧
          h.options.maxSize < h.stats.footprint + 65536) ∨
        (sizeClassFor? ((1 + words) * wordBytes) = none ∧
          h.options.maxSize < h.stats.footprint + pagesFor ((1 + words) * wordBytes))) ∧
      (result = none →
        h'.stats = h.stats ∧ h'.space.objects = h.space.objects ∧
        (∀ a, h'.space.object? a = h.space.object? a) ∧
        ∀ (α : Type) (x : Run Heap α), Client x →
          Run.answer (x h') = Run.answer (x { h with space := { h.space with pages } })) := by
  have hsame := Space.Same.pages h.space pages
  have hpassed : ({ h.space with pages } : Space).Passed := hr.passed
  obtain ⟨result, t, hanswer, hiff, hrewound⟩ :=
    (hsame.valid hr.wellFormed.valid).allocate_eq_none_iff h.mode hpassed (hsame.fresh fresh) hgrants
      kind words
  rw [← hr.balanced.limit]
  cases result with
  | none =>
    have htwins : ({ h.space with pages } : Space).Twins t := by
      have ht := hpassed.allocate h.mode kind words
      rw [hanswer] at ht
      exact ⟨hrewound rfl, hpassed, ht⟩
    refine ⟨none, { h with space := t }, ?_, ⟨fun _ => hiff.mp rfl, fun _ => rfl⟩,
      fun _ => ⟨?_, ?_, fun a => ?_, fun α x hx => ?_⟩⟩
    · simp only [Heap.tryAllocate, hanswer]
    · exact congrArg (Stats.mk h.bytesAllocated h.objectsAllocated h.collections h.objectsReclaimed
        h.bytesReclaimed h.liveBytes) (htwins.read Space.footprint Space.footprint_rewound)
    · exact htwins.read Space.objects Space.objects_rewound
    · exact htwins.read (·.object? a) (Space.object?_rewound · a)
    · exact (hx.indifferent _ _
        (@Twins.intro { h with space := { h.space with pages } } _ htwins)).answer_eq
  | some address =>
    have hwords : words < Space.payloadLimit := words_lt_of_allocate hanswer
    simp only [Heap.tryAllocate, hanswer, allocationSize_eq h.mode (bytes_lt_of_payload hwords)]
    exact ⟨_, _, rfl, refused_iff_of_granted fun hrefuses =>
      absurd (hiff.mpr hrefuses) (Option.some_ne_none _)⟩

/-- What the lonely vector's heap holds lies below the next megabyte. -/
theorem fresh_lonelyHeap : Pages.Fresh ⟨0x7f0000100000, 0x1000000000⟩ lonelyHeap.space.Held := by
  refine ⟨by decide, by decide, fun bytes hbytes => ?_, fun bytes _ r hr => .inr ?_⟩
  · simp only [wordLimit] at *
    omega
  · obtain ⟨hblocks, hlarges⟩ : (∀ b ∈ lonelyHeap.space.blocks, b.start = 0x7f0000000000) ∧
        lonelyHeap.space.larges = [] := by decide +kernel
    cases hr with
    | @block c i b hb =>
      have hstart := hblocks b (Space.mem_blocks.mpr ⟨c, i, hb⟩)
      simp only [hstart, blockBytes]
      decide
    | large hobject =>
      have hmem := Space.mem_larges.mpr ⟨_, hobject⟩
      rw [hlarges] at hmem
      cases hmem

/-- There is no room for a small vector beside the lonely one, and the client that asked for it in vain
counts one object as before. -/
theorem Reachable.refusal_exact_lonelyHeap :
    ∃ h', Heap.tryAllocate .vector 3
        { lonelyHeap with space := { lonelyHeap.space with pages := ⟨0x7f0000100000, 0x1000000000⟩ } }
          = .ok none h' ∧
      h'.stats.objectsAllocated = 1 ∧ h'.space.objects = [0x7f0000000000] := by
  obtain ⟨result, h', hrun, hiff, hnone⟩ := life_lonelyHeap.reachable.refusal_exact fresh_lonelyHeap
    (show (0x1000000000 : Nat) ≤ 0x1000000000 from Nat.le_refl _) .vector 3
  have hempty : (lonelyHeap.space.pools[2]?).map (·.blocks.size) = some 0 := by decide +kernel
  have hclass : ∀ i b, lonelyHeap.space.block? 2 i = some b →
      ∀ cell ∈ b.cells, cell.header.kind ≠ .free := by
    intro i b hb
    obtain ⟨pool, hpool, hi⟩ := Option.bind_eq_some_iff.mp hb
    rw [hpool, Option.map_some, Option.some.injEq] at hempty
    rw [Array.eq_empty_of_size_eq_zero hempty] at hi
    cases hi
  obtain rfl : result = none :=
    hiff.mpr (.inr (.inl ⟨2, by decide, hclass, by decide +kernel⟩))
  obtain ⟨hstats, hobjects, -⟩ := hnone rfl
  refine ⟨h', hrun, ?_, ?_⟩
  · rw [hstats]
    decide +kernel
  · rw [hobjects]
    decide +kernel

end Heap

end Substrate
