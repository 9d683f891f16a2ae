import Substrate.Proofs.Collection.Refusal
import Substrate.Proofs.Construct.Survival
import Substrate.Proofs.Panics
import Substrate.Proofs.Space.Shortage

/-!
# Running out of memory

An allocation runs out of memory only right after a collection, and then memory is short: what the
collection kept, and the blocks that it left empty, are too much to leave room for the request
(`Host.exhausted_short`). The empty blocks do count. One of them is kept for each size class, also if
another class is in need of it, so that an allocation can fail on a heap without a single object
(`Host.exhausted_without_objects`).
-/

namespace Substrate

/-- The kind is written to memory that is there already. So whether there is any does not depend on it. -/
theorem Space.allocate_kind {s : Space} {mode : Mode} {kind : Kind} {words : Nat}
    (hnone : ∀ a t, s.allocate mode kind words ≠ (.ok (some a), t)) (other : Kind) :
    s.allocate mode other words = s.allocate mode kind words := by
  unfold Space.allocate at hnone ⊢
  by_cases hlimit : payloadLimit ≤ words
  · rw [if_pos hlimit, if_pos hlimit]
  · simp only [if_neg hlimit] at hnone ⊢
    revert hnone
    rcases s.allocateBytes mode ((1 + words) * wordBytes) with ⟨fault | _ | address, t⟩
    · exact fun _ => rfl
    · exact fun _ => rfl
    · exact fun hnone => absurd rfl (hnone address _)

theorem Heap.tryAllocate_kind {h : Heap} {kind : Kind} {words : Nat}
    (hnone : ∀ v h', Heap.tryAllocate kind words h ≠ .ok (some v) h') (other : Kind) :
    Heap.tryAllocate other words h = Heap.tryAllocate kind words h := by
  have hspace : ∀ a t, h.space.allocate h.mode kind words ≠ (.ok (some a), t) := by
    intro a t hanswer
    have hsize := allocationSize_eq h.mode (bytes_lt_of_payload (words_lt_of_allocate hanswer))
    unfold Heap.tryAllocate at hnone
    simp only [hanswer, hsize] at hnone
    exact hnone _ _ rfl
  unfold Heap.tryAllocate
  dsimp only
  rw [Space.allocate_kind hspace]

/-- A collection whose roots cannot be traced fails of just that. -/
theorem Heap.collect_of_roots_error {α : Type} {x : Run Marking α} {h : Heap} {fault : Fault}
    {k : Marking} (hroots : x (.start h.space h.options.interiorPointers) = .error fault k) :
    ∃ h', Heap.collect x h = .error fault h' := by
  have hmark : ({ h with space := .vacant } : Heap).markReachable x
      (.start h.space h.options.interiorPointers) = .error fault k := by
    change EStateM.bind x _ _ = _
    rw [EStateM.bind, hroots]
  exact ⟨{ h with space := k.space }, by simp only [Heap.collect, hmark]⟩

namespace Machine

variable {γ α β : Type} {m m' : Machine γ} {frames : List Value} {fault : Fault}

/-! ## Operations that fail -/

theorem error_of_bind {x : Op γ α} {f : α → Op γ β} (hrun : (x >>= f) m = .error fault m') :
    x m = .error fault m' ∨ ∃ a m₁, x m = .ok a m₁ ∧ f a m₁ = .error fault m' := by
  cases hx : x m with
  | ok a m₁ => exact .inr ⟨a, m₁, rfl, by rwa [bind_of_ok hx] at hrun⟩
  | error fault₁ m₁ =>
    rw [bind_of_error hx] at hrun
    cases hrun
    exact .inl rfl

theorem error_of_discard {x : Op γ α} (hrun : (discard x : Op γ PUnit) m = .error fault m') :
    x m = .error fault m' := by
  obtain herror | ⟨a, m₁, -, hpure⟩ := error_of_bind hrun
  · exact herror
  · cases hpure

theorem error_of_raise {raised : Fault} (hrun : (raise raised : Op γ α) m = .error fault m') :
    fault = raised := by
  obtain ⟨m₁, hraise, -⟩ := raise_turned (α := α) raised m
  cases hrun.symm.trans hraise
  rfl

theorem error_of_ofExcept {result : Except Fault α}
    (hrun : (ofExcept result : Op γ α) m = .error fault m') : result = .error fault := by
  cases result with
  | ok a => cases hrun
  | error raised => rw [error_of_raise hrun]

theorem error_of_onHeap {x : Run Heap α} (hrun : onHeap x m = .error fault m') :
    ∃ heap, x m.heap = .error fault heap := by
  unfold onHeap at hrun
  dsimp only at hrun
  split at hrun
  next => cases hrun
  next raised heap hx =>
    obtain rfl := error_of_raise hrun
    exact ⟨heap, hx⟩

theorem error_of_withLock {lock : Guarded} {x : Op γ α} (hrun : withLock lock x m = .error fault m') :
    fault = .blocked ∨ ∃ m₁, x { m with held := lock :: m.held } = .error fault m₁ ∧
      m' = { m₁ with held := m₁.held.erase lock } := by
  by_cases hheld : lock ∈ m.held
  · cases hrun.symm.trans (withLock_of_held hheld x)
    exact .inl rfl
  · rw [withLock_apply hheld] at hrun
    split at hrun
    next => cases hrun
    next m₁ hx =>
      cases hrun
      exact .inr ⟨m₁, hx, rfl⟩

theorem error_of_stopWorld (hrun : stopWorld m = .error fault m') : fault = .blocked := by
  by_cases hstopped : ∀ thread ∈ m.waiting, thread.state ≠ .running
  · obtain ⟨m₁, hstop, -⟩ := stopWorld_eq hstopped
    cases hrun.symm.trans hstop
  · obtain ⟨m₁, hblocked⟩ := stopWorld_blocked hstopped
    cases hrun.symm.trans hblocked
    rfl

theorem error_of_expect {condition : Bool} {text : String}
    (hrun : expect condition (fun _ => return text) m = .error fault m') :
    fault = .fatal .contractViolation text := by
  unfold expect at hrun
  split at hrun
  · cases hrun
  · rw [bind_of_ok get_apply] at hrun
    cases hmode : m.mode with
    | debug =>
      rw [hmode] at hrun
      exact error_of_raise hrun
    | release =>
      rw [hmode] at hrun
      cases hrun

theorem error_of_safepoint (hrun : safepoint m = .error fault m') : fault = .blocked := by
  cases hflag : m.collecting with
  | false => cases hrun.symm.trans (safepoint_of_lowered hflag)
  | true =>
    obtain ⟨m₁, hblocked⟩ := safepoint_of_raised hflag
    cases hrun.symm.trans hblocked
    rfl

namespace Host

variable {host : Host} {kind : Kind} {words : Nat}

theorem panics_traceRoots (m : Machine γ) :
    Run.OnlyFaults Fault.IsPanic (host.traceRoots m frames) :=
  (Machine.panics_traceRoots m).bind fun _ => Run.onlyFaults_modify _

/-- A machine in order has its collections completed, unless it waits for ever or a region cannot be
scanned. -/
theorem error_of_collectLocked (hs : Sound m) (hrun : host.collectLocked frames m = .error fault m') :
    fault = .blocked ∨ fault.IsPanic := by
  obtain hblocked | ⟨m₁, hthreads, -⟩ := error_of_withLock hrun
  · exact .inl hblocked
  obtain hblocked | ⟨m₂, hroots, -⟩ := error_of_withLock hthreads
  · exact .inl hblocked
  obtain hstop | ⟨_, m₃, hstop, hrest⟩ := error_of_bind hroots
  · exact .inl (error_of_stopWorld hstop)
  obtain hmark | ⟨_, m₄, -, hrest⟩ := error_of_bind hrest
  · obtain ⟨hbeside, hheap⟩ := of_stopWorld hstop
    unfold markAndSweep at hmark
    dsimp only at hmark
    split at hmark
    next raised m₄ hfails =>
      cases hmark
      obtain ⟨heap, hcollect⟩ := error_of_onHeap hfails
      rw [hheap] at hcollect
      cases htrace : host.traceRoots { m₃ with heap := .vacant } frames
          (.start m.heap.space m.heap.options.interiorPointers) with
      | error raised k =>
        obtain ⟨heap', hfails'⟩ := Heap.collect_of_roots_error htrace
        cases hcollect.symm.trans hfails'
        exact .inr (panics_traceRoots _ _ _ _ htrace)
      | ok u k =>
        have hcalls := host.traceRoots_ok htrace
        have hsame : callsWith { m₃ with heap := .vacant } (host.seen frames)
            = m.callsWith (host.seen frames) := hbeside.callsWith (host.seen frames)
        obtain ⟨collection, heap', hcompleted, -⟩ :=
          hs.wellFormed.collect (hs.permitted (host.seen frames))
        have hmode : m₃.mode = m.heap.mode := hbeside.mode.trans hs.mode.symm
        rw [hsame] at hcalls
        dsimp only at hcalls
        rw [hmode] at hcalls
        rw [Heap.collect_congr (hcalls.trans htrace.symm)] at hcompleted
        cases hcompleted.symm.trans hcollect
    next => cases hmark
  · cases hrest

theorem not_fatal_of_collectLocked (hs : Sound m) {sort : FatalKind} {message : String} :
    (discard (host.collectLocked frames) : Op γ PUnit) m ≠ .error (.fatal sort message) m' := by
  intro hrun
  obtain hblocked | hpanic := error_of_collectLocked hs (error_of_discard hrun)
  · cases hblocked
  · exact hpanic

/-- A request is granted or refused. -/
theorem not_error_of_tryAllocate (hs : Sound m) (hhonest : host.Honest m.heap.space) :
    host.tryAllocate kind words m ≠ .error fault m' := by
  intro hrun
  obtain ⟨heap, hfails⟩ := error_of_onHeap hrun
  have hother := Heap.tryAllocate_kind (fun v h' hok => by cases hok.symm.trans hfails) .vector
  obtain ⟨_, _, hok, -⟩ :=
    hs.wellFormed.tryAllocate (hhonest _ .refl hs.valid) (show Kind.isHeap .vector = true from rfl) words
  cases hok.symm.trans (hother.trans hfails)

/-- What a request is refused for, a vector is refused for as well. -/
theorem vector_refused (hrun : host.tryAllocate kind words m = .ok none m') :
    host.tryAllocate .vector words m = .ok none m' := by
  obtain ⟨heap, hnone, rfl⟩ := of_onHeap hrun
  have hother := Heap.tryAllocate_kind (fun v h' hok => by cases hok.symm.trans hnone) .vector
  unfold Host.tryAllocate onHeap
  dsimp only
  rw [hother.trans hnone]

theorem passes_of_refused (frames : List Value) (hs : Sound m) (hr : m.heap.Reachable)
    (hhonest : host.Honest m.heap.space) (hrun : host.tryAllocate kind words m = .ok none m') :
    Passes frames m m' ∧ m'.heap.Reachable ∧ host.Honest m'.heap.space := by
  have hvector := vector_refused hrun
  have hlater := ((agrees_tryAllocate .vector words).of_ok hhonest hvector).2
  have hpasses : Passes frames m m' := passes_tryAllocate hs hhonest rfl hvector
  obtain ⟨heap, hnone, rfl⟩ := of_onHeap hvector
  exact ⟨hpasses, .allocate hr (hhonest _ .refl hs.valid) rfl hnone, hlater⟩

theorem frugal_of_collectLocked (hs : Sound m) (hr : m.heap.Reachable) {stats : Stats}
    (hrun : host.collectLocked frames m = .ok stats m') :
    Passes (host.seen frames) m m' ∧ m'.heap.Reachable ∧ m'.heap.space.Frugal ∧
      m.heap.Survives (m.callsWith (host.seen frames)) m'.heap := by
  obtain ⟨-, collection, hcollect⟩ := host.collects_of_collectLocked hs.mode hrun
  have hcalls := hs.permitted (host.seen frames)
  obtain ⟨-, -, hspares⟩ := hr.balanced.collect hs.wellFormed hcalls hcollect
  obtain ⟨_, heap, hrun', hsurvives⟩ := hs.wellFormed.collect hcalls
  cases hcollect.symm.trans hrun'
  refine ⟨(host.passes_collectLocked hs hrun).1, .collect hr hcalls hcollect, fun row hrow => ?_,
    hsurvives⟩
  obtain ⟨pool, hpool, rfl⟩ := List.mem_map.mp hrow
  exact hspares pool hpool

/-- An allocation runs out of memory when a collection was of no use. -/
theorem claim_exhausted (hs : Sound m) (hr : m.heap.Reachable) (hhonest : host.Honest m.heap.space)
    {message : String}
    (hrun : host.claim frames kind words m = .error (.fatal .heapExhausted message) m') :
    ∃ m₀ stats m₁ m₂, Passes (host.seen frames) m m₀ ∧ m₀.heap.Reachable ∧
      host.collectLocked frames m₀ = .ok stats m₁ ∧ host.Honest m₁.heap.space ∧
      host.tryAllocate kind words m₁ = .ok none m₂ ∧ m'.heap = m₂.heap := by
  obtain hfirst | ⟨result, m₀, hfirst, hrest⟩ := error_of_bind hrun
  · exact absurd hfirst (not_error_of_tryAllocate hs hhonest)
  cases result with
  | some v => cases hrest
  | none =>
    obtain ⟨hpasses, hr₀, hhonest₀⟩ := passes_of_refused (host.seen frames) hs hr hhonest hfirst
    obtain hcollect | ⟨_, m₁, hcollect, hrest⟩ := error_of_bind hrest
    · exact absurd hcollect (not_fatal_of_collectLocked hpasses.sound)
    obtain ⟨stats, hcollect⟩ := of_discard hcollect
    obtain ⟨hpasses₁, -⟩ := frugal_of_collectLocked hpasses.sound hr₀ hcollect
    obtain ⟨-, hhonest₁⟩ := (agrees_collectLocked frames).of_ok hhonest₀ hcollect
    obtain hsecond | ⟨result, m₂, hsecond, hrest⟩ := error_of_bind hrest
    · exact absurd hsecond (not_error_of_tryAllocate hpasses₁.sound hhonest₁)
    cases result with
    | some v => cases hrest
    | none =>
      refine ⟨m₀, stats, m₁, m₂, hpasses, hr₀, hcollect, hhonest₁, hsecond, ?_⟩
      cases hrest
      rfl

theorem allocateLocked_exhausted (hs : Sound m) (hr : m.heap.Reachable)
    (hhonest : host.Honest m.heap.space) {message : String}
    (hrun : host.allocateLocked frames kind words m = .error (.fatal .heapExhausted message) m') :
    ∃ m₀ stats m₁ m₂, Passes (host.seen frames) m m₀ ∧ m₀.heap.Reachable ∧
      host.collectLocked frames m₀ = .ok stats m₁ ∧ host.Honest m₁.heap.space ∧
      host.tryAllocate kind words m₁ = .ok none m₂ ∧ m'.heap = m₂.heap := by
  unfold allocateLocked at hrun
  rw [bind_of_ok get_apply] at hrun
  obtain hdue | ⟨due, m₁, hdue, hrest⟩ := error_of_bind hrun
  · exact (panics_shouldCollect m.heap words _ (error_of_ofExcept hdue)).elim
  obtain ⟨-, rfl⟩ := of_ofExcept hdue
  cases due with
  | false => exact claim_exhausted hs hr hhonest hrest
  | true =>
    obtain hcollect | ⟨_, m₂, hcollect, hclaim⟩ := error_of_bind hrest
    · exact absurd hcollect (not_fatal_of_collectLocked hs)
    obtain ⟨stats, hcollect⟩ := of_discard hcollect
    obtain ⟨hpasses, hr₂, -⟩ := frugal_of_collectLocked hs hr hcollect
    obtain ⟨-, hhonest₂⟩ := (agrees_collectLocked frames).of_ok hhonest hcollect
    obtain ⟨m₀, stats₀, m₃, m₄, hlater, hrest⟩ := claim_exhausted hpasses.sound hr₂ hhonest₂ hclaim
    exact ⟨m₀, stats₀, m₃, m₄, hpasses.trans hlater, hrest⟩

/-- What the space of a heap answers when the heap refuses a request. -/
theorem answer_of_refused (hs : Sound m) (hhonest : host.Honest m.heap.space)
    (hrun : host.tryAllocate kind words m = .ok none m') :
    { m.heap.space with pages := host.system m.heap.space }.allocate m.heap.mode .vector words
        = (.ok none, m'.heap.space) ∧ m.heap.space.Same m'.heap.space ∧
      m'.heap.space.pages = host.system m.heap.space := by
  have hsame := Space.Same.pages m.heap.space (host.system m.heap.space)
  have hfresh := hhonest m.heap.space .refl hs.valid
  obtain ⟨heap, hnone, rfl⟩ := of_onHeap (vector_refused hrun)
  obtain ⟨t, hanswer, ht⟩ | ⟨a, _, t, hanswer, -⟩ := hs.valid.request m.heap.mode
    hfresh (show Kind.isHeap .vector = true from rfl) words
  · simp only [Heap.tryAllocate, hanswer] at hnone
    cases hnone
    exact ⟨hanswer, ht, (hsame.valid hs.valid).pages_of_refused (hsame.fresh hfresh) hanswer⟩
  · have hsize := allocationSize_eq m.heap.mode (bytes_lt_of_payload
      (Heap.words_lt_of_allocate hanswer))
    simp only [Heap.tryAllocate, hanswer, hsize] at hnone
    cases hnone

/-- A request that is refused although the system grants every mapping is refused for lack of room. -/
theorem refuses_of_refused (hs : Sound m) (hr : m.heap.Reachable) (hhonest : host.Honest m.heap.space)
    (hrun : host.tryAllocate kind words m = .ok none m') (hgrants : (host.system m.heap.space).Grants) :
    m.heap.space.Refuses words := by
  have hsame := Space.Same.pages m.heap.space (host.system m.heap.space)
  have hfresh := hsame.fresh (hhonest m.heap.space .refl hs.valid)
  obtain ⟨result, t, hanswer, hiff, -⟩ := (hsame.valid hs.valid).allocate_eq_none_iff m.heap.mode
    hr.passed hfresh hgrants .vector words
  rw [(answer_of_refused hs hhonest hrun).1] at hanswer
  cases hanswer
  exact hiff.mp rfl

/-- Heap exhaustion is raised only when memory is short. If an allocation of fewer than `2 ^ 32` payload
words raises it, on an honest host whose last offer covers every mapping, then either the memory was
there, and it was a finalizer that raised it afterwards. Or the last collection left blocks with objects,
pages of large objects and empty blocks, one for each size class that keeps one, which together with what
the request needs exceed the maximum. The size class of the request keeps no empty block. -/
theorem exhausted_short (hhonest : host.Honest m.heap.space) (hs : Sound m) (hr : m.heap.Reachable)
    (finalize : List Value → Op γ Unit) (frames : List Value) (kind : Kind) {words : Nat}
    (hwords : words < 2 ^ 32) {message : String}
    (hrun : host.allocateWith finalize frames kind words m
      = .error (.fatal .heapExhausted message) m')
    (hgrants : ∀ s : Space, (∀ r, s.Held r ↔ m'.heap.space.Held r) →
      host.system s = m'.heap.space.pages → (host.system s).Grants) :
    (∃ v m₁, withLock .heap (host.allocateLocked frames kind words) m = .ok v m₁ ∧
      finalize (v :: frames) m₁ = .error (.fatal .heapExhausted message) m') ∨
    ∃ (m₀ : Machine γ) (stats : Stats) (m₁ : Machine γ), host.collectLocked frames m₀ = .ok stats m₁ ∧
      m₀.heap.Survives (m₀.callsWith (host.seen frames)) m₁.heap ∧
      m'.heap.space.blocks = m₁.heap.space.blocks ∧ m'.heap.space.larges = m₁.heap.space.larges ∧
      m.heap.options.maxSize < m₁.heap.space.retained + m₁.heap.space.need words
        + 65536 * m₁.heap.space.sparing.length ∧
      ∀ c, sizeClassFor? ((1 + words) * wordBytes) = some c → c ∉ m₁.heap.space.sparing := by
  -- neither the check of the kind nor the safepoint raises this
  obtain hexpect | ⟨_, m₁, hexpect, hchecked⟩ := error_of_bind hrun
  · cases error_of_expect hexpect
  rw [of_expect hexpect] at hchecked
  obtain hsafepoint | ⟨_, m₂, hsafepoint, hpolled⟩ := error_of_bind hchecked
  · cases error_of_safepoint hsafepoint
  rw [of_safepoint hsafepoint] at hpolled
  obtain hlocked | ⟨v, m₁, hlocked, hrest⟩ := error_of_bind hpolled
  · obtain hblocked | ⟨m₂, hallocate, rfl⟩ := error_of_withLock hlocked
    · cases hblocked
    obtain ⟨m₀, stats, m₁, m₃, hpasses, hr₀, hcollect, hhonest₁, hrefused, hheap⟩ :=
      allocateLocked_exhausted (hs.locked .heap) hr hhonest hallocate
    obtain ⟨hpasses₁, hr₁, hfrugal, hsurvives⟩ := frugal_of_collectLocked hpasses.sound hr₀ hcollect
    obtain ⟨-, hsame, hpages⟩ := answer_of_refused hpasses₁.sound hhonest₁ hrefused
    rw [← hheap] at hsame hpages
    have hrefuses := refuses_of_refused hpasses₁.sound hr₁ hhonest₁ hrefused
      (hgrants m₁.heap.space (fun r => hsame.held.symm) hpages.symm)
    -- the last collection is `m₀` to `m₁`; the refusal after it is judged by what it kept
    have hsettled := hr₁.balanced.settled
    obtain ⟨hmax, hown⟩ := hsettled.short hpasses₁.sound.valid hfrugal hwords hrefuses
    have hoptions : m₁.heap.options = m.heap.options :=
      hpasses₁.around.options.trans hpasses.around.options
    rw [hr₁.balanced.limit, hoptions] at hmax
    have hsameLarges : m₂.heap.space.larges = m₁.heap.space.larges :=
      congrArg (fun large => large.toList.map (·.2)) hsame.large
    exact .inr ⟨m₀, stats, m₁, hcollect, hsurvives, hsame.blocks_eq, hsameLarges, hmax, hown⟩
  · refine .inl ⟨v, m₁, hlocked, ?_⟩
    rw [bind_of_ok get_apply] at hrest
    dsimp only at hrest
    split at hrest
    · obtain hfinalize | ⟨_, m₂, -, hpure⟩ := error_of_bind hrest
      · exact hfinalize
      · cases hpure
    · cases hrest

/-! ## Running out of memory without objects -/

/-- Whether all memory of a space lies below the address. -/
def below (address : Nat) (s : Space) : Bool :=
  s.blocks.all (fun b => b.start + blockBytes ≤ address) &&
    s.large.toList.all fun entry => entry.1 + entry.2.bytes ≤ address

theorem below_iff {address : Nat} {s : Space} :
    below address s = true ↔ ∀ r, s.Held r → r.stop ≤ address := by
  simp only [below, Bool.and_eq_true, List.all_eq_true, decide_eq_true_iff]
  constructor
  · rintro ⟨hblocks, hlarges⟩ r (⟨hb⟩ | ⟨hobject⟩)
    · exact hblocks _ (Space.mem_blocks.mpr ⟨_, _, hb⟩)
    · exact hlarges _ (Std.TreeMap.mem_toList_iff_getElem?_eq_some.mpr hobject)
  · refine fun h => ⟨fun b hb => ?_, fun entry hentry => ?_⟩
    · obtain ⟨c, i, hb⟩ := Space.mem_blocks.mp hb
      exact h _ (.block hb)
    · exact h _ (.large (Std.TreeMap.mem_toList_iff_getElem?_eq_some.mp hentry))

/-- A host with plenty of memory above a megabyte. -/
def roomy : Host :=
  ⟨fun s => if below 0x7f0000100000 s then ⟨0x7f0000100000, 0x1000000000⟩ else ⟨pageBytes, 0⟩, false⟩

theorem scrupulous_roomy : roomy.Scrupulous := by
  intro s hs
  unfold roomy
  dsimp only
  split
  next hbelow =>
    refine ⟨by decide, by decide, fun bytes hbytes => ?_, fun bytes _ r hr =>
      .inr (below_iff.mp hbelow r hr)⟩
    simp only [wordLimit] at *
    omega
  next => exact Ledger.fresh_refusing _

theorem grants_roomy {s t : Space} (hbelow : below 0x7f0000100000 t = true)
    (hheld : ∀ r, s.Held r ↔ t.Held r) : (roomy.system s).Grants := by
  have hs : below 0x7f0000100000 s = true :=
    below_iff.mpr fun r hr => below_iff.mp hbelow r ((hheld r).mp hr)
  show (if below 0x7f0000100000 s then _ else _ : Pages).Grants
  rw [if_pos hs]
  exact Nat.le_refl _

theorem ready_vectorMachine : Sound vectorMachine ∧ vectorMachine.heap.Reachable := by
  obtain ⟨result, heap, hrun, hw, heq⟩ := exists_vectorMachine
  have hmode : heap.mode = .debug :=
    ((Heap.wellFormed_new .debug smallOptions.heap).rested.tryAllocate (Ledger.fresh_start 65536) rfl
      hrun).mode
  rw [heq]
  exact ⟨sound_of_start (show Machine.start .debug smallOptions () = .ok smallMachine from rfl) hw hmode,
    .allocate (.new .debug smallOptions.heap) (Ledger.fresh_start 65536) rfl hrun⟩

theorem exhausts_vectorMachine : ∃ message m',
    roomy.allocateWith roomy.runFinalizers [] .doubleFloat 1 vectorMachine
      = .error (.fatal .heapExhausted message) m' ∧
    below 0x7f0000100000 m'.heap.space = true ∧
    m'.heap.space.retained + m'.heap.space.need 1 ≤ vectorMachine.heap.options.maxSize := by
  have hrun : fails (fun fault m' => fault == .fatal .heapExhausted
          "cannot allocate a double-float of 1 words within a 65536 byte heap" &&
        below 0x7f0000100000 m'.heap.space &&
        decide (m'.heap.space.retained + m'.heap.space.need 1 ≤ vectorMachine.heap.options.maxSize))
      (roomy.allocateWith roomy.runFinalizers [] .doubleFloat 1 vectorMachine) = true := by
    decide +kernel
  obtain ⟨fault, m', hfailed, hcheck⟩ := exists_of_fails hrun
  simp only [Bool.and_eq_true, beq_iff_eq, decide_eq_true_iff] at hcheck
  obtain ⟨⟨rfl, hbelow⟩, haffords⟩ := hcheck
  exact ⟨_, m', hfailed, hbelow, haffords⟩

/-- The one block that the machine may have was kept for vectors. It has no objects, but neither is it
there for a double float. -/
theorem exhausted_short_vectorMachine : ∃ (m₀ : Machine Unit) (stats : Stats) (m₁ : Machine Unit),
    roomy.collectLocked [] m₀ = .ok stats m₁ ∧ vectorMachine.heap.options.maxSize
      < m₁.heap.space.retained + m₁.heap.space.need 1 + 65536 * m₁.heap.space.sparing.length := by
  obtain ⟨hsound, hreachable⟩ := ready_vectorMachine
  obtain ⟨message, m', hrun, hbelow, -⟩ := exhausts_vectorMachine
  obtain ⟨v, m₁, hlocked, -⟩ | ⟨m₀, stats, m₁, hcollect, -, -, -, hmax, -⟩ :=
    exhausted_short (scrupulous_roomy.honest _) hsound hreachable roomy.runFinalizers [] .doubleFloat
      (show 1 < 2 ^ 32 by decide) hrun fun s hheld _ => grants_roomy hbelow hheld
  · have hrefused : fails (fun _ _ => true) (withLock .heap (roomy.allocateLocked [] .doubleFloat 1)
        vectorMachine) = true := by decide +kernel
    rw [hlocked] at hrefused
    cases hrefused
  · exact ⟨m₀, stats, m₁, hcollect, hmax⟩

/-- Memory need not be short of what objects and the request take: here it would do. -/
theorem exhausted_without_objects : roomy.Scrupulous ∧ Sound vectorMachine ∧
    vectorMachine.heap.Reachable ∧ ∃ message m',
      roomy.allocateWith roomy.runFinalizers [] .doubleFloat 1 vectorMachine
        = .error (.fatal .heapExhausted message) m' ∧
      (∀ s : Space, (∀ r, s.Held r ↔ m'.heap.space.Held r) → (roomy.system s).Grants) ∧
      ¬ vectorMachine.heap.options.maxSize < m'.heap.space.retained + m'.heap.space.need 1 := by
  obtain ⟨message, m', hrun, hbelow, haffords⟩ := exhausts_vectorMachine
  exact ⟨scrupulous_roomy, ready_vectorMachine.1, ready_vectorMachine.2, message, m', hrun,
    fun s hheld => grants_roomy hbelow hheld, Nat.not_lt.mpr haffords⟩

end Host

end Machine

end Substrate
