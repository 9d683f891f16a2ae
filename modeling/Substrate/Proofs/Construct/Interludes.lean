import Substrate.Proofs.Construct.Honesty
import Substrate.Proofs.Construct.Passage

/-!
# Collections and finalizers in between

The operations of a host pass on what is in use (`Machine.Passes`), one after the other: a collection, an
allocation, filling in a form, making and interning a symbol, and the finalizers that do these things
again. `Host.build_spec`, `Host.makeSymbol_spec` and `Host.intern_spec` say what comes out.

The host never offers memory that is in use, next to any space (`Host.Scrupulous`); what is shown of such
hosts is shown of honest ones as well. If native stacks are not scanned, then this is only shown of
allocations after which there is no finalizer to run: the object in hand is in a native frame.
-/

namespace Substrate

namespace Heap

variable {h h' : Heap}

/-- No finalizer is attached or queued. -/
structure Unattended (h : Heap) : Prop where
  finalizers : h.finalizers = []
  pending : h.pending = []

/-- A collection moves finalizers and adds none. -/
theorem finalizers_collect {α : Type} {x : Run Marking α} {r : α × Collection}
    (hrun : Heap.collect x h = .ok r h') : h'.options = h.options ∧
      (∀ text, h'.Interns text → h.Interns text) ∧ (h.Unattended → h'.Unattended) := by
  unfold Heap.collect Heap.queueUnreached at hrun
  dsimp only at hrun
  split at hrun
  · cases hrun
  · split at hrun
    · cases hrun
    next hqueue =>
      split at hqueue
      · cases hqueue
        cases hrun
        refine ⟨rfl, ?_, fun hu => ⟨?_, ?_⟩⟩
        · rintro text (⟨entry, hentry, haction⟩ | ⟨entry, hentry, haction⟩)
          · exact .inl ⟨entry, (List.mem_filter.mp hentry).1, haction⟩
          · obtain hold | hqueued := List.mem_append.mp hentry
            · exact .inr ⟨entry, hold, haction⟩
            · obtain ⟨attached, hattached, rfl⟩ := List.mem_map.mp hqueued
              exact .inl ⟨attached, (List.mem_filter.mp hattached).1, haction⟩
        · exact (congrArg (List.filter _) hu.finalizers).trans List.filter_nil
        · show h.pending ++ _ = []
          rw [hu.pending, hu.finalizers]
          rfl
      · cases hqueue

end Heap

namespace Machine

variable {γ α β : Type} {m m' : Machine γ} {frames : List Value} {v : Value} {a : α}

/-! ## Operations that come back -/

theorem of_withLock {lock : Guarded} {x : Op γ α} (hrun : withLock lock x m = .ok a m') :
    lock ∉ m.held ∧ ∃ m₁, x { m with held := lock :: m.held } = .ok a m₁ ∧
      m' = { m₁ with held := m₁.held.erase lock } := by
  by_cases hheld : lock ∈ m.held
  · cases hrun.symm.trans (withLock_of_held hheld x)
  · rw [withLock_apply hheld] at hrun
    split at hrun
    next m₁ hx =>
      cases hrun
      exact ⟨hheld, m₁, hx, rfl⟩
    next => cases hrun

theorem of_onHeap {x : Run Heap α} (hrun : onHeap x m = .ok a m') :
    ∃ heap, x m.heap = .ok a heap ∧ m' = { m with heap } := by
  unfold onHeap at hrun
  dsimp only at hrun
  split at hrun
  next heap hx =>
    cases hrun
    exact ⟨heap, hx, rfl⟩
  next => exact (raise_ne_ok hrun).elim

theorem of_discard {x : Op γ α} (hrun : (discard x : Op γ Unit) m = .ok () m') :
    ∃ a, x m = .ok a m' := by
  obtain ⟨a, m₁, hx, hpure⟩ := exists_of_bind_ok hrun
  cases hpure
  exact ⟨a, hx⟩

theorem of_ofExcept {result : Except Fault α} (hrun : (ofExcept result : Op γ α) m = .ok a m') :
    result = .ok a ∧ m' = m := by
  cases result with
  | ok b =>
    cases hrun
    exact ⟨rfl, rfl⟩
  | error fault => exact (raise_ne_ok hrun).elim

theorem of_expect {condition : Bool} {message : Unit → Op γ String}
    (hrun : expect condition message m = .ok () m') : m' = m := by
  unfold expect at hrun
  split at hrun
  · cases hrun
    rfl
  · obtain ⟨_, m₁, hget, hrest⟩ := exists_of_bind_ok hrun
    cases hget
    cases hmode : m.mode with
    | debug =>
      rw [hmode] at hrest
      obtain ⟨_, m₂, -, hraise⟩ := exists_of_bind_ok hrest
      exact (raise_ne_ok hraise).elim
    | release =>
      rw [hmode] at hrest
      cases hrest
      rfl

theorem of_safepoint (hrun : safepoint m = .ok () m') : m' = m := by
  cases hflag : m.collecting with
  | false =>
    rw [safepoint_of_lowered hflag] at hrun
    cases hrun
    rfl
  | true =>
    obtain ⟨m₁, hblocked⟩ := safepoint_of_raised hflag
    cases hrun.symm.trans hblocked

theorem of_stopWorld (hrun : stopWorld m = .ok () m') : Beside m m' ∧ m'.heap = m.heap := by
  by_cases hstopped : ∀ thread ∈ m.waiting, thread.state ≠ .running
  · obtain ⟨m₁, hstop, hbeside, hheap, -⟩ := stopWorld_eq hstopped
    cases hrun.symm.trans hstop
    exact ⟨hbeside, hheap⟩
  · obtain ⟨m₁, hblocked⟩ := stopWorld_blocked hstopped
    cases hrun.symm.trans hblocked

namespace Host

variable (host : Host)

/-! ## Collections -/

theorem traceRoots_ok {k k' : Marking} (hrun : host.traceRoots m frames k = .ok () k') :
    RootCall.runAll m.mode (m.callsWith (host.seen frames)) k = .ok () k' := by
  obtain ⟨_, k₁, hroots, hframes⟩ := Marking.exists_of_bind_ok hrun
  rw [callsWith, RootCall.runAll_append, Marking.bind_eq_of_ok (Machine.traceRoots_ok hroots)]
  have hwords := RootCall.runAll_ambiguous m.mode ((host.seen frames).map (·.bits)) k₁
  rw [List.map_map] at hwords
  exact hwords.trans hframes

theorem of_markAndSweep {stats : Stats} (hrun : host.markAndSweep frames m = .ok stats m') :
    Beside m m' ∧ ∃ collection, Heap.collect (host.traceRoots { m with heap := .vacant } frames) m.heap
      = .ok ((), collection) m'.heap := by
  unfold markAndSweep at hrun
  dsimp only at hrun
  split at hrun
  · cases hrun
  next collection m₁ hheap =>
    obtain ⟨heap, hcollect, rfl⟩ := of_onHeap hheap
    cases hrun
    exact ⟨⟨⟨rfl, rfl, rfl, rfl, rfl, rfl⟩, rfl, rfl, rfl⟩, collection, hcollect⟩

/-- A collection that is completed has marked from the roots and from the native frames. -/
theorem of_collectLocked {stats : Stats} (hrun : host.collectLocked frames m = .ok stats m') :
    Beside m m' ∧ ∃ collection trace, Heap.collect trace m.heap = .ok ((), collection) m'.heap ∧
      ∀ k k', trace k = .ok () k' →
        RootCall.runAll m.mode (m.callsWith (host.seen frames)) k = .ok () k' := by
  obtain ⟨-, m₁, hthreads, rfl⟩ := of_withLock hrun
  obtain ⟨-, m₂, hroots, rfl⟩ := of_withLock hthreads
  obtain ⟨_, m₃, hstop, hrest⟩ := exists_of_bind_ok hroots
  obtain ⟨stats', m₄, hmark, hrest⟩ := exists_of_bind_ok hrest
  cases hrest
  obtain ⟨hbeside, hheap⟩ := of_stopWorld hstop
  obtain ⟨hbeside', collection, hcollect⟩ := host.of_markAndSweep hmark
  rw [hheap] at hcollect
  have hreleased : Beside m _ := (hbeside.trans hbeside').released false
  refine ⟨hreleased, collection, _, hcollect, fun k k' htrace => ?_⟩
  have hcalls := host.traceRoots_ok htrace
  have hsame : m₃.callsWith (host.seen frames) = m.callsWith (host.seen frames) :=
    hbeside.callsWith (host.seen frames)
  rw [← hsame]
  exact hbeside.mode ▸ hcalls

/-- It is the collection that marks from these calls. -/
theorem collects_of_collectLocked (hmode : m.heap.mode = m.mode) {stats : Stats}
    (hrun : host.collectLocked frames m = .ok stats m') : Beside m m' ∧ ∃ collection,
    Heap.collect (RootCall.runAll m.heap.mode (m.callsWith (host.seen frames))) m.heap
      = .ok ((), collection) m'.heap := by
  obtain ⟨hbeside, collection, trace, hcollect, htrace⟩ := host.of_collectLocked hrun
  obtain ⟨_, k, hmarked⟩ := Heap.collect_roots hcollect
  refine ⟨hbeside, collection, ?_⟩
  rw [← hcollect, hmode]
  exact Heap.collect_congr ((htrace _ _ hmarked).trans hmarked.symm)

/-- A collection passes on what is in use. -/
theorem passes_collectLocked (hs : Sound m) {stats : Stats}
    (hrun : host.collectLocked frames m = .ok stats m') :
    Passes (host.seen frames) m m' ∧ (m.heap.Unattended → m'.heap.Unattended) := by
  obtain ⟨hbeside, collection, hcollect⟩ := host.collects_of_collectLocked hs.mode hrun
  have hcalls := hs.permitted (host.seen frames)
  obtain ⟨_, heap, hrun', hsurvives⟩ := hs.wellFormed.collect hcalls
  obtain rfl : m'.heap = heap := by
    cases hcollect.symm.trans hrun'
    rfl
  have hlive : ∀ a, m.InUse (host.seen frames) a → (m'.heap.space.object? a).isSome := fun a huse =>
    (hsurvives.live a).mpr (Space.Reaches.mono (fun _ hroot => .root (.inl (.inl hroot))) huse)
  obtain ⟨hoptions, hinterns, hunattended⟩ := Heap.finalizers_collect hcollect
  refine ⟨.of_kept hs hsurvives.wellFormed ⟨hbeside.mode, Heap.mode_collect hcollect, hoptions,
      hbeside.roots, hbeside.memory, hbeside.running, hbeside.waiting, hbeside.held,
      hbeside.nextThread, Nat.le_of_eq hbeside.nextBinding.symm, hinterns⟩
    hbeside.symbols (fun a cell huse hcell => ?_) (fun a x huse hfind => ?_)
    fun a cell hcell => .inl ?_, hunattended⟩
  · obtain ⟨cell', hcell'⟩ := Option.isSome_iff_exists.mp (hlive a huse)
    obtain ⟨old, hold, hsim⟩ := hsurvives.contents a cell' hcell'
    obtain rfl : cell = old := Option.some.inj (hcell.symm.trans hold)
    exact ⟨cell', hcell', hsim⟩
  · exact hs.wellFormed.found_after_collection hcalls hcollect hfind (hlive a huse)
  · exact hsurvives.contents a cell hcell

/-! ## Allocations -/

/-- An allocation has given a zeroed object that is not in use yet. -/
structure Gives (frames : List Value) (m m' : Machine γ) (v : Value) (kind : Kind) (words : Nat) :
    Prop where
  passes : Passes frames m m'
  holds : ∃ header, header.kind = kind ∧ header.words = words ∧ m'.Holds v header fun _ => 0
  limit : words < Space.payloadLimit
  fresh : ∀ a, m.InUse frames a → a ≠ v.address
  unlisted : Unlisted m' v.address

variable {host} {kind : Kind} {words : Nat}

theorem passes_tryAllocate (hs : Sound m) (hhonest : host.Honest m.heap.space)
    (hkind : kind.isHeap = true) {result : Option Value}
    (hanswer : host.tryAllocate kind words m = .ok result m') : Passes frames m m' := by
  obtain ⟨heap, hrun, rfl⟩ := of_onHeap hanswer
  have hfresh := hhonest m.heap.space .refl hs.valid
  have hw : heap.WellFormed := by
    obtain ⟨_, heap', hrun', hw⟩ := hs.wellFormed.tryAllocate hfresh hkind words
    cases hrun.symm.trans hrun'
    exact hw
  obtain ⟨⟨hmode, hoptions, hfinalizers, hpending⟩, hcases⟩ :=
    Heap.tryAllocate_cases hs.valid hfresh hkind hrun
  have haround : Around m { m with heap } := by
    refine ⟨rfl, hmode, hoptions, rfl, rfl, rfl, rfl, rfl, rfl, Nat.le_refl _, fun text htext => ?_⟩
    simpa only [Heap.Interns, hfinalizers, hpending] using htext
  have hmade : ∀ a cell, heap.space.object? a = some cell →
      (∃ old, m.heap.space.object? a = some old ∧ old.Similar cell) ∨
        ∃ form : Form, form.Describes cell := by
    intro a cell hcell
    obtain ⟨-, hsame⟩ | ⟨new, zeroed, -, hadds, hheader, hzero, hlimit⟩ := hcases
    · exact .inl ⟨cell, (hsame a).symm.trans hcell, .refl cell⟩
    · obtain ⟨rfl, rfl⟩ | hold := hadds.new_or_old hcell
      · exact .inr ⟨.bare kind words, by rw [hheader]; rfl, by rw [hheader]; rfl,
          hheader ▸ hlimit, 0, hzero⟩
      · exact .inl ⟨cell, hold, .refl cell⟩
  exact .of_kept hs hw haround rfl
    (fun a cell _ hcell =>
      ⟨cell, Heap.object_tryAllocate hs.valid hfresh hkind hrun hcell, .refl cell⟩)
    (fun _ _ _ hfind => hs.heap.found_after_allocation hfresh hkind hrun hfind) hmade

theorem unattended_tryAllocate (hs : Sound m) (hhost : host.Scrupulous) (hkind : kind.isHeap = true)
    {result : Option Value} (hanswer : host.tryAllocate kind words m = .ok result m')
    (hu : m.heap.Unattended) : m'.heap.Unattended := by
  obtain ⟨heap, hrun, rfl⟩ := of_onHeap hanswer
  obtain ⟨⟨-, -, hfinalizers, hpending⟩, -⟩ :=
    Heap.tryAllocate_cases hs.valid (hhost m.heap.space hs.valid) hkind hrun
  exact ⟨hfinalizers.trans hu.finalizers, hpending.trans hu.pending⟩

theorem gives_tryAllocate (hs : Sound m) (hhost : host.Scrupulous) (hkind : kind.isHeap = true)
    (hanswer : host.tryAllocate kind words m = .ok (some v) m') :
    Gives frames m m' v kind words := by
  have hpasses : Passes frames m m' := passes_tryAllocate hs (hhost.honest _) hkind hanswer
  obtain ⟨heap, hrun, rfl⟩ := of_onHeap hanswer
  have hfresh := hhost m.heap.space hs.valid
  obtain ⟨-, ⟨hnone, -⟩ | ⟨new, zeroed, hnew, hadds, hheader, hzero, hlimit⟩⟩ :=
    Heap.tryAllocate_cases hs.valid hfresh hkind hrun
  · cases hnone
  obtain rfl := Option.some.inj hnew
  have hobject := hadds.object?_new
  obtain ⟨href, haddress⟩ := (Heap.refersTo_ofAddress hadds.valid
    (Option.isSome_of_eq_some hobject) new).mpr rfl
  -- what is in use is an object already
  have hne : ∀ a, (m.heap.space.object? a).isSome → a ≠ (Value.ofAddress new).address := by
    rintro a ha rfl
    rw [haddress, hadds.absent] at ha
    cases ha
  refine ⟨hpasses, ⟨zeroed.header, by rw [hheader], by rw [hheader], href, hadds.valid, zeroed,
    haddress.symm ▸ hobject, rfl, hzero⟩, hlimit, fun a huse => hne a (hs.isSome_of_inUse huse),
    fun symbol hsymbol hsymbolRef => ⟨hne _ (hs.symbols symbol hsymbol hsymbolRef), ?_⟩⟩
  rintro cell hcell ⟨i, hi, hwordRef, hword⟩
  obtain ⟨old, hold⟩ := Option.isSome_iff_exists.mp (hs.symbols symbol hsymbol hsymbolRef)
  obtain rfl : old = cell := Option.some.inj ((hadds.object?_old hold).symm.trans hcell)
  exact hne _ (hs.traceable.slots _ old hold i hi hwordRef) hword

/-- If there is an object after a stretch, then there is one after what was before as well. -/
theorem Gives.after {m₀ : Machine γ} (h : Passes frames m₀ m) (hg : Gives frames m m' v kind words) :
    Gives frames m₀ m' v kind words :=
  ⟨h.trans hg.passes, hg.holds, hg.limit, fun a huse => hg.fresh a (h.inUse huse), hg.unlisted⟩

/-- What an allocation does before it has memory: it collects, or it finds that there is none left. -/
inductive Prepares (host : Host) (frames : List Value) (kind : Kind) (words : Nat) (m : Machine γ) :
    Machine γ → Prop where
  | collect {m' : Machine γ} {stats : Stats} (hrun : host.collectLocked frames m = .ok stats m') :
      Prepares host frames kind words m m'
  | refused {m' : Machine γ} (hrun : host.tryAllocate kind words m = .ok none m') :
      Prepares host frames kind words m m'

theorem of_claim (hrun : host.claim frames kind words m = .ok v m') :
    ∃ m₁, Relation.ReflTransGen (Prepares host frames kind words) m m₁ ∧
      host.tryAllocate kind words m₁ = .ok (some v) m' := by
  obtain ⟨result, m₁, hfirst, hrest⟩ := exists_of_bind_ok hrun
  cases result with
  | some v₁ =>
    cases hrest
    exact ⟨m, .refl, hfirst⟩
  | none =>
    obtain ⟨_, m₂, hcollect, hrest⟩ := exists_of_bind_ok hrest
    obtain ⟨stats, hcollect⟩ := of_discard hcollect
    obtain ⟨result, m₃, hsecond, hrest⟩ := exists_of_bind_ok hrest
    cases result with
    | some v₃ =>
      cases hrest
      exact ⟨m₂, .tail (.single (.refused hfirst)) (.collect hcollect), hsecond⟩
    | none =>
      obtain ⟨_, m₄, -, hraise⟩ := exists_of_bind_ok hrest
      exact (raise_ne_ok hraise).elim

/-- An allocation that comes back was prepared, and then there was memory. -/
theorem of_allocateLocked (hrun : host.allocateLocked frames kind words m = .ok v m') :
    ∃ m₁, Relation.ReflTransGen (Prepares host frames kind words) m m₁ ∧
      host.tryAllocate kind words m₁ = .ok (some v) m' := by
  obtain ⟨_, m₁, hget, hrest⟩ := exists_of_bind_ok hrun
  cases hget
  obtain ⟨collects, m₁, hcollects, hrest⟩ := exists_of_bind_ok hrest
  obtain ⟨-, rfl⟩ := of_ofExcept hcollects
  cases collects with
  | false => exact of_claim hrest
  | true =>
    obtain ⟨_, m₂, hcollect, hclaim⟩ := exists_of_bind_ok hrest
    obtain ⟨stats, hcollect⟩ := of_discard hcollect
    obtain ⟨m₃, hprepares, hlast⟩ := of_claim hclaim
    exact ⟨m₃, .head (.collect hcollect) hprepares, hlast⟩

theorem passes_prepares (hs : Sound m) (hhost : host.Scrupulous) (hkind : kind.isHeap = true)
    (hprepares : Relation.ReflTransGen (Prepares host frames kind words) m m') :
    Passes (host.seen frames) m m' ∧ (m.heap.Unattended → m'.heap.Unattended) := by
  induction hprepares with
  | refl => exact ⟨.refl hs, id⟩
  | tail _ hstep ih =>
    obtain ⟨hpasses, hunattended⟩ := ih
    cases hstep with
    | collect hrun =>
      obtain ⟨hpasses', hunattended'⟩ := host.passes_collectLocked hpasses.sound hrun
      exact ⟨hpasses.trans hpasses', fun hu => hunattended' (hunattended hu)⟩
    | refused hrun =>
      exact ⟨hpasses.trans (passes_tryAllocate hpasses.sound (hhost.honest _) hkind hrun), fun hu =>
        unattended_tryAllocate hpasses.sound hhost hkind hrun (hunattended hu)⟩

theorem allocateLocked_gives (hs : Sound m) (hhost : host.Scrupulous) (hkind : kind.isHeap = true)
    (hrun : host.allocateLocked frames kind words m = .ok v m') :
    Gives (host.seen frames) m m' v kind words ∧ (m.heap.Unattended → m'.heap.Unattended) := by
  obtain ⟨m₁, hprepares, hlast⟩ := of_allocateLocked hrun
  obtain ⟨hpasses, hunattended⟩ := passes_prepares hs hhost hkind hprepares
  exact ⟨(gives_tryAllocate hpasses.sound hhost hkind hlast).after hpasses, fun hu =>
    unattended_tryAllocate hpasses.sound hhost hkind hlast (hunattended hu)⟩

theorem Gives.unlocked {lock : Guarded}
    (hg : Gives frames { m with held := lock :: m.held } m' v kind words) :
    Gives frames m { m' with held := m'.held.erase lock } v kind words := by
  obtain ⟨header, hkind, hwords, hholds⟩ := hg.holds
  exact ⟨hg.passes.unlocked, ⟨header, hkind, hwords, hholds.ref, hholds.has⟩, hg.limit, hg.fresh,
    hg.unlisted⟩

/-- The new object is in a frame when finalizers run, so it is there afterwards. -/
theorem Gives.finalized {m'' : Machine γ} (hg : Gives frames m m' v kind words)
    (hpasses : Passes (v :: frames) m' m'') : Gives frames m m'' v kind words := by
  obtain ⟨header, hheaderKind, hheaderWords, href, hvalid, cell, hcell, rfl, hzero⟩ := hg.holds
  have huse : m'.InUse (v :: frames) v.address :=
    inUse_of_frame hg.passes.sound List.mem_cons_self (Option.isSome_of_eq_some hcell)
  obtain ⟨cell', hcell', hsim⟩ := hpasses.kept _ cell huse hcell
  exact ⟨hg.passes.trans (hpasses.mono (List.subset_cons_self v frames)),
    ⟨cell'.header, hsim.kind.trans hheaderKind, hsim.words.trans hheaderWords, href,
      hpasses.sound.valid, cell', hcell', rfl, fun i => (hsim.word i).trans (hzero i)⟩, hg.limit,
    hg.fresh, hpasses.unlisted _ huse hg.unlisted⟩

theorem seen_of_scans (host : Host) (hscans : host.scans = true) (frames : List Value) :
    host.seen frames = frames := if_pos hscans

/-- Whatever finalizers do passes on what is in use. -/
def Passing (finalize : List Value → Op γ Unit) : Prop :=
  ∀ frames (m m' : Machine γ), Sound m → finalize frames m = .ok () m' → Passes frames m m'

/-- When the memory is there, no finalizer is queued. -/
def Undisturbed (host : Host) (frames : List Value) (kind : Kind) (words : Nat) (m : Machine γ) :
    Prop :=
  ∀ v m', withLock .heap (host.allocateLocked frames kind words) m = .ok v m' → m'.heap.pending = []

theorem undisturbed_guarded (hhonest : host.Honest m.heap.space) :
    host.guarded.Undisturbed frames kind words m ↔ host.Undisturbed frames kind words m := by
  unfold Undisturbed
  rw [(agrees_takes frames kind words m).2 hhonest]

/-- Without any finalizers none are queued. -/
theorem undisturbed_of_unattended (hs : Sound m) (hhonest : host.Honest m.heap.space)
    (hkind : kind.isHeap = true) (hunattended : m.heap.Unattended) :
    host.Undisturbed frames kind words m := by
  rw [← undisturbed_guarded hhonest]
  intro v m' hrun
  obtain ⟨-, m₁, hallocate, rfl⟩ := of_withLock hrun
  obtain ⟨-, hlater⟩ :=
    allocateLocked_gives (hs.locked .heap) host.scrupulous_guarded hkind hallocate
  exact (hlater hunattended).pending

/-- Finalizers that run now may do anything, since the object in hand is found. Or none run. -/
def Careful (host : Host) (finalize : List Value → Op γ Unit) (frames : List Value) (kind : Kind)
    (words : Nat) (m : Machine γ) : Prop :=
  host.scans = true ∧ Passing finalize ∨ host.Undisturbed frames kind words m

/-- The stages of an allocation: the memory is taken, then finalizers run if there are any. -/
theorem of_allocateWith {finalize : List Value → Op γ Unit}
    (hrun : host.allocateWith finalize frames kind words m = .ok v m') :
    ∃ m₁, withLock .heap (host.allocateLocked frames kind words) m = .ok v m₁ ∧
      (m₁.heap.pending = [] ∧ m' = m₁ ∨
        m₁.heap.pending ≠ [] ∧ finalize (v :: frames) m₁ = .ok () m') := by
  obtain ⟨_, m₁, hexpect, hchecked⟩ := exists_of_bind_ok hrun
  obtain rfl := of_expect hexpect
  obtain ⟨_, m₂, hsafepoint, hpolled⟩ := exists_of_bind_ok hchecked
  obtain rfl := of_safepoint hsafepoint
  obtain ⟨v₁, m₃, hlocked, hrest⟩ := exists_of_bind_ok hpolled
  obtain ⟨_, m₄, hget, hrest⟩ := exists_of_bind_ok hrest
  cases hget
  dsimp only at hrest
  cases hpending : m₃.heap.pending with
  | nil =>
    simp only [Heap.hasPendingFinalizers, hpending] at hrest
    cases hrest
    exact ⟨_, hlocked, .inl ⟨hpending, rfl⟩⟩
  | cons entry rest =>
    simp only [Heap.hasPendingFinalizers, hpending] at hrest
    obtain ⟨_, m₅, hfinalize, hpure⟩ := exists_of_bind_ok hrest
    cases hpure
    exact ⟨_, hlocked, .inr ⟨by simp [hpending], hfinalize⟩⟩

theorem allocateWith_gives {finalize : List Value → Op γ Unit} (hs : Sound m)
    (hhost : host.Scrupulous) (hkind : kind.isHeap = true)
    (hcareful : host.Careful finalize frames kind words m)
    (hrun : host.allocateWith finalize frames kind words m = .ok v m') :
    Gives (host.seen frames) m m' v kind words := by
  obtain ⟨m₁, hlocked, hfinalized⟩ := of_allocateWith hrun
  obtain ⟨-, m₂, hallocate, rfl⟩ := of_withLock hlocked
  obtain ⟨hgives, -⟩ := allocateLocked_gives (hs.locked .heap) hhost hkind hallocate
  replace hgives := hgives.unlocked
  obtain ⟨-, rfl⟩ | ⟨hpending, hfinalize⟩ := hfinalized
  · exact hgives
  · obtain ⟨hscans, hpasses⟩ | hnone := hcareful
    · have hlater := hpasses _ _ _ hgives.passes.sound hfinalize
      rw [host.seen_of_scans hscans] at hgives ⊢
      exact hgives.finalized hlater
    · exact absurd (hnone _ _ hlocked) hpending

/-! ## Constructors -/

section

variable {finalize : List Value → Op γ Unit} {form : Form} {text : String}

/-- What is built is an object of its form, and nothing that was in use has changed. -/
structure Builds (frames : List Value) (m m' : Machine γ) (v : Value) (form : Form) : Prop where
  passes : Passes frames m m'
  shows : Shows m'.heap.space v form
  fresh : ∀ a, m.InUse frames a → a ≠ v.address

/-- A constructor asks for memory and fills it in. -/
theorem of_build_asked (hrun : form.build (host.allocateWith finalize frames) m = .ok v m') :
    ∃ words m₁, form.words m.mode = .ok words ∧
      host.allocateWith finalize frames form.kind words m = .ok v m₁ ∧
      form.fill v m₁ = .ok () m' := by
  obtain ⟨_, _, hget, hask⟩ := exists_of_bind_ok hrun
  cases hget
  obtain ⟨words, _, hwords, hbuild⟩ := exists_of_bind_ok hask
  obtain ⟨hasked, rfl⟩ := of_ofExcept hwords
  obtain ⟨object, m₂, hallocate, hrest⟩ := exists_of_bind_ok hbuild
  obtain ⟨_, m₃, hfill, hpure⟩ := exists_of_bind_ok hrest
  cases hpure
  exact ⟨words, m₂, hasked, hallocate, hfill⟩

/-- It asks for as many words as the form takes. -/
theorem of_build (hfits : m.mode = .debug ∨ form.Fits)
    (hrun : form.build (host.allocateWith finalize frames) m = .ok v m') :
    ∃ m₁, host.allocateWith finalize frames form.kind form.size m = .ok v m₁ ∧
      form.fill v m₁ = .ok () m' := by
  obtain ⟨words, m₁, hasked, hallocate, hfill⟩ := of_build_asked hrun
  exact ⟨m₁, Form.words_eq hfits hasked ▸ hallocate, hfill⟩

/-- What is filled in was given. -/
theorem Gives.elsewhere {m₀ : Machine γ} (hgives : Gives frames m₀ m v form.kind form.size)
    (hfill : form.fill v m = .ok () m') : Elsewhere m m' v.address := by
  obtain ⟨header, hheaderKind, hheaderWords, hzero⟩ := hgives.holds
  obtain ⟨_, -, hfill', -, helse⟩ :=
    Form.fill_spec hzero hheaderKind hheaderWords (hheaderWords ▸ hgives.limit)
  cases hfill.symm.trans hfill'
  exact helse

theorem build_spec (hs : Sound m) (hhost : host.Scrupulous) (hkind : form.kind.isHeap = true)
    (hcareful : host.Careful finalize frames form.kind form.size m)
    (hfits : m.mode = .debug ∨ form.Fits)
    (hparts : ∀ part ∈ form.parts, part.isHeapRef = true → m.InUse (host.seen frames) part.address)
    (hrun : form.build (host.allocateWith finalize frames) m = .ok v m') :
    Builds (host.seen frames) m m' v form := by
  obtain ⟨m₁, hallocate, hfill⟩ := of_build hfits hrun
  have hgives := allocateWith_gives hs hhost hkind hcareful hallocate
  obtain ⟨header, hheaderKind, hheaderWords, hzero⟩ := hgives.holds
  have hlimit : header.words < Space.payloadLimit := hheaderWords ▸ hgives.limit
  obtain ⟨m₂, index, hfill', hfilled, helse⟩ :=
    Form.fill_spec hzero hheaderKind hheaderWords hlimit
  cases hfill.symm.trans hfill'
  obtain ⟨hpasses, hshows⟩ := hgives.passes.fill hs hgives.fresh hgives.unlisted hparts hheaderKind
    hheaderWords hlimit hzero hfilled helse
  exact ⟨hpasses, hshows, hgives.fresh⟩

/-! ### Symbols -/

variable (hhost : host.Scrupulous) (hscans : host.scans = true) (hfinalize : Passing finalize)
include hhost hscans hfinalize

/-- The symbol and its name are new, and they are there. -/
theorem makeSymbolWith_spec (hs : Sound m) (hfits : m.mode = .debug ∨ (Form.string text).Fits)
    (hrun : host.makeSymbolWith finalize frames text m = .ok v m') :
    ∃ name, Builds frames m m' v (.symbol name) ∧ Shows m'.heap.space name (.string text) ∧
      ∀ a, m.InUse frames a → a ≠ name.address := by
  have hcareful : ∀ frames kind words (m : Machine γ), host.Careful finalize frames kind words m :=
    fun _ _ _ _ => .inl ⟨hscans, hfinalize⟩
  obtain ⟨name, m₁, hname, hsymbol⟩ := exists_of_bind_ok hrun
  have hfirst := build_spec hs hhost rfl (hcareful _ _ _ m) hfits (List.forall_mem_nil _) hname
  rw [host.seen_of_scans hscans] at hfirst
  obtain ⟨cell, hcell, -⟩ := hfirst.shows.object
  have huse : m₁.InUse (name :: frames) name.address :=
    inUse_of_frame hfirst.passes.sound List.mem_cons_self (Option.isSome_of_eq_some hcell)
  have hsmall : (Form.symbol name).Fits := (by decide : 0 + wordBytes < wordLimit)
  have hsecond := build_spec hfirst.passes.sound hhost rfl (hcareful _ _ _ m₁) (.inr hsmall)
    (List.forall_mem_singleton.mpr fun _ => by rwa [host.seen_of_scans hscans]) hsymbol
  rw [host.seen_of_scans hscans] at hsecond
  have hlater := hsecond.passes.mono (List.subset_cons_self name frames)
  exact ⟨name, ⟨hfirst.passes.trans hlater, hsecond.shows, fun a ha =>
    hsecond.fresh a ((hfirst.passes.inUse ha).mono (List.subset_cons_self name frames))⟩,
    hsecond.passes.shows huse hfirst.shows, hfirst.fresh⟩

theorem internWith_spec (hs : Sound m) (hfits : m.mode = .debug ∨ (Form.string text).Fits)
    (hrun : host.internWith finalize frames text m = .ok v m') :
    Passes frames m m' ∧ (Labelled m → Labels m'.heap.space v text) := by
  obtain ⟨hfree, m₁, hinside, rfl⟩ := of_withLock hrun
  obtain ⟨_, m₂, hget, hrest⟩ := exists_of_bind_ok hinside
  cases hget
  cases hlookup : m.symbols.get? text with
  | some symbol =>
    dsimp only at hrest
    rw [hlookup] at hrest
    cases hrest
    refine ⟨(Passes.refl (hs.locked .symbols)).unlocked, fun hl => ?_⟩
    obtain ⟨before, after, hentries, -⟩ := List.lookup_eq_some_iff.mp hlookup
    exact hl (text, v) (hentries ▸ List.mem_append_right _ List.mem_cons_self)
  | none =>
    dsimp only at hrest
    rw [hlookup] at hrest
    obtain ⟨symbol, m₂, hmake, hrest⟩ := exists_of_bind_ok hrest
    cases hrest
    obtain ⟨name, hbuilds, hname, hfresh⟩ :=
      makeSymbolWith_spec hhost hscans hfinalize (hs.locked .symbols) hfits hmake
    have hlabels := hbuilds.shows.labels hname
    obtain ⟨-, cell, hcell, hsymbol⟩ := hbuilds.shows
    refine ⟨hbuilds.passes.insert hfree hlookup hlabels fun a huse => ⟨hbuilds.fresh a huse, ?_⟩,
      fun _ => hlabels⟩
    rintro cell' hcell' ⟨i, hi, hwordRef, hrefers⟩
    obtain rfl : cell = cell' := Option.some.inj (hcell.symm.trans hcell')
    obtain hpart | himmediate := hsymbol.slot_cases hi
    · rw [List.mem_singleton.mp hpart] at hrefers
      exact hfresh a huse hrefers.symm
    · cases himmediate.symm.trans hwordRef

/-! ## Finalizers -/

omit hhost in
theorem collectWith_passes (hs : Sound m) {stats : Stats}
    (hrun : host.collectWith finalize frames m = .ok stats m') : Passes frames m m' := by
  obtain ⟨_, m₁, hlocked, hrest⟩ := exists_of_bind_ok hrun
  obtain ⟨-, m₂, hcollect, rfl⟩ := of_withLock hlocked
  obtain ⟨hpasses, -⟩ := host.passes_collectLocked (hs.locked .heap) hcollect
  rw [host.seen_of_scans hscans] at hpasses
  obtain ⟨_, m₃, hfinalizers, hpure⟩ := exists_of_bind_ok hrest
  cases hpure
  exact hpasses.unlocked.trans (hfinalize _ _ _ hpasses.unlocked.sound hfinalizers)

theorem perform_passes (hs : Sound m) {object : Value} {action : Action}
    (hfits : ∀ text, action = .intern text → m.mode = .debug ∨ (Form.string text).Fits)
    (hrun : host.perform finalize frames object action m = .ok () m') : Passes frames m m' := by
  cases action with
  | collect =>
    obtain ⟨stats, hcollect⟩ := of_discard hrun
    exact collectWith_passes hscans hfinalize hs hcollect
  | intern name =>
    obtain ⟨symbol, hintern⟩ := of_discard hrun
    exact (internWith_spec hhost hscans hfinalize hs (hfits name rfl) hintern).1
  | vector words =>
    obtain ⟨v, hallocate⟩ := of_discard hrun
    have hgives := allocateWith_gives hs hhost rfl (.inl ⟨hscans, hfinalize⟩) hallocate
    rw [host.seen_of_scans hscans] at hgives
    exact hgives.passes
  | report label keep =>
    cases hrun
    exact .of_heap hs (.noted _ _) rfl rfl
  | fail fault => exact (raise_ne_ok hrun).elim

theorem performAll_passes (hs : Sound m) {object : Value} {finalizer : Finalizer}
    (hfits : ∀ text, .intern text ∈ finalizer → m.mode = .debug ∨ (Form.string text).Fits)
    (hrun : host.performAll finalize frames object finalizer m = .ok () m') : Passes frames m m' := by
  induction finalizer generalizing m with
  | nil =>
    cases hrun
    exact .refl hs
  | cons action rest ih =>
    obtain ⟨_, m₁, hfirst, hrest⟩ := exists_of_bind_ok hrun
    have hpasses := perform_passes hhost hscans hfinalize hs
      (fun text htext => hfits text (htext ▸ List.mem_cons_self)) hfirst
    refine hpasses.trans (ih hpasses.sound (fun text htext => ?_) hrest)
    rw [hpasses.around.mode]
    exact hfits text (List.mem_cons_of_mem _ htext)

end

section

variable {fuel : Nat}

/-- Whoever holds the heap waits for itself when it runs finalizers. -/
theorem finalizeWith_held (hheld : Guarded.heap ∈ m.held) :
    host.finalizeWith (fuel + 1) frames m = .error .blocked m := by
  rw [finalizeWith, bind_of_ok get_apply, if_pos (by simpa using hheld)]
  rfl

variable (hfree : Guarded.heap ∉ m.held)
include hfree

theorem finalizeWith_nil (hpending : m.heap.pending = []) :
    host.finalizeWith (fuel + 1) frames m = .ok () m := by
  rw [finalizeWith, bind_of_ok get_apply, if_neg (by simpa using hfree), hpending]
  rfl

theorem finalizeWith_cons {object : Value} {finalizer : Finalizer} {rest : List (Value × Finalizer)}
    (hpending : m.heap.pending = (object, finalizer) :: rest) :
    host.finalizeWith (fuel + 1) frames m = (do
      modifyHeap fun heap => heap.takePendingFinalizer.2
      host.performAll (host.finalizeWith fuel) frames object finalizer
      modifyHeap (·.finishFinalizer object)
      host.finalizeWith fuel frames : Op γ Unit) m := by
  rw [finalizeWith, bind_of_ok get_apply, if_neg (by simpa using hfree), hpending]

end

/-- Taking a finalizer out of the queue changes no object. -/
theorem passes_take (hs : Sound m) :
    Passes frames m { m with heap := m.heap.takePendingFinalizer.2 } := by
  have hspace : m.heap.takePendingFinalizer.2.space = m.heap.space := by
    unfold Heap.takePendingFinalizer
    split <;> rfl
  refine .of_same hs hs.wellFormed.takePendingFinalizer ?_ rfl (fun a => ?_) fun x interior => ?_
  · unfold Heap.takePendingFinalizer
    split
    · exact .refl m
    next hpending =>
      refine .of_heap rfl rfl fun text htext => htext.imp_right ?_
      rintro ⟨entry, hentry, haction⟩
      exact ⟨entry, hpending ▸ List.mem_cons_of_mem _ hentry, haction⟩
  · exact congrArg (·.object? a) hspace
  · exact congrArg (·.findObject? x interior) hspace

theorem passes_finish (hs : Sound m) (object : Value) :
    Passes frames m { m with heap := m.heap.finishFinalizer object } :=
  .of_same hs (hs.wellFormed.finishFinalizer object)
    (.of_heap rfl rfl fun _ => id) rfl (fun _ => rfl) fun _ _ => rfl

/-- The finalizers themselves, however deep their runs are nested. -/
theorem passing_finalizeWith (hhost : host.Scrupulous) (hscans : host.scans = true) (fuel : Nat) :
    Passing (γ := γ) (host.finalizeWith fuel) := by
  induction fuel with
  | zero =>
    intro frames m m' hs hrun
    cases hrun
    exact .refl hs
  | succ fuel ih =>
    intro frames m m' hs hrun
    by_cases hheld : Guarded.heap ∈ m.held
    · cases hrun.symm.trans (finalizeWith_held hheld)
    cases hpending : m.heap.pending with
    | nil =>
      cases hrun.symm.trans (finalizeWith_nil hheld hpending)
      exact .refl hs
    | cons entry rest =>
      rw [finalizeWith_cons hheld hpending] at hrun
      obtain ⟨_, m₁, htake, hrest⟩ := exists_of_bind_ok hrun
      cases htake
      have htaken : Passes frames m _ := passes_take hs
      obtain ⟨_, m₂, hperform, hrest⟩ := exists_of_bind_ok hrest
      have hperformed := performAll_passes hhost hscans ih htaken.sound (fun text htext =>
        hs.texts.imp_right fun hfit => hfit text (.inr ⟨entry, hpending ▸ List.mem_cons_self, htext⟩))
          hperform
      obtain ⟨_, m₃, hfinish, hrest⟩ := exists_of_bind_ok hrest
      cases hfinish
      have hfinished : Passes frames m₂ _ := passes_finish hperformed.sound entry.1
      exact ((htaken.trans hperformed).trans hfinished).trans
        (ih frames _ _ hfinished.sound hrest)

/-- Running all finalizers passes on what is in use. -/
theorem passing_runFinalizers (hhost : host.Scrupulous) (hscans : host.scans = true) :
    Passing (γ := γ) host.runFinalizers := by
  intro frames m m' hs hrun
  obtain ⟨_, m₁, hget, hrest⟩ := exists_of_bind_ok hrun
  cases hget
  exact passing_finalizeWith hhost hscans _ frames m m' hs hrest

end Host

end Machine

end Substrate
