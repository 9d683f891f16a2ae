import Substrate.Proofs.Construct.Exhaustion
import Substrate.Proofs.Scanning
import Substrate.Proofs.Wrapping

/-!
# Allocations that come to an end

An allocation decides whether a collection is due, may collect, and asks for memory once or twice. Each of
these steps can fail: the sum that is compared with the threshold can exceed a word, a collection can wait
for ever or find a region that it cannot scan. Where nothing of this is the case, an allocation settles
(`Host.locked_settles`): either it has memory for the object, or it reports that there is none left.
-/

namespace Substrate

/-! ## Sums of a heap -/

theorem le_bytesFor (words : Nat) : (1 + words) * wordBytes ≤ bytesFor words := by
  unfold bytesFor
  split
  next hclass => exact (sizeClassFor?_some hclass).2
  next => exact Nat.le_refl _

namespace Heap

variable {h : Heap} {words : Nat}

/-- The sum that is compared with the threshold is a word. Only a debug build checks this. -/
def Weighs (h : Heap) (words : Nat) : Prop :=
  h.mode = .debug → h.liveBytes + h.allocatedSince + bytesFor words < wordLimit

theorem Weighs.shouldCollect (hweighs : h.Weighs words) : ∃ due, h.shouldCollect words = .ok due := by
  cases hmode : h.mode with
  | debug =>
    have hsum := hweighs hmode
    have hsize := allocationSize_eq h.mode
      (Nat.lt_of_le_of_lt ((le_bytesFor words).trans (Nat.le_add_left ..)) hsum)
    exact ⟨_, shouldCollect_eq hsize rfl hsum⟩
  | release =>
    obtain ⟨bytes, hmul⟩ := Mode.release_mul ((1 + words) % wordLimit) wordBytes
    have hsize : ∃ size, allocationSize .release words = .ok size := by
      rw [allocationSize, Mode.add_release, ok_bind, hmul]
      exact ⟨_, rfl⟩
    obtain ⟨size, hsize⟩ := hsize
    unfold Heap.shouldCollect
    rw [hmode, Mode.add_release, ok_bind, hsize, ok_bind, Mode.add_release]
    exact ⟨_, rfl⟩

/-- The sum can stop a debug build at each of its steps. -/
theorem shouldCollect_overflows (hheavy : ¬ h.Weighs words) :
    ∃ fault, h.shouldCollect words = .error fault ∧ fault.IsOverflow := by
  obtain ⟨hmode, hheavy⟩ := Classical.not_imp.mp hheavy
  unfold Heap.shouldCollect
  rw [hmode]
  obtain ⟨-, hused⟩ | ⟨-, fault, hused, hfault⟩ := Mode.debug_add_cases h.liveBytes h.allocatedSince
  case inr => exact ⟨fault, by rw [hused]; rfl, hfault⟩
  rw [hused, ok_bind]
  obtain ⟨-, hall⟩ | ⟨-, fault, hall, hfault⟩ := Mode.debug_add_cases 1 words
  case inr => exact ⟨fault, by rw [allocationSize, hall]; rfl, hfault⟩
  obtain ⟨hbytes, -⟩ | ⟨-, fault, hbytes, hfault⟩ := Mode.debug_mul_cases (1 + words) wordBytes
  case inr => exact ⟨fault, by rw [allocationSize, hall, ok_bind, hbytes]; rfl, hfault⟩
  rw [allocationSize_eq .debug hbytes, ok_bind]
  obtain ⟨hsum, -⟩ | ⟨-, fault, hsum, hfault⟩ :=
    Mode.debug_add_cases (h.liveBytes + h.allocatedSince) (bytesFor words)
  · exact absurd hsum hheavy
  · exact ⟨fault, by rw [hsum]; rfl, hfault⟩

end Heap

namespace Machine

variable {γ : Type} {m m' : Machine γ} {frames : List Value}

theorem discard_of_ok {α : Type} {x : Op γ α} {a : α} (h : x m = .ok a m') :
    (discard x : Op γ PUnit) m = .ok ⟨⟩ m' := bind_of_ok h

theorem ofExcept_of_ok {α : Type} {result : Except Fault α} {a : α} (h : result = .ok a) :
    (ofExcept result : Op γ α) m = .ok a m := by
  rw [h]
  rfl

theorem ofExcept_of_error {α : Type} {result : Except Fault α} {fault : Fault}
    (h : result = .error fault) : ∃ m', (ofExcept result : Op γ α) m = .error fault m' := by
  obtain ⟨m', hraise, -⟩ := raise_turned (α := α) fault m
  exact ⟨m', by rw [h]; exact hraise⟩

/-! ## Collections that come to an end -/

/-- No registered region ends in the last word of the address space. A release build has no use for this. -/
def Scannable (m : Machine γ) : Prop :=
  m.mode = .debug → ∀ region ∈ m.roots.regions.toList, region.stop + wordBytes ≤ wordLimit

theorem scanPieces_total {mode : Mode} (memory : Nat → Word) {pieces : List Region}
    (h : ∀ piece ∈ pieces, ∃ addresses, piece.scanned mode = .ok addresses) (k : Marking) :
    ∃ k', Marking.scanPieces mode memory pieces k = .ok () k' := by
  induction pieces generalizing k with
  | nil => exact ⟨k, rfl⟩
  | cons piece pieces ih =>
    obtain ⟨⟨addresses, hpiece⟩, hrest⟩ := List.forall_mem_cons.mp h
    obtain ⟨k', hlater⟩ := ih hrest
      (addresses.foldl (fun k address => k.markAmbiguous (memory address)) k)
    refine ⟨k', ?_⟩
    rw [Marking.scanPieces, hpiece]
    exact hlater

theorem Scannable.scanRegions_total (h : Scannable m) {regions : List Region}
    (hregions : regions ⊆ m.roots.regions.toList) (k : Marking) :
    ∃ k', scanRegions m regions k = .ok () k' := by
  induction regions generalizing k with
  | nil => exact ⟨k, rfl⟩
  | cons region regions ih =>
    obtain ⟨hregion, hrest⟩ := List.cons_subset.mp hregions
    have hpieces : ∀ piece ∈ m.roots.exclusions.pieces region,
        ∃ addresses, piece.scanned m.mode = .ok addresses := by
      intro piece hpiece
      cases hmode : m.mode with
      | debug => exact ⟨_, Exclusions.scanned_piece .debug (h hmode region hregion) hpiece⟩
      | release =>
        have hround : roundUp .release piece.start wordBytes 0 = .ok _ :=
          (roundUp_ok_iff (k := 3) (by decide)).mpr ⟨nofun, rfl⟩
        rw [Region.scanned, hround]
        exact ⟨_, rfl⟩
    obtain ⟨k₁, hscan⟩ := scanPieces_total m.memory.read hpieces k
    obtain ⟨k', hlater⟩ := ih hrest k₁
    exact ⟨k', (Marking.bind_eq_of_ok hscan).trans hlater⟩

/-- The roots are traced call by call. -/
theorem Scannable.traceRoots_eq (h : Scannable m) :
    m.traceRoots = RootCall.runAll m.mode m.rootCalls := by
  have hscan : scanRegions m m.roots.regions.toList = RootCall.runAll m.mode
      ((m.roots.regions.toList.flatMap fun region => Marking.scannedWords m.mode m.memory.read
        (m.roots.exclusions.pieces region)).map .ambiguous) := by
    funext k
    obtain ⟨k', hrun⟩ := h.scanRegions_total (List.Subset.refl _) k
    rw [hrun, scanRegions_ok hrun]
  rw [rootCalls, RootCall.runAll_append, RootCall.runAll_append, RootCall.runAll_append, ← hscan,
    ← markThreads_eq, RootCall.runAll_value, RootCall.runAll_value]
  rfl

/-- Nothing keeps the running thread from collecting: it is poised for it, and all regions can be
scanned. -/
structure Collectable (m : Machine γ) : Prop extends Poised m where
  scannable : Scannable m

/-- Nothing keeps the running thread from allocating: nobody else collects, and it does not hold the
heap. -/
structure AtEase (m : Machine γ) : Prop extends Collectable m where
  lowered : m.collecting = false
  heap : Guarded.heap ∉ m.held

theorem Collectable.around (h : Collectable m) (haround : Around m m') : Collectable m' := by
  refine ⟨⟨?_, ?_, ?_⟩, ?_⟩
  · rw [haround.waiting]
    exact h.stopped
  · rw [haround.held]
    exact h.threads
  · rw [haround.held]
    exact h.roots
  · rw [Scannable, haround.mode, haround.roots]
    exact h.scannable

/-- A thread may hold the heap when it collects. -/
theorem Collectable.locked (h : Collectable m) : Collectable { m with held := .heap :: m.held } :=
  ⟨⟨h.stopped, by simpa using h.threads, by simpa using h.roots⟩, h.scannable⟩

namespace Host

variable {host : Host} {kind : Kind} {words : Nat}

theorem traceRoots_eq (h : Scannable m) :
    host.traceRoots m frames = RootCall.runAll m.mode (m.callsWith (host.seen frames)) := by
  have hframes : scanFrames (host.seen frames)
      = RootCall.runAll m.mode ((host.seen frames).map fun v => .ambiguous v.bits) := by
    funext k
    have hwords := RootCall.runAll_ambiguous m.mode ((host.seen frames).map (·.bits)) k
    rw [List.map_map] at hwords
    exact hwords.symm
  rw [traceRoots, h.traceRoots_eq, hframes, callsWith, RootCall.runAll_append]

theorem markAndSweep_total {collection : Collection} {heap : Heap}
    (hcollect : Heap.collect (host.traceRoots { m with heap := .vacant } frames) m.heap
      = .ok ((), collection) heap) : ∃ stats m', host.markAndSweep frames m = .ok stats m' := by
  unfold markAndSweep onHeap
  dsimp only
  rw [hcollect]
  exact ⟨_, _, rfl⟩

/-- With nothing in its way, a collection of a machine in order is completed. -/
theorem collectLocked_total (host : Host) (frames : List Value) (hs : Sound m) (hc : Collectable m) :
    ∃ stats m', host.collectLocked frames m = .ok stats m' := by
  have hinner : Guarded.roots ∉ ({ m with held := .threads :: m.held } : Machine γ).held := by
    simpa using hc.roots
  obtain ⟨m₁, hstop, hbeside, hheap, -⟩ :=
    stopWorld_eq (m := { m with held := .roots :: .threads :: m.held }) hc.stopped
  have htrace : host.traceRoots { m₁ with heap := .vacant } frames
      = RootCall.runAll m.heap.mode (m.callsWith (host.seen frames)) := by
    have hscannable : Scannable { m₁ with heap := .vacant } := by
      simpa only [Scannable, hbeside.mode, hbeside.roots] using hc.scannable
    have hsame : m₁.callsWith (host.seen frames) = m.callsWith (host.seen frames) :=
      hbeside.callsWith (host.seen frames)
    rw [traceRoots_eq hscannable, hs.mode, ← hsame]
    exact congrArg (RootCall.runAll · _) hbeside.mode
  obtain ⟨collection, heap, hcollect, -⟩ := hs.wellFormed.collect (hs.permitted (host.seen frames))
  rw [← htrace, ← hheap] at hcollect
  obtain ⟨stats, m₂, hmark⟩ := markAndSweep_total hcollect
  have hlocked : host.collectLocked frames m = _ := withLock_apply hc.threads _
  rw [withLock_apply hinner, bind_of_ok hstop, bind_of_ok hmark] at hlocked
  exact ⟨stats, _, hlocked⟩

/-! ## Allocations that come to an end -/

/-- The operation returns a value, or there is no memory left. -/
def Settles {α : Type} (x : Op γ α) (m : Machine γ) : Prop :=
  (∃ message m', x m = .error (.fatal .heapExhausted message) m') ∨ ∃ a m', x m = .ok a m'

theorem claim_settles (hs : Sound m) (hc : Collectable m) (hhost : host.Scrupulous)
    (hkind : kind.isHeap = true) : Settles (host.claim frames kind words) m := by
  have hfirst : ∀ {m : Machine γ}, Sound m → ∃ result m', host.tryAllocate kind words m = .ok result m' := by
    intro m hs
    cases hrun : host.tryAllocate kind words m with
    | ok result m' => exact ⟨result, m', rfl⟩
    | error fault m' => exact absurd hrun (not_error_of_tryAllocate hs (hhost.honest _))
  obtain ⟨result, m₁, hrun⟩ := hfirst hs
  unfold Settles claim
  rw [bind_of_ok hrun]
  cases result with
  | some v => exact .inr ⟨v, m₁, rfl⟩
  | none =>
    have hpasses : Passes [] m m₁ := passes_tryAllocate hs (hhost.honest _) hkind hrun
    obtain ⟨stats, m₂, hcollect⟩ :=
      collectLocked_total host frames hpasses.sound (hc.around hpasses.around)
    obtain ⟨hpasses₂, -⟩ := host.passes_collectLocked hpasses.sound hcollect
    obtain ⟨result, m₃, hsecond⟩ := hfirst hpasses₂.sound
    dsimp only
    rw [bind_of_ok (discard_of_ok hcollect), bind_of_ok hsecond]
    cases result with
    | some v => exact .inr ⟨v, m₃, rfl⟩
    | none => exact .inl ⟨_, _, rfl⟩

theorem allocateLocked_settles (frames : List Value) (hs : Sound m) (hc : Collectable m)
    (hhost : host.Scrupulous) (hkind : kind.isHeap = true) (hweighs : m.heap.Weighs words) :
    Settles (host.allocateLocked frames kind words) m := by
  obtain ⟨due, hdue⟩ := hweighs.shouldCollect
  unfold Settles allocateLocked
  rw [bind_of_ok get_apply, bind_of_ok (ofExcept_of_ok hdue)]
  cases due with
  | false => exact claim_settles hs hc hhost hkind
  | true =>
    obtain ⟨stats, m₁, hcollect⟩ := collectLocked_total host frames hs hc
    obtain ⟨hpasses, -⟩ := host.passes_collectLocked hs hcollect
    have hclaim : Settles (host.claim frames kind words) m₁ :=
      claim_settles hpasses.sound (hc.around hpasses.around) hhost hkind
    rwa [if_pos rfl, bind_of_ok (discard_of_ok hcollect)]

/-- The memory for an object is taken with the heap held. -/
theorem locked_settles (frames : List Value) (hs : Sound m) (hease : AtEase m)
    (hhost : host.Scrupulous) (hkind : kind.isHeap = true) (hweighs : m.heap.Weighs words) :
    Settles (withLock .heap (host.allocateLocked frames kind words)) m := by
  have hlocked := withLock_apply hease.heap (host.allocateLocked frames kind words)
  unfold Settles
  rw [hlocked]
  obtain ⟨message, m₁, hrun⟩ | ⟨v, m₁, hrun⟩ := allocateLocked_settles frames
    (hs.locked .heap) hease.toCollectable.locked hhost hkind hweighs
  · exact .inl ⟨message, _, by rw [hrun]⟩
  · exact .inr ⟨v, _, by rw [hrun]⟩

/-- Nothing but the memory and the finalizers decides how an allocation ends. -/
theorem allocateWith_eq (host : Host) (finalize : List Value → Op γ Unit) (frames : List Value)
    (words : Nat) (hease : AtEase m) (hkind : kind.isHeap = true) :
    host.allocateWith finalize frames kind words m = (do
      let v ← withLock .heap (host.allocateLocked frames kind words)
      if (← get).heap.hasPendingFinalizers then finalize (v :: frames)
      return v : Op γ Value) m := by
  have hexpect : expect kind.isHeap (fun _ => return "allocation of a " ++ kind.name) m = .ok () m := by
    rw [expect, if_pos hkind]
    rfl
  unfold allocateWith
  rw [bind_of_ok hexpect, bind_of_ok (safepoint_of_lowered hease.lowered)]

end Host

end Machine

end Substrate
