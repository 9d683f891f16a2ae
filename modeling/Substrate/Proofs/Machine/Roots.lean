import Substrate.Proofs.Machine.Stalled

/-!
# The roots of a machine

A collection marks from registered locations and regions, from all control stacks and from the symbol
table. If it is completed, this comes to a sequence of calls to the marker (`Machine.rootCalls`), wherever
the regions lie.
-/

namespace Substrate

/-! ## Roots -/

namespace RootCall

theorem runAll_append (mode : Mode) (calls calls' : List RootCall) :
    runAll mode (calls ++ calls') = (do runAll mode calls; runAll mode calls') := by
  induction calls with
  | nil => rfl
  | cons call calls ih => simp only [List.cons_append, runAll, ih, bind_assoc]

theorem runAll_value (mode : Mode) (values : List Value) :
    runAll mode (values.map .value) = Marking.markValues mode values := by
  induction values with
  | nil => rfl
  | cons v values ih =>
    simp only [List.map_cons, runAll, ih]
    rfl

theorem runAll_ambiguous (mode : Mode) (words : List Word) (k : Marking) :
    runAll mode (words.map .ambiguous) k = .ok () (words.foldl Marking.markAmbiguous k) := by
  induction words generalizing k with
  | nil => rfl
  | cons word words ih => exact ih (k.markAmbiguous word)

end RootCall

namespace Marking

variable {mode : Mode} {memory : Nat → Word} {k k' : Marking}

/-- The words that are read when the pieces are scanned. -/
def scannedWords (mode : Mode) (memory : Nat → Word) (pieces : List Region) : List Word :=
  pieces.flatMap fun piece => ((piece.scanned mode).toOption.getD []).map memory

/-- Wherever a region lies, scanning it comes to looking at some words, or fails. -/
theorem scanPieces_ok {pieces : List Region} (hrun : scanPieces mode memory pieces k = .ok () k') :
    RootCall.runAll mode ((scannedWords mode memory pieces).map .ambiguous) k = .ok () k' := by
  induction pieces generalizing k with
  | nil => exact hrun
  | cons piece pieces ih =>
    obtain ⟨addresses, k₁, hscanned, hrest⟩ := exists_of_bind_ok hrun
    obtain ⟨_, k₂, hmarked, hrest⟩ := exists_of_bind_ok hrest
    cases hmarked
    cases hpiece : piece.scanned mode with
    | error fault =>
      rw [hpiece] at hscanned
      cases hscanned
    | ok words =>
      rw [hpiece] at hscanned
      cases hscanned
      have hwords : scannedWords mode memory (piece :: pieces)
          = addresses.map memory ++ scannedWords mode memory pieces := by
        simp [scannedWords, hpiece, Except.toOption]
      rw [hwords, List.map_append, RootCall.runAll_append,
        bind_eq_of_ok (RootCall.runAll_ambiguous mode _ k), List.foldl_map]
      exact ih hrest

end Marking

/-- A collection that was completed has traced its roots. -/
theorem Heap.collect_roots {α : Type} {x : Run Marking α} {r : α × Collection} {h h' : Heap}
    (hrun : Heap.collect x h = .ok r h') :
    ∃ a k, x (.start h.space h.options.interiorPointers) = .ok a k := by
  unfold Heap.collect at hrun
  dsimp only at hrun
  split at hrun
  · cases hrun
  next hmark =>
    obtain ⟨a, k, hroots, -⟩ := Marking.exists_of_bind_ok hmark
    exact ⟨a, k, hroots⟩

/-- A collection depends only on what its roots mark to begin with. -/
theorem Heap.collect_congr {α : Type} {x y : Run Marking α} {h : Heap}
    (heq : x (.start h.space h.options.interiorPointers)
      = y (.start h.space h.options.interiorPointers)) :
    Heap.collect x h = Heap.collect y h := by
  have hmark : ({ h with space := .vacant } : Heap).markReachable x
        (.start h.space h.options.interiorPointers)
      = ({ h with space := .vacant } : Heap).markReachable y
        (.start h.space h.options.interiorPointers) := by
    change EStateM.bind x _ _ = EStateM.bind y _ _
    rw [EStateM.bind, EStateM.bind, heq]
  simp only [Heap.collect, hmark]

theorem Heap.completed_collect {α : Type} {x : Run Marking α} {r : α × Collection} {h h' : Heap}
    (hrun : Heap.collect x h = .ok r h') : h'.mode = h.mode ∧ h'.collections = h.collections + 1 := by
  unfold Heap.collect Heap.queueUnreached at hrun
  dsimp only at hrun
  split at hrun
  · cases hrun
  · split at hrun
    · cases hrun
    next hqueue =>
      split at hqueue
      · cases hqueue
        cases hrun
        exact ⟨rfl, rfl⟩
      · cases hqueue

theorem Heap.mode_collect {α : Type} {x : Run Marking α} {r : α × Collection} {h h' : Heap}
    (hrun : Heap.collect x h = .ok r h') : h'.mode = h.mode :=
  (completed_collect hrun).1

namespace Machine

variable {γ α : Type} {m m' : Machine γ}

/-- What a collection marks from, call by call. -/
def rootCalls (m : Machine γ) : List RootCall :=
  (m.roots.locations.map fun location => (⟨m.memory.read location⟩ : Value)).map .value ++
    ((m.roots.regions.toList.flatMap fun region => Marking.scannedWords m.mode m.memory.read
      (m.roots.exclusions.pieces region)).map .ambiguous ++
    ((m.threads.flatMap (·.control.references)).map .value ++ m.symbols.symbols.map .value))

theorem markThreads_eq (mode : Mode) (threads : List Thread) : markThreads mode threads
    = RootCall.runAll mode ((threads.flatMap (·.control.references)).map .value) := by
  induction threads with
  | nil => rfl
  | cons thread rest ih =>
    rw [List.flatMap_cons, List.map_append, RootCall.runAll_append, ← ih, RootCall.runAll_value]
    rfl

theorem scanRegions_ok {regions : List Region} {k k' : Marking}
    (hrun : scanRegions m regions k = .ok () k') : RootCall.runAll m.mode ((regions.flatMap fun region =>
      Marking.scannedWords m.mode m.memory.read (m.roots.exclusions.pieces region)).map .ambiguous) k
        = .ok () k' := by
  induction regions generalizing k with
  | nil => exact hrun
  | cons region regions ih =>
    obtain ⟨_, k₁, hscan, hrest⟩ := Marking.exists_of_bind_ok hrun
    rw [List.flatMap_cons, List.map_append, RootCall.runAll_append,
      Marking.bind_eq_of_ok (Marking.scanPieces_ok hscan)]
    exact ih hrest

theorem traceRoots_ok {k k' : Marking} (hrun : m.traceRoots k = .ok () k') :
    RootCall.runAll m.mode m.rootCalls k = .ok () k' := by
  obtain ⟨_, k₁, hlocations, hrest⟩ := Marking.exists_of_bind_ok hrun
  obtain ⟨_, k₂, hregions, hrest⟩ := Marking.exists_of_bind_ok hrest
  rw [rootCalls, RootCall.runAll_append, RootCall.runAll_value, Marking.bind_eq_of_ok hlocations,
    RootCall.runAll_append, Marking.bind_eq_of_ok (scanRegions_ok hregions), RootCall.runAll_append,
    ← markThreads_eq, RootCall.runAll_value]
  exact hrest

/-! ## Collections -/

theorem withLock_of_held {lock : Guarded} (h : lock ∈ m.held) (x : Op γ α) :
    withLock lock x m = .error .blocked m :=
  if_pos (by simpa using h)

/-- Nobody completes a collection without the other threads stopped, or with a lock of its own. -/
theorem poised_of_collectLocked {stats : Stats} (hrun : collectLocked m = .ok stats m') :
    Poised m := by
  have hthreads : Guarded.threads ∉ m.held := fun hheld => by
    cases hrun.symm.trans (withLock_of_held hheld _)
  have hlocked : collectLocked m = _ := withLock_apply hthreads _
  have hroots : Guarded.roots ∉ m.held := fun hheld => by
    rw [withLock_of_held (List.mem_cons_of_mem _ hheld)] at hlocked
    cases hrun.symm.trans hlocked
  refine ⟨fun thread hthread hrunning => ?_, hthreads, hroots⟩
  obtain ⟨m₁, hstop⟩ := stopWorld_blocked (m := { m with held := .roots :: .threads :: m.held })
    fun hstopped => hstopped thread hthread hrunning
  have hinner : Guarded.roots ∉ ({ m with held := .threads :: m.held } : Machine γ).held := by
    simpa using hroots
  rw [withLock_apply hinner, bind_of_error hstop] at hlocked
  cases hrun.symm.trans hlocked

/-- A collection that is completed keeps what its roots reach, and leaves the rest of the machine as it
was. -/
theorem survives_of_collectLocked (hr : m.heap.Rested) (hmode : m.heap.mode = m.mode)
    (ht : m.heap.space.Traceable) (hcalls : ∀ call ∈ m.rootCalls, call.Permitted m.heap.space)
    {stats : Stats} (hrun : collectLocked m = .ok stats m') :
    m.heap.Survives m.rootCalls m'.heap ∧ Beside m m' ∧ m'.heap.mode = m.heap.mode := by
  obtain ⟨_, collection, heap, m₁, hcollect, hlocked, hbeside, rfl, -⟩ | ⟨_, _, _, -, herror, -⟩ :=
    (poised_of_collectLocked hrun).collectLocked_cases
  · cases hrun.symm.trans hlocked
    obtain ⟨_, k, htraced⟩ := Heap.collect_roots hcollect
    have hcollect' : Heap.collect (RootCall.runAll m.heap.mode m.rootCalls) m.heap
        = .ok ((), collection) m'.heap := by
      rw [← hcollect, hmode]
      exact Heap.collect_congr ((traceRoots_ok htraced).trans htraced.symm)
    obtain ⟨_, h', hrun', hsurvives⟩ := (hr.wellFormed ht).collect hcalls
    cases hcollect'.symm.trans hrun'
    exact ⟨hsurvives, hbeside, Heap.mode_collect hcollect⟩
  · cases hrun.symm.trans herror

end Machine

end Substrate
