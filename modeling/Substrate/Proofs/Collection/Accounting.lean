import Substrate.Proofs.Collection.Finalizers
import Substrate.Proofs.Space.Reclaim

/-!
# The books of a heap

A heap counts the objects and bytes that were allocated and reclaimed, and how many bytes are in use
since the last collection. `Heap.Balanced` says that these books balance: what was allocated is what was
reclaimed and what is there. Marking costs nothing, a sweep refunds every object with the bytes that its
allocation was charged with, and so the books balance at the end of every run.
-/

namespace Substrate

/-! ## Marking -/

namespace Marking

variable {α β : Type} {m m' : Marking} {mode : Mode}

/-- Nothing that the space is charged for changed, however the computation ended. -/
def Costless (m : Marking) : EStateM.Result Fault Marking α → Prop
  | .ok _ m' => m.space.Alike m'.space
  | .error _ m' => m.space.Alike m'.space

theorem Costless.after {r : EStateM.Result Fault Marking α} (hr : Costless m' r)
    (h : m.space.Alike m'.space) : Costless m r := by
  cases r with
  | ok a m'' => exact h.trans hr
  | error fault m'' => exact h.trans hr

theorem costless_bind {x : Run Marking α} {f : α → Run Marking β} (hx : Costless m (x m))
    (hf : ∀ a m', Costless m' (f a m')) : Costless m ((x >>= f) m) := by
  change Costless m (EStateM.bind x f m)
  unfold EStateM.bind
  revert hx
  cases x m with
  | error fault m₁ => exact id
  | ok a m₁ => exact fun hx => (hf a m₁).after hx

theorem alike_markObject (m : Marking) (a : Nat) : m.space.Alike (m.markObject a).space := by
  unfold markObject
  split
  · exact .refl _
  · exact Space.alike_modifyHeader m.space a (f := fun header => header.tryMark.2) fun _ => ⟨rfl, rfl⟩

theorem costless_markValue (mode : Mode) (v : Value) (m : Marking) : Costless m (markValue mode v m) := by
  unfold markValue
  split
  · cases mode with
    | debug =>
      dsimp only
      split
      · exact alike_markObject m _
      · exact Space.Alike.refl _
    | release => exact alike_markObject m _
  · exact Space.Alike.refl _

theorem costless_markValues (vs : List Value) (m : Marking) : Costless m (markValues mode vs m) := by
  induction vs generalizing m with
  | nil => exact Space.Alike.refl _
  | cons v vs ih => exact costless_bind (costless_markValue _ v m) fun _ => ih

theorem alike_markAmbiguous (m : Marking) (word : Word) : m.space.Alike (m.markAmbiguous word).space := by
  unfold markAmbiguous
  split
  · exact alike_markObject m _
  · exact .refl _

theorem alike_foldl_markAmbiguous (memory : Nat → Word) (addresses : List Nat) (m : Marking) :
    m.space.Alike (addresses.foldl (fun m address => m.markAmbiguous (memory address)) m).space := by
  induction addresses generalizing m with
  | nil => exact .refl _
  | cons x addresses ih => exact (alike_markAmbiguous m _).trans (ih _)

theorem costless_scanPieces (memory : Nat → Word) (pieces : List Region) (m : Marking) :
    Costless m (scanPieces mode memory pieces m) := by
  induction pieces generalizing m with
  | nil => exact Space.Alike.refl _
  | cons piece pieces ih =>
    have hread : Costless m ((Run.ofExcept (piece.scanned mode) : Run Marking (List Nat)) m) := by
      cases piece.scanned mode <;> exact Space.Alike.refl _
    refine costless_bind hread fun addresses m₁ => ?_
    exact costless_bind (alike_foldl_markAmbiguous memory addresses m₁) fun _ => ih

theorem costless_markListed (mode : Mode) (a : Nat) (indices : List Nat) (m : Marking) :
    Costless m (markListed mode a indices m) := by
  induction indices generalizing m with
  | nil => exact Space.Alike.refl _
  | cons index indices ih => exact costless_bind (costless_markValue _ _ m) fun _ => ih

theorem costless_trace (mode : Mode) (a : Nat) (m : Marking) : Costless m (trace mode a m) := by
  obtain ⟨visited, raised, -, htrace⟩ := exists_trace_eq mode a m
  rw [htrace]
  refine costless_bind (costless_markListed mode a visited m) fun _ m' => ?_
  cases raised <;> exact Space.Alike.refl _

theorem costless_drainWith (fuel : Nat) (m : Marking) : Costless m (drainWith mode fuel m) := by
  induction fuel generalizing m with
  | zero =>
    unfold drainWith
    split <;> exact Space.Alike.refl _
  | succ fuel ih =>
    unfold drainWith
    split
    next => exact Space.Alike.refl _
    next a rest hstack =>
      have hvisit := costless_trace mode a { m with stack := rest }
      revert hvisit
      cases trace mode a { m with stack := rest } with
      | error fault m₁ => exact id
      | ok _ m₁ => exact (ih m₁).after

theorem costless_call (call : RootCall) (m : Marking) : Costless m (call.run mode m) := by
  cases call with
  | value v => exact costless_markValue _ v m
  | slot memory location => exact costless_markValue _ _ m
  | ambiguous word => exact alike_markAmbiguous m word
  | scan memory exclusions region => exact costless_scanPieces memory _ m
  | drain => exact costless_drainWith _ m

theorem costless_runAll (calls : List RootCall) (m : Marking) :
    Costless m (RootCall.runAll mode calls m) := by
  induction calls generalizing m with
  | nil => exact Space.Alike.refl _
  | cons call calls ih => exact costless_bind (costless_call call m) fun _ => ih

end Marking

namespace Heap

open Marking

variable {h h' k : Heap} {m m' : Marking} {calls : List RootCall} {collection : Collection}

theorem costless_markReachable (h : Heap) (calls : List RootCall) (m : Marking) :
    Costless m (h.markReachable (RootCall.runAll h.mode calls) m) := by
  refine costless_bind (costless_runAll calls m) fun _ m₁ => ?_
  refine costless_bind (costless_markValues _ m₁) fun _ m₂ => ?_
  refine costless_bind (costless_markValues _ m₂) fun _ m₃ => ?_
  exact costless_bind (costless_drainWith _ m₃) fun _ m₄ => Space.Alike.refl _

theorem alike_clearFlags (entries : List (Nat × Finalizer)) (m : Marking) :
    m.space.Alike (clearFlags entries m).space := by
  induction entries generalizing m with
  | nil => exact .refl _
  | cons entry entries ih =>
    have hfirst := Space.alike_modifyHeader m.space entry.1
      (f := fun header => header.clearFlag Header.hasFinalizer) fun _ => ⟨rfl, rfl⟩
    exact hfirst.trans (ih { m with space := _ })

theorem alike_queueUnreached (hrun : h.queueUnreached m = .ok () (k, m')) :
    m.space.Alike m'.space := by
  unfold Heap.queueUnreached at hrun
  dsimp only at hrun
  split at hrun
  next m₁ hmark =>
    obtain ⟨-, rfl⟩ := Prod.mk.inj (EStateM.Result.ok.inj hrun).2
    have hcost : Costless (clearFlags _ m) (.ok () m₁) :=
      hmark ▸ costless_bind (costless_markValues _ _) fun _ m₂ => costless_drainWith _ m₂
    exact (alike_clearFlags _ m).trans hcost
  next => cases hrun

/-! ## Balance -/

/-- The books of a heap balance. -/
structure Balanced (h : Heap) : Prop where
  settled : h.space.Settled
  limit : h.space.maxFootprint = h.options.maxSize
  objects : h.objectsAllocated = h.objectsReclaimed + h.space.sizes.length
  bytes : h.bytesAllocated = h.bytesReclaimed + (h.space.sizes.map bytesFor).sum
  used : (h.space.sizes.map bytesFor).sum = h.liveBytes + h.allocatedSince

theorem balanced_new (mode : Mode) (options : HeapOptions) : (Heap.new mode options).Balanced :=
  ⟨Space.settled_new _, rfl, rfl, rfl, rfl⟩

/-- What does not change sizes leaves the books as they are. -/
theorem Balanced.alike (hb : h.Balanced) {s : Space} (hs : h.space.Alike s) :
    ({ h with space := s } : Heap).Balanced := by
  refine ⟨hs.settled hb.settled, hs.maxFootprint.trans hb.limit, ?_, ?_, ?_⟩
  · show h.objectsAllocated = h.objectsReclaimed + s.sizes.length
    rw [hs.sizes]
    exact hb.objects
  · show h.bytesAllocated = h.bytesReclaimed + (s.sizes.map bytesFor).sum
    rw [hs.sizes]
    exact hb.bytes
  · show (s.sizes.map bytesFor).sum = h.liveBytes + h.allocatedSince
    rw [hs.sizes]
    exact hb.used

/-- An allocation is charged if it is granted. -/
theorem Balanced.tryAllocate (hb : h.Balanced) (hw : h.WellFormed) {pages : Pages}
    (fresh : pages.Fresh h.space.Held) {kind : Kind} (hkind : kind.isHeap = true) {words : Nat}
    {result : Option Value}
    (hrun : tryAllocate kind words { h with space := { h.space with pages } } = .ok result h') :
    h'.Balanced := by
  have hsame := Space.Same.pages h.space pages
  have halike : h.space.Alike { h.space with pages } := ⟨rfl, rfl, rfl, rfl⟩
  obtain ⟨t, hanswer, ht⟩ | ⟨a, t, hanswer, hmax, hsizes, hsettled⟩ :=
    (hsame.valid hw.valid).charges h.mode (hsame.fresh fresh) hkind words
  · simp only [Heap.tryAllocate, hanswer] at hrun
    cases hrun
    exact hb.alike (halike.trans ht)
  · have hbytes := allocationSize_eq h.mode (bytes_lt_of_payload (words_lt_of_allocate hanswer))
    simp only [Heap.tryAllocate, hanswer, hbytes] at hrun
    cases hrun
    have hsum := (hsizes.map bytesFor).sum_eq
    have hlength := hsizes.length_eq
    have hobjects := hb.objects
    have htotal := hb.bytes
    have hused := hb.used
    rw [List.map_cons, List.sum_cons, halike.sizes] at hsum
    rw [List.length_cons, halike.sizes] at hlength
    refine ⟨hsettled (halike.settled hb.settled), hmax.trans hb.limit, ?_, ?_, ?_⟩ <;> dsimp only <;>
      omega

theorem Balanced.registerFinalizer (hb : h.Balanced) {v : Value} {action : Finalizer}
    (hrun : registerFinalizer v action h = .ok () h') : h'.Balanced := by
  unfold Heap.registerFinalizer at hrun
  split at hrun
  · cases hrun
    have hspace := hb.alike (Space.alike_modifyHeader h.space v.address
      (f := fun header => header.setFlag Header.hasFinalizer) fun _ => ⟨rfl, rfl⟩)
    exact ⟨hspace.settled, hspace.limit, hspace.objects, hspace.bytes, hspace.used⟩
  · revert hrun
    cases h.mode.violation ("finalizer for non-object " ++ Text.hex v.address) with
    | error fault => exact fun hrun => by cases hrun
    | ok _ =>
      rintro ⟨⟩
      exact hb

theorem Balanced.takePendingFinalizer (hb : h.Balanced) : h.takePendingFinalizer.2.Balanced := by
  unfold Heap.takePendingFinalizer
  split
  · exact hb
  · exact ⟨hb.settled, hb.limit, hb.objects, hb.bytes, hb.used⟩

/-- A collection refunds what it reclaims and counts what it keeps. -/
theorem Balanced.collect (hb : h.Balanced) (hw : h.WellFormed)
    (hcalls : ∀ call ∈ calls, call.Permitted h.space)
    (hrun : Heap.collect (RootCall.runAll h.mode calls) h = .ok ((), collection) h') :
    h'.Balanced ∧ h'.allocatedSince = 0 ∧
      ∀ pool ∈ h'.space.pools.toList, (pool.blocks.toList.filter Block.isEmpty).length ≤ 1 := by
  obtain ⟨m, hmark, hempty, htraced⟩ := hw.markReachable hcalls
  obtain ⟨due, m', -, hqueue, -, htraced'⟩ :=
    hw.queueUnreached hempty htraced (k := { h with space := .vacant }) rfl
  cases hrun.symm.trans (collect_eq hmark hqueue)
  have halike : h.space.Alike m'.space := by
    have hcost := costless_markReachable h calls
      (.start h.space h.options.interiorPointers)
    rw [hmark] at hcost
    exact hcost.trans (alike_queueUnreached hqueue)
  have hvalid := htraced'.similar.valid
  have hsettled := halike.settled hb.settled
  have hreport := hsettled.sweep_report
  have hkept : (m'.space.sweep.2).sizes = m'.space.kept := hvalid.sizes_sweep
  have hsizes := m'.space.perm_sizes
  rw [halike.sizes] at hsizes
  have hlength := hsizes.length_eq
  have hsum := (hsizes.map bytesFor).sum_eq
  rw [List.length_append] at hlength
  rw [List.map_append, List.sum_append] at hsum
  have hobjects := hb.objects
  have hbytes := hb.bytes
  refine ⟨⟨hsettled.sweep hvalid, halike.maxFootprint.trans hb.limit, ?_, ?_, ?_⟩, rfl, ?_⟩
  · simp only [Heap.finish, hreport, dues, hkept]
    omega
  · simp only [Heap.finish, hreport, dues, hkept]
    omega
  · simp only [Heap.finish, hreport, dues, hkept]
    omega
  · intro pool hpool
    simp only [Heap.finish] at hpool
    rw [Space.pools_sweep, Array.toList_map] at hpool
    obtain ⟨pool₀, -, rfl⟩ := List.mem_map.mp hpool
    rw [Pool.blocks_sweep]
    exact Pool.length_spares _

/-- The books balance at the end of every run. -/
theorem Reachable.balanced (hr : Reachable h) : h.Balanced := by
  induction hr with
  | new mode options => exact balanced_new mode options
  | allocate h₀ fresh hkind hrun ih => exact ih.tryAllocate h₀.wellFormed fresh hkind hrun
  | write _ _ _ bits _ ih => 
    refine ih.alike (Space.alike_modifyCell _ _ fun cell => ?_)
    rw [Cell.header_setWord]
    exact ⟨rfl, rfl⟩
  | register _ hrun ih => exact ih.registerFinalizer hrun
  | take _ ih => exact ih.takePendingFinalizer
  | finish _ object ih => exact ⟨ih.settled, ih.limit, ih.objects, ih.bytes, ih.used⟩
  | collect h₀ hcalls hrun ih => exact (ih.collect h₀.wellFormed hcalls hrun).1

/-- Whether to collect is decided by what is in use. -/
theorem shouldCollect_eq {words used bytes : Nat} (hsize : allocationSize h.mode words = .ok bytes)
    (hused : used = h.liveBytes + h.allocatedSince) (hsum : used + bytes < wordLimit) :
    h.shouldCollect words = .ok (decide (h.threshold < used + bytes)) := by
  have hlive : h.mode.add h.liveBytes h.allocatedSince = .ok used := by
    rw [hused] at hsum ⊢
    exact if_pos (Nat.lt_of_le_of_lt (Nat.le_add_right _ _) hsum)
  have htotal : h.mode.add used bytes = .ok (used + bytes) := if_pos hsum
  simp only [shouldCollect, hlive, hsize, htotal, ok_bind]
  rfl

/-! ## The result -/

/-- Heap accounting is conserved. At the end of every run the list of objects has every object once; what
was allocated is what was reclaimed and what is in the list, in objects and in bytes, and the bytes are
those that were live after the last collection and those allocated since. A collection is due for a
payload exactly when these bytes and those of the payload cross the threshold. The footprint is that of
the blocks and of the pages of the large objects, and stays within the maximum. Right after a completed
collection the live bytes are those in use, and no size class has more than one empty block. -/
theorem Reachable.accounting_conserved (hr : Reachable h) :
    (h.space.objects.Nodup ∧ ∀ a, a ∈ h.space.objects ↔ (h.space.object? a).isSome) ∧
    (∀ a ∈ h.space.objects,
      allocationSize h.mode (h.space.header a).words = .ok (bytesFor (h.space.header a).words)) ∧
    h.stats.objectsAllocated = h.stats.objectsReclaimed + h.space.objects.length ∧
    h.stats.bytesAllocated = h.stats.bytesReclaimed + h.space.bytesInUse ∧
    h.space.bytesInUse = h.liveBytes + h.allocatedSince ∧
    (∀ words < Space.payloadLimit, h.space.bytesInUse + bytesFor words < wordLimit →
      allocationSize h.mode words = .ok (bytesFor words) ∧
        h.shouldCollect words = .ok (decide (h.threshold < h.space.bytesInUse + bytesFor words))) ∧
    h.stats.footprint = 65536 * h.space.blocks.length +
      (h.space.larges.map fun object => pagesFor ((1 + object.cell.header.words) * wordBytes)).sum ∧
    h.stats.footprint ≤ h.options.maxSize ∧
    ∀ calls collection h', (∀ call ∈ calls, call.Honest h.mode h.space) →
      Heap.collect (RootCall.runAll h.mode calls) h = .ok ((), collection) h' →
      Reachable h' ∧ h'.liveBytes = h'.space.bytesInUse ∧
        ∀ pool ∈ h'.space.pools, (pool.blocks.filter Block.isEmpty).size ≤ 1 := by
  have hw := hr.wellFormed
  have hb := hr.balanced
  have huse := hw.valid.bytesInUse_eq
  refine ⟨⟨hw.valid.nodup_objects, fun a => hw.valid.mem_objects_iff⟩, fun a ha => ?_, ?_, ?_, ?_,
    fun words hwords hsum => ?_, ?_, ?_, fun calls collection h' hcalls hrun => ?_⟩
  · exact allocationSize_eq _ (hw.valid.bytes_lt ha)
  · have hlength := congrArg List.length hw.valid.sizes_eq
    rw [List.length_map] at hlength
    exact hlength ▸ hb.objects
  · exact huse ▸ hb.bytes
  · exact huse.trans hb.used
  · have hsize := allocationSize_eq h.mode (bytes_lt_of_payload hwords)
    exact ⟨hsize, shouldCollect_eq hsize (huse.trans hb.used) hsum⟩
  · rw [List.map_congr_left fun object hobject => (hb.settled.larges object hobject).2.symm]
    exact hb.settled.footprint
  · exact hb.limit ▸ hb.settled.bounded
  · have hpermitted := hw.permitted hcalls hrun
    have hr' : Reachable h' := .collect hr hpermitted hrun
    obtain ⟨hb', hsince, hspares⟩ := hb.collect hw hpermitted hrun
    refine ⟨hr', ?_, fun pool hpool => ?_⟩
    · rw [hr'.wellFormed.valid.bytesInUse_eq, hb'.used, hsince, Nat.add_zero]
    · have hlength := hspares pool (Array.mem_toList_iff.mpr hpool)
      rwa [← Array.toList_filter, Array.length_toList] at hlength

/-- One vector was allocated, in a cell of 2048 bytes. -/
theorem Reachable.accounting_conserved_lonelyHeap :
    lonelyHeap.space.objects.length = 1 ∧ lonelyHeap.space.bytesInUse = 2048 ∧
      lonelyHeap.shouldCollect 3 = .ok true ∧ lonelyHeap.stats.footprint ≤ 65536 := by
  obtain ⟨-, -, hobjects, hbytes, -, hcollect, -, hlimit, -⟩ :=
    life_lonelyHeap.reachable.accounting_conserved
  have hstats : lonelyHeap.stats.objectsAllocated = 1 ∧ lonelyHeap.stats.objectsReclaimed = 0 ∧
      lonelyHeap.stats.bytesAllocated = 2048 ∧ lonelyHeap.stats.bytesReclaimed = 0 ∧
      lonelyHeap.options.maxSize = 65536 ∧ lonelyHeap.threshold = 0 := by decide +kernel
  obtain ⟨hallocated, hreclaimed, hallocatedBytes, hreclaimedBytes, hmax, hthreshold⟩ := hstats
  have hsmall : bytesFor 3 = 32 := by decide
  have huse : lonelyHeap.space.bytesInUse = 2048 := by omega
  have hshould := (hcollect 3 (by decide) (by rw [huse, hsmall]; decide)).2
  rw [huse, hsmall, hthreshold] at hshould
  exact ⟨by omega, huse, hshould, hmax ▸ hlimit⟩

end Heap

end Substrate
