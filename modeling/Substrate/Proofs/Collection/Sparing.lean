import Substrate.Proofs.Collection.Steps
import Substrate.Proofs.Collection.Work
import Substrate.Proofs.Machine.Roots

/-!
# What goes on around an object

A client allocates, writes to objects and registers finalizers, and collections come in between. An
object that is not written to and not reclaimed keeps its contents through all of this:
`Heap.Goes.similar`. Nothing needs to be known of the other objects in a debug build, where a collection
looks before it follows a reference. A release build has to be able to trace them.
-/

namespace Substrate

namespace Marking

variable {m m' : Marking} {mode : Mode} {vs : List Value}

/-- Values that were marked are marked, and so far the marker only took steps. -/
theorem of_markValues (hm : m.space.Valid) (hvs : ∀ v ∈ vs, m.space.Accepts v)
    (hrun : markValues mode vs m = .ok () m') :
    Steps m m' ∧ ∀ v ∈ vs, v.isHeapRef = true → m'.marks v.address = true := by
  have hleaves : Leaves m (markValues mode vs m) := leaves_markValues hm fun _ => hvs
  obtain ⟨m₁, hok, hext⟩ := marks_markValues mode hm hvs
  rw [hrun] at hleaves
  obtain rfl : m' = m₁ := by
    cases hrun.symm.trans hok
    rfl
  exact ⟨hleaves, fun v hv href => (hext.marks _).mpr (.inr ⟨v, hv, href, rfl⟩)⟩

end Marking

namespace Heap

open Marking

variable {α : Type} {h h' h'' : Heap} {spared : Nat → Prop} {a : Nat} {cell : Cell}

/-! ## Collections that are completed -/

/-- Marking that comes back has taken steps and marked what the heap itself refers to. -/
theorem Intact.of_markReachable (hi : h.Intact) (ht : h.mode = .release → h.space.Traceable)
    {x : Run Marking α} {interior : Bool} {r : α} {m : Marking}
    (hx : Leaves (.start h.space interior) (x (.start h.space interior)))
    (hrun : h.markReachable x (.start h.space interior) = .ok r m) :
    Steps (.start h.space interior) m ∧
      (∀ entry ∈ h.pending, entry.1.isHeapRef = true → m.marks entry.1.address = true) ∧
      ∀ v ∈ h.finalizing.toList, v.isHeapRef = true → m.marks v.address = true := by
  have hsafe := safe_start ht interior
  obtain ⟨_, m₁, hroots, hrest⟩ := exists_of_bind_ok hrun
  obtain ⟨_, m₂, hpending, hrest⟩ := exists_of_bind_ok hrest
  obtain ⟨_, m₃, hfinalizing, hrest⟩ := exists_of_bind_ok hrest
  obtain ⟨_, m₄, hdrain, hpure⟩ := exists_of_bind_ok hrest
  cases hpure
  rw [hroots] at hx
  have h₁ : Steps (.start h.space interior) m₁ := hx
  obtain ⟨h₂, hmarked⟩ := of_markValues h₁.similar.valid (fun v hv => by
    obtain ⟨entry, hentry, rfl⟩ := List.mem_map.mp hv
    exact h₁.similar.accepts.mpr (hi.pending entry hentry)) hpending
  obtain ⟨h₃, hmarked'⟩ := of_markValues h₂.similar.valid
    (fun v hv => (h₁.trans h₂).similar.accepts.mpr (hi.finalizing v hv)) hfinalizing
  have hbefore := (h₁.trans h₂).trans h₃
  have h₄ := leaves_drain hbefore.similar.valid (hsafe.steps hbefore)
  rw [hdrain] at h₄
  have h₄ : Steps m₃ m := h₄
  exact ⟨hbefore.trans h₄, fun entry hentry href =>
      h₄.marks _ (h₃.marks _ (hmarked _ (List.mem_map_of_mem hentry) href)),
    fun v hv href => h₄.marks _ (hmarked' v hv href)⟩

/-- What is queued gets a mark. -/
theorem marks_queueUnreached {k : Heap} {m m' : Marking} (hm : m.space.Valid) (hsafe : Safe h.mode m)
    (hunreached : ∀ entry ∈ h.unreached m, (m.space.object? entry.1).isSome)
    (hrun : h.queueUnreached m = .ok () (k, m')) :
    ∀ entry ∈ h.unreached m, m'.marks entry.1 = true := by
  intro entry hdue
  have hflags := extends_clearFlags hm hunreached
  unfold Heap.queueUnreached at hrun
  dsimp only at hrun
  split at hrun
  next m₂ hqueue =>
    cases hrun
    obtain ⟨_, m₃, hvalues, hdrain⟩ := exists_of_bind_ok hqueue
    have hdrain : drain h.mode m₃ = .ok () m' := hdrain
    obtain ⟨h₃, hmarked⟩ := of_markValues hflags.similar.valid
      (fun _ => accepts_queued hm hunreached) hvalues
    have hlive : ((clearFlags (h.unreached m) m).space.object? entry.1).isSome := by
      rw [hflags.similar.isSome]
      exact hunreached entry hdue
    obtain ⟨href, haddress⟩ := (refersTo_ofAddress hflags.similar.valid hlive entry.1).mpr rfl
    have hqueued := hmarked (.ofAddress entry.1) (by
      rw [List.map_map]
      exact List.mem_map_of_mem hdue) href
    rw [haddress] at hqueued
    have h₄ := leaves_drain h₃.similar.valid ((safe_clearFlags hm hsafe hunreached).steps h₃)
    rw [hdrain] at h₄
    have h₄ : Steps m₃ m' := h₄
    exact h₄.marks _ hqueued
  next => cases hrun

/-- Queueing that comes back has marked the objects that are queued. -/
theorem of_queueUnreached {k : Heap} {m m' : Marking} (hm : m.space.Valid) (hsafe : Safe h.mode m)
    (hentries : ∀ entry ∈ h.finalizers, (m.space.object? entry.1).isSome)
    (hrun : h.queueUnreached m = .ok () (k, m')) :
    k = h.requeued m ∧ m.space.Similar m'.space ∧ (∀ a, m.marks a = true → m'.marks a = true) ∧
      ∀ entry ∈ h.finalizers, m'.marks entry.1 = true := by
  obtain ⟨m₁, hsteps, hok | ⟨fault, herror⟩⟩ := leaves_queueUnreached hm hsafe hentries
  · obtain ⟨rfl, rfl⟩ : k = h.requeued m ∧ m' = m₁ := by
      cases hrun.symm.trans hok
      exact ⟨rfl, rfl⟩
    have hunreached : ∀ entry ∈ h.unreached m, (m.space.object? entry.1).isSome := fun entry hentry =>
      hentries entry (List.mem_filter.mp hentry).1
    have hflags := extends_clearFlags hm hunreached
    have hmarks : ∀ a, m.marks a = true → m'.marks a = true := fun a ha =>
      hsteps.marks a ((hflags.marks a).mpr (.inl ha))
    refine ⟨rfl, hflags.similar.trans hsteps.similar, hmarks, fun entry hentry => ?_⟩
    obtain ⟨cell, hcell⟩ := Option.isSome_iff_exists.mp (hentries entry hentry)
    -- what had no mark is queued, and then it gets one
    by_cases hmarked : cell.header.marked = true
    · exact hmarks _ ((marks_of_object? hcell).trans hmarked)
    · refine marks_queueUnreached hm hsafe hunreached hrun entry (List.mem_filter.mpr ⟨hentry, ?_⟩)
      rw [Space.header_of_object? hcell]
      simpa using hmarked
  · cases hrun.symm.trans herror

/-- A collection that is completed leaves the heap at rest, and its survivors with their contents. -/
theorem Intact.collected (hi : h.Intact) (ht : h.mode = .release → h.space.Traceable)
    {x : Run Marking α} {result : α × Collection}
    (hx : Leaves (.start h.space h.options.interiorPointers)
      (x (.start h.space h.options.interiorPointers)))
    (hrun : Heap.collect x h = .ok result h') :
    h'.Rested ∧ ∀ a cell', h'.space.object? a = some cell' →
      ∃ cell, h.space.object? a = some cell ∧ cell.Similar cell' := by
  have heq : ({ h with space := .vacant } : Heap).markReachable x = h.markReachable x := rfl
  simp only [Heap.collect, heq] at hrun
  split at hrun
  · cases hrun
  next r m hmark =>
  split at hrun
  · cases hrun
  next k m' hqueue =>
  cases hrun
  obtain ⟨hsteps, hpending, hfinalizing⟩ := hi.of_markReachable ht hx hmark
  have hentries : ∀ entry ∈ h.finalizers, (m.space.object? entry.1).isSome := fun entry hentry =>
    (hsteps.similar.isSome _).trans (hi.finalizers entry hentry)
  have hsafe := safe_start ht h.options.interiorPointers
  obtain ⟨rfl, hsim, hmarks, hkept⟩ := of_queueUnreached (h := { h with space := .vacant })
    hsteps.similar.valid (hsafe.steps hsteps) hentries hqueue
  have hsim' := hsteps.similar.trans hsim
  have hlive : ∀ a, m'.marks a = true → (m'.space.sweep.2.object? a).isSome := fun a ha =>
    (isSome_sweep hsim' a).mpr ha
  refine ⟨⟨⟨hsim'.valid.sweep, fun entry hentry => ?_, fun entry hentry href => ?_,
    fun v hv href => hlive _ (hmarks _ (hfinalizing v hv href))⟩,
    fun a cell' hcell => (object_sweep hsim' hcell).2.1⟩,
    fun a cell' hcell => (object_sweep hsim' hcell).2.2⟩
  · exact hlive _ (hkept entry (List.mem_filter.mp hentry).1)
  · obtain hold | hqueued := List.mem_append.mp hentry
    · exact hlive _ (hmarks _ (hpending entry hold href))
    · obtain ⟨due, hdue, rfl⟩ := List.mem_map.mp hqueued
      have hin := (List.mem_filter.mp hdue).1
      have hsome := hlive _ (hkept due hin)
      exact accepts_ofAddress hsim'.valid.sweep hsome href

/-! ## Work elsewhere -/

/-- A piece of a client's work on a heap that writes to none of the spared objects. -/
inductive Spares (spared : Nat → Prop) (h : Heap) : Heap → Prop where
  | allocate {h' : Heap} {pages : Pages} {kind : Kind} {words : Nat} {result : Option Value}
      (fresh : pages.Fresh h.space.Held) (hkind : kind.isHeap = true)
      (hrun : Heap.tryAllocate kind words { h with space := { h.space with pages } }
        = .ok result h') : Spares spared h h'
  | write {a index : Nat} {cell : Cell} (hspared : ¬ spared a) (hcell : h.space.object? a = some cell)
      (hindex : index < cell.header.words) (bits : Word) :
      Spares spared h { h with space := h.space.setWord a index bits }
  | register {h' : Heap} {v : Value} {action : Finalizer}
      (hrun : Heap.registerFinalizer v action h = .ok () h') : Spares spared h h'
  | take : Spares spared h h.takePendingFinalizer.2
  | finish (object : Value) : Spares spared h (h.finishFinalizer object)

theorem Spares.work (h₀ : Spares spared h h') : Work h h' := by
  cases h₀ with
  | allocate fresh hkind hrun => exact .allocate fresh hkind hrun
  | write _ hcell hindex bits => exact .write hcell hindex bits
  | register hrun => exact .register hrun
  | take => exact .take
  | finish object => exact .finish object

/-- Work elsewhere leaves an object as it is. -/
theorem Spares.similar (h₀ : Spares spared h h') (hr : h.Rested) (ha : spared a)
    (hcell : h.space.object? a = some cell) :
    ∃ cell', h'.space.object? a = some cell' ∧ cell.Similar cell' := by
  cases h₀ with
  | allocate fresh hkind hrun =>
    exact ⟨cell, object_tryAllocate hr.valid fresh hkind hrun hcell, .refl cell⟩
  | @write b index other hspared hother _ bits =>
    have hne : a ≠ b := by
      rintro rfl
      exact hspared ha
    refine ⟨cell, ?_, .refl cell⟩
    rw [hr.valid.object?_setWord hother, if_neg hne, hcell]
  | register hrun => exact (hr.similar_registerFinalizer hrun).object hcell
  | take =>
    refine ⟨cell, ?_, .refl cell⟩
    unfold Heap.takePendingFinalizer
    split <;> exact hcell
  | finish => exact ⟨cell, hcell, .refl cell⟩

/-! ## Runs -/

/-- One piece of what goes on with a heap, none of which writes to a spared object or reclaims one: work
elsewhere, or a collection that is completed. -/
inductive Goes (spared : Nat → Prop) (h : Heap) : Heap → Prop where
  | work {h' : Heap} (hwork : Spares spared h h') : Goes spared h h'
  | collect {calls : List RootCall} {result : Unit × Collection} {h' : Heap}
      (hcalls : h.mode = .release →
        h.space.Traceable ∧ ∀ call ∈ calls, call.Permitted h.space)
      (hrun : Heap.collect (RootCall.runAll h.mode calls) h = .ok result h')
      (hlive : ∀ a, spared a → (h'.space.object? a).isSome) : Goes spared h h'

theorem Goes.step (h₀ : Goes spared h h') (hr : h.Rested) : h'.Rested ∧ h'.mode = h.mode ∧
    ∀ a cell, spared a → h.space.object? a = some cell →
      ∃ cell', h'.space.object? a = some cell' ∧ cell.Similar cell' := by
  cases h₀ with
  | work hwork =>
    have hkeeps := hr.work hwork.work
    exact ⟨hkeeps.rested, hkeeps.mode, fun a cell ha hcell => hwork.similar hr ha hcell⟩
  | @collect calls result _ hcalls hrun hlive =>
    have ht : h.mode = .release → h.space.Traceable := fun hmode => (hcalls hmode).1
    obtain ⟨hrested, hcontents⟩ := hr.collected ht
      (leaves_runAll hr.valid (safe_start ht _) fun hmode => (hcalls hmode).2) hrun
    refine ⟨hrested, mode_collect hrun, fun a cell ha hcell => ?_⟩
    obtain ⟨cell', hcell'⟩ := Option.isSome_iff_exists.mp (hlive a ha)
    obtain ⟨old, hold, hsim⟩ := hcontents a cell' hcell'
    obtain rfl : cell = old := Option.some.inj (hcell.symm.trans hold)
    exact ⟨cell', hcell', hsim⟩

/-- Whatever goes on around an object, it keeps its contents. -/
theorem Goes.similar (h₀ : Relation.ReflTransGen (Goes spared) h h') (hr : h.Rested) :
    h'.Rested ∧ h'.mode = h.mode ∧ ∀ a cell, spared a → h.space.object? a = some cell →
      ∃ cell', h'.space.object? a = some cell' ∧ cell.Similar cell' := by
  induction h₀ with
  | refl => exact ⟨hr, rfl, fun a cell _ hcell => ⟨cell, hcell, .refl cell⟩⟩
  | tail _ hstep ih =>
    obtain ⟨hrested, hmode, hkept⟩ := ih
    obtain ⟨hrested', hmode', hkept'⟩ := hstep.step hrested
    refine ⟨hrested', hmode'.trans hmode, fun a cell ha hcell => ?_⟩
    obtain ⟨cell₁, hcell₁, hsim⟩ := hkept a cell ha hcell
    obtain ⟨cell₂, hcell₂, hsim'⟩ := hkept' a cell₁ ha hcell₁
    exact ⟨cell₂, hcell₂, hsim.trans hsim'⟩

end Heap

end Substrate
