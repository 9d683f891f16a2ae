import Substrate.Proofs.Collection.Finalizers
import Substrate.Proofs.Space.Ownership

/-!
# Collections after a failed one

A collection that fails leaves its marks behind. The objects and what they hold stay as they are, so that
the next collection can be completed once the words that were wrong are corrected. But it never visits
an object that is marked already: apart from these, it keeps only what references lead to without going
through one of them. It is sound exactly when the objects that were left marked refer to survivors.
-/

namespace Substrate

/-- What the stale objects of a space refer to is still there in another one. -/
def Space.Covers (s : Space) (stale : Nat → Prop) (t : Space) : Prop :=
  ∀ a b cell, stale a → s.object? a = some cell → cell.RefersTo b → (t.object? b).isSome

namespace Heap

open Marking

variable {α : Type} {h h' h₁ h₂ : Heap} {calls : List RootCall} {fault : Fault} {a : Nat}

/-- The object at an address is marked. -/
def Marked (h : Heap) (a : Nat) : Prop :=
  (h.space.object? a).any (·.header.marked) = true

/-! ## Failures -/

/-- A collection that fails keeps the objects and what they hold. It takes no mark away. -/
theorem Intact.collect_error (hi : h.Intact) (ht : h.mode = .release → h.space.Traceable)
    {x : Run Marking α} (hx : Leaves (.start h.space h.options.interiorPointers)
      (x (.start h.space h.options.interiorPointers)))
    (hrun : Heap.collect x h = .error fault h₁) :
    h₁.Intact ∧ h.space.Similar h₁.space ∧ ∀ a, h.Marked a → h₁.Marked a := by
  have hmark := hi.leaves_markReachable ht hx
  have heq : ({ h with space := .vacant } : Heap).markReachable x = h.markReachable x := rfl
  simp only [Heap.collect, heq] at hrun
  split at hrun
  next fault' m hresult =>
    rw [hresult] at hmark
    cases hrun
    exact ⟨hi.similar hmark.similar, hmark.similar, hmark.marks⟩
  next r m hresult =>
    rw [hresult] at hmark
    have hentries : ∀ entry ∈ h.finalizers, (m.space.object? entry.1).isSome := fun entry hentry =>
      (hmark.similar.isSome _).trans (hi.finalizers entry hentry)
    have hsafe := safe_start ht h.options.interiorPointers
    obtain ⟨m', hstep, hok | ⟨fault', herror⟩⟩ := leaves_queueUnreached
      (h := { h with space := .vacant }) hmark.similar.valid (hsafe.steps hmark) hentries
    · rw [hok] at hrun
      cases hrun
    · rw [herror] at hrun
      cases hrun
      have hunreached : ∀ entry ∈ ({ h with space := .vacant } : Heap).unreached m,
          (m.space.object? entry.1).isSome :=
        fun entry hentry => hentries entry (List.mem_filter.mp hentry).1
      have hflags := extends_clearFlags hmark.similar.valid hunreached
      have hsim := hmark.similar.trans (hflags.similar.trans hstep.similar)
      have hi' := hi.similar hsim
      refine ⟨⟨hi'.valid, fun entry hentry => hi'.finalizers entry (List.mem_filter.mp hentry).1,
        fun entry hentry => ?_, hi'.finalizing⟩, hsim,
        fun a ha => hstep.marks a ((hflags.marks a).mpr (.inl (hmark.marks a ha)))⟩
      rcases List.mem_append.mp hentry with hentry | hentry
      · exact hi'.pending entry hentry
      · obtain ⟨entry₀, hentry₀, rfl⟩ := List.mem_map.mp hentry
        exact accepts_ofAddress hi'.valid (hi'.finalizers entry₀ (List.mem_filter.mp hentry₀).1)

/-! ## Corrections -/

/-- The heap after some words of its objects were written. -/
inductive Writes (h : Heap) : Heap → Prop where
  | refl : Writes h h
  | write {h' : Heap} {a index : Nat} {cell : Cell} (h₀ : Writes h h')
      (hcell : h'.space.object? a = some cell) (hindex : index < cell.header.words) (bits : Word) :
      Writes h { h' with space := h'.space.setWord a index bits }

/-- Writing words changes neither the objects nor the marks. -/
theorem Intact.writes (hi : h.Intact) (hwrites : Writes h h') :
    h'.Intact ∧ ∀ a, h'.Marked a ↔ h.Marked a := by
  induction hwrites with
  | refl => exact ⟨hi, fun _ => .rfl⟩
  | @write h' a index cell _ hcell _ bits ih =>
    obtain ⟨hi', hmarked⟩ := ih
    have hview := hi'.valid.object?_setWord hcell index bits
    have hlive : ∀ x, (h'.space.object? x).isSome →
        ((h'.space.setWord a index bits).object? x).isSome := by
      intro x hx
      rw [hview]
      split
      · rfl
      · exact hx
    refine ⟨⟨hi'.valid.setWord hcell index bits,
      fun entry hentry => hlive _ (hi'.finalizers entry hentry),
      fun entry hentry href => hlive _ (hi'.pending entry hentry href),
      fun v hv href => hlive _ (hi'.finalizing v hv href)⟩, fun x => ?_⟩
    rw [← hmarked, Marked, Marked, hview]
    by_cases hx : x = a
    · simp [hx, hcell]
    · simp [hx]

/-! ## The next collection -/

theorem Intact.resumed_start (hi : h.Intact) (interior : Bool) :
    Resumed h.space h.Marked (fun _ => False) (.start h.space interior) :=
  ⟨.refl hi.valid, fun _ => id, fun _ => False.elim, fun _ => .inl, List.forall_mem_nil _,
    fun _ _ _ ha hstale => (hstale ha).elim⟩

/-- Whatever is marked in a heap, a collection of it can be completed. It keeps what is marked, and what
references lead to past that. -/
theorem Intact.collect (hi : h.Intact) (ht : h.space.Traceable)
    (hcalls : ∀ call ∈ calls, call.Permitted h.space) :
    ∃ collection h', Heap.collect (RootCall.runAll h.mode calls) h = .ok ((), collection) h' ∧
      (∀ a, (h'.space.object? a).isSome ↔ h.Marked a ∨ h.space.ReachesPast h.Marked
        (fun a => h.Rooted calls a ∨ h.DuePast h.Marked calls a) a) ∧
      ∀ a cell', h'.space.object? a = some cell' → cell'.header.marked = false ∧
        ∃ cell, h.space.object? a = some cell ∧ cell.Similar cell' := by
  obtain ⟨m, hrun, hempty, hresumed⟩ := hi.markReachable ht (hi.resumed_start _) hcalls
  obtain ⟨due, m', hdue, hrun', hempty', hresumed'⟩ :=
    hi.queueUnreached ht hempty hresumed (k := { h with space := .vacant }) rfl
  refine ⟨_, _, collect_eq hrun hrun', fun a => ?_, fun a cell' hcell => ?_⟩
  · exact (isSome_sweep hresumed'.similar a).trans (hresumed'.marks_iff hempty' a)
  · exact (object_sweep hresumed'.similar hcell).2

section Survivors

variable {s t : Space} {stale roots extra : Nat → Prop}
  (hlive : ∀ a, (t.object? a).isSome ↔ stale a ∨ s.ReachesPast stale (fun a => roots a ∨ extra a) a)
include hlive

/-- If what the stale objects refer to survives, so does everything that can be reached. -/
theorem isSome_of_covers (hcovers : s.Covers stale t) (hreach : s.Reaches roots a) :
    (t.object? a).isSome := by
  induction hreach with
  | root hroot => exact (hlive _).mpr (.inr (.root (.inl hroot)))
  | @step a b cell _ hcell href ih =>
    by_cases hstale : stale a
    · exact hcovers a b cell hstale hcell href
    · exact (hlive b).mpr (.inr (.step (((hlive a).mp ih).resolve_left hstale) hstale hcell href))

/-- The survivors can be traced exactly if what the stale objects refer to survives. -/
theorem traceable_iff_covers (hs : s.Traceable)
    (hcontents : ∀ a cell', t.object? a = some cell' →
      ∃ cell, s.object? a = some cell ∧ cell.Similar cell') :
    t.Traceable ↔ s.Covers stale t := by
  constructor
  · intro ht a b cell hstale hcell href
    obtain ⟨cell', hcell'⟩ := Option.isSome_iff_exists.mp ((hlive a).mpr (.inl hstale))
    obtain ⟨cell₀, hcell₀, hsim⟩ := hcontents a cell' hcell'
    obtain rfl : cell = cell₀ := Option.some.inj (hcell.symm.trans hcell₀)
    obtain ⟨index, hindex, hheap, rfl⟩ := hsim.refersTo.mpr href
    exact ht.slots a cell' hcell' index hindex hheap
  · intro hcovers
    refine ⟨fun a cell' hcell' index hindex href => ?_, fun a cell' word hcell' hword => ?_⟩
    · obtain ⟨cell, hcell, hsim⟩ := hcontents a cell' hcell'
      have hrefers := hsim.refersTo.mp ⟨index, hindex, href, rfl⟩
      by_cases hstale : stale a
      · exact hcovers a _ cell hstale hcell hrefers
      · have hpast := ((hlive a).mp (Option.isSome_of_eq_some hcell')).resolve_left hstale
        exact (hlive _).mpr (.inr (.step hpast hstale hcell hrefers))
    · obtain ⟨cell, hcell, hsim⟩ := hcontents a cell' hcell'
      rw [hsim.kind, hsim.words] at hword
      rw [hsim.kind, hsim.words, hsim.word]
      exact hs.lengths a cell word hcell hword

end Survivors

/-- After a collection that failed, the objects and their contents are what they were. Once the words
that were wrong are corrected, the next collection can be completed. It leaves exactly the objects that
the failed one had marked, and those that references lead to without going through one of them. Its
survivors refer to survivors only, exactly if the objects left marked do; and then everything that the
roots reach is kept. -/
theorem Intact.collection_after_failure (hi : h.Intact) (ht : h.mode = .release → h.space.Traceable)
    {x : Run Marking α} (hx : Leaves (.start h.space h.options.interiorPointers)
      (x (.start h.space h.options.interiorPointers)))
    (hfail : Heap.collect x h = .error fault h₁) (hwrites : Writes h₁ h₂)
    (htrace : h₂.space.Traceable) (hcalls : ∀ call ∈ calls, call.Permitted h₂.space) :
    h.space.Similar h₁.space ∧
    ∃ collection h₃, Heap.collect (RootCall.runAll h₂.mode calls) h₂ = .ok ((), collection) h₃ ∧
      (∀ a, (h₃.space.object? a).isSome ↔ h₁.Marked a ∨ h₂.space.ReachesPast h₁.Marked
        (fun a => h₂.Rooted calls a ∨ h₂.DuePast h₁.Marked calls a) a) ∧
      (h₃.space.Traceable ↔ h₂.space.Covers h₁.Marked h₃.space) ∧
      (h₂.space.Covers h₁.Marked h₃.space →
        ∀ a, h₂.space.Reaches (h₂.Rooted calls) a → (h₃.space.object? a).isSome) := by
  obtain ⟨hi₁, hsim, -⟩ := hi.collect_error ht hx hfail
  obtain ⟨hi₂, hmarked⟩ := hi₁.writes hwrites
  obtain ⟨collection, h₃, hrun, hlive, hcontents⟩ := hi₂.collect htrace hcalls
  have heq : h₂.Marked = h₁.Marked := funext fun a => propext (hmarked a)
  rw [heq] at hlive
  exact ⟨hsim, collection, h₃, hrun, hlive,
    traceable_iff_covers hlive htrace fun a cell' hcell' => (hcontents a cell' hcell').2,
    fun hcovers a hreach => isSome_of_covers hlive hcovers hreach⟩

/-- A heap with two vectors; the first one refers to the second one, but its length is wrong. -/
def spoiledHeap : Heap :=
  match Heap.tryAllocate .vector 200 lonelyHeap with
  | .ok _ h =>
    { h with
      space := (h.space.setWord 0x7f0000000000 0 201).setWord 0x7f0000000000 1 0x7f0000000800 }
  | .error _ h => h

/-- Collects with the first vector as the root. -/
def collectFirst : Run Heap (Unit × Collection) :=
  Heap.collect (RootCall.runAll .debug [.value (Value.ofAddress 0x7f0000000000)])

/-- Puts the length of the first vector right. -/
def correct (h : Heap) : Heap := { h with space := h.space.setWord 0x7f0000000000 0 1 }

/-- Both vectors were allocated in order, before the first one was written to. -/
theorem writes_spoiledHeap : ∃ h : Heap, h.WellFormed ∧ Writes h spoiledHeap := by
  have hnew : lonelyHeap
      = Run.left (Heap.tryAllocate .vector 200 (Heap.new .debug ⟨0, 65536, .two, true⟩)) := rfl
  have howned : lonelyHeap.space.Owned := hnew ▸ owned_tryAllocate (Space.owned_new 65536) .vector 200
  obtain ⟨result, h, hrun, hw⟩ := life_lonelyHeap.reachable.wellFormed.tryAllocate howned.fresh
    (show Kind.isHeap .vector = true from rfl) 200
  replace hrun : Heap.tryAllocate .vector 200 lonelyHeap = .ok result h := hrun
  have hfirst : returns (fun _ h => (h.space.object? 0x7f0000000000).any (·.header.words == 200))
      (Heap.tryAllocate .vector 200 lonelyHeap) = true := by decide +kernel
  rw [hrun] at hfirst
  obtain ⟨cell, hcell, hwords⟩ := Option.any_eq_true _ _ |>.mp hfirst
  replace hwords : cell.header.words = 200 := beq_iff_eq.mp hwords
  have hspoiled : spoiledHeap = { h with
      space := (h.space.setWord 0x7f0000000000 0 201).setWord 0x7f0000000000 1 0x7f0000000800 } := by
    unfold spoiledHeap
    rw [hrun]
  have hwritten : (h.space.setWord 0x7f0000000000 0 201).object? 0x7f0000000000
      = some (cell.setWord 0 201) :=
    (hw.valid.object?_setWord hcell 0 201 _).trans (if_pos rfl)
  refine ⟨h, hw, hspoiled ▸ .write (.write .refl hcell (by omega) 201) hwritten ?_ 0x7f0000000800⟩
  rw [Cell.header_setWord]
  omega

/-- The two vectors after the length was put right. The first one is marked. -/
structure HalfMarked (h : Heap) : Prop where
  mode : h.mode = .debug
  entries : h.finalizers = [] ∧ h.pending = [] ∧ h.finalizing.toList = []
  objects : h.space.objects = [0x7f0000000000, 0x7f0000000800]
  first : (h.space.object? 0x7f0000000000).map
      (fun cell => (cell.header, cell.slots, cell.word 0, cell.word 1))
    = some (⟨.vector, true, 0, 200⟩, [1], 1, 0x7f0000000800)
  second : (h.space.object? 0x7f0000000800).map
      (fun cell => (cell.header, cell.slots, cell.word 0))
    = some (⟨.vector, false, 0, 200⟩, [], 0)

theorem halfMarked_spoiledHeap : ∃ fault h, collectFirst spoiledHeap = .error fault h ∧
    HalfMarked (correct h) := by
  have hrun : fails (fun _ h =>
        (correct h).mode == .debug && (correct h).finalizers.isEmpty && (correct h).pending.isEmpty &&
        (correct h).finalizing.toList.isEmpty &&
        (correct h).space.objects == [0x7f0000000000, 0x7f0000000800] &&
        ((correct h).space.object? 0x7f0000000000).map
            (fun cell => (cell.header, cell.slots, cell.word 0, cell.word 1))
          == some (⟨.vector, true, 0, 200⟩, [1], 1, 0x7f0000000800) &&
        ((correct h).space.object? 0x7f0000000800).map
            (fun cell => (cell.header, cell.slots, cell.word 0))
          == some (⟨.vector, false, 0, 200⟩, [], 0))
      (collectFirst spoiledHeap) = true := by decide +kernel
  obtain ⟨fault, h, hfirst, hcheck⟩ := exists_of_fails hrun
  simp only [Bool.and_eq_true, beq_iff_eq, List.isEmpty_iff] at hcheck
  obtain ⟨⟨⟨⟨⟨⟨hmode, hfinalizers⟩, hpending⟩, hfinalizing⟩, hobjects⟩, hcell⟩, hcell'⟩ := hcheck
  exact ⟨fault, h, hfirst, hmode, ⟨hfinalizers, hpending, hfinalizing⟩, hobjects, hcell, hcell'⟩

namespace HalfMarked

variable {h : Heap} {cell : Cell} (hh : HalfMarked h) (hs : h.space.Valid)
include hh hs

theorem cases (hcell : h.space.object? a = some cell) :
    a = 0x7f0000000000 ∧ (cell.header, cell.slots, cell.word 0, cell.word 1)
        = (⟨.vector, true, 0, 200⟩, [1], 1, 0x7f0000000800) ∨
      a = 0x7f0000000800 ∧ (cell.header, cell.slots, cell.word 0)
        = (⟨.vector, false, 0, 200⟩, [], 0) := by
  have hmem : a ∈ h.space.objects := hs.mem_objects_iff.mpr (Option.isSome_of_eq_some hcell)
  rw [hh.objects] at hmem
  obtain rfl | hmem := List.mem_cons.mp hmem
  · have hfirst := hh.first
    rw [hcell] at hfirst
    exact .inl ⟨rfl, Option.some.inj hfirst⟩
  · obtain rfl := List.mem_singleton.mp hmem
    have hsecond := hh.second
    rw [hcell] at hsecond
    exact .inr ⟨rfl, Option.some.inj hsecond⟩

theorem isSome (hmem : a ∈ [0x7f0000000000, 0x7f0000000800]) : (h.space.object? a).isSome :=
  hs.mem_objects_iff.mp (hh.objects ▸ hmem)

theorem marked : h.Marked a ↔ a = 0x7f0000000000 := by
  constructor
  · intro hmarked
    obtain ⟨cell, hcell, hmark⟩ := (Option.any_eq_true _ _).mp hmarked
    obtain ⟨ha, -⟩ | ⟨-, hcontents⟩ := hh.cases hs hcell
    · exact ha
    · simp only [Prod.mk.injEq] at hcontents
      rw [hcontents.1] at hmark
      cases hmark
  · rintro rfl
    obtain ⟨cell, hcell⟩ := Option.isSome_iff_exists.mp (hh.isSome hs (a := 0x7f0000000000) (by simp))
    obtain ⟨-, hcontents⟩ | ⟨ha, -⟩ := hh.cases hs hcell
    · simp only [Prod.mk.injEq] at hcontents
      rw [Marked, hcell, Option.any_some, hcontents.1]
    · simp at ha

theorem traceable : h.space.Traceable := by
  refine ⟨fun a cell hcell index hindex _ => ?_, fun a cell word hcell hword => ?_⟩
  · obtain ⟨-, hcontents⟩ | ⟨-, hcontents⟩ := hh.cases hs hcell
    · simp only [Prod.mk.injEq] at hcontents
      obtain ⟨-, hslots, -, hword⟩ := hcontents
      obtain rfl : index = 1 := by simpa [hslots] using hindex
      rw [hword]
      exact hh.isSome hs (by decide)
    · simp only [Prod.mk.injEq] at hcontents
      simp [hcontents.2.1] at hindex
  · obtain ⟨hheader, hlength⟩ : (cell.header.kind, cell.header.words) = (.vector, 200) ∧
        (cell.word 0).toNat ≤ 1 := by
      obtain ⟨-, hcontents⟩ | ⟨-, hcontents⟩ := hh.cases hs hcell <;>
        simp only [Prod.mk.injEq] at hcontents <;> simp [hcontents]
    simp only [Prod.mk.injEq] at hheader
    rw [hheader.1, hheader.2] at hword ⊢
    obtain rfl : word = 0 := by simpa [Layout.of, Layout.valueLengthWord?, eq_comm] using hword
    exact Nat.le_trans hlength (by decide)

theorem eq_of_rooted {stale : Nat → Prop}
    (hroot : h.Rooted [.value (Value.ofAddress 0x7f0000000000)] a ∨
      h.DuePast stale [.value (Value.ofAddress 0x7f0000000000)] a) : a = 0x7f0000000000 := by
  obtain ⟨hfinalizers, hpending, hfinalizing⟩ := hh.entries
  obtain (⟨call, hcall, hnames⟩ | ⟨entry, hentry, -⟩ | ⟨v, hv, -⟩) | ⟨⟨entry, hentry, -⟩, -⟩ := hroot
  · obtain rfl := List.mem_singleton.mp hcall
    exact ((refersTo_ofAddress hs (hh.isSome hs (by decide)) _).mp hnames).symm
  · rw [hpending] at hentry
    cases hentry
  · rw [hfinalizing] at hv
    cases hv
  · rw [hfinalizers] at hentry
    cases hentry

end HalfMarked

/-- The first vector is left marked by the collection that fails. The next collection keeps it, since it
is marked, and nothing else. -/
theorem Intact.collection_after_failure_spoiledHeap :
    ∃ fault h₁ collection h₃, collectFirst spoiledHeap = .error fault h₁ ∧
      collectFirst (correct h₁) = .ok ((), collection) h₃ ∧
      ∀ a, (h₃.space.object? a).isSome ↔ a = 0x7f0000000000 := by
  obtain ⟨h, hw, hwrites⟩ := writes_spoiledHeap
  obtain ⟨hi, -⟩ := hw.intact.writes hwrites
  have hdebug : spoiledHeap.mode = .debug := by decide +kernel
  have ht : spoiledHeap.mode = .release → spoiledHeap.space.Traceable := fun hmode => by
    rw [hdebug] at hmode
    cases hmode
  obtain ⟨fault, h₁, hfail, hhalf⟩ := halfMarked_spoiledHeap
  have hx : Leaves (.start spoiledHeap.space spoiledHeap.options.interiorPointers)
      (RootCall.runAll .debug [.value (Value.ofAddress 0x7f0000000000)]
        (.start spoiledHeap.space spoiledHeap.options.interiorPointers)) :=
    leaves_runAll hi.valid (hdebug ▸ safe_start ht _) nofun
  obtain ⟨hi₁, hsim, -⟩ := hi.collect_error ht hx hfail
  -- the length is written to the first vector
  have hwords : (spoiledHeap.space.object? 0x7f0000000000).any (·.header.words == 200) = true := by
    decide +kernel
  obtain ⟨cell, hcell, hwords⟩ := (Option.any_eq_true _ _).mp hwords
  obtain ⟨cell₁, hcell₁, hsame⟩ := hsim.object hcell
  have hroom : 0 < cell₁.header.words := by
    rw [hsame.words, beq_iff_eq.mp hwords]
    decide
  have hcorrect : Writes h₁ (correct h₁) := .write .refl hcell₁ hroom 1
  have hs := (hi₁.writes hcorrect).1.valid
  have hcalls : ∀ call ∈ [RootCall.value (Value.ofAddress 0x7f0000000000)],
      call.Permitted (correct h₁).space := by
    intro call hcall
    obtain rfl := List.mem_singleton.mp hcall
    exact accepts_ofAddress hs (hhalf.isSome hs (by decide))
  obtain ⟨-, collection, h₃, hrun, hlive, -⟩ :=
    hi.collection_after_failure ht hx hfail hcorrect (hhalf.traceable hs) hcalls
  rw [hhalf.mode] at hrun
  have hmarked : ∀ a, h₁.Marked a ↔ a = 0x7f0000000000 := fun a =>
    ((hi₁.writes hcorrect).2 a).symm.trans (hhalf.marked hs)
  refine ⟨fault, h₁, collection, h₃, hfail, hrun, fun a => (hlive a).trans ⟨?_, fun ha =>
    .inl ((hmarked a).mpr ha)⟩⟩
  rintro (hstale | hreach)
  · exact (hmarked a).mp hstale
  · induction hreach with
    | root hroot => exact hhalf.eq_of_rooted hs hroot
    | step _ hstale _ _ ih => exact absurd ((hmarked _).mpr ih) hstale

/-- Once the length is corrected, the second vector is lost although the first one, which is the root and
survives, refers to it. -/
theorem Intact.collection_after_failure_unsound :
    ∃ fault h₁ collection h₃ cell, collectFirst spoiledHeap = .error fault h₁ ∧
      collectFirst { h₁ with space := h₁.space.setWord 0x7f0000000000 0 1 }
        = .ok ((), collection) h₃ ∧
      h₃.space.object? 0x7f0000000000 = some cell ∧ cell.RefersTo 0x7f0000000800 ∧
      h₃.space.object? 0x7f0000000800 = none := by
  have hrun : fails (fun _ h₁ => returns (fun _ h₃ =>
        (h₃.space.object? 0x7f0000000000).any (fun cell =>
          cell.slots == [1] && cell.word 1 == 0x7f0000000800) &&
        (h₃.space.object? 0x7f0000000800).isNone)
      (collectFirst { h₁ with space := h₁.space.setWord 0x7f0000000000 0 1 }))
      (collectFirst spoiledHeap) = true := by decide +kernel
  obtain ⟨fault, h₁, hfirst, hafter⟩ := exists_of_fails hrun
  obtain ⟨result, h₃, hsecond, hcheck⟩ := exists_of_returns hafter
  simp only [Bool.and_eq_true, Option.any_eq_true, Option.isNone_iff_eq_none, beq_iff_eq] at hcheck
  obtain ⟨⟨cell, hcell, hslots, hword⟩, hnone⟩ := hcheck
  refine ⟨fault, h₁, result.2, h₃, cell, hfirst, hsecond, hcell, ⟨1, by simp [hslots], ?_⟩, hnone⟩
  rw [hword]
  exact ⟨by decide, by decide⟩

end Heap

end Substrate
