import Substrate.Proofs.Collection.Exactness

/-!
# Steps of the marker

A collection can fail on the way: by a stale reference, by a length that does not fit its object, or
because the client fails while it names its roots. However a marking computation ends, all it has done
until then is to set marks of objects: `Marking.Steps` relates the states before and after, and
`Marking.Leaves` says so of either ending.

A debug build looks before it marks, so that this needs no assumption about the values that are followed.
A release build follows them blindly: there they have to be accepted by the space.
-/

namespace Substrate.Marking

variable {α β : Type} {m m' m'' : Marking} {mode : Mode} {a : Nat} {indices : List Nat}

/-- From one state to the other, the marker set marks of objects and changed its stack. -/
structure Steps (m m' : Marking) : Prop where
  similar : m.space.Similar m'.space
  flags : ∀ a, (m'.space.object? a).map (·.header.flags) = (m.space.object? a).map (·.header.flags)
  marks : ∀ a, m.marks a = true → m'.marks a = true
  stack : ∀ a ∈ m'.stack, a ∈ m.stack ∨ (m.space.object? a).isSome

namespace Steps

theorem refl (hm : m.space.Valid) : Steps m m :=
  ⟨.refl hm, fun _ => rfl, fun _ => id, fun _ => .inl⟩

theorem trans (h : Steps m m') (h' : Steps m' m'') : Steps m m'' := by
  refine ⟨h.similar.trans h'.similar, fun a => (h'.flags a).trans (h.flags a),
    fun a ha => h'.marks a (h.marks a ha), fun a ha => ?_⟩
  rcases h'.stack a ha with ha | ha
  · exact h.stack a ha
  · exact .inr (by rwa [h.similar.isSome] at ha)

end Steps

/-- The marker only took steps, however the computation ended. -/
def Leaves (m : Marking) : EStateM.Result Fault Marking α → Prop
  | .ok _ m' => Steps m m'
  | .error _ m' => Steps m m'

/-- What goes on after some steps leaves the marker as it should be. -/
theorem Steps.leaves {r : EStateM.Result Fault Marking α} (h : Steps m m') (hr : Leaves m' r) :
    Leaves m r := by
  cases r with
  | ok a m'' => exact h.trans hr
  | error fault m'' => exact h.trans hr

theorem leaves_bind {x : Run Marking α} {f : α → Run Marking β} (hx : Leaves m (x m))
    (hf : ∀ a m', Steps m m' → Leaves m' (f a m')) : Leaves m ((x >>= f) m) := by
  change Leaves m (EStateM.bind x f m)
  unfold EStateM.bind
  revert hx
  cases x m with
  | error fault m' => exact id
  | ok a m' => exact fun hstep => hstep.leaves (hf a m' hstep)

/-! ## References -/

theorem steps_markObject (hm : m.space.Valid) (ha : (m.space.object? a).isSome) :
    Steps m (m.markObject a) := by
  have hext := extends_markObject hm ha
  obtain ⟨cell, hcell⟩ := Option.isSome_iff_exists.mp ha
  refine ⟨hext.similar, fun x => ?_, fun x hx => (hext.marks x).mpr (.inl hx), fun x hx => ?_⟩
  · unfold markObject
    split
    · rfl
    · have hfree : (cell.setHeader cell.header.tryMark.2).header.kind ≠ .free := by
        rw [Cell.header_setHeader]
        exact Space.kind_of_object? hcell
      have hview := hm.object?_modifyCell
        (f := fun cell => cell.setHeader cell.header.tryMark.2) hcell hfree x
      rw [Space.modifyHeader, hview]
      by_cases hx : x = a
      · subst hx
        rw [if_pos rfl, hcell]
        rfl
      · rw [if_neg hx]
  · refine ((hext.stack x).mp hx).imp_right ?_
    rintro ⟨rfl, -⟩
    exact ha

theorem leaves_markValue (hm : m.space.Valid) {v : Value}
    (hv : mode = .release → m.space.Accepts v) : Leaves m (markValue mode v m) := by
  unfold markValue
  split
  next href =>
    cases mode with
    | debug =>
      dsimp only
      split
      next hfound =>
        exact steps_markObject hm (by rwa [hm.findObject?_exact_isSome] at hfound)
      next => exact Steps.refl hm
    | release => exact steps_markObject hm (hv rfl href)
  next => exact Steps.refl hm

theorem leaves_markValues (hm : m.space.Valid) {vs : List Value}
    (hvs : mode = .release → ∀ v ∈ vs, m.space.Accepts v) :
    Leaves m (markValues mode vs m) := by
  induction vs generalizing m with
  | nil => exact Steps.refl hm
  | cons v vs ih =>
    refine leaves_bind (leaves_markValue hm fun h => hvs h v List.mem_cons_self)
      fun _ m' hstep => ih hstep.similar.valid fun h v' hv' => ?_
    exact hstep.similar.accepts.mpr (hvs h v' (List.mem_cons_of_mem _ hv'))

/-! ## Ambiguous words -/

theorem steps_markAmbiguous (hm : m.space.Valid) (word : Word) : Steps m (m.markAmbiguous word) := by
  unfold markAmbiguous
  split
  next hfound => exact steps_markObject hm (hm.isSome_of_findObject? hfound)
  next => exact .refl hm

theorem steps_foldl_markAmbiguous (hm : m.space.Valid) (memory : Nat → Word) (addresses : List Nat) :
    Steps m (addresses.foldl (fun m address => m.markAmbiguous (memory address)) m) := by
  induction addresses generalizing m with
  | nil => exact .refl hm
  | cons x addresses ih =>
    have hfirst := steps_markAmbiguous hm (memory x)
    exact hfirst.trans (ih hfirst.similar.valid)

theorem leaves_scanPieces (hm : m.space.Valid) (memory : Nat → Word) (pieces : List Region) :
    Leaves m (scanPieces mode memory pieces m) := by
  induction pieces generalizing m with
  | nil => exact Steps.refl hm
  | cons piece pieces ih =>
    have hread : Leaves m ((Run.ofExcept (piece.scanned mode) : Run Marking (List Nat)) m) := by
      cases piece.scanned mode <;> exact Steps.refl hm
    refine leaves_bind hread fun addresses m₁ h₁ => ?_
    refine leaves_bind (steps_foldl_markAmbiguous h₁.similar.valid memory addresses) fun _ m₂ h₂ => ?_
    exact ih h₂.similar.valid

/-! ## Fields -/

/-- A release build may follow the listed words of an object. -/
def Follows (mode : Mode) (m : Marking) (a : Nat) (indices : List Nat) : Prop :=
  mode = .release → ∃ cell, m.space.object? a = some cell ∧
    ∀ index ∈ indices, m.space.Accepts ⟨cell.word index⟩

theorem Follows.steps (h : Follows mode m a indices) (hstep : Steps m m') :
    Follows mode m' a indices := by
  intro hmode
  obtain ⟨cell, hcell, haccepts⟩ := h hmode
  obtain ⟨cell', hcell', hsim⟩ := hstep.similar.object hcell
  refine ⟨cell', hcell', fun index hindex => ?_⟩
  rw [hstep.similar.accepts, hsim.word]
  exact haccepts index hindex

theorem Follows.mono (h : Follows mode m a indices) {indices' : List Nat} (hsub : indices' ⊆ indices) :
    Follows mode m a indices' := by
  intro hmode
  obtain ⟨cell, hcell, haccepts⟩ := h hmode
  exact ⟨cell, hcell, fun index hindex => haccepts index (hsub hindex)⟩

theorem leaves_markWord (hm : m.space.Valid) {index : Nat} (h : Follows mode m a [index]) :
    Leaves m (markWord mode a index m) := by
  refine leaves_markValue hm fun hmode => ?_
  obtain ⟨cell, hcell, haccepts⟩ := h hmode
  rw [Space.word_of_object? hcell]
  exact haccepts index List.mem_cons_self

theorem leaves_markListed (hm : m.space.Valid) (h : Follows mode m a indices) :
    Leaves m (markListed mode a indices m) := by
  induction indices generalizing m with
  | nil => exact Steps.refl hm
  | cons index indices ih =>
    refine leaves_bind (leaves_markWord hm (h.mono (by simp))) fun _ m' hstep => ?_
    exact ih hstep.similar.valid ((h.mono (List.subset_cons_self _ _)).steps hstep)

/-- The marker finds its way: in a release build the space can be traced, and what is on the stack is an
object. -/
def Safe (mode : Mode) (m : Marking) : Prop :=
  mode = .release → m.space.Traceable ∧ ∀ a ∈ m.stack, (m.space.object? a).isSome

theorem safe_start {s : Space} (h : mode = .release → s.Traceable) (interior : Bool) :
    Safe mode (.start s interior) := fun hmode => ⟨h hmode, List.forall_mem_nil _⟩

theorem Safe.steps (h : Safe mode m) (hstep : Steps m m') : Safe mode m' := by
  intro hmode
  obtain ⟨htrace, hstack⟩ := h hmode
  refine ⟨hstep.similar.traceable htrace, fun a ha => ?_⟩
  rw [hstep.similar.isSome]
  exact (hstep.stack a ha).elim (hstack a) id

/-- Visiting an object takes only steps, whatever its words hold. -/
theorem leaves_trace (hm : m.space.Valid)
    (ha : mode = .release → m.space.Traceable ∧ (m.space.object? a).isSome) :
    Leaves m (trace mode a m) := by
  obtain ⟨visited, raised, hslots, htrace⟩ := exists_trace_eq mode a m
  have hfollows : Follows mode m a visited := by
    intro hmode
    obtain ⟨ht, hobject⟩ := ha hmode
    obtain ⟨cell, hcell⟩ := Option.isSome_iff_exists.mp hobject
    exact ⟨cell, hcell, fun index hindex => ht.slots a cell hcell index (hslots cell hcell hindex)⟩
  rw [htrace]
  refine leaves_bind (leaves_markListed hm hfollows) fun _ m' hstep => ?_
  cases raised <;> exact Steps.refl hstep.similar.valid

/-! ## Tracing -/

theorem leaves_drainWith (fuel : Nat) (hm : m.space.Valid) (hsafe : Safe mode m) :
    Leaves m (drainWith mode fuel m) := by
  induction fuel generalizing m with
  | zero =>
    unfold drainWith
    split <;> exact Steps.refl hm
  | succ fuel ih =>
    unfold drainWith
    split
    next => exact Steps.refl hm
    next a rest hstack =>
      have hpop : Steps m { m with stack := rest } :=
        ⟨.refl hm, fun _ => rfl, fun _ => id, fun x hx => .inl (by
          rw [hstack]
          exact List.mem_cons_of_mem _ hx)⟩
      have hvisit : Leaves { m with stack := rest } (trace mode a { m with stack := rest }) := by
        refine leaves_trace hm fun hmode => ⟨(hsafe hmode).1, (hsafe hmode).2 a ?_⟩
        rw [hstack]
        exact List.mem_cons_self
      revert hvisit
      cases trace mode a { m with stack := rest } with
      | error fault m₁ => exact hpop.trans
      | ok _ m₁ =>
        intro hstep
        have hstep := hpop.trans hstep
        exact hstep.leaves (ih hstep.similar.valid (hsafe.steps hstep))

theorem leaves_drain (hm : m.space.Valid) (hsafe : Safe mode m) : Leaves m (drain mode m) :=
  leaves_drainWith _ hm hsafe

/-! ## Root calls -/

theorem leaves_call (hm : m.space.Valid) (hsafe : Safe mode m) {call : RootCall}
    (hcall : mode = .release → call.Permitted m.space) : Leaves m (call.run mode m) := by
  cases call with
  | value v => exact leaves_markValue hm hcall
  | slot memory location => exact leaves_markValue hm hcall
  | ambiguous word => exact steps_markAmbiguous hm word
  | scan memory exclusions region => exact leaves_scanPieces hm memory _
  | drain => exact leaves_drain hm hsafe

theorem permitted_similar {s t : Space} (h : s.Similar t) {call : RootCall} (hcall : call.Permitted s) :
    call.Permitted t := by
  cases call with
  | value v => exact h.accepts.mpr hcall
  | slot memory location => exact h.accepts.mpr hcall
  | ambiguous word => trivial
  | scan memory exclusions region => exact hcall
  | drain => trivial

theorem leaves_runAll (hm : m.space.Valid) (hsafe : Safe mode m) {calls : List RootCall}
    (hcalls : mode = .release → ∀ call ∈ calls, call.Permitted m.space) :
    Leaves m (RootCall.runAll mode calls m) := by
  induction calls generalizing m with
  | nil => exact Steps.refl hm
  | cons call calls ih =>
    refine leaves_bind (leaves_call hm hsafe fun hmode => hcalls hmode call List.mem_cons_self)
      fun _ m' hstep => ih hstep.similar.valid (hsafe.steps hstep) fun hmode call' hcall' => ?_
    exact permitted_similar hstep.similar (hcalls hmode call' (List.mem_cons_of_mem _ hcall'))

end Substrate.Marking

/-! ## Heaps -/

namespace Substrate.Heap

open Marking

variable {α : Type} {h : Heap} {m m' : Marking}

/-- A space with the same objects in place of the heap's own. -/
theorem Intact.similar (hi : h.Intact) {s : Space} (hsim : h.space.Similar s) :
    ({ h with space := s } : Heap).Intact :=
  ⟨hsim.valid, fun entry hentry => (hsim.isSome _).trans (hi.finalizers entry hentry),
    fun entry hentry => hsim.accepts.mpr (hi.pending entry hentry),
    fun v hv => hsim.accepts.mpr (hi.finalizing v hv)⟩

/-- Marking from the roots takes only steps, if naming the roots does. -/
theorem Intact.leaves_markReachable (hi : h.Intact) (ht : h.mode = .release → h.space.Traceable)
    {x : Run Marking α} {interior : Bool}
    (hx : Leaves (.start h.space interior) (x (.start h.space interior))) :
    Leaves (.start h.space interior) (h.markReachable x (.start h.space interior)) := by
  have hsafe := safe_start ht interior
  refine leaves_bind hx fun r m₁ h₁ => ?_
  refine leaves_bind (leaves_markValues h₁.similar.valid fun _ v hv => ?_) fun _ m₂ h₂ => ?_
  · obtain ⟨entry, hentry, rfl⟩ := List.mem_map.mp hv
    exact h₁.similar.accepts.mpr (hi.pending entry hentry)
  have h₂ := h₁.trans h₂
  refine leaves_bind (leaves_markValues h₂.similar.valid fun _ v hv => ?_) fun _ m₃ h₃ => ?_
  · exact h₂.similar.accepts.mpr (hi.finalizing v hv)
  have h₃ := h₂.trans h₃
  refine leaves_bind (leaves_drain h₃.similar.valid (hsafe.steps h₃)) fun _ m₄ h₄ => ?_
  exact Steps.refl h₄.similar.valid

/-- The entries whose object is not marked. -/
def unreached (h : Heap) (m : Marking) : List (Nat × Finalizer) :=
  h.finalizers.filter fun entry => !(m.space.header entry.1).marked

/-- The heap with the actions of unmarked objects moved into the queue. -/
def requeued (h : Heap) (m : Marking) : Heap :=
  { h with
    finalizers := h.finalizers.filter fun entry => (m.space.header entry.1).marked
    pending := h.pending ++ (h.unreached m).map fun entry => (Value.ofAddress entry.1, entry.2) }

theorem safe_clearFlags {mode : Mode} (hm : m.space.Valid) (hsafe : Safe mode m)
    {entries : List (Nat × Finalizer)} (h : ∀ entry ∈ entries, (m.space.object? entry.1).isSome) :
    Safe mode (clearFlags entries m) := by
  have hflags := extends_clearFlags hm h
  intro hmode
  obtain ⟨htrace, hstack⟩ := hsafe hmode
  refine ⟨hflags.similar.traceable htrace, fun a ha => ?_⟩
  rw [hflags.similar.isSome]
  exact hstack a (by simpa using (hflags.stack a).mp ha)

/-- Once the flags are cleared, marking the queued objects takes only steps. -/
theorem leaves_queueUnreached (hm : m.space.Valid) (hsafe : Safe h.mode m)
    (hentries : ∀ entry ∈ h.finalizers, (m.space.object? entry.1).isSome) :
    ∃ m', Steps (clearFlags (h.unreached m) m) m' ∧
      (h.queueUnreached m = .ok () (h.requeued m, m') ∨
        ∃ fault, h.queueUnreached m = .error fault (h.requeued m, m')) := by
  have hunreached : ∀ entry ∈ h.unreached m, (m.space.object? entry.1).isSome := fun entry hentry =>
    hentries entry (List.mem_filter.mp hentry).1
  have hflags := extends_clearFlags hm hunreached
  have hsafe' := safe_clearFlags hm hsafe hunreached
  have hrun : Leaves (clearFlags (h.unreached m) m) ((do
      Marking.markValues h.mode
        (((h.unreached m).map fun entry => (Value.ofAddress entry.1, entry.2)).map (·.1))
      Marking.drain h.mode : Run Marking Unit) (clearFlags (h.unreached m) m)) := by
    refine leaves_bind (leaves_markValues hflags.similar.valid fun _ _ =>
      accepts_queued hm hunreached) fun _ m₁ h₁ => ?_
    exact leaves_drain h₁.similar.valid (hsafe'.steps h₁)
  unfold Heap.queueUnreached
  dsimp only
  unfold unreached at hrun
  split
  · rename_i m' hok
    rw [hok] at hrun
    exact ⟨m', hrun, .inl rfl⟩
  · rename_i fault m' herror
    rw [herror] at hrun
    exact ⟨m', hrun, .inr ⟨fault, rfl⟩⟩

end Substrate.Heap
