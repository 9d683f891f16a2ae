import Substrate.Proofs.Construct.Survival

/-!
# Locks around finalizers

A finalizer is code of the client. It may allocate, collect, make symbols and register roots, and
each of these takes locks that no thread can take twice. So it matters which locks a thread holds
when it runs one.

An operation that runs no finalizers is `Quiet`. Allocations and collections let go of the heap, the
roots and the threads before they run finalizers: with them, and whatever is put together from them,
each finalizer finds its thread holding just what it held before (`Attends`). Making a symbol by its
name is different, since it allocates with the table of symbols held.
-/

namespace Substrate

/-! ## Nothing is attached -/

namespace Heap

variable {α : Type}

/-- The heap that a computation leaves, however it ended. -/
def left (r : EStateM.Result Fault Heap α) : Heap :=
  match r with
  | .ok _ h => h
  | .error _ h => h

/-- The computation attaches no finalizer. -/
def AttachesNone (x : Run Heap α) : Prop := ∀ h, (left (x h)).actions ⊆ h.actions

theorem attachesNone_onSpace (x : Run Space α) : AttachesNone (onSpace x) := by
  intro h
  unfold onSpace
  dsimp only
  cases x h.space <;> exact List.Subset.refl _

theorem attachesNone_tryAllocate (kind : Kind) (words : Nat) :
    AttachesNone (tryAllocate kind words) := by
  intro h
  unfold tryAllocate
  dsimp only
  rcases h.space.allocate h.mode kind words with ⟨fault | address?, space⟩
  · exact List.Subset.refl _
  · cases address? with
    | none => exact List.Subset.refl _
    | some address =>
      dsimp only
      cases allocationSize h.mode words <;> exact List.Subset.refl _

theorem attachesNone_collect (trace : Run Marking α) : AttachesNone (collect trace) := by
  intro h
  unfold collect
  dsimp only
  split
  next => exact List.Subset.refl _
  next =>
    split
    next hqueue => exact fun _ haction => actions_queueUnreached (.inr ⟨_, hqueue⟩) haction
    next hqueue => exact fun _ haction => actions_queueUnreached (.inl hqueue) haction

end Heap

namespace Machine

variable {γ α β : Type} {m m' m'' : Machine γ}

/-! ## Silent operations -/

/-- No finalizer has run, none was attached, and the locks are the same. -/
structure Silent (m m' : Machine γ) : Prop where
  held : m'.held = m.held
  reports : m'.reports = m.reports
  actions : m'.heap.actions ⊆ m.heap.actions

theorem Silent.refl (m : Machine γ) : Silent m m := ⟨rfl, rfl, List.Subset.refl _⟩

theorem Silent.trans (h : Silent m m') (h' : Silent m' m'') : Silent m m'' :=
  ⟨h'.held.trans h.held, h'.reports.trans h.reports, List.Subset.trans h'.actions h.actions⟩

theorem Turned.silent {c : ControlStack} (h : Turned m c m') : Silent m m' := by
  obtain ⟨log, rfl⟩ := h
  exact ⟨rfl, rfl, List.Subset.refl _⟩

/-- The operation runs no finalizers. -/
def Quiet (x : Op γ α) : Prop := ∀ m, Silent m (ending (x m))

theorem quiet_pure (a : α) : Quiet (pure a : Op γ α) := Silent.refl

theorem quiet_get : Quiet (get : Op γ (Machine γ)) := Silent.refl

theorem Quiet.bind {x : Op γ α} {f : α → Op γ β} (hx : Quiet x) (hf : ∀ a, Quiet (f a)) :
    Quiet (x >>= f) := by
  intro m
  have hfirst := hx m
  cases hrun : x m with
  | ok a m' =>
    rw [bind_of_ok hrun]
    rw [hrun] at hfirst
    exact hfirst.trans (hf a m')
  | error fault m' =>
    rw [bind_of_error hrun]
    rwa [hrun] at hfirst

theorem quiet_ite {c : Prop} [Decidable c] {x y : Op γ α} (hx : Quiet x) (hy : Quiet y) :
    Quiet (if c then x else y) := by
  split
  · exact hx
  · exact hy

theorem quiet_modify {f : Machine γ → Machine γ} (hf : ∀ m, Silent m (f m)) :
    Quiet (modify f : Op γ Unit) := hf

theorem quiet_throw (fault : Fault) : Quiet (throw fault : Op γ α) := Silent.refl

theorem quiet_raise (fault : Fault) : Quiet (raise fault : Op γ α) :=
  fun m => (turned_raise fault m).silent

theorem quiet_ofExcept (x : Except Fault α) : Quiet (ofExcept x : Op γ α) := by
  cases x with
  | ok a => exact quiet_pure a
  | error fault => exact quiet_raise fault

theorem quiet_view (f : Mode → Space → Except Fault α) : Quiet (view f : Op γ α) :=
  fun m => quiet_ofExcept (f m.mode m.heap.space) m

theorem silent_onHeap {x : Substrate.Run Heap α}
    (hx : (Heap.left (x m.heap)).actions ⊆ m.heap.actions) : Silent m (ending (onHeap x m)) := by
  unfold onHeap
  dsimp only
  cases hrun : x m.heap with
  | ok a heap =>
    rw [hrun] at hx
    exact ⟨rfl, rfl, hx⟩
  | error fault heap =>
    rw [hrun] at hx
    have hleft : Silent m { m with heap } := ⟨rfl, rfl, hx⟩
    exact hleft.trans (quiet_raise fault { m with heap })

theorem quiet_onHeap {x : Substrate.Run Heap α} (hx : Heap.AttachesNone x) :
    Quiet (onHeap x : Op γ α) :=
  fun m => silent_onHeap (hx m.heap)

theorem quiet_onSpace (x : Mode → Substrate.Run Space α) : Quiet (onSpace x : Op γ α) :=
  fun m => quiet_onHeap (Heap.attachesNone_onSpace (x m.mode)) m

/-- With the lock the operation does what it does, and lets go of the lock in the end. -/
theorem ending_withLock {lock : Guarded} (x : Op γ α) (hlock : lock ∉ m.held) :
    ending (withLock lock x m) =
      { ending (x { m with held := lock :: m.held }) with
        held := (ending (x { m with held := lock :: m.held })).held.erase lock } := by
  unfold withLock
  rw [if_neg (by simpa using hlock)]
  cases x { m with held := lock :: m.held } <;> rfl

theorem ending_withLock_of_mem {lock : Guarded} (x : Op γ α) (hlock : lock ∈ m.held) :
    ending (withLock lock x m) = m := by
  unfold withLock
  rw [if_pos (by simpa using hlock)]
  rfl

theorem quiet_withLock (lock : Guarded) {x : Op γ α} (hx : Quiet x) : Quiet (withLock lock x) := by
  intro m
  by_cases hlock : lock ∈ m.held
  · rw [ending_withLock_of_mem x hlock]
    exact .refl m
  · rw [ending_withLock x hlock]
    have hinside := hx { m with held := lock :: m.held }
    exact ⟨by simp [hinside.held], hinside.reports, hinside.actions⟩

theorem quiet_note (level : Level) (target message : String) :
    Quiet (note level target message : Op γ Unit) :=
  quiet_modify fun _ => ⟨rfl, rfl, List.Subset.refl _⟩

theorem quiet_expect (condition : Bool) {message : Unit → Op γ String}
    (hmessage : Quiet (message ())) : Quiet (expect condition message) := by
  refine quiet_ite (quiet_pure ()) (quiet_get.bind fun m => ?_)
  split
  · exact hmessage.bind fun _ => quiet_raise _
  · exact quiet_pure ()

theorem quiet_setState (state : GcState) : Quiet (setState state : Op γ Unit) :=
  quiet_modify fun _ => ⟨rfl, rfl, List.Subset.refl _⟩

theorem quiet_park : Quiet (park : Op γ Unit) :=
  (quiet_setState _).bind fun _ => quiet_get.bind fun _ => (quiet_note _ _ _).bind fun _ =>
    quiet_throw _

theorem quiet_resume : Quiet (resume : Op γ Unit) := by
  have hsay : Quiet (do
      note .trace "safepoint" ("thread " ++ toString (← get).running.id ++ " running")
      : Op γ Unit) :=
    quiet_get.bind fun _ => quiet_note _ _ _
  exact (quiet_setState _).bind fun _ => quiet_get.bind fun _ =>
    quiet_ite (quiet_park.bind fun _ => hsay) hsay

theorem quiet_safepoint : Quiet (safepoint : Op γ Unit) :=
  quiet_get.bind fun _ => quiet_ite (quiet_park.bind fun _ => quiet_resume) (quiet_pure ())

theorem quiet_collecting (collecting : Bool) :
    Quiet (modify fun m => { m with collecting } : Op γ Unit) :=
  quiet_modify fun _ => ⟨rfl, rfl, List.Subset.refl _⟩

theorem quiet_stopWorld : Quiet (stopWorld : Op γ Unit) :=
  (quiet_collecting true).bind fun _ => quiet_get.bind fun _ =>
    quiet_ite ((quiet_throw _).bind fun _ => quiet_note _ _ _) (quiet_note _ _ _)

theorem quiet_markAndSweep : Quiet (markAndSweep : Op γ Stats) := by
  intro m
  have hcollect :=
    quiet_onHeap (Heap.attachesNone_collect (traceRoots { m with heap := .vacant })) m
  unfold markAndSweep
  dsimp only
  split
  next hrun => rwa [hrun] at hcollect
  next hrun =>
    rw [hrun] at hcollect
    exact ⟨hcollect.held, hcollect.reports, hcollect.actions⟩

theorem quiet_collectLocked : Quiet (collectLocked : Op γ Stats) :=
  quiet_withLock _ <| quiet_withLock _ <| quiet_stopWorld.bind fun _ =>
    quiet_markAndSweep.bind fun _ => (quiet_collecting false).bind fun _ => quiet_pure _

theorem quiet_allocateLocked (kind : Kind) (words : Nat) :
    Quiet (allocateLocked kind words : Op γ Value) := by
  have htry : Quiet (onHeap (Heap.tryAllocate kind words) : Op γ (Option Value)) :=
    quiet_onHeap (Heap.attachesNone_tryAllocate kind words)
  have hcollect : Quiet (discard collectLocked : Op γ PUnit) :=
    quiet_collectLocked.bind fun _ => quiet_pure _
  refine quiet_get.bind fun m => (quiet_ofExcept _).bind fun due =>
    quiet_ite (hcollect.bind fun _ => ?_) ?_
  all_goals
    refine htry.bind fun v? => ?_
    split
    · exact quiet_pure _
    · refine hcollect.bind fun _ => htry.bind fun v? => ?_
      split
      · exact quiet_pure _
      · exact quiet_get.bind fun _ => quiet_raise _

/-! ### Filling in objects -/

theorem quiet_setField (object : Value) (field : Field) (value : Value) :
    Quiet (setField object field value : Op γ Unit) :=
  quiet_onSpace _

theorem quiet_setRaw (object : Value) (kind : Kind) (index : Nat) (bits : Word) :
    Quiet (setRaw object kind index bits : Op γ Unit) :=
  quiet_onSpace _

theorem quiet_setLimbs (bignum : Value) (index : Nat) (limbs : List Word) :
    Quiet (setLimbs bignum index limbs : Op γ Unit) := by
  induction limbs generalizing index with
  | nil => exact quiet_pure ()
  | cons limb rest ih => exact (quiet_setRaw _ _ _ _).bind fun _ => ih (index + 1)

theorem quiet_setSlots (record : Value) (index : Nat) (slots : List Value) :
    Quiet (setSlots record index slots : Op γ Unit) := by
  induction slots generalizing index with
  | nil => exact quiet_pure ()
  | cons slot rest ih => exact (quiet_setField _ _ _).bind fun _ => ih (index + 1)

theorem quiet_fillElements (vector : Value) (length : Nat) (fill : Value) :
    Quiet (Form.fillElements vector length fill : Op γ Unit) := by
  refine quiet_ite ?_ (quiet_pure ())
  cases length with
  | zero => exact quiet_pure ()
  | succ => exact (quiet_onSpace _).bind fun _ => quiet_get.bind fun _ => quiet_onSpace _

theorem quiet_freshBinding : Quiet (freshBinding : Op γ Nat) :=
  fun _ => ⟨rfl, rfl, List.Subset.refl _⟩

theorem quiet_fill (object : Value) (form : Form) : Quiet (form.fill object : Op γ Unit) := by
  cases form with
  | bare => exact quiet_pure ()
  | cons | ratio | complex => exact (quiet_setField _ _ _).bind fun _ => quiet_setField _ _ _
  | vector => exact (quiet_setRaw _ _ _ _).bind fun _ => quiet_fillElements _ _ _
  | string => exact (quiet_onSpace _).bind fun _ => quiet_onSpace _
  | symbol name =>
    have hsymbol : Quiet (fillSymbol object name : Op γ Unit) :=
      (quiet_setField _ _ _).bind fun _ => (quiet_setField _ _ _).bind fun _ =>
        (quiet_setField _ _ _).bind fun _ => (quiet_setField _ _ _).bind fun _ =>
          quiet_setField _ _ _
    exact hsymbol.bind fun _ => quiet_freshBinding.bind fun _ => quiet_onSpace _
  | double bits => exact quiet_onSpace fun _ => modify (·.setWord object.address 0 bits)
  | bignum =>
    exact (quiet_setRaw _ _ _ _).bind fun _ => (quiet_setRaw _ _ _ _).bind fun _ =>
      quiet_setLimbs _ _ _
  | closure =>
    exact (quiet_setRaw _ _ _ _).bind fun _ => (quiet_setField _ _ _).bind fun _ =>
      quiet_setField _ _ _
  | stream =>
    exact (quiet_setRaw _ _ _ _).bind fun _ => (quiet_setRaw _ _ _ _).bind fun _ =>
      (quiet_setField _ _ _).bind fun _ => quiet_setField _ _ _
  | record =>
    exact (quiet_setRaw _ _ _ _).bind fun _ => (quiet_setField _ _ _).bind fun _ =>
      quiet_setSlots _ _ _
  | foreign =>
    exact (quiet_setRaw _ _ _ _).bind fun _ => (quiet_setRaw _ _ _ _).bind fun _ =>
      quiet_setField _ _ _

/-! ## Attending to finalizers -/

/-- No finalizer makes a symbol, unless `interns`. -/
def Discreet (interns : Prop) (m : Machine γ) : Prop :=
  ∀ name, .intern name ∈ m.heap.actions → interns

/-- Finalizers have run, each while its thread held locks that are `free`. Now the thread holds what
it held before. -/
structure Attended (interns : Prop) (free : List Guarded → Prop) (m m' : Machine γ) : Prop where
  held : m'.held = m.held
  discreet : m'.Discreet interns
  reports : ∃ new, m'.reports = new ++ m.reports ∧ ∀ report ∈ new, free report.held

variable {interns : Prop} {free : List Guarded → Prop}

theorem Attended.trans (h : Attended interns free m m') (h' : Attended interns free m' m'') :
    Attended interns free m m'' := by
  obtain ⟨new, hnew, hfree⟩ := h.reports
  obtain ⟨newer, hnewer, hfree'⟩ := h'.reports
  refine ⟨h'.held.trans h.held, h'.discreet, newer ++ new, ?_, fun report hreport => ?_⟩
  · rw [hnewer, hnew, List.append_assoc]
  · exact (List.mem_append.mp hreport).elim (hfree' report) (hfree report)

theorem Silent.attended (h : Silent m m') (hm : m.Discreet interns) : Attended interns free m m' :=
  ⟨h.held, fun name hname => hm name (h.actions hname), [], h.reports, List.forall_mem_nil _⟩

/-- Each finalizer that the operation runs finds the thread with locks that are `free`. -/
def Attends (interns : Prop) (free : List Guarded → Prop) (x : Op γ α) : Prop :=
  ∀ m, free m.held → m.Discreet interns → Attended interns free m (ending (x m))

theorem Quiet.attends {x : Op γ α} (hx : Quiet x) : Attends interns free x :=
  fun m _ hm => (hx m).attended hm

theorem Attends.bind {x : Op γ α} {f : α → Op γ β} (hx : Attends interns free x)
    (hf : ∀ a, Attends interns free (f a)) : Attends interns free (x >>= f) := by
  intro m hfree hm
  have hfirst := hx m hfree hm
  cases hrun : x m with
  | ok a m' =>
    rw [bind_of_ok hrun]
    rw [hrun] at hfirst
    exact hfirst.trans (hf a m' (hfirst.held ▸ hfree) hfirst.discreet)
  | error fault m' =>
    rw [bind_of_error hrun]
    rwa [hrun] at hfirst

/-- What follows on a look at the machine may rely on what it saw. -/
theorem attends_ofGet {f : Machine γ → Op γ α}
    (hf : ∀ m, free m.held → m.Discreet interns → Attended interns free m (ending (f m m))) :
    Attends interns free (get >>= f) := hf

theorem attends_ite {c : Prop} [Decidable c] {x y : Op γ α} (hx : Attends interns free x)
    (hy : Attends interns free y) : Attends interns free (if c then x else y) := by
  split
  · exact hx
  · exact hy

/-- The table of symbols is held meanwhile, so it has to be free as well. -/
theorem Attends.withSymbols {x : Op γ α} (hx : Attends interns free x)
    (hsymbols : ∀ held, free held → .symbols ∉ held → free (.symbols :: held)) :
    Attends interns free (withLock .symbols x) := by
  intro m hfree hm
  by_cases hlock : .symbols ∈ m.held
  · rw [ending_withLock_of_mem x hlock]
    exact (Silent.refl m).attended hm
  · rw [ending_withLock x hlock]
    have hinside := hx { m with held := .symbols :: m.held } (hsymbols _ hfree hlock) hm
    exact ⟨by simp [hinside.held], hinside.discreet, hinside.reports⟩

/-! ### Running finalizers -/

/-- Looks a symbol up, or makes it, while the table is held. -/
def internBody (finalize : Op γ Unit) (name : String) : Op γ Value := do
  match (← get).symbols.get? name with
  | some symbol => return symbol
  | none =>
    let symbol ← makeSymbolWith finalize name
    modify fun m => { m with symbols := m.symbols.insert name symbol }
    return symbol

theorem internWith_eq (finalize : Op γ Unit) (name : String) :
    internWith finalize name = withLock .symbols (internBody finalize name) := rfl

section Finalizing

variable {finalize : Op γ Unit} (hfinalize : Attends interns free finalize)

include hfinalize

theorem attends_allocateWith (kind : Kind) (words : Nat) :
    Attends interns free (allocateWith finalize kind words) := by
  refine (quiet_expect _ (quiet_pure _)).attends.bind fun _ => quiet_safepoint.attends.bind fun _ =>
    (quiet_withLock _ (quiet_allocateLocked kind words)).attends.bind fun v =>
      quiet_get.attends.bind fun m => ?_
  exact attends_ite (hfinalize.bind fun _ => (quiet_pure v).attends) (quiet_pure v).attends

theorem attends_collectWith : Attends interns free (collectWith finalize) :=
  (quiet_withLock _ quiet_collectLocked).attends.bind fun _ => hfinalize.bind fun _ =>
    (quiet_pure _).attends

theorem attends_buildWith (form : Form) :
    Attends interns free (form.build (allocateWith finalize)) :=
  quiet_get.attends.bind fun _ => (quiet_ofExcept _).attends.bind fun _ =>
    (attends_allocateWith hfinalize _ _).bind fun object =>
      (quiet_fill object form).attends.bind fun _ => (quiet_pure _).attends

theorem attends_makeSymbolWith (text : String) :
    Attends interns free (makeSymbolWith finalize text) := by
  rw [makeSymbolWith_eq_build]
  exact (attends_buildWith hfinalize _).bind fun _ => attends_buildWith hfinalize _

theorem attends_internBody (name : String) : Attends interns free (internBody finalize name) := by
  refine quiet_get.attends.bind fun m => ?_
  split
  · exact (quiet_pure _).attends
  · refine (attends_makeSymbolWith hfinalize name).bind fun symbol => Quiet.attends ?_
    exact Quiet.bind (fun _ => ⟨rfl, rfl, List.Subset.refl _⟩) fun _ => quiet_pure symbol

variable (hsymbols : interns → ∀ held, free held → .symbols ∉ held → free (.symbols :: held))

include hsymbols

theorem attends_internWith (hinterns : interns) (name : String) :
    Attends interns free (internWith finalize name) := by
  rw [internWith_eq]
  exact (attends_internBody hfinalize name).withSymbols (hsymbols hinterns)

theorem attends_perform (object : Value) {action : Action}
    (haction : ∀ name, action = .intern name → interns) :
    Attends interns free (perform finalize object action) := by
  cases action with
  | collect => exact (attends_collectWith hfinalize).bind fun _ => (quiet_pure _).attends
  | intern name =>
    exact (attends_internWith hfinalize hsymbols (haction name rfl) name).bind fun _ =>
      (quiet_pure _).attends
  | vector words =>
    exact (attends_allocateWith hfinalize .vector words).bind fun _ => (quiet_pure _).attends
  | report label keep =>
    intro m hfree hm
    exact ⟨rfl, hm, [_], rfl, List.forall_mem_singleton.mpr hfree⟩
  | fail fault => exact (quiet_raise fault).attends

theorem attends_performAll (object : Value) {finalizer : Finalizer}
    (hfinalizer : ∀ name, .intern name ∈ finalizer → interns) :
    Attends interns free (performAll finalize object finalizer) := by
  induction finalizer with
  | nil => exact (quiet_pure ()).attends
  | cons action rest ih =>
    refine (attends_perform hfinalize hsymbols object fun name heq => ?_).bind fun _ =>
      ih fun name hname => hfinalizer name (List.mem_cons_of_mem _ hname)
    exact hfinalizer name (heq ▸ List.mem_cons_self)

end Finalizing

theorem consAll_cons (element : Value) (rest : List Value) (list : Value) :
    consAll (element :: rest) list = (cons element list >>= consAll rest : Op γ Value) := by
  funext m
  rw [consAll]
  cases hrun : cons element list m with
  | ok v m' => simp only [bind_of_ok hrun, hrun]
  | error fault m' => simp only [bind_of_error hrun, hrun]

section Client

variable (hsymbols : interns → ∀ held, free held → .symbols ∉ held → free (.symbols :: held))

include hsymbols

theorem attends_finalizeWith (fuel : Nat) :
    Attends interns free (finalizeWith fuel : Op γ Unit) := by
  induction fuel with
  | zero => exact (quiet_pure ()).attends
  | succ fuel ih =>
    rw [finalizeWith]
    refine attends_ofGet fun m hfree hm => ?_
    dsimp only
    split
    · exact (Silent.refl m).attended hm
    · rcases hpending : m.heap.pending with _ | ⟨⟨object, finalizer⟩, rest⟩
      · exact (Silent.refl m).attended hm
      · have hactions : m.heap.actions
            = m.heap.finalizers.flatMap (·.2) ++ (finalizer ++ rest.flatMap (·.2)) := by
          rw [Heap.actions, hpending, List.flatMap_cons]
        have htaken : Silent m { m with heap := m.heap.takePendingFinalizer.2 } := by
          refine ⟨rfl, rfl, ?_⟩
          rw [hactions]
          simp only [Heap.takePendingFinalizer, hpending, Heap.actions]
          exact List.append_subset.mpr ⟨List.subset_append_left _ _,
            fun _ h => List.mem_append_right _ (List.mem_append_right _ h)⟩
        have hfinalizer : ∀ name, .intern name ∈ finalizer → interns := fun name hname =>
          hm name (hactions ▸ List.mem_append_right _ (List.mem_append_left _ hname))
        have hfinish : Quiet (modifyHeap (·.finishFinalizer object) : Op γ Unit) :=
          fun _ => ⟨rfl, rfl, List.Subset.refl _⟩
        have hrest : Attends interns free (do
            performAll (finalizeWith fuel) object finalizer
            modifyHeap (·.finishFinalizer object)
            finalizeWith fuel : Op γ Unit) :=
          (attends_performAll ih hsymbols object hfinalizer).bind fun _ =>
            hfinish.attends.bind fun _ => ih
        have hattended : Attended interns free m _ := htaken.attended hm
        exact hattended.trans (hrest _ hfree hattended.discreet)

theorem attends_runFinalizers : Attends interns free (runFinalizers : Op γ Unit) :=
  quiet_get.attends.bind fun _ => attends_finalizeWith hsymbols _

theorem attends_build (form : Form) : Attends interns free (form.build (γ := γ) allocateWords) :=
  attends_buildWith (attends_runFinalizers hsymbols) form

theorem attends_consAll (elements : List Value) (list : Value) :
    Attends interns free (consAll elements list : Op γ Value) := by
  induction elements generalizing list with
  | nil => exact (quiet_pure list).attends
  | cons element rest ih =>
    have hcons : Attends interns free (cons element list : Op γ Value) := by
      rw [cons_eq]
      exact attends_build hsymbols _
    rw [consAll_cons]
    exact hcons.bind fun list => ih list

end Client

/-! ### Scopes -/

theorem quiet_enter (kind : FrameKind) :
    Quiet (enter kind : Op γ (Outcome ControlStack.Scope)) := by
  intro m
  by_cases hfull : m.running.control.frameLimit ≤ m.running.control.frames.size
  · rw [enter_full hfull]
    exact (turned_self m).silent
  · rw [enter_pushed hfull]
    exact (turned_withControl m _).silent

theorem Attends.guarded {x : Op γ α} (hx : Attends interns free x) (scope : ControlStack.Scope) :
    Attends interns free (guarded scope x) := by
  intro m hfree hm
  have hbody := hx m hfree hm
  cases hrun : x m with
  | ok a m' =>
    rw [guarded_of_ok hrun]
    rwa [hrun] at hbody
  | error fault m' =>
    rw [guarded_of_error hrun]
    rw [hrun] at hbody
    exact hbody.trans ((turned_withControl m' _).silent.attended hbody.discreet)

variable {body cleanup : Op γ (Outcome Value)}

theorem Attends.catching (hbody : Attends interns free body) (tag : Value) :
    Attends interns free (catching tag body) := by
  refine (quiet_enter _).attends.bind fun entered => ?_
  cases entered with
  | error unwind => exact (quiet_pure _).attends
  | ok scope =>
    refine (hbody.guarded scope).bind fun result => Quiet.attends fun m => ?_
    obtain ⟨c, hturned, -⟩ := turns_leaveCatch scope result m
    exact hturned.silent

theorem Attends.unwindProtect (hbody : Attends interns free body)
    (hcleanup : Attends interns free cleanup) :
    Attends interns free (unwindProtect body cleanup) := by
  refine (quiet_enter _).attends.bind fun entered => ?_
  cases entered with
  | error unwind => exact (quiet_pure _).attends
  | ok scope =>
    refine (hbody.guarded scope).bind fun result => ?_
    rw [leaveProtect_eq]
    have hstart : Quiet (startCleanup scope : Op γ Nat) := fun m => by
      obtain ⟨c, hturned, -⟩ := turns_startCleanup scope m
      exact hturned.silent
    refine hstart.attends.bind fun expected => hcleanup.bind fun cleaned =>
      Quiet.attends fun m => ?_
    obtain ⟨c, hturned, -⟩ := turns_endCleanup expected result cleaned m
    exact hturned.silent

theorem Attends.binding (hbody : Attends interns free body) (symbol value : Value) :
    Attends interns free (binding symbol value body) := by
  refine quiet_get.attends.bind fun m => attends_ite ?_ ?_
  · have henter : Quiet (γ := γ) (enterBinding symbol value) := fun m => by
      obtain ⟨c, hturned, -⟩ := turns_enterBinding symbol value m
      exact hturned.silent
    refine henter.attends.bind fun entered => ?_
    cases entered with
    | error unwind => exact (quiet_pure _).attends
    | ok scope =>
      refine (hbody.guarded scope).bind fun result => Quiet.attends ?_
      refine Quiet.bind (fun m => ?_) fun _ => quiet_pure result
      obtain ⟨c, hturned, -⟩ := turns_leaveBinding scope m
      exact hturned.silent
  · exact (quiet_expect _ ((quiet_view _).bind fun _ => quiet_pure _)).attends.bind fun _ => hbody

theorem quiet_entryOf? (closure : Value) : Quiet (entryOf? closure : Op γ (Option Word)) := by
  have hmisuse : ∀ message : String → String, Quiet (expect false fun _ => do
      return message (← view fun mode space => space.render mode closure) : Op γ Unit) :=
    fun message => quiet_expect _ ((quiet_view _).bind fun _ => quiet_pure _)
  refine quiet_get.bind fun m => quiet_ite ?_ ?_
  · exact (hmisuse _).bind fun _ => quiet_pure _
  · exact (quiet_view _).bind fun entry =>
      quiet_ite ((hmisuse _).bind fun _ => quiet_pure _) (quiet_pure _)

theorem Attends.call {run : Word → Value → List Value → Op γ (Outcome Value)}
    (hrun : ∀ entry closure args, Attends interns free (run entry closure args)) (closure : Value)
    (args : List Value) : Attends interns free (call run closure args) := by
  refine (quiet_entryOf? closure).attends.bind fun entry? => ?_
  cases entry? with
  | none => exact (quiet_pure _).attends
  | some entry =>
    change Attends interns free (recorded closure (run entry closure args))
    rw [recorded_eq]
    have hstart : Quiet (startCall closure : Op γ (Outcome Nat)) := fun m => by
      obtain ⟨c, hturned, -⟩ := turns_startCall closure m
      exact hturned.silent
    refine hstart.attends.bind fun started => ?_
    cases started with
    | error unwind => exact (quiet_pure _).attends
    | ok expected =>
      refine (hrun entry closure args).bind fun result => Quiet.attends ?_
      refine Quiet.bind (fun m => ?_) fun _ => quiet_pure result
      obtain ⟨c, hturned, -⟩ := turns_endCall expected m
      exact hturned.silent

theorem Attends.toplevel (hbody : Attends interns free body) :
    Attends interns free (toplevel body) := by
  refine hbody.bind fun result => ?_
  split
  · exact (quiet_pure _).attends
  · exact (quiet_pure _).attends
  · exact (quiet_raise _).attends

/-! ### Safe regions and threads -/

/-- The thread goes back to running however the body ends. -/
theorem ending_safeRegion (x : Op γ α) (m : Machine γ) :
    ending (safeRegion x m) =
      if m.running.state ≠ .running then ending (x m)
      else ending (resume (ending ((setState .safe >>= fun _ => x) m))) := by
  unfold safeRegion
  split
  · rfl
  · cases (setState .safe >>= fun _ => x) m with
    | ok a m' =>
      dsimp only [ending]
      cases resume m' <;> rfl
    | error fault m' =>
      dsimp only [ending]
      cases resume m' <;> rfl

theorem Attends.safeRegion {x : Op γ α} (hx : Attends interns free x) :
    Attends interns free (safeRegion x) := by
  intro m hfree hm
  rw [ending_safeRegion]
  split
  · exact hx m hfree hm
  · have hinside := (quiet_setState .safe).attends.bind (fun _ => hx) m hfree hm
    exact hinside.trans ((quiet_resume _).attended hinside.discreet)

/-- The client goes on after a fault. -/
def recovering (x : Op γ α) : Op γ (Except Fault α) := fun m =>
  match x m with
  | .ok a m => .ok (.ok a) m
  | .error fault m => .ok (.error fault) m

theorem Attends.recovering {x : Op γ α} (hx : Attends interns free x) :
    Attends interns free (recovering x) := by
  intro m hfree hm
  have hbody := hx m hfree hm
  unfold Machine.recovering
  cases hrun : x m <;> rwa [hrun] at hbody

theorem quiet_detach : Quiet (detach : Op γ Unit) := by
  refine (quiet_get.bind fun _ => quiet_note _ _ _).bind fun _ => quiet_modify fun m => ?_
  split <;> exact ⟨rfl, rfl, List.Subset.refl _⟩

theorem Attends.spawn {x : Op γ α} (hx : Attends interns free x) :
    Attends interns free (spawn x) := by
  have hattach : Quiet (attach : Op γ Unit) := quiet_modify fun _ => ⟨rfl, rfl, List.Subset.refl _⟩
  have hthread : Attends interns free (onNewThread x) := by
    refine hattach.attends.bind fun _ => Attends.bind (fun m hfree hm => ?_) fun result =>
      quiet_detach.attends.bind fun _ => (quiet_pure result).attends
    have hbody := hx m hfree hm
    split
    next hrun => rwa [hrun] at hbody
    next hrun => rwa [hrun] at hbody
    next hrun => rwa [hrun] at hbody
  refine quiet_get.attends.bind fun m => ?_
  split
  · exact (quiet_pure _).attends
  · exact (quiet_note _ _ _).attends.bind fun _ => hthread.safeRegion.bind fun _ =>
      (quiet_pure _).attends

/-! ## Work of a client -/

/-- What clients are put together from. `interns` is to say whether any of it makes a symbol by its
name, be it in a finalizer. -/
inductive Work (interns : Prop) : {α : Type} → Op γ α → Prop where
  /-- Whatever runs no finalizers and attaches none. -/
  | quiet {α : Type} {x : Op γ α} (hx : Quiet x) : Work interns x
  | bind {α β : Type} {x : Op γ α} {f : α → Op γ β} (hx : Work interns x)
      (hf : ∀ a, Work interns (f a)) : Work interns (x >>= f)
  | registerFinalizer (v : Value) (finalizer : Finalizer)
      (hfinalizer : ∀ name, .intern name ∈ finalizer → interns) :
      Work interns (onHeap (Heap.registerFinalizer v finalizer))
  | build (form : Form) : Work interns (form.build allocateWords)
  | list (elements : List Value) : Work interns (Machine.list elements)
  | makeSymbol (text : String) : Work interns (Machine.makeSymbol text)
  | intern (hinterns : interns) (name : String) : Work interns (Machine.intern name)
  | collect : Work interns Machine.collect
  | runFinalizers : Work interns Machine.runFinalizers
  | catching (tag : Value) {body : Op γ (Outcome Value)} (hbody : Work interns body) :
      Work interns (Machine.catching tag body)
  | unwindProtect {body cleanup : Op γ (Outcome Value)} (hbody : Work interns body)
      (hcleanup : Work interns cleanup) : Work interns (Machine.unwindProtect body cleanup)
  | binding (symbol value : Value) {body : Op γ (Outcome Value)} (hbody : Work interns body) :
      Work interns (Machine.binding symbol value body)
  | call {run : Word → Value → List Value → Op γ (Outcome Value)}
      (hrun : ∀ entry closure args, Work interns (run entry closure args)) (closure : Value)
      (args : List Value) : Work interns (Machine.call run closure args)
  | toplevel {body : Op γ (Outcome Value)} (hbody : Work interns body) :
      Work interns (Machine.toplevel body)
  | safeRegion {α : Type} {x : Op γ α} (hx : Work interns x) : Work interns (Machine.safeRegion x)
  | recovering {α : Type} {x : Op γ α} (hx : Work interns x) : Work interns (Machine.recovering x)
  | spawn {α : Type} {x : Op γ α} (hx : Work interns x) : Work interns (Machine.spawn x)

theorem Work.block {body : Value → Op γ (Outcome Value)} (hbody : ∀ tag, Work interns (body tag)) :
    Work interns (Machine.block body) := by
  have hcons : Work interns (cons .nil .nil : Op γ Value) := by
    rw [cons_eq]
    exact .build _
  exact hcons.bind fun tag => .catching tag (hbody tag)

theorem Work.mono {interns' : Prop} (himp : interns → interns') {x : Op γ α} (hx : Work interns x) :
    Work interns' x := by
  induction hx with
  | quiet hx => exact .quiet hx
  | bind _ _ ihx ihf => exact .bind ihx ihf
  | registerFinalizer v finalizer hfinalizer =>
    exact .registerFinalizer v finalizer fun name hname => himp (hfinalizer name hname)
  | build form => exact .build form
  | list elements => exact .list elements
  | makeSymbol text => exact .makeSymbol text
  | intern hinterns name => exact .intern (himp hinterns) name
  | collect => exact .collect
  | runFinalizers => exact .runFinalizers
  | catching tag _ ih => exact .catching tag ih
  | unwindProtect _ _ ihbody ihcleanup => exact .unwindProtect ihbody ihcleanup
  | binding symbol value _ ih => exact .binding symbol value ih
  | call _ closure args ih => exact .call ih closure args
  | toplevel _ ih => exact .toplevel ih
  | safeRegion _ ih => exact .safeRegion ih
  | recovering _ ih => exact .recovering ih
  | spawn _ ih => exact .spawn ih

theorem attends_registerFinalizer (v : Value) {finalizer : Finalizer}
    (hfinalizer : ∀ name, .intern name ∈ finalizer → interns) :
    Attends interns free (onHeap (Heap.registerFinalizer v finalizer) : Op γ Unit) := by
  intro m hfree hm
  cases hlive : m.heap.isLive v with
  | true =>
    simp only [onHeap, Heap.registerFinalizer, hlive, if_true]
    refine ⟨rfl, fun name hname => ?_, [], rfl, List.forall_mem_nil _⟩
    have hold := hm name
    simp only [ending, Heap.actions, List.flatMap_cons, List.mem_append, List.mem_flatMap,
      List.mem_filter] at hname hold
    grind
  | false =>
    refine (silent_onHeap ?_).attended hm
    rw [Heap.registerFinalizer, if_neg (by simp [hlive])]
    split <;> exact List.Subset.refl _

theorem Work.attends
    (hsymbols : interns → ∀ held, free held → .symbols ∉ held → free (.symbols :: held))
    {x : Op γ α} (hx : Work interns x) : Attends interns free x := by
  induction hx with
  | quiet hx => exact hx.attends
  | bind _ _ ihx ihf => exact ihx.bind ihf
  | registerFinalizer v finalizer hfinalizer => exact attends_registerFinalizer v hfinalizer
  | build form => exact attends_build hsymbols form
  | list elements => exact attends_consAll hsymbols _ _
  | makeSymbol text => exact attends_makeSymbolWith (attends_runFinalizers hsymbols) text
  | intern hinterns name =>
    exact attends_internWith (attends_runFinalizers hsymbols) hsymbols hinterns name
  | collect => exact attends_collectWith (attends_runFinalizers hsymbols)
  | runFinalizers => exact attends_runFinalizers hsymbols
  | catching tag _ ih => exact ih.catching tag
  | unwindProtect _ _ ihbody ihcleanup => exact ihbody.unwindProtect ihcleanup
  | binding symbol value _ ih => exact ih.binding symbol value
  | call _ closure args ih => exact Attends.call ih closure args
  | toplevel _ ih => exact ih.toplevel
  | safeRegion _ ih => exact ih.safeRegion
  | recovering _ ih => exact ih.recovering
  | spawn _ ih => exact ih.spawn

/-- The table of symbols is held whenever a finalizer runs while a symbol is made by its name. -/
theorem finalized_intern (hm : m.held = []) (name : String) :
    ∃ new, (ending (Machine.intern name m)).reports = new ++ m.reports ∧
      ∀ report ∈ new, report.held = [.symbols] := by
  have hfinalize : Attends True (· = [.symbols]) (Machine.runFinalizers : Op γ Unit) :=
    attends_runFinalizers fun _ held hheld habsent =>
      absurd (hheld ▸ List.mem_singleton_self _) habsent
  have hinside := attends_internBody hfinalize name { m with held := .symbols :: m.held }
    (by rw [hm]) fun _ _ => trivial
  rw [Machine.intern, internWith_eq, ending_withLock _ (by simp [hm])]
  exact hinside.reports

/-- Whoever runs a finalizer holds no lock then but the one on the table of symbols, and that one
only while somebody makes a symbol by its name, which always holds it. Afterwards it holds none. -/
theorem Work.locks_of_finalizers {m : Machine γ} (hm : m.held = []) :
    (∀ (interns : Prop) (x : Op γ α), Work interns x →
      (ending (x m)).held = [] ∧ ∃ new, (ending (x m)).reports = new ++ m.reports ∧
        (∀ report ∈ new, report.held = [] ∨ report.held = [.symbols]) ∧
        (¬interns → (∀ name, .intern name ∉ m.heap.actions) → ∀ report ∈ new, report.held = [])) ∧
    ∀ name, ∃ new, (ending (Machine.intern name m)).reports = new ++ m.reports ∧
      ∀ report ∈ new, report.held = [.symbols] := by
  refine ⟨fun interns x hx => ?_, finalized_intern hm⟩
  have hattends : Attends True (fun held => held = [] ∨ held = [.symbols]) x :=
    (hx.mono fun _ => trivial).attends fun _ held hheld habsent => by grind
  obtain ⟨hheld, -, new, hnew, hfree⟩ := hattends m (.inl hm) fun _ _ => trivial
  refine ⟨hheld.trans hm, new, hnew, hfree, fun hinterns hactions => ?_⟩
  have hunlocked : Attends interns (· = []) x := hx.attends fun h => absurd h hinterns
  obtain ⟨-, -, new', hnew', hfree'⟩ :=
    hunlocked m hm fun name hname => absurd hname (hactions name)
  rw [hnew, List.append_cancel_right_eq] at hnew'
  exact hnew' ▸ hfree'

/-! ## A finalizer that is locked out -/

/-- A machine whose first collection comes when 2048 bytes are not enough. -/
def frugalMachine : Machine Unit :=
  let heap := Heap.new .debug ⟨2048, 1048576, .two, true⟩
  { smallMachine with heap := { heap with space := { heap.space with pages := .fresh } } }

/-- Leaves a vector of all the 2048 bytes to be collected, with a finalizer. -/
def abandonVector (finalizer : Finalizer) : Op Unit Unit := do
  let v ← (Form.bare .vector 253).build allocateWords
  onHeap (Heap.registerFinalizer v finalizer)

/-- Runs the finalizer right away. -/
def abandonAndCollect (finalizer : Finalizer) : Op Unit Stats := do
  abandonVector finalizer
  collect

/-- The finalizer of the vector is to make a symbol, when the next allocation collects it. -/
def disposedMachine : Machine Unit :=
  ending (abandonVector [.report "seen" false, .intern "other"] frugalMachine)

theorem unheld_disposedMachine :
    disposedMachine.held = [] ∧ disposedMachine.reports.length = 0 := by
  decide +kernel

/-- The new symbol and the string of this name have cells of one size. -/
def clientName : String := "*the-name-of-a-symbol-of-the-client*"

/-- The finalizer finds no lock when the collection was asked for, and that of the table of symbols
when it came to make room for a symbol. -/
theorem Work.locks_of_finalizers_frugalMachine :
    (∃ report ∈ (ending (abandonAndCollect [.report "seen" false] frugalMachine)).reports,
      report.held = []) ∧
    ∃ report ∈ (ending (Machine.intern clientName disposedMachine)).reports,
      report.held = [.symbols] := by
  constructor
  · have hwork : Work False (abandonAndCollect [.report "seen" false]) := by
      refine .bind (.bind (.build _) fun v => .registerFinalizer v _ ?_) fun _ => .collect
      simp
    have hactions : frugalMachine.heap.actions = [] := rfl
    obtain ⟨-, new, hnew, -, hunlocked⟩ :=
      (Work.locks_of_finalizers (show frugalMachine.held = [] from rfl)).1 False _ hwork
    have hsome :
        0 < (ending (abandonAndCollect [.report "seen" false] frugalMachine)).reports.length := by
      decide +kernel
    rw [hnew, show frugalMachine.reports = [] from rfl, List.append_nil] at hsome ⊢
    exact ⟨new[0], List.getElem_mem hsome,
      hunlocked id (by simp [hactions]) _ (List.getElem_mem hsome)⟩
  · obtain ⟨hheld, hnone⟩ := unheld_disposedMachine
    have hsome : 0 < (ending (Machine.intern clientName disposedMachine)).reports.length := by
      decide +kernel
    obtain ⟨new, hnew, hsymbols⟩ := (Work.locks_of_finalizers (α := Unit) hheld).2 clientName
    rw [hnew, List.length_eq_zero_iff.mp hnone, List.append_nil] at hsome ⊢
    exact ⟨new[0], List.getElem_mem hsome, hsymbols _ (List.getElem_mem hsome)⟩

/-- A finalizer makes a symbol while its own thread holds the table of symbols, and waits for
itself. So it is not the case that finalizers always find the locks free. -/
theorem finalizer_locked_out :
    (∃ m, intern clientName disposedMachine = .error .blocked m ∧
      m.reports.map (·.held) = [[.symbols]]) ∧
    ¬∀ (x : Op Unit Value) (m : Machine Unit), Work True x → m.held = [] →
      ∀ report ∈ (ending (x m)).reports, report ∈ m.reports ∨ report.held = [] := by
  have hrun : fails (fun fault m => fault == .blocked && m.reports.map (·.held) == [[.symbols]])
      (intern clientName disposedMachine) = true := by
    decide +kernel
  obtain ⟨fault, m, hblocked, hcheck⟩ := exists_of_fails hrun
  simp only [Bool.and_eq_true, beq_iff_eq] at hcheck
  obtain ⟨rfl, hheld⟩ := hcheck
  refine ⟨⟨m, hblocked, hheld⟩, fun hclaim => ?_⟩
  obtain ⟨hunheld, hnone⟩ := unheld_disposedMachine
  have hmem : [.symbols] ∈ m.reports.map (·.held) := hheld ▸ List.mem_singleton_self _
  obtain ⟨report, hreport, hlock⟩ := List.mem_map.mp hmem
  have hfree := hclaim _ disposedMachine (.intern trivial clientName) hunheld report
    (by rwa [hblocked])
  simp [hlock, List.length_eq_zero_iff.mp hnone] at hfree

end Machine

end Substrate
