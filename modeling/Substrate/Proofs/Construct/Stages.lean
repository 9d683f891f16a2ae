import Substrate.Proofs.Collection.Sparing
import Substrate.Proofs.Construct.Fields

/-!
# The stages of a constructor

A constructor takes memory for its object, lets the finalizers run that have been queued meanwhile, and
fills in the object. `Host.build_stages` says what can be relied on in each stage. Taking memory and
filling in leave all other objects as they are, whether they are in use or not. What the finalizers do is
up to them: all that matters to the constructor is that they leave the new object alone.

Nothing is asked of the parts that the object is to refer to. In a debug build nothing is asked of the
objects that there are, either.
-/

namespace Substrate

/-- What is in the second space was in the first one with the same contents, new objects apart. -/
def Space.Inherits (new : Nat → Prop) (s t : Space) : Prop :=
  ∀ a cell', ¬ new a → t.object? a = some cell' → ∃ cell, s.object? a = some cell ∧ cell.Similar cell'

theorem Space.Inherits.refl (new : Nat → Prop) (s : Space) : s.Inherits new s :=
  fun _ cell _ hcell => ⟨cell, hcell, .refl cell⟩

theorem Space.Inherits.trans {new : Nat → Prop} {s t u : Space} (h : Inherits new s t)
    (h' : Inherits new t u) : Inherits new s u := by
  intro a cell'' ha hcell''
  obtain ⟨cell', hcell', hsim'⟩ := h' a cell'' ha hcell''
  obtain ⟨cell, hcell, hsim⟩ := h a cell' ha hcell'
  exact ⟨cell, hcell, hsim.trans hsim'⟩

namespace Machine

variable {γ : Type} {m m' m₁ m₂ : Machine γ} {new : Nat → Prop} {frames : List Value} {v : Value}
  {host : Host} {kind : Kind} {words : Nat} {form : Form}

/-- What holds of a machine whenever no collection is under way and none has failed. A debug build does
not mind a reference that leads nowhere. A release build follows all references. -/
structure Steady (m : Machine γ) : Prop where
  rested : m.heap.Rested
  mode : m.heap.mode = m.mode
  release : m.mode = .release → Sound m

theorem Sound.steady (hs : Sound m) : Steady m := ⟨hs.heap, hs.mode, fun _ => hs⟩

theorem Steady.locked (hm : Steady m) (lock : Guarded) :
    Steady { m with held := lock :: m.held } :=
  ⟨hm.rested, hm.mode, fun hmode => (hm.release hmode).locked lock⟩

/-- The machine has gone on, and no object but new ones has come or changed. -/
structure Thins (new : Nat → Prop) (m m' : Machine γ) : Prop where
  steady : Steady m'
  mode : m'.mode = m.mode
  inherits : m.heap.space.Inherits new m'.heap.space

theorem Thins.trans (h : Thins new m m₁) (h' : Thins new m₁ m') : Thins new m m' :=
  ⟨h'.steady, h'.mode.trans h.mode, h.inherits.trans h'.inherits⟩

/-- The finalizers that run before a new object of the machine is filled in neither write to it nor reclaim
it. -/
def Considerate (kind : Kind) (words : Nat) (m : Machine γ) : Prop :=
  ∀ v m₁ m₂, withLock .heap (allocateLocked kind words) m = .ok v m₁ → runFinalizers m₁ = .ok () m₂ →
    Relation.ReflTransGen (Heap.Goes (· = v.address)) m₁.heap m₂.heap

namespace Host

/-! ## Taking memory -/

theorem thins_collectLocked (hm : Steady m) {stats : Stats}
    (hrun : host.collectLocked frames m = .ok stats m') : Thins new m m' := by
  obtain ⟨hbeside, collection, hcollect⟩ := host.collects_of_collectLocked hm.mode hrun
  have hsound : m.heap.mode = .release → Sound m := fun hmode => hm.release (hm.mode ▸ hmode)
  have ht : m.heap.mode = .release → m.heap.space.Traceable := fun hmode => (hsound hmode).traceable
  obtain ⟨hrested, hcontents⟩ := hm.rested.collected ht
    (Marking.leaves_runAll hm.rested.valid (Marking.safe_start ht _) fun hmode =>
      (hsound hmode).permitted _) hcollect
  refine ⟨⟨hrested, ?_, fun hmode => ?_⟩, hbeside.mode, fun a cell _ hcell => hcontents a cell hcell⟩
  · rw [Heap.mode_collect hcollect, hm.mode, hbeside.mode]
  · exact (host.passes_collectLocked (hm.release (hbeside.mode ▸ hmode)) hrun).1.sound

/-- An allocation has given a zeroed object, and nothing else is new. -/
structure Grants (m m' : Machine γ) (v : Value) (kind : Kind) (words : Nat) : Prop
    extends Thins (· = v.address) m m' where
  holds : ∃ header, header.kind = kind ∧ header.words = words ∧ m'.Holds v header fun _ => 0
  limit : words < Space.payloadLimit

theorem grants_tryAllocate (hm : Steady m) (hhost : host.Scrupulous) (hkind : kind.isHeap = true)
    {result : Option Value} (hanswer : host.tryAllocate kind words m = .ok result m') :
    (result = none → ∀ new, Thins new m m') ∧
      ∀ v, result = some v → Grants m m' v kind words := by
  have hsound : m'.mode = .release → m'.mode = m.mode → Sound m' := by
    intro hmode hsame
    have hpasses : Passes [] m m' :=
      passes_tryAllocate (hm.release (hsame ▸ hmode)) (hhost.honest _) hkind hanswer
    exact hpasses.sound
  obtain ⟨heap, hrun, rfl⟩ := of_onHeap hanswer
  have hfresh := hhost m.heap.space hm.rested.valid
  obtain ⟨⟨hmode, -⟩, hcases⟩ := Heap.tryAllocate_cases hm.rested.valid hfresh hkind hrun
  have hsteady : Steady { m with heap } :=
    ⟨(hm.rested.tryAllocate hfresh hkind hrun).rested, hmode.trans hm.mode, fun h => hsound h rfl⟩
  refine ⟨fun hnone new => ⟨hsteady, rfl, fun a cell _ hcell => ?_⟩, fun v hv => ?_⟩
  · obtain ⟨-, hsame⟩ | ⟨_, _, hnew, -⟩ := hcases
    · exact ⟨cell, (hsame a).symm.trans hcell, .refl cell⟩
    · cases hnone.symm.trans hnew
  · obtain ⟨hnone, -⟩ | ⟨a, zeroed, hnew, hadds, hheader, hzero, hlimit⟩ := hcases
    · cases hv.symm.trans hnone
    obtain rfl : v = .ofAddress a := Option.some.inj (hv.symm.trans hnew)
    have hobject := hadds.object?_new
    obtain ⟨href, haddress⟩ := (Heap.refersTo_ofAddress hadds.valid
      (Option.isSome_of_eq_some hobject) a).mpr rfl
    refine ⟨⟨hsteady, rfl, fun x cell hx hcell => ⟨cell, ?_, .refl cell⟩⟩,
      ⟨zeroed.header, by rw [hheader], by rw [hheader], href, hadds.valid, zeroed,
        haddress.symm ▸ hobject, rfl, hzero⟩, hlimit⟩
    rwa [hadds.view, if_neg (haddress ▸ hx)] at hcell

theorem thins_prepares (hm : Steady m) (hhost : host.Scrupulous) (hkind : kind.isHeap = true)
    (hprepares : Relation.ReflTransGen (Prepares host frames kind words) m m') : Thins new m m' := by
  induction hprepares with
  | refl => exact ⟨hm, rfl, .refl _ _⟩
  | tail _ hstep ih =>
    cases hstep with
    | collect hrun => exact ih.trans (thins_collectLocked ih.steady hrun)
    | refused hrun =>
      exact ih.trans ((grants_tryAllocate ih.steady hhost hkind hrun).1 rfl new)

/-- However often the heap is collected for it, the memory that an allocation gives is new, and all that
is left of the objects is as it was. -/
theorem grants_allocateLocked (hm : Steady m) (hhost : host.Scrupulous) (hkind : kind.isHeap = true)
    (hrun : withLock .heap (host.allocateLocked frames kind words) m = .ok v m') :
    Grants m m' v kind words := by
  obtain ⟨-, m₂, hallocate, rfl⟩ := of_withLock hrun
  obtain ⟨m₁, hprepares, hlast⟩ := of_allocateLocked hallocate
  have hthins : Thins (· = v.address) _ m₁ :=
    thins_prepares (hm.locked .heap) hhost hkind hprepares
  have hgrants := (grants_tryAllocate hthins.steady hhost hkind hlast).2 v rfl
  obtain ⟨header, hheaderKind, hheaderWords, hholds⟩ := hgrants.holds
  refine ⟨⟨⟨hgrants.steady.rested, hgrants.steady.mode, fun hmode => ?_⟩,
    hgrants.mode.trans hthins.mode, hthins.inherits.trans hgrants.inherits⟩,
    ⟨header, hheaderKind, hheaderWords, hholds.ref, hholds.has⟩, hgrants.limit⟩
  have hs := hgrants.steady.release hmode
  exact ⟨⟨hs.heap, hs.mode, hs.control, hs.symbols⟩, hs.traceable, hs.locations, hs.texts⟩

/-! ## Letting finalizers run -/

/-- The same on a host. -/
def Considerate (host : Host) (frames : List Value) (kind : Kind) (words : Nat) (m : Machine γ) :
    Prop :=
  ∀ v m₁ m₂, withLock .heap (host.allocateLocked frames kind words) m = .ok v m₁ →
    host.runFinalizers (v :: frames) m₁ = .ok () m₂ →
      Relation.ReflTransGen (Heap.Goes (· = v.address)) m₁.heap m₂.heap

theorem Undisturbed.considerate (h : host.Undisturbed frames kind words m) :
    host.Considerate frames kind words m := by
  intro v m₁ m₂ hlocked hfinalize
  rw [runFinalizers_of_empty (h v m₁ hlocked) hfinalize]

theorem plain_considerate :
    plain.Considerate frames kind words m ↔ Machine.Considerate kind words m := by
  unfold Considerate Machine.Considerate
  rw [plain_allocateLocked, plain_runFinalizers]

theorem Considerate.guarded (h : host.Considerate frames kind words m)
    (hhonest : host.Honest m.heap.space) : host.guarded.Considerate frames kind words m := by
  intro v m₁ m₂ hlocked hfinalize
  rw [(agrees_takes frames kind words m).2 hhonest] at hlocked
  obtain ⟨-, hlater⟩ := (agrees_takes frames kind words).of_ok hhonest hlocked
  rw [(agrees_runFinalizers (v :: frames) m₁).2 hlater] at hfinalize
  exact h v m₁ m₂ hlocked hfinalize

/-- An object that work spared has the contents that it had. -/
theorem holds_of_goes {header : Header} {f : Nat → Word} (hr : m.heap.Rested)
    (hholds : m.Holds v header f)
    (hgoes : Relation.ReflTransGen (Heap.Goes (· = v.address)) m.heap m'.heap) :
    m'.heap.Rested ∧ ∃ header', header'.kind = header.kind ∧ header'.words = header.words ∧
      m'.Holds v header' f := by
  obtain ⟨hrested, -, hkept⟩ := Heap.Goes.similar hgoes hr
  obtain ⟨cell, hcell, rfl, hwords⟩ := hholds.has.object
  obtain ⟨cell', hcell', hsim⟩ := hkept _ cell rfl hcell
  exact ⟨hrested, cell'.header, hsim.kind, hsim.words, hholds.ref, hrested.valid, cell', hcell', rfl,
    fun i => (hsim.word i).trans (hwords i)⟩

/-- When an allocation comes back, the object is there and still zeroed, unless a finalizer has written to
it. -/
theorem allocateWith_ready (hhost : host.Scrupulous) (hm : Steady m) (hkind : kind.isHeap = true)
    (hquiet : host.scans = true ∧ Sound m ∨ host.Considerate frames kind words m)
    (hrun : host.allocateWith host.runFinalizers frames kind words m = .ok v m') :
    words < Space.payloadLimit ∧ m'.heap.Rested ∧
      ∃ header, header.kind = kind ∧ header.words = words ∧ m'.Holds v header fun _ => 0 := by
  obtain ⟨m₁, hlocked, hfinalized⟩ := of_allocateWith hrun
  have hgrants := grants_allocateLocked hm hhost hkind hlocked
  refine ⟨hgrants.limit, ?_⟩
  obtain ⟨hscans, hs⟩ | hconsiderate := hquiet
  · have hgives := allocateWith_gives hs hhost hkind
      (.inl ⟨hscans, passing_runFinalizers hhost hscans⟩) hrun
    exact ⟨hgives.passes.sound.heap, hgives.holds⟩
  · obtain ⟨header, hheaderKind, hheaderWords, hholds⟩ := hgrants.holds
    obtain ⟨-, rfl⟩ | ⟨-, hfinalize⟩ := hfinalized
    · exact ⟨hgrants.steady.rested, header, hheaderKind, hheaderWords, hholds⟩
    · obtain ⟨hrested, header', hkind', hwords', hholds'⟩ :=
        holds_of_goes hgrants.steady.rested hholds (hconsiderate v m₁ m' hlocked hfinalize)
      exact ⟨hrested, header', hkind'.trans hheaderKind, hwords'.trans hheaderWords, hholds'⟩

/-! ## Filling in -/

/-- An object that holds what its form says is an object of the form. -/
theorem shows_of_holds {header : Header} {index : Nat} (h : m.Holds v header (form.word index))
    (hkind : header.kind = form.kind) (hwords : header.words = form.size)
    (hlimit : header.words < Space.payloadLimit) : Shows m.heap.space v form := by
  obtain ⟨new, hnew, rfl, hword⟩ := h.has.object
  exact ⟨h.ref, new, hnew, hkind, hwords, hlimit, index, hword⟩

/-- How an object of a form was built: the memory was there in `m₁`, and the finalizers were over
in `m₂`. -/
structure Stages (host : Host) (frames : List Value) (form : Form) (v : Value)
    (m m₁ m₂ m' : Machine γ) : Prop where
  allocated : withLock .heap (host.allocateLocked frames form.kind form.size) m = .ok v m₁
  finalized : m₁.heap.pending = [] ∧ m₂ = m₁ ∨ host.runFinalizers (v :: frames) m₁ = .ok () m₂
  filled : form.fill v m₂ = .ok () m'
  /-- Taking memory leaves all other objects as they are. -/
  before : m.heap.space.Inherits (· = v.address) m₁.heap.space
  /-- Filling in leaves all other objects as they are. -/
  after : m₂.heap.space.Inherits (· = v.address) m'.heap.space
  rested : m'.heap.Rested
  shows : Shows m'.heap.space v form

/-- A constructor that comes back has built what it was asked for, whatever the parts are. The
finalizers that run on the way find the new object in a native frame, or they leave it alone. -/
theorem build_stages (hhost : host.Scrupulous) (hm : Steady m) (hkind : form.kind.isHeap = true)
    (hfits : m.mode = .debug ∨ form.Fits)
    (hquiet : host.scans = true ∧ Sound m ∨ host.Considerate frames form.kind form.size m)
    (hrun : host.build frames form m = .ok v m') :
    ∃ m₁ m₂, Stages host frames form v m m₁ m₂ m' := by
  obtain ⟨m₂, hallocate, hfill⟩ := of_build hfits hrun
  obtain ⟨m₁, hlocked, hfinalized⟩ := of_allocateWith hallocate
  obtain ⟨hsize, hrested, header, hheaderKind, hheaderWords, hzero⟩ :=
    allocateWith_ready hhost hm hkind hquiet hallocate
  have hlimit : header.words < Space.payloadLimit := hheaderWords ▸ hsize
  obtain ⟨m₃, index, hfill', hfilled, helse⟩ :=
    Form.fill_spec hzero hheaderKind hheaderWords hlimit
  cases hfill.symm.trans hfill'
  exact ⟨m₁, m₂, hlocked, hfinalized.imp_right And.right, hfill,
    (grants_allocateLocked hm hhost hkind hlocked).inherits,
    fun a cell ha hcell => ⟨cell, (helse.space.objects a ha).symm.trans hcell, .refl cell⟩,
    (helse.keeps hzero hfilled hrested).rested,
    shows_of_holds hfilled hheaderKind hheaderWords hlimit⟩

theorem Stages.of_guarded (h : Stages host.guarded frames form v m m₁ m₂ m')
    (hhonest : host.Honest m.heap.space) : Stages host frames form v m m₁ m₂ m' := by
  have hallocated := ((agrees_takes frames form.kind form.size m).2 hhonest).symm.trans h.allocated
  obtain ⟨-, hlater⟩ := (agrees_takes frames form.kind form.size).of_ok hhonest hallocated
  have hfinalizers := (agrees_runFinalizers (v :: frames) m₁).2 hlater
  exact ⟨hallocated, h.finalized.imp_right fun hrun => hfinalizers ▸ hrun, h.filled, h.before,
    h.after, h.rested, h.shows⟩

/-- Without finalizers a constructor leaves all other objects as they are. -/
theorem Stages.inherits (h : Stages host frames form v m m₁ m₂ m')
    (hquiet : host.Undisturbed frames form.kind form.size m) :
    m.heap.space.Inherits (· = v.address) m'.heap.space := by
  have hsame : m₂ = m₁ := by
    obtain ⟨-, hsame⟩ | hfinalize := h.finalized
    · exact hsame
    · exact runFinalizers_of_empty (hquiet v m₁ h.allocated) hfinalize
  exact h.before.trans (hsame ▸ h.after)

/-! ## A machine to build on -/

theorem sound_smallMachine : Sound smallMachine :=
  sound_of_start (show Machine.start .debug smallOptions () = .ok smallMachine from rfl)
    (Heap.wellFormed_new .debug smallOptions.heap) rfl

theorem honest_smallMachine : plain.Honest smallMachine.heap.space :=
  honest_plain (Space.owned_new _)

/-- No finalizer is attached there that could run while something is built. -/
theorem considerate_smallMachine (hkind : kind.isHeap = true) (words : Nat) :
    plain.Considerate [] kind words smallMachine :=
  (undisturbed_of_unattended sound_smallMachine honest_smallMachine hkind ⟨rfl, rfl⟩).considerate

end Host

end Machine

end Substrate
