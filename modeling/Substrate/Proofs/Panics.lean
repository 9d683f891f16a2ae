import Substrate.Machine.Construct

/-!
# Faults of arithmetic and of roots

Address arithmetic can fail, by an overflow or an assertion. So can naming the roots of a collection, by a
stale reference or by a region at the end of the address space. None of this is a fatal error: all these
faults are panics (`Fault.IsPanic`).
-/

namespace Substrate

/-- A failed assertion, an overflow or a stale reference. -/
def Fault.IsPanic : Fault → Prop
  | .panic _ => True
  | _ => False

open Fault (IsPanic)

variable {α β σ : Type} {P Q : Fault → Prop}

/-! ## The sort of fault -/

/-- If the result is a fault, then it is of this sort. -/
def OnlyFaults (P : Fault → Prop) (x : Except Fault α) : Prop :=
  ∀ fault, x = .error fault → P fault

theorem onlyFaults_ok (a : α) : OnlyFaults P (.ok a) := fun _ h => by cases h

theorem onlyFaults_error {fault : Fault} (h : P fault) :
    OnlyFaults P (.error fault : Except Fault α) := by
  rintro _ ⟨⟩
  exact h

theorem OnlyFaults.mono {x : Except Fault α} (hx : OnlyFaults P x) (h : ∀ fault, P fault → Q fault) :
    OnlyFaults Q x :=
  fun fault hfault => h fault (hx fault hfault)

theorem OnlyFaults.bind {x : Except Fault α} {f : α → Except Fault β} (hx : OnlyFaults P x)
    (hf : ∀ a, OnlyFaults P (f a)) : OnlyFaults P (x >>= f) := by
  cases x with
  | ok a => exact hf a
  | error fault => exact onlyFaults_error (hx fault rfl)

namespace Run

/-- Every fault of the computation is of this sort. -/
def OnlyFaults (P : Fault → Prop) (x : Run σ α) : Prop :=
  ∀ s fault s', x s = .error fault s' → P fault

theorem onlyFaults_pure (a : α) : OnlyFaults P (pure a : Run σ α) := fun _ _ _ h => by cases h

theorem onlyFaults_modify (f : σ → σ) : OnlyFaults P (modify f : Run σ Unit) :=
  fun _ _ _ h => by cases h

theorem OnlyFaults.mono {x : Run σ α} (hx : OnlyFaults P x) (h : ∀ fault, P fault → Q fault) :
    OnlyFaults Q x :=
  fun s fault s' hfault => h fault (hx s fault s' hfault)

theorem OnlyFaults.bind {x : Run σ α} {f : α → Run σ β} (hx : OnlyFaults P x)
    (hf : ∀ a, OnlyFaults P (f a)) : OnlyFaults P (x >>= f) := by
  intro s fault s' h
  change EStateM.bind x f s = .error fault s' at h
  rw [EStateM.bind] at h
  split at h
  next a s₁ _ => exact hf a s₁ fault s' h
  next hfault =>
    cases h
    exact hx _ _ _ hfault

theorem onlyFaults_ofExcept {x : Except Fault α} (hx : Substrate.OnlyFaults P x) :
    OnlyFaults P (Run.ofExcept x : Run σ α) := by
  intro s fault s' h
  cases x with
  | ok a => cases h
  | error raised =>
    cases h
    exact hx fault rfl

end Run

/-! ## Arithmetic -/

section Arithmetic

variable (mode : Mode)

theorem panics_assert (condition : Bool) (text : String) :
    OnlyFaults IsPanic (mode.assert condition text) := by
  intro fault h
  cases mode <;> cases condition <;> cases h
  trivial

theorem panics_overflow (operation : String) (wrapped : Nat) :
    OnlyFaults IsPanic (mode.overflow operation wrapped) := by
  intro fault h
  cases mode <;> cases h
  trivial

theorem panics_add (a b : Nat) : OnlyFaults IsPanic (mode.add a b) := by
  unfold Mode.add
  split
  · exact onlyFaults_ok _
  · exact panics_overflow mode _ _

theorem panics_sub (a b : Nat) : OnlyFaults IsPanic (mode.sub a b) := by
  unfold Mode.sub
  split
  · exact onlyFaults_ok _
  · exact panics_overflow mode _ _

theorem panics_mul (a b : Nat) : OnlyFaults IsPanic (mode.mul a b) := by
  unfold Mode.mul
  split
  · exact onlyFaults_ok _
  · exact panics_overflow mode _ _

theorem panics_roundUp (x alignment offset : Nat) :
    OnlyFaults IsPanic (roundUp mode x alignment offset) :=
  (panics_assert mode _ _).bind fun _ => (panics_add mode _ _).bind fun _ =>
    (panics_sub mode _ _).bind fun _ => (panics_add mode _ _).bind fun _ => panics_sub mode _ _

theorem panics_scanned (region : Region) : OnlyFaults IsPanic (region.scanned mode) :=
  (panics_roundUp mode _ _ _).bind fun _ => onlyFaults_ok _

theorem panics_allocationSize (words : Nat) : OnlyFaults IsPanic (allocationSize mode words) :=
  (panics_add mode _ _).bind fun _ => (panics_mul mode _ _).bind fun _ => onlyFaults_ok _

theorem panics_carve (size alignment base mapped : Nat) :
    OnlyFaults IsPanic (carve mode size alignment base mapped) :=
  (panics_roundUp mode _ _ _).bind fun _ => (panics_add mode _ _).bind fun _ =>
    (panics_add mode _ _).bind fun _ => onlyFaults_ok _

theorem panics_mapAligned (pages : Pages) (size alignment : Nat) :
    OnlyFaults IsPanic (pages.mapAligned mode size alignment) := by
  refine (panics_assert mode _ _).bind fun _ => (panics_roundUp mode _ _ _).bind fun _ =>
    (panics_add mode _ _).bind fun _ => (panics_sub mode _ _).bind fun mapped => ?_
  split
  · exact onlyFaults_ok _
  · exact (panics_carve mode _ _ _ _).bind fun _ => onlyFaults_ok _

theorem panics_shouldCollect (h : Heap) (words : Nat) : OnlyFaults IsPanic (h.shouldCollect words) :=
  (panics_add h.mode _ _).bind fun _ => (panics_allocationSize h.mode _).bind fun _ =>
    (panics_add h.mode _ _).bind fun _ => onlyFaults_ok _

end Arithmetic

/-! ## Roots -/

namespace Marking

variable (mode : Mode)

theorem panics_markValue (v : Value) : Run.OnlyFaults IsPanic (markValue mode v) := by
  intro m fault m' h
  unfold markValue at h
  repeat' split at h
  all_goals cases h
  trivial

theorem panics_markValues (vs : List Value) : Run.OnlyFaults IsPanic (markValues mode vs) := by
  induction vs with
  | nil => exact Run.onlyFaults_pure ()
  | cons v vs ih => exact (panics_markValue mode v).bind fun _ => ih

theorem panics_scanPieces (memory : Nat → Word) (pieces : List Region) :
    Run.OnlyFaults IsPanic (scanPieces mode memory pieces) := by
  induction pieces with
  | nil => exact Run.onlyFaults_pure ()
  | cons piece pieces ih =>
    exact (Run.onlyFaults_ofExcept (panics_scanned mode piece)).bind fun _ =>
      (Run.onlyFaults_modify _).bind fun _ => ih

end Marking

namespace Machine

variable {γ : Type}

theorem panics_scanRegions (m : Machine γ) (regions : List Region) :
    Run.OnlyFaults IsPanic (scanRegions m regions) := by
  induction regions with
  | nil => exact Run.onlyFaults_pure ()
  | cons region regions ih => exact (Marking.panics_scanPieces m.mode _ _).bind fun _ => ih

theorem panics_markThreads (mode : Mode) (threads : List Thread) :
    Run.OnlyFaults IsPanic (markThreads mode threads) := by
  induction threads with
  | nil => exact Run.onlyFaults_pure ()
  | cons thread threads ih => exact (Marking.panics_markValues mode _).bind fun _ => ih

/-- Tracing the roots of a machine fails by a panic if it fails. -/
theorem panics_traceRoots (m : Machine γ) : Run.OnlyFaults IsPanic m.traceRoots :=
  (Marking.panics_markValues m.mode _).bind fun _ => (panics_scanRegions m _).bind fun _ =>
    (panics_markThreads m.mode _).bind fun _ => Marking.panics_markValues m.mode _

end Machine

end Substrate
