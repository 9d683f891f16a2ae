import Substrate.Proofs.Construct.Native
import Substrate.Proofs.Space.Ownership

/-!
# Hosts that keep their promise

A host is honest from a space on if it never offers memory that is in use, whatever becomes of the space
there (`Host.Honest`): memory is given back, or the host is asked for more. It need not be honest next to
spaces that cannot come about. So a machine that lives on its own pages is on an honest host, if its space
owns its memory (`Host.honest_plain`), and what holds of machines on honest hosts holds of machines as they
are.

In proofs it is convenient to have a host that is honest next to every space (`Host.Scrupulous`). One can
have that without loss: `Host.guarded` refuses to go on where a host could not be trusted any more, and it
cannot be told from an honest host (`Host.agrees_build` and so on).
-/

namespace Substrate

variable {α β σ : Type}

/-! ## Computations that ask for nothing -/

namespace Run

/-- However it ends, the computation leaves no more memory in use, and it asks for none. -/
def Modest (view : σ → Space) (x : Run σ α) : Prop := ∀ s, (view s).Encloses (view (left (x s)))

variable {view : σ → Space}

theorem modest_pure (a : α) : Modest view (pure a) := fun s => .refl (view s)

theorem modest_throw (fault : Fault) : Modest view (throw fault : Run σ α) := fun s => .refl (view s)

theorem modest_modify {f : σ → σ} (hf : ∀ s, (view s).Encloses (view (f s))) :
    Modest view (modify f : Run σ Unit) := hf

theorem modest_ofExcept (x : Except Fault α) : Modest view (Run.ofExcept x : Run σ α) := by
  cases x with
  | ok a => exact modest_pure a
  | error fault => exact modest_throw fault

theorem Modest.bind {x : Run σ α} {f : α → Run σ β} (hx : Modest view x)
    (hf : ∀ a, Modest view (f a)) : Modest view (x >>= f) := by
  intro s
  have hfirst := hx s
  cases hrun : x s with
  | ok a t =>
    rw [bind_of_ok hrun]
    rw [hrun] at hfirst
    exact hfirst.trans (hf a t)
  | error fault t =>
    rw [bind_of_error hrun]
    rwa [hrun] at hfirst

theorem modest_ite {c : Prop} [Decidable c] {x y : Run σ α} (hx : Modest view x)
    (hy : Modest view y) : Modest view (if c then x else y) := by
  split
  · exact hx
  · exact hy

end Run

open Run (left Modest)

/-! ## Marking -/

namespace Marking

variable (mode : Mode)

/-- Marking takes no memory. -/
abbrev Modest (x : Run Marking α) : Prop := Run.Modest Marking.space x

theorem encloses_markObject (m : Marking) (a : Nat) : m.space.Encloses (m.markObject a).space := by
  unfold markObject
  split
  · exact .refl _
  · exact Space.encloses_modifyCell _ _ _

theorem modest_markValue (v : Value) : Modest (markValue mode v) := by
  intro m
  unfold markValue
  repeat' split
  · exact encloses_markObject m _
  · exact .refl _
  · exact encloses_markObject m _
  · exact .refl _

theorem modest_markValues (vs : List Value) : Modest (markValues mode vs) := by
  induction vs with
  | nil => exact Run.modest_pure ()
  | cons v vs ih => exact (modest_markValue mode v).bind fun _ => ih

theorem encloses_markAmbiguous (m : Marking) (word : Word) :
    m.space.Encloses (m.markAmbiguous word).space := by
  unfold markAmbiguous
  split
  · exact encloses_markObject m _
  · exact .refl _

theorem encloses_foldl_markAmbiguous {ι : Type} (word : ι → Word) (indices : List ι) (m : Marking) :
    m.space.Encloses (indices.foldl (fun m i => m.markAmbiguous (word i)) m).space := by
  induction indices generalizing m with
  | nil => exact .refl _
  | cons i indices ih => exact (encloses_markAmbiguous m _).trans (ih _)

theorem modest_scanPieces (memory : Nat → Word) (pieces : List Region) :
    Modest (scanPieces mode memory pieces) := by
  induction pieces with
  | nil => exact Run.modest_pure ()
  | cons piece pieces ih =>
    exact (Run.modest_ofExcept _).bind fun addresses =>
      (Run.modest_modify fun m => encloses_foldl_markAmbiguous memory addresses m).bind fun _ => ih

theorem modest_markListed (a : Nat) (indices : List Nat) : Modest (markListed mode a indices) := by
  induction indices with
  | nil => exact Run.modest_pure ()
  | cons index indices ih => exact Run.Modest.bind (fun m => modest_markValue mode _ m) fun _ => ih

theorem modest_trace (a : Nat) : Modest (trace mode a) := by
  intro m
  have hlisted := modest_markListed mode a
    ((Layout.of (m.space.header a).kind).listedSlots (m.space.header a).words) m
  unfold trace
  dsimp only
  split
  next hrun => rwa [hrun] at hlisted
  next m₁ hrun =>
    rw [hrun] at hlisted
    split
    · exact hlisted
    split
    · exact hlisted
    · rw [markRange_eq]
      exact hlisted.trans (modest_markListed mode a _ m₁)

theorem encloses_drainWith (fuel : Nat) (m : Marking) :
    m.space.Encloses (left (drainWith mode fuel m)).space := by
  induction fuel generalizing m with
  | zero =>
    unfold drainWith
    split <;> exact .refl _
  | succ fuel ih =>
    unfold drainWith
    split
    · exact .refl _
    next a rest _ =>
      have htrace : m.space.Encloses (left (trace mode a { m with stack := rest })).space :=
        modest_trace mode a { m with stack := rest }
      split
      next hrun =>
        rw [hrun] at htrace
        exact htrace.trans (ih _)
      next hrun => rwa [hrun] at htrace

theorem modest_drain : Modest (drain mode) := fun m => encloses_drainWith mode _ m

end Marking

namespace Heap

/-- The space of a heap. -/
abbrev Modest (x : Run Heap α) : Prop := Run.Modest Heap.space x

theorem modest_onSpace {x : Run Space α} (hx : Run.Modest id x) : Modest (onSpace x) := by
  intro h
  have hspace := hx h.space
  unfold onSpace
  dsimp only
  split
  next hrun => rwa [hrun] at hspace
  next hrun => rwa [hrun] at hspace

theorem encloses_clearFlags (entries : List (Nat × Finalizer)) (m : Marking) :
    m.space.Encloses (clearFlags entries m).space := by
  unfold clearFlags
  induction entries generalizing m with
  | nil => exact .refl _
  | cons entry entries ih =>
    have hfirst : m.space.Encloses
        (m.space.modifyHeader entry.1 (·.clearFlag Header.hasFinalizer)) :=
      Space.encloses_modifyCell m.space entry.1 _
    exact .trans hfirst (ih { m with
      space := m.space.modifyHeader entry.1 (·.clearFlag Header.hasFinalizer) })

theorem encloses_queueUnreached (h : Heap) (m : Marking) :
    m.space.Encloses (left (h.queueUnreached m)).2.space := by
  have hqueued : ∀ vs : List Value, Marking.Modest (do
      Marking.markValues h.mode vs
      Marking.drain h.mode : Run Marking Unit) := fun vs =>
    (Marking.modest_markValues h.mode vs).bind fun _ => Marking.modest_drain h.mode
  refine (encloses_clearFlags (h.finalizers.filter fun entry =>
    !(m.space.header entry.1).marked) m).trans ?_
  have hmark := hqueued (((h.finalizers.filter fun entry =>
    !(m.space.header entry.1).marked).map fun entry => (Value.ofAddress entry.1, entry.2)).map (·.1))
      (clearFlags (h.finalizers.filter fun entry => !(m.space.header entry.1).marked) m)
  unfold queueUnreached
  dsimp only
  split
  next hrun => rwa [hrun] at hmark
  next hrun => rwa [hrun] at hmark

/-- A collection takes no memory, whether it is completed or not. -/
theorem modest_collect {trace : Run Marking α} (htrace : Marking.Modest trace) :
    Modest (collect trace) := by
  intro h
  have hmark : h.space.Encloses (left (({ h with space := .vacant } : Heap).markReachable trace
      (.start h.space h.options.interiorPointers))).space :=
    (htrace.bind fun _ => (Marking.modest_markValues _ _).bind fun _ =>
      (Marking.modest_markValues _ _).bind fun _ => (Marking.modest_drain _).bind fun _ =>
        Run.modest_pure _) (.start h.space h.options.interiorPointers)
  unfold collect
  dsimp only
  split
  next hrun => rwa [hrun] at hmark
  next marking hrun =>
    rw [hrun] at hmark
    have hqueue := encloses_queueUnreached { h with space := .vacant } marking
    split
    next hrun => exact hmark.trans (by rwa [hrun] at hqueue)
    next hrun =>
      rw [hrun] at hqueue
      exact (hmark.trans hqueue).trans (Space.encloses_sweep _)

end Heap

/-! ## Accesses to objects -/

namespace Space

/-- An access takes no memory. -/
abbrev Modest (x : Run Space α) : Prop := Run.Modest id x

variable (mode : Mode) (v : Value)

theorem modest_fieldSet (field : Field) (value : Value) : Modest (fieldSet mode v field value) := by
  intro s
  unfold fieldSet
  split
  · exact .refl s
  · exact .refl s
  · exact encloses_setWord s _ _ _

theorem modest_setRawWord (kind : Kind) (index : Nat) (bits : Word) :
    Modest (setRawWord mode v kind index bits) := by
  intro s
  unfold setRawWord
  split
  · exact .refl s
  · exact .refl s
  · exact encloses_setWord s _ _ _

theorem modest_vectorSet (index : Nat) (value : Value) : Modest (vectorSet mode v index value) := by
  intro s
  unfold vectorSet
  split
  · exact .refl s
  · exact .refl s
  · exact modest_fieldSet mode v _ value s

theorem encloses_fillWords (a : Nat) (bits : Word) (count index : Nat) (s : Space) :
    s.Encloses (Machine.fillWords a bits count index s) := by
  induction count generalizing index s with
  | zero => exact .refl s
  | succ count ih => exact (encloses_setWord s a index bits).trans (ih _ _)

theorem encloses_writeBytes (a count index : Nat) (bytes : List UInt8) (s : Space) :
    s.Encloses (Machine.writeBytes a count index bytes s) := by
  induction count generalizing index bytes s with
  | zero => exact .refl s
  | succ count ih => exact (encloses_setWord s a index _).trans (ih _ _ _)

end Space

namespace Machine

variable {γ : Type} {m m' : Machine γ}

/-! ## Operations that ask for nothing -/

/-- The operation takes no memory. -/
abbrev Modest (x : Op γ α) : Prop := Run.Modest (fun m : Machine γ => m.heap.space) x

theorem heap_raise (fault : Fault) (m : Machine γ) :
    (left ((raise fault : Op γ α) m)).heap = m.heap := by
  cases fault <;> rfl

theorem modest_raise (fault : Fault) : Modest (raise fault : Op γ α) := by
  intro m
  show m.heap.space.Encloses (left ((raise fault : Op γ α) m)).heap.space
  rw [heap_raise]
  exact .refl _

theorem modest_ofExcept (x : Except Fault α) : Modest (ofExcept x : Op γ α) := by
  cases x with
  | ok a => exact Run.modest_pure a
  | error fault => exact modest_raise fault

theorem modest_get : Modest (get : Op γ (Machine γ)) := fun _ => .refl _

theorem onHeap_congr {x y : Run Heap α} (h : x m.heap = y m.heap) : onHeap x m = onHeap y m := by
  unfold onHeap
  dsimp only
  rw [h]

theorem modest_onHeap {x : Run Heap α} (hx : Heap.Modest x) : Modest (onHeap x : Op γ α) := by
  intro m
  have hheap := hx m.heap
  unfold onHeap
  dsimp only
  split
  next hrun => rwa [hrun] at hheap
  next fault heap hrun =>
    rw [hrun] at hheap
    exact hheap.trans (modest_raise fault { m with heap })

theorem modest_onSpace {x : Mode → Run Space α} (hx : ∀ mode, Space.Modest (x mode)) :
    Modest (onSpace x : Op γ α) :=
  fun m => modest_onHeap (Heap.modest_onSpace (hx m.mode)) m

theorem modest_modify {f : Machine γ → Machine γ} (hf : ∀ m, (f m).heap = m.heap) :
    Modest (modify f : Op γ Unit) :=
  Run.modest_modify fun m => by rw [hf m]; exact .refl _

theorem modest_withLock (lock : Guarded) {x : Op γ α} (hx : Modest x) :
    Modest (withLock lock x) := by
  intro m
  have hinside := hx { m with held := lock :: m.held }
  unfold withLock
  split
  · exact .refl _
  · split
    next hrun => rwa [hrun] at hinside
    next hrun => rwa [hrun] at hinside

theorem modest_note (level : Level) (target message : String) :
    Modest (note level target message : Op γ Unit) :=
  modest_modify fun _ => rfl

theorem modest_expect (condition : Bool) (text : String) :
    Modest (expect condition fun _ => return text : Op γ Unit) := by
  refine Run.modest_ite (Run.modest_pure ()) (modest_get.bind fun m => ?_)
  split
  · exact (Run.modest_pure text).bind fun _ => modest_raise _
  · exact Run.modest_pure ()

theorem modest_park : Modest (park : Op γ Unit) :=
  Run.Modest.bind (modest_modify fun _ => rfl) fun _ => modest_get.bind fun _ =>
    (modest_note _ _ _).bind fun _ => Run.modest_throw _

theorem modest_safepoint : Modest (safepoint : Op γ Unit) := by
  have hresume : Modest (resume : Op γ Unit) := by
    have hsay : Modest (do
        note .trace "safepoint" ("thread " ++ toString (← get).running.id ++ " running")
        : Op γ Unit) :=
      modest_get.bind fun _ => modest_note _ _ _
    exact Run.Modest.bind (modest_modify fun _ => rfl) fun _ => modest_get.bind fun _ =>
      Run.modest_ite (modest_park.bind fun _ => hsay) hsay
  exact modest_get.bind fun _ =>
    Run.modest_ite (modest_park.bind fun _ => hresume) (Run.modest_pure ())

theorem modest_stopWorld : Modest (stopWorld : Op γ Unit) :=
  Run.Modest.bind (modest_modify fun _ => rfl) fun _ => modest_get.bind fun _ =>
    Run.modest_ite ((Run.modest_throw _).bind fun _ => modest_note _ _ _) (modest_note _ _ _)

theorem modest_traceRoots (m : Machine γ) : Marking.Modest m.traceRoots := by
  have hregions : ∀ regions : List Region, Marking.Modest (scanRegions m regions) := by
    intro regions
    induction regions with
    | nil => exact Run.modest_pure ()
    | cons region regions ih => exact (Marking.modest_scanPieces m.mode _ _).bind fun _ => ih
  have hthreads : ∀ threads : List Thread, Marking.Modest (markThreads m.mode threads) := by
    intro threads
    induction threads with
    | nil => exact Run.modest_pure ()
    | cons thread threads ih => exact (Marking.modest_markValues m.mode _).bind fun _ => ih
  exact (Marking.modest_markValues m.mode _).bind fun _ => (hregions _).bind fun _ =>
    (hthreads _).bind fun _ => Marking.modest_markValues m.mode _

/-! ### Filling in -/

theorem modest_setField (object : Value) (field : Field) (value : Value) :
    Modest (setField object field value : Op γ Unit) :=
  modest_onSpace fun mode => Space.modest_fieldSet mode object field value

theorem modest_setRaw (object : Value) (kind : Kind) (index : Nat) (bits : Word) :
    Modest (setRaw object kind index bits : Op γ Unit) :=
  modest_onSpace fun mode => Space.modest_setRawWord mode object kind index bits

theorem modest_fill (object : Value) (form : Form) : Modest (form.fill object : Op γ Unit) := by
  have hlimbs : ∀ index limbs, Modest (setLimbs object index limbs : Op γ Unit) := by
    intro index limbs
    induction limbs generalizing index with
    | nil => exact Run.modest_pure ()
    | cons limb rest ih => exact (modest_setRaw _ _ _ _).bind fun _ => ih (index + 1)
  have hslots : ∀ index slots, Modest (setSlots object index slots : Op γ Unit) := by
    intro index slots
    induction slots generalizing index with
    | nil => exact Run.modest_pure ()
    | cons slot rest ih => exact (modest_setField _ _ _).bind fun _ => ih (index + 1)
  cases form with
  | bare => exact Run.modest_pure ()
  | cons | ratio | complex => exact (modest_setField _ _ _).bind fun _ => modest_setField _ _ _
  | vector length fill =>
    refine (modest_setRaw _ _ _ _).bind fun _ => Run.modest_ite ?_ (Run.modest_pure ())
    cases length with
    | zero => exact Run.modest_pure ()
    | succ =>
      exact (modest_onSpace fun mode => Space.modest_vectorSet mode object 0 fill).bind fun _ =>
        modest_get.bind fun _ => modest_onSpace fun _ =>
          Run.modest_modify fun s => Space.encloses_fillWords _ _ _ _ s
  | string text =>
    exact (modest_onSpace fun mode => Space.modest_setRawWord mode object _ _ _).bind fun _ =>
      modest_onSpace fun _ => Run.modest_modify fun s => Space.encloses_writeBytes _ _ _ _ s
  | symbol name =>
    have hsymbol : Modest (fillSymbol object name : Op γ Unit) :=
      (modest_setField _ _ _).bind fun _ => (modest_setField _ _ _).bind fun _ =>
        (modest_setField _ _ _).bind fun _ => (modest_setField _ _ _).bind fun _ =>
          modest_setField _ _ _
    have hnumber : Modest (freshBinding : Op γ Nat) := fun _ => .refl _
    exact hsymbol.bind fun _ => hnumber.bind fun _ =>
      modest_onSpace fun mode => Space.modest_setRawWord mode object _ _ _
  | double bits =>
    exact modest_onSpace fun _ => Run.modest_modify fun s => Space.encloses_setWord s _ 0 bits
  | bignum =>
    exact (modest_setRaw _ _ _ _).bind fun _ => (modest_setRaw _ _ _ _).bind fun _ => hlimbs _ _
  | closure =>
    exact (modest_setRaw _ _ _ _).bind fun _ => (modest_setField _ _ _).bind fun _ =>
      modest_setField _ _ _
  | stream =>
    exact (modest_setRaw _ _ _ _).bind fun _ => (modest_setRaw _ _ _ _).bind fun _ =>
      (modest_setField _ _ _).bind fun _ => modest_setField _ _ _
  | record =>
    exact (modest_setRaw _ _ _ _).bind fun _ => (modest_setField _ _ _).bind fun _ => hslots _ _
  | foreign =>
    exact (modest_setRaw _ _ _ _).bind fun _ => (modest_setRaw _ _ _ _).bind fun _ =>
      modest_setField _ _ _

namespace Host

variable {host : Host} {frames : List Value} {s t : Space}

theorem modest_collectLocked (host : Host) (frames : List Value) :
    Modest (host.collectLocked frames : Op γ Stats) := by
  have htrace : ∀ m : Machine γ, Marking.Modest (host.traceRoots m frames) := fun m =>
    (modest_traceRoots m).bind fun _ => Run.modest_modify fun k => by
      rw [List.foldl_map]
      exact Marking.encloses_foldl_markAmbiguous _ _ k
  have hmark : Modest (host.markAndSweep frames : Op γ Stats) := by
    intro m
    have hcollect := modest_onHeap (γ := γ) (Heap.modest_collect (htrace { m with heap := .vacant })) m
    unfold markAndSweep
    dsimp only
    split
    next hrun => rwa [hrun] at hcollect
    next hrun => rwa [hrun] at hcollect
  exact modest_withLock _ <| modest_withLock _ <| modest_stopWorld.bind fun _ =>
    hmark.bind fun _ => Run.Modest.bind (modest_modify fun _ => rfl) fun _ => Run.modest_pure _

/-! ## Honesty -/

/-- The host never offers memory that is in use, whatever space it is asked for. -/
def Scrupulous (host : Host) : Prop := ∀ s : Space, s.Valid → (host.system s).Fresh s.Held

/-- What can become of a space on a host: it holds what it held or less, or an object is asked for. -/
inductive Moves (host : Host) (s : Space) : Space → Prop where
  | encloses {t : Space} (h : s.Encloses t) : Moves host s t
  | asked (mode : Mode) (kind : Kind) (words : Nat) :
      Moves host s ({ s with pages := host.system s }.allocate mode kind words).2

/-- One space leads to another on a host. -/
abbrev Leads (host : Host) : Space → Space → Prop := Relation.ReflTransGen (Moves host)

/-- The host never offers memory that is in use, whatever becomes of the space. -/
def Honest (host : Host) (s : Space) : Prop :=
  ∀ t, host.Leads s t → t.Valid → (host.system t).Fresh t.Held

theorem Scrupulous.honest (h : host.Scrupulous) (s : Space) : host.Honest s :=
  fun t _ => h t

theorem Honest.leads (h : host.Honest s) (hleads : host.Leads s t) : host.Honest t :=
  fun u hu => h u (hleads.trans hu)

/-- A space that owns its memory needs nobody else: its own pages are always fresh. -/
theorem honest_pages (scans : Bool) (h : s.Owned) : Host.Honest ⟨Space.pages, scans⟩ s := by
  intro t ht hvalid
  clear hvalid
  suffices howned : t.Owned from howned.fresh
  induction ht with
  | refl => exact h
  | tail _ hmove ih =>
    cases hmove with
    | encloses hencloses => exact ih.encloses hencloses
    | asked mode kind words => exact ih.allocate mode kind words

theorem honest_plain (h : s.Owned) : plain.Honest s := honest_pages false h

/-! ## Where a host cannot be trusted -/

open Classical in
/-- The host as long as it is honest. Then nothing is to be had any more. -/
noncomputable def guarded (host : Host) : Host :=
  ⟨fun s => if host.Honest s then host.system s else ⟨pageBytes, 0⟩, host.scans⟩

theorem scrupulous_guarded (host : Host) : host.guarded.Scrupulous := by
  intro s hs
  unfold guarded
  dsimp only
  split
  next hhonest => exact hhonest s .refl hs
  next => exact Ledger.fresh_refusing _

/-- The operations are the same on machines on which the host is honest. The second one only does to the
space what a host does. -/
def Agrees (host : Host) (x y : Op γ α) : Prop :=
  ∀ m, host.Leads m.heap.space (left (y m)).heap.space ∧ (host.Honest m.heap.space → x m = y m)

section

variable {x y : Op γ α}

/-- An operation that asks for nothing does not depend on the host. -/
theorem agrees_of_modest (h : Modest x) : host.Agrees x x :=
  fun m => ⟨.single (.encloses (h m)), fun _ => rfl⟩

/-- A run on an honest host is one where nobody has to be trusted, and the host goes on to be honest. -/
theorem Agrees.of_ok {a : α} (h : host.Agrees x y) (hhonest : host.Honest m.heap.space)
    (hrun : y m = .ok a m') : x m = .ok a m' ∧ host.Honest m'.heap.space := by
  obtain ⟨hleads, hsame⟩ := h m
  rw [hrun] at hleads
  exact ⟨(hsame hhonest).trans hrun, hhonest.leads hleads⟩

theorem Agrees.of_error {fault : Fault} (h : host.Agrees x y) (hhonest : host.Honest m.heap.space)
    (hrun : y m = .error fault m') : x m = .error fault m' ∧ host.Honest m'.heap.space := by
  obtain ⟨hleads, hsame⟩ := h m
  rw [hrun] at hleads
  exact ⟨(hsame hhonest).trans hrun, hhonest.leads hleads⟩

theorem Agrees.bind {f g : α → Op γ β} (h : host.Agrees x y) (hrest : ∀ a, host.Agrees (f a) (g a)) :
    host.Agrees (x >>= f) (y >>= g) := by
  intro m
  obtain ⟨hfirst, hsame⟩ := h m
  cases hrun : y m with
  | ok a m' =>
    rw [hrun] at hfirst
    obtain ⟨hleads, hlater⟩ := hrest a m'
    rw [bind_of_ok hrun]
    refine ⟨hfirst.trans hleads, fun hhonest => ?_⟩
    rw [bind_of_ok ((hsame hhonest).trans hrun), hlater (hhonest.leads hfirst)]
  | error fault m' =>
    rw [hrun] at hfirst
    rw [bind_of_error hrun]
    exact ⟨hfirst, fun hhonest => bind_of_error ((hsame hhonest).trans hrun)⟩

theorem Agrees.ite {c : Prop} [Decidable c] {x' y' : Op γ α} (h : host.Agrees x y)
    (h' : host.Agrees x' y') : host.Agrees (if c then x else x') (if c then y else y') := by
  split
  · exact h
  · exact h'

theorem Agrees.withLock (lock : Guarded) (h : host.Agrees x y) :
    host.Agrees (withLock lock x) (withLock lock y) := by
  intro m
  by_cases hheld : lock ∈ m.held
  · rw [withLock_of_held hheld, withLock_of_held hheld]
    exact ⟨.refl, fun _ => rfl⟩
  · obtain ⟨hleads, hsame⟩ := h { m with held := lock :: m.held }
    rw [withLock_apply hheld, withLock_apply hheld]
    refine ⟨?_, fun hhonest => by rw [hsame hhonest]⟩
    split
    next hrun => rwa [hrun] at hleads
    next hrun => rwa [hrun] at hleads

theorem Agrees.discard (h : host.Agrees x y) : host.Agrees (discard x) (discard y) :=
  h.bind fun _ => agrees_of_modest (Run.modest_pure ())

end

section

variable {finalize finalize' : List Value → Op γ Unit}

theorem agrees_get : host.Agrees (get : Op γ (Machine γ)) get := agrees_of_modest modest_get

theorem agrees_tryAllocate (kind : Kind) (words : Nat) :
    host.Agrees (γ := γ) (host.guarded.tryAllocate kind words) (host.tryAllocate kind words) := by
  intro m
  refine ⟨.single ?_, fun hhonest => ?_⟩
  · have hmoves : host.Moves m.heap.space _ := .asked m.heap.mode kind words
    rw [← Heap.left_tryAllocate kind words { m.heap with
      space := { m.heap.space with pages := host.system m.heap.space } }] at hmoves
    unfold tryAllocate onHeap
    dsimp only
    split
    next hrun => rwa [hrun] at hmoves
    next fault heap hrun =>
      rw [hrun] at hmoves
      rwa [heap_raise]
  · have hsystem : host.guarded.system m.heap.space = host.system m.heap.space := if_pos hhonest
    exact onHeap_congr (congrArg (fun pages => Heap.tryAllocate kind words
      { m.heap with space := { m.heap.space with pages } }) hsystem)

theorem agrees_collectLocked (frames : List Value) :
    host.Agrees (γ := γ) (host.guarded.collectLocked frames) (host.collectLocked frames) :=
  agrees_of_modest (modest_collectLocked host frames)

theorem agrees_claim (frames : List Value) (kind : Kind) (words : Nat) :
    host.Agrees (γ := γ) (host.guarded.claim frames kind words) (host.claim frames kind words) := by
  refine (agrees_tryAllocate kind words).bind fun result => ?_
  cases result with
  | some v => exact agrees_of_modest (Run.modest_pure v)
  | none =>
    refine (agrees_collectLocked frames).discard.bind fun _ =>
      (agrees_tryAllocate kind words).bind fun result => ?_
    cases result with
    | some v => exact agrees_of_modest (Run.modest_pure v)
    | none => exact agrees_get.bind fun m => agrees_of_modest (modest_raise _)

theorem agrees_allocateLocked (frames : List Value) (kind : Kind) (words : Nat) :
    host.Agrees (γ := γ) (host.guarded.allocateLocked frames kind words)
      (host.allocateLocked frames kind words) :=
  agrees_get.bind fun _ => (agrees_of_modest (modest_ofExcept _)).bind fun _ =>
    .ite ((agrees_collectLocked frames).discard.bind fun _ => agrees_claim frames kind words)
      (agrees_claim frames kind words)

/-- The same memory is taken, or the same fault is raised. -/
theorem agrees_takes (frames : List Value) (kind : Kind) (words : Nat) :
    host.Agrees (γ := γ) (withLock .heap (host.guarded.allocateLocked frames kind words))
      (withLock .heap (host.allocateLocked frames kind words)) :=
  (agrees_allocateLocked frames kind words).withLock .heap

variable (hfinalize : ∀ frames, host.Agrees (finalize frames) (finalize' frames))
include hfinalize

theorem agrees_allocateWith (frames : List Value) (kind : Kind) (words : Nat) :
    host.Agrees (host.guarded.allocateWith finalize frames kind words)
      (host.allocateWith finalize' frames kind words) := by
  have hreturn : ∀ v : Value, host.Agrees (pure v : Op γ Value) (pure v) := fun v =>
    agrees_of_modest (Run.modest_pure v)
  exact (agrees_of_modest (modest_expect _ _)).bind fun _ =>
    (agrees_of_modest modest_safepoint).bind fun _ =>
      (agrees_takes frames kind words).bind fun v => agrees_get.bind fun _ =>
        .ite ((hfinalize (v :: frames)).bind fun _ => hreturn v) (hreturn v)

theorem agrees_form (frames : List Value) (form : Form) :
    host.Agrees (form.build (host.guarded.allocateWith finalize frames))
      (form.build (host.allocateWith finalize' frames)) :=
  agrees_get.bind fun _ => (agrees_of_modest (modest_ofExcept _)).bind fun words =>
    (agrees_allocateWith hfinalize frames form.kind words).bind fun object =>
      (agrees_of_modest (modest_fill object form)).bind fun _ =>
        agrees_of_modest (Run.modest_pure object)

theorem agrees_makeSymbolWith (frames : List Value) (text : String) :
    host.Agrees (host.guarded.makeSymbolWith finalize frames text)
      (host.makeSymbolWith finalize' frames text) :=
  (agrees_form hfinalize frames (.string text)).bind fun name =>
    agrees_form hfinalize (name :: frames) (.symbol name)

theorem agrees_internWith (frames : List Value) (name : String) :
    host.Agrees (host.guarded.internWith finalize frames name)
      (host.internWith finalize' frames name) := by
  refine .withLock .symbols (agrees_get.bind fun m => ?_)
  cases m.symbols.get? name with
  | some symbol => exact agrees_of_modest (Run.modest_pure symbol)
  | none =>
    exact (agrees_makeSymbolWith hfinalize frames name).bind fun symbol =>
      agrees_of_modest (Run.Modest.bind (modest_modify fun _ => rfl) fun _ => Run.modest_pure symbol)

theorem agrees_collectWith (frames : List Value) :
    host.Agrees (host.guarded.collectWith finalize frames) (host.collectWith finalize' frames) :=
  ((agrees_collectLocked frames).withLock .heap).bind fun stats => (hfinalize frames).bind fun _ =>
    agrees_of_modest (Run.modest_pure stats)

theorem agrees_perform (frames : List Value) (object : Value) (action : Action) :
    host.Agrees (host.guarded.perform finalize frames object action)
      (host.perform finalize' frames object action) := by
  cases action with
  | collect => exact (agrees_collectWith hfinalize frames).discard
  | intern name => exact (agrees_internWith hfinalize frames name).discard
  | vector words => exact (agrees_allocateWith hfinalize frames .vector words).discard
  | report label keep => exact agrees_of_modest (modest_modify fun _ => rfl)
  | fail fault => exact agrees_of_modest (modest_raise fault)

theorem agrees_performAll (frames : List Value) (object : Value) (finalizer : Finalizer) :
    host.Agrees (host.guarded.performAll finalize frames object finalizer)
      (host.performAll finalize' frames object finalizer) := by
  induction finalizer with
  | nil => exact agrees_of_modest (Run.modest_pure ())
  | cons action rest ih => exact (agrees_perform hfinalize frames object action).bind fun _ => ih

omit hfinalize

theorem agrees_finalizeWith (fuel : Nat) (frames : List Value) :
    host.Agrees (γ := γ) (host.guarded.finalizeWith fuel frames) (host.finalizeWith fuel frames) := by
  have hheap : ∀ f : Heap → Heap, (∀ h, (f h).space = h.space) →
      Modest (modifyHeap f : Op γ Unit) := fun f hf m => by
    show m.heap.space.Encloses (f m.heap).space
    rw [hf]
    exact .refl _
  induction fuel generalizing frames with
  | zero => exact agrees_of_modest (Run.modest_pure ())
  | succ fuel ih =>
    refine agrees_get.bind fun m => ?_
    -- whether the lock is held or not, the rest is the same
    refine (fun hrest =>
      .ite ((agrees_of_modest (Run.modest_throw _)).bind fun _ => hrest) hrest) ?_
    split
    · exact agrees_of_modest (Run.modest_pure ())
    next object finalizer _ _ =>
      have htake : Modest (modifyHeap fun heap => heap.takePendingFinalizer.2 : Op γ Unit) :=
        hheap _ fun h => by unfold Heap.takePendingFinalizer; split <;> rfl
      have hfinish : Modest (modifyHeap (·.finishFinalizer object) : Op γ Unit) :=
        hheap _ fun h => rfl
      exact (agrees_of_modest htake).bind fun _ =>
        (agrees_performAll ih frames object finalizer).bind fun _ =>
          (agrees_of_modest hfinish).bind fun _ => ih frames

theorem agrees_runFinalizers (frames : List Value) :
    host.Agrees (γ := γ) (host.guarded.runFinalizers frames) (host.runFinalizers frames) :=
  agrees_get.bind fun _ => agrees_finalizeWith _ frames

end

/-! ### Entry points -/

theorem agrees_build (frames : List Value) (form : Form) :
    host.Agrees (γ := γ) (host.guarded.build frames form) (host.build frames form) :=
  agrees_form agrees_runFinalizers frames form

theorem agrees_collect (frames : List Value) :
    host.Agrees (γ := γ) (host.guarded.collect frames) (host.collect frames) :=
  agrees_collectWith agrees_runFinalizers frames

theorem agrees_makeSymbol (frames : List Value) (text : String) :
    host.Agrees (γ := γ) (host.guarded.makeSymbol frames text) (host.makeSymbol frames text) :=
  agrees_makeSymbolWith agrees_runFinalizers frames text

theorem agrees_intern (frames : List Value) (name : String) :
    host.Agrees (γ := γ) (host.guarded.intern frames name) (host.intern frames name) :=
  agrees_internWith agrees_runFinalizers frames name

theorem agrees_list (frames elements : List Value) :
    host.Agrees (γ := γ) (host.guarded.list frames elements) (host.list frames elements) := by
  have hall : ∀ elements list, host.Agrees (γ := γ) (host.guarded.consAll frames elements list)
      (host.consAll frames elements list) := by
    intro elements
    induction elements with
    | nil => exact fun list => agrees_of_modest (Run.modest_pure list)
    | cons element rest ih =>
      exact fun list => (agrees_build (list :: frames) (.cons element list)).bind ih
  exact hall elements.reverse .nil

end Host

end Machine

end Substrate
