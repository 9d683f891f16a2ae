import Substrate.Heap
import Substrate.Proofs.Collection.Marking
import Substrate.Proofs.Space.Runs

/-!
# Collections are exact

The client's roots are a sequence of calls to the marker (`RootCall`): exact references, ambiguous
words, regions scanned word by word, and drains in between. In a well-formed heap a collection always
ends, and what is left is what the objects named by these calls reach, together with the objects whose
finalizer is queued, running, or due because nothing else reaches them. The order of the calls and of
the attached finalizers makes no difference.
-/

namespace Substrate

/-! ## Scanned words -/

theorem mem_wordAddresses {count start x : Nat} :
    x ∈ wordAddresses count start ↔ ∃ i < count, x = start + i * wordBytes := by
  induction count generalizing start with
  | zero => simp [wordAddresses]
  | succ count ih =>
    simp only [wordAddresses, List.mem_cons, ih]
    constructor
    · rintro (rfl | ⟨i, hi, rfl⟩)
      · exact ⟨0, by omega, by omega⟩
      · exact ⟨i + 1, by omega, by simp only [wordBytes]; omega⟩
    · rintro ⟨i, hi, rfl⟩
      cases i with
      | zero => exact .inl (by omega)
      | succ i => exact .inr ⟨i, by omega, by simp only [wordBytes]; omega⟩

/-- The addresses of the whole words in a region. -/
def Region.words (r : Region) : List Nat :=
  wordAddresses
    ((r.stop / wordBytes * wordBytes - (r.start + wordBytes - 1) / wordBytes * wordBytes) / wordBytes)
    ((r.start + wordBytes - 1) / wordBytes * wordBytes)

theorem Region.mem_words {r : Region} {x : Nat} :
    x ∈ r.words ↔ x % wordBytes = 0 ∧ r.start ≤ x ∧ x + wordBytes ≤ r.stop := by
  simp only [Region.words, mem_wordAddresses, wordBytes]
  constructor
  · rintro ⟨i, hi, rfl⟩
    omega
  · rintro ⟨hmod, hstart, hstop⟩
    exact ⟨(x - (r.start + 8 - 1) / 8 * 8) / 8, by omega, by omega⟩

theorem Region.scanned_eq (mode : Mode) {r : Region} (hlt : r.start < r.stop)
    (hstop : r.stop + wordBytes ≤ wordLimit) : r.scanned mode = .ok r.words := by
  simp only [wordBytes, wordLimit] at hstop
  have hup : roundUp mode r.start wordBytes 0
      = .ok ((r.start + wordBytes - 1) / wordBytes * wordBytes) :=
    roundUp_pow mode (k := 3) (by decide) (by simp only [Nat.pow_eq, wordLimit]; omega)
  have hdown : roundDown r.stop wordBytes = r.stop / wordBytes * wordBytes :=
    roundDown_pow (k := 3) (by simp only [wordLimit]; omega) (by decide)
  simp only [Region.scanned, hup, hdown, ok_bind]
  rfl

theorem mem_piecesFrom {cursor stop : Nat} {holes : List Region} {piece : Region}
    (hholes : ∀ hole ∈ holes, hole.start ≤ stop) (h : piece ∈ Exclusions.piecesFrom cursor stop holes) :
    piece.start < piece.stop ∧ piece.stop ≤ stop := by
  induction holes generalizing cursor with
  | nil =>
    simp only [Exclusions.piecesFrom] at h
    split at h
    · obtain rfl := List.mem_singleton.mp h
      simp only [Region.ofRange]
      omega
    · cases h
  | cons hole holes ih =>
    have hrest := fun hole' h' => hholes hole' (List.mem_cons_of_mem hole h')
    have hfirst := hholes hole List.mem_cons_self
    simp only [Exclusions.piecesFrom] at h
    split at h
    · rcases List.mem_cons.mp h with rfl | h
      · simp only [Region.ofRange]
        omega
      · exact ih hrest h
    · exact ih hrest h

/-- Every piece that is scanned is part of the region. -/
theorem Exclusions.mem_pieces {e : Exclusions} {region piece : Region}
    (h : piece ∈ e.pieces region) : piece.start < piece.stop ∧ piece.stop ≤ region.stop := by
  refine mem_piecesFrom (fun hole hhole => ?_) h
  have hoverlap := (List.mem_filter.mp hhole).2
  simp only [Region.overlaps, Bool.and_eq_true, decide_eq_true_eq] at hoverlap
  omega

/-! ## Roots -/

/-- One call to the marker. What is read from memory is given by its contents. -/
inductive RootCall where
  | value (v : Value)
  | slot (memory : Nat → Word) (location : Nat)
  | ambiguous (word : Word)
  | scan (memory : Nat → Word) (exclusions : Exclusions) (region : Region)
  | drain

namespace RootCall

def run (mode : Mode) : RootCall → Run Marking Unit
  | value v => Marking.markValue mode v
  | slot memory location => Marking.markValue mode ⟨memory location⟩
  | ambiguous word => modify (·.markAmbiguous word)
  | scan memory exclusions region => Marking.scanRegion mode memory exclusions region
  | drain => Marking.drain mode

def runAll (mode : Mode) : List RootCall → Run Marking Unit
  | [] => pure ()
  | call :: calls => do
    call.run mode
    runAll mode calls

/-- Exact references are not stale, and scanned regions end before the address space does. -/
def Permitted (s : Space) : RootCall → Prop
  | value v => s.Accepts v
  | slot memory location => s.Accepts ⟨memory location⟩
  | ambiguous _ => True
  | scan _ _ region => region.stop + wordBytes ≤ wordLimit
  | drain => True

/-- The objects that a call names. -/
def Names (s : Space) (interior : Bool) : RootCall → Nat → Prop
  | value v, a => v.RefersTo a
  | slot memory location, a => Value.RefersTo ⟨memory location⟩ a
  | ambiguous word, a => s.findObject? word.toNat interior = some a
  | scan memory exclusions region, a => ∃ piece ∈ exclusions.pieces region, ∃ x,
      x % wordBytes = 0 ∧ piece.start ≤ x ∧ x + wordBytes ≤ piece.stop ∧
        s.findObject? (memory x).toNat interior = some a
  | drain, _ => False

end RootCall

namespace Marking

variable {s : Space} {stale roots : Nat → Prop} {m : Marking}

/-- A computation that marks objects makes them roots. -/
theorem Resumed.marks {x : Run Marking Unit} {new : Nat → Prop} (h : Resumed s stale roots m)
    (hx : Marks x m new) : ∃ m', x m = .ok () m' ∧ m'.interior = m.interior ∧
      Resumed s stale (fun a => roots a ∨ new a) m' := by
  obtain ⟨m', hrun, hext⟩ := hx
  exact ⟨m', hrun, hext.interior, h.extends hext⟩

theorem Resumed.call (mode : Mode) (hs : s.Traceable) (h : Resumed s stale roots m) {call : RootCall}
    (hcall : call.Permitted s) : ∃ m', call.run mode m = .ok () m' ∧ m'.interior = m.interior ∧
      Resumed s stale (fun a => roots a ∨ call.Names s m.interior a) m' := by
  have hm := h.similar.valid
  cases call with
  | value v => exact h.marks (marks_markValue mode hm (h.similar.accepts.mpr hcall))
  | slot memory location => exact h.marks (marks_markValue mode hm (h.similar.accepts.mpr hcall))
  | ambiguous word =>
    refine h.marks ⟨_, rfl, (extends_markAmbiguous hm word).congr fun a => ?_⟩
    simp [Found, RootCall.Names, h.similar.found]
  | scan memory exclusions region =>
    have hpieces : ∀ piece ∈ exclusions.pieces region, piece.scanned mode = .ok piece.words := by
      intro piece hpiece
      obtain ⟨hlt, hle⟩ := Exclusions.mem_pieces hpiece
      exact Region.scanned_eq mode hlt (Nat.le_trans (Nat.add_le_add_right hle _) hcall)
    refine h.marks ((marks_scanPieces mode memory hm hpieces).congr fun a => ?_)
    simp only [Found, RootCall.Names, h.similar.found, List.mem_map, List.mem_flatMap,
      Region.mem_words]
    constructor
    · rintro ⟨_, ⟨x, ⟨piece, hpiece, hx, hstart, hstop⟩, rfl⟩, hfound⟩
      exact ⟨piece, hpiece, x, hx, hstart, hstop, hfound⟩
    · rintro ⟨piece, hpiece, x, hx, hstart, hstop, hfound⟩
      exact ⟨_, ⟨x, ⟨piece, hpiece, hx, hstart, hstop⟩, rfl⟩, hfound⟩
  | drain =>
    obtain ⟨m', hrun, -, hinterior, htraced⟩ := h.drain mode hs
    exact ⟨m', hrun, hinterior, htraced.congr fun a => by simp [RootCall.Names]⟩

/-- A computation that went well goes on with its result. -/
theorem bind_eq_of_ok {σ α β : Type} {x : Run σ α} {f : α → Run σ β} {m m' : σ} {a : α}
    (h : x m = .ok a m') : (x >>= f) m = f a m' := by
  change EStateM.bind x f m = _
  rw [EStateM.bind, h]

theorem Resumed.runAll (mode : Mode) (hs : s.Traceable) {calls : List RootCall}
    (hcalls : ∀ call ∈ calls, call.Permitted s) (h : Resumed s stale roots m) :
    ∃ m', RootCall.runAll mode calls m = .ok () m' ∧ m'.interior = m.interior ∧
      Resumed s stale (fun a => roots a ∨ ∃ call ∈ calls, call.Names s m.interior a) m' := by
  induction calls generalizing roots m with
  | nil => exact ⟨m, rfl, rfl, h.congr fun a => by simp⟩
  | cons call calls ih =>
    obtain ⟨m₁, hrun, hinterior, htraced⟩ := h.call mode hs (hcalls call List.mem_cons_self)
    obtain ⟨m₂, hrun', hinterior', htraced'⟩ :=
      ih (fun call' h' => hcalls call' (List.mem_cons_of_mem _ h')) htraced
    refine ⟨m₂, ?_, hinterior'.trans hinterior, htraced'.congr fun a => ?_⟩
    · rw [RootCall.runAll, bind_eq_of_ok hrun, hrun']
    · simp [hinterior, or_assoc]

end Marking

/-! ## Sweeping after tracing -/

namespace Marking

section

variable {s : Space} {m : Marking} {a : Nat} {cell' : Cell} (h : s.Similar m.space)
include h

/-- Every survivor keeps its contents and loses its mark. -/
theorem object_sweep (hcell : m.space.sweep.2.object? a = some cell') :
    m.marks a = true ∧ cell'.header.marked = false ∧
      ∃ cell, s.object? a = some cell ∧ cell.Similar cell' := by
  rw [h.valid.object?_sweep] at hcell
  obtain ⟨cell₁, hfilter, rfl⟩ := Option.map_eq_some_iff.mp hcell
  obtain ⟨hcell₁, hmarked⟩ := Option.filter_eq_some_iff.mp hfilter
  obtain ⟨cell, hcell, hsim⟩ := h.object_back hcell₁
  exact ⟨by rw [marks_of_object? hcell₁, hmarked], rfl, cell, hcell, hsim.trans (.unmarked cell₁)⟩

/-- What is left after a sweep is what was marked. -/
theorem isSome_sweep (a : Nat) : (m.space.sweep.2.object? a).isSome ↔ m.marks a = true := by
  rw [h.valid.object?_sweep, Marking.marks, Option.isSome_map]
  cases m.space.object? a with
  | none => simp
  | some cell => cases hmarked : cell.header.marked <;> simp [hmarked]

end

variable {s : Space} {roots : Nat → Prop} {m : Marking} {a : Nat} {cell' : Cell}
  (h : Traced s roots m) (hempty : m.stack = [])
include h hempty

/-- What is left after a sweep is what the roots reach. -/
theorem Traced.isSome_sweep (a : Nat) :
    (m.space.sweep.2.object? a).isSome ↔ s.Reaches roots a :=
  (Marking.isSome_sweep h.similar a).trans (h.marks_iff hempty a)

/-- The survivors refer to survivors. -/
theorem Traced.accepts_sweep {index : Nat}
    (hcell : m.space.sweep.2.object? a = some cell') (hindex : index ∈ cell'.slots) :
    m.space.sweep.2.Accepts ⟨cell'.word index⟩ := by
  intro href
  obtain ⟨hmarked, -, cell, hcell₀, hsim⟩ := object_sweep h.similar hcell
  rw [h.isSome_sweep hempty]
  refine .step ((h.marks_iff hempty a).mp hmarked) hcell₀ ?_
  exact hsim.refersTo.mp ⟨index, hindex, href, rfl⟩

theorem Traced.traceable_sweep (hs : s.Traceable) : m.space.sweep.2.Traceable := by
  refine ⟨fun a cell' hcell index hindex => h.accepts_sweep hempty hcell hindex,
    fun a cell' word hcell hword => ?_⟩
  obtain ⟨-, -, cell, hcell₀, hsim⟩ := object_sweep h.similar hcell
  rw [hsim.kind, hsim.words] at hword
  rw [hsim.kind, hsim.words, hsim.word]
  exact hs.lengths a cell word hcell₀ hword

end Marking

/-! ## Heaps -/

namespace Heap

variable {h : Heap} {calls : List RootCall} {a : Nat}

/-- What is true of a heap between collections: no object is marked, every slot can be traced, and
finalizers belong to objects. -/
structure WellFormed (h : Heap) : Prop where
  valid : h.space.Valid
  traceable : h.space.Traceable
  unmarked : ∀ a cell, h.space.object? a = some cell → cell.header.marked = false
  finalizers : ∀ entry ∈ h.finalizers, (h.space.object? entry.1).isSome
  pending : ∀ entry ∈ h.pending, h.space.Accepts entry.1
  finalizing : ∀ v ∈ h.finalizing.toList, h.space.Accepts v

/-- What a collection has to find to go anywhere: the entries of the heap's own lists are objects.
Nothing is said about marks, nor about what the objects hold. -/
structure Intact (h : Heap) : Prop where
  valid : h.space.Valid
  finalizers : ∀ entry ∈ h.finalizers, (h.space.object? entry.1).isSome
  pending : ∀ entry ∈ h.pending, h.space.Accepts entry.1
  finalizing : ∀ v ∈ h.finalizing.toList, h.space.Accepts v

theorem WellFormed.intact (hw : h.WellFormed) : h.Intact :=
  ⟨hw.valid, hw.finalizers, hw.pending, hw.finalizing⟩

/-- The objects that the client names and those whose finalizer is queued or running. -/
def Rooted (h : Heap) (calls : List RootCall) (a : Nat) : Prop :=
  (∃ call ∈ calls, call.Names h.space h.options.interiorPointers a) ∨
    (∃ entry ∈ h.pending, entry.1.RefersTo a) ∨ ∃ v ∈ h.finalizing.toList, v.RefersTo a

/-- The objects with a finalizer that nothing else keeps alive. -/
def Due (h : Heap) (calls : List RootCall) (a : Nat) : Prop :=
  (∃ entry ∈ h.finalizers, entry.1 = a) ∧ ¬ h.space.Reaches (h.Rooted calls) a

/-- The same, where some objects are stale. -/
def DuePast (h : Heap) (stale : Nat → Prop) (calls : List RootCall) (a : Nat) : Prop :=
  (∃ entry ∈ h.finalizers, entry.1 = a) ∧
    ¬ (stale a ∨ h.space.ReachesPast stale (h.Rooted calls) a)

/-- A marker that has marked nothing yet. -/
theorem WellFormed.traced_start (hw : h.WellFormed) (interior : Bool) :
    Marking.Traced h.space (fun _ => False) (.start h.space interior) := by
  have hmarks : ∀ a, (Marking.start h.space interior).marks a = false := by
    intro a
    cases hcell : h.space.object? a with
    | none => simp [Marking.marks, Marking.start, hcell]
    | some cell => simp [Marking.marks, Marking.start, hcell, hw.unmarked a cell hcell]
  refine ⟨.refl hw.valid, fun a ha => ha.elim, fun a ha => ?_, List.forall_mem_nil _,
    fun a b cell ha => ?_⟩
  · rw [hmarks] at ha
    cases ha
  · rw [hmarks] at ha
    cases ha

/-- First everything that the roots reach is marked. -/
theorem Intact.markReachable (hi : h.Intact) (ht : h.space.Traceable) {stale : Nat → Prop}
    (hstart : Marking.Resumed h.space stale (fun _ => False)
      (.start h.space h.options.interiorPointers))
    (hcalls : ∀ call ∈ calls, call.Permitted h.space) :
    ∃ m, h.markReachable (RootCall.runAll h.mode calls)
        (.start h.space h.options.interiorPointers) = .ok () m ∧
      m.stack = [] ∧ Marking.Resumed h.space stale (h.Rooted calls) m := by
  obtain ⟨m₁, hrun₁, hinterior, htraced₁⟩ := hstart.runAll h.mode ht hcalls
  have hpending : ∀ v ∈ h.pending.map (·.1), m₁.space.Accepts v := by
    intro v hv
    obtain ⟨entry, hentry, rfl⟩ := List.mem_map.mp hv
    exact htraced₁.similar.accepts.mpr (hi.pending entry hentry)
  obtain ⟨m₂, hrun₂, -, htraced₂⟩ :=
    htraced₁.marks (Marking.marks_markValues h.mode htraced₁.similar.valid hpending)
  have hfinalizing : ∀ v ∈ h.finalizing.toList, m₂.space.Accepts v := fun v hv =>
    htraced₂.similar.accepts.mpr (hi.finalizing v hv)
  obtain ⟨m₃, hrun₃, -, htraced₃⟩ :=
    htraced₂.marks (Marking.marks_markValues h.mode htraced₂.similar.valid hfinalizing)
  obtain ⟨m₄, hrun₄, hempty, -, htraced₄⟩ := htraced₃.drain h.mode ht
  refine ⟨m₄, ?_, hempty, htraced₄.congr fun a => ?_⟩
  · rw [Heap.markReachable, Marking.bind_eq_of_ok hrun₁, Marking.bind_eq_of_ok hrun₂,
      Marking.bind_eq_of_ok hrun₃, Marking.bind_eq_of_ok hrun₄]
    rfl
  · simp [Rooted, Marking.start, or_assoc]

theorem WellFormed.markReachable (hw : h.WellFormed)
    (hcalls : ∀ call ∈ calls, call.Permitted h.space) :
    ∃ m, h.markReachable (RootCall.runAll h.mode calls)
        (.start h.space h.options.interiorPointers) = .ok () m ∧
      m.stack = [] ∧ Marking.Traced h.space (h.Rooted calls) m := by
  have hnone : ∀ a : Nat, ¬ (fun _ => False : Nat → Prop) a := fun _ => id
  obtain ⟨m, hrun, hempty, hresumed⟩ := hw.intact.markReachable hw.traceable
    ((Marking.traced_iff hnone).mp (hw.traced_start h.options.interiorPointers)) hcalls
  exact ⟨m, hrun, hempty, (Marking.traced_iff hnone).mpr hresumed⟩

/-- Flags are neither marks nor contents. -/
theorem extends_clearFlags {m : Marking} {entries : List (Nat × Finalizer)} (hm : m.space.Valid)
    (h : ∀ entry ∈ entries, (m.space.object? entry.1).isSome) :
    Marking.Extends m (clearFlags entries m) fun _ => False := by
  induction entries generalizing m with
  | nil => exact .refl hm
  | cons entry entries ih =>
    obtain ⟨cell, hcell⟩ := Option.isSome_iff_exists.mp (h entry List.mem_cons_self)
    have hfirst := Marking.extends_of_flag hm hcell
      (f := fun header => header.clearFlag Header.hasFinalizer) rfl rfl rfl
    refine (hfirst.trans (ih hfirst.similar.valid fun entry' h' => ?_)).congr fun a => by simp
    rw [hfirst.similar.isSome]
    exact h entry' (List.mem_cons_of_mem _ h')

/-- The reference to an object refers to it. -/
theorem refersTo_ofAddress {s : Space} (hs : s.Valid) (h : (s.object? a).isSome) (b : Nat) :
    (Value.ofAddress a).RefersTo b ↔ a = b := by
  obtain ⟨cell, hcell⟩ := Option.isSome_iff_exists.mp h
  obtain ⟨hpos, hmod, hlt⟩ := hs.object_address hcell
  have haddress : (Value.ofAddress a).address = a := UInt64.toNat_ofNat_of_lt' hlt
  simp [Value.RefersTo, isHeapRef_ofAddress hpos hmod hlt, haddress]

theorem accepts_ofAddress {s : Space} (hs : s.Valid) (h : (s.object? a).isSome) :
    s.Accepts (Value.ofAddress a) := by
  intro href
  rw [← (refersTo_ofAddress hs h _).mp ⟨href, rfl⟩]
  exact h

/-- With the flags of the entries cleared, references to their objects can be marked. -/
theorem accepts_queued {m : Marking} {entries : List (Nat × Finalizer)} (hm : m.space.Valid)
    (h : ∀ entry ∈ entries, (m.space.object? entry.1).isSome) {v : Value}
    (hv : v ∈ (entries.map fun entry => (Value.ofAddress entry.1, entry.2)).map (·.1)) :
    (clearFlags entries m).space.Accepts v := by
  have hflags := extends_clearFlags hm h
  simp only [List.map_map, List.mem_map] at hv
  obtain ⟨entry, hentry, rfl⟩ := hv
  refine accepts_ofAddress hflags.similar.valid ?_
  rw [hflags.similar.isSome]
  exact h entry hentry

/-- Then the objects whose finalizer is due are marked with what they reach. -/
theorem Intact.queueUnreached (hi : h.Intact) (ht : h.space.Traceable) {stale : Nat → Prop}
    {m : Marking} (hempty : m.stack = [])
    (htraced : Marking.Resumed h.space stale (h.Rooted calls) m) {k : Heap}
    (hfinalizers : k.finalizers = h.finalizers) :
    ∃ due m', due = h.finalizers.filter (fun entry => !m.marks entry.1) ∧
      k.queueUnreached m = .ok () ({ k with
        finalizers := h.finalizers.filter fun entry => m.marks entry.1
        pending := k.pending ++ due.map fun entry => (Value.ofAddress entry.1, entry.2) }, m') ∧
      m'.stack = [] ∧
      Marking.Resumed h.space stale (fun a => h.Rooted calls a ∨ h.DuePast stale calls a) m' := by
  obtain ⟨due, hdue⟩ : ∃ due, due = h.finalizers.filter fun entry => !m.marks entry.1 := ⟨_, rfl⟩
  have hlive : ∀ entry ∈ h.finalizers, (m.space.object? entry.1).isSome := by
    intro entry hentry
    rw [htraced.similar.isSome]
    exact hi.finalizers entry hentry
  have hheader : ∀ entry ∈ h.finalizers, (m.space.header entry.1).marked = m.marks entry.1 := by
    intro entry hentry
    obtain ⟨cell, hcell⟩ := Option.isSome_iff_exists.mp (hlive entry hentry)
    rw [Space.header_of_object? hcell, Marking.marks_of_object? hcell]
  have hreached : h.finalizers.filter (fun entry => (m.space.header entry.1).marked)
      = h.finalizers.filter (fun entry => m.marks entry.1) :=
    List.filter_congr hheader
  have hunreached : h.finalizers.filter (fun entry => !(m.space.header entry.1).marked) = due := by
    rw [hdue]
    exact List.filter_congr fun entry hentry => by rw [hheader entry hentry]
  have hmem : ∀ entry, entry ∈ due ↔ entry ∈ h.finalizers ∧ m.marks entry.1 = false := by
    intro entry
    rw [hdue, List.mem_filter, Bool.not_eq_true']
  have hliveDue : ∀ entry ∈ due, (m.space.object? entry.1).isSome := fun entry hentry =>
    hlive entry ((hmem entry).mp hentry).1
  have hcleared := htraced.extends (extends_clearFlags htraced.similar.valid hliveDue)
  obtain ⟨m₁, hrun₁, -, htraced₁⟩ :=
    hcleared.marks (Marking.marks_markValues k.mode hcleared.similar.valid
      fun _ => accepts_queued htraced.similar.valid hliveDue)
  obtain ⟨m₂, hrun₂, hempty₂, -, htraced₂⟩ := htraced₁.drain k.mode ht
  have hrun := (Marking.bind_eq_of_ok (f := fun _ => Marking.drain k.mode) hrun₁).trans hrun₂
  refine ⟨due, m₂, hdue, ?_, hempty₂, htraced₂.congr fun a => ?_⟩
  · simp only [Heap.queueUnreached, hfinalizers, hunreached, hreached, hrun]
  · have hnew : (∃ v ∈ (due.map fun entry => (Value.ofAddress entry.1, entry.2)).map (·.1),
        v.RefersTo a) ↔ h.DuePast stale calls a := by
      simp only [List.map_map, List.mem_map, DuePast, ← htraced.marks_iff hempty, Bool.not_eq_true]
      constructor
      · rintro ⟨_, ⟨entry, hentry, rfl⟩, href⟩
        obtain ⟨hin, hmarks⟩ := (hmem entry).mp hentry
        obtain rfl := (refersTo_ofAddress hi.valid (hi.finalizers entry hin) a).mp href
        exact ⟨⟨entry, hin, rfl⟩, hmarks⟩
      · rintro ⟨⟨entry, hin, rfl⟩, hmarks⟩
        exact ⟨_, ⟨entry, (hmem entry).mpr ⟨hin, hmarks⟩, rfl⟩,
          (refersTo_ofAddress hi.valid (hi.finalizers entry hin) _).mpr rfl⟩
    rw [hnew, or_false]

theorem WellFormed.queueUnreached (hw : h.WellFormed) {m : Marking} (hempty : m.stack = [])
    (htraced : Marking.Traced h.space (h.Rooted calls) m) {k : Heap}
    (hfinalizers : k.finalizers = h.finalizers) :
    ∃ due m', due = h.finalizers.filter (fun entry => !m.marks entry.1) ∧
      k.queueUnreached m = .ok () ({ k with
        finalizers := h.finalizers.filter fun entry => m.marks entry.1
        pending := k.pending ++ due.map fun entry => (Value.ofAddress entry.1, entry.2) }, m') ∧
      m'.stack = [] ∧
      Marking.Traced h.space (fun a => h.Rooted calls a ∨ h.Due calls a) m' := by
  have hnone : ∀ a : Nat, ¬ (fun _ => False : Nat → Prop) a := fun _ => id
  obtain ⟨due, m', hdue, hrun, hempty', hresumed⟩ := hw.intact.queueUnreached hw.traceable hempty
    ((Marking.traced_iff hnone).mp htraced) hfinalizers
  refine ⟨due, m', hdue, hrun, hempty', (Marking.traced_iff hnone).mpr (hresumed.congr fun a => ?_)⟩
  rw [DuePast, Due, Space.reachesPast_iff hnone, or_iff_right (hnone a)]

/-- What a collection leaves of a well-formed heap. -/
structure Survives (h : Heap) (calls : List RootCall) (h' : Heap) : Prop where
  wellFormed : h'.WellFormed
  live : ∀ a, (h'.space.object? a).isSome ↔
    h.space.Reaches (fun a => h.Rooted calls a ∨ h.Due calls a) a
  contents : ∀ a cell', h'.space.object? a = some cell' →
    ∃ cell, h.space.object? a = some cell ∧ cell.Similar cell'

theorem collect_eq {α : Type} {x : Run Marking α} {r : α} {m m' : Marking} {k : Heap}
    (hrun : ({ h with space := .vacant } : Heap).markReachable x
      (.start h.space h.options.interiorPointers) = .ok r m)
    (hrun' : ({ h with space := .vacant } : Heap).queueUnreached m = .ok () (k, m')) :
    Heap.collect x h = .ok (r, (k.finish m').1) (k.finish m').2 := by
  simp only [Heap.collect, hrun, hrun']

/-- A collection of a well-formed heap always ends and leaves what it should. -/
theorem WellFormed.collect (hw : h.WellFormed) (hcalls : ∀ call ∈ calls, call.Permitted h.space) :
    ∃ collection h', Heap.collect (RootCall.runAll h.mode calls) h = .ok ((), collection) h' ∧
      h.Survives calls h' := by
  obtain ⟨m, hrun, hempty, htraced⟩ := hw.markReachable hcalls
  obtain ⟨due, m', hdue, hrun', hempty', htraced'⟩ :=
    hw.queueUnreached hempty htraced (k := { h with space := .vacant }) rfl
  have hlive := htraced'.isSome_sweep hempty'
  have hrooted : ∀ v : Value, (∀ a, v.RefersTo a → h.Rooted calls a) →
      m'.space.sweep.2.Accepts v := by
    intro v hv href
    rw [hlive]
    exact .root (.inl (hv v.address ⟨href, rfl⟩))
  have hkept : ∀ entry ∈ h.finalizers, (m'.space.sweep.2.object? entry.1).isSome := by
    intro entry hentry
    rw [hlive]
    by_cases hreach : h.space.Reaches (h.Rooted calls) entry.1
    · exact hreach.mono fun a ha => .root (.inl ha)
    · exact .root (.inr ⟨⟨entry, hentry, rfl⟩, hreach⟩)
  refine ⟨_, _, collect_eq hrun hrun', ⟨htraced'.similar.valid.sweep,
    htraced'.traceable_sweep hempty' hw.traceable,
    fun a cell' hcell => (Marking.object_sweep htraced'.similar hcell).2.1, fun entry hentry => ?_,
    fun entry hentry => ?_, fun v hv => hrooted v fun a ha => .inr (.inr ⟨v, hv, ha⟩)⟩,
    hlive, fun a cell' hcell => (Marking.object_sweep htraced'.similar hcell).2.2⟩
  · exact hkept entry (List.mem_filter.mp hentry).1
  · rcases List.mem_append.mp hentry with hentry | hentry
    · exact hrooted entry.1 fun a ha => .inr (.inl ⟨entry, hentry, ha⟩)
    · obtain ⟨entry₀, hentry₀, rfl⟩ := List.mem_map.mp hentry
      rw [hdue] at hentry₀
      exact accepts_ofAddress htraced'.similar.valid.sweep
        (hkept entry₀ (List.mem_filter.mp hentry₀).1)

/-! ## The result -/

/-- The roots do not depend on the order in which they are given. -/
theorem rooted_perm {calls' : List RootCall} (hcalls : calls'.Perm calls)
    (finalizers : List (Nat × Finalizer)) :
    ({ h with finalizers } : Heap).Rooted calls' = h.Rooted calls := by
  funext a
  simp only [Rooted, hcalls.mem_iff]

theorem due_perm {calls' : List RootCall} {finalizers : List (Nat × Finalizer)}
    (hcalls : calls'.Perm calls) (hfinalizers : finalizers.Perm h.finalizers) :
    ({ h with finalizers } : Heap).Due calls' = h.Due calls := by
  funext a
  simp only [Due, rooted_perm hcalls, hfinalizers.mem_iff]

/-- Collecting a heap without marks always ends. It leaves exactly the objects that are reachable
from the client's roots, from objects whose finalizer is queued or running, and from those whose
finalizer is due since nothing else reaches them. Every survivor keeps its kind, its size and its
payload, its slots hold immediates or references to survivors, and no mark is left. The order of the
root calls and of the attached finalizers makes no difference to what survives. -/
theorem WellFormed.collection_exact (hw : h.WellFormed) (calls : List RootCall)
    (hcalls : ∀ call ∈ calls, call.Permitted h.space) :
    ∃ collection h', Heap.collect (RootCall.runAll h.mode calls) h = .ok ((), collection) h' ∧
      (∀ a, (h'.space.object? a).isSome ↔
        h.space.Reaches (fun a => h.Rooted calls a ∨ h.Due calls a) a) ∧
      (∀ a cell', h'.space.object? a = some cell' → ∃ cell, h.space.object? a = some cell ∧
        cell'.header.kind = cell.header.kind ∧ cell'.header.words = cell.header.words ∧
        (∀ i, cell'.word i = cell.word i) ∧ cell'.header.marked = false ∧
        ∀ i ∈ cell'.slots, Value.isHeapRef ⟨cell'.word i⟩ = true →
          (h'.space.object? (Value.address ⟨cell'.word i⟩)).isSome) ∧
      h'.WellFormed ∧
      ∀ calls' finalizers, calls'.Perm calls → finalizers.Perm h.finalizers →
        ∃ collection₂ h₂, Heap.collect (RootCall.runAll h.mode calls') { h with finalizers }
            = .ok ((), collection₂) h₂ ∧
          ∀ a, (h₂.space.object? a).isSome ↔ (h'.space.object? a).isSome := by
  obtain ⟨collection, h', hrun, hsurvives⟩ := hw.collect hcalls
  refine ⟨collection, h', hrun, hsurvives.live, fun a cell' hcell => ?_, hsurvives.wellFormed,
    fun calls' finalizers hperm hperm' => ?_⟩
  · obtain ⟨cell, hcell₀, hsim⟩ := hsurvives.contents a cell' hcell
    exact ⟨cell, hcell₀, hsim.kind, hsim.words, hsim.word,
      hsurvives.wellFormed.unmarked a cell' hcell,
      fun i hi => hsurvives.wellFormed.traceable.slots a cell' hcell i hi⟩
  · have hw₂ : ({ h with finalizers } : Heap).WellFormed :=
      ⟨hw.valid, hw.traceable, hw.unmarked, fun entry hentry =>
        hw.finalizers entry (hperm'.mem_iff.mp hentry), hw.pending, hw.finalizing⟩
    have hcalls₂ : ∀ call ∈ calls', call.Permitted h.space := fun call hcall =>
      hcalls call (hperm.mem_iff.mp hcall)
    obtain ⟨collection₂, h₂, hrun₂, hsurvives₂⟩ := hw₂.collect hcalls₂
    refine ⟨collection₂, h₂, hrun₂, fun a => ?_⟩
    rw [hsurvives₂.live, hsurvives.live, rooted_perm hperm, due_perm hperm hperm']

/-- A vector whose only element is the vector itself. -/
def ring : Ledger :=
  (((Ledger.start 65536).allocate .debug .fresh .vector 200).write 0x7f0000000000 0 1).write
    0x7f0000000000 1 0x7f0000000000

theorem reachable_ring : ring.Reachable := by
  refine .write (.write (.allocate (.start _) _ (Ledger.fresh_start _) rfl _) ?_ ?_ _) ?_ ?_ _
  all_goals decide +kernel

theorem object_ring {cell : Cell} (h : ring.space.object? a = some cell) :
    a = 0x7f0000000000 ∧ (cell.header, cell.slots, cell.word 0, cell.word 1)
      = (⟨.vector, false, 0, 200⟩, [1], 1, 0x7f0000000000) := by
  have hlive : a ∈ ring.live := (reachable_ring.accounts.live a).mpr (by rw [h]; rfl)
  rw [show ring.live = [0x7f0000000000] by decide +kernel] at hlive
  obtain rfl := List.mem_singleton.mp hlive
  have hcontents : (ring.space.object? 0x7f0000000000).map (fun cell =>
      (cell.header, cell.slots, cell.word 0, cell.word 1))
      = some (⟨.vector, false, 0, 200⟩, [1], 1, 0x7f0000000000) := by decide +kernel
  rw [h] at hcontents
  exact ⟨rfl, Option.some.inj hcontents⟩

/-- A heap in which nothing but its finalizer knows such a vector. -/
def ringHeap : Heap :=
  { Heap.new .debug ⟨0, 65536, .two, true⟩ with
    space := ring.space
    finalizers := [(0x7f0000000000, [])] }

theorem wellFormed_ringHeap : ringHeap.WellFormed := by
  have hobject : (ring.space.object? 0x7f0000000000).isSome := by decide +kernel
  refine ⟨reachable_ring.accounts.valid, ⟨fun a cell hcell index hindex _ => ?_,
    fun a cell word hcell hword => ?_⟩, fun a cell hcell => ?_, fun entry hentry => ?_,
    List.forall_mem_nil _, List.forall_mem_nil _⟩
  · obtain ⟨-, hcontents⟩ := object_ring hcell
    simp only [Prod.mk.injEq] at hcontents
    obtain ⟨-, hslots, -, hword⟩ := hcontents
    obtain rfl : index = 1 := by simpa [hslots] using hindex
    rw [hword]
    exact hobject
  · obtain ⟨-, hcontents⟩ := object_ring hcell
    simp only [Prod.mk.injEq] at hcontents
    obtain ⟨hheader, -, hzero, -⟩ := hcontents
    rw [hheader] at hword ⊢
    obtain rfl : word = 0 := by simpa [Layout.of, Layout.valueLengthWord?, eq_comm] using hword
    rw [hzero]
    decide
  · obtain ⟨-, hcontents⟩ := object_ring hcell
    simp only [Prod.mk.injEq] at hcontents
    rw [hcontents.1]
  · obtain rfl := List.mem_singleton.mp hentry
    exact hobject

theorem WellFormed.collection_exact_ringHeap :
    ∃ collection h', Heap.collect (RootCall.runAll .debug [.ambiguous 5, .drain]) ringHeap
        = .ok ((), collection) h' ∧
      (h'.space.object? 0x7f0000000000).isSome ∧
      (h'.space.header 0x7f0000000000).marked = false := by
  obtain ⟨collection, h', hrun, hlive, hcontents, -⟩ :=
    wellFormed_ringHeap.collection_exact [.ambiguous 5, .drain] (by simp [RootCall.Permitted])
  have hnothing : ∀ a, ¬ ringHeap.Rooted [.ambiguous 5, .drain] a := by
    rintro a (⟨call, hcall, hnames⟩ | ⟨entry, hentry, -⟩ | ⟨v, hv, -⟩)
    · have hnone : ringHeap.space.findObject? 5 true = none := by decide +kernel
      rcases List.mem_cons.mp hcall with rfl | hcall
      · exact absurd (hnone.symm.trans hnames) (by simp)
      · obtain rfl := List.mem_singleton.mp hcall
        exact hnames
    · cases hentry
    · cases hv
  have hunreached : ¬ ringHeap.space.Reaches (ringHeap.Rooted [.ambiguous 5, .drain])
      0x7f0000000000 := by
    intro hreach
    generalize ha : 0x7f0000000000 = a at hreach
    clear ha
    induction hreach with
    | root hroot => exact hnothing _ hroot
    | step _ _ _ ih => exact ih
  have hsurvives : (h'.space.object? 0x7f0000000000).isSome :=
    (hlive _).mpr (.root (.inr ⟨⟨_, List.mem_cons_self, rfl⟩, hunreached⟩))
  obtain ⟨cell', hcell'⟩ := Option.isSome_iff_exists.mp hsurvives
  obtain ⟨-, -, -, -, -, hmarked, -⟩ := hcontents _ cell' hcell'
  exact ⟨collection, h', hrun, hsurvives, by rw [Space.header_of_object? hcell', hmarked]⟩

end Heap

end Substrate
