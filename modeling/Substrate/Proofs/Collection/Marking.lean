import Substrate.Proofs.Collection.Visit

/-!
# Marking

Every step of the marker marks some objects and puts those that had no mark yet on the stack, and does
nothing else: `Marking.Extends` says so, and all steps compose through it. On top of it stands the
invariant of tracing, `Marking.Traced`: a marked object that is not on the stack refers to marked
objects only. Once the stack is empty, the marked objects are exactly the reachable ones.

Objects that are marked before tracing starts are never visited. `Marking.Resumed` is the invariant for
that case; without such objects it is `Marking.Traced`.

Objects that are on the stack or have no mark are work to do. No step adds to it, and every visit takes
one object off, so that tracing ends.
-/

namespace Substrate.Marking

variable {m m' m'' : Marking} {new new' : Nat → Prop} {a : Nat} {cell : Cell}

/-- Whether the object at an address is marked. -/
def marks (m : Marking) (a : Nat) : Bool :=
  (m.space.object? a).any (·.header.marked)

theorem marks_of_object? (h : m.space.object? a = some cell) : m.marks a = cell.header.marked := by
  rw [marks, h, Option.any_some]

/-- How many objects are on the stack or, among the given ones, not marked. -/
def work (m : Marking) (objects : List Nat) : Nat :=
  m.stack.length + objects.countP fun a => !m.marks a

/-- The marker went on from one state to another by marking the given objects. -/
structure Extends (m m' : Marking) (new : Nat → Prop) : Prop where
  similar : m.space.Similar m'.space
  interior : m'.interior = m.interior
  marks : ∀ a, m'.marks a = true ↔ m.marks a = true ∨ new a
  stack : ∀ a, a ∈ m'.stack ↔ a ∈ m.stack ∨ new a ∧ m.marks a = false
  work : ∀ objects : List Nat, (∀ a, (m.space.object? a).isSome → a ∈ objects) →
    m'.work objects ≤ m.work objects

namespace Extends

theorem refl (hm : m.space.Valid) : Extends m m fun _ => False :=
  ⟨.refl hm, rfl, fun _ => by simp, fun _ => by simp, fun _ _ => Nat.le_refl _⟩

theorem congr (h : Extends m m' new) (heq : ∀ a, new a ↔ new' a) : Extends m m' new' :=
  (funext fun a => propext (heq a) : new = new') ▸ h

theorem trans (h : Extends m m' new) (h' : Extends m' m'' new') :
    Extends m m'' fun a => new a ∨ new' a := by
  refine ⟨h.similar.trans h'.similar, h'.interior.trans h.interior, fun a => ?_, fun a => ?_,
    fun objects hobjects => ?_⟩
  · rw [h'.marks, h.marks, or_assoc]
  · have hmarks := h.marks a
    rw [h'.stack, h.stack]
    grind
  · refine Nat.le_trans (h'.work objects fun a ha => hobjects a ?_) (h.work objects hobjects)
    rwa [h.similar.isSome] at ha

end Extends

/-! ## Marking one object -/

/-- An object of the list that gets its mark is work less. -/
theorem countP_lt {p q : Nat → Bool} {l : List Nat} (h : ∀ x, q x = true → p x = true)
    (ha : a ∈ l) (hp : p a = true) (hq : q a = false) : l.countP q + 1 ≤ l.countP p := by
  induction l with
  | nil => cases ha
  | cons x l ih =>
    have hle : l.countP q ≤ l.countP p := List.countP_mono_left fun x _ => h x
    rw [List.countP_cons, List.countP_cons]
    rcases List.mem_cons.mp ha with rfl | ha
    · simp only [hp, hq, if_true, Bool.false_eq_true, if_false]
      omega
    · have hx := h x
      have := ih ha
      split <;> split <;> simp_all

/-- An object that had no mark gets one and goes on the stack. -/
theorem extends_of_mark (hm : m.space.Valid) (hcell : m.space.object? a = some cell)
    (hmarks : m.marks a = false)
    (hspace : m'.space = m.space.modifyHeader a fun header => header.tryMark.2)
    (hstack : m'.stack = a :: m.stack) (hinterior : m'.interior = m.interior) :
    Extends m m' (· = a) := by
  have hview : ∀ x, m'.space.object? x
      = if x = a then some (cell.setHeader cell.header.tryMark.2) else m.space.object? x := by
    intro x
    rw [hspace]
    have hfree : (cell.setHeader cell.header.tryMark.2).header.kind ≠ .free := by
      rw [Cell.header_setHeader]
      exact Space.kind_of_object? hcell
    exact hm.object?_modifyCell hcell hfree x
  have hsame : ∀ x, x ≠ a → m'.marks x = m.marks x := by
    intro x hx
    rw [marks, marks, hview, if_neg hx]
  have hnew : m'.marks a = true := by
    rw [marks, hview, if_pos rfl]
    rfl
  refine ⟨?_, hinterior, fun x => ?_, fun x => ?_, fun objects hobjects => ?_⟩
  · rw [hspace]
    exact hm.similar_modifyHeader hcell rfl rfl
  · by_cases hx : x = a
    · simp [hx, hnew]
    · simp [hx, hsame x hx]
  · rw [hstack]
    by_cases hx : x = a
    · simp [hx, hmarks]
    · simp [hx]
  · have hcount : objects.countP (fun x => !m'.marks x) + 1 ≤ objects.countP fun x => !m.marks x := by
      refine countP_lt (fun x hx => ?_) (hobjects a (by rw [hcell]; rfl)) (by simp [hmarks])
        (by simp [hnew])
      by_cases hxa : x = a
      · simp [hxa, hnew] at hx
      · rwa [hsame x hxa] at hx
    rw [work, work, hstack, List.length_cons]
    omega

theorem extends_markObject (hm : m.space.Valid) (ha : (m.space.object? a).isSome) :
    Extends m (m.markObject a) (· = a) := by
  obtain ⟨cell, hcell⟩ := Option.isSome_iff_exists.mp ha
  have hmarks : m.marks a = (m.space.header a).marked := by
    rw [marks_of_object? hcell, Space.header_of_object? hcell]
  unfold markObject
  by_cases hmarked : (m.space.header a).marked = true
  · rw [if_pos hmarked]
    rw [hmarked] at hmarks
    refine ⟨.refl hm, rfl, fun x => ?_, fun x => ?_, fun _ _ => Nat.le_refl _⟩
    · exact ⟨.inl, fun h => h.elim id fun h => h ▸ hmarks⟩
    · refine ⟨.inl, fun h => h.elim id ?_⟩
      rintro ⟨rfl, hx⟩
      rw [hmarks] at hx
      cases hx
  · rw [if_neg hmarked]
    exact extends_of_mark hm hcell (by simpa [hmarked] using hmarks) rfl rfl rfl

/-- A change to a header that leaves kind, size and mark alone is no step at all. -/
theorem extends_of_flag (hm : m.space.Valid) (hcell : m.space.object? a = some cell)
    {f : Header → Header} (hkind : (f cell.header).kind = cell.header.kind)
    (hwords : (f cell.header).words = cell.header.words)
    (hmarked : (f cell.header).marked = cell.header.marked) :
    Extends m { m with space := m.space.modifyHeader a f } fun _ => False := by
  have hview : ∀ x, (m.space.modifyHeader a f).object? x
      = if x = a then some (cell.setHeader (f cell.header)) else m.space.object? x := by
    have hfree : (cell.setHeader (f cell.header)).header.kind ≠ .free := by
      rw [Cell.header_setHeader, hkind]
      exact Space.kind_of_object? hcell
    exact hm.object?_modifyCell hcell hfree
  have hmarks : Marking.marks { m with space := m.space.modifyHeader a f } = m.marks := by
    funext x
    by_cases hx : x = a
    · simp [marks, hview, hx, hcell, hmarked]
    · simp [marks, hview, hx]
  refine ⟨hm.similar_modifyHeader hcell hkind hwords, rfl, fun x => ?_, fun x => by simp,
    fun objects _ => ?_⟩
  · rw [hmarks]
    simp
  · simp only [work, hmarks]
    exact Nat.le_refl _

/-! ## References -/

/-- The computation comes back and marks the given objects. -/
def Marks (x : Run Marking Unit) (m : Marking) (new : Nat → Prop) : Prop :=
  ∃ m', x m = .ok () m' ∧ Extends m m' new

theorem Marks.congr {x : Run Marking Unit} (h : Marks x m new) (heq : ∀ a, new a ↔ new' a) :
    Marks x m new' := by
  obtain ⟨m', hx, hext⟩ := h
  exact ⟨m', hx, hext.congr heq⟩

theorem marks_pure (hm : m.space.Valid) : Marks (pure ()) m fun _ => False :=
  ⟨m, rfl, .refl hm⟩

/-- One computation after the other marks what both mark. -/
theorem Marks.bind {x y : Run Marking Unit} (hx : Marks x m new)
    (hy : ∀ m', Extends m m' new → Marks y m' new') :
    Marks (do x; y) m fun a => new a ∨ new' a := by
  obtain ⟨m', hrun, hext⟩ := hx
  obtain ⟨m'', hrun', hext'⟩ := hy m' hext
  refine ⟨m'', ?_, hext.trans hext'⟩
  change EStateM.bind x (fun _ => y) m = _
  rw [EStateM.bind, hrun]
  exact hrun'

theorem marks_markValue (mode : Mode) (hm : m.space.Valid) {v : Value} (hv : m.space.Accepts v) :
    Marks (markValue mode v) m v.RefersTo := by
  by_cases href : v.isHeapRef = true
  · have hobject := hv href
    have hfound : (m.space.findObject? v.address false).isSome = true := by
      rw [hm.findObject?_exact_isSome, hobject]
    refine ⟨m.markObject v.address, ?_, (extends_markObject hm hobject).congr fun a => ?_⟩
    · cases mode <;> simp [markValue, href, hfound]
    · simp [Value.RefersTo, href, eq_comm]
  · refine ⟨m, by simp [markValue, href], (Extends.refl hm).congr fun a => ?_⟩
    simp [Value.RefersTo, href]

theorem marks_markValues (mode : Mode) {vs : List Value} (hm : m.space.Valid)
    (hvs : ∀ v ∈ vs, m.space.Accepts v) :
    Marks (markValues mode vs) m fun a => ∃ v ∈ vs, v.RefersTo a := by
  induction vs generalizing m with
  | nil => exact (marks_pure hm).congr fun a => by simp
  | cons v vs ih =>
    refine (Marks.bind (marks_markValue mode hm (hvs v List.mem_cons_self)) fun m' hext =>
      ih hext.similar.valid fun v' hv' => ?_).congr fun a => by simp
    exact hext.similar.accepts.mpr (hvs v' (List.mem_cons_of_mem _ hv'))

/-! ## Ambiguous words -/

/-- The objects that some word of a list points to. -/
def Found (s : Space) (interior : Bool) (words : List Word) (a : Nat) : Prop :=
  ∃ word ∈ words, s.findObject? word.toNat interior = some a

theorem Extends.found (h : Extends m m' new) (words : List Word) (a : Nat) :
    Found m'.space m'.interior words a ↔ Found m.space m.interior words a := by
  simp only [Found, h.interior, h.similar.found]

theorem extends_markAmbiguous (hm : m.space.Valid) (word : Word) :
    Extends m (m.markAmbiguous word) (Found m.space m.interior [word]) := by
  unfold markAmbiguous
  cases hfound : m.space.findObject? word.toNat m.interior with
  | none => exact (Extends.refl hm).congr fun a => by simp [Found, hfound]
  | some object =>
    refine (extends_markObject hm (hm.isSome_of_findObject? hfound)).congr fun a => ?_
    simp [Found, hfound, eq_comm]

theorem extends_foldl_markAmbiguous (hm : m.space.Valid) (memory : Nat → Word) (addresses : List Nat) :
    Extends m (addresses.foldl (fun m address => m.markAmbiguous (memory address)) m)
      (Found m.space m.interior (addresses.map memory)) := by
  induction addresses generalizing m with
  | nil => exact (Extends.refl hm).congr fun a => by simp [Found]
  | cons x addresses ih =>
    have hfirst := extends_markAmbiguous hm (memory x)
    refine (hfirst.trans (ih hfirst.similar.valid)).congr fun a => ?_
    rw [hfirst.found]
    simp [Found]

/-- A scan of regions that it can read marks what their words point to. -/
theorem marks_scanPieces (mode : Mode) (memory : Nat → Word) {pieces : List Region}
    {reads : Region → List Nat} (hm : m.space.Valid)
    (hpieces : ∀ piece ∈ pieces, piece.scanned mode = .ok (reads piece)) :
    Marks (scanPieces mode memory pieces) m
      (Found m.space m.interior ((pieces.flatMap reads).map memory)) := by
  induction pieces generalizing m with
  | nil => exact (marks_pure hm).congr fun a => by simp [Found]
  | cons piece pieces ih =>
    have hfirst := extends_foldl_markAmbiguous hm memory (reads piece)
    obtain ⟨m', hrun, hrest⟩ := ih hfirst.similar.valid fun piece' h =>
      hpieces piece' (List.mem_cons_of_mem _ h)
    refine ⟨m', ?_, (hfirst.trans hrest).congr fun a => ?_⟩
    · rw [← hrun, scanPieces, hpieces piece List.mem_cons_self]
      rfl
    · rw [hfirst.found]
      simp only [Found, List.flatMap_cons, List.map_append, List.mem_append]
      grind

/-! ## Fields -/

section Fields

variable (mode : Mode) (hm : m.space.Valid) (hcell : m.space.object? a = some cell)
include hm hcell

theorem marks_markWord {index : Nat} (h : m.space.Accepts ⟨cell.word index⟩) :
    Marks (markWord mode a index) m (Value.RefersTo ⟨cell.word index⟩) := by
  obtain ⟨m', hrun, hext⟩ := marks_markValue mode hm h
  refine ⟨m', ?_, hext⟩
  rw [← hrun, markWord, Space.word_of_object? hcell]

theorem marks_markListed {indices : List Nat}
    (h : ∀ index ∈ indices, m.space.Accepts ⟨cell.word index⟩) :
    Marks (markListed mode a indices) m fun b =>
      ∃ index ∈ indices, Value.RefersTo ⟨cell.word index⟩ b := by
  induction indices generalizing m cell with
  | nil => exact (marks_pure hm).congr fun b => by simp
  | cons index indices ih =>
    have hfirst := marks_markWord mode hm hcell (h index List.mem_cons_self)
    have hrest : ∀ m', Extends m m' (Value.RefersTo ⟨cell.word index⟩) →
        Marks (markListed mode a indices) m' fun b =>
          ∃ index ∈ indices, Value.RefersTo ⟨cell.word index⟩ b := by
      intro m' hext
      obtain ⟨cell', hcell', hsim⟩ := hext.similar.object hcell
      have hih := ih hext.similar.valid hcell' fun index' hindex' => by
        rw [hext.similar.accepts, hsim.word]
        exact h index' (List.mem_cons_of_mem _ hindex')
      simpa only [hsim.word] using hih
    exact (hfirst.bind hrest).congr fun b => by simp

/-- Visiting an object marks what it refers to. -/
theorem marks_trace (ht : m.space.Traceable) : Marks (trace mode a) m cell.RefersTo := by
  obtain ⟨m', hrun, hext⟩ := marks_markListed mode hm hcell (ht.slots a cell hcell)
  refine ⟨m', ?_, hext⟩
  rw [trace_eq mode hcell (.inr fun word => ht.lengths a cell word hcell), hrun]

end Fields

/-! ## Tracing -/

/-- The invariant of tracing in a space with the given roots, some objects of which are stale: they have
been marked before, so that they are not visited. -/
structure Resumed (s : Space) (stale roots : Nat → Prop) (m : Marking) : Prop where
  similar : s.Similar m.space
  before : ∀ a, stale a → m.marks a = true
  named : ∀ a, roots a → m.marks a = true
  sound : ∀ a, m.marks a = true → stale a ∨ s.ReachesPast stale roots a
  pushed : ∀ a ∈ m.stack, m.marks a = true ∧ ¬ stale a
  closed : ∀ a b cell, m.marks a = true → ¬ stale a → a ∉ m.stack → s.object? a = some cell →
    cell.RefersTo b → m.marks b = true

/-- The invariant of tracing in a space with the given roots, where nothing was marked before. -/
structure Traced (s : Space) (roots : Nat → Prop) (m : Marking) : Prop where
  similar : s.Similar m.space
  named : ∀ a, roots a → m.marks a = true
  sound : ∀ a, m.marks a = true → s.Reaches roots a
  pushed : ∀ a ∈ m.stack, m.marks a = true
  closed : ∀ a b cell, m.marks a = true → a ∉ m.stack → s.object? a = some cell →
    cell.RefersTo b → m.marks b = true

section Traced

variable {s : Space} {stale roots : Nat → Prop}

theorem exists_of_marks (h : m.marks a = true) : ∃ cell, m.space.object? a = some cell := by
  obtain ⟨cell, hcell, -⟩ := (Option.any_eq_true _ _).mp h
  exact ⟨cell, hcell⟩

theorem Resumed.congr {roots' : Nat → Prop} (h : Resumed s stale roots m)
    (heq : ∀ a, roots a ↔ roots' a) : Resumed s stale roots' m :=
  (funext fun a => propext (heq a) : roots = roots') ▸ h

/-- New roots that were marked and pushed keep the invariant. -/
theorem Resumed.extends (h : Resumed s stale roots m) (hext : Extends m m' new) :
    Resumed s stale (fun a => roots a ∨ new a) m' := by
  refine ⟨h.similar.trans hext.similar, fun a ha => ?_, fun a ha => ?_, fun a ha => ?_, fun a ha => ?_,
    fun a b cell ha hstale hstack hcell href => ?_⟩
  · exact (hext.marks a).mpr (.inl (h.before a ha))
  · exact (hext.marks a).mpr (ha.imp_left (h.named a))
  · rcases (hext.marks a).mp ha with ha | ha
    · exact (h.sound a ha).imp_right (·.mono fun b hb => .root (.inl hb))
    · exact .inr (.root (.inr ha))
  · rcases (hext.stack a).mp ha with ha | ⟨ha, hunmarked⟩
    · exact ⟨(hext.marks a).mpr (.inl (h.pushed a ha).1), (h.pushed a ha).2⟩
    · refine ⟨(hext.marks a).mpr (.inr ha), fun hstale => ?_⟩
      rw [h.before a hstale] at hunmarked
      cases hunmarked
  · -- what was marked in this step is on the stack
    have hold : m.marks a = true := by
      refine ((hext.marks a).mp ha).elim id fun hnew => ?_
      refine Bool.not_eq_false _ ▸ fun hfalse => hstack ((hext.stack a).mpr (.inr ⟨hnew, hfalse⟩))
    have hclosed := h.closed a b cell hold hstale
      (fun hin => hstack ((hext.stack a).mpr (.inl hin))) hcell href
    exact (hext.marks b).mpr (.inl hclosed)

/-- Visiting the object on top of the stack keeps the invariant. -/
theorem Resumed.visit (h : Resumed s stale roots m) {rest : List Nat} (hstack : m.stack = a :: rest)
    (hcell : s.object? a = some cell) (hext : Extends { m with stack := rest } m' cell.RefersTo) :
    Resumed s stale roots m' := by
  obtain ⟨hmarked, hfresh⟩ := h.pushed a (by rw [hstack]; exact List.mem_cons_self)
  refine ⟨h.similar.trans hext.similar, fun b hb => ?_, fun b hb => ?_, fun b hb => ?_, fun b hb => ?_,
    fun b c cell' hb hstale hnot hcell' href => ?_⟩
  · exact (hext.marks b).mpr (.inl (h.before b hb))
  · exact (hext.marks b).mpr (.inl (h.named b hb))
  · rcases (hext.marks b).mp hb with hb | hb
    · exact h.sound b hb
    · exact .inr (.step ((h.sound a hmarked).resolve_left hfresh) hfresh hcell hb)
  · rcases (hext.stack b).mp hb with hb | ⟨hb, hunmarked⟩
    · have hin := h.pushed b (by rw [hstack]; exact List.mem_cons_of_mem _ hb)
      exact ⟨(hext.marks b).mpr (.inl hin.1), hin.2⟩
    · refine ⟨(hext.marks b).mpr (.inr hb), fun hstale => ?_⟩
      have hold : Marking.marks { m with stack := rest } b = true := h.before b hstale
      rw [hold] at hunmarked
      cases hunmarked
  · rw [hext.marks]
    by_cases hba : b = a
    · subst hba
      exact .inr (Option.some.inj (hcell.symm.trans hcell') ▸ href)
    · have hold : m.marks b = true := by
        refine ((hext.marks b).mp hb).elim id fun hnew => ?_
        refine Bool.not_eq_false _ ▸ fun hfalse => hnot ((hext.stack b).mpr (.inr ⟨hnew, hfalse⟩))
      refine .inl (h.closed b c cell' hold hstale (fun hin => ?_) hcell' href)
      rw [hstack, List.mem_cons] at hin
      exact hnot ((hext.stack b).mpr (.inl (hin.resolve_left hba)))

/-- With enough visits, tracing empties the stack. -/
theorem Resumed.drainWith (mode : Mode) (hs : s.Traceable) {objects : List Nat}
    (hobjects : ∀ a, (s.object? a).isSome → a ∈ objects) (fuel : Nat) :
    ∀ m, Resumed s stale roots m → m.work objects ≤ fuel → ∃ m', drainWith mode fuel m = .ok () m' ∧
      m'.stack = [] ∧ m'.interior = m.interior ∧ Resumed s stale roots m' := by
  induction fuel with
  | zero =>
    intro m h hwork
    have hstack : m.stack = [] := List.eq_nil_of_length_eq_zero (by unfold work at hwork; omega)
    exact ⟨m, by simp [Marking.drainWith, hstack], hstack, rfl, h⟩
  | succ fuel ih =>
    intro m h hwork
    cases hstack : m.stack with
    | nil => exact ⟨m, by simp [Marking.drainWith, hstack], hstack, rfl, h⟩
    | cons a rest =>
      obtain ⟨cell, hcell⟩ :=
        exists_of_marks (h.pushed a (by rw [hstack]; exact List.mem_cons_self)).1
      obtain ⟨cell₀, hcell₀, hsim⟩ := h.similar.object_back hcell
      obtain ⟨m', hrun, hext⟩ := marks_trace mode (m := { m with stack := rest }) h.similar.valid
        hcell (h.similar.traceable hs)
      have hvisit := h.visit hstack hcell₀ (hext.congr fun b => hsim.refersTo)
      have hless : m'.work objects ≤ fuel := by
        have hle := hext.work objects fun b hb => hobjects b (by rwa [h.similar.isSome] at hb)
        simp only [work, hstack, List.length_cons] at hwork hle ⊢
        have hsame : Marking.marks { m with stack := rest } = m.marks := rfl
        rw [hsame] at hle
        omega
      obtain ⟨m'', hrun', hempty, hinterior, htraced⟩ := ih m' hvisit hless
      refine ⟨m'', ?_, hempty, hinterior.trans hext.interior, htraced⟩
      simp only [Marking.drainWith, hstack, hrun, hrun']

/-- Tracing ends, with an empty stack. -/
theorem Resumed.drain (mode : Mode) (hs : s.Traceable) (h : Resumed s stale roots m) :
    ∃ m', drain mode m = .ok () m' ∧ m'.stack = [] ∧ m'.interior = m.interior ∧
      Resumed s stale roots m' := by
  have hobjects : ∀ a, (s.object? a).isSome → a ∈ m.space.objects := fun a ha =>
    h.similar.valid.mem_objects_iff.mpr (by rwa [h.similar.isSome])
  have hcount : m.space.objects.countP (fun a => !m.marks a) ≤ m.space.objects.length :=
    List.countP_le_length
  have hcapacity := m.space.length_objects_le
  refine Resumed.drainWith mode hs hobjects _ m h ?_
  simp only [work, wordBytes]
  omega

/-- Once the stack is empty, exactly the stale objects are marked and what can be reached past them. -/
theorem Resumed.marks_iff (h : Resumed s stale roots m) (hempty : m.stack = []) (a : Nat) :
    m.marks a = true ↔ stale a ∨ s.ReachesPast stale roots a := by
  refine ⟨h.sound a, ?_⟩
  rintro (hstale | hreach)
  · exact h.before a hstale
  induction hreach with
  | root hroot => exact h.named _ hroot
  | step _ hstale hcell href ih => exact h.closed _ _ _ ih hstale (by simp [hempty]) hcell href

/-- Where nothing is stale, the two invariants are one. -/
theorem traced_iff (hstale : ∀ a, ¬ stale a) : Traced s roots m ↔ Resumed s stale roots m := by
  have hsound : ∀ a, stale a ∨ s.ReachesPast stale roots a ↔ s.Reaches roots a := fun a => by
    rw [Space.reachesPast_iff hstale, or_iff_right (hstale a)]
  constructor
  · intro h
    exact ⟨h.similar, fun a ha => (hstale a ha).elim, h.named, fun a ha => (hsound a).mpr (h.sound a ha),
      fun a ha => ⟨h.pushed a ha, hstale a⟩, fun a b cell ha _ => h.closed a b cell ha⟩
  · intro h
    exact ⟨h.similar, h.named, fun a ha => (hsound a).mp (h.sound a ha), fun a ha => (h.pushed a ha).1,
      fun a b cell ha => h.closed a b cell ha (hstale a)⟩

/-- Once the stack is empty, exactly the reachable objects are marked. -/
theorem Traced.marks_iff (h : Traced s roots m) (hempty : m.stack = []) (a : Nat) :
    m.marks a = true ↔ s.Reaches roots a := by
  refine ⟨h.sound a, fun hreach => ?_⟩
  induction hreach with
  | root hroot => exact h.named _ hroot
  | step _ hcell href ih => exact h.closed _ _ _ ih (by simp [hempty]) hcell href

end Traced

end Substrate.Marking
