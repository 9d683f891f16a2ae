import Substrate.Proofs.Collection.Extents
import Substrate.Proofs.Construct.Contents

/-!
# What goes on while something is built

While an object is being built, collections and finalizers may come in between. `Machine.Passes` is what
can be said of any stretch of this: the machine is still in order, and what was in use at the beginning
is there at the end, unchanged. In use is what references lead to from the roots of the machine or from
native frames that are scanned.

The relation composes, so it is enough to look at one piece at a time: a change that keeps the table of
symbols (`Passes.of_kept`), a new entry in this table (`Passes.insert`), and filling in an object that
nobody knows of yet (`Passes.fill`).
-/

namespace Substrate

/-- A finalizer that is attached or queued interns the text. -/
def Heap.Interns (h : Heap) (text : String) : Prop :=
  (∃ entry ∈ h.finalizers, Action.intern text ∈ entry.2) ∨
    ∃ entry ∈ h.pending, Action.intern text ∈ entry.2

namespace Machine

variable {γ : Type} {m m' m'' : Machine γ} {s t : Space} {a b : Nat} {v : Value} {cell cell' : Cell}
  {form : Form} {frames : List Value}

/-! ## Objects of a form -/

/-- The cell holds an object of the form. -/
structure Form.Describes (form : Form) (cell : Cell) : Prop where
  kind : cell.header.kind = form.kind
  words : cell.header.words = form.size
  limit : cell.header.words < Space.payloadLimit
  payload : ∃ index, ∀ i, cell.word i = form.word index i

theorem Form.Describes.similar (h : form.Describes cell) (hsim : cell.Similar cell') :
    form.Describes cell' := by
  obtain ⟨index, hword⟩ := h.payload
  exact ⟨hsim.kind.trans h.kind, hsim.words.trans h.words, hsim.words ▸ h.limit, index,
    fun i => (hsim.word i).trans (hword i)⟩

/-- The value refers to an object of the form. -/
structure Shows (s : Space) (v : Value) (form : Form) : Prop where
  ref : v.isHeapRef = true
  object : ∃ cell, s.object? v.address = some cell ∧ form.Describes cell

/-- The value is a symbol, and its name is a string with the given text. -/
structure Labels (s : Space) (symbol : Value) (text : String) : Prop where
  ref : symbol.isHeapRef = true
  object : ∃ cell, s.object? symbol.address = some cell ∧ cell.header.kind = .symbol ∧
    cell.header.words = (Layout.of .symbol).fixedWords ∧ Shows s ⟨cell.word 0⟩ (.string text)

theorem Shows.labels {name : Value} {text : String} (h : Shows s v (.symbol name))
    (hname : Shows s name (.string text)) : Labels s v text := by
  obtain ⟨href, cell, hcell, hform⟩ := h
  obtain ⟨_, hword⟩ := hform.payload
  have hnameWord : (⟨cell.word 0⟩ : Value) = name := congrArg Value.mk (hword 0)
  exact ⟨href, cell, hcell, hform.kind, hform.words, hnameWord ▸ hname⟩

/-- The name is the first of the values in a symbol. -/
theorem zero_mem_slots (hkind : cell.header.kind = .symbol)
    (hwords : cell.header.words = (Layout.of .symbol).fixedWords) : 0 ∈ cell.slots := by
  rw [Cell.slots, hkind, hwords]
  exact List.mem_append_left _ (by decide)

/-! ## Machines in order -/

/-- What holds of a machine whenever its client works on it: everything that a collection marks from is
an object, and so is everything that objects refer to. The texts that finalizers intern are not as long
as the address space, which a release build does not check. -/
structure Sound (m : Machine γ) : Prop extends Secure m where
  traceable : m.heap.space.Traceable
  locations : ∀ location ∈ m.roots.locations, m.heap.space.Accepts ⟨m.memory.read location⟩
  texts : m.mode = .debug ∨ ∀ text, m.heap.Interns text → (Form.string text).Fits

theorem Sound.wellFormed (hs : Sound m) : m.heap.WellFormed :=
  hs.heap.wellFormed hs.traceable

theorem Sound.valid (hs : Sound m) : m.heap.space.Valid := hs.heap.valid

/-- What a collection marks from that finds these values in native frames. -/
def callsWith (m : Machine γ) (frames : List Value) : List RootCall :=
  m.rootCalls ++ frames.map fun v => .ambiguous v.bits

theorem SameRoots.callsWith (h : SameRoots m m') (frames : List Value) :
    m'.callsWith frames = m.callsWith frames := by
  simp only [Machine.callsWith, rootCalls, threads, h.mode, h.roots, h.memory, h.symbols, h.running,
    h.waiting]

/-- References lead to the object from the roots of the machine or from the frames. -/
def InUse (m : Machine γ) (frames : List Value) (a : Nat) : Prop :=
  m.heap.space.Reaches (fun a => ∃ call ∈ m.callsWith frames,
    call.Names m.heap.space m.heap.options.interiorPointers a) a

/-- A root is given by its value or by a word that is looked at. -/
theorem mem_callsWith {call : RootCall} (h : call ∈ m.callsWith frames) :
    (∃ v, call = .value v) ∨ ∃ word, call = .ambiguous word := by
  simp only [callsWith, rootCalls, List.mem_append, List.mem_map] at h
  grind

theorem Sound.permitted (hs : Sound m) (frames : List Value) :
    ∀ call ∈ m.callsWith frames, call.Permitted m.heap.space := by
  intro call hcall
  rcases List.mem_append.mp hcall with hcall | hcall
  · exact hs.toSecure.permitted hs.locations call hcall
  · obtain ⟨v, -, rfl⟩ := List.mem_map.mp hcall
    trivial

theorem Sound.isSome_of_inUse (hs : Sound m) (h : m.InUse frames a) :
    (m.heap.space.object? a).isSome := by
  induction h with
  | root h =>
    obtain ⟨call, hcall, hnames⟩ := h
    have hpermitted := hs.permitted frames call hcall
    obtain ⟨v, rfl⟩ | ⟨word, rfl⟩ := mem_callsWith hcall
    · obtain ⟨href, rfl⟩ := hnames
      exact hpermitted href
    · exact hs.valid.isSome_of_findObject? hnames
  | step _ hcell href _ =>
    obtain ⟨index, hindex, href, rfl⟩ := href
    exact hs.traceable.slots _ _ hcell index hindex href

theorem InUse.mono {frames' : List Value} (h : m.InUse frames a) (hsub : frames ⊆ frames') :
    m.InUse frames' a := by
  refine Space.Reaches.mono (fun x hx => .root ?_) h
  obtain ⟨call, hcall, hnames⟩ := hx
  refine ⟨call, ?_, hnames⟩
  rcases List.mem_append.mp hcall with hcall | hcall
  · exact List.mem_append_left _ hcall
  · exact List.mem_append_right _ (List.map_subset _ hsub hcall)

theorem inUse_of_value (h : RootCall.value v ∈ m.rootCalls) (href : v.isHeapRef = true) :
    m.InUse frames v.address :=
  .root ⟨_, List.mem_append_left _ h, href, rfl⟩

theorem inUse_of_frame (hs : Sound m) (hv : v ∈ frames)
    (hobject : (m.heap.space.object? v.address).isSome) : m.InUse frames v.address :=
  .root ⟨_, List.mem_append_right _ (List.mem_map_of_mem hv), hs.valid.findObject?_self hobject⟩

theorem value_mem_rootCalls_of_symbol {symbol : Value} (h : symbol ∈ m.symbols.symbols) :
    RootCall.value symbol ∈ m.rootCalls := by
  simp only [rootCalls, List.mem_append, List.mem_map]
  exact .inr (.inr (.inr ⟨symbol, h, rfl⟩))

theorem value_mem_rootCalls_of_reference {thread : Thread} (hthread : thread ∈ m.threads)
    (hv : v ∈ thread.control.references) : RootCall.value v ∈ m.rootCalls := by
  simp only [rootCalls, List.mem_append, List.mem_map, List.mem_flatMap]
  exact .inr (.inr (.inl ⟨v, ⟨thread, hthread, hv⟩, rfl⟩))

theorem value_mem_rootCalls_of_location {location : Nat} (h : location ∈ m.roots.locations) :
    RootCall.value ⟨m.memory.read location⟩ ∈ m.rootCalls := by
  simp only [rootCalls, List.mem_append, List.mem_map]
  exact .inl ⟨_, ⟨location, h, rfl⟩, rfl⟩

/-! ## Symbols in the table -/

/-- Every symbol in the table has the name under which it is there. -/
def Labelled (m : Machine γ) : Prop :=
  ∀ entry ∈ m.symbols.entries, Labels m.heap.space entry.2 entry.1

/-- The object is neither a symbol in the table nor a value in one. -/
def Unlisted (m : Machine γ) (a : Nat) : Prop :=
  ∀ symbol ∈ m.symbols.symbols, symbol.isHeapRef = true → symbol.address ≠ a ∧
    ∀ cell, m.heap.space.object? symbol.address = some cell → ¬ cell.RefersTo a

/-! ## Passing on -/

/-- Nothing but the heap, the table of symbols and records of all kinds may have changed, and symbols
may have been numbered. -/
structure Around (m m' : Machine γ) : Prop where
  mode : m'.mode = m.mode
  heapMode : m'.heap.mode = m.heap.mode
  options : m'.heap.options = m.heap.options
  roots : m'.roots = m.roots
  memory : m'.memory = m.memory
  running : m'.running = m.running
  waiting : m'.waiting = m.waiting
  held : m'.held = m.held
  nextThread : m'.nextThread = m.nextThread
  numbers : m.nextBinding ≤ m'.nextBinding
  interns : ∀ text, m'.heap.Interns text → m.heap.Interns text

theorem Around.refl (m : Machine γ) : Around m m :=
  ⟨rfl, rfl, rfl, rfl, rfl, rfl, rfl, rfl, rfl, Nat.le_refl _, fun _ => id⟩

/-- Records make no difference. -/
theorem Around.noted (log : Array LogRecord) (reports : List FinalizerReport) :
    Around m { m with log, reports } :=
  ⟨rfl, rfl, rfl, rfl, rfl, rfl, rfl, rfl, rfl, Nat.le_refl _, fun _ => id⟩

theorem Around.of_heap {heap : Heap} (hmode : heap.mode = m.heap.mode)
    (hoptions : heap.options = m.heap.options)
    (hinterns : ∀ text, heap.Interns text → m.heap.Interns text) : Around m { m with heap } :=
  ⟨rfl, hmode, hoptions, rfl, rfl, rfl, rfl, rfl, rfl, Nat.le_refl _, hinterns⟩

theorem Around.trans (h : Around m m') (h' : Around m' m'') : Around m m'' :=
  ⟨h'.mode.trans h.mode, h'.heapMode.trans h.heapMode, h'.options.trans h.options,
    h'.roots.trans h.roots, h'.memory.trans h.memory, h'.running.trans h.running,
    h'.waiting.trans h.waiting, h'.held.trans h.held, h'.nextThread.trans h.nextThread,
    Nat.le_trans h.numbers h'.numbers,
    fun text htext => h.interns text (h'.interns text htext)⟩

theorem Around.threads (h : Around m m') : m'.threads = m.threads := by
  rw [Machine.threads, Machine.threads, h.running, h.waiting]

/-- The machine has gone on, and all that was in use is as it was. -/
structure Passes (frames : List Value) (m m' : Machine γ) : Prop where
  sound : Sound m'
  around : Around m m'
  symbols : m.symbols.symbols ⊆ m'.symbols.symbols
  locked : Guarded.symbols ∈ m.held → m'.symbols = m.symbols
  kept : ∀ a cell, m.InUse frames a → m.heap.space.object? a = some cell →
    ∃ cell', m'.heap.space.object? a = some cell' ∧ cell.Similar cell'
  found : ∀ a x, m.InUse frames a →
    m.heap.space.findObject? x m.heap.options.interiorPointers = some a →
      m'.heap.space.findObject? x m.heap.options.interiorPointers = some a
  made : ∀ a cell', m'.heap.space.object? a = some cell' →
    (∃ cell, m.heap.space.object? a = some cell ∧ cell.Similar cell') ∨
      ∃ form : Form, form.Describes cell'
  labelled : Labelled m → Labelled m'
  unlisted : ∀ a, m.InUse frames a → Unlisted m a → Unlisted m' a

namespace Passes

theorem refl (hs : Sound m) : Passes frames m m :=
  ⟨hs, .refl m, List.Subset.refl _, fun _ => rfl, fun _ cell _ hcell => ⟨cell, hcell, .refl cell⟩,
    fun _ _ _ => id, fun _ cell hcell => .inl ⟨cell, hcell, .refl cell⟩, id, fun _ _ => id⟩

/-- The roots are roots afterwards. -/
theorem names (h : Passes frames m m') {call : RootCall} (hcall : call ∈ m.callsWith frames)
    (hnames : call.Names m.heap.space m.heap.options.interiorPointers a) :
    ∃ call' ∈ m'.callsWith frames,
      call'.Names m'.heap.space m'.heap.options.interiorPointers a := by
  have huse : m.InUse frames a := .root ⟨call, hcall, hnames⟩
  have hlater : call.Names m'.heap.space m'.heap.options.interiorPointers a := by
    rw [h.around.options]
    obtain ⟨v, rfl⟩ | ⟨word, rfl⟩ := mem_callsWith hcall
    · exact hnames
    · exact h.found a _ huse hnames
  refine ⟨call, ?_, hlater⟩
  have hsymbols : ∀ call, call ∈ m.symbols.symbols.map RootCall.value →
      call ∈ m'.symbols.symbols.map RootCall.value := fun _ h' => List.map_subset _ h.symbols h'
  simp only [callsWith, rootCalls, List.mem_append, h.around.mode, h.around.roots,
    h.around.memory, h.around.threads] at hcall ⊢
  grind

/-- What is in use stays in use. -/
theorem inUse (h : Passes frames m m') (huse : m.InUse frames a) : m'.InUse frames a := by
  induction huse with
  | root hroot =>
    obtain ⟨call, hcall, hnames⟩ := hroot
    exact .root (h.names hcall hnames)
  | step huse hcell href ih =>
    obtain ⟨cell', hcell', hsim⟩ := h.kept _ _ huse hcell
    exact .step ih hcell' (hsim.refersTo.mpr href)

theorem trans (h : Passes frames m m') (h' : Passes frames m' m'') : Passes frames m m'' := by
  refine ⟨h'.sound, h.around.trans h'.around, List.Subset.trans h.symbols h'.symbols, fun hheld => ?_,
    fun a cell huse hcell => ?_, fun a x huse hfind => ?_, fun a cell'' hcell => ?_,
    fun hl => h'.labelled (h.labelled hl),
    fun a huse hu => h'.unlisted a (h.inUse huse) (h.unlisted a huse hu)⟩
  · exact (h'.locked (h.around.held ▸ hheld)).trans (h.locked hheld)
  · obtain ⟨cell', hcell', hsim⟩ := h.kept a cell huse hcell
    obtain ⟨cell'', hcell'', hsim'⟩ := h'.kept a cell' (h.inUse huse) hcell'
    exact ⟨cell'', hcell'', hsim.trans hsim'⟩
  · have hlater := h'.found a x (h.inUse huse)
    rw [h.around.options] at hlater
    exact hlater (h.found a x huse hfind)
  · obtain ⟨cell', hcell', hsim'⟩ | hmade := h'.made a cell'' hcell
    · obtain ⟨cell, hcell, hsim⟩ | ⟨form, hform⟩ := h.made a cell' hcell'
      · exact .inl ⟨cell, hcell, hsim.trans hsim'⟩
      · exact .inr ⟨form, hform.similar hsim'⟩
    · exact .inr hmade

/-- With fewer frames less is in use. -/
theorem mono {frames' : List Value} (h : Passes frames' m m') (hsub : frames ⊆ frames') :
    Passes frames m m' :=
  ⟨h.sound, h.around, h.symbols, h.locked, fun a cell huse => h.kept a cell (huse.mono hsub),
    fun a x huse => h.found a x (huse.mono hsub), h.made, h.labelled,
    fun a huse => h.unlisted a (huse.mono hsub)⟩

theorem accepts (h : Passes frames m m') (hs : Sound m)
    (huse : v.isHeapRef = true → m.InUse frames v.address) : m'.heap.space.Accepts v := by
  intro href
  obtain ⟨cell, hcell⟩ := Option.isSome_iff_exists.mp (hs.isSome_of_inUse (huse href))
  obtain ⟨cell', hcell', -⟩ := h.kept _ cell (huse href) hcell
  exact Option.isSome_of_eq_some hcell'

theorem shows (h : Passes frames m m') (huse : m.InUse frames v.address)
    (hshows : Shows m.heap.space v form) : Shows m'.heap.space v form := by
  obtain ⟨href, cell, hcell, hform⟩ := hshows
  obtain ⟨cell', hcell', hsim⟩ := h.kept _ cell huse hcell
  exact ⟨href, cell', hcell', hform.similar hsim⟩

end Passes

/-! ## Pieces -/

section

variable (hs : Sound m) (hw : m'.heap.WellFormed) (haround : Around m m')
include hs hw haround

/-- If what was in use is still there, then the machine is still in order. -/
theorem Sound.of_kept (hsymbols : ∀ symbol ∈ m'.symbols.symbols,
      symbol ∈ m.symbols.symbols ∨ m'.heap.space.Accepts symbol)
    (hkept : ∀ a, m.InUse frames a → (m'.heap.space.object? a).isSome) : Sound m' := by
  refine ⟨⟨hw.rested, ?_, fun thread hthread => ?_, fun symbol hsymbol => ?_⟩, hw.traceable,
    fun location hlocation href => ?_, ?_⟩
  · rw [haround.heapMode, haround.mode, hs.mode]
  · rw [haround.threads] at hthread
    exact ControlStack.holds_iff.mpr fun v hv href =>
      hkept _ (inUse_of_value (value_mem_rootCalls_of_reference hthread hv) href)
  · obtain hold | hnew := hsymbols symbol hsymbol
    · exact fun href => hkept _ (inUse_of_value (value_mem_rootCalls_of_symbol hold) href)
    · exact hnew
  · rw [haround.roots] at hlocation
    rw [haround.memory] at href ⊢
    exact hkept _ (inUse_of_value (value_mem_rootCalls_of_location hlocation) href)
  · rw [haround.mode]
    exact hs.texts.imp_right fun hfit text htext => hfit text (haround.interns text htext)

/-- The symbols in the table are in use. So with the same table they keep their names. -/
theorem Passes.of_kept (hsymbols : m'.symbols = m.symbols)
    (hkept : ∀ a cell, m.InUse frames a → m.heap.space.object? a = some cell →
      ∃ cell', m'.heap.space.object? a = some cell' ∧ cell.Similar cell')
    (hfound : ∀ a x, m.InUse frames a →
      m.heap.space.findObject? x m.heap.options.interiorPointers = some a →
        m'.heap.space.findObject? x m.heap.options.interiorPointers = some a)
    (hmade : ∀ a cell', m'.heap.space.object? a = some cell' →
      (∃ cell, m.heap.space.object? a = some cell ∧ cell.Similar cell') ∨
        ∃ form : Form, form.Describes cell') : Passes frames m m' := by
  have hsome : ∀ a, m.InUse frames a → (m'.heap.space.object? a).isSome := by
    intro a huse
    obtain ⟨cell, hcell⟩ := Option.isSome_iff_exists.mp (hs.isSome_of_inUse huse)
    obtain ⟨cell', hcell', -⟩ := hkept a cell huse hcell
    exact Option.isSome_of_eq_some hcell'
  have hlisted : ∀ symbol ∈ m.symbols.symbols, symbol.isHeapRef = true →
      m.InUse frames symbol.address := fun symbol hsymbol href =>
    inUse_of_value (value_mem_rootCalls_of_symbol hsymbol) href
  refine ⟨hs.of_kept hw haround (fun symbol hsymbol => .inl (hsymbols ▸ hsymbol)) hsome, haround,
    hsymbols ▸ List.Subset.refl _, fun _ => hsymbols, hkept, hfound, hmade,
    fun hl entry hentry => ?_, fun _ _ hu symbol hsymbol href => ?_⟩
  · rw [hsymbols] at hentry
    obtain ⟨href, cell, hcell, hkind, hwords, hname, named, hnamed, hform⟩ := hl entry hentry
    have huse := hlisted entry.2 (List.mem_map_of_mem hentry) href
    obtain ⟨cell', hcell', hsim⟩ := hkept _ cell huse hcell
    obtain ⟨named', hnamed', hsim'⟩ := hkept _ named
      (.step huse hcell ⟨0, zero_mem_slots hkind hwords, hname, rfl⟩) hnamed
    have hword := hsim.word 0
    exact ⟨href, cell', hcell', hsim.kind.trans hkind, hsim.words.trans hwords, hword ▸ hname,
      named', hword ▸ hnamed', hform.similar hsim'⟩
  · rw [hsymbols] at hsymbol
    obtain ⟨hne, hrefers⟩ := hu symbol hsymbol href
    refine ⟨hne, fun cell' hcell' => ?_⟩
    obtain ⟨cell, hcell⟩ :=
      Option.isSome_iff_exists.mp (hs.isSome_of_inUse (hlisted symbol hsymbol href))
    obtain ⟨cell₁, hcell₁, hsim⟩ := hkept _ cell (hlisted symbol hsymbol href) hcell
    cases hcell'.symm.trans hcell₁
    exact fun hto => hrefers cell hcell (hsim.refersTo.mp hto)

/-- The objects are the same, and searches come to the same. -/
theorem Passes.of_same (hsymbols : m'.symbols = m.symbols)
    (hobjects : ∀ a, m'.heap.space.object? a = m.heap.space.object? a)
    (hfound : ∀ x interior, m'.heap.space.findObject? x interior
      = m.heap.space.findObject? x interior) : Passes frames m m' :=
  .of_kept hs hw haround hsymbols
    (fun a cell _ hcell => ⟨cell, (hobjects a).trans hcell, .refl cell⟩)
    (fun _ x _ hfind => (hfound x _).trans hfind)
    fun a cell hcell => .inl ⟨cell, (hobjects a).symm.trans hcell, .refl cell⟩

end

/-- The heap is the same. -/
theorem Passes.of_heap (hs : Sound m) (haround : Around m m') (hheap : m'.heap = m.heap)
    (hsymbols : m'.symbols = m.symbols) : Passes frames m m' :=
  .of_same hs (hheap ▸ hs.wellFormed) haround hsymbols (fun _ => by rw [hheap])
    fun _ _ => by rw [hheap]

/-- A lock that is let go again makes no difference. -/
theorem Passes.unlocked {lock : Guarded}
    (h : Passes frames { m with held := lock :: m.held } m') :
    Passes frames m { m' with held := m'.held.erase lock } :=
  ⟨⟨⟨h.sound.heap, h.sound.mode, h.sound.control, h.sound.symbols⟩, h.sound.traceable,
      h.sound.locations, h.sound.texts⟩,
    ⟨h.around.mode, h.around.heapMode, h.around.options, h.around.roots, h.around.memory,
      h.around.running, h.around.waiting, by simp [h.around.held], h.around.nextThread,
      h.around.numbers, h.around.interns⟩,
    h.symbols, fun hheld => h.locked (List.mem_cons_of_mem _ hheld), h.kept, h.found, h.made,
    h.labelled, h.unlisted⟩

theorem Sound.locked (hs : Sound m) (lock : Guarded) :
    Sound { m with held := lock :: m.held } :=
  ⟨⟨hs.heap, hs.mode, hs.control, hs.symbols⟩, hs.traceable, hs.locations, hs.texts⟩

/-! ### A new symbol -/

theorem get?_eq_none {table : SymbolTable} {name : String} (h : table.get? name = none)
    {entry : String × Value} (hentry : entry ∈ table.entries) : entry.1 ≠ name := by
  have hall := List.lookup_eq_none_iff.mp h entry hentry
  rintro rfl
  simp at hall

/-- A name that is new comes first. -/
theorem symbols_insert {table : SymbolTable} {name : String} (h : table.get? name = none)
    (symbol : Value) : (table.insert name symbol).entries = (name, symbol) :: table.entries ∧
      (table.insert name symbol).symbols = symbol :: table.symbols := by
  have hentries : (table.insert name symbol).entries = (name, symbol) :: table.entries := by
    refine congrArg ((name, symbol) :: ·) (List.filter_eq_self.mpr fun entry hentry => ?_)
    simpa using get?_eq_none h hentry
  refine ⟨hentries, ?_⟩
  rw [SymbolTable.symbols, hentries]
  rfl

/-- A symbol that was made while the table was held is put there. -/
theorem Passes.insert {symbol : Value} {text : String}
    (hfree : Guarded.symbols ∉ m.held)
    (h : Passes frames { m with held := .symbols :: m.held } m')
    (hnone : m.symbols.get? text = none) (hlabels : Labels m'.heap.space symbol text)
    (hfresh : ∀ a, m.InUse frames a → a ≠ symbol.address ∧
      ∀ cell, m'.heap.space.object? symbol.address = some cell → ¬ cell.RefersTo a) :
    Passes frames m { m' with
      symbols := m'.symbols.insert text symbol, held := m'.held.erase .symbols } := by
  have htable : m'.symbols = m.symbols := h.locked List.mem_cons_self
  rw [← htable] at hnone
  obtain ⟨hentries, hsymbols⟩ := symbols_insert hnone symbol
  have haround := h.unlocked.around
  refine ⟨⟨⟨h.sound.heap, h.sound.mode, h.sound.control, fun x hx => ?_⟩, h.sound.traceable,
      h.sound.locations, h.sound.texts⟩, ⟨haround.mode, haround.heapMode, haround.options,
      haround.roots, haround.memory, haround.running, haround.waiting, haround.held,
      haround.nextThread, haround.numbers, haround.interns⟩, ?_,
    fun hheld => absurd hheld hfree, h.kept, h.found, h.made, fun hl entry hentry => ?_,
    fun a huse hu x hx href => ?_⟩
  · rw [hsymbols] at hx
    obtain rfl | hx := List.mem_cons.mp hx
    · obtain ⟨cell, hcell, -⟩ := hlabels.object
      exact fun _ => Option.isSome_of_eq_some hcell
    · exact h.sound.symbols x hx
  · rw [hsymbols, htable]
    exact List.subset_cons_self _ _
  · rw [hentries] at hentry
    obtain rfl | hentry := List.mem_cons.mp hentry
    · exact hlabels
    · exact h.labelled hl entry hentry
  · rw [hsymbols] at hx
    obtain rfl | hx := List.mem_cons.mp hx
    · obtain ⟨hne, hrefers⟩ := hfresh a huse
      exact ⟨hne.symm, hrefers⟩
    · exact h.unlisted a huse hu x hx href

/-! ### Filling in -/

/-- A value slot of an object holds a part of its form, or no reference. -/
theorem Form.Describes.slot_cases (h : form.Describes cell) {i : Nat} (hi : i ∈ cell.slots) :
    (⟨cell.word i⟩ : Value) ∈ form.parts ∨ (⟨cell.word i⟩ : Value).isHeapRef = false := by
  obtain ⟨hkind, hwords, -, index, hword⟩ := h
  rw [Cell.mem_slots, hkind, hwords] at hi
  rw [hword]
  cases form with
  | bare kind words => exact .inr (by simp [Form.word, Form.payload]; decide)
  | vector length fill =>
    have hrange : 1 ≤ i ∧ i < 1 + length := by
      simp [Form.kind, Form.size, Form.tail?, Layout.of, Layout.valueLengthWord?,
        Layout.room] at hi
      omega
    obtain ⟨j, rfl⟩ : ∃ j, i = j + 1 := ⟨i - 1, by omega⟩
    have hj : j < length := by omega
    exact .inl (by simp [Form.word, Form.payload, Form.parts, hj])
  | record type slots =>
    have hrange : i = 0 ∨ 2 ≤ i ∧ i < 2 + slots.length := by
      simp [Form.kind, Form.size, Form.tail?, Layout.of, Layout.valueLengthWord?,
        Layout.room] at hi
      omega
    obtain rfl | hrange := hrange
    · exact .inl (by simp [Form.word, Form.payload, Form.parts])
    · obtain ⟨j, rfl⟩ : ∃ j, i = j + 2 := ⟨i - 2, by omega⟩
      have hj : j < slots.length := by omega
      refine .inl (List.mem_cons_of_mem _ ?_)
      simp only [Form.word, Form.payload, List.getD_cons_succ]
      simp only [List.getD_eq_getElem?_getD, List.getElem?_map, List.getElem?_eq_getElem hj,
        Option.map_some, Option.getD_some]
      exact List.getElem_mem hj
  | symbol name =>
    simp [Form.kind, Layout.of, Layout.valueLengthWord?] at hi
    obtain ⟨rfl | rfl | rfl | rfl | rfl, -⟩ := hi
    · exact .inl List.mem_cons_self
    all_goals exact .inr (by simp [Form.word, Form.payload]; decide)
  | foreign address size tag =>
    simp [Form.kind, Layout.of, Layout.valueLengthWord?] at hi
    exact .inl (by simp [Form.word, Form.payload, Form.parts, hi])
  | string | double | bignum =>
    simp [Form.kind, Layout.of, Layout.valueLengthWord?] at hi
  | cons | ratio | complex | closure | stream =>
    simp [Form.kind, Layout.of, Layout.valueLengthWord?] at hi
    obtain ⟨rfl | rfl, -⟩ := hi
    all_goals exact .inl (by simp [Form.word, Form.payload, Form.parts])

/-- A stored length never exceeds what there is room for. -/
theorem Form.Describes.length_le_room (h : form.Describes cell) {word : Nat}
    (hlength : (Layout.of cell.header.kind).valueLengthWord? cell.header.words = some word) :
    (cell.word word).toNat ≤ (Layout.of cell.header.kind).room cell.header.words := by
  obtain ⟨hkind, hwords, -, index, hword⟩ := h
  have hmod : ∀ n, (UInt64.ofNat n).toNat ≤ n := fun n => Nat.mod_le n _
  rw [hkind, hwords] at hlength ⊢
  rw [hword]
  cases form with
  | bare kind words => simp [Form.word, Form.payload]
  | vector length fill =>
    simp [Form.kind, Layout.of, Layout.valueLengthWord?] at hlength
    obtain ⟨-, rfl⟩ := hlength
    exact Nat.le_trans (hmod length) (Nat.le_of_eq (Nat.add_sub_cancel_left 1 length).symm)
  | record type slots =>
    simp [Form.kind, Layout.of, Layout.valueLengthWord?] at hlength
    obtain ⟨-, rfl⟩ := hlength
    exact Nat.le_trans (hmod slots.length)
      (Nat.le_of_eq (Nat.add_sub_cancel_left 2 slots.length).symm)
  | _ => simp [Form.kind, Layout.of, Layout.valueLengthWord?] at hlength

section

variable {header : Header} {f g : Nat → Word}

section

variable (hold : m.Holds v header f) (hnew : m'.Holds v header g)
  (helse : Elsewhere m m' v.address)
include hold hnew helse

/-- Filling in an object changes no header. -/
theorem Elsewhere.sameHeader (hcell : m.heap.space.object? a = some cell) :
    ∃ cell', m'.heap.space.object? a = some cell' ∧ cell'.header = cell.header := by
  obtain ⟨old, hold, hheader, -⟩ := hold.has.object
  obtain ⟨new, hnew, hheader', -⟩ := hnew.has.object
  by_cases ha : a = v.address
  · obtain rfl : old = cell := Option.some.inj (hold.symm.trans (ha ▸ hcell))
    exact ⟨new, ha ▸ hnew, hheader'.trans hheader.symm⟩
  · exact ⟨cell, (helse.space.objects a ha).trans hcell, rfl⟩

theorem Elsewhere.isSome (a : Nat) :
    (m'.heap.space.object? a).isSome = (m.heap.space.object? a).isSome := by
  obtain ⟨old, hold, -⟩ := hold.has.object
  obtain ⟨new, hnew, -⟩ := hnew.has.object
  by_cases ha : a = v.address
  · rw [ha, hold, hnew, Option.isSome_some, Option.isSome_some]
  · rw [helse.space.objects a ha]

theorem Elsewhere.found (x : Nat) (interior : Bool) :
    m'.heap.space.findObject? x interior = m.heap.space.findObject? x interior := by
  refine hold.has.valid.findObject?_congr hnew.has.valid (helse.isSome hold hnew) (fun a ha => ?_) x
    interior
  obtain ⟨cell, hcell⟩ := Option.isSome_iff_exists.mp ha
  obtain ⟨cell', hcell', hheader⟩ := helse.sameHeader hold hnew hcell
  simp only [Space.extent, helse.space.blockIndex, Space.header_of_object? hcell,
    Space.header_of_object? hcell', hheader]

/-- A heap at rest is at rest when an object was filled in. -/
theorem Elsewhere.keeps (hr : m.heap.Rested) : m.heap.Keeps m'.heap := by
  have hunmarked : ∀ x cell, m'.heap.space.object? x = some cell → cell.header.marked = false := by
    intro x cell' hcell'
    obtain ⟨cell, hcell⟩ := Option.isSome_iff_exists.mp
      ((helse.isSome hold hnew x).symm.trans (Option.isSome_of_eq_some hcell'))
    obtain ⟨cell₁, hcell₁, hheader⟩ := helse.sameHeader hold hnew hcell
    obtain rfl : cell' = cell₁ := Option.some.inj (hcell'.symm.trans hcell₁)
    rw [hheader]
    exact hr.unmarked x cell hcell
  have hretains : m.heap.space.Retains m'.heap.space := by
    intro x cell hcell
    obtain ⟨cell', hcell', hheader⟩ := helse.sameHeader hold hnew hcell
    exact ⟨cell', hcell', hheader ▸ rfl, hheader ▸ rfl⟩
  have hheap : m'.heap = { m.heap with space := m'.heap.space } := congrArg heap helse.rest
  rw [hheap]
  exact hr.withSpace hnew.has.valid hunmarked hretains

/-- With accepted values in an object that was filled in, the heap is in order. -/
theorem Elsewhere.wellFormed (hs : Sound m) (hslots : ∀ cell, m'.heap.space.object? v.address = some cell →
      ∀ i ∈ cell.slots, m'.heap.space.Accepts ⟨cell.word i⟩)
    (hlengths : ∀ cell word, m'.heap.space.object? v.address = some cell →
      (Layout.of cell.header.kind).valueLengthWord? cell.header.words = some word →
        (cell.word word).toNat ≤ (Layout.of cell.header.kind).room cell.header.words) :
    m'.heap.WellFormed := by
  have hobjects := helse.space.objects
  have htraceable : m'.heap.space.Traceable := by
    refine ⟨fun x cell hcell => ?_, fun x cell word hcell => ?_⟩
    · by_cases hx : x = v.address
      · exact hslots cell (hx ▸ hcell)
      · intro i hi href
        rw [hobjects x hx] at hcell
        rw [helse.isSome hold hnew]
        exact hs.traceable.slots x cell hcell i hi href
    · by_cases hx : x = v.address
      · exact hlengths cell word (hx ▸ hcell)
      · rw [hobjects x hx] at hcell
        exact hs.traceable.lengths x cell word hcell
  exact (helse.keeps hold hnew hs.heap).rested.wellFormed htraceable

end

section

variable (helse : Elsewhere m m' v.address) (hunlisted : Unlisted m v.address)
include helse hunlisted

/-- A new object is no symbol in the table and no name of one, so that filling it in leaves the
symbols alone. -/
theorem Elsewhere.listed {symbol : Value} (hsymbol : symbol ∈ m.symbols.symbols)
    (href : symbol.isHeapRef = true) (hcell : m'.heap.space.object? symbol.address = some cell) :
    m.heap.space.object? symbol.address = some cell ∧ ¬ cell.RefersTo v.address := by
  obtain ⟨hne, hrefers⟩ := hunlisted symbol hsymbol href
  rw [helse.space.objects _ hne] at hcell
  exact ⟨hcell, hrefers cell hcell⟩

theorem Elsewhere.unlisted (h : Unlisted m a) : Unlisted m' a := by
  have hsymbols : m'.symbols = m.symbols := by rw [helse.rest]
  intro symbol hsymbol href
  rw [hsymbols] at hsymbol
  obtain ⟨hne, hrefers⟩ := h symbol hsymbol href
  exact ⟨hne, fun cell hcell => hrefers cell (helse.listed hunlisted hsymbol href hcell).1⟩

theorem Elsewhere.labelled (h : Labelled m) : Labelled m' := by
  have hsymbols : m'.symbols = m.symbols := by rw [helse.rest]
  intro entry hentry
  rw [hsymbols] at hentry
  obtain ⟨href, cell, hcell, hkind, hwords, hname, named, hnamed, hstring⟩ := h entry hentry
  obtain ⟨hne, hrefers⟩ := hunlisted entry.2 (List.mem_map_of_mem hentry) href
  have hapart : (⟨cell.word 0⟩ : Value).address ≠ v.address := fun heq =>
    hrefers cell hcell ⟨0, zero_mem_slots hkind hwords, hname, heq⟩
  exact ⟨href, cell, (helse.space.objects _ hne).trans hcell, hkind, hwords, hname, named,
    (helse.space.objects _ hapart).trans hnamed, hstring⟩

end

/-- Filling in a new object changes nothing that was in use, and gives the object of the form. -/
theorem Passes.fill {index : Nat} (hs : Sound m) (h : Passes frames m m')
    (hfresh : ∀ a, m.InUse frames a → a ≠ v.address) (hunlisted : Unlisted m' v.address)
    (hparts : ∀ part ∈ form.parts, part.isHeapRef = true → m.InUse frames part.address)
    (hkind : header.kind = form.kind) (hwords : header.words = form.size)
    (hlimit : header.words < Space.payloadLimit) (hzero : m'.Holds v header fun _ => 0)
    (hfilled : m''.Holds v header (form.word index)) (helse : Elsewhere m' m'' v.address) :
    Passes frames m m'' ∧ Shows m''.heap.space v form := by
  obtain ⟨new, hnew, hheader, hword⟩ := hfilled.has.object
  have hform : form.Describes new :=
    ⟨hheader ▸ hkind, hheader ▸ hwords, hheader ▸ hlimit, index, hword⟩
  have hobjects := helse.space.objects
  have hisSome := helse.isSome hzero hfilled
  have hsymbols : m''.symbols = m'.symbols := by rw [helse.rest]
  have haround : Around m m'' := h.around.trans <| by
    have hnumbers := helse.numbers
    rw [helse.rest]
    exact ⟨rfl, rfl, rfl, rfl, rfl, rfl, rfl, rfl, rfl, hnumbers, fun _ => id⟩
  have hwellFormed : m''.heap.WellFormed := by
    refine helse.wellFormed hzero hfilled h.sound (fun cell hcell i hi href => ?_)
      fun cell word hcell => ?_
    · obtain rfl : new = cell := Option.some.inj (hnew.symm.trans hcell)
      obtain hpart | himmediate := hform.slot_cases hi
      · rw [hisSome]
        exact h.accepts hs (hparts _ hpart) href
      · cases himmediate.symm.trans href
    · obtain rfl : new = cell := Option.some.inj (hnew.symm.trans hcell)
      exact hform.length_le_room
  have hkept : ∀ a cell, m.InUse frames a → m.heap.space.object? a = some cell →
      ∃ cell', m''.heap.space.object? a = some cell' ∧ cell.Similar cell' := by
    intro a cell huse hcell
    obtain ⟨cell', hcell', hsim⟩ := h.kept a cell huse hcell
    exact ⟨cell', (hobjects a (hfresh a huse)).trans hcell', hsim⟩
  refine ⟨⟨hs.of_kept hwellFormed haround (fun symbol hsymbol => .inr ?_)
      fun a (huse : m.InUse frames a) => ?_, haround, hsymbols ▸ h.symbols,
      fun hheld => hsymbols.trans (h.locked hheld),
      hkept, fun a x huse hfind => ?_, fun a cell hcell => ?_,
      fun hl => helse.labelled hunlisted (h.labelled hl),
      fun a huse hu => helse.unlisted hunlisted (h.unlisted a huse hu)⟩, hzero.ref, new, hnew, hform⟩
  · intro href
    rw [hisSome]
    exact h.sound.symbols symbol (hsymbols ▸ hsymbol) href
  · obtain ⟨cell, hcell⟩ := Option.isSome_iff_exists.mp (hs.isSome_of_inUse huse)
    obtain ⟨cell', hcell', -⟩ := hkept a cell huse hcell
    exact Option.isSome_of_eq_some hcell'
  · rw [helse.found hzero hfilled]
    exact h.found a x huse hfind
  · by_cases ha : a = v.address
    · obtain rfl : new = cell := Option.some.inj (hnew.symm.trans (ha ▸ hcell))
      exact .inr ⟨form, hform⟩
    · exact h.made a cell (hobjects a ha ▸ hcell)

end

end Machine

end Substrate
