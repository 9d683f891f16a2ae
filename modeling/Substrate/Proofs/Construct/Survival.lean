import Substrate.Proofs.Construct.Interludes

/-!
# Constructors keep what they have in hand

A constructor that comes back gives a live object of its kind with the contents that it was asked for, if
native stacks are scanned: `Host.constructors_sound`. This holds at any time at which the machine is in
order, wherever the threshold of the next collection is and whatever finalizers are waiting to be run.

If native stacks are not scanned, then it holds of constructors that allocate once, as long as no
finalizer is run on the way: `allocation_reclaimed` shows an allocation that gives an object that is gone.
-/

namespace Substrate.Machine

variable {γ : Type} {m m' : Machine γ} {s : Space} {frames : List Value} {v : Value}
  {xs ys : List Value} {form : Form}

/-! ## Reading objects of a form -/

theorem Shows.has (hs : s.Valid) (h : Shows s v form) : ∃ header index, header.kind = form.kind ∧
    header.words = form.size ∧ header.words < Space.payloadLimit ∧
    s.Has v.address header (form.word index) := by
  obtain ⟨-, cell, hcell, hform⟩ := h
  obtain ⟨index, hword⟩ := hform.payload
  exact ⟨cell.header, index, hform.kind, hform.words, hform.limit, hs, cell, hcell, rfl, hword⟩

theorem Shows.kindOf (h : Shows s v form) : s.kindOf v = form.kind := by
  obtain ⟨href, cell, hcell, hform⟩ := h
  rw [Space.kindOf, if_pos href, Space.kindWith_of_isHeapRef href, Space.header_of_object? hcell,
    hform.kind]

theorem Shows.isKind (h : Shows s v form) (hheap : form.kind.isHeap = true) :
    s.isKind v form.kind = true := by
  simp [Space.isKind, hheap, h.ref, h.kindOf]

theorem Shows.stringText {text : String} (hs : s.Valid) (h : Shows s v (.string text)) (mode : Mode) :
    s.stringText mode v = .ok text := by
  obtain ⟨header, index, hkind, hwords, hlimit, hhas⟩ := h.has hs
  exact stringText_eq h.ref hhas hkind hwords hlimit

theorem Shows.cons_fields {car cdr : Value} (hs : s.Valid) (h : Shows s v (.cons car cdr))
    (mode : Mode) : s.fieldGet mode v .car = .ok car ∧ s.fieldGet mode v .cdr = .ok cdr := by
  obtain ⟨header, index, hkind, hwords, -, hhas⟩ := h.has hs
  have hsize : header.words = 2 := hwords
  exact ⟨fieldGet_eq h.ref hhas .car hkind.symm rfl (by omega),
    fieldGet_eq h.ref hhas .cdr hkind.symm rfl (by omega)⟩

/-- A symbol leads to the text of its name. -/
theorem Labels.read {symbol : Value} {text : String} (hs : s.Valid) (h : Labels s symbol text)
    (mode : Mode) : s.kindOf symbol = .symbol ∧ ∃ name, s.fieldGet mode symbol .symbolName = .ok name ∧
      Shows s name (.string text) := by
  obtain ⟨href, cell, hcell, hkind, hwords, hname⟩ := h
  have hhas : s.Has symbol.address cell.header cell.word := ⟨hs, cell, hcell, rfl, fun _ => rfl⟩
  refine ⟨?_, _, fieldGet_eq href hhas .symbolName hkind.symm rfl ?_, hname⟩
  · rw [Space.kindOf, if_pos href, Space.kindWith_of_isHeapRef href, Space.header_of_object? hcell,
      hkind]
  · rw [hwords]
    decide

theorem isLive_of_object {h : Heap} (hs : h.space.Valid) (href : v.isHeapRef = true)
    (hobject : (h.space.object? v.address).isSome) : h.isLive v = true := by
  rw [Heap.isLive, href, hs.findObject?_exact_isSome, hobject]
  rfl

theorem Shows.isLive {h : Heap} (hs : h.space.Valid) (hshows : Shows h.space v form) :
    h.isLive v = true := by
  obtain ⟨href, cell, hcell, -⟩ := hshows
  exact isLive_of_object hs href (Option.isSome_of_eq_some hcell)

/-! ## Lists -/

/-- The value is a proper list of these elements. -/
def Spine (s : Space) : List Value → Value → Prop
  | [], v => v = .nil
  | x :: xs, v => ∃ cdr, Shows s v (.cons x cdr) ∧ Spine s xs cdr

theorem not_shows_nil : ¬ Shows s .nil form := fun h => by cases h.ref

theorem Shows.cons_unique {x y cdr cdr' : Value} (h : Shows s v (.cons x cdr))
    (h' : Shows s v (.cons y cdr')) : x = y ∧ cdr = cdr' := by
  obtain ⟨-, cell, hcell, hform⟩ := h
  obtain ⟨-, cell', hcell', hform'⟩ := h'
  obtain rfl : cell = cell' := Option.some.inj (hcell.symm.trans hcell')
  obtain ⟨_, hword⟩ := hform.payload
  obtain ⟨_, hword'⟩ := hform'.payload
  exact ⟨congrArg Value.mk ((hword 0).symm.trans (hword' 0)),
    congrArg Value.mk ((hword 1).symm.trans (hword' 1))⟩

/-- A value is the list of its elements and of no others. -/
theorem Spine.unique (h : Spine s xs v) (h' : Spine s ys v) : xs = ys := by
  induction xs generalizing ys v with
  | nil =>
    obtain rfl := h
    cases ys with
    | nil => rfl
    | cons y ys =>
      obtain ⟨_, hshows, -⟩ := h'
      exact absurd hshows not_shows_nil
  | cons x xs ih =>
    obtain ⟨cdr, hshows, hrest⟩ := h
    cases ys with
    | nil =>
      obtain rfl := h'
      exact absurd hshows not_shows_nil
    | cons y ys =>
      obtain ⟨cdr', hshows', hrest'⟩ := h'
      obtain ⟨rfl, rfl⟩ := hshows.cons_unique hshows'
      rw [ih hrest hrest']

/-- The conses of a list are different objects: each is the list of its own rest. -/
theorem Spine.conses (h : Spine s xs v) : ∃ conses : List Nat, conses.length = xs.length ∧
    conses.Nodup ∧ ∀ a ∈ conses, ∃ w : Value, ∃ ys, w.address = a ∧ (s.object? a).isSome ∧
      Spine s ys w ∧ ys ≠ [] ∧ ys.length ≤ xs.length := by
  induction xs generalizing v with
  | nil => exact ⟨[], rfl, List.nodup_nil, List.forall_mem_nil _⟩
  | cons x xs ih =>
    obtain ⟨cdr, hshows, hrest⟩ := h
    obtain ⟨conses, hlength, hnodup, hall⟩ := ih hrest
    refine ⟨v.address :: conses, by rw [List.length_cons, hlength, List.length_cons],
      List.nodup_cons.mpr ⟨fun hmem => ?_, hnodup⟩, List.forall_mem_cons.mpr ⟨?_, fun a ha => ?_⟩⟩
    · obtain ⟨w, ys, haddress, -, hspine, -, hle⟩ := hall _ hmem
      have hsame : w = v := Value.eq_of_address haddress
      obtain rfl := hspine.unique (hsame ▸ ⟨cdr, hshows, hrest⟩ : Spine s (x :: xs) w)
      exact absurd hle (by simp)
    · obtain ⟨cell, hcell, -⟩ := hshows.object
      exact ⟨v, x :: xs, rfl, Option.isSome_of_eq_some hcell, ⟨cdr, hshows, hrest⟩, by simp,
        Nat.le_refl _⟩
    · obtain ⟨w, ys, haddress, hobject, hspine, hne, hle⟩ := hall a ha
      exact ⟨w, ys, haddress, hobject, hspine, hne, Nat.le_succ_of_le hle⟩

/-- There is room for all conses of a list. -/
theorem Spine.length_le (hs : s.Valid) (h : Spine s xs v) : xs.length ≤ s.capacity := by
  obtain ⟨conses, hlength, hnodup, hall⟩ := h.conses
  have hsub : conses ⊆ s.objects := fun a ha => by
    obtain ⟨-, -, -, hobject, -⟩ := hall a ha
    exact hs.mem_objects_iff.mpr hobject
  rw [← hlength]
  exact Nat.le_trans (hnodup.length_le_of_subset hsub) s.length_objects_le

theorem Spine.listFrom (hs : s.Valid) (mode : Mode) (h : Spine s xs v) (seen : List Value) {fuel : Nat}
    (hfuel : xs.length ≤ fuel) : s.listFrom mode seen fuel v = .ok (seen.reverse ++ xs) := by
  induction xs generalizing v seen fuel with
  | nil =>
    obtain rfl := h
    rw [List.append_nil]
    cases fuel <;> rfl
  | cons x xs ih =>
    obtain ⟨cdr, hshows, hrest⟩ := h
    obtain ⟨fuel, rfl⟩ : ∃ n, fuel = n + 1 := ⟨fuel - 1, by simp at hfuel; omega⟩
    obtain ⟨hcar, hcdr⟩ := hshows.cons_fields hs mode
    have hcons : s.isKind v .cons = true := hshows.isKind rfl
    rw [Space.listFrom, if_pos hcons, hcar, hcdr]
    simp only [ok_bind]
    rw [ih hrest (x :: seen) (Nat.le_of_succ_le_succ hfuel), List.reverse_cons, List.append_assoc]
    rfl

/-- Reading a list gives its elements. -/
theorem Spine.listElements (hs : s.Valid) (mode : Mode) (h : Spine s xs v) :
    s.listElements mode v = .ok xs :=
  h.listFrom hs mode [] (h.length_le hs)

/-- The conses of a list that is in use are in use. So the list stays what it is. -/
theorem Spine.passes (h : Spine m.heap.space xs v)
    (huse : v.isHeapRef = true → m.InUse frames v.address) (hpasses : Passes frames m m') :
    Spine m'.heap.space xs v := by
  induction xs generalizing v with
  | nil => exact h
  | cons x xs ih =>
    obtain ⟨cdr, hshows, hrest⟩ := h
    have hcons := huse hshows.ref
    refine ⟨cdr, hpasses.shows hcons hshows, ih hrest fun href => ?_⟩
    obtain ⟨-, cell, hcell, hform⟩ := hshows
    obtain ⟨_, hword⟩ := hform.payload
    have hcdr : (⟨cell.word 1⟩ : Value) = cdr := congrArg Value.mk (hword 1)
    refine .step hcons hcell ⟨1, ?_, hcdr ▸ href, hcdr ▸ rfl⟩
    rw [Cell.mem_slots, hform.kind, hform.words]
    exact .inl (show 1 ∈ [0, 1] ∧ 1 < 2 by decide)

namespace Host

variable {host : Host}

/-- The part of a list that is there already is in a native frame while the next cons is allocated. -/
theorem consAll_spec (hhost : host.Scrupulous) (hscans : host.scans = true) {list : Value} (hs : Sound m)
    (helements : ∀ x ∈ ys, x.isHeapRef = true → m.InUse frames x.address)
    (hspine : Spine m.heap.space xs list) (hrun : host.consAll frames ys list m = .ok v m') :
    Passes frames m m' ∧ Spine m'.heap.space (ys.reverse ++ xs) v := by
  induction ys generalizing m list xs with
  | nil =>
    cases hrun
    exact ⟨.refl hs, hspine⟩
  | cons y ys ih =>
    obtain ⟨cons, m₁, hbuild, hrest⟩ := exists_of_bind_ok hrun
    have hlist : list.isHeapRef = true → m.InUse (list :: frames) list.address := by
      intro href
      cases xs with
      | nil =>
        obtain rfl := hspine
        cases href
      | cons x xs =>
        obtain ⟨_, hshows, -⟩ := hspine
        obtain ⟨cell, hcell, -⟩ := hshows.object
        exact inUse_of_frame hs List.mem_cons_self (Option.isSome_of_eq_some hcell)
    have hsub := List.subset_cons_self list frames
    have hfits : (Form.cons y list).Fits := (by decide : 0 + wordBytes < wordLimit)
    have hbuilds := build_spec hs hhost rfl (.inl ⟨hscans, passing_runFinalizers hhost hscans⟩)
      (.inr hfits) (fun part hpart href => ?_) hbuild
    · rw [host.seen_of_scans hscans] at hbuilds
      have hpasses := hbuilds.passes.mono hsub
      obtain ⟨hlater, hspine'⟩ := ih hbuilds.passes.sound
        (fun x hx href => hpasses.inUse (helements x (List.mem_cons_of_mem _ hx) href))
        (show Spine m₁.heap.space (y :: xs) cons from
          ⟨list, hbuilds.shows, hspine.passes hlist hbuilds.passes⟩) hrest
      exact ⟨hpasses.trans hlater, by simpa using hspine'⟩
    · rw [host.seen_of_scans hscans]
      obtain rfl | hpart := List.mem_cons.mp hpart
      · exact (helements _ List.mem_cons_self href).mono hsub
      · obtain rfl := List.mem_singleton.mp hpart
        exact hlist href

/-- Whenever a machine is in order, wherever its next threshold is and whatever finalizers it has, a
constructor that comes back leaves the machine in order and everything that was in use as it was, and
gives what it was asked for:
an object of the form with live parts, from all constructors that allocate once;
a list from which the elements can be read back;
a symbol with a name from which the text can be read back, from those that make and that intern symbols.
The arguments are in use at the beginning. Those of the native frames count that are scanned. Constructors
that allocate more than once depend on that scan. The others depend on it if there are finalizers to run
when the object is allocated. -/
theorem constructors_sound (hhonest : host.Honest m.heap.space) (hs : Sound m) (frames : List Value) :
    (∀ (form : Form) v m', form.kind.isHeap = true → (m.mode = .debug ∨ form.Fits) →
      (host.scans = true ∨ host.Undisturbed frames form.kind form.size m) →
      (∀ part ∈ form.parts, part.isHeapRef = true → m.InUse (host.seen frames) part.address) →
      host.build frames form m = .ok v m' →
        Passes (host.seen frames) m m' ∧ m'.heap.isLive v = true ∧
        m'.heap.space.kindOf v = form.kind ∧ Shows m'.heap.space v form ∧
        ∀ part ∈ form.parts, m'.heap.space.Accepts part) ∧
    (host.scans = true → ∀ xs v m',
      (∀ x ∈ xs, x.isHeapRef = true → m.InUse frames x.address) →
      host.list frames xs m = .ok v m' →
        Passes frames m m' ∧ m'.heap.space.listElements m'.mode v = .ok xs ∧
        ∀ x ∈ xs, m'.heap.space.Accepts x) ∧
    (host.scans = true → ∀ text, (m.mode = .debug ∨ (Form.string text).Fits) → ∀ v m',
      host.makeSymbol frames text m = .ok v m' ∨ host.intern frames text m = .ok v m' ∧ Labelled m →
        Passes frames m m' ∧ m'.heap.isLive v = true ∧ m'.heap.space.kindOf v = .symbol ∧
        ∃ name, m'.heap.space.fieldGet m'.mode v .symbolName = .ok name ∧
          m'.heap.isLive name = true ∧ m'.heap.space.stringText m'.mode name = .ok text) := by
  have hhost := host.scrupulous_guarded
  have hpassing : host.scans = true → Passing (γ := γ) host.guarded.runFinalizers :=
    passing_runFinalizers hhost
  refine ⟨fun form v m' hkind hfits hquiet hparts hrun => ?_, fun hscans xs v m' helements hrun => ?_,
    fun hscans text hfits v m' hrun => ?_⟩
  · have hcareful : host.guarded.Careful host.guarded.runFinalizers frames form.kind form.size m :=
      hquiet.imp (fun hscans => ⟨hscans, hpassing hscans⟩) (undisturbed_guarded hhonest).mpr
    rw [← (agrees_build frames form m).2 hhonest] at hrun
    have hbuilds := build_spec hs hhost hkind hcareful hfits hparts hrun
    exact ⟨hbuilds.passes, hbuilds.shows.isLive hbuilds.passes.sound.valid, hbuilds.shows.kindOf,
      hbuilds.shows, fun part hpart => hbuilds.passes.accepts hs (hparts part hpart)⟩
  · rw [← (agrees_list frames xs m).2 hhonest] at hrun
    obtain ⟨hpasses, hspine⟩ := consAll_spec hhost hscans hs
      (fun x hx => helements x (List.mem_reverse.mp hx))
      (show Spine m.heap.space [] .nil from rfl) hrun
    rw [List.reverse_reverse, List.append_nil] at hspine
    exact ⟨hpasses, hspine.listElements hpasses.sound.valid _,
      fun x hx => hpasses.accepts hs (helements x hx)⟩
  · rw [← (agrees_makeSymbol frames text m).2 hhonest, ← (agrees_intern frames text m).2 hhonest] at hrun
    obtain ⟨hpasses, hlabels⟩ : Passes frames m m' ∧ Labels m'.heap.space v text := by
      obtain hmake | ⟨hintern, hlabelled⟩ := hrun
      · obtain ⟨name, hbuilds, hname, -⟩ :=
          makeSymbolWith_spec hhost hscans (hpassing hscans) hs hfits hmake
        exact ⟨hbuilds.passes, hbuilds.shows.labels hname⟩
      · obtain ⟨hpasses, hlabels⟩ :=
          internWith_spec hhost hscans (hpassing hscans) hs hfits hintern
        exact ⟨hpasses, hlabels hlabelled⟩
    have hvalid := hpasses.sound.valid
    obtain ⟨hkind, name, hfield, hname⟩ := hlabels.read hvalid m'.mode
    obtain ⟨href, cell, hcell, -⟩ := hlabels
    exact ⟨hpasses, isLive_of_object hvalid href (Option.isSome_of_eq_some hcell), hkind, name,
      hfield, hname.isLive hvalid, hname.stringText hvalid _⟩

/-- A host with memory for a space that has none yet. -/
def shy (scans : Bool) : Host :=
  ⟨fun s => if s.blockIndex.isEmpty && s.large.isEmpty then .fresh else ⟨pageBytes, 0⟩, scans⟩

theorem scrupulous_shy (scans : Bool) : (shy scans).Scrupulous := by
  intro s hs
  unfold shy
  dsimp only
  split
  next hempty =>
    simp only [Bool.and_eq_true] at hempty
    have hnone : ∀ r, ¬ s.Held r := by
      rintro r (⟨hb⟩ | ⟨hlarge⟩)
      · have hindex := (hs.index _ _ _).mpr ⟨_, hb, rfl⟩
        rw [Std.TreeMap.getElem?_of_isEmpty hempty.1] at hindex
        cases hindex
      · rw [Std.TreeMap.getElem?_of_isEmpty hempty.2] at hlarge
        cases hlarge
    refine ⟨rfl, by decide, fun bytes hbytes => ?_, fun bytes _ r hr => absurd hr (hnone r)⟩
    simp only [Pages.fresh, OsError.memoryBytes, wordLimit] at *
    omega
  next => exact Ledger.fresh_refusing _

end Host

/-- A machine that has just started is in order with any heap that is. -/
theorem sound_of_start {options : Options} {client : γ} {heap : Heap}
    (hrun : start .debug options client = .ok m) (hw : heap.WellFormed) (hmode : heap.mode = .debug) :
    Sound { m with heap } := by
  have hlocations : m.roots.locations = [] := by
    unfold start at hrun
    cases hvalid : options.validate with
    | error e =>
      rw [hvalid] at hrun
      cases hrun
    | ok u =>
      rw [hvalid] at hrun
      cases hrun
      rfl
  obtain ⟨hdebug, -, hsymbols, -, hthreads⟩ := start_ok hrun
  refine ⟨⟨hw.rested, hmode.trans hdebug.symm, fun thread hthread => ?_, fun symbol hsymbol => ?_⟩,
    hw.traceable, fun location hlocation => ?_, .inl hdebug⟩
  · obtain rfl := List.mem_singleton.mp (hthreads ▸ hthread)
    exact ControlStack.holds_new _ _
  · change symbol ∈ m.symbols.symbols at hsymbol
    rw [hsymbols] at hsymbol
    cases hsymbol
  · change location ∈ m.roots.locations at hlocation
    rw [hlocations] at hlocation
    cases hlocation

/-! ## A finalizer in between -/

/-- A heap with a vector that nothing refers to and whose finalizer collects. The next allocation of
this size is due to collect. -/
def disturbedHeap : Heap :=
  match Heap.tryAllocate .vector 200
      { Heap.new .debug ⟨2048, 65536, .two, true⟩ with
        space := { (Heap.new .debug ⟨2048, 65536, .two, true⟩).space with pages := .fresh } } with
  | .ok (some v) heap => match Heap.registerFinalizer v [.collect] heap with
    | .ok () attended => attended
    | .error _ _ => heap
  | .ok none heap => heap
  | .error _ heap => heap

def disturbedMachine : Machine Unit :=
  { smallMachine with heap := disturbedHeap }

theorem sound_disturbedMachine : Sound disturbedMachine := by
  have hfresh := Ledger.fresh_start 65536
  obtain ⟨result, heap, hrun, hw⟩ := (Heap.wellFormed_new .debug ⟨2048, 65536, .two, true⟩).tryAllocate
    hfresh (show Kind.isHeap .vector = true from rfl) 200
  have hmode : heap.mode = .debug :=
    ((Heap.wellFormed_new .debug ⟨2048, 65536, .two, true⟩).rested.tryAllocate hfresh rfl hrun).mode
  obtain ⟨hdisturbed, hdebug⟩ : disturbedHeap.WellFormed ∧ disturbedHeap.mode = .debug := by
    unfold disturbedHeap
    rw [hrun]
    cases result with
    | none => exact ⟨hw, hmode⟩
    | some v =>
      dsimp only
      split
      next hregister =>
        exact ⟨hw.registerFinalizer hregister, (hw.rested.registerFinalizer hregister).mode.trans hmode⟩
      next => exact ⟨hw, hmode⟩
  exact sound_of_start (show Machine.start .debug smallOptions () = .ok smallMachine from rfl)
    hdisturbed hdebug

/-- The vector of a machine that has just started, where nothing disturbs the allocation, and one where
the finalizer that it brings about collects, but the native stack is scanned. -/
theorem Host.constructors_sound_disturbedMachine :
    (∃ v m', makeVector 199 .t smallMachine = .ok v m' ∧
      m'.heap.isLive v = true ∧ Shows m'.heap.space v (.vector 199 .t)) ∧
    ∃ v m', (shy true).build [] (.bare .vector 200) disturbedMachine = .ok v m' ∧
      m'.heap.collections = 2 ∧ m'.heap.isLive v = true := by
  constructor
  · have hsound : Sound smallMachine :=
      sound_of_start (show Machine.start .debug smallOptions () = .ok smallMachine from rfl)
        (Heap.wellFormed_new .debug smallOptions.heap) rfl
    have hhonest : plain.Honest smallMachine.heap.space := honest_plain (Space.owned_new _)
    have hrun : returns (fun _ _ => true) (makeVector 199 .t smallMachine) = true := by decide +kernel
    obtain ⟨v, m', hok, -⟩ := exists_of_returns hrun
    have hquiet : plain.Undisturbed [] .vector (Form.vector 199 .t).size smallMachine :=
      undisturbed_of_unattended hsound hhonest rfl ⟨rfl, rfl⟩
    obtain ⟨-, hlive, -, hshows, -⟩ := (constructors_sound hhonest hsound []).1
      (.vector 199 .t) v m' rfl (.inl rfl) (.inr hquiet)
      (List.forall_mem_singleton.mpr fun href => by cases href)
      ((congrFun (plain_build [] (.vector 199 .t)) _).trans hok)
    exact ⟨v, m', hok, hlive, hshows⟩
  · have hrun : returns (fun _ m' => m'.heap.collections == 2)
        ((shy true).build [] (.bare .vector 200) disturbedMachine) = true := by decide +kernel
    obtain ⟨v, m', hok, hcount⟩ := exists_of_returns hrun
    obtain ⟨-, hlive, -⟩ := (constructors_sound ((scrupulous_shy true).honest _)
      sound_disturbedMachine []).1 (.bare .vector 200) v m' rfl (.inl rfl) (.inl rfl)
      (List.forall_mem_nil _) hok
    exact ⟨v, m', hok, beq_iff_eq.mp hcount, hlive⟩

/-- Without the scan nothing keeps the new vector when the finalizer collects. What the allocation gives
is gone. -/
theorem allocation_reclaimed : ∃ v m', Machine.allocateWords .vector 200 disturbedMachine = .ok v m' ∧
    v.isHeapRef = true ∧ m'.heap.isLive v = false := by
  have hrun : returns (fun v m' => v.isHeapRef && !m'.heap.isLive v)
      (Machine.allocateWords .vector 200 disturbedMachine) = true := by decide +kernel
  obtain ⟨v, m', hok, hcheck⟩ := exists_of_returns hrun
  simp only [Bool.and_eq_true, Bool.not_eq_true'] at hcheck
  exact ⟨v, m', hok, hcheck⟩

end Substrate.Machine
