import Mathlib.Data.List.Nodup
import Mathlib.Data.List.Perm.Basic
import Substrate.Proofs.Collection.Custody
import Substrate.Proofs.Collection.Lifetime
import Substrate.Proofs.Collection.Steps

/-!
# Finalizers are neither lost nor duplicated

A run of a heap is followed by the book of all registrations (`Custody`) and by the list of the actions
that were handed out. At every moment the finalizers attached in the heap, its queue and the objects it
holds for running finalizers are what the book says, and what was handed out are the actions that are
running or finished, each once. The flag in an object's header says whether the book has an action
attached to its address.
-/

namespace Substrate

/-! ## Field writes -/

/-- No field lies on the word that holds the length of a tail. -/
theorem Field.word_ne_lengthWord {field : Field} {word words : Nat} (h : field.word .debug = .ok word) :
    (Layout.of field.kind).valueLengthWord? words ≠ some word := by
  have hadd : ∀ a b, Mode.debug.add a b = .ok word → a ≤ word := by
    intro a b hadd
    unfold Mode.add at hadd
    split at hadd
    · exact Except.ok.inj hadd ▸ Nat.le_add_right a b
    · cases hadd
  cases field with
  | vectorElt index =>
    have hle := hadd 1 index h
    simp only [Field.kind, Layout.of, Layout.valueLengthWord?]
    split
    · simpa using Nat.ne_of_lt hle
    · simp
  | structSlot index =>
    have hle := hadd 2 index h
    simp only [Field.kind, Layout.of, Layout.valueLengthWord?]
    split
    · simpa using Nat.ne_of_lt hle
    · simp
  | structType =>
    obtain rfl := Except.ok.inj h
    simp only [Field.kind, Layout.of, Layout.valueLengthWord?]
    split <;> simp
  | _ => simp [Field.kind, Layout.of, Layout.valueLengthWord?]

theorem Field.kind_ne_free (field : Field) : field.kind ≠ .free := by
  cases field <;> simp [Field.kind]

section

variable {cell : Cell} {field : Field} {word : Nat}

/-- Writing a field does not change the length of the object. -/
theorem Field.length_setWord (hkind : cell.header.kind = field.kind)
    (hword : field.word .debug = .ok word) (bits : Word) {w : Nat}
    (hw : (Layout.of cell.header.kind).valueLengthWord? cell.header.words = some w) :
    (cell.setWord word bits).word w = cell.word w := by
  rw [Cell.word_setWord, if_neg]
  rintro rfl
  rw [hkind] at hw
  exact Field.word_ne_lengthWord hword hw

theorem Field.slots_setWord (hkind : cell.header.kind = field.kind)
    (hword : field.word .debug = .ok word) (bits : Word) :
    (cell.setWord word bits).slots = cell.slots := by
  simp only [Cell.slots, Cell.header_setWord]
  cases htail : (Layout.of cell.header.kind).valueLengthWord? cell.header.words with
  | none => rfl
  | some w => simp only [Field.length_setWord hkind hword bits htail]

end

namespace Space

variable {s : Space} {v value : Value} {field : Field} {word : Nat}

/-- A debug build lets an access pass that stays within a field of the object. -/
theorem locate_debug (h : s.locate .debug v field = .ok (some word)) :
    v.isHeapRef = true ∧ (∃ cell, s.object? v.address = some cell ∧
      cell.header.kind = field.kind ∧ word < cell.header.words) ∧ field.word .debug = .ok word := by
  cases href : v.isHeapRef with
  | false => simp [locate, href, Mode.violation, bind, Except.bind] at h
  | true =>
  cases hword : field.word .debug with
  | error fault => simp [locate, href, hword, bind, Except.bind] at h
  | ok w =>
    have hkind : (s.header v.address).kind = field.kind := by
      refine Decidable.not_not.mp fun hkind => ?_
      simp [locate, href, hword, hkind, Mode.violation, bind, Except.bind] at h
    have hwords : ¬ (s.header v.address).words ≤ w := by
      intro hwords
      simp [locate, href, hword, hkind, hwords, Mode.violation, bind, Except.bind] at h
    obtain rfl : w = word := by
      simpa [locate, href, hword, hkind, hwords, bind, Except.bind, pure, Except.pure] using h
    refine ⟨rfl, ?_, rfl⟩
    cases hcell : s.cell? v.address with
    | none =>
      rw [header, hcell] at hkind
      exact absurd hkind.symm field.kind_ne_free
    | some cell =>
      rw [header, hcell] at hkind hwords
      have hfree : cell.header.kind ≠ .free := hkind ▸ field.kind_ne_free
      exact ⟨cell, by simp [object?, hcell, hfree], hkind, Nat.not_le.mp hwords⟩

/-- What a debug build lets pass, every build does. -/
theorem locate_of_debug (mode : Mode) (h : s.locate .debug v field = .ok (some word)) :
    s.locate mode v field = .ok (some word) := by
  obtain ⟨href, ⟨cell, hcell, hkind, hwords⟩, hword⟩ := locate_debug h
  cases mode with
  | debug => exact h
  | release =>
    have hadd : ∀ a b, Mode.debug.add a b = .ok word → Mode.release.add a b = .ok word := by
      intro a b hadd
      unfold Mode.add at hadd ⊢
      split
      · rwa [if_pos ‹_›] at hadd
      · rw [if_neg ‹_›] at hadd
        cases hadd
    have hrelease : field.word .release = .ok word := by
      cases field with
      | vectorElt index => exact hadd _ _ hword
      | structSlot index => exact hadd _ _ hword
      | _ => exact hword
    simp [locate, href, hrelease, header_of_object? hcell, hkind, Nat.not_le.mpr hwords, bind,
      Except.bind, pure, Except.pure]

/-- Storing what the space accepts into a field leaves a space that can be traced. -/
theorem traceable_setWord (hs : s.Valid) (ht : s.Traceable)
    (h : s.locate .debug v field = .ok (some word)) (hvalue : s.Accepts value) :
    (s.setWord v.address word value.bits).Traceable := by
  obtain ⟨-, ⟨cell, hcell, hkind, -⟩, hword⟩ := locate_debug h
  have hview := hs.object?_setWord hcell word value.bits
  have haccepts : ∀ u, s.Accepts u → (s.setWord v.address word value.bits).Accepts u := by
    intro u hu href
    rw [hview]
    split
    · rfl
    · exact hu href
  refine ⟨fun x cell' hx index hindex => ?_, fun x cell' w hx hw => ?_⟩
  · rw [hview] at hx
    split at hx
    · obtain rfl := Option.some.inj hx
      rw [Field.slots_setWord hkind hword] at hindex
      rw [Cell.word_setWord]
      split
      · exact haccepts _ hvalue
      · exact haccepts _ (ht.slots _ cell hcell index hindex)
    · exact haccepts _ (ht.slots x cell' hx index hindex)
  · rw [hview] at hx
    split at hx
    · obtain rfl := Option.some.inj hx
      rw [Cell.header_setWord] at hw ⊢
      rw [Field.length_setWord hkind hword value.bits hw]
      exact ht.lengths _ cell w hcell hw
    · exact ht.lengths x cell' w hx hw

end Space

/-! ## Completed collections -/

/-- What a client owes to a collection: the regions it has scanned end before the address space does,
and in a release build, which does not look, its exact references are not stale. -/
def RootCall.Honest (mode : Mode) (s : Space) : RootCall → Prop
  | value v => mode = .release → s.Accepts v
  | slot memory location => mode = .release → s.Accepts ⟨memory location⟩
  | ambiguous _ => True
  | scan _ _ region => region.stop + wordBytes ≤ wordLimit
  | drain => True

namespace Marking

variable {m m' : Marking} {mode : Mode} {s : Space} {stale roots : Nat → Prop}

theorem accepts_of_markValue (hm : m.space.Valid) {v : Value} (hv : mode = .release → m.space.Accepts v)
    (hrun : markValue mode v m = .ok () m') : m.space.Accepts v := by
  cases mode with
  | release => exact hv rfl
  | debug =>
    intro href
    rw [← hm.findObject?_exact_isSome]
    refine Decidable.not_not.mp fun hfound => ?_
    simp [markValue, href, hfound] at hrun

theorem exists_of_bind_ok {α β : Type} {x : Run Marking α} {f : α → Run Marking β} {b : β}
    (h : (x >>= f) m = .ok b m') : ∃ a m₁, x m = .ok a m₁ ∧ f a m₁ = .ok b m' := by
  change EStateM.bind x f m = _ at h
  unfold EStateM.bind at h
  cases hx : x m with
  | ok a m₁ => exact ⟨a, m₁, rfl, by rwa [hx] at h⟩
  | error fault m₁ =>
    rw [hx] at h
    cases h

/-- Calls that all came back named no stale reference. -/
theorem Resumed.permitted (hs : s.Traceable) {calls : List RootCall} (h : Resumed s stale roots m)
    (hcalls : ∀ call ∈ calls, call.Honest mode s) (hrun : RootCall.runAll mode calls m = .ok () m') :
    ∀ call ∈ calls, call.Permitted s := by
  induction calls generalizing roots m with
  | nil => exact List.forall_mem_nil _
  | cons call calls ih =>
    obtain ⟨_, m₁, hfirst, hrest⟩ := exists_of_bind_ok hrun
    have hhonest := hcalls call List.mem_cons_self
    have hcall : call.Permitted s := by
      cases call with
      | value v =>
        exact h.similar.accepts.mp (accepts_of_markValue h.similar.valid
          (fun hmode => h.similar.accepts.mpr (hhonest hmode)) hfirst)
      | slot memory location =>
        exact h.similar.accepts.mp (accepts_of_markValue h.similar.valid
          (fun hmode => h.similar.accepts.mpr (hhonest hmode)) hfirst)
      | ambiguous word => trivial
      | scan memory exclusions region => exact hhonest
      | drain => trivial
    obtain ⟨m₂, hfirst', -, htraced⟩ := h.call mode hs hcall
    cases hfirst.symm.trans hfirst'
    exact List.forall_mem_cons.mpr
      ⟨hcall, ih htraced (fun call' h' => hcalls call' (List.mem_cons_of_mem _ h')) hrest⟩

end Marking

namespace Heap

open Marking

variable {h h' : Heap} {calls : List RootCall} {collection : Collection} {reached : Nat → Bool}

/-- A collection that was completed had only roots that it may have. -/
theorem WellFormed.permitted (hw : h.WellFormed) (hcalls : ∀ call ∈ calls, call.Honest h.mode h.space)
    (hrun : Heap.collect (RootCall.runAll h.mode calls) h = .ok ((), collection) h') :
    ∀ call ∈ calls, call.Permitted h.space := by
  have hmark : ∃ m, ({ h with space := .vacant } : Heap).markReachable (RootCall.runAll h.mode calls)
      (.start h.space h.options.interiorPointers) = .ok () m := by
    unfold Heap.collect at hrun
    dsimp only at hrun
    split at hrun
    · cases hrun
    next m hm => exact ⟨m, hm⟩
  obtain ⟨m, hmark⟩ := hmark
  obtain ⟨_, m₁, hroots, -⟩ := exists_of_bind_ok hmark
  have hstart := (traced_iff fun (_ : Nat) (h : False) => h).mp
    (hw.traced_start h.options.interiorPointers)
  exact hstart.permitted hw.traceable hcalls hroots

theorem flags_clearFlags {m : Marking} {entries : List (Nat × Finalizer)} (hm : m.space.Valid)
    (h : ∀ entry ∈ entries, (m.space.object? entry.1).isSome) (a : Nat) :
    ((clearFlags entries m).space.object? a).map (·.header.flags)
      = (m.space.object? a).map fun cell =>
        if a ∈ entries.map (·.1) then cell.header.flags &&& ~~~Header.hasFinalizer
        else cell.header.flags := by
  induction entries generalizing m with
  | nil => simp [clearFlags]
  | cons entry entries ih =>
    obtain ⟨cell, hcell⟩ := Option.isSome_iff_exists.mp (h entry List.mem_cons_self)
    have hfirst := extends_of_flag hm hcell
      (f := fun header => header.clearFlag Header.hasFinalizer) rfl rfl rfl
    have hfree : (cell.setHeader (cell.header.clearFlag Header.hasFinalizer)).header.kind ≠ .free := by
      rw [Cell.header_setHeader]
      exact Space.kind_of_object? hcell
    have hview := hm.object?_modifyCell
      (f := fun cell => cell.setHeader (cell.header.clearFlag Header.hasFinalizer)) hcell hfree a
    have hrest := ih hfirst.similar.valid fun entry' h' => by
      rw [hfirst.similar.isSome]
      exact h entry' (List.mem_cons_of_mem _ h')
    refine hrest.trans ?_
    rw [Space.modifyHeader, hview]
    by_cases ha : a = entry.1
    · subst ha
      simp only [if_true, hcell, Option.map_some, Cell.header_setHeader, Header.clearFlag,
        List.map_cons, List.mem_cons, true_or, Option.some.injEq]
      split
      · rw [UInt8.and_assoc, UInt8.and_self]
      · rfl
    · simp only [List.map_cons, List.mem_cons, ha, false_or, if_false]

/-- What a completed collection does with finalizers and flags. -/
theorem WellFormed.collect_lists (hw : h.WellFormed)
    (hcalls : ∀ call ∈ calls, call.Permitted h.space)
    (hreached : ∀ a, reached a = true ↔ h.space.Reaches (h.Rooted calls) a)
    (hrun : Heap.collect (RootCall.runAll h.mode calls) h = .ok ((), collection) h') :
    h'.finalizers = h.finalizers.filter (fun entry => reached entry.1) ∧
    h'.pending = h.pending ++ (h.finalizers.filter fun entry => !reached entry.1).map
      (fun entry => (Value.ofAddress entry.1, entry.2)) ∧
    h'.finalizing = h.finalizing ∧
    ∀ a cell', h'.space.object? a = some cell' → ∃ cell, h.space.object? a = some cell ∧
      cell'.header.flags = if a ∈ (h.finalizers.filter fun entry => !reached entry.1).map (·.1)
        then cell.header.flags &&& ~~~Header.hasFinalizer else cell.header.flags := by
  obtain ⟨m, hmark, hempty, htraced⟩ := hw.markReachable hcalls
  obtain ⟨due, m', hdue, hqueue, hempty', htraced'⟩ :=
    hw.queueUnreached hempty htraced (k := { h with space := .vacant }) rfl
  cases hrun.symm.trans (collect_eq hmark hqueue)
  have hmarks : ∀ a, m.marks a = reached a := fun a => by
    rw [Bool.eq_iff_iff, htraced.marks_iff hempty, hreached]
  simp only [hmarks] at hdue
  subst hdue
  refine ⟨by simp only [Heap.finish, hmarks], rfl, rfl, fun a cell' hcell' => ?_⟩
  have hsafe : Safe h.mode (.start h.space h.options.interiorPointers) :=
    safe_start (fun _ => hw.traceable) _
  -- marking from the roots keeps the flags
  have hsteps : Steps (.start h.space h.options.interiorPointers) m := by
    have hleaves := hw.intact.leaves_markReachable (fun _ => hw.traceable)
      (leaves_runAll hw.valid hsafe fun _ => hcalls)
    rwa [hmark] at hleaves
  have hlive : ∀ entry ∈ h.finalizers, (m.space.object? entry.1).isSome := fun entry hentry => by
    rw [htraced.similar.isSome]
    exact hw.finalizers entry hentry
  have hunreached : ({ h with space := .vacant } : Heap).unreached m
      = h.finalizers.filter fun entry => !reached entry.1 := by
    refine List.filter_congr fun entry hentry => ?_
    obtain ⟨cell, hcell⟩ := Option.isSome_iff_exists.mp (hlive entry hentry)
    rw [Space.header_of_object? hcell, ← marks_of_object? hcell, hmarks]
  -- so does marking what is queued, once the flags of what is due are cleared
  have hsteps' : Steps (clearFlags (h.finalizers.filter fun entry => !reached entry.1) m) m' := by
    obtain ⟨m'', hstep, hok | ⟨fault, herror⟩⟩ :=
      leaves_queueUnreached (h := { h with space := .vacant }) htraced.similar.valid
        (hsafe.steps hsteps) hlive
    · have heq := hqueue.symm.trans hok
      simp only [EStateM.Result.ok.injEq, Prod.mk.injEq] at heq
      obtain ⟨-, -, rfl⟩ := heq
      rwa [hunreached] at hstep
    · cases hqueue.symm.trans herror
  have hkept := (hsteps'.flags a).trans (flags_clearFlags htraced.similar.valid
    (fun entry hentry => hlive entry (List.mem_filter.mp hentry).1) a)
  have hstart := hsteps.flags a
  have hsweep : (m'.space.sweep.2).object? a = some cell' := hcell'
  rw [htraced'.similar.valid.object?_sweep] at hsweep
  obtain ⟨cell₁, hfilter, rfl⟩ := Option.map_eq_some_iff.mp hsweep
  obtain ⟨hcell₁, -⟩ := Option.filter_eq_some_iff.mp hfilter
  rw [hcell₁] at hkept
  obtain ⟨cell₀, hcell₀, hflags₀⟩ := Option.map_eq_some_iff.mp hkept.symm
  rw [hcell₀] at hstart
  obtain ⟨cell, hcell, hflags⟩ := Option.map_eq_some_iff.mp hstart.symm
  exact ⟨cell, hcell, by rw [hflags]; exact hflags₀.symm⟩

/-! ## Runs -/

/-- A heap at the end of a run, with the book of its registrations and the actions that were handed out.
Values written to fields are accepted by the space; `write` covers the words that hold no value. -/
inductive Life : Heap → Custody → List (Value × Finalizer) → Prop where
  | new (mode : Mode) (options : HeapOptions) : Life (.new mode options) [] []
  | allocate {h h' : Heap} {c : Custody} {handed : List (Value × Finalizer)} {pages : Pages}
      {kind : Kind} {words : Nat} {result : Option Value} (h₀ : Life h c handed)
      (fresh : pages.Fresh h.space.Held) (hkind : kind.isHeap = true)
      (hrun : Heap.tryAllocate kind words { h with space := { h.space with pages } }
        = .ok result h') : Life h' c handed
  | store {h : Heap} {c : Custody} {handed : List (Value × Finalizer)} {v value : Value}
      {field : Field} {word : Nat} {space : Space} (h₀ : Life h c handed)
      (hfield : h.space.locate .debug v field = .ok (some word)) (hvalue : h.space.Accepts value)
      (hrun : Space.fieldSet h.mode v field value h.space = .ok () space) :
      Life { h with space } c handed
  | write {h : Heap} {c : Custody} {handed : List (Value × Finalizer)} {a index : Nat} {cell : Cell}
      (h₀ : Life h c handed) (hcell : h.space.object? a = some cell)
      (hindex : index < cell.header.words) (bits : Word)
      (ht : (h.space.setWord a index bits).Traceable) :
      Life { h with space := h.space.setWord a index bits } c handed
  | register {h h' : Heap} {c : Custody} {handed : List (Value × Finalizer)} {v : Value}
      {action : Finalizer} (h₀ : Life h c handed) (hlive : h.isLive v = true)
      (hrun : Heap.registerFinalizer v action h = .ok () h') :
      Life h' (c.register v.address action) handed
  | collect {h h' : Heap} {c : Custody} {handed : List (Value × Finalizer)} {calls : List RootCall}
      {collection : Collection} {reached : Nat → Bool} (h₀ : Life h c handed)
      (hcalls : ∀ call ∈ calls, call.Honest h.mode h.space)
      (hreached : ∀ a, reached a = true ↔ h.space.Reaches (h.Rooted calls) a)
      (hrun : Heap.collect (RootCall.runAll h.mode calls) h = .ok ((), collection) h') :
      Life h' (c.collect reached) handed
  | take {h h' : Heap} {c : Custody} {handed : List (Value × Finalizer)}
      {taken : Option (Value × Finalizer)} (h₀ : Life h c handed)
      (hrun : h.takePendingFinalizer = (taken, h')) :
      Life h' (c.take taken) (handed ++ taken.toList)
  | finish {h : Heap} {c : Custody} {handed : List (Value × Finalizer)} (h₀ : Life h c handed)
      (v : Value) : Life (h.finishFinalizer v) (c.finish v) handed

variable {c : Custody} {handed : List (Value × Finalizer)}

theorem fieldSet_eq {s : Space} {v value : Value} {field : Field} {word : Nat} (mode : Mode)
    (hfield : s.locate .debug v field = .ok (some word)) :
    Space.fieldSet mode v field value s = .ok () (s.setWord v.address word value.bits) := by
  simp only [Space.fieldSet, Space.locate_of_debug mode hfield]

/-- The book has no influence on the heap. -/
theorem Life.reachable (hl : Life h c handed) : h.Reachable := by
  induction hl with
  | new mode options => exact .new mode options
  | allocate _ fresh hkind hrun ih => exact .allocate ih fresh hkind hrun
  | store _ hfield hvalue hrun ih =>
    obtain ⟨-, ⟨cell, hcell, -, hindex⟩, -⟩ := Space.locate_debug hfield
    cases hrun.symm.trans (fieldSet_eq _ hfield)
    exact .write ih hcell hindex _
      (Space.traceable_setWord ih.wellFormed.valid ih.wellFormed.traceable hfield hvalue)
  | write _ hcell hindex bits ht ih => exact .write ih hcell hindex bits ht
  | register _ _ hrun ih => exact .register ih hrun
  | collect _ hcalls _ hrun ih => exact .collect ih (ih.wellFormed.permitted hcalls hrun) hrun
  | take _ hrun ih =>
    have hnext := ih.take
    rwa [hrun] at hnext
  | finish _ v ih => exact ih.finish v

/-! ## What the book says about the heap -/

/-- The heap agrees with the book. -/
structure Agrees (h : Heap) (c : Custody) (handed : List (Value × Finalizer)) : Prop where
  attached : h.finalizers.Perm (c.having .attached)
  queued : h.pending.Perm ((c.having .queued).map fun p => (Value.ofAddress p.1, p.2))
  running : h.finalizing.toList.Perm ((c.having .running).map fun p => Value.ofAddress p.1)
  handed : handed.Perm
    ((c.having .running ++ c.having .finished).map fun p => (Value.ofAddress p.1, p.2))
  /-- At most one action is attached to an object. -/
  single : ((c.having .attached).map (·.1)).Nodup
  /-- At most one action of an object is queued or running. -/
  once : ((c.having .queued ++ c.having .running).map (·.1)).Nodup
  live : ∀ p ∈ c.having .attached ++ (c.having .queued ++ c.having .running),
    (h.space.object? p.1).isSome
  flags : ∀ a cell, h.space.object? a = some cell →
    cell.header.flags = if a ∈ (c.having .attached).map (·.1) then Header.hasFinalizer else 0

namespace Agrees

theorem new (mode : Mode) (options : HeapOptions) : Agrees (.new mode options) [] [] := by
  refine ⟨.nil, .nil, .nil, .nil, List.nodup_nil, List.nodup_nil, List.forall_mem_nil _,
    fun a cell hcell => ?_⟩
  have hmem := ((Ledger.accounts_start options.maxSize).live a).mpr (Option.isSome_of_eq_some hcell)
  cases hmem

/-- What the book says does not depend on anything but the lists, the objects and their flags. -/
theorem congr (hagrees : Agrees h c handed) (hfinalizers : h'.finalizers = h.finalizers)
    (hpending : h'.pending = h.pending) (hfinalizing : h'.finalizing = h.finalizing)
    (hlive : ∀ a, (h.space.object? a).isSome → (h'.space.object? a).isSome)
    (hflags : ∀ a cell', h'.space.object? a = some cell' →
      (∃ cell, h.space.object? a = some cell ∧ cell'.header.flags = cell.header.flags) ∨
        h.space.object? a = none ∧ cell'.header.flags = 0) : Agrees h' c handed := by
  refine ⟨hfinalizers ▸ hagrees.attached, hpending ▸ hagrees.queued, hfinalizing ▸ hagrees.running,
    hagrees.handed, hagrees.single, hagrees.once, fun p hp => hlive _ (hagrees.live p hp),
    fun a cell' hcell' => ?_⟩
  obtain ⟨cell, hcell, heq⟩ | ⟨hnone, hzero⟩ := hflags a cell' hcell'
  · rw [heq]
    exact hagrees.flags a cell hcell
  · -- the object is new, and what is attached is attached to old objects
    rw [if_neg, hzero]
    intro hmem
    obtain ⟨p, hp, rfl⟩ := List.mem_map.mp hmem
    have hsome := hagrees.live p (List.mem_append_left _ hp)
    rw [hnone] at hsome
    cases hsome

theorem allocate (hagrees : Agrees h c handed) (hw : h.WellFormed) {pages : Pages} {kind : Kind}
    {words : Nat} {result : Option Value} (fresh : pages.Fresh h.space.Held)
    (hkind : kind.isHeap = true)
    (hrun : Heap.tryAllocate kind words { h with space := { h.space with pages } } = .ok result h') :
    Agrees h' c handed := by
  obtain ⟨t, hanswer, ht⟩ | ⟨a, cell, t, hanswer, hadds, hheader, -⟩ :=
    hw.valid.request h.mode fresh hkind words
  · have hview := ht.object? hw.valid
    simp only [Heap.tryAllocate, hanswer] at hrun
    cases hrun
    refine hagrees.congr rfl rfl rfl (fun x hx => by rwa [hview]) fun x cell' hx => ?_
    exact .inl ⟨cell', (hview x).symm.trans hx, rfl⟩
  · have hbytes := allocationSize_eq h.mode (bytes_lt_of_payload (words_lt_of_allocate hanswer))
    simp only [Heap.tryAllocate, hanswer, hbytes] at hrun
    cases hrun
    refine hagrees.congr rfl rfl rfl (fun x hx => ?_) fun x cell' hx => ?_
    · rw [hadds.view]
      split
      · rfl
      · exact hx
    · obtain ⟨rfl, rfl⟩ | hold := hadds.new_or_old hx
      · exact .inr ⟨hadds.absent, by rw [hheader]⟩
      · exact .inl ⟨cell', hold, rfl⟩

theorem write (hagrees : Agrees h c handed) (hw : h.WellFormed) {a index : Nat} {cell : Cell}
    (hcell : h.space.object? a = some cell) (bits : Word) :
    Agrees { h with space := h.space.setWord a index bits } c handed := by
  have hview := hw.valid.object?_setWord hcell index bits
  refine hagrees.congr rfl rfl rfl (fun x hx => ?_) fun x cell' hx => ?_
  · rw [hview]
    split
    · rfl
    · exact hx
  · rw [hview] at hx
    by_cases hxa : x = a
    · rw [if_pos hxa] at hx
      cases hx
      exact .inl ⟨cell, hxa ▸ hcell, by rw [Cell.header_setWord]⟩
    · rw [if_neg hxa] at hx
      exact .inl ⟨cell', hx, rfl⟩

theorem register (hagrees : Agrees h c handed) (hw : h.WellFormed) {v : Value} {action : Finalizer}
    (hlive : h.isLive v = true) (hrun : Heap.registerFinalizer v action h = .ok () h') :
    Agrees h' (c.register v.address action) handed := by
  rw [Heap.registerFinalizer, if_pos hlive] at hrun
  cases hrun
  obtain ⟨cell, hcell⟩ := Option.isSome_iff_exists.mp (isSome_of_isLive hw.valid hlive)
  have hfree : (cell.setHeader (cell.header.setFlag Header.hasFinalizer)).header.kind ≠ .free := by
    rw [Cell.header_setHeader]
    exact Space.kind_of_object? hcell
  have hview := hw.valid.object?_modifyCell
    (f := fun cell => cell.setHeader (cell.header.setFlag Header.hasFinalizer)) hcell hfree
  have hqueued := Custody.having_register_of_ne (show Fate.queued ≠ .attached by decide) (by decide)
    v.address action c
  have hrunning := Custody.having_register_of_ne (show Fate.running ≠ .attached by decide) (by decide)
    v.address action c
  have hfinished := Custody.having_register_of_ne (show Fate.finished ≠ .attached by decide) (by decide)
    v.address action c
  refine ⟨?_, hqueued ▸ hagrees.queued, hrunning ▸ hagrees.running, ?_, ?_, ?_, fun p hp => ?_,
    fun a cell' hcell' => ?_⟩
  · rw [Custody.having_register]
    exact (hagrees.attached.filter _).cons _
  · rw [hrunning, hfinished]
    exact hagrees.handed
  · rw [Custody.having_register, List.map_cons, List.nodup_cons]
    refine ⟨fun hmem => ?_, hagrees.single.sublist (List.filter_sublist.map _)⟩
    obtain ⟨p, hp, heq⟩ := List.mem_map.mp hmem
    simp [heq] at hp
  · rw [hqueued, hrunning]
    exact hagrees.once
  · rw [hqueued, hrunning, Custody.having_register] at hp
    rw [Space.modifyHeader, hview]
    split
    · rfl
    · refine hagrees.live p ?_
      simp only [List.mem_append, List.mem_cons, List.mem_filter] at hp ⊢
      grind
  · rw [Space.modifyHeader, hview] at hcell'
    simp only [Custody.having_register, List.map_cons, List.mem_cons]
    by_cases ha : a = v.address
    · rw [if_pos ha] at hcell'
      cases hcell'
      rw [if_pos (.inl ha)]
      change cell.header.flags ||| Header.hasFinalizer = Header.hasFinalizer
      rw [hagrees.flags _ cell hcell]
      split <;> rfl
    · rw [if_neg ha] at hcell'
      have hmem := Custody.mem_objects_filter (fun x => !x == v.address) (a := a)
        (l := c.having .attached)
      simp only [hmem, ha, false_or, Bool.not_eq_true', beq_eq_false_iff_ne, ne_eq,
        not_false_eq_true, and_true]
      exact hagrees.flags a cell' hcell'

end Agrees

/-! ### Collections -/

/-- The objects of queued and running finalizers are roots. -/
theorem Agrees.rooted (hagrees : Agrees h c handed) (hw : h.WellFormed) (calls : List RootCall)
    {p : Nat × Finalizer} (hp : p ∈ c.having .queued ++ c.having .running) : h.Rooted calls p.1 := by
  have hlive := hagrees.live p (List.mem_append_right _ hp)
  have hrefers : (Value.ofAddress p.1).RefersTo p.1 := (refersTo_ofAddress hw.valid hlive _).mpr rfl
  rcases List.mem_append.mp hp with hp | hp
  · exact .inr (.inl ⟨_, hagrees.queued.mem_iff.mpr (List.mem_map_of_mem hp), hrefers⟩)
  · exact .inr (.inr ⟨_, hagrees.running.mem_iff.mpr (List.mem_map_of_mem hp), hrefers⟩)

/-- So are, from the collection on that queues them, those of newly queued ones. -/
theorem Agrees.kept (hagrees : Agrees h c handed) (hw : h.WellFormed)
    (hreached : ∀ a, reached a = true ↔ h.space.Reaches (h.Rooted calls) a) {p : Nat × Finalizer}
    (hp : p ∈ (c.collect reached).having .queued ++ (c.collect reached).having .running) :
    h.Rooted calls p.1 ∨ h.Due calls p.1 := by
  rw [Custody.having_running_collect, List.mem_append,
    (Custody.having_queued_collect reached c).mem_iff, List.mem_append, List.mem_filter] at hp
  rcases hp with (hp | ⟨hp, hnot⟩) | hp
  · exact .inl (hagrees.rooted hw calls (List.mem_append_left _ hp))
  · refine .inr ⟨⟨p, hagrees.attached.mem_iff.mpr hp, rfl⟩, ?_⟩
    rw [← hreached]
    simpa using hnot
  · exact .inl (hagrees.rooted hw calls (List.mem_append_right _ hp))

/-- What is newly queued was not reached, unlike what is queued or running already. -/
theorem Agrees.once_collect (hagrees : Agrees h c handed) (hw : h.WellFormed)
    (hreached : ∀ a, reached a = true ↔ h.space.Reaches (h.Rooted calls) a) :
    (((c.collect reached).having .queued ++ (c.collect reached).having .running).map
      (·.1)).Nodup := by
  have hperm : ((c.collect reached).having .queued ++ (c.collect reached).having .running).Perm
      ((c.having .queued ++ c.having .running) ++
        (c.having .attached).filter fun p => !reached p.1) := by
    rw [Custody.having_running_collect]
    refine ((Custody.having_queued_collect reached c).append_right _).trans ?_
    rw [List.append_assoc, List.append_assoc]
    exact List.perm_append_comm.append_left _
  rw [(hperm.map _).nodup_iff, List.map_append, List.nodup_append]
  refine ⟨hagrees.once, hagrees.single.sublist (List.filter_sublist.map _), ?_⟩
  rintro a ha b hb rfl
  obtain ⟨p, hp, rfl⟩ := List.mem_map.mp ha
  obtain ⟨q, hq, heq⟩ := List.mem_map.mp hb
  have hyes := (hreached p.1).mpr (.root (hagrees.rooted hw calls hp))
  simp [heq, hyes] at hq

theorem Agrees.collect (hagrees : Agrees h c handed) (hw : h.WellFormed)
    (hcalls : ∀ call ∈ calls, call.Permitted h.space)
    (hreached : ∀ a, reached a = true ↔ h.space.Reaches (h.Rooted calls) a)
    (hrun : Heap.collect (RootCall.runAll h.mode calls) h = .ok ((), collection) h') :
    Agrees h' (c.collect reached) handed := by
  obtain ⟨collection', h'', hrun', hsurvives⟩ := hw.collect hcalls
  cases hrun.symm.trans hrun'
  obtain ⟨hfinalizers, hpending, hfinalizing, hflags⟩ := hw.collect_lists hcalls hreached hrun
  have hattached := Custody.having_attached_collect reached c
  have hrunning := Custody.having_running_collect reached c
  have hdue := hagrees.attached.filter fun p => !reached p.1
  refine ⟨?_, ?_, by rw [hfinalizing, hrunning]; exact hagrees.running, ?_, ?_,
    hagrees.once_collect hw hreached, fun p hp => ?_, fun a cell' hcell' => ?_⟩
  · rw [hfinalizers, hattached]
    exact hagrees.attached.filter _
  · rw [hpending]
    refine (hagrees.queued.append (hdue.map _)).trans ?_
    rw [← List.map_append]
    exact ((Custody.having_queued_collect reached c).map _).symm
  · rw [hrunning, Custody.having_finished_collect]
    exact hagrees.handed
  · rw [hattached]
    exact hagrees.single.sublist (List.filter_sublist.map _)
  · rcases List.mem_append.mp hp with hp | hp
    · refine hsurvives.wellFormed.finalizers p ?_
      rw [hattached] at hp
      rw [hfinalizers]
      exact (hagrees.attached.filter _).mem_iff.mpr hp
    · exact (hsurvives.live _).mpr (.root (hagrees.kept hw hreached hp))
  · obtain ⟨cell, hcell, heq⟩ := hflags a cell' hcell'
    rw [heq, hattached, hagrees.flags a cell hcell]
    have hmem : a ∈ (h.finalizers.filter fun entry => !reached entry.1).map (·.1)
        ↔ a ∈ (c.having .attached).map (·.1) ∧ reached a = false := by
      rw [(hdue.map _).mem_iff, Custody.mem_objects_filter fun a => !reached a,
        Bool.not_eq_true']
    simp only [hmem, Custody.mem_objects_filter]
    by_cases hin : a ∈ (c.having .attached).map (·.1)
    · cases reached a <;> simp [hin]
    · simp [hin]

/-! ### Running -/

theorem ofAddress_inj {s : Space} (hs : s.Valid) {a b : Nat} (ha : (s.object? a).isSome)
    (hb : (s.object? b).isSome) : Value.ofAddress a = Value.ofAddress b ↔ a = b := by
  refine ⟨fun heq => ?_, congrArg _⟩
  have hrefers : (Value.ofAddress b).RefersTo b := (refersTo_ofAddress hs hb b).mpr rfl
  rw [← heq] at hrefers
  exact (refersTo_ofAddress hs ha b).mp hrefers

/-- The values of different objects are different. -/
theorem nodup_values {s : Space} (hs : s.Valid) {l : List (Nat × Finalizer)}
    (hlive : ∀ p ∈ l, (s.object? p.1).isSome) (hnodup : (l.map (·.1)).Nodup) :
    (l.map fun p => Value.ofAddress p.1).Nodup := by
  have hmap := hnodup.map_on (f := Value.ofAddress) fun a ha b hb heq => by
    obtain ⟨p, hp, rfl⟩ := List.mem_map.mp ha
    obtain ⟨q, hq, rfl⟩ := List.mem_map.mp hb
    exact (ofAddress_inj hs (hlive p hp) (hlive q hq)).mp heq
  rwa [List.map_map] at hmap

theorem filter_eq_singleton {α β : Type} [DecidableEq β] {f : α → β} {l : List α}
    (hnodup : (l.map f).Nodup) {p : α} (hp : p ∈ l) : (l.filter fun q => f q == f p) = [p] := by
  induction l with
  | nil => cases hp
  | cons q l ih =>
    rw [List.map_cons, List.nodup_cons] at hnodup
    rcases List.mem_cons.mp hp with rfl | hp
    · have hrest : (l.filter fun q => f q == f p) = [] := by
        refine List.filter_eq_nil_iff.mpr fun q hq heq => hnodup.1 ?_
        exact beq_iff_eq.mp heq ▸ List.mem_map_of_mem hq
      simp [hrest]
    · have hne : f q ≠ f p := fun heq => hnodup.1 (heq ▸ List.mem_map_of_mem hp)
      rw [List.filter_cons_of_neg (by simpa using hne), ih hnodup.2 hp]

theorem Agrees.nodup_queued (hagrees : Agrees h c handed) (hw : h.WellFormed) :
    ((c.having .queued).map fun p => Value.ofAddress p.1).Nodup :=
  nodup_values hw.valid
    (fun q hq => hagrees.live q (List.mem_append_right _ (List.mem_append_left _ hq)))
    (hagrees.once.sublist ((List.sublist_append_left _ _).map _))

theorem Agrees.nodup_running (hagrees : Agrees h c handed) (hw : h.WellFormed) :
    ((c.having .running).map fun p => Value.ofAddress p.1).Nodup :=
  nodup_values hw.valid
    (fun q hq => hagrees.live q (List.mem_append_right _ (List.mem_append_right _ hq)))
    (hagrees.once.sublist ((List.sublist_append_right _ _).map _))

theorem Agrees.take (hagrees : Agrees h c handed) (hw : h.WellFormed)
    {taken : Option (Value × Finalizer)} (hrun : h.takePendingFinalizer = (taken, h')) :
    Agrees h' (c.take taken) (handed ++ taken.toList) := by
  unfold Heap.takePendingFinalizer at hrun
  split at hrun
  · cases hrun
    simpa [Custody.take] using hagrees
  next v action rest hpending =>
  cases hrun
  have hqueue := hagrees.queued
  rw [hpending] at hqueue
  obtain ⟨p, hp, heq⟩ := List.mem_map.mp (hqueue.mem_iff.mp List.mem_cons_self)
  obtain ⟨rfl, rfl⟩ := Prod.mk.inj heq
  -- the entry that is next in the queue is the only one that moves
  have hwhich : (c.having .queued).filter (fun q => Value.ofAddress q.1 == Value.ofAddress p.1)
      = [p] := filter_eq_singleton (hagrees.nodup_queued hw) hp
  have hsplit : (p :: (c.having .queued).filter
      fun q => !Value.ofAddress q.1 == Value.ofAddress p.1).Perm (c.having .queued) := by
    have hperm := List.filter_append_perm
      (fun q : Nat × Finalizer => Value.ofAddress q.1 == Value.ofAddress p.1) (c.having .queued)
    rwa [hwhich] at hperm
  rw [Option.toList_some, Custody.take_some]
  generalize hc' : c.advance .queued .running (Value.ofAddress · == Value.ofAddress p.1) = c'
  have hqueued : c'.having .queued = (c.having .queued).filter
      fun q => !Value.ofAddress q.1 == Value.ofAddress p.1 := by
    rw [← hc']
    exact Custody.having_source (by decide) _ c
  have hrunning : (c'.having .running).Perm (c.having .running ++ [p]) := by
    rw [← hc', ← hwhich]
    exact Custody.having_target (by decide) _ c
  have hattached : c'.having .attached = c.having .attached := by
    rw [← hc']
    exact Custody.having_other (by decide) (by decide) _ c
  have hfinished : c'.having .finished = c.having .finished := by
    rw [← hc']
    exact Custody.having_other (by decide) (by decide) _ c
  have hmoved : (c'.having .queued ++ c'.having .running).Perm
      (c.having .queued ++ c.having .running) := by
    rw [← hc']
    exact Custody.perm_advance (by decide) _ c
  refine ⟨hattached ▸ hagrees.attached, ?_, ?_, ?_, hattached ▸ hagrees.single, ?_, fun q hq => ?_,
    hattached ▸ hagrees.flags⟩
  · rw [hqueued]
    exact (hqueue.trans (hsplit.map _).symm).cons_inv
  · rw [Array.toList_push]
    refine (hagrees.running.append_right _).trans ?_
    simpa using (hrunning.map fun p => Value.ofAddress p.1).symm
  · rw [hfinished]
    refine (hagrees.handed.append_right _).trans ?_
    refine List.Perm.trans ?_ ((hrunning.append_right _).map _).symm
    simp only [List.map_append, List.append_assoc, List.map_cons, List.map_nil]
    exact List.perm_append_comm.append_left _
  · rw [(hmoved.map _).nodup_iff]
    exact hagrees.once
  · refine hagrees.live q ?_
    rw [hattached, List.mem_append, hmoved.mem_iff] at hq
    exact List.mem_append.mpr hq

/-- Putting the last entry in the place of another one and dropping it at the end erases the other. -/
theorem perm_dropLast_set {l : List Value} {index : Nat} (hlt : index < l.length) (hne : l ≠ []) :
    (l.set index (l.getLast hne)).dropLast.Perm (l.eraseIdx index) := by
  have hset : l.set index (l.getLast hne) ≠ [] := by simpa using hne
  -- the last entry ends up last, also where it replaces itself
  have hlast : (l.set index (l.getLast hne)).getLast hset = l.getLast hne := by
    rw [List.getLast_eq_getElem, List.getElem_set]
    split
    · rfl
    · simp [List.getLast_eq_getElem]
  have hparts := List.dropLast_append_getLast hset
  rw [hlast] at hparts
  have hperm := List.set_perm_cons_eraseIdx hlt (l.getLast hne)
  rw [← hparts] at hperm
  exact ((List.perm_append_singleton _ _).symm.trans hperm).cons_inv

/-- The other entries stay, in some order, when one is taken out. -/
theorem perm_removeLast (values : Array Value) (v : Value) :
    (removeLast values v).toList.Perm (values.toList.erase v) := by
  unfold removeLast
  split
  next index hfind =>
    have hlt : index < values.toList.length := by
      have hmem := List.mem_of_find?_eq_some hfind
      simpa using hmem
    have hv : values.toList[index] = v := by
      have hsome := List.find?_some hfind
      simpa [Array.getD_eq_getD_getElem?, Array.getElem?_eq_getElem hlt] using hsome
    have hsize : 0 < values.size := Nat.zero_lt_of_lt hlt
    have hne : values.toList ≠ [] := List.ne_nil_of_length_pos hsize
    have hback : values.back?.getD v = values.toList.getLast hne := by
      rw [Array.back?_eq_getElem?, List.getLast_eq_getElem, Array.getElem?_eq_getElem (by omega),
        Option.getD_some]
      rfl
    have herase : (v :: values.toList.eraseIdx index).Perm (v :: values.toList.erase v) := by
      have hcons := List.getElem_cons_eraseIdx_perm hlt
      rw [hv] at hcons
      exact hcons.trans (List.perm_cons_erase (hv ▸ List.getElem_mem hlt))
    rw [Array.toList_pop, Array.toList_setIfInBounds, hback]
    exact (perm_dropLast_set hlt hne).trans herase.cons_inv
  next hfind =>
    have hnot : v ∉ values.toList := by
      intro hmem
      obtain ⟨index, hlt, hv⟩ := List.getElem_of_mem hmem
      have hnone := List.find?_eq_none.mp hfind index (by simpa using hlt)
      have hlt' : index < values.size := hlt
      exact hnone (by simpa [Array.getD_eq_getD_getElem?, hlt'] using hv)
    rw [List.erase_of_not_mem hnot]

theorem Agrees.finish (hagrees : Agrees h c handed) (hw : h.WellFormed) (v : Value) :
    Agrees (h.finishFinalizer v) (c.finish v) handed := by
  have hrunning : (c.finish v).having .running
      = (c.having .running).filter fun p => !Value.ofAddress p.1 == v :=
    Custody.having_source (by decide) _ c
  have hattached : (c.finish v).having .attached = c.having .attached :=
    Custody.having_other (by decide) (by decide) _ c
  have hqueued : (c.finish v).having .queued = c.having .queued :=
    Custody.having_other (by decide) (by decide) _ c
  have hsub : (c.having .queued ++ (c.having .running).filter fun p =>
      !Value.ofAddress p.1 == v).Sublist (c.having .queued ++ c.having .running) :=
    List.Sublist.append_left List.filter_sublist _
  refine ⟨hattached ▸ hagrees.attached, hqueued ▸ hagrees.queued, ?_, ?_, hattached ▸ hagrees.single,
    ?_, fun q hq => ?_, hattached ▸ hagrees.flags⟩
  · -- an object is held at most once, so that taking one entry out leaves none
    rw [hrunning]
    refine (perm_removeLast _ v).trans ((hagrees.running.erase v).trans ?_)
    rw [(hagrees.nodup_running hw).erase_eq_filter, List.filter_map]
    exact .refl _
  · exact hagrees.handed.trans ((Custody.perm_advance (by decide) _ c).map _).symm
  · rw [hqueued, hrunning]
    exact hagrees.once.sublist (hsub.map _)
  · rw [hattached, hqueued, hrunning] at hq
    refine hagrees.live q ?_
    rcases List.mem_append.mp hq with hq | hq
    · exact List.mem_append_left _ hq
    · exact List.mem_append_right _ (hsub.subset hq)

/-- The heap agrees with the book all its life. -/
theorem Life.agrees (hl : Life h c handed) : Agrees h c handed := by
  induction hl with
  | new mode options => exact .new mode options
  | allocate h₀ fresh hkind hrun ih => exact ih.allocate h₀.reachable.wellFormed fresh hkind hrun
  | store h₀ hfield _ hrun ih =>
    obtain ⟨-, ⟨cell, hcell, -, -⟩, -⟩ := Space.locate_debug hfield
    cases hrun.symm.trans (fieldSet_eq _ hfield)
    exact ih.write h₀.reachable.wellFormed hcell _
  | write h₀ hcell _ bits _ ih => exact ih.write h₀.reachable.wellFormed hcell bits
  | register h₀ hlive hrun ih => exact ih.register h₀.reachable.wellFormed hlive hrun
  | collect h₀ hcalls hreached hrun ih =>
    have hw := h₀.reachable.wellFormed
    exact ih.collect hw (hw.permitted hcalls hrun) hreached hrun
  | take h₀ hrun ih => exact ih.take h₀.reachable.wellFormed hrun
  | finish h₀ v ih => exact ih.finish h₀.reachable.wellFormed v

/-! ## The result -/

theorem Agrees.flag_iff (hagrees : Agrees h c handed) {a : Nat} {cell : Cell}
    (hcell : h.space.object? a = some cell) :
    cell.header.flags &&& Header.hasFinalizer ≠ 0 ↔ ∃ action, ⟨a, action, .attached⟩ ∈ c := by
  have hmem : a ∈ (c.having .attached).map (·.1) ↔ ∃ action, ⟨a, action, .attached⟩ ∈ c := by
    simp [← Custody.mem_having]
  rw [hagrees.flags a cell hcell, ← hmem]
  split
  next hin => exact iff_of_true (by decide) hin
  next hout => exact iff_of_false (by decide) hout

/-- At every moment of a run each registered action has one fate, and the heap agrees with it: the
actions attached in the heap, its queue and the objects held for running finalizers are those of the
book, and the actions handed out are those that are running or finished, each once. An object is flagged
exactly when an action is attached to its address. The next completed collection moves exactly the
attached actions into the queue whose object is not reachable from the roots, from queued objects or
from objects being finalized; and whatever is reachable from the object of a queued or running action
survives it. -/
theorem Life.finalizers_accounted (hl : Life h c handed) :
    Agrees h c handed ∧
    (∀ a cell, h.space.object? a = some cell →
      (cell.header.flags &&& Header.hasFinalizer ≠ 0 ↔ ∃ action, ⟨a, action, .attached⟩ ∈ c)) ∧
    ∀ calls collection h' reached, (∀ call ∈ calls, call.Honest h.mode h.space) →
      (∀ a, reached a = true ↔ h.space.Reaches (h.Rooted calls) a) →
      Heap.collect (RootCall.runAll h.mode calls) h = .ok ((), collection) h' →
      Agrees h' (c.collect reached) handed ∧
      h'.finalizers = h.finalizers.filter (fun entry => reached entry.1) ∧
      h'.pending = h.pending ++ (h.finalizers.filter fun entry => !reached entry.1).map
        (fun entry => (Value.ofAddress entry.1, entry.2)) ∧
      ∀ entry ∈ c.collect reached, entry.fate = .queued ∨ entry.fate = .running →
        ∀ b, h.space.Reaches (· = entry.object) b → (h'.space.object? b).isSome := by
  have hw := hl.reachable.wellFormed
  have hagrees := hl.agrees
  refine ⟨hagrees, fun a cell hcell => hagrees.flag_iff hcell,
    fun calls collection h' reached hcalls hreached hrun => ?_⟩
  have hpermitted := hw.permitted hcalls hrun
  obtain ⟨hfinalizers, hpending, -, -⟩ := hw.collect_lists hpermitted hreached hrun
  obtain ⟨collection', h'', hrun', hsurvives⟩ := hw.collect hpermitted
  cases hrun.symm.trans hrun'
  refine ⟨hagrees.collect hw hpermitted hreached hrun, hfinalizers, hpending,
    fun ⟨object, action, fate⟩ hentry hfate b hreach => ?_⟩
  have hp : (object, action)
      ∈ (c.collect reached).having .queued ++ (c.collect reached).having .running := by
    rw [List.mem_append, Custody.mem_having, Custody.mem_having]
    rcases hfate with rfl | rfl
    · exact .inl hentry
    · exact .inr hentry
  refine (hsurvives.live b).mpr (hreach.mono ?_)
  rintro _ rfl
  exact .root (hagrees.kept hw hreached hp)

/-- A heap with a vector that nothing refers to. -/
def lonelyHeap : Heap :=
  match Heap.tryAllocate .vector 200
      { Heap.new .debug ⟨0, 65536, .two, true⟩ with
        space := { Space.new 65536 with pages := .fresh } } with
  | .ok _ h => h
  | .error _ h => h

theorem life_lonelyHeap : Life lonelyHeap [] [] := by
  have hfresh := Ledger.fresh_start 65536
  obtain ⟨result, h', hrun, -⟩ := (wellFormed_new .debug ⟨0, 65536, .two, true⟩).tryAllocate
    hfresh (show Kind.isHeap .vector = true from rfl) 200
  have heq : lonelyHeap = h' := by
    unfold lonelyHeap
    exact hrun ▸ rfl
  exact heq ▸ .allocate (.new _ _) hfresh rfl hrun

theorem Life.finalizers_accounted_lonelyHeap :
    ∃ h, Life h [⟨0x7f0000000000, [], .running⟩] [(Value.ofAddress 0x7f0000000000, [])] ∧
      h.finalizing.toList.Perm [Value.ofAddress 0x7f0000000000] ∧
      ∀ cell, h.space.object? 0x7f0000000000 = some cell →
        cell.header.flags &&& Header.hasFinalizer = 0 := by
  have hlive : lonelyHeap.isLive (Value.ofAddress 0x7f0000000000) = true := by decide +kernel
  have haddress : (Value.ofAddress 0x7f0000000000).address = 0x7f0000000000 := by decide
  obtain ⟨h₁, hregister, hpending₁, hfinalizing₁, hfinalizers₁⟩ : ∃ h₁,
      Heap.registerFinalizer (Value.ofAddress 0x7f0000000000) [] lonelyHeap = .ok () h₁ ∧
        h₁.pending = [] ∧ h₁.finalizing.toList = [] ∧ h₁.finalizers = [(0x7f0000000000, [])] := by
    refine ⟨_, if_pos hlive, ?_, ?_, ?_⟩ <;> decide +kernel
  have hlife₁ := Life.register life_lonelyHeap hlive hregister
  have hunreached : ∀ a, ¬ h₁.space.Reaches (h₁.Rooted []) a := by
    intro a hreach
    induction hreach with
    | root hroot => simp [Rooted, hpending₁, hfinalizing₁] at hroot
    | step _ _ _ ih => exact ih
  obtain ⟨collection, h₂, hcollect, -⟩ := hlife₁.reachable.wellFormed.collect
    (List.forall_mem_nil _)
  have hreached : ∀ a, (fun _ => false : Nat → Bool) a = true ↔ h₁.space.Reaches (h₁.Rooted []) a :=
    fun a => by simp [hunreached a]
  have hlife₂ := Life.collect hlife₁ (List.forall_mem_nil _) hreached hcollect
  obtain ⟨-, -, hnext⟩ := hlife₁.finalizers_accounted
  obtain ⟨-, -, hpending₂, -⟩ := hnext [] collection h₂ _ (List.forall_mem_nil _) hreached hcollect
  have htake : h₂.takePendingFinalizer = (some (Value.ofAddress 0x7f0000000000, []),
      { h₂ with
        pending := []
        finalizing := h₂.finalizing.push (Value.ofAddress 0x7f0000000000) }) := by
    simp [Heap.takePendingFinalizer, hpending₂, hpending₁, hfinalizers₁]
  have hbook : Custody.take (some (Value.ofAddress 0x7f0000000000, []))
      (Custody.collect (fun _ => false) (Custody.register 0x7f0000000000 [] []))
      = [⟨0x7f0000000000, [], .running⟩] := by decide
  have hlife₃ := Life.take hlife₂ htake
  rw [haddress, hbook] at hlife₃
  obtain ⟨hagrees, hflags, -⟩ := hlife₃.finalizers_accounted
  refine ⟨_, hlife₃, hagrees.running, fun cell hcell => ?_⟩
  refine Decidable.not_not.mp fun hflag => ?_
  obtain ⟨action, hmem⟩ := (hflags _ cell hcell).mp hflag
  simp at hmem

end Heap

end Substrate
