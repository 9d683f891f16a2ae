import Substrate.Object
import Substrate.Proofs.Space.Holdings

/-!
# The object graph

An object refers to what its value slots hold, and an object is reachable if references lead to it
from the roots. `Space.Traceable` is what a collection relies on: every slot holds an immediate or a
reference to an object, and every stored length fits its object. Two spaces are `Similar` if they
have the same objects with the same contents, whatever the marks and flags are; a collection only
goes through similar spaces until it sweeps.
-/

namespace Substrate

/-- The payload words of an object that hold values, in the order in which they are visited. -/
def Cell.slots (cell : Cell) : List Nat :=
  let layout := Layout.of cell.header.kind
  layout.listedSlots cell.header.words ++
    match layout.valueLengthWord? cell.header.words with
    | none => []
    | some word =>
      List.range' layout.fixedWords
        (min (cell.word word).toNat (layout.room cell.header.words))

theorem Value.eq_of_address {v w : Value} (h : v.address = w.address) : v = w := by
  cases v
  cases w
  exact congrArg Value.mk (UInt64.toNat_inj.mp h)

/-- The object that a value refers to. -/
def Value.RefersTo (v : Value) (a : Nat) : Prop :=
  v.isHeapRef = true ∧ v.address = a

/-- Some value slot of the object refers to the address. -/
def Cell.RefersTo (cell : Cell) (a : Nat) : Prop :=
  ∃ index ∈ cell.slots, Value.RefersTo ⟨cell.word index⟩ a

/-- What starts at a word other than the first can be referred to. -/
theorem isHeapRef_ofAddress {a : Nat} (hpos : 0 < a) (hmod : a % wordBytes = 0)
    (hlt : a < wordLimit) : (Value.ofAddress a).isHeapRef = true := by
  have htoNat : (UInt64.ofNat a).toNat = a := UInt64.toNat_ofNat_of_lt' hlt
  have hne : UInt64.ofNat a ≠ 0 := by
    intro h
    have hzero := congrArg UInt64.toNat h
    rw [htoNat] at hzero
    exact Nat.ne_of_gt hpos hzero
  have hand : UInt64.ofNat a &&& 7 = 0 := by
    have hlow : a &&& 7 = a % wordBytes := Nat.and_two_pow_sub_one_eq_mod a 3
    apply UInt64.toNat_inj.mp
    rw [UInt64.toNat_and, htoNat]
    exact hlow.trans hmod
  simp [Value.isHeapRef, Value.ofAddress, hne, hand]

namespace Space

/-- References lead from the roots to the object at an address. -/
inductive Reaches (s : Space) (roots : Nat → Prop) : Nat → Prop where
  | root {a : Nat} (h : roots a) : Reaches s roots a
  | step {a b : Nat} {cell : Cell} (h : Reaches s roots a) (hcell : s.object? a = some cell)
      (href : cell.RefersTo b) : Reaches s roots b

/-- References lead from the roots to the object at an address, none of them out of a stale object. -/
inductive ReachesPast (s : Space) (stale roots : Nat → Prop) : Nat → Prop where
  | root {a : Nat} (h : roots a) : ReachesPast s stale roots a
  | step {a b : Nat} {cell : Cell} (h : ReachesPast s stale roots a) (hstale : ¬ stale a)
      (hcell : s.object? a = some cell) (href : cell.RefersTo b) : ReachesPast s stale roots b

/-- The value is an immediate or refers to an object. -/
def Accepts (s : Space) (v : Value) : Prop :=
  v.isHeapRef = true → (s.object? v.address).isSome

/-- What a collection relies on. -/
structure Traceable (s : Space) : Prop where
  slots : ∀ a cell, s.object? a = some cell → ∀ index ∈ cell.slots, s.Accepts ⟨cell.word index⟩
  lengths : ∀ a cell word, s.object? a = some cell →
    (Layout.of cell.header.kind).valueLengthWord? cell.header.words = some word →
    (cell.word word).toNat ≤ (Layout.of cell.header.kind).room cell.header.words

end Space

/-! ## Contents -/

/-- The cells hold the same object, apart from its mark and flags. -/
structure Cell.Similar (cell cell' : Cell) : Prop where
  kind : cell'.header.kind = cell.header.kind
  words : cell'.header.words = cell.header.words
  word : ∀ index, cell'.word index = cell.word index

namespace Cell.Similar

variable {cell cell' cell'' : Cell}

theorem refl (cell : Cell) : Similar cell cell := ⟨rfl, rfl, fun _ => rfl⟩

theorem trans (h : Similar cell cell') (h' : Similar cell' cell'') : Similar cell cell'' :=
  ⟨h'.kind.trans h.kind, h'.words.trans h.words, fun i => (h'.word i).trans (h.word i)⟩

theorem slots (h : Similar cell cell') : cell'.slots = cell.slots := by
  simp only [Cell.slots, h.kind, h.words, h.word]

theorem refersTo (h : Similar cell cell') {a : Nat} : cell'.RefersTo a ↔ cell.RefersTo a := by
  simp only [Cell.RefersTo, h.slots, h.word]

theorem unmarked (cell : Cell) : Similar cell (Block.unmarked cell) :=
  ⟨rfl, rfl, fun i => Cell.word_setHeader cell _ i⟩

end Cell.Similar

namespace Space

variable {s t u : Space} {a b : Nat} {cell : Cell} {roots roots' : Nat → Prop}

/-- The spaces have the same objects with the same contents, and finding them gives the same
answers. -/
structure Similar (s t : Space) : Prop where
  valid : t.Valid
  contents : ∀ a, (s.object? a = none ∧ t.object? a = none) ∨
    ∃ cell cell', s.object? a = some cell ∧ t.object? a = some cell' ∧ cell.Similar cell'
  found : ∀ x interior, t.findObject? x interior = s.findObject? x interior

theorem Similar.refl (hs : s.Valid) : Similar s s := by
  refine ⟨hs, fun a => ?_, fun _ _ => rfl⟩
  cases h : s.object? a with
  | none => exact .inl ⟨rfl, rfl⟩
  | some cell => exact .inr ⟨cell, cell, rfl, rfl, .refl cell⟩

theorem Similar.trans (h : Similar s t) (h' : Similar t u) : Similar s u := by
  refine ⟨h'.valid, fun a => ?_, fun x interior => (h'.found x interior).trans (h.found x interior)⟩
  obtain ⟨hs, ht⟩ | ⟨cell, cell', hs, ht, hsim⟩ := h.contents a
  · obtain ⟨-, hu⟩ | ⟨_, _, ht', -⟩ := h'.contents a
    · exact .inl ⟨hs, hu⟩
    · rw [ht] at ht'
      cases ht'
  · obtain ⟨ht', -⟩ | ⟨cell₁, cell'', ht', hu, hsim'⟩ := h'.contents a
    · rw [ht] at ht'
      cases ht'
    · obtain rfl : cell' = cell₁ := Option.some.inj (ht.symm.trans ht')
      exact .inr ⟨cell, cell'', hs, hu, hsim.trans hsim'⟩

theorem Similar.object (h : Similar s t) (hcell : s.object? a = some cell) :
    ∃ cell', t.object? a = some cell' ∧ cell.Similar cell' := by
  obtain ⟨hs, -⟩ | ⟨cell₁, cell', hs, ht, hsim⟩ := h.contents a
  · rw [hcell] at hs
    cases hs
  · obtain rfl : cell = cell₁ := Option.some.inj (hcell.symm.trans hs)
    exact ⟨cell', ht, hsim⟩

theorem Similar.object_back (h : Similar s t) {cell' : Cell} (hcell : t.object? a = some cell') :
    ∃ cell, s.object? a = some cell ∧ cell.Similar cell' := by
  obtain ⟨-, ht⟩ | ⟨cell, cell₁, hs, ht, hsim⟩ := h.contents a
  · rw [hcell] at ht
    cases ht
  · obtain rfl : cell' = cell₁ := Option.some.inj (hcell.symm.trans ht)
    exact ⟨cell, hs, hsim⟩

theorem Similar.isSome (h : Similar s t) (a : Nat) :
    (t.object? a).isSome = (s.object? a).isSome := by
  obtain ⟨hs, ht⟩ | ⟨cell, cell', hs, ht, -⟩ := h.contents a
  · rw [hs, ht]
  · rw [hs, ht, Option.isSome_some, Option.isSome_some]

theorem Similar.accepts (h : Similar s t) {v : Value} : t.Accepts v ↔ s.Accepts v := by
  simp only [Accepts, h.isSome]

theorem Similar.traceable (h : Similar s t) (hs : s.Traceable) : t.Traceable := by
  refine ⟨fun a cell' hcell index hindex => ?_, fun a cell' word hcell hword => ?_⟩
  · obtain ⟨cell, hcell, hsim⟩ := h.object_back hcell
    rw [hsim.slots] at hindex
    rw [h.accepts, hsim.word]
    exact hs.slots a cell hcell index hindex
  · obtain ⟨cell, hcell, hsim⟩ := h.object_back hcell
    rw [hsim.kind, hsim.words] at hword
    rw [hsim.kind, hsim.words, hsim.word]
    exact hs.lengths a cell word hcell hword

/-! ## Changing marks and flags -/

theorem Valid.findObject?_congr (hs : s.Valid) (ht : t.Valid)
    (hobjects : ∀ a, (t.object? a).isSome = (s.object? a).isSome)
    (hextents : ∀ a, (s.object? a).isSome → t.extent a = s.extent a) (x : Nat) (interior : Bool) :
    t.findObject? x interior = s.findObject? x interior := by
  ext o
  cases interior with
  | false => rw [ht.findObject?_exact, hs.findObject?_exact, hobjects]
  | true =>
    rw [ht.findObject?_interior, hs.findObject?_interior, hobjects]
    constructor
    · rintro ⟨ho, hx⟩
      exact ⟨ho, by rwa [hextents o ho] at hx⟩
    · rintro ⟨ho, hx⟩
      exact ⟨ho, by rwa [hextents o ho]⟩

/-- A header of the same kind and size in place of an object's own leaves a similar space. -/
theorem Valid.similar_modifyHeader (hs : s.Valid) (hcell : s.object? a = some cell)
    {f : Header → Header} (hkind : (f cell.header).kind = cell.header.kind)
    (hwords : (f cell.header).words = cell.header.words) : Similar s (s.modifyHeader a f) := by
  have hfree : (cell.setHeader (f cell.header)).header.kind ≠ .free := by
    rw [Cell.header_setHeader, hkind]
    exact kind_of_object? hcell
  have hview := hs.object?_modifyCell (f := fun cell => cell.setHeader (f cell.header)) hcell hfree
  have ht := hs.modifyCell (f := fun cell => cell.setHeader (f cell.header)) hcell hfree hwords
  have hcontents : ∀ x, (s.object? x = none ∧ (s.modifyHeader a f).object? x = none) ∨
      ∃ cell cell', s.object? x = some cell ∧ (s.modifyHeader a f).object? x = some cell' ∧
        cell.Similar cell' := by
    intro x
    have hx := hview x
    by_cases hxa : x = a
    · subst hxa
      rw [if_pos rfl] at hx
      exact .inr ⟨cell, _, hcell, hx, hkind, hwords, fun i => Cell.word_setHeader cell _ i⟩
    · rw [if_neg hxa] at hx
      cases hold : s.object? x with
      | none => exact .inl ⟨rfl, hx.trans hold⟩
      | some cell' => exact .inr ⟨cell', cell', rfl, hx.trans hold, .refl cell'⟩
  refine ⟨ht, hcontents, hs.findObject?_congr ht (fun x => ?_) fun x hx => ?_⟩
  · obtain ⟨hold, hnew⟩ | ⟨_, _, hold, hnew, -⟩ := hcontents x
    · exact congrArg Option.isSome (hnew.trans hold.symm)
    · rw [hold, hnew, Option.isSome_some, Option.isSome_some]
  · exact hs.extent_modifyCell hcell hfree hwords hx

/-! ## All objects -/

theorem length_flatMap_le {α β : Type} {f : α → List β} {step : Nat → α → Nat}
    (h : ∀ n a, n + (f a).length ≤ step n a) (l : List α) (n : Nat) :
    n + (l.flatMap f).length ≤ l.foldl step n := by
  induction l generalizing n with
  | nil => simp
  | cons a l ih =>
    have ha := h n a
    have hl := ih (step n a)
    simp only [List.flatMap_cons, List.length_append, List.foldl_cons]
    omega

/-- There is memory for all objects. -/
theorem length_objects_le (s : Space) : s.objects.length ≤ s.capacity := by
  have hcells : ∀ (n : Nat) (block : Block), n + ((List.range block.cells.size).filterMap fun index =>
      block.objectAt? (index * block.cellBytes)).length ≤ n + block.cells.size := by
    intro n block
    have := List.length_filterMap_le (fun index => block.objectAt? (index * block.cellBytes))
      (List.range block.cells.size)
    rw [List.length_range] at this
    omega
  have hsmall := length_flatMap_le
    (fun n (pool : Pool) => length_flatMap_le hcells pool.blocks.toList n) s.pools.toList s.large.size
  simp only [objects, capacity, List.length_append, Std.TreeMap.length_keys, ← Array.foldl_toList]
  omega

/-! ## Reachability -/

theorem Reaches.mono (hroots : ∀ a, roots a → Reaches s roots' a) (h : Reaches s roots a) :
    Reaches s roots' a := by
  induction h with
  | root h => exact hroots _ h
  | step _ hcell href ih => exact .step ih hcell href

theorem ReachesPast.mono {stale : Nat → Prop} (hroots : ∀ a, roots a → ReachesPast s stale roots' a)
    (h : ReachesPast s stale roots a) : ReachesPast s stale roots' a := by
  induction h with
  | root h => exact hroots _ h
  | step _ hstale hcell href ih => exact .step ih hstale hcell href

/-- Where nothing is stale, references lead everywhere. -/
theorem reachesPast_iff {stale : Nat → Prop} (hstale : ∀ a, ¬ stale a) :
    ReachesPast s stale roots a ↔ Reaches s roots a := by
  constructor
  · intro h
    induction h with
    | root h => exact .root h
    | step _ _ hcell href ih => exact .step ih hcell href
  · intro h
    induction h with
    | root h => exact .root h
    | step _ hcell href ih => exact .step ih (hstale _) hcell href

end Space

end Substrate
