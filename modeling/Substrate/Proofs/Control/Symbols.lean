import Substrate.Proofs.Collection.Finalizers

/-!
# Symbols as objects

What the heap says about a live symbol: where its global value and its binding index are, and what is
read from there.
-/

namespace Substrate

namespace Space

variable {mode : Mode} {s : Space} {v value : Value} {field : Field} {word : Nat} {cell : Cell}

/-- No access leaves the object it is given. -/
theorem locate_some (h : s.locate mode v field = .ok (some word)) :
    v.isHeapRef = true ∧ field.word mode = .ok word ∧ word < (s.header v.address).words := by
  cases mode with
  | debug =>
    obtain ⟨href, ⟨cell, hcell, -, hwords⟩, hword⟩ := locate_debug h
    rw [header_of_object? hcell]
    exact ⟨href, hword, hwords⟩
  | release =>
    cases href : v.isHeapRef with
    | false => simp [locate, href, Mode.violation, bind, Except.bind, pure, Except.pure] at h
    | true =>
    cases hword : field.word .release with
    | error fault => simp [locate, href, hword, bind, Except.bind] at h
    | ok w =>
      have hwords : ¬ (s.header v.address).words ≤ w := by
        intro hwords
        simp [locate, href, hword, hwords, Mode.violation, bind, Except.bind, pure,
          Except.pure] at h
      obtain rfl : w = word := by
        simpa [locate, href, hword, hwords, Mode.violation, bind, Except.bind, pure,
          Except.pure] using h
      exact ⟨rfl, rfl, Nat.not_le.mp hwords⟩

/-- The kind of an object is that in its header. -/
theorem kindWith_of_isHeapRef (href : v.isHeapRef = true) (kind : Kind) : v.kindWith kind = kind := by
  simp only [Value.isHeapRef, Bool.and_eq_true, bne_iff_ne, beq_iff_eq] at href
  have hodd : v.bits &&& 1 = 0 := by
    rw [show (1 : UInt64) = 7 &&& 1 from rfl, ← UInt64.and_assoc, href.2]
    rfl
  simp [Value.kindWith, hodd, href.1, href.2]

theorem header_of_isKind {kind : Kind} (hkind : kind.isHeap = true) (h : s.isKind v kind = true) :
    v.isHeapRef = true ∧ (s.header v.address).kind = kind := by
  rw [isKind, if_pos hkind, Bool.and_eq_true] at h
  obtain ⟨href, hof⟩ := h
  rw [kindOf, if_pos href, kindWith_of_isHeapRef href] at hof
  exact ⟨href, beq_iff_eq.mp hof⟩

/-- The object that a live symbol is. -/
theorem object_of_isKind {kind : Kind} (hkind : kind.isHeap = true) (h : s.isKind v kind = true)
    (hlive : s.Accepts v) : ∃ cell, s.object? v.address = some cell ∧ cell.header.kind = kind := by
  obtain ⟨href, hheader⟩ := header_of_isKind hkind h
  obtain ⟨cell, hcell⟩ := Option.isSome_iff_exists.mp (hlive href)
  rw [header_of_object? hcell] at hheader
  exact ⟨cell, hcell, hheader⟩

/-- What a release build finds in an object of the right kind, a debug build finds as well. -/
theorem locate_debug_of_isKind (hkind : s.isKind v .symbol = true)
    (h : s.locate mode v .symbolValue = .ok (some word)) :
    s.locate .debug v .symbolValue = .ok (some word) := by
  obtain ⟨href, hword, hwords⟩ := locate_some h
  obtain ⟨-, hheader⟩ := header_of_isKind rfl hkind
  simp [locate, href, show Field.symbolValue.word .debug = .ok word from hword, hheader, Field.kind,
    Nat.not_le.mpr hwords, bind, Except.bind, pure, Except.pure]

/-- The global value of a live symbol can be traced like any other slot. -/
theorem accepts_fieldGet (ht : s.Traceable) (hkind : s.isKind v .symbol = true) (hlive : s.Accepts v)
    (h : s.fieldGet mode v .symbolValue = .ok value) : s.Accepts value := by
  obtain ⟨cell, hcell, hsymbol⟩ := object_of_isKind rfl hkind hlive
  unfold fieldGet at h
  cases hfield : s.locate mode v .symbolValue with
  | error fault =>
    rw [hfield] at h
    cases h
  | ok place =>
    rw [hfield] at h
    cases place with
    | none =>
      cases h
      exact fun href => by cases href
    | some word =>
      obtain ⟨-, hword, hwords⟩ := locate_some hfield
      cases hword
      cases h
      rw [word_of_object? hcell]
      rw [header_of_object? hcell] at hwords
      refine ht.slots _ cell hcell 1 (List.mem_append_left _ ?_)
      simpa [Layout.listedSlots, hsymbol, Layout.of] using hwords

/-! ## Symbols that can be bound -/

/-- A symbol with a word for its binding index. -/
structure SymbolAt (s : Space) (v : Value) (cell : Cell) : Prop where
  ref : v.isHeapRef = true
  object : s.object? v.address = some cell
  kind : cell.header.kind = .symbol
  words : At.symbolBindingIndex < cell.header.words

namespace SymbolAt

variable (h : s.SymbolAt v cell)
include h

theorem isKind : s.isKind v .symbol = true := by
  simp [Space.isKind, Kind.isHeap, kindOf, kindWith_of_isHeapRef h.ref, header_of_object? h.object,
    h.ref, h.kind]

theorem checkWord (mode : Mode) :
    s.checkWord mode v .symbol At.symbolBindingIndex = .ok true := by
  have hwords := Nat.not_le.mpr h.words
  cases mode <;> simp [Space.checkWord, Mode.assertWith, h.isKind, header_of_object? h.object, hwords,
    bind, Except.bind, pure, Except.pure]

theorem symbolBindingIndex (mode : Mode) :
    s.symbolBindingIndex mode v = .ok (cell.word At.symbolBindingIndex).toNat := by
  simp [Space.symbolBindingIndex, rawWord, h.checkWord mode, word_of_object? h.object, bind,
    Except.bind, pure, Except.pure, Functor.map, Except.map]

/-- All fields of a symbol come before its binding index. -/
theorem locate_field {mode : Mode} (hkind : field.kind = .symbol) (hword : field.word mode = .ok word)
    (hle : word ≤ At.symbolBindingIndex) : s.locate mode v field = .ok (some word) := by
  have hwords : ¬cell.header.words ≤ word := Nat.not_le.mpr (Nat.lt_of_le_of_lt hle h.words)
  simp [Space.locate, h.ref, header_of_object? h.object, h.kind, hkind, hword, hwords, bind,
    Except.bind, pure, Except.pure]

theorem locate (mode : Mode) : s.locate mode v .symbolValue = .ok (some 1) :=
  h.locate_field rfl rfl (by decide)

theorem fieldGet (mode : Mode) : s.fieldGet mode v .symbolValue = .ok ⟨cell.word 1⟩ := by
  simp [Space.fieldGet, h.locate mode, word_of_object? h.object, bind, Except.bind, pure, Except.pure]

theorem retained {t : Space} (hretains : s.Retains t) : ∃ cell', t.SymbolAt v cell' := by
  obtain ⟨cell', hcell', hkind, hwords⟩ := hretains _ cell h.object
  exact ⟨cell', h.ref, hcell', hkind.trans h.kind, hwords ▸ h.words⟩

/-- A symbol that something is written to stays a symbol. -/
theorem setWord (hs : s.Valid) {a : Nat} {written : Cell} (hwritten : s.object? a = some written)
    (index : Nat) (bits : Word) : (s.setWord a index bits).SymbolAt v
      (if v.address = a then cell.setWord index bits else cell) := by
  have hview := hs.object?_setWord hwritten index bits
  by_cases ha : v.address = a
  · subst ha
    cases hwritten.symm.trans h.object
    rw [if_pos rfl]
    refine ⟨h.ref, by rw [hview, if_pos rfl], ?_, ?_⟩
    · rw [Cell.header_setWord]
      exact h.kind
    · rw [Cell.header_setWord]
      exact h.words
  · rw [if_neg ha]
    exact ⟨h.ref, by rw [hview, if_neg ha, h.object], h.kind, h.words⟩

end SymbolAt

end Space

end Substrate
