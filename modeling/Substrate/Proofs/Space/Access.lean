import Substrate.Object
import Substrate.Proofs.Space.Runs

/-!
# Accesses to fields that an object does not have

A debug build refuses an access to a field of another kind of object, or behind the last payload word.
A release build has no time to look at the kind: it reads and writes the payload word that the field has
in an object of its own kind, provided that the object at hand has such a word, and otherwise reads the
empty value and writes nothing. Either way an access does not leave its object.
-/

namespace Substrate

variable {s : Space} {v : Value} {cell : Cell} {field : Field} {header : Header}

/-- The payload word of the field, were words unbounded. -/
def Field.position : Field → Nat
  | car | symbolName | ratioNumerator | complexReal | structType => 0
  | cdr | symbolValue | ratioDenominator | complexImag | closureEnv => 1
  | symbolFunction | closureName | streamElementType | foreignTag => 2
  | symbolPlist | streamBuffer => 3
  | symbolPackage => 4
  | vectorElt index => 1 + index
  | structSlot index => 2 + index

theorem Field.word_eq (mode : Mode) (h : field.position < wordLimit) :
    field.word mode = .ok field.position := by
  cases field with
  | vectorElt index => exact if_pos h
  | structSlot index => exact if_pos h
  | _ => rfl

/-- A debug build computes no other position. -/
theorem Field.eq_position {mode : Mode} {word : Nat}
    (hfits : mode = .debug ∨ field.position < wordLimit) (h : field.word mode = .ok word) :
    word = field.position := by
  by_cases hlt : field.position < wordLimit
  · exact (Except.ok.inj ((field.word_eq mode hlt).symm.trans h)).symm
  · obtain rfl := hfits.resolve_right hlt
    cases field with
    | vectorElt index | structSlot index =>
      simp only [position] at hlt
      simp only [Field.word, Mode.add, if_neg hlt] at h
      cases h
    | _ => exact absurd (by decide) hlt

/-- Two fields of an object are in two words. -/
theorem Field.eq_of_position {other : Field} (hkind : other.kind = field.kind)
    (h : other.position = field.position) : other = field := by
  cases field <;> cases other <;> cases hkind <;> simp only [position] at h <;> first | rfl | grind

/-- An object with this header has the field. -/
def Header.Supports (header : Header) (field : Field) : Prop :=
  header.kind = field.kind ∧ field.position < header.words

instance : Decidable (header.Supports field) := inferInstanceAs (Decidable (_ ∧ _))

/-- What a debug build says about an access to a field that the object does not have. -/
def Field.complaint (field : Field) (header : Header) : String :=
  if header.kind = field.kind then field.title ++ " is outside of a " ++ header.kind.name
  else field.title ++ " of a " ++ header.kind.name

namespace Space

theorem locate_debug_of_unsupported (href : v.isHeapRef = true) (hposition : field.position < wordLimit)
    (hfield : ¬ (s.header v.address).Supports field) :
    s.locate .debug v field =
      .error (.fatal .contractViolation (field.complaint (s.header v.address))) := by
  rw [locate, Field.word_eq _ hposition, Field.complaint]
  by_cases hkind : (s.header v.address).kind = field.kind
  · have hwords : (s.header v.address).words ≤ field.position := by
      simpa [Header.Supports, hkind] using hfield
    simp [href, hkind, hwords, Mode.violation, bind, Except.bind]
  · simp [href, hkind, Mode.violation, bind, Except.bind]

/-- A release build only looks at the size of the object. -/
theorem locate_release (href : v.isHeapRef = true) (hposition : field.position < wordLimit) :
    s.locate .release v field = .ok
      (if (s.header v.address).words ≤ field.position then none else some field.position) := by
  rw [locate, Field.word_eq _ hposition]
  by_cases hkind : (s.header v.address).kind = field.kind <;>
    by_cases hwords : (s.header v.address).words ≤ field.position <;>
    simp [href, hkind, hwords, Mode.violation, bind, Except.bind, pure, Except.pure]

/-- Accesses to a field that a live object does not have are contained. A debug build raises a contract
violation and leaves the space as it is. A release build reads the empty value and writes nothing if the
field lies behind the last payload word. If only the kind is wrong, it reads the payload word at the
position of the field, or replaces that word and changes nothing else: no header, no other word of this
object, and no other cell. -/
theorem Valid.unsupported_contained (hs : s.Valid) (href : v.isHeapRef = true)
    (hcell : s.object? v.address = some cell) (hposition : field.position < wordLimit)
    (hfield : ¬ cell.header.Supports field) (value : Value) :
    (s.fieldGet .debug v field
        = .error (.fatal .contractViolation (field.complaint cell.header)) ∧
      fieldSet .debug v field value s
        = .error (.fatal .contractViolation (field.complaint cell.header)) s) ∧
    (cell.header.words ≤ field.position →
      s.fieldGet .release v field = .ok .empty ∧ fieldSet .release v field value s = .ok () s) ∧
    (field.position < cell.header.words →
      cell.header.kind ≠ field.kind ∧
      s.fieldGet .release v field = .ok ⟨cell.word field.position⟩ ∧
      ∃ t written, fieldSet .release v field value s = .ok () t ∧
        (∀ a, t.cell? a = if a = v.address then some written else s.cell? a) ∧
        written.header = cell.header ∧
        ∀ i, written.word i = if i = field.position then value.bits else cell.word i) := by
  have hheader := header_of_object? hcell
  have hdebug := locate_debug_of_unsupported (s := s) href hposition (hheader ▸ hfield)
  have hrelease := locate_release (s := s) href hposition
  rw [hheader] at hdebug hrelease
  refine ⟨⟨?_, ?_⟩, fun hbehind => ?_, fun hinside => ?_⟩
  · rw [fieldGet, hdebug]
    rfl
  · simp only [fieldSet, hdebug]
  · rw [if_pos hbehind] at hrelease
    refine ⟨?_, by simp only [fieldSet, hrelease]⟩
    rw [fieldGet, hrelease]
    rfl
  · rw [if_neg (Nat.not_le.mpr hinside)] at hrelease
    refine ⟨fun hkind => hfield ⟨hkind, hinside⟩, ?_, s.setWord v.address field.position value.bits,
      cell.setWord field.position value.bits, ?_, fun a => hs.cell?_modifyCell hcell a,
      Cell.header_setWord .., fun i => ?_⟩
    · rw [fieldGet, hrelease, ← word_of_object? hcell]
      rfl
    · simp only [fieldSet, hrelease]
    · rw [Cell.word_setWord]
      exact ite_congr (propext eq_comm) (fun _ => rfl) fun _ => rfl

end Space

namespace Ledger

/-- A run that leaves a vector of 200 payload words, the first element of which is the constant `t`. -/
def filledVector : Ledger :=
  sharedBlock.write 0x7f0000000000 1 Value.t.bits

theorem reachable_filledVector : Reachable filledVector := by
  obtain ⟨hlive, -, hwords⟩ := live_sharedBlock
  exact .write reachable_sharedBlock (by simp [hlive]) (by rw [hwords]; decide) _

theorem object_filledVector : ∃ cell, filledVector.space.object? 0x7f0000000000 = some cell ∧
    cell.header = ⟨.vector, false, 0, 200⟩ ∧ cell.word 1 = Value.t.bits := by
  have hview : (filledVector.space.object? 0x7f0000000000).map
      (fun cell => (cell.header, cell.word 1)) = some (⟨.vector, false, 0, 200⟩, Value.t.bits) := by
    decide +kernel
  obtain ⟨cell, hcell, hfields⟩ := Option.map_eq_some_iff.mp hview
  exact ⟨cell, hcell, Prod.mk.inj hfields⟩

theorem unsupported_contained_filledVector :
    ∃ cell, filledVector.space.object? 0x7f0000000000 = some cell ∧
      ¬ cell.header.Supports .car ∧ ¬ cell.header.Supports (.vectorElt 199) ∧
      filledVector.space.fieldGet .debug ⟨0x7f0000000000⟩ .car
        = .error (.fatal .contractViolation "Car of a vector") ∧
      filledVector.space.fieldGet .release ⟨0x7f0000000000⟩ (.vectorElt 199) = .ok .empty ∧
      ∃ t, Space.fieldSet .release ⟨0x7f0000000000⟩ .car .nil filledVector.space = .ok () t ∧
        t.word 0x7f0000000000 1 = Value.t.bits := by
  have hvalid := reachable_filledVector.accounts.valid
  obtain ⟨cell, hcell, hheader, hfirst⟩ := object_filledVector
  have hcar : ¬ cell.header.Supports .car := by
    rw [hheader]
    decide
  have helement : ¬ cell.header.Supports (.vectorElt 199) := by
    rw [hheader]
    decide
  obtain ⟨⟨hget, -⟩, -, hwrong⟩ := Space.Valid.unsupported_contained hvalid
    (v := ⟨0x7f0000000000⟩) rfl hcell (by decide) hcar .nil
  obtain ⟨-, -, t, written, hset, hcells, -, hwords⟩ := hwrong (by rw [hheader]; decide)
  obtain ⟨-, hbehind, -⟩ := Space.Valid.unsupported_contained hvalid
    (v := ⟨0x7f0000000000⟩) rfl hcell (by decide) helement .nil
  obtain ⟨hempty, -⟩ := hbehind (by rw [hheader]; decide)
  have hcomplaint : Field.car.complaint cell.header = "Car of a vector" := by
    rw [hheader]
    decide
  have hwritten : t.cell? 0x7f0000000000 = some written := (hcells _).trans (if_pos rfl)
  refine ⟨cell, hcell, hcar, helement, ?_, hempty, t, hset, ?_⟩
  · rw [hget, hcomplaint]
  · simp only [Space.word, hwritten]
    exact (hwords 1).trans hfirst

/-- A release build reads the first element of a vector as the second part of a cons, and overwrites it,
although a vector has no parts. -/
theorem unsupported_read_and_written :
    filledVector.space.Valid ∧ (filledVector.space.object? 0x7f0000000000).isSome ∧
    ¬ (filledVector.space.header 0x7f0000000000).Supports .cdr ∧
    filledVector.space.fieldGet .release ⟨0x7f0000000000⟩ .cdr = .ok .t ∧ Value.t ≠ .empty ∧
    ∃ t, Space.fieldSet .release ⟨0x7f0000000000⟩ .cdr .nil filledVector.space = .ok () t ∧
      t.word 0x7f0000000000 1 ≠ filledVector.space.word 0x7f0000000000 1 := by
  obtain ⟨cell, hcell, hheader, hfirst⟩ := object_filledVector
  have hheader := (Space.header_of_object? hcell).trans hheader
  have hword := (Space.word_of_object? (i := 1) hcell).trans hfirst
  have hlocate : filledVector.space.locate .release ⟨0x7f0000000000⟩ .cdr = .ok (some 1) := by
    rw [Space.locate_release rfl (by decide)]
    show Except.ok (if (filledVector.space.header 0x7f0000000000).words ≤ 1 then none else some 1) = _
    rw [hheader]
    rfl
  refine ⟨reachable_filledVector.accounts.valid, by rw [hcell]; rfl, ?_, ?_, by decide,
    filledVector.space.setWord 0x7f0000000000 1 Value.nil.bits, ?_, ?_⟩
  · rw [hheader]
    decide
  · rw [Space.fieldGet, hlocate]
    exact congrArg (fun bits => Except.ok (Value.mk bits)) hword
  · simp only [Space.fieldSet, hlocate]
    rfl
  · rw [reachable_filledVector.accounts.valid.word_setWord hcell, if_pos rfl, hword]
    decide

end Ledger

end Substrate
