import Substrate.Proofs.Control.Symbols
import Substrate.Proofs.Space.Access

/-!
# What readers depend on

`Reader` lists what can be read of an object besides its fields. A reader depends on its object only, so
it finds the same in two spaces that have the same object there (`Reader.read_congr`). If the object has
fields, a reader for it looks at a single payload word, which is none of the fields
(`Reader.read_of_index`).

So a value that is stored into a field of an object is read from there and nowhere else: `Space.Stores`.
-/

namespace Substrate

/-- A reader of raw payload words. -/
inductive Reader where
  | bignumNegative
  | bignumLimbs
  | doubleBits
  | symbolBindingIndex
  | symbolFlags
  | stringLength
  | stringBytes
  | stringText
  | vectorLength
  | closureEntry
  | streamMode
  | streamPosition
  | streamHandle
  | structureLength
  | foreignAddress
  | foreignSize
  deriving DecidableEq, Repr

namespace Reader

/-- The kind of object that the reader is for. -/
def kind : Reader → Kind
  | bignumNegative | bignumLimbs => .bignum
  | doubleBits => .doubleFloat
  | symbolBindingIndex | symbolFlags => .symbol
  | stringLength | stringBytes | stringText => .string
  | vectorLength => .vector
  | closureEntry => .closure
  | streamMode | streamPosition | streamHandle => .stream
  | structureLength => .record
  | foreignAddress | foreignSize => .foreign

/-- What the reader gives. -/
def Result : Reader → Type
  | bignumNegative => Bool
  | bignumLimbs => List Word
  | symbolBindingIndex | stringLength | vectorLength | structureLength => Nat
  | stringBytes => List UInt8
  | stringText => String
  | streamMode => Option StreamMode
  | doubleBits | symbolFlags | closureEntry | streamPosition | streamHandle | foreignAddress
  | foreignSize => Word

def read (mode : Mode) (s : Space) (v : Value) : (r : Reader) → Except Fault r.Result
  | bignumNegative => s.bignumNegative mode v
  | bignumLimbs => s.bignumLimbs mode v
  | doubleBits => s.doubleBits mode v
  | symbolBindingIndex => s.symbolBindingIndex mode v
  | symbolFlags => s.symbolFlags mode v
  | stringLength => s.stringLength mode v
  | stringBytes => s.stringBytes mode v
  | stringText => s.stringText mode v
  | vectorLength => s.vectorLength mode v
  | closureEntry => s.rawWord mode v .closure At.closureEntry
  | streamMode => s.streamMode mode v
  | streamPosition => s.streamPosition mode v
  | streamHandle => s.streamHandle mode v
  | structureLength => s.structureLength mode v
  | foreignAddress => s.foreignAddress mode v
  | foreignSize => s.foreignSize mode v

end Reader

namespace Space

variable {s t : Space} {v : Value} {kind : Kind} {mode : Mode}

section

variable (h : t.header v.address = s.header v.address)
include h

theorem kindOf_congr : t.kindOf v = s.kindOf v := by
  rw [kindOf, kindOf, h]

theorem isKind_congr (kind : Kind) : t.isKind v kind = s.isKind v kind := by
  rw [isKind, isKind, kindOf_congr h]

theorem locate_congr (mode : Mode) (field : Field) : t.locate mode v field = s.locate mode v field := by
  rw [locate, locate, h]

theorem rawWord_congr {index : Nat} (hword : t.word v.address index = s.word v.address index) :
    t.rawWord mode v kind index = s.rawWord mode v kind index := by
  rw [rawWord, rawWord, checkWord, checkWord, isKind_congr h, kindOf_congr h, h, hword]

end

/-! ## Objects that are the same -/

section

variable (h : t.cell? v.address = s.cell? v.address)
include h

theorem header_congr : t.header v.address = s.header v.address := by
  rw [header, header, h]

theorem word_congr (index : Nat) : t.word v.address index = s.word v.address index := by
  rw [word, word, h]

theorem fieldGet_congr (mode : Mode) (field : Field) : t.fieldGet mode v field = s.fieldGet mode v field := by
  rw [fieldGet, fieldGet, locate_congr (header_congr h)]
  simp only [word_congr h]

theorem limbsFrom_congr (seen : List Word) (count index : Nat) :
    t.limbsFrom mode v seen count index = s.limbsFrom mode v seen count index := by
  induction count generalizing seen index with
  | zero => rfl
  | succ count ih =>
    rw [limbsFrom, limbsFrom, rawWord_congr (header_congr h) (word_congr h _)]
    simp only [ih]

theorem stringBytes_congr (mode : Mode) : t.stringBytes mode v = s.stringBytes mode v := by
  rw [stringBytes, stringBytes, stringLength, stringLength, isKind_congr (header_congr h),
    kindOf_congr (header_congr h), rawWord_congr (header_congr h) (word_congr h _), header_congr h]
  simp only [bytesFrom, h]

end

/-! ## Objects of another kind -/

/-- A debug build does not read an object of another kind. -/
theorem rawWord_debug_of_not_isKind (h : s.isKind v kind = false) (index : Nat) :
    s.rawWord .debug v kind index = .error (.panic
      ("expected " ++ kind.name ++ ", got " ++ (s.kindOf v).title)) := by
  simp [rawWord, checkWord, Mode.assertWith, h, bind, Except.bind]

end Space

namespace Reader

variable {s t : Space} {v : Value} {mode : Mode} {field : Field}

/-- A reader depends on nothing but the object. -/
theorem read_congr (h : t.cell? v.address = s.cell? v.address) (r : Reader) (mode : Mode) :
    r.read mode t v = r.read mode s v := by
  have hheader := Space.header_congr h
  have hraw : ∀ kind index, t.rawWord mode v kind index = s.rawWord mode v kind index :=
    fun _ index => Space.rawWord_congr hheader (Space.word_congr h index)
  cases r with
  | bignumLimbs =>
    simp only [read, Space.bignumLimbs, hraw, Space.limbsFrom_congr h]
    rfl
  | doubleBits =>
    simp only [read, Space.doubleBits, Space.isKind_congr hheader, Space.word_congr h]
    rfl
  | stringBytes => exact Space.stringBytes_congr h mode
  | stringText => exact congrArg (Text.ofUtf8 <$> ·) (Space.stringBytes_congr h mode)
  | _ =>
    simp only [read, Space.bignumNegative, Space.symbolBindingIndex, Space.symbolFlags,
      Space.stringLength, Space.vectorLength, Space.streamMode, Space.streamPosition,
      Space.streamHandle, Space.structureLength, Space.foreignAddress, Space.foreignSize, hraw]
    rfl

/-- The payload word that the reader begins with. -/
def index : Reader → Nat
  | bignumNegative => At.bignumSign
  | bignumLimbs => At.bignumLength
  | doubleBits => 0
  | symbolBindingIndex => At.symbolBindingIndex
  | symbolFlags => At.symbolFlags
  | stringLength | stringBytes | stringText => At.stringLength
  | vectorLength => At.vectorLength
  | closureEntry => At.closureEntry
  | streamMode => At.streamMode
  | streamPosition => At.streamPosition
  | streamHandle => At.streamHandle
  | structureLength => At.recordLength
  | foreignAddress => At.foreignAddress
  | foreignSize => At.foreignSize

/-- A debug build does not read an object of another kind, and it says the same about it every time. -/
theorem read_debug_of_not_isKind (h : t.header v.address = s.header v.address) (r : Reader)
    (hother : s.isKind v r.kind = false) : r.read .debug t v = r.read .debug s v := by
  have hsame : t.isKind v r.kind = s.isKind v r.kind := Space.isKind_congr h _
  have hraw : ∀ index, t.rawWord .debug v r.kind index = s.rawWord .debug v r.kind index := by
    intro index
    rw [Space.rawWord_debug_of_not_isKind hother,
      Space.rawWord_debug_of_not_isKind (hsame.trans hother), Space.kindOf_congr h]
  cases r with
  | bignumLimbs =>
    simp only [kind] at hother hraw
    simp only [read, Space.bignumLimbs, hraw, Space.rawWord_debug_of_not_isKind hother]
    rfl
  | doubleBits =>
    simp only [kind] at hother hsame
    simp only [read, Space.doubleBits, hsame, hother]
    rfl
  | stringBytes | stringText =>
    simp only [kind] at hother hsame
    simp only [read, Space.stringText, Space.stringBytes, hsame, hother, Space.kindOf_congr h]
    rfl
  | _ =>
    simp only [kind] at hraw
    simp only [read, Space.bignumNegative, Space.symbolBindingIndex, Space.symbolFlags,
      Space.stringLength, Space.vectorLength, Space.streamMode, Space.streamPosition,
      Space.streamHandle, Space.structureLength, Space.foreignAddress, Space.foreignSize, hraw]
    rfl

/-- Of an object that has fields, a reader looks at one word only. -/
theorem read_of_index (h : t.header v.address = s.header v.address)
    (hkind : (s.header v.address).kind = field.kind) (r : Reader)
    (hmode : mode = .debug ∨ r.kind = field.kind)
    (hword : r.kind = field.kind → t.word v.address r.index = s.word v.address r.index) :
    r.read mode t v = r.read mode s v := by
  by_cases hr : r.kind = field.kind
  · have hraw : t.rawWord mode v r.kind r.index = s.rawWord mode v r.kind r.index :=
      Space.rawWord_congr h (hword hr)
    cases r with
    | bignumNegative | bignumLimbs | doubleBits | stringLength | stringBytes | stringText =>
      cases field <;> cases hr
    | _ =>
      simp only [kind, index] at hraw
      simp only [read, Space.symbolBindingIndex, Space.symbolFlags, Space.vectorLength,
        Space.streamMode, Space.streamPosition, Space.streamHandle, Space.structureLength,
        Space.foreignAddress, Space.foreignSize, hraw]
      rfl
  · obtain rfl := hmode.resolve_right hr
    refine read_debug_of_not_isKind h r (Bool.eq_false_iff.mpr fun htrue => hr ?_)
    have hheap : r.kind.isHeap = true := by cases r <;> rfl
    exact (Space.header_of_isKind hheap htrue).2.symm.trans hkind

/-- No reader begins with a word that is a field. -/
theorem index_ne_position (r : Reader) (h : r.kind = field.kind) : r.index ≠ field.position := by
  cases r <;> cases field <;> cases h <;>
    first
    | decide
    | simp only [index, Field.position, At.vectorLength, At.recordLength]
      omega

end Reader

/-! ## Stores -/

namespace Space

variable {s t : Space} {v value : Value} {mode : Mode} {field : Field} {word : Nat}

/-- In the second space the field has the value, and nothing else has changed: no other field of the object
and nothing else that can be read of it, and no other object. A release build does not look at the kind of
an object, and it computes positions modulo the size of a word: there this is said of what the object is
for. -/
structure Stores (mode : Mode) (s : Space) (v : Value) (field : Field) (value : Value) (t : Space) :
    Prop where
  read : t.fieldGet mode v field = .ok value
  fields : ∀ other : Field, other ≠ field →
    mode = .debug ∨ other.kind = field.kind ∧ other.position < wordLimit →
      t.fieldGet mode v other = s.fieldGet mode v other
  readers : ∀ r : Reader, mode = .debug ∨ r.kind = field.kind → r.read mode t v = r.read mode s v
  elsewhere : ∀ w, w ≠ v → (∀ other, t.fieldGet mode w other = s.fieldGet mode w other) ∧
    ∀ r : Reader, r.read mode t w = r.read mode s w

/-- A store into a field of an object changes this field only. -/
theorem Valid.stores (hs : s.Valid) (h : s.locate .debug v field = .ok (some word)) (mode : Mode)
    (value : Value) : ∃ t, fieldSet mode v field value s = .ok () t ∧ s.Stores mode v field value t := by
  obtain ⟨-, ⟨cell, hcell, hkind, -⟩, hword⟩ := locate_debug h
  obtain rfl : word = field.position := Field.eq_position (.inl rfl) hword
  have hheader := hs.header_setWord hcell field.position value.bits
  have hwords := hs.word_setWord hcell field.position value.bits
  refine ⟨s.setWord v.address field.position value.bits,
    by simp only [fieldSet, locate_of_debug mode h], ?_, fun other hother hmode => ?_,
    fun r hmode => ?_, fun w hw => ?_⟩
  · rw [fieldGet, locate_congr hheader, locate_of_debug mode h]
    exact congrArg (fun bits => Except.ok (Value.mk bits)) ((hwords _).trans (if_pos rfl))
  · rw [fieldGet, fieldGet, locate_congr hheader]
    cases hlocate : s.locate mode v other with
    | error fault => rfl
    | ok located =>
      cases located with
      | none => rfl
      | some word =>
        obtain ⟨-, hwordOther, -⟩ := locate_some hlocate
        have hne : field.position ≠ word := by
          rw [Field.eq_position (hmode.imp_right And.right) hwordOther]
          refine fun heq => hother (Field.eq_of_position ?_ heq.symm)
          obtain rfl | ⟨hsame, -⟩ := hmode
          · obtain ⟨-, ⟨cell', hcell', hkind', -⟩, -⟩ := locate_debug hlocate
            obtain rfl : cell = cell' := Option.some.inj (hcell.symm.trans hcell')
            exact hkind'.symm.trans hkind
          · exact hsame
        exact congrArg (fun bits => Except.ok (Value.mk bits)) ((hwords word).trans (if_neg hne))
  · exact Reader.read_of_index hheader ((header_of_object? hcell).symm ▸ hkind) r hmode fun hr =>
      (hwords _).trans (if_neg (Ne.symm (r.index_ne_position hr)))
  · have hne : w.address ≠ v.address := fun heq => hw (Value.eq_of_address heq)
    have hcellw : (s.setWord v.address field.position value.bits).cell? w.address
        = s.cell? w.address := (hs.cell?_modifyCell hcell w.address).trans (if_neg hne)
    exact ⟨fun other => fieldGet_congr hcellw mode other, fun r => Reader.read_congr hcellw r mode⟩

end Space

end Substrate
