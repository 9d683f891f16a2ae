import Mathlib.Logic.Function.Basic
import Substrate.Proofs.Construct.Form

/-!
# What constructors write

A constructor fills in its object word by word, out of order and with the help of loops. `Machine.Writes`
is what one such piece of code does: it turns an object with one payload into an object with another one,
never fails, and touches nothing else.

`Form.payload` says what an object of a form holds. The main statement is `Form.fill_spec`: filling in a
zeroed object of the right kind and size leaves exactly this payload, in either build. Nothing that a
constructor writes is refused.
-/

namespace Substrate

/-! ## Spaces -/

namespace Space

variable {s : Space} {a : Nat} {header : Header} {f g k : Nat → Word}

/-- There is an object with this header and this payload. -/
structure Has (s : Space) (a : Nat) (header : Header) (f : Nat → Word) : Prop where
  valid : s.Valid
  object : ∃ cell, s.object? a = some cell ∧ cell.header = header ∧ ∀ i, cell.word i = f i

/-- The spaces differ in one object at most. -/
structure Elsewhere (s t : Space) (a : Nat) : Prop where
  objects : ∀ x, x ≠ a → t.object? x = s.object? x
  blockIndex : t.blockIndex = s.blockIndex

theorem Elsewhere.refl (s : Space) (a : Nat) : Elsewhere s s a := ⟨fun _ _ => rfl, rfl⟩

theorem Elsewhere.trans {t u : Space} (h : Elsewhere s t a) (h' : Elsewhere t u a) :
    Elsewhere s u a :=
  ⟨fun x hx => (h'.objects x hx).trans (h.objects x hx), h'.blockIndex.trans h.blockIndex⟩

/-- The change turns the payload `f` of an object into `g` and leaves all other objects alone. -/
def Puts (change : Space → Space) (a : Nat) (header : Header) (f g : Nat → Word) : Prop :=
  ∀ s : Space, s.Has a header f → (change s).Has a header g ∧ Elsewhere s (change s) a

theorem puts_id : Puts id a header f f := fun s hs => ⟨hs, .refl s a⟩

theorem Puts.comp {change change' : Space → Space} (h : Puts change a header f g)
    (h' : Puts change' a header g k) : Puts (fun s => change' (change s)) a header f k := by
  intro s hs
  obtain ⟨hfirst, hothers⟩ := h s hs
  obtain ⟨hsecond, hothers'⟩ := h' _ hfirst
  exact ⟨hsecond, hothers.trans hothers'⟩

theorem puts_setWord (index : Nat) (bits : Word) :
    Puts (·.setWord a index bits) a header f (Function.update f index bits) := by
  rintro s ⟨hs, cell, hcell, rfl, hwords⟩
  have hview := hs.object?_setWord hcell index bits
  refine ⟨⟨hs.setWord hcell index bits, _, by rw [hview, if_pos rfl], Cell.header_setWord ..,
    fun i => ?_⟩, fun x hx => by rw [hview, if_neg hx], blockIndex_modifyCell _ _ _⟩
  rw [Cell.word_setWord, Function.update_apply]
  by_cases hi : i = index
  · rw [if_pos hi.symm, if_pos hi]
  · rw [if_neg (Ne.symm hi), if_neg hi, hwords]

/-- A payload with other words from `index` on. -/
def overlay (f : Nat → Word) : Nat → List Word → Nat → Word
  | _, [] => f
  | index, bits :: rest => overlay (Function.update f index bits) (index + 1) rest

theorem overlay_apply (f : Nat → Word) (index : Nat) (words : List Word) (i : Nat) :
    overlay f index words i = if i < index then f i else (words[i - index]?).getD (f i) := by
  induction words generalizing f index with
  | nil => simp [overlay]
  | cons bits rest ih =>
    rw [overlay, ih, Function.update_apply]
    by_cases hi : i < index
    · rw [if_pos (by omega), if_neg (by omega), if_pos hi]
    · by_cases heq : i = index
      · simp [heq]
      · obtain ⟨j, rfl⟩ : ∃ j, i = index + 1 + j := ⟨i - (index + 1), by omega⟩
        rw [if_neg (by omega), if_neg (by omega), if_neg (by omega),
          show index + 1 + j - (index + 1) = j by omega, show index + 1 + j - index = j + 1 by omega,
          List.getElem?_cons_succ]

end Space

namespace Machine

open Space (Has Puts)

variable {γ α : Type} {m m' : Machine γ} {v value : Value} {header : Header} {f g k : Nat → Word}
  {x y : Op γ Unit}

/-! ## Objects of a machine -/

/-- The value refers to an object with this header and this payload. -/
structure Holds (m : Machine γ) (v : Value) (header : Header) (f : Nat → Word) : Prop where
  ref : v.isHeapRef = true
  has : m.heap.space.Has v.address header f

/-- The machines differ in one object at most, and in how many symbols were numbered. -/
structure Elsewhere (m m' : Machine γ) (a : Nat) : Prop where
  space : m.heap.space.Elsewhere m'.heap.space a
  rest : m' = { m with
    heap := { m.heap with space := m'.heap.space }
    nextBinding := m'.nextBinding }
  numbers : m.nextBinding ≤ m'.nextBinding

theorem Elsewhere.trans {m'' : Machine γ} {a : Nat} (h : Elsewhere m m' a)
    (h' : Elsewhere m' m'' a) : Elsewhere m m'' a := by
  refine ⟨h.space.trans h'.space, ?_, Nat.le_trans h.numbers h'.numbers⟩
  rw [h'.rest, h.rest]

/-- The operation turns the payload `f` of an object into `g`, and does nothing else. -/
def Writes (x : Op γ Unit) (v : Value) (header : Header) (f g : Nat → Word) : Prop :=
  ∀ m : Machine γ, m.Holds v header f →
    ∃ m', x m = .ok () m' ∧ m'.Holds v header g ∧ Elsewhere m m' v.address

theorem writes_pure : Writes (pure () : Op γ Unit) v header f f :=
  fun m hm => ⟨m, rfl, hm, .refl _ _, rfl, Nat.le_refl _⟩

theorem Writes.bind (hx : Writes x v header f g) (hy : Writes y v header g k) :
    Writes (do x; y) v header f k := by
  intro m hm
  obtain ⟨m₁, hrun₁, hm₁, hother₁⟩ := hx m hm
  obtain ⟨m₂, hrun₂, hm₂, hother₂⟩ := hy m₁ hm₁
  exact ⟨m₂, (bind_of_ok hrun₁).trans hrun₂, hm₂, hother₁.trans hother₂⟩

theorem Writes.congr (h : Writes x v header f g) (heq : ∀ i, g i = k i) : Writes x v header f k := by
  obtain rfl : g = k := funext heq
  exact h

theorem onSpace_ok {x : Mode → Run Space α} {a : α} {s : Space}
    (h : x m.mode m.heap.space = .ok a s) :
    onSpace x m = .ok a { m with heap := { m.heap with space := s } } := by
  simp only [onSpace, onHeap, Heap.onSpace, h]

/-- Work on the objects that succeeds and is such a change. -/
theorem writes_onSpace {x : Mode → Run Space Unit} {change : Space → Space}
    (hputs : Puts change v.address header f g)
    (hrun : ∀ mode s, v.isHeapRef = true → s.Has v.address header f →
      x mode s = .ok () (change s)) : Writes (onSpace x : Op γ Unit) v header f g := by
  rintro m ⟨href, hm⟩
  obtain ⟨hhas, hothers⟩ := hputs _ hm
  exact ⟨_, onSpace_ok (hrun m.mode _ href hm), ⟨href, hhas⟩, hothers, rfl, Nat.le_refl _⟩

theorem writes_modify {change : Space → Space} (hputs : Puts change v.address header f g) :
    Writes (onSpace fun _ => modify change : Op γ Unit) v header f g :=
  writes_onSpace hputs fun _ _ _ _ => rfl

/-! ## Fields and raw words -/

theorem locate_eq {mode : Mode} {s : Space} (href : v.isHeapRef = true)
    (hs : s.Has v.address header f) {field : Field} (hkind : field.kind = header.kind) {word : Nat}
    (hword : field.word mode = .ok word) (hlt : word < header.words) :
    s.locate mode v field = .ok (some word) := by
  obtain ⟨-, cell, hcell, rfl, -⟩ := hs
  simp [Space.locate, href, Space.header_of_object? hcell, hkind, hword, Nat.not_le.mpr hlt, bind,
    Except.bind, pure, Except.pure]

theorem checkWord_eq {mode : Mode} {s : Space} (href : v.isHeapRef = true)
    (hs : s.Has v.address header f) (hheap : header.kind.isHeap = true) {index : Nat}
    (hlt : index < header.words) : s.checkWord mode v header.kind index = .ok true := by
  obtain ⟨-, cell, hcell, rfl, -⟩ := hs
  have hkind : s.isKind v cell.header.kind = true := by
    simp [Space.isKind, hheap, href, Space.kindOf, Space.kindWith_of_isHeapRef href,
      Space.header_of_object? hcell]
  cases mode <;> simp [Space.checkWord, Mode.assertWith, hkind, Space.header_of_object? hcell,
    Nat.not_le.mpr hlt, bind, Except.bind, pure, Except.pure]

/-- Storing into a field of an object that has it. -/
theorem writes_setField (field : Field) {word : Nat} (hkind : field.kind = header.kind)
    (hword : ∀ mode, field.word mode = .ok word) (hlt : word < header.words) :
    Writes (setField v field value : Op γ Unit) v header f
      (Function.update f word value.bits) :=
  writes_onSpace (Space.puts_setWord word value.bits) fun mode s href hs => by
    rw [Space.fieldSet, locate_eq href hs hkind (hword mode) hlt]

theorem writes_setRaw {kind : Kind} {index : Nat} {bits : Word} (hkind : header.kind = kind)
    (hheap : kind.isHeap = true) (hlt : index < header.words) :
    Writes (setRaw v kind index bits : Op γ Unit) v header f (Function.update f index bits) :=
  writes_onSpace (Space.puts_setWord index bits) fun mode s href hs => by
    subst hkind
    rw [Space.setRawWord, checkWord_eq href hs hheap hlt]

/-- Storing into an element of a vector whose length is in place. -/
theorem writes_vectorSet {index : Nat} (length : Nat) (hkind : header.kind = .vector)
    (hlength : (f At.vectorLength).toNat = length) (hindex : index < length)
    (hlt : index + 1 < header.words) (hlimit : header.words < Space.payloadLimit) :
    Writes (onSpace fun mode => Space.vectorSet mode v index value : Op γ Unit) v header f
      (Function.update f (index + 1) value.bits) :=
  writes_onSpace (Space.puts_setWord (index + 1) value.bits) fun mode s href hs => by
    have hword : (Field.vectorElt index).word mode = .ok (index + 1) := by
      have hsum : 1 + index < wordLimit := by
        simp only [Space.payloadLimit] at hlimit
        simp only [wordLimit]
        omega
      rw [Field.word, Mode.add, if_pos hsum, Nat.add_comm]
    have hcheck : s.checkIndex mode v index = .ok true := by
      have hraw : s.checkWord mode v .vector At.vectorLength = .ok true :=
        hkind ▸ checkWord_eq href hs (hkind ▸ rfl) (Nat.lt_of_le_of_lt (Nat.zero_le _) hlt)
      obtain ⟨-, cell, hcell, -, hwords⟩ := hs
      have hstored : (s.word v.address 0).toNat = length := by
        rw [Space.word_of_object? hcell, hwords]
        exact hlength
      simp [Space.checkIndex, Space.vectorLength, Space.rawWord, hraw, hstored,
        Nat.not_le.mpr hindex, bind, Except.bind, pure, Except.pure, Functor.map, Except.map]
    rw [Space.vectorSet, hcheck]
    dsimp only
    rw [Space.fieldSet,
      locate_eq href hs (show (Field.vectorElt index).kind = _ from hkind.symm) hword hlt]

/-! ## Loops -/

theorem puts_fillWords {a : Nat} (bits : Word) (count index : Nat) :
    Puts (fillWords a bits count index) a header f
      (Space.overlay f index (List.replicate count bits)) := by
  induction count generalizing f index with
  | zero => exact Space.puts_id
  | succ count ih => exact (Space.puts_setWord index bits).comp (ih (index + 1))

/-- The words that bytes are written to. What is left of the last one stays zero. -/
def packed : Nat → List UInt8 → List Word
  | 0, _ => []
  | count + 1, bytes => overwrite 0 (bytes.take wordBytes) :: packed count (bytes.drop wordBytes)

theorem puts_writeBytes {a : Nat} (count index : Nat) (bytes : List UInt8)
    (hzero : ∀ i, index ≤ i → f i = 0) :
    Puts (writeBytes a count index bytes) a header f
      (Space.overlay f index (packed count bytes)) := by
  induction count generalizing f index bytes with
  | zero => exact Space.puts_id
  | succ count ih =>
    intro s hs
    have hword : s.word a index = 0 := by
      obtain ⟨-, cell, hcell, -, hwords⟩ := hs
      rw [Space.word_of_object? hcell, hwords, hzero index (Nat.le_refl _)]
    have hrest : ∀ i, index + 1 ≤ i →
        Function.update f index (overwrite 0 (bytes.take wordBytes)) i = 0 := by
      intro i hi
      rw [Function.update_apply, if_neg (by omega), hzero i (by omega)]
    simp only [writeBytes, hword]
    exact ((Space.puts_setWord index _).comp (ih (index + 1) (bytes.drop wordBytes) hrest)) s hs

theorem writes_setLimbs {limbs : List Word} {index : Nat} (hkind : header.kind = .bignum)
    (hlt : At.bignumLimbs + index + limbs.length ≤ header.words) :
    Writes (setLimbs v index limbs : Op γ Unit) v header f
      (Space.overlay f (At.bignumLimbs + index) limbs) := by
  induction limbs generalizing f index with
  | nil => exact writes_pure
  | cons limb limbs ih =>
    rw [List.length_cons] at hlt
    exact (writes_setRaw hkind rfl (by omega)).bind (ih (by omega))

theorem writes_setSlots {slots : List Value} {index : Nat} (hkind : header.kind = .record)
    (hlimit : header.words < Space.payloadLimit) (hlt : 2 + index + slots.length ≤ header.words) :
    Writes (setSlots v index slots : Op γ Unit) v header f
      (Space.overlay f (2 + index) (slots.map (·.bits))) := by
  induction slots generalizing f index with
  | nil => exact writes_pure
  | cons value slots ih =>
    rw [List.length_cons] at hlt
    have hword : ∀ mode, (Field.structSlot index).word mode = .ok (2 + index) := fun mode => by
      have hsum : 2 + index < wordLimit := by
        simp only [Space.payloadLimit] at hlimit
        simp only [wordLimit]
        omega
      rw [Field.word, Mode.add, if_pos hsum]
    exact (writes_setField (.structSlot index) hkind.symm hword (by omega)).bind
      (ih (by omega))

/-! ## Forms -/

namespace Form

/-- The payload words of an object of the form. -/
def size : Form → Nat
  | bare _ words => words
  | string text => 1 + ((Text.utf8 text).length + wordBytes) / wordBytes
  | form => (Layout.of form.kind).fixedWords + form.tail?.getD 0

/-- The number of payload words is a word itself. A release build does not check this. -/
def Fits (form : Form) : Prop := form.tail?.getD 0 + wordBytes < wordLimit

/-- An object is never so large that the number of its words is no word. -/
theorem fits_of_size {form : Form} (h : form.size < Space.payloadLimit) : form.Fits := by
  cases form
  all_goals
    simp [Fits, size, tail?, kind, Layout.of, Space.payloadLimit, wordBytes, wordLimit] at h ⊢
  all_goals omega

/-- What an object of the form holds; behind that it is zero. `index` is the number that a symbol
gets. -/
def payload (index : Nat) : Form → List Word
  | bare .. => []
  | cons car cdr => [car.bits, cdr.bits]
  | vector length fill => UInt64.ofNat length :: List.replicate length fill.bits
  | string text =>
    let bytes := Text.utf8 text
    UInt64.ofNat bytes.length :: packed ((bytes.length + wordBytes - 1) / wordBytes) bytes
  | symbol name =>
    [name.bits, Value.unbound.bits, Value.unbound.bits, Value.nil.bits, Value.nil.bits,
      UInt64.ofNat index]
  | double bits => [bits]
  | bignum negative limbs => (if negative then 1 else 0) :: UInt64.ofNat limbs.length :: limbs
  | ratio numerator denominator => [numerator.bits, denominator.bits]
  | complex real imag => [real.bits, imag.bits]
  | closure entry env name => [entry, env.bits, name.bits]
  | stream mode elementType buffer handle => [mode.code, 0, elementType.bits, buffer.bits, handle]
  | record type slots => type.bits :: UInt64.ofNat slots.length :: slots.map (·.bits)
  | foreign address size tag => [address, size, tag.bits]

/-- The payload word at a position. -/
def word (form : Form) (index : Nat) (i : Nat) : Word :=
  (form.payload index).getD i 0

theorem add_eq {mode : Mode} {a b c : Nat} (hfits : mode = .debug ∨ a + b < wordLimit)
    (h : mode.add a b = .ok c) : c = a + b := by
  unfold Mode.add at h
  split at h
  · exact (Except.ok.inj h).symm
  · rcases hfits with rfl | hlt
    · cases h
    · contradiction

/-- What is asked for is what the object takes. -/
theorem words_eq {form : Form} {mode : Mode} {n : Nat} (hfits : mode = .debug ∨ form.Fits)
    (h : form.words mode = .ok n) : n = form.size := by
  have hsmall : ∀ k ≤ wordBytes, mode = .debug ∨ k + form.tail?.getD 0 < wordLimit := by
    intro k hk
    refine hfits.imp_right fun hfits => ?_
    simp only [Fits] at hfits
    omega
  cases form with
  | vector length fill => exact add_eq (hsmall 1 (by decide)) h
  | bignum negative limbs => exact add_eq (hsmall 2 (by decide)) h
  | record type slots => exact add_eq (hsmall 2 (by decide)) h
  | string text =>
    have hbytes : mode = .debug ∨ (Text.utf8 text).length + wordBytes < wordLimit := hfits
    obtain ⟨sum, hsum, hrest⟩ : ∃ sum, mode.add (Text.utf8 text).length wordBytes = .ok sum ∧
        mode.add 1 (sum / wordBytes) = .ok n := by
      change (do
        let tail ← (· / wordBytes) <$> mode.add (Text.utf8 text).length wordBytes
        mode.add 1 tail) = .ok n at h
      cases hsum : mode.add (Text.utf8 text).length wordBytes with
      | error fault =>
        rw [hsum] at h
        cases h
      | ok sum =>
        rw [hsum] at h
        exact ⟨sum, rfl, h⟩
    obtain rfl := add_eq hbytes hsum
    refine add_eq (hbytes.imp_right fun hlt => ?_) hrest
    simp only [wordBytes, wordLimit] at hlt ⊢
    omega
  | _ => exact (Except.ok.inj h).symm

/-! ### Filling in -/

theorem writes_fillElements {length : Nat} {fill : Value} (hkind : header.kind = .vector)
    (hwords : header.words = 1 + length) (hlimit : header.words < Space.payloadLimit) :
    Writes (fillElements v length fill : Op γ Unit) v header
      (Function.update (fun _ => 0) At.vectorLength (UInt64.ofNat length))
      ((vector length fill).word 0) := by
  have hlength : (UInt64.ofNat length).toNat = length := by
    simp only [Space.payloadLimit] at hlimit
    exact UInt64.toNat_ofNat_of_lt' (by simp only [UInt64.size]; omega)
  have hpayload : ∀ i, (vector length fill).word 0 i
      = if i = 0 then UInt64.ofNat length else if i - 1 < length then fill.bits else 0 := by
    intro i
    cases i with
    | zero => simp [word, payload]
    | succ i => simp [word, payload, List.getElem?_replicate]; split <;> simp
  unfold fillElements
  cases hfill : fill != .empty with
  | false =>
    have hbits : fill.bits = 0 := by
      rw [bne_eq_false_iff_eq.mp hfill]
      rfl
    refine writes_pure.congr fun i => ?_
    simp [hpayload, hbits, Function.update_apply]
  | true =>
  cases length with
  | zero =>
    refine writes_pure.congr fun i => ?_
    simp [hpayload, Function.update_apply]
  | succ n =>
    have hrest : Writes (do
        let words := ((← get).heap.space.header v.address).words
        onSpace fun _ => modify (fillWords v.address fill.bits (min (n + 1) (words - 1)) 1) : Op γ Unit)
        v header (Function.update (Function.update (fun _ => 0) At.vectorLength
          (UInt64.ofNat (n + 1))) (0 + 1) fill.bits) ((vector (n + 1) fill).word 0) := by
      intro m hm
      obtain ⟨cell, hcell, hheader, -⟩ := hm.has.object
      rw [bind_of_ok get_apply, Space.header_of_object? hcell, hheader, hwords,
        show min (n + 1) (1 + (n + 1) - 1) = n + 1 by omega]
      refine ((writes_modify (puts_fillWords fill.bits (n + 1) 1)).congr fun i => ?_) m hm
      rw [Space.overlay_apply, hpayload]
      cases i with
      | zero => simp
      | succ i =>
        simp only [Nat.add_sub_cancel, List.getElem?_replicate, Function.update_apply]
        grind
    rw [if_pos rfl]
    exact (writes_vectorSet (n + 1) hkind (by simpa using hlength) (by omega) (by omega)
      hlimit).bind hrest

/-- Two fields are all of a cons, a ratio or a complex number. -/
theorem writes_pair {field field' : Field} {first second : Value}
    (hkind : field.kind = header.kind) (hkind' : field'.kind = header.kind)
    (hword : ∀ mode, field.word mode = .ok 0) (hword' : ∀ mode, field'.word mode = .ok 1)
    (hwords : header.words = 2) :
    Writes (do setField v field first; setField v field' second : Op γ Unit) v header (fun _ => 0)
      (fun i => [first.bits, second.bits].getD i 0) := by
  refine ((writes_setField field hkind hword (by omega)).bind
    (writes_setField field' hkind' hword' (by omega))).congr fun i => ?_
  match i with
  | 0 | 1 | i + 2 => simp

theorem writes_string {text : String} (hkind : header.kind = .string)
    (hwords : header.words = (string text).size) :
    Writes ((string text).fill v : Op γ Unit) v header (fun _ => 0) ((string text).word 0) := by
  have hpos : At.stringLength < header.words := hwords ▸ Nat.lt_add_right _ (by decide)
  refine ((writes_setRaw hkind rfl hpos).bind
    (writes_modify (puts_writeBytes _ 1 (Text.utf8 text) fun i hi => ?_))).congr fun i => ?_
  · rw [Function.update_apply, if_neg (Nat.ne_of_gt hi)]
  · rw [Space.overlay_apply]
    cases i with
    | zero => simp [word, payload]
    | succ i => simp [word, payload]

theorem writes_bignum {negative : Bool} {limbs : List Word} (hkind : header.kind = .bignum)
    (hwords : header.words = 2 + limbs.length) :
    Writes ((bignum negative limbs).fill v : Op γ Unit) v header (fun _ => 0)
      ((bignum negative limbs).word 0) := by
  have hsign : At.bignumSign < header.words := hwords ▸ Nat.lt_add_right _ (by decide)
  have hlength : At.bignumLength < header.words := hwords ▸ Nat.lt_add_right _ (by decide)
  refine ((writes_setRaw hkind rfl hsign).bind ((writes_setRaw hkind rfl hlength).bind
    (writes_setLimbs hkind (Nat.le_of_eq hwords.symm)))).congr fun i => ?_
  rw [Space.overlay_apply]
  match i with
  | 0 | 1 => simp [word, payload]
  | i + 2 =>
    have hi : ¬i + 2 < 2 := by omega
    simp [word, payload, At.bignumLimbs, At.bignumLength, hi]

theorem writes_record {type : Value} {slots : List Value} (hkind : header.kind = .record)
    (hwords : header.words = 2 + slots.length) (hlimit : header.words < Space.payloadLimit) :
    Writes ((Form.record type slots).fill v : Op γ Unit) v header (fun _ => 0)
      ((Form.record type slots).word 0) := by
  have hlength : At.recordLength < header.words := hwords ▸ Nat.lt_add_right _ (by decide)
  refine ((writes_setRaw hkind rfl hlength).bind
    ((writes_setField .structType hkind.symm (fun _ => rfl) (by omega)).bind
      (writes_setSlots hkind hlimit (Nat.le_of_eq hwords.symm)))).congr fun i => ?_
  rw [Space.overlay_apply]
  match i with
  | 0 | 1 => simp [word, payload]
  | i + 2 =>
    have hi : ¬i + 2 < 2 := by omega
    cases hslot : slots[i]? <;>
      simp [word, payload, At.recordLength, hi, hslot]

/-- Filling in anything but a symbol. -/
theorem writes_fill {form : Form} (hkind : header.kind = form.kind)
    (hwords : header.words = form.size) (hlimit : header.words < Space.payloadLimit)
    (hform : ∀ name, form ≠ symbol name) :
    Writes (form.fill v : Op γ Unit) v header (fun _ => 0) (form.word 0) := by
  cases form with
  | bare kind words => exact writes_pure.congr fun i => by simp [word, payload]
  | cons car cdr | ratio numerator denominator | complex real imag =>
    exact writes_pair hkind.symm hkind.symm (fun _ => rfl) (fun _ => rfl) hwords
  | vector length fill =>
    have hsize : header.words = 1 + length := hwords
    have hlength : At.vectorLength < header.words := hsize ▸ Nat.lt_add_right _ (by decide)
    exact (writes_setRaw hkind rfl hlength).bind (writes_fillElements hkind hsize hlimit)
  | string text => exact writes_string hkind hwords
  | symbol name => exact absurd rfl (hform name)
  | double bits =>
    refine (writes_modify (Space.puts_setWord 0 bits)).congr fun i => ?_
    match i with
    | 0 | i + 1 => simp [word, payload]
  | bignum negative limbs => exact writes_bignum hkind hwords
  | closure entry env name =>
    have hsize : header.words = 3 := hwords
    refine ((writes_setRaw hkind rfl (by rw [hsize]; decide)).bind
      ((writes_setField .closureEnv hkind.symm (fun _ => rfl) (by omega)).bind
        (writes_setField .closureName hkind.symm (fun _ => rfl) (by omega)))).congr
          fun i => ?_
    match i with
    | 0 | 1 | 2 | i + 3 => simp [word, payload]
  | stream mode elementType buffer handle =>
    have hsize : header.words = 5 := hwords
    refine ((writes_setRaw hkind rfl (by rw [hsize]; decide)).bind
      ((writes_setRaw hkind rfl (by rw [hsize]; decide)).bind
      ((writes_setField .streamElementType hkind.symm (fun _ => rfl) (by omega)).bind
        (writes_setField .streamBuffer hkind.symm (fun _ => rfl) (by omega))))).congr
          fun i => ?_
    match i with
    | 0 | 1 | 2 | 3 | 4 | i + 5 => simp [word, payload, At.streamHandle]
  | record type slots => exact writes_record hkind hwords hlimit
  | foreign address size tag =>
    have hsize : header.words = 3 := hwords
    refine ((writes_setRaw hkind rfl (by rw [hsize]; decide)).bind
      ((writes_setRaw hkind rfl (by rw [hsize]; decide)).bind
      (writes_setField .foreignTag hkind.symm (fun _ => rfl) (by omega)))).congr
        fun i => ?_
    match i with
    | 0 | 1 | 2 | i + 3 => simp [word, payload, At.foreignSize]

/-- The fields of a symbol, before it has a number. -/
theorem writes_fillSymbol (name : Value) (hkind : header.kind = .symbol)
    (hwords : header.words = 7) : Writes (fillSymbol v name : Op γ Unit) v header (fun _ => 0)
      (fun i => if i = At.symbolBindingIndex then 0 else (symbol name).word 0 i) := by
  refine ((writes_setField .symbolName hkind.symm (fun _ => rfl) (by omega)).bind
    ((writes_setField .symbolValue hkind.symm (fun _ => rfl) (by omega)).bind
      ((writes_setField .symbolFunction hkind.symm (fun _ => rfl) (by omega)).bind
        ((writes_setField .symbolPlist hkind.symm (fun _ => rfl) (by omega)).bind
          (writes_setField .symbolPackage hkind.symm (fun _ => rfl) (by omega)))))).congr
            fun i => ?_
  match i with
  | 0 | 1 | 2 | 3 | 4 | 5 | i + 6 => simp [word, payload, At.symbolBindingIndex]

/-- Filling in a zeroed object of the kind and size that its form has comes to an end. The object then
holds what its form says, and nothing else has changed. -/
theorem fill_spec {form : Form} (hm : m.Holds v header fun _ => 0)
    (hkind : header.kind = form.kind) (hwords : header.words = form.size)
    (hlimit : header.words < Space.payloadLimit) :
    ∃ m' index, form.fill v m = .ok () m' ∧ m'.Holds v header (form.word index) ∧
      Elsewhere m m' v.address := by
  cases form with
  | symbol name =>
    have hsize : header.words = 7 := hwords
    obtain ⟨m₁, hrun, hm₁, helse⟩ := writes_fillSymbol name hkind hsize m hm
    have hnumbered : ({ m₁ with nextBinding := m₁.nextBinding + 1 } : Machine γ).Holds v header
        fun i => if i = At.symbolBindingIndex then 0 else (symbol name).word 0 i := ⟨hm₁.ref, hm₁.has⟩
    have hwrites : Writes (γ := γ)
        (setRaw v .symbol At.symbolBindingIndex (UInt64.ofNat m₁.nextBinding)) v header
        (fun i => if i = At.symbolBindingIndex then 0 else (symbol name).word 0 i)
        ((symbol name).word m₁.nextBinding) := by
      refine (writes_setRaw hkind rfl (by rw [hsize]; decide)).congr fun i => ?_
      match i with
      | 0 | 1 | 2 | 3 | 4 | 5 | i + 6 => simp [word, payload, At.symbolBindingIndex]
    obtain ⟨m₂, hrun', hm₂, helse'⟩ := hwrites _ hnumbered
    exact ⟨m₂, m₁.nextBinding, (bind_of_ok hrun).trans hrun', hm₂,
      helse.trans ⟨helse'.space, helse'.rest, Nat.le_of_succ_le helse'.numbers⟩⟩
  | _ =>
    obtain ⟨m', hspec⟩ := writes_fill hkind hwords hlimit (fun _ => by simp) m hm
    exact ⟨m', 0, hspec⟩

end Form

end Machine

end Substrate
