import Substrate.Proofs.Construct.Stages

/-!
# Readers undo constructors

`Form.Reads` says what the readers of a space find in an object that was built from given arguments. They
find it right after the constructor and for as long as the object lives: `Host.constructed_reads`.

Each kind of object has its own positions and its own rule for the length. The proofs go through
`Form.word`, which says what an object of the form holds, so that only the readers with a loop or with a
length to check need a proof of their own.

A constructor loses its object if a finalizer collects before the object is filled in and native stacks
are not scanned: `vector_reclaimed`.
-/

namespace Substrate.Machine

variable {γ : Type} {m m' : Machine γ} {s : Space} {mode : Mode} {v : Value} {form : Form}

/-- What the readers find in an object that was built from these arguments. -/
def Form.Reads (mode : Mode) (s : Space) (v : Value) : Form → Prop
  | bare _ words => ∀ i < words, s.word v.address i = 0
  | cons car cdr => s.fieldGet mode v .car = .ok car ∧ s.fieldGet mode v .cdr = .ok cdr
  | vector length fill =>
    s.vectorLength mode v = .ok length ∧ ∀ i < length, s.vectorRef mode v i = .ok fill
  | string text =>
    let length := (Text.utf8 text).length
    s.stringText mode v = .ok text ∧ s.stringLength mode v = .ok length ∧
      -- the byte behind the contents is in the payload, and it is zero
      At.stringBytes + length / wordBytes < (s.header v.address).words ∧
      (Space.wordToBytes (s.word v.address (At.stringBytes + length / wordBytes)))[length % wordBytes]?
        = some 0
  | symbol name =>
    s.fieldGet mode v .symbolName = .ok name ∧ s.fieldGet mode v .symbolValue = .ok .unbound ∧
      s.fieldGet mode v .symbolFunction = .ok .unbound ∧ s.fieldGet mode v .symbolPlist = .ok .nil ∧
      s.fieldGet mode v .symbolPackage = .ok .nil ∧ s.symbolFlags mode v = .ok 0
  | double bits => s.doubleBits mode v = .ok bits
  | bignum negative limbs =>
    s.bignumNegative mode v = .ok negative ∧ s.bignumLimbs mode v = .ok limbs
  | ratio numerator denominator =>
    s.fieldGet mode v .ratioNumerator = .ok numerator ∧
      s.fieldGet mode v .ratioDenominator = .ok denominator
  | complex real imag =>
    s.fieldGet mode v .complexReal = .ok real ∧ s.fieldGet mode v .complexImag = .ok imag
  | closure entry env name =>
    s.rawWord mode v .closure At.closureEntry = .ok entry ∧ s.fieldGet mode v .closureEnv = .ok env ∧
      s.fieldGet mode v .closureName = .ok name
  | stream direction elementType buffer handle =>
    s.streamMode mode v = .ok (some direction) ∧ s.streamPosition mode v = .ok 0 ∧
      s.fieldGet mode v .streamElementType = .ok elementType ∧
      s.fieldGet mode v .streamBuffer = .ok buffer ∧ s.streamHandle mode v = .ok handle
  | record type slots =>
    s.structureLength mode v = .ok slots.length ∧ s.fieldGet mode v .structType = .ok type ∧
      ∀ i (h : i < slots.length), s.fieldGet mode v (.structSlot i) = .ok slots[i]
  | foreign address size tag =>
    s.foreignAddress mode v = .ok address ∧ s.foreignSize mode v = .ok size ∧
      s.fieldGet mode v .foreignTag = .ok tag

/-! ## Words of an object -/

section

variable {header : Header} {index : Nat} (href : v.isHeapRef = true)
  (hhas : s.Has v.address header (form.word index)) (hkind : header.kind = form.kind)
  (hwords : header.words = form.size)
include href hhas hkind hwords

theorem reads_field (field : Field) {word : Nat} (hfield : field.kind = form.kind)
    (hword : field.word mode = .ok word) (hlt : word < form.size) :
    s.fieldGet mode v field = .ok ⟨form.word index word⟩ :=
  fieldGet_eq href hhas field (hfield.trans hkind.symm) hword (hwords ▸ hlt)

theorem reads_raw (hheap : form.kind.isHeap = true) {i : Nat} (hlt : i < form.size) :
    s.rawWord mode v form.kind i = .ok (form.word index i) :=
  hkind ▸ rawWord_eq mode href hhas (hkind ▸ hheap) (hwords ▸ hlt)

/-- A number that was stored in a payload word. -/
theorem reads_count (hheap : form.kind.isHeap = true) {i n : Nat} (hlt : i < form.size)
    (hword : form.word index i = UInt64.ofNat n) (hn : n < wordLimit) :
    (·.toNat) <$> s.rawWord mode v form.kind i = .ok n := by
  rw [reads_raw href hhas hkind hwords hheap hlt, hword]
  exact congrArg Except.ok (UInt64.toNat_ofNat_of_lt' hn)

end

/-! ## Terminators -/

theorem getElem?_packed {count i : Nat} (bytes : List UInt8) (hi : i < count) :
    (packed count bytes)[i]?
      = some (overwrite 0 ((bytes.drop (i * wordBytes)).take wordBytes)) := by
  induction count generalizing i bytes with
  | zero => cases hi
  | succ count ih =>
    cases i with
    | zero => simp [packed]
    | succ i =>
      rw [packed, List.getElem?_cons_succ, ih _ (Nat.lt_of_succ_lt_succ hi), List.drop_drop,
        Nat.succ_mul, Nat.add_comm]

/-- The byte behind the last one is zero, in a word of its own or in the word of the last one. -/
theorem getElem?_terminator (bytes : List UInt8) :
    (Space.wordToBytes ((packed ((bytes.length + wordBytes - 1) / wordBytes) bytes).getD
      (bytes.length / wordBytes) 0))[bytes.length % wordBytes]? = some 0 := by
  simp only [wordBytes, List.getD_eq_getElem?_getD]
  obtain hfull | hpartial : bytes.length % 8 = 0 ∨ bytes.length / 8 < (bytes.length + 8 - 1) / 8 := by
    omega
  · have hnone : (packed ((bytes.length + 8 - 1) / 8) bytes)[bytes.length / 8]? = none := by
      rw [List.getElem?_eq_none_iff, length_packed]
      omega
    rw [hnone, hfull]
    rfl
  · obtain ⟨last, hlast⟩ : ∃ last, last = (bytes.drop (bytes.length / 8 * 8)).take 8 := ⟨_, rfl⟩
    have hlength : last.length = bytes.length % 8 := by
      simp only [hlast, List.length_take, List.length_drop]
      omega
    have hword : (packed ((bytes.length + 8 - 1) / 8) bytes)[bytes.length / 8]?
        = some (overwrite 0 last) := hlast ▸ getElem?_packed bytes hpartial
    rw [hword, Option.getD_some, wordToBytes_overwrite (by omega),
      List.getElem?_append_right (by omega), hlength, Nat.sub_self, List.getElem?_replicate,
      if_pos (by omega)]

/-! ## Readers with a loop -/

theorem limbsFrom_eq {limbs : List Word} {start : Nat} (seen : List Word)
    (hraw : ∀ i (h : i < limbs.length),
      s.rawWord mode v .bignum (At.bignumLimbs + (start + i)) = .ok limbs[i]) :
    s.limbsFrom mode v seen limbs.length start = .ok (seen.reverse ++ limbs) := by
  induction limbs generalizing seen start with
  | nil => simp [Space.limbsFrom]
  | cons limb limbs ih =>
    have hfirst := hraw 0 (Nat.zero_lt_succ _)
    have hrest := @ih (start + 1) (limb :: seen) fun i hi => by
      have hnext := hraw (i + 1) (Nat.succ_lt_succ hi)
      rwa [show start + (i + 1) = start + 1 + i by omega] at hnext
    simp only [List.length_cons, Space.limbsFrom]
    rw [Nat.add_zero] at hfirst
    rw [hfirst]
    simp only [List.getElem_cons_zero, ok_bind, hrest, List.reverse_cons, List.append_assoc,
      List.singleton_append]

/-! ## Objects -/

theorem Shows.reads_vector {length : Nat} {fill : Value} (hs : s.Valid)
    (h : Shows s v (.vector length fill)) (mode : Mode) : (Form.vector length fill).Reads mode s v := by
  obtain ⟨header, index, hkind, hwords, hlimit, hhas⟩ := h.has hs
  have hsize : (Form.vector length fill).size = 1 + length := rfl
  have hlt : (Form.vector length fill).size < Space.payloadLimit := hwords ▸ hlimit
  simp only [hsize, Space.payloadLimit] at hlt
  have hlength : s.vectorLength mode v = .ok length :=
    reads_count h.ref hhas hkind hwords rfl (Nat.lt_add_right _ Nat.zero_lt_one) rfl
      (by simp only [wordLimit]; omega)
  refine ⟨hlength, fun i hi => ?_⟩
  have hword : (Field.vectorElt i).word mode = .ok (1 + i) := by
    rw [Field.word, Mode.add, if_pos (by simp only [wordLimit]; omega)]
  have hread := reads_field h.ref hhas hkind hwords (.vectorElt i) rfl hword
    (Nat.add_lt_add_left hi 1)
  have hfill : (Form.vector length fill).word index (1 + i) = fill.bits := by
    simp [Form.word, Form.payload, Nat.add_comm 1 i, hi]
  have hinside : s.checkIndex mode v i = .ok true := by
    simp [Space.checkIndex, hlength, Nat.not_le.mpr hi, bind, Except.bind, pure, Except.pure]
  rw [hfill] at hread
  rw [Space.vectorRef, hinside, ok_bind, if_pos rfl, hread]

theorem Shows.reads_string {text : String} (hs : s.Valid) (h : Shows s v (.string text))
    (mode : Mode) : (Form.string text).Reads mode s v := by
  obtain ⟨header, index, hkind, hwords, hlimit, hhas⟩ := h.has hs
  have hsize : (Form.string text).size = 1 + ((Text.utf8 text).length + wordBytes) / wordBytes := rfl
  have hlt : (Form.string text).size < Space.payloadLimit := hwords ▸ hlimit
  simp only [hsize, Space.payloadLimit, wordBytes] at hlt
  obtain ⟨-, cell, hcell, rfl, hword⟩ := hhas
  refine ⟨h.stringText hs mode, ?_, ?_, ?_⟩
  · exact reads_count h.ref ⟨hs, cell, hcell, rfl, hword⟩ hkind hwords rfl
      (Nat.lt_add_right _ Nat.zero_lt_one) rfl (by simp only [wordLimit]; omega)
  · rw [Space.header_of_object? hcell, hwords, hsize]
    simp only [At.stringBytes, wordBytes]
    omega
  · have hbyte : (Form.string text).word index (At.stringBytes + (Text.utf8 text).length / wordBytes)
        = (packed (((Text.utf8 text).length + wordBytes - 1) / wordBytes) (Text.utf8 text)).getD
          ((Text.utf8 text).length / wordBytes) 0 := by
      rw [Form.word, Form.payload, Nat.add_comm At.stringBytes, List.getD_cons_succ]
    rw [Space.word_of_object? hcell, hword, hbyte]
    exact getElem?_terminator _

theorem Shows.reads_bignum {negative : Bool} {limbs : List Word} (hs : s.Valid)
    (h : Shows s v (.bignum negative limbs)) (mode : Mode) :
    (Form.bignum negative limbs).Reads mode s v := by
  obtain ⟨header, index, hkind, hwords, hlimit, hhas⟩ := h.has hs
  have hsize : (Form.bignum negative limbs).size = 2 + limbs.length := rfl
  have hlt : (Form.bignum negative limbs).size < Space.payloadLimit := hwords ▸ hlimit
  simp only [hsize, Space.payloadLimit] at hlt
  have hraw : ∀ i < (Form.bignum negative limbs).size,
      s.rawWord mode v .bignum i = .ok ((Form.bignum negative limbs).word index i) := fun i hi =>
    reads_raw h.ref hhas hkind hwords rfl hi
  have hlength : (·.toNat) <$> s.rawWord mode v .bignum At.bignumLength = .ok limbs.length :=
    reads_count h.ref hhas hkind hwords rfl (by rw [hsize]; exact Nat.lt_add_right _ (by decide)) rfl
      (by simp only [wordLimit]; omega)
  refine ⟨?_, ?_⟩
  · rw [Space.bignumNegative, hraw _ (by rw [hsize]; exact Nat.lt_add_right _ (by decide))]
    cases negative <;> rfl
  · have hlimbs : s.limbsFrom mode v [] limbs.length 0 = .ok limbs := limbsFrom_eq [] fun i hi => by
      rw [hraw _ (by rw [hsize, At.bignumLimbs]; omega)]
      simp [Form.word, Form.payload, At.bignumLimbs, Nat.add_comm 2, hi]
    rw [Space.bignumLimbs, hlength, ok_bind, if_neg (by omega), hlimbs]

theorem Shows.reads_record {type : Value} {slots : List Value} (hs : s.Valid)
    (h : Shows s v (.record type slots)) (mode : Mode) : (Form.record type slots).Reads mode s v := by
  obtain ⟨header, index, hkind, hwords, hlimit, hhas⟩ := h.has hs
  have hsize : (Form.record type slots).size = 2 + slots.length := rfl
  have hlt : (Form.record type slots).size < Space.payloadLimit := hwords ▸ hlimit
  simp only [hsize, Space.payloadLimit] at hlt
  refine ⟨?_, ?_, fun i hi => ?_⟩
  · exact reads_count h.ref hhas hkind hwords rfl
      (by rw [hsize]; exact Nat.lt_add_right _ (by decide)) rfl (by simp only [wordLimit]; omega)
  · exact reads_field h.ref hhas hkind hwords .structType rfl rfl (by rw [hsize]; omega)
  · have hword : (Field.structSlot i).word mode = .ok (2 + i) := by
      rw [Field.word, Mode.add, if_pos (by simp only [wordLimit]; omega)]
    have hslot : (Form.record type slots).word index (2 + i) = slots[i].bits := by
      simp [Form.word, Form.payload, Nat.add_comm 2 i, hi]
    rw [reads_field h.ref hhas hkind hwords (.structSlot i) rfl hword (Nat.add_lt_add_left hi 2), hslot]

/-- The readers find in an object what it was built from. -/
theorem Shows.reads (hs : s.Valid) (h : Shows s v form) (mode : Mode) : form.Reads mode s v := by
  obtain ⟨header, index, hkind, hwords, hlimit, hhas⟩ := h.has hs
  have hfield : ∀ (field : Field) {word : Nat}, field.kind = form.kind → field.word mode = .ok word →
      word < form.size → s.fieldGet mode v field = .ok ⟨form.word index word⟩ := fun field _ =>
    reads_field h.ref hhas hkind hwords field
  have hraw : ∀ i, form.kind.isHeap = true → i < form.size →
      s.rawWord mode v form.kind i = .ok (form.word index i) := fun _ hheap hlt =>
    reads_raw h.ref hhas hkind hwords hheap hlt
  cases form with
  | bare kind words =>
    intro i hi
    obtain ⟨-, cell, hcell, -, hword⟩ := hhas
    rw [Space.word_of_object? hcell, hword]
    rfl
  | vector => exact h.reads_vector hs mode
  | string => exact h.reads_string hs mode
  | bignum => exact h.reads_bignum hs mode
  | record => exact h.reads_record hs mode
  | cons car cdr =>
    have hsize : (Form.cons car cdr).size = 2 := rfl
    exact ⟨hfield .car rfl rfl (by omega), hfield .cdr rfl rfl (by omega)⟩
  | ratio numerator denominator =>
    have hsize : (Form.ratio numerator denominator).size = 2 := rfl
    exact ⟨hfield .ratioNumerator rfl rfl (by omega), hfield .ratioDenominator rfl rfl (by omega)⟩
  | complex real imag =>
    have hsize : (Form.complex real imag).size = 2 := rfl
    exact ⟨hfield .complexReal rfl rfl (by omega), hfield .complexImag rfl rfl (by omega)⟩
  | symbol name =>
    have hsize : (Form.symbol name).size = 7 := rfl
    exact ⟨hfield .symbolName rfl rfl (by omega), hfield .symbolValue rfl rfl (by omega),
      hfield .symbolFunction rfl rfl (by omega), hfield .symbolPlist rfl rfl (by omega),
      hfield .symbolPackage rfl rfl (by omega), hraw 6 rfl (by omega)⟩
  | double bits =>
    obtain ⟨-, cell, hcell, -, hword⟩ := hhas
    have hisKind : s.isKind v .doubleFloat = true := h.isKind rfl
    rw [Form.Reads, Space.doubleBits, hisKind, Space.word_of_object? hcell, hword]
    cases mode <;> rfl
  | closure entry env name =>
    have hsize : (Form.closure entry env name).size = 3 := rfl
    exact ⟨hraw 0 rfl (by omega), hfield .closureEnv rfl rfl (by omega),
      hfield .closureName rfl rfl (by omega)⟩
  | stream direction elementType buffer handle =>
    have hsize : (Form.stream direction elementType buffer handle).size = 5 := rfl
    refine ⟨?_, hraw 1 rfl (by omega), hfield .streamElementType rfl rfl (by omega),
      hfield .streamBuffer rfl rfl (by omega), hraw 4 rfl (by omega)⟩
    have hcode : s.rawWord mode v .stream At.streamMode = .ok direction.code :=
      hraw 0 rfl (by omega)
    rw [Space.streamMode, hcode]
    cases direction <;> rfl
  | foreign address size tag =>
    have hsize : (Form.foreign address size tag).size = 3 := rfl
    exact ⟨hraw 0 rfl (by omega), hraw 1 rfl (by omega), hfield .foreignTag rfl rfl (by omega)⟩

namespace Host

variable {host : Host} {frames : List Value}

/-- What a constructor built can be read back. This holds of every machine on which nothing is under way,
of every form and of parts of any kind, and it still holds after whatever goes on around the object, as
long as no collection reclaims it. While it is built, all other objects keep their contents, but for what
finalizers do to them. These run at one point only, between taking the memory and filling it in. If native
stacks are not scanned, then they must not reclaim the new object there. -/
theorem constructed_reads (hhonest : host.Honest m.heap.space) (hm : Steady m)
    (hkind : form.kind.isHeap = true) (hsize : form.size < Space.payloadLimit)
    (hquiet : host.scans = true ∧ Sound m ∨ host.Considerate frames form.kind form.size m)
    (hrun : host.build frames form m = .ok v m') :
    (∀ h, Relation.ReflTransGen (Heap.Goes (· = v.address)) m'.heap h →
      h.isLive v = true ∧ h.space.kindOf v = form.kind ∧ ∀ mode, form.Reads mode h.space v) ∧
    (∃ m₁ m₂, withLock .heap (host.allocateLocked frames form.kind form.size) m = .ok v m₁ ∧
      (m₁.heap.pending = [] ∧ m₂ = m₁ ∨ host.runFinalizers (v :: frames) m₁ = .ok () m₂) ∧
      form.fill v m₂ = .ok () m' ∧
      m.heap.space.Inherits (· = v.address) m₁.heap.space ∧
      m₂.heap.space.Inherits (· = v.address) m'.heap.space) ∧
    (host.Undisturbed frames form.kind form.size m →
      m.heap.space.Inherits (· = v.address) m'.heap.space) := by
  obtain ⟨m₁, m₂, hstages⟩ : ∃ m₁ m₂, Stages host frames form v m m₁ m₂ m' := by
    rw [← (agrees_build frames form m).2 hhonest] at hrun
    obtain ⟨m₁, m₂, hstages⟩ := build_stages host.scrupulous_guarded hm hkind
      (.inr (Form.fits_of_size hsize)) (hquiet.imp_right (·.guarded hhonest)) hrun
    exact ⟨m₁, m₂, hstages.of_guarded hhonest⟩
  refine ⟨fun h hgoes => ?_, ⟨m₁, m₂, hstages.allocated, hstages.finalized, hstages.filled,
    hstages.before, hstages.after⟩, hstages.inherits⟩
  obtain ⟨hrested, -, hkept⟩ := Heap.Goes.similar hgoes hstages.rested
  obtain ⟨href, cell, hcell, hform⟩ := hstages.shows
  obtain ⟨cell', hcell', hsim⟩ := hkept _ cell rfl hcell
  have hshows : Shows h.space v form := ⟨href, cell', hcell', hform.similar hsim⟩
  exact ⟨hshows.isLive hrested.valid, hshows.kindOf, hshows.reads hrested.valid⟩

/-- A vector that is kept by a collection. -/
theorem constructed_reads_vector : ∃ v m' h,
    makeVector 199 .t smallMachine = .ok v m' ∧
    Relation.ReflTransGen (Heap.Goes (· = v.address)) m'.heap h ∧ h.collections = 1 ∧
    ∀ mode, h.space.vectorLength mode v = .ok 199 ∧
      ∀ i < 199, h.space.vectorRef mode v i = .ok .t := by
  have hrun : returns (fun _ m' => m'.heap.mode == .debug && m'.heap.collections == 0)
      (makeVector 199 .t smallMachine) = true := by decide +kernel
  obtain ⟨v, m', hbuild, hcheck⟩ := exists_of_returns hrun
  simp only [Bool.and_eq_true, beq_iff_eq] at hcheck
  obtain ⟨hdebug, hnone⟩ := hcheck
  have hplain := (congrFun (plain_build [] (.vector 199 .t)) smallMachine).trans hbuild
  obtain ⟨hpasses, -, -, ⟨href, cell, hcell, -⟩, -⟩ :=
    (constructors_sound honest_smallMachine sound_smallMachine []).1 (.vector 199 .t) v m' rfl (.inl rfl)
      (.inr (undisturbed_of_unattended sound_smallMachine honest_smallMachine rfl ⟨rfl, rfl⟩))
      (List.forall_mem_singleton.mpr fun href => by cases href) hplain
  have hobject : (m'.heap.space.object? v.address).isSome := Option.isSome_of_eq_some hcell
  have hpermitted : ∀ call ∈ [RootCall.value v], call.Permitted m'.heap.space :=
    List.forall_mem_singleton.mpr fun _ => hobject
  obtain ⟨collection, h, hcollect, hsurvives⟩ := hpasses.sound.wellFormed.collect hpermitted
  have hlive : (h.space.object? v.address).isSome :=
    (hsurvives.live _).mpr (.root (.inl (.inl ⟨_, List.mem_cons_self, href, rfl⟩)))
  have hgoes : Heap.Goes (· = v.address) m'.heap h :=
    .collect (fun hmode => by cases hdebug.symm.trans hmode) hcollect fun a ha => ha ▸ hlive
  obtain ⟨hreads, -⟩ := constructed_reads honest_smallMachine sound_smallMachine.steady rfl (by decide)
    (.inr (considerate_smallMachine rfl _)) hplain
  obtain ⟨-, -, hvector⟩ := hreads h (.single hgoes)
  exact ⟨v, m', h, hbuild, .single hgoes,
    (Heap.completed_collect hcollect).2.trans (congrArg (· + 1) hnone), hvector⟩

end Host

/-- Without the scan a finalizer can reclaim a vector before it is filled in. A release build goes on with
it and reads that it has no elements. -/
theorem vector_reclaimed : ∃ (m : Machine Unit) (v : Value) (m' : Machine Unit),
    makeVector 199 .empty m = .ok v m' ∧ m'.heap.isLive v = false ∧
      m'.heap.space.vectorLength m'.mode v = .ok 0 := by
  have hrun : returns (fun v m' => !m'.heap.isLive v && m'.heap.space.vectorLength m'.mode v == .ok 0)
      (makeVector 199 .empty { disturbedMachine with
        mode := .release, heap := { disturbedHeap with mode := .release } }) = true := by
    decide +kernel
  obtain ⟨v, m', hok, hcheck⟩ := exists_of_returns hrun
  simp only [Bool.and_eq_true, Bool.not_eq_true', beq_iff_eq] at hcheck
  exact ⟨_, v, m', hok, hcheck⟩

end Substrate.Machine
