import Substrate.Proofs.Collection.Visit
import Substrate.Proofs.Construct.Stages
import Substrate.Proofs.Space.Readers

/-!
# Slots are fields

Which words of an object hold values is said twice: by the positions of its fields, and by the layout of
its kind, which collections go by. The two agree on objects that count as many elements as there is room
for (`Cell.Counted`), and constructors make no others. `Space.Accords` is what follows for an object:
tracing it visits its fields and nothing else, and a store into one of them changes nothing else.
`constructed_accords` says so of every object that a constructor has built, whatever is stored into its
fields later on and whatever goes on around it. It is up to the finalizers whether the object is built at
all: one that runs before the object is filled in may leave another one in its place (`vector_overlong`).
-/

namespace Substrate

variable {cell cell' : Cell} {field : Field} {word i : Nat}

/-! ## Slots -/

/-- A fixed word that holds a value is a field. -/
theorem Layout.field_of_valueWord {kind : Kind} (h : i ∈ (Layout.of kind).valueWords) :
    ∃ field : Field, field.kind = kind ∧ field.position = i := by
  have hplain : ∀ i ∈ (Layout.of kind).valueWords,
      ∃ field ∈ Field.plain, field.kind = kind ∧ field.position = i := by
    cases kind <;> decide
  obtain ⟨field, -, hfield⟩ := hplain i h
  exact ⟨field, hfield⟩

/-- A word in a tail of values is a field. -/
theorem Layout.field_of_tail {kind : Kind} {words : Nat}
    (h : (Layout.of kind).valueLengthWord? words = some word) (hi : (Layout.of kind).fixedWords ≤ i) :
    ∃ field : Field, field.kind = kind ∧ field.position = i := by
  cases kind with
  | vector => exact ⟨.vectorElt (i - 1), rfl, Nat.add_sub_cancel' hi⟩
  | record => exact ⟨.structSlot (i - 2), rfl, Nat.add_sub_cancel' hi⟩
  | _ => cases h

/-- The slots are the fields that may be accessed. -/
theorem Cell.Counted.mem_slots_iff (h : cell.Counted) : i ∈ cell.slots ↔
    ∃ field : Field, cell.header.Supports field ∧ field.position = i := by
  have hlimit := h.limit
  simp only [Space.payloadLimit] at hlimit
  constructor
  · intro hi
    obtain ⟨hvalue, hlt⟩ | ⟨word, hword, hle, hlt⟩ := Cell.mem_slots.mp hi
    · obtain ⟨field, hkind, rfl⟩ := Layout.field_of_valueWord hvalue
      exact ⟨field, ⟨hkind.symm, hlt⟩, rfl⟩
    · obtain ⟨field, hkind, rfl⟩ := Layout.field_of_tail hword hle
      refine ⟨field, ⟨hkind.symm, ?_⟩, rfl⟩
      simp only [Layout.room] at hlt
      omega
  · rintro ⟨field, ⟨hkind, hlt⟩, rfl⟩
    have hword : field.word .debug = .ok field.position :=
      field.word_eq .debug (by simp only [wordLimit]; omega)
    exact (Field.mem_slots_iff hkind hword hlt).mpr (h.followed hkind hlt)

/-! ## Accesses and tracing -/

namespace Space

variable {s t : Space} {v value : Value} {mode : Mode}

/-- Accesses to fields of the object and tracing it agree with each other. -/
structure Accords (s : Space) (v : Value) : Prop where
  /-- Tracing visits each field that a debug build accepts once, visits nothing else and is no broken
  contract. -/
  traced : ∃ slots : List Nat, slots.Nodup ∧
    (∀ i, i ∈ slots ↔ ∃ field, s.locate .debug v field = .ok (some i)) ∧
    ∀ mode (m : Marking), s.Similar m.space →
      Marking.trace mode v.address m = Marking.markListed mode v.address slots m ∧
      ∀ message m', Marking.trace mode v.address m ≠ .error (.fatal .contractViolation message) m'
  /-- A store into such a field can be read back and changes nothing else. -/
  stored : ∀ field word, s.locate .debug v field = .ok (some word) → ∀ mode value,
    ∃ t, fieldSet mode v field value s = .ok () t ∧ s.Stores mode v field value t

/-- The value refers to an object of this kind and size that counts as many elements as it has room for. -/
structure Counts (s : Space) (v : Value) (kind : Kind) (words : Nat) : Prop where
  valid : s.Valid
  ref : v.isHeapRef = true
  object : ∃ cell, s.object? v.address = some cell ∧ cell.header.kind = kind ∧
    cell.header.words = words ∧ cell.Counted

variable {kind : Kind} {words : Nat}

/-- A debug build accepts the fields that the object supports. -/
theorem locate_debug_iff (href : v.isHeapRef = true) (hcell : s.object? v.address = some cell)
    (hlimit : cell.header.words < payloadLimit) :
    s.locate .debug v field = .ok (some i) ↔ cell.header.Supports field ∧ field.position = i := by
  simp only [payloadLimit] at hlimit
  constructor
  · intro h
    obtain ⟨-, ⟨cell', hcell', hkind, hlt⟩, hword⟩ := locate_debug h
    obtain rfl : cell = cell' := Option.some.inj (hcell.symm.trans hcell')
    obtain rfl := Field.eq_position (.inl rfl) hword
    exact ⟨⟨hkind, hlt⟩, rfl⟩
  · rintro ⟨⟨hkind, hlt⟩, rfl⟩
    have hword : field.word .debug = .ok field.position :=
      field.word_eq .debug (by simp only [wordLimit]; omega)
    simp [locate, href, hword, header_of_object? hcell, hkind, Nat.not_le.mpr hlt, bind, Except.bind,
      pure, Except.pure]

theorem Counts.accords (h : s.Counts v kind words) : s.Accords v := by
  obtain ⟨hvalid, href, cell, hcell, -, -, hcounted⟩ := h
  refine ⟨⟨cell.slots, cell.nodup_slots, fun i => ?_, fun mode m hsim => ?_⟩,
    fun field word hlocate mode value => hvalid.stores hlocate mode value⟩
  · simp only [hcounted.mem_slots_iff, locate_debug_iff href hcell hcounted.limit]
  · obtain ⟨cell', hcell', hsame⟩ := hsim.object hcell
    have htrace : Marking.trace mode v.address m = Marking.markListed mode v.address cell.slots m := by
      rw [← hsame.slots]
      exact Marking.trace_eq mode hcell' (.inr fun word hword =>
        Nat.le_of_eq ((hcounted.similar hsame).length word hword))
    refine ⟨htrace, fun message m' herror => ?_⟩
    obtain ⟨x, hstale⟩ := Marking.stale_of_markListed (htrace.symm.trans herror)
    cases hstale

theorem Counts.header (h : s.Counts v kind words) :
    (s.header v.address).kind = kind ∧ (s.header v.address).words = words := by
  obtain ⟨-, -, cell, hcell, hkind, hwords, -⟩ := h
  rw [header_of_object? hcell]
  exact ⟨hkind, hwords⟩

end Space

/-! ## Runs -/

namespace Heap

variable {h h' : Heap} {v : Value} {kind : Kind} {words : Nat}

/-- One piece of what happens to an object in use: a value is stored into one of its fields, or things go on
around it that leave it alone. -/
inductive Uses (v : Value) (h : Heap) : Heap → Prop where
  | store {field : Field} {word : Nat} {value : Value} {t : Space}
      (hfield : h.space.locate .debug v field = .ok (some word))
      (hrun : Space.fieldSet h.mode v field value h.space = .ok () t) : Uses v h { h with space := t }
  | around {h' : Heap} (hgoes : Goes (· = v.address) h h') : Uses v h h'

theorem Uses.step (h₀ : Uses v h h') (hr : h.Rested) (hv : h.space.Counts v kind words) :
    h'.Rested ∧ h'.space.Counts v kind words := by
  obtain ⟨hvalid, href, cell, hcell, hkind, hwords, hcounted⟩ := hv
  cases h₀ with
  | @store field word value t hfield hrun =>
    obtain ⟨-, ⟨cell', hcell', hfieldKind, -⟩, hword⟩ := Space.locate_debug hfield
    obtain rfl : cell = cell' := Option.some.inj (hcell.symm.trans hcell')
    simp only [Space.fieldSet, Space.locate_of_debug h.mode hfield] at hrun
    cases hrun
    have hrested := (hr.write hcell word value.bits).rested
    have hheader : (cell.setWord word value.bits).header = cell.header := Cell.header_setWord ..
    refine ⟨hrested, hrested.valid, href, cell.setWord word value.bits, ?_, hheader ▸ hkind,
      hheader ▸ hwords, hcounted.setWord hfieldKind hword value.bits⟩
    exact (hr.valid.object?_setWord hcell word value.bits v.address).trans (if_pos rfl)
  | around hgoes =>
    obtain ⟨hrested, -, hkept⟩ := hgoes.step hr
    obtain ⟨cell', hcell', hsim⟩ := hkept _ cell rfl hcell
    exact ⟨hrested, hrested.valid, href, cell', hcell', hsim.kind.trans hkind, hsim.words.trans hwords,
      hcounted.similar hsim⟩

theorem Uses.run (h₀ : Relation.ReflTransGen (Uses v) h h') (hr : h.Rested)
    (hv : h.space.Counts v kind words) : h'.Rested ∧ h'.space.Counts v kind words := by
  induction h₀ with
  | refl => exact ⟨hr, hv⟩
  | tail _ hstep ih => exact hstep.step ih.1 ih.2

end Heap

namespace Space

variable {s t : Space} {v value : Value} {mode : Mode} {kind : Kind} {index : Nat}

/-! ## Objects without payload -/

section

variable (hempty : (s.header v.address).words = 0)
include hempty

theorem setRawWord_of_empty {bits : Word} (h : setRawWord mode v kind index bits s = .ok () t) :
    t = s := by
  have hcheck : s.checkWord mode v kind index ≠ .ok true := by
    cases mode <;> cases hkind : s.isKind v kind <;>
      simp [checkWord, hkind, hempty, Mode.assertWith, Mode.violation, bind, Except.bind, pure,
        Except.pure]
  unfold setRawWord at h
  split at h
  next => cases h
  next =>
    cases h
    rfl
  next htrue => exact absurd htrue hcheck

theorem fieldSet_of_empty {field : Field} (h : fieldSet mode v field value s = .ok () t) : t = s := by
  unfold fieldSet at h
  split at h
  next => cases h
  next =>
    cases h
    rfl
  next word hlocate =>
    obtain ⟨-, -, hlt⟩ := locate_some hlocate
    rw [hempty] at hlt
    cases hlt

theorem vectorSet_of_empty (h : vectorSet mode v index value s = .ok () t) : t = s := by
  unfold vectorSet at h
  split at h
  next => cases h
  next =>
    cases h
    rfl
  next => exact fieldSet_of_empty hempty h

end

end Space

namespace Machine

variable {γ : Type} {m m' : Machine γ} {host : Host} {frames : List Value} {form : Form} {v : Value}

/-! ## Lengths -/

namespace Form

/-- The arguments can be given to a constructor: a length is a word, and contents are in memory. -/
def Given : Form → Prop
  | vector length _ => length < wordLimit
  | form => form.Fits

theorem size_lt (hmade : ∀ kind words, form ≠ .bare kind words) (h : form.Fits) :
    form.size < wordLimit := by
  cases form with
  | bare kind words => exact absurd rfl (hmade kind words)
  | _ =>
    simp only [Fits, size, tail?, kind, Layout.of, Option.getD, wordBytes, wordLimit] at h ⊢
    omega

/-- A release build computes the number of payload words modulo the size of a word. -/
theorem words_eq_mod (hmade : ∀ kind words, form ≠ .bare kind words) (hgiven : form.Given)
    {mode : Mode} {n : Nat} (h : form.words mode = .ok n) : n = form.size % wordLimit := by
  by_cases hfits : form.Fits
  · rw [words_eq (.inr hfits) h, Nat.mod_eq_of_lt (size_lt hmade hfits)]
  · cases form with
    | vector length fill =>
      have hadd : mode.add 1 length = .ok n := h
      show n = (1 + length) % wordLimit
      unfold Mode.add at hadd
      split at hadd
      next hlt => rw [Nat.mod_eq_of_lt hlt, Except.ok.inj hadd]
      next =>
        cases mode with
        | debug => cases hadd
        | release => exact (Except.ok.inj hadd).symm
    | _ => exact absurd hgiven hfits

end Form

/-- A vector without room for its length is not filled in. -/
theorem fill_of_empty {length : Nat} {fill : Value}
    (hempty : (m.heap.space.header v.address).words = 0)
    (hrun : (Form.vector length fill).fill v m = .ok () m') : m' = m := by
  obtain ⟨_, m₁, hlength, hrest⟩ := exists_of_bind_ok hrun
  obtain ⟨space, hset, rfl⟩ := of_onSpace hlength
  obtain rfl := Space.setRawWord_of_empty hempty hset
  change Form.fillElements v length fill m = .ok () m' at hrest
  unfold Form.fillElements at hrest
  split at hrest
  next =>
    cases length with
    | zero =>
      cases hrest
      rfl
    | succ length =>
      obtain ⟨_, m₂, hfirst, hrest⟩ := exists_of_bind_ok hrest
      obtain ⟨space, hset, rfl⟩ := of_onSpace hfirst
      obtain rfl := Space.vectorSet_of_empty hempty hset
      obtain ⟨_, m₃, hget, hrest⟩ := exists_of_bind_ok hrest
      cases hget
      obtain ⟨space, hset, rfl⟩ := of_onSpace hrest
      rw [hempty] at hset
      cases hset
      rfl
  next =>
    cases hrest
    rfl

namespace Host

/-- A vector whose size wraps around has no payload at all. -/
theorem counts_of_wrapped (hhost : host.Scrupulous) (hm : Steady m) {length : Nat} {fill : Value}
    (hgiven : length < wordLimit) (hfits : ¬ (Form.vector length fill).Fits)
    (hquiet : host.scans = true ∧ Sound m ∨
      host.Considerate frames .vector ((Form.vector length fill).size % wordLimit) m)
    (hrun : host.build frames (.vector length fill) m = .ok v m') :
    m'.heap.Rested ∧
      m'.heap.space.Counts v .vector ((Form.vector length fill).size % wordLimit) := by
  obtain ⟨words, m₁, hasked, hallocate, hfill⟩ := of_build_asked hrun
  have hmade : ∀ kind words, Form.vector length fill ≠ .bare kind words := fun _ _ => nofun
  obtain rfl := Form.words_eq_mod hmade hgiven hasked
  obtain ⟨hlimit, hrested, header, hkind, hwords, hholds⟩ :=
    allocateWith_ready hhost hm rfl hquiet hallocate
  have hzero : (Form.vector length fill).size % wordLimit = 0 := by
    have hsize : (Form.vector length fill).size = 1 + length := rfl
    simp only [Form.Fits, Form.tail?, Option.getD, wordBytes, wordLimit] at hfits
    simp only [hsize, Space.payloadLimit, wordLimit] at hlimit hgiven ⊢
    omega
  obtain ⟨cell, hcell, rfl, -⟩ := hholds.has.object
  have hempty : (m₁.heap.space.header v.address).words = 0 := by
    rw [Space.header_of_object? hcell, hwords, hzero]
  obtain rfl := fill_of_empty hempty hfill
  refine ⟨hrested, hrested.valid, hholds.ref, cell, hcell, hkind, hwords, hwords ▸ hlimit,
    fun word hword => ?_⟩
  rw [hkind, hwords, hzero] at hword
  cases hword

/-- A constructor on a host has built an object that counts its elements. -/
theorem counts_of_build (hhonest : host.Honest m.heap.space) (hm : Steady m)
    (hmade : ∀ kind words, form ≠ .bare kind words) (hgiven : form.Given)
    (hquiet : host.scans = true ∧ Sound m ∨
      host.Considerate frames form.kind (form.size % wordLimit) m)
    (hrun : host.build frames form m = .ok v m') :
    m'.heap.Rested ∧ m'.heap.space.Counts v form.kind (form.size % wordLimit) := by
  have hhost := host.scrupulous_guarded
  rw [← (agrees_build frames form m).2 hhonest] at hrun
  replace hquiet := hquiet.imp_right (·.guarded hhonest)
  by_cases hfits : form.Fits
  · have hkind : form.kind.isHeap = true := by
      cases form with
      | bare kind words => exact absurd rfl (hmade kind words)
      | _ => rfl
    rw [Nat.mod_eq_of_lt (Form.size_lt hmade hfits)] at hquiet ⊢
    obtain ⟨_, _, hstages⟩ := build_stages hhost hm hkind (.inr hfits) hquiet hrun
    obtain ⟨href, cell, hcell, hform⟩ := hstages.shows
    exact ⟨hstages.rested, hstages.rested.valid, href, cell, hcell, hform.kind, hform.words,
      hform.counted hmade⟩
  · cases form with
    | vector length fill => exact counts_of_wrapped hhost hm hgiven hfits hquiet hrun
    | _ => exact absurd hgiven hfits

end Host

/-! ## Constructors that clients call -/

/-- A constructor of the machine has come back with an object of the form, whose memory was asked for in
the first machine. Where a symbol is made, there is a name for it by then. -/
inductive Constructed (m : Machine γ) : Form → Value → Machine γ → Prop where
  | once {form : Form} {v : Value} {m' : Machine γ} (hrun : form.construct m = .ok v m') :
      Constructed m form v m'
  | symbol {text : String} {name v : Value} {m₀ m' : Machine γ}
      (hname : makeString text m₀ = .ok name m) (hrun : makeSymbol text m₀ = .ok v m') :
      Constructed m (.symbol name) v m'
  | interned {text : String} {name v : Value} {m₀ m' : Machine γ}
      (hnew : m₀.symbols.get? text = none)
      (hname : makeString text { m₀ with held := .symbols :: m₀.held } = .ok name m)
      (hrun : intern text m₀ = .ok v m') : Constructed m (.symbol name) v m'

/-- In the end there is one allocation, and nothing is done to the heap after it. -/
theorem Constructed.construct (h : Constructed m form v m') :
    ∃ m₁, form.construct m = .ok v m₁ ∧ m₁.heap = m'.heap := by
  cases h with
  | once hrun => exact ⟨m', hrun, rfl⟩
  | @symbol text _ _ m₀ _ hname hrun =>
    rw [Form.makeSymbol_eq, bind_of_ok (show (Form.string text).construct m₀ = _ from hname)] at hrun
    exact ⟨m', hrun, rfl⟩
  | @interned text name _ m₀ _ hnew hname hrun =>
    obtain ⟨-, m₁, hinside, rfl⟩ := of_withLock hrun
    obtain ⟨_, m₂, hget, hrest⟩ := exists_of_bind_ok hinside
    cases hget
    dsimp only at hrest
    rw [hnew] at hrest
    obtain ⟨symbol, m₂, hmake, hrest⟩ := exists_of_bind_ok hrest
    cases hrest
    change makeSymbol text _ = _ at hmake
    rw [Form.makeSymbol_eq, bind_of_ok (show (Form.string text).construct _ = _ from hname)] at hmake
    exact ⟨m₂, hmake, rfl⟩

/-- Accesses to fields and tracing agree on the object from now on, whatever is stored into its fields and
whatever goes on around it. -/
def Form.Settled (form : Form) (v : Value) (h₀ : Heap) : Prop :=
  ∀ h, Relation.ReflTransGen (Heap.Uses v) h₀ h → (h.space.header v.address).kind = form.kind ∧
    (h.space.header v.address).words = form.size % wordLimit ∧ h.space.Accords v

theorem Form.settled_of_counts {h : Heap} (hr : h.Rested)
    (hv : h.space.Counts v form.kind (form.size % wordLimit)) : form.Settled v h := by
  intro h' huses
  obtain ⟨-, hcounts⟩ := Heap.Uses.run huses hr hv
  exact ⟨hcounts.header.1, hcounts.header.2, hcounts.accords⟩

/-- Accesses to fields and tracing agree on every object that a constructor has built, of any kind and any
length, and they still do after values have been stored into its fields and whatever has gone on around
it. This is so on every host, and for the constructors that clients call (`Machine.makeVector` and all
others) on a machine that owns its memory. What a finalizer reclaims or writes to before it is filled in
has not been built. An object without a constructor may have fields that are not traced. -/
theorem constructed_accords (hm : Steady m) (hmade : ∀ kind words, form ≠ .bare kind words)
    (hgiven : form.Given) :
    (∀ (host : Host) (frames : List Value) v m', host.Honest m.heap.space →
      (host.scans = true ∧ Sound m ∨ host.Considerate frames form.kind (form.size % wordLimit) m) →
      host.build frames form m = .ok v m' → form.Settled v m'.heap) ∧
    ∀ v m', m.heap.space.Owned → Considerate form.kind (form.size % wordLimit) m →
      Constructed m form v m' → form.Settled v m'.heap := by
  refine ⟨fun host frames v m' hhonest hquiet hrun => ?_, fun v m' howned hquiet hbuilt => ?_⟩
  · obtain ⟨hrested, hcounts⟩ := Host.counts_of_build hhonest hm hmade hgiven hquiet hrun
    exact Form.settled_of_counts hrested hcounts
  · obtain ⟨m₁, hrun, hheap⟩ := hbuilt.construct
    rw [← Host.plain_build []] at hrun
    obtain ⟨hrested, hcounts⟩ := Host.counts_of_build (Host.honest_plain howned) hm hmade hgiven
      (.inr (Host.plain_considerate.mpr hquiet)) hrun
    exact hheap ▸ Form.settled_of_counts hrested hcounts

/-- A vector after a value has been stored into an element. -/
theorem constructed_accords_vector : ∃ v m' t, makeVector 199 .t smallMachine = .ok v m' ∧
    Space.fieldSet m'.heap.mode v (.vectorElt 3) .nil m'.heap.space = .ok () t ∧
    m'.heap.space.Stores m'.heap.mode v (.vectorElt 3) .nil t ∧
    (t.header v.address).words = 200 ∧ t.Accords v := by
  have hrun : returns (fun v m' => m'.heap.space.locate .debug v (.vectorElt 3) == .ok (some 4))
      (makeVector 199 .t smallMachine) = true := by decide +kernel
  obtain ⟨v, m', hbuild, hcheck⟩ := exists_of_returns hrun
  have hlocate : m'.heap.space.locate .debug v (.vectorElt 3) = .ok (some 4) := beq_iff_eq.mp hcheck
  have hgiven : (Form.vector 199 .t).Given := (by decide : 199 < wordLimit)
  have hquiet : Considerate .vector ((Form.vector 199 .t).size % wordLimit) smallMachine :=
    Host.plain_considerate.mp (Host.considerate_smallMachine rfl _)
  have hmade : ∀ kind words, Form.vector 199 .t ≠ .bare kind words := nofun
  obtain ⟨-, hbuilds⟩ := constructed_accords Host.sound_smallMachine.steady hmade hgiven
  have hsettled := hbuilds v m' (Space.owned_new _) hquiet (.once hbuild)
  obtain ⟨-, -, hbuilt⟩ := hsettled _ .refl
  obtain ⟨t, hset, hstores⟩ := hbuilt.stored _ _ hlocate m'.heap.mode .nil
  obtain ⟨-, hwords, haccords⟩ := hsettled _ (.single (.store hlocate hset))
  exact ⟨v, m', t, hbuild, hset, hstores, hwords, haccords⟩

/-- A machine like `disturbedMachine`, but where the finalizer allocates a vector after it has collected. -/
def recyclingMachine : Machine Unit :=
  { smallMachine with heap := { disturbedHeap with
      finalizers := disturbedHeap.finalizers.map fun entry => (entry.1, [.collect, .vector 200]) } }

/-- The finalizer's vector is where the new one was, and it has one word less. The constructor comes back
with it, and tracing it breaks the contract. -/
theorem vector_overlong : ∃ v m', makeVector 200 .empty recyclingMachine = .ok v m' ∧
    m'.heap.isLive v = true ∧ m'.heap.space.kindOf v = .vector ∧
    m'.heap.space.vectorLength .debug v = .ok 200 ∧ (m'.heap.space.header v.address).words = 200 ∧
    ∃ marking, Marking.trace .debug v.address (.start m'.heap.space false)
      = .error (.fatal .contractViolation "vector of length 200 in 200 payload words") marking := by
  have hrun : returns (fun v m' => (m'.heap.isLive v && m'.heap.space.kindOf v == .vector &&
      m'.heap.space.vectorLength .debug v == .ok 200 &&
      (m'.heap.space.header v.address).words == 200) &&
      fails (fun fault _ =>
          fault == .fatal .contractViolation "vector of length 200 in 200 payload words")
        (Marking.trace .debug v.address (.start m'.heap.space false)))
      (makeVector 200 .empty recyclingMachine) = true := by decide +kernel
  obtain ⟨v, m', hok, hcheck⟩ := exists_of_returns hrun
  obtain ⟨hobject, htraced⟩ := (Bool.and_eq_true_iff ..).mp hcheck
  simp only [Bool.and_eq_true, beq_iff_eq] at hobject
  obtain ⟨⟨⟨hlive, hkind⟩, hlength⟩, hwords⟩ := hobject
  obtain ⟨fault, marking, htrace, hfault⟩ := exists_of_fails htraced
  obtain rfl := beq_iff_eq.mp hfault
  exact ⟨v, m', hok, hlive, hkind, hlength, hwords, marking, htrace⟩

end Machine

end Substrate
