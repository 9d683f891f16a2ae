import Substrate.Machine.Threads
import Substrate.Proofs.Control.Symbols
import Substrate.Proofs.Space.Runs

/-!
# Immediates

An immediate is a word with a tag in its low bits and a payload above it. Five kinds share the words that
are no addresses: `Value.ofImmediate_faithful` says that the kind and the payload can be read back from
the word, for every payload that the kind has room for.

The other direction starts from a word of unknown origin that is accepted as an immediate.
`Machine.canonical_iff` says when encoding what was read gives the same word again.
-/

namespace Substrate

variable {mode : Mode} {v w : Value} {kind : Kind} {bits : Word}

/-! ## Words made of a payload and a tag -/

section

variable (bits tag : Word)

theorem toNat_tagged {k : Word} (hk : k.toNat < 64) (htag : tag.toNat < Nat.pow 2 k.toNat) :
    ((bits <<< k) ||| tag).toNat = bits.toNat * Nat.pow 2 k.toNat % wordLimit + tag.toNat := by
  have hsplit : wordLimit = Nat.pow 2 k.toNat * Nat.pow 2 (64 - k.toNat) := by
    have hpow : Nat.pow 2 (k.toNat + (64 - k.toNat))
        = Nat.pow 2 k.toNat * Nat.pow 2 (64 - k.toNat) := Nat.pow_add 2 _ _
    rwa [show k.toNat + (64 - k.toNat) = 64 by omega] at hpow
  have hshift : (bits <<< k).toNat = Nat.pow 2 k.toNat * (bits.toNat % Nat.pow 2 (64 - k.toNat)) := by
    rw [UInt64.toNat_shiftLeft, Nat.mod_eq_of_lt hk, Nat.shiftLeft_eq, Nat.mul_comm]
    exact (congrArg _ hsplit).trans (Nat.mul_mod_mul_left ..)
  rw [UInt64.toNat_or, hshift, Nat.mul_comm bits.toNat, hsplit, Nat.mul_mod_mul_left]
  exact (Nat.two_pow_add_eq_or_of_lt htag _).symm

end

/-! ## Recognising immediates -/

namespace Kind

/-- What the low bits of an immediate of a kind are. -/
def Tags (kind : Kind) (n : Nat) : Prop :=
  match kind with
  | .empty => n = 0
  | .fixnum => n % 2 = 1
  | .character => n % 8 = 2
  | .constant => n % 8 = 4
  | .singleFloat => n % 8 = 6
  | _ => False

end Kind

namespace Value

theorem toNat_and_one (bits : Word) : (bits &&& 1).toNat = bits.toNat % 2 := by
  rw [UInt64.toNat_and]
  exact Nat.and_two_pow_sub_one_eq_mod bits.toNat 1

theorem toNat_and_seven (bits : Word) : (bits &&& 7).toNat = bits.toNat % 8 := by
  rw [UInt64.toNat_and]
  exact Nat.and_two_pow_sub_one_eq_mod bits.toNat 3

theorem isHeapRef_iff (v : Value) :
    v.isHeapRef = true ↔ v.bits.toNat ≠ 0 ∧ v.bits.toNat % 8 = 0 := by
  rw [isHeapRef, Bool.and_eq_true, bne_iff_ne, beq_iff_eq, ne_eq, ← UInt64.toNat_inj,
    ← UInt64.toNat_inj, toNat_and_seven]
  rfl

theorem kindWith_eq (v : Value) (header : Kind) : v.kindWith header =
    if v.bits.toNat % 2 ≠ 0 then .fixnum
    else if v.bits.toNat % 8 = 0 then if v.bits.toNat = 0 then .empty else header
    else if v.bits.toNat % 8 = 2 then .character
    else if v.bits.toNat % 8 = 4 then .constant
    else .singleFloat := by
  simp only [kindWith, bne_iff_ne, beq_iff_eq, ← UInt64.toNat_inj, toNat_and_seven, toNat_and_one,
    ne_eq]
  rfl

/-- Every word that is no address is the immediate of one kind. -/
theorem tags_kindWith (href : v.isHeapRef = false) (header : Kind) :
    (v.kindWith header).Tags v.bits.toNat := by
  have hzero : v.bits.toNat % 8 = 0 → v.bits.toNat = 0 := fun hmod =>
    Decidable.byContradiction fun hne => by simp [(isHeapRef_iff v).mpr ⟨hne, hmod⟩] at href
  rw [kindWith_eq]
  split
  next => unfold Kind.Tags; omega
  next =>
    split
    next hmod => rw [if_pos (hzero hmod)]; exact hzero hmod
    next =>
      split
      next hmod => exact hmod
      next =>
        split
        next hmod => exact hmod
        next => unfold Kind.Tags; omega

end Value

/-- Two kinds have no word in common. -/
theorem Kind.Tags.kindWith (h : kind.Tags v.bits.toNat) (header : Kind) :
    v.kindWith header = kind := by
  rw [Value.kindWith_eq]
  cases kind with
  | empty => simp [show v.bits.toNat = 0 from h]
  | fixnum => simp [show v.bits.toNat % 2 = 1 from h]
  | character =>
    have hmod : v.bits.toNat % 8 = 2 := h
    simp [hmod, show v.bits.toNat % 2 = 0 by omega]
  | constant =>
    have hmod : v.bits.toNat % 8 = 4 := h
    simp [hmod, show v.bits.toNat % 2 = 0 by omega]
  | singleFloat =>
    have hmod : v.bits.toNat % 8 = 6 := h
    simp [hmod, show v.bits.toNat % 2 = 0 by omega]
  | _ => exact h.elim

theorem Kind.Tags.isHeapRef (h : kind.Tags v.bits.toNat) : v.isHeapRef = false := by
  rw [Bool.eq_false_iff, ne_eq, Value.isHeapRef_iff]
  rintro ⟨hne, hmod⟩
  cases kind with
  | empty => exact hne h
  | fixnum => have hodd : v.bits.toNat % 2 = 1 := h; omega
  | character => exact absurd (hmod.symm.trans h) (by decide)
  | constant => exact absurd (hmod.symm.trans h) (by decide)
  | singleFloat => exact absurd (hmod.symm.trans h) (by decide)
  | _ => exact h.elim

theorem Kind.Tags.kindOf (h : kind.Tags v.bits.toNat) (s : Space) : s.kindOf v = kind := by
  rw [Space.kindOf, h.isHeapRef, if_neg Bool.false_ne_true, h.kindWith]

namespace Value

/-! ## Payloads -/

/-- The number in the low 63 bits of a word, read with its sign and extended to a word. -/
def signExtended (bits : Word) : Word :=
  ⟨(bits.toBitVec.setWidth 63).signExtend 64⟩

theorem toInt_signExtended (bits : Word) :
    (signExtended bits).toInt64.toInt = bits.toInt64.toInt.bmod 9223372036854775808 := by
  rw [← Int64.toInt_toBitVec, ← Int64.toInt_toBitVec, UInt64.toBitVec_toInt64,
    UInt64.toBitVec_toInt64, signExtended, BitVec.toInt_signExtend_of_le (by decide),
    BitVec.toInt_setWidth, BitVec.toInt_eq_toNat_bmod, Int.bmod_bmod_of_dvd (by decide)]

theorem toBitVec_wordOfInt (n : Int) : (wordOfInt n).toBitVec = BitVec.ofInt 64 n := by
  apply BitVec.eq_of_toNat_eq
  rw [wordOfInt, UInt64.ofInt, UInt64.toNat_toBitVec, UInt64.toNat_ofNat', BitVec.toNat_ofInt]
  omega

theorem toBitVec_payload_fixnum (v : Value) :
    (v.payload .fixnum).toBitVec = v.bits.toBitVec.sshiftRight 1 := by
  rw [payload, toBitVec_wordOfInt, toInt, ← Int64.toInt_toBitVec, BitVec.ofInt_toInt]
  rfl

theorem payload_fixnum (bits : Word) :
    payload ⟨(bits <<< 1) ||| 1⟩ .fixnum = signExtended bits := by
  apply UInt64.eq_of_toBitVec_eq
  rw [toBitVec_payload_fixnum, signExtended]
  ext i hi
  have hshift : (bits <<< 1).toBitVec = bits.toBitVec <<< 1 := rfl
  rw [BitVec.getElem_sshiftRight, BitVec.getElem_signExtend, UInt64.toBitVec_or, hshift]
  split
  next hlow =>
    simp [show i < 63 by omega, BitVec.getLsbD_eq_getElem hi]
  next hhigh =>
    -- The sign bit is shifted in.
    obtain rfl : i = 63 := by omega
    simp [BitVec.msb_eq_getLsbD_last]

/-- A number in the range of fixnums is the sign extension of its own lower bits. -/
theorem signExtended_eq (h : fitsFixnum bits.toInt64.toInt = true) : signExtended bits = bits := by
  have hfits : mostNegative ≤ bits.toInt64.toInt ∧ bits.toInt64.toInt ≤ mostPositive := by
    simpa [fitsFixnum] using h
  have hint : (signExtended bits).toInt64.toInt = bits.toInt64.toInt := by
    rw [toInt_signExtended, Int.bmod_eq_iff (by decide)]
    unfold mostNegative mostPositive at hfits
    omega
  exact congrArg Int64.toUInt64 (Int64.toInt_inj.mp hint)

end Value

/-! ## Encodings -/

namespace Kind

/-- The weight of the lowest bit of a payload. -/
def unit : Kind → Nat
  | fixnum => 2
  | character | constant => 8
  | singleFloat => 4294967296
  | _ => 0

/-- What an encoding has below the payload. -/
def tag : Kind → Nat
  | fixnum => 1
  | character => 2
  | constant => 4
  | singleFloat => 6
  | _ => 0

/-- Which payloads an immediate of a kind has room for. -/
def Admits (kind : Kind) (bits : Word) : Prop :=
  match kind with
  | .empty => bits = 0
  | .fixnum => Value.fitsFixnum bits.toInt64.toInt = true
  | .character | .constant => bits.toNat < 2305843009213693952
  | .singleFloat => bits.toNat < 4294967296
  | _ => False

theorem Admits.isImmediate (h : kind.Admits bits) : kind.isImmediate = true := by
  cases kind <;> first | rfl | exact h.elim

end Kind

namespace Value

/-- An encoding is a multiple of the unit, with the tag below it. -/
theorem exists_ofImmediate (mode : Mode) (himm : kind.isImmediate = true) (bits : Word) :
    ∃ v, ofImmediate mode kind bits = .ok v ∧
      v.bits.toNat = bits.toNat * kind.unit % wordLimit + kind.tag := by
  cases kind with
  | empty => exact ⟨_, rfl, by simp [Kind.unit, Kind.tag, empty]⟩
  | fixnum => exact ⟨_, rfl, toNat_tagged bits 1 (k := 1) (by decide) (by decide)⟩
  | character => exact ⟨_, rfl, toNat_tagged bits 2 (k := 3) (by decide) (by decide)⟩
  | constant => exact ⟨_, rfl, toNat_tagged bits 4 (k := 3) (by decide) (by decide)⟩
  | singleFloat =>
    refine ⟨_, rfl, ?_⟩
    refine (toNat_tagged (bits &&& 0xffffffff) 6 (k := 32) (by decide) (by decide)).trans ?_
    have hlow : (bits &&& 0xffffffff).toNat = bits.toNat % 4294967296 :=
      (UInt64.toNat_and ..).trans (Nat.and_two_pow_sub_one_eq_mod bits.toNat 32)
    change (bits &&& 0xffffffff).toNat * 4294967296 % 18446744073709551616 + 6 =
      bits.toNat * 4294967296 % 18446744073709551616 + 6
    omega
  | _ => exact absurd himm (by decide)

theorem tags_of_toNat (himm : kind.isImmediate = true)
    (h : v.bits.toNat = bits.toNat * kind.unit % wordLimit + kind.tag) :
    kind.Tags v.bits.toNat := by
  rw [h]
  cases kind <;> simp only [Kind.isImmediate, Bool.false_eq_true] at himm <;>
    simp only [Kind.Tags, Kind.unit, Kind.tag, wordLimit] <;> omega

/-- Above the tag, the payload: without the sign, which only fixnums have. -/
theorem toNat_payload (h : kind.Tags v.bits.toNat) (hkind : kind ≠ .fixnum) :
    (v.payload kind).toNat = v.bits.toNat / kind.unit := by
  cases kind with
  | fixnum => exact absurd rfl hkind
  | empty => simp [payload, Kind.unit]
  | character => exact (UInt64.toNat_shiftRight ..).trans (Nat.shiftRight_eq_div_pow ..)
  | constant => exact (UInt64.toNat_shiftRight ..).trans (Nat.shiftRight_eq_div_pow ..)
  | singleFloat => exact (UInt64.toNat_shiftRight ..).trans (Nat.shiftRight_eq_div_pow ..)
  | _ => exact h.elim

theorem toInt_payload_fixnum (v : Value) :
    (v.payload .fixnum).toBitVec.toInt = v.bits.toBitVec.toInt / 2 := by
  rw [toBitVec_payload_fixnum, BitVec.toInt_sshiftRight, Int.shiftRight_eq_div_pow]
  rfl

theorem toNat_payload_fixnum (h : Kind.Tags .fixnum v.bits.toNat) :
    (v.payload .fixnum).toNat * 2 % wordLimit + 1 = v.bits.toNat := by
  have hodd : v.bits.toNat % 2 = 1 := h
  have hint := toInt_payload_fixnum v
  rw [BitVec.toInt_eq_toNat_cond, BitVec.toInt_eq_toNat_cond, UInt64.toNat_toBitVec,
    UInt64.toNat_toBitVec] at hint
  have hpayload := (v.payload .fixnum).toNat_lt
  have hbits := v.bits.toNat_lt
  rw [wordLimit]
  split at hint <;> split at hint <;> omega

/-- The payload comes back from its encoding. -/
theorem payload_of_admits (h : kind.Admits bits) (hv : ofImmediate mode kind bits = .ok v) :
    v.payload kind = bits := by
  obtain ⟨w, hw, hnat⟩ := exists_ofImmediate mode h.isImmediate bits
  obtain rfl : w = v := Except.ok.inj (hw.symm.trans hv)
  have htags := tags_of_toNat h.isImmediate hnat
  cases kind with
  | empty => exact h.symm
  | fixnum =>
    cases hv
    exact (payload_fixnum bits).trans (signExtended_eq h)
  | character | constant | singleFloat =>
    have hroom : bits.toNat < _ := h
    apply UInt64.toNat_inj.mp
    rw [toNat_payload htags (by decide), hnat]
    simp only [Kind.unit, Kind.tag, wordLimit]
    omega
  | _ => exact h.elim

/-- Every payload that a kind has room for is encoded in a word of its own, from which the kind and
the payload can be read again and which is not the address of any object. Of a number that is no
fixnum the lower 63 bits are kept. -/
theorem ofImmediate_faithful (mode : Mode) :
    (∀ kind bits, kind.Admits bits → ∃ v, ofImmediate mode kind bits = .ok v ∧
      (∀ s : Space, s.kindOf v = kind ∧ s.immediateBits v = bits) ∧
      v.isHeapRef = false ∧
      (∀ other payload, other.Admits payload → (other, payload) ≠ (kind, bits) →
        ofImmediate mode other payload ≠ .ok v) ∧
      ∀ address, 0 < address → address < wordLimit → address % 8 = 0 → v ≠ .ofAddress address) ∧
    ∀ bits, ∃ v, ofImmediate mode .fixnum bits = .ok v ∧
      ∀ s : Space, s.kindOf v = .fixnum ∧ s.immediateBits v = signExtended bits := by
  refine ⟨fun kind bits h => ?_, fun bits => ?_⟩
  · obtain ⟨v, hv, hnat⟩ := exists_ofImmediate mode h.isImmediate bits
    have htags := tags_of_toNat h.isImmediate hnat
    refine ⟨v, hv, fun s => ⟨htags.kindOf s, ?_⟩, htags.isHeapRef, ?_, ?_⟩
    · rw [Space.immediateBits, htags.kindOf, payload_of_admits h hv]
    · -- what is read back from a common word is both pairs
      intro other payload hother hne hv'
      obtain ⟨w, hw, hnat'⟩ := exists_ofImmediate mode hother.isImmediate payload
      obtain rfl : w = v := Except.ok.inj (hw.symm.trans hv')
      have htags' := tags_of_toNat hother.isImmediate hnat'
      obtain rfl : other = kind := (htags'.kindWith .invalid).symm.trans (htags.kindWith .invalid)
      obtain rfl := (payload_of_admits hother hv').symm.trans (payload_of_admits h hv)
      exact hne rfl
    · rintro address hpos hlt haligned rfl
      have hbits : (ofAddress address).bits.toNat = address := UInt64.toNat_ofNat_of_lt hlt
      have href : (ofAddress address).isHeapRef = true := by
        rw [isHeapRef_iff, hbits]
        omega
      rw [htags.isHeapRef] at href
      cases href
  · obtain ⟨v, hv, hnat⟩ := exists_ofImmediate mode (rfl : Kind.isImmediate .fixnum = true) bits
    have htags : Kind.Tags .fixnum v.bits.toNat := tags_of_toNat rfl hnat
    refine ⟨v, hv, fun s => ⟨htags.kindOf s, ?_⟩⟩
    rw [Space.immediateBits, htags.kindOf]
    cases hv
    exact payload_fixnum bits

theorem ofImmediate_faithful_leastFixnum :
    Kind.Admits .fixnum 0xc000000000000000 ∧ Kind.Admits .character 1 ∧
    ∃ v, ofImmediate .debug .fixnum 0xc000000000000000 = .ok v ∧ v = ⟨0x8000000000000001⟩ ∧
      (Space.new 0).kindOf v = .fixnum ∧ (Space.new 0).immediateBits v = 0xc000000000000000 ∧
      v.isHeapRef = false ∧ ofImmediate .debug .character 1 ≠ .ok v ∧
      v ≠ .ofAddress 0x8000000000000000 := by
  have hfixnum : Kind.Admits .fixnum 0xc000000000000000 := by
    unfold Kind.Admits
    decide
  have hcharacter : Kind.Admits .character 1 := by
    unfold Kind.Admits
    decide
  obtain ⟨v, hv, hread, href, hothers, haddresses⟩ :=
    (ofImmediate_faithful .debug).1 .fixnum 0xc000000000000000 hfixnum
  exact ⟨hfixnum, hcharacter, v, hv, (Except.ok.inj hv).symm, (hread _).1, (hread _).2, href,
    hothers .character 1 hcharacter (by decide), haddresses _ (by decide) (by decide) (by decide)⟩

/-! ## Words of unknown origin -/

/-- What is read from an immediate is in range. -/
theorem admits_payload (h : kind.Tags v.bits.toNat) : kind.Admits (v.payload kind) := by
  have hlt := v.bits.toNat_lt
  cases kind with
  | empty => rfl
  | fixnum =>
    have hint : (v.payload .fixnum).toInt64.toInt = v.bits.toBitVec.toInt / 2 :=
      toInt_payload_fixnum v
    have hle := BitVec.two_mul_toInt_lt (x := v.bits.toBitVec)
    have hge := BitVec.le_two_mul_toInt (x := v.bits.toBitVec)
    simp only [Kind.Admits, fitsFixnum, mostNegative, mostPositive, hint, Bool.and_eq_true,
      decide_eq_true_eq]
    omega
  | character | constant | singleFloat =>
    have hpayload := toNat_payload h (by decide)
    simp only [Kind.Admits, Kind.unit] at hpayload ⊢
    omega
  | _ => exact h.elim

/-- Only between the tag and the payload of a single float are there bits that nothing reads. -/
theorem eq_iff_of_payload (h : kind.Tags v.bits.toNat) (h' : kind.Tags w.bits.toNat)
    (hpayload : w.payload kind = v.payload kind) :
    w = v ↔ (kind = .singleFloat → w.bits.toNat % 4294967296 = v.bits.toNat % 4294967296) := by
  refine ⟨fun heq _ => by rw [heq], fun hlow => ?_⟩
  suffices hnat : w.bits.toNat = v.bits.toNat from congrArg mk (UInt64.toNat_inj.mp hnat)
  cases kind with
  | empty => exact Eq.trans h' h.symm
  | fixnum => rw [← toNat_payload_fixnum h, ← toNat_payload_fixnum h', hpayload]
  | character | constant | singleFloat =>
    have hquotient := congrArg UInt64.toNat hpayload
    rw [toNat_payload h (by decide), toNat_payload h' (by decide)] at hquotient
    simp only [Kind.Tags, Kind.unit, forall_const] at h h' hquotient hlow
    omega
  | _ => exact h.elim

end Value

namespace Ledger

variable {l : Ledger}

/-- The headers of the objects hold kinds of objects. -/
theorem Reachable.isHeap_kind (h : l.Reachable) : ∀ (a : Nat) (cell : Cell),
    l.space.object? a = some cell → cell.header.kind.isHeap = true := by
  induction h with
  | start maxFootprint =>
    intro a cell hcell
    have hlive := ((accounts_start maxFootprint).live a).mpr (by rw [hcell]; rfl)
    exact absurd hlive List.not_mem_nil
  | @allocate l pages kind h mode fresh hkind words ih =>
    intro a cell hcell
    obtain ⟨t, hanswer, hsame⟩ | ⟨b, new, t, hanswer, hadds, hheader, -⟩ :=
      h.accounts.valid.request mode fresh hkind words
    · simp only [Ledger.allocate, hanswer, hsame.object? h.accounts.valid] at hcell
      exact ih a cell hcell
    · simp only [Ledger.allocate, hanswer] at hcell
      obtain ⟨rfl, rfl⟩ | hold := hadds.new_or_old hcell
      · rw [hheader]
        exact hkind
      · exact ih a cell hold
  | @write l a index h ha hindex bits ih =>
    intro b cell hcell
    obtain ⟨old, hold⟩ := Option.isSome_iff_exists.mp ((h.accounts.live a).mp ha)
    simp only [Ledger.write, h.accounts.valid.object?_setWord hold] at hcell
    split at hcell
    next =>
      cases hcell
      rw [Cell.header_setWord]
      exact ih a old hold
    next => exact ih b cell hcell
  | @mark l a h ha ih =>
    intro b cell hcell
    obtain ⟨old, hold⟩ := Option.isSome_iff_exists.mp ((h.accounts.live a).mp ha)
    have hkind := Space.kind_of_object? hold
    have hfree : (old.setHeader old.header.tryMark.2).header.kind ≠ .free := hkind
    rw [Ledger.mark, Space.modifyHeader, h.accounts.valid.object?_modifyCell hold hfree] at hcell
    split at hcell
    next =>
      cases hcell
      exact ih a old hold
    next => exact ih b cell hcell
  | @sweep l h ih =>
    intro b cell hcell
    simp only [Ledger.sweep, h.accounts.valid.object?_sweep, Option.map_eq_some_iff,
      Option.filter_eq_some_iff] at hcell
    obtain ⟨old, ⟨hold, -⟩, rfl⟩ := hcell
    exact ih b old hold

end Ledger

/-! ### What is accepted -/

theorem Kind.Tags.decode? {γ : Type} (h : kind.Tags v.bits.toNat) (m : Machine γ) :
    m.decode? v.bits = some v := by
  simp [Machine.decode?, h.isHeapRef]

theorem Kind.Tags.kindOfWord {γ : Type} (h : kind.Tags v.bits.toNat) (m : Machine γ) :
    m.kindOfWord v.bits = kind := by
  rw [Machine.kindOfWord, h.decode? m]
  exact h.kindOf _

namespace Ledger

variable {l : Ledger} {γ : Type} {m : Machine γ}

/-- An address is read as the kind of the object that starts there. -/
theorem Reachable.kindOfWord_of_isHeapRef (h : l.Reachable) (hspace : m.heap.space = l.space)
    (href : Value.isHeapRef ⟨bits⟩ = true) :
    (bits.toNat ∈ l.live ∧ (m.kindOfWord bits).isHeap = true) ∨
    (bits.toNat ∉ l.live ∧ m.kindOfWord bits = .invalid) := by
  have haccounts := h.accounts
  have hlive : m.heap.isLive ⟨bits⟩ = true ↔ bits.toNat ∈ l.live := by
    rw [Heap.isLive, href, hspace, Bool.true_and, haccounts.valid.findObject?_exact_isSome,
      haccounts.live]
    rfl
  by_cases hmem : bits.toNat ∈ l.live
  · obtain ⟨cell, hcell⟩ := Option.isSome_iff_exists.mp ((haccounts.live _).mp hmem)
    have hkind : m.heap.space.kindOf ⟨bits⟩ = cell.header.kind := by
      rw [Space.kindOf, if_pos href, Space.kindWith_of_isHeapRef href, hspace]
      exact congrArg Header.kind (Space.header_of_object? hcell)
    refine .inl ⟨hmem, ?_⟩
    simp only [Machine.kindOfWord, Machine.decode?, hlive.mpr hmem, Bool.or_true, if_true, hkind]
    exact h.isHeap_kind _ cell hcell
  · refine .inr ⟨hmem, ?_⟩
    simp [Machine.kindOfWord, Machine.decode?, href, Bool.eq_false_iff.mpr (mt hlive.mp hmem)]

/-- What is accepted as an immediate is no address. -/
theorem Reachable.tags_kindOfWord (h : l.Reachable) (hspace : m.heap.space = l.space)
    (himm : (m.kindOfWord bits).isImmediate = true) : (m.kindOfWord bits).Tags bits.toNat := by
  cases href : Value.isHeapRef ⟨bits⟩ with
  | false =>
    have htags := Value.tags_kindWith href .invalid
    rwa [htags.kindOfWord m (v := ⟨bits⟩)]
  | true =>
    obtain ⟨-, hkind⟩ | ⟨-, hkind⟩ := h.kindOfWord_of_isHeapRef hspace href
    · cases hof : m.kindOfWord bits <;> rw [hof] at himm hkind <;>
        first | exact absurd himm (by decide) | exact absurd hkind (by decide)
    · rw [hkind] at himm
      cases himm

/-- Whatever the memory holds: a word that is accepted as an immediate has a kind and a payload in
range. Encoding them again gives a word that is read in the same way, and the same word unless it is
a single float whose bits between tag and payload are not clear. These bits are all that tells two
words with the same reading apart. Only addresses where no object starts are invalid. -/
theorem Reachable.accepted_immediates (h : l.Reachable) (hspace : m.heap.space = l.space)
    (mode : Mode) :
    (∀ bits, (m.kindOfWord bits).isImmediate = true → m.decode? bits = some ⟨bits⟩ ∧
      ∃ v, Value.ofImmediate mode (m.kindOfWord bits) (m.heap.space.immediateBits ⟨bits⟩) = .ok v ∧
        m.decode? v.bits = some v ∧ m.kindOfWord v.bits = m.kindOfWord bits ∧
        m.heap.space.immediateBits v = m.heap.space.immediateBits ⟨bits⟩ ∧
        (v = ⟨bits⟩ ↔ (m.kindOfWord bits = .singleFloat → bits.toNat % 4294967296 = 6))) ∧
    (∀ bits bits', (m.kindOfWord bits).isImmediate = true → m.kindOfWord bits' = m.kindOfWord bits →
      m.heap.space.immediateBits ⟨bits'⟩ = m.heap.space.immediateBits ⟨bits⟩ →
      (bits' = bits ↔ (m.kindOfWord bits = .singleFloat →
        bits'.toNat % 4294967296 = bits.toNat % 4294967296))) ∧
    ∀ bits, m.kindOfWord bits = .invalid ↔
      Value.isHeapRef ⟨bits⟩ = true ∧ bits.toNat ∉ l.live := by
  refine ⟨fun bits himm => ?_, fun bits bits' himm hkind hpayload => ?_, fun bits => ?_⟩
  · have htags := h.tags_kindOfWord hspace himm
    generalize m.kindOfWord bits = kind at himm htags
    have hbits : m.heap.space.immediateBits ⟨bits⟩ = Value.payload ⟨bits⟩ kind := by
      rw [Space.immediateBits, htags.kindOf]
    obtain ⟨v, hv, hnat⟩ := Value.exists_ofImmediate mode himm (Value.payload ⟨bits⟩ kind)
    have htags' := Value.tags_of_toNat himm hnat
    have hback := Value.payload_of_admits (Value.admits_payload htags (v := ⟨bits⟩)) hv
    refine ⟨htags.decode? m, v, hbits ▸ hv, htags'.decode? m, htags'.kindOfWord m, ?_, ?_⟩
    · rw [Space.immediateBits, htags'.kindOf, hback, hbits]
    · rw [Value.eq_iff_of_payload htags htags' hback]
      refine forall_congr' fun hfloat => ?_
      subst hfloat
      change v.bits.toNat % 4294967296 = bits.toNat % 4294967296 ↔ bits.toNat % 4294967296 = 6
      simp only [Kind.unit, Kind.tag, wordLimit] at hnat
      omega
  · have htags := h.tags_kindOfWord hspace himm
    have htags' := h.tags_kindOfWord hspace (hkind ▸ himm)
    rw [hkind] at htags'
    rw [Space.immediateBits, Space.immediateBits, htags.kindOf, htags'.kindOf] at hpayload
    rw [← Value.eq_iff_of_payload htags htags' hpayload, Value.mk.injEq]
  · cases href : Value.isHeapRef ⟨bits⟩ with
    | false =>
      have htags := Value.tags_kindWith href .invalid
      simp only [Bool.false_eq_true, false_and, iff_false]
      intro hkind
      rw [htags.kindOfWord m (v := ⟨bits⟩)] at hkind
      rw [hkind] at htags
      exact htags
    | true =>
      obtain ⟨hmem, hkind⟩ | ⟨hmem, hkind⟩ := h.kindOfWord_of_isHeapRef hspace href
      · simp only [hmem, not_true, and_false, iff_false]
        intro hinvalid
        rw [hinvalid] at hkind
        cases hkind
      · simp [hmem, hkind]

/-- The machine that a process starts with. -/
def freshMachine : Machine Unit :=
  (Machine.start .debug .default ()).toOption.get rfl

theorem Reachable.accepted_immediates_freshMachine :
    freshMachine.heap.space = (Ledger.start 1073741824).space ∧
    freshMachine.kindOfWord 0x20a = .character ∧
    (∃ v, Value.ofImmediate .debug .character 0x41 = .ok v ∧ freshMachine.decode? v.bits = some v ∧
      v = ⟨0x20a⟩) ∧
    freshMachine.heap.space.immediateBits ⟨0x21a⟩ ≠ 0x41 ∧
    freshMachine.kindOfWord 0x1000 = .invalid := by
  have hspace : freshMachine.heap.space = (Ledger.start 1073741824).space := rfl
  obtain ⟨hagain, hsame, hinvalid⟩ :=
    (Reachable.start 1073741824).accepted_immediates hspace .debug
  obtain ⟨-, v, hv, haccepted, -, -, hiff⟩ := hagain 0x20a rfl
  refine ⟨hspace, rfl, ⟨v, hv, haccepted, hiff.mpr fun hfloat => by cases hfloat⟩, fun hbits => ?_,
    (hinvalid 0x1000).mpr ⟨rfl, List.not_mem_nil⟩⟩
  exact absurd ((hsame 0x21a 0x20a rfl rfl hbits.symm).mpr fun hfloat => by cases hfloat) (by decide)

/-- A word with bits between the tag and the payload of a single float is accepted, and read as the
float whose encoding is another word. -/
theorem unread_bits_accepted :
    freshMachine.decode? 14 = some ⟨14⟩ ∧ freshMachine.kindOfWord 14 = .singleFloat ∧
    freshMachine.kindOfWord 6 = .singleFloat ∧
    freshMachine.heap.space.immediateBits ⟨14⟩ = freshMachine.heap.space.immediateBits ⟨6⟩ ∧
    Value.ofImmediate .debug (freshMachine.kindOfWord 14)
      (freshMachine.heap.space.immediateBits ⟨14⟩) = .ok ⟨6⟩ ∧
    (⟨6⟩ : Value) ≠ ⟨14⟩ := by
  refine ⟨rfl, rfl, rfl, rfl, rfl, by decide⟩

end Ledger

end Substrate
