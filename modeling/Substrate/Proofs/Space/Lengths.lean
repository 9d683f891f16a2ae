import Substrate.Proofs.Collection.Visit
import Substrate.Proofs.Immediates
import Substrate.Proofs.Space.Access

/-!
# Lengths that do not fit

An object stores its length in one of its own payload words, next to the number of payload words in its
header. Nothing keeps the two in agreement. `Space.Valid.lengths_contained` says what the readers of a
release build make of a length that may be any word: strings and vectors stay in the payload, whereas
for a bignum the length alone says how many limbs are returned, and there are zeros for those that the
payload does not have.
-/

namespace Substrate

/-! ## Payloads -/

namespace Cell

variable {cell : Cell}

/-- The payload words, as many as the header says. -/
def payload (cell : Cell) : List Word :=
  (List.range cell.header.words).map cell.word

@[simp] theorem length_payload (cell : Cell) : cell.payload.length = cell.header.words := by
  simp [payload]

/-- The payload word at a position, zero where there is none. -/
def payloadWord (cell : Cell) (i : Nat) : Word :=
  cell.payload.getD i 0

theorem payloadWord_eq (cell : Cell) (i : Nat) :
    cell.payloadWord i = if i < cell.header.words then cell.word i else 0 := by
  rw [payloadWord, List.getD_eq_getElem?_getD, payload, List.getElem?_map]
  by_cases h : i < cell.header.words <;> simp [h]

/-- Consecutive payload words. -/
theorem map_range_word {start count : Nat} (h : count ≤ cell.header.words - start) :
    (List.range count).map (fun i => cell.word (start + i)) = (cell.payload.drop start).take count := by
  refine List.ext_getElem (by simp; omega) fun i hi hi' => ?_
  simp [payload]

theorem payload_setWord (cell : Cell) (index : Nat) (bits : Word) :
    (cell.setWord index bits).payload = cell.payload.set index bits := by
  refine List.ext_getElem (by simp) fun i hi hi' => ?_
  simp [payload, List.getElem_set, Cell.word_setWord]

end Cell

/-- The items from the front of a list, and then the default. -/
theorem map_getD_range {α : Type} (l : List α) (default : α) (count : Nat) :
    (List.range count).map (l.getD · default)
      = l.take count ++ List.replicate (count - l.length) default := by
  refine List.ext_getElem (by simp; omega) fun i hi hi' => ?_
  rw [List.getElem_map, List.getElem_range, List.getD_eq_getElem?_getD, List.getElem_append]
  split
  next h =>
    have hlt : i < l.length := by
      rw [List.length_take] at h
      omega
    simp [hlt]
  next h =>
    have hle : l.length ≤ i := by
      simp only [List.length_map, List.length_range, List.length_take] at hi h
      omega
    simp [hle]

namespace Space

variable {s t : Space} {v : Value} {cell : Cell} {kind : Kind}

/-! ## Words -/

theorem Valid.isHeapRef_of_object? (hs : s.Valid) (h : s.object? v.address = some cell) :
    v.isHeapRef = true := by
  obtain ⟨hpos, haligned, -⟩ := hs.object_address h
  exact (Value.isHeapRef_iff v).mpr ⟨Nat.pos_iff_ne_zero.mp hpos, haligned⟩

theorem checkWord_release (h : s.object? v.address = some cell) (kind : Kind) (index : Nat) :
    s.checkWord .release v kind index = .ok (decide (index < cell.header.words)) := by
  rw [checkWord, header_of_object? h]
  by_cases hwords : cell.header.words ≤ index
  · simp [hwords, Nat.not_lt.mpr hwords, Mode.assertWith, Mode.violation, bind, Except.bind, pure,
      Except.pure]
  · simp [hwords, Nat.not_le.mp hwords, Mode.assertWith, bind, Except.bind, pure, Except.pure]

theorem rawWord_release (h : s.object? v.address = some cell) (kind : Kind) (index : Nat) :
    s.rawWord .release v kind index = .ok (cell.payloadWord index) := by
  rw [rawWord, checkWord_release h, word_of_object? h, Cell.payloadWord_eq]
  by_cases hindex : index < cell.header.words <;>
    simp [hindex, bind, Except.bind, pure, Except.pure]

/-- In the second space the object at an address has other payload words. Nothing else differs: not the
header, not the memory behind the payload, and no other cell. -/
def Overwrites (s : Space) (a : Nat) (cell : Cell) (payload : List Word) (t : Space) : Prop :=
  ∃ written, (∀ x, t.cell? x = if x = a then some written else s.cell? x) ∧
    written.header = cell.header ∧ (∀ i, cell.header.words ≤ i → written.word i = cell.word i) ∧
    written.payload = payload

theorem overwrites_self {a : Nat} (h : s.object? a = some cell) :
    s.Overwrites a cell cell.payload s := by
  refine ⟨cell, fun x => ?_, rfl, fun _ _ => rfl, rfl⟩
  split
  next hx => rw [hx, cell?_of_object? h]
  next => rfl

theorem Valid.overwrites_setWord {a index : Nat} (hs : s.Valid) (h : s.object? a = some cell)
    (hindex : index < cell.header.words) (bits : Word) :
    s.Overwrites a cell (cell.payload.set index bits) (s.setWord a index bits) := by
  refine ⟨cell.setWord index bits, fun x => hs.cell?_modifyCell h x, Cell.header_setWord ..,
    fun i hi => ?_, cell.payload_setWord index bits⟩
  rw [Cell.word_setWord, if_neg (by omega)]

theorem Valid.setRawWord_release (hs : s.Valid) (h : s.object? v.address = some cell) (kind : Kind)
    (index : Nat) (bits : Word) : ∃ t, setRawWord .release v kind index bits s = .ok () t ∧
      s.Overwrites v.address cell (cell.payload.set index bits) t := by
  by_cases hindex : index < cell.header.words
  · refine ⟨s.setWord v.address index bits, ?_, hs.overwrites_setWord h hindex bits⟩
    simp [setRawWord, checkWord_release h, hindex]
  · refine ⟨s, by simp [setRawWord, checkWord_release h, hindex], ?_⟩
    rw [List.set_eq_of_length_le (by simpa using hindex)]
    exact overwrites_self h

/-! ## Vectors -/

theorem checkIndex_release (h : s.object? v.address = some cell) (index : Nat) :
    s.checkIndex .release v index = .ok (decide (index < (cell.payloadWord 0).toNat)) := by
  rw [checkIndex, vectorLength, rawWord_release h]
  by_cases hlength : (cell.payloadWord 0).toNat ≤ index
  · simp [hlength, Nat.not_lt.mpr hlength, Mode.violation, bind, Except.bind, pure, Except.pure,
      Functor.map, Except.map]
  · simp [hlength, Nat.not_le.mp hlength, bind, Except.bind, pure, Except.pure, Functor.map,
      Except.map]

/-- An index below a stored length is far from the end of the address space. -/
theorem locate_vectorElt (hs : s.Valid) (h : s.object? v.address = some cell) {index : Nat}
    (hindex : index < (cell.payloadWord 0).toNat) :
    s.locate .release v (.vectorElt index)
      = .ok (if cell.header.words ≤ 1 + index then none else some (1 + index)) := by
  have hposition : (Field.vectorElt index).position < wordLimit := by
    have hlt := (cell.payloadWord 0).toNat_lt
    simp only [Field.position, wordLimit]
    omega
  rw [locate_release (hs.isHeapRef_of_object? h) hposition, header_of_object? h]
  rfl

theorem Valid.vectorRef_release (hs : s.Valid) (h : s.object? v.address = some cell) (index : Nat) :
    s.vectorRef .release v index = .ok (if index < (cell.payloadWord 0).toNat
      then ⟨cell.payloadWord (1 + index)⟩ else .empty) := by
  by_cases hindex : index < (cell.payloadWord 0).toNat
  · have hlocate := locate_vectorElt hs h hindex
    rw [if_pos hindex, vectorRef, checkIndex_release h, decide_eq_true hindex, Cell.payloadWord_eq]
    change s.fieldGet .release v (.vectorElt index) = _
    by_cases hwords : cell.header.words ≤ 1 + index
    · rw [if_pos hwords] at hlocate
      rw [if_neg (Nat.not_lt.mpr hwords), fieldGet, hlocate]
      rfl
    · rw [if_neg hwords] at hlocate
      rw [if_pos (Nat.not_le.mp hwords), ← word_of_object? h, fieldGet, hlocate]
      rfl
  · rw [if_neg hindex, vectorRef, checkIndex_release h, decide_eq_false hindex]
    rfl

theorem Valid.vectorSet_release (hs : s.Valid) (h : s.object? v.address = some cell) (index : Nat)
    (value : Value) : ∃ t, vectorSet .release v index value s = .ok () t ∧
      s.Overwrites v.address cell (if index < (cell.payloadWord 0).toNat
        then cell.payload.set (1 + index) value.bits else cell.payload) t := by
  by_cases hindex : index < (cell.payloadWord 0).toNat
  · have hlocate := locate_vectorElt hs h hindex
    rw [if_pos hindex]
    by_cases hwords : cell.header.words ≤ 1 + index
    · rw [if_pos hwords] at hlocate
      refine ⟨s, by simp [vectorSet, checkIndex_release h, hindex, fieldSet, hlocate], ?_⟩
      rw [List.set_eq_of_length_le (by simpa using hwords)]
      exact overwrites_self h
    · rw [if_neg hwords] at hlocate
      exact ⟨_, by simp [vectorSet, checkIndex_release h, hindex, fieldSet, hlocate],
        hs.overwrites_setWord h (Nat.not_le.mp hwords) value.bits⟩
  · rw [if_neg hindex]
    exact ⟨s, by simp [vectorSet, checkIndex_release h, hindex], overwrites_self h⟩

/-! ## Strings -/

theorem length_flatMap_wordToBytes (words : List Word) :
    (words.flatMap wordToBytes).length = words.length * wordBytes := by
  have hword : ∀ bits, (wordToBytes bits).length = wordBytes := fun _ => rfl
  simp [List.length_flatMap, hword]

/-- The first bytes of many words are those of the first words. -/
theorem take_flatMap_take {words : List Word} {count bytes : Nat} (h : bytes ≤ count * wordBytes)
    (hcount : count ≤ words.length) :
    ((words.take count).flatMap wordToBytes).take bytes
      = (words.flatMap wordToBytes).take bytes := by
  have hlength : ((words.take count).flatMap wordToBytes).length = count * wordBytes := by
    rw [length_flatMap_wordToBytes, List.length_take, Nat.min_eq_left hcount]
  conv_rhs => rw [← List.take_append_drop count words, List.flatMap_append]
  rw [List.take_append_of_le_length (hlength ▸ h)]

theorem Valid.isKind_of_object? (hs : s.Valid) (h : s.object? v.address = some cell)
    (hheap : kind.isHeap = true) : s.isKind v kind = (cell.header.kind == kind) := by
  have href := hs.isHeapRef_of_object? h
  rw [isKind, if_pos hheap, href, Bool.true_and, kindOf, if_pos href, kindWith_of_isHeapRef href,
    header_of_object? h]

theorem Valid.stringBytes_release (hs : s.Valid) (h : s.object? v.address = some cell) :
    s.stringBytes .release v = .ok (if cell.header.kind = .string
      then ((cell.payload.drop 1).flatMap wordToBytes).take (cell.payloadWord 0).toNat
      else []) := by
  by_cases hkind : cell.header.kind = .string
  · obtain ⟨capacity, hcapacity⟩ : ∃ n, n = (cell.header.words - 1) * wordBytes := ⟨_, rfl⟩
    obtain ⟨bytes, hbytes⟩ : ∃ n, n = min (cell.payloadWord 0).toNat capacity := ⟨_, rfl⟩
    have hcount : (bytes + wordBytes - 1) / wordBytes ≤ cell.header.words - 1 := by
      simp only [wordBytes] at hcapacity ⊢
      omega
    have hstring : s.isKind v .string = true := by
      rw [hs.isKind_of_object? h rfl, hkind]
      rfl
    have hread : s.stringBytes .release v = .ok (s.bytesFrom v.address At.stringBytes bytes) := by
      rw [stringBytes, stringLength, rawWord_release h, header_of_object? h, hstring, ← hcapacity,
        hbytes]
      by_cases hlength : capacity < (cell.payloadWord 0).toNat <;>
        simp [hlength, Mode.violation, bind, Except.bind, pure, Except.pure, Functor.map, Except.map]
    have hlength : ((cell.payload.drop 1).flatMap wordToBytes).length = capacity := by
      rw [length_flatMap_wordToBytes, List.length_drop, Cell.length_payload, hcapacity]
    rw [if_pos hkind, hread, bytesFrom, cell?_of_object? h]
    refine congrArg Except.ok ?_
    calc ((List.range ((bytes + wordBytes - 1) / wordBytes)).flatMap fun i =>
          wordToBytes (cell.word (1 + i))).take bytes
        = (((cell.payload.drop 1).take ((bytes + wordBytes - 1) / wordBytes)).flatMap
            wordToBytes).take bytes := by rw [← Cell.map_range_word hcount, List.flatMap_map]
      _ = ((cell.payload.drop 1).flatMap wordToBytes).take bytes := by
          refine take_flatMap_take ?_ (by rwa [List.length_drop, Cell.length_payload])
          simp only [wordBytes]
          omega
      _ = ((cell.payload.drop 1).flatMap wordToBytes).take (cell.payloadWord 0).toNat := by
          rw [List.take_eq_take_iff, hlength, hbytes]
          omega
  · have hother : s.isKind v .string = false := by
      rw [hs.isKind_of_object? h rfl, beq_eq_false_iff_ne]
      exact hkind
    rw [if_neg hkind, stringBytes, hother]
    rfl

/-! ## Bignums -/

theorem limbsFrom_release (h : s.object? v.address = some cell) (seen : List Word)
    (count index : Nat) : s.limbsFrom .release v seen count index = .ok (seen.reverse ++
      (List.range count).map fun i => cell.payloadWord (At.bignumLimbs + (index + i))) := by
  induction count generalizing seen index with
  | zero => simp [limbsFrom]
  | succ count ih =>
    rw [limbsFrom, rawWord_release h]
    refine (ih _ _).trans (congrArg Except.ok ?_)
    rw [List.range_succ_eq_map, List.map_cons, List.map_map, List.reverse_cons, List.append_assoc]
    simp [Function.comp_def, Nat.add_assoc, Nat.add_comm 1]

/-- The length word governs: behind the payload the limbs are zero. -/
theorem bignumLimbs_release (h : s.object? v.address = some cell) {length : Nat}
    (hlength : (cell.payloadWord 1).toNat = length) :
    s.bignumLimbs .release v = if 0x1000000000000000 ≤ length then .error (.panic "capacity overflow")
      else .ok ((cell.payload.drop 2).take length ++
        List.replicate (length - (cell.header.words - 2)) 0) := by
  have hmap := map_getD_range (cell.payload.drop 2) 0 length
  have hget : ∀ i, (cell.payload.drop 2).getD i 0 = cell.payloadWord (At.bignumLimbs + (0 + i)) := by
    intro i
    simp [Cell.payloadWord]
  rw [List.length_drop, Cell.length_payload] at hmap
  simp only [hget] at hmap
  rw [bignumLimbs, rawWord_release h]
  change (if 0x1000000000000000 ≤ (cell.payloadWord 1).toNat then _
    else s.limbsFrom .release v [] (cell.payloadWord 1).toNat 0) = _
  rw [hlength, limbsFrom_release h, hmap]
  rfl

/-- Whatever the payload words of an object are, a release build reads and writes single payload words
only; the text of a string is made of the bytes of its payload; elements of a vector are read from its
payload, and storing one changes at most its word; and the collector visits payload words only. The
limbs of a bignum, however, are as many as its length word says, however few words there are: they are
all in the payload exactly if the length fits. -/
theorem Valid.lengths_contained (hs : s.Valid) (h : s.object? v.address = some cell) :
    (∀ kind index, s.rawWord .release v kind index = .ok (cell.payloadWord index) ∧
      ∀ bits, ∃ t, setRawWord .release v kind index bits s = .ok () t ∧
        s.Overwrites v.address cell (cell.payload.set index bits) t) ∧
    (∃ bytes, s.stringBytes .release v = .ok bytes ∧
      s.stringText .release v = .ok (Text.ofUtf8 bytes) ∧
      bytes <+: (cell.payload.drop 1).flatMap wordToBytes ∧
      bytes.length ≤ 8 * (cell.header.words - 1) ∧
      bytes.length = if cell.header.kind = .string
        then min (cell.payloadWord 0).toNat (8 * (cell.header.words - 1)) else 0) ∧
    (∀ index, s.vectorRef .release v index = .ok (if index < (cell.payloadWord 0).toNat
        then ⟨cell.payloadWord (1 + index)⟩ else .empty) ∧
      ∀ value : Value, ∃ t, vectorSet .release v index value s = .ok () t ∧
        s.Overwrites v.address cell (if index < (cell.payloadWord 0).toNat
          then cell.payload.set (1 + index) value.bits else cell.payload) t) ∧
    (∀ m : Marking, m.space = s →
      Marking.trace .release v.address m = Marking.markListed .release v.address cell.slots m ∧
        ∀ i ∈ cell.slots, i < cell.header.words) ∧
    (s.bignumLimbs .release v = if 0x1000000000000000 ≤ (cell.payloadWord 1).toNat
      then .error (.panic "capacity overflow")
      else .ok ((cell.payload.drop 2).take (cell.payloadWord 1).toNat ++
        List.replicate ((cell.payloadWord 1).toNat - (cell.header.words - 2)) 0)) ∧
    ∀ limbs, s.bignumLimbs .release v = .ok limbs → limbs.length = (cell.payloadWord 1).toNat ∧
      (limbs <+: cell.payload.drop 2 ↔ (cell.payloadWord 1).toNat ≤ cell.header.words - 2) := by
  have hlimbs := bignumLimbs_release h rfl
  refine ⟨fun kind index => ⟨rawWord_release h kind index, hs.setRawWord_release h kind index⟩, ?_,
    fun index => ⟨hs.vectorRef_release h index, hs.vectorSet_release h index⟩, ?_, hlimbs, ?_⟩
  · have hbytes := hs.stringBytes_release h
    have hlength : ((cell.payload.drop 1).flatMap wordToBytes).length = 8 * (cell.header.words - 1) := by
      rw [length_flatMap_wordToBytes, List.length_drop, Cell.length_payload, Nat.mul_comm, wordBytes]
    refine ⟨_, hbytes, by rw [stringText, hbytes]; rfl, ?_, ?_, ?_⟩
    · split
      next => exact List.take_prefix ..
      next => exact List.nil_prefix
    · split
      next => exact hlength ▸ List.length_take_le' ..
      next => exact Nat.zero_le _
    · split
      next => rw [List.length_take, hlength]
      next => rfl
  · rintro m rfl
    exact ⟨Marking.trace_eq .release h (.inl rfl), fun i => Cell.lt_of_mem_slots⟩
  · intro limbs hok
    rw [hlimbs] at hok
    split at hok
    next => cases hok
    next =>
      cases hok
      have hcount : ((cell.payload.drop 2).take (cell.payloadWord 1).toNat ++ List.replicate
          ((cell.payloadWord 1).toNat - (cell.header.words - 2)) 0).length
            = (cell.payloadWord 1).toNat := by
        simp only [List.length_append, List.length_take, List.length_drop, Cell.length_payload,
          List.length_replicate]
        omega
      refine ⟨hcount, fun hinside => ?_, fun hfits => ?_⟩
      · have hle := hinside.length_le
        rwa [hcount, List.length_drop, Cell.length_payload] at hle
      · rw [Nat.sub_eq_zero_of_le hfits, List.replicate_zero, List.append_nil]
        exact List.take_prefix ..

end Space

namespace Ledger

/-- A run that leaves a bignum with room for 198 limbs and a length of 200. -/
def longBignum : Ledger :=
  ((start 65536).allocate .debug .fresh .bignum 200).write 0x7f0000000000 1 200

theorem reachable_longBignum : Reachable longBignum :=
  .write (.allocate (.start _) _ (fresh_start _) rfl _) (by decide +kernel) (by decide +kernel) _

theorem object_longBignum : ∃ cell, longBignum.space.object? 0x7f0000000000 = some cell ∧
    cell.header = ⟨.bignum, false, 0, 200⟩ ∧ cell.payloadWord 0 = 0 ∧ cell.payloadWord 1 = 200 := by
  have hview : (longBignum.space.object? 0x7f0000000000).map
      (fun cell => (cell.header, cell.word 0, cell.word 1)) = some (⟨.bignum, false, 0, 200⟩, 0, 200) := by
    decide +kernel
  obtain ⟨cell, hcell, hfields⟩ := Option.map_eq_some_iff.mp hview
  simp only [Prod.mk.injEq] at hfields
  obtain ⟨hheader, hfirst, hsecond⟩ := hfields
  refine ⟨cell, hcell, hheader, ?_, ?_⟩
  · rwa [Cell.payloadWord_eq, hheader]
  · rwa [Cell.payloadWord_eq, hheader]

theorem lengths_contained_longBignum :
    ∃ cell, longBignum.space.object? 0x7f0000000000 = some cell ∧
      longBignum.space.rawWord .release ⟨0x7f0000000000⟩ .bignum 1 = .ok 200 ∧
      longBignum.space.stringBytes .release ⟨0x7f0000000000⟩ = .ok [] ∧
      longBignum.space.vectorRef .release ⟨0x7f0000000000⟩ 7 = .ok .empty ∧
      (∃ t, Space.vectorSet .release ⟨0x7f0000000000⟩ 7 .t longBignum.space = .ok () t ∧
        longBignum.space.Overwrites 0x7f0000000000 cell cell.payload t) ∧
      ∀ limbs, longBignum.space.bignumLimbs .release ⟨0x7f0000000000⟩ = .ok limbs →
        limbs.length = 200 ∧ ¬ limbs <+: cell.payload.drop 2 := by
  obtain ⟨cell, hcell, hheader, hfirst, hlength⟩ := object_longBignum
  obtain ⟨hwords, ⟨bytes, hbytes, -, -, -, hcount⟩, hvector, -, -, hlimbs⟩ :=
    reachable_longBignum.accounts.valid.lengths_contained (v := ⟨0x7f0000000000⟩) hcell
  refine ⟨cell, hcell, ?_, ?_, ?_, ?_, fun limbs hok => ?_⟩
  · rw [(hwords .bignum 1).1, hlength]
  · rw [hheader, if_neg (by decide)] at hcount
    rw [hbytes, List.eq_nil_of_length_eq_zero hcount]
  · rw [(hvector 7).1, hfirst]
    rfl
  · have hset := (hvector 7).2 .t
    rwa [hfirst, if_neg (by decide)] at hset
  · obtain ⟨hnumber, hinside⟩ := hlimbs limbs hok
    rw [hlength, hheader] at hinside
    rw [hlength] at hnumber
    exact ⟨hnumber, fun h => absurd (hinside.mp h) (by decide)⟩

/-- Two more limbs are returned than there is room for. -/
theorem overlong_limbs_returned :
    longBignum.space.Valid ∧ (longBignum.space.object? 0x7f0000000000).isSome ∧
    longBignum.space.header 0x7f0000000000 = ⟨.bignum, false, 0, 200⟩ ∧
    ∃ limbs, longBignum.space.bignumLimbs .release ⟨0x7f0000000000⟩ = .ok limbs ∧
      limbs.length = 200 ∧ ¬ limbs.length ≤ 200 - 2 := by
  obtain ⟨cell, hcell, hheader, -, hlength⟩ := object_longBignum
  have hlimbs := Space.bignumLimbs_release (v := ⟨0x7f0000000000⟩) hcell rfl
  rw [hlength, hheader, if_neg (by decide)] at hlimbs
  have hcount : ((cell.payload.drop 2).take 200 ++ List.replicate 2 (0 : Word)).length = 200 := by
    simp [hheader]
  exact ⟨reachable_longBignum.accounts.valid, hcell ▸ rfl,
    (Space.header_of_object? hcell).trans hheader, _, hlimbs, hcount,
    fun hle => absurd (hcount ▸ hle) (by decide)⟩

end Ledger

end Substrate
