import Substrate.Proofs.Construct.Filling
import Substrate.Proofs.Text.Utf8

/-!
# Reading what constructors wrote

What the readers of a space find in objects that hold the payload of their form: the fields of objects,
and the text of a string.
-/

namespace Substrate.Machine

open Space (wordToBytes)

/-! ## Bytes in words -/

theorem getLsbD_shifted (bits : BitVec 64) (byte : BitVec 8) {i j : Nat} (hj : j = i + 8)
    (hi : i < 56) : (decide (j < 64) && !decide (j < 8) && bits.getLsbD (j - 8) ||
      decide (j < 64) && byte.getLsbD j) = bits.getLsbD i := by
  subst hj
  rw [BitVec.getLsbD_of_ge byte (i + 8) (by omega)]
  simp
  intro h
  omega

/-- One more byte in front. -/
theorem wordToBytes_shifted (bits : Word) (byte : UInt8) :
    wordToBytes ((bits <<< 8) ||| byte.toUInt64) = byte :: (wordToBytes bits).take 7 := by
  simp only [wordToBytes, List.take, List.cons.injEq, and_true]
  refine ⟨?_, ?_, ?_, ?_, ?_, ?_, ?_, ?_⟩
  all_goals
    apply UInt8.toBitVec_inj.1
    ext i hi
    simp
  · intro h
    omega
  all_goals exact getLsbD_shifted _ _ (by omega) (by omega)

theorem wordToBytes_wordOfBytes {bytes : List UInt8} (h : bytes.length ≤ 8) :
    wordToBytes (wordOfBytes bytes) = bytes ++ List.replicate (8 - bytes.length) 0 := by
  induction bytes with
  | nil => rfl
  | cons byte bytes ih =>
    rw [List.length_cons] at h
    have hrec : wordOfBytes (byte :: bytes) = (wordOfBytes bytes <<< 8) ||| byte.toUInt64 := rfl
    rw [hrec, wordToBytes_shifted, ih (by omega), List.take_append,
      List.take_of_length_le (by omega), List.take_replicate]
    simp only [List.cons_append, List.length_cons]
    congr 3
    omega

theorem wordToBytes_overwrite {bytes : List UInt8} (h : bytes.length ≤ 8) :
    wordToBytes (overwrite 0 bytes) = bytes ++ List.replicate (8 - bytes.length) 0 := by
  have hzero : (wordToBytes 0).drop bytes.length = List.replicate (8 - bytes.length) 0 := by
    rw [show wordToBytes 0 = List.replicate 8 0 from rfl, List.drop_replicate]
  have hlength : (bytes ++ List.replicate (8 - bytes.length) (0 : UInt8)).length = 8 := by
    simp
    omega
  rw [overwrite, hzero, wordToBytes_wordOfBytes (by omega), hlength]
  simp

theorem length_packed (count : Nat) (bytes : List UInt8) : (packed count bytes).length = count := by
  induction count generalizing bytes with
  | zero => rfl
  | succ count ih => rw [packed, List.length_cons, ih]

/-- The bytes are what the words consist of, up to the zeros in the last one. -/
theorem take_packed {count : Nat} {bytes : List UInt8} (h : bytes.length ≤ count * 8) :
    ((packed count bytes).flatMap wordToBytes).take bytes.length = bytes := by
  induction count generalizing bytes with
  | zero =>
    obtain rfl := List.length_eq_zero_iff.mp (Nat.le_zero.mp (by omega))
    rfl
  | succ count ih =>
    have hfirst : (bytes.take 8).length ≤ 8 := List.length_take_le 8 bytes
    rw [packed, List.flatMap_cons, wordToBytes_overwrite hfirst]
    by_cases hlong : 8 ≤ bytes.length
    · have hrest : (bytes.drop 8).length ≤ count * 8 := by
        rw [List.length_drop]
        omega
      have hdrop := ih hrest
      rw [List.length_drop] at hdrop
      have htake : (bytes.take 8).length = 8 := by
        rw [List.length_take]
        omega
      rw [htake, Nat.sub_self, List.replicate_zero, List.append_nil, List.take_append, htake, hdrop,
        List.take_of_length_le (by omega), List.take_append_drop]
    · have htake : bytes.take 8 = bytes := List.take_of_length_le (by omega)
      rw [htake, List.append_assoc, List.take_left]

/-! ## Readers -/

variable {γ : Type} {m : Machine γ} {s : Space} {mode : Mode} {v : Value} {header : Header}
  {f : Nat → Word}

theorem fieldGet_eq (href : v.isHeapRef = true) (hs : s.Has v.address header f) (field : Field)
    (hkind : field.kind = header.kind) {word : Nat} (hword : field.word mode = .ok word)
    (hlt : word < header.words) : s.fieldGet mode v field = .ok ⟨f word⟩ := by
  rw [Space.fieldGet, locate_eq href hs hkind hword hlt]
  obtain ⟨-, cell, hcell, -, hwords⟩ := hs
  simp [Space.word_of_object? hcell, hwords, bind, Except.bind, pure, Except.pure]

theorem rawWord_eq (mode : Mode) (href : v.isHeapRef = true) (hs : s.Has v.address header f)
    (hheap : header.kind.isHeap = true) {index : Nat} (hlt : index < header.words) :
    s.rawWord mode v header.kind index = .ok (f index) := by
  rw [Space.rawWord, checkWord_eq href hs hheap hlt]
  obtain ⟨-, cell, hcell, -, hwords⟩ := hs
  simp [Space.word_of_object? hcell, hwords, bind, Except.bind, pure, Except.pure]

theorem bytesFrom_eq {a : Nat} (hs : s.Has a header f) {index : Nat} {bytes : List UInt8}
    (hf : ∀ i, f (index + i) = (packed ((bytes.length + wordBytes - 1) / wordBytes) bytes).getD i 0) :
    s.bytesFrom a index bytes.length = bytes := by
  obtain ⟨-, cell, hcell, -, hwords⟩ := hs
  obtain ⟨count, hcount⟩ : ∃ count, count = (bytes.length + wordBytes - 1) / wordBytes := ⟨_, rfl⟩
  simp only [← hcount] at hf
  have hpacked : (List.range count).map (fun i => cell.word (index + i)) = packed count bytes := by
    refine List.ext_getElem (by simp [length_packed]) fun i hi hi' => ?_
    simp [hwords, hf, hi']
  have hflat : (List.range count).flatMap (fun i => wordToBytes (cell.word (index + i)))
      = (packed count bytes).flatMap wordToBytes := by
    rw [← hpacked, List.flatMap_map]
  rw [Space.bytesFrom, Space.cell?_of_object? hcell]
  dsimp only
  rw [← hcount, hflat]
  refine take_packed ?_
  simp only [wordBytes] at hcount
  omega

/-- A string has the text that it was made of. -/
theorem stringText_eq {text : String} {index : Nat} (href : v.isHeapRef = true)
    (hs : s.Has v.address header ((Form.string text).word index)) (hkind : header.kind = .string)
    (hwords : header.words = (Form.string text).size) (hlimit : header.words < Space.payloadLimit) :
    s.stringText mode v = .ok text := by
  obtain ⟨bytes, hbytes⟩ : ∃ bytes, bytes = Text.utf8 text := ⟨_, rfl⟩
  have hsize : header.words = 1 + (bytes.length + wordBytes) / wordBytes := hbytes ▸ hwords
  have hisKind : s.isKind v .string = true := by
    obtain ⟨-, cell, hcell, rfl, -⟩ := hs
    simp [Space.isKind, Kind.isHeap, Kind.code, href, Space.kindOf, Space.kindWith_of_isHeapRef href,
      Space.header_of_object? hcell, hkind]
  have hheader : s.header v.address = header := by
    obtain ⟨-, cell, hcell, rfl, -⟩ := hs
    exact Space.header_of_object? hcell
  have hstored : (UInt64.ofNat bytes.length).toNat = bytes.length := by
    simp only [Space.payloadLimit, wordBytes] at hlimit hsize
    exact UInt64.toNat_ofNat_of_lt' (by simp only [UInt64.size]; omega)
  have hlength : s.stringLength mode v = .ok bytes.length := by
    have hpos : At.stringLength < header.words := hsize ▸ Nat.lt_add_right _ (by decide)
    have hraw := rawWord_eq mode href hs (hkind ▸ rfl) hpos
    rw [hkind] at hraw
    simp [Space.stringLength, hraw, Form.word, Form.payload, ← hbytes, hstored, Functor.map, Except.map]
  have hcapacity : bytes.length ≤ (header.words - 1) * wordBytes := by
    simp only [wordBytes] at hsize ⊢
    omega
  have hread : s.bytesFrom v.address At.stringBytes bytes.length = bytes :=
    bytesFrom_eq hs fun i => by simp [Form.word, Form.payload, ← hbytes, Nat.add_comm 1 i]
  have hall : s.stringBytes mode v = .ok bytes := by
    simp [Space.stringBytes, hisKind, hlength, hheader, Nat.not_lt.mpr hcapacity, hcapacity, hread,
      bind, Except.bind, pure, Except.pure]
  rw [Space.stringText, hall, hbytes]
  exact congrArg Except.ok (Text.ofUtf8_utf8 text)

end Substrate.Machine
