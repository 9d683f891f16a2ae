import Substrate.Proofs.Collection.Graph

/-!
# Traversals

Which words of an object hold values depends on its kind, on the number of its payload words and on the
stored length of its tail, and nothing keeps the three in agreement. A header may claim any kind for any
number of words, so that the payload may be shorter than the fixed part of the layout or lack the length
word, and the length word may hold anything.

A traversal gives the slots of an object to a `Visitor` (`Header.visitSlots`). It reads no word itself but
the stored length, and that only if the payload has it. A length that there is no room for is cut down, and
in a debug build it ends the traversal behind the fixed part. `Cell.Traversal` says what is visited and what
is raised.
-/

namespace Substrate

/-! ## Layouts -/

namespace Layout

variable {kind : Kind} {words word : Nat}

theorem valueLengthWord?_eq_some {layout : Layout} : layout.valueLengthWord? words = some word ↔
    layout.tail = some ⟨.values, word⟩ ∧ word < words := by
  unfold valueLengthWord?
  split
  next word' htail =>
    rw [htail]
    split <;> simp <;> omega
  next hother => exact ⟨nofun, fun h => (hother word h.1).elim⟩

/-- A tail of values begins right behind its length word, and the listed words stand before that. -/
theorem lengthWord_of_tail (h : (of kind).tail = some ⟨.values, word⟩) :
    (of kind).fixedWords = word + 1 ∧ ∀ i ∈ (of kind).valueWords, i < word := by
  cases kind <;> cases h <;> decide

theorem mem_listedSlots {layout : Layout} {i : Nat} :
    i ∈ layout.listedSlots words ↔ i ∈ layout.valueWords ∧ i < words := by
  rw [listedSlots, List.mem_filter, decide_eq_true_iff]

theorem nodup_listedSlots (kind : Kind) (words : Nat) : ((of kind).listedSlots words).Nodup :=
  List.Nodup.filter _ (by cases kind <;> decide)

/-- What a debug build raises when there is no room for the stored length. -/
def overlong (kind : Kind) (words length : Nat) : Fault :=
  .fatal .contractViolation
    (kind.name ++ " of length " ++ toString length ++ " in " ++ toString words ++ " payload words")

theorem tailCount_eq (mode : Mode) (kind : Kind) (words length : Nat) :
    tailCount mode kind words length =
      if mode = .debug ∧ (of kind).room words < length then .error (overlong kind words length)
      else .ok (min length ((of kind).room words)) := by
  unfold tailCount
  by_cases hroom : (of kind).room words < length
  · cases mode <;> simp [hroom, overlong, Mode.violation, bind, Except.bind, pure, Except.pure]
  · simp [hroom, pure, Except.pure]

end Layout

/-! ## Slots -/

namespace Cell

variable {cell : Cell} {i : Nat}

theorem mem_slots : i ∈ cell.slots ↔
    i ∈ (Layout.of cell.header.kind).valueWords ∧ i < cell.header.words ∨
    ∃ word, (Layout.of cell.header.kind).valueLengthWord? cell.header.words = some word ∧
      (Layout.of cell.header.kind).fixedWords ≤ i ∧ i < (Layout.of cell.header.kind).fixedWords
        + min (cell.word word).toNat ((Layout.of cell.header.kind).room cell.header.words) := by
  rw [Cell.slots, List.mem_append, Layout.mem_listedSlots]
  refine or_congr_right ?_
  split
  next hnone => simp [hnone]
  next word hsome => simp [hsome, List.mem_range'_1]

/-- Whether the layout declares a payload word to be a value: it is listed, or it is one of the first words
of the tail, as many as the stored length says and there is room for. -/
def Declares (cell : Cell) (i : Nat) : Prop :=
  i ∈ (Layout.of cell.header.kind).valueWords ∨
    ∃ word, (Layout.of cell.header.kind).tail = some ⟨.values, word⟩ ∧ word < cell.header.words ∧
      (Layout.of cell.header.kind).fixedWords ≤ i ∧ i < (Layout.of cell.header.kind).fixedWords
        + min (cell.word word).toNat ((Layout.of cell.header.kind).room cell.header.words)

/-- The tail holds values, the payload has the length word, and it says more than there is room for. -/
def Overlong (cell : Cell) : Prop :=
  ∃ word, (Layout.of cell.header.kind).tail = some ⟨.values, word⟩ ∧ word < cell.header.words ∧
    (Layout.of cell.header.kind).room cell.header.words < (cell.word word).toNat

theorem mem_slots_iff_declares : i ∈ cell.slots ↔ i < cell.header.words ∧ cell.Declares i := by
  rw [mem_slots, Declares]
  simp only [Layout.valueLengthWord?_eq_some]
  constructor
  · rintro (⟨hlisted, hlt⟩ | ⟨word, ⟨htail, hword⟩, hle, hend⟩)
    · exact ⟨hlt, .inl hlisted⟩
    · -- the fixed part ends with the length word, and what is left of the payload is the room: the end of
      -- the tail, a plain sum, is never more than the number of words
      refine ⟨?_, .inr ⟨word, htail, hword, hle, hend⟩⟩
      have hfixed := (Layout.lengthWord_of_tail htail).1
      rw [Layout.room] at hend
      omega
  · rintro ⟨hlt, hlisted | ⟨word, htail, hword, hle, hend⟩⟩
    · exact .inl ⟨hlisted, hlt⟩
    · exact .inr ⟨word, ⟨htail, hword⟩, hle, hend⟩

theorem lt_of_mem_slots (h : i ∈ cell.slots) : i < cell.header.words :=
  (mem_slots_iff_declares.mp h).1

/-- No slot is visited twice. -/
theorem nodup_slots (cell : Cell) : cell.slots.Nodup := by
  have hlisted := Layout.nodup_listedSlots cell.header.kind cell.header.words
  rw [slots]
  split
  next => simpa using hlisted
  next word hword =>
    refine List.nodup_append.mpr ⟨hlisted, List.nodup_range', fun i hi j hj heq => ?_⟩
    obtain ⟨hfixed, hbefore⟩ :=
      Layout.lengthWord_of_tail (Layout.valueLengthWord?_eq_some.mp hword).1
    have hlt := hbefore i (Layout.mem_listedSlots.mp hi).1
    rw [List.mem_range'_1] at hj
    omega

end Cell

/-! ## Visitors -/

/-- Code that is given payload words of an object, one after the other. It sees the payload through `word`
and changes no word of it but the one it is given. -/
structure Visitor (σ : Type) where
  word : σ → Nat → Word
  visit : Nat → Run σ Unit
  confined : ∀ {i j : Nat} {s s' : σ}, visit i s = .ok () s' → j ≠ i → word s' j = word s j

namespace Visitor

variable {σ : Type}

/-- Writes down which words it is given. -/
def recorder (payload : Nat → Word) : Visitor (List Nat) where
  word _ := payload
  visit i := modify (· ++ [i])
  confined _ _ := rfl

/-- A word that is not visited keeps its contents. -/
theorem word_of_forM (v : Visitor σ) {indices : List Nat} {s s' : σ} {j : Nat}
    (hrun : indices.forM v.visit s = .ok () s') (hj : j ∉ indices) : v.word s' j = v.word s j := by
  induction indices generalizing s with
  | nil =>
    cases hrun
    rfl
  | cons i indices ih =>
    rw [List.mem_cons, not_or] at hj
    change (v.visit i >>= fun _ => indices.forM v.visit) s = .ok () s' at hrun
    cases hfirst : v.visit i s with
    | error fault s₁ =>
      rw [Run.bind_of_error hfirst] at hrun
      cases hrun
    | ok _ s₁ =>
      rw [Run.bind_of_ok hfirst] at hrun
      exact (ih hrun hj.2).trans (v.confined hfirst hj.1)

end Visitor

/-! ## Traversals -/

variable {σ : Type} {mode : Mode} {cell : Cell} {v : Visitor σ} {s s₁ : σ} {word : Nat}

/-- Gives a visitor the words of an object that hold values: the fixed ones that exist, then those of the
tail, as many as the length word says, and no more than there is room for. -/
def Header.visitSlots (mode : Mode) (header : Header) (v : Visitor σ) : Run σ Unit := fun s =>
  let layout := Layout.of header.kind
  match layout.valueWords.forM (fun i => if i < header.words then v.visit i else pure ()) s with
  | .error fault s => .error fault s
  | .ok () s =>
    match layout.tail with
    | some ⟨.values, word⟩ =>
      if header.words ≤ word then .ok () s
      else
        match Layout.tailCount mode header.kind header.words (v.word s word).toNat with
        | .error fault => .error fault s
        | .ok count => (List.range' layout.fixedWords count).forM v.visit s
    | _ => .ok () s

theorem Layout.forM_listedSlots (layout : Layout) (words : Nat) (visit : Nat → Run σ Unit) :
    (layout.valueWords.forM fun i => if i < words then visit i else pure ()) =
      (layout.listedSlots words).forM visit := by
  rw [listedSlots]
  simp only [List.forM_eq_forM]
  induction layout.valueWords with
  | nil => rfl
  | cons i indices ih => by_cases hi : i < words <;> simp [hi, ih]

theorem Header.visitSlots_apply (mode : Mode) (header : Header) (v : Visitor σ) (s : σ) :
    header.visitSlots mode v s =
      match ((Layout.of header.kind).listedSlots header.words).forM v.visit s with
      | .error fault s₁ => .error fault s₁
      | .ok () s₁ =>
        match (Layout.of header.kind).valueLengthWord? header.words with
        | none => .ok () s₁
        | some word =>
          match Layout.tailCount mode header.kind header.words (v.word s₁ word).toNat with
          | .error fault => .error fault s₁
          | .ok count => (List.range' (Layout.of header.kind).fixedWords count).forM v.visit s₁ := by
  simp only [visitSlots, Layout.forM_listedSlots]
  cases ((Layout.of header.kind).listedSlots header.words).forM v.visit s with
  | error fault s₁ => rfl
  | ok _ s₁ =>
    dsimp only
    cases hword : (Layout.of header.kind).valueLengthWord? header.words with
    | none =>
      split
      next word htail =>
        have hle : header.words ≤ word := by
          refine Nat.le_of_not_lt fun hlt => ?_
          rw [Layout.valueLengthWord?_eq_some.mpr ⟨htail, hlt⟩] at hword
          cases hword
        rw [if_pos hle]
      next => rfl
    | some word =>
      obtain ⟨htail, hlt⟩ := Layout.valueLengthWord?_eq_some.mp hword
      simp only [htail, if_neg (Nat.not_le.mpr hlt)]

namespace Cell

/-- What is visited of an object, in this order, and what the traversal itself raises behind that. -/
structure Traversal (mode : Mode) (cell : Cell) (visited : List Nat) (raised : Option Fault) : Prop where
  nodup : visited.Nodup
  inside : ∀ i ∈ visited, i < cell.header.words
  declared : ∀ i ∈ visited, cell.Declares i
  complete : raised = none → ∀ i < cell.header.words, cell.Declares i → i ∈ visited
  raises_iff : raised.isSome ↔ mode = .debug ∧ cell.Overlong
  violation : ∀ fault ∈ raised, ∃ word, (Layout.of cell.header.kind).tail = some ⟨.values, word⟩ ∧
    fault = Layout.overlong cell.header.kind cell.header.words (cell.word word).toNat
  /-- A fault is raised behind the listed words, before any word of the tail is visited. -/
  listed : raised.isSome → ∀ i, i ∈ visited ↔
    i ∈ (Layout.of cell.header.kind).valueWords ∧ i < cell.header.words

theorem traversal_of_overlong (htail : (Layout.of cell.header.kind).tail = some ⟨.values, word⟩)
    (hword : word < cell.header.words)
    (hroom : (Layout.of cell.header.kind).room cell.header.words < (cell.word word).toNat) :
    cell.Traversal .debug ((Layout.of cell.header.kind).listedSlots cell.header.words)
      (some (Layout.overlong cell.header.kind cell.header.words (cell.word word).toNat)) where
  nodup := Layout.nodup_listedSlots _ _
  inside i hi := (Layout.mem_listedSlots.mp hi).2
  declared i hi := .inl (Layout.mem_listedSlots.mp hi).1
  complete := nofun
  raises_iff := iff_of_true rfl ⟨rfl, word, htail, hword, hroom⟩
  violation := by
    rintro _ ⟨⟩
    exact ⟨word, htail, rfl⟩
  listed _ i := Layout.mem_listedSlots

theorem traversal_of_fits (hfits : ¬ (mode = .debug ∧ cell.Overlong)) :
    cell.Traversal mode cell.slots none where
  nodup := cell.nodup_slots
  inside _ hi := (mem_slots_iff_declares.mp hi).1
  declared _ hi := (mem_slots_iff_declares.mp hi).2
  complete _ _ hlt hdeclared := mem_slots_iff_declares.mpr ⟨hlt, hdeclared⟩
  raises_iff := iff_of_false nofun hfits
  violation := nofun
  listed := nofun

/-- The length word is not among the listed words, so that visiting those does not change it. -/
theorem word_of_listed (hpayload : ∀ i < cell.header.words, v.word s i = cell.word i)
    (htail : (Layout.of cell.header.kind).tail = some ⟨.values, word⟩) (hword : word < cell.header.words)
    (hlisted : ((Layout.of cell.header.kind).listedSlots cell.header.words).forM v.visit s
      = .ok () s₁) : v.word s₁ word = cell.word word := by
  refine (v.word_of_forM hlisted fun hmem => ?_).trans (hpayload word hword)
  exact Nat.lt_irrefl word
    ((Layout.lengthWord_of_tail htail).2 word (Layout.mem_listedSlots.mp hmem).1)

theorem visitSlots_of_overlong (hpayload : ∀ i < cell.header.words, v.word s i = cell.word i)
    (htail : (Layout.of cell.header.kind).tail = some ⟨.values, word⟩) (hword : word < cell.header.words)
    (hroom : (Layout.of cell.header.kind).room cell.header.words < (cell.word word).toNat) :
    cell.header.visitSlots .debug v s = (do
      ((Layout.of cell.header.kind).listedSlots cell.header.words).forM v.visit
      throw (Layout.overlong cell.header.kind cell.header.words (cell.word word).toNat)) s := by
  rw [Header.visitSlots_apply]
  cases hlisted : ((Layout.of cell.header.kind).listedSlots cell.header.words).forM v.visit s with
  | error fault s₁ => rw [Run.bind_of_error hlisted]
  | ok _ s₁ =>
    rw [Run.bind_of_ok hlisted]
    simp only [Layout.valueLengthWord?_eq_some.mpr ⟨htail, hword⟩,
      word_of_listed hpayload htail hword hlisted, Layout.tailCount_eq, hroom, and_self, if_true]
    rfl

theorem visitSlots_of_fits (hpayload : ∀ i < cell.header.words, v.word s i = cell.word i)
    (hfits : ¬ (mode = .debug ∧ cell.Overlong)) :
    cell.header.visitSlots mode v s = cell.slots.forM v.visit s := by
  rw [Header.visitSlots_apply]
  cases hlength : (Layout.of cell.header.kind).valueLengthWord? cell.header.words with
  | none =>
    have hslots : cell.slots = (Layout.of cell.header.kind).listedSlots cell.header.words := by
      simp only [slots, hlength, List.append_nil]
    rw [hslots]
    cases ((Layout.of cell.header.kind).listedSlots cell.header.words).forM v.visit s <;> rfl
  | some word =>
    obtain ⟨htail, hword⟩ := Layout.valueLengthWord?_eq_some.mp hlength
    have hcount : ¬ (mode = .debug ∧
        (Layout.of cell.header.kind).room cell.header.words < (cell.word word).toNat) :=
      fun hlong => hfits ⟨hlong.1, word, htail, hword, hlong.2⟩
    have hslots : cell.slots.forM v.visit = (do
        ((Layout.of cell.header.kind).listedSlots cell.header.words).forM v.visit
        (List.range' (Layout.of cell.header.kind).fixedWords (min (cell.word word).toNat
          ((Layout.of cell.header.kind).room cell.header.words))).forM v.visit) := by
      simp only [slots, hlength]
      exact List.forM_append
    rw [hslots]
    cases hlisted : ((Layout.of cell.header.kind).listedSlots cell.header.words).forM v.visit s with
    | error fault s₁ => rw [Run.bind_of_error hlisted]
    | ok _ s₁ =>
      rw [Run.bind_of_ok hlisted]
      simp only [word_of_listed hpayload htail hword hlisted, Layout.tailCount_eq, if_neg hcount]

example : Header.visitSlots .debug ⟨.vector, false, 0, 3⟩ (.recorder fun _ => 2) [] = .ok () [1, 2] :=
  rfl

example : Header.visitSlots .release ⟨.vector, false, 0, 3⟩ (.recorder fun _ => 0xffffffffffffffff) []
    = .ok () [1, 2] :=
  rfl

/-- Whatever the header claims and the payload holds, every visitor goes through the same traversal. -/
theorem exists_traversal (mode : Mode) (cell : Cell) :
    ∃ visited raised, cell.Traversal mode visited raised ∧
      ∀ {σ : Type} (v : Visitor σ) (s : σ), (∀ i < cell.header.words, v.word s i = cell.word i) →
        cell.header.visitSlots mode v s = (do visited.forM v.visit; raised.forM throw) s := by
  by_cases hlong : mode = .debug ∧ cell.Overlong
  · obtain ⟨rfl, word, htail, hword, hroom⟩ := hlong
    exact ⟨_, _, traversal_of_overlong htail hword hroom,
      fun v s hpayload => visitSlots_of_overlong hpayload htail hword hroom⟩
  · refine ⟨_, _, traversal_of_fits hlong, fun v s hpayload => ?_⟩
    rw [visitSlots_of_fits hpayload hlong]
    exact (congrFun bind_pure_unit s).symm

end Cell

end Substrate
