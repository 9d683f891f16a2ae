import Substrate.Decimal.Double

/-!
# How number literals end

A floating-point literal is never empty, and it ends in a digit, in the point or in the last letter of one
of the words (`readLiteral?_last`). So a letter that stands for a unit cannot be part of a literal that it
follows.
-/

namespace Substrate.Decimal

variable {text rest : List Char}

/-- The characters that a literal can end in. -/
def Closes (c : Char) : Prop :=
  isDigit c = true ∨ c = '.' ∨ c.toLower = 'f' ∨ c.toLower = 'y' ∨ c.toLower = 'n'

/-- The text is not empty, and a literal can end the way it does. -/
def Closed (text : List Char) : Prop :=
  ∃ c, text.getLast? = some c ∧ Closes c

theorem Closed.append (before : List Char) (h : Closed text) : Closed (before ++ text) := by
  obtain ⟨c, hlast, hcloses⟩ := h
  exact ⟨c, by rw [List.getLast?_append, hlast, Option.some_or], hcloses⟩

theorem closed_of_digits (hne : text ≠ []) (hdigits : ∀ c ∈ text, isDigit c = true) : Closed text :=
  ⟨text.getLast hne, List.getLast?_eq_some_getLast hne, .inl (hdigits _ (List.getLast_mem hne))⟩

theorem splitSign_append (text : List Char) : ∃ sign, text = sign ++ (splitSign text).2 := by
  unfold splitSign
  split
  · exact ⟨['-'], rfl⟩
  · exact ⟨['+'], rfl⟩
  · exact ⟨[], rfl⟩

/-- A word in letters of either case ends like the word. -/
theorem closed_of_word {word : List Char} (hword : text.map Char.toLower = word)
    (hlast : word.getLast? = some 'f' ∨ word.getLast? = some 'y' ∨ word.getLast? = some 'n') :
    Closed text := by
  rw [← hword, List.getLast?_map] at hlast
  simp only [Option.map_eq_some_iff] at hlast
  obtain ⟨c, hc, hlower⟩ | ⟨c, hc, hlower⟩ | ⟨c, hc, hlower⟩ := hlast
  · exact ⟨c, hc, .inr (.inr (.inl hlower))⟩
  · exact ⟨c, hc, .inr (.inr (.inr (.inl hlower)))⟩
  · exact ⟨c, hc, .inr (.inr (.inr (.inr hlower)))⟩

/-- An exponent that is there ends in a digit. -/
theorem readExponent?_last {exponent : Int} (h : readExponent? rest = some exponent) :
    rest = [] ∨ Closed rest := by
  unfold readExponent? at h
  split at h
  · exact .inl rfl
  next c rest =>
    split at h
    · obtain ⟨sign, hsign⟩ := splitSign_append rest
      dsimp only at h
      split at h
      · cases h
      next hdigits =>
        simp only [Bool.or_eq_true, List.isEmpty_iff, Bool.not_eq_true', not_or,
          Bool.not_eq_false, List.all_eq_true] at hdigits
        rw [hsign]
        exact .inr ((closed_of_digits hdigits.1 hdigits.2).append (c :: sign))
    · cases h

/-- Without an exponent the last character is a digit or the point. -/
theorem readUnsigned?_last {number : Nat × Int} (h : readUnsigned? text = some number) :
    Closed text := by
  have hdigit : ∀ l : List Char, ∀ c ∈ l.takeWhile isDigit, isDigit c = true := fun _ =>
    List.all_eq_true.mp List.all_takeWhile
  have hsplit := List.takeWhile_append_dropWhile (p := isDigit) (l := text)
  unfold readUnsigned? at h
  dsimp only at h
  split at h
  next tail hpoint =>
    rw [← hsplit, hpoint]
    refine Closed.append _ ?_
    dsimp only at h
    split at h
    · cases h
    obtain ⟨exponent, hexponent, -⟩ := Option.bind_eq_some_iff.mp h
    obtain hnone | hclosed := readExponent?_last hexponent
    · -- the digits behind the point may be missing
      have htail := List.takeWhile_append_dropWhile (p := isDigit) (l := tail)
      rw [hnone, List.append_nil] at htail
      by_cases hempty : tail = []
      · exact ⟨'.', by rw [hempty]; rfl, .inr (.inl rfl)⟩
      · exact (closed_of_digits hempty (htail ▸ hdigit tail)).append ['.']
    · rw [← List.takeWhile_append_dropWhile (p := isDigit) (l := tail)]
      exact hclosed.append ('.' :: tail.takeWhile isDigit)
  next =>
    dsimp only at h
    split at h
    · cases h
    next hwhole =>
      obtain ⟨exponent, hexponent, -⟩ := Option.bind_eq_some_iff.mp h
      obtain hnone | hclosed := readExponent?_last hexponent
      · rw [← hsplit, hnone, List.append_nil]
        exact closed_of_digits (by simpa using hwhole) (hdigit text)
      · rw [← hsplit]
        exact hclosed.append _

/-- A literal is not empty and ends in one of these characters. -/
theorem readLiteral?_last {literal : Literal} (h : readLiteral? text = some literal) :
    Closed text := by
  obtain ⟨sign, hsign⟩ := splitSign_append text
  rw [hsign]
  refine Closed.append sign ?_
  unfold readLiteral? at h
  dsimp only at h
  split at h
  next hinfinite =>
    simp only [Bool.or_eq_true, beq_iff_eq] at hinfinite
    obtain hword | hword := hinfinite
    · exact closed_of_word hword (.inl rfl)
    · exact closed_of_word hword (.inr (.inl rfl))
  next =>
    split at h
    next hnan =>
      simp only [beq_iff_eq] at hnan
      exact closed_of_word hnan (.inr (.inr rfl))
    next =>
      obtain ⟨number, hnumber, -⟩ := Option.bind_eq_some_iff.mp h
      exact readUnsigned?_last hnumber

theorem read?_last {x : Double} (h : Double.read? text = some x) : Closed text := by
  obtain ⟨literal, hliteral, -⟩ := Option.map_eq_some_iff.mp h
  exact readLiteral?_last hliteral

end Substrate.Decimal
