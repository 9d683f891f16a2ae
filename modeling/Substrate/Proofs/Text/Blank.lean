import Substrate.Text.Blank

/-!
# Texts without the blanks around them

Trimming takes the blanks at both ends of a text away and nothing else. What is left can be told without
looking at how it is found (`Trimmed`), and there is only one text that this holds of (`trimmed_iff`).
-/

namespace Substrate.Text

variable {text inner : List Char}

/-- What is left of a text if nothing but blanks is taken away at its ends, and no blank is left there. -/
structure Trimmed (text inner : List Char) : Prop where
  surrounded : ∃ before after, text = before ++ inner ++ after ∧
    (∀ c ∈ before, isBlank c = true) ∧ ∀ c ∈ after, isBlank c = true
  first : ∀ c ∈ inner.head?, isBlank c = false
  last : ∀ c ∈ inner.getLast?, isBlank c = false

theorem dropWhile_blanks {before rest : List Char} (hbefore : ∀ c ∈ before, isBlank c = true)
    (hrest : ∀ c ∈ rest.head?, isBlank c = false) :
    (before ++ rest).dropWhile isBlank = rest := by
  rw [List.dropWhile_append_of_pos hbefore]
  cases rest with
  | nil => rfl
  | cons c rest => exact List.dropWhile_cons_of_neg (by simp [hrest c rfl])

theorem trimEnd_append {after : List Char} (hafter : ∀ c ∈ after, isBlank c = true)
    (hlast : ∀ c ∈ inner.getLast?, isBlank c = false) : trimEnd (inner ++ after) = inner := by
  have hreverse : (inner ++ after).reverse.dropWhile isBlank = inner.reverse := by
    rw [List.reverse_append]
    exact dropWhile_blanks (fun c hc => hafter c (List.mem_reverse.mp hc))
      (by rwa [List.head?_reverse])
  rw [trimEnd, hreverse, List.reverse_reverse]

/-- What is cut off at the end consists of blanks, and what is left does not end in one. -/
theorem exists_of_trimEnd (text : List Char) : ∃ after, text = trimEnd text ++ after ∧
    (∀ c ∈ after, isBlank c = true) ∧ ∀ c ∈ (trimEnd text).getLast?, isBlank c = false := by
  refine ⟨(text.reverse.takeWhile isBlank).reverse, ?_, fun c hc => ?_, fun c hc => ?_⟩
  · rw [trimEnd, ← List.reverse_append, List.takeWhile_append_dropWhile, List.reverse_reverse]
  · exact List.all_eq_true.mp List.all_takeWhile c (List.mem_reverse.mp hc)
  · rw [trimEnd, List.getLast?_reverse] at hc
    have hnot := List.head?_dropWhile_not isBlank text.reverse
    rw [hc] at hnot
    exact hnot

theorem trimmed_trim (text : List Char) : Trimmed text (trim text) := by
  obtain ⟨after, hsplit, hafter, hlast⟩ := exists_of_trimEnd (text.dropWhile isBlank)
  refine ⟨⟨text.takeWhile isBlank, after, ?_, List.all_eq_true.mp List.all_takeWhile, hafter⟩,
    fun c hc => ?_, hlast⟩
  · rw [List.append_assoc, trim, ← hsplit, List.takeWhile_append_dropWhile]
  · have hfirst : (text.dropWhile isBlank).head? = some c := by
      rw [hsplit, List.head?_append, show (trimEnd _).head? = some c from hc, Option.some_or]
    have hnot := List.head?_dropWhile_not isBlank text
    rw [hfirst] at hnot
    exact hnot

/-- Trimming finds what is left, and there is nothing else that could be. -/
theorem trimmed_iff : Trimmed text inner ↔ trim text = inner := by
  refine ⟨fun h => ?_, fun h => h ▸ trimmed_trim text⟩
  obtain ⟨before, after, rfl, hbefore, hafter⟩ := h.surrounded
  cases inner with
  | nil =>
    have hblank : (before ++ [] ++ after).dropWhile isBlank = [] := by
      rw [← List.append_nil (before ++ [] ++ after)]
      refine dropWhile_blanks (fun c hc => ?_) (fun c hc => by cases hc)
      simp only [List.append_nil, List.mem_append] at hc
      exact hc.elim (hbefore c) (hafter c)
    rw [trim, hblank]
    rfl
  | cons c inner =>
    have hdrop : (before ++ (c :: inner) ++ after).dropWhile isBlank = c :: inner ++ after := by
      rw [List.append_assoc]
      exact dropWhile_blanks hbefore h.first
    rw [trim, hdrop]
    exact trimEnd_append hafter h.last

end Substrate.Text
