import Substrate.Proofs.Rounding

/-!
# Words that wrap around

What an operation on words gives is the exact result, reduced to a word. A debug build stops with a panic
if that makes a difference; a release build goes on.
-/

namespace Substrate

variable {α β : Type} {mode : Mode} {a b c x : Nat}

theorem mod_wordLimit_lt (x : Nat) : x % wordLimit < wordLimit := Nat.mod_lt x (by decide)

theorem bind_eq_ok_iff {result : Except Fault α} {next : α → Except Fault β} {value : β} :
    (result >>= next) = .ok value ↔ ∃ a, result = .ok a ∧ next a = .ok value := by
  cases result with
  | ok a =>
    refine ⟨fun h => ⟨a, rfl, h⟩, ?_⟩
    rintro ⟨_, ⟨⟩, h⟩
    exact h
  | error fault =>
    refine ⟨fun h => ?_, ?_⟩
    · cases h
    · rintro ⟨_, ⟨⟩, -⟩

/-- A panic that reports an overflow. -/
def Fault.IsOverflow (fault : Fault) : Prop :=
  ∃ operation, fault = .panic ("attempt to " ++ operation ++ " with overflow")

namespace Mode

theorem assert_ok_iff {condition : Bool} {text : String} {u : Unit} :
    mode.assert condition text = .ok u ↔ (mode = .debug → condition = true) := by
  cases mode <;> cases condition <;> simp [assert]

theorem add_ok_iff :
    mode.add a b = .ok c ↔ (mode = .debug → a + b < wordLimit) ∧ c = (a + b) % wordLimit := by
  unfold add
  split
  next h =>
    rw [Except.ok.injEq, Nat.mod_eq_of_lt h]
    exact ⟨fun hc => ⟨fun _ => h, hc.symm⟩, fun hc => hc.2.symm⟩
  next h => cases mode <;> simp [overflow, h, eq_comm]

theorem add_release (a b : Nat) : Mode.release.add a b = .ok ((a + b) % wordLimit) :=
  add_ok_iff.mpr ⟨nofun, rfl⟩

theorem sub_ok_iff (ha : a < wordLimit) :
    mode.sub a b = .ok c ↔ (mode = .debug → b ≤ a) ∧ c = (a + wordLimit - b) % wordLimit := by
  unfold sub
  split
  next h =>
    have hexact : (a + wordLimit - b) % wordLimit = a - b := by
      rw [show a + wordLimit - b = a - b + wordLimit by omega, Nat.add_mod_right,
        Nat.mod_eq_of_lt (by omega)]
    rw [Except.ok.injEq, hexact]
    exact ⟨fun hc => ⟨fun _ => h, hc.symm⟩, fun hc => hc.2.symm⟩
  next h => cases mode <;> simp [overflow, wrappingSub, h, eq_comm]

theorem debug_add_cases (a b : Nat) : a + b < wordLimit ∧ Mode.debug.add a b = .ok (a + b) ∨
    wordLimit ≤ a + b ∧ ∃ fault, Mode.debug.add a b = .error fault ∧ fault.IsOverflow := by
  by_cases h : a + b < wordLimit
  · exact .inl ⟨h, if_pos h⟩
  · exact .inr ⟨Nat.le_of_not_lt h, _, if_neg h, "add", rfl⟩

theorem debug_mul_cases (a b : Nat) : a * b < wordLimit ∧ Mode.debug.mul a b = .ok (a * b) ∨
    wordLimit ≤ a * b ∧ ∃ fault, Mode.debug.mul a b = .error fault ∧ fault.IsOverflow := by
  by_cases h : a * b < wordLimit
  · exact .inl ⟨h, if_pos h⟩
  · exact .inr ⟨Nat.le_of_not_lt h, _, if_neg h, "multiply", rfl⟩

theorem release_mul (a b : Nat) : ∃ c, Mode.release.mul a b = .ok c := by
  unfold mul
  split <;> exact ⟨_, rfl⟩

end Mode

/-- Rounding up to a multiple of a power of two adds all but one of its bytes first, and that can wrap
around. A debug build adds all of them. -/
theorem roundUp_ok_iff {k : Nat} (hk : k < 64) :
    roundUp mode x (Nat.pow 2 k) 0 = .ok c ↔ (mode = .debug → x + Nat.pow 2 k < wordLimit) ∧
      c = (x + Nat.pow 2 k - 1) % wordLimit / Nat.pow 2 k * Nat.pow 2 k := by
  have hpos : 0 < Nat.pow 2 k := Nat.two_pow_pos k
  by_cases hfits : x + Nat.pow 2 k < wordLimit
  · rw [roundUp_pow mode hk hfits, Except.ok.injEq, Nat.mod_eq_of_lt (by omega)]
    exact ⟨fun hc => ⟨fun _ => hfits, hc.symm⟩, fun hc => hc.2.symm⟩
  have hassert : mode.assert (decide (0 < Nat.pow 2 k)) "offset < alignment" = .ok () :=
    Mode.assert_ok_iff.mpr fun _ => decide_eq_true hpos
  cases mode with
  | debug =>
    have hpanics : Mode.debug.add x (Nat.pow 2 k) = .error (.panic "attempt to add with overflow") :=
      if_neg hfits
    refine ⟨fun h => ?_, fun h => absurd (h.1 rfl) hfits⟩
    rw [roundUp, hassert, ok_bind, hpanics] at h
    cases h
  | release =>
    have hunchecked : ∀ {p : Prop}, Mode.release = .debug → p := fun h => by cases h
    have hlower : Mode.release.sub ((x + Nat.pow 2 k) % wordLimit) 1
        = .ok ((x + Nat.pow 2 k - 1) % wordLimit) :=
      (Mode.sub_ok_iff (mod_wordLimit_lt _)).mpr ⟨hunchecked, by simp only [wordLimit]; omega⟩
    have hstay : Mode.release.add ((x + Nat.pow 2 k - 1) % wordLimit) 0
        = .ok ((x + Nat.pow 2 k - 1) % wordLimit) := if_pos (mod_wordLimit_lt _)
    have hround := roundDown_pow (mod_wordLimit_lt (x + Nat.pow 2 k - 1)) hk
    have hresult : roundUp .release x (Nat.pow 2 k) 0
        = .ok ((x + Nat.pow 2 k - 1) % wordLimit / Nat.pow 2 k * Nat.pow 2 k) := by
      rw [roundUp, hassert, ok_bind, Mode.add_release, ok_bind, hlower, ok_bind, hstay, ok_bind, hround]
      exact if_pos (Nat.zero_le _)
    rw [hresult, Except.ok.injEq]
    exact ⟨fun hc => ⟨hunchecked, hc.symm⟩, fun hc => hc.2.symm⟩

theorem roundUp_page_ok_iff :
    roundUp mode x pageBytes 0 = .ok c ↔ (mode = .debug → x + pageBytes < wordLimit) ∧
      c = (x + pageBytes - 1) % wordLimit / pageBytes * pageBytes :=
  roundUp_ok_iff (k := 12) (by decide)

/-- Rounding up to words adds the bytes of a word first. A release build gets by with all but one of them. -/
theorem wordsFor_ok_iff {bytes words : Nat} : wordsFor mode bytes = .ok words ↔
    (mode = .debug → bytes + wordBytes < wordLimit) ∧
      words = (bytes + wordBytes - 1) % wordLimit / wordBytes := by
  have hlower : ∀ c, mode.sub ((bytes + wordBytes) % wordLimit) 1 = .ok c ↔
      (mode = .debug → 1 ≤ (bytes + wordBytes) % wordLimit) ∧
        c = (bytes + wordBytes - 1) % wordLimit := by
    intro c
    rw [Mode.sub_ok_iff (mod_wordLimit_lt _)]
    have hmod : ((bytes + wordBytes) % wordLimit + wordLimit - 1) % wordLimit
        = (bytes + wordBytes - 1) % wordLimit := by
      simp only [wordBytes, wordLimit]
      omega
    rw [hmod]
  simp only [wordsFor, bind_eq_ok_iff, Mode.add_ok_iff]
  constructor
  · rintro ⟨_, ⟨hadd, rfl⟩, c, hsub, hwords⟩
    cases hwords
    exact ⟨hadd, by rw [((hlower c).mp hsub).2]⟩
  · rintro ⟨hadd, rfl⟩
    refine ⟨_, ⟨hadd, rfl⟩, _, (hlower _).mpr ⟨fun hmode => ?_, rfl⟩, rfl⟩
    rw [Nat.mod_eq_of_lt (hadd hmode)]
    exact Nat.le_add_left 1 (bytes + 7)

end Substrate
