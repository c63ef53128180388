import Formula.Text.Digit
import Formula.Text.Blank

/-!
# Classes of characters

The classes of characters that reading tells apart exclude each other.
-/

namespace Formula.Text

-- What holds of the characters of a text is decided by going through the text, and not through
-- all characters there are.
instance (priority := high) decidableForallMem {α : Type} (p : α → Prop) [DecidablePred p]
    (s : List α) : Decidable (∀ c ∈ s, p c) := List.decidableBAll p s

instance (priority := high) decidableExistsMem {α : Type} (p : α → Prop) [DecidablePred p]
    (s : List α) : Decidable (∃ c ∈ s, p c) := List.decidableBEx p s

theorem toNat_of_isLetter {c : Char} (h : isLetter c = true) :
  (65 ≤ c.toNat ∧ c.toNat ≤ 90) ∨ (97 ≤ c.toNat ∧ c.toNat ≤ 122)
  := by
  have hletter : (decide (65 ≤ c.val ∧ c.val ≤ 90)
      || decide (97 ≤ c.val) && decide (c.val ≤ 122)) = true := h
  simp only [Bool.or_eq_true, Bool.and_eq_true, decide_eq_true_eq] at hletter
  apply hletter

/-- A letter is not blank. -/
theorem isBlank_of_isLetter {c : Char} (h : isLetter c = true) :
  isBlank c = false
  := by
  have := toNat_of_isLetter h
  simp only [isBlank, Bool.or_eq_false_iff, Bool.and_eq_false_iff, decide_eq_false_iff_not,
    beq_eq_false_iff_ne]
  omega

/-- What is not blank is no margin blank. -/
theorem isMarginBlank_of_not_isBlank {c : Char} (h : isBlank c = false) :
  isMarginBlank c = false
  := by
  rw [isMarginBlank, h, Bool.false_and]

theorem toNat_of_isDigit {c : Char} (h : c.isDigit = true) :
  48 ≤ c.toNat ∧ c.toNat ≤ 57
  := by
  simp only [Char.isDigit, Bool.and_eq_true, decide_eq_true_eq] at h
  apply h

/-- A digit is not blank. -/
theorem isBlank_of_isDigit {c : Char} (h : c.isDigit = true) :
  isBlank c = false
  := by
  have := toNat_of_isDigit h
  simp only [isBlank, Bool.or_eq_false_iff, Bool.and_eq_false_iff, decide_eq_false_iff_not,
    beq_eq_false_iff_ne]
  omega

end Formula.Text
