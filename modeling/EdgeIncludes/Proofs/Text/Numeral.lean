/-
A number that is written is read back.

A number is written in decimal digits and nothing else: nothing that is trimmed, and no sign.
So it is read as what it is wherever the bound of the reader lets it.
-/
import EdgeIncludes.Text.Field

namespace EdgeIncludes
namespace Text

variable {c : Char} {digits : List Char}

theorem isBlank_eq_false_of_isDigit (h : c.isDigit) : isBlank c = false := by
  rw [Char.isDigit, Bool.and_eq_true, decide_eq_true_eq, decide_eq_true_eq] at h
  have hlow : 48 ≤ c.toNat := h.1
  have hhigh : c.toNat ≤ 57 := h.2
  simp only [isBlank, Bool.or_eq_false_iff, Bool.and_eq_false_iff, decide_eq_false_iff_not,
    beq_eq_false_iff_ne]
  omega

/-- Digits have no blanks at their ends. -/
theorem trim_digits (h : ∀ c ∈ digits, c.isDigit) : trim digits = digits := by
  have hkeep : ∀ digits : List Char, (∀ c ∈ digits, c.isDigit) →
      digits.dropWhile isBlank = digits := by
    intro digits hdigits
    cases digits with
    | nil => rfl
    | cons c rest =>
      have hc := isBlank_eq_false_of_isDigit (hdigits c List.mem_cons_self)
      exact List.dropWhile_cons_of_neg (by rw [hc]; decide)
  rw [trim, trimStart, hkeep digits h, trimEnd,
    hkeep _ fun c hc => h c (List.mem_reverse.mp hc), List.reverse_reverse]

/-- Digits are read as the value that they spell, if it is less than the bound. -/
theorem number?_digits {bound : Nat} (hne : digits ≠ []) (h : ∀ c ∈ digits, c.isDigit)
    (hlt : digitsValue 0 digits < bound) : number? bound digits = some (digitsValue 0 digits) := by
  have hsign : digits.head? ≠ some '+' := by
    intro hhead
    exact absurd (h '+' (List.mem_of_mem_head? hhead)) (by decide)
  have hall : (!digits.isEmpty && digits.all Char.isDigit) = true := by
    rw [Bool.and_eq_true, Bool.not_eq_true', List.isEmpty_eq_false_iff, List.all_eq_true]
    exact ⟨hne, h⟩
  rw [number?, if_neg hsign, if_pos hall]
  exact if_pos hlt

/-- A number that is written is read back, if it is less than the bound. -/
theorem number?_toString {bound n : Nat} (h : n < bound) :
    number? bound (trim (toString n).toList) = some n := by
  have hdigits : ∀ c ∈ Nat.toDigits 10 n, c.isDigit := fun c hc =>
    Nat.isDigit_of_mem_toDigits (by decide) (by decide) hc
  have hvalue : digitsValue 0 (Nat.toDigits 10 n) = n :=
    Nat.ofDigitChars_toDigits (by decide) (by decide)
  have hread := number?_digits Nat.toDigits_ne_nil hdigits (hvalue.symm ▸ h)
  rw [Nat.toString_eq_repr, Nat.toList_repr, trim_digits hdigits, hread, hvalue]

end Text
end EdgeIncludes
