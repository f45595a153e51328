import HnefServer.Data.Text

/-!
# Decimal integers

A text is a decimal integer (`Text.Decimal`) if all of it is an optional sign and at least one
digit.  `stoi` reads such a text as the number it denotes (`Text.stoi_of_decimal`), but reads
others as well.
-/

namespace HnefServer

namespace Text

/-- The text, as a whole, is a decimal integer, and denotes `v`. -/
def Decimal (s : Text) (v : ℤ) : Prop :=
  ∃ sign digits : Text, s = sign ++ digits ∧ digits ≠ [] ∧ (∀ c ∈ digits, c.isDigit = true) ∧
    ((sign = [] ∨ sign = ['+']) ∧ v = readDigits 0 digits ∨
      sign = ['-'] ∧ v = -readDigits 0 digits)

variable {digits s : Text} {v : ℤ}

theorem dropWhile_isSpace {c : Char} (hc : isSpace c = false) :
    (c :: s).dropWhile isSpace = c :: s := by
  rw [List.dropWhile_cons_of_neg (by simp [hc])]

/-- `stoi` on a sign and digits. -/
theorem stoi_eq {sign : ℤ} (hsign : readSign (s.dropWhile isSpace) = (sign, digits))
    (hne : digits ≠ []) (hdigits : ∀ c ∈ digits, c.isDigit = true) :
    stoi s = if -2147483648 ≤ sign * readDigits 0 digits ∧
      sign * readDigits 0 digits ≤ 2147483647 then .ok (sign * readDigits 0 digits)
      else .error .outOfRange := by
  have htake : digits.takeWhile Char.isDigit = digits := List.takeWhile_eq_self_iff.2 hdigits
  simp only [stoi, hsign, htake, hne, if_false]

/-- **`stoi` reads a decimal integer as the number it denotes**, if that fits. -/
theorem stoi_of_decimal (h : s.Decimal v) :
    stoi s = if -2147483648 ≤ v ∧ v ≤ 2147483647 then .ok v else .error .outOfRange := by
  obtain ⟨sign, digits, rfl, hne, hdigits, ⟨hsign, rfl⟩ | ⟨rfl, rfl⟩⟩ := h
  · have hread : readSign ((sign ++ digits).dropWhile isSpace) = (1, digits) := by
      obtain rfl | rfl := hsign
      · obtain ⟨c, digits, rfl⟩ := List.exists_cons_of_ne_nil hne
        have hc := hdigits c List.mem_cons_self
        rw [List.nil_append, dropWhile_isSpace (not_isSpace_of_isDigit hc)]
        exact readSign_of_isDigit hc
      · exact congrArg readSign (dropWhile_isSpace (by decide))
    rw [stoi_eq hread hne hdigits, Int.one_mul]
  · have hread : readSign ((['-'] ++ digits).dropWhile isSpace) = (-1, digits) :=
      congrArg readSign (dropWhile_isSpace (by decide))
    rw [stoi_eq hread hne hdigits, Int.neg_mul, Int.one_mul]

theorem Decimal.chars (h : s.Decimal v) {c : Char} (hc : c ∈ s) :
    c.isDigit = true ∨ c = '+' ∨ c = '-' := by
  obtain ⟨sign, digits, rfl, -, hdigits, hsign⟩ := h
  obtain hc | hc := List.mem_append.1 hc
  · obtain ⟨rfl | rfl, -⟩ | ⟨rfl, -⟩ := hsign
    · cases hc
    · exact Or.inr (Or.inl (List.mem_singleton.1 hc))
    · exact Or.inr (Or.inr (List.mem_singleton.1 hc))
  · exact Or.inl (hdigits c hc)

/-- What `stoi` reads off a decimal integer is what it denotes. -/
theorem eq_of_stoi {w : ℤ} (h : s.Decimal v) (hw : stoi s = .ok w) : w = v := by
  rw [stoi_of_decimal h] at hw
  split_ifs at hw
  cases hw
  rfl

end Text

end HnefServer
