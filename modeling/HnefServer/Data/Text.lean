import Mathlib.Data.List.TakeWhile

/-!
# C strings as lists of characters

Strings of the program are lists of characters (`Text`).  `substr` and `stoi` follow the
standard library: `substr` throws when the position lies behind the end, `stoi` skips white
space, reads an optional sign and the longest run of decimal digits, and throws when there is
no digit or the value does not fit an `int`.
-/

namespace HnefServer

/-- A string. -/
abbrev Text := List Char

namespace Text

/-- Exceptions of the string functions. -/
inductive Exn
  | invalidArgument
  | outOfRange
  deriving DecidableEq, Repr

/-- `s.substr(pos, n)`. -/
def substr (s : Text) (pos n : ℕ) : Except Exn Text :=
  if pos ≤ s.length then .ok ((s.drop pos).take n) else .error .outOfRange

/-- `std::isspace` in the C locale. -/
def isSpace (c : Char) : Bool := c == ' ' || (9 ≤ c.toNat && c.toNat ≤ 13)

/-- The value of a digit character. -/
def digitValue (c : Char) : ℤ := c.toNat - 48

/-- The number a run of digits denotes, `a` being the number read so far. -/
def readDigits (a : ℤ) : Text → ℤ
  | [] => a
  | c :: s => readDigits (10 * a + digitValue c) s

/-- The sign of a number and what follows it. -/
def readSign : Text → ℤ × Text
  | '-' :: s => (-1, s)
  | '+' :: s => (1, s)
  | s => (1, s)

/-- `std::stoi(s)`. -/
def stoi (s : Text) : Except Exn ℤ :=
  let (sign, t) := readSign (s.dropWhile isSpace)
  let digits := t.takeWhile Char.isDigit
  if digits = [] then .error .invalidArgument
  else
    let value := sign * readDigits 0 digits
    if -2147483648 ≤ value ∧ value ≤ 2147483647 then .ok value else .error .outOfRange

theorem isDigit_iff {c : Char} : c.isDigit = true ↔ 48 ≤ c.toNat ∧ c.toNat ≤ 57 := by
  simp only [Char.isDigit, Bool.and_eq_true, decide_eq_true_eq]
  exact ⟨fun ⟨h₁, h₂⟩ => ⟨h₁, h₂⟩, fun ⟨h₁, h₂⟩ => ⟨h₁, h₂⟩⟩

theorem not_isSpace_of_isDigit {c : Char} (h : c.isDigit = true) : isSpace c = false := by
  have hc := isDigit_iff.1 h
  have hne : c ≠ ' ' := by rintro rfl; simp at hc
  simp only [isSpace, Bool.or_eq_false_iff, beq_eq_false_iff_ne, Bool.and_eq_false_iff,
    decide_eq_false_iff_not]
  exact ⟨hne, Or.inr (by omega)⟩

theorem readSign_of_isDigit {c : Char} {s : Text} (h : c.isDigit = true) :
    readSign (c :: s) = (1, c :: s) := by
  have hc := isDigit_iff.1 h
  unfold readSign
  split
  · rename_i heq; cases heq; simp at hc
  · rename_i heq; cases heq; simp at hc
  · rfl

theorem digitValue_bounds {c : Char} (h : c.isDigit = true) :
    0 ≤ digitValue c ∧ digitValue c ≤ 9 := by
  have hc := isDigit_iff.1 h
  simp only [digitValue]
  omega

/-- Two digits denote the number they spell. -/
theorem stoi_two {c d : Char} (hc : c.isDigit = true) (hd : d.isDigit = true) :
    stoi [c, d] = .ok (10 * digitValue c + digitValue d) := by
  have hcb := digitValue_bounds hc
  have hdb := digitValue_bounds hd
  have hdrop : [c, d].dropWhile isSpace = [c, d] := by
    rw [List.dropWhile_cons_of_neg (by simp [not_isSpace_of_isDigit hc])]
  have htake : [c, d].takeWhile Char.isDigit = [c, d] := by
    rw [List.takeWhile_cons_of_pos hc, List.takeWhile_cons_of_pos hd, List.takeWhile_nil]
  simp only [stoi, hdrop, readSign_of_isDigit hc, htake, readDigits, reduceCtorEq, if_false]
  rw [if_pos (by omega)]
  congr 1
  omega

/-- The text of rows of one length, one after the other. -/
theorem getElem?_rows {α : Type*} {row : α → Text} {n : ℕ} (h : ∀ a, (row a).length = n)
    {as : List α} {i j : ℕ} (hj : j < n) :
    (as.flatMap row)[n * i + j]? = (as[i]?).bind fun a => (row a)[j]? := by
  induction as generalizing i with
  | nil => simp
  | cons a as ih =>
    rw [List.flatMap_cons]
    cases i with
    | zero =>
      rw [List.getElem?_append_left (by rw [h]; omega)]
      simp
    | succ i =>
      have hnext : n * (i + 1) + j - n = n * i + j := by
        rw [Nat.mul_succ]
        omega
      rw [List.getElem?_append_right (by rw [h, Nat.mul_succ]; omega), h, hnext, ih,
        List.getElem?_cons_succ]

end Text

end HnefServer
