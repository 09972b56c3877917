import Ikran.Lib.CString
import Mathlib.Data.List.TakeWhile

/-!
# Numerals at the start of a text

What `strtol` and `strtoul` make of the number a text starts with, in terms of that number itself.
-/

namespace CStr

/-- The sign and the digits of the number a text starts with, behind blanks. -/
def signedDigits (s : CStr) : Bool × CStr :=
  let (neg, t) := takeSign (s.dropWhile isSpace)
  (neg, t.takeWhile Char.isDigit)

/-- The number a text starts with, zero when there is none. -/
def numeral (s : CStr) : ℤ :=
  if (signedDigits s).1 then -(digitsVal (signedDigits s).2 : ℤ) else digitsVal (signedDigits s).2

/-- The text behind the number, or all of it when there is none. -/
def behindNumeral (s : CStr) : CStr :=
  if (signedDigits s).2 = [] then s else (takeSign (s.dropWhile isSpace)).2.dropWhile Char.isDigit

/-- The text begins with digits, and they are those of the number. -/
def NamesExactly (s : CStr) (n : ℕ) : Prop :=
  s.takeWhile Char.isDigit ≠ [] ∧ n = digitsVal (s.takeWhile Char.isDigit)

instance (s : CStr) (n : ℕ) : Decidable (NamesExactly s n) := inferInstanceAs (Decidable (_ ∧ _))

variable {s : CStr}

theorem numeral_of_nil (h : (signedDigits s).2 = []) : numeral s = 0 := by
  rw [numeral, h]
  simp [digitsVal]

theorem isEmpty_digits (s : CStr) : ((takeSign (s.dropWhile isSpace)).2.takeWhile Char.isDigit).isEmpty =
    decide ((signedDigits s).2 = []) := by
  rw [Bool.eq_iff_iff, List.isEmpty_iff, decide_eq_true_eq]
  rfl

theorem strtol_fst (s : CStr) : (strtol s).1 = max (-2 ^ 63) (min (numeral s) (2 ^ 63 - 1)) := by
  rw [strtol]
  by_cases hdigits : (signedDigits s).2 = []
  · have hempty := (isEmpty_digits s).trans (decide_eq_true hdigits)
    simp only [hempty, if_true, numeral_of_nil hdigits]
    decide
  · have hempty := (isEmpty_digits s).trans (decide_eq_false hdigits)
    simp only [hempty, Bool.false_eq_true, if_false]
    rfl

theorem strtol_snd (s : CStr) : (strtol s).2 = behindNumeral s := by
  rw [strtol, behindNumeral]
  by_cases hdigits : (signedDigits s).2 = []
  · have hempty := (isEmpty_digits s).trans (decide_eq_true hdigits)
    rw [if_pos hdigits]
    simp [hempty]
  · have hempty := (isEmpty_digits s).trans (decide_eq_false hdigits)
    rw [if_neg hdigits]
    simp only [hempty, Bool.false_eq_true, if_false]

theorem strtoul_fst (s : CStr) :
    ((strtoul s).1 : ℤ) = if 2 ^ 64 ≤ (numeral s).natAbs then 2 ^ 64 - 1 else numeral s % 2 ^ 64 := by
  rw [strtoul]
  by_cases hdigits : (signedDigits s).2 = []
  · have hempty := (isEmpty_digits s).trans (decide_eq_true hdigits)
    rw [numeral_of_nil hdigits]
    simp [hempty]
  · have hempty := (isEmpty_digits s).trans (decide_eq_false hdigits)
    simp only [hempty, Bool.false_eq_true, if_false]
    have hval : digitsVal ((takeSign (s.dropWhile isSpace)).2.takeWhile Char.isDigit) =
      digitsVal (signedDigits s).2 := rfl
    have hneg : (takeSign (s.dropWhile isSpace)).1 = (signedDigits s).1 := rfl
    rw [hval, hneg, numeral]
    cases (signedDigits s).1 with
    | false =>
      simp only [Bool.false_eq_true, if_false, Int.natAbs_natCast]
      split_ifs <;> omega
    | true =>
      simp only [if_true, Int.natAbs_neg, Int.natAbs_natCast]
      split_ifs <;> omega

theorem takeWhile_isDigit_ne_nil_iff : s.takeWhile Char.isDigit ≠ [] ↔ s.peek.isDigit = true := by
  cases s with
  | nil => exact iff_of_false (fun h => h rfl) (by decide)
  | cons c s =>
    rw [peek_cons, List.takeWhile_cons]
    cases Char.isDigit c <;> simp

theorem numeral_of_isDigit (h : s.peek.isDigit = true) : numeral s = digitsVal (s.takeWhile Char.isDigit) := by
  have hne := takeWhile_isDigit_ne_nil_iff.mpr h
  have hdigits : ∀ c ∈ s.takeWhile Char.isDigit, c.isDigit = true := fun c hc => List.mem_takeWhile_imp hc
  have hsign := takeSign_dropWhile_digits hne hdigits (s.dropWhile Char.isDigit)
  rw [List.takeWhile_append_dropWhile] at hsign
  have hsigned : signedDigits s = (false, s.takeWhile Char.isDigit) := by
    rw [signedDigits, hsign]
  rw [numeral, hsigned]
  rfl

theorem namesExactly_iff {n : ℕ} : NamesExactly s n ↔ s.peek.isDigit = true ∧ (n : ℤ) = numeral s := by
  rw [NamesExactly, takeWhile_isDigit_ne_nil_iff]
  refine and_congr_right fun h => ?_
  rw [numeral_of_isDigit h, Int.natCast_inj]

theorem numeral_nonneg (h : s.peek.isDigit = true) : 0 ≤ numeral s := by
  rw [numeral_of_isDigit h]
  exact Int.natCast_nonneg _

theorem numeral_takeWhile {p : Char → Bool} (h : s.peek.isDigit = true)
    (hp : ∀ c, Char.isDigit c = true → p c = true) : numeral (s.takeWhile p) = numeral s := by
  have htake : (s.takeWhile p).takeWhile Char.isDigit = s.takeWhile Char.isDigit := by
    rw [List.takeWhile_takeWhile]
    congr 1
    funext c
    cases hc : Char.isDigit c with
    | false => simp
    | true => simp [hp c hc]
  have hdigit : (peek (s.takeWhile p)).isDigit = true := by
    rw [← takeWhile_isDigit_ne_nil_iff, htake, takeWhile_isDigit_ne_nil_iff]
    exact h
  rw [numeral_of_isDigit hdigit, numeral_of_isDigit h, htake]

end CStr
