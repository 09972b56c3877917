import Ikran.Lib.Words
import Ikran.Sdp.Utils
import Mathlib.Data.List.TakeWhile

/-!
# Numeric tokens

The loop of `sdp_getnextnumtok` adds digit by digit in 32 bits, over a token that ends behind `SDP_MAX_STRING_LEN`
characters.
-/

namespace Sdp

open CStr Line

/-- The loop that converts a token: the value, and whether all characters are digits. -/
def convert (numval : UInt32) : CStr → UInt32 × Bool
  | [] => (numval, true)
  | c :: tok =>
    if c.isDigit then convert (numval * 10 + UInt32.ofNat (c.toNat - '0'.toNat)) tok else (numval, false)

/-- `sdp_getnextnumtok`: the value on success, and `str_end`. -/
def sdpGetnextnumtok (delim str : CStr) : Option UInt32 × CStr :=
  match token delim maxStringLen str with
  | (none, strEnd) => (none, strEnd)
  | (some tmp, strEnd) => (if (convert 0 tmp).2 then some (convert 0 tmp).1 else none, strEnd)

/-- `sdp_getnextnumtok_or_null`: the value and `null_ind` on success, and `str_end`. -/
def sdpGetnextnumtokOrNull (delim str : CStr) : Option (UInt32 × Bool) × CStr :=
  match token delim maxStringLen str with
  | (none, strEnd) => (none, strEnd)
  | (some tmp, strEnd) =>
    if peek tmp = '-' then (some (0, true), strEnd)
    else (if (convert 0 tmp).2 then some ((convert 0 tmp).1, false) else none, strEnd)

theorem convert_ofNat (n : ℕ) (tok : CStr) : convert (UInt32.ofNat n) tok =
    (UInt32.ofNat (Nat.ofDigitChars 10 (tok.takeWhile Char.isDigit) n), tok.all Char.isDigit) := by
  induction tok generalizing n with
  | nil => rfl
  | cons c tok ih =>
    by_cases hc : c.isDigit = true
    · rw [convert, if_pos hc, List.takeWhile_cons_of_pos hc, List.all_cons, hc, Bool.true_and, Nat.ofDigitChars_cons,
        ← ih, UInt32.ofNat_add, UInt32.ofNat_mul, UInt32.mul_comm]
      rfl
    · rw [convert, if_neg hc, List.takeWhile_cons_of_neg hc, List.all_cons, Bool.eq_false_iff.mpr hc, Bool.false_and]
      rfl

theorem convert_eq (tok : CStr) : convert 0 tok = numVal tok := convert_ofNat 0 tok

/-! ## The value -/

/-- A value that is returned for a text is that of the digits in front of the pointer, and numerals that are too large
or too long are refused. -/
structure NumTokRight (delim s : CStr) (result : Option UInt32) (strEnd : CStr) : Prop where
  value : ∀ v ∈ result, ∃ tok, skipDelims delim s = tok ++ strEnd ∧ tok ≠ [] ∧ (∀ c ∈ tok, c.isDigit = true) ∧
    v.toNat = digitsVal tok
  refused : (∀ c ∈ word delim s, c.isDigit = true) →
    2 ^ 32 ≤ digitsVal (word delim s) ∨ maxStringLen < (word delim s).length → result = none

/-- The digits that are read fit in 32 bits, and a numeral fits in the buffer. -/
def FitsNumval (delim s : CStr) : Prop :=
  (∀ c ∈ (word delim s).take maxStringLen, c.isDigit = true) →
    digitsVal ((word delim s).take maxStringLen) < 2 ^ 32 ∧
      ((∀ c ∈ word delim s, c.isDigit = true) → (word delim s).length ≤ maxStringLen)

theorem numTokRight_none {delim s strEnd : CStr} : NumTokRight delim s none strEnd := ⟨by simp, fun _ _ => rfl⟩

theorem numTokRight_convert_iff {delim s : CStr} (hword : word delim s ≠ []) : NumTokRight delim s
      (if (convert 0 ((word delim s).take maxStringLen)).2
        then some (convert 0 ((word delim s).take maxStringLen)).1 else none) (behind delim s maxStringLen) ↔
      FitsNumval delim s := by
  rw [convert_eq, numVal]
  dsimp only
  by_cases hdigits : ((word delim s).take maxStringLen).all Char.isDigit = true
  case neg =>
    rw [if_neg hdigits]
    exact iff_of_true numTokRight_none fun hall => absurd (List.all_eq_true.mpr hall) hdigits
  have hall := List.all_eq_true.mp hdigits
  rw [if_pos hdigits, FitsNumval, imp_iff_right hall, List.takeWhile_eq_self_iff.mpr hall]
  have hsplit : skipDelims delim s = (word delim s).take maxStringLen ++ behind delim s maxStringLen := by
    have hfront : word delim s = (skipDelims delim s).take (word delim s).length :=
      List.prefix_iff_eq_take.mp (List.takeWhile_prefix _)
    have htake : (word delim s).take maxStringLen =
        (skipDelims delim s).take (min maxStringLen (word delim s).length) := by
      rw [← List.take_take, ← hfront]
    rw [htake, behind, List.take_append_drop]
  have hne : (word delim s).take maxStringLen ≠ [] := by
    rw [Ne, List.take_eq_nil_iff, not_or]
    exact ⟨by decide, hword⟩
  constructor
  · rintro ⟨hvalue, hrefused⟩
    obtain ⟨tok, htok, -, -, hval⟩ := hvalue _ rfl
    rw [hsplit, List.append_left_inj] at htok
    subst htok
    rw [UInt32.toNat_ofNat'] at hval
    refine ⟨?_, fun hdig => ?_⟩
    · rw [← hval]
      exact Nat.mod_lt _ (by decide)
    · by_contra hlong
      cases hrefused hdig (.inr (Nat.not_le.mp hlong))
  · rintro ⟨hlt, hlong⟩
    refine ⟨fun v hv => ⟨_, hsplit, hne, hall, ?_⟩, fun hdig hbig => ?_⟩
    · obtain rfl := Option.some.inj hv
      exact Nat.mod_eq_of_lt hlt
    · rw [List.take_of_length_le (hlong hdig)] at hlt
      have hle := hlong hdig
      omega

/-- **Numeric tokens mean what they say** exactly when the digits that are read fit in 32 bits, and no numeral is
longer than the buffer. -/
theorem numTok_right_iff (delim s : CStr) :
    (NumTokRight delim s (sdpGetnextnumtok delim s).1 (sdpGetnextnumtok delim s).2 ↔ FitsNumval delim s) ∧
      (NumTokRight delim s (((sdpGetnextnumtokOrNull delim s).1.filter (! ·.2)).map Prod.fst)
        (sdpGetnextnumtokOrNull delim s).2 ↔ FitsNumval delim s) := by
  rw [sdpGetnextnumtok, sdpGetnextnumtokOrNull, token_eq]
  by_cases hword : word delim s = []
  · have hfits : FitsNumval delim s := by
      rw [FitsNumval, hword]
      exact fun _ => ⟨by decide, fun _ => by decide⟩
    rw [if_pos hword]
    exact ⟨iff_of_true numTokRight_none hfits, iff_of_true numTokRight_none hfits⟩
  rw [if_neg hword]
  refine ⟨numTokRight_convert_iff hword, ?_⟩
  dsimp only
  by_cases hnull : peek ((word delim s).take maxStringLen) = '-'
  · rw [if_pos hnull]
    refine iff_of_true numTokRight_none fun hall => ?_
    cases hfirst : (word delim s).take maxStringLen with
    | nil => exact absurd (List.take_eq_nil_iff.mp hfirst) (by simp [hword, maxStringLen])
    | cons c r =>
      rw [hfirst, peek_cons] at hnull
      have hdigit := hall c (by rw [hfirst]; exact List.mem_cons_self)
      rw [hnull] at hdigit
      cases hdigit
  · rw [if_neg hnull]
    refine Iff.trans (iff_of_eq (congrArg (NumTokRight delim s · _) ?_)) (numTokRight_convert_iff hword)
    dsimp only
    split_ifs <;> rfl

/-- The number 2³² is returned as zero. -/
theorem not_numTokRight_wrap :
    ¬ NumTokRight [' '] "4294967296" (sdpGetnextnumtok [' '] "4294967296").1
      (sdpGetnextnumtok [' '] "4294967296").2 := by
  rintro ⟨-, hrefused⟩
  have hnone := hrefused (by decide) (.inl (by decide))
  exact absurd hnone (by decide)

end Sdp
