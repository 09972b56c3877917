import Mathlib.Algebra.Group.Int.Defs
import Mathlib.Algebra.GroupWithZero.Nat
import Mathlib.Data.List.Basic
import Mathlib.Data.Char

/-!
# C strings as character lists

A pointer into a NUL-terminated text is the list of the characters from that pointer on; every
read past the end of the list yields the terminator. A `NUL` inside the list ends the string for
every function below, as it does in C.
-/

/-- A C string: the characters from a pointer up to the terminator. -/
abbrev CStr := List Char

instance : Coe String CStr := ⟨String.toList⟩

/-- Whether all characters of a string have a property is asked of these characters, not of all there are. -/
instance (priority := 2000) (p : Char → Prop) [DecidablePred p] (s : CStr) : Decidable (∀ c ∈ s, p c) :=
  List.decidableBAll p s

namespace CStr

/-- The string terminator. -/
abbrev nul : Char := '\x00'

/-- The character under the pointer. -/
def peek : CStr → Char
  | [] => nul
  | c :: _ => c

@[simp] theorem peek_nil : peek [] = nul := rfl

@[simp] theorem peek_cons (c : Char) (s : CStr) : peek (c :: s) = c := rfl

variable {s : CStr}

theorem peek_append_of_ne_nil (hs : s ≠ []) (t : CStr) : peek (s ++ t) = peek s := by
  cases s with
  | nil => exact absurd rfl hs
  | cons c s => rfl

variable {c : Char}

theorem cons_tail_of_peek (h : s.peek = c) (hc : c ≠ nul) : s = c :: s.tail := by
  cases s with
  | nil => exact absurd h.symm hc
  | cons d s => rw [← h, peek_cons, List.tail_cons]

theorem forall_of_all {P : Char → Prop} [DecidablePred P]
    (h : s.all (fun c => decide (P c)) = true) : ∀ c ∈ s, P c := by
  intro c hc
  exact of_decide_eq_true (List.all_eq_true.mp h c hc)

/-- The suffix starting at the first character of `set`, or at the terminator. -/
def findChar (set : CStr) : CStr → CStr
  | [] => []
  | c :: s => if c = nul ∨ c ∈ set then c :: s else findChar set s

/-- The characters before the one `findChar` stops at. -/
def beforeChar (set : CStr) : CStr → CStr
  | [] => []
  | c :: s => if c = nul ∨ c ∈ set then [] else c :: beforeChar set s

theorem beforeChar_append_findChar (set s : CStr) : beforeChar set s ++ findChar set s = s := by
  induction s with
  | nil => rfl
  | cons c s ih =>
    by_cases h : c = nul ∨ c ∈ set
    · simp [beforeChar, findChar, h]
    · simp [beforeChar, findChar, h, ih]

/-- `strncasecmp (s1, s2, n) == 0`: equal up to ASCII case in the first `n` characters. -/
def strncaseEq : CStr → CStr → ℕ → Bool
  | _, _, 0 => true
  | s1, s2, n + 1 =>
    (s1.peek.toUpper == s2.peek.toUpper) &&
      (n == 0 || s1.peek == nul || s2.peek == nul || strncaseEq s1.tail s2.tail n)

/-- `strncmp (s1, s2, n) == 0`. -/
def strncmpEq : CStr → CStr → ℕ → Bool
  | _, _, 0 => true
  | s1, s2, n + 1 =>
    (s1.peek == s2.peek) && (s1.peek == nul || strncmpEq s1.tail s2.tail n)

/-- `strcasecmp (s1, s2) == 0`: equal up to ASCII case. -/
def strcaseEq (s1 s2 : CStr) : Bool := s1.map Char.toUpper == s2.map Char.toUpper

/-- `strstr`: the text from the first occurrence of the pattern on. -/
def strstr (pat : CStr) : CStr → Option CStr
  | [] => if pat = [] then some [] else none
  | c :: s => if pat.isPrefixOf (c :: s) then some (c :: s) else strstr pat s

/-- The end of a printed line. -/
def crlf : CStr := "\r\n"

/-- The text a format string with these literal parts and conversions expands to. -/
def fmt (parts : List CStr) : CStr := parts.flatten

/-! ## Searching -/

variable {pat : CStr}

theorem strstr_of_isPrefix (h : pat <+: s) : strstr pat s = some s := by
  cases s with
  | nil => rw [strstr, if_pos (List.prefix_nil.mp h)]
  | cons c s => rw [strstr, if_pos (List.isPrefixOf_iff_prefix.mpr h)]

theorem strstr_cons_of_not_isPrefix (h : ¬ pat <+: c :: s) : strstr pat (c :: s) = strstr pat s := by
  rw [strstr, if_neg (fun hpre => h (List.isPrefixOf_iff_prefix.mp hpre))]

theorem strstr_spec {u : CStr} (h : strstr pat s = some u) : pat <+: u ∧ u <:+ s := by
  induction s with
  | nil =>
    rw [strstr] at h
    split_ifs at h with hpat
    obtain rfl := Option.some.inj h
    exact ⟨hpat ▸ List.nil_prefix, List.suffix_refl _⟩
  | cons c s ih =>
    by_cases hpre : pat <+: c :: s
    · rw [strstr_of_isPrefix hpre] at h
      obtain rfl := Option.some.inj h
      exact ⟨hpre, List.suffix_refl _⟩
    · rw [strstr_cons_of_not_isPrefix hpre] at h
      obtain ⟨hpat, hsuffix⟩ := ih h
      exact ⟨hpat, hsuffix.trans (List.suffix_cons c s)⟩

theorem exists_strstr {v : CStr} (hpat : pat <+: v) (hv : v <:+ s) : ∃ u, strstr pat s = some u ∧ v <:+ u := by
  induction s with
  | nil =>
    obtain rfl := List.suffix_nil.mp hv
    exact ⟨[], strstr_of_isPrefix hpat, List.suffix_refl _⟩
  | cons c s ih =>
    by_cases hpre : pat <+: c :: s
    · exact ⟨c :: s, strstr_of_isPrefix hpre, hv⟩
    · rw [strstr_cons_of_not_isPrefix hpre]
      -- the occurrence is not at the head of the text
      rcases List.suffix_cons_iff.mp hv with rfl | hv
      · exact absurd hpat hpre
      · exact ih hv

theorem strstr_append {u : CStr} (h : strstr pat s = some u) (t : CStr) : strstr pat (s ++ t) = some (u ++ t) := by
  induction s with
  | nil =>
    obtain ⟨hpat, hu⟩ := strstr_spec h
    obtain rfl := List.suffix_nil.mp hu
    obtain rfl := List.prefix_nil.mp hpat
    exact strstr_of_isPrefix List.nil_prefix
  | cons c s ih =>
    by_cases hpre : pat <+: c :: s
    · rw [strstr_of_isPrefix hpre] at h
      obtain rfl := Option.some.inj h
      exact strstr_of_isPrefix (hpre.trans (List.prefix_append _ t))
    · rw [strstr_cons_of_not_isPrefix hpre] at h
      obtain ⟨hpat, hu⟩ := strstr_spec h
      rw [List.cons_append, strstr_cons_of_not_isPrefix, ih h]
      -- an occurrence at the head is too short to reach behind the text
      intro hlong
      refine hpre (List.prefix_of_prefix_length_le hlong (List.prefix_append (c :: s) t) ?_)
      have hlen := Nat.le_trans hpat.length_le hu.length_le
      rw [List.length_cons]
      omega

variable {t : CStr}

theorem strstr_eq_of_length_eq {u : CStr} (h : strstr pat (s ++ t) = some u)
    (hlen : u.length = pat.length + t.length) : strstr pat s = some pat := by
  obtain ⟨hpat, hu⟩ := strstr_spec h
  obtain ⟨v, rfl⟩ := hpat
  obtain rfl : v = t := by
    refine List.IsSuffix.eq_of_length ?_ (by rw [List.length_append] at hlen; omega)
    refine List.suffix_of_suffix_length_le ((List.suffix_append pat v).trans hu) (List.suffix_append s t) ?_
    rw [List.length_append] at hlen
    omega
  have hend : pat <:+ s := List.suffix_append_self_iff.mp hu
  obtain ⟨w, hw, hsuffix⟩ := exists_strstr (List.prefix_refl pat) hend
  rw [hw, hsuffix.eq_of_length]
  have happend := strstr_append hw v
  rw [h] at happend
  have hlen' := congrArg List.length (Option.some.inj happend)
  simp only [List.length_append] at hlen'
  omega

/-! ## Letters -/

theorem toUpper_cases (c : Char) : c.toUpper = c ∨ (c.toUpper.toNat + 32 = c.toNat ∧ 97 ≤ c.toNat ∧ c.toNat ≤ 122) := by
  unfold Char.toUpper
  split
  · rename_i h
    right
    simp only [Char.toNat, UInt32.le_iff_toNat_le] at h ⊢
    obtain ⟨h1, h2⟩ := h
    have ha : ('a'.val).toNat = 97 := rfl
    have hz : ('z'.val).toNat = 122 := rfl
    rw [ha] at h1
    rw [hz] at h2
    refine ⟨?_, h1, h2⟩
    have hd : ('A'.val - 'a'.val).toNat = 4294967264 := rfl
    rw [UInt32.toNat_add, hd]
    omega
  · exact .inl rfl

theorem eq_nul_of_toUpper_eq (h : c.toUpper = nul) : c = nul := by
  rcases toUpper_cases c with heq | ⟨hnum, hge, -⟩
  · exact heq ▸ h
  · rw [h] at hnum
    have hnul : nul.toNat = 0 := rfl
    omega

/-- Every character of a text that is equal up to case to the front of `s` stands in `s`, up to its
case. -/
theorem exists_toUpper_eq {k : ℕ} (ht : ∀ c ∈ t, c.toUpper ≠ nul)
    (hk : t.length ≤ k) (h : strncaseEq s t k = true) (hc : c ∈ t) :
    ∃ d ∈ s, d.toUpper = c.toUpper := by
  induction t generalizing s k with
  | nil => cases hc
  | cons e t ih =>
    have he := ht e List.mem_cons_self
    obtain ⟨k, rfl⟩ := Nat.exists_eq_succ_of_ne_zero (Nat.ne_zero_of_lt hk)
    rw [strncaseEq, Bool.and_eq_true, beq_iff_eq, peek_cons] at h
    obtain ⟨hpeek, hrest⟩ := h
    cases s with
    | nil => exact absurd hpeek.symm he
    | cons d s =>
      rcases List.mem_cons.mp hc with rfl | hc
      · exact ⟨d, List.mem_cons_self, hpeek⟩
      have hd : d ≠ nul := by
        rintro rfl
        exact he hpeek.symm
      have henul : e ≠ nul := by
        rintro rfl
        exact he rfl
      have hlen : t.length ≤ k := Nat.le_of_succ_le_succ hk
      have hkpos : k ≠ 0 := fun hzero => by
        rw [hzero] at hlen
        rw [List.eq_nil_of_length_eq_zero (Nat.le_zero.mp hlen)] at hc
        cases hc
      simp only [Bool.or_eq_true, beq_iff_eq, peek_cons, List.tail_cons, hd, henul, hkpos, or_false, false_or] at hrest
      obtain ⟨d', hd', hupper⟩ := ih (fun c hc => ht c (List.mem_cons_of_mem _ hc)) hlen hrest hc
      exact ⟨d', List.mem_cons_of_mem _ hd', hupper⟩

theorem strncaseEq_iff (ht : nul ∉ t) :
    strncaseEq s t t.length = true ↔ (s.take t.length).map Char.toUpper = t.map Char.toUpper := by
  induction t generalizing s with
  | nil => simp [strncaseEq]
  | cons d t ih =>
    simp only [List.mem_cons, not_or] at ht
    have hd : d.toUpper ≠ nul := fun heq => ht.1 (eq_nul_of_toUpper_eq heq).symm
    cases s with
    | nil =>
      have hne : nul.toUpper ≠ d.toUpper := fun heq => hd heq.symm
      simp [strncaseEq, hne]
    | cons c s =>
      simp only [List.length_cons, strncaseEq, peek_cons, List.tail_cons, Bool.and_eq_true,
        beq_iff_eq, Bool.or_eq_true, List.take_succ_cons, List.map_cons, List.cons.injEq, ih ht.2]
      refine and_congr_right fun hupper => ?_
      have hc : c ≠ nul := by
        rintro rfl
        exact hd hupper.symm
      constructor
      · rintro (((hzero | hnul) | hnul) | hrest)
        · rw [List.length_eq_zero_iff.mp hzero]
          rfl
        · exact absurd hnul hc
        · exact absurd hnul.symm ht.1
        · exact hrest
      · exact .inr

theorem length_le_of_strncaseEq (ht : ∀ c ∈ t, c.toUpper ≠ nul)
    (h : strncaseEq s t t.length = true) : t.length ≤ s.length := by
  have hnul : nul ∉ t := fun hmem => ht nul hmem rfl
  have hlen := congrArg List.length ((strncaseEq_iff hnul).mp h)
  rw [List.length_map, List.length_map, List.length_take] at hlen
  omega

theorem strncaseEq_append (ht : nul ∉ t) (hs : s.length = t.length) (r : CStr) :
    strncaseEq (s ++ r) t t.length = strncaseEq s t t.length := by
  rw [Bool.eq_iff_iff, strncaseEq_iff ht, strncaseEq_iff ht, List.take_left' hs,
    List.take_of_length_le (Nat.le_of_eq hs)]

theorem strncaseEq_append_of_peek {r : CStr} (ht : nul ∉ t) (hr : r.peek.toUpper ∉ t.map Char.toUpper) :
    strncaseEq (s ++ r) t t.length = strncaseEq s t t.length := by
  rw [Bool.eq_iff_iff, strncaseEq_iff ht, strncaseEq_iff ht]
  rcases Nat.lt_or_ge s.length t.length with hlt | hge
  · refine iff_of_false (fun heq => ?_) fun heq => ?_
    · cases r with
      | nil =>
        rw [List.append_nil, List.take_of_length_le (Nat.le_of_lt hlt)] at heq
        have hlength := congrArg List.length heq
        rw [List.length_map, List.length_map] at hlength
        omega
      | cons c r =>
        -- the first character behind `s` would be compared with one of `t`
        refine hr ?_
        rw [peek_cons, ← heq]
        refine List.mem_map_of_mem (List.mem_take_iff_getElem.mpr ⟨s.length, ?_, ?_⟩)
        · rw [List.length_append, List.length_cons]
          omega
        · simp
    · rw [List.take_of_length_le (Nat.le_of_lt hlt)] at heq
      have hlength := congrArg List.length heq
      rw [List.length_map, List.length_map] at hlength
      omega
  · rw [List.take_append_of_le_length hge]

theorem strncmpEq_iff (ht : nul ∉ t) : strncmpEq s t t.length = true ↔ t <+: s := by
  induction t generalizing s with
  | nil => simp [strncmpEq]
  | cons d t ih =>
    simp only [List.mem_cons, not_or] at ht
    rw [List.length_cons, strncmpEq, Bool.and_eq_true, beq_iff_eq, peek_cons, Bool.or_eq_true,
      beq_iff_eq, List.tail_cons, ih ht.2]
    cases s with
    | nil => simp [ht.1]
    | cons c s =>
      rw [peek_cons, List.tail_cons, List.cons_prefix_cons]
      constructor
      · rintro ⟨rfl, hnul | hrest⟩
        · exact absurd hnul.symm ht.1
        · exact ⟨rfl, hrest⟩
      · rintro ⟨rfl, hrest⟩
        exact ⟨rfl, Or.inr hrest⟩

/-- `strtok`: the next piece, and the text behind the delimiter that ends it. -/
def strtok (delim s : CStr) : Option (CStr × CStr) :=
  match s.dropWhile (· ∈ delim) with
  | [] => none
  | t => some (t.takeWhile (· ∉ delim), (t.dropWhile (· ∉ delim)).tail)

/-- All the pieces `strtok` finds. -/
def strtokAll (delim s : CStr) : List CStr := (s.splitOnP (· ∈ delim)).filter (· ≠ [])

/-- What is left of the text in place when `strtok` has written a terminator behind the first
piece. -/
def strtokCut (delim s : CStr) : CStr :=
  s.takeWhile (· ∈ delim) ++ (s.dropWhile (· ∈ delim)).takeWhile (· ∉ delim)

/-! ## Decimal numbers -/

/-- The text `printf` writes for `%u`. -/
def decimal (n : ℕ) : CStr := Nat.toDigits 10 n

/-- The text `printf` writes for `%d`. -/
def decimalInt : ℤ → CStr
  | .ofNat n => decimal n
  | .negSucc n => '-' :: decimal (n + 1)

def digitsVal (s : CStr) : ℕ := Nat.ofDigitChars 10 s 0

theorem digitsVal_lt (hs : ∀ c ∈ s, c.isDigit = true) : digitsVal s < 10 ^ s.length := by
  induction s with
  | nil => decide
  | cons c s ih =>
    obtain ⟨hc, hs⟩ := List.forall_mem_cons.mp hs
    have hrest := ih hs
    have hdigit : c.toNat - '0'.toNat ≤ 9 := by
      have hle : c.toNat ≤ '9'.toNat := by
        rw [Char.isDigit, Bool.and_eq_true, decide_eq_true_eq, decide_eq_true_eq] at hc
        exact hc.2
      have hnine : '9'.toNat = '0'.toNat + 9 := rfl
      omega
    have hsplit : digitsVal (c :: s) = 10 ^ s.length * (c.toNat - '0'.toNat) + digitsVal s := by
      rw [digitsVal, Nat.ofDigitChars_cons, Nat.ofDigitChars_eq_ofDigitChars_zero, Nat.mul_zero,
        Nat.zero_add, digitsVal]
    have hmul : 10 ^ s.length * (c.toNat - '0'.toNat) ≤ 10 ^ s.length * 9 := Nat.mul_le_mul_left _ hdigit
    rw [hsplit, List.length_cons, Nat.pow_succ]
    omega

theorem decimal_ne_nil (n : ℕ) : decimal n ≠ [] := Nat.toDigits_ne_nil

theorem isDigit_of_mem_decimal {n : ℕ} (hc : c ∈ decimal n) : c.isDigit :=
  Nat.isDigit_of_mem_toDigits (by decide) (by decide) hc

@[simp] theorem digitsVal_decimal (n : ℕ) : digitsVal (decimal n) = n := by
  simp [digitsVal, decimal, Nat.ofDigitChars_toDigits]

theorem takeWhile_isDigit_decimal_append (n : ℕ) (hs : s.peek.isDigit = false) :
    (decimal n ++ s).takeWhile Char.isDigit = decimal n := by
  have hdigits : ∀ c ∈ decimal n, Char.isDigit c = true := fun c hc => isDigit_of_mem_decimal hc
  rw [List.takeWhile_append_of_pos hdigits]
  cases s with
  | nil => simp
  | cons c s => simp_all

theorem decimal_append_inj {m n : ℕ} (hs : s.peek.isDigit = false)
    (ht : t.peek.isDigit = false) : decimal m ++ s = decimal n ++ t ↔ m = n ∧ s = t := by
  refine ⟨fun h => ?_, fun ⟨hmn, hst⟩ => by rw [hmn, hst]⟩
  have htake : decimal m = decimal n := by
    rw [← takeWhile_isDigit_decimal_append m hs, h, takeWhile_isDigit_decimal_append n ht]
  have hmn : m = n := by rw [← digitsVal_decimal m, htake, digitsVal_decimal]
  subst hmn
  exact ⟨rfl, List.append_cancel_left h⟩

theorem append_decimal_inj {m n : ℕ} (hc : c.isDigit = false) :
    s ++ c :: decimal m = t ++ c :: decimal n ↔ s = t ∧ m = n := by
  refine ⟨fun h => ?_, fun ⟨hst, hmn⟩ => by rw [hst, hmn]⟩
  have htake : ∀ (k : ℕ) (u : CStr), ((u ++ c :: decimal k).reverse).takeWhile Char.isDigit = (decimal k).reverse := by
    intro k u
    have hdigits : ∀ d ∈ (decimal k).reverse, Char.isDigit d = true :=
      fun d hd => isDigit_of_mem_decimal (List.mem_reverse.mp hd)
    simp [List.takeWhile_append_of_pos hdigits, hc]
  have hdec : decimal m = decimal n := by
    rw [← List.reverse_inj, ← htake m s, ← htake n t, h]
  have hmn : m = n := by rw [← digitsVal_decimal m, hdec, digitsVal_decimal]
  subst hmn
  exact ⟨List.append_cancel_right h, rfl⟩

theorem length_decimal_le {n k : ℕ} (hk : 0 < k) (hn : n < 10 ^ k) : (decimal n).length ≤ k :=
  (Nat.length_toDigits_le_iff (by decide) hk).mpr hn

/-- `isspace` in the C locale. -/
def isSpace (c : Char) : Bool := c ∈ [' ', '\t', '\n', '\x0b', '\x0c', '\r']

/-- The optional sign of a number: whether it is negative, and the text after it. -/
def takeSign : CStr → Bool × CStr
  | '-' :: s => (true, s)
  | '+' :: s => (false, s)
  | s => (false, s)

/-- `strtol (s, &end, 10)` on a 64-bit `long`: the clamped value and the text at `end`. -/
def strtol (s : CStr) : ℤ × CStr :=
  let (neg, t) := takeSign (s.dropWhile isSpace)
  let digits := t.takeWhile Char.isDigit
  if digits.isEmpty then (0, s)
  else
    let v : ℤ := if neg then -(digitsVal digits : ℤ) else digitsVal digits
    (max (-2 ^ 63) (min v (2 ^ 63 - 1)), t.dropWhile Char.isDigit)

/-- `strtoul (s, &end, 10)` on a 64-bit `unsigned long`: the value, saturated to `ULONG_MAX`, and
the text at `end`. A minus sign negates modulo `2 ^ 64`. -/
def strtoul (s : CStr) : ℕ × CStr :=
  let (neg, t) := takeSign (s.dropWhile isSpace)
  let digits := t.takeWhile Char.isDigit
  if digits.isEmpty then (0, s)
  else
    let v := digitsVal digits
    let r := if 2 ^ 64 ≤ v then 2 ^ 64 - 1 else if neg then (2 ^ 64 - v) % 2 ^ 64 else v
    (r, t.dropWhile Char.isDigit)

/-- `atoi`: the low 32 bits of `strtol`, read as a signed integer. -/
def atoi (s : CStr) : ℤ := (strtol s).1.bmod (2 ^ 32)

theorem takeSign_dropWhile_digits {v : CStr} (hne : v ≠ []) (hv : ∀ c ∈ v, c.isDigit = true)
    (s : CStr) : takeSign ((v ++ s).dropWhile isSpace) = (false, v ++ s) := by
  obtain ⟨c, v, rfl⟩ := List.exists_cons_of_ne_nil hne
  have hc := hv c List.mem_cons_self
  have hspace : isSpace c = false := by
    by_contra hsp
    simp only [Bool.not_eq_false, isSpace, List.mem_cons, List.not_mem_nil, or_false, decide_eq_true_eq] at hsp
    rcases hsp with rfl | rfl | rfl | rfl | rfl | rfl <;> exact absurd hc (by decide)
  rw [List.cons_append, List.dropWhile_cons, hspace]
  have hminus : c ≠ '-' := by
    rintro rfl
    exact absurd hc (by decide)
  have hplus : c ≠ '+' := by
    rintro rfl
    exact absurd hc (by decide)
  simp [takeSign, hminus, hplus]

theorem strtol_digits {v : CStr} (hne : v ≠ []) (hv : ∀ c ∈ v, c.isDigit = true) (hs : s.peek.isDigit = false) :
    strtol (v ++ s) = (min (digitsVal v : ℤ) (2 ^ 63 - 1), s) := by
  have htake : (v ++ s).takeWhile Char.isDigit = v := by
    rw [List.takeWhile_append_of_pos hv]
    cases s with
    | nil => simp
    | cons c s => simp_all
  have hdrop : (v ++ s).dropWhile Char.isDigit = s := by
    rw [List.dropWhile_append_of_pos hv]
    cases s with
    | nil => rfl
    | cons c s => simp_all
  have hempty : v.isEmpty = false := by simpa using hne
  simp only [strtol, takeSign_dropWhile_digits hne hv, htake, hdrop, hempty, Bool.false_eq_true, if_false]
  congr 1
  omega

theorem atoi_digits {v : CStr} (hne : v ≠ []) (hv : ∀ c ∈ v, c.isDigit = true)
    (hlt : digitsVal v < 2 ^ 31) : atoi v = digitsVal v := by
  have hval := strtol_digits (s := []) hne hv rfl
  rw [List.append_nil] at hval
  rw [atoi, hval, Int.bmod_eq_of_le_mul_two] <;> omega

theorem atoi_lt (s : CStr) : atoi s < 2 ^ 31 := by
  have hlt := Int.bmod_lt (x := (strtol s).1) (m := 2 ^ 32) (by decide)
  rw [atoi]
  omega

end CStr
