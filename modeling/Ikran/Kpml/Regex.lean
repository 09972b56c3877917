import Ikran.Lib.Pointer
import Mathlib.Data.Fin.Basic
import Mathlib.Data.Nat.Bitwise
import Mathlib.Tactic.IntervalCases

/-!
# Key patterns

The regular expressions of `kpml_common_util.c`, each of which stands for one key: a character, a range of
digits, or a selection of characters.

A byte is read through a pointer into the text, and a read behind the terminator gives `none`. The text has no
terminator inside; the parameters are not `NULL`.
-/

namespace Kpml

open CStr

inductive Key
  | digit (n : Fin 10)
  | star | pound | a | b | c | d | plus
  deriving DecidableEq

namespace Key

/-- The number of the bit that stands for the key. -/
def bit : Key → ℕ
  | digit n => n
  | star => 10
  | pound => 11
  | a => 12
  | b => 13
  | c => 14
  | d => 15
  | plus => 16

def char : Key → Char
  | digit n => Char.ofNat ('0'.toNat + n)
  | star => '*'
  | pound => '#'
  | a => 'A'
  | b => 'B'
  | c => 'C'
  | d => 'D'
  | plus => '+'

theorem bit_inj {k k' : Key} (h : k.bit = k'.bit) : k = k' := by
  cases k <;> cases k' <;> simp only [bit] at h <;> first | rfl | (exact congrArg digit (Fin.ext h)) | omega

theorem bit_lt (k : Key) : k.bit < 17 := by
  cases k <;> simp only [bit] <;> omega

/-- `REGEX_0` to `REGEX_PLUS`. -/
def regex (k : Key) : BitVec 64 := 1#64 <<< k.bit

end Key

def regex09 : BitVec 64 :=
  (Key.digit 0).regex ||| (Key.digit 1).regex ||| (Key.digit 2).regex ||| (Key.digit 3).regex |||
    (Key.digit 4).regex ||| (Key.digit 5).regex ||| (Key.digit 6).regex ||| (Key.digit 7).regex |||
    (Key.digit 8).regex ||| (Key.digit 9).regex

/-! ## The parser -/

/-- `kpml_status_type_t`, as far as the parser returns it. -/
inductive KpmlStatus
  | statusOk | errorInvalidValue
  deriving DecidableEq

/-- The key that a character of a regular expression stands for. -/
def charKey : Char → Option Key
  | '1' => some (.digit 1)
  | '2' => some (.digit 2)
  | '3' => some (.digit 3)
  | '4' => some (.digit 4)
  | '5' => some (.digit 5)
  | '6' => some (.digit 6)
  | '7' => some (.digit 7)
  | '8' => some (.digit 8)
  | '9' => some (.digit 9)
  | '0' => some (.digit 0)
  | '*' => some .star
  | '#' => some .pound
  | 'A' | 'a' => some .a
  | 'B' | 'b' => some .b
  | 'C' | 'c' => some .c
  | 'D' | 'd' => some .d
  | '+' => some .plus
  | _ => none

def addCharToBitmask (character : Char) (bitmask : BitVec 64) : KpmlStatus × BitVec 64 :=
  if character = 'x' ∨ character = 'X' then (.statusOk, bitmask ||| regex09)
  else
    match charKey character with
    | some k => (.statusOk, bitmask ||| k.regex)
    | none => (.errorInvalidValue, bitmask)

def handleRangeSelector (str : CStr) (bitmask : BitVec 64) : Option (KpmlStatus × BitVec 64) := do
  let charPtr := Ptr.add (some str) 1
  let firstDigit := atoi [← charPtr.load]
  let charPtr := charPtr.add 1
  if (← charPtr.load) = '-' then
    let charPtr := charPtr.add 1
    let lastDigit := atoi [← charPtr.load]
    let charPtr := charPtr.add 1
    if (← charPtr.load) ≠ ']' then return (.errorInvalidValue, bitmask)
    else if firstDigit > lastDigit then return (.errorInvalidValue, bitmask)
    else
      let firstShifted := regex09 <<< firstDigit.toNat
      let lastShifted := regex09.sshiftRight (9 - lastDigit).toNat
      return (.statusOk, bitmask ||| (firstShifted &&& lastShifted))
  else return (.errorInvalidValue, bitmask)

/-- The loop that adds each character to the bitmask, up to a bracket at the end. -/
def addChars : CStr → BitVec 64 → KpmlStatus × BitVec 64
  | [], bitmask => (.statusOk, bitmask)
  | c :: s, bitmask =>
    if c ≠ ']' then
      match addCharToBitmask c bitmask with
      | (.statusOk, bitmask) => addChars s bitmask
      | (rc, bitmask) => (rc, bitmask)
    else if s ≠ [] then (.errorInvalidValue, bitmask)
    else (.statusOk, bitmask)

def kpmlDefaultDtmfRegex : CStr := ['[', 'x', '*', '#', 'A', 'B', 'C', 'D', ']']

def handleCharacterSelector (str : CStr) (bitmask : BitVec 64) : KpmlStatus × BitVec 64 :=
  if strcaseEq str kpmlDefaultDtmfRegex then
    (.statusOk, bitmask ||| (regex09 ||| Key.star.regex ||| Key.pound.regex |||
      Key.a.regex ||| Key.b.regex ||| Key.c.regex ||| Key.d.regex))
  else
    let negativeSelector : Bool := peek str.tail = '^'
    match addChars (if negativeSelector then str.tail.tail else str.tail) 0 with
    | (.statusOk, tempBitmask) =>
      (.statusOk, bitmask ||| if negativeSelector then ~~~tempBitmask &&& regex09 else tempBitmask)
    | (rc, _) => (rc, bitmask)

/-- `kpml_parse_regex_str`: the status, and `single_digit_bitmask`. `num_digits` is 1. -/
def kpmlParseRegexStr (regexStr : CStr) : Option (KpmlStatus × BitVec 64) :=
  if regexStr.length = 1 then some (addCharToBitmask regexStr.peek 0)
  else do
    if (← (Ptr.add (some regexStr) 1).load) = '{' then
      if strncmpEq regexStr.tail ['{', '1', '}'] 3 || strncmpEq regexStr.tail ['{', '1', ',', '1', '}'] 5 then
        return addCharToBitmask regexStr.peek 0
      else return (.errorInvalidValue, 0)
    else if regexStr.peek = '[' then
      if '-' ∈ regexStr then handleRangeSelector regexStr 0
      else return handleCharacterSelector regexStr 0
    else return (.errorInvalidValue, 0)

/-- The key that a character stands for which was dialed. -/
def inputKey : Char → Option Key
  | '1' => some (.digit 1)
  | '2' => some (.digit 2)
  | '3' => some (.digit 3)
  | '4' => some (.digit 4)
  | '5' => some (.digit 5)
  | '6' => some (.digit 6)
  | '7' => some (.digit 7)
  | '8' => some (.digit 8)
  | '9' => some (.digit 9)
  | '0' => some (.digit 0)
  | '*' => some .star
  | '#' => some .pound
  | 'A' => some .a
  | 'B' => some .b
  | 'C' => some .c
  | 'D' => some .d
  | '+' => some .plus
  | _ => none

/-- `kpml_match_requested_digit`, which looks at the low 32 bits of the bitmask. -/
def kpmlMatchRequestedDigit (singleDigitBitmask : BitVec 64) (input : Char) : Bool :=
  (inputKey input).any fun k => singleDigitBitmask.setWidth 32 &&& k.regex.setWidth 32 ≠ 0

/-- A character of a regular expression. -/
def IsRegexChar (c : Char) : Prop := c = 'x' ∨ c = 'X' ∨ (charKey c).isSome

/-- The keys that a character denotes: an `x` denotes all digits. -/
def CharDenotes (c : Char) (k : Key) : Prop := ((c = 'x' ∨ c = 'X') ∧ ∃ n, k = .digit n) ∨ charKey c = some k

inductive Form
  | char (c : Char)
  | range (first last : Char)
  | chars (cs : CStr)
  | notChars (cs : CStr)

def Form.Text (s : CStr) : Form → Prop
  | .char c => IsRegexChar c ∧ (s = [c] ∨ s = [c, '{', '1', '}'] ∨ s = [c, '{', '1', ',', '1', '}'])
  | .range first last =>
    first.isDigit ∧ last.isDigit ∧ first.toNat ≤ last.toNat ∧ s = ['[', first, '-', last, ']']
  | .chars cs => (∀ c ∈ cs, IsRegexChar c) ∧ s = '[' :: (cs ++ [']'])
  | .notChars cs => (∀ c ∈ cs, IsRegexChar c) ∧ s = '[' :: '^' :: (cs ++ [']'])

def Form.Denotes (k : Key) : Form → Prop
  | .char c => CharDenotes c k
  | .range first last => ∃ n, k = .digit n ∧ first.toNat ≤ '0'.toNat + n ∧ '0'.toNat + n ≤ last.toNat
  | .chars cs => ∃ c ∈ cs, CharDenotes c k
  | .notChars cs => (∃ n, k = .digit n) ∧ ∀ c ∈ cs, ¬CharDenotes c k

/-- The bitmask has the bits of the given keys. -/
def Holds (m : BitVec 64) (P : Key → Prop) : Prop := ∀ i, m.getLsbD i = true ↔ ∃ k, k.bit = i ∧ P k

/-- The parser reads no byte behind the terminator, accepts the text when it is a documented form, and then the
bitmask is made up of its keys, which are the ones that are matched. -/
def Exact (s : CStr) : Prop :=
  ∃ rc m, kpmlParseRegexStr s = some (rc, m) ∧ (rc = .statusOk ↔ ∃ f, Form.Text s f) ∧
    ∀ f, Form.Text s f →
      Holds m (fun k => Form.Denotes k f) ∧
        ∀ input, kpmlMatchRequestedDigit m input = true ↔ ∃ k : Key, k.char = input ∧ Form.Denotes k f

/-- What `atoi` makes of one character. -/
def digitValue (c : Char) : ℕ := if c.isDigit then c.toNat - '0'.toNat else 0

/-- The texts that the parser does not take as documented. -/
inductive Misread : CStr → Prop
  | empty : Misread []
  | once {c : Char} {rest : CStr} : IsRegexChar c → rest ≠ [] → Misread (c :: '{' :: '1' :: '}' :: rest)
  | onceOnce {c : Char} {rest : CStr} :
      IsRegexChar c → rest ≠ [] → Misread (c :: '{' :: '1' :: ',' :: '1' :: '}' :: rest)
  | openRange {c : Char} : c ≠ '{' → Misread ['[', c, '-']
  | range {first last : Char} {rest : CStr} :
      first ≠ '{' → digitValue first ≤ digitValue last → ¬(first.isDigit ∧ last.isDigit ∧ rest = []) →
      Misread ('[' :: first :: '-' :: last :: ']' :: rest)
  | chars {cs : CStr} : cs ≠ [] → (∀ c ∈ cs, IsRegexChar c) → Misread ('[' :: cs)
  | notChars {cs : CStr} : (∀ c ∈ cs, IsRegexChar c) → Misread ('[' :: '^' :: cs)

/-! ## Bits -/

theorem getLsbD_regex (k : Key) (i : ℕ) : k.regex.getLsbD i = true ↔ i = k.bit := by
  have hlt := k.bit_lt
  simp only [Key.regex, BitVec.getLsbD_shiftLeft, BitVec.getLsbD_one, Bool.and_eq_true, Bool.not_eq_true',
    decide_eq_true_eq, decide_eq_false_iff_not]
  omega

theorem regex09_eq : regex09 = BitVec.ofNat 64 (2 ^ 10 - 1) := by decide

theorem getLsbD_regex09 (i : ℕ) : regex09.getLsbD i = true ↔ i < 10 := by
  rw [regex09_eq, BitVec.getLsbD_ofNat, Bool.and_eq_true, Nat.testBit_two_pow_sub_one, decide_eq_true_eq,
    decide_eq_true_eq]
  omega

theorem exists_digit_iff {i : ℕ} : (∃ k : Key, k.bit = i ∧ ∃ n, k = .digit n) ↔ i < 10 := by
  constructor
  · rintro ⟨_, rfl, n, rfl⟩
    exact n.isLt
  · intro hi
    exact ⟨.digit ⟨i, hi⟩, rfl, _, rfl⟩

theorem Holds.zero {P : Key → Prop} (h : ∀ k, ¬P k) : Holds 0 P := by
  intro i
  simp only [BitVec.ofNat_eq_ofNat, BitVec.getLsbD_zero, Bool.false_eq_true, false_iff]
  rintro ⟨k, -, hk⟩
  exact h k hk

theorem Holds.regex (k : Key) : Holds k.regex (k = ·) := by
  intro i
  rw [getLsbD_regex]
  constructor
  · rintro rfl
    exact ⟨k, rfl, rfl⟩
  · rintro ⟨_, rfl, rfl⟩
    rfl

theorem Holds.regex09 : Holds regex09 fun k => ∃ n, k = .digit n := fun i => by
  rw [getLsbD_regex09, exists_digit_iff]

variable {m : BitVec 64}

theorem Holds.or {m' : BitVec 64} {P P' : Key → Prop} (h : Holds m P) (h' : Holds m' P') :
    Holds (m ||| m') fun k => P k ∨ P' k := by
  intro i
  rw [BitVec.getLsbD_or, Bool.or_eq_true, h i, h' i, ← exists_or]
  exact exists_congr fun k => and_or_left.symm

theorem Holds.congr {P P' : Key → Prop} (h : Holds m P) (hP : ∀ k, P k ↔ P' k) : Holds m P' :=
  fun i => (h i).trans (exists_congr fun k => and_congr_right fun _ => hP k)

theorem Holds.not {P : Key → Prop} (h : Holds m P) :
    Holds (~~~m &&& Kpml.regex09) fun k => (∃ n, k = .digit n) ∧ ¬P k := by
  intro i
  rw [BitVec.getLsbD_and, Bool.and_eq_true, BitVec.getLsbD_not, Bool.and_eq_true, getLsbD_regex09,
    decide_eq_true_eq, Bool.not_eq_true', ← Bool.not_eq_true, h i]
  constructor
  · rintro ⟨⟨-, hnot⟩, hi⟩
    exact ⟨.digit ⟨i, hi⟩, rfl, ⟨_, rfl⟩, fun hk => hnot ⟨_, rfl, hk⟩⟩
  · rintro ⟨_, rfl, ⟨n, rfl⟩, hnot⟩
    have hn : (Key.digit n).bit < 10 := n.isLt
    refine ⟨⟨by omega, ?_⟩, hn⟩
    rintro ⟨k, hbit, hk⟩
    exact hnot (Key.bit_inj hbit ▸ hk)

theorem Holds.range {first last : ℕ} (hfirst : first ≤ 9) (hlast : last ≤ 9) :
    Holds ((Kpml.regex09 <<< first) &&& Kpml.regex09.sshiftRight (9 - last))
      fun k => ∃ n : Fin 10, k = .digit n ∧ first ≤ n ∧ (n : ℕ) ≤ last := by
  intro i
  have hmsb : Kpml.regex09.msb = false := by decide
  rw [BitVec.getLsbD_and, Bool.and_eq_true, BitVec.getLsbD_shiftLeft, BitVec.sshiftRight_eq_of_msb_false hmsb,
    BitVec.getLsbD_ushiftRight, Bool.and_eq_true, Bool.and_eq_true, getLsbD_regex09, getLsbD_regex09,
    Bool.not_eq_true', decide_eq_true_eq, decide_eq_false_iff_not]
  constructor
  · rintro ⟨⟨⟨-, hge⟩, -⟩, hle⟩
    exact ⟨.digit ⟨i, by omega⟩, rfl, ⟨i, by omega⟩, rfl, by dsimp only; omega, by dsimp only; omega⟩
  · rintro ⟨_, rfl, n, rfl, hge, hle⟩
    have hn : (Key.digit n).bit = n := rfl
    omega

/-! ## Characters -/

theorem addCharToBitmask_of_isRegexChar {c : Char} (hc : IsRegexChar c) {P : Key → Prop} (hm : Holds m P) :
    ∃ m', addCharToBitmask c m = (.statusOk, m') ∧ Holds m' fun k => P k ∨ CharDenotes c k := by
  rw [addCharToBitmask]
  by_cases hx : c = 'x' ∨ c = 'X'
  · rw [if_pos hx]
    refine ⟨_, rfl, (hm.or .regex09).congr fun k => or_congr_right ?_⟩
    have hnone : charKey c = none := by rcases hx with rfl | rfl <;> rfl
    rw [CharDenotes, hnone]
    exact ⟨fun h => .inl ⟨hx, h⟩, fun h => h.elim And.right nofun⟩
  · rw [if_neg hx]
    obtain ⟨k, hk⟩ := Option.isSome_iff_exists.mp
      (hc.elim (fun h => absurd (.inl h) hx) fun h => h.resolve_left fun h => hx (.inr h))
    rw [hk]
    refine ⟨_, rfl, (hm.or (.regex k)).congr fun k' => or_congr_right ?_⟩
    rw [CharDenotes, hk, Option.some_inj]
    exact ⟨.inr, fun h => h.resolve_left fun h => hx h.1⟩

theorem addCharToBitmask_of_not_isRegexChar {c : Char} (hc : ¬IsRegexChar c) (m : BitVec 64) :
    addCharToBitmask c m = (.errorInvalidValue, m) := by
  rw [IsRegexChar, not_or, not_or, Option.not_isSome_iff_eq_none] at hc
  rw [addCharToBitmask, if_neg (not_or.mpr ⟨hc.1, hc.2.1⟩), hc.2.2]

theorem not_isRegexChar {c : Char} (hc : c ∈ ['[', ']', '^', '-', '{']) : ¬IsRegexChar c := by
  simp only [List.mem_cons, List.not_mem_nil, or_false] at hc
  rcases hc with rfl | rfl | rfl | rfl | rfl <;> simp [IsRegexChar, charKey]

theorem digitValue_le (c : Char) : digitValue c ≤ 9 := by
  rw [digitValue]
  split_ifs with hc
  · have hbounds := Char.isDigit_iff_toNat.mp hc
    have hzero : '0'.toNat = 48 := rfl
    have hnine : '9'.toNat = 57 := rfl
    omega
  · exact Nat.zero_le 9

/-- `atoi` of one character. -/
theorem atoi_singleton (c : Char) : atoi [c] = digitValue c := by
  rw [digitValue]
  split_ifs with hc
  · have hbounds := Char.isDigit_iff_toNat.mp hc
    have hval : digitsVal [c] = c.toNat - '0'.toNat := by
      simp [digitsVal, Nat.ofDigitChars]
    rw [← hval]
    refine atoi_digits (List.cons_ne_nil _ _) (by simpa using hc) ?_
    have hnine : '9'.toNat = 57 := rfl
    rw [hval]
    omega
  · -- neither a sign nor a space is followed by a digit
    have hdigits : ((takeSign ([c].dropWhile isSpace)).2.takeWhile Char.isDigit).isEmpty = true := by
      by_cases hspace : isSpace c
      · rw [List.dropWhile_cons_of_pos hspace]
        rfl
      · rw [List.dropWhile_cons_of_neg hspace]
        by_cases hminus : c = '-'
        · rw [hminus]
          rfl
        · by_cases hplus : c = '+'
          · rw [hplus]
            rfl
          · have hsign : takeSign [c] = (false, [c]) := by simp [takeSign, hminus, hplus]
            rw [hsign, List.takeWhile_cons_of_neg hc]
            rfl
    have hstrtol : strtol [c] = (0, [c]) := by
      rw [strtol]
      dsimp only
      rw [if_pos hdigits]
    rw [atoi, hstrtol]
    rfl

theorem inputKey_iff {input : Char} {k : Key} : inputKey input = some k ↔ k.char = input := by
  constructor
  · intro h
    unfold inputKey at h
    split at h <;> cases h <;> decide
  · rintro rfl
    cases k with
    | digit n => revert n; decide
    | _ => rfl

theorem kpmlMatchRequestedDigit_iff {P : Key → Prop} (h : Holds m P) (input : Char) :
    kpmlMatchRequestedDigit m input = true ↔ ∃ k : Key, k.char = input ∧ P k := by
  have hbit : ∀ k : Key, (m.setWidth 32 &&& k.regex.setWidth 32 ≠ 0) ↔ P k := by
    intro k
    have hlt := k.bit_lt
    constructor
    · intro hne
      by_contra hk
      refine hne (BitVec.eq_of_getLsbD_eq fun i hi => ?_)
      show _ = (0#32).getLsbD i
      rw [BitVec.getLsbD_and, BitVec.getLsbD_setWidth, BitVec.getLsbD_setWidth, BitVec.getLsbD_zero,
        Bool.and_eq_false_iff]
      by_cases hkey : i = k.bit
      · refine .inl (Bool.and_eq_false_iff.mpr (.inr ?_))
        rw [← Bool.not_eq_true, h i]
        rintro ⟨k', hk', hP⟩
        exact hk (Key.bit_inj (hk'.trans hkey) ▸ hP)
      · refine .inr (Bool.and_eq_false_iff.mpr (.inr ?_))
        rw [← Bool.not_eq_true, getLsbD_regex]
        exact hkey
    · intro hP heq
      have hset := congrArg (fun b : BitVec 32 => b.getLsbD k.bit) heq
      rw [BitVec.getLsbD_and, BitVec.getLsbD_setWidth, BitVec.getLsbD_setWidth, (h k.bit).mpr ⟨k, rfl, hP⟩,
        (getLsbD_regex k k.bit).mpr rfl, decide_eq_true (by omega : k.bit < 32)] at hset
      exact absurd (hset.trans BitVec.getLsbD_zero) (by decide)
  rw [kpmlMatchRequestedDigit, Option.any_eq_true]
  constructor
  · rintro ⟨k, hk, hm⟩
    exact ⟨k, inputKey_iff.mp hk, (hbit k).mp (by simpa using hm)⟩
  · rintro ⟨k, hk, hP⟩
    exact ⟨k, inputKey_iff.mpr hk, by simpa using (hbit k).mpr hP⟩

/-! ## Selections -/

/-- The loop over the characters of a selection: it accepts characters of a regular expression, with a bracket at
the end or without. By induction on the text. -/
theorem addChars_spec (t : CStr) {m : BitVec 64} {P : Key → Prop} (hm : Holds m P) :
    (∃ cs m', (∀ c ∈ cs, IsRegexChar c) ∧ (t = cs ∨ t = cs ++ [']']) ∧ addChars t m = (.statusOk, m') ∧
        Holds m' fun k => P k ∨ ∃ c ∈ cs, CharDenotes c k) ∨
      (∃ m', addChars t m = (.errorInvalidValue, m')) ∧ ∀ cs, (∀ c ∈ cs, IsRegexChar c) → t ≠ cs ∧ t ≠ cs ++ [']'] := by
  have hclose : ¬IsRegexChar ']' := not_isRegexChar (by decide)
  induction t generalizing m P with
  | nil => exact .inl ⟨[], m, List.forall_mem_nil _, .inl rfl, rfl, hm.congr fun k => by simp⟩
  | cons c t ih =>
    by_cases hend : c = ']'
    · subst hend
      rw [addChars, if_neg (not_not.mpr rfl)]
      by_cases ht : t = []
      · subst ht
        exact .inl ⟨[], m, List.forall_mem_nil _, .inr rfl, by simp, hm.congr fun k => by simp⟩
      · rw [if_pos ht]
        refine .inr ⟨⟨m, rfl⟩, fun cs hcs => ⟨?_, ?_⟩⟩
        · rintro rfl
          exact hclose (hcs _ List.mem_cons_self)
        · intro heq
          cases cs with
          | nil => exact ht (List.cons.inj heq).2
          | cons d cs => exact hclose ((List.cons.inj heq).1 ▸ hcs d List.mem_cons_self)
    · rw [addChars, if_pos hend]
      by_cases hc : IsRegexChar c
      · obtain ⟨m₁, hadd, hm₁⟩ := addCharToBitmask_of_isRegexChar hc hm
        rw [hadd]
        dsimp only
        rcases ih hm₁ with ⟨cs, m', hcs, ht, hrun, hm'⟩ | ⟨hrun, hnone⟩
        · refine .inl ⟨c :: cs, m', List.forall_mem_cons.mpr ⟨hc, hcs⟩, ?_, hrun, hm'.congr fun k => ?_⟩
          · rcases ht with rfl | rfl
            · exact .inl rfl
            · exact .inr rfl
          · rw [List.exists_mem_cons_iff, or_assoc]
        · refine .inr ⟨hrun, fun cs hcs => ⟨?_, ?_⟩⟩
          · rintro rfl
            exact (hnone t fun d hd => hcs d (List.mem_cons_of_mem _ hd)).1 rfl
          · intro heq
            cases cs with
            | nil => exact hend (List.cons.inj heq).1
            | cons d cs =>
              exact (hnone cs fun d hd => hcs d (List.mem_cons_of_mem _ hd)).2 (List.cons.inj heq).2
      · rw [addCharToBitmask_of_not_isRegexChar hc]
        refine .inr ⟨⟨m, rfl⟩, fun cs hcs => ⟨?_, ?_⟩⟩
        · rintro rfl
          exact hc (hcs c List.mem_cons_self)
        · intro heq
          cases cs with
          | nil => exact hend (List.cons.inj heq).1
          | cons d cs => exact hc ((List.cons.inj heq).1 ▸ hcs d List.mem_cons_self)

theorem rel_toUpper {Q : Char → Char → Prop} (hletter : ∀ n : Fin 26, Q (Char.ofNat (97 + n)) (Char.ofNat (65 + n)))
    (hself : ∀ c, Q c c) (c : Char) : Q c c.toUpper := by
  rcases toUpper_cases c with heq | ⟨hnum, hge, hle⟩
  · rw [heq]
    exact hself c
  · have hlower : Char.ofNat (97 + (c.toNat - 97)) = c := by
      rw [Nat.add_sub_cancel' hge, Char.ofNat_toNat]
    have hupper : Char.ofNat (65 + (c.toNat - 97)) = c.toUpper := by
      rw [show 65 + (c.toNat - 97) = c.toUpper.toNat by omega, Char.ofNat_toNat]
    have hrel : Q (Char.ofNat (97 + (c.toNat - 97))) (Char.ofNat (65 + (c.toNat - 97))) :=
      hletter ⟨c.toNat - 97, by omega⟩
    rwa [hlower, hupper] at hrel

theorem sameChar_toUpper (c : Char) :
    (c.toUpper = 'x' ∨ c.toUpper = 'X' ↔ c = 'x' ∨ c = 'X') ∧ charKey c.toUpper = charKey c ∧
      (c.toUpper = ']' ↔ c = ']') :=
  rel_toUpper (Q := fun c d => (d = 'x' ∨ d = 'X' ↔ c = 'x' ∨ c = 'X') ∧ charKey d = charKey c ∧ (d = ']' ↔ c = ']'))
    (by decide) (fun _ => ⟨Iff.rfl, rfl, Iff.rfl⟩) c

theorem addChars_map_toUpper (t : CStr) (m : BitVec 64) : addChars (t.map Char.toUpper) m = addChars t m := by
  induction t generalizing m with
  | nil => rfl
  | cons c t ih =>
    obtain ⟨hx, hkey, hend⟩ := sameChar_toUpper c
    have hadd : addCharToBitmask c.toUpper m = addCharToBitmask c m := by
      rw [addCharToBitmask, addCharToBitmask, hkey]
      exact if_congr hx rfl rfl
    rw [List.map_cons, addChars, addChars, hadd]
    refine if_congr (not_congr hend) ?_ (if_congr (not_congr List.map_eq_nil_iff) rfl rfl)
    match addCharToBitmask c m with
    | (.statusOk, m') => exact ih m'
    | (.errorInvalidValue, _) => rfl

/-- A bracket that opens a selection with a circumflex behind it. -/
def negative (t : CStr) : Bool := peek t = '^'

def selected (t : CStr) : CStr := if negative t then t.tail else t

def selectorForm (t cs : CStr) : Form := if negative t then .notChars cs else .chars cs

theorem handleCharacterSelector_cons (t : CStr) : handleCharacterSelector ('[' :: t) 0 =
      match addChars (selected t) 0 with
      | (.statusOk, m) => (.statusOk, 0 ||| if negative t then ~~~m &&& regex09 else m)
      | (rc, _) => (rc, 0) := by
  rw [handleCharacterSelector]
  by_cases hdefault : strcaseEq ('[' :: t) kpmlDefaultDtmfRegex
  · rw [if_pos hdefault]
    have hmap : t.map Char.toUpper = ['X', '*', '#', 'A', 'B', 'C', 'D', ']'] :=
      (List.cons.inj (beq_iff_eq.mp hdefault)).2
    have hneg : negative t = false := by
      cases t with
      | nil => cases hmap
      | cons c t =>
        refine decide_eq_false ?_
        rintro (rfl : c = '^')
        exact absurd (List.cons.inj hmap).1 (by decide)
    rw [selected, hneg, if_neg Bool.false_ne_true, ← addChars_map_toUpper, hmap]
    decide
  · rw [if_neg hdefault]
    rfl

theorem handleCharacterSelector_spec (t : CStr) :
    (∃ cs m, (∀ c ∈ cs, IsRegexChar c) ∧ (selected t = cs ∨ selected t = cs ++ [']']) ∧
        handleCharacterSelector ('[' :: t) 0 = (.statusOk, m) ∧ Holds m fun k => (selectorForm t cs).Denotes k) ∨
      (∃ m, handleCharacterSelector ('[' :: t) 0 = (.errorInvalidValue, m)) ∧
        ∀ cs, (∀ c ∈ cs, IsRegexChar c) → selected t ≠ cs ∧ selected t ≠ cs ++ [']'] := by
  rw [handleCharacterSelector_cons]
  rcases addChars_spec (selected t) (Holds.zero (P := fun _ => False) fun _ => id) with
    ⟨cs, m, hcs, ht, hrun, hm⟩ | ⟨⟨m, hrun⟩, hnone⟩
  · have hchars := hm.congr fun k => iff_of_eq (false_or (∃ c ∈ cs, CharDenotes c k))
    rw [hrun]
    refine .inl ⟨cs, _, hcs, ht, rfl, ?_⟩
    rw [show ∀ b : BitVec 64, 0 ||| b = b from fun b => BitVec.zero_or]
    rw [selectorForm]
    cases negative t with
    | false => exact hchars
    | true => exact hchars.not.congr fun k => and_congr_right fun _ => by simp
  · rw [hrun]
    exact .inr ⟨⟨_, rfl⟩, hnone⟩

/-! ## Texts by their shape -/

section

variable {s : CStr} {m : BitVec 64}

/-- A text is taken as documented, or it is one of those that are not. -/
def Sorted (s : CStr) : Prop := (Exact s ∧ ¬Misread s) ∨ (¬Exact s ∧ Misread s)

theorem exact_of_ok {f : Form} (hparse : kpmlParseRegexStr s = some (.statusOk, m)) (hf : Form.Text s f)
    (hm : Holds m fun k => f.Denotes k) (hone : ∀ f', Form.Text s f' → f' = f) : Exact s := by
  refine ⟨_, m, hparse, iff_of_true rfl ⟨f, hf⟩, fun f' hf' => ?_⟩
  obtain rfl := hone f' hf'
  exact ⟨hm, kpmlMatchRequestedDigit_iff hm⟩

theorem exact_of_invalid (hparse : kpmlParseRegexStr s = some (.errorInvalidValue, m))
    (hno : ∀ f, ¬Form.Text s f) : Exact s :=
  ⟨_, m, hparse, iff_of_false nofun fun ⟨f, hf⟩ => hno f hf, fun f hf => absurd hf (hno f)⟩

theorem not_exact_of_none (hparse : kpmlParseRegexStr s = none) : ¬Exact s := by
  rintro ⟨rc, m, h, -⟩
  rw [hparse] at h
  cases h

theorem not_exact_of_ok (hparse : kpmlParseRegexStr s = some (.statusOk, m)) (hno : ∀ f, ¬Form.Text s f) :
    ¬Exact s := by
  rintro ⟨rc, m', h, hok, -⟩
  obtain ⟨rfl, rfl⟩ := Prod.mk.inj (Option.some_inj.mp (hparse.symm.trans h))
  obtain ⟨f, hf⟩ := hok.mp rfl
  exact hno f hf

end

theorem sorted_nil : Sorted [] := .inr ⟨not_exact_of_none rfl, .empty⟩

theorem text_singleton_iff {c : Char} {f : Form} : Form.Text [c] f ↔ IsRegexChar c ∧ f = .char c := by
  cases f with
  | char d =>
    simp only [Form.Text, List.cons.injEq, and_true, Form.char.injEq]
    constructor
    · rintro ⟨hd, rfl | ⟨-, h⟩ | ⟨-, h⟩⟩
      · exact ⟨hd, rfl⟩
      · cases h
      · cases h
    · rintro ⟨hc, rfl⟩
      exact ⟨hc, .inl rfl⟩
  | range first last =>
    refine iff_of_false ?_ nofun
    rintro ⟨-, -, -, h⟩
    cases h
  | chars cs =>
    refine iff_of_false ?_ nofun
    rintro ⟨-, h⟩
    exact absurd (List.cons.inj h).2.symm (by simp)
  | notChars cs =>
    refine iff_of_false ?_ nofun
    rintro ⟨-, h⟩
    cases h

theorem sorted_singleton (c : Char) : Sorted [c] := by
  have hparse : kpmlParseRegexStr [c] = some (addCharToBitmask c 0) := rfl
  refine .inl ⟨?_, ?_⟩
  · by_cases hc : IsRegexChar c
    · obtain ⟨m, hadd, hm⟩ := addCharToBitmask_of_isRegexChar hc (Holds.zero (P := fun _ => False) fun _ => id)
      rw [hadd] at hparse
      exact exact_of_ok hparse (text_singleton_iff.mpr ⟨hc, rfl⟩) (hm.congr fun k => iff_of_eq (false_or _))
        fun f hf => (text_singleton_iff.mp hf).2
    · rw [addCharToBitmask_of_not_isRegexChar hc] at hparse
      exact exact_of_invalid hparse fun f hf => hc (text_singleton_iff.mp hf).1
  · intro h
    cases h with
    | chars hne => exact hne rfl

theorem text_repetition_iff {c : Char} {rest : CStr} {f : Form} : Form.Text (c :: '{' :: rest) f ↔
      IsRegexChar c ∧ f = .char c ∧ (rest = ['1', '}'] ∨ rest = ['1', ',', '1', '}']) := by
  have hbrace : ¬IsRegexChar '{' := not_isRegexChar (by decide)
  cases f with
  | char d =>
    simp only [Form.Text, List.cons.injEq, true_and, reduceCtorEq, and_false, false_or, Form.char.injEq]
    constructor
    · rintro ⟨hd, ⟨rfl, hrest⟩ | ⟨rfl, hrest⟩⟩
      · exact ⟨hd, rfl, .inl hrest⟩
      · exact ⟨hd, rfl, .inr hrest⟩
    · rintro ⟨hc, rfl, hrest | hrest⟩
      · exact ⟨hc, .inl ⟨rfl, hrest⟩⟩
      · exact ⟨hc, .inr ⟨rfl, hrest⟩⟩
  | range first last =>
    refine iff_of_false ?_ fun h => nomatch h.2.1
    rintro ⟨hdigit, -, -, h⟩
    obtain ⟨rfl, -⟩ := List.cons.inj (List.cons.inj h).2
    exact absurd hdigit (by decide)
  | chars cs =>
    refine iff_of_false ?_ fun h => nomatch h.2.1
    rintro ⟨hcs, h⟩
    have htail := (List.cons.inj h).2
    cases cs with
    | nil => exact absurd (List.cons.inj htail).1 (by decide)
    | cons d cs => exact hbrace ((List.cons.inj htail).1 ▸ hcs d List.mem_cons_self)
  | notChars cs =>
    refine iff_of_false ?_ fun h => nomatch h.2.1
    rintro ⟨-, h⟩
    exact absurd (List.cons.inj (List.cons.inj h).2).1 (by decide)

theorem kpmlParseRegexStr_repetition (c : Char) (rest : CStr) : kpmlParseRegexStr (c :: '{' :: rest) =
      if ['1', '}'] <+: rest ∨ ['1', ',', '1', '}'] <+: rest then some (addCharToBitmask c 0)
      else some (.errorInvalidValue, 0) := by
  have honce : strncmpEq ('{' :: rest) ['{', '1', '}'] 3 = true ↔ ['1', '}'] <+: rest :=
    (strncmpEq_iff (t := ['{', '1', '}']) (by decide)).trans (List.prefix_cons_inj _)
  have honceOnce : strncmpEq ('{' :: rest) ['{', '1', ',', '1', '}'] 5 = true ↔ ['1', ',', '1', '}'] <+: rest :=
    (strncmpEq_iff (t := ['{', '1', ',', '1', '}']) (by decide)).trans (List.prefix_cons_inj _)
  have hlength : ¬(c :: '{' :: rest).length = 1 := by simp
  have hload : (Ptr.add (some (c :: '{' :: rest)) 1).load = some '{' := rfl
  rw [kpmlParseRegexStr, if_neg hlength, hload]
  simp only [Option.bind_eq_bind, Option.bind_some, if_true, List.tail_cons, Bool.or_eq_true, honce, honceOnce]
  rfl

theorem sorted_repetition (c : Char) (rest : CStr) : Sorted (c :: '{' :: rest) := by
  have hparse := kpmlParseRegexStr_repetition c rest
  have hmis : Misread (c :: '{' :: rest) ↔ IsRegexChar c ∧
      ((∃ t, t ≠ [] ∧ rest = '1' :: '}' :: t) ∨ ∃ t, t ≠ [] ∧ rest = '1' :: ',' :: '1' :: '}' :: t) := by
    constructor
    · intro h
      cases h with
      | once hc hne => exact ⟨hc, .inl ⟨_, hne, rfl⟩⟩
      | onceOnce hc hne => exact ⟨hc, .inr ⟨_, hne, rfl⟩⟩
      | openRange hne => exact absurd rfl hne
      | range hne => exact absurd rfl hne
      | chars _ hcs => exact absurd (hcs '{' List.mem_cons_self) (not_isRegexChar (by decide))
    · rintro ⟨hc, ⟨t, hne, rfl⟩ | ⟨t, hne, rfl⟩⟩
      · exact .once hc hne
      · exact .onceOnce hc hne
  by_cases hrep : ['1', '}'] <+: rest ∨ ['1', ',', '1', '}'] <+: rest
  · rw [if_pos hrep] at hparse
    by_cases hc : IsRegexChar c
    · obtain ⟨m, hadd, hm⟩ := addCharToBitmask_of_isRegexChar hc (Holds.zero (P := fun _ => False) fun _ => id)
      rw [hadd] at hparse
      by_cases hend : rest = ['1', '}'] ∨ rest = ['1', ',', '1', '}']
      · refine .inl ⟨exact_of_ok hparse (text_repetition_iff.mpr ⟨hc, rfl, hend⟩)
          (hm.congr fun k => iff_of_eq (false_or _)) fun f hf => (text_repetition_iff.mp hf).2.1, ?_⟩
        rw [hmis]
        rintro ⟨-, ⟨t, hne, rfl⟩ | ⟨t, hne, rfl⟩⟩ <;> simp [hne] at hend
      · refine .inr ⟨not_exact_of_ok hparse fun f hf => hend (text_repetition_iff.mp hf).2.2, hmis.mpr ⟨hc, ?_⟩⟩
        rcases hrep with ⟨t, rfl⟩ | ⟨t, rfl⟩
        · exact .inl ⟨t, fun hnil => hend (.inl (by rw [hnil]; rfl)), rfl⟩
        · exact .inr ⟨t, fun hnil => hend (.inr (by rw [hnil]; rfl)), rfl⟩
    · rw [addCharToBitmask_of_not_isRegexChar hc] at hparse
      exact .inl ⟨exact_of_invalid hparse fun f hf => hc (text_repetition_iff.mp hf).1, fun h => hc (hmis.mp h).1⟩
  · rw [if_neg hrep] at hparse
    refine .inl ⟨exact_of_invalid hparse fun f hf => hrep ?_, fun h => hrep ?_⟩
    · rcases (text_repetition_iff.mp hf).2.2 with rfl | rfl
      · exact .inl List.prefix_rfl
      · exact .inr List.prefix_rfl
    · rcases (hmis.mp h).2 with ⟨t, -, rfl⟩ | ⟨t, -, rfl⟩
      · exact .inl ⟨t, rfl⟩
      · exact .inr ⟨t, rfl⟩

theorem sorted_other {c d : Char} (rest : CStr) (hc : c ≠ '[') (hd : d ≠ '{') : Sorted (c :: d :: rest) := by
  have hparse : kpmlParseRegexStr (c :: d :: rest) = some (.errorInvalidValue, 0) := by
    have hlength : ¬(c :: d :: rest).length = 1 := by simp
    have hload : (Ptr.add (some (c :: d :: rest)) 1).load = some d := rfl
    rw [kpmlParseRegexStr, if_neg hlength, hload]
    have hpeek : ¬peek (c :: d :: rest) = '[' := hc
    simp only [Option.bind_eq_bind, Option.bind_some, if_neg hd, if_neg hpeek]
    rfl
  refine .inl ⟨exact_of_invalid hparse fun f hf => ?_, fun h => ?_⟩
  · cases f with
    | char e =>
      rcases hf.2 with h | h | h
      · exact absurd (List.cons.inj h).2 (by simp)
      · exact hd (List.cons.inj (List.cons.inj h).2).1
      · exact hd (List.cons.inj (List.cons.inj h).2).1
    | range first last => exact hc (List.cons.inj hf.2.2.2).1
    | chars cs => exact hc (List.cons.inj hf.2).1
    | notChars cs => exact hc (List.cons.inj hf.2).1
  · cases h with
    | once => exact hd rfl
    | onceOnce => exact hd rfl
    | openRange => exact hc rfl
    | range => exact hc rfl
    | chars => exact hc rfl
    | notChars => exact hc rfl

/-! ### Behind a bracket -/

theorem kpmlParseRegexStr_bracket {d : Char} (rest : CStr) (hd : d ≠ '{') :
    kpmlParseRegexStr ('[' :: d :: rest) =
      if '-' ∈ d :: rest then handleRangeSelector ('[' :: d :: rest) 0
      else some (handleCharacterSelector ('[' :: d :: rest) 0) := by
  have hlength : ¬('[' :: d :: rest).length = 1 := by simp
  have hload : (Ptr.add (some ('[' :: d :: rest)) 1).load = some d := rfl
  have hmem : '-' ∈ '[' :: d :: rest ↔ '-' ∈ d :: rest := List.mem_cons.trans (or_iff_right (by decide))
  rw [kpmlParseRegexStr, if_neg hlength, hload]
  simp only [Option.bind_eq_bind, Option.bind_some, if_neg hd, peek_cons, if_true]
  exact if_congr hmem rfl rfl

theorem not_mem_of_isRegexChar {cs : CStr} (hcs : ∀ c ∈ cs, IsRegexChar c) {c : Char}
    (hc : c ∈ ['[', ']', '^', '-', '{']) : c ∉ cs :=
  fun h => not_isRegexChar hc (hcs c h)

theorem text_range_iff {d : Char} {rest : CStr} {f : Form} (hd : d ≠ '{') (hsign : '-' ∈ d :: rest) :
    Form.Text ('[' :: d :: rest) f ↔
      ∃ last, f = .range d last ∧ d.isDigit ∧ last.isDigit ∧ d.toNat ≤ last.toNat ∧ rest = ['-', last, ']'] := by
  cases f with
  | char c =>
    refine iff_of_false ?_ fun h => nomatch h.choose_spec.1
    rintro ⟨-, h | h | h⟩
    · cases h
    · exact hd (List.cons.inj (List.cons.inj h).2).1
    · exact hd (List.cons.inj (List.cons.inj h).2).1
  | range first last =>
    constructor
    · rintro ⟨hfirst, hlast, hle, h⟩
      obtain ⟨rfl, hrest⟩ := List.cons.inj (List.cons.inj h).2
      exact ⟨last, rfl, hfirst, hlast, hle, hrest⟩
    · rintro ⟨last', hf, hfirst, hlast, hle, rfl⟩
      cases hf
      exact ⟨hfirst, hlast, hle, rfl⟩
  | chars cs =>
    refine iff_of_false ?_ fun h => nomatch h.choose_spec.1
    rintro ⟨hcs, h⟩
    rw [(List.cons.inj h).2] at hsign
    rcases List.mem_append.mp hsign with hmem | hmem
    · exact not_mem_of_isRegexChar hcs (by decide) hmem
    · exact absurd hmem (by decide)
  | notChars cs =>
    refine iff_of_false ?_ fun h => nomatch h.choose_spec.1
    rintro ⟨hcs, h⟩
    rw [(List.cons.inj h).2] at hsign
    rcases List.mem_append.mp ((List.mem_cons.mp hsign).resolve_left (by decide)) with hmem | hmem
    · exact not_mem_of_isRegexChar hcs (by decide) hmem
    · exact absurd hmem (by decide)

theorem misread_range_iff {d : Char} {rest : CStr} (hd : d ≠ '{') (hsign : '-' ∈ d :: rest) :
    Misread ('[' :: d :: rest) ↔ rest = ['-'] ∨ ∃ last rest', digitValue d ≤ digitValue last ∧
      ¬(d.isDigit ∧ last.isDigit ∧ rest' = []) ∧ rest = '-' :: last :: ']' :: rest' := by
  constructor
  · intro h
    cases h with
    | once => exact absurd rfl hd
    | onceOnce => exact absurd rfl hd
    | openRange => exact .inl rfl
    | range _ hle hnot => exact .inr ⟨_, _, hle, hnot, rfl⟩
    | chars _ hcs => exact absurd hsign (not_mem_of_isRegexChar hcs (by decide))
    | notChars hcs =>
      exact absurd ((List.mem_cons.mp hsign).resolve_left (by decide)) (not_mem_of_isRegexChar hcs (by decide))
  · rintro (rfl | ⟨last, rest', hle, hnot, rfl⟩)
    · exact .openRange hd
    · exact .range hd hle hnot

theorem digitValue_le_iff {c d : Char} (hc : c.isDigit) (hd : d.isDigit) :
    digitValue c ≤ digitValue d ↔ c.toNat ≤ d.toNat := by
  have hcle := (Char.isDigit_iff_toNat.mp hc).1
  have hdle := (Char.isDigit_iff_toNat.mp hd).1
  rw [digitValue, digitValue, if_pos hc, if_pos hd]
  omega

theorem holds_range {first last : Char} (hfirst : first.isDigit) (hlast : last.isDigit) :
    Holds (0 ||| ((regex09 <<< digitValue first) &&& regex09.sshiftRight (9 - digitValue last)))
      fun k => (Form.range first last).Denotes k := by
  rw [show ∀ b : BitVec 64, 0 ||| b = b from fun b => BitVec.zero_or]
  refine (Holds.range (digitValue_le first) (digitValue_le last)).congr fun k => exists_congr fun n => ?_
  have hfirstle := (Char.isDigit_iff_toNat.mp hfirst).1
  have hlastle := (Char.isDigit_iff_toNat.mp hlast).1
  rw [digitValue, digitValue, if_pos hfirst, if_pos hlast]
  refine and_congr_right fun _ => ?_
  omega

theorem handleRangeSelector_range (d last : Char) (rest : CStr) :
    handleRangeSelector ('[' :: d :: '-' :: last :: ']' :: rest) 0 =
      if digitValue last < digitValue d then some (.errorInvalidValue, 0)
      else some (.statusOk, 0 ||| ((regex09 <<< digitValue d) &&& regex09.sshiftRight (9 - digitValue last))) := by
  have hle := digitValue_le last
  have hshift : (9 - (digitValue last : ℤ)).toNat = 9 - digitValue last := by omega
  simp only [handleRangeSelector, Ptr.add_cons_succ, Ptr.add_zero, Ptr.load_some, peek_cons, Option.bind_eq_bind,
    Option.bind_some, if_true, ne_eq, not_true_eq_false, if_false, atoi_singleton, gt_iff_lt, Nat.cast_lt,
    Int.toNat_natCast, hshift]
  split_ifs <;> rfl

theorem sorted_range {d : Char} (rest : CStr) (hd : d ≠ '{') (hsign : '-' ∈ d :: rest) :
    Sorted ('[' :: d :: rest) := by
  have hparse := kpmlParseRegexStr_bracket rest hd
  rw [if_pos hsign] at hparse
  have htext := fun f => @text_range_iff d rest f hd hsign
  have hmis := misread_range_iff hd hsign
  have hinvalid : kpmlParseRegexStr ('[' :: d :: rest) = some (.errorInvalidValue, 0) → rest ≠ ['-'] →
      (∀ last rest', rest = '-' :: last :: ']' :: rest' → digitValue last < digitValue d) →
      Sorted ('[' :: d :: rest) := by
    intro hparse hne hshape
    refine .inl ⟨exact_of_invalid hparse fun f hf => ?_, fun h => ?_⟩
    · obtain ⟨last, -, hfirst, hlast, hle, hrest⟩ := (htext f).mp hf
      exact absurd ((digitValue_le_iff hfirst hlast).mpr hle) (Nat.not_le.mpr (hshape last [] hrest))
    · rcases hmis.mp h with heq | ⟨last, rest', hle, -, hrest⟩
      · exact hne heq
      · exact absurd hle (Nat.not_le.mpr (hshape last rest' hrest))
  rcases rest with _ | ⟨e, rest⟩
  · refine hinvalid (hparse.trans ?_) nofun nofun
    simp [handleRangeSelector, show nul ≠ '-' by decide]
  by_cases he : e = '-'
  swap
  · refine hinvalid (hparse.trans ?_) (fun h => he (List.cons.inj h).1)
      fun last rest' h => absurd (List.cons.inj h).1 he
    simp [handleRangeSelector, he]
  subst he
  rcases rest with _ | ⟨last, rest⟩
  · -- the range is over behind its sign, and the loads go on
    refine .inr ⟨not_exact_of_none (hparse.trans ?_), .openRange hd⟩
    simp [handleRangeSelector]
  rcases rest with _ | ⟨e, rest⟩
  · refine hinvalid (hparse.trans ?_) nofun nofun
    simp [handleRangeSelector, show nul ≠ ']' by decide]
  by_cases he : e = ']'
  swap
  · refine hinvalid (hparse.trans ?_) nofun
      fun last' rest' h => absurd (List.cons.inj (List.cons.inj (List.cons.inj h).2).2).1 he
    simp [handleRangeSelector, he]
  subst he
  rw [handleRangeSelector_range] at hparse
  by_cases hlt : digitValue last < digitValue d
  · rw [if_pos hlt] at hparse
    refine hinvalid hparse nofun fun last' rest' h => ?_
    rw [← (List.cons.inj (List.cons.inj h).2).1]
    exact hlt
  · rw [if_neg hlt] at hparse
    by_cases hdigits : d.isDigit ∧ last.isDigit ∧ rest = []
    · obtain ⟨hfirst, hlast, rfl⟩ := hdigits
      have hle := (digitValue_le_iff hfirst hlast).mp (Nat.not_lt.mp hlt)
      refine .inl ⟨exact_of_ok hparse ((htext _).mpr ⟨last, rfl, hfirst, hlast, hle, rfl⟩)
        (holds_range hfirst hlast) fun f hf => ?_, fun h => ?_⟩
      · obtain ⟨last', rfl, -, -, -, hrest⟩ := (htext f).mp hf
        rw [(List.cons.inj (List.cons.inj hrest).2).1]
      · rcases hmis.mp h with heq | ⟨last', rest', -, hnot, hrest⟩
        · cases heq
        · cases hrest
          exact hnot ⟨hfirst, hlast, rfl⟩
    · refine .inr ⟨not_exact_of_ok hparse fun f hf => hdigits ?_, .range hd (Nat.not_lt.mp hlt) hdigits⟩
      obtain ⟨last', -, hfirst, hlast, -, hrest⟩ := (htext f).mp hf
      cases hrest
      exact ⟨hfirst, hlast, rfl⟩

theorem selected_of_isRegexChar {t cs : CStr} (hcs : ∀ c ∈ cs, IsRegexChar c) (h : t = cs ∨ t = cs ++ [']']) :
    negative t = false ∧ selected t = t := by
  have hneg : negative t = false := by
    refine decide_eq_false fun (hpeek : peek t = '^') => ?_
    cases cs with
    | nil =>
      rcases h with rfl | rfl
      · exact absurd hpeek (by decide)
      · exact absurd hpeek (by decide)
    | cons c cs =>
      have hc : peek t = c := by rcases h with rfl | rfl <;> rfl
      obtain rfl : c = '^' := hc.symm.trans hpeek
      exact not_mem_of_isRegexChar (c := '^') hcs (by decide) List.mem_cons_self
  refine ⟨hneg, ?_⟩
  rw [selected, hneg]
  rfl

theorem text_selector_iff {d : Char} {rest : CStr} {f : Form} (hd : d ≠ '{') (hsign : '-' ∉ d :: rest) :
    Form.Text ('[' :: d :: rest) f ↔ ∃ cs, (∀ c ∈ cs, IsRegexChar c) ∧ selected (d :: rest) = cs ++ [']'] ∧
      f = selectorForm (d :: rest) cs := by
  constructor
  · intro h
    cases f with
    | char c =>
      rcases h.2 with h | h | h
      · cases h
      · exact absurd (List.cons.inj (List.cons.inj h).2).1 hd
      · exact absurd (List.cons.inj (List.cons.inj h).2).1 hd
    | range first last =>
      refine absurd ?_ hsign
      rw [(List.cons.inj h.2.2.2).2]
      simp
    | chars cs =>
      obtain ⟨hcs, heq⟩ := h
      obtain ⟨hneg, hsel⟩ := selected_of_isRegexChar hcs (.inr (List.cons.inj heq).2)
      exact ⟨cs, hcs, hsel.trans (List.cons.inj heq).2, by rw [selectorForm, hneg]; rfl⟩
    | notChars cs =>
      obtain ⟨hcs, heq⟩ := h
      rw [(List.cons.inj heq).2]
      exact ⟨cs, hcs, rfl, rfl⟩
  · rintro ⟨cs, hcs, hsel, rfl⟩
    by_cases hneg : d = '^'
    · subst hneg
      exact ⟨hcs, congrArg (fun t => '[' :: '^' :: t) hsel⟩
    · have hnegative : negative (d :: rest) = false := decide_eq_false hneg
      rw [selected, hnegative] at hsel
      rw [selectorForm, hnegative]
      exact ⟨hcs, congrArg (fun t => '[' :: t) hsel⟩

theorem misread_selector_iff {d : Char} {rest : CStr} (hd : d ≠ '{') (hsign : '-' ∉ d :: rest) :
    Misread ('[' :: d :: rest) ↔ ∀ c ∈ selected (d :: rest), IsRegexChar c := by
  constructor
  · intro h
    cases h with
    | once => exact absurd rfl hd
    | onceOnce => exact absurd rfl hd
    | openRange => exact absurd (by simp) hsign
    | range => exact absurd (by simp) hsign
    | chars _ hcs =>
      rw [(selected_of_isRegexChar hcs (.inl rfl)).2]
      exact hcs
    | notChars hcs => exact hcs
  · intro hcs
    by_cases hneg : d = '^'
    · subst hneg
      exact .notChars hcs
    · have hnegative : negative (d :: rest) = false := decide_eq_false hneg
      rw [selected, hnegative] at hcs
      exact .chars (List.cons_ne_nil _ _) hcs

theorem sorted_selector {d : Char} (rest : CStr) (hd : d ≠ '{') (hsign : '-' ∉ d :: rest) :
    Sorted ('[' :: d :: rest) := by
  have hparse := kpmlParseRegexStr_bracket rest hd
  rw [if_neg hsign] at hparse
  have htext := fun f => @text_selector_iff d rest f hd hsign
  have hmis := misread_selector_iff hd hsign
  have hbracket : ∀ cs : CStr, ¬∀ c ∈ cs ++ [']'], IsRegexChar c := fun cs h =>
    not_isRegexChar (by decide) (h ']' (List.mem_append_right _ List.mem_cons_self))
  rcases handleCharacterSelector_spec (d :: rest) with ⟨cs, m, hcs, hsel | hsel, hrun, hm⟩ | ⟨⟨m, hrun⟩, hnone⟩
  · rw [hrun] at hparse
    refine .inr ⟨not_exact_of_ok hparse fun f hf => ?_, hmis.mpr (hsel ▸ hcs)⟩
    obtain ⟨cs', -, hsel', -⟩ := (htext f).mp hf
    rw [← hsel.symm.trans hsel' |>.symm] at hcs
    exact hbracket cs' hcs
  · rw [hrun] at hparse
    refine .inl ⟨exact_of_ok hparse ((htext _).mpr ⟨cs, hcs, hsel, rfl⟩) hm fun f hf => ?_, fun h => ?_⟩
    · obtain ⟨cs', -, hsel', rfl⟩ := (htext f).mp hf
      rw [List.append_cancel_right (hsel.symm.trans hsel')]
    · exact hbracket cs (hsel ▸ hmis.mp h)
  · rw [hrun] at hparse
    refine .inl ⟨exact_of_invalid hparse fun f hf => ?_, fun h => (hnone _ (hmis.mp h)).1 rfl⟩
    obtain ⟨cs, hcs, hsel, -⟩ := (htext f).mp hf
    exact (hnone cs hcs).2 hsel

theorem sorted (s : CStr) : Sorted s := by
  match s with
  | [] => exact sorted_nil
  | [c] => exact sorted_singleton c
  | c :: d :: rest =>
    by_cases hd : d = '{'
    · exact hd ▸ sorted_repetition c rest
    · by_cases hc : c = '['
      · subst hc
        by_cases hsign : '-' ∈ d :: rest
        · exact sorted_range rest hd hsign
        · exact sorted_selector rest hd hsign
      · exact sorted_other rest hc hd

theorem not_exact_of_misread {s : CStr} (h : Misread s) : ¬Exact s := (sorted s).elim (fun hs => absurd h hs.2) And.left

/-- **When a key pattern is parsed exactly.** For every text, `kpml_parse_regex_str` reads no byte behind the
terminator, accepts exactly the documented forms, and gives the bitmask that `kpml_match_requested_digit` matches
the denoted keys with, exactly when the text is not one of those that are misread. -/
theorem exact_iff (s : CStr) : Exact s ↔ ¬Misread s := by
  rcases sorted s with ⟨hexact, hmis⟩ | ⟨hexact, hmis⟩
  · exact iff_of_true hexact hmis
  · exact iff_of_false hexact (not_not.mpr hmis)

/-- **Key patterns that are not documented are accepted.** A repetition with a letter behind it, a selection without
an end, and a range between letters; and for a range that ends behind its sign a byte behind the terminator is
read. -/
theorem not_exact :
    ¬Exact ['2', '{', '1', '}', 'y'] ∧ ¬Exact ['[', '1', '7'] ∧ ¬Exact ['[', 'a', '-', 'b', ']'] ∧
      ¬Exact ['[', '2', '-'] := by
  have hkey : ∀ n : Fin 10, IsRegexChar (Key.digit n).char := by
    intro n
    refine .inr (.inr ?_)
    revert n
    decide
  refine ⟨not_exact_of_misread (.once (hkey 2) (List.cons_ne_nil _ _)), not_exact_of_misread
    (.chars (List.cons_ne_nil _ _) ?_), not_exact_of_misread (.range (by decide) (by decide) (by decide)),
    not_exact_of_misread (.openRange (by decide))⟩
  exact List.forall_mem_cons.mpr ⟨hkey 1, List.forall_mem_singleton.mpr (hkey 7)⟩

end Kpml
