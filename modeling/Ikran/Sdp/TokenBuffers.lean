import Ikran.Lib.Words
import Ikran.Sdp.ParseToken
import Mathlib.Tactic.IntervalCases

/-!
# The arrays of the tokenizer

`sdp_getnextstrtok` ends a token behind `SDP_MAX_STRING_LEN` characters, whatever the array is that it writes to. Its
calls by six parsers are listed with the declared sizes of the arrays.
-/

namespace Sdp

open CStr Line

/-- What a call of `sdp_getnextstrtok` stores in front of the terminator, with the declared size of the array. -/
structure Stored where
  size : ℕ
  token : CStr
  deriving DecidableEq

/-- All tokens fit their arrays, with their terminators. -/
def AllFit (calls : List Stored) : Prop := ∀ c ∈ calls, c.token.length + 1 ≤ c.size

/-! ## The calls -/

/-- A call, and those behind it when there is a token. -/
def stored (size : ℕ) (delim s : CStr) (k : CStr → CStr → List Stored) : List Stored :=
  match token delim maxStringLen s with
  | (none, _) => []
  | (some tok, ptr) => ⟨size, tok⟩ :: k tok ptr

/-- `sdp_parse_owner`. -/
def ownerCalls (conf : Conf) (ptr : CStr) : List Stored :=
  stored (maxStringLen + 1) blanks ptr fun _ ptr =>
  stored (maxStringLen + 1) blanks ptr fun ownerSessid ptr =>
  if !(numVal ownerSessid).2 then [] else
  stored (maxStringLen + 1) blanks ptr fun ownerVersion ptr =>
  if !(numVal ownerVersion).2 then [] else
  stored maxStringLen blanks ptr fun tmp ptr =>
  let nettype := (findNettype conf tmp).getD .unsupported
  if nettype = .unsupported then [] else
  stored maxStringLen blanks ptr fun tmp ptr =>
  if (findAddrtype conf tmp).getD .unsupported = .unsupported ∧ nettype ≠ .atm then [] else
  stored (maxStringLen + 1) blanks ptr fun _ _ => []

/-- `sdp_parse_connection`. -/
def connectionCalls (conf : Conf) (level : Level) (d : Desc) (ptr : CStr) : List Stored :=
  match connField.get d level with
  | none => []
  | some c =>
    if c.nettype ≠ .invalid then [] else
    stored maxStringLen blanks ptr fun _ ptr =>
    stored maxStringLen blanks ptr fun tmp ptr =>
    stored (maxStringLen + 1) blanks ptr fun connAddr _ =>
    let slash := findChar ['/'] connAddr
    if (findAddrtype conf tmp).getD .unsupported ≠ .epn ∧ slash.peek ≠ nul ∧
        (c.isMulticast || isMulticastAddr connAddr) then
      stored maxStringLen ['/'] slash.tail fun _ _ => []
    else []

/-- `sdp_parse_media`. -/
def mediaCalls (ptr : CStr) : List Stored :=
  stored maxStringLen blanks ptr fun _ ptr =>
  stored maxStringLen blanks ptr fun _ ptr =>
  stored maxStringLen blanks ptr fun _ _ => []

/-- `sdp_parse_attribute`, up to the function that parses the value. -/
def attributeCalls (level : Level) (d : Desc) (ptr : CStr) : List Stored :=
  if !d.hasLevel level then [] else stored maxStringLen [':', ' ', '\t'] ptr fun _ _ => []

/-- `sdp_parse_attr_group`. -/
def attrGroupCalls (ptr : CStr) : List Stored := stored 10 blanks ptr fun _ _ => []

/-- `sdp_parse_attr_srtp`. -/
def attrSrtpCalls (vtype : SrtpAttr) (ptr : CStr) : List Stored :=
  let ((_, ok), ptr) := if vtype = .sdescriptions then numTokAt blanks ptr else ((0, true), ptr)
  if !ok then [] else
  stored maxStringLen blanks ptr fun tmp ptr =>
  if (CryptoSuite.all.find? fun s => nameEq tmp s.name).isNone then [] else
  stored maxStringLen blanks ptr fun _ _ => []

/-! ## When they fit -/

theorem allFit_nil : AllFit [] := List.forall_mem_nil _

theorem allFit_stored {size : ℕ} {delim s : CStr} {k : CStr → CStr → List Stored} :
    AllFit (stored size delim s k) ↔ word delim s ≠ [] → min maxStringLen (word delim s).length < size ∧
        AllFit (k ((word delim s).take maxStringLen) (behind delim s maxStringLen)) := by
  rw [stored, token_eq]
  by_cases hword : word delim s = []
  · rw [if_pos hword]
    exact iff_of_true allFit_nil fun hne => absurd hword hne
  · rw [if_neg hword, imp_iff_right hword, AllFit, List.forall_mem_cons, List.length_take]
    rfl

theorem allFit_stored_long {delim s : CStr} {k : CStr → CStr → List Stored} :
    AllFit (stored (maxStringLen + 1) delim s k) ↔ word delim s ≠ [] →
      AllFit (k ((word delim s).take maxStringLen) (behind delim s maxStringLen)) := by
  rw [allFit_stored, and_iff_right (Nat.lt_succ_of_le (Nat.min_le_left ..))]

theorem allFit_stored_short {delim s : CStr} {k : CStr → CStr → List Stored} :
    AllFit (stored maxStringLen delim s k) ↔ (word delim s).length < maxStringLen ∧
      (word delim s ≠ [] → AllFit (k (word delim s) (behind delim s maxStringLen))) := by
  rw [allFit_stored]
  by_cases hword : word delim s = []
  · simp [hword, maxStringLen]
  · have hmin : min maxStringLen (word delim s).length < maxStringLen ↔ (word delim s).length < maxStringLen := by
      omega
    rw [imp_iff_right hword, imp_iff_right hword, hmin]
    exact and_congr_right fun hlt => by rw [List.take_of_length_le (Nat.le_of_lt hlt)]

theorem allFit_ite {p : Prop} [Decidable p] {calls : List Stored} :
    AllFit (if p then [] else calls) ↔ (¬p → AllFit calls) := by
  split_ifs with hp
  · exact iff_of_true allFit_nil fun hno => absurd hp hno
  · exact (imp_iff_right hp).symm

/-- The words of a line, where one that is too long is cut. -/
def wordAt : ℕ → CStr → CStr
  | 0, s => word blanks s
  | n + 1, s => wordAt n (behind blanks s maxStringLen)

theorem wordAt_succ_of_nil {n : ℕ} {s : CStr} (h : wordAt n s = []) : wordAt (n + 1) s = [] := by
  induction n generalizing s with
  | zero => exact word_behind_of_nil h
  | succ n ih => exact ih h

/-- The network and address types of an `o=` line are short, as far as they are read. -/
def OwnerShort (conf : Conf) (s : CStr) : Prop :=
  (numVal ((wordAt 1 s).take maxStringLen)).2 = true → (numVal ((wordAt 2 s).take maxStringLen)).2 = true →
    (wordAt 3 s).length < maxStringLen ∧
      ((findNettype conf (wordAt 3 s)).getD .unsupported ≠ .unsupported → (wordAt 4 s).length < maxStringLen)

/-- The network and address types of a `c=` line are short, when it is the first at its level. -/
def ConnectionShort (level : Level) (d : Desc) (s : CStr) : Prop :=
  ∀ c ∈ connField.get d level, c.nettype = .invalid →
    (wordAt 0 s).length < maxStringLen ∧ (wordAt 1 s).length < maxStringLen

/-- The crypto suite and the key parameters are short, as far as they are read. -/
def SrtpShort (vtype : SrtpAttr) (s : CStr) : Prop :=
  let n := if vtype = .sdescriptions then 1 else 0
  (vtype = .sdescriptions → (numVal ((wordAt 0 s).take maxStringLen)).2 = true) →
    (wordAt n s).length < maxStringLen ∧
      ((CryptoSuite.all.find? fun suite => nameEq (wordAt n s) suite.name).isSome →
        (wordAt (n + 1) s).length < maxStringLen)

theorem ownerCalls_iff (conf : Conf) (s : CStr) : AllFit (ownerCalls conf s) ↔ OwnerShort conf s := by
  have hcalls : AllFit (ownerCalls conf s) ↔ (wordAt 0 s ≠ [] → wordAt 1 s ≠ [] →
      (numVal ((wordAt 1 s).take maxStringLen)).2 = true → wordAt 2 s ≠ [] →
      (numVal ((wordAt 2 s).take maxStringLen)).2 = true → (wordAt 3 s).length < maxStringLen ∧
        (wordAt 3 s ≠ [] → (findNettype conf (wordAt 3 s)).getD .unsupported ≠ .unsupported →
          (wordAt 4 s).length < maxStringLen)) := by
    simp only [ownerCalls, allFit_stored_long, allFit_stored_short, allFit_ite, allFit_nil, implies_true, and_true,
      Bool.not_eq_true', Bool.not_eq_false]
    rfl
  rw [hcalls, OwnerShort]
  have hshort : ∀ n, wordAt n s = [] → (wordAt n s).length < maxStringLen := fun n h => by rw [h]; decide
  constructor
  · intro h hsessid hversion
    by_cases h₂ : wordAt 2 s = []
    · have h₃ := wordAt_succ_of_nil h₂
      exact ⟨hshort 3 h₃, fun _ => hshort 4 (wordAt_succ_of_nil h₃)⟩
    · have h₁ : wordAt 1 s ≠ [] := mt wordAt_succ_of_nil h₂
      obtain ⟨hnettype, haddrtype⟩ := h (mt wordAt_succ_of_nil h₁) h₁ hsessid h₂ hversion
      refine ⟨hnettype, fun hok => ?_⟩
      by_cases h₃ : wordAt 3 s = []
      · exact hshort 4 (wordAt_succ_of_nil h₃)
      · exact haddrtype h₃ hok
  · intro h _ _ hsessid _ hversion
    obtain ⟨hnettype, haddrtype⟩ := h hsessid hversion
    exact ⟨hnettype, fun _ => haddrtype⟩

theorem connectionCalls_iff (conf : Conf) (level : Level) (d : Desc) (s : CStr) :
    AllFit (connectionCalls conf level d s) ↔ ConnectionShort level d s := by
  rw [connectionCalls, ConnectionShort]
  cases hconn : connField.get d level with
  | none => exact iff_of_true allFit_nil (by simp)
  | some c =>
    simp only [Option.mem_some_iff, forall_eq', allFit_ite, not_not, allFit_stored_short, allFit_stored_long]
    refine imp_congr_right fun _ => and_congr_right fun h₀ => ?_
    constructor
    · intro h
      by_cases hnil : wordAt 0 s = []
      · rw [wordAt_succ_of_nil hnil]
        decide
      · exact (h hnil).1
    · intro h₁ _
      refine ⟨h₁, fun _ _ => ?_⟩
      split_ifs with hslash
      · rw [allFit_stored_short]
        refine ⟨?_, fun _ => allFit_nil⟩
        -- the slash is one of the characters of the address
        generalize haddr : (word blanks (behind blanks (behind blanks s maxStringLen) maxStringLen)).take maxStringLen =
          connAddr at hslash ⊢
        have hle : connAddr.length ≤ maxStringLen := haddr ▸ List.length_take_le ..
        have hfound : (findChar ['/'] connAddr).length ≤ connAddr.length := by
          have happend := congrArg List.length (beforeChar_append_findChar ['/'] connAddr)
          rw [List.length_append] at happend
          omega
        have hword := @length_word_le ['/'] (findChar ['/'] connAddr).tail
        cases hfind : findChar ['/'] connAddr with
        | nil => exact absurd (by rw [hfind]; rfl) hslash.2.1
        | cons c r =>
          rw [hfind, List.tail_cons] at hword
          rw [hfind, List.length_cons] at hfound
          rw [List.tail_cons]
          omega
      · exact allFit_nil

theorem cryptoCalls_iff (s : CStr) : AllFit (stored maxStringLen blanks s fun tmp ptr =>
      if (CryptoSuite.all.find? fun s => nameEq tmp s.name).isNone then [] else
      stored maxStringLen blanks ptr fun _ _ => []) ↔
    (wordAt 0 s).length < maxStringLen ∧ ((CryptoSuite.all.find? fun suite => nameEq (wordAt 0 s) suite.name).isSome →
      (wordAt 1 s).length < maxStringLen) := by
  simp only [allFit_stored_short, allFit_ite, allFit_nil, implies_true, and_true]
  refine and_congr_right fun _ => ?_
  rw [Bool.not_eq_true, Option.isNone_eq_false_iff]
  constructor
  · intro h hsuite
    by_cases hnil : wordAt 0 s = []
    · rw [wordAt_succ_of_nil hnil]
      decide
    · exact h hnil hsuite
  · exact fun h _ hsuite => h hsuite

theorem attrSrtpCalls_iff (vtype : SrtpAttr) (s : CStr) : AllFit (attrSrtpCalls vtype s) ↔ SrtpShort vtype s := by
  cases vtype with
  | srtpContext =>
    refine (cryptoCalls_iff s).trans (imp_iff_right ?_).symm
    rintro ⟨⟩
  | sdescriptions =>
    have htag : SrtpShort .sdescriptions s ↔ ((numVal ((wordAt 0 s).take maxStringLen)).2 = true →
        AllFit (stored maxStringLen blanks (behind blanks s maxStringLen) fun tmp ptr =>
          if (CryptoSuite.all.find? fun s => nameEq tmp s.name).isNone then [] else
          stored maxStringLen blanks ptr fun _ _ => [])) :=
      imp_congr (imp_iff_right rfl) (cryptoCalls_iff _).symm
    rw [htag, attrSrtpCalls, if_pos rfl, numTokAt, token_eq]
    by_cases hnil : word blanks s = []
    · rw [if_pos hnil]
      refine iff_of_true allFit_nil fun _ => (cryptoCalls_iff _).mpr ?_
      have h₁ : wordAt 1 s = [] := wordAt_succ_of_nil hnil
      have h₂ : wordAt 2 s = [] := wordAt_succ_of_nil h₁
      change (wordAt 1 s).length < _ ∧ (_ → (wordAt 2 s).length < _)
      rw [h₁, h₂]
      exact ⟨by decide, fun _ => by decide⟩
    · rw [if_neg hnil]
      dsimp only
      rw [allFit_ite, Bool.not_eq_true', Bool.not_eq_false]
      rfl

/-- **The tokens fit their arrays** exactly when the words that are read into an array without room for the longest
token are shorter than it. -/
theorem allFit_iff (conf : Conf) (level : Level) (d : Desc) (vtype : SrtpAttr) (s : CStr) :
    (AllFit (ownerCalls conf s) ↔ OwnerShort conf s) ∧
      (AllFit (connectionCalls conf level d s) ↔ ConnectionShort level d s) ∧
      (AllFit (mediaCalls s) ↔ ∀ n < 3, (wordAt n s).length < maxStringLen) ∧
      (AllFit (attributeCalls level d s) ↔
        (d.hasLevel level = true → (word [':', ' ', '\t'] s).length < maxStringLen)) ∧
      (AllFit (attrGroupCalls s) ↔ (wordAt 0 s).length < 10) ∧
      (AllFit (attrSrtpCalls vtype s) ↔ SrtpShort vtype s) := by
  refine ⟨ownerCalls_iff conf s, connectionCalls_iff conf level d s, ?_, ?_, ?_, attrSrtpCalls_iff vtype s⟩
  · have hshort : ∀ n, wordAt n s = [] → (wordAt (n + 1) s).length < maxStringLen := fun n h => by
      rw [wordAt_succ_of_nil h]
      decide
    have hcalls : AllFit (mediaCalls s) ↔ (wordAt 0 s).length < maxStringLen ∧ (wordAt 0 s ≠ [] →
        (wordAt 1 s).length < maxStringLen ∧ (wordAt 1 s ≠ [] → (wordAt 2 s).length < maxStringLen)) := by
      simp only [mediaCalls, allFit_stored_short, allFit_nil, implies_true, and_true]
      rfl
    rw [hcalls]
    constructor
    · rintro ⟨h₀, hrest⟩ n hn
      have h₁ : (wordAt 1 s).length < maxStringLen := by
        by_cases hnil : wordAt 0 s = []
        · exact hshort 0 hnil
        · exact (hrest hnil).1
      have h₂ : (wordAt 2 s).length < maxStringLen := by
        by_cases hnil : wordAt 1 s = []
        · exact hshort 1 hnil
        · exact (hrest (mt wordAt_succ_of_nil hnil)).2 hnil
      interval_cases n <;> assumption
    · exact fun h => ⟨h 0 (by decide), fun _ => ⟨h 1 (by decide), fun _ => h 2 (by decide)⟩⟩
  · rw [attributeCalls, allFit_ite, allFit_stored_short, Bool.not_eq_true', Bool.not_eq_false]
    exact imp_congr_right fun _ => and_iff_left fun _ => allFit_nil
  · rw [attrGroupCalls, allFit_stored]
    by_cases hnil : word blanks s = []
    · exact iff_of_true (fun hne => absurd hnil hne) (by rw [wordAt, hnil]; decide)
    · have hmin : min maxStringLen (word blanks s).length < 10 ↔ (word blanks s).length < 10 := by
        have h80 : maxStringLen = 80 := rfl
        omega
      rw [imp_iff_right hnil, hmin]
      exact and_iff_left allFit_nil

/-- A group attribute of ten characters. -/
theorem not_allFit_group : ¬ AllFit (attrGroupCalls "CONFERENCE") := by
  intro h
  have htok := h ⟨10, "CONFERENCE"⟩ (by decide)
  exact absurd htok (by decide)

end Sdp
