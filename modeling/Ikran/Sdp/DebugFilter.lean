import Ikran.Lib.CString
import Mathlib.Data.List.TakeWhile
import Mathlib.Data.List.TakeDrop

/-!
# Keys in debug output

`sdp_debug_msg_filter` overwrites the master keys of a message before it is printed.

A pointer into the buffer is the suffix from there on. The loops may look at one character behind the
buffer; nothing is written there when the buffer ends in a line feed, and what is read there has no
effect, since the search ends 21 bytes in front of the end.
-/

namespace Sdp

def cryptoString : CStr := "X-crypto:"

theorem length_cryptoString : cryptoString.length = 9 := rfl

def inlineString : CStr := "inline:"

theorem length_inlineString : inlineString.length = 7 := rfl

def minCryptoStringSizeBytes : ℕ := 21

def charIsWhitespace (c : Char) : Bool := c = ' ' || c = '\t'

def findWhitespace (s : CStr) : CStr := s.dropWhile fun c => !charIsWhitespace c

def skipWhitespace (s : CStr) : CStr := s.dropWhile charIsWhitespace

def endsKey (c : Char) : Bool := c = '|' || c = '\n'

/-- The buffer is at a key line. -/
def isCrypto (s : CStr) : Bool :=
  (s.peek = 'x' || s.peek = 'X') && CStr.strncaseEq s cryptoString cryptoString.length

/-- The buffer is at the keyword in front of a key. -/
def isInline (s : CStr) : Bool := CStr.strncaseEq s inlineString inlineString.length

/-- The place behind the crypto suite name and the blanks that follow it. -/
def behindSuite (s : CStr) : CStr := skipWhitespace (findWhitespace (s.drop cryptoString.length))

/-- The bytes of the buffer from the first pointer up to the second one. -/
def upTo (s t : CStr) : CStr := s.take (s.length - t.length)

/-- The loop over the buffer, with the fuel for `fuel` steps. -/
def filterLoop : ℕ → CStr → CStr
  | 0, s => s
  | fuel + 1, s =>
    if s.length < minCryptoStringSizeBytes then s
    else if isCrypto s then
      if isInline (behindSuite s) then
        let key := (behindSuite s).drop inlineString.length
        let rest := key.dropWhile fun c => !endsKey c
        upTo s key ++ (upTo key rest).map (fun _ => '*') ++
          (rest.take 1 ++ filterLoop fuel (rest.drop 1))
      else
        upTo s (behindSuite s) ++
          ((behindSuite s).take 1 ++ filterLoop fuel ((behindSuite s).drop 1))
    else s.take 1 ++ filterLoop fuel (s.drop 1)

def sdpDebugMsgFilter (buffer : CStr) : CStr := filterLoop buffer.length buffer

/-- The text is the given one up to the case of its letters. -/
def SameUpToCase (s t : CStr) : Prop := s.map Char.toUpper = t.map Char.toUpper

/-- A place in a message that is a key line, with its key, and what is in front of it and behind it. The
key is the longest one. -/
structure KeyLine (b front crypto suite blanks keyword key rest : CStr) : Prop where
  text : b = front ++ (crypto ++ suite ++ blanks ++ keyword ++ key ++ rest)
  crypto : SameUpToCase crypto cryptoString
  suite : ∀ c ∈ suite, charIsWhitespace c = false ∧ c ≠ '\n'
  blanks : blanks ≠ [] ∧ ∀ c ∈ blanks, charIsWhitespace c = true
  keyword : SameUpToCase keyword inlineString
  key : ∀ c ∈ key, endsKey c = false
  rest : ∀ c ∈ rest.head?, endsKey c = true

def IsKey (b : CStr) (i : ℕ) : Prop :=
  ∃ front crypto suite blanks keyword key rest,
    KeyLine b front crypto suite blanks keyword key rest ∧
      b.length - (key ++ rest).length ≤ i ∧ i < b.length - rest.length

/-- The messages are the same but for the keys in them. -/
def SameButKeys (b b' : CStr) : Prop :=
  b.length = b'.length ∧ ∀ i, b[i]? = b'[i]? ∨ (IsKey b i ∧ IsKey b' i)

/-- Every line of the message is terminated. -/
def Terminated (b : CStr) : Prop := ∀ c ∈ b.getLast?, c = '\n'

/-- The output shows nothing of the keys, and everything else. -/
structure KeySecret (b : CStr) : Prop where
  unchanged : ∀ i, ¬ IsKey b i → (sdpDebugMsgFilter b)[i]? = b[i]?
  hidden : ∀ b', Terminated b' → SameButKeys b b' → sdpDebugMsgFilter b = sdpDebugMsgFilter b'

/-! ## Places in the buffer -/

/-- How many characters the condition holds for. -/
def spanLen (q : Char → Bool) (s : CStr) : ℕ := (s.takeWhile q).length

/-- Where the place behind the suite and the blanks is. -/
def valueOff (s : CStr) : ℕ :=
  cryptoString.length + spanLen (fun c => !charIsWhitespace c) (s.drop cryptoString.length) +
    spanLen charIsWhitespace (findWhitespace (s.drop cryptoString.length))

def keyOff (s : CStr) : ℕ := valueOff s + inlineString.length

def keyEnd (s : CStr) : ℕ := keyOff s + spanLen (fun c => !endsKey c) (s.drop (keyOff s))

/-- The key line has a key behind its first blanks. -/
def hasKey (s : CStr) : Bool := isInline (s.drop (valueOff s))

/-- How far the loop goes in one step. -/
def advance (s : CStr) : ℕ :=
  if isCrypto s then (if hasKey s then keyEnd s else valueOff s) + 1 else 1

theorem dropWhile_eq_drop (q : Char → Bool) (s : CStr) : s.dropWhile q = s.drop (spanLen q s) := by
  have hsplit := List.takeWhile_append_dropWhile (p := q) (l := s)
  calc s.dropWhile q
    _ = (s.takeWhile q ++ s.dropWhile q).drop (s.takeWhile q).length := List.drop_left.symm
    _ = s.drop (spanLen q s) := by rw [hsplit, spanLen]

theorem spanLen_le (q : Char → Bool) (s : CStr) : spanLen q s ≤ s.length := (List.takeWhile_prefix q).length_le

theorem behindSuite_eq_drop (s : CStr) : behindSuite s = s.drop (valueOff s) := by
  rw [behindSuite, skipWhitespace, dropWhile_eq_drop, valueOff]
  rw [findWhitespace, dropWhile_eq_drop, List.drop_drop, List.drop_drop]
  congr 1
  omega

theorem upTo_drop (s : CStr) (n : ℕ) : upTo s (s.drop n) = s.take n := by
  rw [upTo, List.length_drop]
  rcases Nat.le_total n s.length with hle | hle
  · congr 1
    omega
  · rw [List.take_of_length_le hle, List.take_of_length_le (by omega)]

def stepOut (s : CStr) : CStr :=
  if isCrypto s && hasKey s then
    s.take (keyOff s) ++ ((s.drop (keyOff s)).take (keyEnd s - keyOff s)).map (fun _ => '*') ++
      (s.drop (keyEnd s)).take 1
  else s.take (advance s)

theorem filterLoop_succ (fuel : ℕ) (s : CStr) : filterLoop (fuel + 1) s =
      if s.length < minCryptoStringSizeBytes then s
      else stepOut s ++ filterLoop fuel (s.drop (advance s)) := by
  rw [filterLoop]
  refine if_congr Iff.rfl rfl ?_
  unfold stepOut advance
  cases hcrypto : isCrypto s with
  | false => simp
  | true =>
    rw [behindSuite_eq_drop, if_pos rfl, if_pos rfl, Bool.true_and]
    change (if hasKey s = true then _ else _) = _
    cases hkey : hasKey s with
    | false =>
      rw [if_neg (by simp), if_neg (by simp), if_neg (by simp), upTo_drop, ← List.append_assoc,
        List.drop_drop]
      congr 1
      rw [List.take_add]
    | true =>
      simp only [if_true]
      rw [List.drop_drop, upTo_drop, dropWhile_eq_drop, upTo_drop, List.drop_drop, ← List.append_assoc, List.drop_drop]
      have hend : keyEnd s - keyOff s = spanLen (fun c => !endsKey c) (s.drop (valueOff s + inlineString.length)) := by
        rw [keyEnd, keyOff, Nat.add_sub_cancel_left]
      rw [hend]
      rfl

/-! ## The search -/

/-- The places that the loop comes to. -/
inductive Reached (b : CStr) : ℕ → Prop
  | start : Reached b 0
  | next {p} (h : Reached b p) (hlen : minCryptoStringSizeBytes ≤ (b.drop p).length) :
      Reached b (p + advance (b.drop p))

/-- The key line at the place has a key behind it, which contains the byte. -/
def InRun (b : CStr) (p i : ℕ) : Prop :=
  isCrypto (b.drop p) = true ∧ hasKey (b.drop p) = true ∧ p + keyOff (b.drop p) ≤ i ∧
    i < p + keyEnd (b.drop p)

def Overwritten (b : CStr) (i : ℕ) : Prop :=
  ∃ p, Reached b p ∧ minCryptoStringSizeBytes ≤ (b.drop p).length ∧ InRun b p i

theorem advance_pos (s : CStr) : 0 < advance s := by
  unfold advance
  split_ifs <;> omega

theorem keyOff_le_keyEnd (s : CStr) : keyOff s ≤ keyEnd s := Nat.le_add_right _ _

variable {b : CStr} {p : ℕ}

theorem reached_iff : Reached b p ↔ p = 0 ∨ (minCryptoStringSizeBytes ≤ b.length ∧
      ∃ q, p = advance b + q ∧ Reached (b.drop (advance b)) q) := by
  constructor
  · intro h
    induction h with
    | start => exact .inl rfl
    | @next p h hlen ih =>
      rcases ih with rfl | ⟨hb, q, rfl, hq⟩
      · exact .inr ⟨hlen, 0, by simp, .start⟩
      · refine .inr ⟨hb, q + advance (b.drop (advance b + q)), by omega, ?_⟩
        rw [← List.drop_drop] at hlen ⊢
        exact .next hq hlen
  · rintro (rfl | ⟨hb, q, rfl, hq⟩)
    · exact .start
    · induction hq with
      | start => simpa using Reached.next (b := b) .start hb
      | @next q hq hlen ih =>
        rw [List.drop_drop] at hlen ⊢
        rw [← Nat.add_assoc]
        exact .next ih hlen

variable {i : ℕ}

theorem overwritten_iff : Overwritten b i ↔ minCryptoStringSizeBytes ≤ b.length ∧
      (InRun b 0 i ∨ (advance b ≤ i ∧ Overwritten (b.drop (advance b)) (i - advance b))) := by
  constructor
  · rintro ⟨p, hp, hlen, hcrypto, hkey, hoff, hend⟩
    rcases reached_iff.mp hp with rfl | ⟨hb, q, rfl, hq⟩
    · exact ⟨hlen, .inl ⟨hcrypto, hkey, hoff, hend⟩⟩
    · rw [← List.drop_drop] at hlen hcrypto hkey hoff hend
      exact ⟨hb, .inr ⟨by omega, q, hq, hlen, hcrypto, hkey, by omega, by omega⟩⟩
  · rintro ⟨hb, ⟨hcrypto, hkey, hoff, hend⟩ | ⟨hle, q, hq, hlen, hcrypto, hkey, hoff, hend⟩⟩
    · exact ⟨0, .start, hb, hcrypto, hkey, hoff, hend⟩
    · refine ⟨advance b + q, reached_iff.mpr (.inr ⟨hb, q, rfl, hq⟩), ?_⟩
      rw [List.drop_drop] at hlen hcrypto hkey hoff hend
      exact ⟨hlen, hcrypto, hkey, by omega, by omega⟩

theorem length_stepOut (s : CStr) : (stepOut s).length = min (advance s) s.length := by
  unfold stepOut advance
  have hle := keyOff_le_keyEnd s
  cases hcrypto : isCrypto s <;> cases hkey : hasKey s <;>
    simp only [Bool.and_true, Bool.and_false, Bool.false_eq_true, if_true, if_false, List.length_take,
      List.length_append, List.length_map, List.length_drop]
  omega

theorem getElem?_overwrite (s : CStr) (k n i : ℕ) (hi : i ≤ k + n) :
    (s.take k ++ ((s.drop k).take n).map (fun _ => '*') ++ (s.drop (k + n)).take 1)[i]? =
      if k ≤ i ∧ i < k + n then s[i]?.map (fun _ => '*') else s[i]? := by
  by_cases hlen : i < s.length
  · rcases Nat.lt_or_ge i k with hlt | hge
    · rw [if_neg (by omega), List.append_assoc, List.getElem?_append_left (by simp; omega),
        List.getElem?_take_of_lt hlt]
    · have hk : (s.take k).length = k := by
        rw [List.length_take]
        omega
      rw [List.append_assoc, List.getElem?_append_right (by omega), hk]
      rcases Nat.lt_or_ge i (k + n) with hin | hout
      · rw [if_pos ⟨hge, hin⟩, List.getElem?_append_left (by simp; omega), List.getElem?_map,
          List.getElem?_take_of_lt (by omega), List.getElem?_drop]
        congr 2
        omega
      · obtain rfl : i = k + n := by omega
        have hn : (((s.drop k).take n).map fun _ => '*').length = n := by
          simp only [List.length_map, List.length_take, List.length_drop]
          omega
        rw [if_neg (by omega), List.getElem?_append_right (by omega), hn,
          List.getElem?_take_of_lt (by omega), List.getElem?_drop]
        congr 1
        omega
  · have hnone : s[i]? = none := List.getElem?_eq_none (by omega)
    rw [hnone, List.getElem?_eq_none]
    · simp
    · simp only [List.length_append, List.length_take, List.length_map, List.length_drop]
      omega

variable {s : CStr}

theorem getElem?_stepOut (hi : i < advance s) : (InRun s 0 i → (stepOut s)[i]? = s[i]?.map fun _ => '*') ∧
      (¬ InRun s 0 i → (stepOut s)[i]? = s[i]?) := by
  have hle := keyOff_le_keyEnd s
  unfold stepOut InRun
  unfold advance at hi ⊢
  cases hcrypto : isCrypto s <;> cases hkey : hasKey s <;> simp only [hcrypto, hkey, if_true,
    Bool.false_eq_true, if_false] at hi
  · simp [hcrypto, List.getElem?_take_of_lt hi]
  · simp [hcrypto, List.getElem?_take_of_lt hi]
  · simp [hcrypto, hkey, List.getElem?_take_of_lt hi]
  · have hover := getElem?_overwrite s (keyOff s) (keyEnd s - keyOff s) i (by omega)
    rw [Nat.add_sub_cancel' hle] at hover
    simp only [Bool.and_true, if_true, List.drop_zero, hcrypto, hkey, Nat.zero_add, true_and, hover]
    constructor
    · exact fun hin => if_pos hin
    · exact fun hout => if_neg hout

theorem lt_advance_of_inRun (h : InRun s 0 i) : i < advance s := by
  obtain ⟨hcrypto, hkey, -, hend⟩ := h
  simp only [List.drop_zero, Nat.zero_add] at hcrypto hkey hend
  rw [advance, if_pos hcrypto, if_pos hkey]
  omega

theorem filterLoop_of_lt {fuel : ℕ} (h : s.length < minCryptoStringSizeBytes) : filterLoop fuel s = s := by
  cases fuel with
  | zero => rfl
  | succ fuel => rw [filterLoop_succ, if_pos h]

theorem getElem?_filterLoop (fuel : ℕ) (s : CStr) (hfuel : s.length ≤ fuel) (i : ℕ) :
    (Overwritten s i → (filterLoop fuel s)[i]? = s[i]?.map fun _ => '*') ∧
      (¬ Overwritten s i → (filterLoop fuel s)[i]? = s[i]?) := by
  induction fuel generalizing s i with
  | zero =>
    rw [List.length_eq_zero_iff.mp (Nat.le_zero.mp hfuel)]
    simp [filterLoop]
  | succ fuel ih =>
    by_cases hlen : s.length < minCryptoStringSizeBytes
    · rw [filterLoop_of_lt hlen, overwritten_iff]
      exact ⟨fun h => absurd h.1 (by omega), fun _ => rfl⟩
    · have hpos := advance_pos s
      have hlen' : minCryptoStringSizeBytes ≤ s.length := by omega
      have hrec := ih (s.drop (advance s)) (by rw [List.length_drop]; omega) (i - advance s)
      rw [filterLoop_succ, if_neg hlen, overwritten_iff]
      rcases Nat.lt_or_ge i (advance s) with hlt | hge
      · have hfirst : (stepOut s ++ filterLoop fuel (s.drop (advance s)))[i]? = (stepOut s)[i]? := by
          rcases Nat.lt_or_ge i s.length with hin | hout
          · rw [List.getElem?_append_left (by rw [length_stepOut]; omega)]
          · rw [List.drop_of_length_le (by omega), filterLoop_of_lt (by decide), List.append_nil]
        obtain ⟨hyes, hno⟩ := getElem?_stepOut hlt
        rw [hfirst]
        constructor
        · rintro ⟨-, hrun | ⟨hle, -⟩⟩
          · exact hyes hrun
          · omega
        · exact fun hnot => hno fun hrun => hnot ⟨hlen', .inl hrun⟩
      · have hrest : (stepOut s ++ filterLoop fuel (s.drop (advance s)))[i]? =
            (filterLoop fuel (s.drop (advance s)))[i - advance s]? := by
          rcases Nat.lt_or_ge (advance s) s.length with hin | hout
          · have hstep : (stepOut s).length = advance s := by
              rw [length_stepOut]
              omega
            rw [List.getElem?_append_right (by omega), hstep]
          · rw [List.drop_of_length_le hout, filterLoop_of_lt (by decide), List.append_nil,
              List.getElem?_eq_none (by rw [length_stepOut]; omega)]
            simp
        have hsame : (s.drop (advance s))[i - advance s]? = s[i]? := by
          rw [List.getElem?_drop]
          congr 1
          omega
        rw [hrest]
        rw [hsame] at hrec
        constructor
        · rintro ⟨-, hrun | ⟨-, hover⟩⟩
          · exact absurd (lt_advance_of_inRun hrun) (by omega)
          · exact hrec.1 hover
        · exact fun hnot => hrec.2 fun hover => hnot ⟨hlen', .inr ⟨hge, hover⟩⟩

/-- **What the filter writes.** The bytes of the keys that it comes to are overwritten, and all others
stay. -/
theorem getElem?_filter (b : CStr) (i : ℕ) : (Overwritten b i → (sdpDebugMsgFilter b)[i]? = b[i]?.map fun _ => '*') ∧
      (¬ Overwritten b i → (sdpDebugMsgFilter b)[i]? = b[i]?) :=
  getElem?_filterLoop b.length b le_rfl i

/-! ## Key lines -/

variable {c : Char}

theorem eq_of_toUpper_eq_X (h : c.toUpper = 'X') : c = 'x' ∨ c = 'X' := by
  rcases CStr.toUpper_cases c with heq | ⟨hnum, -, -⟩
  · exact .inr (heq ▸ h)
  · left
    rw [h] at hnum
    exact Char.toNat_inj.mp hnum.symm

theorem SameUpToCase.length_eq {t : CStr} (h : SameUpToCase s t) : s.length = t.length := by
  have hlen := congrArg List.length h
  simpa using hlen

theorem isCrypto_iff : isCrypto s = true ↔ SameUpToCase (s.take cryptoString.length) cryptoString := by
  rw [isCrypto, Bool.and_eq_true, CStr.strncaseEq_iff (by decide)]
  refine and_iff_right_of_imp fun h => ?_
  cases s with
  | nil =>
    have hlen := SameUpToCase.length_eq h
    rw [List.take_nil, length_cryptoString] at hlen
    exact absurd hlen (by decide)
  | cons c s =>
    have hhead : c.toUpper = 'X' := by
      rw [length_cryptoString, List.take_succ_cons] at h
      exact Option.some.inj (congrArg List.head? h)
    rcases eq_of_toUpper_eq_X hhead with rfl | rfl <;> simp

theorem isInline_iff : isInline s = true ↔ SameUpToCase (s.take inlineString.length) inlineString :=
  CStr.strncaseEq_iff (by decide)

theorem SameUpToCase.not_mem {t : CStr} (h : SameUpToCase s t) (hc : c.toUpper ∉ t.map Char.toUpper) : c ∉ s := by
  intro hmem
  exact hc (h ▸ List.mem_map_of_mem hmem)

variable {q : Char → Bool}

theorem spanLen_append {t : CStr} (hs : ∀ c ∈ s, q c = true)
    (ht : ∀ c ∈ t.head?, q c = false) : spanLen q (s ++ t) = s.length := by
  rw [spanLen, List.takeWhile_append_of_pos hs]
  cases t with
  | nil => simp
  | cons c t => simp [ht c rfl]

/-- The parts of a key line from its start on. -/
def FormAt (b : CStr) (p : ℕ) : Prop :=
  isCrypto (b.drop p) = true ∧ hasKey (b.drop p) = true ∧
    '\n' ∉ (b.drop p).take (valueOff (b.drop p))

theorem KeyLine.offsets {front crypto suite blanks keyword key rest : CStr}
    (h : KeyLine b front crypto suite blanks keyword key rest) :
    FormAt b front.length ∧ front.length + keyOff (b.drop front.length) = b.length - (key ++ rest).length ∧
      front.length + keyEnd (b.drop front.length) = b.length - rest.length := by
  have hcrypto : crypto.length = cryptoString.length := h.crypto.length_eq
  have hkeyword : keyword.length = inlineString.length := h.keyword.length_eq
  have hdrop : b.drop front.length = crypto ++ (suite ++ (blanks ++ (keyword ++ (key ++ rest)))) := by
    rw [h.text, List.drop_left]
    simp only [List.append_assoc]
  have hbehind : (b.drop front.length).drop cryptoString.length = suite ++ (blanks ++ (keyword ++ (key ++ rest))) := by
    rw [hdrop, ← hcrypto, List.drop_left]
  have hsuite : spanLen (fun c => !charIsWhitespace c)
      (suite ++ (blanks ++ (keyword ++ (key ++ rest)))) = suite.length := by
    refine spanLen_append (fun c hc => by simp [(h.suite c hc).1]) fun c hc => ?_
    obtain ⟨d, blanks', hblanks⟩ := List.exists_cons_of_ne_nil h.blanks.1
    rw [hblanks] at hc
    obtain rfl : d = c := by simpa using hc
    simp [h.blanks.2 d (by simp [hblanks])]
  have hfind : findWhitespace (suite ++ (blanks ++ (keyword ++ (key ++ rest)))) =
      blanks ++ (keyword ++ (key ++ rest)) := by
    rw [findWhitespace, dropWhile_eq_drop, hsuite, List.drop_left]
  have hblank : spanLen charIsWhitespace (blanks ++ (keyword ++ (key ++ rest))) = blanks.length := by
    refine spanLen_append h.blanks.2 fun c hc => ?_
    have hmem : c ∈ keyword := by
      cases keyword with
      | nil => exact absurd hkeyword (by decide)
      | cons d keyword =>
        obtain rfl : d = c := by simpa using hc
        simp
    simp only [charIsWhitespace, Bool.or_eq_false_iff, decide_eq_false_iff_not]
    refine ⟨?_, ?_⟩ <;> rintro rfl <;> exact h.keyword.not_mem (by decide) hmem
  have hvalue : valueOff (b.drop front.length) = (crypto ++ suite ++ blanks).length := by
    rw [valueOff, hbehind, hsuite, hfind, hblank, ← hcrypto]
    simp only [List.length_append]
  have hoff : keyOff (b.drop front.length) = (crypto ++ suite ++ blanks ++ keyword).length := by
    rw [keyOff, hvalue, ← hkeyword, @List.length_append _ _ keyword]
  have hend : keyEnd (b.drop front.length) = (crypto ++ suite ++ blanks ++ keyword ++ key).length := by
    have hkey : (b.drop front.length).drop (keyOff (b.drop front.length)) = key ++ rest := by
      have hassoc : crypto ++ (suite ++ (blanks ++ (keyword ++ (key ++ rest)))) =
          crypto ++ suite ++ blanks ++ keyword ++ (key ++ rest) := by
        simp only [List.append_assoc]
      rw [hoff, hdrop, hassoc, List.drop_left]
    have hspan : spanLen (fun c => !endsKey c) (key ++ rest) = key.length :=
      spanLen_append (fun c hc => by simp [h.key c hc]) (fun c hc => by simp [h.rest c hc])
    rw [keyEnd, hkey, hspan, hoff, @List.length_append _ _ key]
  have hlen := congrArg List.length h.text
  refine ⟨⟨?_, ?_, ?_⟩, ?_, ?_⟩
  · rw [isCrypto_iff, hdrop, ← hcrypto, List.take_left]
    exact h.crypto
  · have hassoc : crypto ++ (suite ++ (blanks ++ (keyword ++ (key ++ rest)))) =
        crypto ++ suite ++ blanks ++ (keyword ++ (key ++ rest)) := by
      simp only [List.append_assoc]
    rw [hasKey, isInline_iff, hvalue, hdrop, hassoc, List.drop_left, ← hkeyword, List.take_left]
    exact h.keyword
  · have hassoc : crypto ++ (suite ++ (blanks ++ (keyword ++ (key ++ rest)))) =
        crypto ++ suite ++ blanks ++ (keyword ++ (key ++ rest)) := by
      simp only [List.append_assoc]
    rw [hvalue, hdrop, hassoc, List.take_left]
    simp only [List.mem_append, not_or]
    refine ⟨⟨h.crypto.not_mem (by decide), fun hmem => (h.suite _ hmem).2 rfl⟩, fun hmem => ?_⟩
    exact absurd (h.blanks.2 _ hmem) (by decide)
  · rw [hoff]
    simp only [List.length_append] at hlen ⊢
    omega
  · rw [hend]
    simp only [List.length_append] at hlen ⊢
    omega

theorem FormAt.keyLine (h : FormAt b p) : ∃ front crypto suite blanks keyword key rest,
      KeyLine b front crypto suite blanks keyword key rest ∧ front.length = p := by
  obtain ⟨hcrypto, hkey, hline⟩ := h
  generalize hs : b.drop p = s at hcrypto hkey hline
  rw [isCrypto_iff] at hcrypto
  have hlen : cryptoString.length ≤ s.length := by
    have hlen := hcrypto.length_eq
    rw [List.length_take] at hlen
    omega
  have hbehind := behindSuite_eq_drop s
  rw [behindSuite, skipWhitespace] at hbehind
  rw [hasKey, ← hbehind, isInline_iff] at hkey
  have hsuite := List.takeWhile_append_dropWhile (p := fun c => !charIsWhitespace c)
    (l := s.drop cryptoString.length)
  have hblanks := List.takeWhile_append_dropWhile (p := charIsWhitespace)
    (l := findWhitespace (s.drop cryptoString.length))
  have hvalue : valueOff s = (s.take cryptoString.length ++
      (s.drop cryptoString.length).takeWhile (fun c => !charIsWhitespace c) ++
      (findWhitespace (s.drop cryptoString.length)).takeWhile charIsWhitespace).length := by
    simp only [List.length_append, List.length_take, valueOff, spanLen]
    omega
  generalize ht : (findWhitespace (s.drop cryptoString.length)).dropWhile charIsWhitespace = t at hbehind hkey hblanks
  have hrest := List.takeWhile_append_dropWhile (p := fun c => !endsKey c)
    (l := t.drop inlineString.length)
  have htext : s = s.take cryptoString.length ++
      (s.drop cryptoString.length).takeWhile (fun c => !charIsWhitespace c) ++
      (findWhitespace (s.drop cryptoString.length)).takeWhile charIsWhitespace ++
      t.take inlineString.length ++ (t.drop inlineString.length).takeWhile (fun c => !endsKey c) ++
      (t.drop inlineString.length).dropWhile (fun c => !endsKey c) := by
    simp only [List.append_assoc]
    rw [hrest, List.take_append_drop, hblanks, findWhitespace, hsuite, List.take_append_drop]
  refine ⟨b.take p, s.take cryptoString.length, (s.drop cryptoString.length).takeWhile (fun c => !charIsWhitespace c),
    (findWhitespace (s.drop cryptoString.length)).takeWhile charIsWhitespace,
    t.take inlineString.length, (t.drop inlineString.length).takeWhile (fun c => !endsKey c),
    (t.drop inlineString.length).dropWhile (fun c => !endsKey c),
    ⟨?_, hcrypto, ?_, ⟨?_, ?_⟩, hkey, ?_, ?_⟩, ?_⟩
  · rw [← htext, ← hs, List.take_append_drop]
  · intro c hc
    refine ⟨by simpa using List.mem_takeWhile_imp hc, ?_⟩
    rintro rfl
    refine hline ?_
    have hpre : s.take cryptoString.length ++ (s.drop cryptoString.length).takeWhile (fun c => !charIsWhitespace c) ++
        (findWhitespace (s.drop cryptoString.length)).takeWhile charIsWhitespace <+: s := by
      conv_rhs => rw [htext]
      exact ((List.prefix_append _ _).trans (List.prefix_append _ _)).trans (List.prefix_append _ _)
    rw [hvalue, ← List.prefix_iff_eq_take.mp hpre]
    exact List.mem_append_left _ (List.mem_append_right _ hc)
  · intro hnil
    rw [hnil, List.nil_append] at hblanks
    have hhead := List.head?_dropWhile_not (fun c => !charIsWhitespace c)
      (s.drop cryptoString.length)
    rw [← findWhitespace, ← hblanks] at hhead
    cases t with
    | nil => exact absurd hkey.length_eq (by decide)
    | cons c t =>
      rw [← hblanks, List.takeWhile_cons] at hnil
      simp only [List.head?_cons, Bool.not_eq_false'] at hhead
      simp [hhead] at hnil
  · exact fun c hc => List.mem_takeWhile_imp hc
  · exact fun c hc => by simpa using List.mem_takeWhile_imp hc
  · intro c hc
    have hhead := List.head?_dropWhile_not (fun c => !endsKey c) (t.drop inlineString.length)
    rw [Option.mem_def.mp hc] at hhead
    simpa using hhead
  · have hslen := congrArg List.length hs
    rw [List.length_drop] at hslen
    rw [length_cryptoString] at hlen
    rw [List.length_take]
    omega

theorem isKey_iff : IsKey b i ↔ ∃ p, FormAt b p ∧ p + keyOff (b.drop p) ≤ i ∧ i < p + keyEnd (b.drop p) := by
  constructor
  · rintro ⟨front, crypto, suite, blanks, keyword, key, rest, h, hle, hlt⟩
    obtain ⟨hform, hoff, hend⟩ := h.offsets
    exact ⟨front.length, hform, by omega, by omega⟩
  · rintro ⟨p, hform, hle, hlt⟩
    obtain ⟨front, crypto, suite, blanks, keyword, key, rest, h, rfl⟩ := hform.keyLine
    obtain ⟨-, hoff, hend⟩ := h.offsets
    exact ⟨front, crypto, suite, blanks, keyword, key, rest, h, by omega, by omega⟩

/-! ## Counted key lines -/

/-- A key line is counted unless it is too near to the end of the buffer, or a counted one in front of it
covers it: with what is behind its first blanks, or with the key there and the character behind the key. -/
def Counted (b : CStr) (p : ℕ) : Prop :=
  isCrypto (b.drop p) = true ∧ minCryptoStringSizeBytes ≤ (b.drop p).length ∧
    ∀ c, c < p → Counted b c → c + advance (b.drop c) ≤ p
termination_by p

theorem Reached.advance_le {q : ℕ} (hp : Reached b p) (hq : Reached b q) (hlt : p < q) :
    p + advance (b.drop p) ≤ q := by
  induction p using Nat.strong_induction_on generalizing b q with
  | h p ih =>
    rcases reached_iff.mp hq with rfl | ⟨-, q', rfl, hq'⟩
    · omega
    · rcases reached_iff.mp hp with rfl | ⟨-, p', rfl, hp'⟩
      · simp
      · have hpos := advance_pos b
        have hrec := ih p' (by omega) hp' hq' (by omega)
        rw [List.drop_drop] at hrec
        omega

theorem exists_reached_le (hlen : minCryptoStringSizeBytes ≤ (b.drop p).length) :
    ∃ q, q ≤ p ∧ Reached b q ∧ (q = p ∨ p < q + advance (b.drop q)) := by
  induction p with
  | zero => exact ⟨0, le_rfl, .start, .inl rfl⟩
  | succ p ih =>
    simp only [List.length_drop] at hlen ih
    specialize ih (Nat.le_trans hlen (Nat.sub_le_sub_left (Nat.le_succ p) _))
    obtain ⟨q, hle, hq, hcover⟩ := ih
    have hpos := advance_pos (b.drop q)
    have hnext : Reached b (q + advance (b.drop q)) := .next hq (by rw [List.length_drop]; omega)
    by_cases hlt : p + 1 < q + advance (b.drop q)
    · exact ⟨q, by omega, hq, .inr hlt⟩
    · have heq : q + advance (b.drop q) = p + 1 := by
        rcases hcover with rfl | hcover <;> omega
      exact ⟨p + 1, le_rfl, heq ▸ hnext, .inl rfl⟩

theorem counted_iff : Counted b p ↔ Reached b p ∧ minCryptoStringSizeBytes ≤ (b.drop p).length ∧
      isCrypto (b.drop p) = true := by
  induction p using Nat.strong_induction_on with
  | h p ih =>
    rw [Counted]
    constructor
    · rintro ⟨hcrypto, hlen, hcover⟩
      refine ⟨?_, hlen, hcrypto⟩
      obtain ⟨q, hle, hq, rfl | hlt⟩ := exists_reached_le hlen
      · exact hq
      · rcases Nat.lt_or_eq_of_le hle with hlt' | rfl
        · -- only a key line goes over more than one place
          have hcrypto' : isCrypto (b.drop q) = true := by
            by_contra hno
            rw [advance, if_neg hno] at hlt
            omega
          have hlen' : minCryptoStringSizeBytes ≤ (b.drop q).length := by
            simp only [List.length_drop] at hlen ⊢
            omega
          have := hcover q hlt' ((ih q hlt').mpr ⟨hq, hlen', hcrypto'⟩)
          omega
        · exact hq
    · rintro ⟨hp, hlen, hcrypto⟩
      exact ⟨hcrypto, hlen, fun c hlt hc => ((ih c hlt).mp hc).1.advance_le hp hlt⟩

theorem overwritten_iff_counted : Overwritten b i ↔ ∃ c, Counted b c ∧ InRun b c i := by
  constructor
  · rintro ⟨c, hc, hlen, hrun⟩
    exact ⟨c, counted_iff.mpr ⟨hc, hlen, hrun.1⟩, hrun⟩
  · rintro ⟨c, hc, hrun⟩
    obtain ⟨hreached, hlen, -⟩ := counted_iff.mp hc
    exact ⟨c, hreached, hlen, hrun⟩

/-! ## Messages that are searched alike -/

theorem le_keyOff (s : CStr) : 16 ≤ keyOff s := by
  rw [keyOff, valueOff, length_cryptoString, length_inlineString]
  omega

/-- From a place that the loop comes to, the next bytes that are overwritten are those of the key there,
or far behind the next place. -/
theorem Reached.of_overwritten (hp : Reached b p) (hi : Overwritten b i) :
    i < p ∨ InRun b p i ∨ p + advance (b.drop p) + 16 ≤ i := by
  obtain ⟨q, hq, -, hrun⟩ := hi
  rcases Nat.lt_trichotomy q p with hlt | rfl | hgt
  · left
    have hle := hq.advance_le hp hlt
    rw [advance, if_pos hrun.1, if_pos hrun.2.1] at hle
    have := hrun.2.2.2
    omega
  · exact .inr (.inl hrun)
  · have hle := hp.advance_le hq hgt
    have hoff := le_keyOff (b.drop q)
    have := hrun.2.2.1
    exact .inr (.inr (by omega))

theorem spanLen_eq {k : ℕ} (hk : k ≤ s.length)
    (hall : ∀ i, i < k → ∀ c ∈ s[i]?, q c = true) (hend : ∀ c ∈ s[k]?, q c = false) :
    spanLen q s = k := by
  have hspan := spanLen_append (q := q) (s := s.take k) (t := s.drop k) ?_ ?_
  · rw [List.take_append_drop, List.length_take, Nat.min_eq_left hk] at hspan
    exact hspan
  · intro c hc
    obtain ⟨i, hi, rfl⟩ := List.mem_iff_getElem.mp hc
    rw [List.length_take] at hi
    refine hall i (by omega) _ ?_
    rw [List.getElem_take, List.getElem?_eq_getElem (by omega)]
    rfl
  · intro c hc
    rw [List.head?_drop] at hc
    exact hend c hc

theorem of_lt_spanLen (hi : i < spanLen q s) : ∀ c ∈ s[i]?, q c = true := by
  intro c hc
  have hget : (s.takeWhile q)[i]? = some c := by
    calc (s.takeWhile q)[i]?
      _ = (s.takeWhile q ++ s.dropWhile q)[i]? := (List.getElem?_append_left hi).symm
      _ = some c := by rw [List.takeWhile_append_dropWhile, Option.mem_def.mp hc]
  exact List.mem_takeWhile_imp (List.mem_of_getElem? hget)

theorem not_of_spanLen : ∀ c ∈ s[spanLen q s]?, q c = false := by
  intro c hc
  have hhead := List.head?_dropWhile_not q s
  rw [dropWhile_eq_drop, List.head?_drop, Option.mem_def.mp hc] at hhead
  simpa using hhead

variable {s' : CStr}

theorem spanLen_congr (h : ∀ i, i ≤ spanLen q s → s[i]? = s'[i]?) : spanLen q s' = spanLen q s := by
  have hle := spanLen_le q s
  refine spanLen_eq ?_ (fun i hi c hc => ?_) fun c hc => ?_
  · by_contra hlt
    have hnone : s'[spanLen q s - 1]? = none := List.getElem?_eq_none (by omega)
    rw [← h _ (by omega), List.getElem?_eq_none_iff] at hnone
    omega
  · rw [← h i (by omega)] at hc
    exact of_lt_spanLen hi c hc
  · rw [← h _ le_rfl] at hc
    exact not_of_spanLen c hc

/-- The texts are the same in front of the place. -/
def SameBelow (m : ℕ) (s s' : CStr) : Prop := ∀ i, i < m → s[i]? = s'[i]?

variable {m : ℕ}

theorem SameBelow.take_drop (h : SameBelow m s s') {k n : ℕ} (hle : k + n ≤ m) :
    (s.drop k).take n = (s'.drop k).take n := by
  refine List.ext_getElem? fun i => ?_
  rcases Nat.lt_or_ge i n with hlt | hge
  · rw [List.getElem?_take_of_lt hlt, List.getElem?_take_of_lt hlt, List.getElem?_drop, List.getElem?_drop]
    exact h _ (by omega)
  · rw [List.getElem?_eq_none (by rw [List.length_take]; omega),
      List.getElem?_eq_none (by rw [List.length_take]; omega)]

theorem SameBelow.isCrypto_eq (h : SameBelow m s s') (hm : cryptoString.length ≤ m) : isCrypto s' = isCrypto s := by
  have htake := h.take_drop (k := 0) (n := cryptoString.length) (by omega)
  rw [Bool.eq_iff_iff, isCrypto_iff, isCrypto_iff, ← List.drop_zero (l := s), htake, List.drop_zero]

theorem SameBelow.valueOff_eq (h : SameBelow m s s') (hm : valueOff s < m) : valueOff s' = valueOff s := by
  have hsuite : spanLen (fun c => !charIsWhitespace c) (s'.drop cryptoString.length) =
      spanLen (fun c => !charIsWhitespace c) (s.drop cryptoString.length) := by
    refine spanLen_congr fun i hi => ?_
    rw [List.getElem?_drop, List.getElem?_drop]
    refine h _ ?_
    unfold valueOff at hm
    omega
  have hblanks : spanLen charIsWhitespace (findWhitespace (s'.drop cryptoString.length)) =
      spanLen charIsWhitespace (findWhitespace (s.drop cryptoString.length)) := by
    unfold valueOff at hm
    simp only [findWhitespace, dropWhile_eq_drop, hsuite] at hm ⊢
    refine spanLen_congr fun i hi => ?_
    simp only [List.getElem?_drop]
    exact h _ (by omega)
  rw [valueOff, hsuite, hblanks, valueOff]

theorem SameBelow.hasKey_eq (h : SameBelow m s s') (hm : keyOff s ≤ m) : hasKey s' = hasKey s := by
  have hlt : valueOff s < m := by
    rw [keyOff, length_inlineString] at hm
    omega
  have htake := h.take_drop (k := valueOff s) (n := inlineString.length) hm
  rw [Bool.eq_iff_iff, hasKey, hasKey, isInline_iff, isInline_iff, h.valueOff_eq hlt, htake]

/-- The messages are the same but for bytes that are overwritten in the first one, and are part of no end
of a key in the second one. -/
def SameButOverwritten (b b' : CStr) : Prop :=
  b.length = b'.length ∧
    ∀ i, b[i]? = b'[i]? ∨ (Overwritten b i ∧ ∀ c ∈ b'[i]?, endsKey c = false)

variable {b' : CStr}

theorem SameButOverwritten.sameBelow (h : SameButOverwritten b b')
    (hp : Reached b p) (hadv : m ≤ advance (b.drop p) + 16)
    (hrun : ∀ i, i < m → ¬ InRun b p (p + i)) : SameBelow m (b.drop p) (b'.drop p) := by
  intro i hi
  rw [List.getElem?_drop, List.getElem?_drop]
  rcases h.2 (p + i) with heq | ⟨hover, -⟩
  · exact heq
  · rcases hp.of_overwritten hover with hlt | hin | hge
    · omega
    · exact absurd hin (hrun i hi)
    · omega

theorem SameButOverwritten.keyEnd_eq (h : SameButOverwritten b b')
    (hp : Reached b p) (hcrypto : isCrypto (b.drop p) = true) (hkey : hasKey (b.drop p) = true)
    (hoff : keyOff (b'.drop p) = keyOff (b.drop p)) :
    keyEnd (b'.drop p) = keyEnd (b.drop p) := by
  have hadv : advance (b.drop p) = keyEnd (b.drop p) + 1 := by
    rw [advance, if_pos hcrypto, if_pos hkey]
  have hsplit : keyEnd (b.drop p) = keyOff (b.drop p) +
      spanLen (fun c => !endsKey c) ((b.drop p).drop (keyOff (b.drop p))) := rfl
  rw [keyEnd, hoff, hsplit, Nat.add_left_cancel_iff]
  have hle := spanLen_le (fun c => !endsKey c) ((b.drop p).drop (keyOff (b.drop p)))
  refine spanLen_eq ?_ (fun i hi c hc => ?_) fun c hc => ?_
  · simp only [List.length_drop] at hle ⊢
    rw [← h.1]
    exact hle
  · rw [List.getElem?_drop, List.getElem?_drop] at hc
    rcases h.2 (p + (keyOff (b.drop p) + i)) with heq | ⟨-, hno⟩
    · rw [← heq, ← List.getElem?_drop, ← List.getElem?_drop] at hc
      exact of_lt_spanLen hi c hc
    · rw [hno c hc, Bool.not_false]
  · -- the character that ends the key is not overwritten
    rw [List.getElem?_drop, List.getElem?_drop] at hc
    rcases h.2 (p + (keyOff (b.drop p) +
      spanLen (fun c => !endsKey c) ((b.drop p).drop (keyOff (b.drop p))))) with heq | ⟨hover, -⟩
    · rw [← heq, ← List.getElem?_drop, ← List.getElem?_drop] at hc
      exact not_of_spanLen c hc
    · exfalso
      rcases hp.of_overwritten hover with hlt | hin | hge
      · omega
      · have := hin.2.2.2
        omega
      · omega

theorem SameButOverwritten.step (h : SameButOverwritten b b') (hp : Reached b p) :
    advance (b'.drop p) = advance (b.drop p) ∧ ∀ i, InRun b' p i ↔ InRun b p i := by
  cases hcrypto : isCrypto (b.drop p) with
  | false =>
    have hsame := h.sameBelow hp (m := 9) (by have := advance_pos (b.drop p); omega)
      fun i _ hin => Bool.false_ne_true (hcrypto.symm.trans hin.1)
    have hcrypto' := (hsame.isCrypto_eq le_rfl).trans hcrypto
    refine ⟨by simp [advance, hcrypto, hcrypto'], fun i => ?_⟩
    simp [InRun, hcrypto, hcrypto']
  | true =>
    have hadv : keyOff (b.drop p) ≤ advance (b.drop p) + 16 := by
      have hle := keyOff_le_keyEnd (b.drop p)
      rw [advance, if_pos hcrypto]
      split_ifs
      · omega
      · rw [keyOff, length_inlineString]
        omega
    have hsame := h.sameBelow hp hadv fun i hi hin => by
      have := hin.2.2.1
      omega
    have hlen16 := le_keyOff (b.drop p)
    have hcrypto' := (hsame.isCrypto_eq (by rw [length_cryptoString]; omega)).trans hcrypto
    have hvalue : valueOff (b'.drop p) = valueOff (b.drop p) :=
      hsame.valueOff_eq (by rw [keyOff, length_inlineString]; omega)
    have hoff : keyOff (b'.drop p) = keyOff (b.drop p) := by rw [keyOff, hvalue, keyOff]
    have hkey' := hsame.hasKey_eq le_rfl
    cases hkey : hasKey (b.drop p) with
    | false =>
      rw [hkey] at hkey'
      refine ⟨by simp [advance, hcrypto, hcrypto', hkey, hkey', hvalue], fun i => ?_⟩
      simp [InRun, hkey, hkey']
    | true =>
      rw [hkey] at hkey'
      have hend : keyEnd (b'.drop p) = keyEnd (b.drop p) := h.keyEnd_eq hp hcrypto hkey hoff
      refine ⟨by simp [advance, hcrypto, hcrypto', hkey, hkey', hend], fun i => ?_⟩
      unfold InRun
      rw [hcrypto, hcrypto', hkey, hkey', hoff, hend]

theorem SameButOverwritten.reached_iff (h : SameButOverwritten b b') : Reached b' p ↔ Reached b p := by
  constructor
  · intro hp
    induction hp with
    | start => exact .start
    | @next p _ hlen ih =>
      rw [(h.step ih).1]
      refine .next ih ?_
      rw [List.length_drop] at hlen ⊢
      rwa [h.1]
  · intro hp
    induction hp with
    | start => exact .start
    | @next p hp hlen ih =>
      rw [← (h.step hp).1]
      refine .next ih ?_
      rw [List.length_drop] at hlen ⊢
      rwa [← h.1]

theorem SameButOverwritten.overwritten_iff (h : SameButOverwritten b b') : Overwritten b' i ↔ Overwritten b i := by
  refine exists_congr fun p => ?_
  rw [h.reached_iff]
  refine and_congr_right fun hp => ?_
  rw [(h.step hp).2 i, List.length_drop, List.length_drop, h.1]

theorem SameButOverwritten.filter_eq (h : SameButOverwritten b b') : sdpDebugMsgFilter b = sdpDebugMsgFilter b' := by
  refine List.ext_getElem? fun i => ?_
  obtain ⟨hyes, hno⟩ := getElem?_filter b i
  obtain ⟨hyes', hno'⟩ := getElem?_filter b' i
  by_cases hover : Overwritten b i
  · rw [hyes hover, hyes' (h.overwritten_iff.mpr hover)]
    rcases Nat.lt_or_ge i b.length with hlt | hge
    · rw [List.getElem?_eq_getElem hlt, List.getElem?_eq_getElem (h.1 ▸ hlt)]
      rfl
    · rw [List.getElem?_eq_none hge, List.getElem?_eq_none (h.1 ▸ hge)]
  · rw [hno hover, hno' (mt h.overwritten_iff.mp hover)]
    exact (h.2 i).resolve_right fun hin => hover hin.1

/-! ## Characters without a meaning -/

/-- Two characters that are in no word and are no blank or end of a key are written as one of them. -/
def blur (c : Char) : Char := if c = '#' then '*' else c

theorem map_blur_of_not_mem (h : '#' ∉ s) : s.map blur = s := by
  conv_rhs => rw [← List.map_id s]
  refine List.map_congr_left fun c hc => ?_
  have hne : c ≠ '#' := by
    rintro rfl
    exact h hc
  exact if_neg hne

theorem sameUpToCase_map_blur {t : CStr} (hstar : '*' ∉ t.map Char.toUpper)
    (hhash : '#' ∉ t.map Char.toUpper) : SameUpToCase (s.map blur) t ↔ SameUpToCase s t := by
  constructor
  · intro h
    have hno : '#' ∉ s := fun hmem => h.not_mem (c := '*') hstar (List.mem_map_of_mem hmem)
    rwa [map_blur_of_not_mem hno] at h
  · intro h
    rwa [map_blur_of_not_mem (h.not_mem (c := '#') hhash)]

theorem spanLen_map_blur (hq : q '*' = q '#') (s : CStr) : spanLen q (s.map blur) = spanLen q s := by
  have hblur : q ∘ blur = q := by
    funext c
    simp only [Function.comp, blur]
    split_ifs with heq
    · rw [heq, hq]
    · rfl
  rw [spanLen, List.takeWhile_map, List.length_map, hblur, spanLen]

theorem isCrypto_map_blur (s : CStr) : isCrypto (s.map blur) = isCrypto s := by
  rw [Bool.eq_iff_iff, isCrypto_iff, isCrypto_iff, ← List.map_take]
  exact sameUpToCase_map_blur (by decide) (by decide)

theorem valueOff_map_blur (s : CStr) : valueOff (s.map blur) = valueOff s := by
  have hsuite : ∀ t : CStr, spanLen (fun c => !charIsWhitespace c) (t.map blur) =
      spanLen (fun c => !charIsWhitespace c) t := spanLen_map_blur rfl
  have hblanks : ∀ t : CStr, spanLen charIsWhitespace (t.map blur) = spanLen charIsWhitespace t := spanLen_map_blur rfl
  simp only [valueOff, findWhitespace, dropWhile_eq_drop, ← List.map_drop, hsuite, hblanks]

theorem hasKey_map_blur (s : CStr) : hasKey (s.map blur) = hasKey s := by
  rw [Bool.eq_iff_iff, hasKey, hasKey, isInline_iff, isInline_iff, valueOff_map_blur, ← List.map_drop, ← List.map_take]
  exact sameUpToCase_map_blur (by decide) (by decide)

theorem keyEnd_map_blur (s : CStr) : keyEnd (s.map blur) = keyEnd s := by
  have hend : ∀ t : CStr, spanLen (fun c => !endsKey c) (t.map blur) =
      spanLen (fun c => !endsKey c) t := spanLen_map_blur rfl
  rw [keyEnd, keyEnd, keyOff, keyOff, valueOff_map_blur, ← List.map_drop, hend]

theorem advance_map_blur (s : CStr) : advance (s.map blur) = advance s := by
  rw [advance, advance, isCrypto_map_blur, hasKey_map_blur, keyEnd_map_blur, valueOff_map_blur]

theorem reached_of_map_blur (h : b.map blur = b'.map blur) (hp : Reached b p) : Reached b' p := by
  induction hp with
  | start => exact .start
  | @next p _ hlen ih =>
    have hdrop : (b.drop p).map blur = (b'.drop p).map blur := by rw [List.map_drop, h, List.map_drop]
    rw [← advance_map_blur, hdrop, advance_map_blur]
    refine .next ih ?_
    rwa [← List.length_map (f := blur), ← hdrop, List.length_map]

theorem overwritten_of_map_blur (h : b.map blur = b'.map blur) (hi : Overwritten b i) : Overwritten b' i := by
  obtain ⟨p, hp, hlen, hcrypto, hkey, hoff, hend⟩ := hi
  have hdrop : (b.drop p).map blur = (b'.drop p).map blur := by rw [List.map_drop, h, List.map_drop]
  refine ⟨p, reached_of_map_blur h hp, ?_, ?_, ?_, ?_, ?_⟩
  · rwa [← List.length_map (f := blur), ← hdrop, List.length_map]
  · rwa [← isCrypto_map_blur, ← hdrop, isCrypto_map_blur]
  · rwa [← hasKey_map_blur, ← hdrop, hasKey_map_blur]
  · rwa [keyOff, ← valueOff_map_blur, ← hdrop, valueOff_map_blur]
  · rwa [← keyEnd_map_blur, ← hdrop, keyEnd_map_blur]

/-! ## Messages with another key -/

theorem KeyLine.set {front crypto suite blanks keyword key rest : CStr}
    (h : KeyLine b front crypto suite blanks keyword key rest)
    (hc : endsKey c = false) (hi : b.length - (key ++ rest).length ≤ i)
    (hlt : i < b.length - rest.length) :
    KeyLine (b.set i c) front crypto suite blanks keyword (key.set (i - (b.length - (key ++ rest).length)) c) rest := by
  have hlen := congrArg List.length h.text
  simp only [List.length_append] at hlen hi hlt
  refine ⟨?_, h.crypto, h.suite, h.blanks, h.keyword, fun d hd => ?_, h.rest⟩
  · have hassoc : ∀ k : CStr, front ++ (crypto ++ suite ++ blanks ++ keyword ++ k ++ rest) =
        (front ++ (crypto ++ suite ++ blanks ++ keyword)) ++ (k ++ rest) := by
      intro k
      simp only [List.append_assoc]
    have hfront : (front ++ (crypto ++ suite ++ blanks ++ keyword)).length = b.length - (key ++ rest).length := by
      simp only [List.length_append]
      omega
    conv_lhs => rw [h.text]
    rw [hassoc, hassoc, List.set_append_right _ _ (by rw [hfront, List.length_append]; omega), hfront,
      List.set_append_left _ _ (by rw [List.length_append]; omega)]
  · rcases List.mem_or_eq_of_mem_set hd with hmem | rfl
    · exact h.key d hmem
    · exact hc

theorem IsKey.set (h : IsKey b i) (hc : endsKey c = false) : IsKey (b.set i c) i := by
  obtain ⟨front, crypto, suite, blanks, keyword, key, rest, hline, hle, hlt⟩ := h
  refine ⟨front, crypto, suite, blanks, keyword, _, rest, hline.set hc hle hlt, ?_, ?_⟩
  · simpa using hle
  · simpa using hlt

theorem IsKey.getElem? (h : IsKey b i) : ∃ c, b[i]? = some c ∧ endsKey c = false := by
  obtain ⟨front, crypto, suite, blanks, keyword, key, rest, hline, hle, hlt⟩ := h
  have hlen := congrArg List.length hline.text
  have hassoc : front ++ (crypto ++ suite ++ blanks ++ keyword ++ key ++ rest) =
      (front ++ (crypto ++ suite ++ blanks ++ keyword)) ++ (key ++ rest) := by
    simp only [List.append_assoc]
  simp only [List.length_append] at hlen hle hlt
  have hkey : i - (front ++ (crypto ++ suite ++ blanks ++ keyword)).length < key.length := by
    simp only [List.length_append]
    omega
  refine ⟨key[i - (front ++ (crypto ++ suite ++ blanks ++ keyword)).length], ?_, hline.key _ (List.getElem_mem hkey)⟩
  rw [hline.text, hassoc, List.getElem?_append_right (by simp only [List.length_append]; omega),
    List.getElem?_append_left hkey, List.getElem?_eq_getElem hkey]

theorem IsKey.terminated_set (h : IsKey b i) (hb : Terminated b) (c : Char) : Terminated (b.set i c) := by
  obtain ⟨d, hd, hno⟩ := h.getElem?
  intro e he
  rw [Option.mem_def, List.getLast?_eq_getElem?, List.length_set] at he
  refine hb e ?_
  rw [Option.mem_def, List.getLast?_eq_getElem?, ← he]
  rw [List.getElem?_set_ne]
  rintro rfl
  have hend : d = '\n' := hb d (by rw [Option.mem_def, List.getLast?_eq_getElem?, hd])
  rw [hend] at hno
  exact absurd hno (by decide)

theorem IsKey.sameButKeys (h : IsKey b i) (hc : endsKey c = false) : SameButKeys b (b.set i c) := by
  refine ⟨(List.length_set ..).symm, fun j => ?_⟩
  by_cases hij : i = j
  · exact .inr (hij ▸ ⟨h, h.set hc⟩)
  · rw [List.getElem?_set_ne hij]
    exact .inl rfl

/-! ## When the keys are secret -/

/-- The key behind each key line is also the key behind the first blanks of a counted one. -/
def Found (b : CStr) : Prop :=
  ∀ p, FormAt b p → keyOff (b.drop p) < keyEnd (b.drop p) →
    ∃ c, Counted b c ∧ hasKey (b.drop c) = true ∧
      c + keyOff (b.drop c) ≤ p + keyOff (b.drop p) ∧ c + keyEnd (b.drop c) = p + keyEnd (b.drop p)

/-- What stands for a key on a later line than the first word of a counted key line is a key by itself, or
consists of stars. -/
def OnlyKeys (b : CStr) : Prop :=
  ∀ c, Counted b c → hasKey (b.drop c) = true → '\n' ∈ (b.drop c).take (valueOff (b.drop c)) →
    ∀ i, c + keyOff (b.drop c) ≤ i → i < c + keyEnd (b.drop c) → IsKey b i ∨ b[i]? = some '*'

theorem not_endsKey_of_inRun (h : InRun b p i) : ∀ c ∈ b[i]?, endsKey c = false := by
  intro c hc
  obtain ⟨-, -, hoff, hend⟩ := h
  have hlt : i - (p + keyOff (b.drop p)) < spanLen (fun c => !endsKey c) ((b.drop p).drop (keyOff (b.drop p))) := by
    rw [keyEnd] at hend
    omega
  have hnot := of_lt_spanLen hlt c
  rw [List.drop_drop, List.getElem?_drop, Nat.add_sub_cancel' hoff] at hnot
  simpa using hnot hc

theorem endsKey_of_keyEnd : ∀ c ∈ b[p + keyEnd (b.drop p)]?, endsKey c = true := by
  intro c hc
  have hnot := not_of_spanLen (q := fun c => !endsKey c) (s := (b.drop p).drop (keyOff (b.drop p))) c
  rw [List.drop_drop, List.getElem?_drop, ← List.drop_drop, Nat.add_assoc, ← keyEnd] at hnot
  simpa using hnot hc

theorem lt_length_of_inRun (h : InRun b p i) : i < b.length := by
  obtain ⟨-, -, hoff, hend⟩ := h
  have hle := spanLen_le (fun c => !endsKey c) ((b.drop p).drop (keyOff (b.drop p)))
  simp only [List.length_drop] at hle
  rw [keyEnd] at hend
  omega

theorem keyEnd_le_of_inRun {c : ℕ} (hp : InRun b p i) (hc : InRun b c i) :
    p + keyEnd (b.drop p) ≤ c + keyEnd (b.drop c) := by
  by_contra hgt
  -- the end of the key behind `c` would be in the one behind `p`
  have hin : InRun b p (c + keyEnd (b.drop c)) := by
    have h1 := hp.2.2.1
    have h2 := hc.2.2.2
    exact ⟨hp.1, hp.2.1, by omega, by omega⟩
  have hget := List.getElem?_eq_getElem (lt_length_of_inRun hin)
  have hyes := endsKey_of_keyEnd _ hget
  rw [not_endsKey_of_inRun hin _ hget] at hyes
  exact Bool.false_ne_true hyes

theorem FormAt.inRun (h : FormAt b p) (hoff : p + keyOff (b.drop p) ≤ i)
    (hend : i < p + keyEnd (b.drop p)) : InRun b p i := ⟨h.1, h.2.1, hoff, hend⟩

theorem found_iff : Found b ↔ ∀ i, IsKey b i → Overwritten b i := by
  constructor
  · intro h i hi
    obtain ⟨p, hform, hoff, hend⟩ := isKey_iff.mp hi
    obtain ⟨c, hc, hkey, hle, heq⟩ := h p hform (by omega)
    exact overwritten_iff_counted.mpr ⟨c, hc, (counted_iff.mp hc).2.2, hkey, by omega, by omega⟩
  · intro h p hform hlt
    -- the first byte of the key tells which counted key line it belongs to
    have hfirst := isKey_iff.mpr ⟨p, hform, le_rfl, Nat.add_lt_add_left hlt p⟩
    obtain ⟨c, hc, hrun⟩ := overwritten_iff_counted.mp (h _ hfirst)
    have hrun' := hform.inRun le_rfl (Nat.add_lt_add_left hlt p)
    refine ⟨c, hc, hrun.2.1, hrun.2.2.1, ?_⟩
    exact Nat.le_antisymm (keyEnd_le_of_inRun hrun hrun') (keyEnd_le_of_inRun hrun' hrun)

theorem onlyKeys_iff : OnlyKeys b ↔ ∀ i, Overwritten b i → IsKey b i ∨ b[i]? = some '*' := by
  constructor
  · intro h i hi
    obtain ⟨c, hc, hrun⟩ := overwritten_iff_counted.mp hi
    by_cases hline : '\n' ∈ (b.drop c).take (valueOff (b.drop c))
    · exact h c hc hrun.2.1 hline i hrun.2.2.1 hrun.2.2.2
    · exact .inl (isKey_iff.mpr ⟨c, ⟨hrun.1, hrun.2.1, hline⟩, hrun.2.2.1, hrun.2.2.2⟩)
  · intro h c hc hkey _ i hoff hend
    exact h i (overwritten_iff_counted.mpr ⟨c, hc, (counted_iff.mp hc).2.2, hkey, hoff, hend⟩)

theorem getElem?_of_overwritten (h : Overwritten b i) : (sdpDebugMsgFilter b)[i]? = some '*' := by
  obtain ⟨p, -, -, hrun⟩ := id h
  rw [(getElem?_filter b i).1 h, List.getElem?_eq_getElem (lt_length_of_inRun hrun)]
  rfl

theorem KeySecret.overwritten (h : KeySecret b) (hb : Terminated b) (hi : IsKey b i) : Overwritten b i := by
  by_contra hno
  obtain ⟨d, hd, -⟩ := hi.getElem?
  have hlt : i < b.length := (List.getElem?_eq_some_iff.mp hd).1
  have hshown := (getElem?_filter b i).2 hno
  by_cases hstar : d = '*'
  · -- a star is replaced by a character that is read alike
    have hsame := h.hidden _ (hi.terminated_set hb '#') (hi.sameButKeys (by decide))
    have hblur : (b.set i '#').map blur = b.map blur := by
      obtain ⟨hlt', rfl⟩ := List.getElem?_eq_some_iff.mp hd
      have hmap : i < (b.map blur).length := by rwa [List.length_map]
      have hsame : blur '#' = (b.map blur)[i] := by
        rw [List.getElem_map, hstar]
        rfl
      rw [List.map_set, hsame, List.set_getElem_self]
    have hno' : ¬ Overwritten (b.set i '#') i := fun hover => hno (overwritten_of_map_blur hblur hover)
    rw [hsame, (getElem?_filter _ i).2 hno', hd, List.getElem?_set_self hlt, hstar] at hshown
    exact absurd hshown (by decide)
  · have hsame := h.hidden _ (hi.terminated_set hb '*') (hi.sameButKeys (by decide))
    have hset : (sdpDebugMsgFilter (b.set i '*'))[i]? = some '*' := by
      by_cases hover : Overwritten (b.set i '*') i
      · exact getElem?_of_overwritten hover
      · rw [(getElem?_filter _ i).2 hover, List.getElem?_set_self hlt]
    rw [hsame, hset, hd] at hshown
    exact hstar (Option.some.inj hshown).symm

/-- **When the keys of a message are secret.** In a message of terminated lines they are if and only if
each key is the key of a counted key line, and counted key lines hide nothing else. -/
theorem keySecret_iff {b : CStr} (hb : Terminated b) : KeySecret b ↔ Found b ∧ OnlyKeys b := by
  rw [found_iff, onlyKeys_iff]
  constructor
  · intro h
    refine ⟨fun i hi => h.overwritten hb hi, fun i hi => ?_⟩
    by_cases hkey : IsKey b i
    · exact .inl hkey
    · right
      rw [← h.unchanged i hkey, getElem?_of_overwritten hi]
  · rintro ⟨hfound, honly⟩
    refine ⟨fun i hi => ?_, fun b' _ hsame => ?_⟩
    · by_cases hover : Overwritten b i
      · rw [getElem?_of_overwritten hover, (honly i hover).resolve_left hi]
      · exact (getElem?_filter b i).2 hover
    · refine SameButOverwritten.filter_eq ⟨hsame.1, fun i => ?_⟩
      refine (hsame.2 i).imp_right fun ⟨hi, hi'⟩ => ⟨hfound i hi, fun c hc => ?_⟩
      obtain ⟨d, hd, hno⟩ := hi'.getElem?
      rw [Option.mem_def, hd] at hc
      exact Option.some.inj hc ▸ hno

def keyMessage : CStr := "X-crypto:AES inline:KEY||\n"

/-- The condition for the message. -/
theorem keySecret_keyMessage :
    Terminated keyMessage ∧ (KeySecret keyMessage ↔ Found keyMessage ∧ OnlyKeys keyMessage) := by
  have hb : Terminated keyMessage := by
    intro c hc
    exact (Option.some.inj hc).symm
  exact ⟨hb, keySecret_iff hb⟩

/-- A message in which a key line starts behind the first blank of another one. -/
def skippedMessage : CStr := "X-crypto:A X-crypto:B inline:KEY||\n"

/-- The loop goes over the first character behind the blank, and does not see the key line there. -/
theorem not_keySecret_skippedMessage : Terminated skippedMessage ∧ ¬ KeySecret skippedMessage := by
  have hb : Terminated skippedMessage := by
    intro c hc
    exact (Option.some.inj hc).symm
  refine ⟨hb, fun h => ?_⟩
  have hline : KeyLine skippedMessage "X-crypto:A " "X-crypto:" "B" " " "inline:" "KEY" "||\n" := by
    refine ⟨by decide, rfl, CStr.forall_of_all (by decide),
      ⟨by decide, CStr.forall_of_all (by decide)⟩, rfl, CStr.forall_of_all (by decide),
      fun c hc => ?_⟩
    obtain rfl := Option.some.inj hc
    rfl
  have hkey : IsKey skippedMessage 29 := ⟨_, _, _, _, _, _, _, hline, by decide, by decide⟩
  have hsame := h.hidden _ (hkey.terminated_set hb 'x') (hkey.sameButKeys (by decide))
  exact absurd hsame (by decide)

end Sdp
