import Ikran.Lib.Line

/-!
# The words of a line

Scanning a line token by token sees the list of its words. This file has the equations of that list,
and the texts that have a given list of words.
-/

namespace Line

open CStr

/-! ## Lines and their tokens -/

theorem length_line_skipDelims (delim s : CStr) : (line (skipDelims delim s)).length ≤ (line s).length := by
  induction s with
  | nil => exact le_rfl
  | cons c s ih =>
    rw [skipDelims]
    split_ifs with hc hd
    · exact le_rfl
    · have hline : line (c :: s) = c :: line s := by simp [line, hc]
      rw [hline, List.length_cons]
      omega
    · exact le_rfl

theorem line_takeToken (delim : CStr) (max : ℕ) (s : CStr) :
    line s = (takeToken delim max s).1 ++ line (takeToken delim max s).2 := by
  induction max generalizing s with
  | zero => rfl
  | succ max ih =>
    cases s with
    | nil => rfl
    | cons c s =>
      rw [takeToken]
      split_ifs with h
      · rfl
      · have hc : isEol c = false := by
          rw [not_or] at h
          simpa using h.1
        have hline : line (c :: s) = c :: line s := by simp [line, hc]
        rw [hline, ih s, List.cons_append]

variable {s : CStr}

theorem atEol_of_line_eq_nil (h : line s = []) : atEol s = true := by
  cases s with
  | nil => rfl
  | cons c s =>
    by_contra hc
    have hc' : isEol c = false := by simpa using hc
    simp [line, hc'] at h

variable {w delim : CStr} {max : ℕ}

theorem length_line_token {t : CStr} (hmax : 0 < max)
    (h : token delim max s = (some w, t)) : (line t).length < (line s).length := by
  have hsound := token_sound hmax (congrArg Prod.fst h)
  have hskip := length_line_skipDelims delim s
  rw [token] at h
  split_ifs at h
  · cases h
  obtain ⟨hw, ht⟩ := Prod.mk.inj h
  have htake := congrArg List.length (line_takeToken delim max (skipDelims delim s))
  have hpos := List.length_pos_iff.mpr hsound.1
  rw [Option.some.inj hw, ht, List.length_append] at htake
  omega

theorem tokensUpTo_congr (delim : CStr) {m n : ℕ} (hmax : 0 < max)
    (hm : (line s).length ≤ m) (hn : (line s).length ≤ n) :
    tokensUpTo delim max m s = tokensUpTo delim max n s := by
  -- an end of line has no token, with any number of scans
  have hend : ∀ (k : ℕ) (u : CStr), line u = [] → tokensUpTo delim max k u = [] := by
    intro k u hu
    cases k with
    | zero => rfl
    | succ k => rw [tokensUpTo, token_eol (atEol_of_line_eq_nil hu)]
  induction m generalizing n s with
  | zero =>
    have hline : line s = [] := List.eq_nil_of_length_eq_zero (Nat.le_zero.mp hm)
    rw [hend 0 s hline, hend n s hline]
  | succ m ih =>
    cases n with
    | zero =>
      have hline : line s = [] := List.eq_nil_of_length_eq_zero (Nat.le_zero.mp hn)
      rw [hend _ s hline, hend _ s hline]
    | succ n =>
      rw [tokensUpTo, tokensUpTo]
      rcases htok : token delim max s with ⟨_ | w, t⟩
      · rfl
      · have hlt := length_line_token hmax htok
        exact congrArg (w :: ·) (ih (by omega) (by omega))

theorem tokens_of_token {t : CStr} (hmax : 0 < max)
    (h : token delim max s = (some w, t)) : tokens delim max s = w :: tokens delim max t := by
  have hlt := length_line_token hmax h
  obtain ⟨m, hm⟩ := Nat.exists_eq_succ_of_ne_zero (Nat.ne_zero_of_lt hlt)
  rw [tokens, hm, tokensUpTo, h, tokens]
  exact congrArg (w :: ·) (tokensUpTo_congr delim hmax (by omega) (by omega))

theorem tokens_of_none (h : (token delim max s).1 = none) : tokens delim max s = [] := by
  rw [tokens]
  cases (line s).length with
  | zero => rfl
  | succ n =>
    rw [tokensUpTo]
    rcases htok : token delim max s with ⟨_ | w, t⟩
    · rfl
    · rw [htok] at h
      cases h

variable {ws : List CStr}

theorem tokens_eq_cons_iff (hmax : 0 < max) : tokens delim max s = w :: ws ↔
      ∃ t, token delim max s = (some w, t) ∧ tokens delim max t = ws := by
  rcases htok : token delim max s with ⟨_ | v, t⟩
  · have hnil := tokens_of_none (congrArg Prod.fst htok)
    simp [hnil]
  · rw [tokens_of_token hmax htok]
    constructor
    · intro h
      obtain ⟨rfl, rfl⟩ := List.cons.inj h
      exact ⟨t, rfl, rfl⟩
    · rintro ⟨u, h, rfl⟩
      obtain ⟨hw, rfl⟩ := Prod.mk.inj h
      rw [Option.some.inj hw]

/-! ## Words -/

/-- The texts of at most `max` characters that can be a token. -/
def isWord (delim : CStr) (max : ℕ) (w : CStr) : Bool :=
  w != [] && decide (w.length ≤ max) && w.all fun c => !isEol c && !delim.contains c

variable {delim : CStr} {max : ℕ}

theorem isWord_iff : isWord delim max w = true ↔ w ≠ [] ∧ w.length ≤ max ∧ ∀ c ∈ w, isEol c = false ∧ c ∉ delim := by
  simp [isWord, and_assoc]

theorem isWord_of_token {t : CStr} (hmax : 0 < max) (h : token delim max s = (some w, t)) : isWord delim max w = true :=
  isWord_iff.mpr (token_sound hmax (congrArg Prod.fst h))

theorem isWord_of_mem_tokens (hmax : 0 < max) (h : w ∈ tokens delim max s) : isWord delim max w = true := by
  generalize hws : tokens delim max s = ws at h
  induction ws generalizing s with
  | nil => cases h
  | cons v ws ih =>
    obtain ⟨t, htok, hrest⟩ := (tokens_eq_cons_iff hmax).mp hws
    rcases List.mem_cons.mp h with rfl | h
    · exact isWord_of_token hmax htok
    · exact ih hrest h

theorem token_word {r : CStr} (hw : isWord delim max w = true)
    (hr : atEol r ∨ r.peek ∈ delim) : token delim max (w ++ r) = (some w, r) := by
  obtain ⟨hne, hlen, hplain⟩ := isWord_iff.mp hw
  exact token_append hne hplain hlen hr

theorem takeToken_text {r : CStr} (hw : ∀ c ∈ w, isEol c = false ∧ c ∉ delim) (hr : atEol r) :
    takeToken delim max (w ++ r) = (w.take max, w.drop max ++ r) := by
  induction w generalizing max with
  | nil =>
    have hnil : takeToken delim max ([] ++ r) = ([], r) :=
      takeToken_append (List.forall_mem_nil _) (Nat.zero_le max) (Or.inl hr)
    simpa using hnil
  | cons c w ih =>
    cases max with
    | zero => rfl
    | succ max =>
      have hc := hw c List.mem_cons_self
      have hrest : takeToken delim max (w ++ r) = (w.take max, w.drop max ++ r) :=
        ih fun d hd => hw d (List.mem_cons_of_mem c hd)
      simp [takeToken, hc, hrest]

theorem token_text {r : CStr} (hne : w ≠ []) (hw : ∀ c ∈ w, isEol c = false ∧ c ∉ delim)
    (hr : atEol r) : token delim max (w ++ r) = (some (w.take max), w.drop max ++ r) := by
  obtain ⟨c, w', rfl⟩ := List.exists_cons_of_ne_nil hne
  have hc := hw c List.mem_cons_self
  have hskip : skipDelims delim (c :: w' ++ r) = c :: w' ++ r := skipDelims_of_notMem hc.2
  have heol : atEol (c :: w' ++ r) = false := hc.1
  rw [token, hskip, takeToken_text hw hr, heol]
  rfl

variable {rest : CStr}

theorem tokens_word (hmax : 0 < max) (hw : isWord delim max w = true) (hrest : atEol rest ∨ rest.peek ∈ delim) :
    tokens delim max (w ++ rest) = w :: tokens delim max rest :=
  tokens_of_token hmax (token_word hw hrest)

theorem token_delim {c : Char} (hc : isEol c = false) (hd : c ∈ delim) (s : CStr) :
    token delim max (c :: s) = token delim max s := by
  rw [token, token, skipDelims_cons hc hd]

theorem tokens_delim {c : Char} (hmax : 0 < max) (hc : isEol c = false) (hd : c ∈ delim) (s : CStr) :
    tokens delim max (c :: s) = tokens delim max s := by
  have htok : token delim max (c :: s) = token delim max s := token_delim hc hd s
  rcases h : token delim max s with ⟨_ | w, t⟩
  · rw [tokens_of_none (congrArg Prod.fst h), tokens_of_none (congrArg Prod.fst (htok.trans h))]
  · rw [tokens_of_token hmax h, tokens_of_token hmax (htok.trans h)]

theorem tokens_eol (h : atEol s) : tokens delim max s = [] := tokens_of_none (congrArg Prod.fst (token_eol h))

/-- The words, each with the delimiter in front of it. -/
def spaced (d : Char) (ws : List CStr) : CStr := ws.flatMap (d :: ·)

@[simp] theorem spaced_nil (d : Char) : spaced d [] = [] := rfl

@[simp] theorem spaced_cons (d : Char) (w : CStr) (ws : List CStr) : spaced d (w :: ws) = d :: (w ++ spaced d ws) := rfl

theorem peek_spaced {d : Char} (hd : d ∈ delim) (ws : List CStr) (hrest : atEol rest) :
    atEol (spaced d ws ++ rest) ∨ (spaced d ws ++ rest).peek ∈ delim := by
  cases ws with
  | nil => exact Or.inl hrest
  | cons w ws => exact Or.inr hd

theorem tokens_spaced {d : Char} (hmax : 0 < max) (hc : isEol d = false) (hd : d ∈ delim)
    (hws : ∀ w ∈ ws, isWord delim max w = true) (hrest : atEol rest) :
    tokens delim max (spaced d ws ++ rest) = ws := by
  induction ws with
  | nil => exact tokens_eol hrest
  | cons w ws ih =>
    rw [spaced_cons, List.cons_append, tokens_delim hmax hc hd, List.append_assoc,
      tokens_word hmax (hws w List.mem_cons_self) (peek_spaced hd ws hrest),
      ih fun v hv => hws v (List.mem_cons_of_mem w hv)]

theorem tokens_trailing {d : Char} (hmax : 0 < max) (hc : isEol d = false) (hd : d ∈ delim)
    (hws : ∀ w ∈ ws, isWord delim max w = true) (hrest : atEol rest) :
    tokens delim max (ws.flatMap (· ++ [d]) ++ rest) = ws := by
  induction ws with
  | nil => exact tokens_eol hrest
  | cons w ws ih =>
    have hrestWords := ih fun v hv => hws v (List.mem_cons_of_mem w hv)
    have hfirst : tokens delim max (w ++ d :: (ws.flatMap (· ++ [d]) ++ rest)) = _ :=
      tokens_word hmax (hws w List.mem_cons_self) (Or.inr hd)
    rw [tokens_delim hmax hc hd, hrestWords] at hfirst
    rw [List.flatMap_cons, List.append_assoc, List.append_assoc]
    exact hfirst

theorem tokens_word_spaced {d : Char} (hmax : 0 < max) (hc : isEol d = false) (hd : d ∈ delim)
    (hws : ∀ v ∈ w :: ws, isWord delim max v = true)
    (hrest : atEol rest) : tokens delim max (w ++ (spaced d ws ++ rest)) = w :: ws := by
  have hall := tokens_spaced hmax hc hd hws hrest
  rw [spaced_cons, List.cons_append, tokens_delim hmax hc hd, List.append_assoc] at hall
  exact hall

/-! ## Words of any length -/

section Word

variable (delim s : CStr)

def inWord (c : Char) : Bool := !isEol c && c ∉ delim

/-- The first word of a text, whatever its length. -/
def word : CStr := (skipDelims delim s).takeWhile (inWord delim)

/-- What is behind the part of the first word that makes up a token. -/
def behind (max : ℕ) : CStr := (skipDelims delim s).drop (min max (word delim s).length)

variable {delim s}

theorem takeToken_eq (max : ℕ) : takeToken delim max s =
    ((s.takeWhile (inWord delim)).take max, s.drop (min max (s.takeWhile (inWord delim)).length)) := by
  induction max generalizing s with
  | zero => simp [takeToken]
  | succ max ih =>
    cases s with
    | nil => simp [takeToken]
    | cons c s =>
      by_cases hc : isEol c = true ∨ c ∈ delim
      · have hword : inWord delim c = false := by
          rcases hc with hc | hc <;> simp [inWord, hc]
        rw [takeToken, if_pos hc, List.takeWhile_cons_of_neg (by simp [hword])]
        simp
      · have hword : inWord delim c = true := by
          rw [not_or] at hc
          simp [inWord, hc]
        rw [takeToken, if_neg hc, List.takeWhile_cons_of_pos hword, ih]
        simp [Nat.add_min_add_right]

theorem atEol_skipDelims : atEol (skipDelims delim s) = true ↔ word delim s = [] := by
  rw [word]
  cases hskip : skipDelims delim s with
  | nil => exact iff_of_true rfl rfl
  | cons c r =>
    have hnot := peek_skipDelims_notMem delim s
    rw [hskip, atEol, peek_cons] at hnot
    rw [atEol, peek_cons, List.takeWhile_cons]
    cases heol : isEol c with
    | true => simp [inWord, heol]
    | false => simp [inWord, heol, hnot heol]

theorem token_eq (max : ℕ) : token delim max s =
    if word delim s = [] then (none, skipDelims delim s)
    else (some ((word delim s).take max), behind delim s max) := by
  rw [token, takeToken_eq]
  by_cases hword : word delim s = []
  · rw [if_pos (atEol_skipDelims.mpr hword), if_pos hword]
  · rw [if_neg fun heol => hword (atEol_skipDelims.mp heol), if_neg hword]
    rfl

theorem skipDelims_skipDelims : skipDelims delim (skipDelims delim s) = skipDelims delim s := by
  induction s with
  | nil => rfl
  | cons c s ih =>
    rw [skipDelims]
    split_ifs with heol hdelim
    · rw [skipDelims, if_pos heol]
    · exact ih
    · rw [skipDelims, if_neg heol, if_neg hdelim]

theorem length_word_le : (word delim s).length ≤ s.length := by
  refine le_trans (List.takeWhile_sublist _).length_le ?_
  induction s with
  | nil => rfl
  | cons c s ih =>
    rw [skipDelims]
    split_ifs
    · rfl
    · exact Nat.le_succ_of_le ih
    · rfl

theorem word_behind_of_nil {max : ℕ} (h : word delim s = []) : word delim (behind delim s max) = [] := by
  rw [behind, h, List.length_nil, Nat.min_zero, List.drop_zero, word, skipDelims_skipDelims]
  exact h

end Word

end Line
