import Ikran.Lib.CString

/-!
# Tokens on a line of text

A line of a C text runs up to the first carriage return, line feed or terminator. This file has the
scanning primitives that stay inside a line, and the relation under which they cannot tell two texts
apart.
-/

namespace Line

open CStr

/-- The characters that end a line: terminator, line feed and carriage return. -/
def isEol (c : Char) : Bool := c == nul || c == '\n' || c == '\r'

/-- The pointer stands at the end of its line. -/
abbrev atEol (s : CStr) : Bool := isEol s.peek

@[simp] theorem atEol_nil : atEol [] = true := rfl

@[simp] theorem atEol_cons (c : Char) (s : CStr) : atEol (c :: s) = isEol c := rfl

/-- Two texts agree up to and including the character that ends their first line. -/
inductive SameLine : CStr → CStr → Prop
  | eol {s t : CStr} (hpeek : s.peek = t.peek) (heol : atEol s) : SameLine s t
  | cons {c : Char} {s t : CStr} (hc : isEol c = false) (h : SameLine s t) :
      SameLine (c :: s) (c :: t)

namespace SameLine

theorem refl (s : CStr) : SameLine s s := by
  induction s with
  | nil => exact .eol rfl rfl
  | cons c s ih =>
    cases hc : isEol c with
    | true => exact .eol rfl (by simpa using hc)
    | false => exact .cons hc ih

theorem peek_eq {s t : CStr} (h : SameLine s t) : s.peek = t.peek := by
  cases h with
  | eol hpeek _ => exact hpeek
  | cons _ _ => rfl

theorem atEol_eq {s t : CStr} (h : SameLine s t) : atEol s = atEol t := by
  rw [atEol, atEol, h.peek_eq]

theorem tail {s t : CStr} (h : SameLine s t) (hs : atEol s = false) : SameLine s.tail t.tail := by
  cases h with
  | eol _ heol => simp [heol] at hs
  | cons _ h => exact h

theorem append_eol {e : Char} (he : isEol e = true) (s u v : CStr) : SameLine (s ++ e :: u) (s ++ e :: v) := by
  induction s with
  | nil => exact .eol rfl (by simpa using he)
  | cons c s ih =>
    cases hc : isEol c with
    | true => exact .eol rfl (by simpa using hc)
    | false => exact .cons hc ih

end SameLine

/-- Both texts are moved over the same characters, none of which ends a line. -/
def Advance (s t s' t' : CStr) : Prop :=
  ∃ pre : CStr, (∀ c ∈ pre, isEol c = false) ∧ s = pre ++ s' ∧ t = pre ++ t'

namespace Advance

theorem refl (s t : CStr) : Advance s t s t := ⟨[], by simp, rfl, rfl⟩

variable {s' t' : CStr}

theorem trans {s t s'' t'' : CStr} (h : Advance s t s' t') (h' : Advance s' t' s'' t'') : Advance s t s'' t'' := by
  obtain ⟨pre, hpre, rfl, rfl⟩ := h
  obtain ⟨pre', hpre', rfl, rfl⟩ := h'
  refine ⟨pre ++ pre', fun c hc => ?_, by simp, by simp⟩
  rcases List.mem_append.mp hc with hc | hc
  · exact hpre c hc
  · exact hpre' c hc

theorem cons {c : Char} (hc : isEol c = false) {s t : CStr} (h : Advance s t s' t') :
    Advance (c :: s) (c :: t) s' t' := by
  obtain ⟨pre, hpre, rfl, rfl⟩ := h
  exact ⟨c :: pre, List.forall_mem_cons.mpr ⟨hc, hpre⟩, rfl, rfl⟩

theorem sameLine {s t : CStr} (h : Advance s t s' t') (hst : SameLine s t) : SameLine s' t' := by
  obtain ⟨pre, hpre, rfl, rfl⟩ := h
  induction pre with
  | nil => exact hst
  | cons c pre ih =>
    obtain ⟨hc, hpre⟩ := List.forall_mem_cons.mp hpre
    exact ih hpre (hst.tail (by simpa using hc))

theorem eq_of_eq {s t : CStr} (h : Advance s t s' t') (hst : s = t) : s' = t' := by
  obtain ⟨pre, -, rfl, rfl⟩ := h
  exact List.append_cancel_left hst

theorem exists_line {l u v : CStr} (h : Advance (l ++ '\n' :: u) (l ++ '\n' :: v) s' t') :
    ∃ pre l', l = pre ++ l' ∧ s' = l' ++ '\n' :: u ∧ t' = l' ++ '\n' :: v := by
  obtain ⟨pre, hpre, hs, ht⟩ := h
  rcases List.append_eq_append_iff.mp hs with ⟨x, hx, hx'⟩ | ⟨l', hl, hs'⟩
  · cases x with
    | nil =>
      obtain rfl : pre = l := by simpa using hx
      exact ⟨pre, [], by simp, by simpa using hx'.symm, by simpa using ht.symm⟩
    | cons c x =>
      -- the line feed is not among the characters moved over
      obtain ⟨rfl, -⟩ := List.cons.inj hx'
      have hnl := hpre '\n' (by simp [hx])
      cases hnl
  · subst hl
    exact ⟨pre, l', rfl, hs', by simpa using ht.symm⟩

end Advance

/-! ## Scanning -/

/-- Skip the characters of `delim`, without leaving the line. -/
def skipDelims (delim : CStr) : CStr → CStr
  | [] => []
  | c :: s => if isEol c then c :: s else if c ∈ delim then skipDelims delim s else c :: s

/-- Read up to `max` characters that are neither delimiters nor ends of line. -/
def takeToken (delim : CStr) : ℕ → CStr → CStr × CStr
  | 0, s => ([], s)
  | _ + 1, [] => ([], [])
  | max + 1, c :: s =>
    if isEol c ∨ c ∈ delim then ([], c :: s)
    else ((c :: (takeToken delim max s).1), (takeToken delim max s).2)

/-- The next token of at most `max` characters and the text behind it; `none` when the line has no
further token. -/
def token (delim : CStr) (max : ℕ) (s : CStr) : Option CStr × CStr :=
  if atEol (skipDelims delim s) then (none, skipDelims delim s)
  else ((takeToken delim max (skipDelims delim s)).1, (takeToken delim max (skipDelims delim s)).2)

variable {s t : CStr}

theorem SameLine.skipDelims (delim : CStr) (h : SameLine s t) :
    Advance s t (Line.skipDelims delim s) (Line.skipDelims delim t) := by
  induction h with
  | @eol s t hpeek heol =>
    have key : ∀ r : CStr, atEol r → Line.skipDelims delim r = r := by
      intro r hr
      cases r with
      | nil => rfl
      | cons c r => simp [Line.skipDelims, show isEol c = true from hr]
    rw [key s heol, key t (by rwa [atEol, ← hpeek])]
    exact .refl s t
  | @cons c s t hc h ih =>
    by_cases hd : c ∈ delim
    · simpa [Line.skipDelims, hc, hd] using ih.cons hc
    · simpa [Line.skipDelims, hc, hd] using Advance.refl (c :: s) (c :: t)

theorem SameLine.takeToken (delim : CStr) (max : ℕ) (h : SameLine s t) :
    (Line.takeToken delim max s).1 = (Line.takeToken delim max t).1 ∧
      Advance s t (Line.takeToken delim max s).2 (Line.takeToken delim max t).2 := by
  induction h generalizing max with
  | @eol s t hpeek heol =>
    have key : ∀ r : CStr, atEol r → Line.takeToken delim max r = ([], r) := by
      intro r hr
      cases max with
      | zero => rfl
      | succ max =>
        cases r with
        | nil => rfl
        | cons c r => simp [Line.takeToken, show isEol c = true from hr]
    rw [key s heol, key t (by rwa [atEol, ← hpeek])]
    exact ⟨rfl, .refl s t⟩
  | @cons c s t hc h ih =>
    cases max with
    | zero => exact ⟨rfl, .refl _ _⟩
    | succ max =>
      by_cases hd : c ∈ delim
      · simpa [Line.takeToken, hd] using Advance.refl (c :: s) (c :: t)
      · obtain ⟨htok, hmove⟩ := ih max
        simpa [Line.takeToken, hc, hd, htok] using hmove.cons hc

theorem SameLine.token (delim : CStr) (max : ℕ) (h : SameLine s t) :
    (Line.token delim max s).1 = (Line.token delim max t).1 ∧
      Advance s t (Line.token delim max s).2 (Line.token delim max t).2 := by
  have hskip := h.skipDelims delim
  have hsame := hskip.sameLine h
  unfold Line.token
  rw [← hsame.atEol_eq]
  cases heol : atEol (Line.skipDelims delim s) with
  | true => simpa [heol] using hskip
  | false =>
    obtain ⟨htok, hrest⟩ := hsame.takeToken delim max
    simpa [heol, htok] using hskip.trans hrest

/-- The characters of the line under the pointer. -/
def line (s : CStr) : CStr := s.takeWhile fun c => !isEol c

/-- At most `n` tokens, read one after the other. -/
def tokensUpTo (delim : CStr) (max : ℕ) : ℕ → CStr → List CStr
  | 0, _ => []
  | n + 1, s =>
    match token delim max s with
    | (some tok, t) => tok :: tokensUpTo delim max n t
    | (none, _) => []

/-- All remaining tokens of the line. A token takes a character of the line, so that there are no
more of them than characters. -/
def tokens (delim : CStr) (max : ℕ) (s : CStr) : List CStr :=
  tokensUpTo delim max (line s).length s

theorem SameLine.line_eq (h : SameLine s t) : line s = line t := by
  induction h with
  | @eol s t hpeek heol =>
    have key : ∀ r : CStr, atEol r → line r = [] := by
      intro r hr
      cases r with
      | nil => rfl
      | cons c r => simp [line, show isEol c = true from hr]
    rw [key s heol, key t (by rwa [atEol, ← hpeek])]
  | cons hc _ ih => simpa [line, hc] using ih

theorem SameLine.tokensUpTo (delim : CStr) (max n : ℕ) (h : SameLine s t) :
    Line.tokensUpTo delim max n s = Line.tokensUpTo delim max n t := by
  induction n generalizing s t with
  | zero => rfl
  | succ n ih =>
    obtain ⟨htok, hmove⟩ := h.token delim max
    have hrest := hmove.sameLine h
    unfold Line.tokensUpTo
    rcases hs : Line.token delim max s with ⟨o, u⟩
    rcases ht : Line.token delim max t with ⟨o', v⟩
    rw [hs, ht] at htok hrest
    obtain rfl : o = o' := htok
    cases o with
    | none => rfl
    | some tok => exact congrArg _ (ih hrest)

theorem SameLine.tokens (delim : CStr) (max : ℕ) (h : SameLine s t) :
    Line.tokens delim max s = Line.tokens delim max t := by
  unfold Line.tokens
  rw [h.line_eq, h.tokensUpTo delim max]

/-! ## What a token is -/

theorem peek_skipDelims_notMem (delim s : CStr) (h : atEol (skipDelims delim s) = false) :
    (skipDelims delim s).peek ∉ delim := by
  induction s with
  | nil => simp [skipDelims] at h
  | cons c s ih =>
    by_cases hc : isEol c = true
    · simp [skipDelims, hc] at h
    · by_cases hd : c ∈ delim
      · simp only [skipDelims, hc, hd] at h ⊢
        exact ih h
      · simp [skipDelims, hc, hd]

theorem takeToken_sound (delim : CStr) (max : ℕ) (s : CStr) :
    ∀ c ∈ (takeToken delim max s).1, isEol c = false ∧ c ∉ delim := by
  induction max generalizing s with
  | zero => simp [takeToken]
  | succ max ih =>
    cases s with
    | nil => simp [takeToken]
    | cons c s =>
      by_cases h : isEol c = true ∨ c ∈ delim
      · simp [takeToken, h]
      · intro d hd
        simp only [takeToken, h, if_false, List.mem_cons] at hd
        rcases hd with rfl | hd
        · simpa using h
        · exact ih s d hd

theorem length_takeToken_le (delim : CStr) (max : ℕ) (s : CStr) : (takeToken delim max s).1.length ≤ max := by
  induction max generalizing s with
  | zero => simp [takeToken]
  | succ max ih =>
    cases s with
    | nil => simp [takeToken]
    | cons c s =>
      by_cases h : isEol c = true ∨ c ∈ delim
      · simp [takeToken, h]
      · simpa [takeToken, h] using ih s

variable {delim : CStr}

theorem token_sound {tok : CStr} {max : ℕ} (hmax : 0 < max) (h : (token delim max s).1 = some tok) :
    tok ≠ [] ∧ tok.length ≤ max ∧ ∀ c ∈ tok, isEol c = false ∧ c ∉ delim := by
  unfold token at h
  cases heol : atEol (skipDelims delim s) with
  | true => simp [heol] at h
  | false =>
    simp only [heol, Bool.false_eq_true, if_false, Option.some.injEq] at h
    subst h
    refine ⟨?_, length_takeToken_le delim max _, takeToken_sound delim max _⟩
    have hnot := peek_skipDelims_notMem delim s heol
    cases hs : skipDelims delim s with
    | nil => simp [hs] at heol
    | cons c r =>
      obtain ⟨m, rfl⟩ := Nat.exists_eq_succ_of_ne_zero (Nat.pos_iff_ne_zero.mp hmax)
      rw [hs] at heol hnot
      simp only [atEol_cons, peek_cons] at heol hnot
      simp [takeToken, heol, hnot]

theorem takeToken_append {tok rest : CStr} {max : ℕ}
    (htok : ∀ c ∈ tok, isEol c = false ∧ c ∉ delim) (hlen : tok.length ≤ max)
    (hrest : atEol rest ∨ rest.peek ∈ delim) :
    takeToken delim max (tok ++ rest) = (tok, rest) := by
  induction tok generalizing max with
  | nil =>
    cases max with
    | zero => rfl
    | succ max =>
      cases rest with
      | nil => rfl
      | cons c rest => simp_all [takeToken]
  | cons c tok ih =>
    obtain ⟨m, rfl⟩ := Nat.exists_eq_succ_of_ne_zero (Nat.ne_of_gt (Nat.lt_of_lt_of_le (Nat.succ_pos _) hlen))
    have hc := htok c (by simp)
    have htail := ih (fun d hd => htok d (by simp [hd])) (Nat.le_of_succ_le_succ hlen)
    simp [takeToken, hc, htail]

theorem skipDelims_of_notMem (h : s.peek ∉ delim) : skipDelims delim s = s := by
  cases s with
  | nil => rfl
  | cons c s => simp_all [skipDelims]

theorem skipDelims_cons {c : Char} (hc : isEol c = false) (hd : c ∈ delim)
    (s : CStr) : skipDelims delim (c :: s) = skipDelims delim s := by
  simp [skipDelims, hc, hd]

theorem token_append {tok rest : CStr} {max : ℕ} (hne : tok ≠ [])
    (htok : ∀ c ∈ tok, isEol c = false ∧ c ∉ delim) (hlen : tok.length ≤ max)
    (hrest : atEol rest ∨ rest.peek ∈ delim) :
    token delim max (tok ++ rest) = (some tok, rest) := by
  obtain ⟨c, tok', rfl⟩ := List.exists_cons_of_ne_nil hne
  have hc := htok c (by simp)
  have hskip : skipDelims delim (c :: tok' ++ rest) = c :: tok' ++ rest := skipDelims_of_notMem (by simpa using hc.2)
  have htake := takeToken_append htok hlen hrest
  unfold token
  rw [hskip]
  simp only [List.cons_append] at htake ⊢
  simp [hc.1, htake]

theorem token_eol {max : ℕ} (h : atEol s) : token delim max s = (none, s) := by
  have hskip : skipDelims delim s = s := by
    cases s with
    | nil => rfl
    | cons c s => simp [skipDelims, show isEol c = true from h]
  simp [token, hskip, h]

/-- The text behind the line under the pointer. -/
def nextLine (s : CStr) : CStr := (findChar ['\n'] s).tail

/-- The number of characters up to and including the one that ends the line. -/
def lineSize (s : CStr) : ℕ := (beforeChar ['\n'] s).length + 1

/-- The starts of at most `n` lines that end within the next `room` characters. -/
def lineStartsUpTo : ℕ → ℕ → CStr → List CStr
  | 0, _, _ => []
  | n + 1, room, s =>
    if room < lineSize s then []
    else s :: lineStartsUpTo n (room - lineSize s) (nextLine s)

/-- The starts of all lines that end within the next `room` characters. -/
def lineStarts (room : ℕ) (s : CStr) : List CStr := lineStartsUpTo room room s

theorem length_lineStarts_le (room : ℕ) (s : CStr) : (lineStarts room s).length ≤ room := by
  have key : ∀ n room (s : CStr), (lineStartsUpTo n room s).length ≤ n := by
    intro n
    induction n with
    | zero => simp [lineStartsUpTo]
    | succ n ih =>
      intro room s
      unfold lineStartsUpTo
      split_ifs
      · simp
      · simpa using ih _ _
  exact key room room s

/-! ## The text of some lines -/

/-- The text of some lines, each with the line feed that ends it. -/
def joinLines : List CStr → CStr
  | [] => []
  | l :: lines => l ++ '\n' :: joinLines lines

theorem joinLines_append (lines lines' : List CStr) :
    joinLines (lines ++ lines') = joinLines lines ++ joinLines lines' := by
  induction lines with
  | nil => rfl
  | cons l lines ih => simp [joinLines, ih]

theorem length_le_joinLines (lines : List CStr) : lines.length ≤ (joinLines lines).length := by
  induction lines with
  | nil => simp
  | cons l lines ih =>
    simp only [joinLines, List.length_append, List.length_cons]
    omega

/-- A line of a text: it has no terminator and no line feed. -/
def IsLine (l : CStr) : Prop := ∀ c ∈ l, c ≠ nul ∧ c ≠ '\n'

theorem IsLine.of_append {pre l' l : CStr} (h : IsLine l) (hl : l = pre ++ l') : IsLine l' :=
  fun c hc => h c (by simp [hl, hc])

/-- The starts of the lines in a text that goes on with `u`. -/
def startsOf (u : CStr) : List CStr → List CStr
  | [] => []
  | l :: lines => (l ++ '\n' :: (joinLines lines ++ u)) :: startsOf u lines

theorem findChar_line {l : CStr} (h : IsLine l) (u : CStr) :
    beforeChar ['\n'] (l ++ '\n' :: u) = l ∧ findChar ['\n'] (l ++ '\n' :: u) = '\n' :: u := by
  induction l with
  | nil => exact ⟨by simp [beforeChar], by simp [findChar]⟩
  | cons c l ih =>
    obtain ⟨hc, hl⟩ := List.forall_mem_cons.mp h
    obtain ⟨hbefore, hfind⟩ := ih hl
    have hnot : ¬(c = nul ∨ c ∈ ['\n']) := by simpa using hc
    simp only [List.cons_append, beforeChar, findChar, if_neg hnot, hbefore, hfind, and_self]

theorem take_lineStarts {lines : List CStr} (h : ∀ l ∈ lines, IsLine l) (u : CStr) {room : ℕ}
    (hroom : (joinLines lines).length ≤ room) :
    (lineStarts room (joinLines lines ++ u)).take lines.length = startsOf u lines := by
  have key : ∀ n room, lines.length ≤ n → (joinLines lines).length ≤ room →
      (lineStartsUpTo n room (joinLines lines ++ u)).take lines.length = startsOf u lines := by
    clear hroom
    induction lines with
    | nil => simp [startsOf]
    | cons l lines ih =>
      intro n room hn hroom
      obtain ⟨hl, hlines⟩ := List.forall_mem_cons.mp h
      obtain ⟨n, rfl⟩ := Nat.exists_eq_succ_of_ne_zero (Nat.ne_of_gt (Nat.lt_of_lt_of_le (Nat.succ_pos _) hn))
      have htext : joinLines (l :: lines) ++ u = l ++ '\n' :: (joinLines lines ++ u) := by
        simp [joinLines]
      obtain ⟨hbefore, hfind⟩ := findChar_line hl (joinLines lines ++ u)
      have hsize : lineSize (l ++ '\n' :: (joinLines lines ++ u)) = l.length + 1 := by
        rw [lineSize, hbefore]
      have hnext : nextLine (l ++ '\n' :: (joinLines lines ++ u)) = joinLines lines ++ u := by
        rw [nextLine, hfind]
        rfl
      simp only [joinLines, List.length_append, List.length_cons] at hroom hn
      rw [htext, lineStartsUpTo, hsize, hnext, if_neg (by omega), List.length_cons,
        List.take_succ_cons, startsOf, ih hlines n _ (by omega) (by omega)]
  have hlength := length_le_joinLines lines
  exact key room room (by omega) hroom

end Line
