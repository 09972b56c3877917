import Ikran.Httpish.Write

/-!
# Messages with several parts

What the parser makes of a message with several parts that the writer has written. The end of a part is
one byte in front of the delimiter, and the length of a part is the distance to that byte, so that the
first byte of the line break in front of the delimiter belongs to the part.
-/

namespace Httpish

/-! ## Where a line ends -/

/-- A text without the characters of a line break. -/
def NoBreak (l : CStr) : Prop := ∀ c ∈ l, isBreak c = false

/-- A line starts at the place: at the start of the text or behind a line break. -/
def LineStart (s : CStr) (p : ℕ) : Prop :=
  ∀ q, p = q + 1 → ∃ c, s[q]? = some c ∧ isBreak c = true ∧ ¬ (c = '\r' ∧ s[p]? = some '\n')

def EmptyLineAt (s : CStr) (p : ℕ) : Prop :=
  LineStart s p ∧ ∃ c, s[p]? = some c ∧ isBreak c = true

variable {s : CStr}

theorem getElem?_zero_of_peek {c : Char} (hc : c ≠ CStr.nul) (h : s.peek = c) : s[0]? = some c := by
  cases s with
  | nil => exact absurd h.symm hc
  | cons d s => exact congrArg some h

theorem lineBreak_cases (s : CStr) : lineBreak s = 0 ∧ (∀ c ∈ s.head?, isBreak c = false) ∨
      (lineBreak s = 1 ∧ ∃ c, s[0]? = some c ∧ isBreak c = true ∧ ¬ (c = '\r' ∧ s[1]? = some '\n')) ∨
      lineBreak s = 2 ∧ s[0]? = some '\r' ∧ s[1]? = some '\n' := by
  cases s with
  | nil => exact .inl ⟨rfl, fun c hc => absurd hc (by simp)⟩
  | cons c s =>
    rw [lineBreak, CStr.peek_cons]
    by_cases hcr : c = '\r'
    · subst hcr
      rw [if_pos rfl, List.drop_succ_cons, List.drop_zero]
      by_cases hlf : CStr.peek s = '\n'
      · have hnext := getElem?_zero_of_peek (c := '\n') (by decide) hlf
        exact .inr (.inr ⟨by rw [if_pos hlf], rfl, hnext⟩)
      · refine .inr (.inl ⟨by rw [if_neg hlf], '\r', rfl, rfl, fun hcrlf => hlf ?_⟩)
        cases s with
        | nil => exact absurd hcrlf.2 (by simp)
        | cons d s => exact Option.some.inj hcrlf.2
    · rw [if_neg hcr, List.drop_zero, CStr.peek_cons]
      by_cases hlf : c = '\n'
      · subst hlf
        exact .inr (.inl ⟨rfl, '\n', rfl, rfl, fun hcrlf => absurd hcrlf.1 (by decide)⟩)
      · refine .inl ⟨by rw [if_neg hlf], fun d hd => ?_⟩
        obtain rfl := Option.some.inj hd
        simp [isBreak, hcr, hlf]

variable {line : CStr}

/-- A line that is read has no line break in it, and one at its end. An empty line is just the line
break. -/
theorem lineLoop_line {fuel n : ℕ} (h : lineLoop fuel s = (some line, n)) :
    NoBreak line ∧ (∃ q c, n = q + 1 ∧ s[q]? = some c ∧ isBreak c = true ∧ ¬ (c = '\r' ∧ s[n]? = some '\n')) ∧
      (line = [] → ∃ c, s[0]? = some c ∧ isBreak c = true) := by
  induction fuel generalizing n s line with
  | zero => exact absurd (Prod.mk.inj h).1 (by simp)
  | succ fuel ih =>
    have hcases := lineBreak_cases s
    rw [lineLoop] at h
    split_ifs at h with hend
    · -- the line ends here
      obtain ⟨hline, hn⟩ := Prod.mk.inj h
      obtain rfl := Option.some.inj hline
      refine ⟨fun c hc => absurd hc (by simp), ?_, fun _ => ?_⟩
      · rcases hcases with ⟨hzero, -⟩ | ⟨hone, c, hc⟩ | ⟨htwo, -, hlf⟩
        · exact absurd hzero hend.1
        · exact ⟨0, c, by omega, by rw [← hn, hone]; exact hc⟩
        · exact ⟨1, '\n', by omega, hlf, rfl, fun hcrlf => absurd hcrlf.1 (by decide)⟩
      · rcases hcases with ⟨hzero, -⟩ | ⟨-, c, hc, hbreak, -⟩ | ⟨-, hcr, -⟩
        · exact absurd hzero hend.1
        · exact ⟨c, hc, hbreak⟩
        · exact ⟨'\r', hcr, rfl⟩
    · -- a character of the line
      split at h
      · exact absurd (Prod.mk.inj h).1 (by simp)
      · rename_i c t hdrop
        split_ifs at h with hnul
        · exact absurd (Prod.mk.inj h).1 (by simp)
        · obtain ⟨hline, hn⟩ := Prod.mk.inj h
          obtain ⟨rest, hrest, rfl⟩ := Option.map_eq_some_iff.mp hline
          obtain ⟨hplain, ⟨q, d, hq, hd, hbreak, hcrlf⟩, -⟩ := ih (n := (lineLoop fuel t).2) (Prod.ext hrest rfl)
          have hget : ∀ i, t[i]? = s[lineBreak s + 1 + i]? := by
            intro i
            have htail : t = s.drop (lineBreak s + 1) := by
              rw [← List.drop_drop, hdrop, List.drop_succ_cons, List.drop_zero]
            rw [htail, List.getElem?_drop]
          refine ⟨fun e he => ?_, ⟨lineBreak s + 1 + q, d, by omega, ?_, hbreak, ?_⟩,
            fun hnil => absurd hnil (List.cons_ne_nil _ _)⟩
          · rcases List.mem_cons.mp he with rfl | he
            · -- the character is not of a line break, or it is the blank behind one
              by_cases hzero : lineBreak s = 0
              · rcases hcases with ⟨-, hhead⟩ | ⟨hone, -⟩ | ⟨htwo, -⟩
                · rw [hzero, List.drop_zero] at hdrop
                  exact hhead e (by rw [hdrop]; rfl)
                · omega
                · omega
              · have hblank : isBlank e = true := by
                  by_contra hno
                  refine hend ⟨hzero, ?_⟩
                  rw [hdrop]
                  exact Bool.not_eq_true _ ▸ hno
                simp only [isBlank, Bool.or_eq_true, decide_eq_true_eq] at hblank
                rcases hblank with rfl | rfl <;> rfl
            · exact hplain e he
          · rw [← hget]
            exact hd
          · rw [← hn, ← hget]
            exact hcrlf

/-! ## The loop over the lines of a part -/

variable {rs : Rstream}

theorem readLine_spec {rs' : Rstream} (h : rstreamReadLine rs = (some line, rs')) :
    ∃ n, rs.bytesRead < rs.nbytes ∧ lineLoop rs.loc.length rs.loc = (some line, n) ∧
      rs'.buff = rs.buff ∧ rs'.nbytes = rs.nbytes ∧ rs'.bytesRead = rs.bytesRead + n := by
  rw [rstreamReadLine] at h
  split_ifs at h with heof hlt
  · exact absurd (Prod.mk.inj h).1 (by simp)
  · exact absurd (Prod.mk.inj h).1 (by simp)
  · cases hline : lineLoop rs.loc.length rs.loc with
    | mk found n =>
      rw [hline] at h
      cases found with
      | none => exact absurd (Prod.mk.inj h).1 (by simp)
      | some found =>
        obtain ⟨hfound, hrs⟩ := Prod.mk.inj h
        obtain rfl := Option.some.inj hfound
        subst hrs
        exact ⟨n, by omega, rfl, rfl, rfl, rfl⟩

theorem lineStart_readLine {rs' : Rstream} (h : rstreamReadLine rs = (some line, rs')) :
    LineStart rs'.buff rs'.bytesRead ∧ NoBreak line ∧
      (line = [] → ∃ c, rs.buff[rs.bytesRead]? = some c ∧ isBreak c = true) := by
  obtain ⟨n, -, hloop, hbuff, -, hbytes⟩ := readLine_spec h
  obtain ⟨hplain, ⟨q, c, hn, hc, hbreak, hcrlf⟩, hempty⟩ := lineLoop_line hloop
  rw [Rstream.loc] at hc hcrlf hempty
  simp only [List.getElem?_drop] at hc hcrlf hempty
  refine ⟨fun q' hq' => ⟨c, ?_, hbreak, ?_⟩, hplain, hempty⟩
  · have hplace : q' = rs.bytesRead + q := by omega
    rw [hbuff, hplace]
    exact hc
  · rw [hbuff, hbytes]
    exact hcrlf

theorem msgBody_addLine (part : MsgBody) (line : CStr) : (part.addLine line).msgBody = part.msgBody := by
  rw [MsgBody.addLine]
  split_ifs <;> rfl

/-- **The body of a part is what the stream has behind an empty line.** -/
theorem oneBodyLoop_msgBody (fuel : ℕ) (part : MsgBody) (hstart : LineStart rs.buff rs.bytesRead) :
    (oneBodyLoop fuel rs part).msgBody = part.msgBody ∨ ∃ p r, p < rs.nbytes ∧ EmptyLineAt rs.buff p ∧ r ≤ rs.nbytes ∧
        (oneBodyLoop fuel rs part).msgBody = some ((rs.buff.drop r).take (rs.nbytes - r)) := by
  induction fuel generalizing rs part with
  | zero => exact .inl rfl
  | succ fuel ih =>
    rw [oneBodyLoop]
    split
    · exact .inl rfl
    · -- an empty line, and the body behind it
      rename_i rs' hline
      obtain ⟨n, hlt, -, hbuff, hnbytes, -⟩ := readLine_spec hline
      obtain ⟨-, -, hempty⟩ := lineStart_readLine hline
      rw [MsgBody.setBody, rstreamReadBytes]
      split_ifs with heof hend hmore
      · exact .inl rfl
      · exact .inl rfl
      · exact absurd hmore (lt_irrefl _)
      · refine .inr ⟨rs.bytesRead, rs'.bytesRead, hlt, ⟨hstart, hempty rfl⟩, by omega, ?_⟩
        rw [Rstream.loc, hbuff, hnbytes]
        rfl
    · rename_i line rs' _ hline
      obtain ⟨n, -, -, hbuff, hnbytes, -⟩ := readLine_spec hline
      have hrest := ih (part.addLine line) (lineStart_readLine hline).1
      rw [hbuff, hnbytes, msgBody_addLine] at hrest
      exact hrest

/-- The content type and the identifier of a part have no line break. -/
structure UnbrokenPart (p : MsgBody) : Prop where
  msgContentType : ∀ t ∈ p.msgContentType, NoBreak t
  msgContentId : ∀ t ∈ p.msgContentId, NoBreak t

theorem NoBreak.valueBehind (h : NoBreak line) (header : CStr) : NoBreak (valueBehind line header) := by
  intro c hc
  exact h c (List.mem_of_mem_drop ((List.dropWhile_suffix _).subset hc))

theorem UnbrokenPart.addLine {part : MsgBody} (h : UnbrokenPart part) (hline : NoBreak line) :
    UnbrokenPart (part.addLine line) := by
  rw [MsgBody.addLine]
  split_ifs
  · refine ⟨fun t ht => ?_, h.msgContentId⟩
    obtain rfl := Option.some.inj ht
    exact hline.valueBehind _
  · refine ⟨h.msgContentType, fun t ht => ?_⟩
    obtain rfl := Option.some.inj ht
    exact hline.valueBehind _
  · exact ⟨h.msgContentType, h.msgContentId⟩
  · exact ⟨h.msgContentType, h.msgContentId⟩
  · exact h

theorem UnbrokenPart.oneBodyLoop (fuel : ℕ) (rs : Rstream) {part : MsgBody} (h : UnbrokenPart part) :
    UnbrokenPart (oneBodyLoop fuel rs part) := by
  induction fuel generalizing rs part with
  | zero => exact h
  | succ fuel ih =>
    rw [Httpish.oneBodyLoop]
    split
    · exact h
    · exact ⟨h.msgContentType, h.msgContentId⟩
    · rename_i line rs' _ hline
      exact ih rs' (h.addLine (lineStart_readLine hline).2.1)

variable {t : CStr}

theorem EmptyLineAt.of_append {p : ℕ} (h : EmptyLineAt (s ++ t) (s.length + p)) : EmptyLineAt t p := by
  obtain ⟨hstart, c, hc, hbreak⟩ := h
  rw [List.getElem?_append_right (Nat.le_add_right _ _), Nat.add_sub_cancel_left] at hc
  refine ⟨fun q hq => ?_, c, hc, hbreak⟩
  obtain ⟨d, hd, hdbreak, hcrlf⟩ := hstart (s.length + q) (by omega)
  rw [List.getElem?_append_right (Nat.le_add_right _ _), Nat.add_sub_cancel_left] at hd
  rw [List.getElem?_append_right (Nat.le_add_right _ _), Nat.add_sub_cancel_left] at hcrlf
  exact ⟨d, hd, hdbreak, hcrlf⟩

/-- **Lines that are not empty have no empty line in them.** -/
theorem not_emptyLineAt_linesText {lines : List CStr} (h : ∀ l ∈ lines, l ≠ [] ∧ NoBreak l) (t : CStr)
    {p : ℕ} (hp : p < (linesText lines).length) : ¬ EmptyLineAt (linesText lines ++ t) p := by
  induction lines generalizing p with
  | nil => exact absurd hp (Nat.not_lt_zero p)
  | cons l lines ih =>
    obtain ⟨hne, hplain⟩ := h l List.mem_cons_self
    have hpos := List.length_pos_iff.mpr hne
    have hcrlf : CStr.crlf.length = 2 := rfl
    rw [linesText_cons, List.length_append, List.length_append, hcrlf] at hp
    rw [linesText_cons, List.append_assoc]
    intro hempty
    have hinside : ∀ i, i < l.length → ∀ c, (l ++ CStr.crlf ++ (linesText lines ++ t))[i]? = some c →
        isBreak c = false := by
      intro i hi c hc
      rw [List.append_assoc, List.getElem?_append_left hi] at hc
      exact hplain c (List.mem_of_getElem? hc)
    rcases Nat.lt_or_ge p (l.length + 2) with hlt | hge
    · obtain ⟨hstart, c, hc, hbreak⟩ := hempty
      rcases Nat.lt_trichotomy p l.length with hin | heq | hlast
      · -- a character of the line is of no line break
        rw [hinside p hin c hc] at hbreak
        exact absurd hbreak (by decide)
      · -- the line is not empty
        obtain ⟨d, hd, hdbreak, -⟩ := hstart (p - 1) (by omega)
        rw [hinside (p - 1) (by omega) d hd] at hdbreak
        exact absurd hdbreak (by decide)
      · -- both characters of the line break belong to it
        obtain ⟨d, hd, -, hsplit⟩ := hstart l.length (by omega)
        have hp' : p = l.length + 1 := by omega
        rw [hp', List.append_assoc, List.getElem?_append_right (Nat.le_add_right _ _),
          Nat.add_sub_cancel_left] at hsplit
        rw [List.append_assoc, List.getElem?_append_right le_rfl, Nat.sub_self] at hd
        exact hsplit ⟨(Option.some.inj hd).symm, rfl⟩
    · have hlen : (l ++ CStr.crlf).length + (p - (l.length + 2)) = p := by
        rw [List.length_append, hcrlf]
        omega
      rw [← hlen] at hempty
      exact ih (fun l hl => h l (List.mem_cons_of_mem _ hl)) (by omega) hempty.of_append

/-! ## The first delimiter -/

def delimiter : CStr := "--" ++ uniqueBoundary

/-- The text of a part: it has bytes, no terminator and no delimiter, and starts with no line break. -/
structure TextBody (b : Body) : Prop where
  ne_nil : b.body ≠ []
  nulFree : NulFree b.body
  no_delimiter : ¬ delimiter <:+: b.body
  unbroken : ∀ c ∈ b.body.head?, isBreak c = false

theorem noBreak_delimiter : NoBreak delimiter := CStr.forall_of_all (by decide)

/-- In front of a line break and a delimiter, an earlier delimiter starts in the headers. -/
theorem length_lt_of_delimiter {header body front : CStr} (hbody : ¬ delimiter <:+: body)
    (h : front ++ (delimiter ++ s) = header ++ (body ++ (CStr.crlf ++ t)))
    (hlt : front.length < (header ++ (body ++ CStr.crlf)).length) : front.length < header.length := by
  by_contra hge
  have hcrlf : CStr.crlf.length = 2 := rfl
  simp only [List.length_append, hcrlf] at hlt
  -- the delimiter starts in the body or in the line break behind it
  obtain ⟨inner, rfl⟩ : header <+: front :=
    List.prefix_of_prefix_length_le ⟨_, rfl⟩ (h ▸ List.prefix_append _ _) (by omega)
  rw [List.append_assoc, List.append_cancel_left_eq] at h
  rw [List.length_append] at hlt
  have hget : ∀ i : ℕ, (inner ++ (delimiter ++ s))[i]? = (body ++ (CStr.crlf ++ t))[i]? := fun i => by rw [h]
  have hlen : delimiter.length = 16 := by decide
  rcases Nat.lt_or_ge body.length (inner.length + delimiter.length) with hover | hin
  · -- then it has a character of the line break
    obtain ⟨i, c, hi, hbreak, hplace⟩ : ∃ i c, i < delimiter.length ∧ isBreak c = true ∧
        (body ++ (CStr.crlf ++ t))[inner.length + i]? = some c := by
      rcases Nat.lt_or_ge body.length inner.length with hafter | hbefore
      · refine ⟨0, '\n', by omega, rfl, ?_⟩
        have hplace : inner.length + 0 = body.length + 1 := by omega
        rw [hplace, List.getElem?_append_right (by omega), Nat.add_sub_cancel_left]
        rfl
      · refine ⟨body.length - inner.length, '\r', by omega, rfl, ?_⟩
        have hplace : inner.length + (body.length - inner.length) = body.length := by omega
        rw [hplace, List.getElem?_append_right le_rfl, Nat.sub_self]
        rfl
    rw [← hget, List.getElem?_append_right (by omega), Nat.add_sub_cancel_left,
      List.getElem?_append_left hi] at hplace
    rw [noBreak_delimiter c (List.mem_of_getElem? hplace)] at hbreak
    exact absurd hbreak (by decide)
  · -- then the body has it
    have hwhole : inner ++ delimiter <+: body ++ (CStr.crlf ++ t) := by
      rw [← h, ← List.append_assoc]
      exact List.prefix_append _ _
    have hpre : inner ++ delimiter <+: body := by
      refine List.prefix_of_prefix_length_le hwhole (List.prefix_append _ _) ?_
      rw [List.length_append]
      exact hin
    exact hbody ((List.suffix_append inner delimiter).isInfix.trans hpre.isInfix)

/-- The first delimiter that is found is the one behind the body, or it starts in the headers. -/
theorem strstr_delimiter {header body msgEnd : CStr} {k : ℕ} (hbody : ¬ delimiter <:+: body) (h : CStr.strstr delimiter
      (('\n' :: (header ++ (body ++ (CStr.crlf ++ (delimiter ++ t))))).take k) = some msgEnd) :
    ∃ front, ('\n' :: (header ++ (body ++ (CStr.crlf ++ (delimiter ++ t))))).take k = '\n' :: (front ++ msgEnd) ∧
      front ++ msgEnd <+: header ++ (body ++ (CStr.crlf ++ (delimiter ++ t))) ∧
      (front = header ++ (body ++ CStr.crlf) ∨ front.length < header.length) := by
  generalize htext : header ++ (body ++ (CStr.crlf ++ (delimiter ++ t))) = text at h ⊢
  obtain ⟨hpat, hsuffix⟩ := CStr.strstr_spec h
  obtain ⟨before, hbefore⟩ := hsuffix
  have hall : '\n' :: text = before ++ (msgEnd ++ ('\n' :: text).drop k) := by
    rw [← List.append_assoc, hbefore, List.take_append_drop]
  -- the delimiter is not the line break in front of it
  obtain ⟨front, rfl⟩ : ∃ front, before = '\n' :: front := by
    cases before with
    | nil =>
      obtain ⟨s, rfl⟩ := hpat
      exact absurd (List.cons.inj hall).1 (by decide)
    | cons c front => exact ⟨front, by rw [(List.cons.inj hall).1]⟩
  have hfront : text = front ++ (msgEnd ++ ('\n' :: text).drop k) := (List.cons.inj hall).2
  refine ⟨front, hbefore.symm, ⟨('\n' :: text).drop k, by rw [List.append_assoc]; exact hfront.symm⟩, ?_⟩
  -- no delimiter is in front of the one that is found
  have hlast : delimiter ++ t <:+ '\n' :: text := by
    refine ⟨'\n' :: (header ++ (body ++ CStr.crlf)), ?_⟩
    rw [← htext]
    simp only [List.cons_append, List.append_assoc]
  have hfirst := CStr.strstr_append h (('\n' :: text).drop k)
  rw [List.take_append_drop] at hfirst
  obtain ⟨u, hu, hle⟩ := CStr.exists_strstr (List.prefix_append delimiter t) hlast
  rw [hfirst] at hu
  obtain rfl := Option.some.inj hu
  have hlen := hle.length_le
  have htextlen := congrArg List.length htext
  have hfrontlen := congrArg List.length hfront
  rcases Nat.lt_or_ge front.length (header ++ (body ++ CStr.crlf)).length with hlt | hge
  · right
    obtain ⟨s, rfl⟩ := hpat
    refine length_lt_of_delimiter hbody (s := s ++ ('\n' :: text).drop k) (t := delimiter ++ t) ?_ hlt
    rw [htext, ← List.append_assoc delimiter]
    exact hfront.symm
  · left
    have hpre : header ++ (body ++ CStr.crlf) <+: text := by
      rw [← htext]
      exact ⟨delimiter ++ t, by simp only [List.append_assoc]⟩
    refine (List.IsPrefix.eq_of_length (List.prefix_of_prefix_length_le hpre ⟨_, hfront.symm⟩ hge) ?_).symm
    simp only [List.length_append] at hlen htextlen hfrontlen hge ⊢
    omega

/-! ## The first part -/

structure SamePart (b : Body) (p : MsgBody) : Prop where
  msgContentType : p.msgContentType = some b.contentType
  msgContentDisp : p.msgContentDisp = b.msgDisposition
  msgRequiredHandling : p.msgRequiredHandling = b.required
  msgContentId : p.msgContentId = b.contentId
  msgLength : p.msgLength = b.body.length
  msgBody : p.msgBody = some b.body

theorem EmptyLineAt.congr {p : ℕ} (h : EmptyLineAt s p) (hst : ∀ i ≤ p, s[i]? = t[i]?) : EmptyLineAt t p := by
  obtain ⟨hstart, c, hc, hbreak⟩ := h
  refine ⟨fun q hq => ?_, c, by rw [← hst p le_rfl]; exact hc, hbreak⟩
  obtain ⟨d, hd, hdbreak, hcrlf⟩ := hstart q hq
  refine ⟨d, by rw [← hst q (by omega)]; exact hd, hdbreak, ?_⟩
  rw [← hst p le_rfl]
  exact hcrlf

theorem partHeader_eq_cons (p : MsgBody) : ∃ t, partHeader p = 'C' :: t := by
  have hheader : ∃ t, headerText p = 'C' :: t := ⟨_, rfl⟩
  obtain ⟨t, ht⟩ := hheader
  exact ⟨t.take 198, by rw [partHeader_eq, ht]; rfl⟩

theorem noBreak_partLines {p : MsgBody} (htype : NoBreak p.typeText)
    (hid : ∀ contentId ∈ p.msgContentId, NoBreak contentId) :
    ∀ l ∈ partLines p, l ≠ [] ∧ NoBreak l := by
  have happend : ∀ {s t : CStr}, NoBreak s → NoBreak t → NoBreak (s ++ t) := by
    intro s t hs ht c hc
    rcases List.mem_append.mp hc with hc | hc
    · exact hs c hc
    · exact ht c hc
  intro l hl
  rcases List.mem_append.mp hl with hl | hl
  · rcases List.mem_cons.mp hl with rfl | hl
    · refine ⟨List.cons_ne_nil _ _, ?_⟩
      have hname : NoBreak "Content-Type: ".toList := CStr.forall_of_all (by decide)
      simpa [CStr.fmt, -String.reduceToList] using happend hname htype
    · obtain rfl := List.mem_singleton.mp hl
      refine ⟨List.cons_ne_nil _ _, CStr.forall_of_all ?_⟩
      cases p.msgContentDisp <;> cases p.msgRequiredHandling <;> decide
  · obtain ⟨contentId, hmem, rfl⟩ := List.mem_map.mp hl
    refine ⟨List.cons_ne_nil _ _, ?_⟩
    have hname : NoBreak "Content-Id: ".toList := CStr.forall_of_all (by decide)
    simpa [CStr.fmt, -String.reduceToList] using happend hname (hid contentId (Option.mem_toList.mp hmem))

theorem head_eq_of_suffix {c d : Char} {l : CStr} (h : c :: l <:+ c :: l ++ [d]) : c = d := by
  have htail : c :: l = l ++ [d] := by
    obtain ⟨front, hfront⟩ := h
    have hlen := congrArg List.length hfront
    simp only [List.length_append, List.length_cons, List.length_nil] at hlen
    obtain ⟨e, rfl⟩ := List.length_eq_one_iff.mp (show front.length = 1 by omega)
    exact (List.cons.inj hfront).2
  -- the characters of the text are all the same
  induction l generalizing c with
  | nil => exact (List.cons.inj htail).1
  | cons e l ih =>
    have hce : c = e := (List.cons.inj htail).1
    have hrest : e :: l = l ++ [d] := (List.cons.inj htail).2
    rw [hce]
    exact ih ⟨[e], by rw [List.singleton_append, List.cons_append, ← hrest]⟩ hrest

/-- **The first part is not the one that was written.** Up to the delimiter behind it, the part has one
byte more than the body. Up to a delimiter in its headers, there is no body. -/
theorem not_samePart_of_delimiter {b : Body} {p : MsgBody} (hp : PartOf b p) (hb : TextBody b)
    {hmsg : HttpishMsg} (hnew : hmsg.mesgBody 0 = {}) {msgStart msgEnd : CStr} {k : ℕ}
    (hstart : msgStart = ('\n' :: (partHeader p ++ (b.body ++ (CStr.crlf ++ (delimiter ++ t))))).take k)
    (hend : CStr.strstr delimiter msgStart = some msgEnd) :
    ¬ SamePart b ((msgProcessOneBody hmsg msgStart (msgStart.length - msgEnd.length - 1) 0).mesgBody 0) := by
  rw [hstart] at hend
  obtain ⟨front, htake, hpre, hfront⟩ := strstr_delimiter hb.no_delimiter hend
  rw [htake] at hstart
  obtain ⟨header, hheader⟩ := partHeader_eq_cons p
  -- the line break behind the first delimiter is skipped
  have hdrop : msgStart.dropWhile isBreak = front ++ msgEnd := by
    have hhead : ∀ c ∈ (front ++ msgEnd).head?, isBreak c = false := by
      intro c hc
      obtain ⟨s, hs⟩ := List.head?_eq_some_iff.mp hc
      rw [hs, hheader] at hpre
      rw [(List.cons_prefix_cons.mp hpre).1]
      rfl
    rw [hstart, List.dropWhile_cons, if_pos (by rfl)]
    cases hcase : front ++ msgEnd with
    | nil => rfl
    | cons c s =>
      rw [List.dropWhile_cons, hhead c (by rw [hcase]; rfl)]
      rfl
  have hsize : msgStart.length - msgEnd.length - 1 - (msgStart.length - (front ++ msgEnd).length) =
      front.length - 1 := by
    rw [hstart, List.length_cons, List.length_append]
    omega
  intro hsame
  rw [msgProcessOneBody] at hsame
  simp only [hdrop, hsize] at hsame
  rw [rstreamCreate] at hsame
  split_ifs at hsame with hzero
  · -- no bytes for the part
    have hbody := hsame.msgBody
    simp only [hnew] at hbody
    exact absurd hbody (by simp)
  · simp only [Function.update_self, hnew] at hsame
    generalize hrs : (⟨front ++ msgEnd, front.length - 1, 0, false⟩ : Rstream) = rs at hsame
    have hunbroken : UnbrokenPart (oneBodyLoop (front.length - 1) rs {}) :=
      UnbrokenPart.oneBodyLoop _ rs ⟨fun t ht => absurd ht (by simp), fun t ht => absurd ht (by simp)⟩
    have hloop := @oneBodyLoop_msgBody rs (front.length - 1) {} (by
      rw [← hrs]
      exact fun q hq => absurd hq (by simp))
    rw [hsame.msgBody] at hloop
    rcases hloop with hnone | ⟨q, r, hq, hempty, hr, hbody⟩
    · exact absurd hnone (by simp)
    · rw [← hrs] at hq hempty hr hbody
      simp only at hq hempty hr hbody
      rcases hfront with rfl | hlt
      · -- the part ends between the two characters of the line break
        have hread : (partHeader p ++ (b.body ++ CStr.crlf) ++ msgEnd).take
            ((partHeader p ++ (b.body ++ CStr.crlf)).length - 1) =
            partHeader p ++ (b.body ++ ['\r']) := by
          have hsplit : partHeader p ++ (b.body ++ CStr.crlf) ++ msgEnd =
              (partHeader p ++ (b.body ++ ['\r'])) ++ ('\n' :: msgEnd) := by
            simp [CStr.crlf]
          have hlen : (partHeader p ++ (b.body ++ CStr.crlf)).length - 1 =
              (partHeader p ++ (b.body ++ ['\r'])).length := by
            simp [CStr.crlf]
          rw [hsplit, hlen, List.take_left]
        rw [← List.drop_take, hread] at hbody
        have hsuffix : b.body <:+ b.body ++ ['\r'] := by
          have hwhole : b.body <:+ partHeader p ++ (b.body ++ ['\r']) := by
            nth_rewrite 1 [Option.some.inj hbody]
            exact List.drop_suffix _ _
          refine List.suffix_of_suffix_length_le hwhole (List.suffix_append _ _) ?_
          rw [List.length_append]
          exact Nat.le_add_right _ _
        obtain ⟨c, body, hcons⟩ := List.exists_cons_of_ne_nil hb.ne_nil
        rw [hcons] at hsuffix
        have hbreak := hb.unbroken c (by rw [hcons]; rfl)
        rw [head_eq_of_suffix hsuffix] at hbreak
        exact absurd hbreak (by decide)
      · -- the part ends in its headers, which have no empty line there
        have hlines := noBreak_partLines (p := p) (by
            rw [MsgBody.typeText, hp.msgContentType]
            exact hunbroken.msgContentType _ hsame.msgContentType)
          (by
            rw [hp.msgContentId, ← hsame.msgContentId]
            exact hunbroken.msgContentId)
        have hcut : (partHeader p).length ≤ (linesText (partLines p) ++ CStr.crlf).length := by
          rw [partHeader_eq, headerText_eq, List.length_take]
          exact Nat.min_le_right _ _
        have hcrlf : CStr.crlf.length = 2 := rfl
        rw [List.length_append, hcrlf] at hcut
        refine not_emptyLineAt_linesText hlines CStr.crlf (p := q) (by omega) (hempty.congr fun i hi => ?_)
        have hpre : front <+: partHeader p := by
          have hwhole := (List.prefix_append front msgEnd).trans hpre
          exact List.prefix_of_prefix_length_le hwhole (List.prefix_append _ _) (Nat.le_of_lt hlt)
        obtain ⟨more, hmore⟩ := hpre
        rw [← headerText_eq, List.getElem?_append_left (by omega)]
        have hcopy : (partHeader p)[i]? = (headerText p)[i]? := by
          rw [partHeader_eq, List.getElem?_take_of_lt]
          rw [partHeader_eq, List.length_take] at hlt
          omega
        rw [← hcopy, ← hmore, List.getElem?_append_left (by omega)]

/-! ## The parts of a message -/

theorem mesgBody_processOneBody (hmsg : HttpishMsg) (msgStart : CStr) (size : ℕ) {part i : ℕ}
    (hi : i ≠ part) : (msgProcessOneBody hmsg msgStart size part).mesgBody i = hmsg.mesgBody i := by
  rw [msgProcessOneBody]
  split
  · rfl
  · exact Function.update_of_ne hi _ _

theorem mesgBody_multipleBodiesLoop (msgDelimit : CStr) (fuel : ℕ) (hmsg : HttpishMsg) (rawBody : CStr)
    {bodyPart i : ℕ} (hi : i < bodyPart) :
    (multipleBodiesLoop msgDelimit fuel hmsg rawBody bodyPart).1.mesgBody i = hmsg.mesgBody i := by
  induction fuel generalizing hmsg rawBody bodyPart with
  | zero => rfl
  | succ fuel ih =>
    rw [multipleBodiesLoop]
    split
    · rfl
    · simp only
      split
      · rfl
      · split_ifs
        · exact mesgBody_processOneBody _ _ _ (Nat.ne_of_lt hi)
        · rw [ih _ _ (Nat.lt_succ_of_lt hi)]
          exact mesgBody_processOneBody _ _ _ (Nat.ne_of_lt hi)

theorem multipleBodiesLoop_first (msgDelimit : CStr) (fuel : ℕ) (hmsg : HttpishMsg) (rawBody : CStr) :
    (multipleBodiesLoop msgDelimit fuel hmsg rawBody 0).2 = 0 ∨
      ∃ found msgStart msgEnd, CStr.strstr msgDelimit rawBody = some found ∧
        msgStart = found.drop (msgDelimit.length + 1) ∧ CStr.strstr msgDelimit msgStart = some msgEnd ∧
        (multipleBodiesLoop msgDelimit fuel hmsg rawBody 0).1.mesgBody 0 =
          (msgProcessOneBody hmsg msgStart (msgStart.length - msgEnd.length - 1) 0).mesgBody 0 := by
  cases fuel with
  | zero => exact .inl rfl
  | succ fuel =>
    rw [multipleBodiesLoop]
    split
    · exact .inl rfl
    · rename_i found hfound
      simp only
      split
      · exact .inl rfl
      · rename_i msgEnd hend
        refine .inr ⟨found, _, msgEnd, hfound, rfl, hend, ?_⟩
        split_ifs
        · rfl
        · exact mesgBody_multipleBodiesLoop _ _ _ _ Nat.zero_lt_one

theorem readBytes_eq {rs' : Rstream} {n : ℕ} {bytes : CStr}
    (h : rstreamReadBytes rs n = (some bytes, rs')) : bytes = rs.loc.take n := by
  rw [rstreamReadBytes] at h
  split_ifs at h
  · exact absurd (Prod.mk.inj h).1 (by simp)
  · exact absurd (Prod.mk.inj h).1 (by simp)
  · exact absurd (Prod.mk.inj h).1 (by simp)
  · exact (Option.some.inj (Prod.mk.inj h).1).symm

/-- A message has no new parts, or they are those of the first bytes behind the headers. -/
theorem processBody_parts (hmsg : HttpishMsg) {contentType : CStr} (nbytes : ℕ)
    (htype : hmsg.cachedHeaderVal .contentType = some contentType) :
    (processBody hmsg rs nbytes).2.1.numBodyParts = hmsg.numBodyParts ∨ ∃ n, (processBody hmsg rs nbytes).2.1 =
        HttpishMsg.setBody { hmsg with
          contentLength := bodyLength hmsg rs
          isComplete := true } contentType (rs.loc.take n) := by
  generalize hresult : processBody hmsg rs nbytes = result
  unfold processBody at hresult
  change (if ((rs.nbytes - rs.bytesRead : ℕ) : ℤ) < bodyLength hmsg rs then _ else _) = _ at hresult
  by_cases hlt : ((rs.nbytes - rs.bytesRead : ℕ) : ℤ) < bodyLength hmsg rs
  · -- the message is not complete
    left
    rw [if_pos hlt] at hresult
    split_ifs at hresult
    · split at hresult <;> exact hresult ▸ rfl
    · exact hresult ▸ rfl
  · rw [if_neg hlt] at hresult
    change (if 0 < bodyLength hmsg rs then _ else _) = _ at hresult
    by_cases hpos : 0 < bodyLength hmsg rs
    · rw [if_pos hpos] at hresult
      split at hresult
      · exact .inl (hresult ▸ rfl)
      · rename_i rawBody rs' hread
        have hval : HttpishMsg.cachedHeaderVal { hmsg with
            contentLength := bodyLength hmsg rs
            isComplete := true } .contentType = some contentType := htype
        obtain rfl := readBytes_eq hread
        split at hresult
        · exact .inl (hresult ▸ rfl)
        · rename_i contentType' htype'
          obtain rfl := Option.some.inj (hval.symm.trans htype')
          exact .inr ⟨_, congrArg (fun result => result.2.1) hresult.symm⟩
    · rw [if_neg hpos] at hresult
      exact .inl (hresult ▸ rfl)

/-- The value of the header `Content-Type` for several parts. -/
def multipartType : CStr := "multipart/mixed; boundary=uniqueBoundary"

theorem setBody_multipartType (hmsg : HttpishMsg) (rawBody : CStr) : (hmsg.setBody multipartType rawBody).mesgBody =
        (multipleBodiesLoop delimiter maxBodyParts hmsg rawBody 0).1.mesgBody ∧
      ((multipleBodiesLoop delimiter maxBodyParts hmsg rawBody 0).2 = 0 →
        (hmsg.setBody multipartType rawBody).numBodyParts =
          (multipleBodiesLoop delimiter maxBodyParts hmsg rawBody 0).1.numBodyParts) := by
  have hmulti : startsWith multipartType multipartMixed = true := by decide
  have hboundary : multipartType.dropWhile (· != '=') = '=' :: uniqueBoundary := by decide
  have htag : (uniqueBoundary.takeWhile fun c => !endsBoundary c) = uniqueBoundary := by decide
  have hsize : ¬ msgDelimitSize ≤ uniqueBoundary.length + 1 := by decide
  rw [HttpishMsg.setBody, if_pos hmulti, hboundary]
  simp only [msgProcessMultipleBodies, htag, if_neg hsize]
  exact ⟨rfl, fun hzero => if_pos hzero⟩

theorem numBodyParts_multipleBodiesLoop (msgDelimit : CStr) (fuel : ℕ) (hmsg : HttpishMsg)
    (rawBody : CStr) (bodyPart : ℕ) :
    (multipleBodiesLoop msgDelimit fuel hmsg rawBody bodyPart).1.numBodyParts = hmsg.numBodyParts := by
  have hone : ∀ (hmsg : HttpishMsg) msgStart size part,
      (msgProcessOneBody hmsg msgStart size part).numBodyParts = hmsg.numBodyParts := by
    intro hmsg msgStart size part
    rw [msgProcessOneBody]
    split <;> rfl
  induction fuel generalizing hmsg rawBody bodyPart with
  | zero => rfl
  | succ fuel ih =>
    rw [multipleBodiesLoop]
    split
    · rfl
    · simp only
      split
      · rfl
      · split_ifs
        · exact hone _ _ _ _
        · rw [ih]
          exact hone _ _ _ _

/-! ## Written and parsed -/

/-- The parts of the message are the given ones. -/
structure Recovered (hmsg : HttpishMsg) (bodies : List Body) : Prop where
  numBodyParts : hmsg.numBodyParts = bodies.length
  part : ∀ i b, bodies[i]? = some b → SamePart b (hmsg.mesgBody i)

theorem HoldsBodies.countedText_eq {msg : HttpishMsg} {b b' : Body} {bodies : List Body}
    (h : HoldsBodies msg (b :: b' :: bodies)) :
    ∃ t, countedText msg = delimiter ++ ('\r' :: '\n' :: (partHeader (msg.mesgBody 0) ++
      (b.body ++ (CStr.crlf ++ (delimiter ++ t))))) := by
  have hn : msg.numBodyParts = bodies.length + 1 + 1 := h.numBodyParts
  have hfirst := (h.part 0 b rfl).take_body
  have hopen : boundaryLine.drop 2 = delimiter ++ CStr.crlf := by decide
  have hnext : boundaryLine = CStr.crlf ++ (delimiter ++ CStr.crlf) := by decide
  rw [countedText, if_neg (by omega), if_pos (by omega), partsText, hn, List.range_succ_eq_map,
    List.range_succ_eq_map, List.flatMap_cons, List.map_cons, List.flatMap_cons]
  have hpart : partText msg 0 = partHeader (msg.mesgBody 0) ++ b.body := by
    rw [partText, if_neg (lt_irrefl 0), hfirst, List.nil_append]
  have hsecond : ∃ s, partText msg (Nat.succ 0) = CStr.crlf ++ (delimiter ++ s) := by
    rw [partText, if_pos (Nat.succ_pos 0), hnext]
    generalize partHeader (msg.mesgBody (Nat.succ 0)) ++ _ = part
    exact ⟨CStr.crlf ++ part, by simp only [List.append_assoc]⟩
  obtain ⟨s, hs⟩ := hsecond
  rw [hopen, hpart, hs]
  generalize List.flatMap (partText msg) _ = more
  refine ⟨s ++ (more ++ closingLine), ?_⟩
  simp only [List.append_assoc]
  rfl

theorem headerValues_multipartLines (msg : HttpishMsg) :
    headerValues .contentType (multipartLines msg) = [multipartType] := by
  have hlength : cachedHeader (contentLengthText msg) = some .contentLength := by
    unfold contentLengthText
    generalize CStr.decimal (announcedLength msg) = digits
    have hname : headerNameVal ("Content-Length: ".toList ++ digits) = some "Content-Length".toList := rfl
    rw [cachedHeader, hname]
    decide
  have htype : headerValues .contentType [multipartTypeText, mimeVersionText] = [multipartType] := by
    decide
  have hsplit : multipartLines msg = [multipartTypeText, mimeVersionText] ++ [contentLengthText msg] := rfl
  rw [hsplit, headerValues_append_singleton, htype, hlength, if_neg (by simp)]
  rfl

/-- **The parts of a parsed message are never those that were written.** -/
theorem not_recovered {start : CStr} {lines : List CStr} {bodies : List Body} {nbytes : ℕ} {out : CStr}
    (hstart : IsLine start) (hlines : ∀ l ∈ lines, IsHeaderLine l)
    (htype : headerValues .contentType lines = []) (hmin : 2 ≤ bodies.length)
    (hmax : bodies.length ≤ maxBodyParts) (htext : ∀ b ∈ bodies, TextBody b)
    (h : httpishMsgWrite (msgOf start lines bodies) nbytes = some out) :
    ¬ Recovered (parse out).2.1 bodies := by
  have hholds := holdsBodies_msgOf start lines (fun b hb => (htext b hb).ne_nil) hmax
  obtain ⟨hmesgLine, hheaders⟩ := lines_msgOf start lines bodies
  obtain rfl := httpishMsgWrite_text h
  clear h
  generalize msgOf start lines bodies = msg at hholds hmesgLine hheaders
  obtain ⟨b, b', rest, rfl⟩ : ∃ b b' rest, bodies = b :: b' :: rest := by
    match bodies, hmin with
    | b :: b' :: rest, _ => exact ⟨b, b', rest, rfl⟩
  have hfirst := hholds.part 0 b rfl
  obtain ⟨t, hcounted⟩ := hholds.countedText_eq
  have hn : 1 < msg.numBodyParts := by
    rw [hholds.numBodyParts]
    exact hmin
  -- the headers are read
  obtain ⟨m, hm, hhead, hmlines⟩ : ∃ m : Message, m.LinesFormed ∧ headText msg = m.head ∧
      m.lines = lines ++ multipartLines msg := by
    refine ⟨⟨start, lines ++ multipartLines msg, []⟩, ⟨hstart.1, hstart.2, fun l hl => ?_⟩, ?_, rfl⟩
    · rcases List.mem_append.mp hl with hl | hl
      · exact hlines l hl
      · obtain ⟨hne, hplain⟩ := isLine_multipartLines msg l hl
        refine ⟨hne, hplain, ?_⟩
        simp only [multipartLines, List.mem_cons, List.not_mem_nil, or_false] at hl
        rcases hl with rfl | rfl | rfl <;> rfl
    · rw [headText_of_several hn, hmesgLine, hheaders]
      rfl
  have hpeek : isBlank (CStr.peek (countedText msg)) = false := by
    rw [hcounted]
    rfl
  have hparse := parse_head hm hpeek
  have hsame := m.sameButHeaders_header
  have hcached : m.header.cachedHeaderVal .contentType = some multipartType := by
    have hvals : headerValues .contentType m.lines = [multipartType] := by
      rw [hmlines, ← headerValues_multipartLines msg, headerValues, List.filter_append, List.map_append,
        List.filter_append]
      change headerValues .contentType lines ++ headerValues .contentType (multipartLines msg) = _
      rw [htype, List.nil_append]
    rw [m.headersGiven_header.cached, hvals]
    simp [joinValues]
  rw [hhead, hparse]
  intro hrecovered
  have hcount := hrecovered.numBodyParts
  have hpart := hrecovered.part 0 b rfl
  rcases processBody_parts m.header (m.head ++ countedText msg).length hcached with hnone | ⟨n, hset⟩
  · -- no parts were set
    rw [hnone, hsame.numBodyParts] at hcount
    exact absurd hcount (by simp)
  · have hloc : (streamAt (m.head ++ countedText msg) m.head.length).loc = countedText msg :=
      List.drop_left
    obtain ⟨hmsg, hmsgBody, hmsgParts, hresult⟩ : ∃ hmsg : HttpishMsg, hmsg.mesgBody 0 = {} ∧
        hmsg.numBodyParts = 0 ∧ (processBody m.header (streamAt (m.head ++ countedText msg) m.head.length)
          (m.head ++ countedText msg).length).2.1 =
            hmsg.setBody multipartType ((countedText msg).take n) := by
      rw [hloc] at hset
      refine ⟨_, ?_, ?_, hset⟩
      · exact congrFun hsame.mesgBody 0
      · exact hsame.numBodyParts
    obtain ⟨hbodies, hzero⟩ := setBody_multipartType hmsg ((countedText msg).take n)
    rw [hresult] at hcount hpart
    rw [hbodies] at hpart
    rcases multipleBodiesLoop_first delimiter maxBodyParts hmsg ((countedText msg).take n) with
      hno | ⟨found, msgStart, msgEnd, hfound, hbegin, hend, hbody⟩
    · -- no part was found
      rw [hzero hno, numBodyParts_multipleBodiesLoop, hmsgParts] at hcount
      exact absurd hcount (by simp)
    · rw [hbody] at hpart
      -- the first delimiter is at the start of the bytes
      have hlen : delimiter.length = 16 := by decide
      obtain ⟨hpat, hsuffix⟩ := CStr.strstr_spec hfound
      have hle := hpat.length_le.trans hsuffix.length_le
      rw [List.length_take] at hle
      have hpre : delimiter <+: (countedText msg).take n := by
        rw [hcounted]
        exact List.prefix_take_iff.mpr ⟨List.prefix_append _ _, by omega⟩
      rw [CStr.strstr_of_isPrefix hpre] at hfound
      obtain rfl := Option.some.inj hfound
      have hmsgStart : msgStart = ('\n' :: (partHeader (msg.mesgBody 0) ++
          (b.body ++ (CStr.crlf ++ (delimiter ++ t))))).take (n - 17) := by
        rw [hbegin, hlen, List.drop_take, hcounted]
        congr 1
      exact not_samePart_of_delimiter hfirst (htext b List.mem_cons_self) hmsgBody hmsgStart hend hpart

/-- The bodies of a message with two text parts. -/
def twoBodies : List Body := [textBody "hello", textBody "world"]

theorem textBody_twoBodies : ∀ b ∈ twoBodies, TextBody b := by
  intro b hb
  simp only [twoBodies, List.mem_cons, List.not_mem_nil, or_false] at hb
  have hshort : ∀ s : CStr, s.length < 16 → ¬ delimiter <:+: s := by
    intro s hs hinfix
    have hlen : delimiter.length = 16 := by decide
    have hle := hinfix.length_le
    omega
  rcases hb with rfl | rfl
  · exact ⟨by decide, by decide, hshort _ (by decide), fun c hc => by
      obtain rfl := Option.some.inj hc
      rfl⟩
  · exact ⟨by decide, by decide, hshort _ (by decide), fun c hc => by
      obtain rfl := Option.some.inj hc
      rfl⟩

/-- The two parts are written, and are not what is read. -/
theorem not_recovered_twoBodies :
    ∃ out, httpishMsgWrite (msgOf "NOTIFY sip:a@b SIP/2.0" ["To: b"] twoBodies) 4096 = some out ∧
      ¬ Recovered (parse out).2.1 twoBodies := by
  have hsome : (httpishMsgWrite (msgOf "NOTIFY sip:a@b SIP/2.0" ["To: b"] twoBodies) 4096).isSome =
      true := by decide +kernel
  obtain ⟨out, h⟩ := Option.isSome_iff_exists.mp hsome
  refine ⟨out, h, not_recovered ⟨by decide, by decide +kernel⟩ ?_ (by decide +kernel) (by decide)
    (by decide) textBody_twoBodies h⟩
  intro l hl
  obtain rfl := List.mem_singleton.mp hl
  exact ⟨by decide, by decide, by decide⟩

/-- Both parts that are read have the carriage return in front of the next delimiter as well. -/
theorem carriageReturn_twoBodies :
    ∃ out, httpishMsgWrite (msgOf "NOTIFY sip:a@b SIP/2.0" ["To: b"] twoBodies) 4096 = some out ∧
      (parse out).2.1.numBodyParts = 2 ∧
      ((parse out).2.1.mesgBody 0).msgBody = some ("hello\r" : String).toList ∧
      ((parse out).2.1.mesgBody 0).msgLength = 6 ∧ ¬ Recovered (parse out).2.1 twoBodies := by
  have hread : ∃ out ∈ httpishMsgWrite (msgOf "NOTIFY sip:a@b SIP/2.0" ["To: b"] twoBodies) 4096,
      (parse out).2.1.numBodyParts = 2 ∧
      ((parse out).2.1.mesgBody 0).msgBody = some ("hello\r" : String).toList ∧
      ((parse out).2.1.mesgBody 0).msgLength = 6 := by
    decide +kernel
  obtain ⟨out, hout, hcount, hbody, hlength⟩ := hread
  refine ⟨out, hout, hcount, hbody, hlength, fun hrecovered => ?_⟩
  have hfirst := (hrecovered.part 0 (textBody "hello") rfl).msgLength
  rw [hlength] at hfirst
  exact absurd hfirst (by decide)

end Httpish
