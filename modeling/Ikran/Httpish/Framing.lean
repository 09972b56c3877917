import Ikran.Httpish.Message

/-!
# Messages on a stream

What the parser makes of a message with further bytes behind it, and of the first bytes of a message.
-/

namespace Httpish

/-! ## Messages -/

structure Message where
  start : CStr
  lines : List CStr
  body : CStr

def linesText (lines : List CStr) : CStr := lines.flatMap (· ++ CStr.crlf)

/-- The text up to the body. -/
def Message.head (m : Message) : CStr := linesText (m.start :: m.lines) ++ CStr.crlf

def Message.text (m : Message) : CStr := m.head ++ m.body

/-- A header line: it does not continue the line in front of it. -/
structure IsHeaderLine (l : CStr) : Prop where
  ne_nil : l ≠ []
  plain : IsPlain l
  unfolded : isBlank l.peek = false

/-- The values of a cached header in the lines. -/
def headerValues (h : CachedHeader) (lines : List CStr) : List CStr :=
  ((lines.filter fun l => cachedHeader l = some h).map headerValue).filter (· ≠ [])

/-- The values of a header, separated by commas. -/
def joinValues : List CStr → Option CStr
  | [] => none
  | v :: vs => some (v ++ vs.flatMap (',' :: ·))

/-- The message is well formed: its lines are, it has no terminator inside, and one content length, which
is the length of its body. -/
structure Message.WellFormed (m : Message) : Prop where
  start_ne_nil : m.start ≠ []
  start_plain : IsPlain m.start
  lines : ∀ l ∈ m.lines, IsHeaderLine l
  body : NulFree m.body
  length : ∃ v, headerValues .contentLength m.lines = [v] ∧ (∀ c ∈ v, c.isDigit = true) ∧
    CStr.digitsVal v = m.body.length

/-- The start line and the header lines of the message are formed as they should be. -/
structure Message.LinesFormed (m : Message) : Prop where
  start_ne_nil : m.start ≠ []
  start_plain : IsPlain m.start
  lines : ∀ l ∈ m.lines, IsHeaderLine l

variable {m : Message}

theorem Message.WellFormed.linesFormed (hm : m.WellFormed) : m.LinesFormed :=
  ⟨hm.start_ne_nil, hm.start_plain, hm.lines⟩

/-- The headers of a parsed message are the given lines: those that are cached with their values, and the
others in a list. -/
structure HeadersGiven (hmsg : HttpishMsg) (lines : List CStr) : Prop where
  headers : hmsg.headers = lines.filter fun l => cachedHeader l = none
  cached : ∀ h, hmsg.cachedHeaderVal h = joinValues (headerValues h lines)

/-- The parser on a new message. -/
def parse (buf : CStr) : HStatus × HttpishMsg × ℕ := msgProcessNetworkMsg {} buf buf.length

/-! ## Headers -/

theorem joinValues_append_singleton (vs : List CStr) (v : CStr) :
    joinValues (vs ++ [v]) = some (match joinValues vs with
      | none => v
      | some u => u ++ ',' :: v) := by
  cases vs with
  | nil => simp [joinValues]
  | cons u vs => simp [joinValues]

theorem headerValues_append_singleton (h : CachedHeader) (lines : List CStr) (l : CStr) :
    headerValues h (lines ++ [l]) = headerValues h lines ++
      if cachedHeader l = some h ∧ headerValue l ≠ [] then [headerValue l] else [] := by
  unfold headerValues
  rw [List.filter_append, List.map_append, List.filter_append]
  congr 1
  by_cases hl : cachedHeader l = some h
  · by_cases hv : headerValue l = [] <;> simp [hl, hv]
  · simp [hl]

variable {hmsg : HttpishMsg} {lines : List CStr}

theorem HeadersGiven.addHeader (h : HeadersGiven hmsg lines)
    (l : CStr) : HeadersGiven (hmsg.addHeader l) (lines ++ [l]) := by
  unfold HttpishMsg.addHeader
  cases hl : cachedHeader l with
  | none =>
    refine ⟨?_, fun h' => ?_⟩
    · simp [h.headers, hl]
    · rw [headerValues_append_singleton, if_neg (by simp [hl]), List.append_nil]
      exact h.cached h'
  | some e =>
    have hheaders : hmsg.headers = (lines ++ [l]).filter fun l => cachedHeader l = none := by
      simp [h.headers, hl]
    simp only
    split_ifs with hval
    · refine ⟨hheaders, fun h' => ?_⟩
      rw [headerValues_append_singleton, if_neg (by simp [hval]), List.append_nil]
      exact h.cached h'
    · refine ⟨hheaders, fun h' => ?_⟩
      have hold := h.cached h'
      rw [headerValues_append_singleton, hl]
      by_cases heq : e = h'
      · subst heq
        rw [if_pos ⟨rfl, hval⟩, joinValues_append_singleton, ← hold]
        simp only [HttpishMsg.cachedHeaderVal, Function.update_self, Option.map_some]
        cases hmsg.hdrCache e <;> rfl
      · rw [if_neg (by simp [heq]), List.append_nil, ← hold]
        simp only [HttpishMsg.cachedHeaderVal, Function.update_of_ne (Ne.symm heq)]

theorem HeadersGiven.foldl (h : HeadersGiven hmsg lines)
    (more : List CStr) : HeadersGiven (more.foldl HttpishMsg.addHeader hmsg) (lines ++ more) := by
  induction more generalizing hmsg lines with
  | nil => rwa [List.append_nil]
  | cons l more ih =>
    have hstep := ih (h.addHeader l)
    rwa [List.append_assoc, List.singleton_append] at hstep

theorem headersGiven_nil (mesgLine : Option CStr) : HeadersGiven { mesgLine := mesgLine } [] := ⟨rfl, fun _ => rfl⟩

/-- What a header line leaves as it is. -/
structure SameButHeaders (hmsg hmsg' : HttpishMsg) : Prop where
  mesgLine : hmsg'.mesgLine = hmsg.mesgLine
  mesgBody : hmsg'.mesgBody = hmsg.mesgBody
  rawBody : hmsg'.rawBody = hmsg.rawBody
  numBodyParts : hmsg'.numBodyParts = hmsg.numBodyParts
  isComplete : hmsg'.isComplete = hmsg.isComplete

theorem sameButHeaders_addHeader (hmsg : HttpishMsg) (l : CStr) : SameButHeaders hmsg (hmsg.addHeader l) := by
  unfold HttpishMsg.addHeader
  split
  · exact ⟨rfl, rfl, rfl, rfl, rfl⟩
  · split_ifs <;> exact ⟨rfl, rfl, rfl, rfl, rfl⟩

variable {hmsg' : HttpishMsg}

theorem SameButHeaders.trans {hmsg'' : HttpishMsg} (h : SameButHeaders hmsg hmsg')
    (h' : SameButHeaders hmsg' hmsg'') : SameButHeaders hmsg hmsg'' where
  mesgLine := h'.mesgLine.trans h.mesgLine
  mesgBody := h'.mesgBody.trans h.mesgBody
  rawBody := h'.rawBody.trans h.rawBody
  numBodyParts := h'.numBodyParts.trans h.numBodyParts
  isComplete := h'.isComplete.trans h.isComplete

/-! ## Lines of a buffer -/

/-- The stream of a buffer when some of its bytes have been read. -/
def streamAt (buff : CStr) (p : ℕ) : Rstream := ⟨buff, buff.length, p, decide (buff.length ≤ p)⟩

variable {buff : CStr}

theorem rstreamCreate_eq (h : buff ≠ []) : rstreamCreate buff buff.length = some (streamAt buff 0) := by
  have hlen : buff.length ≠ 0 := fun hzero => h (List.length_eq_zero_iff.mp hzero)
  rw [rstreamCreate, if_neg hlen, streamAt]
  simp [h]

variable {p : ℕ}

theorem readLine_of_some {line : CStr} {n : ℕ} (h : lineLoop (buff.drop p).length (buff.drop p) = (some line, n)) :
    rstreamReadLine (streamAt buff p) = (some line, streamAt buff (p + n)) := by
  have hlt : p < buff.length := by
    by_contra hge
    rw [List.drop_of_length_le (by omega)] at h
    exact absurd h (by simp [lineLoop])
  simp only [rstreamReadLine, streamAt, Rstream.loc, h, decide_eq_true_eq]
  rw [if_neg (by omega), if_neg (by omega)]
  rfl

theorem readLine_of_none {n : ℕ} (h : lineLoop (buff.drop p).length (buff.drop p) = (none, n)) :
    (rstreamReadLine (streamAt buff p)).1 = none := by
  simp only [rstreamReadLine, streamAt, Rstream.loc, h]
  split_ifs <;> rfl

variable {l s : CStr}

theorem readLine_append (hbuff : buff.drop p = l ++ s) (hl : IsPlain l)
    (hs : lineBreak s ≠ 0) (hblank : isBlank (CStr.peek (s.drop (lineBreak s))) = false) :
    rstreamReadLine (streamAt buff p) = (some l, streamAt buff (p + (l.length + lineBreak s))) := by
  refine readLine_of_some ?_
  rw [hbuff]
  refine lineLoop_append hl hs hblank ?_
  have hle := lineBreak_le s
  rw [List.length_append]
  omega

theorem readLine_plain (h : IsPlain (buff.drop p)) :
    (rstreamReadLine (streamAt buff p)).1 = none := readLine_of_none (lineLoop_plain h le_rfl)

variable {t : CStr}

theorem readLine_crlf (hbuff : buff.drop p = l ++ CStr.crlf ++ t) (hl : IsPlain l) (hblank : isBlank t.peek = false) :
    rstreamReadLine (streamAt buff p) = (some l, streamAt buff (p + (l ++ CStr.crlf).length)) := by
  rw [List.append_assoc] at hbuff
  have hread := readLine_append hbuff hl (by rw [lineBreak_crlf]; decide) (by
    rw [lineBreak_crlf]
    exact hblank)
  rw [hread, lineBreak_crlf, List.length_append]
  rfl

theorem drop_add (h : buff.drop p = s ++ t) : buff.drop (p + s.length) = t := by
  rw [← List.drop_drop, h, List.drop_left]

theorem peek_linesText_append (hlines : ∀ l ∈ lines, IsHeaderLine l)
    (ht : isBlank t.peek = false) : isBlank (CStr.peek (linesText lines ++ t)) = false := by
  cases lines with
  | nil => exact ht
  | cons l lines =>
    have hl := hlines l List.mem_cons_self
    obtain ⟨c, l', rfl⟩ := List.exists_cons_of_ne_nil hl.ne_nil
    exact hl.unfolded

theorem linesText_cons (l : CStr) (lines : List CStr) :
    linesText (l :: lines) = l ++ CStr.crlf ++ linesText lines := rfl

variable {fuel : ℕ}

theorem readHeaders_lines (hmsg : HttpishMsg)
    (hbuff : buff.drop p = linesText lines ++ t) (hlines : ∀ l ∈ lines, IsHeaderLine l)
    (ht : isBlank t.peek = false) :
    readHeaders (lines.length + fuel) hmsg (streamAt buff p) = readHeaders fuel (lines.foldl HttpishMsg.addHeader hmsg)
        (streamAt buff (p + (linesText lines).length)) := by
  induction lines generalizing p hmsg with
  | nil => simp [linesText]
  | cons l lines ih =>
    have hl := hlines l List.mem_cons_self
    have hrest : ∀ l ∈ lines, IsHeaderLine l := fun l hl => hlines l (List.mem_cons_of_mem _ hl)
    rw [linesText_cons, List.append_assoc] at hbuff
    have hread := readLine_crlf hbuff hl.plain (peek_linesText_append hrest ht)
    have hstep := ih (hmsg.addHeader l) (drop_add hbuff) hrest
    rw [List.length_cons, Nat.add_right_comm, readHeaders, hread]
    obtain ⟨c, l', rfl⟩ := List.exists_cons_of_ne_nil hl.ne_nil
    simp only
    rw [hstep, List.foldl_cons, linesText_cons, @List.length_append _ _ (linesText lines), Nat.add_assoc]

/-! ## The parser on a new message -/

variable {rs : Rstream}

theorem parse_of_none {buf : CStr} (hbuf : buf ≠ []) (h : readMesgLine buf.length (streamAt buf 0) = (none, rs)) :
    parse buf = (lineStatus rs, {}, rs.bytesRead) := by
  unfold parse msgProcessNetworkMsg
  simp [rstreamCreate_eq hbuf, h]

theorem parse_of_some {buf start : CStr} (hbuf : buf ≠ [])
    (h : readMesgLine buf.length (streamAt buf 0) = (some start, rs)) :
    parse buf =
      let headers := readHeaders buf.length { mesgLine := some start } rs
      if headers.1.headersRead then processBody headers.1 headers.2 buf.length
      else (lineStatus headers.2, headers.1, headers.2.bytesRead) := by
  unfold parse msgProcessNetworkMsg
  simp [rstreamCreate_eq hbuf, h]

theorem readMesgLine_crlf {buf start : CStr} (hbuf : buf = start ++ CStr.crlf ++ t)
    (hne : start ≠ []) (hplain : IsPlain start) (hblank : isBlank t.peek = false) :
    readMesgLine (fuel + 1) (streamAt buf 0) = (some start, streamAt buf (start ++ CStr.crlf).length) := by
  have hread := @readLine_crlf buf 0 start t (by rw [List.drop_zero, hbuf]) hplain hblank
  rw [Nat.zero_add] at hread
  obtain ⟨c, start, rfl⟩ := List.exists_cons_of_ne_nil hne
  rw [readMesgLine, hread]

/-- What is read of the start line and the headers. -/
def Message.header (m : Message) : HttpishMsg :=
  { m.lines.foldl HttpishMsg.addHeader { mesgLine := some m.start } with headersRead := true }

theorem Message.headersGiven_header (m : Message) : HeadersGiven m.header m.lines := by
  have hgiven := (headersGiven_nil (some m.start)).foldl m.lines
  rw [List.nil_append] at hgiven
  exact ⟨hgiven.headers, hgiven.cached⟩

theorem sameButHeaders_foldl (hmsg : HttpishMsg) (lines : List CStr) :
    SameButHeaders hmsg (lines.foldl HttpishMsg.addHeader hmsg) := by
  induction lines generalizing hmsg with
  | nil => exact ⟨rfl, rfl, rfl, rfl, rfl⟩
  | cons l lines ih => exact (sameButHeaders_addHeader hmsg l).trans (ih _)

theorem Message.sameButHeaders_header (m : Message) : SameButHeaders { mesgLine := some m.start } m.header := by
  have hsame := sameButHeaders_foldl { mesgLine := some m.start } m.lines
  exact ⟨hsame.mesgLine, hsame.mesgBody, hsame.rawBody, hsame.numBodyParts, hsame.isComplete⟩

theorem length_le_linesText (lines : List CStr) : lines.length ≤ (linesText lines).length := by
  induction lines with
  | nil => exact le_rfl
  | cons l lines ih =>
    rw [linesText_cons, List.length_cons, List.length_append, List.length_append]
    have hcrlf : CStr.crlf.length = 2 := rfl
    omega

theorem isBlank_peek_crlf (t : CStr) : isBlank (CStr.peek (CStr.crlf ++ t)) = false := rfl

theorem isBlank_peek_of_lineBreak (hs : lineBreak s ≠ 0) : isBlank s.peek = false := by
  by_contra hblank
  refine hs ?_
  have hcr : s.peek ≠ '\r' := by
    intro heq
    rw [heq] at hblank
    exact hblank rfl
  have hlf : s.peek ≠ '\n' := by
    intro heq
    rw [heq] at hblank
    exact hblank rfl
  simp [lineBreak, hcr, hlf]

/-- The start line and the header lines are read, and then what is behind them. -/
theorem parse_lines (hm : m.LinesFormed) (hpeek : isBlank s.peek = false) :
    ∃ fuel, parse (linesText (m.start :: m.lines) ++ s) =
      let headers := readHeaders (fuel + 1)
        (m.lines.foldl HttpishMsg.addHeader { mesgLine := some m.start })
        (streamAt (linesText (m.start :: m.lines) ++ s) (linesText (m.start :: m.lines)).length)
      if headers.1.headersRead then
        processBody headers.1 headers.2 (linesText (m.start :: m.lines) ++ s).length
      else (lineStatus headers.2, headers.1, headers.2.bytesRead) := by
  generalize hbuf : linesText (m.start :: m.lines) ++ s = buf
  have hstart : buf = m.start ++ CStr.crlf ++ (linesText m.lines ++ s) := by
    rw [← hbuf, linesText_cons, List.append_assoc]
  have hlen : (linesText (m.start :: m.lines)).length = (m.start ++ CStr.crlf).length + (linesText m.lines).length := by
    rw [linesText_cons, List.length_append]
  have hcount := length_le_linesText m.lines
  have hbuflen : buf.length = (m.start ++ CStr.crlf).length + (linesText m.lines).length + s.length := by
    rw [hstart]
    simp only [List.length_append]
    omega
  have hpos : 0 < (m.start ++ CStr.crlf).length := by
    rw [List.length_append]
    exact Nat.lt_of_lt_of_le (by decide) (Nat.le_add_left CStr.crlf.length _)
  have hne : buf ≠ [] := by
    rintro rfl
    rw [List.length_nil] at hbuflen
    omega
  have hfirst := @readMesgLine_crlf _ (buf.length - 1) _ _ hstart hm.start_ne_nil hm.start_plain
    (peek_linesText_append hm.lines hpeek)
  rw [Nat.sub_add_cancel (List.length_pos_iff.mpr hne)] at hfirst
  have hdrop : buf.drop (m.start ++ CStr.crlf).length = linesText m.lines ++ s := by
    rw [hstart, List.drop_left]
  obtain ⟨fuel, hfuel⟩ : ∃ fuel, buf.length = m.lines.length + (fuel + 1) := ⟨buf.length - m.lines.length - 1, by omega⟩
  refine ⟨fuel, ?_⟩
  rw [parse_of_some hne hfirst]
  conv_lhs => rw [hfuel]
  rw [readHeaders_lines _ hdrop hm.lines hpeek, ← hfuel, ← hlen]

theorem parse_linesText (hm : m.LinesFormed) (hs : lineBreak s ≠ 0)
    (hblank : isBlank (CStr.peek (s.drop (lineBreak s))) = false) :
    parse (linesText (m.start :: m.lines) ++ s) = processBody m.header (streamAt (linesText (m.start :: m.lines) ++ s)
          ((linesText (m.start :: m.lines)).length + lineBreak s))
        (linesText (m.start :: m.lines) ++ s).length := by
  obtain ⟨fuel, hparse⟩ := parse_lines hm (isBlank_peek_of_lineBreak hs)
  have hlast := readLine_append (l := []) (@List.drop_left _ (linesText (m.start :: m.lines)) s)
    (fun c hc => absurd hc (by simp)) hs hblank
  rw [List.length_nil, Nat.zero_add] at hlast
  rw [hparse, readHeaders, hlast]
  rfl

theorem parse_head (hm : m.LinesFormed) (ht : isBlank t.peek = false) : parse (m.head ++ t) =
      processBody m.header (streamAt (m.head ++ t) m.head.length) (m.head ++ t).length := by
  have hparse := parse_linesText hm (s := CStr.crlf ++ t) (by rw [lineBreak_crlf]; decide) (by
    rw [lineBreak_crlf]
    exact ht)
  rw [lineBreak_crlf, ← List.append_assoc] at hparse
  rw [Message.head, hparse, @List.length_append _ _ CStr.crlf]
  rfl

theorem HttpishMsg.getContentLength_eq {v : CStr} (hval : hmsg.cachedHeaderVal .contentLength = some v) (hne : v ≠ [])
    (hv : ∀ c ∈ v, c.isDigit = true) : hmsg.getContentLength = CStr.atoi v := by
  have hall : v.all Char.isDigit = true := List.all_eq_true.mpr hv
  simp [HttpishMsg.getContentLength, hval, hall, hne]

theorem Message.WellFormed.contentLength (hm : m.WellFormed) (h : HeadersGiven hmsg m.lines) :
    ∃ v, v ≠ [] ∧ (∀ c ∈ v, c.isDigit = true) ∧ CStr.digitsVal v = m.body.length ∧
      hmsg.getContentLength = CStr.atoi v := by
  obtain ⟨v, hvals, hv, hval⟩ := hm.length
  have hne : v ≠ [] := by
    have hmem : v ∈ headerValues .contentLength m.lines := by rw [hvals]; exact List.mem_singleton_self v
    simpa using (List.mem_filter.mp hmem).2
  refine ⟨v, hne, hv, hval, HttpishMsg.getContentLength_eq ?_ hne hv⟩
  rw [h.cached, hvals]
  simp [joinValues]

theorem Message.WellFormed.getContentLength (hm : m.WellFormed)
    (hlt : m.body.length < 2 ^ 31) : m.header.getContentLength = m.body.length := by
  obtain ⟨v, hne, hv, hval, hlen⟩ := hm.contentLength m.headersGiven_header
  rw [hlen, CStr.atoi_digits hne hv (by rw [hval]; exact hlt), hval]

theorem readBytes_streamAt {n : ℕ} (hp : p < buff.length) (hn : n ≤ buff.length - p) :
    rstreamReadBytes (streamAt buff p) n =
      (some ((buff.drop p).take n), { streamAt buff p with bytesRead := p + n }) := by
  unfold rstreamReadBytes streamAt Rstream.loc
  simp only [decide_eq_true_eq]
  rw [if_neg (by omega), if_neg (by omega), if_neg (by omega)]

variable {nbytes : ℕ}

theorem processBody_of_lt (hlen : ((buff.length - p : ℕ) : ℤ) < hmsg.getContentLength) :
    (processBody hmsg (streamAt buff p) nbytes).1 = .success ∧
      (processBody hmsg (streamAt buff p) nbytes).2.1.isComplete = false := by
  have hne : hmsg.getContentLength ≠ -1 := by omega
  unfold processBody
  simp only [streamAt, if_neg hne, if_pos hlen]
  by_cases hpos : 0 < buff.length - p
  · have hread := @readBytes_streamAt buff p _ (by omega) le_rfl
    rw [streamAt] at hread
    simp [hpos, hread]
  · simp [hpos]

theorem processBody_of_eq_zero (hzero : hmsg.getContentLength = 0) : processBody hmsg (streamAt buff p) nbytes =
      (.success, { hmsg with contentLength := 0, isComplete := true }, p) := by
  have hnlt : ¬ ((buff.length - p : ℕ) : ℤ) < 0 := by omega
  simp [processBody, streamAt, hzero, hnlt]

variable {contentType : CStr}

theorem processBody_of_le {n : ℕ} (hlen : hmsg.getContentLength = n) (hpos : 0 < n) (hle : n ≤ buff.length - p)
    (htype : hmsg.cachedHeaderVal .contentType = some contentType) :
    processBody hmsg (streamAt buff p) nbytes =
      (.success, HttpishMsg.setBody { hmsg with contentLength := n, isComplete := true } contentType
        ((buff.drop p).take n), p + n) := by
  have hread := @readBytes_streamAt buff p _ (by omega) hle
  have htype' : HttpishMsg.cachedHeaderVal { hmsg with contentLength := n, isComplete := true }
      .contentType = some contentType := htype
  unfold processBody
  have hne : (n : ℤ) ≠ -1 := by omega
  have hnlt : ¬ ((buff.length - p : ℕ) : ℤ) < n := by omega
  have hpos' : (0 : ℤ) < n := by omega
  simp only [hlen, if_neg hne]
  rw [streamAt] at hread ⊢
  simp only [if_neg hnlt, if_pos hpos', Int.toNat_natCast, hread, htype']

/-! ## The first bytes of a message -/

theorem eof_of_readLine_none (h : (rstreamReadLine rs).1 = none) : (rstreamReadLine rs).2.eof = true := by
  unfold rstreamReadLine at h ⊢
  split_ifs at h ⊢ with heof hread
  · exact heof
  · rfl
  · cases hline : lineLoop rs.loc.length rs.loc with
    | mk line n =>
      cases line with
      | none => simp only
      | some line =>
        rw [hline] at h
        exact absurd h (by simp)

theorem readHeaders_of_line {rs' : Rstream} {line : CStr}
    (h : rstreamReadLine rs = (some line, rs')) (hne : line ≠ []) :
    readHeaders (fuel + 1) hmsg rs = readHeaders fuel (hmsg.addHeader line) rs' := by
  obtain ⟨c, line, rfl⟩ := List.exists_cons_of_ne_nil hne
  rw [readHeaders, h]

theorem readHeaders_of_none (h : (rstreamReadLine rs).1 = none) :
    readHeaders (fuel + 1) hmsg rs = (hmsg, (rstreamReadLine rs).2) := by
  rw [readHeaders]
  cases hline : rstreamReadLine rs with
  | mk line rs' =>
    rw [hline] at h
    obtain rfl : line = none := h
    rfl

theorem sameButHeaders_readHeaders (fuel : ℕ) (hmsg : HttpishMsg) (rs : Rstream) :
    SameButHeaders hmsg (readHeaders fuel hmsg rs).1 := by
  induction fuel generalizing hmsg rs with
  | zero => exact ⟨rfl, rfl, rfl, rfl, rfl⟩
  | succ fuel ih =>
    rw [readHeaders]
    split
    · exact ⟨rfl, rfl, rfl, rfl, rfl⟩
    · exact ⟨rfl, rfl, rfl, rfl, rfl⟩
    · exact (sameButHeaders_addHeader hmsg _).trans (ih _ _)

theorem headersRead_addHeader (hmsg : HttpishMsg) (l : CStr) : (hmsg.addHeader l).headersRead = hmsg.headersRead := by
  unfold HttpishMsg.addHeader
  split
  · rfl
  · split_ifs <;> rfl

theorem headersRead_foldl (hmsg : HttpishMsg) (lines : List CStr) :
    (lines.foldl HttpishMsg.addHeader hmsg).headersRead = hmsg.headersRead := by
  induction lines generalizing hmsg with
  | nil => rfl
  | cons l lines ih => rw [List.foldl_cons, ih, headersRead_addHeader]

variable {q : CStr}

/-- The first bytes of a line and what is behind it: of the line only, with a part of the line break, or
with all of it. -/
theorem prefix_crlf_cases (h : q <+: l ++ CStr.crlf ++ t) :
    q <+: l ∨ q = l ++ ['\r'] ∨ ∃ u, q = l ++ CStr.crlf ++ u ∧ u <+: t := by
  have htake := List.prefix_iff_eq_take.mp h
  rw [List.append_assoc, List.take_append] at htake
  rcases Nat.lt_or_ge l.length q.length with hlt | hle
  · right
    rw [List.take_of_length_le (Nat.le_of_lt hlt)] at htake
    obtain ⟨k, hk⟩ : ∃ k, q.length - l.length = k + 1 := ⟨q.length - l.length - 1, by omega⟩
    rw [hk] at htake
    cases k with
    | zero => exact .inl htake
    | succ k =>
      right
      refine ⟨t.take k, ?_, List.take_prefix k t⟩
      rw [htake, List.append_assoc]
      rfl
  · left
    rw [Nat.sub_eq_zero_of_le hle, List.take_zero, List.append_nil] at htake
    exact htake ▸ List.take_prefix _ _

theorem IsPlain.of_isPrefix (hl : IsPlain l) (h : q <+: l) : IsPlain q := fun c hc => hl c (h.subset hc)

theorem isBlank_peek_of_isPrefix (ht : isBlank t.peek = false) (h : q <+: t) : isBlank q.peek = false := by
  cases q with
  | nil => rfl
  | cons c q =>
    obtain ⟨u, rfl⟩ := h
    exact ht

theorem readLine_cut {u : CStr} (hl : IsPlain l)
    (h : buff.drop p = l ++ ['\r'] ∧ u = [] ∨ buff.drop p = l ++ CStr.crlf ++ u)
    (hblank : isBlank u.peek = false) :
    ∃ n, rstreamReadLine (streamAt buff p) = (some l, streamAt buff n) ∧ buff.drop n = u := by
  rcases h with ⟨h, rfl⟩ | h
  · refine ⟨p + (l ++ ['\r']).length, ?_, drop_add (by rw [h, List.append_nil])⟩
    rw [List.length_append]
    exact readLine_append h hl (by decide) rfl
  · exact ⟨_, readLine_crlf h hl hblank, drop_add h⟩

/-- The first bytes of the headers have no end, unless only the end of the last line break is missing. -/
theorem readHeaders_firstBytes (hmsg : HttpishMsg)
    (hlines : ∀ l ∈ lines, IsHeaderLine l) (hbuff : buff.drop p <+: linesText lines ++ CStr.crlf)
    (hlen : (buff.drop p).length + 1 < (linesText lines ++ CStr.crlf).length)
    (hfuel : (buff.drop p).length < fuel) :
    (readHeaders fuel hmsg (streamAt buff p)).1.headersRead = hmsg.headersRead ∧
      (readHeaders fuel hmsg (streamAt buff p)).2.eof = true := by
  obtain ⟨fuel, rfl⟩ := Nat.exists_eq_add_of_lt (Nat.lt_of_le_of_lt (Nat.zero_le _) hfuel)
  rw [Nat.zero_add] at hfuel ⊢
  have hends : IsPlain (buff.drop p) →
      (readHeaders (fuel + 1) hmsg (streamAt buff p)).1.headersRead = hmsg.headersRead ∧
        (readHeaders (fuel + 1) hmsg (streamAt buff p)).2.eof = true := by
    intro hplain
    have hnone := readLine_plain hplain
    rw [readHeaders_of_none hnone]
    exact ⟨rfl, eof_of_readLine_none hnone⟩
  induction lines generalizing p fuel hmsg with
  | nil =>
    have hcrlf : (linesText [] ++ CStr.crlf).length = 2 := rfl
    have hnil : buff.drop p = [] := List.length_eq_zero_iff.mp (by omega)
    exact hends (hnil ▸ fun c hc => absurd hc (by simp))
  | cons l lines ih =>
    have hl := hlines l List.mem_cons_self
    have hrest : ∀ l ∈ lines, IsHeaderLine l := fun l hl => hlines l (List.mem_cons_of_mem _ hl)
    rw [linesText_cons, List.append_assoc] at hbuff hlen
    -- the rest of the buffer behind the line, if the line is there
    have hstep : ∀ u : CStr, u <+: linesText lines ++ CStr.crlf → u.length + 1 < (linesText lines ++ CStr.crlf).length →
        (buff.drop p = l ++ ['\r'] ∧ u = [] ∨ buff.drop p = l ++ CStr.crlf ++ u) →
        (readHeaders (fuel + 1) hmsg (streamAt buff p)).1.headersRead = hmsg.headersRead ∧
          (readHeaders (fuel + 1) hmsg (streamAt buff p)).2.eof = true := by
      intro u hu hulen hcut
      have hblank : isBlank u.peek = false :=
        isBlank_peek_of_isPrefix (peek_linesText_append hrest (isBlank_peek_crlf [])) hu
      obtain ⟨n, hread, hdrop⟩ := readLine_cut hl.plain hcut hblank
      have hufuel : u.length < fuel := by
        have hpos := List.length_pos_iff.mpr hl.ne_nil
        rcases hcut with ⟨hp, rfl⟩ | hp
        · rw [hp, List.length_append] at hfuel
          change 0 < fuel
          omega
        · rw [hp, List.length_append, List.length_append] at hfuel
          omega
      obtain ⟨fuel, rfl⟩ := Nat.exists_eq_add_of_lt (Nat.lt_of_le_of_lt (Nat.zero_le _) hufuel)
      rw [readHeaders_of_line hread hl.ne_nil, ← headersRead_addHeader hmsg l, Nat.zero_add]
      refine ih _ hrest (hdrop ▸ hu) (hdrop ▸ hulen) fuel (by rw [hdrop]; omega) fun hplain => ?_
      have hnone := readLine_plain hplain
      rw [readHeaders_of_none hnone]
      exact ⟨rfl, eof_of_readLine_none hnone⟩
    rcases prefix_crlf_cases hbuff with hpre | hcr | ⟨u, hu, hpre⟩
    · exact hends (hl.plain.of_isPrefix hpre)
    · refine hstep [] List.nil_prefix ?_ (.inl ⟨hcr, rfl⟩)
      rw [List.length_append]
      change 1 < _ + 2
      omega
    · refine hstep u hpre ?_ (.inr hu)
      rw [hu, List.length_append] at hlen
      simp only [List.length_append] at hlen ⊢
      omega

theorem Message.head_eq (m : Message) : m.head = m.start ++ CStr.crlf ++ (linesText m.lines ++ CStr.crlf) := by
  rw [Message.head, linesText_cons, List.append_assoc]

/-- The first bytes of the head of a message are not complete, unless only the last one is missing. -/
theorem parse_firstBytes_head (hm : m.WellFormed) (hne : q ≠ [])
    (hq : q <+: m.head) (hlen : q.length + 1 < m.head.length) :
    (parse q).1 = .success ∧ (parse q).2.1.isComplete = false := by
  rw [m.head_eq] at hq hlen
  have hpos := List.length_pos_iff.mpr hne
  obtain ⟨fuel, hfuel⟩ : ∃ fuel, q.length = fuel + 1 := ⟨q.length - 1, by omega⟩
  -- the start line is there, and what is behind it
  have hstep : ∀ u : CStr, u <+: linesText m.lines ++ CStr.crlf →
      u.length + 1 < (linesText m.lines ++ CStr.crlf).length →
      (q = m.start ++ ['\r'] ∧ u = [] ∨ q = m.start ++ CStr.crlf ++ u) →
      (parse q).1 = .success ∧ (parse q).2.1.isComplete = false := by
    intro u hu hulen hcut
    have hblank : isBlank u.peek = false :=
      isBlank_peek_of_isPrefix (peek_linesText_append hm.lines (isBlank_peek_crlf [])) hu
    obtain ⟨n, hread, hdrop⟩ := @readLine_cut q 0 _ _ hm.start_plain hcut hblank
    have hufuel : u.length < q.length := by
      rcases hcut with ⟨hq, rfl⟩ | hq
      · exact hpos
      · have hstart := List.length_pos_iff.mpr hm.start_ne_nil
        rw [hq, List.length_append, List.length_append]
        omega
    have hfirst : readMesgLine q.length (streamAt q 0) = (some m.start, streamAt q n) := by
      obtain ⟨c, start, hstart⟩ := List.exists_cons_of_ne_nil hm.start_ne_nil
      rw [hfuel, readMesgLine, hread, hstart]
    obtain ⟨hheaders, heof⟩ := @readHeaders_firstBytes _ q n q.length
      { mesgLine := some m.start } hm.lines (hdrop ▸ hu) (hdrop ▸ hulen) (hdrop ▸ hufuel)
    have hsame := sameButHeaders_readHeaders q.length { mesgLine := some m.start } (streamAt q n)
    rw [parse_of_some hne hfirst]
    simp only [hheaders, Bool.false_eq_true, if_false]
    exact ⟨by rw [lineStatus, if_pos heof], hsame.isComplete⟩
  rcases prefix_crlf_cases hq with hpre | hcr | ⟨u, hu, hpre⟩
  · have hnone := @readLine_plain q 0 (hm.start_plain.of_isPrefix hpre)
    have hfirst : readMesgLine q.length (streamAt q 0) = (none, (rstreamReadLine (streamAt q 0)).2) := by
      rw [hfuel, readMesgLine]
      cases hline : rstreamReadLine (streamAt q 0) with
      | mk line rs =>
        rw [hline] at hnone
        obtain rfl : line = none := hnone
        rfl
    rw [parse_of_none hne hfirst, lineStatus, if_pos (eof_of_readLine_none hnone)]
    exact ⟨rfl, rfl⟩
  · refine hstep [] List.nil_prefix ?_ (.inl ⟨hcr, rfl⟩)
    rw [List.length_append]
    change 1 < _ + 2
    omega
  · refine hstep u hpre ?_ (.inr hu)
    rw [hu, List.length_append] at hlen
    simp only [List.length_append] at hlen ⊢
    omega

/-- **The first bytes of a message are not complete**, if the body starts with no blank. A message
without a body is the exception when only its last byte is missing. -/
theorem parse_firstBytes (hm : m.WellFormed) (hblank : isBlank m.body.peek = false)
    (hsize : m.body.length < 2 ^ 31) (hne : q ≠ []) (hq : q <+: m.text)
    (hlt : q.length < m.text.length) (hcut : m.body = [] → q.length + 1 ≠ m.text.length) :
    (parse q).1 = .success ∧ (parse q).2.1.isComplete = false := by
  have htext : m.text.length = m.head.length + m.body.length := by
    rw [Message.text, List.length_append]
  have hlength := hm.getContentLength hsize
  rcases Nat.lt_trichotomy (q.length + 1) m.head.length with hshort | hlast | hlong
  · refine parse_firstBytes_head hm hne ?_ hshort
    exact List.prefix_of_prefix_length_le hq (List.prefix_append _ _) (by omega)
  · -- the last byte of the empty line is missing
    have hbody : 0 < m.body.length := by
      rcases Nat.eq_zero_or_pos m.body.length with hzero | hpos
      · exact absurd (by omega) (hcut (List.length_eq_zero_iff.mp hzero))
      · exact hpos
    have hq' : q = linesText (m.start :: m.lines) ++ ['\r'] := by
      have htake := List.prefix_iff_eq_take.mp hq
      have hhead : m.head.length = (linesText (m.start :: m.lines)).length + 2 := by
        rw [Message.head, List.length_append]
        rfl
      have hqlen : q.length = (linesText (m.start :: m.lines)).length + 1 := by omega
      rw [Message.text, Message.head, List.append_assoc, List.take_append, hqlen,
        List.take_of_length_le (by omega), Nat.add_sub_cancel_left] at htake
      exact htake
    have hparse := parse_linesText hm.linesFormed (s := ['\r']) (by decide) rfl
    rw [← hq'] at hparse
    rw [hparse]
    refine processBody_of_lt ?_
    have hbreak : lineBreak ['\r'] = 1 := rfl
    rw [hlength, hbreak, hq', List.length_append]
    simp only [List.length_singleton]
    omega
  · -- only bytes of the body are missing
    obtain ⟨t, rfl, ht⟩ : ∃ t, q = m.head ++ t ∧ t <+: m.body := by
      have htake := List.prefix_iff_eq_take.mp hq
      rw [Message.text, List.take_append, List.take_of_length_le (by omega)] at htake
      exact ⟨_, htake, List.take_prefix _ _⟩
    rw [parse_head hm.linesFormed (isBlank_peek_of_isPrefix hblank ht)]
    refine processBody_of_lt ?_
    rw [hlength, List.length_append, Nat.add_sub_cancel_left]
    rw [List.length_append] at hlt
    omega

/-! ## Complete messages -/

structure SameButBody (hmsg hmsg' : HttpishMsg) : Prop where
  mesgLine : hmsg'.mesgLine = hmsg.mesgLine
  headers : hmsg'.headers = hmsg.headers
  hdrCache : hmsg'.hdrCache = hmsg.hdrCache
  isComplete : hmsg'.isComplete = hmsg.isComplete
  contentLength : hmsg'.contentLength = hmsg.contentLength

theorem SameButBody.trans {hmsg'' : HttpishMsg} (h : SameButBody hmsg hmsg')
    (h' : SameButBody hmsg' hmsg'') : SameButBody hmsg hmsg'' where
  mesgLine := h'.mesgLine.trans h.mesgLine
  headers := h'.headers.trans h.headers
  hdrCache := h'.hdrCache.trans h.hdrCache
  isComplete := h'.isComplete.trans h.isComplete
  contentLength := h'.contentLength.trans h.contentLength

theorem sameButBody_processOneBody (hmsg : HttpishMsg) (msgStart : CStr) (size part : ℕ) :
    SameButBody hmsg (msgProcessOneBody hmsg msgStart size part) := by
  unfold msgProcessOneBody
  simp only
  split <;> exact ⟨rfl, rfl, rfl, rfl, rfl⟩

theorem sameButBody_multipleBodiesLoop (msgDelimit : CStr) (fuel : ℕ) (hmsg : HttpishMsg)
    (rawBody : CStr) (bodyPart : ℕ) :
    SameButBody hmsg (multipleBodiesLoop msgDelimit fuel hmsg rawBody bodyPart).1 := by
  induction fuel generalizing hmsg rawBody bodyPart with
  | zero => exact ⟨rfl, rfl, rfl, rfl, rfl⟩
  | succ fuel ih =>
    rw [multipleBodiesLoop]
    split
    · exact ⟨rfl, rfl, rfl, rfl, rfl⟩
    · simp only
      split
      · exact ⟨rfl, rfl, rfl, rfl, rfl⟩
      · split_ifs
        · exact sameButBody_processOneBody _ _ _ _
        · exact (sameButBody_processOneBody _ _ _ _).trans (ih _ _ _)

theorem sameButBody_setBody (hmsg : HttpishMsg) (contentType rawBody : CStr) :
    SameButBody hmsg (hmsg.setBody contentType rawBody) := by
  unfold HttpishMsg.setBody
  split_ifs
  · split
    · exact ⟨rfl, rfl, rfl, rfl, rfl⟩
    · rename_i boundary _
      have hparts : SameButBody hmsg (msgProcessMultipleBodies hmsg boundary rawBody).1 := by
        unfold msgProcessMultipleBodies
        simp only
        split_ifs
        · exact ⟨rfl, rfl, rfl, rfl, rfl⟩
        · exact sameButBody_multipleBodiesLoop _ _ _ _ _
      exact ⟨hparts.mesgLine, hparts.headers, hparts.hdrCache, hparts.isComplete, hparts.contentLength⟩
  · exact ⟨rfl, rfl, rfl, rfl, rfl⟩

theorem rawBody_setBody (hmsg : HttpishMsg) (contentType rawBody : CStr) :
    (hmsg.setBody contentType rawBody).rawBody = some rawBody := by
  unfold HttpishMsg.setBody
  split_ifs
  · split <;> rfl
  · rfl

/-- The message that the parser returns is the given one. -/
structure Represents (hmsg : HttpishMsg) (m : Message) : Prop where
  mesgLine : hmsg.mesgLine = some m.start
  headers : HeadersGiven hmsg m.lines
  isComplete : hmsg.isComplete = true
  contentLength : hmsg.contentLength = m.body.length
  rawBody : hmsg.rawBody = if m.body = [] then none else some m.body

/-- The message with its headers and the length of its body. -/
def Message.complete (m : Message) : HttpishMsg :=
  { m.header with contentLength := m.body.length, isComplete := true }

theorem parse_text_of_nil (hm : m.WellFormed) (hbody : m.body = [])
    (ht : isBlank t.peek = false) : parse (m.text ++ t) = (.success, m.complete, m.text.length) := by
  have htext : m.text = m.head := by rw [Message.text, hbody, List.append_nil]
  have hzero : m.header.getContentLength = 0 := by
    rw [hm.getContentLength (by rw [hbody]; decide), hbody]
    rfl
  rw [htext, parse_head hm.linesFormed ht, processBody_of_eq_zero hzero, Message.complete, hbody]
  rfl

theorem parse_text_of_ne_nil (hm : m.WellFormed) (hbody : m.body ≠ [])
    (hblank : isBlank m.body.peek = false) (hsize : m.body.length < 2 ^ 31)
    (htype : joinValues (headerValues .contentType m.lines) = some contentType) (t : CStr) :
    parse (m.text ++ t) = (.success, m.complete.setBody contentType m.body, m.text.length) := by
  have hpeek : isBlank (CStr.peek (m.body ++ t)) = false := by
    rw [CStr.peek_append_of_ne_nil hbody]
    exact hblank
  have htype' : m.header.cachedHeaderVal .contentType = some contentType := by
    rw [m.headersGiven_header.cached, htype]
  rw [Message.text, List.append_assoc, parse_head hm.linesFormed hpeek,
    processBody_of_le (hm.getContentLength hsize) (List.length_pos_iff.mpr hbody)
      (by rw [List.length_append, List.length_append]; omega) htype',
    List.drop_left, List.take_left, List.length_append]
  rfl

/-- **A message on a stream is parsed**, unless a blank follows its headers. -/
theorem parse_text (hm : m.WellFormed) (hsize : m.body.length < 2 ^ 31)
    (htype : m.body ≠ [] → headerValues .contentType m.lines ≠ [])
    (hblank : isBlank (CStr.peek (m.body ++ t)) = false) :
    ∃ hmsg, parse (m.text ++ t) = (.success, hmsg, m.text.length) ∧ Represents hmsg m := by
  have hgiven := m.headersGiven_header
  have hsame := m.sameButHeaders_header
  by_cases hbody : m.body = []
  · rw [hbody, List.nil_append] at hblank
    refine ⟨_, parse_text_of_nil hm hbody hblank, hsame.mesgLine, ⟨hgiven.headers, hgiven.cached⟩, rfl, rfl, ?_⟩
    rw [if_pos hbody]
    exact hsame.rawBody
  · obtain ⟨v, vs, hvals⟩ := List.exists_cons_of_ne_nil (htype hbody)
    rw [CStr.peek_append_of_ne_nil hbody] at hblank
    have htype' : joinValues (headerValues .contentType m.lines) =
        some (v ++ vs.flatMap (',' :: ·)) := by rw [hvals, joinValues]
    have hkept := sameButBody_setBody m.complete (v ++ vs.flatMap (',' :: ·)) m.body
    refine ⟨_, parse_text_of_ne_nil hm hbody hblank hsize htype' t, ?_, ⟨?_, fun h => ?_⟩, ?_, ?_, ?_⟩
    · exact hkept.mesgLine.trans hsame.mesgLine
    · exact hkept.headers.trans hgiven.headers
    · rw [HttpishMsg.cachedHeaderVal, hkept.hdrCache]
      exact hgiven.cached h
    · exact hkept.isComplete
    · exact hkept.contentLength
    · rw [rawBody_setBody, if_neg hbody]

/-! ## When the body is extracted -/

/-- The message has one content type, and it is not that of several parts. -/
def Message.SingleType (m : Message) : Prop :=
  ∃ contentType, joinValues (headerValues .contentType m.lines) = some contentType ∧
    startsWith contentType multipartMixed = false

/-- The parser returns just the message, with its body as the only part. -/
def BodyExtracted (m : Message) (further : CStr) : Prop :=
  ∃ hmsg, parse (m.text ++ further) = (.success, hmsg, m.text.length) ∧ hmsg.isComplete = true ∧
    hmsg.mesgLine = some m.start ∧ HeadersGiven hmsg m.lines ∧ hmsg.numBodyParts = 1 ∧
    (hmsg.mesgBody 0).msgLength = m.body.length ∧ (hmsg.mesgBody 0).msgBody = some m.body

/-- A message with too few bytes of its body is not complete. -/
def NeverEarly (m : Message) : Prop :=
  ∀ n, n < m.body.length → (parse (m.head ++ m.body.take n)).2.1.isComplete = false

theorem setBody_of_single (htype : startsWith contentType multipartMixed = false) (rawBody : CStr) :
    (hmsg.setBody contentType rawBody).numBodyParts = 1 ∧
      ((hmsg.setBody contentType rawBody).mesgBody 0).msgLength = hmsg.contentLength.toNat ∧
      ((hmsg.setBody contentType rawBody).mesgBody 0).msgBody = some rawBody := by
  unfold HttpishMsg.setBody
  rw [if_neg (by rw [htype]; decide)]
  exact ⟨rfl, by simp, by simp⟩

theorem bodyExtracted_of_not_blank (hm : m.WellFormed) (htype : m.SingleType)
    (hbody : m.body ≠ []) (hblank : isBlank m.body.peek = false) (hsize : m.body.length < 2 ^ 31)
    (further : CStr) : BodyExtracted m further := by
  obtain ⟨contentType, hvals, hsingle⟩ := htype
  have hne : headerValues .contentType m.lines ≠ [] := by
    intro hnil
    rw [hnil] at hvals
    exact absurd hvals (by simp [joinValues])
  have hpeek : isBlank (CStr.peek (m.body ++ further)) = false := by
    rw [CStr.peek_append_of_ne_nil hbody]
    exact hblank
  obtain ⟨hmsg, hparse, hrep⟩ := parse_text hm hsize (fun _ => hne) hpeek
  have hparse' := parse_text_of_ne_nil hm hbody hblank hsize hvals further
  obtain rfl : m.complete.setBody contentType m.body = hmsg := by
    rw [hparse'] at hparse
    exact (Prod.mk.inj (Prod.mk.inj hparse).2).1
  obtain ⟨hparts, hlength, hpart⟩ := @setBody_of_single m.complete _ hsingle m.body
  exact ⟨_, hparse, hrep.isComplete, hrep.mesgLine, hrep.headers, hparts, hlength, hpart⟩

theorem neverEarly_of_not_blank (hm : m.WellFormed) (hblank : isBlank m.body.peek = false)
    (hsize : m.body.length < 2 ^ 31) : NeverEarly m := by
  intro n hn
  refine (parse_firstBytes hm hblank hsize ?_ ?_ ?_ ?_).2
  · have hlen : 0 < m.head.length := by
      rw [Message.head, List.length_append]
      exact Nat.lt_of_lt_of_le (by decide) (Nat.le_add_left CStr.crlf.length _)
    exact List.append_ne_nil_of_left_ne_nil (List.length_pos_iff.mp hlen) _
  · exact (List.prefix_append_right_inj _).mpr (List.take_prefix _ _)
  · rw [Message.text, List.length_append, List.length_append, List.length_take]
    omega
  · intro hnil
    rw [hnil] at hn
    exact absurd hn (Nat.not_lt_zero n)

theorem bytesRead_le_readLine (rs : Rstream) :
    (rstreamReadLine rs).2.nbytes = rs.nbytes ∧ rs.bytesRead ≤ (rstreamReadLine rs).2.bytesRead := by
  unfold rstreamReadLine
  split_ifs
  · exact ⟨rfl, le_rfl⟩
  · exact ⟨rfl, le_rfl⟩
  · split <;> exact ⟨rfl, Nat.le_add_right _ _⟩

theorem bytesRead_le_readHeaders (fuel : ℕ) (hmsg : HttpishMsg) (rs : Rstream) :
    (readHeaders fuel hmsg rs).2.nbytes = rs.nbytes ∧ rs.bytesRead ≤ (readHeaders fuel hmsg rs).2.bytesRead := by
  induction fuel generalizing hmsg rs with
  | zero => exact ⟨rfl, le_rfl⟩
  | succ fuel ih =>
    obtain ⟨hnbytes, hle⟩ := bytesRead_le_readLine rs
    rw [readHeaders]
    split
    · rename_i rs' hline
      rw [hline] at hnbytes hle
      exact ⟨hnbytes, hle⟩
    · rename_i rs' hline
      rw [hline] at hnbytes hle
      exact ⟨hnbytes, hle⟩
    · rename_i line rs' _ hline
      rw [hline] at hnbytes hle
      obtain ⟨hnbytes', hle'⟩ := ih (hmsg.addHeader line) rs'
      exact ⟨hnbytes'.trans hnbytes, Nat.le_trans hle hle'⟩

/-- The length that the body is taken to have. -/
def bodyLength (hmsg : HttpishMsg) (rs : Rstream) : ℤ :=
  if hmsg.getContentLength = -1 then ((rs.nbytes - rs.bytesRead : ℕ) : ℤ) else hmsg.getContentLength

/-- A complete message has no body, or one of the length that it is taken to have. -/
theorem processBody_complete {k : ℕ}
    (h : processBody hmsg rs nbytes = (.success, hmsg', k)) (hcomplete : hmsg'.isComplete = true) :
    bodyLength hmsg rs ≤ ((rs.nbytes - rs.bytesRead : ℕ) : ℤ) ∧
      ((bodyLength hmsg rs ≤ 0 ∧ hmsg'.numBodyParts = hmsg.numBodyParts) ∨
        ∃ contentType rawBody, hmsg'.cachedHeaderVal .contentType = some contentType ∧
          hmsg' = HttpishMsg.setBody { hmsg with
            contentLength := bodyLength hmsg rs
            isComplete := true } contentType rawBody) := by
  unfold processBody at h
  change (if ((rs.nbytes - rs.bytesRead : ℕ) : ℤ) < bodyLength hmsg rs then _ else _) = _ at h
  by_cases hlt : ((rs.nbytes - rs.bytesRead : ℕ) : ℤ) < bodyLength hmsg rs
  · exfalso
    rw [if_pos hlt] at h
    split_ifs at h
    · split at h
      · exact absurd (Prod.mk.inj h).1 (by decide)
      · rw [← (Prod.mk.inj (Prod.mk.inj h).2).1] at hcomplete
        exact absurd hcomplete (by simp)
    · rw [← (Prod.mk.inj (Prod.mk.inj h).2).1] at hcomplete
      exact absurd hcomplete (by simp)
  · refine ⟨by omega, ?_⟩
    rw [if_neg hlt] at h
    change (if 0 < bodyLength hmsg rs then _ else _) = _ at h
    by_cases hpos : 0 < bodyLength hmsg rs
    · right
      rw [if_pos hpos] at h
      split at h
      · exact absurd (Prod.mk.inj h).1 (by decide)
      · rename_i rawBody rs' _
        split at h
        · rw [← (Prod.mk.inj (Prod.mk.inj h).2).1] at hcomplete
          exact absurd hcomplete (by simp)
        · rename_i contentType htype
          obtain rfl := (Prod.mk.inj (Prod.mk.inj h).2).1
          refine ⟨contentType, rawBody, ?_, rfl⟩
          rw [HttpishMsg.cachedHeaderVal, (sameButBody_setBody _ _ _).hdrCache]
          exact htype
    · left
      rw [if_neg hpos] at h
      rw [← (Prod.mk.inj (Prod.mk.inj h).2).1]
      exact ⟨by omega, rfl⟩

theorem length_of_processBody (htype : m.SingleType) {k : ℕ} (h : processBody hmsg rs nbytes = (.success, hmsg', k))
    (hcomplete : hmsg'.isComplete = true) (hgiven : HeadersGiven hmsg' m.lines)
    (hnew : hmsg.numBodyParts = 0) (hparts : hmsg'.numBodyParts = 1) :
    bodyLength hmsg rs ≤ ((rs.nbytes - rs.bytesRead : ℕ) : ℤ) ∧
      (hmsg'.mesgBody 0).msgLength = (bodyLength hmsg rs).toNat := by
  obtain ⟨hle, ⟨-, hsame⟩ | ⟨contentType, rawBody, hval, rfl⟩⟩ := processBody_complete h hcomplete
  · rw [hparts, hnew] at hsame
    exact absurd hsame (by decide)
  · refine ⟨hle, ?_⟩
    -- the content type is the given one, so that the body is of a single type
    obtain ⟨contentType', hvals, hsingle⟩ := htype
    rw [hgiven.cached, hvals] at hval
    obtain rfl := Option.some.inj hval
    exact (setBody_of_single hsingle rawBody).2.1

/-- A body that starts with a blank is taken for a part of the headers. -/
theorem not_bodyExtracted_of_blank (hm : m.WellFormed) (htype : m.SingleType)
    (hblank : isBlank m.body.peek = true) : ¬ BodyExtracted m [] := by
  rintro ⟨hmsg, hparse, hcomplete, -, hgiven, hparts, hlength, -⟩
  have htext : m.text = linesText (m.start :: m.lines) ++ (CStr.crlf ++ m.body) := by
    rw [Message.text, Message.head, List.append_assoc]
  rw [List.append_nil] at hparse
  obtain ⟨fuel, hlines⟩ := parse_lines hm.linesFormed (isBlank_peek_crlf m.body)
  rw [← htext] at hlines
  generalize hheaders : readHeaders (fuel + 1) (m.lines.foldl HttpishMsg.addHeader { mesgLine := some m.start })
    (streamAt m.text (linesText (m.start :: m.lines)).length) = headers at hlines
  have hsame := (sameButHeaders_foldl { mesgLine := some m.start } m.lines).trans
    (sameButHeaders_readHeaders (fuel + 1) _ (streamAt m.text (linesText (m.start :: m.lines)).length))
  rw [hheaders] at hsame
  rw [hlines] at hparse
  simp only at hparse
  split_ifs at hparse with hread
  · obtain ⟨hle, hlen⟩ := length_of_processBody htype hparse hcomplete hgiven hsame.numBodyParts hparts
    -- the line that the body belongs to is behind the empty line
    have hgone : m.head.length < headers.2.bytesRead ∧ headers.2.nbytes = m.text.length := by
      have hdrop : m.text.drop (linesText (m.start :: m.lines)).length = CStr.crlf ++ m.body := by
        rw [htext, List.drop_left]
      cases hline : lineLoop (CStr.crlf ++ m.body).length (CStr.crlf ++ m.body) with
      | mk line n =>
        rw [← hdrop] at hline
        cases line with
        | none =>
          rw [readHeaders_of_none (readLine_of_none hline)] at hheaders
          have hfalse : (m.lines.foldl HttpishMsg.addHeader { mesgLine := some m.start }).headersRead =
              false := headersRead_foldl _ _
          rw [← hheaders, hfalse] at hread
          exact absurd hread (by decide)
        | some line =>
          have hfold := @lineLoop_fold (CStr.crlf ++ m.body) (CStr.crlf ++ m.body).length line
            (by rw [lineBreak_crlf]; exact hblank) (by rw [← hdrop, hline])
          rw [lineBreak_crlf, ← hdrop, hline] at hfold
          rw [readHeaders_of_line (readLine_of_some hline) hfold.1] at hheaders
          obtain ⟨hnbytes, hbytes⟩ := bytesRead_le_readHeaders fuel
            ((m.lines.foldl HttpishMsg.addHeader { mesgLine := some m.start }).addHeader line)
            (streamAt m.text ((linesText (m.start :: m.lines)).length + n))
          rw [hheaders] at hnbytes hbytes
          refine ⟨Nat.lt_of_lt_of_le ?_ hbytes, hnbytes⟩
          rw [Message.head, List.length_append]
          exact Nat.add_lt_add_left hfold.2 _
    have hbody : 0 < m.body.length := by
      cases hnil : m.body with
      | nil =>
        rw [hnil] at hblank
        exact absurd hblank (by decide)
      | cons c body => exact Nat.succ_pos _
    have htextlen : m.text.length = m.head.length + m.body.length := by
      rw [Message.text, List.length_append]
    rw [hlength] at hlen
    omega
  · obtain rfl := (Prod.mk.inj (Prod.mk.inj hparse).2).1
    rw [hsame.isComplete] at hcomplete
    exact absurd hcomplete Bool.false_ne_true

theorem not_bodyExtracted_of_size (hm : m.WellFormed) (htype : m.SingleType)
    (hbody : m.body ≠ []) (hblank : isBlank m.body.peek = false) (hsize : 2 ^ 31 ≤ m.body.length) :
    ¬ BodyExtracted m ['x'] := by
  rintro ⟨hmsg, hparse, hcomplete, -, hgiven, hparts, hlength, -⟩
  have hpeek : isBlank (CStr.peek (m.body ++ ['x'])) = false := by
    rw [CStr.peek_append_of_ne_nil hbody]
    exact hblank
  rw [Message.text, List.append_assoc, parse_head hm.linesFormed hpeek] at hparse
  have hnew : m.header.numBodyParts = 0 := m.sameButHeaders_header.numBodyParts
  obtain ⟨-, hlen⟩ := length_of_processBody htype hparse hcomplete hgiven hnew hparts
  obtain ⟨v, -, -, -, hval⟩ := hm.contentLength m.headersGiven_header
  have hlt := CStr.atoi_lt v
  have hrest : (m.head ++ (m.body ++ ['x'])).length - m.head.length = m.body.length + 1 := by
    simp only [List.length_append, List.length_singleton]
    omega
  simp only [bodyLength, streamAt, hval, hrest] at hlen
  rw [hlength] at hlen
  split_ifs at hlen <;> omega

/-- **When the body of a message is extracted**: if and only if there is one, it starts with no blank, and
its length is a signed integer. -/
theorem bodyExtracted_iff {m : Message} (hm : m.WellFormed) (htype : m.SingleType) :
    (∀ further, NulFree further → BodyExtracted m further) ∧ NeverEarly m ↔
      m.body ≠ [] ∧ isBlank m.body.peek = false ∧ m.body.length < 2 ^ 31 := by
  constructor
  · rintro ⟨h, -⟩
    have hbody : m.body ≠ [] := by
      intro hnil
      obtain ⟨hmsg, hparse, -, -, -, hparts, -⟩ := h [] (by simp [NulFree])
      rw [parse_text_of_nil hm hnil rfl] at hparse
      obtain rfl := (Prod.mk.inj (Prod.mk.inj hparse).2).1
      have hnew : m.complete.numBodyParts = 0 := m.sameButHeaders_header.numBodyParts
      rw [hnew] at hparts
      exact absurd hparts (by decide)
    have hblank : isBlank m.body.peek = false := by
      by_contra hblank
      exact not_bodyExtracted_of_blank hm htype (by simpa using hblank) (h [] (by simp [NulFree]))
    refine ⟨hbody, hblank, ?_⟩
    by_contra hsize
    exact not_bodyExtracted_of_size hm htype hbody hblank (by omega) (h ['x'] (by decide))
  · rintro ⟨hbody, hblank, hsize⟩
    exact ⟨fun further _ => bodyExtracted_of_not_blank hm htype hbody hblank hsize further,
      neverEarly_of_not_blank hm hblank hsize⟩

/-- A message with a text of six bytes. -/
def textMessage (body : CStr) : Message where
  start := "MESSAGE sip:a@b SIP/2.0"
  lines := ["Content-Type: text/plain", "Content-Length: 6"]
  body := body

theorem wellFormed_textMessage {body : CStr} (hbody : NulFree body) (hlen : body.length = 6) :
    (textMessage body).WellFormed where
  start_ne_nil := List.cons_ne_nil _ _
  start_plain := by
    change IsPlain "MESSAGE sip:a@b SIP/2.0".toList
    decide
  lines := by
    intro l hl
    rcases List.mem_cons.mp hl with rfl | hl
    · exact ⟨by decide, by decide, by decide⟩
    · obtain rfl := List.mem_singleton.mp hl
      exact ⟨by decide, by decide, by decide⟩
  body := hbody
  length := ⟨['6'], by
    change headerValues .contentLength ["Content-Type: text/plain".toList, "Content-Length: 6".toList] = _
    decide, CStr.forall_of_all (by decide), hlen ▸ rfl⟩

theorem singleType_textMessage (body : CStr) : (textMessage body).SingleType := by
  refine ⟨"text/plain", ?_, by decide⟩
  change joinValues (headerValues .contentType ["Content-Type: text/plain".toList, "Content-Length: 6".toList]) = _
  decide

/-- The body of a message is extracted. -/
theorem bodyExtracted_hello :
    (∀ further, NulFree further → BodyExtracted (textMessage "hello!") further) ∧
      NeverEarly (textMessage "hello!") :=
  (bodyExtracted_iff (wellFormed_textMessage (by decide) rfl) (singleType_textMessage _)).mpr
    ⟨by decide, by decide, by decide⟩

/-- A body that starts with a blank is not extracted. -/
theorem not_bodyExtracted_indented :
    (textMessage " hello").WellFormed ∧ (textMessage " hello").SingleType ∧
      ¬ BodyExtracted (textMessage " hello") [] :=
  ⟨wellFormed_textMessage (by decide) rfl, singleType_textMessage _,
    not_bodyExtracted_of_blank (wellFormed_textMessage (by decide) rfl) (singleType_textMessage _)
      (by decide)⟩

end Httpish
