import Ikran.Httpish.Framing

/-!
# Folded header lines

A header line may go on behind a line break when a blank follows it. The line reader leaves out the line break and
keeps the blank, so that a message with folded lines is parsed as the one with the lines written out.
-/

namespace Httpish

/-- A header line, and the pieces that it goes on with: each starts with a blank. -/
structure FoldedLine where
  first : CStr
  folds : List CStr
  first_line : IsHeaderLine first
  folds_plain : ∀ fold ∈ folds, IsPlain fold
  folds_blank : ∀ fold ∈ folds, isBlank fold.peek = true

/-- A text with pieces that go on behind line breaks. -/
def foldedText (first : CStr) (folds : List CStr) : CStr := first ++ folds.flatMap (CStr.crlf ++ ·)

namespace FoldedLine

variable (l : FoldedLine)

def raw : CStr := foldedText l.first l.folds

/-- The line written out. -/
def text : CStr := l.first ++ l.folds.flatten

theorem peek_text (s : CStr) : isBlank (CStr.peek (l.text ++ s)) = false ∧ l.text ≠ [] := by
  obtain ⟨c, rest, hfirst⟩ := List.exists_cons_of_ne_nil l.first_line.ne_nil
  have hblank := l.first_line.unfolded
  rw [text, hfirst]
  rw [hfirst] at hblank
  exact ⟨hblank, List.cons_ne_nil _ _⟩

theorem peek_raw (s : CStr) : isBlank (CStr.peek (l.raw ++ s)) = false := by
  obtain ⟨c, rest, hfirst⟩ := List.exists_cons_of_ne_nil l.first_line.ne_nil
  have hblank := l.first_line.unfolded
  rw [raw, foldedText, hfirst]
  rw [hfirst] at hblank
  exact hblank

end FoldedLine

/-! ## The line reader -/

variable {t : CStr}

theorem lineLoop_plain_append {l : CStr} (hl : IsPlain l) (ht : t.peek ≠ CStr.nul) (fuel : ℕ) :
    lineLoop (l.length + fuel) (l ++ t) = ((lineLoop fuel t).1.map (l ++ ·), l.length + (lineLoop fuel t).2) := by
  induction l with
  | nil =>
    rw [List.nil_append, List.length_nil, Nat.zero_add, Nat.zero_add]
    refine Prod.ext ?_ rfl
    exact Option.map_id'.symm
  | cons c l ih =>
    obtain ⟨-, hc⟩ := hl c List.mem_cons_self
    have hrest : IsPlain l := fun d hd => hl d (List.mem_cons_of_mem _ hd)
    have hpeek : CStr.peek (l ++ t) ≠ CStr.nul := by
      cases l with
      | nil => exact ht
      | cons d l => exact (hrest d List.mem_cons_self).1
    have hfuel : (c :: l).length + fuel = l.length + fuel + 1 := by
      rw [List.length_cons]
      omega
    rw [hfuel, List.cons_append, lineLoop, lineBreak_cons hc, if_neg (by simp), List.drop_zero]
    simp only [if_neg hpeek, ih hrest, Option.map_map]
    refine Prod.ext rfl ?_
    rw [List.length_cons]
    dsimp only
    omega

theorem lineLoop_crlf_blank {c : Char} (hc : isBlank c = true) (ht : t.peek ≠ CStr.nul) (fuel : ℕ) :
    lineLoop (fuel + 1) (CStr.crlf ++ c :: t) = ((lineLoop fuel t).1.map (c :: ·), 3 + (lineLoop fuel t).2) := by
  rw [lineLoop, lineBreak_crlf]
  have hdrop : (CStr.crlf ++ c :: t).drop 2 = c :: t := rfl
  rw [hdrop, CStr.peek_cons, hc, if_neg (by simp)]
  simp only [if_neg ht]

theorem peek_ne_nul_of_lineBreak {s : CStr} (hs : lineBreak s ≠ 0) : s.peek ≠ CStr.nul := by
  intro hnul
  refine hs ?_
  rw [lineBreak, hnul]
  have hlf : CStr.peek (s.drop 0) = CStr.nul := by rw [List.drop_zero, hnul]
  simp only [if_neg (show ¬ CStr.nul = '\r' by decide), hlf, if_neg (show ¬ CStr.nul = '\n' by decide)]

/-- **A folded line is read without its line breaks**, up to a line break that no blank follows. -/
theorem lineLoop_folded {s : CStr} (hs : lineBreak s ≠ 0)
    (hblank : isBlank (CStr.peek (s.drop (lineBreak s))) = false) {folds : List CStr}
    (hplain : ∀ fold ∈ folds, IsPlain fold) (hfold : ∀ fold ∈ folds, isBlank fold.peek = true) :
    ∀ {first : CStr} {fuel : ℕ}, IsPlain first → (foldedText first folds).length < fuel →
      lineLoop fuel (foldedText first folds ++ s) =
        (some (first ++ folds.flatten), (foldedText first folds).length + lineBreak s) := by
  induction folds with
  | nil =>
    intro first fuel hfirst hfuel
    simp only [foldedText, List.flatMap_nil, List.append_nil, List.flatten_nil] at hfuel ⊢
    exact lineLoop_append hfirst hs hblank hfuel
  | cons fold folds ih =>
    intro first fuel hfirst hfuel
    have hplain' : ∀ fold ∈ folds, IsPlain fold := fun f hf => hplain f (List.mem_cons_of_mem _ hf)
    have hfold' : ∀ fold ∈ folds, isBlank fold.peek = true := fun f hf => hfold f (List.mem_cons_of_mem _ hf)
    have hstart := hfold fold List.mem_cons_self
    have hplainFold := hplain fold List.mem_cons_self
    -- the piece is a blank with a plain text behind it
    cases fold with
    | nil => exact absurd hstart (by decide)
    | cons c piece =>
      have hblankStart : isBlank c = true := hstart
      have hpiece : IsPlain piece := fun d hd => hplainFold d (List.mem_cons_of_mem c hd)
      have hraw : foldedText first ((c :: piece) :: folds) = first ++ (CStr.crlf ++ c :: foldedText piece folds) := by
        simp only [foldedText, List.flatMap_cons, List.append_assoc, List.cons_append]
      have hnext : CStr.peek (foldedText piece folds ++ s) ≠ CStr.nul := by
        cases piece with
        | nil =>
          cases folds with
          | nil => exact peek_ne_nul_of_lineBreak hs
          | cons f folds =>
            change '\r' ≠ CStr.nul
            decide
        | cons d piece => exact (hpiece d List.mem_cons_self).1
      have hcrlf : CStr.crlf.length = 2 := rfl
      have hlength : (foldedText first ((c :: piece) :: folds)).length =
          first.length + (3 + (foldedText piece folds).length) := by
        rw [hraw, List.length_append, List.length_append, List.length_cons, hcrlf]
        omega
      obtain ⟨rest, rfl⟩ : ∃ rest, fuel = first.length + (rest + 1) := ⟨fuel - first.length - 1, by omega⟩
      have hrec := @ih hplain' hfold' piece rest hpiece (by omega)
      rw [hraw, List.append_assoc, lineLoop_plain_append hfirst (by rintro ⟨⟩), List.append_assoc, List.cons_append,
        lineLoop_crlf_blank hblankStart hnext, hrec]
      refine Prod.ext ?_ ?_
      · simp only [Option.map_some, List.flatten_cons, List.cons_append]
      · rw [← hraw, hlength]
        dsimp only
        omega

/-! ## Messages -/

theorem peek_linesText_raw (lines : List FoldedLine) (ht : isBlank t.peek = false) :
    isBlank (CStr.peek (linesText (lines.map FoldedLine.raw) ++ t)) = false := by
  cases lines with
  | nil => exact ht
  | cons l lines =>
    rw [List.map_cons, linesText_cons, List.append_assoc, List.append_assoc]
    exact l.peek_raw _

theorem readLine_folded {buff : CStr} {p : ℕ} (l : FoldedLine) (hbuff : buff.drop p = l.raw ++ CStr.crlf ++ t)
    (hblank : isBlank t.peek = false) :
    rstreamReadLine (streamAt buff p) = (some l.text, streamAt buff (p + (l.raw ++ CStr.crlf).length)) := by
  have hcrlf : lineBreak (CStr.crlf ++ t) = 2 := lineBreak_crlf t
  have hlength : (l.raw ++ CStr.crlf).length = l.raw.length + lineBreak (CStr.crlf ++ t) := by
    rw [List.length_append, hcrlf]
    rfl
  rw [hlength]
  refine readLine_of_some ?_
  rw [hbuff, List.append_assoc]
  refine lineLoop_folded (by rw [hcrlf]; decide) (by rw [hcrlf]; exact hblank) l.folds_plain l.folds_blank
    l.first_line.plain ?_
  have hle := lineBreak_le (CStr.crlf ++ t)
  change l.raw.length < (l.raw ++ (CStr.crlf ++ t)).length
  rw [List.length_append]
  omega

theorem readHeaders_folded {buff : CStr} {lines : List FoldedLine} {p fuel : ℕ} (hmsg : HttpishMsg)
    (hbuff : buff.drop p = linesText (lines.map FoldedLine.raw) ++ t) (ht : isBlank t.peek = false) :
    readHeaders (lines.length + fuel) hmsg (streamAt buff p) =
      readHeaders fuel ((lines.map FoldedLine.text).foldl HttpishMsg.addHeader hmsg)
        (streamAt buff (p + (linesText (lines.map FoldedLine.raw)).length)) := by
  induction lines generalizing p hmsg with
  | nil => simp [linesText]
  | cons l lines ih =>
    rw [List.map_cons, linesText_cons, List.append_assoc] at hbuff
    have hread := readLine_folded l hbuff (peek_linesText_raw lines ht)
    have hstep := ih (hmsg.addHeader l.text) (drop_add hbuff)
    obtain ⟨-, hne⟩ := l.peek_text []
    rw [List.length_cons, Nat.add_right_comm, readHeaders, hread]
    obtain ⟨c, rest, htext⟩ := List.exists_cons_of_ne_nil hne
    rw [htext] at hstep ⊢
    simp only
    rw [hstep, List.map_cons, List.foldl_cons, htext, List.map_cons, linesText_cons,
      @List.length_append _ _ (linesText (lines.map FoldedLine.raw)), Nat.add_assoc]

/-- A message of folded lines: the empty line behind them is not continued. -/
structure FoldedMessage where
  start : CStr
  lines : List FoldedLine
  body : CStr
  start_ne_nil : start ≠ []
  start_plain : IsPlain start
  body_unfolded : isBlank body.peek = false

def FoldedMessage.text (m : FoldedMessage) : CStr :=
  linesText (m.start :: m.lines.map FoldedLine.raw) ++ (CStr.crlf ++ m.body)

theorem sameHeaders_processBody (hmsg : HttpishMsg) (rs : Rstream) (nbytes : ℕ) :
    (processBody hmsg rs nbytes).2.1.headers = hmsg.headers ∧
      (processBody hmsg rs nbytes).2.1.hdrCache = hmsg.hdrCache := by
  generalize hresult : processBody hmsg rs nbytes = result
  unfold processBody at hresult
  change (if ((rs.nbytes - rs.bytesRead : ℕ) : ℤ) < bodyLength hmsg rs then _ else _) = _ at hresult
  by_cases hlt : ((rs.nbytes - rs.bytesRead : ℕ) : ℤ) < bodyLength hmsg rs
  · -- bytes are missing
    rw [if_pos hlt] at hresult
    split_ifs at hresult
    · split at hresult <;> exact hresult ▸ ⟨rfl, rfl⟩
    · exact hresult ▸ ⟨rfl, rfl⟩
  · rw [if_neg hlt] at hresult
    change (if 0 < bodyLength hmsg rs then _ else _) = _ at hresult
    by_cases hpos : 0 < bodyLength hmsg rs
    · rw [if_pos hpos] at hresult
      split at hresult
      · exact hresult ▸ ⟨rfl, rfl⟩
      · rename_i rawBody rs' _
        split at hresult
        · exact hresult ▸ ⟨rfl, rfl⟩
        · rename_i contentType _
          have hbody := sameButBody_setBody { hmsg with
            contentLength := bodyLength hmsg rs
            isComplete := true } contentType rawBody
          rw [← hresult]
          exact ⟨hbody.headers, hbody.hdrCache⟩
    · rw [if_neg hpos] at hresult
      exact hresult ▸ ⟨rfl, rfl⟩

/-- **The headers of a parsed message are its lines written out.** -/
theorem headersGiven_parse_folded (m : FoldedMessage) :
    HeadersGiven (parse m.text).2.1 (m.lines.map FoldedLine.text) := by
  have hcrlf := isBlank_peek_crlf m.body
  have hstart : m.text = m.start ++ CStr.crlf ++ (linesText (m.lines.map FoldedLine.raw) ++ (CStr.crlf ++ m.body)) := by
    rw [FoldedMessage.text, linesText_cons, List.append_assoc]
  have hne : m.text ≠ [] := by
    obtain ⟨c, rest, hcons⟩ := List.exists_cons_of_ne_nil m.start_ne_nil
    rw [hstart, hcons]
    exact List.cons_ne_nil _ _
  have hlength : m.lines.length ≤ (linesText (m.lines.map FoldedLine.raw)).length := by
    have := length_le_linesText (m.lines.map FoldedLine.raw)
    rwa [List.length_map] at this
  obtain ⟨fuel, hfuel⟩ : ∃ fuel, m.text.length = m.lines.length + (fuel + 1) := by
    refine ⟨m.text.length - m.lines.length - 1, ?_⟩
    have htotal : CStr.crlf.length = 2 := rfl
    rw [hstart]
    simp only [List.length_append, htotal]
    omega
  have hfirst := @readMesgLine_crlf _ (m.text.length - 1) _ _ hstart m.start_ne_nil m.start_plain
    (peek_linesText_raw m.lines hcrlf)
  rw [Nat.sub_add_cancel (List.length_pos_iff.mpr hne)] at hfirst
  have hdrop : m.text.drop (m.start ++ CStr.crlf).length =
      linesText (m.lines.map FoldedLine.raw) ++ (CStr.crlf ++ m.body) := by
    rw [hstart, List.drop_left]
  have hheaders := @readHeaders_folded _ _ _ _ (fuel + 1) { mesgLine := some m.start } hdrop hcrlf
  -- behind the lines is the empty line
  have hbehind : m.text.drop ((m.start ++ CStr.crlf).length + (linesText (m.lines.map FoldedLine.raw)).length) =
      [] ++ CStr.crlf ++ m.body := drop_add hdrop
  have hlast := readLine_crlf hbehind (fun c hc => absurd hc (by simp)) m.body_unfolded
  rw [readHeaders, hlast, ← hfuel] at hheaders
  rw [parse_of_some hne hfirst, hheaders]
  have hgiven := (headersGiven_nil (some m.start)).foldl (m.lines.map FoldedLine.text)
  rw [List.nil_append] at hgiven
  simp only [if_true]
  obtain ⟨hsame, hcache⟩ := sameHeaders_processBody
    { (m.lines.map FoldedLine.text).foldl HttpishMsg.addHeader { mesgLine := some m.start } with headersRead := true }
    _ m.text.length
  refine ⟨hsame.trans hgiven.headers, fun h => ?_⟩
  rw [HttpishMsg.cachedHeaderVal, hcache]
  exact hgiven.cached h

end Httpish
