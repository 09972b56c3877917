import Ikran.Sdp.History

/-!
# Isolation of the lines of a message

What follows a line has no influence on the attributes that the lines up to it produce, unless the
pointer of `sdp_parse_attr_fmtp` is moved over the line feed at the end of the line.
-/

namespace Sdp

open CStr Line

/-! ## Format parameters -/

/-- The loop over the format parameters moves its pointer over the line feed that ends the line: the
last parameter was one of the second chain, so that the loop was not done behind it. -/
def fmtpCrosses : ℕ → CStr → Fmtp → Bool
  | 0, _, _ => false
  | fuel + 1, s, f =>
    match (fmtpParam f).run s 0 with
    | (.ok (some (f, _, done)), s, _) => !done && (s.peek == '\n' || fmtpCrosses fuel s.tail f)
    | _ => false

variable {l : CStr}

theorem fmtpLoop_of_not_crosses {fuel fuel₁ fuel₂ : ℕ} (hfuel : l.length < fuel)
    (hfuel₁ : l.length < fuel₁) (hfuel₂ : l.length < fuel₂) {f : Fmtp}
    (h : fmtpCrosses fuel (l ++ '\n' :: []) f = false) (u v : CStr) (n : UInt32) (found : Bool) :
    fmtpLoop fuel₁ (l ++ '\n' :: u) n f found = fmtpLoop fuel₂ (l ++ '\n' :: v) n f found := by
  induction fuel generalizing fuel₁ fuel₂ l f n found with
  | zero => omega
  | succ fuel ih =>
    obtain ⟨fuel₁, rfl⟩ := Nat.exists_eq_succ_of_ne_zero (Nat.ne_of_gt (Nat.zero_lt_of_lt hfuel₁))
    obtain ⟨fuel₂, rfl⟩ := Nat.exists_eq_succ_of_ne_zero (Nat.ne_of_gt (Nat.zero_lt_of_lt hfuel₂))
    obtain ⟨pre, l', o, k, hl, hrun⟩ := (fmtpParam f).run_line l
    unfold fmtpCrosses at h
    unfold fmtpLoop
    rw [hrun] at h
    rw [hrun, hrun]
    rcases o with e | _ | ⟨f, found', done⟩
    · rfl
    · rfl
    · dsimp only at h ⊢
      cases done with
      | true => rfl
      | false =>
        simp only [Bool.not_false, Bool.true_and, Bool.or_eq_false_iff] at h
        simp only [Bool.false_eq_true, if_false]
        cases l' with
        | nil => simp at h
        | cons c l' =>
          have hlength : l'.length < l.length := by simp [hl]; omega
          exact ih (by omega) (by omega) (by omega) h.2 _ _

theorem fmtpLoop_refused (fuel : ℕ) (n : UInt32) (f : Fmtp) (found : Bool) :
    (fmtpLoop (fuel + 1) "k=0\n".toList n f found).1 = .error .invalidParameter := by
  have hrun : (fmtpParam f).run "k=0\n".toList n = (.error .invalidParameter, ['\n'], n + 1) := rfl
  rw [fmtpLoop, hrun]

theorem fmtpLoop_taken (fuel : ℕ) (n : UInt32) (f : Fmtp) (found : Bool) :
    (fmtpLoop (fuel + 2) "k=1\n".toList n f found).1 =
      .ok ({ f with fmtpFormat := .codecInfo, annexKVal := 1 }, true) := by
  have hrun : (fmtpParam f).run "k=1\n".toList n =
      (.ok (some ({ f with fmtpFormat := .codecInfo, annexKVal := 1 }, true, false)), ['\n'], n) :=
    rfl
  rw [fmtpLoop, hrun]
  simp [fmtpLoop, fmtpParam, token, skipDelims]

/-- Once the loop crosses the end of the line, the text behind it decides whether the attribute is
refused. Both texts are lines that a parse accepts. -/
theorem fmtpLoop_of_crosses {fuel fuel' : ℕ} {f : Fmtp} (hline : IsLine l)
    (h : fmtpCrosses fuel (l ++ '\n' :: []) f = true) (hfuel : l.length + 4 < fuel') (n : UInt32)
    (found : Bool) :
    (fmtpLoop fuel' (l ++ '\n' :: "k=0\n".toList) n f found).1 = .error .invalidParameter ∧
      ∃ f', (fmtpLoop fuel' (l ++ '\n' :: "k=1\n".toList) n f found).1 = .ok (f', true) := by
  induction fuel generalizing fuel' l f n found with
  | zero => simp [fmtpCrosses] at h
  | succ fuel ih =>
    obtain ⟨fuel', rfl⟩ := Nat.exists_eq_succ_of_ne_zero (Nat.ne_of_gt (Nat.zero_lt_of_lt hfuel))
    obtain ⟨pre, l', o, k, hl, hrun⟩ := (fmtpParam f).run_line l
    unfold fmtpCrosses at h
    unfold fmtpLoop
    rw [hrun] at h
    rw [hrun, hrun]
    rcases o with e | _ | ⟨f, found', done⟩
    · cases h
    · cases h
    · dsimp only at h ⊢
      cases done with
      | true => simp at h
      | false =>
        simp only [Bool.not_false, Bool.true_and, Bool.or_eq_true] at h
        simp only [Bool.false_eq_true, if_false]
        cases l' with
        | nil =>
          obtain ⟨fuel', rfl⟩ : ∃ m, fuel' = m + 2 := ⟨fuel' - 2, by omega⟩
          exact ⟨fmtpLoop_refused _ _ f _, _, fmtpLoop_taken _ _ f _⟩
        | cons c l' =>
          have hlength : l'.length < l.length := by simp [hl]; omega
          have hl' : IsLine (c :: l') := fun d hd => hline d (by simp [hl, hd])
          have hc := (hl' c List.mem_cons_self).2
          exact ih (fun d hd => hl' d (List.mem_cons_of_mem _ hd)) (h.resolve_left (by simpa using hc))
            (by omega) _ _

/-- The value of `a=fmtp` on a line, up to its line feed, makes the loop cross the end of the line. -/
def fmtpValueCrosses (s : CStr) : Bool :=
  match (getNextNum blanks).run s 0 with
  | (.ok (some num), s, _) => fmtpCrosses (s.length + 1) (replaceSlashes s) (fmtpInit num.toUInt16)
  | _ => false

theorem replaceSlashes_line (h : IsLine l) :
    ∃ l', IsLine l' ∧ l'.length = l.length ∧ ∀ u, replaceSlashes (l ++ '\n' :: u) = l' ++ '\n' :: u := by
  refine ⟨l.map fun c => if c = '/' then ';' else c, fun c hc => ?_, by simp, fun u => ?_⟩
  · obtain ⟨d, hd, rfl⟩ := List.mem_map.mp hc
    split_ifs
    · decide
    · exact h d hd
  · have hall : ∀ c ∈ l, (c != '\n') = true := fun c hc => by simpa using (h c hc).2
    unfold replaceSlashes
    rw [List.takeWhile_append_of_pos hall, List.dropWhile_append_of_pos hall]
    simp

theorem parseFmtpEvents_line (h : IsLine l) (f : Fmtp) (u : CStr) : parseFmtpEvents f (l ++ '\n' :: u) =
      if f.maxval = 0 then none else some { f with fmtpFormat := .nte } := by
  have hall : ∀ c ∈ l, (c != '\n') = true := fun c hc => by simpa using (h c hc).2
  unfold parseFmtpEvents
  rw [List.dropWhile_append_of_pos hall]
  have htoken : token ", \t" maxStringLen ('\n' :: u) = (none, '\n' :: u) := token_eol rfl
  simp only [List.dropWhile_cons, bne_self_eq_false, Bool.false_eq_true, if_false, fmtpEvents, htoken]
  simp [Option.filter]

theorem takeWhile_nul_line (h : IsLine l) (u : CStr) :
    (l ++ '\n' :: u).takeWhile (· != nul) = l ++ '\n' :: u.takeWhile (· != nul) := by
  have hall : ∀ c ∈ l, (c != nul) = true := fun c hc => by simpa using (h c hc).1
  rw [List.takeWhile_append_of_pos hall]
  rfl

theorem parseAttrFmtp_of_not_crosses (hl : IsLine l)
    (h : fmtpValueCrosses (l ++ '\n' :: []) = false) (u v : CStr) (n : UInt32) :
    parseAttrFmtp (l ++ '\n' :: u) n = parseAttrFmtp (l ++ '\n' :: v) n := by
  obtain ⟨pre, l', o, k, hsplit, hrun⟩ := (getNextNum blanks).run_line l
  have hl' : IsLine l' := hl.of_append hsplit
  unfold fmtpValueCrosses at h
  unfold parseAttrFmtp
  rw [hrun] at h
  rw [hrun, hrun]
  rcases o with e | _ | num
  · rfl
  · rfl
  · obtain ⟨l₂, -, hlength, hslashes⟩ := replaceSlashes_line hl'
    dsimp only at h ⊢
    rw [hslashes] at h
    have hne : ∀ w : CStr, l' ++ '\n' :: w ≠ [] := by simp
    simp only [takeWhile_nul_line hl', if_neg (hne _), parseFmtpParams, hslashes, parseFmtpEvents_line hl']
    have hlong : ∀ w : CStr, l₂.length < (l' ++ '\n' :: w).length + 1 := by
      intro w
      simp only [List.length_append, List.length_cons]
      omega
    rw [fmtpLoop_of_not_crosses (hlong _) (hlong _) (hlong _) h (u.takeWhile (· != nul)) (v.takeWhile (· != nul))]

/-- Format parameters that cross the end of the line are refused or not depending on the line behind
it. -/
theorem parseAttrFmtp_of_crosses (hl : IsLine l) (h : fmtpValueCrosses (l ++ '\n' :: []) = true) (n : UInt32) :
    (parseAttrFmtp (l ++ '\n' :: "k=0\n".toList) n).1 = .error .invalidParameter ∧
      ∃ f, (parseAttrFmtp (l ++ '\n' :: "k=1\n".toList) n).1 = .ok (.fmtp f) := by
  obtain ⟨pre, l', o, k, hsplit, hrun⟩ := (getNextNum blanks).run_line l
  have hl' : IsLine l' := hl.of_append hsplit
  unfold fmtpValueCrosses at h
  unfold parseAttrFmtp
  rw [hrun] at h
  rw [hrun, hrun]
  rcases o with e | _ | num
  · cases h
  · cases h
  · obtain ⟨l₂, hl₂, hlength, hslashes⟩ := replaceSlashes_line hl'
    dsimp only at h ⊢
    rw [hslashes] at h
    have hne : ∀ w : CStr, l' ++ '\n' :: w ≠ [] := by simp
    have hzero : "k=0\n".toList.takeWhile (· != nul) = "k=0\n".toList := by decide
    have hone : "k=1\n".toList.takeWhile (· != nul) = "k=1\n".toList := by decide
    simp only [takeWhile_nul_line hl', if_neg (hne _), parseFmtpParams, hslashes, hzero, hone]
    have hlong : l₂.length + 4 < (l' ++ '\n' :: "k=0\n".toList).length + 1 := by
      rw [hlength, List.length_append]
      simp
    obtain ⟨hrefused, f, htaken⟩ := fmtpLoop_of_crosses hl₂ h hlong (n + k) false
    refine ⟨?_, f, ?_⟩
    · generalize fmtpLoop _ (l₂ ++ '\n' :: "k=0\n".toList) _ _ _ = r at hrefused ⊢
      obtain ⟨o, m⟩ := r
      obtain rfl : o = _ := hrefused
      rfl
    · rw [show (l' ++ '\n' :: "k=1\n".toList).length = (l' ++ '\n' :: "k=0\n".toList).length from by
        simp]
      generalize fmtpLoop _ (l₂ ++ '\n' :: "k=1\n".toList) _ _ _ = r at htaken ⊢
      obtain ⟨o, m⟩ := r
      obtain rfl : o = _ := htaken
      rfl

/-! ## Attribute lines -/

/-- The value of the plain attribute on the line, up to its line feed, is that of an `a=fmtp` that
crosses the end of the line. -/
def valueCrosses (d : Desc) (s : CStr) : Bool :=
  match (plainLine d).run s 0 with
  | (.ok .fmtp, s, _) => fmtpValueCrosses s
  | _ => false

theorem sameLine_line (l u v : CStr) : SameLine (l ++ '\n' :: u) (l ++ '\n' :: v) := SameLine.append_eol rfl l u v

theorem parseAttrComediadir_line (conf : Conf) (l u v : CStr) (n : UInt32) :
    parseAttrComediadir conf (l ++ '\n' :: u) n = parseAttrComediadir conf (l ++ '\n' :: v) n := by
  obtain ⟨o, m, m', hm, hm', herr⟩ := (outcomeOf_agree (comediadirLine conf) n n (sameLine_line l u v)).exists_eq
  have hcount : m = m' := by
    have hcancel : ∀ a b c : UInt32, a - c = b - c → a = b := by
      intro a b c
      grind
    exact hcancel m m' n herr
  rw [parseAttrComediadir, parseAttrComediadir, hm, hm', hcount]

theorem plainAgrees_of_not_crosses {conf : Conf} {d : Desc} (hl : IsLine l)
    (h : valueCrosses d (l ++ '\n' :: []) = false) (u v : CStr) (n : UInt32) :
    PlainAgrees conf d (l ++ '\n' :: u) (l ++ '\n' :: v) n n := by
  refine plainAgrees_of_isolated (sameLine_line l u v) fun t ht hopen => ?_
  obtain ⟨pre, l', o, k, hsplit, hrun⟩ := (plainLine d).run_line l
  have hl' : IsLine l' := hl.of_append hsplit
  unfold valueCrosses at h
  rw [hrun] at h ht
  rw [hrun, hrun]
  obtain rfl : o = .ok t := ht
  cases t with
  | fmtp =>
    have hvalue : ∀ s m, parsePlain conf .fmtp s m = parseAttrFmtp s m := fun _ _ => rfl
    dsimp only
    rw [hvalue, hvalue, parseAttrFmtp_of_not_crosses hl' h u v (n + k)]
    exact ⟨rfl, rfl⟩
  | comediadir =>
    have hvalue : ∀ s m, parsePlain conf .comediadir s m = parseAttrComediadir conf s m := fun _ _ => rfl
    dsimp only
    rw [hvalue, hvalue, parseAttrComediadir_line conf l' u v (n + k)]
    exact ⟨rfl, rfl⟩
  | _ => simp [PlainType.isOpen] at hopen

/-- A line with such a value adds an attribute or does not, depending on the line behind it. The
attribute is added at the level of the line or to the capability that is found. -/
theorem parseAttribute_of_crosses (conf : Conf) {level : Level} {d : Desc} (hl : IsLine l)
    (hlevel : d.hasLevel level = true) (h : valueCrosses d (l ++ '\n' :: []) = true) (n : UInt32) :
    (parseAttribute conf level (l ++ '\n' :: "k=0\n".toList) d n).2.1 = d ∧
      ∃ a, (parseAttribute conf level (l ++ '\n' :: "k=1\n".toList) d n).2.1 = d.updateAttrs level (· ++ [.plain a]) ∨
        ∃ t i, findCap t d = some i ∧ (parseAttribute conf level (l ++ '\n' :: "k=1\n".toList) d n).2.1 =
            d.updateAttrs d.lastLevel (·.modify i (attach a)) := by
  simp only [parseAttribute_desc conf _ _ hlevel]
  unfold valueCrosses at h
  have hrun : ∀ s, (plainLine d).run s 0 = _ := fun s => LineParser.run_bind ..
  rw [hrun] at h
  obtain ⟨pre, l', o, k, hsplit, hname⟩ := attrName.run_line l
  have hl' : IsLine l' := hl.of_append hsplit
  rw [hname] at h
  unfold readAttr
  rw [hname, hname]
  rcases o with e | _ | tmp
  · cases h
  · cases h
  · dsimp only [plainBehind] at h ⊢
    cases htype : findName AttrType.all AttrType.name tmp with
    | none => simp [htype] at h
    | some type =>
      rw [htype] at h
      cases type with
      | plain t =>
        cases t with
        | fmtp =>
          obtain ⟨hrefused, f, htaken⟩ := parseAttrFmtp_of_crosses hl' h (n + k)
          have hvalue : ∀ s, parsePlain conf .fmtp s (n + k) = parseAttrFmtp s (n + k) := fun _ => rfl
          dsimp only
          rw [hvalue, hvalue, hrefused, htaken]
          exact ⟨rfl, .fmtp f, .inl rfl⟩
        | _ => cases h
      | cap t => cases h
      | cpar t =>
        cases hcap : findCap t d with
        | none => simp [hcap] at h
        | some i =>
          simp only [hcap, Option.isSome_some, if_true] at h
          obtain ⟨pre, l₂, o, k', hsplit, hcpar⟩ := cparLine.run_line l'
          have hl₂ : IsLine l₂ := hl'.of_append hsplit
          rw [hcpar] at h
          unfold cparAttr
          rw [hcpar, hcpar]
          rcases o with e | t'
          · cases h
          · cases t' with
            | fmtp =>
              obtain ⟨hrefused, f, htaken⟩ := parseAttrFmtp_of_crosses hl₂ h (n + k + k')
              have hvalue : ∀ s, parsePlain conf .fmtp s (n + k + k') = parseAttrFmtp s (n + k + k') := fun _ => rfl
              dsimp only
              rw [hvalue, hvalue, hrefused, htaken]
              exact ⟨rfl, .fmtp f, .inr ⟨t, i, hcap, by simp [Except.toOption, Desc.afterAttr, hcap]⟩⟩
            | _ => cases h

/-! ## Lines of any token -/

/-- The text of the line that starts at `s`. -/
def lineText (s : CStr) : CStr := s.takeWhile (· != '\n')

theorem lineText_line (h : IsLine l) (u : CStr) : lineText (l ++ '\n' :: u) = l := by
  have hall : ∀ c ∈ l, (c != '\n') = true := fun c hc => by simpa using (h c hc).2
  rw [lineText, List.takeWhile_append_of_pos hall]
  simp

/-- The line is parsed, and its format parameters make the loop cross its end. -/
def Visit.Crosses (v : Visit) : Prop :=
  v.Parsed ∧ v.tok = .a ∧ v.before.desc.hasLevel v.before.curLevel = true ∧
    valueCrosses v.before.desc ((lineText v.text).drop 2 ++ '\n' :: []) = true

theorem recognise_line (l u v : CStr) : recognise (l ++ '\n' :: u) = recognise (l ++ '\n' :: v) ∧
      ((recognise (l ++ '\n' :: u)).isSome = true → 2 ≤ l.length) := by
  have hname : ∀ tok : Token, ∃ c, tok.name = [c, '='] ∧ c ≠ '\n' := by
    intro tok
    cases tok <;> exact ⟨_, rfl, by decide⟩
  have hfew : ∀ s : CStr, (∀ tok : Token, strncmpEq s tok.name 2 = false) → recognise s = none := by
    intro s hs
    simp [recognise, hs]
  match l with
  | [] =>
    have hnone : ∀ w, recognise ('\n' :: w) = none := by
      refine fun w => hfew _ fun tok => ?_
      obtain ⟨c, hc, hne⟩ := hname tok
      simp [hc, strncmpEq, hne.symm]
    simp [hnone]
  | [d] =>
    have hnone : ∀ w, recognise (d :: '\n' :: w) = none := by
      refine fun w => hfew _ fun tok => ?_
      obtain ⟨c, hc, hne⟩ := hname tok
      rw [hc]
      by_cases hd : d = c
      · subst hd
        cases tok <;> cases hc <;> rfl
      · simp [strncmpEq, hd]
    simp [hnone]
  | d :: e :: l =>
    refine ⟨?_, fun _ => by simp⟩
    simp [recognise, strncmpEq]

variable {σ : ParseState}

theorem lineStep_line {conf : Conf} {tok : Token} {u v : CStr} (hl : IsLine l)
    (htwo : 2 ≤ l.length) (h : ¬(⟨tok, l ++ '\n' :: u, σ⟩ : Visit).Crosses) :
    lineStep conf tok (l ++ '\n' :: u) σ = lineStep conf tok (l ++ '\n' :: v) σ := by
  unfold lineStep
  split_ifs with hd hm
  · rfl
  · rfl
  · have hdrop : ∀ w, (l ++ '\n' :: w).drop 2 = l.drop 2 ++ '\n' :: w := by
      intro w
      rw [List.drop_append_of_le_length htwo]
    have hl' : IsLine (l.drop 2) := hl.of_append (List.take_append_drop 2 l).symm
    obtain ⟨hdesc, hcur, -⟩ := checkOrder_desc conf tok σ
    rw [hdrop, hdrop]
    obtain ⟨hres, hd', -, hstats⟩ := parseToken_agrees conf tok
      (σ.checkOrder conf tok).curLevel (σ.checkOrder conf tok).desc
      (σ.checkOrder conf tok).stats (σ.checkOrder conf tok).stats
      (sameLine_line (l.drop 2) u v) fun htok hlevel => by
        refine plainAgrees_of_not_crosses hl' ?_ u v _
        rw [hdesc, hcur] at hlevel
        rw [hdesc]
        by_contra hcross
        refine h ⟨⟨by simpa using hd, by simpa using hm⟩, htok, hlevel, ?_⟩
        rw [lineText_line hl]
        simpa using hcross
    unfold ParseState.parseLine
    simp only [hres, hd', hstats rfl]

/-! ## Lines of a buffer -/

variable {lines : List CStr}

/-- While no line crosses its end, the state behind the first of the lines does not depend on the text
behind these. -/
theorem parseLoop_lines {conf : Conf} {pre : List CStr} (hpre : pre <+: lines)
    (hlines : ∀ l ∈ lines, IsLine l) {u : CStr}
    (h : ∀ w ∈ visits conf (startsOf u lines) σ, ¬w.Crosses) (v v' next next' : CStr) :
    (parseLoop conf (startsOf v pre) next σ).state = (parseLoop conf (startsOf v' pre) next' σ).state := by
  induction lines generalizing pre next next' σ with
  | nil =>
    obtain rfl := List.prefix_nil.mp hpre
    rfl
  | cons l lines ih =>
    cases pre with
    | nil => rfl
    | cons l' pre =>
      obtain ⟨rfl, hpre'⟩ := List.cons_prefix_cons.mp hpre
      obtain ⟨hl, hlines⟩ := List.forall_mem_cons.mp hlines
      unfold startsOf at h ⊢
      unfold visits at h
      unfold parseLoop
      have hsame : ∀ w, recognise (l' ++ '\n' :: w) =
          recognise (l' ++ '\n' :: (joinLines lines ++ u)) := fun w => (recognise_line l' w _).1
      rw [hsame (joinLines pre ++ v), hsame (joinLines pre ++ v')]
      cases htok : recognise (l' ++ '\n' :: (joinLines lines ++ u)) with
      | none => simp only
      | some tok =>
        have htwo := (recognise_line l' (joinLines lines ++ u) []).2 (by rw [htok]; rfl)
        rw [htok] at h
        dsimp only at h ⊢
        by_cases hv : (!σ.firstLine && tok == .v) = true
        · simp only [hv, if_true]
        · simp only [hv, Bool.false_eq_true, if_false, List.forall_mem_cons] at h ⊢
          have hstep : ∀ w, lineStep conf tok (l' ++ '\n' :: w) σ =
              lineStep conf tok (l' ++ '\n' :: (joinLines lines ++ u)) σ :=
            fun w => (lineStep_line hl htwo h.1).symm
          rw [hstep (joinLines pre ++ v), hstep (joinLines pre ++ v')]
          exact ih hpre' hlines h.2 _ _

/-- Behind a line that does not end the parse, the level is that of the last media line, of which there
is at most one more. -/
theorem Visit.after_synced (conf : Conf) {v : Visit} (hsync : v.before.parseDone = false → v.before.Synced)
    (hroom : v.before.parseDone = false → v.before.desc.mca.length + 1 < 2 ^ 16)
    (hdone : (v.after conf).parseDone = false) :
    v.before.parseDone = false ∧ (v.after conf).Synced ∧
      (v.after conf).desc.mca.length ≤ v.before.desc.mca.length + 1 := by
  have hdone₀ : v.before.parseDone = false := by
    by_contra htrue
    have hsame : v.after conf = v.before := by
      rw [Visit.after, lineStep, if_pos (by simpa using htrue)]
    rw [hsame] at hdone
    exact htrue hdone
  have hfine : v.Fine conf := by
    refine ⟨hdone₀, fun hplaced => ?_⟩
    by_contra herror
    rw [Visit.after_parseDone ⟨hdone₀, hplaced⟩ herror] at hdone
    cases hdone
  obtain ⟨hsync', hstep, -⟩ := Visit.step_of_fine (hsync hdone₀) (hroom hdone₀) hfine
  refine ⟨hdone₀, hsync', ?_⟩
  cases hstep with
  | media htok m hm hdesc =>
    rw [hdesc, List.length_append, List.length_singleton]
  | refused htok hm hdesc =>
    rw [hdesc]
    exact Nat.le_succ _
  | attr htok hdesc =>
    obtain ⟨_, _, _, _, _, hheaders, -⟩ := afterAttr_levels (hsync hdone₀).counted (v.attrLine conf)
    have hlength := congrArg List.length hheaders
    rw [← hdesc] at hlength
    simp only [Desc.headers, List.length_map] at hlength
    omega
  | other hm ha hsame =>
    rw [hsame.length_mca]
    exact Nat.le_succ _

/-- The lines of the first crossing line: before it the state does not depend on the text behind the
lines, and it is the line that does. -/
theorem exists_prefix_of_crosses (conf : Conf) (hlines : ∀ l ∈ lines, IsLine l)
    {u : CStr} (hsync : σ.parseDone = false → σ.Synced)
    (hroom : σ.parseDone = false → σ.desc.mca.length + lines.length < 2 ^ 16)
    (h : ∃ w ∈ visits conf (startsOf u lines) σ, w.Crosses) :
    ∃ pre, pre <+: lines ∧ ∃ l tok σ', IsLine l ∧ 2 ≤ l.length ∧
      (⟨tok, l ++ '\n' :: [], σ'⟩ : Visit).Crosses ∧ σ'.Synced ∧
      ∀ v next, (parseLoop conf (startsOf v pre) next σ).state = lineStep conf tok (l ++ '\n' :: v) σ' := by
  induction lines generalizing σ with
  | nil =>
    obtain ⟨w, hw, -⟩ := h
    simp [visits, startsOf] at hw
  | cons l lines ih =>
    obtain ⟨hl, hlines⟩ := List.forall_mem_cons.mp hlines
    obtain ⟨w, hw, hcross⟩ := h
    unfold startsOf visits at hw
    have hsame : ∀ v, recognise (l ++ '\n' :: v) = recognise (l ++ '\n' :: (joinLines lines ++ u)) :=
      fun v => (recognise_line l v _).1
    cases htok : recognise (l ++ '\n' :: (joinLines lines ++ u)) with
    | none => simp [htok] at hw
    | some tok =>
      have htwo := (recognise_line l (joinLines lines ++ u) []).2 (by rw [htok]; rfl)
      rw [htok] at hw
      dsimp only at hw
      by_cases hv : (!σ.firstLine && tok == .v) = true
      · simp [hv] at hw
      · simp only [hv, Bool.false_eq_true, if_false, List.mem_cons] at hw
        have hloop : ∀ (v : CStr) (ls : List CStr) next, parseLoop conf (startsOf v (l :: ls)) next σ =
            parseLoop conf (startsOf v ls) (nextLine (l ++ '\n' :: (joinLines ls ++ v)))
              (lineStep conf tok (l ++ '\n' :: (joinLines ls ++ v)) σ) := by
          intro v ls next
          rw [startsOf, parseLoop, hsame, htok]
          simp only [hv, Bool.false_eq_true, if_false]
        have hline : ∀ v, lineText (l ++ '\n' :: v) = l := lineText_line hl
        by_cases hhead : (⟨tok, l ++ '\n' :: (joinLines lines ++ u), σ⟩ : Visit).Crosses
        · refine ⟨[l], ⟨lines, rfl⟩, l, tok, σ, hl, htwo, ?_, hsync hhead.1.1, fun v next => ?_⟩
          · obtain ⟨hparsed, htok', hlevel, hvalue⟩ := hhead
            refine ⟨hparsed, htok', hlevel, ?_⟩
            rw [hline] at hvalue ⊢
            exact hvalue
          · rw [hloop]
            simp only [startsOf, joinLines, List.nil_append, parseLoop]
        · have hstep : ∀ v, lineStep conf tok (l ++ '\n' :: v) σ =
              lineStep conf tok (l ++ '\n' :: (joinLines lines ++ u)) σ :=
            fun v => (lineStep_line hl htwo hhead).symm
          have hrest := hw.resolve_left (by rintro rfl; exact hhead hcross)
          have hnext : (lineStep conf tok (l ++ '\n' :: (joinLines lines ++ u)) σ).parseDone = false →
              (lineStep conf tok (l ++ '\n' :: (joinLines lines ++ u)) σ).Synced ∧
                (lineStep conf tok (l ++ '\n' :: (joinLines lines ++ u)) σ).desc.mca.length +
                  lines.length < 2 ^ 16 := by
            intro hdone
            simp only [List.length_cons] at hroom
            obtain ⟨hdone₀, hsync', hlength⟩ := Visit.after_synced conf
              (v := ⟨tok, l ++ '\n' :: (joinLines lines ++ u), σ⟩) hsync
              (fun hdone₀ => by have := hroom hdone₀; dsimp only; omega) hdone
            have := hroom hdone₀
            refine ⟨hsync', Nat.lt_of_le_of_lt (Nat.add_le_add_right hlength _) ?_⟩
            dsimp only
            omega
          obtain ⟨pre, hpre, l', tok', σ', hl', htwo', hcross', hsync', hstate⟩ :=
            ih hlines (fun hdone => (hnext hdone).1) (fun hdone => (hnext hdone).2) ⟨w, hrest, hcross⟩
          refine ⟨l :: pre, (List.prefix_cons_inj l).mpr hpre, l', tok', σ', hl', htwo', hcross', hsync',
            fun v next => ?_⟩
          rw [hloop, hstep, hstate]

/-- The attributes of the level that the next line belongs to. -/
def ParseState.attrs (σ : ParseState) : Option (List LevelAttr) := σ.desc.attrsOf σ.curLevel

/-- The state of a parse behind the first `k` lines. -/
def stateBehind (conf : Conf) (st : Stats) (buf : CStr) (len : UInt16) (k : ℕ) : ParseState :=
  (parseLoop conf ((lineStarts len.toNat buf).take k) buf (parseStart {} st)).state

/-- The attributes behind the lines do not depend on the text that follows them. -/
def LinesIsolated (conf : Conf) (st : Stats) (lines : List CStr) : Prop :=
  ∀ (u v : CStr) (len len' : UInt16), (joinLines lines).length ≤ len.toNat →
    (joinLines lines).length ≤ len'.toNat →
    (stateBehind conf st (joinLines lines ++ u) len lines.length).attrs =
      (stateBehind conf st (joinLines lines ++ v) len' lines.length).attrs

/-- The lines of a buffer. A line may end with a carriage return, in front of the line feed that is
not part of it. -/
structure BufferLines where
  lines : List CStr
  isLine : ∀ l ∈ lines, IsLine l
  fits : (joinLines lines).length < 2 ^ 16

theorem stateBehind_eq (conf : Conf) (st : Stats) (hlines : ∀ l ∈ lines, IsLine l) (u : CStr) {len : UInt16}
    (hlen : (joinLines lines).length ≤ len.toNat) :
    stateBehind conf st (joinLines lines ++ u) len lines.length =
      (parseLoop conf (startsOf u lines) (joinLines lines ++ u) (parseStart {} st)).state := by
  rw [stateBehind, take_lineStarts hlines u hlen]

theorem attrs_of_crosses (conf : Conf) {tok : Token} (hl : IsLine l)
    (htwo : 2 ≤ l.length) (h : (⟨tok, l ++ '\n' :: [], σ⟩ : Visit).Crosses) (hsync : σ.Synced) :
    (lineStep conf tok (l ++ '\n' :: "k=0\n".toList) σ).attrs ≠
      (lineStep conf tok (l ++ '\n' :: "k=1\n".toList) σ).attrs := by
  obtain ⟨hparsed, htok, hlevel, hvalue⟩ := h
  rw [lineText_line hl] at hvalue
  have hl' : IsLine (l.drop 2) := hl.of_append (List.take_append_drop 2 l).symm
  have hdrop : ∀ w, (l ++ '\n' :: w).drop 2 = l.drop 2 ++ '\n' :: w := fun w => List.drop_append_of_le_length htwo
  have hattrs : ∀ w, (lineStep conf tok (l ++ '\n' :: w) σ).attrs =
      (parseAttribute conf σ.curLevel (l.drop 2 ++ '\n' :: w) σ.desc
        σ.stats.numInvalidParam).2.1.attrsOf σ.curLevel := by
    intro w
    have hparsed' : (⟨tok, l ++ '\n' :: w, σ⟩ : Visit).Parsed := hparsed
    have hdesc := Visit.after_desc_of_attr conf hparsed' htok
    have hcur := Visit.after_curLevel conf hparsed'
    rw [if_neg (by rw [show tok = .a from htok]; nofun)] at hcur
    rw [← hdrop]
    exact congrArg₂ Desc.attrsOf hdesc hcur
  obtain ⟨hrefused, a, htaken⟩ := parseAttribute_of_crosses conf hl' hlevel hvalue σ.stats.numInvalidParam
  rw [hattrs, hattrs, hrefused]
  obtain ⟨attrs, hlist⟩ := Option.isSome_iff_exists.mp hlevel
  rcases htaken with htaken | ⟨t, i, hcap, htaken⟩
  · rw [htaken, attrsOf_updateAttrs, hlist]
    simp
  · obtain ⟨attrs', hlist', hne⟩ := modify_attach_ne hcap a
    rw [htaken, hsync.curLevel, attrsOf_updateAttrs, hlist']
    simpa using hne.symm

/-- **The lines of a buffer are isolated from what follows them exactly when no format parameters on
them are read across the line feed that ends their line.** -/
theorem parse_isolated_iff (conf : Conf) (st : Stats) (b : BufferLines) :
    (∀ lines, lines <+: b.lines → LinesIsolated conf st lines) ↔
      ∀ w ∈ visits conf (startsOf [] b.lines) (parseStart {} st), ¬w.Crosses := by
  have hsub : ∀ {pre : List CStr}, pre <+: b.lines → (∀ l ∈ pre, IsLine l) :=
    fun hpre l hl => b.isLine l (hpre.subset hl)
  refine ⟨fun h w hw hcross => ?_, fun h pre hpre u v len len' hlen hlen' => ?_⟩
  · have hlength := length_le_joinLines b.lines
    have hfits := b.fits
    obtain ⟨pre, hpre, l, tok, σ, hl, htwo, hcross, hsync, hstate⟩ :=
      exists_prefix_of_crosses conf b.isLine
        (fun _ => (parseStart_synced st).1)
        (fun _ => by simp only [parseStart, List.length_nil]; omega)
        ⟨w, hw, hcross⟩
    have hjoin : (joinLines pre).length < 2 ^ 16 := by
      obtain ⟨post, hpost⟩ := hpre
      rw [← hpost, joinLines_append, List.length_append] at hfits
      omega
    have hlen : (joinLines pre).length ≤ (UInt16.ofNat (joinLines pre).length).toNat := by
      rw [UInt16.toNat_ofNat_of_lt' hjoin]
    have hsame := h pre hpre "k=0\n".toList "k=1\n".toList _ _ hlen hlen
    rw [stateBehind_eq conf st (hsub hpre) _ hlen, stateBehind_eq conf st (hsub hpre) _ hlen, hstate,
      hstate] at hsame
    exact attrs_of_crosses conf hl htwo hcross hsync hsame
  · have hlines := hsub hpre
    rw [stateBehind_eq conf st hlines u hlen, stateBehind_eq conf st hlines v hlen',
      parseLoop_lines hpre b.isLine h u v]

/-- The lines of a description whose last attribute ends with a parameter of the second chain. -/
def fmtpLines : List CStr :=
  ["v=0", "o=- 1 1 IN IP4 h", "s=-", "c=IN IP4 h", "t=0 0", "m=audio 9 RTP/AVP 96",
    "a=fmtp:96 max-mbps=1000"]

/-- The description is accepted with and without a line for the encryption key, but with that line
the format parameters in front of it are lost. -/
theorem not_linesIsolated_fmtpLines :
    (parse sipSdpInit {} {} (joinLines fmtpLines) 87).result = .success ∧
      (parse sipSdpInit {} {} (joinLines fmtpLines ++ "k=clear:x\n".toList) 97).result = .success ∧
      ¬LinesIsolated sipSdpInit {} fmtpLines := by
  refine ⟨by decide, by decide, fun h => ?_⟩
  have hsame := h [] "k=clear:x\n".toList 87 97 (by decide) (by decide)
  revert hsame
  decide

end Sdp
