import Ikran.Sdp.Frame

/-!
# Independence of earlier messages

The error counts outlive a message. A parse that starts with other counts goes over the same lines,
and comes to the same result and description, unless an `a=direction` line looks at the count.
-/

namespace Sdp

open CStr Line

/-! ## The count that is read -/

/-- The value of `a=direction` has a role that is not passive, and a further token. -/
def lastCheckReached (s : CStr) : Bool :=
  match token ": \t" maxStringLen s with
  | (some tmp, s) =>
    match findName MediadirRole.all MediadirRole.tableName tmp with
    | some role => role != .passive && (token blanks maxStringLen s).1.isSome
    | none => false
  | (none, _) => false

theorem comediadirConn_ok (conf : Conf) (tmp s : CStr) (n : UInt32) :
    ∃ v, ((comediadirConn conf tmp).run s n).1 = .ok v := by
  have htmp : ∀ tmp, (nextTmp tmp).Ensures (fun _ => True) (fun _ => False) := by
    intro tmp
    refine (LineParser.Ensures.token _ _).bind fun o _ => ?_
    cases o with
    | none => exact LineParser.Ensures.count.bind fun _ _ => LineParser.Ensures.pure trivial
    | some tok => exact LineParser.Ensures.pure trivial
  have hall : (comediadirConn conf tmp).Ensures (fun _ => True) (fun _ => False) := by
    have hnum : (getNextNumTok blanks).Ensures (fun _ => True) (fun _ => False) := by
      refine (LineParser.Ensures.token _ _).bind fun o _ => ?_
      cases o <;> exact LineParser.Ensures.pure trivial
    exact (LineParser.Ensures.countIf _).bind fun _ _ => (htmp _).bind fun _ _ =>
      (LineParser.Ensures.countIf _).bind fun _ _ => (htmp _).bind fun _ _ =>
      hnum.bind fun _ _ => (LineParser.Ensures.countIf _).bind fun _ _ =>
      LineParser.Ensures.pure trivial
  cases hrun : ((comediadirConn conf tmp).run s n).1 with
  | ok v => exact ⟨v, rfl⟩
  | error e => exact ((hall s n).2 e hrun).elim

theorem comediadirLine_lastCheck (conf : Conf) (s : CStr) (n : UInt32) :
    lastCheckReached s = true ↔ ∃ v, ((comediadirLine conf).run s n).1 = .ok (v, true) := by
  unfold lastCheckReached comediadirLine parseRole
  simp only [LineParser.run_bind, run_getNextStrTok]
  rcases token ": \t" maxStringLen s with ⟨_ | tmp, s⟩
  · simp
  · simp only [run_orInvalid_some]
    cases findName MediadirRole.all MediadirRole.tableName tmp with
    | none => simp
    | some role =>
      simp only [run_orInvalid_some]
      by_cases hrole : role = .passive
      · simp [hrole]
      · simp only [hrole, if_false, LineParser.run_bind, run_getNextStrTok]
        rcases token blanks maxStringLen s with ⟨_ | tmp, s⟩
        · simp
        · obtain ⟨v, hv⟩ := comediadirConn_ok conf tmp s n
          rcases hrun : (comediadirConn conf tmp).run s n with ⟨o, u, k⟩
          obtain rfl : o = .ok v := by rwa [hrun] at hv
          simp [hrole, hrun]

variable {s : CStr} {conf : Conf}

theorem parseAttrComediadir_agree (h : lastCheckReached s = false) (n n' : UInt32) :
    (parseAttrComediadir conf s n).Agree n n' (parseAttrComediadir conf s n') := by
  have hnot : ∀ v, ((comediadirLine conf).run s 0).1 ≠ .ok (v, true) := by
    intro v hv
    rw [(comediadirLine_lastCheck conf s 0).mpr ⟨v, hv⟩] at h
    cases h
  unfold parseAttrComediadir outcomeOf
  rw [(comediadirLine conf).run_eq s n, (comediadirLine conf).run_eq s n']
  have hcount : ∀ k : UInt32, n + k - n = n' + k - n' := by
    intro k
    grind
  rcases hrun : (comediadirLine conf).run s 0 with ⟨e | ⟨v, lastCheck⟩, u, k⟩
  · exact ⟨rfl, hcount k⟩
  · cases lastCheck with
    | true => exact absurd (by rw [hrun]) (hnot v)
    | false => exact ⟨rfl, hcount k⟩

/-- A last check that is reached accepts the line exactly when no error has been counted, on the line
or before it. -/
theorem parseAttrComediadir_of_lastCheck (conf : Conf) (h : lastCheckReached s = true) :
    ∃ k v, ∀ n, (parseAttrComediadir conf s n).1 =
      if n + k = 0 then .ok (.comediadir v) else .error .invalidParameter := by
  obtain ⟨v, hv⟩ := (comediadirLine_lastCheck conf s 0).mp h
  refine ⟨((comediadirLine conf).run s 0).2.2, v, fun n => ?_⟩
  unfold parseAttrComediadir outcomeOf
  rw [(comediadirLine conf).run_eq s n, hv]
  have hpos : 0 < n + ((comediadirLine conf).run s 0).2.2 ↔ n + ((comediadirLine conf).run s 0).2.2 ≠ 0 := by
    grind
  by_cases hzero : n + ((comediadirLine conf).run s 0).2.2 = 0
  · simp [hzero]
  · simp [hzero, hpos]

theorem fmtpLoop_agree (fuel : ℕ) (s : CStr) (n n' : UInt32) (f : Fmtp) (found : Bool) :
    AttrOutcome.Agree n n' (fmtpLoop fuel s n f found) (fmtpLoop fuel s n' f found) := by
  induction fuel generalizing s n n' f found with
  | zero => exact ⟨rfl, by simp [fmtpLoop]⟩
  | succ fuel ih =>
    unfold fmtpLoop
    rw [(fmtpParam f).run_eq s n, (fmtpParam f).run_eq s n']
    have hcount : ∀ k : UInt32, n + k - n = n' + k - n' := by
      intro k
      grind
    rcases (fmtpParam f).run s 0 with ⟨e | _ | ⟨f, found', done⟩, u, k⟩
    · exact ⟨rfl, hcount k⟩
    · exact ⟨rfl, hcount k⟩
    · dsimp only
      split_ifs
      · exact ⟨rfl, hcount k⟩
      · obtain ⟨hout, herr⟩ := ih u.tail (n + k) (n' + k) f (found || found')
        exact ⟨hout, offset_trans (hcount k) herr⟩

theorem parseAttrFmtp_agree (s : CStr) (n n' : UInt32) :
    AttrOutcome.Agree n n' (parseAttrFmtp s n) (parseAttrFmtp s n') := by
  unfold parseAttrFmtp
  rw [(getNextNum blanks).run_eq s n, (getNextNum blanks).run_eq s n']
  have hkeep : ∀ k : UInt32, n + k - n = n' + k - n' := by
    intro k
    grind
  have hone : ∀ m m' : UInt32, m + 1 - m = m' + 1 - m' := by
    intro m m'
    grind
  rcases (getNextNum blanks).run s 0 with ⟨e | _ | num, u, k⟩
  · exact ⟨rfl, offset_trans (hkeep k) (hone _ _)⟩
  · exact ⟨rfl, offset_trans (hkeep k) (hone _ _)⟩
  · dsimp only
    split_ifs
    · exact ⟨rfl, hkeep k⟩
    · unfold parseFmtpParams
      obtain ⟨o, m, m', hp, hp', herr⟩ := (fmtpLoop_agree _ _ (n + k) (n' + k) _ _).exists_eq
      rw [hp, hp']
      have hloop := offset_trans (hkeep k) herr
      rcases o with e | ⟨f, _ | _⟩
      · exact ⟨rfl, hloop⟩
      · cases hevents : parseFmtpEvents f (u.takeWhile (· != nul)) with
        | none => exact ⟨by simp [hevents], by simpa [hevents] using offset_trans hloop (hone m m')⟩
        | some f => exact ⟨by simp [hevents], by simpa [hevents] using hloop⟩
      · exact ⟨rfl, hloop⟩

/-! ## Attribute lines -/

/-- The value of the plain attribute on the line makes the parser look at the count. -/
def readsCount (d : Desc) (s : CStr) : Bool :=
  match (plainLine d).run s 0 with
  | (.ok .comediadir, s, _) => lastCheckReached s
  | _ => false

variable {d : Desc}

theorem plainAgrees_of_not_readsCount (h : readsCount d s = false) (n n' : UInt32) : PlainAgrees conf d s s n n' := by
  refine plainAgrees_of_isolated (SameLine.refl s) fun t ht hopen => ?_
  unfold readsCount at h
  rw [(plainLine d).run_eq s n] at ht ⊢
  rw [(plainLine d).run_eq s n']
  rcases hrun : (plainLine d).run s 0 with ⟨o, u, k⟩
  rw [hrun] at h ht
  obtain rfl : o = .ok t := ht
  cases t with
  | fmtp => exact parseAttrFmtp_agree u _ _
  | comediadir => exact parseAttrComediadir_agree h _ _
  | _ => simp [PlainType.isOpen] at hopen

theorem attrsOf_updateAttrs (d : Desc) (level : Level) (f : List LevelAttr → List LevelAttr) :
    (d.updateAttrs level f).attrsOf level = (d.attrsOf level).map f := by
  cases level with
  | session => rfl
  | media k =>
    simp only [Desc.attrsOf, Desc.updateAttrs, Desc.updateMedia, Desc.findMediaLevel]
    by_cases hk : 1 ≤ k ∧ k ≤ d.mcaCount.toNat
    · simp [hk, Option.map_map, Function.comp_def]
    · simp [hk]

theorem type_of_findAttrIdx {type : AttrType} {inst : ℕ} {attrs : List LevelAttr} {i : ℕ}
    (h : findAttrIdx type inst attrs = some i) : ∃ a, attrs[i]? = some a ∧ a.type = type := by
  induction attrs generalizing inst i with
  | nil => cases inst <;> cases h
  | cons a attrs ih =>
    cases inst with
    | zero => cases h
    | succ inst =>
      simp only [findAttrIdx] at h
      split_ifs at h with htype hzero
      · obtain rfl : 0 = i := by simpa using h
        exact ⟨a, rfl, htype⟩
      · obtain ⟨j, hj, rfl⟩ := Option.map_eq_some_iff.mp h
        simpa using ih hj
      · obtain ⟨j, hj, rfl⟩ := Option.map_eq_some_iff.mp h
        simpa using ih hj

theorem updateAttrs_ne {level : Level} {attrs : List LevelAttr}
    {f : List LevelAttr → List LevelAttr} (hattrs : d.attrsOf level = some attrs)
    (hf : f attrs ≠ attrs) : d.updateAttrs level f ≠ d := by
  intro heq
  have hlevel := attrsOf_updateAttrs d level f
  rw [heq, hattrs] at hlevel
  exact hf (by simpa using hlevel.symm)

theorem modify_attach_ne {t : CapType} {i : ℕ} (h : findCap t d = some i) (a : Attr) :
    ∃ attrs, d.attrsOf d.lastLevel = some attrs ∧ attrs.modify i (attach a) ≠ attrs := by
  unfold findCap findAttr at h
  split_ifs at h
  obtain ⟨attrs, hattrs, hidx⟩ := Option.bind_eq_some_iff.mp h
  obtain ⟨b, hb, htype⟩ := type_of_findAttrIdx hidx
  refine ⟨attrs, hattrs, fun heq => ?_⟩
  have hget := congrArg (fun l => l[i]?) heq
  cases b with
  | plain a => cases htype
  | cap t capP =>
    have hcap : attach a (.cap t capP) = .cap t capP := by simpa [hb] using hget
    have hlen := congrArg (fun capP => capP.attrs.length) (LevelAttr.cap.inj hcap).2
    simp at hlen

theorem attach_findCap_ne {t : CapType} {i : ℕ} (h : findCap t d = some i) (a : Attr) :
    d.updateAttrs d.lastLevel (·.modify i (attach a)) ≠ d := by
  obtain ⟨attrs, hattrs, hne⟩ := modify_attach_ne h a
  exact updateAttrs_ne hattrs hne

/-- A line whose value makes the parser look at the count adds an attribute exactly when no error has
been counted. -/
theorem parseAttribute_of_readsCount (conf : Conf) {level : Level}
    (hlevel : d.hasLevel level = true) (h : readsCount d s = true) :
    ∃ k d', d' ≠ d ∧ ∀ n, (parseAttribute conf level s d n).2.1 = if n + k = 0 then d' else d := by
  simp only [parseAttribute_desc conf s _ hlevel]
  unfold readsCount at h
  have hrun : (plainLine d).run s 0 = _ := LineParser.run_bind ..
  rw [hrun] at h
  unfold readAttr
  rcases hname : attrName.run s 0 with ⟨e | _ | tmp, u, k⟩
  · simp [hname] at h
  · simp [hname] at h
  · have hrun : ∀ n, attrName.run s n = (.ok (some tmp), u, n + k) := by
      intro n
      rw [attrName.run_eq, hname]
    simp only [hrun]
    rw [hname] at h
    dsimp only [plainBehind] at h
    cases htype : findName AttrType.all AttrType.name tmp with
    | none => simp [htype] at h
    | some type =>
      rw [htype] at h
      cases type with
      | plain t =>
        cases t with
        | comediadir =>
          obtain ⟨k', v, hv⟩ := parseAttrComediadir_of_lastCheck conf (s := u) h
          obtain ⟨attrs, hattrs⟩ := Option.isSome_iff_exists.mp hlevel
          refine ⟨k + k', d.updateAttrs level (· ++ [.plain (.comediadir v)]),
            updateAttrs_ne hattrs (by simp), fun n => ?_⟩
          have hvalue : (parsePlain conf .comediadir u (n + k)).1 = _ := hv (n + k)
          dsimp only
          rw [hvalue, UInt32.add_assoc]
          split_ifs <;> rfl
        | _ => cases h
      | cap t => cases h
      | cpar t =>
        cases hcap : findCap t d with
        | none => simp [hcap] at h
        | some i =>
          simp only [hcap, Option.isSome_some, if_true] at h
          unfold cparAttr
          rw [cparLine.run_eq u k] at h
          rcases hcpar : cparLine.run u 0 with ⟨e | t', u', m⟩
          · simp [hcpar] at h
          · have hrun : ∀ n, cparLine.run u n = (.ok t', u', n + m) := by
              intro n
              rw [cparLine.run_eq, hcpar]
            simp only [hrun]
            rw [hcpar] at h
            cases t' with
            | comediadir =>
              obtain ⟨k', v, hv⟩ := parseAttrComediadir_of_lastCheck conf (s := u') h
              refine ⟨k + m + k', d.updateAttrs d.lastLevel (·.modify i (attach (.comediadir v))),
                attach_findCap_ne hcap _, fun n => ?_⟩
              have hvalue : (parsePlain conf .comediadir u' (n + k + m)).1 = _ := hv (n + k + m)
              have hsum : n + k + m + k' = n + (k + m + k') := by grind
              rw [hvalue, hsum]
              split_ifs
              · simp [Except.toOption, Desc.afterAttr, hcap]
              · rfl
            | _ => cases h

/-! ## Lines of a message -/

/-- The state with other counts. -/
def ParseState.withStats (σ : ParseState) (st : Stats) : ParseState := { σ with stats := st }

/-- The line is parsed, and its value makes the parser look at the count. -/
def Visit.ReadsCount (v : Visit) : Prop :=
  v.Parsed ∧ v.tok = .a ∧ v.before.desc.hasLevel v.before.curLevel = true ∧
    readsCount v.before.desc (v.text.drop 2) = true

theorem checkOrder_withStats (conf : Conf) (tok : Token) (σ : ParseState) (st : Stats) :
    ∃ st', (σ.withStats st).checkOrder conf tok = (σ.checkOrder conf tok).withStats st' := by
  unfold ParseState.checkOrder
  have hfirst : (σ.withStats st).firstLine = σ.firstLine := rfl
  have hlast : (σ.withStats st).lastToken = σ.lastToken := rfl
  rw [hfirst, hlast]
  split_ifs <;> exact ⟨_, rfl⟩

theorem parseLine_withStats {tok : Token} {σ : ParseState}
    (h : tok = .a → σ.desc.hasLevel σ.curLevel = true → readsCount σ.desc s = false) (st : Stats) :
    ∃ st', (σ.withStats st).parseLine conf tok s = (σ.parseLine conf tok s).withStats st' := by
  obtain ⟨hres, hdesc, -, -⟩ := parseToken_agrees conf tok σ.curLevel σ.desc st σ.stats (SameLine.refl s)
    fun htok hlevel => plainAgrees_of_not_readsCount (h htok hlevel) _ _
  refine ⟨(parseToken conf tok σ.curLevel s σ.desc st).2.2, ?_⟩
  unfold ParseState.parseLine
  simp only [ParseState.withStats, hres, hdesc]

theorem lineStep_withStats (conf : Conf) {tok : Token} {σ : ParseState}
    (h : ¬(⟨tok, s, σ⟩ : Visit).ReadsCount) (st : Stats) :
    ∃ st', lineStep conf tok s (σ.withStats st) = (lineStep conf tok s σ).withStats st' := by
  unfold lineStep
  have hdone : (σ.withStats st).parseDone = σ.parseDone := rfl
  have hlevel : (σ.withStats st).curLevel = σ.curLevel := rfl
  rw [hdone, hlevel]
  split_ifs with hd hm
  · exact ⟨st, rfl⟩
  · exact ⟨_, rfl⟩
  · obtain ⟨st₁, hcheck⟩ := checkOrder_withStats conf tok σ st
    obtain ⟨hdesc, hcur, -⟩ := checkOrder_desc conf tok σ
    rw [hcheck]
    refine parseLine_withStats (fun htok hlevel => ?_) st₁
    rw [hdesc, hcur] at hlevel
    rw [hdesc]
    by_contra hreads
    exact h ⟨⟨by simpa using hd, by simpa using hm⟩, htok, hlevel, by simpa using hreads⟩

/-- A parse goes over the same lines, and comes to the same state but for the counts, when none of
them looks at the count. -/
theorem parseLoop_withStats {lines : List CStr} (next : CStr) {σ : ParseState}
    (h : ∀ v ∈ visits conf lines σ, ¬v.ReadsCount) (st : Stats) :
    (∃ st', parseLoop conf lines next (σ.withStats st) = { parseLoop conf lines next σ with
        state := (parseLoop conf lines next σ).state.withStats st' }) ∧
    ∀ w ∈ visits conf lines (σ.withStats st), ∃ v ∈ visits conf lines σ, ∃ st',
      w = { v with before := v.before.withStats st' } := by
  induction lines generalizing next σ st with
  | nil => exact ⟨⟨st, rfl⟩, by simp [visits]⟩
  | cons s lines ih =>
    unfold visits at h ⊢
    unfold parseLoop
    have hfirst : (σ.withStats st).firstLine = σ.firstLine := rfl
    rw [hfirst]
    cases htok : recognise s with
    | none => exact ⟨⟨st, rfl⟩, by simp⟩
    | some tok =>
      rw [htok] at h
      dsimp only at h ⊢
      cases hv : !σ.firstLine && tok == .v with
      | true => exact ⟨⟨st, rfl⟩, by simp⟩
      | false =>
        simp only [hv, Bool.false_eq_true, if_false, List.forall_mem_cons] at h ⊢
        obtain ⟨hnot, hrest⟩ := h
        obtain ⟨st', hstep⟩ := lineStep_withStats conf hnot st
        rw [hstep]
        obtain ⟨hloop, hvisits⟩ := ih (nextLine s) hrest st'
        refine ⟨hloop, ⟨_, List.mem_cons_self, st, rfl⟩, fun w hw => ?_⟩
        obtain ⟨v, hv, hw⟩ := hvisits w hw
        exact ⟨v, List.mem_cons_of_mem _ hv, hw⟩

/-! ## Messages -/

/-- A message is parsed independently of the counts that earlier messages left. -/
structure HistoryIndependent (conf : Conf) (buf : CStr) (len : UInt16) : Prop where
  message : ∀ st st', (parse conf {} st buf len).result = (parse conf {} st' buf len).result ∧
    (parse conf {} st buf len).desc = (parse conf {} st' buf len).desc
  line : ∀ st, ∀ v ∈ parseVisits conf {} st buf len, ∀ st',
    (lineStep conf v.tok v.text (v.before.withStats st')).result = (v.after conf).result ∧
      (lineStep conf v.tok v.text (v.before.withStats st')).desc = (v.after conf).desc

theorem Visit.ReadsCount.exists_ne {v : Visit} (h : v.ReadsCount) (conf : Conf) :
    ∃ st st', (lineStep conf v.tok v.text (v.before.withStats st)).desc ≠
      (lineStep conf v.tok v.text (v.before.withStats st')).desc := by
  obtain ⟨⟨hdone, hplaced⟩, htok, hlevel, hreads⟩ := h
  obtain ⟨k, d', hne, hdesc⟩ := parseAttribute_of_readsCount conf hlevel hreads
  have hstep : ∀ st, (lineStep conf v.tok v.text (v.before.withStats st)).desc =
      if st.numInvalidParam + k = 0 then d' else v.before.desc := by
    intro st
    have hparsed : ({ v with before := v.before.withStats st } : Visit).Parsed := ⟨hdone, hplaced⟩
    exact (Visit.after_desc_of_attr conf hparsed htok).trans (hdesc _)
  refine ⟨{ numInvalidParam := 0 - k }, { numInvalidParam := 1 - k }, ?_⟩
  have hzero : (0 - k : UInt32) + k = 0 := by grind
  have hone : (1 - k : UInt32) + k ≠ 0 := by
    have : (1 - k : UInt32) + k = 1 := by grind
    rw [this]
    decide
  rw [hstep, hstep, if_pos hzero, if_neg hone]
  exact hne

theorem finish_withStats (conf : Conf) (buf : CStr) (e : LoopEnd) (st : Stats) :
    (finish conf buf { e with state := e.state.withStats st }).result = (finish conf buf e).result ∧
      (finish conf buf { e with state := e.state.withStats st }).desc = (finish conf buf e).desc := by
  unfold finish
  cases hfirst : e.state.firstLine <;>
    simp only [ParseState.withStats, hfirst, Bool.false_eq_true, if_false, if_true, and_self]

/-- **A message is parsed independently of the counts exactly when none of its lines is an
`a=direction` line that looks at them.** -/
theorem parse_history_iff (conf : Conf) (buf : CStr) (len : UInt16) :
    HistoryIndependent conf buf len ↔
      ∀ v ∈ parseVisits conf {} {} buf len, ¬v.ReadsCount := by
  refine ⟨fun h v hv hreads => ?_, fun h => ?_⟩
  · obtain ⟨st, st', hne⟩ := hreads.exists_ne conf
    have hline := h.line {} v hv
    exact hne ((hline st).2.trans (hline st').2.symm)
  · -- every parse is compared with the one whose counts are zero
    have hstart : ∀ st, parseStart {} st = (parseStart {} {}).withStats (parseStart {} st).stats :=
      fun _ => rfl
    have hparse : ∀ st, (parse conf {} st buf len).result = (parse conf {} {} buf len).result ∧
        (parse conf {} st buf len).desc = (parse conf {} {} buf len).desc := by
      intro st
      obtain ⟨⟨st', hloop⟩, -⟩ := parseLoop_withStats buf h (parseStart {} st).stats
      unfold parse
      rw [hstart, hloop]
      exact finish_withStats conf buf _ st'
    refine ⟨fun st st' => ?_, fun st w hw st' => ?_⟩
    · obtain ⟨hres, hdesc⟩ := hparse st
      obtain ⟨hres', hdesc'⟩ := hparse st'
      exact ⟨hres.trans hres'.symm, hdesc.trans hdesc'.symm⟩
    · obtain ⟨v, hv, st₁, rfl⟩ :=
        (parseLoop_withStats buf h (parseStart {} st).stats).2 w hw
      obtain ⟨st₂, hstep⟩ := lineStep_withStats conf (h v hv) st'
      obtain ⟨st₃, hstep'⟩ := lineStep_withStats conf (h v hv) st₁
      have hafter : lineStep conf v.tok v.text ((v.before.withStats st₁).withStats st') =
          (lineStep conf v.tok v.text v.before).withStats st₂ := hstep
      simp only [Visit.after, hafter, hstep']
      exact ⟨rfl, rfl⟩

/-- A message with a media direction. -/
def directionText : CStr :=
  "v=0\r\no=- 1 1 IN IP4 h\r\ns=-\r\nc=IN IP4 h\r\nt=0 0\r\na=direction:active IN IP4 h 9\r\n"

/-- The attribute is there when the message is the first one, and left out when a parameter of an
earlier message was invalid. -/
theorem not_historyIndependent_directionText :
    (parse sipSdpInit {} {} directionText 78).desc.sessAttrs.map LevelAttr.type =
        [.plain .comediadir] ∧
      (parse sipSdpInit {} { numInvalidParam := 1 } directionText 78).desc.sessAttrs = [] ∧
      ¬HistoryIndependent sipSdpInit directionText 78 := by
  have hfirst : (parse sipSdpInit {} {} directionText 78).desc.sessAttrs.map LevelAttr.type =
      [.plain .comediadir] := by
    decide
  have hlater : (parse sipSdpInit {} { numInvalidParam := 1 } directionText 78).desc.sessAttrs =
      [] := by
    decide
  refine ⟨hfirst, hlater, fun h => ?_⟩
  have hdesc := (h.message {} { numInvalidParam := 1 }).2
  rw [hdesc, hlater] at hfirst
  cases hfirst

end Sdp
