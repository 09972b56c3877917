import Ikran.Dialplan.Template

/-!
# The text of a dial plan

The tokens of `util_parse.c`, and the functions of `dialplan.c` that read the templates of a dial plan from
them. A tokenizer call writes a value to the buffer of its caller, which cuts it.

A loop over the tokens has fuel, and `none` stands for a loop that is not over.
-/

namespace Dialplan

open CStr

/-- `XMLToken`, with the value of a string and of a keyword. -/
inductive XmlToken
  | err | eof | lbracket | endlbracket | emptybracket | rbracket | eq
  | str (value : CStr)
  | keyword (value : CStr)
  deriving DecidableEq

/-- The value as it is in a buffer. -/
def XmlToken.cut (maxlen : ℕ) : XmlToken → XmlToken
  | .str value => .str (value.take (maxlen - 1))
  | .keyword value => .keyword (value.take (maxlen - 1))
  | tok => tok

/-- The characters behind the first one of a keyword. -/
def isKeywordChar (c : Char) : Bool := c.isAlphanum || c = '-' || c = '}'

/-- The loop over the characters in front of a token. The flag is set inside of a comment. The text behind the
token is `none` where the pointer of the caller is left as it was. -/
def scanToken : Bool → CStr → XmlToken × Option CStr
  | _, [] => (.eof, none)
  | true, c :: s => scanToken (decide (c ≠ '>')) s
  | false, c :: s =>
    if isSpace c then scanToken false s
    else if c = '<' then
      if peek s = '/' then (.endlbracket, some s.tail)
      else if peek s ≠ '!' then (.lbracket, some s)
      else scanToken true s
    else if c = '/' ∧ peek s = '>' then (.emptybracket, some s.tail)
    else if c = '>' then (.rbracket, some s)
    else if c = '=' then (.eq, some s)
    else if c = '"' then
      if '"' ∈ s then (.str (s.takeWhile (· ≠ '"')), some (s.dropWhile (· ≠ '"')).tail) else (.eof, some [])
    else if c.isAlphanum ∨ c = '{' then
      (.keyword (c :: s.takeWhile isKeywordChar), some (s.dropWhile isKeywordChar))
    else (.err, some s)

/-- The next token of a text, with all of its characters, and the text behind it. -/
def nextToken (s : CStr) : XmlToken × CStr := ((scanToken false s).1, (scanToken false s).2.getD s)

def parseXmlTokens (maxlen : ℕ) (s : CStr) : XmlToken × CStr := ((nextToken s).1.cut maxlen, (nextToken s).2)

/-! ## Attributes -/

inductive DialKeyword
  | matchKey | line | timeout | user | rewrite | route | tone
  deriving DecidableEq

/-- The attribute that a keyword stands for. -/
def dialKeyword (buffer : CStr) : Option DialKeyword :=
  if strcaseEq buffer "MATCH" then some .matchKey
  else if strcaseEq buffer "LINE" then some .line
  else if strcaseEq buffer "TIMEOUT" then some .timeout
  else if strcaseEq buffer "USER" then some .user
  else if strcaseEq buffer "REWRITE" then some .rewrite
  else if strcaseEq buffer "ROUTE" then some .route
  else if strcaseEq buffer "TONE" then some .tone
  else none

inductive ParseDialState
  | any
  | got (a : DialKeyword)
  | gotEq (a : DialKeyword)
  | startTagCompleted | endTagStarted | endTagFound
  deriving DecidableEq

def maxTemplateLength : ℕ := 196

def maxDpVersionStampLen : ℕ := 65

/-- `tone_names`, for the tones below `VCM_MAX_DIALTONE`. -/
def toneNames : List (CStr × Tone) :=
  [("Bellcore-Inside", .insideDialTone), ("Bellcore-Outside", .outsideDialTone),
    ("Bellcore-Busy", .lineBusyTone), ("Bellcore-Alerting", .alertingTone),
    ("Bellcore-BusyVerify", .busyVerifyTone), ("Bellcore-Stutter", .stutterTone),
    ("Bellcore-MsgWaiting", .msgWaitingTone), ("Bellcore-Reorder", .reorderTone),
    ("Bellcore-CallWaiting", .callWaitingTone), ("Bellcore-Cw2", .callWaiting2Tone),
    ("Bellcore-Cw3", .callWaiting3Tone), ("Bellcore-Cw4", .callWaiting4Tone),
    ("Bellcore-Hold", .holdTone), ("Bellcore-Confirmation", .confirmationTone),
    ("Bellcore-Permanent", .permanentSignalTone), ("Bellcore-Reminder", .reminderRingTone),
    ("Bellcore-None", .noTone), ("Cisco-ZipZip", .zipZip), ("Cisco-Zip", .zip)]

/-- The user mode that a value stands for. -/
def userModeNamed (buffer : CStr) : Option UserMode :=
  if strcaseEq buffer "PHONE" then some .phone else if strcaseEq buffer "IP" then some .ip else none

/-- The route mode that a value stands for. -/
def routeModeNamed (buffer : CStr) : Option RouteMode :=
  if strcaseEq buffer "DEFAULT" then some .default
  else if strcaseEq buffer "EMERGENCY" then some .emergency
  else if strcaseEq buffer "FQDN" then some .fqdn
  else none

/-- The tone that a value stands for. -/
def toneNamed (buffer : CStr) : Option Tone :=
  if buffer = [] then some defaultTone else (toneNames.find? fun n => strcaseEq buffer n.1).map (·.2)

/-- The local variables of `ParseDialEntry`, with the tones that were given. -/
structure DialVars where
  dialtemplate : CStr := []
  rewrite : CStr := []
  timeout : ℤ := dialTimeout
  line : UInt8 := 0
  usermode : UserMode := .unspec
  routeMode : RouteMode := .default
  tones : List Tone := []
  tones_le : tones.length ≤ maxTones := by first | exact tones_le_nil | decide

namespace DialVars

/-- A tone is given. There is room for `MAX_TONES` of them. -/
def addTone (v : DialVars) (t : Tone) : Option DialVars :=
  if h : v.tones.length < maxTones then
    some { v with tones := v.tones ++ [t], tones_le := by rw [List.length_append]; exact h }
  else none

def assign (v : DialVars) (a : DialKeyword) (buffer : CStr) : Option DialVars :=
  match a with
  | .matchKey => some { v with dialtemplate := buffer.take (maxTemplateLength - 1) }
  | .line => some { v with line := UInt8.ofNat (atoi buffer % 256).toNat }
  | .timeout => if atoi buffer < 0 then none else some { v with timeout := atoi buffer }
  | .user => (userModeNamed buffer).map fun m => { v with usermode := m }
  | .route => (routeModeNamed buffer).map fun m => { v with routeMode := m }
  | .tone => (toneNamed buffer).bind v.addTone
  | .rewrite => some { v with rewrite := buffer.take (maxTemplateLength - 1) }

/-- What `AddDialTemplate` is called with. -/
def template (v : DialVars) : DialTemplate where
  pattern := v.dialtemplate
  line := v.line.toUInt16
  rewrite := v.rewrite
  timeout := v.timeout
  userMode := v.usermode
  routeMode := v.routeMode
  tones := v.tones
  tones_le := v.tones_le

end DialVars

/-! ## Entries -/

/-- What a token does: the loop goes on, or `ParseDialEntry` returns, and may have added a template. -/
inductive EntryStep
  | go (state : ParseDialState) (v : DialVars)
  | stop (ret : ℕ) (template : Option DialTemplate)

def entryStep (state : ParseDialState) (v : DialVars) : XmlToken → EntryStep
  | .keyword buffer =>
    match state with
    | .any => (dialKeyword buffer).elim (.stop 1 none) fun a => .go (.got a) v
    | .endTagStarted => if strcaseEq buffer "TEMPLATE" then .go .endTagFound v else .stop 1 none
    | _ => .stop 1 none
  | .eq =>
    match state with
    | .got a => .go (.gotEq a) v
    | _ => .stop 1 none
  | .str buffer =>
    match state with
    | .gotEq a => (v.assign a buffer).elim (.stop 1 none) fun v => .go .any v
    | _ => .stop 1 none
  | .emptybracket => .stop (if state = .any then 0 else 1) (some v.template)
  | .rbracket =>
    match state with
    | .any => .go .startTagCompleted v
    | .endTagFound => .stop 0 (some v.template)
    | _ => .stop 1 none
  | .endlbracket =>
    match state with
    | .startTagCompleted => .go .endTagStarted v
    | _ => .stop 1 none
  | _ => .stop 1 none

/-- What `ParseDialEntry` returns, the template that it called `AddDialTemplate` with, and the text behind. -/
structure EntryEnd where
  ret : ℕ
  template : Option DialTemplate
  rest : CStr
  deriving DecidableEq

/-- `sizeof(buffer)` in `ParseDialEntry`. -/
def entryBuffer : ℕ := 64

/-- The loop over the tokens of an entry. -/
def entryLoop : ℕ → ParseDialState → DialVars → CStr → Option EntryEnd
  | 0, _, _, _ => none
  | fuel + 1, state, v, s =>
    let r := parseXmlTokens entryBuffer s
    match entryStep state v r.1 with
    | .go state v => entryLoop fuel state v r.2
    | .stop ret template => some { ret, template, rest := r.2 }

def parseDialEntry (s : CStr) : Option EntryEnd := entryLoop (s.length + 1) .any {} s

/-- `AddDialTemplate`. The flag tells whether there is memory for the template. -/
def addDialTemplate (available : Bool) (basetemplate : List DialTemplate) (t : DialTemplate) : List DialTemplate :=
  if available then basetemplate ++ [t] else basetemplate

/-- What `ParseDialVersion` returns, the stamp that it stored, and the text behind. -/
structure VersionEnd where
  ret : ℕ
  stamp : Option CStr
  rest : CStr

def stripBraces (stamp : CStr) : CStr :=
  if stamp.head? = some '{' ∧ stamp.getLast? = some '}' then stamp.tail.dropLast else stamp

def versionStep (state : ParseDialState) (stamp : CStr) : XmlToken → (ParseDialState × CStr) ⊕ (ℕ × Option CStr)
  | .keyword buffer =>
    match state with
    | .startTagCompleted => .inl (state, buffer)
    | .endTagStarted => if strcaseEq buffer "versionStamp" then .inl (.endTagFound, stamp) else .inr (1, none)
    | _ => .inl (state, stamp)
  | .rbracket =>
    match state with
    | .any => .inl (.startTagCompleted, stamp)
    | .endTagFound => if stamp.length ≤ 2 then .inr (1, none) else .inr (0, some (stripBraces stamp))
    | _ => .inr (1, none)
  | .endlbracket =>
    match state with
    | .startTagCompleted => .inl (.endTagStarted, stamp)
    | _ => .inr (1, none)
  | _ => .inr (1, none)

/-- The loop over the tokens of a version stamp. -/
def versionLoop : ℕ → ParseDialState → CStr → CStr → Option VersionEnd
  | 0, _, _, _ => none
  | fuel + 1, state, stamp, s =>
    let r := parseXmlTokens maxDpVersionStampLen s
    match versionStep state stamp r.1 with
    | .inl (state, stamp) => versionLoop fuel state stamp r.2
    | .inr (ret, stamp) => some { ret, stamp, rest := r.2 }

def parseDialVersion (s : CStr) : Option VersionEnd := versionLoop (s.length + 1) .any [] s

/-! ## Dial plans -/

/-- The variables of the loop of `ParseDialTemplate`. -/
structure Look where
  lookKey : Bool := false
  lookEndKey : Bool := false
  insideDialPlan : Bool := false
  errors : ℕ := 0

inductive TokenCall
  | none | entry | version

/-- A keyword that is the given one, but for the case of its letters. -/
def XmlToken.isKeyword (tok : XmlToken) (name : CStr) : Bool :=
  match tok with
  | .keyword buffer => strcaseEq buffer name
  | _ => false

/-- One token of a dial plan. -/
def lookStep (look : Look) (tok : XmlToken) : Look × TokenCall :=
  if look.lookEndKey then
    if tok = .rbracket then ({ look with lookEndKey := false }, .none)
    else if tok.isKeyword "DIALTEMPLATE" then ({ look with insideDialPlan := false }, .none)
    else (look, .none)
  else if tok = .lbracket then ({ look with lookKey := true }, .none)
  else if look.lookKey ∧ tok.isKeyword "DIALTEMPLATE" then ({ look with insideDialPlan := true }, .none)
  else if look.lookKey ∧ tok = .keyword "TEMPLATE" then
    if look.insideDialPlan then (look, .entry) else ({ look with errors := look.errors + 1 }, .none)
  else if look.lookKey ∧ tok.isKeyword "versionStamp" then
    if look.insideDialPlan then (look, .version) else ({ look with errors := look.errors + 1 }, .none)
  else if tok = .endlbracket then ({ look with lookEndKey := true }, .none)
  else ({ look with lookKey := false }, .none)

/-- `basetemplate` and `g_dp_version_stamp`. -/
structure DialPlan where
  basetemplate : List DialTemplate := []
  versionStamp : CStr := []

/-- An entry was read. -/
def DialPlan.addEntry (plan : DialPlan) (available : Bool) (e : EntryEnd) : DialPlan :=
  { plan with basetemplate := e.template.elim plan.basetemplate (addDialTemplate available plan.basetemplate) }

/-- A version stamp was read. -/
def DialPlan.addVersion (plan : DialPlan) (e : VersionEnd) : DialPlan :=
  { plan with versionStamp := e.stamp.getD plan.versionStamp }

/-- The loop over the tokens of a dial plan. There may be memory for the template of an entry or not, by the text
that the entry begins with. -/
def templateLoop (available : CStr → Bool) : ℕ → Look → DialPlan → CStr → Option (Look × DialPlan)
  | 0, _, _, _ => none
  | fuel + 1, look, plan, s =>
    let r := parseXmlTokens maxTemplateLength s
    if r.1 = .eof then some (look, plan)
    else
      let next := lookStep look r.1
      match next.2 with
      | .none => templateLoop available fuel next.1 plan r.2
      | .entry =>
        (parseDialEntry r.2).bind fun e =>
          templateLoop available fuel { next.1 with errors := next.1.errors + e.ret }
            (plan.addEntry (available r.2) e) e.rest
      | .version =>
        (parseDialVersion r.2).bind fun e =>
          templateLoop available fuel { next.1 with errors := next.1.errors + e.ret } (plan.addVersion e) e.rest

/-- `ParseDialTemplate`: whether there were no errors, and the dial plan. -/
def parseDialTemplate (available : CStr → Bool) : Option CStr → Option (Bool × DialPlan)
  | none => some (false, {})
  | some s => (templateLoop available (s.length + 1) {} {} s).map fun r => (r.1.errors = 0, r.2)

/-! ## The end of the loops -/

theorem length_scanToken_lt (comment : Bool) (s : CStr) (h : (scanToken comment s).1 ≠ .eof) :
    ∃ rest, (scanToken comment s).2 = some rest ∧ rest.length < s.length := by
  induction s generalizing comment with
  | nil => exact absurd (by rw [scanToken]) h
  | cons c s ih =>
    -- the characters that are passed over are in front of the token
    have hlonger : ∀ b, (scanToken b s).1 ≠ .eof →
        ∃ rest, (scanToken b s).2 = some rest ∧ rest.length < (c :: s).length := by
      intro b hb
      obtain ⟨rest, hrest, hlt⟩ := ih b hb
      exact ⟨rest, hrest, Nat.lt_succ_of_lt hlt⟩
    have hsuffix : ∀ {rest : CStr}, rest <:+ s → ∃ r, some rest = some r ∧ r.length < (c :: s).length :=
      fun hrest => ⟨_, rfl, Nat.lt_succ_of_le hrest.length_le⟩
    cases comment with
    | true => exact hlonger _ h
    | false =>
      rw [scanToken] at h ⊢
      split_ifs at h ⊢
      · exact hlonger _ h
      · exact hsuffix (List.tail_suffix s)
      · exact hsuffix List.suffix_rfl
      · exact hlonger _ h
      · exact hsuffix (List.tail_suffix s)
      · exact hsuffix List.suffix_rfl
      · exact hsuffix List.suffix_rfl
      · exact hsuffix ((List.tail_suffix _).trans (List.dropWhile_suffix _))
      · exact absurd rfl h
      · exact hsuffix (List.dropWhile_suffix _)
      · exact hsuffix List.suffix_rfl

variable {s : CStr}

/-- **Every token takes characters from the text**, unless the text is over. -/
theorem length_nextToken_lt (h : (nextToken s).1 ≠ .eof) : (nextToken s).2.length < s.length := by
  obtain ⟨rest, hrest, hlt⟩ := length_scanToken_lt false s h
  rw [nextToken, hrest]
  exact hlt

theorem scanToken_eof {comment : Bool} (h : (scanToken comment s).1 = .eof) :
    (scanToken comment s).2 = none ∨ (scanToken comment s).2 = some [] := by
  induction s generalizing comment with
  | nil => exact .inl (by rw [scanToken])
  | cons c s ih =>
    cases comment with
    | true => exact ih h
    | false =>
      rw [scanToken] at h ⊢
      split_ifs at h ⊢
      · exact ih h
      · exact ih h
      · exact .inr rfl

theorem length_nextToken_le (s : CStr) : (nextToken s).2.length ≤ s.length := by
  by_cases heof : (nextToken s).1 = .eof
  · rw [nextToken]
    rcases scanToken_eof heof with hrest | hrest
    · rw [hrest]
      exact le_rfl
    · rw [hrest]
      exact Nat.zero_le _
  · exact Nat.le_of_lt (length_nextToken_lt heof)

theorem cut_eq_eof_iff {maxlen : ℕ} {tok : XmlToken} : tok.cut maxlen = .eof ↔ tok = .eof := by
  cases tok <;> simp [XmlToken.cut]

theorem length_parseXmlTokens_lt {maxlen : ℕ} (h : (parseXmlTokens maxlen s).1 ≠ .eof) :
    (parseXmlTokens maxlen s).2.length < s.length :=
  length_nextToken_lt fun heof => h (cut_eq_eof_iff.mpr heof)

theorem length_parseXmlTokens_le (maxlen : ℕ) (s : CStr) : (parseXmlTokens maxlen s).2.length ≤ s.length :=
  length_nextToken_le s

theorem entryStep_eof (state : ParseDialState) (v : DialVars) : entryStep state v .eof = .stop 1 none := rfl

theorem isSome_entryLoop {fuel : ℕ} (state : ParseDialState) (v : DialVars) (h : s.length < fuel) :
    (entryLoop fuel state v s).isSome := by
  induction fuel generalizing state v s with
  | zero => exact absurd h (Nat.not_lt_zero _)
  | succ fuel ih =>
    rw [entryLoop]
    split
    · rename_i heq
      refine ih _ _ (Nat.lt_of_lt_of_le (length_parseXmlTokens_lt fun heof => ?_) (Nat.le_of_lt_succ h))
      rw [heof, entryStep_eof] at heq
      cases heq
    · rfl

theorem length_entryLoop_le {fuel : ℕ} {state : ParseDialState} {v : DialVars} {e : EntryEnd}
    (h : entryLoop fuel state v s = some e) : e.rest.length ≤ s.length := by
  induction fuel generalizing state v s with
  | zero => cases h
  | succ fuel ih =>
    have hle := length_parseXmlTokens_le entryBuffer s
    rw [entryLoop] at h
    split at h
    · exact Nat.le_trans (ih h) hle
    · rw [← Option.some_inj.mp h]
      exact hle

theorem exists_parseDialEntry (s : CStr) : ∃ e, parseDialEntry s = some e ∧ e.rest.length ≤ s.length := by
  obtain ⟨e, he⟩ := Option.isSome_iff_exists.mp (isSome_entryLoop .any {} (Nat.lt_succ_self s.length))
  exact ⟨e, he, length_entryLoop_le he⟩

/-- The loop over a version stamp is over when the text is, and the text behind is not longer. By induction on the
fuel. -/
theorem exists_versionLoop {fuel : ℕ} (state : ParseDialState) (stamp : CStr) (h : s.length < fuel) :
    ∃ e, versionLoop fuel state stamp s = some e ∧ e.rest.length ≤ s.length := by
  induction fuel generalizing state stamp s with
  | zero => exact absurd h (Nat.not_lt_zero _)
  | succ fuel ih =>
    have hle := length_parseXmlTokens_le maxDpVersionStampLen s
    rw [versionLoop]
    split
    · rename_i state' stamp' heq
      obtain ⟨e, he, hrest⟩ := @ih (parseXmlTokens maxDpVersionStampLen s).2 state' stamp'
        (Nat.lt_of_lt_of_le (length_parseXmlTokens_lt fun heof => by rw [heof] at heq; cases heq)
          (Nat.le_of_lt_succ h))
      exact ⟨e, he, Nat.le_trans hrest hle⟩
    · exact ⟨_, rfl, hle⟩

theorem exists_parseDialVersion (s : CStr) : ∃ e, parseDialVersion s = some e ∧ e.rest.length ≤ s.length :=
  exists_versionLoop .any [] (Nat.lt_succ_self s.length)

end Dialplan
