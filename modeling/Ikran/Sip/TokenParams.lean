import Ikran.Sip.Url

/-!
# Lists of parameters

The loop over the parameters of a Remote-Party-ID header and of the identifier of a KPML event, and the one of a Join
header. All of them skip the name of a parameter they do not know, and nothing else.
-/

namespace Sip

open CStr

/-! ## The parsers -/

/-- The text behind a quoted string, up to a quote that is not behind a backslash. The first argument is the character
in front. -/
def closeQuoted : Char → CStr → Option CStr
  | _, [] => none
  | before, c :: s => if c = '"' ∧ before ≠ '\\' then some s else closeQuoted c s

/-- `parse_generic_param`: the text that the value starts, none for an empty one, and the text behind it. -/
def parseGenericParam (param : CStr) : Option (Option CStr × CStr) :=
  let param := skipLws param
  if param.peek ≠ '=' then some (none, param)
  else
    let param := skipLws param.tail
    if param.peek = '"' then (closeQuoted '"' param.tail).map fun rest => (some param, rest)
    else if skipSipToken param = param then none
    else some (some param, skipSipToken param)

section

variable {σ : Type} (take : σ → CStr → Option (CStr → σ))

/-- The loop over parameters, with the fuel for as many: whether the last of them was taken, and the values. The
argument says how a parameter that is known is taken. A value ends where the next parameter starts. -/
def paramLoop : ℕ → CStr → σ → Bool × σ
  | 0, _, st => (false, st)
  | fuel + 1, params, st =>
    let paramName := params.dropWhile (· = ';')
    let params := skipSipToken paramName
    let name := textUpTo paramName (some params)
    if name = [] then (false, st)
    else
      match take st name with
      | some set =>
        match parseGenericParam params with
        | none => (false, st)
        | some (value, params) =>
          let params := skipLws params
          if params.peek = ';' then
            paramLoop fuel (skipLws params.tail) (set (value.elim [] fun value => textUpTo value (some params)))
          else (true, set (value.getD []))
      | none =>
        let params := skipLws params
        if params.peek = ';' then paramLoop fuel (skipLws params.tail) st else (false, st)

end

/-- The parameters of a Remote-Party-ID header. -/
structure RemotePartyId where
  screen : Option CStr := none
  partyType : Option CStr := none
  idType : Option CStr := none
  privacy : Option CStr := none
  np : Option CStr := none
  deriving DecidableEq

/-- How a parameter is taken: a `screen` is, unless it has been `no` before. -/
def RemotePartyId.take (rpid : RemotePartyId) (name : CStr) : Option (CStr → RemotePartyId) :=
  if strcaseEq name "screen" ∧ rpid.screen.all (fun screen => !strcaseEq screen "no") then
    some fun value => { rpid with screen := some value }
  else if strcaseEq name "party" then some fun value => { rpid with partyType := some value }
  else if strcaseEq name "id-type" then some fun value => { rpid with idType := some value }
  else if strcaseEq name "privacy" then some fun value => { rpid with privacy := some value }
  else if strcaseEq name "np" then some fun value => { rpid with np := some value }
  else none

def sippmhParseRemotePartyIdParams (params : CStr) (rpid : RemotePartyId) : Bool × RemotePartyId :=
  paramLoop RemotePartyId.take (params.length + 1) params rpid

structure KpmlEventId where
  callId : Option CStr := none
  fromTag : Option CStr := none
  toTag : Option CStr := none

/-- How a parameter is taken. -/
def KpmlEventId.take (ids : KpmlEventId) (name : CStr) : Option (CStr → KpmlEventId) :=
  if strcaseEq name "call-id" then some fun value => { ids with callId := some value }
  else if strcaseEq name "from-tag" then some fun value => { ids with fromTag := some value }
  else if strcaseEq name "to-tag" then some fun value => { ids with toTag := some value }
  else none

def sippmhParseKpmlEventIdParams (params : CStr) (ids : KpmlEventId) : Bool × KpmlEventId :=
  paramLoop KpmlEventId.take (params.length + 1) params ids

/-- `sipJoinInfo_t`. -/
structure JoinInfo where
  callId : CStr
  fromTag : Option CStr := none
  toTag : Option CStr := none

/-- The loop of `sippmh_parse_join_header`, with the fuel for as many parameters: there is no result when a tag
without a value is copied, and none inside when the header is refused. -/
def joinLoop : ℕ → CStr → JoinInfo → Option (Option JoinInfo)
  | 0, _, _ => some none
  | fuel + 1, params, join =>
    let paramName := params.dropWhile (· = ';')
    let params := skipSipToken paramName
    let name := textUpTo paramName (some params)
    if name = [] then some none
    else if strcaseEq name "from-tag" ∧ join.fromTag = none then
      match parseGenericParam params with
      | none => some none
      | some (none, _) => none
      | some (some value, params) =>
        let join := { join with fromTag := some (textUpTo value (some params)) }
        let params := skipLws params
        if params.peek = ';' then joinLoop fuel (skipLws params.tail) join else some (some join)
    else if strcaseEq name "to-tag" ∧ join.toTag = none then
      match parseGenericParam params with
      | none => some none
      | some (none, _) => none
      | some (some value, params) =>
        let join := { join with toTag := some (textUpTo value (some params)) }
        -- here no blanks are skipped
        if params.peek = ';' then joinLoop fuel (skipLws params.tail) join else some (some join)
    else joinLoop fuel (skipLws params) join

/-- `sippmh_parse_join_header`, for a text that is present. -/
def sippmhParseJoinHeader (header : CStr) : Option (Option JoinInfo) :=
  match strpbrk header ";" with
  | none => some (some { callId := header })
  | some semi => joinLoop (semi.length + 1) semi { callId := textUpTo header (some semi) }

/-- A token, or a quoted string. -/
def IsValueText (text : CStr) : Prop :=
  (text ≠ [] ∧ ∀ c ∈ text, isSipTokenChar c = true) ∨ ∃ body, text = '"' :: body ∧ closeQuoted '"' body = some []

/-- The value of a parameter, with the blanks around its equal sign. -/
structure ParamValue where
  beforeEqual : CStr
  afterEqual : CStr
  text : CStr
  beforeEqual_blank : ∀ c ∈ beforeEqual, isLws c = true
  afterEqual_blank : ∀ c ∈ afterEqual, isLws c = true
  isValueText : IsValueText text

/-- A parameter with the blanks around it: a name, or a name with a value. -/
structure ParamItem where
  front : CStr
  name : CStr
  value : Option ParamValue
  behind : CStr
  front_blank : ∀ c ∈ front, isLws c = true
  name_ne_nil : name ≠ []
  name_token : ∀ c ∈ name, isSipTokenChar c = true
  behind_blank : ∀ c ∈ behind, isLws c = true

namespace ParamItem

/-- The equal sign and the value of a parameter. -/
def valueText (p : ParamItem) : CStr := p.value.elim [] fun v => v.beforeEqual ++ '=' :: (v.afterEqual ++ v.text)

def body (p : ParamItem) : CStr := p.name ++ (p.valueText ++ p.behind)

/-- The value that is kept: the blanks behind it belong to it. -/
def keptText (p : ParamItem) : CStr := p.value.elim [] fun v => v.text ++ p.behind

end ParamItem

/-- The text behind a parameter. -/
def ItemTail (tail : CStr) : Prop := tail = [] ∨ ∃ s, tail = ';' :: s

/-! ## The value of a parameter -/

theorem closeQuoted_append {before : Char} {body : CStr} (h : closeQuoted before body = some []) (s : CStr) :
    closeQuoted before (body ++ s) = some s := by
  induction body generalizing before with
  | nil => cases h
  | cons c body ih =>
    rw [closeQuoted] at h
    rw [List.cons_append, closeQuoted]
    split_ifs at h ⊢ with hend
    · rw [Option.some_inj.mp h, List.nil_append]
    · exact ih h

theorem isSipTokenChar_peek {blanks tail : CStr} (hblanks : ∀ c ∈ blanks, isLws c = true) {c : Char} {s : CStr}
    (htail : tail = [] ∨ tail = c :: s) (hc : c = ';' ∨ c = '=') : isSipTokenChar (peek (blanks ++ tail)) = false := by
  cases blanks with
  | nil =>
    rcases htail with rfl | rfl
    · decide
    · rcases hc with rfl | rfl <;> rfl
  | cons d blanks =>
    rcases isLws_cases (hblanks d List.mem_cons_self) with rfl | rfl <;> rfl

theorem isLws_of_isSipTokenChar {c : Char} (hc : isSipTokenChar c = true) : isLws c = false := by
  refine Bool.eq_false_of_not_eq_true fun hblank => ?_
  rcases isLws_cases hblank with rfl | rfl <;> exact absurd hc (by decide)

theorem skipSipToken_of_peek {s : CStr} (hs : isSipTokenChar s.peek = false) : skipSipToken s = s := by
  cases s with
  | nil => rfl
  | cons c s => exact List.dropWhile_cons_of_neg (by rw [peek_cons] at hs; rw [hs]; decide)

theorem skipSipToken_append {token : CStr} (htoken : ∀ c ∈ token, isSipTokenChar c = true) {s : CStr}
    (hs : isSipTokenChar s.peek = false) : skipSipToken (token ++ s) = s := by
  rw [skipSipToken, List.dropWhile_append_of_pos htoken]
  exact skipSipToken_of_peek hs

theorem skipLws_tail {blanks tail : CStr} (hblanks : ∀ c ∈ blanks, isLws c = true) (htail : ItemTail tail) :
    skipLws (blanks ++ tail) = tail := by
  refine skipLws_append hblanks ?_
  rcases htail with rfl | ⟨s, rfl⟩ <;> rfl

namespace ParamItem

variable (p : ParamItem) {tail : CStr}

theorem isSipTokenChar_peek_behind (htail : ItemTail tail) : isSipTokenChar (peek (p.behind ++ tail)) = false := by
  rcases htail with rfl | ⟨s, rfl⟩
  · exact isSipTokenChar_peek (s := []) p.behind_blank (.inl rfl) (.inl rfl)
  · exact isSipTokenChar_peek p.behind_blank (.inr rfl) (.inl rfl)

theorem isSipTokenChar_peek_valueText (htail : ItemTail tail) :
    isSipTokenChar (peek (p.valueText ++ (p.behind ++ tail))) = false := by
  rw [valueText]
  cases p.value with
  | none => exact p.isSipTokenChar_peek_behind htail
  | some v =>
    rw [Option.elim_some, List.append_assoc]
    exact isSipTokenChar_peek v.beforeEqual_blank (.inr rfl) (.inr rfl)

theorem skipLws_value (v : ParamValue) (s : CStr) :
    skipLws (v.beforeEqual ++ '=' :: (v.afterEqual ++ v.text) ++ s) = '=' :: (v.afterEqual ++ (v.text ++ s)) := by
  rw [List.append_assoc, List.cons_append, List.append_assoc]
  exact skipLws_append v.beforeEqual_blank rfl

theorem parseGenericParam_behind (htail : ItemTail tail) : parseGenericParam (p.valueText ++ (p.behind ++ tail)) =
      some (p.value.elim (none, tail) fun v => (some (v.text ++ (p.behind ++ tail)), p.behind ++ tail)) := by
  rw [parseGenericParam, valueText]
  cases p.value with
  | none =>
    have hne : peek tail ≠ '=' := by
      rcases htail with rfl | ⟨s, rfl⟩
      · decide
      · rw [peek_cons]
        decide
    simp only [Option.elim_none, List.nil_append, skipLws_tail p.behind_blank htail, if_pos hne]
  | some v =>
    simp only [Option.elim_some, skipLws_value, peek_cons, ne_eq, not_true_eq_false, if_false, List.tail_cons]
    rcases v.isValueText with ⟨hne, htoken⟩ | ⟨body, hbody, hclose⟩
    · obtain ⟨c, token, hcons⟩ := List.exists_cons_of_ne_nil hne
      have hc := htoken c (hcons ▸ List.mem_cons_self)
      have hlws : isLws c = false := isLws_of_isSipTokenChar hc
      have hquote : c ≠ '"' := by
        rintro rfl
        exact absurd hc (by decide)
      have hskip : skipLws (v.afterEqual ++ (v.text ++ (p.behind ++ tail))) = v.text ++ (p.behind ++ tail) :=
        skipLws_append v.afterEqual_blank (by rw [hcons]; exact hlws)
      have hrest := skipSipToken_append htoken (p.isSipTokenChar_peek_behind htail)
      have hpeek : peek (v.text ++ (p.behind ++ tail)) ≠ '"' := by
        rw [hcons]
        exact hquote
      have hmoved : p.behind ++ tail ≠ v.text ++ (p.behind ++ tail) := fun h => by
        have hlength := congrArg List.length h
        simp only [hcons, List.length_append, List.length_cons] at hlength
        omega
      rw [hskip, if_neg hpeek, hrest, if_neg hmoved]
    · have hskip : skipLws (v.afterEqual ++ (v.text ++ (p.behind ++ tail))) = v.text ++ (p.behind ++ tail) :=
        skipLws_append v.afterEqual_blank (by rw [hbody]; rfl)
      rw [hskip, hbody, List.cons_append, peek_cons, if_pos rfl, List.tail_cons, closeQuoted_append hclose,
        Option.map_some]

end ParamItem

/-! ## One turn of the loop -/

theorem skipSipToken_body (p : ParamItem) {tail : CStr} (htail : ItemTail tail) :
    (p.body ++ tail).dropWhile (· = ';') = p.body ++ tail ∧
      skipSipToken (p.body ++ tail) = p.valueText ++ (p.behind ++ tail) ∧
        textUpTo (p.body ++ tail) (some (p.valueText ++ (p.behind ++ tail))) = p.name := by
  have hbody : p.body ++ tail = p.name ++ (p.valueText ++ (p.behind ++ tail)) := by simp [ParamItem.body]
  rw [hbody]
  refine ⟨?_, skipSipToken_append p.name_token (p.isSipTokenChar_peek_valueText htail), textUpTo_append _ _⟩
  obtain ⟨c, name, hname⟩ := List.exists_cons_of_ne_nil p.name_ne_nil
  have hc := p.name_token c (hname ▸ List.mem_cons_self)
  rw [hname]
  refine List.dropWhile_cons_of_neg fun hsemi => ?_
  obtain rfl : c = ';' := by simpa using hsemi
  exact absurd hc (by decide)

section

variable {σ : Type} (take : σ → CStr → Option (CStr → σ))

/-- What follows a parameter: the loop goes on behind a semicolon, and otherwise it ends with the given result. -/
def paramNext (fuel : ℕ) (tail : CStr) (last : Bool) (st : σ) : Bool × σ :=
  if tail.peek = ';' then paramLoop take fuel (skipLws tail.tail) st else (last, st)

theorem paramLoop_body (fuel : ℕ) (p : ParamItem) {tail : CStr} (htail : ItemTail tail) (st : σ) :
    paramLoop take (fuel + 1) (p.body ++ tail) st = match take st p.name with
      | some set => paramNext take fuel tail true (set p.keptText)
      | none => if p.value.isSome then (false, st) else paramNext take fuel tail false st := by
  obtain ⟨hsemi, hskip, hname⟩ := skipSipToken_body p htail
  rw [paramLoop]
  simp only [hsemi, hskip, hname, if_neg p.name_ne_nil, p.parseGenericParam_behind htail, paramNext]
  cases take st p.name with
  | some set =>
    have hkept : ∀ v : ParamValue, v.text ++ (p.behind ++ tail) = v.text ++ p.behind ++ tail := fun v => by simp
    rw [ParamItem.keptText]
    cases p.value with
    | none =>
      rcases htail with rfl | ⟨s, rfl⟩ <;> rfl
    | some v =>
      simp only [Option.elim_some, skipLws_tail p.behind_blank htail, hkept, textUpTo_append, Option.getD_some]
      rcases htail with rfl | ⟨s, rfl⟩
      · rw [List.append_nil]
      · rfl
  | none =>
    dsimp only
    rw [ParamItem.valueText]
    cases p.value with
    | none =>
      simp only [Option.elim_none, List.nil_append, skipLws_tail p.behind_blank htail, Option.isSome_none,
        Bool.false_eq_true, if_false]
    | some v =>
      simp only [Option.elim_some, ParamItem.skipLws_value]
      rfl

end

end Sip
