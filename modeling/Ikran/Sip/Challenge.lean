import Ikran.Sip.Authenticate

/-!
# Digest challenges

What the parser makes of a digest challenge with quoted values, in whatever order they stand. Each turn of the loop
leaves what the parameters up to there say, unless a name is misread or `qop` has been dropped before.
-/

namespace Sip

open CStr

/-- The text of parameters, with commas between them. -/
def authenParamsText : List AuthParam → CStr
  | [] => []
  | p :: ps =>
    p.front ++ (p.body ++
      match ps with
      | [] => []
      | _ :: _ => ',' :: authenParamsText ps)

theorem authenParamsText_cons (p : AuthParam) (ps : List AuthParam) : authenParamsText (p :: ps) = p.front ++ (p.body ++
      match ps with
      | [] => []
      | _ :: _ => ',' :: authenParamsText ps) := by
  cases ps <;> rfl

/-- A digest challenge in which no parameter that is known is given twice. -/
structure Challenge where
  front : CStr
  scheme : CStr
  separator : Char
  params : List AuthParam
  front_blank : ∀ c ∈ front, isWhiteSpace c = true
  scheme_digest : strcaseEq scheme "Digest" = true
  separator_blank : isWhiteSpace separator = true
  distinct : (params.filterMap AuthParam.kind).Nodup

def Challenge.text (c : Challenge) : CStr := c.front ++ (c.scheme ++ c.separator :: authenParamsText c.params)

/-- The value that is written for a parameter. -/
def written (ps : List AuthParam) (k : AuthenParam) : Option CStr :=
  (ps.find? fun p => p.kind = some k).map AuthParam.value

/-- What the code keeps of the value of `qop`: the text in front of a comma, when it begins with `auth`. -/
def keptQop (value : CStr) : Option CStr :=
  if strncaseEq (value.takeWhile (· ≠ ',')) "auth" 4 then some (value.takeWhile (· ≠ ',')) else none

/-- What the parameters of a challenge say. -/
def authenOf (ps : List AuthParam) : SipAuthen where
  scheme := .digest
  realm := written ps .realm
  algorithm := some ((written ps .algorithm).getD "md5")
  nonce := written ps .nonce
  unparsedDomain := written ps .domain
  opaqueData := written ps .opaqueData
  stale := written ps .stale
  qop := (written ps .qop).bind keptQop

/-- Whether `qop` is among the parameters. -/
def qopGiven (ps : List AuthParam) : Bool := (written ps .qop).isSome

/-- The value of `qop` has been dropped. -/
def QopDropped (ps : List AuthParam) : Prop := ∃ value, written ps .qop = some value ∧ keptQop value = none

/-! ## One turn of the loop -/

variable {ps front : List AuthParam} {p : AuthParam}

theorem written_concat (hdistinct : ((front ++ p :: ps).filterMap AuthParam.kind).Nodup) (k : AuthenParam) :
    written (front ++ [p]) k = if p.kind = some k then some p.value else written front k := by
  rw [written, List.find?_append]
  by_cases hk : p.kind = some k
  · -- no parameter in front is of this kind
    have hfront : front.find? (fun q => decide (q.kind = some k)) = none := by
      rw [List.find?_eq_none]
      intro q hq hkind
      rw [List.filterMap_append, List.filterMap_cons_some hk] at hdistinct
      have hmem : k ∈ front.filterMap AuthParam.kind := List.mem_filterMap.mpr ⟨q, hq, by simpa using hkind⟩
      exact (List.nodup_append.mp hdistinct).2.2 k hmem k List.mem_cons_self rfl
    rw [hfront, if_pos hk]
    simp [hk]
  · rw [if_neg hk, written]
    simp [hk]

theorem written_of_kind
    (hdistinct : ((front ++ p :: ps).filterMap AuthParam.kind).Nodup) {k : AuthenParam} (hk : p.kind = some k) :
    written front k = none := by
  rw [written, Option.map_eq_none_iff, List.find?_eq_none]
  intro q hq hkind
  rw [List.filterMap_append, List.filterMap_cons_some hk] at hdistinct
  have hmem : k ∈ front.filterMap AuthParam.kind := List.mem_filterMap.mpr ⟨q, hq, by simpa using hkind⟩
  exact (List.nodup_append.mp hdistinct).2.2 k hmem k List.mem_cons_self rfl

theorem authenOf_concat (hdistinct : ((front ++ p :: ps).filterMap AuthParam.kind).Nodup) : authenOf (front ++ [p]) =
      if p.kind = some .qop then { authenOf front with qop := keptQop p.value }
      else (authenOf front).setParam p.kind p.value := by
  simp only [authenOf, written_concat hdistinct]
  cases hkind : p.kind with
  | none => simp [SipAuthen.setParam]
  | some k => cases k <;> simp [SipAuthen.setParam]

theorem auth_of_authInt {s : CStr} (h : strncaseEq s "auth-int" 8 = true) : strncaseEq s "auth" 4 = true := by
  have hlong := (strncaseEq_iff (s := s) (t := "auth-int") (by decide)).mp h
  refine (strncaseEq_iff (s := s) (t := "auth") (by decide)).mpr ?_
  have hshort := congrArg (List.take 4) hlong
  rw [← List.map_take, List.take_take] at hshort
  exact hshort

theorem checkQop_eq (authen : SipAuthen) :
    checkQop authen = authen.qop.map fun qop => { authen with qop := keptQop qop } := by
  rw [checkQop]
  refine congrArg (Option.map · authen.qop) (funext fun qop => ?_)
  rw [keptQop]
  by_cases hauth : strncaseEq (qop.takeWhile (· ≠ ',')) "auth" 4 = true
  · dsimp only
    rw [if_pos hauth, if_pos (by rw [hauth, Bool.true_or])]
  · have hlong : strncaseEq (qop.takeWhile (· ≠ ',')) "auth-int" 8 = false := by
      by_contra h
      exact hauth (auth_of_authInt (by simpa using h))
    dsimp only
    rw [if_neg hauth, if_neg (by rw [hlong, Bool.or_false]; exact hauth)]

theorem keptQop_keptQop {value qop : CStr} (h : keptQop value = some qop) : keptQop qop = some qop := by
  rw [keptQop] at h
  split_ifs at h with hauth
  obtain rfl := Option.some_inj.mp h
  rw [keptQop, List.takeWhile_idem, if_pos hauth]

/-- **One turn of the loop.** A name that is misread ends it, and so does a look at `qop` when that has been dropped;
otherwise the result is what the parameters say up to this one. -/
theorem readParam_authenOf (hdistinct : ((front ++ p :: ps).filterMap AuthParam.kind).Nodup) (hread : ¬p.Misread) :
    (QopDropped front ∧ readParam p (authenOf front) (qopGiven front) = none) ∨
      (¬QopDropped front ∧ readParam p (authenOf front) (qopGiven front) =
        some (some (authenOf (front ++ [p]), qopGiven (front ++ [p])))) := by
  rw [readParam, if_neg hread, authenOf_concat hdistinct, qopGiven, qopGiven, written_concat hdistinct]
  by_cases hk : p.kind = some .qop
  · -- the value of this parameter is looked at
    have hnone := written_of_kind hdistinct hk
    refine .inr ⟨?_, ?_⟩
    · rintro ⟨_, hvalue, -⟩
      cases hnone.symm.trans hvalue
    rw [if_pos hk, if_pos hk, hk, checkQop_eq]
    simp [SipAuthen.setParam]
  · have hsame : ((authenOf front).setParam p.kind p.value).qop = (authenOf front).qop := by
      cases hkind : p.kind with
      | none => rfl
      | some k =>
        cases k with
        | qop => exact absurd hkind hk
        | _ => rfl
    have hqop : (authenOf front).qop = (written front .qop).bind keptQop := rfl
    rw [if_neg hk, if_neg hk, checkQop_eq, hsame, hqop]
    cases hwritten : written front .qop with
    | none =>
      refine .inr ⟨?_, ?_⟩
      · rintro ⟨_, hvalue, -⟩
        cases hwritten.symm.trans hvalue
      simp [hk]
    | some value =>
      -- a value that is given before is looked at again
      cases hkept : keptQop value with
      | none => exact .inl ⟨⟨value, hwritten, hkept⟩, by simp [hkept]⟩
      | some qop =>
        refine .inr ⟨?_, ?_⟩
        · rintro ⟨value', hvalue', hdropped⟩
          obtain rfl := Option.some_inj.mp (hwritten.symm.trans hvalue')
          cases hkept.symm.trans hdropped
        · have hstays : { (authenOf front).setParam p.kind p.value with qop := some qop } =
              (authenOf front).setParam p.kind p.value := by
            rw [hwritten, Option.bind_some, hkept] at hqop
            rw [← hqop, ← hsame]
          simp [hkept, keptQop_keptQop hkept, hstays]

/-! ## The whole of the loop -/

/-- What is returned behind the last parameter. -/
def validated (authen : SipAuthen) : Option SipAuthen :=
  if sippmhValidateAuthenticate authen then some authen else none

/-- The turns of the loop, one after the other. -/
def readParams : List AuthParam → SipAuthen → Bool → Option (Option SipAuthen)
  | [], authen, _ => some (validated authen)
  | p :: ps, authen, qopFound =>
    (readParam p authen qopFound).bind fun read =>
      read.elim (some none) fun next => readParams ps next.1 next.2

theorem skipWhiteSpace_authenParamsText (p : AuthParam) (ps : List AuthParam) :
    skipWhiteSpace (authenParamsText (p :: ps)) = p.body ++ match ps with
      | [] => []
      | _ :: _ => ',' :: authenParamsText ps := by
  have hfront : ∀ c ∈ p.front, isWhiteSpace c = true := fun c hc => p.blanks c (by simp [hc])
  obtain ⟨c, s, hname⟩ := List.exists_cons_of_ne_nil p.name_ne_nil
  have hc := (isSipTokenChar_apart (p.name_token c (hname ▸ List.mem_cons_self))).2
  rw [authenParamsText_cons, AuthParam.body, hname, List.cons_append, List.cons_append]
  exact skipWhiteSpace_append hfront hc _

theorem length_le_authenParamsText (ps : List AuthParam) : ps.length ≤ (authenParamsText ps).length := by
  induction ps with
  | nil => exact le_rfl
  | cons p ps ih =>
    have hname : 0 < p.name.length := List.length_pos_of_ne_nil p.name_ne_nil
    rw [authenParamsText_cons, AuthParam.body]
    cases ps with
    | nil =>
      simp only [List.length_append, List.length_cons, List.length_nil]
      omega
    | cons q ps =>
      simp only [List.length_append, List.length_cons] at ih ⊢
      omega

theorem authenNext_last (p : AuthParam) (fuel : ℕ) (authen : SipAuthen) (qopFound : Bool) :
    authenNext fuel (p.behind ++ []) authen qopFound = some (validated authen) := by
  have hcomma : ',' ∉ p.behind ++ [] := by
    rw [List.append_nil]
    exact fun h => absurd (p.blanks ',' (by simp [h])) (by decide)
  rw [authenNext, strchr, if_neg hcomma]
  rfl

theorem authenNext_comma (p : AuthParam) (fuel : ℕ) (s : CStr) (authen : SipAuthen) (qopFound : Bool) :
    authenNext fuel (p.behind ++ ',' :: s) authen qopFound = authenLoop fuel (skipWhiteSpace s) authen qopFound := by
  have hcomma : ',' ∉ p.behind := fun h => absurd (p.blanks ',' (by simp [h])) (by decide)
  rw [authenNext, strchr, if_pos (by simp), (takeWhile_ne_append hcomma s).2]
  rfl

theorem authenLoop_authenParamsText {fuel : ℕ} (hfuel : ps.length < fuel) (authen : SipAuthen) (qopFound : Bool) :
    authenLoop fuel (skipWhiteSpace (authenParamsText (p :: ps))) authen qopFound =
      readParams (p :: ps) authen qopFound := by
  induction ps generalizing fuel p authen qopFound with
  | nil =>
    cases fuel with
    | zero => cases hfuel
    | succ fuel =>
      rw [skipWhiteSpace_authenParamsText, authenLoop_body, readParams]
      simp only [authenNext_last, readParams]
  | cons q ps ih =>
    cases fuel with
    | zero => cases hfuel
    | succ fuel =>
      rw [skipWhiteSpace_authenParamsText, authenLoop_body, readParams]
      simp only [authenNext_comma, ih (Nat.lt_of_succ_lt_succ hfuel)]

theorem sippmhParseAuthenticate_eq (c : Challenge) :
    sippmhParseAuthenticate c.text = readParams c.params (authenOf []) (qopGiven []) := by
  have hscheme := c.scheme_digest
  rw [strcaseEq, beq_iff_eq] at hscheme
  have hlength : c.scheme.length = 6 := by simpa using congrArg List.length hscheme
  obtain ⟨d, s, hcons⟩ := List.exists_cons_of_ne_nil (List.ne_nil_of_length_pos (l := c.scheme) (by omega))
  have hd : d.toUpper = 'D' := by
    rw [hcons] at hscheme
    exact (List.cons.inj hscheme).1
  have hwhite : isWhiteSpace d = false := by
    by_contra hno
    have hcases : d = ' ' ∨ d = '\t' ∨ d = '\n' := by
      simpa [isWhiteSpace, or_assoc, or_iff_not_imp_left] using hno
    rcases hcases with rfl | rfl | rfl <;> exact absurd hd (by decide)
  have hskip : skipWhiteSpace c.text = c.scheme ++ c.separator :: authenParamsText c.params := by
    rw [Challenge.text, hcons, List.cons_append, skipWhiteSpace_append c.front_blank hwhite]
  have hdigest : strncaseEq (c.scheme ++ c.separator :: authenParamsText c.params) "Digest" 6 = true := by
    refine (strncaseEq_iff (t := "Digest") (by decide)).mpr ?_
    have htake : (c.scheme ++ c.separator :: authenParamsText c.params).take "Digest".toList.length = c.scheme :=
      List.take_left' hlength
    rw [htake]
    exact hscheme
  have hbasic : ¬strncaseEq (c.scheme ++ c.separator :: authenParamsText c.params) "Basic" 5 = true := by
    intro h
    have heq := (strncaseEq_iff (t := "Basic") (by decide)).mp h
    rw [hcons, List.cons_append] at heq
    have hb : d.toUpper = 'B' := (List.cons.inj heq).1
    rw [hd] at hb
    exact absurd hb (by decide)
  have hadd : Ptr.add (some (c.scheme ++ c.separator :: authenParamsText c.params)) 7 =
      some (authenParamsText c.params) := by
    rw [Ptr.add_of_le (by rw [List.length_append, List.length_cons]; omega), Option.some_inj,
      show 7 = c.scheme.length + 1 by omega, List.drop_append]
    simp
  rw [sippmhParseAuthenticate, hskip]
  dsimp only
  rw [if_neg hbasic, if_pos hdigest, hadd, Option.bind_some]
  cases hparams : c.params with
  | nil => decide
  | cons p ps =>
    refine authenLoop_authenParamsText ?_ _ _
    have hle := length_le_authenParamsText (p :: ps)
    rw [List.length_cons] at hle
    omega

/-- A look at `qop` comes upon NULL: it has been dropped in front of a parameter, and no name up to that is misread. -/
def NullRead (front ps : List AuthParam) : Prop :=
  ∃ between p rest, ps = between ++ p :: rest ∧ QopDropped (front ++ between) ∧ ∀ q ∈ between ++ [p], ¬q.Misread

theorem nullRead_cons (front : List AuthParam) (p : AuthParam) (ps : List AuthParam) :
    NullRead front (p :: ps) ↔ ¬p.Misread ∧ (QopDropped front ∨ NullRead (front ++ [p]) ps) := by
  constructor
  · rintro ⟨between, q, rest, heq, hdropped, hread⟩
    cases between with
    | nil =>
      obtain ⟨rfl, rfl⟩ := List.cons.inj heq
      rw [List.append_nil] at hdropped
      exact ⟨hread p (by simp), .inl hdropped⟩
    | cons r between =>
      obtain ⟨rfl, rfl⟩ := List.cons.inj heq
      refine ⟨hread p (by simp), .inr ⟨between, q, rest, rfl, ?_, fun s hs => hread s ?_⟩⟩
      · rw [List.append_assoc]
        exact hdropped
      · exact List.mem_cons_of_mem p hs
  · rintro ⟨hread, hdropped | ⟨between, q, rest, rfl, hdropped, hmore⟩⟩
    · exact ⟨[], p, ps, rfl, by rwa [List.append_nil], by simpa using hread⟩
    · refine ⟨p :: between, q, rest, rfl, ?_, List.forall_mem_cons.mpr ⟨hread, hmore⟩⟩
      rw [List.append_assoc] at hdropped
      exact hdropped

/-- **The whole of the loop.** A NULL pointer is read, or a name is misread, or the result is what the parameters
say. By induction on the parameters that are left. -/
theorem readParams_cases (hdistinct : ((front ++ ps).filterMap AuthParam.kind).Nodup) :
    (NullRead front ps ∧ readParams ps (authenOf front) (qopGiven front) = none) ∨
      (¬NullRead front ps ∧ (∃ p ∈ ps, p.Misread) ∧ readParams ps (authenOf front) (qopGiven front) = some none) ∨
      (¬NullRead front ps ∧ (∀ p ∈ ps, ¬p.Misread) ∧
        readParams ps (authenOf front) (qopGiven front) = some (validated (authenOf (front ++ ps)))) := by
  induction ps generalizing front with
  | nil =>
    refine .inr (.inr ⟨?_, nofun, by rw [readParams, List.append_nil]⟩)
    rintro ⟨between, p, rest, heq, -⟩
    cases between <;> cases heq
  | cons p ps ih =>
    rw [nullRead_cons, readParams]
    by_cases hread : p.Misread
    · refine .inr (.inl ⟨fun h => h.1 hread, ⟨p, List.mem_cons_self, hread⟩, ?_⟩)
      rw [readParam, if_pos hread]
      rfl
    rcases readParam_authenOf hdistinct hread with ⟨hdropped, hstep⟩ | ⟨hkept, hstep⟩
    · exact .inl ⟨⟨hread, .inl hdropped⟩, by rw [hstep]; rfl⟩
    · rw [and_iff_right hread, or_iff_right hkept, hstep, Option.bind_some, Option.elim_some]
      have hrest : ((front ++ [p] ++ ps).filterMap AuthParam.kind).Nodup := by
        rw [List.append_assoc]
        exact hdistinct
      rcases ih hrest with ⟨hnull, h⟩ | ⟨hnull, ⟨q, hq, hmisread⟩, h⟩ | ⟨hnull, hall, h⟩
      · exact .inl ⟨hnull, h⟩
      · exact .inr (.inl ⟨hnull, ⟨q, List.mem_cons_of_mem p hq, hmisread⟩, h⟩)
      · refine .inr (.inr ⟨hnull, List.forall_mem_cons.mpr ⟨hread, hall⟩, ?_⟩)
        rw [h, List.append_assoc]
        rfl

/-! ## Sound challenges -/

/-- The first token of a list, without the blanks around it. -/
def firstToken (value : CStr) : CStr :=
  ((value.takeWhile (· ≠ ',')).dropWhile isWhiteSpace).rdropWhile isWhiteSpace

/-- A token that is `auth` or `auth-int`. -/
def IsAuth (token : CStr) : Prop := strcaseEq token "auth" = true ∨ strcaseEq token "auth-int" = true

instance (token : CStr) : Decidable (IsAuth token) := inferInstanceAs (Decidable (_ ∨ _))

/-- The first token of the list, when it is `auth` or `auth-int`. -/
def listedQop (value : CStr) : Option CStr := if IsAuth (firstToken value) then some (firstToken value) else none

/-- The text in front of the first comma is `auth` or `auth-int` when it begins with `auth`, and otherwise the first
token is neither. -/
def PlainQop (value : CStr) : Prop :=
  if strncaseEq (value.takeWhile (· ≠ ',')) "auth" 4 then IsAuth (value.takeWhile (· ≠ ','))
  else ¬IsAuth (firstToken value)

namespace Challenge

/-- The header is parsed as it should be: no NULL pointer is read, it is accepted when it has a realm and a nonce, and
then each parameter has the value that is written. -/
def Sound (c : Challenge) : Prop :=
  sippmhParseAuthenticate c.text ≠ none ∧
    ((∃ authen, sippmhParseAuthenticate c.text = some (some authen)) ↔
      (written c.params .realm).isSome ∧ (written c.params .nonce).isSome) ∧
    ∀ authen, sippmhParseAuthenticate c.text = some (some authen) →
      (∀ k, k ≠ .algorithm → k ≠ .qop → authen.param k = written c.params k) ∧
        authen.algorithm = some ((written c.params .algorithm).getD "md5") ∧
          authen.qop = (written c.params .qop).bind listedQop

end Challenge

theorem isWhiteSpace_of_isAuth {token : CStr} (h : IsAuth token) : ∀ c ∈ token, isWhiteSpace c = false := by
  have hletters : ∀ name : CStr, (name = "auth" ∨ name = "auth-int") → strcaseEq token name = true →
      ∀ c ∈ token, isWhiteSpace c = false := by
    intro name hname heq c hc
    rw [strcaseEq, beq_iff_eq] at heq
    have hmem : c.toUpper ∈ name.map Char.toUpper := heq ▸ List.mem_map_of_mem hc
    by_contra hno
    have hcases : c = ' ' ∨ c = '\t' ∨ c = '\n' := by
      simpa [isWhiteSpace, or_assoc, or_iff_not_imp_left] using hno
    rcases hname with rfl | rfl <;> rcases hcases with rfl | rfl | rfl <;> exact absurd hmem (by decide)
  rcases h with h | h
  · exact hletters _ (.inl rfl) h
  · exact hletters _ (.inr rfl) h

theorem firstToken_of_isAuth {value : CStr} (h : IsAuth (value.takeWhile (· ≠ ','))) :
    firstToken value = value.takeWhile (· ≠ ',') := by
  have hwhite := isWhiteSpace_of_isAuth h
  have hfront : (value.takeWhile (· ≠ ',')).dropWhile isWhiteSpace = value.takeWhile (· ≠ ',') := by
    cases hvalue : value.takeWhile (· ≠ ',') with
    | nil => rfl
    | cons c s =>
      rw [hvalue] at hwhite
      exact List.dropWhile_cons_of_neg (by rw [hwhite c List.mem_cons_self]; decide)
  rw [firstToken, hfront, List.rdropWhile_eq_self_iff]
  exact fun hne => by rw [hwhite _ (List.getLast_mem hne)]; decide

theorem keptQop_eq_iff (value : CStr) : keptQop value = listedQop value ↔ PlainQop value := by
  rw [keptQop, listedQop, PlainQop]
  by_cases hauth : strncaseEq (value.takeWhile (· ≠ ',')) "auth" 4 = true
  · rw [if_pos hauth, if_pos hauth]
    constructor
    · intro h
      split_ifs at h with htoken
      rw [Option.some_inj.mp h]
      exact htoken
    · intro h
      rw [firstToken_of_isAuth h, if_pos h]
  · rw [if_neg hauth, if_neg hauth]
    split_ifs with htoken
    · exact iff_of_false nofun fun h => h htoken
    · exact iff_of_true rfl htoken

/-- **Which challenges are parsed as they should be.** No parameter stands behind a `qop` that is dropped, unless a
name is misread before; and when there are a realm and a nonce no name is misread, and the first token of `qop` is
plain. -/
theorem Challenge.sound_iff (c : Challenge) :
    c.Sound ↔ ¬NullRead [] c.params ∧
      ((written c.params .realm).isSome → (written c.params .nonce).isSome →
        (∀ p ∈ c.params, ¬p.Misread) ∧ ∀ value, written c.params .qop = some value → PlainQop value) := by
  have hqop : (∀ value, written c.params .qop = some value → PlainQop value) ↔
      (written c.params .qop).bind keptQop = (written c.params .qop).bind listedQop := by
    cases written c.params .qop with
    | none => exact iff_of_true nofun rfl
    | some value => simp [keptQop_eq_iff]
  rw [Sound, sippmhParseAuthenticate_eq]
  rcases @readParams_cases c.params [] c.distinct with
    ⟨hnull, h⟩ | ⟨hnull, ⟨p, hp, hmisread⟩, h⟩ | ⟨hnull, hall, h⟩
  · rw [h]
    exact iff_of_false (fun hsound => hsound.1 rfl) fun hsound => hsound.1 hnull
  · rw [h, and_iff_right hnull, and_iff_right nofun]
    constructor
    · rintro ⟨haccepted, -⟩ hrealm hnonce
      obtain ⟨_, hno⟩ := haccepted.mpr ⟨hrealm, hnonce⟩
      cases hno
    · intro hsound
      refine ⟨⟨fun ⟨_, hno⟩ => (nomatch hno), fun hgiven => ?_⟩, nofun⟩
      exact absurd hmisread ((hsound hgiven.1 hgiven.2).1 p hp)
  · rw [h, and_iff_right hnull, and_iff_right nofun, hqop, List.nil_append]
    by_cases hgiven : (written c.params .realm).isSome = true ∧ (written c.params .nonce).isSome = true
    · have hvalidated : validated (authenOf c.params) = some (authenOf c.params) := by
        rw [validated, sippmhValidateAuthenticate]
        exact if_pos (by rw [Bool.and_eq_true]; exact hgiven)
      rw [hvalidated]
      constructor
      · exact fun hsound _ _ => ⟨hall, (hsound.2 _ rfl).2.2⟩
      · intro hsound
        refine ⟨iff_of_true ⟨_, rfl⟩ hgiven, ?_⟩
        rintro _ ⟨⟩
        refine ⟨fun k hk hk' => ?_, rfl, (hsound hgiven.1 hgiven.2).2⟩
        cases k with
        | algorithm => exact absurd rfl hk
        | qop => exact absurd rfl hk'
        | _ => rfl
    · have hvalidated : validated (authenOf c.params) = none := by
        rw [validated, sippmhValidateAuthenticate]
        exact if_neg (by rw [Bool.and_eq_true]; exact hgiven)
      rw [hvalidated]
      exact iff_of_true ⟨iff_of_false (fun ⟨_, hno⟩ => (nomatch hno)) hgiven, nofun⟩
        fun hrealm hnonce => absurd ⟨hrealm, hnonce⟩ hgiven

/-- A parameter of a challenge, with no blanks but one in front. -/
def plainParam (name value : CStr) (hne : name ≠ []) (hname : ∀ c ∈ name, isSipTokenChar c = true)
    (hvalue : '"' ∉ value) : AuthParam where
  front := " "
  name := name
  beforeEqual := []
  afterEqual := []
  value := value
  behind := []
  name_ne_nil := hne
  name_token := hname
  value_unquoted := hvalue
  blanks := by decide

/-- A challenge with a `qop` that is neither `auth` nor `auth-int`, in front of its other parameters. -/
def tokenChallenge : Challenge where
  front := []
  scheme := "Digest"
  separator := ' '
  params := [plainParam "qop" "token" (by decide) (by decide) (by decide),
    plainParam "realm" "pbx" (by decide) (by decide) (by decide),
    plainParam "nonce" "1" (by decide) (by decide) (by decide)]
  front_blank := by decide
  scheme_digest := by decide
  separator_blank := by decide
  distinct := by decide

/-- The header of that challenge reads a NULL pointer. -/
theorem not_sound_tokenChallenge :
    tokenChallenge.text = "Digest  qop=\"token\", realm=\"pbx\", nonce=\"1\"" ∧ ¬tokenChallenge.Sound := by
  refine ⟨by decide, fun h => h.1 (by decide)⟩

end Sip
