import Ikran.Sip.Url

/-!
# Parameters of a Contact header

The reader of the parameters behind a location of a Contact header, of `ccsip_pmh.c`. It writes into a structure of
its caller, and leaves in it what it does not find.

A q value is a pointer into the text. Where neither a blank nor a semicolon stands behind it, it goes on to the end of
the text for now.
-/

namespace Sip

open CStr

/-- `sipContactParams_t`, without the field that nothing sets. -/
structure ContactParams where
  action : ℕ := 0
  qval : Option CStr := none
  expires : UInt32 := 0
  expiresGmt : Option CStr := none
  flags : UInt32 := 0
  deriving DecidableEq

/-- `PROXY`. -/
def contactProxy : ℕ := 1

/-- `REDIRECT`. -/
def contactRedirect : ℕ := 2

def sipContactParmXCiscoNewreg : UInt32 := 1

inductive ContactParam
  | q (value behind : CStr)
  | action (code : ℕ)
  | seconds (digits : CStr)
  | date (text : CStr)
  | noDate
  | newreg
  | other
  deriving DecidableEq

def ContactParam.store (params : ContactParams) : ContactParam → ContactParams
  | q value behind => { params with qval := some (value ++ behind) }
  | action code => { params with action := code }
  | seconds digits => { params with expires := UInt32.ofNat (strtoul digits).1, expiresGmt := none }
  | date text => { params with expires := 0, expiresGmt := some text }
  | noDate => { params with expiresGmt := none }
  | newreg => { params with flags := params.flags ||| sipContactParmXCiscoNewreg }
  | other => params

/-- What the reader of one parameter gives: the parameter and the text behind it, or the pointer that is returned
when it is not good. -/
abbrev ContactRead := Except (Option CStr) (ContactParam × CStr)

/-- A q value that is good, with the text behind it. -/
def goodQval (value behind : CStr) : ContactRead :=
  if isLws behind.peek then .ok (.q value [], behind.tail)
  -- a semicolon is overwritten before the next parameter
  else .ok (.q value (if behind.peek = ';' then [] else behind), behind)

/-- A digit behind the point of a q value: only zeros may follow a one. -/
def isQdigit (first c : Char) : Bool := if first = '1' then c = '0' else c.isDigit

/-- The text behind the name `q`. -/
def readQval (params : CStr) : ContactRead :=
  let params := skipLws params
  if params.peek ≠ '=' then .error params
  else
    let value := skipLws params.tail
    if value.peek = '0' ∨ value.peek = '1' then
      let params : CStr := value.tail
      if params.peek = '.' then
        let digits : CStr := params.tail
        if digits.peek.isDigit then
          let params : CStr := digits.dropWhile (isQdigit value.peek)
          if value.peek = '1' ∧ params.peek.isDigit then .error params
          else goodQval (textUpTo value (some params)) params
        else .error digits
      else if params.peek = nul ∨ params.peek = ' ' ∨ params.peek = ';' ∨ params.peek = '\t' then
        goodQval (textUpTo value (some params)) params
      else .error params
    else .error value

/-- The text behind the name `action`. -/
def readAction (params : CStr) : ContactRead :=
  let params := skipLws params
  if params.peek ≠ '=' then .error params
  else
    let params := skipLws params.tail
    if strncaseEq params "proxy" 5 then .ok (.action contactProxy, params.drop 5)
    else if strncaseEq params "redirect" 8 then .ok (.action contactRedirect, params.drop 8)
    else .error params

/-- The text behind the name `expires`. -/
def readExpires (params : CStr) : ContactRead :=
  let params := skipLws params
  if params.peek ≠ '=' then .error params
  else
    let params := skipLws params.tail
    if params.peek = nul then .error params
    else if params.peek.isDigit then .ok (.seconds (params.takeWhile Char.isDigit), params.dropWhile Char.isDigit)
    else
      let params := if params.peek = '"' then params.tail else params
      -- the end of the date is looked for in all of the text
      match strstr "GMT" params with
      | none => .ok (.noDate, params)
      | some gmtStr =>
        let behind : CStr := gmtStr.drop 3
        .ok (.date (textUpTo params (some behind)),
          if isLws behind.peek ∨ behind.peek = '"' then behind.tail else behind)

def readContactParam (params : CStr) : ContactRead :=
  if params.peek = 'q' ∨ params.peek = 'Q' then readQval params.tail
  else if strncaseEq params "action" 6 then readAction (params.drop 6)
  else if strncaseEq params "expires" 7 then readExpires (params.drop 7)
  else if strncaseEq params "X-cisco-newreg" 14 then .ok (.newreg, params.drop 14)
  else
    match parseOtherParam params with
    | none => .error none
    | some (_, params) => .ok (.other, params)

/-- The loop of `sippmh_parse_contact_params`, with the fuel for as many parameters. -/
def contactParamsLoop : ℕ → CStr → ContactParams → ContactParams × Option CStr
  | 0, str, params => (params, some str)
  | fuel + 1, str, params =>
    match readContactParam str with
    | .error str => (params, str)
    | .ok (param, str) =>
      let params := param.store params
      let str := skipLws str
      if str.peek = ';' then contactParamsLoop fuel (skipLws str.tail) params else (params, some str)

/-- `sippmh_parse_contact_params`: the parameters, and the pointer that is returned. -/
def sippmhParseContactParams (str : CStr) (params : ContactParams) : ContactParams × Option CStr :=
  let str := skipLws str
  if str.peek = nul then (params, some str) else contactParamsLoop str.length str params

/-- The parameters that the loop reads, and the pointer that it returns. -/
def readParamsLoop : ℕ → CStr → List ContactParam × Option CStr
  | 0, str => ([], some str)
  | fuel + 1, str =>
    match readContactParam str with
    | .error str => ([], str)
    | .ok (param, str) =>
      let str := skipLws str
      if str.peek = ';' then
        (param :: (readParamsLoop fuel (skipLws str.tail)).1, (readParamsLoop fuel (skipLws str.tail)).2)
      else ([param], some str)

/-- The parameters that are read in a text, and the pointer that is returned. -/
def readContactParams (str : CStr) : List ContactParam × Option CStr :=
  let str := skipLws str
  if str.peek = nul then ([], some str) else readParamsLoop str.length str

theorem contactParamsLoop_eq (fuel : ℕ) (str : CStr) (params : ContactParams) : contactParamsLoop fuel str params =
      ((readParamsLoop fuel str).1.foldl ContactParam.store params, (readParamsLoop fuel str).2) := by
  induction fuel generalizing str params with
  | zero => rfl
  | succ fuel ih =>
    rw [contactParamsLoop, readParamsLoop]
    cases readContactParam str with
    | error str => rfl
    | ok read =>
      obtain ⟨param, str⟩ := read
      dsimp only
      split_ifs with hmore
      · exact ih _ _
      · rfl

/-- **The parameters are stored one after the other**, whatever the structure holds. -/
theorem sippmhParseContactParams_eq (str : CStr) (params : ContactParams) : sippmhParseContactParams str params =
      ((readContactParams str).1.foldl ContactParam.store params, (readContactParams str).2) := by
  rw [sippmhParseContactParams, readContactParams]
  split_ifs
  · rfl
  · exact contactParamsLoop_eq _ _ _

/-! ## The q values that are read -/

/-- A q value: a zero with any digits behind the point, or a one with zeros. -/
inductive IsQvalue : CStr → Prop
  | whole (c : Char) (hc : c = '0' ∨ c = '1') : IsQvalue [c]
  | zero (digits : CStr) (hne : digits ≠ []) (hdigits : ∀ c ∈ digits, c.isDigit = true) :
    IsQvalue ('0' :: '.' :: digits)
  | one (digits : CStr) (hne : digits ≠ []) (hdigits : ∀ c ∈ digits, c = '0') : IsQvalue ('1' :: '.' :: digits)

theorem qval_of_goodQval {value behind v b rest : CStr} (h : goodQval value behind = .ok (.q v b, rest)) :
    v = value ∧ (b = [] ∨ b = rest ∧ skipLws rest = rest ∧ rest.peek ≠ ';') := by
  rw [goodQval] at h
  split_ifs at h with hblank hsemi
  · obtain ⟨⟨rfl, rfl⟩, rfl⟩ := by simpa using h
    exact ⟨rfl, .inl rfl⟩
  · obtain ⟨⟨rfl, rfl⟩, rfl⟩ := by simpa using h
    exact ⟨rfl, .inl rfl⟩
  · obtain ⟨⟨rfl, rfl⟩, rfl⟩ := by simpa using h
    refine ⟨rfl, .inr ⟨rfl, ?_, hsemi⟩⟩
    exact skipLws_of_peek (Bool.eq_false_of_not_eq_true hblank)

theorem isQvalue_whole {value : CStr} (h : value.peek = '0' ∨ value.peek = '1') :
    IsQvalue (textUpTo value (some value.tail)) := by
  cases value with
  | nil => rcases h with h | h <;> exact absurd h (by decide)
  | cons c s =>
    rw [List.tail_cons, show c :: s = [c] ++ s from rfl, textUpTo_append]
    exact .whole c h

theorem isQvalue_digits {value : CStr} (h : value.peek = '0' ∨ value.peek = '1') (hpoint : peek value.tail = '.')
    (hdigit : (peek value.tail.tail).isDigit = true) {rest : CStr}
    (hrest : rest = value.tail.tail.dropWhile (isQdigit value.peek))
    (hstop : ¬(value.peek = '1' ∧ rest.peek.isDigit = true)) : IsQvalue (textUpTo value (some rest)) := by
  obtain ⟨c, s, rfl⟩ : ∃ c s, value = c :: '.' :: s := by
    cases value with
    | nil => rcases h with h | h <;> exact absurd h (by decide)
    | cons c s =>
      have hs := cons_tail_of_peek hpoint (by decide)
      rw [List.tail_cons] at hs
      exact ⟨c, s.tail, by rw [← hs]⟩
  rw [peek_cons] at h hrest hstop
  rw [List.tail_cons, List.tail_cons] at hdigit hrest
  have hsplit : s.takeWhile (isQdigit c) ++ rest = s := by
    rw [hrest]
    exact List.takeWhile_append_dropWhile
  have htext : textUpTo (c :: '.' :: s) (some rest) = c :: '.' :: s.takeWhile (isQdigit c) := by
    have happend := textUpTo_append (c :: '.' :: s.takeWhile (isQdigit c)) rest
    rwa [List.cons_append, List.cons_append, hsplit] at happend
  have hne : s.takeWhile (isQdigit c) ≠ [] := by
    intro hnil
    rw [hnil, List.nil_append] at hsplit
    rw [hsplit] at hstop
    cases s with
    | nil => exact absurd hdigit (by decide)
    | cons d s =>
      rw [peek_cons] at hdigit hstop
      rw [List.takeWhile_cons] at hnil
      rcases h with rfl | rfl
      · have hpass : isQdigit '0' d = true := hdigit
        rw [hpass, if_pos rfl] at hnil
        cases hnil
      · exact hstop ⟨rfl, hdigit⟩
  rw [htext]
  rcases h with rfl | rfl
  · exact .zero _ hne fun d hd => List.mem_takeWhile_imp hd
  · refine .one _ hne fun d hd => ?_
    have hzero : isQdigit '1' d = true := List.mem_takeWhile_imp hd
    exact of_decide_eq_true hzero

/-- **A q value that is read has its form**, and goes on with the text behind it or with nothing. -/
theorem qval_of_readContactParam {str v b rest : CStr} (h : readContactParam str = .ok (.q v b, rest)) :
    IsQvalue v ∧ (b = [] ∨ b = rest ∧ skipLws rest = rest ∧ rest.peek ≠ ';') := by
  rw [readContactParam] at h
  by_cases hq : str.peek = 'q' ∨ str.peek = 'Q'
  · rw [if_pos hq, readQval] at h
    by_cases hequal : peek (skipLws str.tail) = '='
    case neg => rw [if_pos hequal] at h; cases h
    rw [if_neg (not_not.mpr hequal)] at h
    generalize skipLws (skipLws str.tail).tail = value at h
    by_cases hfirst : value.peek = '0' ∨ value.peek = '1'
    case neg => rw [if_neg hfirst] at h; cases h
    rw [if_pos hfirst] at h
    by_cases hpoint : peek value.tail = '.'
    · rw [if_pos hpoint] at h
      by_cases hdigit : (peek value.tail.tail).isDigit = true
      case neg => rw [if_neg hdigit] at h; cases h
      rw [if_pos hdigit] at h
      by_cases hstop : value.peek = '1' ∧ (peek (value.tail.tail.dropWhile (isQdigit value.peek))).isDigit = true
      · rw [if_pos hstop] at h
        cases h
      · rw [if_neg hstop] at h
        obtain ⟨rfl, hbehind⟩ := qval_of_goodQval h
        exact ⟨isQvalue_digits hfirst hpoint hdigit rfl hstop, hbehind⟩
    · rw [if_neg hpoint] at h
      split_ifs at h
      · obtain ⟨rfl, hbehind⟩ := qval_of_goodQval h
        exact ⟨isQvalue_whole hfirst, hbehind⟩
  · -- the other readers give no q value
    rw [if_neg hq] at h
    split_ifs at h
    · rw [readAction] at h
      dsimp only at h
      split_ifs at h <;> cases h
    · rw [readExpires] at h
      dsimp only at h
      split_ifs at h
      · cases h
      · split at h <;> cases h
      · split at h <;> cases h
    · cases h
    · split at h <;> cases h

/-- **The q values that are read** have their form, and one that goes on is behind all that is read. -/
theorem qvalues_readParamsLoop (fuel : ℕ) (str : CStr) {v b : CStr} (h : .q v b ∈ (readParamsLoop fuel str).1) :
    IsQvalue v ∧ (b = [] ∨ (readParamsLoop fuel str).2 = some b) := by
  induction fuel generalizing str with
  | zero => cases h
  | succ fuel ih =>
    rw [readParamsLoop] at h ⊢
    cases hread : readContactParam str with
    | error rest =>
      rw [hread] at h
      cases h
    | ok read =>
      obtain ⟨param, rest⟩ := read
      rw [hread] at h
      dsimp only at h ⊢
      split_ifs at h ⊢ with hmore
      · rcases List.mem_cons.mp h with rfl | h
        · obtain ⟨hform, hbehind⟩ := qval_of_readContactParam hread
          refine ⟨hform, .inl (hbehind.resolve_right ?_)⟩
          rintro ⟨-, hskip, hsemi⟩
          rw [hskip] at hmore
          exact hsemi hmore
        · exact ih _ h
      · obtain rfl := List.mem_singleton.mp h
        obtain ⟨hform, hbehind⟩ := qval_of_readContactParam hread
        refine ⟨hform, hbehind.imp_right ?_⟩
        rintro ⟨rfl, hskip, -⟩
        rw [hskip]

theorem qvalues_readContactParams {str v b : CStr} (h : .q v b ∈ (readContactParams str).1) :
    IsQvalue v ∧ (b = [] ∨ (readContactParams str).2 = some b) := by
  rw [readContactParams] at h ⊢
  split_ifs at h ⊢
  · cases h
  · exact qvalues_readParamsLoop _ _ h

end Sip
