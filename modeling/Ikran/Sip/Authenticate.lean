import Ikran.Sip.Url
import Mathlib.Data.List.Find

/-!
# The WWW-Authenticate and Proxy-Authenticate headers

The parser of challenges, and what it makes of one parameter with a quoted value. A parameter is recognised by the
first characters of its name, and each quoted value is followed by a look at `qop`, once that has been given.
-/

namespace Sip

open CStr

/-! ## The parser -/

/-- `sip_scheme_t`, as far as it is used. -/
inductive SipScheme
  | basic | digest
  deriving DecidableEq

/-- `sip_authen_t`. -/
structure SipAuthen where
  scheme : SipScheme
  userPass : Option CStr := none
  realm : Option CStr := none
  algorithm : Option CStr := none
  nonce : Option CStr := none
  unparsedDomain : Option CStr := none
  opaqueData : Option CStr := none
  stale : Option CStr := none
  qop : Option CStr := none
  deriving DecidableEq

inductive AuthenParam
  | domain | algorithm | opaqueData | stale | realm | nonce | qop
  deriving DecidableEq

namespace SipAuthen

def param (authen : SipAuthen) : AuthenParam → Option CStr
  | .domain => authen.unparsedDomain
  | .algorithm => authen.algorithm
  | .opaqueData => authen.opaqueData
  | .stale => authen.stale
  | .realm => authen.realm
  | .nonce => authen.nonce
  | .qop => authen.qop

/-- The value of a parameter is set. One that is not recognised is dropped. -/
def setParam (authen : SipAuthen) (p : Option AuthenParam) (value : CStr) : SipAuthen :=
  match p with
  | none => authen
  | some .domain => { authen with unparsedDomain := some value }
  | some .algorithm => { authen with algorithm := some value }
  | some .opaqueData => { authen with opaqueData := some value }
  | some .stale => { authen with stale := some value }
  | some .realm => { authen with realm := some value }
  | some .nonce => { authen with nonce := some value }
  | some .qop => { authen with qop := some value }

end SipAuthen

/-- The characters that `SKIP_WHITE_SPACE` skips. -/
def isWhiteSpace (c : Char) : Bool := c = ' ' || c = '\t' || c = '\n'

def skipWhiteSpace (s : CStr) : CStr := s.dropWhile isWhiteSpace

def strchr (s : CStr) (c : Char) : Option CStr := if c ∈ s then some (s.dropWhile (· ≠ c)) else none

/-- The names of the parameters, in the order of their comparison. -/
def authenNames : List (AuthenParam × CStr) :=
  [(.domain, "domain"), (.algorithm, "algorithm"), (.opaqueData, "opaque"), (.stale, "stale"), (.realm, "realm"),
    (.nonce, "nonce"), (.qop, "qop")]

/-- The parameter whose name the text starts with, and the text behind that. -/
def authenName (input : CStr) : Option (AuthenParam × CStr) :=
  (authenNames.find? fun entry => strncaseEq input entry.2 entry.2.length).map fun entry =>
    (entry.1, input.drop entry.2.length)

/-- The look at `qop`: there is no result when it is NULL. -/
def checkQop (authen : SipAuthen) : Option SipAuthen :=
  authen.qop.map fun qop =>
    let qop := qop.takeWhile (· ≠ ',')
    if strncaseEq qop "auth" 4 || strncaseEq qop "auth-int" 8 then { authen with qop := some qop }
    else { authen with qop := none }

def sippmhValidateAuthenticate (authen : SipAuthen) : Bool := authen.realm.isSome && authen.nonce.isSome

/-- The parameter that is recognised at the start of the text, or none, and the text where its equal sign is looked
for. -/
def authenStart (input : CStr) : Option (Option AuthenParam × CStr) :=
  match authenName input with
  | some (p, rest) => some (some p, rest)
  | none => (strchr input '=').map fun rest => (none, rest)

/-- The loop of `sippmh_parse_authenticate`, with the fuel for as many parameters: there is no result when a NULL
pointer is read, and none inside when the header is refused. -/
def authenLoop : ℕ → CStr → SipAuthen → Bool → Option (Option SipAuthen)
  | 0, _, _, _ => some none
  | fuel + 1, input, authen, qopFound =>
    match authenStart input with
    | none => some none
    | some (p, rest) =>
      let qopFound := qopFound || p = some .qop
      let next (input : CStr) (authen : SipAuthen) : Option (Option SipAuthen) :=
        match strchr input ',' with
        | none => some (if sippmhValidateAuthenticate authen then some authen else none)
        | some comma => authenLoop fuel (skipWhiteSpace comma.tail) authen qopFound
      if (skipWhiteSpace rest).peek ≠ '=' then some none
      else
        let input := skipWhiteSpace (skipWhiteSpace rest).tail
        if input.peek = '"' then
          if '"' ∉ input.tail then some none
          else
            let authen := authen.setParam p (input.tail.takeWhile (· ≠ '"'))
            (if qopFound then checkQop authen else some authen).bind
              (next (input.tail.dropWhile (· ≠ '"')).tail)
        else next input (authen.setParam p (input.takeWhile (· ≠ ',')))

/-- `sippmh_parse_authenticate`, for a text that is present. -/
def sippmhParseAuthenticate (inputChar : CStr) : Option (Option SipAuthen) :=
  let input := skipWhiteSpace inputChar
  if strncaseEq input "Basic" 5 then
    -- the character behind the scheme is skipped, whatever it is
    (Ptr.add (some input) 6).map fun input =>
      let input := skipWhiteSpace input
      if strncaseEq input "realm" 5 then
        let input := skipWhiteSpace (input.drop 5)
        if input.peek ≠ '=' then none
        else some { scheme := .basic, realm := some (skipWhiteSpace input.tail) }
      else some { scheme := .basic, userPass := some input }
  else if strncaseEq input "Digest" 6 then
    (Ptr.add (some input) 7).bind fun input =>
      authenLoop (input.length + 1) (skipWhiteSpace input) { scheme := .digest, algorithm := some "md5" } false
  else some none

/-- A parameter with a quoted value, and the blanks around its parts. -/
structure AuthParam where
  front : CStr
  name : CStr
  beforeEqual : CStr
  afterEqual : CStr
  value : CStr
  behind : CStr
  name_ne_nil : name ≠ []
  name_token : ∀ c ∈ name, isSipTokenChar c = true
  value_unquoted : '"' ∉ value
  blanks : ∀ c ∈ front ++ beforeEqual ++ afterEqual ++ behind, isWhiteSpace c = true

namespace AuthParam

/-- The text from the name on. -/
def body (p : AuthParam) : CStr :=
  p.name ++ (p.beforeEqual ++ '=' :: (p.afterEqual ++ '"' :: (p.value ++ '"' :: p.behind)))

/-- The parameter whose name this is, in whatever case. -/
def kind (p : AuthParam) : Option AuthenParam :=
  (authenNames.find? fun entry => strcaseEq p.name entry.2).map Prod.fst

/-- The name is none of those that are known, and it begins with one of them. -/
def Misread (p : AuthParam) : Prop := p.kind = none ∧ (authenName p.name).isSome

instance (p : AuthParam) : Decidable p.Misread := inferInstanceAs (Decidable (_ ∧ _))

end AuthParam

/-- What one turn of the loop makes of a parameter. -/
def readParam (p : AuthParam) (authen : SipAuthen) (qopFound : Bool) : Option (Option (SipAuthen × Bool)) :=
  if p.Misread then some none
  else
    (if qopFound || p.kind = some .qop then checkQop (authen.setParam p.kind p.value)
      else some (authen.setParam p.kind p.value)).map fun authen =>
        some (authen, qopFound || p.kind = some .qop)

/-! ## The name -/

theorem authenNames_apart : ∀ e ∈ authenNames, ∀ e' ∈ authenNames, strncaseEq e.2 e'.2 e'.2.length = true → e = e' := by
  decide

theorem strncaseEq_authenNames {name rest : CStr} (hrest : rest.peek = '=' ∨ isWhiteSpace rest.peek = true) :
    ∀ e ∈ authenNames, strncaseEq (name ++ rest) e.2 e.2.length = strncaseEq name e.2 e.2.length := by
  intro e he
  have hnul : ∀ e ∈ authenNames, nul ∉ e.2 := by decide
  have hout : ∀ c, c = '=' ∨ isWhiteSpace c = true → ∀ e ∈ authenNames, c.toUpper ∉ e.2.map Char.toUpper := by
    intro c hc
    have hcases : c = '=' ∨ c = ' ' ∨ c = '\t' ∨ c = '\n' := by simpa [isWhiteSpace, or_assoc] using hc
    rcases hcases with rfl | rfl | rfl | rfl <;> decide
  exact strncaseEq_append_of_peek (hnul e he) (hout rest.peek hrest e he)

theorem length_le_of_authenNames {e : AuthenParam × CStr} (he : e ∈ authenNames) {s : CStr}
    (h : strncaseEq s e.2 e.2.length = true) : e.2.length ≤ s.length := by
  have hletters : ∀ e ∈ authenNames, ∀ c ∈ e.2, c.toUpper ≠ nul := by decide
  exact length_le_of_strncaseEq (hletters e he) h

theorem authenName_append {name rest : CStr} (hrest : rest.peek = '=' ∨ isWhiteSpace rest.peek = true) :
    authenName (name ++ rest) = (authenName name).map fun found => (found.1, found.2 ++ rest) := by
  have hfind : authenNames.find? (fun e => strncaseEq (name ++ rest) e.2 e.2.length) =
      authenNames.find? fun e => strncaseEq name e.2 e.2.length :=
    List.find?_congr (strncaseEq_authenNames hrest)
  rw [authenName, authenName, hfind]
  cases hfound : authenNames.find? fun e => strncaseEq name e.2 e.2.length with
  | none => rfl
  | some e =>
    have hstart : strncaseEq name e.2 e.2.length = true := by simpa using List.find?_some hfound
    have hle := length_le_of_authenNames (List.mem_of_find?_eq_some hfound) hstart
    rw [Option.map_some, Option.map_some, Option.map_some, List.drop_append_of_le_length hle]

theorem find?_of_unique {α : Type} {l : List α} {q : α → Bool} {x : α} (hx : x ∈ l) (hq : q x = true)
    (hunique : ∀ y ∈ l, q y = true → y = x) : l.find? q = some x := by
  cases hfound : l.find? q with
  | none => exact absurd hq (by simpa using List.find?_eq_none.mp hfound x hx)
  | some y => rw [hunique y (List.mem_of_find?_eq_some hfound) (List.find?_some hfound)]

theorem strncaseEq_of_strcaseEq {name : CStr} {e : AuthenParam × CStr} (he : e ∈ authenNames)
    (h : strcaseEq name e.2 = true) : strncaseEq name e.2 e.2.length = true ∧
      ∀ e' ∈ authenNames, strncaseEq name e'.2 e'.2.length = true → e' = e := by
  have hnul : ∀ e ∈ authenNames, nul ∉ e.2 := by decide
  rw [strcaseEq, beq_iff_eq] at h
  have hlength : name.length = e.2.length := by simpa using congrArg List.length h
  refine ⟨?_, fun e' he' hstart => ?_⟩
  · rw [strncaseEq_iff (hnul e he), List.take_of_length_le (Nat.le_of_eq hlength)]
    exact h
  · refine (authenNames_apart e he e' he' ?_).symm
    rw [strncaseEq_iff (hnul e' he')] at hstart ⊢
    rw [← hstart, List.map_take, List.map_take, h]

namespace AuthParam

variable {p : AuthParam}

theorem authenName_of_kind {k : AuthenParam} (h : p.kind = some k) : authenName p.name = some (k, []) := by
  obtain ⟨e, hfound, rfl⟩ := Option.map_eq_some_iff.mp h
  have he := List.mem_of_find?_eq_some hfound
  have heq : strcaseEq p.name e.2 = true := by simpa using List.find?_some hfound
  obtain ⟨hstart, hunique⟩ := strncaseEq_of_strcaseEq he heq
  have hlength : p.name.length = e.2.length := by
    rw [strcaseEq, beq_iff_eq] at heq
    simpa using congrArg List.length heq
  rw [authenName, find?_of_unique he hstart hunique, Option.map_some, List.drop_of_length_le (Nat.le_of_eq hlength)]

theorem Misread.exists_rest (h : p.Misread) : ∃ k rest, authenName p.name = some (k, rest) ∧ rest ≠ [] ∧
    ∀ c ∈ rest, isSipTokenChar c = true := by
  obtain ⟨⟨k, rest⟩, hname⟩ := Option.isSome_iff_exists.mp h.2
  refine ⟨k, rest, hname, ?_, ?_⟩
  · rintro rfl
    obtain ⟨e, hfound, heq⟩ := Option.map_eq_some_iff.mp hname
    have he := List.mem_of_find?_eq_some hfound
    have hstart : strncaseEq p.name e.2 e.2.length = true := by simpa using List.find?_some hfound
    have hdrop : p.name.drop e.2.length = [] := (Prod.mk.inj heq).2
    have hle := List.drop_eq_nil_iff.mp hdrop
    have hnul : ∀ e ∈ authenNames, nul ∉ e.2 := by decide
    rw [strncaseEq_iff (hnul e he), List.take_of_length_le hle] at hstart
    have hkind : (authenNames.find? fun entry => strcaseEq p.name entry.2) ≠ none := fun hnone => by
      have hno := List.find?_eq_none.mp hnone e he
      rw [strcaseEq, hstart] at hno
      simp at hno
    exact hkind (Option.map_eq_none_iff.mp h.1)
  · obtain ⟨e, -, heq⟩ := Option.map_eq_some_iff.mp hname
    have hdrop : p.name.drop e.2.length = rest := (Prod.mk.inj heq).2
    exact fun c hc => p.name_token c (List.mem_of_mem_drop (hdrop ▸ hc))

end AuthParam

/-! ## One turn of the loop -/

theorem isSipTokenChar_apart {c : Char} (h : isSipTokenChar c = true) : c ≠ '=' ∧ isWhiteSpace c = false := by
  refine ⟨?_, ?_⟩
  · rintro rfl
    exact absurd h (by decide)
  · by_contra hno
    have hcases : c = ' ' ∨ c = '\t' ∨ c = '\n' := by
      simpa [isWhiteSpace, or_assoc, or_iff_not_imp_left] using hno
    rcases hcases with rfl | rfl | rfl <;> exact absurd h (by decide)

theorem skipWhiteSpace_cons {c : Char} (hc : isWhiteSpace c = false) (s : CStr) : skipWhiteSpace (c :: s) = c :: s :=
  List.dropWhile_cons_of_neg (by rw [hc]; decide)

theorem skipWhiteSpace_append {blanks : CStr} (hblanks : ∀ c ∈ blanks, isWhiteSpace c = true) {c : Char}
    (hc : isWhiteSpace c = false) (s : CStr) : skipWhiteSpace (blanks ++ c :: s) = c :: s := by
  rw [skipWhiteSpace, List.dropWhile_append_of_pos hblanks]
  exact skipWhiteSpace_cons hc s

theorem takeWhile_ne_append {s : CStr} {c : Char} (hs : c ∉ s) (t : CStr) :
    (s ++ c :: t).takeWhile (· ≠ c) = s ∧ (s ++ c :: t).dropWhile (· ≠ c) = c :: t := by
  have hall : ∀ d ∈ s, decide (d ≠ c) = true := fun d hd => by
    simp only [decide_eq_true_eq]
    rintro rfl
    exact hs hd
  rw [List.takeWhile_append_of_pos hall, List.dropWhile_append_of_pos hall]
  simp

theorem authenStart_body (p : AuthParam) (tail : CStr) :
    ∃ found rest, authenStart (p.body ++ tail) = some (found, rest) ∧
      if p.Misread then (skipWhiteSpace rest).peek ≠ '='
      else found = p.kind ∧
        skipWhiteSpace rest = '=' :: (p.afterEqual ++ '"' :: (p.value ++ '"' :: (p.behind ++ tail))) := by
  have hbefore : ∀ c ∈ p.beforeEqual, isWhiteSpace c = true := fun c hc => p.blanks c (by simp [hc])
  have hbody : p.body ++ tail = p.name ++
      (p.beforeEqual ++ '=' :: (p.afterEqual ++ '"' :: (p.value ++ '"' :: (p.behind ++ tail)))) := by
    simp [AuthParam.body]
  have hequal : ∀ s : CStr, peek (p.beforeEqual ++ '=' :: s) = '=' ∨
      isWhiteSpace (peek (p.beforeEqual ++ '=' :: s)) = true := by
    intro s
    cases h : p.beforeEqual with
    | nil => exact .inl rfl
    | cons c blanks => exact .inr (hbefore c (h ▸ List.mem_cons_self))
  rw [authenStart, hbody, authenName_append (hequal _)]
  by_cases hmisread : p.Misread
  · obtain ⟨k, rest, hname, hne, htoken⟩ := hmisread.exists_rest
    obtain ⟨c, s, rfl⟩ := List.exists_cons_of_ne_nil hne
    obtain ⟨hc, hwhite⟩ := isSipTokenChar_apart (htoken c List.mem_cons_self)
    refine ⟨_, _, by rw [hname]; rfl, ?_⟩
    rw [if_pos hmisread, List.cons_append, skipWhiteSpace_cons hwhite]
    exact hc
  · cases hkind : p.kind with
    | some k =>
      refine ⟨_, _, by rw [AuthParam.authenName_of_kind hkind]; rfl, ?_⟩
      rw [if_neg hmisread]
      exact ⟨rfl, skipWhiteSpace_append hbefore (by decide) _⟩
    | none =>
      have hname : authenName p.name = none := by
        rw [AuthParam.Misread, and_iff_right hkind, Bool.not_eq_true, Option.isSome_eq_false_iff,
          Option.isNone_iff_eq_none] at hmisread
        exact hmisread
      have hfree : '=' ∉ p.name ++ p.beforeEqual := by
        rw [List.mem_append, not_or]
        exact ⟨fun h => (isSipTokenChar_apart (p.name_token _ h)).1 rfl, fun h => absurd (hbefore _ h) (by decide)⟩
      refine ⟨none, '=' :: (p.afterEqual ++ '"' :: (p.value ++ '"' :: (p.behind ++ tail))), ?_, ?_⟩
      · rw [hname]
        simp only [Option.map_none, strchr]
        rw [if_pos (by simp), ← List.append_assoc, (takeWhile_ne_append hfree _).2, Option.map_some]
      · rw [if_neg hmisread]
        exact ⟨rfl, skipWhiteSpace_cons (by decide) _⟩

/-- What follows a value: the next parameter, or the end of the header. -/
def authenNext (fuel : ℕ) (input : CStr) (authen : SipAuthen) (qopFound : Bool) : Option (Option SipAuthen) :=
  match strchr input ',' with
  | none => some (if sippmhValidateAuthenticate authen then some authen else none)
  | some comma => authenLoop fuel (skipWhiteSpace comma.tail) authen qopFound

theorem authenLoop_body (fuel : ℕ) (p : AuthParam) (tail : CStr) (authen : SipAuthen) (qopFound : Bool) :
    authenLoop (fuel + 1) (p.body ++ tail) authen qopFound = (readParam p authen qopFound).bind fun read =>
        read.elim (some none) fun next => authenNext fuel (p.behind ++ tail) next.1 next.2 := by
  obtain ⟨found, rest, hstart, hrest⟩ := authenStart_body p tail
  have hafter : ∀ c ∈ p.afterEqual, isWhiteSpace c = true := fun c hc => p.blanks c (by simp [hc])
  rw [authenLoop, hstart, readParam]
  dsimp only
  by_cases hmisread : p.Misread
  · rw [if_pos hmisread] at hrest ⊢
    rw [if_pos hrest]
    rfl
  · rw [if_neg hmisread] at hrest ⊢
    obtain ⟨rfl, hrest⟩ := hrest
    have hvalue := skipWhiteSpace_append hafter (c := '"') (by decide) (p.value ++ '"' :: (p.behind ++ tail))
    obtain ⟨htake, hdrop⟩ := takeWhile_ne_append p.value_unquoted (p.behind ++ tail)
    rw [hrest, if_neg (by simp), List.tail_cons, hvalue, peek_cons, if_pos rfl, List.tail_cons, if_neg (by simp), htake,
      hdrop, List.tail_cons, Option.bind_map]
    rfl

end Sip
