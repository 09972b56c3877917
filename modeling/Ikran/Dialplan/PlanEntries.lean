import Ikran.Dialplan.PlanText
import Mathlib.Data.List.Find
import Mathlib.Data.List.TakeDrop

/-!
# What is left of an entry

The entries of a dial plan by their grammar, with the values as they stand in the text, and what
`ParseDialEntry` leaves of an entry in the list of templates.
-/

namespace Dialplan

open CStr

/-- The attributes that are given, with all characters of their values. -/
abbrev Given := List (DialKeyword × CStr)

/-- The attributes in front of a text. -/
inductive Attributes : CStr → Given → CStr → Prop
  | done (s : CStr) : Attributes s [] s
  | attr {s s₁ s₂ s₃ r k value : CStr} {a : DialKeyword} {g : Given} :
      nextToken s = (.keyword k, s₁) → dialKeyword k = some a → nextToken s₁ = (.eq, s₂) →
      nextToken s₂ = (.str value, s₃) → Attributes s₃ g r → Attributes s ((a, value) :: g) r

/-- The end of an entry: an empty bracket, or the bracket of the start tag and an end tag. -/
inductive Closes : CStr → CStr → Prop
  | empty {s r : CStr} : nextToken s = (.emptybracket, r) → Closes s r
  | endTag {s s₁ s₂ s₃ r k : CStr} :
      nextToken s = (.rbracket, s₁) → nextToken s₁ = (.endlbracket, s₂) → nextToken s₂ = (.keyword k, s₃) →
      strcaseEq k "TEMPLATE" → nextToken s₃ = (.rbracket, r) → Closes s r

/-- An empty bracket inside of an attribute, or behind the bracket of the start tag. -/
inductive Unfinished : CStr → Prop
  | name {s s₁ r k : CStr} {a : DialKeyword} :
      nextToken s = (.keyword k, s₁) → dialKeyword k = some a → nextToken s₁ = (.emptybracket, r) → Unfinished s
  | value {s s₁ s₂ r k : CStr} {a : DialKeyword} :
      nextToken s = (.keyword k, s₁) → dialKeyword k = some a → nextToken s₁ = (.eq, s₂) →
      nextToken s₂ = (.emptybracket, r) → Unfinished s
  | startTag {s s₁ r : CStr} :
      nextToken s = (.rbracket, s₁) → nextToken s₁ = (.emptybracket, r) → Unfinished s
  | endBracket {s s₁ s₂ r : CStr} :
      nextToken s = (.rbracket, s₁) → nextToken s₁ = (.endlbracket, s₂) → nextToken s₂ = (.emptybracket, r) →
      Unfinished s
  | endTag {s s₁ s₂ s₃ r k : CStr} :
      nextToken s = (.rbracket, s₁) → nextToken s₁ = (.endlbracket, s₂) → nextToken s₂ = (.keyword k, s₃) →
      strcaseEq k "TEMPLATE" → nextToken s₃ = (.emptybracket, r) → Unfinished s

/-- The value that an attribute has: the last one that is given. -/
def Given.value (g : Given) (a : DialKeyword) : Option CStr := (g.reverse.find? fun n => n.1 = a).map (·.2)

def Given.tones (g : Given) : List CStr := (g.filter fun n => n.1 = .tone).map (·.2)

/-- A template has the values that are given. -/
structure Carries (t : DialTemplate) (g : Given) : Prop where
  pattern : t.pattern = (g.value .matchKey).getD []
  line : (t.line.toNat : ℤ) = (g.value .line).elim 0 atoi
  timeout : t.timeout = (g.value .timeout).elim dialTimeout atoi
  userMode : some t.userMode = (g.value .user).elim (some .unspec) userModeNamed
  rewrite : t.rewrite = (g.value .rewrite).getD []
  routeMode : some t.routeMode = (g.value .route).elim (some .default) routeModeNamed
  tones : t.tones.map some = g.tones.map toneNamed

def cutValue (value : CStr) : CStr := value.take (entryBuffer - 1)

/-- The values are assigned, one after another. -/
def assignAll : DialVars → Given → Option DialVars
  | v, [] => some v
  | v, (a, value) :: g => (v.assign a (cutValue value)).bind fun v => assignAll v g

/-- No value is refused. -/
def Accepted (g : Given) : Prop := (assignAll {} g).isSome

/-- The values that are given are not changed by their buffers: the pattern and the rewrite string fit, and the
numbers are the same with the characters that fit. The line is stored in a byte. -/
structure Fits (g : Given) : Prop where
  pattern : ((g.value .matchKey).getD []).length < entryBuffer
  line : ∀ value, g.value .line = some value → atoi (cutValue value) % 256 = atoi value
  timeout : ∀ value, g.value .timeout = some value → atoi (cutValue value) = atoi value
  rewrite : ((g.value .rewrite).getD []).length < entryBuffer

/-- Nothing but a template with the values of the entry is added to the list, and only when the entry is read
without an error. -/
def Clean (available : Bool) (s : CStr) : Prop :=
  ∃ e, parseDialEntry s = some e ∧ ∀ before : List DialTemplate,
    (e.ret = 0 ∧ ∃ t g r, Attributes s g r ∧ Closes r e.rest ∧ Carries t g ∧
      e.template.elim before (addDialTemplate available before) = before ++ [t]) ∨
    (e.ret = 1 ∧ e.template.elim before (addDialTemplate available before) = before)

/-- The condition: attributes whose values are accepted are not followed by an empty bracket that comes too early
while there is memory, and when they are the attributes of an entry, there is memory for the template, and the values
fit. -/
def EntryCondition (available : Bool) (s : CStr) : Prop :=
  ∀ g r, Attributes s g r → Accepted g →
    (Unfinished r → available = false) ∧ ∀ rest, Closes r rest → available = true ∧ Fits g

/-- The texts at which `ParseDialEntry` is called. -/
def entryTextsFrom : ℕ → Look → CStr → List CStr
  | 0, _, _ => []
  | fuel + 1, look, s =>
    let r := parseXmlTokens maxTemplateLength s
    if r.1 = .eof then []
    else
      let next := lookStep look r.1
      match next.2 with
      | .none => entryTextsFrom fuel next.1 r.2
      | .entry =>
        r.2 :: (parseDialEntry r.2).elim [] fun e =>
          entryTextsFrom fuel { next.1 with errors := next.1.errors + e.ret } e.rest
      | .version =>
        (parseDialVersion r.2).elim [] fun e =>
          entryTextsFrom fuel { next.1 with errors := next.1.errors + e.ret } e.rest

/-- The texts at which `ParseDialTemplate` calls `ParseDialEntry`. -/
def entryTexts (s : CStr) : List CStr := entryTextsFrom (s.length + 1) {} s

def readsEntry (s : CStr) : Bool := (parseDialEntry s).any fun e => e.ret = 0

/-- Every entry is clean, and the list is made up of those that are read without an error, in their order. -/
def CleanRun (available : CStr → Bool) (s : CStr) : Prop :=
  ∃ ok plan, parseDialTemplate available (some s) = some (ok, plan) ∧
    (∀ c ∈ entryTexts s, Clean (available c) c) ∧
    List.Forall₂ (fun c t => ∃ g r rest, Attributes c g r ∧ Closes r rest ∧ Carries t g)
      ((entryTexts s).filter readsEntry) plan.basetemplate

variable {s : CStr}

theorem strcaseEq_take {name : CStr} {n : ℕ} (h : name.length < n) : strcaseEq (s.take n) name = strcaseEq s name := by
  rcases Nat.lt_or_ge n s.length with hlt | hge
  · have hcut : ¬(s.take n).map Char.toUpper = name.map Char.toUpper := by
      intro heq
      have hlen := congrArg List.length heq
      rw [List.length_map, List.length_map, List.length_take] at hlen
      omega
    have hfull : ¬s.map Char.toUpper = name.map Char.toUpper := by
      intro heq
      have hlen := congrArg List.length heq
      rw [List.length_map, List.length_map] at hlen
      omega
    rw [strcaseEq, strcaseEq, beq_eq_false_iff_ne.mpr hcut, beq_eq_false_iff_ne.mpr hfull]
  · rw [List.take_of_length_le hge]

theorem dialKeyword_cutValue (k : CStr) : dialKeyword (cutValue k) = dialKeyword k := by
  simp (disch := decide) only [dialKeyword, cutValue, strcaseEq_take]

theorem userModeNamed_cutValue (value : CStr) : userModeNamed (cutValue value) = userModeNamed value := by
  simp (disch := decide) only [userModeNamed, cutValue, strcaseEq_take]

theorem routeModeNamed_cutValue (value : CStr) : routeModeNamed (cutValue value) = routeModeNamed value := by
  simp (disch := decide) only [routeModeNamed, cutValue, strcaseEq_take]

theorem toneNamed_cutValue (value : CStr) : toneNamed (cutValue value) = toneNamed value := by
  have hnil : cutValue value = [] ↔ value = [] := by
    rw [cutValue, List.take_eq_nil_iff]
    exact or_iff_right (by decide)
  have hnames : ∀ n ∈ toneNames, n.1.length < entryBuffer - 1 := by decide
  rw [toneNamed, toneNamed]
  by_cases h : value = []
  · rw [if_pos h, if_pos (hnil.mpr h)]
  · rw [if_neg h, if_neg (mt hnil.mp h)]
    congr 1
    exact List.find?_congr fun n hn => strcaseEq_take (hnames n hn)

/-! ## The loop follows the grammar -/

variable {v v' : DialVars} {fuel : ℕ} {tok : XmlToken} {r : CStr} {state : ParseDialState}

theorem entryLoop_go {st : ParseDialState}
    (hnext : nextToken s = (tok, r)) (hstep : entryStep state v (tok.cut entryBuffer) = .go st v') :
    entryLoop (fuel + 1) state v s = entryLoop fuel st v' r := by
  have hparse : parseXmlTokens entryBuffer s = (tok.cut entryBuffer, r) := by rw [parseXmlTokens, hnext]
  rw [entryLoop, hparse]
  dsimp only
  rw [hstep]

theorem entryLoop_stop {ret : ℕ} {template : Option DialTemplate} (hnext : nextToken s = (tok, r))
    (hstep : entryStep state v (tok.cut entryBuffer) = .stop ret template) :
    entryLoop (fuel + 1) state v s = some { ret, template, rest := r } := by
  have hparse : parseXmlTokens entryBuffer s = (tok.cut entryBuffer, r) := by rw [parseXmlTokens, hnext]
  rw [entryLoop, hparse]
  dsimp only
  rw [hstep]

theorem length_lt_of_nextToken (hnext : nextToken s = (tok, r)) (htok : tok ≠ .eof) : r.length < s.length := by
  have hlt := @length_nextToken_lt s (by rw [hnext]; exact htok)
  rwa [hnext] at hlt

variable {k : CStr}

theorem entryStep_name {a : DialKeyword} (v : DialVars) (h : dialKeyword k = some a) :
    entryStep .any v ((XmlToken.keyword k).cut entryBuffer) = .go (.got a) v := by
  have hcut : dialKeyword (k.take (entryBuffer - 1)) = some a := (dialKeyword_cutValue k).trans h
  rw [XmlToken.cut, entryStep, hcut]
  rfl

theorem entryStep_endName (v : DialVars) (h : strcaseEq k "TEMPLATE") :
    entryStep .endTagStarted v ((XmlToken.keyword k).cut entryBuffer) = .go .endTagFound v := by
  rw [XmlToken.cut, entryStep, if_pos (by rw [strcaseEq_take (by decide)]; exact h)]

variable {g : Given}

theorem entryLoop_of_attributes (h : Attributes s g r) (hassign : assignAll v g = some v') (hfuel : s.length < fuel) :
    ∃ left, r.length < left ∧ entryLoop fuel .any v s = entryLoop left .any v' r := by
  induction h generalizing v fuel with
  | done s => exact ⟨fuel, hfuel, by rw [Option.some_inj.mp hassign]⟩
  | @attr s s₁ s₂ s₃ r k value a g hname hkey heq hstr _ ih =>
    rw [assignAll] at hassign
    obtain ⟨v₁, hv₁, hrest⟩ := Option.bind_eq_some_iff.mp hassign
    have hlt₁ := length_lt_of_nextToken hname nofun
    have hlt₂ := length_lt_of_nextToken heq nofun
    have hlt₃ := length_lt_of_nextToken hstr nofun
    obtain ⟨n, rfl⟩ : ∃ n, fuel = n + 3 := ⟨fuel - 3, by omega⟩
    obtain ⟨left, hleft, hloop⟩ := @ih v₁ n hrest (by omega)
    refine ⟨left, hleft, ?_⟩
    rw [entryLoop_go hname (entryStep_name v hkey), entryLoop_go heq (by rfl), ← hloop]
    refine entryLoop_go hstr ?_
    have hcut : v.assign a (value.take (entryBuffer - 1)) = some v₁ := hv₁
    rw [XmlToken.cut, entryStep, hcut]
    rfl

theorem entryLoop_of_closes (h : Closes s r) (v : DialVars) (hfuel : s.length < fuel) :
    entryLoop fuel .any v s = some { ret := 0, template := some v.template, rest := r } := by
  cases h with
  | empty hempty =>
    obtain ⟨n, rfl⟩ : ∃ n, fuel = n + 1 := ⟨fuel - 1, by omega⟩
    exact entryLoop_stop hempty rfl
  | endTag hstart hbracket hname htag hclose =>
    have hlt₁ := length_lt_of_nextToken hstart nofun
    have hlt₂ := length_lt_of_nextToken hbracket nofun
    have hlt₃ := length_lt_of_nextToken hname nofun
    obtain ⟨n, rfl⟩ : ∃ n, fuel = n + 4 := ⟨fuel - 4, by omega⟩
    rw [entryLoop_go hstart (by rfl), entryLoop_go hbracket (by rfl), entryLoop_go hname (entryStep_endName v htag)]
    exact entryLoop_stop hclose rfl

/-- At an empty bracket that comes too early the template is added as well, and the entry is refused. -/
theorem entryLoop_of_unfinished (h : Unfinished s) (v : DialVars) (hfuel : s.length < fuel) :
    ∃ rest, entryLoop fuel .any v s = some { ret := 1, template := some v.template, rest } := by
  cases h with
  | @name s₁ r k a hname hkey hempty =>
    have hlt₁ := length_lt_of_nextToken hname nofun
    obtain ⟨n, rfl⟩ : ∃ n, fuel = n + 2 := ⟨fuel - 2, by omega⟩
    rw [entryLoop_go hname (entryStep_name v hkey)]
    exact ⟨r, entryLoop_stop hempty rfl⟩
  | @value s₁ s₂ r k a hname hkey heq hempty =>
    have hlt₁ := length_lt_of_nextToken hname nofun
    have hlt₂ := length_lt_of_nextToken heq nofun
    obtain ⟨n, rfl⟩ : ∃ n, fuel = n + 3 := ⟨fuel - 3, by omega⟩
    rw [entryLoop_go hname (entryStep_name v hkey), entryLoop_go heq (by rfl)]
    exact ⟨r, entryLoop_stop hempty rfl⟩
  | @startTag s₁ r hstart hempty =>
    have hlt₁ := length_lt_of_nextToken hstart nofun
    obtain ⟨n, rfl⟩ : ∃ n, fuel = n + 2 := ⟨fuel - 2, by omega⟩
    rw [entryLoop_go hstart (by rfl)]
    exact ⟨r, entryLoop_stop hempty rfl⟩
  | @endBracket s₁ s₂ r hstart hbracket hempty =>
    have hlt₁ := length_lt_of_nextToken hstart nofun
    have hlt₂ := length_lt_of_nextToken hbracket nofun
    obtain ⟨n, rfl⟩ : ∃ n, fuel = n + 3 := ⟨fuel - 3, by omega⟩
    rw [entryLoop_go hstart (by rfl), entryLoop_go hbracket (by rfl)]
    exact ⟨r, entryLoop_stop hempty rfl⟩
  | @endTag s₁ s₂ s₃ r k hstart hbracket hname htag hempty =>
    have hlt₁ := length_lt_of_nextToken hstart nofun
    have hlt₂ := length_lt_of_nextToken hbracket nofun
    have hlt₃ := length_lt_of_nextToken hname nofun
    obtain ⟨n, rfl⟩ : ∃ n, fuel = n + 4 := ⟨fuel - 4, by omega⟩
    rw [entryLoop_go hstart (by rfl), entryLoop_go hbracket (by rfl), entryLoop_go hname (entryStep_endName v htag)]
    exact ⟨r, entryLoop_stop hempty rfl⟩

/-! ## The grammar follows the loop -/

theorem entryStep_go {st : ParseDialState} (h : entryStep state v tok = .go st v') :
    (∃ k a, state = .any ∧ tok = .keyword k ∧ dialKeyword k = some a ∧ st = .got a ∧ v' = v) ∨
      (∃ a, state = .got a ∧ tok = .eq ∧ st = .gotEq a ∧ v' = v) ∨
      (∃ a value, state = .gotEq a ∧ tok = .str value ∧ v.assign a value = some v' ∧ st = .any) ∨
      (state = .any ∧ tok = .rbracket ∧ st = .startTagCompleted ∧ v' = v) ∨
      (state = .startTagCompleted ∧ tok = .endlbracket ∧ st = .endTagStarted ∧ v' = v) ∨
      (∃ k, state = .endTagStarted ∧ tok = .keyword k ∧ strcaseEq k "TEMPLATE" ∧ st = .endTagFound ∧ v' = v) := by
  cases tok with
  | keyword k =>
    cases state with
    | any =>
      rw [entryStep] at h
      cases hk : dialKeyword k with
      | none => rw [hk] at h; cases h
      | some a => rw [hk] at h; cases h; exact .inl ⟨k, a, rfl, rfl, hk, rfl, rfl⟩
    | endTagStarted =>
      rw [entryStep] at h
      split_ifs at h with hk
      · cases h
        exact .inr (.inr (.inr (.inr (.inr ⟨k, rfl, rfl, hk, rfl, rfl⟩))))
    | _ => cases h
  | eq =>
    cases state with
    | got a => cases h; exact .inr (.inl ⟨a, rfl, rfl, rfl, rfl⟩)
    | _ => cases h
  | str value =>
    cases state with
    | gotEq a =>
      rw [entryStep] at h
      cases hv : v.assign a value with
      | none => rw [hv] at h; cases h
      | some v₁ => rw [hv] at h; cases h; exact .inr (.inr (.inl ⟨a, value, rfl, rfl, hv, rfl⟩))
    | _ => cases h
  | rbracket =>
    cases state with
    | any => cases h; exact .inr (.inr (.inr (.inl ⟨rfl, rfl, rfl, rfl⟩)))
    | _ => cases h
  | endlbracket =>
    cases state with
    | startTagCompleted => cases h; exact .inr (.inr (.inr (.inr (.inl ⟨rfl, rfl, rfl, rfl⟩))))
    | _ => cases h
  | _ => cases h

/-- The tokens at which the loop returns, by the state: a template is added at an empty bracket, and at the bracket
of an end tag. -/
theorem entryStep_stop {ret : ℕ} {template : Option DialTemplate} (h : entryStep state v tok = .stop ret template) :
    (template = none ∧ ret = 1) ∨
      (template = some v.template ∧ tok = .emptybracket ∧ ret = if state = .any then 0 else 1) ∨
      (template = some v.template ∧ tok = .rbracket ∧ state = .endTagFound ∧ ret = 0) := by
  cases tok with
  | keyword k =>
    cases state with
    | any =>
      rw [entryStep] at h
      cases hk : dialKeyword k with
      | none => rw [hk] at h; cases h; exact .inl ⟨rfl, rfl⟩
      | some a => rw [hk] at h; cases h
    | endTagStarted =>
      rw [entryStep] at h
      split_ifs at h with hk
      cases h
      exact .inl ⟨rfl, rfl⟩
    | _ => cases h; exact .inl ⟨rfl, rfl⟩
  | eq =>
    cases state with
    | got a => cases h
    | _ => cases h; exact .inl ⟨rfl, rfl⟩
  | str value =>
    cases state with
    | gotEq a =>
      rw [entryStep] at h
      cases hv : v.assign a value with
      | none => rw [hv] at h; cases h; exact .inl ⟨rfl, rfl⟩
      | some v₁ => rw [hv] at h; cases h
    | _ => cases h; exact .inl ⟨rfl, rfl⟩
  | rbracket =>
    cases state with
    | any => cases h
    | endTagFound => cases h; exact .inr (.inr ⟨rfl, rfl, rfl, rfl⟩)
    | _ => cases h; exact .inl ⟨rfl, rfl⟩
  | endlbracket =>
    cases state with
    | startTagCompleted => cases h
    | _ => cases h; exact .inl ⟨rfl, rfl⟩
  | emptybracket =>
    rw [entryStep] at h
    cases h
    exact .inr (.inl ⟨rfl, rfl, rfl⟩)
  | _ => cases h; exact .inl ⟨rfl, rfl⟩

variable {e : EntryEnd} {t : DialTemplate}

theorem entryLoop_inv (h : entryLoop fuel state v s = some e) (ht : e.template = some t) :
    ∃ tok r, nextToken s = (tok, r) ∧
      ((∃ n st v', n < fuel ∧ entryStep state v (tok.cut entryBuffer) = .go st v' ∧ entryLoop n st v' r = some e) ∨
        (entryStep state v (tok.cut entryBuffer) = .stop e.ret (some t) ∧ e.rest = r)) := by
  cases fuel with
  | zero => cases h
  | succ fuel =>
    refine ⟨(nextToken s).1, (nextToken s).2, rfl, ?_⟩
    match hstep : entryStep state v ((nextToken s).1.cut entryBuffer) with
    | .go st v' =>
      rw [entryLoop_go rfl hstep] at h
      exact .inl ⟨fuel, st, v', Nat.lt_succ_self fuel, rfl, h⟩
    | .stop ret template =>
      rw [entryLoop_stop rfl hstep] at h
      obtain rfl := Option.some_inj.mp h
      obtain rfl : template = some t := ht
      exact .inr ⟨rfl, rfl⟩

theorem ret_of_template_eq_none (h : entryLoop fuel state v s = some e) (ht : e.template = none) : e.ret = 1 := by
  induction fuel generalizing state v s with
  | zero => cases h
  | succ fuel ih =>
    match hstep : entryStep state v ((nextToken s).1.cut entryBuffer) with
    | .go st v' =>
      rw [entryLoop_go rfl hstep] at h
      exact ih h
    | .stop ret template =>
      rw [entryLoop_stop rfl hstep] at h
      obtain rfl := Option.some_inj.mp h
      obtain rfl : template = none := ht
      rcases entryStep_stop hstep with ⟨-, hret⟩ | ⟨hsome, -⟩ | ⟨hsome, -⟩
      · exact hret
      · cases hsome
      · cases hsome

theorem cut_eq_keyword {maxlen : ℕ} (h : tok.cut maxlen = .keyword k) :
    ∃ name, tok = .keyword name ∧ k = name.take (maxlen - 1) := by
  cases tok <;> cases h
  exact ⟨_, rfl, rfl⟩

theorem cut_eq_str {maxlen : ℕ} {value : CStr} (h : tok.cut maxlen = .str value) :
    ∃ whole, tok = .str whole ∧ value = whole.take (maxlen - 1) := by
  cases tok <;> cases h
  exact ⟨_, rfl, rfl⟩

theorem cut_eq_bare {maxlen : ℕ} {bare : XmlToken} (h : tok.cut maxlen = bare)
    (hbare : bare = .eq ∨ bare = .rbracket ∨ bare = .endlbracket ∨ bare = .emptybracket) : tok = bare := by
  rcases hbare with rfl | rfl | rfl | rfl <;> cases tok <;> cases h <;> rfl

/-- Before the end tag is found, the loop stops with a template at an empty bracket only. -/
theorem emptybracket_of_stop {maxlen ret : ℕ} (h : entryStep state v (tok.cut maxlen) = .stop ret (some t))
    (hstate : state ≠ .endTagFound) : tok = .emptybracket ∧ t = v.template ∧ ret = if state = .any then 0 else 1 := by
  rcases entryStep_stop h with ⟨hnone, -⟩ | ⟨hsome, htok, hret⟩ | ⟨-, -, hfound, -⟩
  · cases hnone
  · exact ⟨cut_eq_bare htok (by simp), Option.some_inj.mp hsome, hret⟩
  · exact absurd hfound hstate

theorem closes_of_startTag {s₀ : CStr}
    (hstart : nextToken s₀ = (.rbracket, s)) (h : entryLoop fuel .startTagCompleted v s = some e)
    (ht : e.template = some t) :
    t = v.template ∧ (e.ret = 0 ∧ Closes s₀ e.rest ∨ e.ret = 1 ∧ Unfinished s₀) := by
  obtain ⟨tok₁, r₁, hnext₁, ⟨n₁, st₁, v₁, -, hgo₁, hloop₁⟩ | ⟨hstop₁, -⟩⟩ := entryLoop_inv h ht
  · rcases entryStep_go hgo₁ with
      ⟨k, b, hs, -⟩ | ⟨b, hs, -⟩ | ⟨b, x, hs, -⟩ | ⟨hs, -⟩ | ⟨-, htok₁, rfl, rfl⟩ | ⟨k, hs, -⟩
    any_goals cases hs
    obtain rfl := cut_eq_bare htok₁ (by simp)
    obtain ⟨tok₂, r₂, hnext₂, ⟨n₂, st₂, v₂, -, hgo₂, hloop₂⟩ | ⟨hstop₂, -⟩⟩ := entryLoop_inv hloop₁ ht
    · rcases entryStep_go hgo₂ with
        ⟨k, b, hs, -⟩ | ⟨b, hs, -⟩ | ⟨b, x, hs, -⟩ | ⟨hs, -⟩ | ⟨hs, -⟩ | ⟨k, -, htok₂, htag, rfl, rfl⟩
      any_goals cases hs
      obtain ⟨name, rfl, rfl⟩ := cut_eq_keyword htok₂
      rw [strcaseEq_take (by decide)] at htag
      obtain ⟨tok₃, r₃, hnext₃, ⟨n₃, st₃, v₃, -, hgo₃, -⟩ | ⟨hstop₃, hrest⟩⟩ := entryLoop_inv hloop₂ ht
      · -- nothing follows the name of the end tag but a bracket
        rcases entryStep_go hgo₃ with ⟨k, b, hs, -⟩ | ⟨b, hs, -⟩ | ⟨b, x, hs, -⟩ | ⟨hs, -⟩ | ⟨hs, -⟩ | ⟨k, hs, -⟩ <;>
          cases hs
      · rcases entryStep_stop hstop₃ with ⟨hnone, -⟩ | ⟨hsome, htok₃, hret⟩ | ⟨hsome, htok₃, -, hret⟩
        · cases hnone
        · obtain rfl := cut_eq_bare htok₃ (by simp)
          exact ⟨Option.some_inj.mp hsome, .inr ⟨hret, .endTag hstart hnext₁ hnext₂ htag hnext₃⟩⟩
        · obtain rfl := cut_eq_bare htok₃ (by simp)
          rw [hrest]
          exact ⟨Option.some_inj.mp hsome, .inl ⟨hret, .endTag hstart hnext₁ hnext₂ htag hnext₃⟩⟩
    · obtain ⟨rfl, hsome, hret⟩ := emptybracket_of_stop hstop₂ (by simp)
      exact ⟨hsome, .inr ⟨hret, .endBracket hstart hnext₁ hnext₂⟩⟩
  · obtain ⟨rfl, hsome, hret⟩ := emptybracket_of_stop hstop₁ (by simp)
    exact ⟨hsome, .inr ⟨hret, .startTag hstart hnext₁⟩⟩

theorem attribute_of_name {s₀ : CStr} {a : DialKeyword}
    (hname : nextToken s₀ = (.keyword k, s)) (hkey : dialKeyword k = some a)
    (h : entryLoop fuel (.got a) v s = some e) (ht : e.template = some t) :
    (t = v.template ∧ e.ret = 1 ∧ Unfinished s₀) ∨
      ∃ s₂ value s₃ v' n, nextToken s = (.eq, s₂) ∧ nextToken s₂ = (.str value, s₃) ∧
        v.assign a (cutValue value) = some v' ∧ n < fuel ∧ entryLoop n .any v' s₃ = some e := by
  obtain ⟨tok₁, r₁, hnext₁, ⟨n₁, st₁, v₁, hn₁, hgo₁, hloop₁⟩ | ⟨hstop₁, -⟩⟩ := entryLoop_inv h ht
  · rcases entryStep_go hgo₁ with
      ⟨k, b, hs, -⟩ | ⟨b, hs, htok₁, rfl, rfl⟩ | ⟨b, x, hs, -⟩ | ⟨hs, -⟩ | ⟨hs, -⟩ | ⟨k, hs, -⟩
    any_goals cases hs
    obtain rfl := cut_eq_bare htok₁ (by simp)
    obtain ⟨tok₂, r₂, hnext₂, ⟨n₂, st₂, v₂, hn₂, hgo₂, hloop₂⟩ | ⟨hstop₂, -⟩⟩ := entryLoop_inv hloop₁ ht
    · rcases entryStep_go hgo₂ with
        ⟨k, b, hs, -⟩ | ⟨b, hs, -⟩ | ⟨b, x, hs, htok₂, hassign, rfl⟩ | ⟨hs, -⟩ | ⟨hs, -⟩ | ⟨k, hs, -⟩
      any_goals cases hs
      obtain ⟨whole, rfl, rfl⟩ := cut_eq_str htok₂
      exact .inr ⟨r₁, whole, r₂, v₂, n₂, hnext₁, hnext₂, hassign, hn₂.trans hn₁, hloop₂⟩
    · obtain ⟨rfl, hsome, hret⟩ := emptybracket_of_stop hstop₂ (by simp)
      exact .inl ⟨hsome, hret, .value hname hkey hnext₁ hnext₂⟩
  · obtain ⟨rfl, hsome, hret⟩ := emptybracket_of_stop hstop₁ (by simp)
    exact .inl ⟨hsome, hret, .name hname hkey hnext₁⟩

/-- A template that is added has the values that are given in front of it. By induction on the fuel, which is less
behind every attribute. -/
theorem exists_attributes (h : entryLoop fuel .any v s = some e) (ht : e.template = some t) :
    ∃ g r v', Attributes s g r ∧ assignAll v g = some v' ∧ t = v'.template ∧
      (e.ret = 0 ∧ Closes r e.rest ∨ e.ret = 1 ∧ Unfinished r) := by
  induction fuel using Nat.strong_induction_on generalizing v s with
  | _ fuel ih =>
    obtain ⟨tok, r, hnext, ⟨n, st, v₁, hn, hgo, hloop⟩ | ⟨hstop, hrest⟩⟩ := entryLoop_inv h ht
    · rcases entryStep_go hgo with
        ⟨k, a, -, htok, hkey, rfl, rfl⟩ | ⟨b, hs, -⟩ | ⟨b, x, hs, -⟩ | ⟨-, htok, rfl, rfl⟩ | ⟨hs, -⟩ | ⟨k, hs, -⟩
      any_goals cases hs
      · obtain ⟨name, rfl, rfl⟩ := cut_eq_keyword htok
        have hkey : dialKeyword name = some a := (dialKeyword_cutValue name).symm.trans hkey
        rcases attribute_of_name hnext hkey hloop ht with
          ⟨htemplate, hret, hearly⟩ | ⟨s₂, value, s₃, v', m, heq, hstr, hassign, hm, hnextLoop⟩
        · exact ⟨[], s, v₁, .done s, rfl, htemplate, .inr ⟨hret, hearly⟩⟩
        · obtain ⟨g, r', v'', hattrs, hall, hend⟩ := ih m (hm.trans hn) hnextLoop
          refine ⟨(a, value) :: g, r', v'', .attr hnext hkey heq hstr hattrs, ?_, hend⟩
          rw [assignAll, hassign]
          exact hall
      · obtain rfl := cut_eq_bare htok (by simp)
        exact ⟨[], s, v₁, .done s, rfl, closes_of_startTag hnext hloop ht⟩
    · obtain ⟨rfl, hsome, hret⟩ := emptybracket_of_stop hstop (by simp)
      refine ⟨[], s, v, .done s, rfl, hsome, .inl ⟨hret, ?_⟩⟩
      rw [hrest]
      exact .empty hnext

/-! ## The values of a template -/

theorem value_cons (b : DialKeyword) (x : CStr) (g : Given) (a : DialKeyword) :
    Given.value ((b, x) :: g) a = (g.value a).or (if b = a then some x else none) := by
  rw [Given.value, Given.value, List.reverse_cons, List.find?_append, Option.map_or]
  by_cases h : b = a
  · rw [if_pos h, List.find?_cons_of_pos (by simpa using h)]
    rfl
  · rw [if_neg h, List.find?_cons_of_neg (by simpa using h)]
    rfl

theorem elim_or {β : Type} (o : Option CStr) (x : CStr) (d : β) (f : CStr → β) :
    (o.or (some x)).elim d f = o.elim (f x) f := by
  cases o <;> rfl

/-- What the variables are, from what they were and the values that were assigned. -/
structure Assigned (v v' : DialVars) (g : Given) : Prop where
  dialtemplate : v'.dialtemplate = (g.value .matchKey).elim v.dialtemplate cutValue
  line : v'.line = (g.value .line).elim v.line fun x => UInt8.ofNat (atoi (cutValue x) % 256).toNat
  timeout : v'.timeout = (g.value .timeout).elim v.timeout fun x => atoi (cutValue x)
  usermode : some v'.usermode = (g.value .user).elim (some v.usermode) userModeNamed
  rewrite : v'.rewrite = (g.value .rewrite).elim v.rewrite cutValue
  routeMode : some v'.routeMode = (g.value .route).elim (some v.routeMode) routeModeNamed
  tones : v'.tones.map some = v.tones.map some ++ g.tones.map toneNamed

theorem take_cutValue (x : CStr) : (cutValue x).take (maxTemplateLength - 1) = cutValue x :=
  List.take_of_length_le (le_trans (List.length_take_le _ _) (by decide))

theorem Assigned.assign {v₁ : DialVars} {a : DialKeyword} {x : CStr} (h : v.assign a (cutValue x) = some v₁) :
    Assigned v v₁ [(a, x)] := by
  cases a with
  | matchKey =>
    obtain rfl := Option.some_inj.mp h
    exact ⟨take_cutValue x, rfl, rfl, rfl, rfl, rfl, (List.append_nil _).symm⟩
  | line =>
    obtain rfl := Option.some_inj.mp h
    exact ⟨rfl, rfl, rfl, rfl, rfl, rfl, (List.append_nil _).symm⟩
  | timeout =>
    rw [DialVars.assign] at h
    split_ifs at h
    obtain rfl := Option.some_inj.mp h
    exact ⟨rfl, rfl, rfl, rfl, rfl, rfl, (List.append_nil _).symm⟩
  | user =>
    rw [DialVars.assign, userModeNamed_cutValue] at h
    obtain ⟨m, hm, rfl⟩ := Option.map_eq_some_iff.mp h
    exact ⟨rfl, rfl, rfl, hm.symm, rfl, rfl, (List.append_nil _).symm⟩
  | rewrite =>
    obtain rfl := Option.some_inj.mp h
    exact ⟨rfl, rfl, rfl, rfl, take_cutValue x, rfl, (List.append_nil _).symm⟩
  | route =>
    rw [DialVars.assign, routeModeNamed_cutValue] at h
    obtain ⟨m, hm, rfl⟩ := Option.map_eq_some_iff.mp h
    exact ⟨rfl, rfl, rfl, rfl, rfl, hm.symm, (List.append_nil _).symm⟩
  | tone =>
    rw [DialVars.assign, toneNamed_cutValue] at h
    obtain ⟨t, ht, hadd⟩ := Option.bind_eq_some_iff.mp h
    rw [DialVars.addTone] at hadd
    split_ifs at hadd with hroom
    obtain rfl := Option.some_inj.mp hadd
    refine ⟨rfl, rfl, rfl, rfl, rfl, rfl, ?_⟩
    show (v.tones ++ [t]).map some = v.tones.map some ++ [toneNamed x]
    rw [List.map_append, ht]
    rfl

theorem tones_cons (n : DialKeyword × CStr) (g : Given) : Given.tones (n :: g) = Given.tones [n] ++ g.tones := by
  rw [Given.tones, Given.tones, Given.tones, ← List.map_append, ← List.filter_append]
  rfl

theorem Assigned.cons {v₁ : DialVars} {n : DialKeyword × CStr} (h : Assigned v v₁ [n])
    (hrest : Assigned v₁ v' g) : Assigned v v' (n :: g) := by
  obtain ⟨b, x⟩ := n
  have hvalue : ∀ {β : Type} (a : DialKeyword) (d : β) (f : CStr → β),
      (Given.value ((b, x) :: g) a).elim d f = (g.value a).elim ((Given.value [(b, x)] a).elim d f) f := by
    intro β a d f
    rw [value_cons, value_cons b x [] a]
    by_cases hba : b = a
    · rw [if_pos hba, elim_or]
      rfl
    · rw [if_neg hba, Option.or_none]
      rfl
  refine ⟨?_, ?_, ?_, ?_, ?_, ?_, ?_⟩
  · rw [hvalue, ← h.dialtemplate, hrest.dialtemplate]
  · rw [hvalue, ← h.line, hrest.line]
  · rw [hvalue, ← h.timeout, hrest.timeout]
  · rw [hvalue, ← h.usermode, hrest.usermode]
  · rw [hvalue, ← h.rewrite, hrest.rewrite]
  · rw [hvalue, ← h.routeMode, hrest.routeMode]
  · rw [hrest.tones, h.tones, tones_cons (b, x) g, List.map_append, List.append_assoc]

theorem Assigned.all (h : assignAll v g = some v') : Assigned v v' g := by
  induction g generalizing v with
  | nil =>
    obtain rfl := Option.some_inj.mp h
    exact ⟨rfl, rfl, rfl, rfl, rfl, rfl, (List.append_nil _).symm⟩
  | cons n g ih =>
    obtain ⟨a, x⟩ := n
    rw [assignAll] at h
    obtain ⟨v₁, hv₁, hrest⟩ := Option.bind_eq_some_iff.mp h
    exact .cons (.assign hv₁) (ih hrest)

theorem cutValue_eq_iff (x : CStr) : cutValue x = x ↔ x.length < entryBuffer := by
  rw [cutValue, List.take_eq_self_iff]
  exact Nat.le_sub_one_iff_lt (by decide)

theorem elim_cutValue_iff (o : Option CStr) : o.elim [] cutValue = o.getD [] ↔ (o.getD []).length < entryBuffer := by
  cases o with
  | none => exact iff_of_true rfl (by decide)
  | some x => exact cutValue_eq_iff x

theorem carries_iff (h : assignAll {} g = some v) : Carries v.template g ↔ Fits g := by
  have hall := Assigned.all h
  have hline : (v.template.line.toNat : ℤ) = (g.value .line).elim 0 atoi ↔
      ∀ x, g.value .line = some x → atoi (cutValue x) % 256 = atoi x := by
    rw [show v.template.line.toNat = v.line.toNat from UInt8.toNat_toUInt16 _, hall.line]
    cases g.value .line with
    | none => exact iff_of_true rfl nofun
    | some x =>
      have hbyte : ((UInt8.ofNat (atoi (cutValue x) % 256).toNat).toNat : ℤ) = atoi (cutValue x) % 256 := by
        rw [UInt8.toNat_ofNat']
        omega
      rw [Option.elim_some, Option.elim_some, hbyte]
      exact ⟨fun heq y hy => Option.some_inj.mp hy ▸ heq, fun heq => heq x rfl⟩
  have htimeout : v.template.timeout = (g.value .timeout).elim dialTimeout atoi ↔
      ∀ x, g.value .timeout = some x → atoi (cutValue x) = atoi x := by
    rw [show v.template.timeout = _ from hall.timeout]
    cases g.value .timeout with
    | none => exact iff_of_true rfl nofun
    | some x => exact ⟨fun heq y hy => Option.some_inj.mp hy ▸ heq, fun heq => heq x rfl⟩
  have hpattern : v.template.pattern = (g.value .matchKey).getD [] ↔
      ((g.value .matchKey).getD []).length < entryBuffer := by
    rw [show v.template.pattern = _ from hall.dialtemplate]
    exact elim_cutValue_iff _
  have hrewrite : v.template.rewrite = (g.value .rewrite).getD [] ↔
      ((g.value .rewrite).getD []).length < entryBuffer := by
    rw [show v.template.rewrite = _ from hall.rewrite]
    exact elim_cutValue_iff _
  constructor
  · intro hc
    exact ⟨hpattern.mp hc.pattern, hline.mp hc.line, htimeout.mp hc.timeout, hrewrite.mp hc.rewrite⟩
  · intro hf
    exact ⟨hpattern.mpr hf.pattern, hline.mpr hf.line, htimeout.mpr hf.timeout, hall.usermode,
      hrewrite.mpr hf.rewrite, hall.routeMode, hall.tones⟩

/-! ## Entries that leave no trace -/

theorem Closes.not_keyword {s₁ : CStr} (h : Closes s r) (hname : nextToken s = (.keyword k, s₁)) : False := by
  cases h with
  | empty hempty => cases hname.symm.trans hempty
  | endTag hstart => cases hname.symm.trans hstart

theorem Attributes.unique {rest r' rest' : CStr} {g' : Given} (h : Attributes s g r) (hcloses : Closes r rest)
    (h' : Attributes s g' r') (hcloses' : Closes r' rest') : g = g' := by
  induction h generalizing g' with
  | done s =>
    cases h' with
    | done => rfl
    | attr hname => exact (hcloses.not_keyword hname).elim
  | attr hname hkey heq hstr _ ih =>
    cases h' with
    | done => exact (hcloses'.not_keyword hname).elim
    | attr hname' hkey' heq' hstr' hrest' =>
      cases hname.symm.trans hname'
      cases hkey.symm.trans hkey'
      cases heq.symm.trans heq'
      cases hstr.symm.trans hstr'
      rw [ih hcloses hrest']

theorem addDialTemplate_eq_self_iff {available : Bool} {before : List DialTemplate} :
    addDialTemplate available before t = before ↔ available = false := by
  cases available
  · exact iff_of_true rfl rfl
  · exact iff_of_false (fun h => by simpa [addDialTemplate] using congrArg List.length h) nofun

/-- **When an entry is clean.** For every text, and whether there is memory for the template or not. -/
theorem clean_iff (available : Bool) (s : CStr) : Clean available s ↔ EntryCondition available s := by
  constructor
  · rintro ⟨e, he, hclean⟩ g r hattrs haccepted
    obtain ⟨v, hv⟩ := Option.isSome_iff_exists.mp haccepted
    obtain ⟨left, hleft, hloop⟩ := entryLoop_of_attributes hattrs hv (Nat.lt_succ_self s.length)
    rw [parseDialEntry, hloop] at he
    constructor
    · intro hearly
      obtain ⟨rest, hend⟩ := entryLoop_of_unfinished hearly v hleft
      obtain rfl := Option.some_inj.mp (he.symm.trans hend)
      rcases hclean [] with ⟨hret, -⟩ | ⟨-, hsame⟩
      · cases hret
      · exact addDialTemplate_eq_self_iff.mp hsame
    · intro rest hcloses
      obtain rfl := Option.some_inj.mp (he.symm.trans (entryLoop_of_closes hcloses v hleft))
      rcases hclean [] with ⟨-, t, g', r', hattrs', hcloses', hcarries, hadded⟩ | ⟨hret, -⟩
      · obtain rfl := hattrs.unique hcloses hattrs' hcloses'
        cases available with
        | false => cases hadded
        | true =>
          have hlist : [v.template] = [t] := hadded
          obtain rfl : v.template = t := List.singleton_inj.mp hlist
          exact ⟨rfl, (carries_iff hv).mp hcarries⟩
      · cases hret
  · intro hcond
    obtain ⟨e, he, -⟩ := exists_parseDialEntry s
    refine ⟨e, he, fun before => ?_⟩
    match ht : e.template with
    | none => exact .inr ⟨ret_of_template_eq_none he ht, rfl⟩
    | some t =>
      obtain ⟨g, r, v, hattrs, hv, rfl, hend⟩ := exists_attributes he ht
      obtain ⟨hearly, hcloses⟩ := hcond g r hattrs (Option.isSome_iff_exists.mpr ⟨v, hv⟩)
      rcases hend with ⟨hret, hend⟩ | ⟨hret, hend⟩
      · obtain ⟨rfl, hfits⟩ := hcloses _ hend
        exact .inl ⟨hret, v.template, g, r, hattrs, hend, (carries_iff hv).mpr hfits, rfl⟩
      · exact .inr ⟨hret, addDialTemplate_eq_self_iff.mpr (hearly hend)⟩

/-! ## Dial plans that leave no trace -/

def added (available : CStr → Bool) (c : CStr) : List DialTemplate :=
  (parseDialEntry c).elim [] fun e => e.template.elim [] (addDialTemplate (available c) [])

theorem addEntry_basetemplate {available : CStr → Bool} {c : CStr} (he : parseDialEntry c = some e) (plan : DialPlan) :
    (plan.addEntry (available c) e).basetemplate = plan.basetemplate ++ added available c := by
  rw [added, he, DialPlan.addEntry]
  dsimp only [Option.elim_some]
  cases e.template with
  | none => exact (List.append_nil _).symm
  | some t =>
    dsimp only [Option.elim_some]
    rw [addDialTemplate, addDialTemplate]
    split_ifs
    · rfl
    · exact (List.append_nil _).symm

/-- The loop over the tokens of a dial plan is over when the text is, and the entries were added one after another.
By induction on the fuel. -/
theorem exists_templateLoop (available : CStr → Bool) (look : Look) (plan : DialPlan) (h : s.length < fuel) :
    ∃ look' plan', templateLoop available fuel look plan s = some (look', plan') ∧
      plan'.basetemplate = plan.basetemplate ++ (entryTextsFrom fuel look s).flatMap (added available) := by
  induction fuel generalizing look plan s with
  | zero => exact absurd h (Nat.not_lt_zero _)
  | succ fuel ih =>
    rw [templateLoop, entryTextsFrom]
    dsimp only
    by_cases heof : (parseXmlTokens maxTemplateLength s).1 = .eof
    · rw [if_pos heof, if_pos heof]
      exact ⟨look, plan, rfl, (List.append_nil _).symm⟩
    · have hlt := Nat.lt_of_lt_of_le (length_parseXmlTokens_lt heof) (Nat.le_of_lt_succ h)
      rw [if_neg heof, if_neg heof]
      match (lookStep look (parseXmlTokens maxTemplateLength s).1).2 with
      | .none => exact ih _ plan hlt
      | .entry =>
        obtain ⟨e, he, hle⟩ := exists_parseDialEntry (parseXmlTokens maxTemplateLength s).2
        dsimp only
        rw [he, List.flatMap_cons, ← List.append_assoc, ← addEntry_basetemplate he]
        exact ih _ _ (Nat.lt_of_le_of_lt hle hlt)
      | .version =>
        obtain ⟨e, he, hle⟩ := exists_parseDialVersion (parseXmlTokens maxTemplateLength s).2
        dsimp only
        rw [he]
        exact ih _ (plan.addVersion e) (Nat.lt_of_le_of_lt hle hlt)

theorem forall₂_added {available : CStr → Bool} {texts : List CStr} (h : ∀ c ∈ texts, Clean (available c) c) :
    List.Forall₂ (fun c t => ∃ g r rest, Attributes c g r ∧ Closes r rest ∧ Carries t g) (texts.filter readsEntry)
      (texts.flatMap (added available)) := by
  induction texts with
  | nil => exact .nil
  | cons c texts ih =>
    obtain ⟨⟨e, he, hclean⟩, hrest⟩ := List.forall_mem_cons.mp h
    have hadded : added available c = e.template.elim [] (addDialTemplate (available c) []) := by
      rw [added, he]
      rfl
    rw [List.flatMap_cons, hadded]
    rcases hclean [] with ⟨hret, t, g, r, hattrs, hcloses, hcarries, hlist⟩ | ⟨hret, hlist⟩
    · have hreads : readsEntry c = true := by
        rw [readsEntry, he, Option.any_some, hret]
        rfl
      rw [List.filter_cons_of_pos hreads, hlist]
      exact .cons ⟨g, r, e.rest, hattrs, hcloses, hcarries⟩ (ih hrest)
    · have hreads : ¬readsEntry c = true := by
        rw [readsEntry, he, Option.any_some, hret]
        decide
      rw [List.filter_cons_of_neg hreads, hlist]
      exact ih hrest

theorem cleanRun_iff (available : CStr → Bool) (s : CStr) :
    CleanRun available s ↔ ∀ c ∈ entryTexts s, EntryCondition (available c) c := by
  constructor
  · rintro ⟨-, -, -, hclean, -⟩ c hc
    exact (clean_iff _ c).mp (hclean c hc)
  · intro hcond
    have hclean : ∀ c ∈ entryTexts s, Clean (available c) c := fun c hc => (clean_iff _ c).mpr (hcond c hc)
    obtain ⟨look, plan, hloop, hlist⟩ := exists_templateLoop available {} {} (Nat.lt_succ_self s.length)
    refine ⟨decide (look.errors = 0), plan, ?_, hclean, ?_⟩
    · rw [parseDialTemplate, hloop]
      rfl
    · rw [hlist, List.nil_append]
      exact forall₂_added hclean

/-- **When a rejected entry leaves no trace.** For every text, `ParseDialEntry` adds one template with the values of
the entry or leaves the list as it was, exactly when the condition holds; and for every text of a dial plan,
`ParseDialTemplate` returns with the entries that were read without an error, exactly when the condition holds of all
entries that it reads. -/
theorem leaves_no_trace_iff (available : Bool) (availableFor : CStr → Bool) (s : CStr) :
    (Clean available s ↔ EntryCondition available s) ∧
      (CleanRun availableFor s ↔ ∀ c ∈ entryTexts s, EntryCondition (availableFor c) c) :=
  ⟨clean_iff available s, cleanRun_iff availableFor s⟩

/-- **A rejected entry leaves a trace.** The keyword has no value, and the entry is refused at its bracket, behind the
call that adds the template. -/
theorem not_leaves_no_trace :
    ¬((∀ s, Clean true s) ∧ ∀ s, CleanRun (fun _ => true) s) := by
  rintro ⟨hclean, -⟩
  obtain ⟨e, he, h⟩ := hclean " MATCH=\"9\" LINE/>".toList
  have hentry : parseDialEntry " MATCH=\"9\" LINE/>".toList =
      some { ret := 1, template := some { pattern := ['9'], timeout := 10 }, rest := [] } := by
    decide
  obtain rfl := Option.some_inj.mp (he.symm.trans hentry)
  rcases h [] with ⟨hret, -⟩ | ⟨-, hlist⟩
  · cases hret
  · cases hlist

end Dialplan
