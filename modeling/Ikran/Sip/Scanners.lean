import Ikran.Sip.Escape
import Ikran.Sip.HostName
import Mathlib.Data.List.DropRight

/-!
# Header scanners

Scanners of header values, of `ccsip_pmh.c`. A scanner has no result when it reads behind the
terminator of its input. The functions of the C library stop at the terminator, so that only a
pointer that is moved by a fixed width can leave the text.

A string that the code cuts out of its copy of the input is given by its characters.
-/

namespace Sip

open CStr

/-! ## Blanks -/

/-- A character of linear whitespace. -/
def isLws (c : Char) : Bool := c = ' ' || c = '\t'

def skipLws (s : CStr) : CStr := s.dropWhile isLws

def strpbrk (s accept : CStr) : Option CStr :=
  if (findChar accept s).peek = nul then none else some (findChar accept s)

/-- The characters in front of a pointer into the same text. -/
def textUpTo (s : CStr) (p : Option CStr) : CStr := p.elim s fun t => s.take (s.length - t.length)

theorem textUpTo_append (s t : CStr) : textUpTo (s ++ t) (some t) = s := by
  rw [textUpTo, Option.elim_some, List.length_append, Nat.add_sub_cancel, List.take_left]

variable {s : CStr}

theorem findChar_append_of_forall {accept : CStr} (hs : ∀ c ∈ s, c ≠ nul ∧ c ∉ accept) (t : CStr) :
    findChar accept (s ++ t) = findChar accept t := by
  induction s with
  | nil => rfl
  | cons c s ih =>
    obtain ⟨hnul, hset⟩ := hs c List.mem_cons_self
    rw [List.cons_append, findChar, if_neg (not_or.mpr ⟨hnul, hset⟩)]
    exact ih fun d hd => hs d (List.mem_cons_of_mem c hd)

theorem strpbrk_append {accept tail : CStr} (hs : ∀ c ∈ s, c ≠ nul ∧ c ∉ accept)
    (htail : tail = [] ∨ tail.peek ≠ nul ∧ tail.peek ∈ accept) :
    strpbrk (s ++ tail) accept = if tail = [] then none else some tail := by
  rw [strpbrk, findChar_append_of_forall hs]
  cases tail with
  | nil => rfl
  | cons c t =>
    obtain ⟨hnul, hc⟩ := htail.resolve_left (List.cons_ne_nil c t)
    rw [peek_cons] at hnul hc
    have hfound : findChar accept (c :: t) = c :: t := by rw [findChar, if_pos (.inr hc)]
    rw [hfound, peek_cons, if_neg hnul, if_neg (List.cons_ne_nil c t)]

theorem strpbrk_of_forall {accept : CStr} (hs : ∀ c ∈ s, c ≠ nul ∧ c ∉ accept) : strpbrk s accept = none := by
  simpa using strpbrk_append hs (.inl rfl)

theorem textUpTo_strpbrk_append (s tail : CStr) :
    textUpTo (s ++ tail) (if tail = [] then none else some tail) = s := by
  split_ifs with hnil
  · rw [hnil, List.append_nil]
    rfl
  · exact textUpTo_append s tail

/-- `trim_right`. The first character stays. -/
def trimRight : CStr → CStr
  | [] => []
  | c :: s => c :: s.rdropWhile isSpace

/-- `trim_ipv6_host`. The caller keeps its pointer to an opening bracket. -/
def trimIpv6Host (s : CStr) : CStr :=
  if (if s.peek = '[' then s.tail else s).getLast? = some ']' then s.dropLast else s

/-! ## The Via header -/

/-- `sipVia_t`. -/
structure SipVia where
  version : CStr
  transport : CStr
  host : CStr
  ttl : Option CStr := none
  maddr : Option CStr := none
  recdHost : Option CStr := none
  branchParam : Option CStr := none
  moreVia : Option CStr := none
  remotePort : UInt16 := 0
  isHidden : Bool := false
  isIpv6 : Bool := false
  deriving DecidableEq

/-- The parameters of a Via header with a value. -/
inductive ViaParam
  | ttl | maddr | received | branch
  deriving DecidableEq

namespace SipVia

def param (v : SipVia) : ViaParam → Option CStr
  | .ttl => v.ttl
  | .maddr => v.maddr
  | .received => v.recdHost
  | .branch => v.branchParam

def setParam (v : SipVia) (p : ViaParam) (value : CStr) : SipVia :=
  match p with
  | .ttl => { v with ttl := some value }
  | .maddr => { v with maddr := some value }
  | .received => { v with recdHost := some value }
  | .branch => { v with branchParam := some value }

end SipVia

/-- The name at the start of a parameter: whether it is `hidden`, another one that is known, and the
text behind it. -/
def viaParamName (str : CStr) : Bool × Option ViaParam × CStr :=
  if strncaseEq str "hidden" 6 then (true, none, str.drop 6)
  else if strncaseEq str "ttl" 3 then (false, some .ttl, str.drop 3)
  else if strncaseEq str "maddr" 5 then (false, some .maddr, str.drop 5)
  else if strncaseEq str "received" 8 then (false, some .received, str.drop 8)
  else if strncaseEq str "branch" 6 then (false, some .branch, str.drop 6)
  else (false, none, str)

/-- The value behind the name of a parameter, up to the next separator, and the text from where the
separator is looked for. -/
def viaParamValue (str : CStr) : Option CStr × CStr :=
  let str := skipLws str
  if str.peek = '=' then (some (textUpTo (skipLws str.tail) (strpbrk (skipLws str.tail) ";,")),
    skipLws str.tail)
  else (none, str)

/-- `parse_via_params`, with the fuel for as many parameters: there is no result when one of them is
given twice. -/
def parseViaParams : ℕ → CStr → SipVia → Option SipVia
  | 0, _, v => some v
  | fuel + 1, str, v =>
    let (hidden, name, str) := viaParamName (skipLws str)
    let v := if hidden then { v with isHidden := true } else v
    let next (str : CStr) (v : SipVia) : Option SipVia :=
      match strpbrk str ";," with
      | none => some v
      | some str =>
        if str.peek = ',' then some { v with moreVia := some (skipLws str.tail) }
        else parseViaParams fuel str.tail v
    match name with
    | none => next str v
    | some p =>
      if (v.param p).isSome then none
      else
        match viaParamValue str with
        | (none, str) => next str v
        | (some value, str) => next str (v.setParam p (trimRight value))

/-- The text starts with the name of a transport. -/
def IsTransport (via : CStr) : Prop :=
  strncaseEq via "UDP" 3 = true ∨ strncaseEq via "TCP" 3 = true ∨ strncaseEq via "TLS" 3 = true

instance (via : CStr) : Decidable (IsTransport via) := inferInstanceAs (Decidable (_ ∨ _ ∨ _))

section

variable (inetPton6 : CStr → Bool)

/-- The part of `sippmh_parse_via` from the host on. -/
def viaSentBy (version transport via : CStr) : Option SipVia :=
  let isIpv6 := via.peek = '['
  let separator := if isIpv6 then (strpbrk via "]").map List.tail else some via
  let separator := separator.bind (strpbrk · ":;,")
  let host := textUpTo via separator
  let isPort := separator.map peek = some ':'
  let portNumStr := if isPort then (separator.map List.tail).getD [] else "5060"
  let behind := if isPort then strpbrk portNumStr ";," else separator
  let portNumStr := if isPort then textUpTo portNumStr behind else portNumStr
  let sipVia : SipVia := { version, transport, host, isIpv6 }
  let sipVia? := match behind with
    | none => some sipVia
    | some str =>
      if str.peek = ';' then parseViaParams str.length str.tail sipVia
      else some { sipVia with moreVia := some (skipLws str.tail) }
  sipVia?.bind fun sipVia =>
    if sipSPIValidateIpAddrName inetPton6 host then
      let host := trimIpv6Host (trimRight host)
      let (port, endptr) := strtol portNumStr
      let portNum := UInt16.ofInt port
      if (skipLws endptr).peek ≠ nul ∨ portNum = 0 then none
      else some { sipVia with host := host, remotePort := portNum, recdHost := some host }
    else none

def sippmhParseVia (inputVia : CStr) : Option (Option SipVia) :=
  let inputVia := skipLws inputVia
  if ¬ strncaseEq inputVia "SIP" 3 then some none
  else
    let inputVia := skipLws (inputVia.drop 3)
    if inputVia.peek ≠ '/' then some none
    else
      let via := skipLws inputVia.tail
      if ¬ strncmpEq via "2.0" 3 then some none
      else
        let version := via.take 3 ++ (via.drop 3).takeWhile isLws
        let via := skipLws (via.drop 3)
        if via.peek ≠ '/' then some none
        else
          let via := skipLws via.tail
          if ¬ IsTransport via then some none
          else
            -- the terminator of the transport is written over the character behind it
            let transport := via.take 3
            (Ptr.add (some via) 4).bind fun via =>
              let via := skipLws via
              if via.peek = nul then some none else some (viaSentBy inetPton6 version transport via)

end

/-! ## The Subscription-State header -/

/-- `sip_subs_state_e`. -/
inductive SubsState
  | invalid | active | pending | terminated

/-- `sip_subs_state_reason_e`. -/
inductive SubsStateReason
  | invalid | deactivated | probation | rejected | timeout | giveup | noresource

/-- `sipSubscriptionStateInfo_t`. -/
structure SubscriptionStateInfo where
  state : SubsState := .invalid
  expires : UInt32 := 0
  reason : SubsStateReason := .invalid
  retryAfter : UInt32 := 0

/-- The text behind the first occurrence of a keyword and the character behind it, without blanks: none
inside when the keyword does not occur. -/
def behindKeyword (keyword subsState : CStr) : Option (Option CStr) :=
  match strstr keyword subsState with
  | none => some none
  | some ptr => ((Ptr.add (some ptr) (keyword.length + 1)).map skipLws).map some

/-- The number at the start of a text, of which at most nine digits are read. -/
def numberAt (ptr : CStr) : Option UInt32 :=
  let temp := (ptr.takeWhile Char.isDigit).take 9
  if temp = [] then none else some (UInt32.ofNat (strtoul temp).1)

/-- The reason at the start of a text. -/
def reasonAt (ptr : CStr) : SubsStateReason :=
  if strncaseEq ptr "deactivated" 11 then .deactivated
  else if strncaseEq ptr "probation" 9 then .probation
  else if strncaseEq ptr "rejected" 8 then .rejected
  else if strncaseEq ptr "timeout" 7 then .timeout
  else if strncaseEq ptr "giveup" 6 then .giveup
  else if strncaseEq ptr "noresource" 10 then .noresource
  else .invalid

/-- `sippmh_parse_subscription_state`, which always returns 0. The terminator that it writes behind the
digits of `retry-after` at its end is left out. -/
def sippmhParseSubscriptionState (info : SubscriptionStateInfo) (subsState : CStr) :
    Option SubscriptionStateInfo :=
  let state :=
    if strncaseEq subsState "active" 6 then .active
    else if strncaseEq subsState "pending" 7 then .pending
    else if strncaseEq subsState "terminated" 7 then .terminated
    else info.state
  let info := { info with state }
  if ';' ∉ subsState then some info
  else
    (behindKeyword "expires" subsState).bind fun expires =>
      let info := { info with expires := (expires.bind numberAt).getD info.expires }
      (behindKeyword "reason" subsState).bind fun reason =>
        let info := { info with
          reason := (reason.map fun ptr => if ptr = [] then info.reason else reasonAt ptr).getD
            info.reason }
        (behindKeyword "retry-after" subsState).bind fun retryAfter =>
          some { info with retryAfter := (retryAfter.bind numberAt).getD info.retryAfter }

def toupper (value : ℕ) : ℕ := if 97 ≤ value ∧ value ≤ 122 then value - 32 else value

/-- The value of the character under a pointer, and how many characters it has. -/
def unitAt (us : Ptr) : Option (ℕ × ℕ) :=
  us.load.bind fun c =>
    if c = '%' then
      (us.add 1).load.bind fun high =>
        (us.add 2).load.bind fun low => some (sippmhHtoi high * 16 + sippmhHtoi low, 3)
    else some (c.toNat, 1)

/-- The values are the same, for the comparison. -/
def sameValue (ignoreCase : Bool) (value1 value2 : ℕ) : Bool :=
  if ignoreCase then toupper value1 = toupper value2 else value1 = value2

/-- The result for the last values that were read. -/
def valueDiff (ignoreCase : Bool) (value1 value2 : ℕ) : ℤ :=
  if ignoreCase then (toupper value1 : ℤ) - toupper value2 else (value1 : ℤ) - value2

/-- The loop of `sippmh_cmpURLStrings`, with the fuel for as many characters of the first text. -/
def cmpLoop (ignoreCase : Bool) : ℕ → Ptr → Ptr → ℕ → ℕ → Option ℤ
  | 0, _, _, value1, value2 => some (valueDiff ignoreCase value1 value2)
  | fuel + 1, us1, us2, value1, value2 =>
    us1.load.bind fun c =>
      if c = nul then some (valueDiff ignoreCase value1 value2)
      else
        (unitAt us1).bind fun (value1, incr1) =>
          (unitAt us2).bind fun (value2, incr2) =>
            if sameValue ignoreCase value1 value2 then
              cmpLoop ignoreCase fuel (us1.add incr1) (us2.add incr2) value1 value2
            else some (valueDiff ignoreCase value1 value2)

/-- `sippmh_cmpURLStrings`, for two different pointers that are not NULL. -/
def sippmhCmpURLStrings (s1 s2 : CStr) (ignoreCase : Bool) : Option ℤ :=
  cmpLoop ignoreCase (s1.length + 1) (some s1) (some s2) 0 0

/-! ## The end of the transport -/

/-- The Via header ends with the three letters of its transport. -/
def EndsAtTransport (s : CStr) : Prop :=
  ∃ blanks₁ sip blanks₂ blanks₃ blanks₄ blanks₅ transport : CStr,
    s = blanks₁ ++ (sip ++ (blanks₂ ++ '/' :: (blanks₃ ++ ("2.0".toList ++ (blanks₄ ++
      '/' :: (blanks₅ ++ transport)))))) ∧
    (∀ c ∈ blanks₁ ++ blanks₂ ++ blanks₃ ++ blanks₄ ++ blanks₅, isLws c = true) ∧
    sip.length = 3 ∧ strncaseEq sip "SIP" 3 = true ∧ transport.length = 3 ∧
    IsTransport transport

theorem isLws_cases {c : Char} (h : isLws c = true) : c = ' ' ∨ c = '\t' := by
  simpa [isLws] using h

theorem skipLws_of_peek (hs : isLws s.peek = false) : skipLws s = s := by
  rw [skipLws]
  cases s with
  | nil => rfl
  | cons c s =>
    rw [peek_cons] at hs
    rw [List.dropWhile_cons, hs]
    rfl

theorem skipLws_append {blanks : CStr} (hblanks : ∀ c ∈ blanks, isLws c = true)
    (hs : isLws s.peek = false) : skipLws (blanks ++ s) = s := by
  rw [skipLws, List.dropWhile_append_of_pos hblanks]
  exact skipLws_of_peek hs

theorem exists_skipLws (s : CStr) : ∃ blanks, s = blanks ++ skipLws s ∧ ∀ c ∈ blanks, isLws c = true :=
  ⟨s.takeWhile isLws, List.takeWhile_append_dropWhile.symm, fun _ hc => List.mem_takeWhile_imp hc⟩

variable {t : CStr}

theorem exists_of_strncaseEq (ht : ∀ c ∈ t, c.toUpper ≠ nul) (h : strncaseEq s t t.length = true) :
    ∃ front, s = front ++ s.drop t.length ∧ front.length = t.length ∧ strncaseEq front t t.length = true := by
  have hle := length_le_of_strncaseEq ht h
  have hnul : nul ∉ t := fun hmem => ht nul hmem rfl
  have hlen : (s.take t.length).length = t.length := by
    rw [List.length_take]
    omega
  refine ⟨s.take t.length, (List.take_append_drop _ _).symm, hlen, ?_⟩
  rw [← strncaseEq_append hnul hlen (s.drop t.length), List.take_append_drop]
  exact h

theorem strncaseEq_three_append (ht : nul ∉ t) (hlen : t.length = 3)
    (hs : s.length = 3) (r : CStr) : strncaseEq (s ++ r) t 3 = strncaseEq s t 3 := by
  rw [← hlen]
  exact strncaseEq_append ht (hs.trans hlen.symm) r

theorem isLws_peek_of_strncaseEq (hlws : ∀ c, isLws c = true → c.toUpper ≠ t.peek.toUpper)
    (h : strncaseEq s t 3 = true) : isLws s.peek = false := by
  rw [strncaseEq, Bool.and_eq_true, beq_iff_eq] at h
  by_contra hblank
  exact hlws s.peek (by simpa using hblank) h.1

theorem toUpper_of_isLws {c : Char} (h : isLws c = true) : c.toUpper = ' ' ∨ c.toUpper = '\t' := by
  rcases isLws_cases h with rfl | rfl
  · exact Or.inl rfl
  · exact Or.inr rfl

theorem three_le_of_isTransport {via : CStr} (h : IsTransport via) : 3 ≤ via.length := by
  rcases h with h | h | h
  · exact length_le_of_strncaseEq (t := "UDP") (forall_of_all rfl) h
  · exact length_le_of_strncaseEq (t := "TCP") (forall_of_all rfl) h
  · exact length_le_of_strncaseEq (t := "TLS") (forall_of_all rfl) h

theorem isLws_peek_of_isTransport {via : CStr} (h : IsTransport via) : isLws via.peek = false := by
  have hletter : ∀ c, isLws c = true → c.toUpper ≠ 'U' ∧ c.toUpper ≠ 'T' := by
    intro c hc
    rcases toUpper_of_isLws hc with heq | heq <;> rw [heq] <;> decide
  rcases h with h | h | h
  · exact isLws_peek_of_strncaseEq (t := "UDP") (fun c hc => (hletter c hc).1) h
  · exact isLws_peek_of_strncaseEq (t := "TCP") (fun c hc => (hletter c hc).2) h
  · exact isLws_peek_of_strncaseEq (t := "TLS") (fun c hc => (hletter c hc).2) h

/-- The scanner of a Via header leaves its input exactly when that ends with the transport. -/
theorem sippmhParseVia_isSome_iff (inetPton6 : CStr → Bool) (s : CStr) :
    (sippmhParseVia inetPton6 s).isSome = true ↔ ¬ EndsAtTransport s := by
  have hsipLws : ∀ {s}, strncaseEq s "SIP" 3 = true → isLws s.peek = false := by
    intro s h
    refine isLws_peek_of_strncaseEq (t := "SIP") (fun c hc => ?_) h
    rcases toUpper_of_isLws hc with heq | heq <;> rw [heq] <;> decide
  constructor
  · rintro hsome ⟨b₁, sip, b₂, b₃, b₄, b₅, transport, rfl, hblanks, hsip, hsipEq, hlen, htransport⟩
    simp only [List.mem_append, or_imp, forall_and] at hblanks
    obtain ⟨⟨⟨⟨hb₁, hb₂⟩, hb₃⟩, hb₄⟩, hb₅⟩ := hblanks
    have hsipAppend : ∀ r, strncaseEq (sip ++ r) "SIP" 3 = true := fun r =>
      (strncaseEq_three_append (t := "SIP") (by decide) rfl hsip r).trans hsipEq
    have hversion : ∀ r, strncmpEq ("2.0".toList ++ r) "2.0" 3 = true := fun r =>
      (strncmpEq_iff (t := "2.0") (by decide)).mpr (List.prefix_append _ r)
    have hsip0 : ∀ r, isLws (sip ++ r).peek = false := fun r => hsipLws (hsipAppend r)
    have hdrop : ∀ r : CStr, ("2.0".toList ++ r).drop 3 = r := fun _ => rfl
    have hskip := isLws_peek_of_isTransport htransport
    simp only [sippmhParseVia, skipLws_append hb₁ (hsip0 _), hsipAppend, List.drop_left' hsip,
      skipLws_append hb₂ (s := '/' :: _) rfl, peek_cons, List.tail_cons,
      skipLws_append hb₃ (s := "2.0".toList ++ _) rfl, hversion, hdrop,
      skipLws_append hb₄ (s := '/' :: _) rfl, skipLws_append hb₅ hskip] at hsome
    have hadd : Ptr.add (some transport) 4 = none := Ptr.add_of_lt (by omega)
    simp [hadd, htransport] at hsome
  · intro hno
    by_contra hnone
    refine hno ?_
    simp only [sippmhParseVia] at hnone
    split_ifs at hnone with hsip hslash₁ hversion hslash₂ htransport
    all_goals try exact absurd rfl hnone
    rw [not_not] at hslash₁ hslash₂
    -- all the tests were passed, so that the text has the form of a header up to the transport
    obtain ⟨b₁, hs, hb₁⟩ := exists_skipLws s
    obtain ⟨sip, hs₁, hsipLen, hsipEq⟩ := exists_of_strncaseEq (t := "SIP") (forall_of_all rfl) hsip
    obtain ⟨b₂, hs₂, hb₂⟩ := exists_skipLws ((skipLws s).drop 3)
    have hs₃ := cons_tail_of_peek hslash₁ (by decide)
    generalize (skipLws ((skipLws s).drop 3)).tail = t at *
    obtain ⟨b₃, hs₄, hb₃⟩ := exists_skipLws t
    obtain ⟨u, hs₅⟩ := (strncmpEq_iff (t := "2.0") (by decide)).mp hversion
    have hdrop : (skipLws t).drop 3 = u := by
      rw [← hs₅]
      rfl
    rw [hdrop] at hslash₂ hnone htransport
    obtain ⟨b₄, hs₆, hb₄⟩ := exists_skipLws u
    have hs₇ := cons_tail_of_peek hslash₂ (by decide)
    generalize (skipLws u).tail = v at *
    obtain ⟨b₅, hs₈, hb₅⟩ := exists_skipLws v
    have hlen : (skipLws v).length = 3 := by
      have hge := three_le_of_isTransport htransport
      by_contra hne
      rw [Ptr.add_of_le (by omega), Option.bind_some] at hnone
      split_ifs at hnone <;> exact absurd rfl hnone
    refine ⟨b₁, sip, b₂, b₃, b₄, b₅, skipLws v, ?_, ?_, hsipLen, hsipEq, hlen, htransport⟩
    · calc s = b₁ ++ skipLws s := hs
        _ = b₁ ++ (sip ++ (skipLws s).drop 3) := congrArg _ hs₁
        _ = b₁ ++ (sip ++ (b₂ ++ '/' :: t)) := by rw [← hs₃, ← hs₂]
        _ = b₁ ++ (sip ++ (b₂ ++ '/' :: (b₃ ++ ("2.0".toList ++ u)))) := by rw [hs₅, ← hs₄]
        _ = _ := by rw [← hs₈, ← hs₇, ← hs₆]
    · simp only [List.mem_append]
      rintro c ((((hc | hc) | hc) | hc) | hc)
      · exact hb₁ c hc
      · exact hb₂ c hc
      · exact hb₃ c hc
      · exact hb₄ c hc
      · exact hb₅ c hc

/-- The header has parameters, and the first occurrence of one of the keywords is its end. -/
def EndsAtKeyword (s : CStr) : Prop :=
  ';' ∈ s ∧ ∃ keyword : CStr, keyword ∈ ["expires".toList, "reason".toList, "retry-after".toList] ∧
    strstr keyword s = some keyword

theorem behindKeyword_isSome_iff {keyword : CStr} :
    (behindKeyword keyword s).isSome = true ↔ strstr keyword s ≠ some keyword := by
  unfold behindKeyword
  cases hfind : strstr keyword s with
  | none => simp
  | some u =>
    obtain ⟨hpre, -⟩ := strstr_spec hfind
    by_cases hend : u = keyword
    · have hadd : Ptr.add (some keyword) (keyword.length + 1) = none := Ptr.add_of_lt (Nat.lt_succ_self _)
      simp [hend, hadd]
    · have hlt : keyword.length + 1 ≤ u.length := by
        by_contra hle
        exact hend (hpre.eq_of_length_le (by omega)).symm
      simp [Ptr.add_of_le hlt, hend]

theorem isSome_bind_three {α β : Type} (a b c : Option α) (f : α → α → α → β) :
    (a.bind fun x => b.bind fun y => c.bind fun z => some (f x y z)).isSome = true ↔
      a.isSome = true ∧ b.isSome = true ∧ c.isSome = true := by
  cases a <;> cases b <;> cases c <;> simp

theorem sippmhParseSubscriptionState_isSome_iff (info : SubscriptionStateInfo) (s : CStr) :
    (sippmhParseSubscriptionState info s).isSome = true ↔ ¬ EndsAtKeyword s := by
  have hends : EndsAtKeyword s ↔ ';' ∈ s ∧ (strstr "expires" s = some "expires".toList ∨
      strstr "reason" s = some "reason".toList ∨
      strstr "retry-after" s = some "retry-after".toList) := by
    rw [EndsAtKeyword]
    refine and_congr_right fun _ => ⟨?_, ?_⟩
    · rintro ⟨keyword, hmem, h⟩
      simp only [List.mem_cons, List.not_mem_nil, or_false] at hmem
      rcases hmem with rfl | rfl | rfl
      · exact Or.inl h
      · exact Or.inr (Or.inl h)
      · exact Or.inr (Or.inr h)
    · rintro (h | h | h)
      · exact ⟨_, List.mem_cons_self, h⟩
      · exact ⟨_, List.mem_cons_of_mem _ List.mem_cons_self, h⟩
      · exact ⟨_, List.mem_cons_of_mem _ (List.mem_cons_of_mem _ List.mem_cons_self), h⟩
  rw [hends]
  by_cases hsemi : ';' ∈ s
  · rw [sippmhParseSubscriptionState, if_neg (not_not.mpr hsemi), isSome_bind_three,
      behindKeyword_isSome_iff, behindKeyword_isSome_iff, behindKeyword_isSome_iff,
      and_iff_right hsemi, not_or, not_or]
  · rw [sippmhParseSubscriptionState, if_pos hsemi]
    exact iff_of_true rfl fun h => hsemi h.1

/-! ## Characters that may be escaped -/

/-- How many characters the first one of a text has with its escape. -/
def unitWidth (s : CStr) : ℕ := if s.peek = '%' then 3 else 1

/-- The value of the first character of a text, where what is missing of an escape counts as zero. -/
def unitValue (s : CStr) : ℕ :=
  if s.peek = '%' then sippmhHtoi (peek s.tail) * 16 + sippmhHtoi (peek s.tail.tail)
  else s.peek.toNat

/-- The second text is left when whole characters of the first one are taken away. -/
inductive Units : CStr → CStr → Prop
  | refl (s : CStr) : Units s s
  | step {s r : CStr} (hwhole : unitWidth s ≤ s.length) (h : Units (s.drop (unitWidth s)) r) :
      Units s r

/-- The last two texts are left when as many whole characters are taken away from the first two, one
by one of the same value. -/
inductive Alike (ignoreCase : Bool) : CStr → CStr → CStr → CStr → Prop
  | refl (s t : CStr) : Alike ignoreCase s t s t
  | step {s t r₁ r₂ : CStr} (hs : unitWidth s ≤ s.length) (ht : unitWidth t ≤ t.length)
      (hsame : sameValue ignoreCase (unitValue s) (unitValue t) = true)
      (h : Alike ignoreCase (s.drop (unitWidth s)) (t.drop (unitWidth t)) r₁ r₂) :
      Alike ignoreCase s t r₁ r₂

/-- The next character of two texts is compared inside of both. When the values are the same, the first
text has the whole character, and the second one as well unless the comparison is over. -/
structure ComparedWithin (ignoreCase : Bool) (r₁ r₂ : CStr) : Prop where
  first : r₁ ≠ ['%']
  second : r₂ ≠ ['%']
  whole : sameValue ignoreCase (unitValue r₁) (unitValue r₂) = true →
    unitWidth r₁ ≤ r₁.length ∧ (r₁.length = unitWidth r₁ ∨ unitWidth r₂ ≤ r₂.length)

theorem unitWidth_pos (s : CStr) : 0 < unitWidth s := by
  unfold unitWidth
  split_ifs <;> decide

theorem units_iff {r : CStr} : Units s r ↔ s = r ∨ unitWidth s ≤ s.length ∧ Units (s.drop (unitWidth s)) r := by
  constructor
  · rintro (_ | ⟨hwhole, h⟩)
    · exact Or.inl rfl
    · exact Or.inr ⟨hwhole, h⟩
  · rintro (rfl | ⟨hwhole, h⟩)
    · exact .refl _
    · exact .step hwhole h

theorem alike_iff {ignoreCase : Bool} {r₁ r₂ : CStr} : Alike ignoreCase s t r₁ r₂ ↔ s = r₁ ∧ t = r₂ ∨
      unitWidth s ≤ s.length ∧ unitWidth t ≤ t.length ∧ sameValue ignoreCase (unitValue s) (unitValue t) = true ∧
        Alike ignoreCase (s.drop (unitWidth s)) (t.drop (unitWidth t)) r₁ r₂ := by
  constructor
  · rintro (_ | ⟨hs, ht, hsame, h⟩)
    · exact Or.inl ⟨rfl, rfl⟩
    · exact Or.inr ⟨hs, ht, hsame, h⟩
  · rintro (⟨rfl, rfl⟩ | ⟨hs, ht, hsame, h⟩)
    · exact .refl _ _
    · exact .step hs ht hsame h

/-- The loop leaves its input exactly when a lone percent sign is left of it. -/
theorem unescapeLoop_isSome_iff {len fuel charCnt : ℕ} (out : CStr)
    (hlen : charCnt + s.length = len) (hfuel : s.length ≤ fuel) :
    (unescapeLoop len fuel charCnt (some s) out).isSome = true ↔ ¬ Units s ['%'] := by
  induction fuel generalizing charCnt s out with
  | zero =>
    obtain rfl := List.eq_nil_of_length_eq_zero (Nat.le_zero.mp hfuel)
    have hnil : ¬ Units [] ['%'] := by
      rw [units_iff]
      rintro (h | ⟨h, -⟩)
      · cases h
      · exact absurd h (by decide)
    simp [unescapeLoop, hnil]
  | succ fuel ih =>
    rw [units_iff]
    cases s with
    | nil =>
      have hend : ¬ charCnt < len := by
        rw [← hlen]
        exact Nat.lt_irrefl _
      have hwidth : ¬ unitWidth [] ≤ 0 := by decide
      rw [unescapeLoop, if_neg hend]
      simp [hwidth]
    | cons c t =>
      rw [List.length_cons] at hlen hfuel
      rw [unescapeLoop, if_pos (by omega), Ptr.load_some, Option.bind_some, peek_cons]
      by_cases hpercent : c = '%'
      · subst hpercent
        rw [if_pos rfl]
        obtain _ | ⟨a, _ | ⟨b, r⟩⟩ := t
        · simp
        · -- behind the terminator the loop is over
          have hend : (unescapeLoop len fuel (charCnt + 3) none
              (out ++ [toascii (sippmhHtoi a * 16 + sippmhHtoi nul)])).isSome = true := by
            rw [List.length_singleton] at hlen
            cases fuel with
            | zero => rfl
            | succ fuel => rw [unescapeLoop, if_neg (by omega)]; rfl
          simp [unitWidth, hend]
        · have hrest := @ih r (charCnt + 3) (out ++ [toascii (sippmhHtoi a * 16 + sippmhHtoi b)])
            (by simp only [List.length_cons] at hlen; omega)
            (by simp only [List.length_cons] at hfuel; omega)
          simp [unitWidth, hrest]
      · have hrest := @ih t (charCnt + 1) (out ++ [c]) (by omega) (by omega)
        simp [hpercent, unitWidth, hrest]

theorem sippmhConvertEscCharToChar_isSome_iff (s : CStr) :
    (sippmhConvertEscCharToChar s s.length).isSome = true ↔ ¬ Units s ['%'] :=
  unescapeLoop_isSome_iff [] (Nat.zero_add _) le_rfl

theorem unitAt_eq (s : CStr) :
    unitAt (some s) = if s = ['%'] then none else some (unitValue s, unitWidth s) := by
  unfold unitAt unitValue unitWidth
  rw [Ptr.load_some, Option.bind_some]
  match s with
  | [] => rfl
  | [c] =>
    by_cases hpercent : c = '%'
    · subst hpercent
      rfl
    · simp [hpercent]
  | c :: a :: t =>
    by_cases hpercent : c = '%'
    · subst hpercent
      simp
    · simp [hpercent]

/-- The comparison stays inside its input exactly when every character that it comes to does. -/
theorem cmpLoop_isSome_iff {ignoreCase : Bool} {fuel : ℕ} (hs : nul ∉ s) (hfuel : s.length < fuel) (value1 value2 : ℕ) :
    (cmpLoop ignoreCase fuel (some s) (some t) value1 value2).isSome = true ↔
      ∀ r₁ r₂, Alike ignoreCase s t r₁ r₂ → r₁ ≠ [] → ComparedWithin ignoreCase r₁ r₂ := by
  induction fuel generalizing s t value1 value2 with
  | zero => cases hfuel
  | succ fuel ih =>
    rw [cmpLoop, Ptr.load_some, Option.bind_some]
    rcases s with _ | ⟨c, u⟩
    · -- the first text is over
      refine iff_of_true (by rw [peek_nil, if_pos rfl]; rfl) fun r₁ r₂ halike hne => ?_
      rcases alike_iff.mp halike with ⟨rfl, -⟩ | ⟨hwidth, -⟩
      · exact absurd rfl hne
      · exact absurd hwidth (by decide)
    · have hc : c ≠ nul := fun heq => hs (heq ▸ List.mem_cons_self)
      rw [peek_cons, if_neg hc, unitAt_eq, unitAt_eq]
      generalize hseq : c :: u = s at *
      have hsne : s ≠ [] := hseq ▸ List.cons_ne_nil c u
      have hspos : 0 < s.length := List.length_pos_iff.mpr hsne
      by_cases hfirst : s = ['%']
      · rw [if_pos hfirst]
        exact iff_of_false nofun fun h => (h s t (.refl s t) hsne).first hfirst
      · by_cases hsecond : t = ['%']
        · rw [if_neg hfirst, if_pos hsecond]
          exact iff_of_false nofun fun h => (h s t (.refl s t) hsne).second hsecond
        · rw [if_neg hfirst, if_neg hsecond, Option.bind_some]
          dsimp only [Option.bind_some]
          by_cases hsame : sameValue ignoreCase (unitValue s) (unitValue t) = true
          · rw [if_pos hsame]
            by_cases hwhole : unitWidth s ≤ s.length
            · rw [Ptr.add_of_le hwhole]
              have hwidth := unitWidth_pos s
              have hrest : (s.drop (unitWidth s)).length = s.length - unitWidth s := List.length_drop
              have hnul : nul ∉ s.drop (unitWidth s) := fun hmem => hs (List.mem_of_mem_drop hmem)
              by_cases hwhole₂ : unitWidth t ≤ t.length
              · rw [Ptr.add_of_le hwhole₂, ih hnul (by omega)]
                refine ⟨fun h r₁ r₂ halike hne => ?_, fun h r₁ r₂ halike hne => ?_⟩
                · rcases alike_iff.mp halike with ⟨rfl, rfl⟩ | ⟨-, -, -, halike⟩
                  · exact ⟨hfirst, hsecond, fun _ => ⟨hwhole, Or.inr hwhole₂⟩⟩
                  · exact h r₁ r₂ halike hne
                · exact h r₁ r₂ (.step hwhole hwhole₂ hsame halike) hne
              · -- the second text is left, which is read unless the first one is over
                rw [Ptr.add_of_lt (Nat.lt_of_not_le hwhole₂)]
                obtain ⟨fuel, rfl⟩ : ∃ k, fuel = k + 1 := ⟨fuel - 1, by omega⟩
                rw [cmpLoop, Ptr.load_some, Option.bind_some]
                by_cases hlast : s.drop (unitWidth s) = []
                · rw [hlast, peek_nil, if_pos rfl]
                  have hlen : s.length = unitWidth s := by
                    rw [hlast, List.length_nil] at hrest
                    omega
                  refine iff_of_true rfl fun r₁ r₂ halike hne => ?_
                  rcases alike_iff.mp halike with ⟨rfl, rfl⟩ | ⟨-, hwhole', -⟩
                  · exact ⟨hfirst, hsecond, fun _ => ⟨hwhole, Or.inl hlen⟩⟩
                  · exact absurd hwhole' hwhole₂
                · have hpeek : CStr.peek (s.drop (unitWidth s)) ≠ nul := by
                    intro heq
                    obtain ⟨d, v, hdv⟩ := List.exists_cons_of_ne_nil hlast
                    rw [hdv, peek_cons] at heq
                    exact hnul (by rw [hdv, heq]; exact List.mem_cons_self)
                  have hnone : unitAt none = none := rfl
                  rw [if_neg hpeek, hnone]
                  refine iff_of_false ?_ fun h => ?_
                  · cases unitAt (some (s.drop (unitWidth s))) <;> simp
                  · have hcompared := (h s t (.refl s t) hsne).whole hsame
                    rcases hcompared.2 with hlen | hle
                    · exact hlast (List.eq_nil_of_length_eq_zero (by omega))
                    · exact hwhole₂ hle
            · rw [Ptr.add_of_lt (Nat.lt_of_not_le hwhole)]
              obtain ⟨fuel, rfl⟩ : ∃ k, fuel = k + 1 := ⟨fuel - 1, by omega⟩
              rw [cmpLoop]
              exact iff_of_false nofun fun h =>
                hwhole ((h s t (.refl s t) hsne).whole hsame).1
          · rw [if_neg hsame]
            refine iff_of_true rfl fun r₁ r₂ halike hne => ?_
            rcases alike_iff.mp halike with ⟨rfl, rfl⟩ | ⟨-, -, hsame', -⟩
            · exact ⟨hfirst, hsecond, fun h => absurd h hsame⟩
            · exact absurd hsame' hsame

/-- **When the header scanners stay inside their input.** Of all texts, the scanner of a Via header
leaves those that end with the transport, that of a Subscription-State header those that end at a
keyword, the conversion of escapes those with a lone percent sign at the end, and the comparison those
for which some character that it comes to is not whole. -/
theorem scanners_within_iff (inetPton6 : CStr → Bool) (info : SubscriptionStateInfo)
    (ignoreCase : Bool) {s t : CStr} (hs : nul ∉ s) :
    ((sippmhParseVia inetPton6 s).isSome = true ↔ ¬ EndsAtTransport s) ∧
      ((sippmhParseSubscriptionState info s).isSome = true ↔ ¬ EndsAtKeyword s) ∧
      ((sippmhConvertEscCharToChar s s.length).isSome = true ↔ ¬ Units s ['%']) ∧
      ((sippmhCmpURLStrings s t ignoreCase).isSome = true ↔
        ∀ r₁ r₂, Alike ignoreCase s t r₁ r₂ → r₁ ≠ [] → ComparedWithin ignoreCase r₁ r₂) :=
  ⟨sippmhParseVia_isSome_iff inetPton6 s, sippmhParseSubscriptionState_isSome_iff info s,
    sippmhConvertEscCharToChar_isSome_iff s, cmpLoop_isSome_iff hs (Nat.lt_succ_self _) 0 0⟩

/-- A Via header with a host, and no percent sign, does not end at any of these places. -/
theorem scanners_within_host :
    ¬ EndsAtTransport "SIP/2.0/UDP 10.0.0.1" ∧ ¬ Units "SIP/2.0/UDP 10.0.0.1" ['%'] :=
  have h := scanners_within_iff (fun _ => false) {} true (s := "SIP/2.0/UDP 10.0.0.1") (t := [])
    (by decide)
  ⟨h.1.mp (by decide), h.2.2.1.mp (by decide)⟩

/-- A Via header that ends with the transport, and the others. -/
theorem not_scanners_within :
    sippmhParseVia (fun _ => false) "SIP/2.0/UDP" = none ∧
      sippmhParseSubscriptionState {} "active;expires" = none ∧
      sippmhConvertEscCharToChar "100%" 4 = none ∧ sippmhCmpURLStrings "a%4" "a@" false = none := by
  decide

end Sip
