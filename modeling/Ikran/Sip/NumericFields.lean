import Ikran.Lib.Numeral
import Ikran.Sip.Transactions

/-!
# Numeric header fields

The numbers of CSeq, Via, Max-Forwards and Content-Length. Each parser converts its text to a wider type and narrows
the result, before or after it looks at the range.
-/

namespace Sip

open CStr Httpish

/-- `sippmh_parse_max_forwards`, for a header that is present: `-1` stands for an invalid value. -/
def sippmhParseMaxForwards (maxFwdHdr : CStr) : ℤ :=
  if maxFwdHdr.peek.isDigit then
    -- the result of `strtol` is narrowed to 32 bits before its range is checked
    let maxFwd := (strtol maxFwdHdr).1.bmod (2 ^ 32)
    if 0 ≤ maxFwd ∧ maxFwd ≤ 255 then maxFwd else -1
  else -1

/-! ## CSeq -/

/-- A CSeq header that is refused: it holds a comma, or has fewer than two pieces, or the low 32 bits of its number
are too large. -/
def CseqRefused (cseq : CStr) : Prop :=
  ',' ∈ cseq ∨ ∀ number rest, strtok " " cseq = some (number, rest) →
    strtok " " rest = none ∨ 2 ^ 64 ≤ (numeral number).natAbs ∨ 2 ^ 31 ≤ numeral number % 2 ^ 32

/-- The number of an accepted CSeq header is the one it begins with. -/
def CseqExact (cseq : CStr) : Prop :=
  ∀ parsed, parseCseq cseq = some parsed →
    NamesExactly cseq parsed.number.toNat ∧ parsed.number.toNat < 2 ^ 31

theorem toNat_ofNat_strtoul (s : CStr) : ((UInt32.ofNat (strtoul s).1).toNat : ℤ) =
      if 2 ^ 64 ≤ (numeral s).natAbs then 2 ^ 32 - 1 else numeral s % 2 ^ 32 := by
  have hval := strtoul_fst s
  rw [UInt32.toNat_ofNat']
  split_ifs at hval ⊢ <;> omega

theorem cseqNumber_refused_iff (s : CStr) : 2 ^ 31 ≤ UInt32.ofNat (strtoul s).1 ↔
      2 ^ 64 ≤ (numeral s).natAbs ∨ 2 ^ 31 ≤ numeral s % 2 ^ 32 := by
  have hval := toNat_ofNat_strtoul s
  have hword : (2 ^ 31 : UInt32).toNat = 2147483648 := by decide
  rw [UInt32.le_iff_toNat_le, hword]
  split_ifs at hval with hlarge <;> omega

theorem parseCseq_eq_none_iff (cseq : CStr) : parseCseq cseq = none ↔ CseqRefused cseq := by
  rw [parseCseq, CseqRefused]
  by_cases hcomma : ',' ∈ cseq
  · rw [if_pos hcomma]
    exact iff_of_true rfl (.inl hcomma)
  rw [if_neg hcomma, or_iff_right hcomma]
  cases hnumber : strtok " " cseq with
  | none => exact iff_of_true rfl (by simp)
  | some p =>
    obtain ⟨number, rest⟩ := p
    have hinst : (∀ n r, some (number, rest) = some (n, r) →
        strtok " " r = none ∨ 2 ^ 64 ≤ (numeral n).natAbs ∨ 2 ^ 31 ≤ numeral n % 2 ^ 32) ↔
        strtok " " rest = none ∨ 2 ^ 64 ≤ (numeral number).natAbs ∨ 2 ^ 31 ≤ numeral number % 2 ^ 32 := by
      simp
    rw [hinst, ← cseqNumber_refused_iff]
    dsimp only
    split_ifs with hlarge
    · exact iff_of_true rfl (.inr hlarge)
    · cases hmethod : strtok " " rest with
      | none => exact iff_of_true rfl (.inl rfl)
      | some q => simp [hlarge]

theorem number_of_parseCseq {cseq : CStr} {parsed : Cseq} (h : parseCseq cseq = some parsed) :
    ∃ number rest, strtok " " cseq = some (number, rest) ∧ parsed.number.toNat < 2 ^ 31 ∧
      (parsed.number.toNat : ℤ) = numeral number % 2 ^ 32 := by
  have hkept : ¬CseqRefused cseq := by
    rw [← parseCseq_eq_none_iff, h]
    exact Option.some_ne_none parsed
  rw [CseqRefused, not_or] at hkept
  obtain ⟨hcomma, hnumber⟩ := hkept
  push Not at hnumber
  obtain ⟨number, rest, hnumber, hmethod, hsmall, hlow⟩ := hnumber
  obtain ⟨⟨method, rest'⟩, hmethod⟩ := Option.ne_none_iff_exists'.mp hmethod
  have hvalue := toNat_ofNat_strtoul number
  rw [if_neg (Nat.not_le.mpr hsmall)] at hvalue
  have hle : ¬2 ^ 31 ≤ UInt32.ofNat (strtoul number).1 := by
    rw [cseqNumber_refused_iff]
    omega
  have hparsed : parseCseq cseq = some ⟨UInt32.ofNat (strtoul number).1, getMethodCode method⟩ := by
    simp only [parseCseq, if_neg hcomma, hnumber, if_neg hle, hmethod]
  rw [h, Option.some_inj] at hparsed
  rw [hparsed]
  exact ⟨number, rest, hnumber, by dsimp only; omega, hvalue⟩

theorem numeral_of_strtok {cseq number rest : CStr} (h : strtok " " cseq = some (number, rest))
    (hdigit : cseq.peek.isDigit = true) : numeral number = numeral cseq := by
  have hfront : cseq.dropWhile (· ∈ (" " : CStr)) = cseq := by
    cases cseq with
    | nil => rfl
    | cons c s =>
      refine List.dropWhile_cons_of_neg fun hmem => ?_
      have hblank : c = ' ' := by simpa using hmem
      subst hblank
      rw [peek_cons] at hdigit
      exact absurd hdigit (by decide)
  rw [strtok, hfront] at h
  cases cseq with
  | nil => exact absurd hdigit (by decide)
  | cons c s =>
    obtain ⟨rfl, -⟩ := Prod.mk.inj (Option.some_inj.mp h)
    refine numeral_takeWhile hdigit fun d hd => decide_eq_true fun hmem => ?_
    have hblank : d = ' ' := by simpa using hmem
    subst hblank
    exact absurd hd (by decide)

theorem cseqExact_iff (cseq : CStr) :
    CseqExact cseq ↔ CseqRefused cseq ∨ cseq.peek.isDigit = true ∧ numeral cseq < 2 ^ 31 := by
  rw [← parseCseq_eq_none_iff, CseqExact]
  cases hparsed : parseCseq cseq with
  | none => exact iff_of_true (fun _ h => by cases h) (.inl rfl)
  | some parsed =>
    obtain ⟨number, rest, hnumber, hlt, hvalue⟩ := number_of_parseCseq hparsed
    constructor
    · intro hexact
      obtain ⟨hnames, -⟩ := hexact parsed rfl
      obtain ⟨hdigit, heq⟩ := namesExactly_iff.mp hnames
      exact .inr ⟨hdigit, by omega⟩
    · rintro (h | ⟨hdigit, hsmall⟩) _ ⟨⟩
      · cases h
      · have hnonneg := numeral_nonneg hdigit
        rw [numeral_of_strtok hnumber hdigit] at hvalue
        exact ⟨namesExactly_iff.mpr ⟨hdigit, by omega⟩, hlt⟩

/-! ## The port of a Via header -/

/-- The text of a Via header behind its transport, with the version and the transport before it. -/
def sentBy (inputVia : CStr) : CStr × CStr × CStr :=
  let via := skipLws ((skipLws (skipLws inputVia |>.drop 3)).tail)
  let transport := skipLws (skipLws (via.drop 3)).tail
  (via.take 3 ++ (via.drop 3).takeWhile isLws, transport.take 3, skipLws (transport.drop 4))

/-- The sent-by part of a Via header: its host, its port, and the text from the separator behind them. -/
structure SentBy where
  host : CStr
  port : Option CStr
  behind : Option CStr

/-- The sent-by part at the start of a text. -/
def splitSentBy (via : CStr) : SentBy :=
  let separator := if via.peek = '[' then (strpbrk via "]").map List.tail else some via
  let separator := separator.bind (strpbrk · ":;,")
  if separator.map peek = some ':' then
    let portNumStr := (separator.map List.tail).getD []
    let behind := strpbrk portNumStr ";,"
    ⟨textUpTo via separator, some (textUpTo portNumStr behind), behind⟩
  else ⟨textUpTo via separator, none, separator⟩

/-- What stands behind the sent-by part: parameters that are not given twice, another entry, or nothing. -/
def viaBehind (behind : Option CStr) (sipVia : SipVia) : Option SipVia :=
  match behind with
  | none => some sipVia
  | some str =>
    if str.peek = ';' then parseViaParams str.length str.tail sipVia
    else some { sipVia with moreVia := some (skipLws str.tail) }

/-- The number of a port, when it is accepted. -/
def portNumber (portNumStr : CStr) : Option UInt16 :=
  let (port, endptr) := strtol portNumStr
  if (skipLws endptr).peek ≠ nul ∨ UInt16.ofInt port = 0 then none else some (UInt16.ofInt port)

theorem portNumber_eq (portNumStr : CStr) : portNumber portNumStr =
      if (skipLws (strtol portNumStr).2).peek ≠ nul ∨ UInt16.ofInt (strtol portNumStr).1 = 0 then none
      else some (UInt16.ofInt (strtol portNumStr).1) := by
  rw [portNumber]

/-- The text of a port that is refused: more than blanks stands behind its number, or the low 16 bits of the number
are zero. -/
def PortRefused (port : CStr) : Prop :=
  (skipLws (behindNumeral port)).peek ≠ nul ∨ numeral port ≤ -2 ^ 63 ∨ numeral port < 2 ^ 63 ∧ 2 ^ 16 ∣ numeral port

theorem toNat_ofInt (n : ℤ) : ((UInt16.ofInt n).toNat : ℤ) = n % 2 ^ 16 := by
  rw [UInt16.ofInt, UInt16.toNat_ofNat']
  omega

theorem portNumber_eq_none_iff (port : CStr) : portNumber port = none ↔ PortRefused port := by
  have hclamp := strtol_fst port
  have hzero : UInt16.ofInt (strtol port).1 = 0 ↔
      numeral port ≤ -2 ^ 63 ∨ numeral port < 2 ^ 63 ∧ 2 ^ 16 ∣ numeral port := by
    have hlow := toNat_ofInt (strtol port).1
    rw [← UInt16.toNat_inj, UInt16.toNat_zero]
    omega
  rw [portNumber_eq, PortRefused, ← strtol_snd, ← hzero]
  split_ifs with hbad
  · exact iff_of_true rfl hbad
  · exact iff_of_false not_false hbad

theorem toNat_portNumber {port : CStr} {n : UInt16} (h : portNumber port = some n) :
    (n.toNat : ℤ) = if 2 ^ 63 ≤ numeral port then 2 ^ 16 - 1 else numeral port % 2 ^ 16 := by
  have hkept : ¬PortRefused port := by
    rw [← portNumber_eq_none_iff, h]
    exact Option.some_ne_none n
  rw [PortRefused, not_or, not_or] at hkept
  obtain ⟨hbehind, hlarge, -⟩ := hkept
  have hclamp := strtol_fst port
  have hlow := toNat_ofInt (strtol port).1
  rw [portNumber_eq] at h
  split_ifs at h with hbad
  obtain rfl := Option.some_inj.mp h
  split_ifs <;> omega

theorem portExact_iff (port : CStr) :
    (∀ n, portNumber port = some n → NamesExactly port n.toNat ∧ 1 ≤ n.toNat ∧ n.toNat ≤ 65535) ↔
      PortRefused port ∨ port.peek.isDigit = true ∧ numeral port ≤ 65535 := by
  rw [← portNumber_eq_none_iff]
  cases hport : portNumber port with
  | none => exact iff_of_true (fun _ h => by cases h) (.inl rfl)
  | some n =>
    have hvalue := toNat_portNumber hport
    have hkept : ¬PortRefused port := by
      rw [← portNumber_eq_none_iff, hport]
      exact Option.some_ne_none n
    rw [PortRefused, not_or, not_or] at hkept
    constructor
    · intro hexact
      obtain ⟨hnames, -, hle⟩ := hexact n rfl
      obtain ⟨hdigit, heq⟩ := namesExactly_iff.mp hnames
      exact .inr ⟨hdigit, by omega⟩
    · rintro (h | ⟨hdigit, hsmall⟩) _ ⟨⟩
      · cases h
      · have hnonneg := numeral_nonneg hdigit
        rw [if_neg (by omega)] at hvalue
        exact ⟨namesExactly_iff.mpr ⟨hdigit, by omega⟩, by omega, by omega⟩

/-- The start of a Via header, up to the sent-by part, has its form. -/
def ViaStart (inputVia : CStr) : Prop :=
  let protocol := skipLws inputVia
  let version := skipLws (skipLws (protocol.drop 3)).tail
  let transport := skipLws (skipLws (version.drop 3)).tail
  strncaseEq protocol "SIP" 3 = true ∧ peek (skipLws (protocol.drop 3)) = '/' ∧
    strncmpEq version "2.0" 3 = true ∧ peek (skipLws (version.drop 3)) = '/' ∧
    IsTransport transport ∧ 4 ≤ transport.length ∧ peek (skipLws (transport.drop 4)) ≠ nul

section

variable (inetPton6 : CStr → Bool)

theorem viaSentBy_eq (version transport via : CStr) :
    viaSentBy inetPton6 version transport via =
      (viaBehind (splitSentBy via).behind
        { version, transport, host := (splitSentBy via).host, isIpv6 := via.peek = '[' }).bind fun sipVia =>
          if sipSPIValidateIpAddrName inetPton6 (splitSentBy via).host then
            (portNumber ((splitSentBy via).port.getD "5060")).map fun portNum =>
              { sipVia with
                host := trimIpv6Host (trimRight (splitSentBy via).host)
                remotePort := portNum
                recdHost := some (trimIpv6Host (trimRight (splitSentBy via).host)) }
          else none := by
  rw [viaSentBy, splitSentBy]
  dsimp only
  generalize (if via.peek = '[' then (strpbrk via "]").map List.tail else some via).bind (strpbrk · ":;,") =
    separator
  by_cases hport : separator.map peek = some ':'
  all_goals
    simp only [hport, if_true, if_false]
    refine congrArg₂ Option.bind rfl (funext fun sipVia => ?_)
    by_cases hvalid : sipSPIValidateIpAddrName inetPton6 (textUpTo via separator) = true
    · rw [if_pos hvalid, if_pos hvalid, portNumber_eq, apply_ite (Option.map _)]
      rfl
    · rw [if_neg hvalid, if_neg hvalid]

theorem sippmhParseVia_eq_some_iff {inputVia : CStr} {v : SipVia} : sippmhParseVia inetPton6 inputVia = some (some v) ↔
      ViaStart inputVia ∧
        viaSentBy inetPton6 (sentBy inputVia).1 (sentBy inputVia).2.1 (sentBy inputVia).2.2 = some v := by
  rw [sippmhParseVia, ViaStart, sentBy]
  dsimp only
  by_cases hprotocol : strncaseEq (skipLws inputVia) "SIP" 3 = true
  case neg =>
    rw [if_pos hprotocol]
    exact iff_of_false (by rintro ⟨⟩) fun h => hprotocol h.1.1
  rw [if_neg (not_not.mpr hprotocol)]
  by_cases hslash : peek (skipLws ((skipLws inputVia).drop 3)) = '/'
  case neg =>
    rw [if_pos hslash]
    exact iff_of_false (by rintro ⟨⟩) fun h => hslash h.1.2.1
  rw [if_neg (not_not.mpr hslash)]
  generalize skipLws (skipLws ((skipLws inputVia).drop 3)).tail = version
  by_cases hversion : strncmpEq version "2.0" 3 = true
  case neg =>
    rw [if_pos hversion]
    exact iff_of_false (by rintro ⟨⟩) fun h => hversion h.1.2.2.1
  rw [if_neg (not_not.mpr hversion)]
  by_cases hslash' : peek (skipLws (version.drop 3)) = '/'
  case neg =>
    rw [if_pos hslash']
    exact iff_of_false (by rintro ⟨⟩) fun h => hslash' h.1.2.2.2.1
  rw [if_neg (not_not.mpr hslash')]
  generalize skipLws (skipLws (version.drop 3)).tail = transport
  by_cases htransport : IsTransport transport
  case neg =>
    rw [if_pos htransport]
    exact iff_of_false (by rintro ⟨⟩) fun h => htransport h.1.2.2.2.2.1
  rw [if_neg (not_not.mpr htransport)]
  by_cases hlength : 4 ≤ transport.length
  case neg =>
    rw [Ptr.add_of_lt (Nat.not_le.mp hlength)]
    exact iff_of_false (by rintro ⟨⟩) fun h => hlength h.1.2.2.2.2.2.1
  rw [Ptr.add_of_le hlength, Option.bind_some]
  by_cases hend : peek (skipLws (transport.drop 4)) = nul
  · rw [if_pos hend]
    exact iff_of_false (by rintro ⟨⟩) fun h => h.1.2.2.2.2.2.2 hend
  · rw [if_neg hend, Option.some_inj]
    exact (and_iff_right ⟨hprotocol, hslash, hversion, hslash', htransport, hlength, hend⟩).symm

/-- What is known of a Via header before the text behind its sent-by part is looked at. -/
def viaBefore (version transport via : CStr) : SipVia :=
  { version, transport, host := (splitSentBy via).host, isIpv6 := via.peek = '[' }

/-- A Via header that is refused whatever its port is: its start does not have its form, its host is invalid, or a
parameter is given twice. -/
def ViaRefused (inputVia : CStr) : Prop :=
  ¬ViaStart inputVia ∨ sipSPIValidateIpAddrName inetPton6 (splitSentBy (sentBy inputVia).2.2).host = false ∨
    viaBehind (splitSentBy (sentBy inputVia).2.2).behind
      (viaBefore (sentBy inputVia).1 (sentBy inputVia).2.1 (sentBy inputVia).2.2) = none

/-- The port of an accepted Via header is the one that is written. -/
def ViaExact (inputVia : CStr) : Prop :=
  ∀ sipVia port, sippmhParseVia inetPton6 inputVia = some (some sipVia) →
    (splitSentBy (sentBy inputVia).2.2).port = some port →
      NamesExactly port sipVia.remotePort.toNat ∧ 1 ≤ sipVia.remotePort.toNat ∧ sipVia.remotePort.toNat ≤ 65535

theorem exists_via_iff {inputVia port : CStr} (hkept : ¬ViaRefused inetPton6 inputVia)
    (hport : (splitSentBy (sentBy inputVia).2.2).port = some port) (n : UInt16) :
    (∃ sipVia, sippmhParseVia inetPton6 inputVia = some (some sipVia) ∧ sipVia.remotePort = n) ↔
      portNumber port = some n := by
  rw [ViaRefused, not_or, not_or, not_not, Bool.not_eq_false] at hkept
  obtain ⟨hstart, hhost, hbehind⟩ := hkept
  obtain ⟨sipVia, hbehind⟩ := Option.ne_none_iff_exists'.mp hbehind
  rw [viaBefore] at hbehind
  simp only [sippmhParseVia_eq_some_iff, hstart, true_and, viaSentBy_eq, hbehind, Option.bind_some, hhost, if_true,
    hport, Option.getD_some, Option.map_eq_some_iff]
  constructor
  · rintro ⟨_, ⟨m, hm, rfl⟩, rfl⟩
    exact hm
  · exact fun hn => ⟨_, ⟨n, hn, rfl⟩, rfl⟩

theorem viaExact_iff (inputVia : CStr) : ViaExact inetPton6 inputVia ↔
      ∀ port, (splitSentBy (sentBy inputVia).2.2).port = some port →
        ViaRefused inetPton6 inputVia ∨ PortRefused port ∨ port.peek.isDigit = true ∧ numeral port ≤ 65535 := by
  rw [ViaExact]
  by_cases hkept : ViaRefused inetPton6 inputVia
  · refine iff_of_true (fun sipVia port h => ?_) fun _ _ => .inl hkept
    obtain ⟨hstart, hsentBy⟩ := (sippmhParseVia_eq_some_iff inetPton6).mp h
    rw [viaSentBy_eq] at hsentBy
    rcases hkept with hno | hhost | hbehind
    · exact absurd hstart hno
    · obtain ⟨_, -, h⟩ := Option.bind_eq_some_iff.mp hsentBy
      rw [hhost, if_neg Bool.false_ne_true] at h
      cases h
    · rw [viaBefore] at hbehind
      rw [hbehind] at hsentBy
      cases hsentBy
  · simp only [hkept, false_or]
    have hswap : ∀ port, (splitSentBy (sentBy inputVia).2.2).port = some port →
        ((∀ sipVia, sippmhParseVia inetPton6 inputVia = some (some sipVia) →
          NamesExactly port sipVia.remotePort.toNat ∧ 1 ≤ sipVia.remotePort.toNat ∧ sipVia.remotePort.toNat ≤ 65535) ↔
          PortRefused port ∨ port.peek.isDigit = true ∧ numeral port ≤ 65535) := by
      intro port hport
      rw [← portExact_iff]
      simp only [← exists_via_iff inetPton6 hkept hport]
      exact ⟨fun h n ⟨sipVia, hvia, hn⟩ => hn ▸ h sipVia hvia, fun h sipVia hvia => h _ ⟨sipVia, hvia, rfl⟩⟩
    exact ⟨fun h port hport => (hswap port hport).mp fun sipVia hvia => h sipVia port hvia hport,
      fun h sipVia port hvia hport => (hswap port hport).mpr (h port hport) sipVia hvia⟩

end

/-! ## Max-Forwards and Content-Length -/

/-- The number of an accepted Max-Forwards header is the one it begins with. -/
def MaxForwardsExact (maxFwdHdr : CStr) : Prop :=
  0 ≤ sippmhParseMaxForwards maxFwdHdr →
    NamesExactly maxFwdHdr (sippmhParseMaxForwards maxFwdHdr).toNat ∧ sippmhParseMaxForwards maxFwdHdr ≤ 255

theorem maxForwardsExact_iff (maxFwdHdr : CStr) : MaxForwardsExact maxFwdHdr ↔
      maxFwdHdr.peek.isDigit = true → numeral maxFwdHdr ≤ 255 ∨ 2 ^ 63 ≤ numeral maxFwdHdr ∨
        255 < numeral maxFwdHdr % 2 ^ 32 := by
  rw [MaxForwardsExact, sippmhParseMaxForwards]
  by_cases hdigit : maxFwdHdr.peek.isDigit = true
  case neg =>
    rw [if_neg hdigit]
    exact iff_of_true (fun h => absurd h (by decide)) fun h => absurd h hdigit
  have hnonneg := numeral_nonneg hdigit
  have hclamp := strtol_fst maxFwdHdr
  have hlow := Int.bmod_def (strtol maxFwdHdr).1 (2 ^ 32)
  rw [if_pos hdigit]
  dsimp only
  by_cases hrange : 0 ≤ (strtol maxFwdHdr).1.bmod (2 ^ 32) ∧ (strtol maxFwdHdr).1.bmod (2 ^ 32) ≤ 255
  · rw [if_pos hrange]
    obtain ⟨hzero, hle⟩ := hrange
    simp only [hzero, hle, hdigit, forall_const, namesExactly_iff, true_and, and_true, Int.toNat_of_nonneg hzero]
    omega
  · rw [if_neg hrange]
    refine iff_of_true (fun h => absurd h (by decide)) fun _ => ?_
    omega

/-- The length of an accepted Content-Length header is the number it begins with. -/
def ContentLengthExact (hmsg : HttpishMsg) : Prop :=
  hmsg.getContentLength ≠ -1 → ∃ val, hmsg.cachedHeaderVal .contentLength = some val ∧
    NamesExactly val hmsg.getContentLength.toNat ∧ 0 ≤ hmsg.getContentLength ∧ hmsg.getContentLength ≤ 2 ^ 31 - 1

theorem contentLengthExact_iff (hmsg : HttpishMsg) : ContentLengthExact hmsg ↔
      ∀ val, hmsg.cachedHeaderVal .contentLength = some val → val.all Char.isDigit = true → val ≠ [] →
        numeral val < 2 ^ 31 ∨ 2 ^ 63 ≤ numeral val ∨ numeral val % 2 ^ 32 = 2 ^ 32 - 1 := by
  rw [ContentLengthExact, HttpishMsg.getContentLength]
  cases hval : hmsg.cachedHeaderVal .contentLength with
  | none => exact iff_of_true (fun h => absurd rfl h) fun _ h => by cases h
  | some val =>
    dsimp only
    split_ifs with hform
    · rw [Bool.and_eq_true, bne_iff_ne] at hform
      obtain ⟨hall, hne⟩ := hform
      have hdigit : val.peek.isDigit = true := by
        obtain ⟨c, s, rfl⟩ := List.exists_cons_of_ne_nil hne
        exact (List.all_eq_true.mp hall) c List.mem_cons_self
      have hnonneg := numeral_nonneg hdigit
      have hclamp := strtol_fst val
      have hlow := Int.bmod_def (strtol val).1 (2 ^ 32)
      simp only [Option.some_inj, exists_eq_left', forall_eq', hall, hne, ne_eq, not_false_eq_true, forall_const,
        namesExactly_iff, hdigit, true_and, atoi]
      omega
    · refine iff_of_true (fun h => absurd rfl h) ?_
      rintro _ ⟨⟩ hall hne
      exact absurd (by rw [hall, Bool.true_and, bne_iff_ne]; exact hne) hform

/-- **When the numbers of the header fields are exact.** Whatever is refused is exact; of the rest, a CSeq header
must begin with a number below `2 ^ 31`, and the port of a Via header with one up to 65535; a number of Max-Forwards
above 255 and a length from `2 ^ 31` on must be among those whose low bits give them away. -/
theorem numbersExact_iff (inetPton6 : CStr → Bool) (cseq inputVia maxFwdHdr : CStr) (hmsg : HttpishMsg) :
    (CseqExact cseq ↔ CseqRefused cseq ∨ cseq.peek.isDigit = true ∧ numeral cseq < 2 ^ 31) ∧
      (ViaExact inetPton6 inputVia ↔
        ∀ port, (splitSentBy (sentBy inputVia).2.2).port = some port →
          ViaRefused inetPton6 inputVia ∨ PortRefused port ∨ port.peek.isDigit = true ∧ numeral port ≤ 65535) ∧
      (MaxForwardsExact maxFwdHdr ↔
        maxFwdHdr.peek.isDigit = true → numeral maxFwdHdr ≤ 255 ∨ 2 ^ 63 ≤ numeral maxFwdHdr ∨
          255 < numeral maxFwdHdr % 2 ^ 32) ∧
      (ContentLengthExact hmsg ↔
        ∀ val, hmsg.cachedHeaderVal .contentLength = some val → val.all Char.isDigit = true → val ≠ [] →
          numeral val < 2 ^ 31 ∨ 2 ^ 63 ≤ numeral val ∨ numeral val % 2 ^ 32 = 2 ^ 32 - 1) :=
  ⟨cseqExact_iff cseq, viaExact_iff inetPton6 inputVia, maxForwardsExact_iff maxFwdHdr, contentLengthExact_iff hmsg⟩

/-- Numbers of each field are accepted as others. -/
theorem not_numbersExact :
    ¬CseqExact "4294967297 INVITE" ∧ ¬ViaExact (fun _ => false) "SIP/2.0/UDP pbx:65537" ∧
      ¬MaxForwardsExact "4294967296" ∧
        ¬ContentLengthExact (HttpishMsg.addHeader {} "Content-Length: 4294967301") := by
  refine ⟨fun h => ?_, fun h => ?_, fun h => ?_, fun h => ?_⟩
  · have hone := h ⟨1, .invite⟩ (by decide)
    exact absurd hone (by decide)
  · have hone := h { version := "2.0", transport := "UDP", host := "pbx", recdHost := some "pbx", remotePort := 1 }
      "65537" (by decide) (by decide)
    exact absurd hone (by decide)
  · exact absurd (h (by decide)) (by decide)
  · obtain ⟨val, hval, hnames, -⟩ := h (by decide)
    have hval' : some val = some "4294967301".toList := hval.symm.trans (by decide)
    obtain rfl := Option.some_inj.mp hval'
    exact absurd hnames (by decide)

end Sip
