import Ikran.Sip.Url
import Ikran.Sip.UrlCompare

/-!
# The Refer-To header

The text of a Refer-To header is cut at question marks and ampersands into an array of six entries: the URL, and the
headers embedded behind it. The values of three of them are unescaped and kept.
-/

namespace Sip

open CStr

/-! ## The parsers -/

/-- The embedded headers that are kept. -/
inductive ReferToHeader
  | replaces | acceptContact | proxyAuth
  deriving DecidableEq

/-- `sipReferTo_t`. -/
structure ReferTo (Url : Type) where
  targetUrl : Url
  sipReplacesHdr : Option CStr := none
  sipAccCont : Option CStr := none
  sipProxyAuth : Option CStr := none

namespace ReferTo

variable {Url : Type}

def header (referTo : ReferTo Url) : ReferToHeader → Option CStr
  | .replaces => referTo.sipReplacesHdr
  | .acceptContact => referTo.sipAccCont
  | .proxyAuth => referTo.sipProxyAuth

def setHeader (referTo : ReferTo Url) (k : ReferToHeader) (text : CStr) : ReferTo Url :=
  match k with
  | .replaces => { referTo with sipReplacesHdr := some text }
  | .acceptContact => { referTo with sipAccCont := some text }
  | .proxyAuth => { referTo with sipProxyAuth := some text }

theorem header_setHeader (referTo : ReferTo Url) (k : ReferToHeader) (text : CStr) (k' : ReferToHeader) :
    (referTo.setHeader k text).header k' = if k = k' then some text else referTo.header k' := by
  cases k <;> cases k' <;> rfl

end ReferTo

def maxReferToHeaderContents : ℕ := 6

/-- `sippmh_parse_referto_headers`: the entries of `header_arr` that are written, in order. -/
def sippmhParseReftoHeaders (reftoLine : CStr) : List CStr := strtokAll "?&" reftoLine

def referToHeader (name : CStr) : Option ReferToHeader :=
  if strcaseEq name "Replaces" then some .replaces
  else if strcaseEq name "Accept-Contact" || strcaseEq name "a" then some .acceptContact
  else if strcaseEq name "Proxy-Authorization" then some .proxyAuth
  else none

/-- The header whose name stands in front of the first equal sign. -/
def headerKind (header : CStr) : Option ReferToHeader := referToHeader (header.takeWhile (· ≠ '='))

/-- The value behind the equal sign. -/
def embeddedValue (header : CStr) : CStr := skipLws (header.dropWhile (· ≠ '=')).tail

/-- The string that is kept of a value, up to its first NUL. The length of the value is cast to eight bits. -/
def unescapedValue (value : CStr) : Option CStr :=
  (sippmhConvertEscCharToChar value (value.length % 2 ^ 8)).map (·.takeWhile (· ≠ nul))

section

variable {Url : Type}

/-- `sippmh_parse_other_headers`: there is no result when it reads behind the end of a header, and none inside when
the headers are refused. -/
def sippmhParseOtherHeaders : List CStr → ReferTo Url → Option (Option (ReferTo Url))
  | [], referTo => some (some referTo)
  | header :: headers, referTo =>
    if '=' ∉ header then some none
    else
      match headerKind header with
      | none => sippmhParseOtherHeaders headers referTo
      | some k =>
        if embeddedValue header = [] then some none
        else
          (unescapedValue (embeddedValue header)).bind fun text =>
            sippmhParseOtherHeaders headers (referTo.setHeader k text)

end

/-- The text that is cut: what stands in brackets, or all of it. -/
def referToBody (inputReferTo : CStr) : CStr :=
  match strpbrk inputReferTo ",<" with
  | some leftBracket => leftBracket.tail.takeWhile (· ≠ '>')
  | none => skipLws inputReferTo

section

variable (inetPton6 : CStr → Bool) {TelUrl : Type} (parseTelUrl : CStr → Option TelUrl)

/-- `sippmh_parse_refer_to`: there is no result when the array is left. -/
def sippmhParseReferTo (inputReferTo : CStr) : Option (Option (ReferTo (GenUrl ⊕ TelUrl))) :=
  match sippmhParseReftoHeaders (referToBody inputReferTo) with
  | [] => some none
  | url :: headers =>
    if maxReferToHeaderContents < (url :: headers).length then none
    else
      match sippmhParseUrl inetPton6 parseTelUrl url with
      | none => some none
      | some targetUrl => sippmhParseOtherHeaders headers { targetUrl }

end

/-! ## Unescaping -/

/-- The text with its escapes replaced. -/
def unescaped : CStr → CStr
  | [] => []
  | '%' :: high :: low :: s => toascii (sippmhHtoi high * 16 + sippmhHtoi low) :: unescaped s
  | c :: s => c :: unescaped s

/-- Nothing in the text stands for a NUL, and its escapes stand for characters of seven bits. -/
def PlainEscapes : CStr → Prop
  | [] => True
  | '%' :: high :: low :: s =>
    1 ≤ sippmhHtoi high * 16 + sippmhHtoi low ∧ sippmhHtoi high * 16 + sippmhHtoi low < 128 ∧ PlainEscapes s
  | c :: s => c ≠ nul ∧ PlainEscapes s

theorem unescaped_cons {c : Char} (hc : c ≠ '%') (s : CStr) : unescaped (c :: s) = c :: unescaped s := by
  rw [unescaped]
  rintro high low t rfl
  exact absurd rfl hc

theorem plainEscapes_cons {c : Char} (hc : c ≠ '%') (s : CStr) : PlainEscapes (c :: s) ↔ c ≠ nul ∧ PlainEscapes s := by
  rw [PlainEscapes]
  rintro high low t rfl
  exact absurd rfl hc

variable {s : CStr}

theorem length_unescaped (h : WellEscaped s) : (unescaped s).length = (decoded s).length := by
  induction h with
  | nil => rfl
  | plain hc _ ih => rw [unescaped_cons hc, decoded_cons hc, List.length_cons, List.length_cons, ih]
  | escape _ _ _ ih => rw [unescaped, decoded, List.length_cons, List.length_cons, ih]

theorem exists_unescapeTurn {n cnt : ℕ} (fuel : ℕ) (h : WellEscaped s) (hne : s ≠ []) (hturn : cnt < n) (out : CStr) :
    ∃ c w rest, 1 ≤ w ∧ w ≤ 3 ∧ s.length = rest.length + w ∧ unescaped s = c :: unescaped rest ∧ WellEscaped rest ∧
      unescapeLoop n (fuel + 1) cnt (some s) out = unescapeLoop n fuel (cnt + w) (some rest) (out ++ [c]) := by
  cases h with
  | nil => exact absurd rfl hne
  | @plain c s hc h =>
    refine ⟨c, 1, s, le_rfl, by omega, rfl, unescaped_cons hc s, h, ?_⟩
    rw [unescapeLoop, if_pos hturn, Ptr.load_some, Option.bind_some, peek_cons, if_neg hc, Ptr.add_cons_succ,
      Ptr.add_zero]
  | @escape high low s _ _ h =>
    refine ⟨_, 3, s, by omega, le_rfl, rfl, rfl, h, ?_⟩
    rw [unescapeLoop, if_pos hturn]
    rfl

theorem unescaped_ended {n cnt : ℕ} (h : WellEscaped s) (hend : ¬cnt < n) (hcnt : cnt ≤ n + 2) :
    (n = cnt + s.length → (unescaped s).length ≤ 0) ∧ (n + 2 < cnt + s.length → 0 < (unescaped s).length) := by
  refine ⟨fun hall => ?_, fun hmore => ?_⟩
  · have hnil : s = [] := List.eq_nil_of_length_eq_zero (by omega)
    subst hnil
    exact le_rfl
  · cases h with
    | nil =>
      rw [List.length_nil] at hmore
      omega
    | plain hc _ =>
      rw [unescaped_cons hc]
      exact Nat.succ_pos _
    | escape _ _ _ => exact Nat.succ_pos _

/-- How much is unescaped: all of the text when the length is its own, and not all of it when the length is smaller
by more than an escape. By induction on the turns of the loop. -/
theorem exists_unescapeLoop {n fuel cnt : ℕ} (h : WellEscaped s) (out : CStr) (hfuel : n ≤ cnt + fuel)
    (hcnt : cnt ≤ n + 2) (hlen : n ≤ cnt + s.length) :
    ∃ k, unescapeLoop n fuel cnt (some s) out = some (out ++ (unescaped s).take k) ∧
      (n = cnt + s.length → (unescaped s).length ≤ k) ∧ (n + 2 < cnt + s.length → k < (unescaped s).length) := by
  induction fuel generalizing cnt s out with
  | zero => exact ⟨0, by rw [unescapeLoop, List.take_zero, List.append_nil], unescaped_ended h (by omega) hcnt⟩
  | succ fuel ih =>
    by_cases hturn : cnt < n
    · have hne : s ≠ [] := by
        rintro rfl
        simp only [List.length_nil] at hlen
        omega
      obtain ⟨c, w, rest, hw, hw', hlength, hunescaped, hrest, hstep⟩ := exists_unescapeTurn fuel h hne hturn out
      obtain ⟨k, hloop, hall, hmore⟩ := @ih _ (cnt + w) hrest (out ++ [c]) (by omega) (by omega) (by omega)
      refine ⟨k + 1, ?_, fun heq => ?_, fun hlt => ?_⟩
      · rw [hstep, hloop, hunescaped, List.take_succ_cons, List.append_assoc]
        rfl
      · rw [hunescaped, List.length_cons]
        exact Nat.succ_le_succ (hall (by omega))
      · rw [hunescaped, List.length_cons]
        exact Nat.succ_lt_succ (hmore (by omega))
    · exact ⟨0, by rw [unescapeLoop, if_neg hturn, List.take_zero, List.append_nil], unescaped_ended h hturn hcnt⟩

theorem toNat_toascii (x : ℕ) : (toascii x).toNat = x % 128 := by
  rw [toascii, Char.ofNat, dif_pos (by rw [Nat.isValidChar]; omega)]
  rfl

theorem takeWhile_unescaped_iff (h : WellEscaped s) :
    ((unescaped s).takeWhile (· ≠ nul)).map Char.toNat = decoded s ↔ PlainEscapes s := by
  induction h with
  | nil => exact iff_of_true rfl trivial
  | @plain c s hc h ih =>
    rw [unescaped_cons hc, decoded_cons hc, plainEscapes_cons hc]
    by_cases hnul : c = nul
    · rw [List.takeWhile_cons_of_neg (by simpa using hnul)]
      exact iff_of_false (by rintro ⟨⟩) fun hplain => hplain.1 hnul
    · rw [List.takeWhile_cons_of_pos (by simpa using hnul), List.map_cons, and_iff_right hnul, ← ih,
        List.cons_inj_right]
  | @escape high low s hhigh hlow h ih =>
    rw [unescaped, decoded, PlainEscapes, ← sippmhHtoi_eq hhigh, ← sippmhHtoi_eq hlow]
    generalize sippmhHtoi high * 16 + sippmhHtoi low = x
    have hvalue := toNat_toascii x
    by_cases hnul : toascii x = nul
    · have hzero : x % 128 = 0 := by
        rw [← hvalue, hnul]
        rfl
      rw [List.takeWhile_cons_of_neg (by simpa using hnul)]
      exact iff_of_false (by rintro ⟨⟩) fun hplain => by omega
    · have hpos : x % 128 ≠ 0 := fun hzero => hnul (Char.toNat_inj.mp (hvalue.trans hzero))
      rw [List.takeWhile_cons_of_pos (by simpa using hnul), List.map_cons, hvalue, List.cons.injEq, ih]
      constructor
      · rintro ⟨hx, hplain⟩
        exact ⟨by omega, by omega, hplain⟩
      · rintro ⟨-, hx, hplain⟩
        exact ⟨by omega, hplain⟩

/-- **What is kept of a value.** It is the decoded value exactly when that has fewer than 256 characters and its
escapes are plain. -/
theorem unescapedValue_iff {value text : CStr} (h : WellEscaped value) (htext : unescapedValue value = some text) :
    text.map Char.toNat = decoded value ↔ value.length < 256 ∧ PlainEscapes value := by
  obtain ⟨written, hwritten, rfl⟩ := Option.map_eq_some_iff.mp htext
  obtain ⟨k, hloop, hall, hmore⟩ := @exists_unescapeLoop value (value.length % 2 ^ 8) (value.length % 2 ^ 8) 0 h []
    (by omega) (by omega) (by omega)
  rw [sippmhConvertEscCharToChar, hloop, List.nil_append, Option.some_inj] at hwritten
  subst hwritten
  by_cases hlength : value.length < 256
  · rw [and_iff_right hlength, ← takeWhile_unescaped_iff h, List.take_of_length_le (hall (by omega))]
  · refine iff_of_false (fun heq => ?_) fun hfits => hlength hfits.1
    have hle := (List.takeWhile_sublist (fun c => decide (c ≠ nul)) (l := (unescaped value).take k)).length_le
    rw [List.length_take] at hle
    have hcount := congrArg List.length heq
    rw [List.length_map, ← length_unescaped h] at hcount
    have hlt := hmore (by omega)
    omega

/-! ## The embedded headers -/

section

variable {Url : Type}

/-- An embedded header that is taken: it has an equal sign, and when it is one of those that are kept, a value that
is unescaped within its text. -/
def HeaderTaken (header : CStr) : Prop :=
  '=' ∈ header ∧ ∀ k, headerKind header = some k →
    embeddedValue header ≠ [] ∧ (unescapedValue (embeddedValue header)).isSome

/-- What is kept when a header is taken. -/
def keepHeader (referTo : ReferTo Url) (header : CStr) : ReferTo Url :=
  match headerKind header with
  | none => referTo
  | some k => referTo.setHeader k ((unescapedValue (embeddedValue header)).getD [])

/-- The last of the embedded headers of a kind. -/
def lastHeader (headers : List CStr) (k : ReferToHeader) : Option CStr :=
  (headers.filter fun header => headerKind header = some k).getLast?

/-- **What is kept of the embedded headers.** When each of them is taken, the string of each that is kept. -/
theorem sippmhParseOtherHeaders_eq {headers : List CStr} {referTo result : ReferTo Url} :
    sippmhParseOtherHeaders headers referTo = some (some result) ↔
      (∀ header ∈ headers, HeaderTaken header) ∧ result = headers.foldl keepHeader referTo := by
  induction headers generalizing referTo with
  | nil =>
    rw [sippmhParseOtherHeaders, Option.some_inj, Option.some_inj, List.foldl_nil, eq_comm]
    exact (and_iff_right (List.forall_mem_nil _)).symm
  | cons header headers ih =>
    have hcons := List.forall_mem_cons (p := HeaderTaken) (a := header) (l := headers)
    rw [hcons, List.foldl_cons, sippmhParseOtherHeaders, HeaderTaken, keepHeader]
    by_cases hequal : '=' ∈ header
    case neg =>
      rw [if_pos hequal]
      exact iff_of_false (by rintro ⟨⟩) fun h => hequal h.1.1.1
    rw [if_neg (not_not.mpr hequal)]
    cases headerKind header with
    | none => simp [hequal, ih]
    | some k =>
      dsimp only
      by_cases hvalue : embeddedValue header = []
      · rw [if_pos hvalue]
        exact iff_of_false (by rintro ⟨⟩) fun h => (h.1.1.2 k rfl).1 hvalue
      rw [if_neg hvalue]
      cases htext : unescapedValue (embeddedValue header) with
      | none => exact iff_of_false (by rintro ⟨⟩) fun h => absurd (h.1.1.2 k rfl).2 (by simp)
      | some text => simp [hequal, hvalue, ih]

theorem header_foldl (headers : List CStr) (referTo : ReferTo Url) (k : ReferToHeader) :
    (headers.foldl keepHeader referTo).header k = (lastHeader headers k).elim (referTo.header k) fun header =>
        some ((unescapedValue (embeddedValue header)).getD []) := by
  induction headers using List.reverseRecOn with
  | nil => rfl
  | append_singleton headers header ih =>
    rw [List.foldl_append, List.foldl_cons, List.foldl_nil, lastHeader, List.filter_append]
    rw [lastHeader] at ih
    cases hkind : headerKind header with
    | none => simp [keepHeader, hkind, ih]
    | some k' =>
      by_cases hk : k' = k
      · subst hk
        simp [keepHeader, hkind, ReferTo.header_setHeader]
      · simp [keepHeader, hkind, ReferTo.header_setHeader, hk, ih]

end

/-! ## When the header is parsed without loss -/

section

variable (inetPton6 : CStr → Bool) {TelUrl : Type} (parseTelUrl : CStr → Option TelUrl)

/-- The headers behind the URL. -/
def referToEmbedded (inputReferTo : CStr) : List CStr := (sippmhParseReftoHeaders (referToBody inputReferTo)).tail

/-- A Refer-To header that is refused: there is no URL, or it is refused, or an embedded header is not taken. -/
def ReferToRefused (inputReferTo : CStr) : Prop :=
  match sippmhParseReftoHeaders (referToBody inputReferTo) with
  | [] => True
  | url :: headers => sippmhParseUrl inetPton6 parseTelUrl url = none ∨ ∃ header ∈ headers, ¬HeaderTaken header

/-- Only entries of the array are written, and on success each string that is kept is the decoded value of the last
header of its kind. -/
def ReferToComplete (inputReferTo : CStr) : Prop :=
  (∀ i < (sippmhParseReftoHeaders (referToBody inputReferTo)).length, i < maxReferToHeaderContents) ∧
    ∀ referTo, sippmhParseReferTo inetPton6 parseTelUrl inputReferTo = some (some referTo) → ∀ k,
      match lastHeader (referToEmbedded inputReferTo) k with
      | none => referTo.header k = none
      | some header => WellEscaped (embeddedValue header) →
          ∃ text, referTo.header k = some text ∧ text.map Char.toNat = decoded (embeddedValue header)

theorem sippmhParseReferTo_eq {inputReferTo : CStr} {referTo : ReferTo (GenUrl ⊕ TelUrl)}
    (hlength : (sippmhParseReftoHeaders (referToBody inputReferTo)).length ≤ maxReferToHeaderContents) :
    sippmhParseReferTo inetPton6 parseTelUrl inputReferTo = some (some referTo) ↔
      ¬ReferToRefused inetPton6 parseTelUrl inputReferTo ∧
        ∃ targetUrl, referTo = (referToEmbedded inputReferTo).foldl keepHeader { targetUrl } ∧
          (sippmhParseReftoHeaders (referToBody inputReferTo)).head?.bind (sippmhParseUrl inetPton6 parseTelUrl) =
            some targetUrl := by
  rw [sippmhParseReferTo, ReferToRefused, referToEmbedded]
  cases hpieces : sippmhParseReftoHeaders (referToBody inputReferTo) with
  | nil => exact iff_of_false nofun fun h => h.1 trivial
  | cons url headers =>
    rw [hpieces] at hlength
    dsimp only
    rw [if_neg (Nat.not_lt.mpr hlength), List.head?_cons, Option.bind_some, List.tail_cons]
    cases hurl : sippmhParseUrl inetPton6 parseTelUrl url with
    | none => exact iff_of_false nofun fun h => h.1 (.inl rfl)
    | some targetUrl =>
      rw [sippmhParseOtherHeaders_eq]
      simp

end

end Sip
