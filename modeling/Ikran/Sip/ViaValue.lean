import Ikran.Sip.ViaPieces

/-!
# Values of a Via header

The form of a Via header: a protocol, a version and a transport with slashes between them, then the host, the port
and the parameters of the first entry, and the other entries behind a comma.
-/

namespace Sip

open CStr

def IsBlanks (s : CStr) : Prop := ∀ c ∈ s, isLws c = true

def isTokenChar (c : Char) : Bool := c.isAlphanum || c ∈ "-.!%*_+`'~".toList

structure IsToken (s : CStr) : Prop where
  ne_nil : s ≠ []
  chars : ∀ c ∈ s, isTokenChar c = true

/-- The inside of a quoted string: a quote or a backslash in it has a backslash in front. -/
def isQuotedBody : CStr → Bool
  | [] => true
  | [c] => c != '"' && c != '\\' && c != nul
  | c :: d :: s => if c = '\\' then d != nul && isQuotedBody s else c != '"' && c != nul && isQuotedBody (d :: s)

def IsQuoted (s : CStr) : Prop := ∃ inside, isQuotedBody inside = true ∧ s = '"' :: (inside ++ ['"'])

/-- A token or a host: no separator, quote or space. -/
structure IsPlain (s : CStr) : Prop where
  ne_nil : s ≠ []
  chars : ∀ c ∈ s, c ≠ nul ∧ isSpace c = false ∧ c ∉ (";,\"".toList : CStr)

/-! ## The parts of a value -/

/-- A label of a host name. -/
structure IsLabel (label : CStr) : Prop where
  first : label.peek.isAlphanum = true
  last : ∀ c, label.getLast? = some c → c.isAlphanum = true
  chars : ∀ c ∈ label, c.isAlphanum = true ∨ c = '-'

inductive ViaHost
  | name (labels : List CStr) (top : CStr) (dot : Bool) (labels_form : ∀ label ∈ labels, IsLabel label)
      (top_form : IsLabel top) (top_alpha : top.peek.isAlpha = true)
  | ipv4 (numbers : List CStr) (four : numbers.length = 4)
      (digits : ∀ number ∈ numbers, number ≠ [] ∧ number.length ≤ 3 ∧ ∀ c ∈ number, c.isDigit = true)
  /-- An IPv6 address in brackets. -/
  | ipv6 (inside : CStr) (ne_nil : inside ≠ [])
      (chars : ∀ c ∈ inside, (c.isDigit || c ∈ "abcdefABCDEF:.".toList) = true)

namespace ViaHost

def text : ViaHost → CStr
  | name labels top dot _ _ _ => List.intercalate ['.'] (labels ++ [top]) ++ if dot then ['.'] else []
  | ipv4 numbers _ _ => List.intercalate ['.'] numbers
  | ipv6 inside _ _ => '[' :: (inside ++ [']'])

def isIpv6 : ViaHost → Bool
  | ipv6 _ _ _ => true
  | _ => false

/-- The host is kept as it is written, an IPv6 address with its brackets or without. -/
def KeptAs : ViaHost → CStr → Prop
  | ipv6 inside _ _, host => host = '[' :: (inside ++ [']']) ∨ host = inside
  | h, host => host = h.text

end ViaHost

structure ViaPort where
  before : CStr
  digits : CStr
  behind : CStr
  before_blank : IsBlanks before
  digits_ne_nil : digits ≠ []
  digits_chars : ∀ c ∈ digits, c.isDigit = true
  behind_blank : IsBlanks behind

def ViaPort.text (p : ViaPort) : CStr := p.before ++ (p.digits ++ p.behind)

/-- The value of a parameter, behind an equal sign. -/
structure ViaItemValue where
  before : CStr
  after : CStr
  text : CStr
  before_blank : IsBlanks before
  after_blank : IsBlanks after
  text_form : IsPlain text ∨ IsQuoted text

def ViaParam.name : ViaParam → CStr
  | .ttl => "ttl"
  | .maddr => "maddr"
  | .received => "received"
  | .branch => "branch"

/-- A parameter of a Via header. Those that are known have a value without quotes. -/
structure ViaItem where
  front : CStr
  name : CStr
  value : Option ViaItemValue
  behind : CStr
  front_blank : IsBlanks front
  name_token : IsToken name
  behind_blank : IsBlanks behind
  known_plain : ∀ p : ViaParam, strcaseEq name p.name = true → ∃ val, value = some val ∧ IsPlain val.text

namespace ViaItem

/-- What stands behind the name of a parameter. -/
def valueText (i : ViaItem) : CStr := i.value.elim [] fun val => val.before ++ '=' :: (val.after ++ val.text)

def text (i : ViaItem) : CStr := i.front ++ (i.name ++ (i.valueText ++ i.behind))

/-- The value that a parameter is written with. -/
def sets (p : ViaParam) (i : ViaItem) : Option CStr :=
  if strcaseEq i.name p.name then i.value.map ViaItemValue.text else none

end ViaItem

/-- A Via header: its first entry, and what stands behind the comma. -/
structure ViaValue where
  lead : CStr
  protocol : CStr
  lws₁ : CStr
  lws₂ : CStr
  version : CStr
  lws₃ : CStr
  lws₄ : CStr
  transport : CStr
  gap : CStr
  host : ViaHost
  behindHost : CStr
  port : Option ViaPort
  items : List ViaItem
  more : Option CStr
  lead_blank : IsBlanks lead
  lws_blank : IsBlanks (lws₁ ++ lws₂ ++ lws₃ ++ lws₄)
  protocol_token : IsToken protocol
  version_token : IsToken version
  transport_token : IsToken transport
  gap_ne_nil : gap ≠ []
  gap_blank : IsBlanks gap
  behindHost_blank : IsBlanks behindHost
  names_distinct : items.Pairwise fun i j => strcaseEq i.name j.name = false

namespace ViaValue

/-- The text behind the host and its port: the parameters, and the other entries. -/
def behind (v : ViaValue) : CStr :=
  (if v.items = [] then [] else ';' :: List.intercalate [';'] (v.items.map ViaItem.text)) ++ v.more.elim [] (',' :: ·)

/-- The text from the colon in front of the port on. -/
def portOn (v : ViaValue) : CStr := v.port.elim [] (fun p => ':' :: p.text) ++ v.behind

def hostOn (v : ViaValue) : CStr := v.host.text ++ (v.behindHost ++ v.portOn)

def text (v : ViaValue) : CStr :=
  v.lead ++ (v.protocol ++ (v.lws₁ ++ '/' :: (v.lws₂ ++ (v.version ++ (v.lws₃ ++ '/' :: (v.lws₄ ++
    (v.transport ++ (v.gap ++ v.hostOn))))))))

def written (v : ViaValue) (p : ViaParam) : Option CStr := v.items.findSome? (ViaItem.sets p)

end ViaValue

theorem not_mem_of_isTokenChar {c : Char} (h : isTokenChar c = true) : c ∉ (" \t/:;,=[]\"\x00".toList : CStr) := by
  intro hmem
  have hno : ∀ d ∈ (" \t/:;,=[]\"\x00".toList : CStr), isTokenChar d = false := by decide
  rw [hno c hmem] at h
  cases h

theorem IsToken.isLws_peek {s : CStr} (hs : IsToken s) (t : CStr) : isLws (s ++ t).peek = false := by
  obtain ⟨c, s, rfl⟩ := List.exists_cons_of_ne_nil hs.ne_nil
  rw [List.cons_append, peek_cons]
  have hc := not_mem_of_isTokenChar (hs.chars c List.mem_cons_self)
  refine Bool.eq_false_of_not_eq_true fun hblank => ?_
  rcases isLws_cases hblank with rfl | rfl <;> exact hc (by decide)

theorem IsToken.skipLws_append {s : CStr} (hs : IsToken s) (t : CStr) : skipLws (s ++ t) = s ++ t :=
  skipLws_of_peek (hs.isLws_peek t)

/-! ## The start of a value -/

theorem skipLws_slash {b : CStr} (hb : IsBlanks b) (r : CStr) : skipLws (b ++ '/' :: r) = '/' :: r :=
  skipLws_append hb rfl

theorem IsToken.length_eq_three {t b r : CStr} (ht : IsToken t) (hb : IsBlanks b)
    (hword : ∀ c ∈ (t ++ (b ++ '/' :: r)).take 3, isLws c = false ∧ c ≠ '/')
    (hslash : peek (skipLws ((t ++ (b ++ '/' :: r)).drop 3)) = '/') : t.length = 3 := by
  rcases Nat.lt_trichotomy t.length 3 with hlt | heq | hgt
  · -- the character behind the token is a blank or the slash
    obtain ⟨c, s, hcons⟩ := List.exists_cons_of_ne_nil (show b ++ '/' :: r ≠ [] by simp)
    rw [hcons] at hword
    have hmem : c ∈ (t ++ c :: s).take 3 := by
      refine List.mem_take_iff_getElem.mpr ⟨t.length, ?_, ?_⟩
      · rw [List.length_append, List.length_cons]
        omega
      · simp
    obtain ⟨hblank, hno⟩ := hword c hmem
    cases b with
    | nil => exact absurd (List.cons.inj hcons).1.symm hno
    | cons d b =>
      have hd := hb d List.mem_cons_self
      rw [(List.cons.inj hcons).1, hblank] at hd
      cases hd
  · exact heq
  · have hrest : IsToken (t.drop 3) :=
      ⟨by rw [ne_eq, List.drop_eq_nil_iff]; omega, fun c hc => ht.chars c (List.mem_of_mem_drop hc)⟩
    rw [List.drop_append_of_le_length (Nat.le_of_lt hgt), hrest.skipLws_append] at hslash
    obtain ⟨c, s, hcons⟩ := List.exists_cons_of_ne_nil hrest.ne_nil
    rw [hcons, List.cons_append, peek_cons] at hslash
    have hc := not_mem_of_isTokenChar (hrest.chars c (hcons ▸ List.mem_cons_self))
    rw [hslash] at hc
    exact absurd hc (by decide)

theorem IsToken.strncaseEq_iff {t b word : CStr} (ht : IsToken t) (hb : IsBlanks b) (hlength : word.length = 3)
    (hchars : ∀ c ∈ word, c ≠ nul ∧ c.toUpper ∉ (" \t/".toList : CStr)) (r : CStr) :
    strncaseEq (t ++ (b ++ '/' :: r)) word 3 = true ∧ peek (skipLws ((t ++ (b ++ '/' :: r)).drop 3)) = '/' ↔
      strcaseEq t word = true := by
  have hnul : nul ∉ word := fun hmem => (hchars nul hmem).1 rfl
  rw [← hlength, CStr.strncaseEq_iff hnul, strcaseEq, beq_iff_eq, hlength]
  constructor
  · rintro ⟨heq, hslash⟩
    have hthree : t.length = 3 := by
      refine ht.length_eq_three hb (fun c hc => ?_) hslash
      obtain ⟨d, hd, hupper⟩ := List.mem_map.mp (heq ▸ List.mem_map_of_mem (f := Char.toUpper) hc)
      have hno := (hchars d hd).2
      rw [hupper] at hno
      constructor
      · by_contra hblank
        rw [Bool.not_eq_false] at hblank
        rcases toUpper_of_isLws hblank with h | h <;> rw [h] at hno <;> exact hno (by decide)
      · rintro rfl
        exact hno (by decide)
    rwa [List.take_left' hthree] at heq
  · intro heq
    have hthree : t.length = 3 := by
      have hcount := congrArg List.length heq
      rw [List.length_map, List.length_map] at hcount
      exact hcount.trans hlength
    rw [List.take_left' hthree, List.drop_left' hthree, skipLws_slash hb]
    exact ⟨heq, rfl⟩

theorem IsToken.strncmpEq_iff {t b : CStr} (ht : IsToken t) (hb : IsBlanks b) (r : CStr) :
    strncmpEq (t ++ (b ++ '/' :: r)) "2.0" 3 = true ∧ peek (skipLws ((t ++ (b ++ '/' :: r)).drop 3)) = '/' ↔
      t = "2.0".toList := by
  have hcmp := CStr.strncmpEq_iff (s := t ++ (b ++ '/' :: r)) (t := "2.0".toList) (by decide)
  rw [show ("2.0".toList : CStr).length = 3 from rfl] at hcmp
  rw [hcmp, List.prefix_iff_eq_take, show ("2.0".toList : CStr).length = 3 from rfl]
  constructor
  · rintro ⟨heq, hslash⟩
    have hthree : t.length = 3 := by
      refine ht.length_eq_three hb (fun c hc => ?_) hslash
      rw [← heq] at hc
      revert c
      decide
    rw [List.take_left' hthree] at heq
    exact heq.symm
  · rintro rfl
    have hdrop : ("2.0".toList ++ (b ++ '/' :: r)).drop 3 = b ++ '/' :: r := rfl
    rw [hdrop, skipLws_slash hb]
    exact ⟨rfl, rfl⟩

theorem isTransport_append_iff (t : CStr) {r : CStr} (hr : isLws r.peek = true) :
    IsTransport (t ++ r) ↔ IsTransport t := by
  have hout : ∀ name ∈ (["UDP".toList, "TCP".toList, "TLS".toList] : List CStr),
      strncaseEq (t ++ r) name name.length = strncaseEq t name name.length := by
    intro name hname
    have hnul : ∀ name ∈ (["UDP".toList, "TCP".toList, "TLS".toList] : List CStr), nul ∉ name := by decide
    refine strncaseEq_append_of_peek (hnul name hname) ?_
    revert name
    rcases toUpper_of_isLws hr with h | h <;> rw [h] <;> decide
  rw [IsTransport, IsTransport]
  exact or_congr (Eq.congr_left (hout "UDP" (by decide)))
    (or_congr (Eq.congr_left (hout "TCP" (by decide))) (Eq.congr_left (hout "TLS" (by decide))))

namespace ViaHost

theorem exists_text_eq_cons (h : ViaHost) :
    ∃ c s, h.text = c :: s ∧ (c.isAlphanum = true ∧ h.isIpv6 = false ∨ c = '[' ∧ h.isIpv6 = true) := by
  cases h with
  | name labels top dot labels_form top_form top_alpha =>
    have hfirst : ∀ label : CStr, IsLabel label → ∃ c s, label = c :: s ∧ c.isAlphanum = true := by
      intro label hlabel
      cases label with
      | nil => exact absurd hlabel.first (by decide)
      | cons c s => exact ⟨c, s, rfl, hlabel.first⟩
    cases labels with
    | nil =>
      obtain ⟨c, s, rfl, hc⟩ := hfirst top top_form
      exact ⟨c, _, by rw [text, List.nil_append, List.intercalate_singleton, List.cons_append], .inl ⟨hc, rfl⟩⟩
    | cons label labels =>
      obtain ⟨c, s, rfl, hc⟩ := hfirst label (labels_form label List.mem_cons_self)
      obtain ⟨l, ls, hls⟩ := List.exists_cons_of_ne_nil (show labels ++ [top] ≠ [] by simp)
      exact ⟨c, _, by rw [text, List.cons_append, hls, List.intercalate_cons_cons, List.cons_append, List.cons_append,
        List.cons_append], .inl ⟨hc, rfl⟩⟩
  | ipv4 numbers four digits =>
    obtain ⟨n, ns, rfl⟩ := List.exists_cons_of_ne_nil (show numbers ≠ [] by rintro rfl; cases four)
    obtain ⟨m, ms, rfl⟩ := List.exists_cons_of_ne_nil (show ns ≠ [] by rintro rfl; cases four)
    obtain ⟨hne, -, hdigits⟩ := digits n List.mem_cons_self
    obtain ⟨c, s, rfl⟩ := List.exists_cons_of_ne_nil hne
    have hc := hdigits c List.mem_cons_self
    refine ⟨c, _, by rw [text, List.intercalate_cons_cons, List.cons_append, List.cons_append], .inl ⟨?_, rfl⟩⟩
    rw [Char.isAlphanum, hc, Bool.or_true]
  | ipv6 inside ne_nil chars => exact ⟨'[', _, rfl, .inr ⟨rfl, rfl⟩⟩

theorem skipLws_text (h : ViaHost) {b : CStr} (hb : IsBlanks b) (r : CStr) :
    skipLws (b ++ (h.text ++ r)) = h.text ++ r := by
  obtain ⟨c, s, htext, hc⟩ := h.exists_text_eq_cons
  refine skipLws_append hb ?_
  rw [htext, List.cons_append, peek_cons]
  rcases hc with ⟨hc, -⟩ | ⟨rfl, -⟩
  · refine Bool.eq_false_of_not_eq_true fun hblank => ?_
    rcases isLws_cases hblank with rfl | rfl <;> exact absurd hc (by decide)
  · rfl

end ViaHost

namespace ViaValue

variable (v : ViaValue)

def transportOn : CStr := v.transport ++ (v.gap ++ v.hostOn)

/-- The text that the host is taken from: the rest of the transport belongs to it when that is longer than four
characters. -/
def hostTaken : CStr :=
  if v.transport.length ≤ 4 then v.hostOn else v.transport.drop 4 ++ (v.gap ++ v.hostOn)

theorem isLws_peek_gap : isLws (v.gap ++ v.hostOn).peek = true := by
  obtain ⟨c, s, hcons⟩ := List.exists_cons_of_ne_nil v.gap_ne_nil
  rw [hcons, List.cons_append, peek_cons]
  exact v.gap_blank c (hcons ▸ List.mem_cons_self)

theorem skipLws_drop_transportOn (htransport : 3 ≤ v.transport.length) :
    skipLws (v.transportOn.drop 4) = v.hostTaken := by
  rw [transportOn, hostTaken]
  split_ifs with hlength
  · have hblank : IsBlanks (v.gap.drop (4 - v.transport.length)) := fun c hc => v.gap_blank c (List.mem_of_mem_drop hc)
    have hgap : 1 ≤ v.gap.length := List.length_pos_iff.mpr v.gap_ne_nil
    rw [List.drop_append, List.drop_eq_nil_of_le hlength, List.nil_append, List.drop_append_of_le_length (by omega)]
    exact v.host.skipLws_text hblank _
  · have hrest : IsToken (v.transport.drop 4) :=
      ⟨by rw [ne_eq, List.drop_eq_nil_iff]; omega, fun c hc => v.transport_token.chars c (List.mem_of_mem_drop hc)⟩
    rw [List.drop_append_of_le_length (by omega)]
    exact hrest.skipLws_append _

theorem peek_hostTaken : v.hostTaken.peek ≠ nul := by
  rw [hostTaken]
  split_ifs with hlength
  · obtain ⟨c, s, htext, hc⟩ := v.host.exists_text_eq_cons
    rw [hostOn, htext, List.cons_append, peek_cons]
    rintro rfl
    rcases hc with ⟨hc, -⟩ | ⟨hc, -⟩
    · exact absurd hc (by decide)
    · exact absurd hc (by decide)
  · obtain ⟨c, s, hcons⟩ := List.exists_cons_of_ne_nil (show v.transport.drop 4 ≠ [] by
      rw [ne_eq, List.drop_eq_nil_iff]; omega)
    rw [hcons, List.cons_append, peek_cons]
    rintro rfl
    have hmem : nul ∈ v.transport := List.mem_of_mem_drop (hcons ▸ List.mem_cons_self)
    exact absurd (v.transport_token.chars nul hmem) (by decide)

theorem lws_blanks : IsBlanks v.lws₁ ∧ IsBlanks v.lws₂ ∧ IsBlanks v.lws₃ ∧ IsBlanks v.lws₄ := by
  have hblank := v.lws_blank
  simp only [IsBlanks, List.mem_append, or_imp, forall_and] at hblank
  obtain ⟨⟨⟨h₁, h₂⟩, h₃⟩, h₄⟩ := hblank
  exact ⟨h₁, h₂, h₃, h₄⟩

theorem skipLws_text_eq : skipLws v.text = v.protocol ++ (v.lws₁ ++ '/' :: (v.lws₂ ++ (v.version ++ (v.lws₃ ++
    '/' :: (v.lws₄ ++ v.transportOn))))) := by
  rw [text, skipLws_append v.lead_blank (v.protocol_token.isLws_peek _)]
  rfl

theorem drop_protocol (hthree : v.protocol.length = 3) : skipLws (skipLws ((skipLws v.text).drop 3)).tail =
    v.version ++ (v.lws₃ ++ '/' :: (v.lws₄ ++ v.transportOn)) := by
  obtain ⟨h₁, h₂, -, -⟩ := v.lws_blanks
  rw [v.skipLws_text_eq, List.drop_left' hthree, skipLws_slash h₁, List.tail_cons,
    skipLws_append h₂ (v.version_token.isLws_peek _)]

theorem drop_version (hthree : v.version.length = 3) :
    skipLws (skipLws ((v.version ++ (v.lws₃ ++ '/' :: (v.lws₄ ++ v.transportOn))).drop 3)).tail = v.transportOn := by
  obtain ⟨-, -, h₃, h₄⟩ := v.lws_blanks
  rw [List.drop_left' hthree, skipLws_slash h₃, List.tail_cons, transportOn,
    skipLws_append h₄ (v.transport_token.isLws_peek _)]

/-- The start of the value is the one that the reader knows. -/
def StartKnown : Prop :=
  strcaseEq v.protocol "SIP" = true ∧ v.version = "2.0".toList ∧ IsTransport v.transport

/-- **When the start of a value is accepted**: its protocol, its version and its transport are known. -/
theorem viaStart_text_iff : ViaStart v.text ↔ v.StartKnown := by
  obtain ⟨h₁, h₂, h₃, h₄⟩ := v.lws_blanks
  rw [ViaStart, StartKnown]
  have hprotocol := @IsToken.strncaseEq_iff _ _ "SIP".toList v.protocol_token h₁ rfl (by decide)
    (v.lws₂ ++ (v.version ++ (v.lws₃ ++ '/' :: (v.lws₄ ++ v.transportOn))))
  rw [← v.skipLws_text_eq] at hprotocol
  rw [← and_assoc, hprotocol]
  refine and_congr_right fun hsip => ?_
  have hthree : v.protocol.length = 3 := by
    have hcount := congrArg List.length (beq_iff_eq.mp hsip)
    rwa [List.length_map, List.length_map] at hcount
  rw [v.drop_protocol hthree, ← and_assoc, v.version_token.strncmpEq_iff h₃]
  refine and_congr_right fun hversion => ?_
  rw [v.drop_version (by rw [hversion]; rfl)]
  rw [show IsTransport v.transportOn ↔ IsTransport v.transport from
    isTransport_append_iff v.transport v.isLws_peek_gap]
  refine and_iff_left_of_imp fun htransport => ?_
  have hlength := three_le_of_isTransport htransport
  rw [v.skipLws_drop_transportOn hlength]
  refine ⟨?_, v.peek_hostTaken⟩
  have hgap : 1 ≤ v.gap.length := List.length_pos_iff.mpr v.gap_ne_nil
  rw [transportOn, List.length_append, List.length_append]
  omega

/-- **Where the reader takes the sent-by part from.** -/
theorem sentBy_text (h : v.StartKnown) : (sentBy v.text).2.2 = v.hostTaken := by
  obtain ⟨hsip, hversion, htransport⟩ := h
  have hthree : v.protocol.length = 3 := by
    have hcount := congrArg List.length (beq_iff_eq.mp hsip)
    rwa [List.length_map, List.length_map] at hcount
  rw [sentBy, v.drop_protocol hthree, v.drop_version (by rw [hversion]; rfl),
    v.skipLws_drop_transportOn (three_le_of_isTransport htransport)]

end ViaValue

end Sip
