import Ikran.Sip.ViaValue

/-!
# The sent-by part of a Via header

The reader cuts the host and the port out of a Via header, checks and trims them. A longer transport runs into the
host, and an IPv6 address loses its closing bracket.
-/

namespace Sip

open CStr

/-! ## Trimming -/

variable {c : Char}

theorem isSpace_of_isLws (h : isLws c = true) : isSpace c = true := by
  rcases isLws_cases h with rfl | rfl <;> rfl

theorem not_separator_of_isLws (h : isLws c = true) : c ≠ nul ∧ c ∉ (":;,".toList : CStr) := by
  rcases isLws_cases h with rfl | rfl <;> decide

theorem trimRight_append {s b : CStr} (hne : s ≠ []) (hs : ∀ c ∈ s, isSpace c = false)
    (hb : ∀ c ∈ b, isSpace c = true) : trimRight (s ++ b) = s := by
  obtain ⟨c, s, rfl⟩ := List.exists_cons_of_ne_nil hne
  have hdrop : (s ++ b).rdropWhile isSpace = s := by
    rw [List.rdropWhile, List.reverse_append, List.dropWhile_append_of_pos (fun c hc => hb c (List.mem_reverse.mp hc))]
    cases hrev : s.reverse with
    | nil => rw [List.dropWhile_nil, ← hrev, List.reverse_reverse]
    | cons d t =>
      have hd : isSpace d = false := hs d (List.mem_cons_of_mem c (List.mem_reverse.mp (hrev ▸ List.mem_cons_self)))
      rw [List.dropWhile_cons, hd, if_neg Bool.false_ne_true, ← hrev, List.reverse_reverse]
  rw [List.cons_append, trimRight, hdrop]

theorem mem_trimRight {s t : CStr} {d : Char} (hd : d ∈ t) (hspace : isSpace d = false) :
    c ∈ trimRight (s ++ c :: t) := by
  have hmem : ∀ s : CStr, c ∈ (s ++ c :: t).rdropWhile isSpace := by
    intro s
    have hstop : t.reverse.dropWhile isSpace ≠ [] := by
      rw [ne_eq, List.dropWhile_eq_nil_iff]
      intro hall
      have hno := hall d (List.mem_reverse.mpr hd)
      rw [hspace] at hno
      cases hno
    have hempty : (t.reverse.dropWhile isSpace).isEmpty = false := List.isEmpty_eq_false_iff.mpr hstop
    rw [List.rdropWhile, List.mem_reverse, List.reverse_append, List.reverse_cons, List.append_assoc,
      List.dropWhile_append, hempty, if_neg Bool.false_ne_true]
    simp
  cases s with
  | nil => exact List.mem_cons_self
  | cons e s => exact List.mem_cons_of_mem e (hmem s)

theorem mem_trimIpv6Host {s : CStr} {c : Char} (hc : c ∈ s) (hno : c ≠ ']') : c ∈ trimIpv6Host s := by
  rw [trimIpv6Host]
  split_ifs with h1 hlast hlast
  · cases s with
    | nil => cases hc
    | cons d s =>
      rw [List.tail_cons] at hlast
      obtain ⟨front, hfront⟩ := List.getLast?_eq_some_iff.mp hlast
      rw [hfront, ← List.cons_append, List.dropLast_concat]
      rw [hfront, ← List.cons_append, List.mem_append, List.mem_singleton] at hc
      exact hc.resolve_right hno
  · exact hc
  · obtain ⟨front, rfl⟩ := List.getLast?_eq_some_iff.mp hlast
    rw [List.dropLast_concat]
    rw [List.mem_append, List.mem_singleton] at hc
    exact hc.resolve_right hno
  · exact hc

theorem trimIpv6Host_of_not_mem {s : CStr} (hs : ']' ∉ s) : trimIpv6Host s = s := by
  rw [trimIpv6Host]
  refine if_neg fun hlast => hs ?_
  split_ifs at hlast
  · exact List.mem_of_mem_tail (List.mem_of_getLast? hlast)
  · exact List.mem_of_getLast? hlast

/-! ## The host -/

theorem mem_of_mem_intercalate {sep : Char} {ls : List CStr} (hc : c ∈ List.intercalate [sep] ls) :
    c = sep ∨ ∃ l ∈ ls, c ∈ l := by
  induction ls with
  | nil => simp at hc
  | cons l ls ih =>
    cases ls with
    | nil =>
      rw [List.intercalate_singleton] at hc
      exact .inr ⟨l, List.mem_cons_self, hc⟩
    | cons l' ls =>
      rw [List.intercalate_cons_cons, List.mem_append, List.mem_append, List.mem_singleton] at hc
      rcases hc with (hc | hc) | hc
      · exact .inr ⟨l, List.mem_cons_self, hc⟩
      · exact .inl hc
      · rcases ih hc with h | ⟨m, hm, hmem⟩
        · exact .inl h
        · exact .inr ⟨m, List.mem_cons_of_mem l hm, hmem⟩

theorem mem_intercalate {sep : Char} {l : CStr} {ls : List CStr} (hl : l ∈ ls) (hc : c ∈ l) :
    c ∈ List.intercalate [sep] ls := by
  induction ls with
  | nil => cases hl
  | cons l' ls ih =>
    cases ls with
    | nil =>
      rw [List.intercalate_singleton, ← List.mem_singleton.mp hl]
      exact hc
    | cons l'' ls =>
      rw [List.intercalate_cons_cons, List.mem_append, List.mem_append]
      rcases List.mem_cons.mp hl with rfl | hl
      · exact .inl (.inl hc)
      · exact .inr (ih hl)

namespace ViaHost

theorem chars_text (h : ViaHost) : ∀ c ∈ h.text,
    c.isAlphanum = true ∨ c = '-' ∨ c = '.' ∨ h.isIpv6 = true ∧ c ∈ (":[]".toList : CStr) := by
  intro c hc
  cases h with
  | name labels top dot labels_form top_form top_alpha =>
    have hlabels : ∀ label ∈ labels ++ [top], IsLabel label := by
      intro label hlabel
      rcases List.mem_append.mp hlabel with h | h
      · exact labels_form label h
      · exact List.mem_singleton.mp h ▸ top_form
    rw [text, List.mem_append] at hc
    rcases hc with hc | hc
    · rcases mem_of_mem_intercalate hc with h | ⟨label, hlabel, hmem⟩
      · exact .inr (.inr (.inl h))
      · rcases (hlabels label hlabel).chars c hmem with h | h
        · exact .inl h
        · exact .inr (.inl h)
    · cases dot with
      | false => cases hc
      | true => exact .inr (.inr (.inl (List.mem_singleton.mp hc)))
  | ipv4 numbers four digits =>
    rcases mem_of_mem_intercalate hc with h | ⟨number, hnumber, hmem⟩
    · exact .inr (.inr (.inl h))
    · obtain ⟨-, -, hdigits⟩ := digits number hnumber
      refine .inl ?_
      rw [Char.isAlphanum, hdigits c hmem, Bool.or_true]
  | ipv6 inside ne_nil chars =>
    rw [text, List.mem_cons, List.mem_append, List.mem_singleton] at hc
    rcases hc with rfl | hc | rfl
    · exact .inr (.inr (.inr ⟨rfl, by decide⟩))
    · have hin := chars c hc
      rw [Bool.or_eq_true, decide_eq_true_eq] at hin
      have hset : ∀ d ∈ ("abcdefABCDEF:.".toList : CStr), d.isAlphanum = true ∨ d = '.' ∨ d = ':' := by decide
      rcases hin with hin | hin
      · exact .inl (by rw [Char.isAlphanum, hin, Bool.or_true])
      · rcases hset c hin with h | h | rfl
        · exact .inl h
        · exact .inr (.inr (.inl h))
        · exact .inr (.inr (.inr ⟨rfl, by decide⟩))
    · exact .inr (.inr (.inr ⟨rfl, by decide⟩))

theorem not_mem_text (h : ViaHost) {c : Char} (hc : c ∈ h.text) :
    c ≠ nul ∧ isSpace c = false ∧ c ∉ (";,".toList : CStr) ∧ (h.isIpv6 = false → c ∉ (":[]".toList : CStr)) := by
  have hout : ∀ d ∈ ("\x00 \t\n\x0b\x0c\r;,:[]".toList : CStr), d.isAlphanum = false ∧ d ≠ '-' ∧ d ≠ '.' := by decide
  have hno : c.isAlphanum = true ∨ c = '-' ∨ c = '.' → c ∉ ("\x00 \t\n\x0b\x0c\r;,:[]".toList : CStr) := by
    rintro halnum hmem
    obtain ⟨h1, h2, h3⟩ := hout c hmem
    rcases halnum with h | h | h
    · rw [h1] at h
      cases h
    · exact h2 h
    · exact h3 h
  have hplain : c ∉ ("\x00 \t\n\x0b\x0c\r;,:[]".toList : CStr) →
      c ≠ nul ∧ isSpace c = false ∧ c ∉ (";,".toList : CStr) ∧ c ∉ (":[]".toList : CStr) := by
    intro h
    simpa [isSpace, and_assoc] using h
  have hcases := h.chars_text c hc
  rw [← or_assoc, ← or_assoc] at hcases
  rcases hcases with h1 | ⟨hipv6, hmem⟩
  · obtain ⟨a, b, d, e⟩ := hplain (hno (or_assoc.mp h1))
    exact ⟨a, b, d, fun _ => e⟩
  · have hin : ∀ d ∈ (":[]".toList : CStr), d ≠ nul ∧ isSpace d = false ∧ d ∉ (";,".toList : CStr) := by decide
    obtain ⟨a, b, d⟩ := hin c hmem
    exact ⟨a, b, d, fun hfalse => by rw [hipv6] at hfalse; cases hfalse⟩

theorem text_ne_nil (h : ViaHost) : h.text ≠ [] := by
  obtain ⟨c, s, htext, -⟩ := h.exists_text_eq_cons
  rw [htext]
  exact List.cons_ne_nil c s

end ViaHost

/-! ## The sent-by part -/

namespace ViaPort

theorem not_mem_text (p : ViaPort) {c : Char} (hc : c ∈ p.text) : c ≠ nul ∧ c ∉ (";,".toList : CStr) := by
  have hblank : ∀ {s : CStr}, IsBlanks s → c ∈ s → c ≠ nul ∧ c ∉ (";,".toList : CStr) := by
    intro s hs hmem
    obtain ⟨hnul, hsep⟩ := not_separator_of_isLws (hs c hmem)
    exact ⟨hnul, fun h => hsep (List.mem_cons_of_mem ':' h)⟩
  rw [text, List.mem_append, List.mem_append] at hc
  rcases hc with hc | hc | hc
  · exact hblank p.before_blank hc
  · have hdigit := p.digits_chars c hc
    refine ⟨?_, fun hmem => ?_⟩
    · rintro rfl
      exact absurd hdigit (by decide)
    · have hno : ∀ d ∈ (";,".toList : CStr), d.isDigit = false := by decide
      rw [hno c hmem] at hdigit
      cases hdigit
  · exact hblank p.behind_blank hc

def number (p : ViaPort) : ℕ := digitsVal p.digits

theorem portNumber_text (p : ViaPort) : numeral p.text = p.number ∧ (skipLws (behindNumeral p.text)).peek = nul := by
  have hbefore : ∀ c ∈ p.before, isSpace c = true := fun c hc => isSpace_of_isLws (p.before_blank c hc)
  have hsign : takeSign (p.text.dropWhile isSpace) = (false, p.digits ++ p.behind) := by
    rw [text, List.dropWhile_append_of_pos hbefore]
    exact takeSign_dropWhile_digits p.digits_ne_nil p.digits_chars p.behind
  have hstop : ∀ c ∈ p.behind, c.isDigit = false := by
    intro c hc
    rcases isLws_cases (p.behind_blank c hc) with rfl | rfl <;> rfl
  have htake : (p.digits ++ p.behind).takeWhile Char.isDigit = p.digits := by
    rw [List.takeWhile_append_of_pos p.digits_chars]
    cases hbehind : p.behind with
    | nil => rw [List.takeWhile_nil, List.append_nil]
    | cons c s =>
      rw [List.takeWhile_cons, hstop c (hbehind ▸ List.mem_cons_self), if_neg Bool.false_ne_true, List.append_nil]
  have hdrop : (p.digits ++ p.behind).dropWhile Char.isDigit = p.behind := by
    rw [List.dropWhile_append_of_pos p.digits_chars]
    cases hbehind : p.behind with
    | nil => rfl
    | cons c s =>
      rw [List.dropWhile_cons, hstop c (hbehind ▸ List.mem_cons_self), if_neg Bool.false_ne_true]
  have hsigned : signedDigits p.text = (false, p.digits) := by
    rw [signedDigits, hsign]
    exact congrArg (Prod.mk false) htake
  refine ⟨?_, ?_⟩
  · rw [numeral, hsigned]
    rfl
  · rw [behindNumeral, hsigned, if_neg p.digits_ne_nil, hsign, hdrop]
    have hall : p.behind.dropWhile isLws = [] := List.dropWhile_eq_nil_iff.mpr p.behind_blank
    rw [skipLws, hall]
    rfl

/-- **When a port is kept**: when its number is one of a port. -/
theorem isKept_iff (p : ViaPort) :
    (∃ n : UInt16, portNumber p.text = some n ∧ n.toNat = p.number) ↔ 1 ≤ p.number ∧ p.number ≤ 65535 := by
  obtain ⟨hnumeral, hbehind⟩ := p.portNumber_text
  constructor
  · rintro ⟨n, hn, heq⟩
    have hkept : ¬PortRefused p.text := by
      rw [← portNumber_eq_none_iff, hn]
      exact Option.some_ne_none n
    rw [PortRefused, not_or, not_or, hnumeral] at hkept
    have hlt := n.toNat_lt
    omega
  · rintro ⟨hpos, hle⟩
    have hkept : portNumber p.text ≠ none := by
      rw [ne_eq, portNumber_eq_none_iff, PortRefused, hnumeral]
      rintro (hrest | hlarge | ⟨-, hdvd⟩)
      · exact hrest hbehind
      · omega
      · omega
    obtain ⟨n, hn⟩ := Option.ne_none_iff_exists'.mp hkept
    have hvalue := toNat_portNumber hn
    rw [hnumeral] at hvalue
    refine ⟨n, hn, ?_⟩
    split_ifs at hvalue <;> omega

end ViaPort

namespace ViaValue

variable (v : ViaValue)

/-- The parameters, with semicolons between them. -/
def paramsText : CStr := List.intercalate [';'] (v.items.map ViaItem.text)

/-- The comma and the other entries. -/
def moreOn : CStr := v.more.elim [] (',' :: ·)

theorem behind_eq : v.behind = (if v.items = [] then [] else ';' :: v.paramsText) ++ v.moreOn := rfl

theorem peek_behind : v.behind = [] ∨ v.behind.peek ≠ nul ∧ v.behind.peek ∈ (";,".toList : CStr) := by
  have separator : ∀ c ∈ (";,".toList : CStr), ∀ s : CStr,
      peek (c :: s) ≠ nul ∧ peek (c :: s) ∈ (";,".toList : CStr) := by
    intro c hc s
    rw [peek_cons]
    revert c
    decide
  rw [behind_eq, moreOn]
  split_ifs
  · cases v.more with
    | none => exact .inl rfl
    | some t => exact .inr (separator ',' (by decide) t)
  · exact .inr (separator ';' (by decide) _)

theorem peek_portOn : v.portOn = [] ∨ v.portOn.peek ≠ nul ∧ v.portOn.peek ∈ (":;,".toList : CStr) := by
  rw [portOn]
  cases v.port with
  | none =>
    rcases v.peek_behind with h | ⟨hnul, hmem⟩
    · exact .inl h
    · exact .inr ⟨hnul, List.mem_cons_of_mem ':' hmem⟩
  | some p =>
    have hpeek : peek (':' :: (p.text ++ v.behind)) = ':' := rfl
    refine .inr ?_
    rw [Option.elim_some, List.cons_append, hpeek]
    decide

/-- The text behind the host, where it is not empty. -/
def behindOption : Option CStr := if v.behind = [] then none else some v.behind

/-- **The sent-by part is cut where the host and the port end.** -/
theorem splitSentBy_append {h : CStr} (hh : ∀ c ∈ h, c ≠ nul ∧ c ∉ (":;,".toList : CStr)) (hne : h ≠ [])
    (hbracket : h.peek ≠ '[') :
    splitSentBy (h ++ v.portOn) = ⟨h, v.port.map ViaPort.text, v.behindOption⟩ := by
  have hpeek : (h ++ v.portOn).peek ≠ '[' := by rwa [peek_append_of_ne_nil hne]
  have hsearch := strpbrk_append hh v.peek_portOn
  rw [splitSentBy]
  simp only [if_neg hpeek, Option.bind_some]
  rw [show (":;," : CStr) = ":;,".toList from rfl] at *
  rw [hsearch, textUpTo_strpbrk_append]
  cases hport : v.port with
  | none =>
    have hportOn : v.portOn = v.behind := by rw [portOn, hport, Option.elim_none, List.nil_append]
    have hno : (if v.portOn = [] then none else some v.portOn).map peek ≠ some ':' := by
      rw [hportOn]
      split_ifs with hnil
      · rintro ⟨⟩
      · intro h
        rw [Option.map_some, Option.some_inj] at h
        obtain ⟨-, hmem⟩ := v.peek_behind.resolve_left hnil
        rw [h] at hmem
        exact absurd hmem (by decide)
    rw [if_neg hno, hportOn]
    rfl
  | some p =>
    have hportOn : v.portOn = ':' :: (p.text ++ v.behind) := by
      rw [portOn, hport, Option.elim_some, List.cons_append]
    rw [hportOn, if_neg (List.cons_ne_nil _ _)]
    simp only [Option.map_some, peek_cons, if_true]
    simp only [List.tail_cons, Option.getD_some]
    rw [show (";," : CStr) = ";,".toList from rfl,
      strpbrk_append (fun c hc => p.not_mem_text hc) v.peek_behind, textUpTo_strpbrk_append]
    rfl

theorem host_splitSentBy_bracket {inside b : CStr} (hinside : ∀ c ∈ inside, c ≠ nul ∧ c ≠ ']') (hb : IsBlanks b) :
    (splitSentBy ('[' :: (inside ++ ']' :: (b ++ v.portOn)))).host = '[' :: (inside ++ ']' :: b) := by
  have hclose : strpbrk ('[' :: (inside ++ ']' :: (b ++ v.portOn))) "]" = some (']' :: (b ++ v.portOn)) := by
    have hpeek : peek (']' :: (b ++ v.portOn)) ≠ nul ∧ peek (']' :: (b ++ v.portOn)) ∈ ("]".toList : CStr) := by
      rw [peek_cons]
      decide
    refine (strpbrk_append (s := '[' :: inside) (fun c hc => ?_) (.inr hpeek)).trans (if_neg (List.cons_ne_nil _ _))
    rcases List.mem_cons.mp hc with rfl | hc
    · decide
    · refine ⟨(hinside c hc).1, fun hmem => (hinside c hc).2 ?_⟩
      simpa using hmem
  have hblank : ∀ c ∈ b, c ≠ nul ∧ c ∉ (":;,".toList : CStr) := fun c hc => not_separator_of_isLws (hb c hc)
  have hsplit : '[' :: (inside ++ ']' :: (b ++ v.portOn)) = ('[' :: (inside ++ ']' :: b)) ++ v.portOn := by simp
  rw [splitSentBy]
  dsimp only
  rw [if_pos (peek_cons _ _), hclose, Option.map_some, Option.bind_some, List.tail_cons,
    show (":;," : CStr) = ":;,".toList from rfl, strpbrk_append hblank v.peek_portOn, hsplit,
    textUpTo_strpbrk_append]
  split_ifs <;> rfl

end ViaValue

/-! ## When the host is kept -/

theorem mem_of_mem_splitOnP {p : Char → Bool} {s t : CStr} (ht : t ∈ s.splitOnP p) : ∀ c ∈ t, c ∈ s ∧ p c = false := by
  induction s generalizing t with
  | nil =>
    rw [List.splitOnP_nil, List.mem_singleton] at ht
    rw [ht]
    exact List.forall_mem_nil _
  | cons d s ih =>
    rw [List.splitOnP_cons_eq_if_modifyHead] at ht
    obtain ⟨front, parts, hparts⟩ := List.exists_cons_of_ne_nil (List.splitOnP_ne_nil p s)
    split_ifs at ht with hd
    · rcases List.mem_cons.mp ht with rfl | ht
      · exact List.forall_mem_nil _
      · exact fun c hc => ⟨List.mem_cons_of_mem d (ih ht c hc).1, (ih ht c hc).2⟩
    · rw [hparts, List.modifyHead_cons] at ht
      rcases List.mem_cons.mp ht with rfl | ht
      · intro c hc
        rcases List.mem_cons.mp hc with rfl | hc
        · exact ⟨List.mem_cons_self, Bool.eq_false_of_not_eq_true hd⟩
        · obtain ⟨hmem, hp⟩ := ih (hparts ▸ List.mem_cons_self) c hc
          exact ⟨List.mem_cons_of_mem d hmem, hp⟩
      · intro c hc
        obtain ⟨hmem, hp⟩ := ih (hparts ▸ List.mem_cons_of_mem front ht) c hc
        exact ⟨List.mem_cons_of_mem d hmem, hp⟩

theorem isDigit_of_isAlpha (h : c.isAlpha = true) : c.isDigit = false := by
  delta Char.isAlpha Char.isUpper Char.isLower at h
  simp only [Bool.or_eq_true, Bool.and_eq_true, decide_eq_true_eq, ge_iff_le, UInt32.le_iff_toNat_le] at h
  simp only [Char.isDigit, Bool.and_eq_false_iff, decide_eq_false_iff_not, ge_iff_le, UInt32.le_iff_toNat_le]
  have hnine : '9'.val.toNat = 57 := rfl
  have hupper : 'A'.val.toNat = 65 := rfl
  have hlower : 'a'.val.toNat = 97 := rfl
  rcases h with ⟨h, -⟩ | ⟨h, -⟩ <;> omega

/-- Numbers with dots between them pass, whether they are an address or not. -/
theorem validate_of_numbers (inetPton6 : CStr → Bool) {s : CStr} (hs : ∀ c ∈ s, c.isDigit = true ∨ c = '.')
    (hfirst : s.peek.isDigit = true) (hlast : ∀ c, s.getLast? = some c → c.isDigit = true) :
    sipSPIValidateIpAddrName inetPton6 s = true := by
  have halnum : ∀ {c : Char}, c.isDigit = true → c.isAlphanum = true := by
    intro c hc
    rw [Char.isAlphanum, hc, Bool.or_true]
  have htoken : ∀ t ∈ strtokAll "." s, sipSPICheckDomainToken t = true := by
    intro t ht
    obtain ⟨hmem, hne⟩ := List.mem_filter.mp ht
    have hdigits : ∀ c ∈ t, c.isDigit = true := by
      intro c hc
      obtain ⟨hin, hdot⟩ := mem_of_mem_splitOnP hmem c hc
      refine (hs c hin).resolve_right ?_
      rintro rfl
      exact absurd hdot (by decide)
    obtain ⟨c, t, rfl⟩ := List.exists_cons_of_ne_nil (of_decide_eq_true hne)
    rw [sipSPICheckDomainToken, Bool.and_eq_true, Bool.and_eq_true, Option.all_eq_true, peek_cons, List.all_eq_true]
    refine ⟨⟨fun d hd => halnum (hdigits d (List.mem_of_getLast? hd)), halnum (hdigits c List.mem_cons_self)⟩,
      fun d hd => ?_⟩
    rw [halnum (hdigits d hd), Bool.true_or]
  have htokens : strtokAll "." s ≠ [] := by
    cases s with
    | nil => exact absurd hfirst (by decide)
    | cons c s =>
      rw [peek_cons] at hfirst
      have hdot : c ∉ (".".toList : CStr) := by
        intro hmem
        rw [List.mem_singleton.mp hmem] at hfirst
        exact absurd hfirst (by decide)
      obtain ⟨front, parts, hparts⟩ := List.exists_cons_of_ne_nil (List.splitOnP_ne_nil (· ∈ (".".toList : CStr)) s)
      rw [strtokAll, List.splitOnP_cons_eq_if_modifyHead, if_neg (by simpa using hdot)]
      rw [hparts, List.modifyHead_cons, List.filter_cons_of_pos (by simp)]
      exact List.cons_ne_nil _ _
  rw [sipSPIValidateIpAddrName_eq, sipSPIValidateHostname]
  have hlast' : s.getLast?.all Char.isAlphanum = true := by
    rw [Option.all_eq_true]
    exact fun c hc => halnum (hlast c hc)
  obtain ⟨t, ts, hcons⟩ := List.exists_cons_of_ne_nil htokens
  rw [hcons] at htoken
  simp only [hcons, hlast', halnum hfirst, List.all_eq_true.mpr htoken, Bool.and_true, Bool.or_true]

namespace ViaHost

/-- A host that is no IPv6 address passes, also with blanks behind it. -/
theorem validate_text (inetPton6 : CStr → Bool) (h : ViaHost) (hipv6 : h.isIpv6 = false) {b : CStr} (hb : IsBlanks b) :
    sipSPIValidateIpAddrName inetPton6 (h.text ++ b) = true := by
  cases b with
  | cons c b =>
    have hblank := isLws_cases (hb c List.mem_cons_self)
    refine validate_of_mem inetPton6 (c := c) (List.mem_append_right _ List.mem_cons_self) ?_ ?_
    · rcases hblank with rfl | rfl <;> rfl
    · rcases hblank with rfl | rfl <;> decide
  | nil =>
    rw [List.append_nil]
    cases h with
    | name labels top dot labels_form top_form top_alpha =>
      cases top with
      | nil => exact absurd top_alpha (by decide)
      | cons c s =>
        rw [peek_cons] at top_alpha
        have hmem : c ∈ List.intercalate ['.'] (labels ++ [c :: s]) :=
          mem_intercalate (List.mem_append_right _ List.mem_cons_self) List.mem_cons_self
        refine validate_of_mem inetPton6 (c := c) (List.mem_append_left _ hmem) ?_ ?_
        · exact isDigit_of_isAlpha top_alpha
        · rintro rfl
          exact absurd top_alpha (by decide)
    | ipv4 numbers four digits =>
      obtain ⟨n₁, n₂, n₃, n₄, rfl⟩ := List.length_eq_four.mp four
      have hdigits : ∀ n ∈ [n₁, n₂, n₃, n₄], ∀ c ∈ n, c.isDigit = true := fun n hn => (digits n hn).2.2
      obtain ⟨hne₁, -, -⟩ := digits n₁ (by simp)
      obtain ⟨hne₄, -, -⟩ := digits n₄ (by simp)
      refine validate_of_numbers inetPton6 (fun c hc => ?_) ?_ fun c hc => ?_
      · rcases mem_of_mem_intercalate hc with h | ⟨n, hn, hmem⟩
        · exact .inr h
        · exact .inl (hdigits n hn c hmem)
      · obtain ⟨c, s, rfl⟩ := List.exists_cons_of_ne_nil hne₁
        exact hdigits (c :: s) List.mem_cons_self c List.mem_cons_self
      · rw [text, List.intercalate_cons_cons, List.intercalate_cons_cons, List.intercalate_cons_cons,
          List.intercalate_singleton, ← List.append_assoc, ← List.append_assoc, List.getLast?_append_of_ne_nil _ hne₄]
          at hc
        exact hdigits n₄ (by simp) c (List.mem_of_getLast? hc)
    | ipv6 inside ne_nil chars => cases hipv6

theorem mem_text_of_keptAs {h : ViaHost} {host : CStr} (hkept : h.KeptAs host) : ∀ c ∈ host, c ∈ h.text := by
  intro c hc
  cases h with
  | name labels top dot labels_form top_form top_alpha => exact hkept ▸ hc
  | ipv4 numbers four digits => exact hkept ▸ hc
  | ipv6 inside ne_nil chars =>
    rcases hkept with rfl | rfl
    · exact hc
    · exact List.mem_cons_of_mem '[' (List.mem_append_left _ hc)

theorem keptAs_iff {h : ViaHost} (hipv6 : h.isIpv6 = false) {host : CStr} : h.KeptAs host ↔ host = h.text := by
  cases h with
  | name labels top dot labels_form top_form top_alpha => exact Iff.rfl
  | ipv4 numbers four digits => exact Iff.rfl
  | ipv6 inside ne_nil chars => cases hipv6

end ViaHost

def returnedHost (via : CStr) : CStr := trimIpv6Host (trimRight (splitSentBy via).host)

namespace ViaValue

variable (v : ViaValue)

/-- The transport has at most four characters, and the host is no IPv6 address. -/
def HostReads : Prop := v.transport.length ≤ 4 ∧ v.host.isIpv6 = false

theorem host_not_separator (hipv6 : v.host.isIpv6 = false) :
    ∀ c ∈ v.host.text ++ v.behindHost, c ≠ nul ∧ c ∉ (":;,".toList : CStr) := by
  intro c hc
  rcases List.mem_append.mp hc with hc | hc
  · obtain ⟨hnul, -, hsep, hcolon⟩ := v.host.not_mem_text hc
    refine ⟨hnul, fun hmem => ?_⟩
    rcases List.mem_cons.mp hmem with rfl | hmem
    · exact hcolon hipv6 (by decide)
    · exact hsep hmem
  · exact not_separator_of_isLws (v.behindHost_blank c hc)

theorem peek_host (hipv6 : v.host.isIpv6 = false) (r : CStr) : (v.host.text ++ r).peek ≠ '[' := by
  obtain ⟨c, s, htext, hc⟩ := v.host.exists_text_eq_cons
  rw [htext, List.cons_append, peek_cons]
  rcases hc with ⟨hc, -⟩ | ⟨-, hc⟩
  · rintro rfl
    exact absurd hc (by decide)
  · rw [hipv6] at hc
    cases hc

/-- **The sent-by part of a value whose host is read.** -/
theorem splitSentBy_hostTaken (h : v.HostReads) :
    splitSentBy v.hostTaken = ⟨v.host.text ++ v.behindHost, v.port.map ViaPort.text, v.behindOption⟩ := by
  obtain ⟨hlength, hipv6⟩ := h
  rw [hostTaken, if_pos hlength, hostOn, ← List.append_assoc]
  refine v.splitSentBy_append (v.host_not_separator hipv6) ?_ (v.peek_host hipv6 _)
  exact List.append_ne_nil_of_left_ne_nil v.host.text_ne_nil _

theorem returnedHost_hostTaken (h : v.HostReads) : returnedHost v.hostTaken = v.host.text := by
  have hspaces : ∀ c ∈ v.behindHost, isSpace c = true := fun c hc => isSpace_of_isLws (v.behindHost_blank c hc)
  rw [returnedHost, v.splitSentBy_hostTaken h,
    trimRight_append v.host.text_ne_nil (fun c hc => (v.host.not_mem_text hc).2.1) hspaces]
  refine trimIpv6Host_of_not_mem fun hmem => ?_
  exact (v.host.not_mem_text hmem).2.2.2 h.2 (by decide)

theorem prefix_host_splitSentBy {s : CStr} (hs : ∀ c ∈ s, c ≠ nul ∧ c ∉ (":;,".toList : CStr)) (hne : s ≠ [])
    (hbracket : s.peek ≠ '[') (t : CStr) : s <+: (splitSentBy (s ++ t)).host := by
  have hpeek : (s ++ t).peek ≠ '[' := by rwa [peek_append_of_ne_nil hne]
  have hhost : (splitSentBy (s ++ t)).host = textUpTo (s ++ t) (strpbrk (s ++ t) ":;,".toList) := by
    rw [splitSentBy]
    simp only [if_neg hpeek, Option.bind_some]
    split_ifs <;> rfl
  rw [hhost, strpbrk, findChar_append_of_forall hs]
  split_ifs with hnul
  · exact List.prefix_append s t
  · have hle : (findChar ":;,".toList t).length ≤ t.length := by
      have hsplit := congrArg List.length (beforeChar_append_findChar ":;,".toList t)
      rw [List.length_append] at hsplit
      omega
    rw [textUpTo, Option.elim_some, List.prefix_take_iff, List.length_append]
    exact ⟨List.prefix_append s t, by omega⟩

theorem not_keptAs_of_isIpv6 (hlength : v.transport.length ≤ 4) (hipv6 : v.host.isIpv6 = true) :
    ¬v.host.KeptAs (returnedHost v.hostTaken) := by
  intro hkept
  obtain ⟨inside, ne_nil, chars, hhost⟩ : ∃ inside ne_nil chars, v.host = .ipv6 inside ne_nil chars := by
    cases hcases : v.host with
    | name labels top dot labels_form top_form top_alpha => rw [hcases] at hipv6; cases hipv6
    | ipv4 numbers four digits => rw [hcases] at hipv6; cases hipv6
    | ipv6 inside ne_nil chars => exact ⟨inside, ne_nil, chars, rfl⟩
  have hinside : ∀ c ∈ inside, c ≠ nul ∧ c ≠ ']' := by
    intro c hc
    have hin := chars c hc
    constructor
    · rintro rfl
      exact absurd hin (by decide)
    · rintro rfl
      exact absurd hin (by decide)
  have htext : v.host.text = '[' :: (inside ++ [']']) := by rw [hhost]; rfl
  have htaken : v.hostTaken = '[' :: (inside ++ ']' :: (v.behindHost ++ v.portOn)) := by
    rw [hostTaken, if_pos hlength, hostOn, htext]
    simp
  have hspaces : ∀ c ∈ v.behindHost, isSpace c = true := fun c hc => isSpace_of_isLws (v.behindHost_blank c hc)
  have hjoin : '[' :: (inside ++ ']' :: v.behindHost) = v.host.text ++ v.behindHost := by
    rw [htext]
    simp
  have hreturned : returnedHost v.hostTaken = '[' :: inside := by
    rw [returnedHost, htaken, v.host_splitSentBy_bracket hinside v.behindHost_blank, hjoin,
      trimRight_append v.host.text_ne_nil (fun c hc => (v.host.not_mem_text hc).2.1) hspaces, htext, trimIpv6Host,
      if_pos (peek_cons _ _), List.tail_cons, List.getLast?_concat, if_pos rfl, ← List.cons_append,
      List.dropLast_concat]
  rw [hreturned, hhost] at hkept
  rcases hkept with heq | heq
  · have hcount := congrArg List.length heq
    rw [List.length_cons, List.length_cons, List.length_append, List.length_singleton] at hcount
    omega
  · have hcount := congrArg List.length heq
    rw [List.length_cons] at hcount
    omega

/-- The rest of a long transport and the blank behind it stand in front of the host. -/
theorem exists_hostTaken (hlength : 4 < v.transport.length) :
    ∃ front g rest c t, v.hostTaken = (front ++ g :: (rest ++ [c])) ++ t ∧ isLws g = true ∧ c ∈ v.host.text ∧
      (∀ d ∈ front ++ g :: (rest ++ [c]), d ≠ nul ∧ d ∉ (":;,".toList : CStr)) ∧
      peek (front ++ g :: (rest ++ [c])) ≠ '[' := by
  obtain ⟨c, s, htext, hc⟩ := v.host.exists_text_eq_cons
  obtain ⟨g, gap, hgap⟩ := List.exists_cons_of_ne_nil v.gap_ne_nil
  have hgapBlank : ∀ d ∈ g :: gap, isLws d = true := fun d hd => v.gap_blank d (hgap ▸ hd)
  have htoken : ∀ d ∈ v.transport.drop 4, d ∉ (" \t/:;,=[]\"\x00".toList : CStr) :=
    fun d hd => not_mem_of_isTokenChar (v.transport_token.chars d (List.mem_of_mem_drop hd))
  have hsub : ∀ e ∈ ("\x00:;,".toList : CStr), e ∈ (" \t/:;,=[]\"\x00".toList : CStr) ∧ e.isAlphanum = false := by
    decide
  refine ⟨v.transport.drop 4, g, gap, c, s ++ (v.behindHost ++ v.portOn), ?_, hgapBlank g List.mem_cons_self,
    htext ▸ List.mem_cons_self, fun d hd => ?_, ?_⟩
  · rw [hostTaken, if_neg (Nat.not_le.mpr hlength), hostOn, htext, hgap]
    simp
  · rw [List.mem_append, ← List.cons_append, List.mem_append, List.mem_singleton] at hd
    rcases hd with hd | hd | rfl
    · have hout : d ∉ ("\x00:;,".toList : CStr) := fun hmem => htoken d hd (hsub d hmem).1
      simpa using hout
    · exact not_separator_of_isLws (hgapBlank d hd)
    · rcases hc with ⟨hc, -⟩ | ⟨rfl, -⟩
      · have hout : d ∉ ("\x00:;,".toList : CStr) := by
          intro hmem
          rw [(hsub d hmem).2] at hc
          cases hc
        simpa using hout
      · decide
  · obtain ⟨d, t, hcons⟩ := List.exists_cons_of_ne_nil (show v.transport.drop 4 ≠ [] by
      rw [ne_eq, List.drop_eq_nil_iff]; omega)
    rw [hcons, List.cons_append, peek_cons]
    rintro rfl
    exact htoken '[' (hcons ▸ List.mem_cons_self) (by decide)

theorem not_keptAs_of_long (hlength : 4 < v.transport.length) : ¬v.host.KeptAs (returnedHost v.hostTaken) := by
  intro hkept
  obtain ⟨front, g, rest, c, t, htaken, hg, hc, hfront, hbracket⟩ := v.exists_hostTaken hlength
  obtain ⟨w, hw⟩ := prefix_host_splitSentBy hfront (by simp) hbracket t
  have hcspace : isSpace c = false := (v.host.not_mem_text hc).2.1
  have hmem : g ∈ returnedHost v.hostTaken := by
    rw [returnedHost, htaken, ← hw, List.append_assoc, List.cons_append]
    refine mem_trimIpv6Host (mem_trimRight (d := c) (by simp) hcspace) ?_
    rintro rfl
    exact absurd hg (by decide)
  have hno := (v.host.not_mem_text (ViaHost.mem_text_of_keptAs hkept g hmem)).2.1
  rw [isSpace_of_isLws hg] at hno
  cases hno

theorem keptAs_returnedHost_iff : v.host.KeptAs (returnedHost v.hostTaken) ↔ v.HostReads := by
  constructor
  · intro hkept
    have hlength : v.transport.length ≤ 4 := Nat.not_lt.mp fun hlong => v.not_keptAs_of_long hlong hkept
    exact ⟨hlength, Bool.eq_false_of_not_eq_true fun hipv6 => v.not_keptAs_of_isIpv6 hlength hipv6 hkept⟩
  · intro h
    rw [ViaHost.keptAs_iff h.2]
    exact v.returnedHost_hostTaken h

end ViaValue

end Sip
