import Ikran.Sip.ViaSentBy

/-!
# What is kept of a Via header

The reader keeps the parameters of the first entry of a Via header piece by piece, and the other entries. The
parameter `received` is always overwritten by the host: as there is then always a received host, no request gets the
parameter `received` from its source address.
-/

namespace Sip

open CStr

/-! ## The parameters and the other entries -/

theorem nul_not_mem_of_isQuotedBody {s : CStr} (h : isQuotedBody s = true) : nul ∉ s := by
  fun_induction isQuotedBody s with
  | case1 => exact List.not_mem_nil
  | case2 c =>
    rw [Bool.and_eq_true, bne_iff_ne] at h
    exact fun hmem => h.2 (List.mem_singleton.mp hmem).symm
  | case3 d s ih =>
    rw [Bool.and_eq_true, bne_iff_ne] at h
    intro hmem
    rcases List.mem_cons.mp hmem with hc | hmem
    · exact absurd hc (by decide)
    · rcases List.mem_cons.mp hmem with hd | hmem
      · exact h.1 hd.symm
      · exact ih h.2 hmem
  | case4 c d s hc ih =>
    rw [Bool.and_eq_true, Bool.and_eq_true, bne_iff_ne, bne_iff_ne] at h
    intro hmem
    rcases List.mem_cons.mp hmem with heq | hmem
    · exact h.1.2 heq.symm
    · exact ih h.2 hmem

theorem ViaItem.nul_not_mem_text (i : ViaItem) : nul ∉ i.text := by
  have hblank : ∀ {s : CStr}, IsBlanks s → nul ∉ s := fun hs hmem => (not_separator_of_isLws (hs nul hmem)).1 rfl
  have hname : nul ∉ i.name := fun hmem => absurd (i.name_token.chars nul hmem) (by decide)
  have hvalue : nul ∉ i.valueText := by
    rw [valueText]
    cases i.value with
    | none => exact List.not_mem_nil
    | some val =>
      have htext : nul ∉ val.text := by
        rcases val.text_form with hplain | ⟨inside, hinside, htext⟩
        · exact fun hmem => (hplain.chars nul hmem).1 rfl
        · rw [htext, List.mem_cons, List.mem_append, List.mem_singleton]
          rintro (h | h | h)
          · exact absurd h (by decide)
          · exact nul_not_mem_of_isQuotedBody hinside h
          · exact absurd h (by decide)
      rw [Option.elim_some, List.mem_append, List.mem_cons, List.mem_append]
      rintro (h | h | h | h)
      · exact hblank val.before_blank h
      · exact absurd h (by decide)
      · exact hblank val.after_blank h
      · exact htext h
  rw [text, List.mem_append, List.mem_append, List.mem_append]
  rintro (h | h | h | h)
  · exact hblank i.front_blank h
  · exact hname h
  · exact hvalue h
  · exact hblank i.behind_blank h

theorem length_splitOnP_le (p : Char → Bool) (s : CStr) : (s.splitOnP p).length ≤ s.length + 1 := by
  induction s with
  | nil => rw [List.splitOnP_nil]; exact le_rfl
  | cons c s ih =>
    rw [List.splitOnP_cons_eq_if_modifyHead]
    split_ifs
    · rw [List.length_cons, List.length_cons]
      omega
    · rw [List.length_modifyHead, List.length_cons]
      omega

/-- The text behind the first comma, without the blanks in front. -/
def afterComma (s : CStr) : Option CStr :=
  match s.dropWhile (· ≠ ',') with
  | [] => none
  | _ :: t => some (skipLws t)

theorem afterComma_append {s : CStr} (hs : ',' ∉ s) (t : CStr) : afterComma (s ++ t) = afterComma t := by
  have hpass : ∀ c ∈ s, decide (c ≠ ',') = true := by
    intro c hc
    rw [decide_eq_true_eq]
    rintro rfl
    exact hs hc
  rw [afterComma, afterComma, List.dropWhile_append_of_pos hpass]

namespace ViaValue

variable (v : ViaValue)

/-- The pieces that the parameters are read in: the text up to the first comma is cut at each semicolon. -/
def pieces : List CStr := if v.items = [] then [] else (v.paramsText.takeWhile (· ≠ ',')).splitOn ';'

def commaOn : CStr := v.paramsText.dropWhile (· ≠ ',') ++ v.moreOn

theorem commaOn_cases : v.commaOn = [] ∨ ∃ t, v.commaOn = ',' :: t := by
  rw [commaOn]
  cases hdrop : v.paramsText.dropWhile (· ≠ ',') with
  | nil =>
    rw [List.nil_append, moreOn]
    cases v.more with
    | none => exact .inl rfl
    | some t => exact .inr ⟨t, rfl⟩
  | cons c s =>
    have hc := List.head?_dropWhile_not (fun c => decide (c ≠ ',')) v.paramsText
    rw [hdrop] at hc
    have hcomma : c = ',' := by simpa using hc
    exact .inr ⟨s ++ v.moreOn, by rw [hcomma, List.cons_append]⟩

theorem isPiece_of_mem_pieces : ∀ piece ∈ v.pieces, IsPiece piece := by
  intro piece hpiece c hc
  rw [pieces] at hpiece
  split_ifs at hpiece with hitems
  · cases hpiece
  rw [List.splitOn_eq_splitOnP] at hpiece
  obtain ⟨hmem, hsemi⟩ := mem_of_mem_splitOnP hpiece c hc
  have hcomma : c ≠ ',' := by simpa using List.mem_takeWhile_imp hmem
  rw [beq_eq_false_iff_ne] at hsemi
  constructor
  · rintro rfl
    rcases mem_of_mem_intercalate ((List.takeWhile_prefix _).subset hmem) with h | ⟨text, htext, hin⟩
    · exact absurd h (by decide)
    · obtain ⟨i, -, rfl⟩ := List.mem_map.mp htext
      exact i.nul_not_mem_text hin
  · intro h
    rcases List.mem_cons.mp h with h | h
    · exact hsemi h
    · exact hcomma (List.mem_singleton.mp h)

theorem piecesText_pieces (hitems : v.items ≠ []) : piecesText v.pieces ++ v.commaOn = v.paramsText ++ v.moreOn := by
  rw [piecesText, pieces, if_neg hitems, List.intercalate_splitOn, commaOn, ← List.append_assoc,
    List.takeWhile_append_dropWhile]

/-- **What is read behind the host and the port.** -/
theorem viaBehind_behindOption (sipVia : SipVia) :
    viaBehind v.behindOption sipVia = (v.pieces.foldlM pieceStep sipVia).map (withMore v.commaOn) := by
  rw [behindOption, behind_eq]
  by_cases hitems : v.items = []
  · have hparams : v.paramsText = [] := by rw [paramsText, hitems]; rfl
    have hcomma : v.commaOn = v.moreOn := by rw [commaOn, hparams]; rfl
    rw [if_pos hitems, List.nil_append, hcomma, pieces, if_pos hitems, moreOn]
    cases v.more with
    | none => rfl
    | some t => rfl
  · have hlength : v.pieces.length ≤ (';' :: (v.paramsText ++ v.moreOn)).length := by
      have hle := length_splitOnP_le (· == ';') (v.paramsText.takeWhile (· ≠ ','))
      have htake : (v.paramsText.takeWhile (· ≠ ',')).length ≤ v.paramsText.length :=
        (List.takeWhile_prefix _).length_le
      rw [pieces, if_neg hitems, List.splitOn_eq_splitOnP, List.length_cons, List.length_append]
      omega
    have hne : v.pieces ≠ [] := by
      rw [pieces, if_neg hitems]
      exact List.splitOn_ne_nil _ _
    rw [if_neg hitems, List.cons_append, if_neg (List.cons_ne_nil _ _)]
    have hread := parseViaParams_pieces v.commaOn_cases v.pieces _ sipVia hne v.isPiece_of_mem_pieces hlength
    rw [v.piecesText_pieces hitems] at hread
    rw [viaBehind, ← hread]
    exact if_pos (peek_cons _ _)

theorem comma_not_mem_head : ∃ head, v.text = head ++ v.behind ∧ ',' ∉ head := by
  have hblank : ∀ {s : CStr}, IsBlanks s → ',' ∉ s := fun hs hmem => absurd (hs ',' hmem) (by decide)
  have htoken : ∀ {s : CStr}, IsToken s → ',' ∉ s := fun hs hmem => absurd (hs.chars ',' hmem) (by decide)
  have hhost : ',' ∉ v.host.text := fun hmem => (v.host.not_mem_text hmem).2.2.1 (by decide)
  have hport : ',' ∉ (v.port.elim [] (fun p => ':' :: p.text) : CStr) := by
    cases v.port with
    | none => exact List.not_mem_nil
    | some p =>
      rw [Option.elim_some, List.mem_cons, not_or]
      exact ⟨by decide, fun hmem => (p.not_mem_text hmem).2 (by decide)⟩
  obtain ⟨h₁, h₂, h₃, h₄⟩ := v.lws_blanks
  refine ⟨v.lead ++ (v.protocol ++ (v.lws₁ ++ '/' :: (v.lws₂ ++ (v.version ++ (v.lws₃ ++ '/' :: (v.lws₄ ++
    (v.transport ++ (v.gap ++ (v.host.text ++ (v.behindHost ++ v.port.elim [] fun p => ':' :: p.text)))))))))), ?_, ?_⟩
  · rw [text, hostOn, portOn]
    simp only [List.append_assoc, List.cons_append]
  · simp only [List.mem_append, List.mem_cons, not_or]
    exact ⟨hblank v.lead_blank, htoken v.protocol_token, hblank h₁, by decide, hblank h₂, htoken v.version_token,
      hblank h₃, by decide, hblank h₄, htoken v.transport_token, hblank v.gap_blank, hhost,
      hblank v.behindHost_blank, hport⟩

theorem afterComma_text : afterComma v.text = if v.commaOn = [] then none else some (skipLws v.commaOn.tail) := by
  obtain ⟨head, htext, hhead⟩ := v.comma_not_mem_head
  have hcomma : ∀ t : CStr, t = [] ∨ (∃ r, t = ',' :: r) →
      afterComma t = if t = [] then none else some (skipLws t.tail) := by
    rintro t (rfl | ⟨r, rfl⟩)
    · rfl
    · rfl
  have htake : ',' ∉ v.paramsText.takeWhile (· ≠ ',') := fun hmem => by
    have hno := List.mem_takeWhile_imp hmem
    exact absurd hno (by decide)
  have hsplit : v.behind = (if v.items = [] then [] else ';' :: v.paramsText.takeWhile (· ≠ ',')) ++ v.commaOn := by
    rw [behind_eq, commaOn]
    split_ifs with hitems
    · have hparams : v.paramsText = [] := by rw [paramsText, hitems]; rfl
      rw [hparams]
      rfl
    · rw [List.cons_append, List.cons_append, ← List.append_assoc, List.takeWhile_append_dropWhile]
  rw [htext, afterComma_append hhead, hsplit, afterComma_append, hcomma v.commaOn v.commaOn_cases]
  split_ifs
  · exact List.not_mem_nil
  · rw [List.mem_cons, not_or]
    exact ⟨by decide, htake⟩

/-! ## What is kept -/

/-- What is returned is what is written. -/
structure KeptBy (sipVia : SipVia) : Prop where
  host : v.host.KeptAs sipVia.host
  port : sipVia.remotePort.toNat = v.port.elim 5060 ViaPort.number
  params : ∀ p, p ≠ .received → sipVia.param p = v.written p
  received : ∀ r, v.written .received = some r → sipVia.recdHost = some r
  more : sipVia.moreVia = afterComma v.text

/-- The value is accepted, and what is returned is what is written. -/
def IsKept (inetPton6 : CStr → Bool) : Prop :=
  ∃ sipVia, sippmhParseVia inetPton6 v.text = some (some sipVia) ∧ v.KeptBy sipVia

/-- The values of which everything is kept. -/
structure Reads : Prop where
  start : v.StartKnown
  host : v.HostReads
  port : ∀ p, v.port = some p → 1 ≤ p.number ∧ p.number ≤ 65535
  received : ∀ r, v.written .received = some r → r = v.host.text
  noRepeat : NoRepeat v.pieces
  pieces : ∀ p, p ≠ .received → v.pieces.findSome? (pieceSets p) = v.written p

theorem exists_portNumber_iff : (∃ n : UInt16, portNumber ((v.port.map ViaPort.text).getD "5060") = some n ∧
      n.toNat = v.port.elim 5060 ViaPort.number) ↔
      ∀ p, v.port = some p → 1 ≤ p.number ∧ p.number ≤ 65535 := by
  cases v.port with
  | none => exact iff_of_true ⟨5060, by decide, rfl⟩ nofun
  | some p =>
    rw [Option.map_some, Option.getD_some, Option.elim_some, p.isKept_iff]
    simp

/-- What the reader knows before it comes to the parameters. -/
def before : SipVia := viaBefore (sentBy v.text).1 (sentBy v.text).2.1 v.hostTaken

theorem parse_text_iff (inetPton6 : CStr → Bool) (h : v.StartKnown) (sipVia : SipVia) :
    sippmhParseVia inetPton6 v.text = some (some sipVia) ↔
      ∃ s, viaBehind (splitSentBy v.hostTaken).behind v.before = some s ∧
        sipSPIValidateIpAddrName inetPton6 (splitSentBy v.hostTaken).host = true ∧
        ∃ n, portNumber ((splitSentBy v.hostTaken).port.getD "5060") = some n ∧ sipVia = { s with
            host := returnedHost v.hostTaken
            remotePort := n
            recdHost := some (returnedHost v.hostTaken) } := by
  have hbefore : v.before =
      { version := (sentBy v.text).1, transport := (sentBy v.text).2.1, host := (splitSentBy v.hostTaken).host,
        isIpv6 := v.hostTaken.peek = '[' } := rfl
  rw [sippmhParseVia_eq_some_iff, v.viaStart_text_iff, and_iff_right h, v.sentBy_text h, viaSentBy_eq, ← hbefore,
    Option.bind_eq_some_iff]
  refine exists_congr fun s => and_congr_right fun _ => ?_
  split_ifs with hvalid
  · rw [Option.map_eq_some_iff, and_iff_right hvalid]
    refine exists_congr fun n => and_congr_right fun _ => ?_
    exact eq_comm
  · exact iff_of_false nofun fun hboth => hvalid hboth.1

theorem foldlM_pieces (h : NoRepeat v.pieces) : ∃ s, (v.pieces.foldlM pieceStep v.before) = some s ∧ s.moreVia = none ∧
      ∀ p, s.param p = v.pieces.findSome? (pieceSets p) := by
  have hfresh : ∀ p, v.before.param p = none := by
    intro p
    cases p <;> rfl
  have haccepted : (v.pieces.foldlM pieceStep v.before).isSome :=
    (foldlM_pieceStep_isSome_iff v.pieces v.before).mpr ⟨h, fun _ _ p _ => hfresh p⟩
  obtain ⟨s, hs⟩ := Option.isSome_iff_exists.mp haccepted
  obtain ⟨hmore, hparam⟩ := param_of_foldlM v.pieces v.before hs
  refine ⟨s, hs, hmore, fun p => ?_⟩
  rw [hparam p, hfresh p, Option.none_or]

theorem withMore_commaOn {s : SipVia} (hs : s.moreVia = none) :
    (withMore v.commaOn s).moreVia = afterComma v.text ∧ ∀ p, (withMore v.commaOn s).param p = s.param p := by
  rw [v.afterComma_text, withMore]
  split_ifs
  · exact ⟨hs, fun _ => rfl⟩
  · refine ⟨rfl, fun p => ?_⟩
    cases p <;> rfl

/-- **When everything is kept of a Via header.** -/
theorem isKept_iff (inetPton6 : CStr → Bool) : v.IsKept inetPton6 ↔ v.Reads := by
  constructor
  · rintro ⟨sipVia, hparse, hkept⟩
    have hstart : v.StartKnown := by
      rw [← v.viaStart_text_iff]
      exact ((sippmhParseVia_eq_some_iff inetPton6).mp hparse).1
    obtain ⟨s, hbehind, -, n, hn, rfl⟩ := (v.parse_text_iff inetPton6 hstart sipVia).mp hparse
    have hhost : v.HostReads := v.keptAs_returnedHost_iff.mp hkept.host
    rw [v.splitSentBy_hostTaken hhost] at hbehind hn
    rw [v.viaBehind_behindOption, Option.map_eq_some_iff] at hbehind
    obtain ⟨s, hfold, rfl⟩ := hbehind
    have hnoRepeat : NoRepeat v.pieces := by
      have haccepted := (foldlM_pieceStep_isSome_iff v.pieces v.before).mp (by rw [hfold]; rfl)
      exact haccepted.1
    obtain ⟨s', hfold', hmore, hparam⟩ := v.foldlM_pieces hnoRepeat
    obtain rfl := Option.some.inj (hfold.symm.trans hfold')
    refine ⟨hstart, hhost, v.exists_portNumber_iff.mp ⟨n, hn, hkept.port⟩, fun r hr => ?_, hnoRepeat, fun p hp => ?_⟩
    · have hreceived := hkept.received r hr
      rw [Option.some_inj, v.returnedHost_hostTaken hhost] at hreceived
      exact hreceived.symm
    · have hwritten := hkept.params p hp
      rw [← hparam p, ← (v.withMore_commaOn hmore).2 p, ← hwritten]
      cases p with
      | received => exact absurd rfl hp
      | ttl => rfl
      | maddr => rfl
      | branch => rfl
  · intro h
    obtain ⟨s, hfold, hmore, hparam⟩ := v.foldlM_pieces h.noRepeat
    obtain ⟨n, hn, hport⟩ := v.exists_portNumber_iff.mpr h.port
    have hhost := v.returnedHost_hostTaken h.host
    obtain ⟨hmoreVia, hparams⟩ := v.withMore_commaOn hmore
    refine ⟨_, (v.parse_text_iff inetPton6 h.start _).mpr ⟨withMore v.commaOn s, ?_, ?_, n, ?_, rfl⟩, ?_⟩
    · rw [v.splitSentBy_hostTaken h.host, v.viaBehind_behindOption, hfold]
      rfl
    · rw [v.splitSentBy_hostTaken h.host]
      exact v.host.validate_text inetPton6 h.host.2 v.behindHost_blank
    · rw [v.splitSentBy_hostTaken h.host]
      exact hn
    · refine ⟨?_, hport, fun p hp => ?_, fun r hr => ?_, hmoreVia⟩
      · exact v.keptAs_returnedHost_iff.mpr h.host
      · rw [← h.pieces p hp, ← hparam p, ← hparams p]
        cases p with
        | received => exact absurd rfl hp
        | ttl => rfl
        | maddr => rfl
        | branch => rfl
      · rw [h.received r hr]
        exact congrArg some hhost

end ViaValue

/-! ## The rewriting of a Via header -/

/-- The cached Via header of a message: its line, and where in it the value starts. -/
structure ViaHeader where
  hdrStart : CStr
  valOffset : ℕ

/-- What the function reads and writes of a message. -/
structure ViaMessage where
  isRequest : Bool
  isComplete : Bool
  via : Option ViaHeader

/-- The line with the parameter `received` at the end of its first entry. -/
def ViaHeader.withReceived (h : ViaHeader) (dottedIp : CStr) : ViaHeader :=
  { h with
    hdrStart :=
      h.hdrStart.takeWhile (· ≠ ',') ++ ";received=".toList ++ dottedIp ++ h.hdrStart.dropWhile (· ≠ ',') }

/-- `sippmh_process_via_header`, for a message from the address `dottedIp`. There is no result when the reader leaves
the text. -/
def sippmhProcessViaHeader (inetPton6 : CStr → Bool) (msg : ViaMessage) (dottedIp : CStr) : Option ViaMessage :=
  if msg.isRequest then
    match msg.via with
    | none => some { msg with isComplete := false }
    | some h =>
      (sippmhParseVia inetPton6 (h.hdrStart.drop h.valOffset)).map fun via =>
        match via with
        | none => { msg with isComplete := false }
        | some via =>
          if via.host ≠ dottedIp ∧ via.recdHost = none then { msg with via := some (h.withReceived dottedIp) } else msg
  else some msg

/-- The Via header of a message gets the address as the parameter `received`. -/
def ReceivedAdded (inetPton6 : CStr → Bool) (msg : ViaMessage) (dottedIp : CStr) : Prop :=
  ∃ msg', sippmhProcessViaHeader inetPton6 msg dottedIp = some msg' ∧
    msg'.via = msg.via.map (ViaHeader.withReceived · dottedIp)

theorem recdHost_of_sippmhParseVia {inetPton6 : CStr → Bool} {s : CStr} {via : SipVia}
    (h : sippmhParseVia inetPton6 s = some (some via)) : via.recdHost = some via.host := by
  obtain ⟨-, hsentBy⟩ := (sippmhParseVia_eq_some_iff inetPton6).mp h
  rw [viaSentBy_eq] at hsentBy
  obtain ⟨s, -, hsentBy⟩ := Option.bind_eq_some_iff.mp hsentBy
  split_ifs at hsentBy
  obtain ⟨n, -, rfl⟩ := Option.map_eq_some_iff.mp hsentBy
  rfl

/-- **No Via header is rewritten.** -/
theorem via_sippmhProcessViaHeader {inetPton6 : CStr → Bool} {msg msg' : ViaMessage} {dottedIp : CStr}
    (h : sippmhProcessViaHeader inetPton6 msg dottedIp = some msg') : msg'.via = msg.via := by
  rw [sippmhProcessViaHeader] at h
  split_ifs at h with hrequest
  · cases hvia : msg.via with
    | none =>
      rw [hvia] at h
      obtain rfl := Option.some.inj h
      rfl
    | some hdr =>
      rw [hvia] at h
      obtain ⟨read, hread, rfl⟩ := Option.map_eq_some_iff.mp h
      cases read with
      | none => rfl
      | some via =>
        have hrecd := recdHost_of_sippmhParseVia hread
        dsimp only
        rw [if_neg fun hboth => by rw [hrecd] at hboth; cases hboth.2]
        exact hvia
  · obtain rfl := Option.some.inj h
    rfl

theorem not_receivedAdded (inetPton6 : CStr → Bool) (isComplete : Bool) (h : ViaHeader) (dottedIp : CStr) :
    ¬ReceivedAdded inetPton6 ⟨true, isComplete, some h⟩ dottedIp := by
  rintro ⟨msg', hprocess, hvia⟩
  rw [via_sippmhProcessViaHeader hprocess, Option.map_some, Option.some_inj] at hvia
  have hcount := congrArg (fun hdr : ViaHeader => hdr.hdrStart.length) hvia
  have hsplit := congrArg List.length (List.takeWhile_append_dropWhile (p := (· ≠ ',')) (l := h.hdrStart))
  have hreceived : (";received=".toList : CStr).length = 10 := rfl
  simp only [ViaHeader.withReceived, List.length_append, hreceived] at hcount hsplit
  omega

theorem isLws_nil : ∀ c ∈ ([] : CStr), isLws c = true := List.forall_mem_nil _

/-- The parameter `received=1.2.3.4`. -/
def receivedItem : ViaItem where
  front := []
  name := "received"
  value := some ⟨[], [], "1.2.3.4", isLws_nil, isLws_nil, .inl ⟨by decide, by decide⟩⟩
  behind := []
  front_blank := isLws_nil
  name_token := ⟨by decide, by decide⟩
  behind_blank := isLws_nil
  known_plain := fun _ _ => ⟨_, rfl, by decide, by decide⟩

/-- The Via header `SIP/2.0/UDP pbx;received=1.2.3.4`. -/
def receivedVia : ViaValue where
  lead := []
  protocol := "SIP"
  lws₁ := []
  lws₂ := []
  version := "2.0"
  lws₃ := []
  lws₄ := []
  transport := "UDP"
  gap := [' ']
  host := .name [] "pbx" false (List.forall_mem_nil _) ⟨rfl, fun _ hc => Option.some.inj hc ▸ rfl, by decide⟩ rfl
  behindHost := []
  port := none
  items := [receivedItem]
  more := none
  lead_blank := isLws_nil
  lws_blank := isLws_nil
  protocol_token := ⟨by decide, by decide⟩
  version_token := ⟨by decide, by decide⟩
  transport_token := ⟨by decide, by decide⟩
  gap_ne_nil := by decide
  gap_blank := fun _ hc => List.mem_singleton.mp hc ▸ rfl
  behindHost_blank := isLws_nil
  names_distinct := List.pairwise_singleton _ _

end Sip
