import Ikran.Sip.RequestOrder
import Ikran.Sip.Url

/-!
# Responses and their requests

`sipSPICheckResponse` looks for the request that a response answers: by method, in the table of sent
requests, where it takes the first one. If that is another request, a response to an INVITE is taken for
one that came too late. It is acknowledged, or ignored, and the INVITE whose block was found is forgotten
when it is acknowledged, though it was not that one that was answered.

The parsers of the headers other than CSeq are decisions of the model, and so is what the reliable
delivery says of the response.
-/

namespace Sip

open CStr

/-! ## Responses -/

/-- `SIP_MESSAGING_ERROR_STALE_RESP`. -/
def messagingErrorStaleResp : ℤ := 4

/-- `SIP_MESSAGING_ERROR_NO_TRX`. -/
def messagingErrorNoTrx : ℤ := 6

/-- `SIP_CLI_ERR_UNAUTH`. -/
def cliErrUnauth : UInt16 := 401

/-- `SIP_CLI_ERR_PROXY_REQD`. -/
def cliErrProxyReqd : UInt16 := 407

/-- The room for a Call-ID, `MAX_SIP_CALL_ID`. -/
def maxSipCallIdLength : ℕ := 128

def viaBranchLength : ℕ := 16

def viaBranchStart : CStr := "z9hG4bK"

/-- `httpishStatusCodeClass_t`. -/
inductive CodeClass
  | invalid | class1xx | class2xx | class3xx | class4xx | class5xx | class6xx
  deriving DecidableEq

/-- `httpish_msg_get_code_class`. -/
def getCodeClass (statusCode : UInt16) : CodeClass :=
  match statusCode.toNat / 100 with
  | 1 => .class1xx
  | 2 => .class2xx
  | 3 => .class3xx
  | 4 => .class4xx
  | 5 => .class5xx
  | 6 => .class6xx
  | _ => .invalid

/-- `sipLocation_t`, as far as the check reads it. -/
structure Location where
  schema : UrlSchema := .sip
  tag : Option CStr := none

/-- A response, as far as `sipSPICheckResponse` looks at it. What the parsers of its headers say is part
of it. -/
structure Response where
  /-- `sippmh_is_message_complete`. -/
  complete : Bool := true
  fromHeader : Option CStr := none
  toHeader : Option CStr := none
  callId : Option CStr := none
  cseq : Option CStr := none
  via : Option CStr := none
  /-- The branch, if `sippmh_parse_via` accepts the Via header and finds one. -/
  viaBranch : Option CStr := none
  /-- What `sipSPICheckContentHeaders` returns. -/
  contentResult : ℤ := messagingOk
  statusCode : Option UInt16 := none
  replaces : Bool := false
  /-- What `sippmh_parse_from_or_to` makes of the To header. -/
  toLocation : Option Location := none
  /-- What `sippmh_parse_from_or_to` makes of the From header. -/
  fromLocation : Option Location := none
  /-- `sipRelDevMessageIsDuplicate`. -/
  duplicate : Bool := false
  contact : Option CStr := none
  /-- Whether `sippmh_parse_contact` accepts the Contact header. -/
  contactParses : Bool := true

def Response.parsedCseq (r : Response) : Option Cseq := r.cseq.bind parseCseq

def isGoodHeaderLength (bound : ℕ) (header : CStr) : Bool := header.length < bound && header.length != 0

/-- A header that is there, and whose length is good. -/
def goodHeader (bound : ℕ) (header : Option CStr) : Option CStr :=
  header.filter (isGoodHeaderLength bound)

/-- What the first checks of a response find. -/
structure ResponseHeaders where
  fromHeader : CStr
  toHeader : CStr
  callId : CStr
  statusCode : UInt16
  cseq : Cseq

/-- The checks of `sipSPICheckResponse` down to the CSeq header, all of which end with
`SIP_MESSAGING_ERROR`. -/
def Response.checkHeaders (r : Response) : Option ResponseHeaders :=
  if !r.complete then none
  else
    match goodHeader maxSipUrlLength r.fromHeader, goodHeader maxSipUrlLength r.toHeader,
      goodHeader maxSipCallIdLength r.callId with
    | some fromHeader, some toHeader, some callId =>
      if r.cseq = none then none
      else if r.via.any (',' ∈ ·) then none
      else if r.contentResult ≠ messagingOk then none
      else
        match r.statusCode, r.parsedCseq with
        | some statusCode, some cseq => some { fromHeader, toHeader, callId, statusCode, cseq }
        | _, _ => none
    | _, _, _ => none

/-- The headers pass their checks, there is no Replaces header, and the To and From headers are parsed. -/
structure Response.WellFormed (r : Response) (p : ResponseHeaders) : Prop where
  headers : r.checkHeaders = some p
  noReplaces : r.replaces = false
  toParses : r.toLocation ≠ none
  fromParses : r.fromLocation ≠ none

/-- The response asks for credentials. -/
def isChallenge (statusCode : UInt16) : Bool :=
  statusCode == cliErrUnauth || statusCode == cliErrProxyReqd

/-! ## The check -/

/-- A call control block with the identity of its dialog. -/
structure DialogCcb extends Ccb where
  sipTo : CStr := []
  sipFrom : CStr := []
  /-- The text of the contact in `contact_info`. -/
  contactInfo : Option CStr := none
  sipFromTag : CStr := []
  sipToTag : CStr := []

/-- What building the requests comes to that the check sends. -/
structure Building where
  ack : Bool := true
  byeUri : Option CStr := some []
  bye : Bool := true

/-- What the check returns and does. -/
structure Checked where
  result : ℤ
  ccb : DialogCcb
  sent : List SipMethod := []
  readAsSip : List UrlSchema := []

/-- `sipSPIGenRequestURI` writes the Request-URI of a request. -/
def Ccb.setReqURI (ccb : Ccb) (uri : CStr) : Ccb := { ccb with reqURI := uri }

namespace DialogCcb

/-- `sipSPISendFailureResponseAck` within a call: what is sent, and the block after it. The INVITE that is
outstanding is taken for the one that was answered. -/
def sendFailureResponseAck (b : Building) (ccb : DialogCcb) : List SipMethod × DialogCcb :=
  (if b.ack then [.ack] else [], { ccb with toCcb := ccb.toCcb.cleanMethodRequestTrx .invite true })

/-- `sipSPISendBye`: what is sent, and the block after it. -/
def sendBye (b : Building) (ccb : DialogCcb) : List SipMethod × DialogCcb :=
  match b.byeUri with
  | none => ([], { ccb with toCcb := ccb.toCcb.cleanMethodRequestTrx .bye true })
  | some uri =>
    let allocation := (ccb.toCcb.setReqURI uri).allocateTrx .bye
    if allocation.1 && b.bye then ([.bye], { ccb with toCcb := allocation.2 })
    else ([], { ccb with toCcb := allocation.2.cleanMethodRequestTrx .bye true })

/-- The To, From and Contact headers of the response become those of the dialog. -/
def takeIdentity (ccb : DialogCcb) (r : Response) (p : ResponseHeaders) : DialogCcb :=
  let contactInfo :=
    match r.contact with
    | some contact => if r.contactParses then some contact else none
    | none => ccb.contactInfo
  { ccb with sipTo := p.toHeader, sipFrom := p.fromHeader, contactInfo }

/-- The branch of the response is not that of the request that was sent last. -/
def isStray (ccb : DialogCcb) (r : Response) : Bool :=
  match r.viaBranch with
  | none => false
  | some branch =>
    if branch.take 7 = viaBranchStart.take 7 then
      match getLastRequestTrxIndex ccb.sentRequest with
      | none => false
      | some k => branch.take viaBranchLength != (ccb.sentRequest k).u.take viaBranchLength
    else false

/-- `trx_index_temp > 0` for the CANCEL that is outstanding. -/
def cancelFound (ccb : DialogCcb) : Bool :=
  match getMethodRequestTrxIndex ccb.sentRequest .cancel with
  | none => false
  | some k => 0 < k.val

/-- A CANCEL is outstanding: the response accepts the call, which is ended by a BYE. -/
def answerCancelled (b : Building) (ccb : DialogCcb) (r : Response) (p : ResponseHeaders) : Checked :=
  let acked := (ccb.takeIdentity r p).sendFailureResponseAck b
  let ended := acked.2.sendBye b
  { result := messagingErrorStaleResp, ccb := ended.2, sent := acked.1 ++ ended.1 }

/-- The response is acknowledged, and nothing more. -/
def answerStale (b : Building) (ccb : DialogCcb) : Checked :=
  let acked := ccb.sendFailureResponseAck b
  { result := messagingErrorStaleResp, ccb := acked.2, sent := acked.1 }

/-- A response to an INVITE that is not the one whose block was found. -/
def staleInvite (b : Building) (ccb : DialogCcb) (r : Response) (p : ResponseHeaders) : Checked :=
  match getCodeClass p.statusCode with
  | .class2xx =>
    if ccb.cancelFound then ccb.answerCancelled b r p else { result := messagingError, ccb }
  | .class4xx | .class5xx | .class6xx =>
    if ccb.isStray r then { result := messagingErrorStaleResp, ccb } else ccb.answerStale b
  | .invalid | .class1xx | .class3xx => ccb.answerStale b

/-- The comparison of the response with the request that is found by its method. -/
def matchResponse (b : Building) (ccb : DialogCcb) (r : Response) (p : ResponseHeaders) : Checked :=
  match getMethodRequestTrxIndex ccb.sentRequest p.cseq.method with
  | none => { result := messagingErrorNoTrx, ccb }
  | some k =>
    if (ccb.sentRequest k).cseqNumber ≠ p.cseq.number ∨ (ccb.sentRequest k).cseqMethod ≠ p.cseq.method ∨
        ccb.sipCallID ≠ p.callId then
      if p.cseq.method = .invite then ccb.staleInvite b r p
      else { result := messagingErrorStaleResp, ccb }
    else { result := messagingOk, ccb }

/-- The tag that the From header of a response has. -/
def ownTag (ccb : DialogCcb) : CStr := if ccb.incoming then ccb.sipToTag else ccb.sipFromTag

/-- The reliable delivery, and the check of the From tag: the result, unless the response goes on, and the
schemas of the URLs that are read as SIP URLs. A repeated provisional response to an INVITE goes on. -/
def checkRelDev (ccb : DialogCcb) (r : Response) (p : ResponseHeaders) : Option ℤ × List UrlSchema :=
  match r.toLocation with
  | none => (some messagingError, [])
  | some toLocation =>
    match r.fromLocation with
    | none => (some messagingError, [toLocation.schema])
    | some fromLocation =>
      let reads := [toLocation.schema, fromLocation.schema]
      if fromLocation.tag.any (· != ccb.ownTag) then (some messagingError, reads)
      else if r.duplicate && !(p.cseq.method == .invite && getCodeClass p.statusCode == .class1xx) then
        (some messagingDuplicate, reads)
      else (none, reads)

/-- `sipSPICheckResponse`. -/
def checkResponse (b : Building) (ccb : DialogCcb) (r : Response) : Checked :=
  match r.checkHeaders with
  | none => { result := messagingError, ccb }
  | some p =>
    if isChallenge p.statusCode && p.cseq.method == .ack then { result := messagingOk, ccb }
    else if r.replaces then { result := messagingError, ccb }
    else
      match ccb.checkRelDev r p with
      | (some result, readAsSip) => { result, ccb, readAsSip }
      | (none, readAsSip) => { ccb.matchResponse b r p with readAsSip }

/-- A response that the claim speaks of: it is complete and no duplicate, does not answer an ACK with a
challenge, has the tag of the call in its From header, if it has one, and good content headers. -/
structure InScope (ccb : DialogCcb) (r : Response) : Prop where
  complete : r.complete = true
  notDuplicate : r.duplicate = false
  noAckChallenge : ∀ cseq statusCode, r.parsedCseq = some cseq → r.statusCode = some statusCode →
    ¬ (isChallenge statusCode = true ∧ cseq.method = .ack)
  fromTag : ∀ location tag, r.fromLocation = some location → location.tag = some tag → tag = ccb.ownTag
  content : r.contentResult = messagingOk

/-- A request with the number and the method is outstanding. -/
def Outstanding (ccb : DialogCcb) (number : UInt32) (method : SipMethod) : Prop :=
  ∃ k, (ccb.sentRequest k).cseqNumber = number ∧ (ccb.sentRequest k).cseqMethod = method

/-- The response belongs to the call, and answers a request that is outstanding. -/
def Matches (ccb : DialogCcb) (r : Response) : Prop :=
  r.callId = some ccb.sipCallID ∧ ∃ cseq, r.parsedCseq = some cseq ∧ ccb.Outstanding cseq.number cseq.method

/-- The response belongs to the call, and accepts an INVITE whose CANCEL is outstanding. -/
def Cancelled (ccb : DialogCcb) (r : Response) : Prop :=
  r.callId = some ccb.sipCallID ∧ ∃ number statusCode, r.parsedCseq = some ⟨number, .invite⟩ ∧
    r.statusCode = some statusCode ∧ getCodeClass statusCode = .class2xx ∧ ccb.Outstanding number .cancel

/-- The outstanding requests and the identity of the dialog are the same. -/
structure SameDialog (ccb ccb' : DialogCcb) : Prop where
  sentRequest : ccb'.sentRequest = ccb.sentRequest
  sipTo : ccb'.sipTo = ccb.sipTo
  sipFrom : ccb'.sipFrom = ccb.sipFrom
  contactInfo : ccb'.contactInfo = ccb.contactInfo

/-- A response is matched to its own request: it is accepted exactly when it answers an outstanding
request, and changes nothing otherwise, unless it accepts an INVITE that is being cancelled, for which an
ACK and a BYE are sent. Only SIP URLs are read as such. -/
structure MatchedToOwn (b : Building) (ccb : DialogCcb) (r : Response) : Prop where
  ok_iff : (ccb.checkResponse b r).result = messagingOk ↔ ccb.Matches r
  cancelled : (ccb.checkResponse b r).result ≠ messagingOk → ccb.Cancelled r →
    (ccb.checkResponse b r).sent = [.ack, .bye]
  unchanged : (ccb.checkResponse b r).result ≠ messagingOk → ¬ ccb.Cancelled r →
    ccb.SameDialog (ccb.checkResponse b r).ccb
  onlySip : ∀ schema ∈ (ccb.checkResponse b r).readAsSip, schema = .sip

/-- The block that the search finds is that of another request, or the call is another. -/
def Mismatch (ccb : DialogCcb) (p : ResponseHeaders) (k : Fin maxReqOutstanding) : Prop :=
  (ccb.sentRequest k).cseqNumber ≠ p.cseq.number ∨ ccb.sipCallID ≠ p.callId

/-- A response to an INVITE that is not the one whose block was found is handled as it has to be.

- If it accepts the call, a CANCEL is found behind the first block exactly if the INVITE is being
  cancelled, and then the ACK and the BYE are built.
- If it refuses the call, its branch is not that of the request that was sent last.
- It does nothing else. -/
def StaleHandled (b : Building) (ccb : DialogCcb) (r : Response) (p : ResponseHeaders) : Prop :=
  match getCodeClass p.statusCode with
  | .class2xx => (ccb.cancelFound = true ↔ ccb.Cancelled r) ∧
    (ccb.Cancelled r → b.ack = true ∧ b.byeUri ≠ none ∧ b.bye = true)
  | .class4xx | .class5xx | .class6xx => ccb.isStray r = true
  | .invalid | .class1xx | .class3xx => False

/-- The condition of a response.

- Its To and From headers have SIP URLs, as far as the check comes to them.
- If it answers an outstanding request, or accepts an INVITE that is being cancelled, it is well formed.
- The request that it answers is the first one with its method.
- If it accepts an INVITE that is being cancelled, some INVITE is outstanding.
- If it answers another INVITE than the first one, it is handled as it has to be. -/
structure Expects (b : Building) (ccb : DialogCcb) (r : Response) : Prop where
  sip : ∀ p location, r.checkHeaders = some p → r.replaces = false → r.toLocation = some location →
    location.schema = .sip ∧ ∀ location', r.fromLocation = some location' → location'.schema = .sip
  wellFormed : ccb.Matches r ∨ ccb.Cancelled r → ∃ p, r.WellFormed p
  first : ∀ cseq k, ccb.Matches r → r.parsedCseq = some cseq →
    getMethodRequestTrxIndex ccb.sentRequest cseq.method = some k →
    (ccb.sentRequest k).cseqNumber = cseq.number
  invite : ccb.Cancelled r → getMethodRequestTrxIndex ccb.sentRequest .invite ≠ none
  stale : ∀ p k, r.WellFormed p → p.cseq.method = .invite →
    getMethodRequestTrxIndex ccb.sentRequest .invite = some k → ccb.Mismatch p k →
    ccb.StaleHandled b r p

/-! ## The first checks -/

variable {b : Building} {ccb : DialogCcb} {r : Response} {p : ResponseHeaders}

theorem of_checkHeaders (h : r.checkHeaders = some p) :
    r.callId = some p.callId ∧ r.statusCode = some p.statusCode ∧ r.parsedCseq = some p.cseq := by
  unfold Response.checkHeaders at h
  by_cases hcomplete : r.complete = true
  · rw [if_neg (by simp [hcomplete])] at h
    split at h
    · rename_i fromHeader toHeader callId _ _ hcallId
      split_ifs at h
      split at h
      · rename_i statusCode cseq hstatus hcseq
        cases h
        exact ⟨(Option.filter_eq_some_iff.mp hcallId).1, hstatus, hcseq⟩
      · cases h
    · cases h
  · rw [if_pos (by simpa using hcomplete)] at h
    cases h

theorem InScope.checkRelDev_eq (h : ccb.InScope r) {toLocation fromLocation : Location}
    (hto : r.toLocation = some toLocation) (hfrom : r.fromLocation = some fromLocation) :
    ccb.checkRelDev r p = (none, [toLocation.schema, fromLocation.schema]) := by
  have htag : fromLocation.tag.any (· != ccb.ownTag) = false := by
    cases htag : fromLocation.tag with
    | none => rfl
    | some tag => simp [h.fromTag fromLocation tag hfrom htag]
  simp [checkRelDev, hto, hfrom, htag, h.notDuplicate]

theorem InScope.checkResponse_eq (h : ccb.InScope r) (hp : r.checkHeaders = some p)
    (hreplaces : r.replaces = false) : ccb.checkResponse b r = match ccb.checkRelDev r p with
      | (some result, readAsSip) => { result, ccb, readAsSip }
      | (none, readAsSip) => { ccb.matchResponse b r p with readAsSip } := by
  obtain ⟨-, hstatus, hcseq⟩ := of_checkHeaders hp
  have hack : (isChallenge p.statusCode && p.cseq.method == .ack) = false := by
    rw [← Bool.not_eq_true, Bool.and_eq_true, beq_iff_eq]
    exact h.noAckChallenge _ _ hcseq hstatus
  simp [checkResponse, hp, hack, hreplaces]

theorem InScope.checkResponse_of_wellFormed (h : ccb.InScope r) (hp : r.WellFormed p) :
    ∃ toLocation fromLocation, r.toLocation = some toLocation ∧ r.fromLocation = some fromLocation ∧
      ccb.checkResponse b r = { ccb.matchResponse b r p with
        readAsSip := [toLocation.schema, fromLocation.schema] } := by
  obtain ⟨toLocation, hto⟩ := Option.ne_none_iff_exists'.mp hp.toParses
  obtain ⟨fromLocation, hfrom⟩ := Option.ne_none_iff_exists'.mp hp.fromParses
  refine ⟨toLocation, fromLocation, hto, hfrom, ?_⟩
  rw [h.checkResponse_eq hp.headers hp.noReplaces, h.checkRelDev_eq hto hfrom]

/-- A response that is refused before it is compared with the requests. -/
structure Refused (ccb : DialogCcb) (c : Checked) : Prop where
  result : c.result ≠ messagingOk
  ccb_eq : c.ccb = ccb
  sent : c.sent = []

theorem InScope.refused_of_not_wellFormed (h : ccb.InScope r) (hp : ∀ p, ¬ r.WellFormed p) :
    ccb.Refused (ccb.checkResponse b r) := by
  have herror : messagingError ≠ messagingOk := by decide
  cases hheaders : r.checkHeaders with
  | none =>
    have heq : ccb.checkResponse b r = { result := messagingError, ccb } := by
      rw [checkResponse, hheaders]
    exact heq ▸ ⟨herror, rfl, rfl⟩
  | some p =>
    cases hreplaces : r.replaces with
    | true =>
      obtain ⟨-, hstatus, hcseq⟩ := of_checkHeaders hheaders
      have hack : ¬ (isChallenge p.statusCode = true ∧ p.cseq.method = .ack) := h.noAckChallenge _ _ hcseq hstatus
      have heq : ccb.checkResponse b r = { result := messagingError, ccb } := by
        simp [checkResponse, hheaders, hack, hreplaces]
      exact heq ▸ ⟨herror, rfl, rfl⟩
    | false =>
      rw [h.checkResponse_eq hheaders hreplaces, checkRelDev]
      cases hto : r.toLocation with
      | none => exact ⟨herror, rfl, rfl⟩
      | some toLocation =>
        cases hfrom : r.fromLocation with
        | none => exact ⟨herror, rfl, rfl⟩
        | some fromLocation =>
          exact absurd ⟨hheaders, hreplaces, by simp [hto], by simp [hfrom]⟩ (hp p)

/-- Only SIP URLs are read as such exactly when the To and From headers have SIP URLs. -/
theorem InScope.onlySip_iff (h : ccb.InScope r) : (∀ schema ∈ (ccb.checkResponse b r).readAsSip, schema = .sip) ↔
      ∀ p location, r.checkHeaders = some p → r.replaces = false → r.toLocation = some location →
        location.schema = .sip ∧ ∀ location', r.fromLocation = some location' → location'.schema = .sip := by
  cases hheaders : r.checkHeaders with
  | none => simp [checkResponse, hheaders]
  | some p =>
    cases hreplaces : r.replaces with
    | true =>
      have hempty : (ccb.checkResponse b r).readAsSip = [] := by
        unfold checkResponse
        rw [hheaders]
        simp only [hreplaces, if_true]
        split_ifs <;> rfl
      simp [hempty]
    | false =>
      cases hto : r.toLocation with
      | none =>
        have hempty : (ccb.checkResponse b r).readAsSip = [] := by
          rw [h.checkResponse_eq hheaders hreplaces, checkRelDev, hto]
        simp [hempty]
      | some toLocation =>
        cases hfrom : r.fromLocation with
        | none =>
          have hreads : (ccb.checkResponse b r).readAsSip = [toLocation.schema] := by
            rw [h.checkResponse_eq hheaders hreplaces, checkRelDev, hto, hfrom]
          simp [hreads]
        | some fromLocation =>
          have hreads : (ccb.checkResponse b r).readAsSip = [toLocation.schema, fromLocation.schema] := by
            rw [h.checkResponse_eq hheaders hreplaces, h.checkRelDev_eq hto hfrom]
          simp [hreads]

variable {k : Fin maxReqOutstanding}

theorem method_of_lookup {t : Table} {method : SipMethod}
    (hk : getMethodRequestTrxIndex t method = some k) : (t k).cseqMethod = method := by
  simpa using Pool.of_first hk

/-- A well-formed response answers a request exactly if it belongs to the call and the request is
outstanding. -/
theorem matches_iff (hp : r.WellFormed p) :
    ccb.Matches r ↔ ccb.sipCallID = p.callId ∧ ccb.Outstanding p.cseq.number p.cseq.method := by
  obtain ⟨hcallId, -, hcseq⟩ := of_checkHeaders hp.headers
  simp only [Matches, hcallId, hcseq, Option.some.injEq, exists_eq_left']
  rw [eq_comm]

theorem method_of_cancelled (hp : r.WellFormed p) (h : ccb.Cancelled r) :
    p.cseq.method = .invite ∧ getCodeClass p.statusCode = .class2xx := by
  obtain ⟨-, hstatus, hcseq⟩ := of_checkHeaders hp.headers
  obtain ⟨-, number, statusCode, hinvite, hcode, hclass, -⟩ := h
  rw [hcseq, Option.some.injEq] at hinvite
  rw [hstatus, Option.some.injEq] at hcode
  exact ⟨congrArg Cseq.method hinvite, hcode ▸ hclass⟩

theorem not_matches_of_none (hp : r.WellFormed p)
    (hk : getMethodRequestTrxIndex ccb.sentRequest p.cseq.method = none) : ¬ ccb.Matches r := by
  rw [matches_iff hp]
  rintro ⟨-, k, -, hmethod⟩
  have hnone := Pool.first_eq_none_iff.mp hk k
  simp [hmethod] at hnone

theorem matchResponse_of_match
    (hk : getMethodRequestTrxIndex ccb.sentRequest p.cseq.method = some k) (h : ¬ ccb.Mismatch p k) :
    ccb.matchResponse b r p = { result := messagingOk, ccb } := by
  obtain ⟨hnumber, hcallId⟩ := not_or.mp h
  rw [matchResponse, hk]
  exact if_neg (not_or.mpr ⟨hnumber, not_or.mpr ⟨not_not.mpr (method_of_lookup hk), hcallId⟩⟩)

theorem matchResponse_of_mismatch
    (hk : getMethodRequestTrxIndex ccb.sentRequest p.cseq.method = some k) (h : ccb.Mismatch p k) :
    ccb.matchResponse b r p = if p.cseq.method = .invite then ccb.staleInvite b r p
      else { result := messagingErrorStaleResp, ccb } := by
  rw [matchResponse, hk]
  exact if_pos (h.imp id Or.inr)

/-! ## What an ACK changes -/

/-- How many INVITEs are outstanding. -/
def inviteCount (ccb : DialogCcb) : ℕ :=
  (List.ofFn ccb.sentRequest).countP fun x => x.cseqMethod == .invite

theorem inviteCount_sendAck (hk : getMethodRequestTrxIndex ccb.sentRequest .invite = some k) :
    (ccb.sendFailureResponseAck b).2.inviteCount < ccb.inviteCount := by
  have hfound : (Pool.first fun k => (ccb.sentRequest k).cseqMethod == .invite) = some k := hk
  have hcount := Compact.countP_remove (p := fun x : Transaction => x.cseqMethod == .invite)
    (e := {}) rfl ccb.sentRequest (Pool.of_first hfound)
  have hremoved : (ccb.sendFailureResponseAck b).2.sentRequest = Compact.remove {} ccb.sentRequest k := by
    simp only [sendFailureResponseAck, Ccb.cleanMethodRequestTrx, if_true, cleanMethodRequestTrx,
      Compact.removeFirst, hfound]
  rw [inviteCount, hremoved, inviteCount]
  omega

theorem countP_clean_le (t : Table) (method : SipMethod) :
    (List.ofFn (Sip.cleanMethodRequestTrx t method)).countP (fun x => x.cseqMethod == .invite) ≤
      (List.ofFn t).countP fun x => x.cseqMethod == .invite :=
  Compact.countP_removeFirst_le rfl t

theorem countP_allocateTrx_le (ccb : Ccb) :
    (List.ofFn (ccb.allocateTrx .bye).2.sentRequest).countP (fun x => x.cseqMethod == .invite) ≤
      (List.ofFn ccb.sentRequest).countP fun x => x.cseqMethod == .invite := by
  rw [Ccb.allocateTrx, if_neg (by decide), if_pos (by decide)]
  split
  · exact le_rfl
  · exact Compact.countP_update_le rfl ccb.sentRequest _

theorem inviteCount_sendBye_le (ccb : DialogCcb) : (ccb.sendBye b).2.inviteCount ≤ ccb.inviteCount := by
  unfold sendBye
  split
  · exact countP_clean_le ccb.sentRequest .bye
  · rename_i uri _
    have hle := countP_allocateTrx_le (ccb.toCcb.setReqURI uri)
    dsimp only
    split_ifs
    · exact hle
    · exact (countP_clean_le _ .bye).trans hle

theorem not_sameDialog_of_lt {ccb' : DialogCcb} (h : ccb'.inviteCount < ccb.inviteCount) : ¬ ccb.SameDialog ccb' := by
  intro hsame
  rw [inviteCount, hsame.sentRequest] at h
  exact lt_irrefl _ h

theorem next_of_acked (hk : getMethodRequestTrxIndex ccb.sentRequest .invite = some k) :
    getNextRequestTrxIndex (ccb.sendFailureResponseAck b).2.sentRequest ≠ none := by
  have hfound : (Pool.first fun k => (ccb.sentRequest k).cseqMethod == .invite) = some k := hk
  have hremoved : (ccb.sendFailureResponseAck b).2.sentRequest = Compact.remove {} ccb.sentRequest k := by
    simp only [sendFailureResponseAck, Ccb.cleanMethodRequestTrx, if_true, cleanMethodRequestTrx,
      Compact.removeFirst, hfound]
  -- the last block is free now
  have hlast : Compact.remove {} ccb.sentRequest k ⟨2, by decide⟩ = {} := by
    rw [Compact.remove, if_neg (by rw [Fin.lt_def]; exact Nat.not_lt.mpr (Nat.le_of_lt_succ k.isLt)),
      dif_neg (by decide)]
  intro hnone
  have hused := Pool.first_eq_none_iff.mp (hremoved ▸ hnone) ⟨2, by decide⟩
  rw [hlast] at hused
  exact absurd hused (by decide)

theorem sendBye_sent (hnext : getNextRequestTrxIndex ccb.sentRequest ≠ none) :
    (ccb.sendBye b).1 = [.bye] ↔ b.byeUri ≠ none ∧ b.bye = true := by
  obtain ⟨k, hk⟩ := Option.ne_none_iff_exists'.mp hnext
  cases huri : b.byeUri with
  | none => simp [sendBye, huri]
  | some uri =>
    have hallocated : ((ccb.toCcb.setReqURI uri).allocateTrx .bye).1 = true := by
      simp [Ccb.setReqURI, Ccb.allocateTrx, hk]
    cases hbye : b.bye with
    | false => simp [sendBye, huri, hbye]
    | true => simp [sendBye, huri, hbye, hallocated]

/-! ## Responses that come too late -/

theorem sendBye_sent_or (ccb : DialogCcb) : (ccb.sendBye b).1 = [.bye] ∨ (ccb.sendBye b).1 = [] := by
  unfold sendBye
  split
  · exact Or.inr rfl
  · dsimp only
    split_ifs
    · exact Or.inl rfl
    · exact Or.inr rfl

theorem sent_answerCancelled (hk : getMethodRequestTrxIndex ccb.sentRequest .invite = some k) :
    (ccb.answerCancelled b r p).sent = [.ack, .bye] ↔ b.ack = true ∧ b.byeUri ≠ none ∧ b.bye = true := by
  have hnext : getNextRequestTrxIndex ((ccb.takeIdentity r p).sendFailureResponseAck b).2.sentRequest ≠
      none := next_of_acked hk
  have hsent : (ccb.answerCancelled b r p).sent = (if b.ack then [.ack] else []) ++
      (((ccb.takeIdentity r p).sendFailureResponseAck b).2.sendBye b).1 := rfl
  rw [← sendBye_sent hnext, hsent]
  rcases sendBye_sent_or (b := b) ((ccb.takeIdentity r p).sendFailureResponseAck b).2 with hbye | hbye
  · rw [hbye]
    cases b.ack <;> simp
  · rw [hbye]
    cases b.ack <;> simp

theorem inviteCount_answerCancelled (hk : getMethodRequestTrxIndex ccb.sentRequest .invite = some k) :
    (ccb.answerCancelled b r p).ccb.inviteCount < ccb.inviteCount := by
  have hacked : ((ccb.takeIdentity r p).sendFailureResponseAck b).2.inviteCount <
      (ccb.takeIdentity r p).inviteCount := inviteCount_sendAck hk
  exact (inviteCount_sendBye_le _).trans_lt hacked

theorem result_staleInvite : (ccb.staleInvite b r p).result ≠ messagingOk := by
  have herror : messagingError ≠ messagingOk := by decide
  have hstale : messagingErrorStaleResp ≠ messagingOk := by decide
  unfold staleInvite
  split
  · split_ifs
    · exact hstale
    · exact herror
  all_goals first | exact hstale | (split_ifs <;> exact hstale)

theorem staleHandled_iff (hp : r.WellFormed p) (hk : getMethodRequestTrxIndex ccb.sentRequest .invite = some k) :
    ((ccb.Cancelled r → (ccb.staleInvite b r p).sent = [.ack, .bye]) ∧
      (¬ ccb.Cancelled r → ccb.SameDialog (ccb.staleInvite b r p).ccb)) ↔
      ccb.StaleHandled b r p := by
  have hstale : ¬ ccb.SameDialog (ccb.answerStale b).ccb := not_sameDialog_of_lt (inviteCount_sendAck (b := b) hk)
  have hended : ¬ ccb.SameDialog (ccb.answerCancelled b r p).ccb :=
    not_sameDialog_of_lt (inviteCount_answerCancelled hk)
  have hsame : ccb.SameDialog ccb := ⟨rfl, rfl, rfl, rfl⟩
  have hsent := sent_answerCancelled (b := b) (r := r) (p := p) hk
  by_cases hcancelled : ccb.Cancelled r
  · have hclass := (method_of_cancelled hp hcancelled).2
    simp only [hcancelled, true_implies, not_true_eq_false, false_implies, and_true, StaleHandled,
      staleInvite, hclass, iff_true]
    split_ifs with hfound
    · simp only [hsent, hfound, true_and]
    · simp [hfound]
  · simp only [hcancelled, false_implies, not_false_eq_true, true_implies, true_and, StaleHandled,
      staleInvite, iff_false, and_true]
    cases hcode : getCodeClass p.statusCode with
    | class2xx =>
      cases hfound : ccb.cancelFound with
      | false => simp [hsame]
      | true => simp [hended]
    | class4xx | class5xx | class6xx =>
      cases hstray : ccb.isStray r with
      | false => simp [hstale]
      | true => simp [hsame]
    | invalid | class1xx | class3xx => simp [hstale]

/-! ## Main result -/

theorem matchedToOwn_iff_of_not_wellFormed (h : ccb.InScope r) (hp : ∀ p, ¬ r.WellFormed p) :
    ccb.MatchedToOwn b r ↔ ccb.Expects b r := by
  have hrefused := h.refused_of_not_wellFormed (b := b) hp
  constructor
  · intro hm
    have hmatches : ¬ ccb.Matches r := fun hmatch => hrefused.result (hm.ok_iff.mpr hmatch)
    have hcancelled : ¬ ccb.Cancelled r := fun hcancel => by
      have hsent := hm.cancelled hrefused.result hcancel
      rw [hrefused.sent] at hsent
      exact absurd hsent (by simp)
    exact {
      sip := h.onlySip_iff.mp hm.onlySip
      wellFormed := fun hor => hor.elim (absurd · hmatches) (absurd · hcancelled)
      first := fun _ _ hmatch => absurd hmatch hmatches
      invite := fun hcancel => absurd hcancel hcancelled
      stale := fun p _ hwf => absurd hwf (hp p) }
  · intro he
    have hneither : ¬ (ccb.Matches r ∨ ccb.Cancelled r) := fun hor =>
      (he.wellFormed hor).elim hp
    obtain ⟨hmatches, hcancelled⟩ := not_or.mp hneither
    exact {
      ok_iff := ⟨fun hok => absurd hok hrefused.result, fun hmatch => absurd hmatch hmatches⟩
      cancelled := fun _ hcancel => absurd hcancel hcancelled
      unchanged := fun _ _ => by
        rw [hrefused.ccb_eq]
        exact ⟨rfl, rfl, rfl, rfl⟩
      onlySip := h.onlySip_iff.mpr he.sip }

theorem result_of_mismatch
    (hk : getMethodRequestTrxIndex ccb.sentRequest p.cseq.method = some k) (h : ccb.Mismatch p k) :
    (ccb.matchResponse b r p).result ≠ messagingOk := by
  rw [matchResponse_of_mismatch hk h]
  split_ifs
  · exact result_staleInvite
  · show messagingErrorStaleResp ≠ messagingOk
    decide

theorem matchResponse_of_none (hk : getMethodRequestTrxIndex ccb.sentRequest p.cseq.method = none) :
    ccb.matchResponse b r p = { result := messagingErrorNoTrx, ccb } := by
  rw [matchResponse, hk]

theorem matches_of_ok (hp : r.WellFormed p) (hok : (ccb.matchResponse b r p).result = messagingOk) : ccb.Matches r := by
  cases hk : getMethodRequestTrxIndex ccb.sentRequest p.cseq.method with
  | none =>
    rw [matchResponse_of_none hk] at hok
    exact absurd hok (show messagingErrorNoTrx ≠ messagingOk by decide)
  | some k =>
    obtain ⟨hnumber, hcallId⟩ := not_or.mp fun h => result_of_mismatch (b := b) (r := r) hk h hok
    exact (matches_iff hp).mpr ⟨not_not.mp hcallId, k, not_not.mp hnumber, method_of_lookup hk⟩

/-- A well-formed response that is matched to its own request meets its condition. -/
theorem expects_of_matchedToOwn (h : ccb.InScope r) (hp : r.WellFormed p) (hm : ccb.MatchedToOwn b r) :
    ccb.Expects b r := by
  obtain ⟨_, _, -, -, heq⟩ := h.checkResponse_of_wellFormed (b := b) hp
  obtain ⟨-, -, hcseq⟩ := of_checkHeaders hp.headers
  have hresult : (ccb.checkResponse b r).result = (ccb.matchResponse b r p).result := by rw [heq]
  have hsent : (ccb.checkResponse b r).sent = (ccb.matchResponse b r p).sent := by rw [heq]
  have hccb : (ccb.checkResponse b r).ccb = (ccb.matchResponse b r p).ccb := by rw [heq]
  refine ⟨h.onlySip_iff.mp hm.onlySip, fun _ => ⟨p, hp⟩, ?_, ?_, ?_⟩
  · intro cseq k hmatch hcseq' hk
    obtain rfl := Option.some.inj (hcseq.symm.trans hcseq')
    by_contra hnumber
    exact result_of_mismatch hk (Or.inl hnumber) (hresult ▸ hm.ok_iff.mpr hmatch)
  · intro hcancelled hnone
    have hinvite := (method_of_cancelled hp hcancelled).1
    have hmatch := matchResponse_of_none (b := b) (r := r) (hinvite.symm ▸ hnone)
    have hne : (ccb.checkResponse b r).result ≠ messagingOk := by
      rw [hresult, hmatch]
      exact show messagingErrorNoTrx ≠ messagingOk by decide
    have hboth := hm.cancelled hne hcancelled
    rw [hsent, hmatch] at hboth
    exact absurd hboth (by simp)
  · intro p' k hp' hinvite hk hmismatch
    obtain rfl := Option.some.inj (hp.headers.symm.trans hp'.headers)
    have hmatch := matchResponse_of_mismatch (b := b) (r := r) (hinvite.symm ▸ hk) hmismatch
    rw [if_pos hinvite] at hmatch
    have hne : (ccb.checkResponse b r).result ≠ messagingOk := by
      rw [hresult, hmatch]
      exact result_staleInvite
    refine (staleHandled_iff hp hk).mp ⟨fun hc => ?_, fun hc => ?_⟩
    · rw [← hmatch, ← hsent]
      exact hm.cancelled hne hc
    · rw [← hmatch, ← hccb]
      exact hm.unchanged hne hc

/-- A well-formed response that meets its condition is matched to its own request. -/
theorem matchedToOwn_of_expects (h : ccb.InScope r) (hp : r.WellFormed p) (he : ccb.Expects b r) :
    ccb.MatchedToOwn b r := by
  obtain ⟨_, _, -, -, heq⟩ := h.checkResponse_of_wellFormed (b := b) hp
  obtain ⟨-, -, hcseq⟩ := of_checkHeaders hp.headers
  have hresult : (ccb.checkResponse b r).result = (ccb.matchResponse b r p).result := by rw [heq]
  have hsent : (ccb.checkResponse b r).sent = (ccb.matchResponse b r p).sent := by rw [heq]
  have hccb : (ccb.checkResponse b r).ccb = (ccb.matchResponse b r p).ccb := by rw [heq]
  have hsame : ccb.SameDialog ccb := ⟨rfl, rfl, rfl, rfl⟩
  -- a response that is not accepted is a mismatch with the request that is found
  have hmismatch : ∀ k, (ccb.checkResponse b r).result ≠ messagingOk →
      getMethodRequestTrxIndex ccb.sentRequest p.cseq.method = some k → ccb.Mismatch p k := by
    intro k hne hk
    by_contra hno
    exact hne (hresult.trans (by rw [matchResponse_of_match hk hno]))
  refine ⟨⟨fun hok => matches_of_ok hp (hresult ▸ hok), fun hmatch => ?_⟩, ?_, ?_,
    h.onlySip_iff.mpr he.sip⟩
  · cases hk : getMethodRequestTrxIndex ccb.sentRequest p.cseq.method with
    | none => exact absurd hmatch (not_matches_of_none hp hk)
    | some k =>
      by_contra hne
      rcases hmismatch k hne hk with hnumber | hcallId
      · exact hnumber (he.first _ k hmatch hcseq hk)
      · exact hcallId ((matches_iff hp).mp hmatch).1
  · intro hne hcancelled
    have hinvite := (method_of_cancelled hp hcancelled).1
    obtain ⟨k, hk⟩ := Option.ne_none_iff_exists'.mp (he.invite hcancelled)
    have hmis := hmismatch k hne (hinvite.symm ▸ hk)
    have hmatch := matchResponse_of_mismatch (b := b) (r := r) (hinvite.symm ▸ hk) hmis
    rw [hsent, hmatch, if_pos hinvite]
    exact ((staleHandled_iff hp hk).mpr (he.stale p k hp hinvite hk hmis)).1 hcancelled
  · intro hne hcancelled
    rw [hccb]
    cases hk : getMethodRequestTrxIndex ccb.sentRequest p.cseq.method with
    | none =>
      rw [matchResponse_of_none hk]
      exact hsame
    | some k =>
      have hmis := hmismatch k hne hk
      rw [matchResponse_of_mismatch hk hmis]
      split_ifs with hinvite
      · have hk' : getMethodRequestTrxIndex ccb.sentRequest .invite = some k := hinvite ▸ hk
        exact ((staleHandled_iff hp hk').mpr (he.stale p k hp hinvite hk' hmis)).2 hcancelled
      · exact hsame

end DialogCcb

open DialogCcb

/-- **Responses are matched to their own request** exactly when they meet their condition. -/
theorem matchedToOwn_iff (b : Building) {ccb : DialogCcb} {r : Response} (h : ccb.InScope r) :
    ccb.MatchedToOwn b r ↔ ccb.Expects b r := by
  by_cases hp : ∃ p, r.WellFormed p
  · obtain ⟨p, hp⟩ := hp
    exact ⟨expects_of_matchedToOwn h hp, matchedToOwn_of_expects h hp⟩
  · exact matchedToOwn_iff_of_not_wellFormed h fun p hwf => hp ⟨p, hwf⟩

/-- A call with two requests outstanding. -/
def callWith (x y : Transaction) : DialogCcb where
  sentRequest := fun k => [x, y].getD k.val {}
  sipCallID := "1@a"

/-- A response within the call, with the schema of the URL in its To header. -/
def responseTo (cseq : CStr) (statusCode : UInt16) (schema : UrlSchema) : Response where
  fromHeader := some "<sip:1000@a>;tag=1"
  toHeader := some "<sip:2000@b>;tag=2"
  callId := some "1@a"
  cseq := some cseq
  statusCode := some statusCode
  toLocation := some { schema }
  fromLocation := some {}

theorem inScope_responseTo {x y : Transaction} {text : CStr} {statusCode : UInt16} {schema : UrlSchema}
    (h : isChallenge statusCode = false) : (callWith x y).InScope (responseTo text statusCode schema) where
  complete := rfl
  notDuplicate := rfl
  noAckChallenge := fun _ _ _ hcode hack => by
    obtain rfl := Option.some.inj hcode
    rw [h] at hack
    exact absurd hack.1 (by decide)
  fromTag := fun _ _ hloc htag => by
    obtain rfl := Option.some.inj hloc
    cases htag
  content := rfl

/-- With an INVITE and an INFO outstanding, an INFO is answered. -/
theorem matchedToOwn_info :
    (callWith { cseqNumber := 101, cseqMethod := .invite }
      { cseqNumber := 102, cseqMethod := .info }).MatchedToOwn {} (responseTo "102 INFO" 200 .sip) := by
  have hcseq : (responseTo "102 INFO" 200 .sip).parsedCseq = some ⟨102, .info⟩ := by decide +kernel
  have hnot : ¬ (callWith { cseqNumber := 101, cseqMethod := .invite }
      { cseqNumber := 102, cseqMethod := .info }).Cancelled (responseTo "102 INFO" 200 .sip) := by
    rintro ⟨-, number, _, hinvite, -⟩
    cases hcseq.symm.trans hinvite
  refine (matchedToOwn_iff {} (inScope_responseTo (by decide))).mpr ⟨?_, ?_, ?_, ?_, ?_⟩
  · rintro p location - - hto
    cases hto
    exact ⟨rfl, fun _ hfrom => by cases hfrom; rfl⟩
  · intro _
    obtain ⟨p, hp⟩ := Option.isSome_iff_exists.mp
      (show (responseTo "102 INFO" 200 .sip).checkHeaders.isSome by decide +kernel)
    exact ⟨p, hp, rfl, nofun, nofun⟩
  · intro cseq k _ hcseq' hk
    obtain rfl := Option.some.inj (hcseq.symm.trans hcseq')
    obtain rfl := Option.some.inj ((show getMethodRequestTrxIndex _ _ = some ⟨1, by decide⟩ by
      decide +kernel).symm.trans hk)
    rfl
  · exact fun hcancelled => absurd hcancelled hnot
  · intro p k hp hinvite
    rw [← Option.some.inj ((of_checkHeaders hp.headers).2.2.symm.trans hcseq).symm] at hinvite
    cases hinvite

/-- With two INFOs outstanding, the response to the second one is not accepted. With a CANCEL in the first
block, a response that accepts the INVITE that is being cancelled is ignored. A provisional response to an
earlier INVITE takes the outstanding one away. And a `tel` URL is read as a SIP URL. -/
theorem not_matchedToOwn :
    ((callWith { cseqNumber := 101, cseqMethod := .info }
        { cseqNumber := 102, cseqMethod := .info }).InScope (responseTo "102 INFO" 200 .sip) ∧
      ¬ (callWith { cseqNumber := 101, cseqMethod := .info }
        { cseqNumber := 102, cseqMethod := .info }).MatchedToOwn {} (responseTo "102 INFO" 200 .sip)) ∧
    ((callWith { cseqNumber := 101, cseqMethod := .cancel }
        { cseqNumber := 102, cseqMethod := .invite }).InScope (responseTo "101 INVITE" 200 .sip) ∧
      ¬ (callWith { cseqNumber := 101, cseqMethod := .cancel }
        { cseqNumber := 102, cseqMethod := .invite }).MatchedToOwn {} (responseTo "101 INVITE" 200 .sip)) ∧
    ((callWith { cseqNumber := 102, cseqMethod := .invite } {}).InScope
        (responseTo "101 INVITE" 180 .sip) ∧
      ¬ (callWith { cseqNumber := 102, cseqMethod := .invite } {}).MatchedToOwn {}
        (responseTo "101 INVITE" 180 .sip)) ∧
    (callWith { cseqNumber := 101, cseqMethod := .info } {}).InScope (responseTo "101 INFO" 200 .tel) ∧
    ¬ (callWith { cseqNumber := 101, cseqMethod := .info } {}).MatchedToOwn {}
      (responseTo "101 INFO" 200 .tel) := by
  refine ⟨⟨inScope_responseTo (by decide), fun h => ?_⟩, ⟨inScope_responseTo (by decide), fun h => ?_⟩,
    ⟨inScope_responseTo (by decide), fun h => ?_⟩, inScope_responseTo (by decide), fun h => ?_⟩
  · have hok := h.ok_iff.mpr ⟨rfl, ⟨102, .info⟩, by decide +kernel, ⟨1, by decide⟩, rfl, rfl⟩
    exact absurd hok (by decide +kernel)
  · have hsent := h.cancelled (by decide +kernel)
      ⟨rfl, 101, 200, by decide +kernel, rfl, by decide, ⟨0, by decide⟩, rfl, rfl⟩
    exact absurd hsent (by decide +kernel)
  · have hnot : ¬ (callWith { cseqNumber := 102, cseqMethod := .invite } {}).Cancelled
        (responseTo "101 INVITE" 180 .sip) := by
      rintro ⟨-, _, code, -, hcode, hclass, -⟩
      obtain rfl := Option.some.inj hcode
      exact absurd hclass (by decide)
    have hsame := (h.unchanged (by decide +kernel) hnot).sentRequest
    exact absurd (congrFun hsame ⟨0, by decide⟩) (by decide +kernel)
  · exact absurd (h.onlySip .tel (by decide +kernel)) (by decide)

end Sip
