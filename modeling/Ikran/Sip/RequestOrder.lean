import Ikran.Sip.TransactionTables

/-!
# The order of received requests

A request within a dialog passes two functions. `sipSPICheckRequest` compares its CSeq number with that
of the last request that was stored, `sip_sm_request_check_and_store` compares it with that of the last
INVITE, and stores it. An ACK or a CANCEL has the number of its INVITE, and takes the place of the last
request when it is stored: behind it, requests with the numbers between are accepted again. Both
functions write to the call control block before they have seen everything that can make them refuse.
-/

namespace Sip

open CStr

/-! ## The basic checks of a request -/

/-- `SIP_MESSAGING_OK`. -/
def messagingOk : ℤ := 0

/-- `SIP_MESSAGING_ERROR`. -/
def messagingError : ℤ := 1

/-- `SIP_MESSAGING_DUPLICATE`. -/
def messagingDuplicate : ℤ := 2

/-- `SIP_MESSAGING_NEW_CALLID`. -/
def messagingNewCallid : ℤ := 3

/-- `SIP_MESSAGING_ENDPOINT_NOT_FOUND`. -/
def messagingEndpointNotFound : ℤ := 8

/-- `SIP_CLI_ERR_BAD_REQ`. -/
def cliErrBadReq : ℤ := 400

/-- `SIP_CLI_ERR_FORBIDDEN`. -/
def cliErrForbidden : ℤ := 403

/-- `SIP_CLI_ERR_CALLEG`. -/
def cliErrCalleg : ℤ := 481

def maxSipUrlLength : ℕ := 512

/-- What `sipCheckRequestURI` finds in the request line. -/
inductive RequestLine
  | missing
  | malformed
  | other
  | sip (user : CStr) (hostKnown portMatches : Bool)

/-- What the reliable delivery finds out about a request. -/
inductive RelDevCheck
  | toMissing
  | toForbidden
  /-- A stored tag differs from the one of the request. Only an INVITE, an ACK and a BYE are asked. -/
  | tagMismatch
  | duplicate
  | recorded

/-- A received request, as far as both functions look at it. -/
structure IncomingRequest extends Request where
  /-- `sippmh_is_message_complete`. -/
  complete : Bool := true
  line : RequestLine := .other
  lineMethod : SipMethod := .unknown
  headersGood : Bool := true
  /-- What `sipSPICheckContact` returns for the Contact header, if there is one. -/
  contactResult : ℤ := 0
  /-- What `sipSPICheckContentHeaders` returns. -/
  contentResult : ℤ := messagingOk
  /-- The request line has `MAX_SIP_URL_LENGTH` characters or more. -/
  lineTooLong : Bool := false
  replaces : ℕ := 0
  relDev : RelDevCheck := .recorded

/-- `sipCheckRequestURI`: the result, and the block with the user of the request line. -/
def Ccb.checkRequestURI (ccb : Ccb) : RequestLine → ℤ × Ccb
  | .missing => (messagingError, ccb)
  | .malformed => (messagingEndpointNotFound, ccb)
  | .other => (messagingOk, ccb)
  | .sip user hostKnown portMatches =>
    if !hostKnown || !portMatches || user == [] then (messagingEndpointNotFound, ccb)
    else (messagingOk, { ccb with reqURI := user.take (maxSipUrlLength - 1) })

/-- The method has numbers of its own: an ACK and a CANCEL have the number of their INVITE. -/
def SipMethod.Ordered (m : SipMethod) : Prop := m ≠ .ack ∧ m ≠ .cancel

instance (m : SipMethod) : Decidable m.Ordered := inferInstanceAs (Decidable (_ ∧ _))

/-- The number and the method continue what was received last. -/
def Ccb.continues (ccb : Ccb) (cseq : Cseq) : Bool :=
  !decide cseq.method.Ordered ||
    (ccb.lastRecvRequestCseq ≤ cseq.number &&
      (cseq.number != ccb.lastRecvRequestCseq || cseq.method == ccb.lastRecvRequestCseqMethod))

/-- The number of Replaces headers that a method allows. -/
def replacesAllowed (m : SipMethod) (replaces : ℕ) : Bool :=
  if m = .invite then replaces ≤ 1 else replaces == 0

/-- The checks of `sipSPICheckRequest` behind the CSeq header. -/
def IncomingRequest.checkRest (r : IncomingRequest) (cseq : Cseq) : ℤ :=
  if r.lineTooLong then messagingError
  else if r.lineMethod ≠ cseq.method then messagingError
  else if !replacesAllowed cseq.method r.replaces then messagingError
  else
    match r.relDev with
    | .toMissing => messagingError
    | .toForbidden => cliErrForbidden
    | .tagMismatch =>
      if cseq.method = .invite ∨ cseq.method = .ack ∨ cseq.method = .bye then cliErrCalleg else messagingOk
    | .duplicate => messagingDuplicate
    | .recorded => messagingOk

/-- The result for a request that passes all checks: it belongs to this call or to another. -/
def Ccb.callIdResult (ccb : Ccb) (r : IncomingRequest) : ℤ :=
  if ccb.sipCallID ≠ [] ∧ r.callId ≠ some ccb.sipCallID then messagingNewCallid else messagingOk

/-- `sipSPICheckRequest`: the result, and the block after it. -/
def Ccb.checkRequest (ccb : Ccb) (r : IncomingRequest) : ℤ × Ccb :=
  if !r.complete then (messagingError, ccb)
  else
    let (uri, ccb) := ccb.checkRequestURI r.line
    if uri ≠ messagingOk then (uri, ccb)
    else if !r.headersGood then (messagingError, ccb)
    else if r.contactResult < 0 then (r.contactResult, ccb)
    else if r.contentResult ≠ messagingOk then (r.contentResult, ccb)
    else
      match r.parsedCseq with
      | none => (messagingError, ccb)
      | some cseq =>
        if !ccb.continues cseq then (cliErrBadReq, ccb)
        else if r.checkRest cseq ≠ messagingOk then (r.checkRest cseq, ccb)
        else (ccb.callIdResult r, ccb)

/-! ## A dialog -/

/-- A call control block, and the requests that were accepted, the last one first. -/
structure Dialog where
  ccb : Ccb
  accepted : List Cseq := []

/-- Both functions on a received request: whether it is accepted, and the block after it. The request
is handled by the method of its request line. -/
def Ccb.receive (ccb : Ccb) (r : IncomingRequest) : Bool × Ccb :=
  let (result, ccb) := ccb.checkRequest r
  if result = messagingOk then
    let (error, ccb) := ccb.checkAndStore r.toRequest r.lineMethod true
    (error.isNone, ccb)
  else (false, ccb)

def Dialog.step (d : Dialog) (r : IncomingRequest) : Dialog :=
  { ccb := (d.ccb.receive r).2
    accepted := if (d.ccb.receive r).1 then r.parsedCseq.toList ++ d.accepted else d.accepted }

/-- The last of the accepted requests with numbers of their own. -/
def lastOrdered (accepted : List Cseq) : Option Cseq := accepted.find? fun c => decide c.method.Ordered

def lastInvite (accepted : List Cseq) : Option Cseq := accepted.find? fun c => c.method == .invite

/-- What a refused request leaves unchanged. -/
structure Ccb.SameRecord (ccb ccb' : Ccb) : Prop where
  lastRecvInviteCseq : ccb'.lastRecvInviteCseq = ccb.lastRecvInviteCseq
  lastRecvRequestCseq : ccb'.lastRecvRequestCseq = ccb.lastRecvRequestCseq
  lastRecvRequestCseqMethod : ccb'.lastRecvRequestCseqMethod = ccb.lastRecvRequestCseqMethod
  lastRequest : ccb'.lastRequest = ccb.lastRequest
  recvRequest : ccb'.recvRequest = ccb.recvRequest
  reqURI : ccb'.reqURI = ccb.reqURI

/-- A request is handled in order: if it is accepted, it has a greater number than all before it, or it
is an ACK or a CANCEL with the number of the last INVITE; if it is refused, nothing is remembered of it.
-/
structure Dialog.Orderly (d : Dialog) (r : IncomingRequest) : Prop where
  increasing : (d.ccb.receive r).1 = true → ∀ cseq, r.parsedCseq = some cseq → cseq.method.Ordered →
    ∀ c ∈ d.accepted, c.method.Ordered → c.number < cseq.number
  ofInvite : (d.ccb.receive r).1 = true → ∀ cseq, r.parsedCseq = some cseq → ¬ cseq.method.Ordered →
    (lastInvite d.accepted).map Cseq.number = some cseq.number
  refused : (d.ccb.receive r).1 = false → d.ccb.SameRecord (d.ccb.receive r).2

/-- What happens to a dialog: a request is received, or the block of a request is released by the
handling of another event. -/
inductive Event
  | request (r : IncomingRequest)
  | release (method : SipMethod) (sent : Bool)

/-- The block of a request is released. -/
def Dialog.release (d : Dialog) (method : SipMethod) (sent : Bool) : Dialog :=
  { d with ccb := d.ccb.cleanMethodRequestTrx method sent }

/-- All requests of a run are handled in order. -/
def Dialog.OrderlyThroughout : Dialog → List Event → Prop
  | _, [] => True
  | d, .request r :: es => d.Orderly r ∧ OrderlyThroughout (d.step r) es
  | d, .release method sent :: es => OrderlyThroughout (d.release method sent) es

/-- The request passes all checks of both functions. -/
structure Ccb.Passes (ccb : Ccb) (r : IncomingRequest) (cseq : Cseq) : Prop where
  complete : r.complete = true
  line : (ccb.checkRequestURI r.line).1 = messagingOk
  headersGood : r.headersGood = true
  contact : 0 ≤ r.contactResult
  content : r.contentResult = messagingOk
  continues : ccb.continues cseq = true
  rest : r.checkRest cseq = messagingOk
  callId : ccb.callIdResult r = messagingOk
  admits : ccb.Admits r.toRequest cseq r.lineMethod true

/-- A free block is found. -/
def Ccb.FindsBlock (ccb : Ccb) : Prop := getNextRequestTrxIndex ccb.recvRequest ≠ none

/-- The condition of a request.

- An ACK or a CANCEL that passes comes while the last accepted request with a number of its own is an
  INVITE.
- A request that passes and has the number of the last stored request does not have its method, too: it
  has been recognised as a duplicate.
- An INVITE that passes and has a new number finds a free block.
- A request that does not pass, or finds no block, names the user that is recorded already. -/
structure Dialog.Meets (d : Dialog) (r : IncomingRequest) : Prop where
  ofInvite : ∀ cseq, d.ccb.Passes r cseq → d.ccb.FindsBlock → ¬ cseq.method.Ordered →
    ∃ c, lastOrdered d.accepted = some c ∧ c.method = .invite
  repeated : ∀ cseq, d.ccb.Passes r cseq → d.ccb.FindsBlock → cseq.method.Ordered →
    cseq.number = d.ccb.lastRecvRequestCseq → cseq.method ≠ d.ccb.lastRecvRequestCseqMethod
  block : ∀ cseq, d.ccb.Passes r cseq → cseq.method = .invite →
    cseq.number ≠ d.ccb.lastRecvInviteCseq → d.ccb.FindsBlock
  user : (∀ cseq, d.ccb.Passes r cseq → ¬ d.ccb.FindsBlock) → r.complete = true →
    ∀ user, r.line = .sip user true true → user ≠ [] →
      user.take (maxSipUrlLength - 1) = d.ccb.reqURI

/-- All requests of a run meet their condition. -/
def Dialog.MeetsThroughout : Dialog → List Event → Prop
  | _, [] => True
  | d, .request r :: es => d.Meets r ∧ MeetsThroughout (d.step r) es
  | d, .release method sent :: es => MeetsThroughout (d.release method sent) es

/-! ## What becomes of a request -/

/-- The block with the user of the request line, if that is accepted. -/
def Ccb.named (ccb : Ccb) (r : IncomingRequest) : Ccb := (ccb.checkRequestURI r.line).2

theorem named_eq (ccb : Ccb) (r : IncomingRequest) : ccb.named r = { ccb with reqURI := (ccb.named r).reqURI } := by
  unfold Ccb.named Ccb.checkRequestURI
  split
  · rfl
  · rfl
  · rfl
  · split_ifs <;> rfl

variable {r : IncomingRequest} {ccb : Ccb}

theorem reqURI_named (h : ∀ user, r.line = .sip user true true → user ≠ [] →
      user.take (maxSipUrlLength - 1) = ccb.reqURI) : (ccb.named r).reqURI = ccb.reqURI := by
  cases hline : r.line with
  | missing => rw [Ccb.named, hline]; rfl
  | malformed => rw [Ccb.named, hline]; rfl
  | other => rw [Ccb.named, hline]; rfl
  | sip user hostKnown portMatches =>
    rw [Ccb.named, hline, Ccb.checkRequestURI]
    split_ifs with hbad
    · rfl
    · simp only [Bool.or_eq_true, Bool.not_eq_true', beq_iff_eq, not_or, Bool.not_eq_false] at hbad
      obtain ⟨⟨rfl, rfl⟩, hne⟩ := hbad
      exact h user hline hne

theorem continues_named (ccb : Ccb) (r : IncomingRequest) (cseq : Cseq) :
    (ccb.named r).continues cseq = ccb.continues cseq := by
  rw [named_eq]
  rfl

theorem callIdResult_named (ccb : Ccb) (r : IncomingRequest) : (ccb.named r).callIdResult r = ccb.callIdResult r := by
  rw [named_eq]
  rfl

/-- What the method checks do besides failing: an INVITE is remembered. -/
def Ccb.remember (ccb : Ccb) (cseq : Cseq) (method : SipMethod) : Ccb :=
  if method = .invite then { ccb with lastRecvInviteCseq := cseq.number } else ccb

variable {cseq : Cseq} {method : SipMethod}

theorem eq_remember_of_checkMethod {ccb' : Ccb} {request : Request} {midcall : Bool}
    (h : ccb.checkMethod request cseq method midcall = .ok ccb') : ccb' = ccb.remember cseq method := by
  unfold Ccb.checkMethod at h
  split at h
  · split_ifs at h
    exact (Except.ok.inj h).symm
  · split_ifs at h
    exact (Except.ok.inj h).symm
  · split_ifs at h
    exact (Except.ok.inj h).symm
  · split_ifs at h
    exact (Except.ok.inj h).symm
  · rename_i hinvite _ _ _
    rw [Ccb.remember, if_neg hinvite]
    exact (Except.ok.inj h).symm

theorem checkMethod_reqURI (ccb : Ccb) (u : CStr) (request : Request) (cseq : Cseq) (method : SipMethod)
    (midcall : Bool) :
    ({ ccb with reqURI := u } : Ccb).checkMethod request cseq method midcall =
      (ccb.checkMethod request cseq method midcall).map fun c => { c with reqURI := u } := by
  unfold Ccb.checkMethod
  split
  · dsimp only
    split_ifs <;> rfl
  · dsimp only
    split_ifs <;> rfl
  · dsimp only
    split_ifs <;> rfl
  · dsimp only
    split_ifs <;> rfl
  · rfl

theorem admits_named {request : Request} {midcall : Bool} :
    (ccb.named r).Admits request cseq method midcall ↔ ccb.Admits request cseq method midcall := by
  rw [named_eq, Ccb.Admits, Ccb.Admits, checkMethod_reqURI]
  cases ccb.checkMethod request cseq method midcall with
  | error e => exact Iff.rfl
  | ok c => simp [Except.map]

/-- The checks of `sipSPICheckRequest`, one by one. -/
structure Ccb.PassesFirst (ccb : Ccb) (r : IncomingRequest) (cseq : Cseq) : Prop where
  complete : r.complete = true
  line : (ccb.checkRequestURI r.line).1 = messagingOk
  headersGood : r.headersGood = true
  contact : 0 ≤ r.contactResult
  content : r.contentResult = messagingOk
  parsed : r.parsedCseq = some cseq
  continues : ccb.continues cseq = true
  rest : r.checkRest cseq = messagingOk
  callId : ccb.callIdResult r = messagingOk

/-- `sipSPICheckRequest` returns `SIP_MESSAGING_OK` to the requests that pass its checks. A request that
it refuses may have named its user. -/
theorem checkRequest_cases (ccb : Ccb) (r : IncomingRequest) :
    (∃ cseq, ccb.PassesFirst r cseq ∧ ccb.checkRequest r = (messagingOk, ccb.named r)) ∨
    ((∀ cseq, ¬ ccb.PassesFirst r cseq) ∧ (ccb.checkRequest r).1 ≠ messagingOk ∧
      ((ccb.checkRequest r).2 = ccb ∨ r.complete = true ∧ (ccb.checkRequest r).2 = ccb.named r)) := by
  unfold Ccb.checkRequest
  by_cases hcomplete : r.complete = true
  swap
  · rw [if_pos (by simpa using hcomplete)]
    exact .inr ⟨fun cseq h => hcomplete h.complete, show messagingError ≠ messagingOk by decide, .inl rfl⟩
  rw [if_neg (by simpa using hcomplete)]
  have hsplit : ccb.checkRequestURI r.line = ((ccb.checkRequestURI r.line).1, ccb.named r) := rfl
  rw [hsplit]
  dsimp only
  by_cases hline : (ccb.checkRequestURI r.line).1 = messagingOk
  swap
  · rw [if_pos hline]
    exact .inr ⟨fun cseq h => hline h.line, hline, .inr ⟨hcomplete, rfl⟩⟩
  rw [if_neg (not_not.mpr hline)]
  by_cases hgood : r.headersGood = true
  swap
  · rw [if_pos (by simpa using hgood)]
    exact .inr ⟨fun cseq h => hgood h.headersGood, show messagingError ≠ messagingOk by decide, .inr ⟨hcomplete, rfl⟩⟩
  rw [if_neg (by simpa using hgood)]
  by_cases hcontact : r.contactResult < 0
  · rw [if_pos hcontact]
    have hne : r.contactResult ≠ messagingOk := ne_of_lt hcontact
    exact .inr ⟨fun cseq h => absurd hcontact (not_lt.mpr h.contact), hne, .inr ⟨hcomplete, rfl⟩⟩
  rw [if_neg hcontact]
  by_cases hcontent : r.contentResult = messagingOk
  swap
  · rw [if_pos hcontent]
    exact .inr ⟨fun cseq h => hcontent h.content, hcontent, .inr ⟨hcomplete, rfl⟩⟩
  rw [if_neg (not_not.mpr hcontent)]
  cases hcseq : r.parsedCseq with
  | none =>
    refine .inr ⟨fun cseq h => ?_, show messagingError ≠ messagingOk by decide, .inr ⟨hcomplete, rfl⟩⟩
    rw [h.parsed] at hcseq
    cases hcseq
  | some cseq =>
    have hsame : ∀ cseq', ccb.PassesFirst r cseq' → cseq' = cseq := fun cseq' h =>
      Option.some.inj (h.parsed.symm.trans hcseq)
    dsimp only
    rw [continues_named, callIdResult_named]
    by_cases hcontinues : ccb.continues cseq = true
    swap
    · rw [if_pos (by simpa using hcontinues)]
      refine .inr ⟨fun cseq' h => hcontinues ?_, show cliErrBadReq ≠ messagingOk by decide, .inr ⟨hcomplete, rfl⟩⟩
      exact hsame cseq' h ▸ h.continues
    rw [if_neg (by simpa using hcontinues)]
    by_cases hrest : r.checkRest cseq = messagingOk
    swap
    · rw [if_pos hrest]
      exact .inr ⟨fun cseq' h => hrest (hsame cseq' h ▸ h.rest), hrest, .inr ⟨hcomplete, rfl⟩⟩
    rw [if_neg (not_not.mpr hrest)]
    by_cases hcall : ccb.callIdResult r = messagingOk
    · exact .inl ⟨cseq, ⟨hcomplete, hline, hgood, not_lt.mp hcontact, hcontent, hcseq, hcontinues, hrest,
        hcall⟩, by rw [hcall]⟩
    · exact .inr ⟨fun cseq' h => hcall h.callId, hcall, .inr ⟨hcomplete, rfl⟩⟩

inductive ReceiveOutcome (ccb : Ccb) (r : IncomingRequest) : Prop
  | accepted (cseq : Cseq) (k : Fin maxReqOutstanding) (hpass : ccb.Passes r cseq)
      (hblock : getNextRequestTrxIndex ccb.recvRequest = some k)
      (hrun : ccb.receive r =
        (true, ((ccb.named r).remember cseq r.lineMethod).storeRequest r.toRequest cseq k))
  | full (cseq : Cseq) (hpass : ccb.Passes r cseq)
      (hblock : getNextRequestTrxIndex ccb.recvRequest = none)
      (hrun : ccb.receive r = (false, (ccb.named r).remember cseq r.lineMethod))
  | refused (hno : ∀ cseq, ¬ ccb.Passes r cseq)
      (hrun : ccb.receive r = (false, ccb) ∨ r.complete = true ∧ ccb.receive r = (false, ccb.named r))

/-- A request is refused by one of the two functions, or it is stored. -/
theorem receive_outcome (ccb : Ccb) (r : IncomingRequest) : ReceiveOutcome ccb r := by
  rcases checkRequest_cases ccb r with ⟨cseq, hfirst, hrun⟩ | ⟨hno, hne, hstate⟩
  swap
  · refine .refused (fun cseq h => hno cseq ?_) ?_
    · exact ⟨h.complete, h.line, h.headersGood, h.contact, h.content, parsedCseq_of_checkHeaders h.admits.1,
        h.continues, h.rest, h.callId⟩
    · have hreceive : ccb.receive r = (false, (ccb.checkRequest r).2) := by
        rw [Ccb.receive]
        exact if_neg hne
      rcases hstate with hstate | ⟨hcomplete, hstate⟩
      · exact .inl (by rw [hreceive, hstate])
      · exact .inr ⟨hcomplete, by rw [hreceive, hstate]⟩
  have hreceive : ccb.receive r = (((ccb.named r).checkAndStore r.toRequest r.lineMethod true).1.isNone,
      ((ccb.named r).checkAndStore r.toRequest r.lineMethod true).2) := by
    rw [Ccb.receive, hrun]
    rfl
  have hpasses : ∀ cseq', ccb.Passes r cseq' → (ccb.named r).Admits r.toRequest cseq' r.lineMethod true :=
    fun cseq' h => admits_named.mpr h.admits
  rw [Ccb.checkAndStore] at hreceive
  cases hheaders : r.toRequest.checkHeaders with
  | error e =>
    rw [hheaders] at hreceive
    refine .refused (fun cseq' h => ?_) (.inr ⟨hfirst.complete, hreceive⟩)
    have hok := (hpasses cseq' h).1
    rw [hheaders] at hok
    cases hok
  | ok parsed =>
    obtain rfl : parsed = cseq := Option.some.inj ((parsedCseq_of_checkHeaders hheaders).symm.trans hfirst.parsed)
    rw [hheaders] at hreceive
    cases hmethod : (ccb.named r).checkMethod r.toRequest parsed r.lineMethod true with
    | error e =>
      simp only [hmethod] at hreceive
      refine .refused (fun cseq' h => ?_) (.inr ⟨hfirst.complete, hreceive⟩)
      obtain ⟨hok, c, hc⟩ := hpasses cseq' h
      obtain rfl := Except.ok.inj (hheaders.symm.trans hok)
      rw [hmethod] at hc
      cases hc
    | ok c =>
      simp only [hmethod] at hreceive
      have hpass : ccb.Passes r parsed := ⟨hfirst.complete, hfirst.line, hfirst.headersGood, hfirst.contact,
        hfirst.content, hfirst.continues, hfirst.rest, hfirst.callId, admits_named.mp ⟨hheaders, c, hmethod⟩⟩
      have htable : c.recvRequest = ccb.recvRequest := by
        rw [(tables_of_checkMethod hmethod).2, named_eq]
      rw [htable, eq_remember_of_checkMethod hmethod] at hreceive
      cases hblock : getNextRequestTrxIndex ccb.recvRequest with
      | none =>
        rw [hblock] at hreceive
        exact .full parsed hpass hblock hreceive
      | some k =>
        rw [hblock] at hreceive
        exact .accepted parsed k hpass hblock hreceive

/-! ## The invariant -/

/-- The call control block remembers the accepted requests: no number with a place in the order is
greater than the one of the last request, and the last INVITE is the one that was accepted last. -/
structure Dialog.Inv (d : Dialog) : Prop where
  bounded : ∀ c ∈ d.accepted, c.method.Ordered → c.number ≤ d.ccb.lastRecvRequestCseq
  invite : ∀ c, lastInvite d.accepted = some c → d.ccb.lastRecvInviteCseq = c.number
  newest : ∀ l, lastOrdered d.accepted = some l →
    ∀ c ∈ d.accepted, c.method.Ordered → c.number ≤ l.number

theorem lineMethod_of_checkRest (h : r.checkRest cseq = messagingOk) : r.lineMethod = cseq.method := by
  by_contra hne
  unfold IncomingRequest.checkRest at h
  rw [if_pos hne] at h
  split_ifs at h <;> cases h

theorem number_of_passes (h : ccb.Passes r cseq)
    (hm : ¬ cseq.method.Ordered) : cseq.number = ccb.lastRecvInviteCseq := by
  obtain ⟨-, c, hc⟩ := h.admits
  rw [lineMethod_of_checkRest h.rest] at hc
  by_contra hne
  have hack : cseq.method = .ack ∨ cseq.method = .cancel := by
    rw [SipMethod.Ordered] at hm
    tauto
  rcases hack with hack | hack <;>
  · rw [hack, Ccb.checkMethod, if_pos hne] at hc
    cases hc

theorem le_of_passes (h : ccb.Passes r cseq) (hm : cseq.method.Ordered) : ccb.lastRecvRequestCseq ≤ cseq.number ∧
      (cseq.number = ccb.lastRecvRequestCseq → cseq.method = ccb.lastRecvRequestCseqMethod) := by
  have hcontinues := h.continues
  rw [Ccb.continues, decide_eq_true hm, Bool.not_true, Bool.false_or, Bool.and_eq_true,
    Bool.or_eq_true, decide_eq_true_iff, bne_iff_ne, beq_iff_eq] at hcontinues
  exact ⟨hcontinues.1, fun heq => hcontinues.2.resolve_left fun hne => hne heq⟩

variable {c : Cseq}

theorem lastInvite_cons_of_eq (h : c.method = .invite) (accepted : List Cseq) :
    lastInvite (c :: accepted) = some c := by
  simp [lastInvite, h]

theorem lastInvite_cons_of_ne (h : c.method ≠ .invite) (accepted : List Cseq) :
    lastInvite (c :: accepted) = lastInvite accepted := by
  simp [lastInvite, h]

theorem lastOrdered_cons_of_not (h : ¬ c.method.Ordered) (accepted : List Cseq) :
    lastOrdered (c :: accepted) = lastOrdered accepted := by
  simp [lastOrdered, h]

theorem lastInvite_of_lastOrdered {accepted : List Cseq}
    (h : lastOrdered accepted = some c) (hc : c.method = .invite) : lastInvite accepted = some c := by
  obtain ⟨-, front, back, rfl, hfront⟩ := List.find?_eq_some_iff_append.mp h
  refine List.find?_eq_some_iff_append.mpr ⟨beq_iff_eq.mpr hc, front, back, rfl, fun x hx => ?_⟩
  have hx := hfront x hx
  cases hm : x.method <;> simp_all [SipMethod.Ordered]

theorem fields_of_accepted (ccb : Ccb) (r : IncomingRequest) (cseq : Cseq) (k : Fin maxReqOutstanding) :
    let ccb' := ((ccb.named r).remember cseq r.lineMethod).storeRequest r.toRequest cseq k
    ccb'.lastRecvRequestCseq = cseq.number ∧ ccb'.lastRecvInviteCseq =
        if r.lineMethod = .invite then cseq.number else ccb.lastRecvInviteCseq := by
  have hinvite : (ccb.named r).lastRecvInviteCseq = ccb.lastRecvInviteCseq := by
    rw [named_eq]
  refine ⟨rfl, ?_⟩
  rw [← hinvite]
  change ((ccb.named r).remember cseq r.lineMethod).lastRecvInviteCseq = _
  unfold Ccb.remember
  split_ifs <;> rfl

variable {d : Dialog}

/-- An accepted request is handled in order, and the block remembers it. -/
theorem accepted_step (hinv : d.Inv) (hmeets : d.Meets r) {k : Fin maxReqOutstanding} (hpass : d.ccb.Passes r cseq)
    (hblock : getNextRequestTrxIndex d.ccb.recvRequest = some k)
    (hrun : d.ccb.receive r = (true, ((d.ccb.named r).remember cseq r.lineMethod).storeRequest r.toRequest cseq k)) :
    d.Orderly r ∧ (d.step r).Inv := by
  have hfinds : d.ccb.FindsBlock := by
    rw [Ccb.FindsBlock, hblock]
    nofun
  have hparsed := parsedCseq_of_checkHeaders hpass.admits.1
  have hline := lineMethod_of_checkRest hpass.rest
  obtain ⟨hlast, hinvite⟩ := fields_of_accepted d.ccb r cseq k
  have haccepted : (d.step r).accepted = cseq :: d.accepted := by
    rw [Dialog.step, hrun, hparsed]
    rfl
  have hccb : (d.step r).ccb = ((d.ccb.named r).remember cseq r.lineMethod).storeRequest r.toRequest cseq k := by
    rw [Dialog.step, hrun]
  by_cases hm : cseq.method.Ordered
  · -- the number is greater than that of the last request, and so than all before
    obtain ⟨hle, hsame⟩ := le_of_passes hpass hm
    have hne : cseq.number ≠ d.ccb.lastRecvRequestCseq := fun heq =>
      hmeets.repeated cseq hpass hfinds hm heq (hsame heq)
    have hgreater : ∀ c ∈ d.accepted, c.method.Ordered → c.number < cseq.number := fun c hc hcm =>
      UInt32.lt_of_le_of_lt (hinv.bounded c hc hcm) (UInt32.lt_of_le_of_ne hle hne.symm)
    have hall : ∀ c ∈ cseq :: d.accepted, c.method.Ordered → c.number ≤ cseq.number := by
      intro c hc hcm
      rcases List.mem_cons.mp hc with rfl | hc
      · exact UInt32.le_refl _
      · exact UInt32.le_of_lt (hgreater c hc hcm)
    have hnewest : lastOrdered (cseq :: d.accepted) = some cseq := List.find?_cons_of_pos (decide_eq_true hm)
    refine ⟨⟨fun _ c hc _ => ?_, fun _ c hc hcm => ?_, fun hno => ?_⟩, ⟨?_, ?_, ?_⟩⟩
    · obtain rfl := Option.some.inj (hparsed.symm.trans hc)
      exact hgreater
    · obtain rfl := Option.some.inj (hparsed.symm.trans hc)
      exact absurd hm hcm
    · rw [hrun] at hno
      cases hno
    · rw [haccepted, hccb, hlast]
      exact hall
    · rw [haccepted, hccb, hinvite, hline]
      intro c hc
      by_cases hi : cseq.method = .invite
      · rw [lastInvite_cons_of_eq hi] at hc
        rw [if_pos hi, Option.some.inj hc]
      · rw [lastInvite_cons_of_ne hi] at hc
        rw [if_neg hi]
        exact hinv.invite c hc
    · rw [haccepted, hnewest]
      intro l hl
      rw [← Option.some.inj hl]
      exact hall
  · -- the last request with a number of its own is the INVITE that the ACK or CANCEL belongs to
    obtain ⟨i, hordered, himethod⟩ := hmeets.ofInvite cseq hpass hfinds hm
    have hi := lastInvite_of_lastOrdered hordered himethod
    have hnumber : cseq.number = i.number := (number_of_passes hpass hm).trans (hinv.invite i hi)
    have hnoinvite : cseq.method ≠ .invite := fun h => hm (by rw [h]; decide)
    refine ⟨⟨fun _ c hc hcm => ?_, fun _ c hc _ => ?_, fun hno => ?_⟩, ⟨?_, ?_, ?_⟩⟩
    · obtain rfl := Option.some.inj (hparsed.symm.trans hc)
      exact absurd hcm hm
    · obtain rfl := Option.some.inj (hparsed.symm.trans hc)
      rw [hi, hnumber]
      rfl
    · rw [hrun] at hno
      cases hno
    · rw [haccepted, hccb, hlast, hnumber]
      intro c hc hcm
      rcases List.mem_cons.mp hc with rfl | hc
      · exact absurd hcm hm
      · exact hinv.newest i hordered c hc hcm
    · rw [haccepted, hccb, hinvite, hline, if_neg hnoinvite, lastInvite_cons_of_ne hnoinvite]
      exact hinv.invite
    · rw [haccepted, lastOrdered_cons_of_not hm]
      intro l hl c hc hcm
      rcases List.mem_cons.mp hc with rfl | hc
      · exact absurd hcm hm
      · exact hinv.newest l hl c hc hcm

theorem refused_step (hinv : d.Inv) (hrun : d.ccb.receive r = (false, d.ccb)) : d.Orderly r ∧ (d.step r).Inv := by
  have hstep : d.step r = d := by
    rw [Dialog.step, hrun]
    rfl
  refine ⟨⟨fun hyes => ?_, fun hyes => ?_, fun _ => ?_⟩, by rwa [hstep]⟩
  · rw [hrun] at hyes
    cases hyes
  · rw [hrun] at hyes
    cases hyes
  · rw [hrun]
    exact ⟨rfl, rfl, rfl, rfl, rfl, rfl⟩

/-- A request that meets its condition is handled in order, and the block goes on remembering the
accepted requests. -/
theorem orderly_step (hinv : d.Inv) (hmeets : d.Meets r) : d.Orderly r ∧ (d.step r).Inv := by
  -- without a stored request, the user that was named is the one that is recorded already
  have hnamed : (∀ cseq, d.ccb.Passes r cseq → ¬ d.ccb.FindsBlock) → r.complete = true → d.ccb.named r = d.ccb := by
    intro hno hcomplete
    rw [named_eq, reqURI_named (hmeets.user hno hcomplete)]
  rcases receive_outcome d.ccb r with
    ⟨cseq, k, hpass, hblock, hrun⟩ | ⟨cseq, hpass, hblock, hrun⟩ | ⟨hno, hrun⟩
  · exact accepted_step hinv hmeets hpass hblock hrun
  · have hfull : ¬ d.ccb.FindsBlock := not_not.mpr hblock
    rw [hnamed (fun _ _ => hfull) hpass.complete] at hrun
    refine refused_step hinv (hrun.trans (congrArg (Prod.mk false) ?_))
    rw [Ccb.remember]
    split_ifs with hinvite
    · -- an INVITE without a block has the number that is remembered already
      rw [lineMethod_of_checkRest hpass.rest] at hinvite
      have hsame : cseq.number = d.ccb.lastRecvInviteCseq := by
        by_contra hne
        exact hfull (hmeets.block cseq hpass hinvite hne)
      rw [hsame]
    · rfl
  · rcases hrun with hrun | ⟨hcomplete, hrun⟩
    · exact refused_step hinv hrun
    · rw [hnamed (fun cseq hpass => absurd hpass (hno cseq)) hcomplete] at hrun
      exact refused_step hinv hrun

theorem inv_release (hinv : d.Inv) (method : SipMethod) (sent : Bool) : (d.release method sent).Inv := by
  cases sent with
  | true => exact ⟨hinv.bounded, hinv.invite, hinv.newest⟩
  | false => exact ⟨hinv.bounded, hinv.invite, hinv.newest⟩

theorem orderlyThroughout (hinv : d.Inv) {es : List Event} (hmeets : d.MeetsThroughout es) :
    d.OrderlyThroughout es := by
  induction es generalizing d with
  | nil => trivial
  | cons e es ih =>
    cases e with
    | request r =>
      obtain ⟨horderly, hnext⟩ := orderly_step hinv hmeets.1
      exact ⟨horderly, ih hnext hmeets.2⟩
    | release method sent => exact ih (d := d.release method sent) (inv_release hinv method sent) hmeets

/-- **In a run whose requests meet their condition, requests are accepted in order.** An ACK or a CANCEL
that is accepted takes the place of the last request, so that numbers behind its INVITE count as new
again; an INVITE and the user of a request line are remembered before the request is known to be
accepted. -/
theorem orderly_of_meets (ccb : Ccb) {es : List Event} (hmeets : Dialog.MeetsThroughout ⟨ccb, []⟩ es) :
    Dialog.OrderlyThroughout ⟨ccb, []⟩ es := by
  have hinv : Dialog.Inv ⟨ccb, []⟩ := by
    refine ⟨?_, ?_, ?_⟩
    · intro c hc
      cases hc
    · intro c hc
      cases hc
    · intro l hl
      cases hl
  exact orderlyThroughout hinv hmeets

/-- A request of a dialog with the user 1000. -/
def dialogRequest (cseq : CStr) (method : SipMethod) : IncomingRequest where
  callId := some "1@a"
  cseq := some cseq
  via := some "SIP/2.0/TCP a"
  line := .sip "1000" true true
  lineMethod := method

/-- A block whose user is 1000. -/
def dialogCcb : Ccb := { reqURI := "1000" }

theorem meets_dialogRequest {text : CStr} (hcseq : parseCseq text = some c) (hreqURI : d.ccb.reqURI = "1000")
    (hblock : getNextRequestTrxIndex d.ccb.recvRequest ≠ none)
    (hnumber : c.number ≠ d.ccb.lastRecvRequestCseq ∨
      ∃ i, lastOrdered d.accepted = some i ∧ i.method = .invite ∧ ¬ c.method.Ordered)
    (hinvite : c.method.Ordered ∨ ∃ i, lastOrdered d.accepted = some i ∧ i.method = .invite) :
    d.Meets (dialogRequest text method) := by
  have hsame : ∀ c', d.ccb.Passes (dialogRequest text method) c' → c' = c := by
    intro c' hpass
    exact Option.some.inj ((parsedCseq_of_checkHeaders hpass.admits.1).symm.trans hcseq)
  refine ⟨fun c' hpass _ hm => ?_, fun c' hpass _ hm heq => ?_, fun _ _ _ _ => hblock, ?_⟩
  · obtain rfl := hsame c' hpass
    exact hinvite.resolve_left hm
  · obtain rfl := hsame c' hpass
    rcases hnumber with hne | ⟨-, -, -, hnot⟩
    · exact absurd heq hne
    · exact absurd hm hnot
  · intro _ _ user hline _
    obtain rfl : "1000" = user := by
      injection hline
    rw [hreqURI]
    rfl

/-- An INVITE, its ACK and an INFO are handled in order. -/
theorem orderly_invite_ack_info : Dialog.OrderlyThroughout ⟨dialogCcb, []⟩
    [.request (dialogRequest "1 INVITE" .invite), .request (dialogRequest "1 ACK" .ack),
      .release .invite false, .request (dialogRequest "2 INFO" .info)] := by
  refine orderly_of_meets dialogCcb ⟨?_, ?_, ?_, trivial⟩
  · exact meets_dialogRequest (c := ⟨1, .invite⟩) (by decide +kernel) rfl (by decide +kernel)
      (Or.inl (by decide +kernel)) (Or.inl (by decide))
  · exact meets_dialogRequest (c := ⟨1, .ack⟩) (by decide +kernel) (by decide +kernel)
      (by decide +kernel) (Or.inr ⟨⟨1, .invite⟩, by decide +kernel, rfl, by decide⟩)
      (Or.inr ⟨⟨1, .invite⟩, by decide +kernel, rfl⟩)
  · exact meets_dialogRequest (c := ⟨2, .info⟩) (by decide +kernel) (by decide +kernel)
      (by decide +kernel) (Or.inl (by decide +kernel)) (Or.inl (by decide))

/-- Behind the ACK of an INVITE with the number 5, an INFO with the number 6 is accepted although an
UPDATE had it; an INVITE that finds no free block is remembered; and a request with an old number names
its user. -/
theorem not_orderly :
    (¬ Dialog.OrderlyThroughout ⟨dialogCcb, []⟩
      [.request (dialogRequest "5 INVITE" .invite), .request (dialogRequest "6 UPDATE" .update),
        .release .update false, .request (dialogRequest "5 ACK" .ack),
        .request (dialogRequest "6 INFO" .info)]) ∧
    (¬ Dialog.OrderlyThroughout ⟨dialogCcb, []⟩
      [.request (dialogRequest "5 INFO" .info), .request (dialogRequest "6 UPDATE" .update),
        .request (dialogRequest "7 INFO" .info), .request (dialogRequest "8 INVITE" .invite)]) ∧
    ¬ Dialog.OrderlyThroughout ⟨dialogCcb, []⟩
      [.request (dialogRequest "5 INFO" .info),
        .request { dialogRequest "4 INFO" .info with line := .sip "1001" true true }] := by
  refine ⟨?_, ?_, ?_⟩
  · rintro ⟨-, -, -, hlast, -⟩
    have hlt := hlast.increasing (by decide +kernel) ⟨6, .info⟩ (by decide +kernel) (by decide)
      ⟨6, .update⟩ (by decide +kernel) (by decide)
    exact absurd hlt (by decide)
  · rintro ⟨-, -, -, hlast, -⟩
    have hsame := (hlast.refused (by decide +kernel)).lastRecvInviteCseq
    exact absurd hsame (by decide +kernel)
  · rintro ⟨-, hlast, -⟩
    have hsame := (hlast.refused (by decide +kernel)).reqURI
    exact absurd hsame (by decide +kernel)

end Sip
