import Ikran.Sip.ResponseMatching

/-!
# Requests within an established call

The handlers of the SIP state machine for an INVITE, an UPDATE or an ACK that comes within a call, and for
the answers of the GSM to what they ask it. A request that passes its checks is stored in a block of the
received ones; the block is released by the helper that answers the request, if that is the one of the
request's method and has the call control block, or by the handler. Beside the blocks, the state of offer
and answer is kept, and the session id and the version of the SDP that was looked at last.

What `sdp_parse` finds in a body is a decision of the model, and so is whether a response can be built and
sent.
-/

namespace Sip

open CStr

/-- `sipOfferAnswerState`. -/
inductive OfferAnswer
  | idle | offerSent | offerReceived | answerSent | answerReceived
  deriving DecidableEq

/-- `sipSMStateType_t`, without the states of a blind transfer, of an idle block and of a REFER out of a
dialog. -/
inductive SmState
  | idle | sentInvite | sentInviteConnected
  | recvInvite | recvInviteProceeding | recvInviteAlerting | recvInviteConnected
  | active | sentMidcallInvite
  | recvMidcallInviteCcFeatureAckPending | recvMidcallInviteSipAckPending
  | recvUpdateMediaCcFeatureAckPending | release
  deriving DecidableEq

/-- `sipsdp_status_t`. -/
inductive SdpStatus
  | success | sessionAudit | notPresent | dnsFail | noMedia | error
  deriving DecidableEq

/-- What `sdp_parse` finds in a body: the number of media lines, and the ids of the owner line. -/
structure ParsedSdp where
  mediaLines : ℕ
  sessionId : Option CStr
  versionId : Option CStr
  deriving DecidableEq

structure BodyPart where
  isSdp : Bool
  length : ℤ
  /-- What `sdp_parse` finds, if it accepts the part. -/
  sdp : Option ParsedSdp

/-- `old_session_id` and `old_version_id`. -/
structure SdpMemory where
  oldSessionId : Option CStr := none
  oldVersionId : Option CStr := none

namespace SdpMemory

/-- The ids are those of the SDP that was looked at last. -/
def isAudit (m : SdpMemory) (sdp : ParsedSdp) : Bool :=
  m.oldSessionId.isSome && m.oldVersionId.isSome && sdp.sessionId.isSome && sdp.versionId.isSome &&
    m.oldSessionId == sdp.sessionId && m.oldVersionId == sdp.versionId

/-- The ids of an SDP are remembered, if it has both. -/
def remember (sdp : ParsedSdp) : SdpMemory :=
  if sdp.sessionId.isSome && sdp.versionId.isSome then ⟨sdp.sessionId, sdp.versionId⟩ else ⟨none, none⟩

/-- `sip_util_extract_sdp`: the verdict, and the ids that are remembered. -/
def extract (m : SdpMemory) (parts : List BodyPart) : SdpStatus × SdpMemory :=
  match parts.find? BodyPart.isSdp with
  | none => (.notPresent, m)
  | some part =>
    if part.length ≤ 0 then (.notPresent, m)
    else
      match part.sdp with
      | none => (.error, m)
      | some sdp =>
        if sdp.mediaLines = 0 then (.noMedia, m)
        else (if m.isAudit sdp then .sessionAudit else .success, remember sdp)

end SdpMemory

/-- `cc_causes_t`, as far as the handlers tell the causes apart. -/
inductive CcCause
  | ok | error | unassignedNum | noResource | normal | busy | anonymous | invalidNumber | payloadMismatch
  | noReplaceCall | noResume | noMedia | requestPending | other
  deriving DecidableEq

/-- `ccsip_cc_to_sip_cause`. -/
def CcCause.toSip : CcCause → ℕ
  | .ok => 200
  | .error => 400
  | .unassignedNum => 404
  | .noResource => 500
  | .busy => 486
  | .anonymous => 433
  | .invalidNumber => 484
  | .payloadMismatch => 488
  | .noReplaceCall => 481
  | .requestPending => 491
  | .normal | .noResume | .noMedia | .other => 400

/-- The features whose answers the state machine waits for. -/
inductive Feature
  | hold | resume | media | other
  deriving DecidableEq

/-! ## The call control block -/

/-- A call control block with the state of its call. -/
structure CallCcb extends DialogCcb where
  state : SmState := .active
  oaState : OfferAnswer := .idle
  holdInitiated : Bool := false
  memory : SdpMemory := {}
  /-- `local_msg_body` has parts. -/
  localBody : Bool := false
  featuretype : Feature := .other

inductive GsmMessage
  | setup | alerting | connected | connectedAck | featureMedia | featureUpdate | featureAck | audit | release

/-- What a handler does besides changing the block. -/
inductive Action
  | respond (method : SipMethod) (number : UInt32) (statusCode : ℕ)
  | send (method : SipMethod)
  | gsm (message : GsmMessage) (sdp : Bool)

/-- What becomes of an event: the block behind it, what is done, and what `sip_util_extract_sdp` reports if
it is called. -/
structure Handled where
  ccb : CallCcb
  actions : List Action := []
  verdict : Option SdpStatus := none

/-- A request of a call, whose method is that of its CSeq header. -/
structure DialogRequest extends Request where
  method : SipMethod
  methodEq : ∀ c, toRequest.parsedCseq = some c → c.method = method
  contact : Option CStr := none
  /-- Whether `sippmh_parse_contact` accepts the Contact header. -/
  contactParses : Bool := true
  require : Bool := false
  /-- `ccsip_check_display_validity`. -/
  displayValid : Bool := true
  parts : List BodyPart := []

def sdpBody : CStr := "v=0\no=- 1 1 IN IP4 a\ns=-\nt=0 0\nm=audio 9 RTP/AVP 0\n"

def sdpBodyParsed : ParsedSdp := ⟨1, some "1", some "1"⟩

/-- A request with a CSeq header, with the body or without. -/
def requestOf (cseq : CStr) (body : Bool) : DialogRequest where
  callId := some "1@a"
  cseq := some cseq
  via := some "SIP/2.0/TCP a"
  contentLength := if body then sdpBody.length else 0
  rawBody := if body then some sdpBody else none
  method := ((parseCseq cseq).map Cseq.method).getD .unknown
  methodEq := fun c h => by rw [show parseCseq cseq = some c from h]; rfl
  parts := if body then [⟨true, sdpBody.length, some sdpBodyParsed⟩] else []

/-- What building and sending messages comes to while an event is handled. -/
structure Outcome where
  standard : Bool := true
  copied : Bool := true
  general : Bool := true
  sends : Bool := true
  building : Building := {}

namespace CallCcb

/-! ## Answers -/

/-- `clean_method_request_trx` for the received requests. -/
def cleanRecv (ccb : CallCcb) (method : SipMethod) : CallCcb :=
  { ccb with recvRequest := cleanMethodRequestTrx ccb.recvRequest method }

/-- `CreateResponse`: the number in the CSeq header, if the response is built. It is that of the first
request with the method. An offer or an answer goes out with the body. -/
def createResponse (o : Outcome) (ccb : CallCcb) (method : SipMethod) (sendSd : Bool) :
    Option UInt32 × CallCcb :=
  if ccb.lastRequest = none || !o.standard then (none, ccb)
  else
    match getMethodRequestTrxIndex ccb.recvRequest method with
    | none => (none, ccb)
    | some k =>
      let number := if o.general then some (ccb.recvRequest k).cseqNumber else none
      if sendSd then
        if ccb.localBody && o.copied then
          (number, { ccb with oaState := if ccb.oaState = .offerReceived then .idle else .offerSent })
        else (none, ccb)
      else (number, ccb)

/-- A response that is built is sent. -/
def sent (o : Outcome) (method : SipMethod) (statusCode : ℕ) : Option UInt32 → List Action
  | some number => if o.sends then [.respond method number statusCode] else []
  | none => []

/-- `sipSPISendInviteResponse`. -/
def sendInviteResponse (o : Outcome) (ccb : CallCcb) (statusCode : ℕ) (sendSd : Bool) :
    List Action × CallCcb :=
  let created := ccb.createResponse o .invite sendSd
  (sent o .invite statusCode created.1, created.2)

/-- `sipSPISendInviteResponse100`. -/
def sendInviteResponse100 (o : Outcome) (ccb : CallCcb) : List Action × CallCcb :=
  ccb.sendInviteResponse o 100 false

/-- `sipSPISendInviteResponse200`. -/
def sendInviteResponse200 (o : Outcome) (ccb : CallCcb) : List Action × CallCcb :=
  ccb.sendInviteResponse o 200 true

/-- `sipSPISendUpdateResponse`: the block of the UPDATE is released whether the response is sent or not. -/
def sendUpdateResponse (o : Outcome) (ccb : CallCcb) (sendSd : Bool) (cause : CcCause) :
    List Action × CallCcb :=
  let created := ccb.createResponse o .update sendSd
  (sent o .update cause.toSip created.1, created.2.cleanRecv .update)

/-- `sipSPISendErrorResponse`: the CSeq header is that of the message. The block of the request is released
if the call control block is given. -/
def sendErrorResponse (o : Outcome) (ccb : CallCcb) (r : Request) (statusCode : ℕ) (withCcb : Bool) :
    List Action × CallCcb :=
  match r.cseq with
  | none => ([], if withCcb then ccb.cleanRecv .invalid else ccb)
  | some header =>
    match parseCseq header with
    | none => ([], ccb)
    | some cseq =>
      (if o.general && o.sends then [.respond cseq.method cseq.number statusCode] else [],
        if withCcb then ccb.cleanRecv cseq.method else ccb)

/-- A BYE is sent, the GSM releases the call, and so does the state machine. -/
def endCall (o : Outcome) (ccb : CallCcb) : Handled :=
  let ended := ccb.toDialogCcb.sendBye o.building
  { ccb := { ccb with toDialogCcb := ended.2, state := .release }
    actions := ended.1.map .send ++ [.gsm .release false] }

/-- `sip_sm_request_check_and_store`. -/
def admitRequest (ccb : CallCcb) (r : DialogRequest) (midcall : Bool) : Option StoreError × CallCcb :=
  let stored := ccb.toCcb.checkAndStore r.toRequest r.method midcall
  (stored.1, { ccb with toCcb := stored.2 })

/-- The contact of a request takes the place of the one that is stored. -/
def takeContact (ccb : CallCcb) (r : DialogRequest) : CallCcb :=
  match r.contact with
  | some contact => { ccb with contactInfo := if r.contactParses then some contact else none }
  | none => ccb

/-- `ccsip_save_local_msg_body`, with whether the data of a feature is valid, and whether it has parts. -/
def saveBody (ccb : CallCcb) (data : Option Bool) : CallCcb :=
  { ccb with localBody := ccb.localBody || data.getD false }

/-- The answer of a helper is all that is done. -/
def answered (p : List Action × CallCcb) : Handled := { ccb := p.2, actions := p.1 }

/-- The GSM is asked for the media of an INVITE, and 100 is sent. -/
def askInvite (o : Outcome) (ccb : CallCcb) (sdp : Bool) : Handled :=
  let trying := { ccb with state := .recvMidcallInviteCcFeatureAckPending }.sendInviteResponse100 o
  { ccb := trying.2, actions := .gsm .featureMedia sdp :: trying.1 }

/-- The branches of `ccsip_handle_active_ev_sip_invite` behind `sip_util_extract_sdp`. -/
def decideInvite (o : Outcome) (ccb : CallCcb) (r : DialogRequest) : SdpStatus → Handled
  | .sessionAudit =>
    if (ccb.state = .sentMidcallInvite ∧ ccb.holdInitiated) ∨ ccb.state = .active then
      { ccb := { ccb with oaState := .offerReceived }, actions := [.gsm .audit false] }
    else { ccb with oaState := .offerReceived }.askInvite o true
  | .success => { ccb with oaState := .offerReceived }.askInvite o true
  | .error | .noMedia => answered (ccb.sendErrorResponse o r.toRequest 400 true)
  | .dnsFail => answered (ccb.sendInviteResponse o 500 false)
  | .notPresent => ccb.askInvite o false

/-- `ccsip_handle_active_ev_sip_invite`. -/
def activeInvite (o : Outcome) (ccb : CallCcb) (r : DialogRequest) : Handled :=
  if (getMethodRequestTrxIndex ccb.sentRequest .invite).isSome then
    answered (ccb.sendErrorResponse o r.toRequest 491 false)
  else
    let admitted := ccb.admitRequest r true
    if admitted.1.isSome then answered (admitted.2.sendErrorResponse o r.toRequest 400 false)
    else
      let ccb := admitted.2.takeContact r
      let extracted := ccb.memory.extract r.parts
      { { ccb with memory := extracted.2 }.decideInvite o r extracted.1 with verdict := some extracted.1 }

/-- The causes by which the GSM rejects an SDP. -/
def rejectsSdp (cause : CcCause) : Bool :=
  cause == .payloadMismatch || cause == .noMedia || cause == .error

/-- `ccsip_handle_recvmidcallinvite_ccfeatureackpending_ev_cc_feature_ack`. -/
def inviteFeatureAck (o : Outcome) (ccb : CallCcb) (feature : Feature) (data : Option Bool)
    (cause : CcCause) : Handled :=
  match feature with
  | .hold =>
    let p := (ccb.saveBody data).sendInviteResponse200 o
    answered (p.1, { p.2 with state := .recvMidcallInviteSipAckPending })
  | .resume | .media =>
    let ccb := ccb.saveBody data
    let p :=
      if rejectsSdp cause then { ccb with oaState := .idle }.sendInviteResponse o 488 false
      else ccb.sendInviteResponse200 o
    answered (p.1, { p.2 with state := .recvMidcallInviteSipAckPending })
  | .other => { ccb }

/-- `ccsip_handle_ev_cc_answer_audit_request`. -/
def auditAck (o : Outcome) (ccb : CallCcb) (parts : Bool) : Handled :=
  answered ((ccb.saveBody (some parts)).sendInviteResponse200 o)

/-- The blocks of the ACK and of its INVITE are released. -/
def cleanInvite (ccb : CallCcb) : CallCcb := (ccb.cleanRecv .ack).cleanRecv .invite

/-- The branches of `ccsip_handle_recvmidcallinvite_sipackpending_ev_sip_ack` behind
`sip_util_extract_sdp`. -/
def decideAck (o : Outcome) (ccb : CallCcb) (r : DialogRequest) : SdpStatus → Handled
  | .success | .sessionAudit =>
    if ccb.oaState ≠ .offerSent then
      let ended := ccb.endCall o
      { ended with ccb := ended.ccb.cleanInvite }
    else
      { ccb := { ccb with oaState := .idle, state := .active }.cleanInvite
        actions := [.gsm .featureMedia true] }
  | .error | .noMedia =>
    let p := ccb.sendErrorResponse o r.toRequest 400 true
    answered (p.1, p.2.cleanInvite)
  | .dnsFail =>
    let p := ccb.sendInviteResponse o 500 false
    answered (p.1, { p.2 with state := .active }.cleanInvite)
  | .notPresent =>
    if ccb.oaState = .offerSent then
      let ended := ccb.endCall o
      { ended with ccb := ended.ccb.cleanInvite }
    else { ccb := { ccb with state := .active }.cleanInvite }

/-- `ccsip_handle_recvmidcallinvite_sipackpending_ev_sip_ack`. -/
def sipAckPendingAck (o : Outcome) (ccb : CallCcb) (r : DialogRequest) : Handled :=
  let admitted := ccb.admitRequest r false
  if admitted.1.isSome then { ccb := admitted.2 }
  else
    let extracted := admitted.2.memory.extract r.parts
    { { admitted.2 with memory := extracted.2 }.decideAck o r extracted.1 with
      verdict := some extracted.1 }

/-- The branches of `ccsip_handle_active_ev_sip_update` behind `sip_util_extract_sdp`. -/
def decideUpdate (o : Outcome) (ccb : CallCcb) (r : DialogRequest) : SdpStatus → Handled
  | .success | .sessionAudit =>
    if ccb.oaState ≠ .idle then
      let cause := if ccb.oaState = .offerSent then .requestPending else .noResource
      answered (ccb.sendUpdateResponse o false cause)
    else
      { ccb := { ccb with oaState := .offerReceived, state := .recvUpdateMediaCcFeatureAckPending }
        actions := [.gsm .featureMedia true] }
  | .error | .noMedia => answered (ccb.sendErrorResponse o r.toRequest 400 true)
  | .dnsFail => answered (ccb.sendInviteResponse o 500 false)
  | .notPresent =>
    let p := ccb.sendUpdateResponse o false .ok
    { ccb := p.2, actions := .gsm .featureUpdate false :: p.1 }

/-- `ccsip_handle_active_ev_sip_update`. -/
def activeUpdate (o : Outcome) (ccb : CallCcb) (r : DialogRequest) : Handled :=
  if (getMethodRequestTrxIndex ccb.recvRequest .update).isSome then
    answered (ccb.sendErrorResponse o r.toRequest 500 false)
  else
    let admitted := ccb.admitRequest r true
    if admitted.1.isSome then answered (admitted.2.sendErrorResponse o r.toRequest 400 false)
    else if !r.displayValid then answered (admitted.2.sendErrorResponse o r.toRequest 433 false)
    else if r.require then answered (admitted.2.sendInviteResponse o 420 false)
    else
      let ccb := admitted.2.takeContact r
      let extracted := ccb.memory.extract r.parts
      { { ccb with memory := extracted.2 }.decideUpdate o r extracted.1 with verdict := some extracted.1 }

/-- The cause with which the answer of the GSM to an UPDATE is sent. -/
def updateCause (feature : Feature) (cause : CcCause) : CcCause :=
  if cause = .normal ∨ (feature ≠ .hold ∧ cause = .noResume) then .ok else cause

/-- `ccsip_handle_recvupdatemedia_ccfeatureackpending_ev_cc_feature_ack`. -/
def updateFeatureAck (o : Outcome) (ccb : CallCcb) (feature : Feature) (data : Option Bool)
    (cause : CcCause) : Handled :=
  match feature with
  | .hold | .resume | .media =>
    let p := (ccb.saveBody data).sendUpdateResponse o data.isSome (updateCause feature cause)
    answered (p.1, { p.2 with state := .active })
  | .other => { ccb }

/-- `ccsip_handle_default_sip_message`. -/
def defaultSipMessage (o : Outcome) (ccb : CallCcb) (r : DialogRequest) : Handled :=
  match r.method with
  | .ack => { ccb := ccb.cleanRecv .invite }
  | .invite =>
    if (getMethodRequestTrxIndex ccb.recvRequest .invite).isSome then
      answered (ccb.sendErrorResponse o r.toRequest 500 false)
    else { ccb }
  | .update =>
    if (getMethodRequestTrxIndex ccb.recvRequest .update).isSome then
      answered (ccb.sendErrorResponse o r.toRequest 500 false)
    else { ccb }
  | .cancel => answered (ccb.sendErrorResponse o r.toRequest 481 true)
  | _ => { ccb }

/-- A request is received, or the GSM answers. The data of a feature is valid or not, and has parts or
not. -/
inductive CallEvent
  | request (r : DialogRequest)
  | featureAck (feature : Feature) (data : Option Bool) (cause : CcCause)
  | auditAck (parts : Bool)

/-- The handler of a request, by the table of the state machine. A call that is released answers nothing
but with 481. -/
def handleRequest (o : Outcome) (ccb : CallCcb) (r : DialogRequest) : Handled :=
  match ccb.state, r.method with
  | .active, .invite | .sentMidcallInvite, .invite => ccb.activeInvite o r
  | .active, .update | .sentMidcallInvite, .update => ccb.activeUpdate o r
  | .recvMidcallInviteSipAckPending, .ack => ccb.sipAckPendingAck o r
  | .release, .invite | .release, .update => answered (ccb.sendErrorResponse o r.toRequest 481 false)
  | .release, .ack => { ccb }
  | _, _ => ccb.defaultSipMessage o r

def handle (o : Outcome) (ccb : CallCcb) : CallEvent → Handled
  | .request r => ccb.handleRequest o r
  | .featureAck feature data cause =>
    match ccb.state with
    | .recvMidcallInviteCcFeatureAckPending => ccb.inviteFeatureAck o feature data cause
    | .recvUpdateMediaCcFeatureAckPending => ccb.updateFeatureAck o feature data cause
    | _ => { ccb }
  | .auditAck parts => ccb.auditAck o parts

variable {o : Outcome} {ccb : CallCcb}

theorem createResponse_snd (method : SipMethod) (sendSd : Bool) : (ccb.createResponse o method sendSd).2 =
      { ccb with oaState := (ccb.createResponse o method sendSd).2.oaState } := by
  unfold createResponse
  by_cases hstart : (decide (ccb.lastRequest = none) || !o.standard) = true
  · rw [if_pos hstart]
  · rw [if_neg hstart]
    cases getMethodRequestTrxIndex ccb.recvRequest method with
    | none => rfl
    | some k =>
      cases sendSd with
      | false => rfl
      | true =>
        cases hcopied : ccb.localBody && o.copied with
        | false => simp
        | true => simp

end CallCcb

end Sip
