import Ikran.Sip.MidCall

/-!
# Session audits

An SDP whose session id and version are those of the SDP that was looked at last is taken for a session
audit: the media are the same, and the request is answered without asking the GSM for them. The ids are
remembered when the body is looked at, before the handler decides whether the SDP goes to the GSM, and
before the GSM accepts it.

A run has the messages that set a call up as well as those within it. What else happens to the call
changes the block in any way, but does not touch the ids.
-/

namespace Sip

open CStr

/-! ## Setting up a call -/

/-- A call is being set up. -/
def SmState.isEarly : SmState → Bool
  | .sentInvite | .sentInviteConnected | .recvInvite | .recvInviteProceeding | .recvInviteAlerting
  | .recvInviteConnected => true
  | _ => false

/-- What refuses the first INVITE before its body is looked at: a helper and a status code. -/
inductive SetupRefusal
  | byError (statusCode : ℕ)
  | byInvite (statusCode : ℕ)

/-- A request of a call, which may be its first one. -/
structure CallRequest extends DialogRequest where
  fromHeader : CStr := []
  toHeader : CStr := []
  refusal : Option SetupRefusal := none
  forwarded : Bool := false
  /-- `ccsip_get_join_info`. -/
  joinOk : Bool := true

/-- A response that accepts a request. -/
structure SuccessResponse where
  method : SipMethod := .invite
  /-- There is no Contact header, or `sipSPICheckContact` accepts it. -/
  contactOk : Bool := true
  parts : List BodyPart := []

namespace CallCcb

/-- A response is sent by a helper, and the call is released. -/
def refuseCall (p : List Action × CallCcb) : Handled :=
  { ccb := { p.2 with state := .release }, actions := p.1 }

/-- The headers of the first INVITE become those of the dialog. -/
def beginDialog (ccb : CallCcb) (r : CallRequest) : CallCcb :=
  { ccb with
    incoming := true
    sipFrom := r.fromHeader
    sipTo := r.toHeader
    sipCallID := (r.callId.getD []).take (maxSipCallIdLength - 1) }

/-- The first INVITE goes to the GSM, unless the line is forwarded or a call cannot be joined. -/
def setUpCall (o : Outcome) (ccb : CallCcb) (r : CallRequest) (sdp : Bool) : Handled :=
  if r.forwarded then refuseCall (ccb.sendInviteResponse o 302 false)
  else if !r.joinOk then refuseCall (ccb.sendInviteResponse o 400 false)
  else
    let trying := ccb.sendInviteResponse100 o
    { ccb := { trying.2 with state := .recvInvite }, actions := trying.1 ++ [.gsm .setup sdp] }

/-- The branches of `ccsip_handle_idle_ev_sip_invite` behind `sip_util_extract_sdp`. -/
def decideSetup (o : Outcome) (ccb : CallCcb) (r : CallRequest) : SdpStatus → Handled
  | .success | .sessionAudit => { ccb with oaState := .offerReceived }.setUpCall o r true
  | .dnsFail => refuseCall (ccb.sendInviteResponse o 500 false)
  | .error | .noMedia => refuseCall (ccb.sendInviteResponse o 400 false)
  | .notPresent => ccb.setUpCall o r false

/-- `ccsip_handle_idle_ev_sip_invite`. -/
def idleInvite (o : Outcome) (ccb : CallCcb) (r : CallRequest) : Handled :=
  let admitted := ccb.admitRequest r.toDialogRequest false
  if admitted.1.isSome then refuseCall (admitted.2.sendErrorResponse o r.toRequest 400 false)
  else
    let ccb := (admitted.2.beginDialog r).takeContact r.toDialogRequest
    match r.refusal with
    | some (.byError statusCode) => refuseCall (ccb.sendErrorResponse o r.toRequest statusCode true)
    | some (.byInvite statusCode) => refuseCall (ccb.sendInviteResponse o statusCode false)
    | none =>
      let extracted := ccb.memory.extract r.parts
      { { ccb with memory := extracted.2 }.decideSetup o r extracted.1 with verdict := some extracted.1 }

/-- `sipSPISendAck`: the INVITE is answered. -/
def sendAck (o : Outcome) (ccb : CallCcb) : List Action × CallCcb :=
  (if o.building.ack then [.send .ack] else [],
    { ccb with sentRequest := cleanMethodRequestTrx ccb.sentRequest .invite })

/-- The branches of `ccsip_handle_sentinvite_ev_sip_2xx` behind `sip_util_extract_sdp`. -/
def decideConnected (o : Outcome) (ccb : CallCcb) : SdpStatus → Handled
  | .success | .sessionAudit =>
    { ccb := { ccb with oaState := .idle, state := .sentInviteConnected }
      actions := [.gsm .connected true] }
  | .notPresent =>
    { ccb := { ccb with state := .sentInviteConnected }, actions := [.gsm .connected false] }
  | .dnsFail | .noMedia | .error =>
    let acked := ccb.sendAck o
    let ended := acked.2.endCall o
    { ended with actions := acked.1 ++ ended.actions }

/-- `ccsip_handle_sentinvite_ev_sip_2xx`. -/
def sentInvite2xx (o : Outcome) (ccb : CallCcb) (r : SuccessResponse) : Handled :=
  if r.method ≠ .invite then
    { ccb := { ccb with sentRequest := cleanMethodRequestTrx ccb.sentRequest r.method } }
  else if !r.contactOk then
    let ended := ccb.endCall o
    { ended with ccb := ended.ccb.cleanRecv .ack }
  else
    let extracted := ccb.memory.extract r.parts
    { { ccb with memory := extracted.2 }.decideConnected o extracted.1 with verdict := some extracted.1 }

/-- The branches of `ccsip_handle_sentinvite_midcall_ev_sip_2xx` behind `sip_util_extract_sdp`. -/
def decideMidcall2xx (ccb : CallCcb) : SdpStatus → Handled
  | .success | .sessionAudit =>
    { ccb := { ccb with oaState := .idle, state := .active }
      actions := [.gsm .featureAck (ccb.featuretype != .other)] }
  | .notPresent =>
    { ccb := { ccb with oaState := .idle, state := .active }, actions := [.gsm .featureAck false] }
  | .dnsFail | .noMedia | .error =>
    { ccb := { ccb with state := .active }, actions := [.gsm .featureAck false] }

/-- `ccsip_handle_sentinvite_midcall_ev_sip_2xx`. -/
def midcall2xx (o : Outcome) (ccb : CallCcb) (r : SuccessResponse) : Handled :=
  if r.method ≠ .invite then { ccb }
  else
    let acked := ccb.sendAck o
    let extracted := acked.2.memory.extract r.parts
    let decided := { acked.2 with memory := extracted.2 }.decideMidcall2xx extracted.1
    { decided with actions := acked.1 ++ decided.actions, verdict := some extracted.1 }

/-- The branches of `ccsip_handle_recvinvite_ev_sip_ack` behind `sip_util_extract_sdp`. -/
def decideConnectedAck (o : Outcome) (ccb : CallCcb) (status : SdpStatus) : Handled :=
  let ended := ccb.endCall o
  let released : Handled := { ended with ccb := ended.ccb.cleanInvite }
  match status with
  | .success | .sessionAudit =>
    if ccb.oaState ≠ .offerSent then released
    else
      { ccb := { ccb with oaState := .idle, state := .active }.cleanInvite
        actions := [.gsm .connectedAck true] }
  | .dnsFail | .error => released
  | .noMedia | .notPresent =>
    if ccb.oaState = .offerSent then released
    else { ccb := { ccb with state := .active }.cleanInvite, actions := [.gsm .connectedAck false] }

/-- `ccsip_handle_recvinvite_ev_sip_ack`. -/
def recvInviteAck (o : Outcome) (ccb : CallCcb) (r : DialogRequest) : Handled :=
  let admitted := ccb.admitRequest r false
  if admitted.1.isSome then { ccb := admitted.2 }
  else
    let extracted := admitted.2.memory.extract r.parts
    { { admitted.2 with memory := extracted.2 }.decideConnectedAck o extracted.1 with
      verdict := some extracted.1 }

/-- The branches of `ccsip_handle_early_ev_sip_update` behind `sip_util_extract_sdp`. An audit is taken for
an UPDATE without SDP. -/
def decideEarlyUpdate (o : Outcome) (ccb : CallCcb) (r : CallRequest) : SdpStatus → Handled
  | .success =>
    let cause := if ccb.oaState = .offerSent then .requestPending else .noResource
    answered (ccb.sendUpdateResponse o false cause)
  | .error | .noMedia => answered (ccb.sendErrorResponse o r.toRequest 400 true)
  | .dnsFail => answered (ccb.sendErrorResponse o r.toRequest 500 true)
  | .notPresent | .sessionAudit => answered (ccb.sendUpdateResponse o false .ok)

/-- `ccsip_handle_early_ev_sip_update`. -/
def earlyUpdate (o : Outcome) (ccb : CallCcb) (r : CallRequest) : Handled :=
  if (getMethodRequestTrxIndex ccb.recvRequest .update).isSome then
    answered (ccb.sendErrorResponse o r.toRequest 500 false)
  else if (getMethodRequestTrxIndex ccb.sentRequest .update).isSome then
    answered (ccb.sendErrorResponse o r.toRequest 491 false)
  else
    let admitted := ccb.admitRequest r.toDialogRequest true
    if admitted.1.isSome then answered (admitted.2.sendErrorResponse o r.toRequest 400 false)
    else if !r.displayValid then answered (admitted.2.sendErrorResponse o r.toRequest 433 false)
    else
      let ccb := if admitted.2.incoming then admitted.2 else { admitted.2 with sipTo := r.fromHeader }
      let extracted := ccb.memory.extract r.parts
      { { ccb with memory := extracted.2 }.decideEarlyUpdate o r extracted.1 with
        verdict := some extracted.1 }

def receiveRequest (o : Outcome) (ccb : CallCcb) (r : CallRequest) : Handled :=
  if ccb.state = .idle ∧ r.method = .invite then ccb.idleInvite o r
  else if ccb.state.isEarly ∧ r.method = .update then ccb.earlyUpdate o r
  else if ccb.state = .recvInviteConnected ∧ r.method = .ack then ccb.recvInviteAck o r.toDialogRequest
  else ccb.handleRequest o r.toDialogRequest

/-- The handler of a response that accepts a request. In the other states it is acknowledged, or
ignored. -/
def receive2xx (o : Outcome) (ccb : CallCcb) (r : SuccessResponse) : Handled :=
  match ccb.state with
  | .sentInvite => ccb.sentInvite2xx o r
  | .sentMidcallInvite => ccb.midcall2xx o r
  | _ => if r.method = .invite then answered (ccb.sendAck o) else { ccb }

end CallCcb

/-! ## Runs -/

/-- What happens to a call. Anything else may change the block, but not the ids. -/
inductive AuditEvent
  | request (o : Outcome) (r : CallRequest)
  | response (o : Outcome) (r : SuccessResponse)
  | featureAck (o : Outcome) (feature : Feature) (data : Option Bool) (cause : CcCause)
  | auditAck (o : Outcome) (parts : Bool)
  | other (f : CallCcb → CallCcb)

def CallCcb.receive (ccb : CallCcb) : AuditEvent → Handled
  | .request o r => ccb.receiveRequest o r
  | .response o r => ccb.receive2xx o r
  | .featureAck o feature data cause => ccb.handle o (.featureAck feature data cause)
  | .auditAck o parts => ccb.handle o (.auditAck parts)
  | .other f => { ccb := { f ccb with memory := ccb.memory } }

def AuditEvent.parts : AuditEvent → List BodyPart
  | .request _ r => r.parts
  | .response _ r => r.parts
  | _ => []

/-- The SDP of a message, if there is one that is parsed. -/
def sdpOf (parts : List BodyPart) : Option ParsedSdp :=
  match parts.find? BodyPart.isSdp with
  | none => none
  | some part => if part.length ≤ 0 then none else part.sdp

/-- Something that is done gives the SDP to the GSM. -/
def Action.handsOver : Action → Bool
  | .gsm _ sdp => sdp
  | _ => false

/-- A response that refuses a request. -/
def Action.refuses : Action → Bool
  | .respond _ _ statusCode => 400 ≤ statusCode
  | _ => false

structure SdpRecord where
  sdp : ParsedSdp
  handed : Bool
  refused : Bool := false
  deriving DecidableEq

/-- Two SDPs have the same session id and version. -/
def ParsedSdp.SameIds (a b : ParsedSdp) : Prop := a.sessionId = b.sessionId ∧ a.versionId = b.versionId

instance (a b : ParsedSdp) : Decidable (a.SameIds b) := inferInstanceAs (Decidable (_ ∧ _))

/-- A call, and the SDPs that have come, the last one first. -/
structure Call where
  ccb : CallCcb
  history : List SdpRecord := []
  asked : Bool := false

namespace Call

/-- The last SDP with the ids was handed to the GSM and has not been refused, and no other has been handed
to it since. -/
def Seen (history : List SdpRecord) (sdp : ParsedSdp) : Prop :=
  ∃ newer x older, history = newer ++ x :: older ∧ x.sdp.SameIds sdp ∧ x.handed = true ∧
    x.refused = false ∧ ∀ y ∈ newer, ¬ y.sdp.SameIds sdp ∧ y.handed = false

/-- The SDP that was handed over last is refused. -/
def markRefused : List SdpRecord → List SdpRecord
  | [] => []
  | x :: history => if x.handed then { x with refused := true } :: history else x :: markRefused history

/-- The GSM refuses the SDP that it was given: the INVITE or the UPDATE is answered with an error. -/
def refusal (ccb : CallCcb) : AuditEvent → Bool
  | .featureAck _ feature _ cause =>
    match ccb.state with
    | .recvMidcallInviteCcFeatureAckPending =>
      (feature == .resume || feature == .media) && CallCcb.rejectsSdp cause
    | .recvUpdateMediaCcFeatureAckPending =>
      feature != .other && CallCcb.updateCause feature cause != .ok
    | _ => false
  | _ => false

/-- What becomes of the record of the SDPs. An audit that is not refused is the SDP that was seen
before. -/
def record (history : List SdpRecord) (h : Handled) : Option ParsedSdp → List SdpRecord
  | none => history
  | some sdp =>
    if h.actions.any Action.handsOver then { sdp, handed := true } :: history
    else if h.verdict = some .sessionAudit ∧ h.actions.any Action.refuses = false then history
    else { sdp, handed := false } :: history

/-- The GSM answers what it was asked. -/
def answers (ccb : CallCcb) : AuditEvent → Bool
  | .featureAck _ feature _ _ => feature != .other &&
    (ccb.state == .recvMidcallInviteCcFeatureAckPending || ccb.state == .recvUpdateMediaCcFeatureAckPending)
  | _ => false

/-- The GSM is asked for media, with an SDP or without. -/
def asks (h : Handled) : Option Bool :=
  h.actions.findSome? fun a =>
    match a with
    | .gsm .featureMedia sdp => some sdp
    | _ => none

def step (c : Call) (e : AuditEvent) : Call :=
  let h := c.ccb.receive e
  { ccb := h.ccb
    history := record (if c.asked && refusal c.ccb e then markRefused c.history else c.history) h
      (sdpOf e.parts)
    asked := (asks h).getD (c.asked && !answers c.ccb e) }

/-- An SDP is taken for an audit only if the GSM has seen it. -/
def Audited (c : Call) (e : AuditEvent) : Prop :=
  (c.ccb.receive e).verdict = some .sessionAudit → ∀ sdp, sdpOf e.parts = some sdp → Seen c.history sdp

/-- Throughout a run only SDPs that the GSM has seen are taken for audits. -/
def AuditedThroughout : Call → List AuditEvent → Prop
  | _, [] => True
  | c, e :: es => c.Audited e ∧ AuditedThroughout (c.step e) es

end Call

/-! ## The condition -/

/-- The handler of a request in a call that is set up comes to its body. -/
def CallCcb.LooksAtRequest (ccb : CallCcb) (r : DialogRequest) : Prop :=
  if (ccb.state = .active ∨ ccb.state = .sentMidcallInvite) ∧ r.method = .invite then
    getMethodRequestTrxIndex ccb.sentRequest .invite = none ∧ (ccb.admitRequest r true).1 = none
  else if (ccb.state = .active ∨ ccb.state = .sentMidcallInvite) ∧ r.method = .update then
    getMethodRequestTrxIndex ccb.recvRequest .update = none ∧
      (ccb.admitRequest r true).1 = none ∧ r.displayValid = true ∧ r.require = false
  else if ccb.state = .recvMidcallInviteSipAckPending ∧ r.method = .ack then (ccb.admitRequest r false).1 = none
  else False

/-- The handler of an event comes to its body. -/
def CallCcb.LooksAt (ccb : CallCcb) : AuditEvent → Prop
  | .request _ r =>
    if ccb.state = .idle ∧ r.method = .invite then
      (ccb.admitRequest r.toDialogRequest false).1 = none ∧ r.refusal = none
    else if ccb.state.isEarly ∧ r.method = .update then
      getMethodRequestTrxIndex ccb.recvRequest .update = none ∧
        getMethodRequestTrxIndex ccb.sentRequest .update = none ∧
        (ccb.admitRequest r.toDialogRequest true).1 = none ∧ r.displayValid = true
    else if ccb.state = .recvInviteConnected ∧ r.method = .ack then
      (ccb.admitRequest r.toDialogRequest false).1 = none
    else ccb.LooksAtRequest r.toDialogRequest
  | .response _ r =>
    match ccb.state with
    | .sentInvite => r.method = .invite ∧ r.contactOk = true
    | .sentMidcallInvite => r.method = .invite
    | _ => False
  | _ => False

/-- An SDP with media that the handler comes to goes to the GSM, or is an audit that is not refused. -/
def CallCcb.Gives (ccb : CallCcb) (audit : Bool) : AuditEvent → Prop
  | .request _ r =>
    if ccb.state = .idle ∧ r.method = .invite then r.forwarded = false ∧ r.joinOk = true
    else if ccb.state.isEarly ∧ r.method = .update then audit = true
    else if r.method = .ack then ccb.oaState = .offerSent
    else if r.method = .update then ccb.oaState = .idle
    else True
  | .response _ _ => ccb.state = .sentMidcallInvite → ccb.featuretype ≠ .other
  | _ => True

instance CallCcb.decidableLooksAtRequest (ccb : CallCcb) (r : DialogRequest) :
    Decidable (ccb.LooksAtRequest r) :=
  inferInstanceAs (Decidable (ite _ _ (ite _ _ (ite _ _ _))))

instance CallCcb.decidableLooksAt (ccb : CallCcb) : (e : AuditEvent) → Decidable (ccb.LooksAt e)
  | .request _ r =>
    inferInstanceAs (Decidable (ite _ _ (ite _ _ (ite _ _ (ccb.LooksAtRequest r.toDialogRequest)))))
  | .response _ r =>
    match hstate : ccb.state with
    | .sentInvite => decidable_of_iff (r.method = .invite ∧ r.contactOk = true) (by simp [LooksAt, hstate])
    | .sentMidcallInvite => decidable_of_iff (r.method = .invite) (by simp [LooksAt, hstate])
    | .idle | .sentInviteConnected | .recvInvite | .recvInviteProceeding | .recvInviteAlerting
    | .recvInviteConnected | .active | .recvMidcallInviteCcFeatureAckPending
    | .recvMidcallInviteSipAckPending | .recvUpdateMediaCcFeatureAckPending | .release =>
      .isFalse (by simp [LooksAt, hstate])
  | .featureAck .. | .auditAck .. | .other _ => .isFalse id

namespace Call

/-- An event keeps the record and the ids in step: an SDP with media goes to the GSM if the handler comes
to it, an SDP that the handler does not come to is not the one whose ids are remembered, and the GSM
accepts what it is given. -/
structure Meets (c : Call) (e : AuditEvent) : Prop where
  given : ∀ sdp, sdpOf e.parts = some sdp → c.ccb.LooksAt e → sdp.mediaLines ≠ 0 →
    c.ccb.Gives (c.ccb.memory.isAudit sdp) e
  passed : ∀ sdp, sdpOf e.parts = some sdp → ¬ (c.ccb.LooksAt e ∧ sdp.mediaLines ≠ 0) →
    c.ccb.memory.isAudit sdp = false
  accepted : c.asked = true → refusal c.ccb e = false

/-- Every event of a run meets its condition. -/
def MeetsThroughout : Call → List AuditEvent → Prop
  | _, [] => True
  | c, e :: es => c.Meets e ∧ MeetsThroughout (c.step e) es

end Call

/-! ## What the handlers do to the ids -/

namespace CallCcb

variable {o : Outcome} {ccb : CallCcb}

@[simp] theorem memory_cleanRecv (method : SipMethod) : (ccb.cleanRecv method).memory = ccb.memory := rfl

@[simp] theorem memory_cleanInvite : ccb.cleanInvite.memory = ccb.memory := rfl

@[simp] theorem memory_admit (r : DialogRequest) (midcall : Bool) :
    (ccb.admitRequest r midcall).2.memory = ccb.memory := rfl

@[simp] theorem memory_takeContact (r : DialogRequest) : (ccb.takeContact r).memory = ccb.memory := by
  unfold takeContact
  split <;> rfl

@[simp] theorem memory_saveBody (data : Option Bool) : (ccb.saveBody data).memory = ccb.memory := rfl

@[simp] theorem memory_createResponse (method : SipMethod) (sendSd : Bool) :
    (ccb.createResponse o method sendSd).2.memory = ccb.memory := by
  rw [createResponse_snd]

@[simp] theorem memory_sendInviteResponse (statusCode : ℕ) (sendSd : Bool) :
    (ccb.sendInviteResponse o statusCode sendSd).2.memory = ccb.memory :=
  memory_createResponse .invite sendSd

@[simp] theorem memory_sendUpdateResponse (sendSd : Bool) (cause : CcCause) :
    (ccb.sendUpdateResponse o sendSd cause).2.memory = ccb.memory :=
  memory_createResponse .update sendSd

@[simp] theorem memory_sendErrorResponse (r : Request) (statusCode : ℕ) (withCcb : Bool) :
    (ccb.sendErrorResponse o r statusCode withCcb).2.memory = ccb.memory := by
  unfold sendErrorResponse
  split
  · split_ifs <;> rfl
  · split
    · rfl
    · dsimp only
      split_ifs <;> rfl

@[simp] theorem memory_endCall : (ccb.endCall o).ccb.memory = ccb.memory := rfl

@[simp] theorem memory_sendAck : (ccb.sendAck o).2.memory = ccb.memory := rfl

@[simp] theorem memory_answered (p : List Action × CallCcb) : (answered p).ccb.memory = p.2.memory := rfl

@[simp] theorem memory_refuseCall (p : List Action × CallCcb) : (refuseCall p).ccb.memory = p.2.memory := rfl

@[simp] theorem memory_askInvite (sdp : Bool) : (ccb.askInvite o sdp).ccb.memory = ccb.memory := by
  simp [askInvite, sendInviteResponse100]

@[simp] theorem memory_decideInvite (r : DialogRequest) (status : SdpStatus) :
    (ccb.decideInvite o r status).ccb.memory = ccb.memory := by
  cases status with
  | sessionAudit =>
    unfold decideInvite
    dsimp only
    split_ifs
    · rfl
    · simp
  | success | error | noMedia | dnsFail | notPresent => simp [decideInvite]

@[simp] theorem memory_decideAck (r : DialogRequest) (status : SdpStatus) :
    (ccb.decideAck o r status).ccb.memory = ccb.memory := by
  cases status with
  | sessionAudit | success | notPresent =>
    unfold decideAck
    dsimp only
    split_ifs <;> rfl
  | error | noMedia | dnsFail => simp [decideAck]

@[simp] theorem memory_decideUpdate (r : DialogRequest) (status : SdpStatus) :
    (ccb.decideUpdate o r status).ccb.memory = ccb.memory := by
  cases status with
  | sessionAudit | success =>
    unfold decideUpdate
    dsimp only
    split_ifs
    · simp
    · simp
    · rfl
  | error | noMedia | dnsFail | notPresent => simp [decideUpdate]

@[simp] theorem memory_setUpCall (r : CallRequest) (sdp : Bool) : (ccb.setUpCall o r sdp).ccb.memory = ccb.memory := by
  unfold setUpCall
  split_ifs
  · simp
  · simp
  · simp [sendInviteResponse100]

@[simp] theorem memory_decideSetup (r : CallRequest) (status : SdpStatus) :
    (ccb.decideSetup o r status).ccb.memory = ccb.memory := by
  cases status <;> simp [decideSetup]

@[simp] theorem memory_decideConnected (status : SdpStatus) :
    (ccb.decideConnected o status).ccb.memory = ccb.memory := by
  cases status <;> simp [decideConnected]

@[simp] theorem memory_decideMidcall2xx (status : SdpStatus) :
    (ccb.decideMidcall2xx status).ccb.memory = ccb.memory := by
  cases status <;> rfl

@[simp] theorem memory_decideConnectedAck (status : SdpStatus) :
    (ccb.decideConnectedAck o status).ccb.memory = ccb.memory := by
  cases status with
  | sessionAudit | success | noMedia | notPresent =>
    unfold decideConnectedAck
    dsimp only
    split_ifs <;> rfl
  | dnsFail | error => simp [decideConnectedAck]

@[simp] theorem memory_decideEarlyUpdate (r : CallRequest) (status : SdpStatus) :
    (ccb.decideEarlyUpdate o r status).ccb.memory = ccb.memory := by
  cases status <;> simp [decideEarlyUpdate]

/-! ## What the handlers do with an SDP -/

/-- Only an SDP with media goes to the GSM, and under a condition it does so, or is an audit that is not
refused. -/
structure Delivers (status : SdpStatus) (gives : Bool → Prop) (actions : List Action) : Prop where
  quiet : status ≠ .success → status ≠ .sessionAudit → actions.any Action.handsOver = false
  given : ∀ audit, status = (if audit then .sessionAudit else .success) → gives audit →
    actions.any Action.handsOver = true ∨ (audit = true ∧ actions.any Action.refuses = false)

theorem delivers_of_quiet {status : SdpStatus} {gives : Bool → Prop} {actions : List Action}
    (hsuccess : status ≠ .success) (haudit : status ≠ .sessionAudit)
    (hquiet : actions.any Action.handsOver = false) : Delivers status gives actions where
  quiet := fun _ _ => hquiet
  given := by
    rintro (_ | _) hstatus
    · exact absurd hstatus hsuccess
    · exact absurd hstatus haudit

theorem delivers_of_handed {status : SdpStatus} {gives : Bool → Prop} {actions : List Action}
    (hstatus : status = .success ∨ status = .sessionAudit)
    (hhanded : (∃ audit, gives audit) → actions.any Action.handsOver = true) :
    Delivers status gives actions where
  quiet := by
    rcases hstatus with rfl | rfl
    · exact fun h => absurd rfl h
    · exact fun _ h => absurd rfl h
  given := fun audit _ hgives => .inl (hhanded ⟨audit, hgives⟩)

@[simp] theorem handsOver_sent (method : SipMethod) (statusCode : ℕ) (number : Option UInt32) :
    (sent o method statusCode number).any Action.handsOver = false := by
  cases number with
  | none => rfl
  | some number =>
    unfold sent
    split_ifs <;> rfl

@[simp] theorem handsOver_sendInviteResponse (statusCode : ℕ) (sendSd : Bool) :
    (ccb.sendInviteResponse o statusCode sendSd).1.any Action.handsOver = false :=
  handsOver_sent ..

@[simp] theorem handsOver_sendUpdateResponse (sendSd : Bool) (cause : CcCause) :
    (ccb.sendUpdateResponse o sendSd cause).1.any Action.handsOver = false :=
  handsOver_sent ..

@[simp] theorem handsOver_sendErrorResponse (r : Request) (statusCode : ℕ) (withCcb : Bool) :
    (ccb.sendErrorResponse o r statusCode withCcb).1.any Action.handsOver = false := by
  unfold sendErrorResponse
  split
  · rfl
  · split
    · rfl
    · dsimp only
      split_ifs <;> rfl

@[simp] theorem handsOver_endCall : (ccb.endCall o).actions.any Action.handsOver = false := by
  simp [endCall, Action.handsOver]

@[simp] theorem handsOver_sendAck : (ccb.sendAck o).1.any Action.handsOver = false := by
  unfold sendAck
  dsimp only
  split_ifs <;> rfl

theorem decideInvite_delivers (r : DialogRequest) (status : SdpStatus) :
    Delivers status (fun _ => True) (ccb.decideInvite o r status).actions := by
  cases status with
  | success => exact delivers_of_handed (.inl rfl) fun _ => rfl
  | sessionAudit =>
    unfold decideInvite
    dsimp only
    split_ifs
    · -- the GSM is told of the audit, and nothing is refused
      exact ⟨fun _ h => absurd rfl h, fun audit hstatus _ => .inr ⟨by cases audit <;> simp_all, rfl⟩⟩
    · exact delivers_of_handed (.inr rfl) fun _ => rfl
  | error | noMedia | dnsFail | notPresent =>
    exact delivers_of_quiet (by decide) (by decide) (by
      simp [decideInvite, answered, askInvite, sendInviteResponse100, Action.handsOver])

theorem decideAck_delivers {gives : Bool → Prop} (r : DialogRequest) (status : SdpStatus)
    (hgives : ∀ audit, gives audit → ccb.oaState = .offerSent) :
    Delivers status gives (ccb.decideAck o r status).actions := by
  cases status with
  | success | sessionAudit =>
    refine delivers_of_handed (by decide) fun ⟨audit, hgiven⟩ => ?_
    simp [decideAck, hgives audit hgiven, Action.handsOver]
  | error | noMedia | dnsFail =>
    exact delivers_of_quiet (by decide) (by decide) (by simp [decideAck, answered])
  | notPresent =>
    refine delivers_of_quiet (by decide) (by decide) ?_
    unfold decideAck
    dsimp only
    split_ifs
    · simp
    · rfl

theorem decideUpdate_delivers {gives : Bool → Prop} (r : DialogRequest) (status : SdpStatus)
    (hgives : ∀ audit, gives audit → ccb.oaState = .idle) :
    Delivers status gives (ccb.decideUpdate o r status).actions := by
  cases status with
  | success | sessionAudit =>
    refine delivers_of_handed (by decide) fun ⟨audit, hgiven⟩ => ?_
    simp [decideUpdate, hgives audit hgiven, Action.handsOver]
  | error | noMedia | dnsFail | notPresent =>
    exact delivers_of_quiet (by decide) (by decide) (by simp [decideUpdate, answered, Action.handsOver])

theorem setUpCall_quiet (r : CallRequest) : (ccb.setUpCall o r false).actions.any Action.handsOver = false := by
  unfold setUpCall
  split_ifs
  · simp [refuseCall]
  · simp [refuseCall]
  · simp [sendInviteResponse100, Action.handsOver]

theorem decideSetup_delivers (r : CallRequest) (status : SdpStatus) :
    Delivers status (fun _ => r.forwarded = false ∧ r.joinOk = true)
      (ccb.decideSetup o r status).actions := by
  cases status with
  | success | sessionAudit =>
    refine delivers_of_handed (by decide) fun ⟨_, hforwarded, hjoin⟩ => ?_
    simp [decideSetup, setUpCall, hforwarded, hjoin, Action.handsOver]
  | error | noMedia | dnsFail =>
    exact delivers_of_quiet (by decide) (by decide) (by simp [decideSetup, refuseCall])
  | notPresent => exact delivers_of_quiet (by decide) (by decide) (setUpCall_quiet r)

theorem decideConnected_delivers (status : SdpStatus) :
    Delivers status (fun _ => True) (ccb.decideConnected o status).actions := by
  cases status with
  | success | sessionAudit => exact delivers_of_handed (by decide) fun _ => rfl
  | error | noMedia | dnsFail =>
    exact delivers_of_quiet (by decide) (by decide) (by simp [decideConnected])
  | notPresent => exact delivers_of_quiet (by decide) (by decide) rfl

theorem decideMidcall2xx_delivers {gives : Bool → Prop} (status : SdpStatus) (acked : List Action)
    (hacked : acked.any Action.handsOver = false) (hgives : ∀ audit, gives audit → ccb.featuretype ≠ .other) :
    Delivers status gives (acked ++ (ccb.decideMidcall2xx status).actions) := by
  cases status with
  | success | sessionAudit =>
    refine delivers_of_handed (by decide) fun ⟨audit, hgiven⟩ => ?_
    simp [decideMidcall2xx, hgives audit hgiven, Action.handsOver]
  | error | noMedia | dnsFail | notPresent =>
    exact delivers_of_quiet (by decide) (by decide) (by
      rw [List.any_append, hacked]
      rfl)

theorem decideConnectedAck_delivers {gives : Bool → Prop} (status : SdpStatus)
    (hgives : ∀ audit, gives audit → ccb.oaState = .offerSent) :
    Delivers status gives (ccb.decideConnectedAck o status).actions := by
  cases status with
  | success | sessionAudit =>
    refine delivers_of_handed (by decide) fun ⟨audit, hgiven⟩ => ?_
    simp [decideConnectedAck, hgives audit hgiven, Action.handsOver]
  | error | dnsFail =>
    exact delivers_of_quiet (by decide) (by decide) (by simp [decideConnectedAck])
  | noMedia | notPresent =>
    refine delivers_of_quiet (by decide) (by decide) ?_
    unfold decideConnectedAck
    dsimp only
    split_ifs
    · simp
    · rfl

theorem decideEarlyUpdate_delivers (r : CallRequest) (status : SdpStatus) :
    Delivers status (fun audit => audit = true) (ccb.decideEarlyUpdate o r status).actions := by
  cases status with
  | success =>
    exact ⟨fun h => absurd rfl h, fun audit hstatus haudit => by simp [haudit] at hstatus⟩
  | sessionAudit =>
    refine ⟨fun _ h => absurd rfl h, fun audit _ haudit => .inr ⟨haudit, ?_⟩⟩
    -- the answer to an UPDATE without SDP accepts it
    unfold decideEarlyUpdate answered sendUpdateResponse sent
    dsimp only
    split
    · split_ifs <;> rfl
    · rfl
  | error | noMedia | dnsFail | notPresent =>
    exact delivers_of_quiet (by decide) (by decide) (by simp [decideEarlyUpdate, answered])

/-! ## The handlers that come to a body -/

/-- The body of an event is looked at: the verdict, the ids behind it, and what is done with the SDP. -/
structure Examines (ccb : CallCcb) (gives : Bool → Prop) (parts : List BodyPart) (h : Handled) : Prop where
  verdict : h.verdict = some (ccb.memory.extract parts).1
  memory : h.ccb.memory = (ccb.memory.extract parts).2
  delivers : Delivers (ccb.memory.extract parts).1 gives h.actions

/-- The body of an event is not looked at. -/
structure Skips (ccb : CallCcb) (h : Handled) : Prop where
  verdict : h.verdict = none
  memory : h.ccb.memory = ccb.memory
  quiet : h.actions.any Action.handsOver = false

/-- A handler looks at the body of an event exactly under a condition. -/
def LooksIf (ccb : CallCcb) (p : Prop) (gives : Bool → Prop) (parts : List BodyPart) (h : Handled) : Prop :=
  (p → ccb.Examines gives parts h) ∧ (¬ p → ccb.Skips h)

section Looks

variable {p : Prop} {gives : Bool → Prop} {parts : List BodyPart} {h : Handled}

theorem looksIf_of_examines (hp : p) (hh : ccb.Examines gives parts h) : ccb.LooksIf p gives parts h :=
  ⟨fun _ => hh, fun hnot => absurd hp hnot⟩

theorem looksIf_of_skips (hp : ¬ p) (hh : ccb.Skips h) : ccb.LooksIf p gives parts h :=
  ⟨fun hyes => absurd hyes hp, fun _ => hh⟩

theorem examines_of_extract {ccb' : CallCcb} {decided : Handled} (hmemory : ccb'.memory = ccb.memory)
    (hkept : decided.ccb.memory = (ccb'.memory.extract parts).2)
    (hdelivers : Delivers (ccb'.memory.extract parts).1 gives decided.actions) :
    ccb.Examines gives parts { decided with verdict := some (ccb'.memory.extract parts).1 } := by
  rw [hmemory] at hkept hdelivers ⊢
  exact ⟨rfl, hkept, hdelivers⟩

theorem LooksIf.mono {gives' : Bool → Prop} (hh : ccb.LooksIf p gives parts h)
    (hgives : ∀ audit, gives' audit → gives audit) : ccb.LooksIf p gives' parts h := by
  refine ⟨fun hp => ?_, hh.2⟩
  obtain ⟨hverdict, hmemory, hdelivers⟩ := hh.1 hp
  exact ⟨hverdict, hmemory, hdelivers.quiet, fun audit hs hg => hdelivers.given audit hs (hgives audit hg)⟩

end Looks

@[simp] theorem oaState_takeContact (r : DialogRequest) : (ccb.takeContact r).oaState = ccb.oaState := by
  unfold takeContact
  split <;> rfl

theorem skips_sendErrorResponse {ccb' : CallCcb} (hmemory : ccb'.memory = ccb.memory) (r : Request)
    (statusCode : ℕ) (withCcb : Bool) :
    ccb.Skips (answered (ccb'.sendErrorResponse o r statusCode withCcb)) :=
  ⟨rfl, by simp [hmemory], by simp [answered]⟩

theorem idleInvite_looks (r : CallRequest) :
    ccb.LooksIf ((ccb.admitRequest r.toDialogRequest false).1 = none ∧ r.refusal = none)
      (fun _ => r.forwarded = false ∧ r.joinOk = true) r.parts (ccb.idleInvite o r) := by
  unfold idleInvite
  dsimp only
  by_cases hpassed : (ccb.admitRequest r.toDialogRequest false).1 = none
  · rw [if_neg (by simp [hpassed])]
    cases hrefusal : r.refusal with
    | none =>
      exact looksIf_of_examines ⟨hpassed, rfl⟩
        (examines_of_extract (by simp [beginDialog]) (by simp) (decideSetup_delivers r _))
    | some refusal =>
      refine looksIf_of_skips (by simp) ?_
      cases refusal with
      | byError statusCode => exact ⟨rfl, by simp [beginDialog], by simp [refuseCall]⟩
      | byInvite statusCode => exact ⟨rfl, by simp [beginDialog], by simp [refuseCall]⟩
  · rw [if_pos (by simpa [Option.isSome_iff_ne_none] using hpassed)]
    exact looksIf_of_skips (fun h => hpassed h.1) ⟨rfl, by simp, by simp [refuseCall]⟩

theorem activeInvite_looks (r : DialogRequest) :
    ccb.LooksIf (getMethodRequestTrxIndex ccb.sentRequest .invite = none ∧ (ccb.admitRequest r true).1 = none)
      (fun _ => True) r.parts (ccb.activeInvite o r) := by
  unfold activeInvite
  dsimp only
  by_cases hglare : getMethodRequestTrxIndex ccb.sentRequest .invite = none
  · rw [if_neg (by simp [hglare])]
    by_cases hpassed : (ccb.admitRequest r true).1 = none
    · rw [if_neg (by simp [hpassed])]
      exact looksIf_of_examines ⟨hglare, hpassed⟩ (examines_of_extract (by simp) (by simp) (decideInvite_delivers r _))
    · rw [if_pos (by simpa [Option.isSome_iff_ne_none] using hpassed)]
      exact looksIf_of_skips (fun h => hpassed h.2) (skips_sendErrorResponse (by simp) ..)
  · rw [if_pos (by simpa [Option.isSome_iff_ne_none] using hglare)]
    exact looksIf_of_skips (fun h => hglare h.1) (skips_sendErrorResponse rfl ..)

theorem activeUpdate_looks (r : DialogRequest) : ccb.LooksIf (getMethodRequestTrxIndex ccb.recvRequest .update = none ∧
      (ccb.admitRequest r true).1 = none ∧ r.displayValid = true ∧ r.require = false)
      (fun _ => ccb.oaState = .idle) r.parts (ccb.activeUpdate o r) := by
  unfold activeUpdate
  dsimp only
  by_cases hold : getMethodRequestTrxIndex ccb.recvRequest .update = none
  · rw [if_neg (by simp [hold])]
    by_cases hpassed : (ccb.admitRequest r true).1 = none
    · rw [if_neg (by simp [hpassed])]
      cases hdisplay : r.displayValid with
      | false => exact looksIf_of_skips (by simp) (skips_sendErrorResponse (by simp) ..)
      | true =>
        cases hrequire : r.require with
        | true => exact looksIf_of_skips (by simp) ⟨by simp; rfl, by simp, by simp [answered]⟩
        | false =>
          exact looksIf_of_examines ⟨hold, hpassed, rfl, rfl⟩ (examines_of_extract (by simp) (by simp)
            (decideUpdate_delivers r _ fun _ hidle => (oaState_takeContact r).trans hidle))
    · rw [if_pos (by simpa [Option.isSome_iff_ne_none] using hpassed)]
      exact looksIf_of_skips (fun h => hpassed h.2.1) (skips_sendErrorResponse (by simp) ..)
  · rw [if_pos (by simpa [Option.isSome_iff_ne_none] using hold)]
    exact looksIf_of_skips (fun h => hold h.1) (skips_sendErrorResponse rfl ..)

/-- An UPDATE of a call that is being set up is looked at if none is under way, and it is stored and
passes its check. -/
theorem earlyUpdate_looks (r : CallRequest) : ccb.LooksIf (getMethodRequestTrxIndex ccb.recvRequest .update = none ∧
      getMethodRequestTrxIndex ccb.sentRequest .update = none ∧
      (ccb.admitRequest r.toDialogRequest true).1 = none ∧ r.displayValid = true)
      (fun audit => audit = true) r.parts (ccb.earlyUpdate o r) := by
  unfold earlyUpdate
  dsimp only
  by_cases hold : getMethodRequestTrxIndex ccb.recvRequest .update = none
  · rw [if_neg (by simp [hold])]
    by_cases hglare : getMethodRequestTrxIndex ccb.sentRequest .update = none
    · rw [if_neg (by simp [hglare])]
      by_cases hpassed : (ccb.admitRequest r.toDialogRequest true).1 = none
      · rw [if_neg (by simp [hpassed])]
        cases hdisplay : r.displayValid with
        | false => exact looksIf_of_skips (by simp) (skips_sendErrorResponse (by simp) ..)
        | true =>
          refine looksIf_of_examines ⟨hold, hglare, hpassed, rfl⟩ ?_
          cases hincoming : (ccb.admitRequest r.toDialogRequest true).2.incoming with
          | false => exact examines_of_extract (by simp) (by simp) (decideEarlyUpdate_delivers r _)
          | true => exact examines_of_extract (by simp) (by simp) (decideEarlyUpdate_delivers r _)
      · rw [if_pos (by simpa [Option.isSome_iff_ne_none] using hpassed)]
        exact looksIf_of_skips (fun h => hpassed h.2.2.1) (skips_sendErrorResponse (by simp) ..)
    · rw [if_pos (by simpa [Option.isSome_iff_ne_none] using hglare)]
      exact looksIf_of_skips (fun h => hglare h.2.1) (skips_sendErrorResponse rfl ..)
  · rw [if_pos (by simpa [Option.isSome_iff_ne_none] using hold)]
    exact looksIf_of_skips (fun h => hold h.1) (skips_sendErrorResponse rfl ..)

theorem sipAckPendingAck_looks (r : DialogRequest) :
    ccb.LooksIf ((ccb.admitRequest r false).1 = none) (fun _ => ccb.oaState = .offerSent) r.parts
      (ccb.sipAckPendingAck o r) := by
  unfold sipAckPendingAck
  dsimp only
  by_cases hpassed : (ccb.admitRequest r false).1 = none
  · rw [if_neg (by simp [hpassed])]
    exact looksIf_of_examines hpassed
      (examines_of_extract rfl (by simp) (decideAck_delivers r _ fun _ hoffer => hoffer))
  · rw [if_pos (by simpa [Option.isSome_iff_ne_none] using hpassed)]
    exact looksIf_of_skips hpassed ⟨rfl, rfl, rfl⟩

theorem recvInviteAck_looks (r : DialogRequest) :
    ccb.LooksIf ((ccb.admitRequest r false).1 = none) (fun _ => ccb.oaState = .offerSent) r.parts
      (ccb.recvInviteAck o r) := by
  unfold recvInviteAck
  dsimp only
  by_cases hpassed : (ccb.admitRequest r false).1 = none
  · rw [if_neg (by simp [hpassed])]
    exact looksIf_of_examines hpassed
      (examines_of_extract rfl (by simp) (decideConnectedAck_delivers _ fun _ hoffer => hoffer))
  · rw [if_pos (by simpa [Option.isSome_iff_ne_none] using hpassed)]
    exact looksIf_of_skips hpassed ⟨rfl, rfl, rfl⟩

theorem defaultSipMessage_skips (r : DialogRequest) : ccb.Skips (ccb.defaultSipMessage o r) := by
  unfold defaultSipMessage
  split
  · exact ⟨rfl, rfl, rfl⟩
  · split_ifs
    · exact skips_sendErrorResponse rfl ..
    · exact ⟨rfl, rfl, rfl⟩
  · split_ifs
    · exact skips_sendErrorResponse rfl ..
    · exact ⟨rfl, rfl, rfl⟩
  · exact skips_sendErrorResponse rfl ..
  · exact ⟨rfl, rfl, rfl⟩

theorem sentInvite2xx_looks (r : SuccessResponse) :
    ccb.LooksIf (r.method = .invite ∧ r.contactOk = true) (fun _ => True) r.parts
      (ccb.sentInvite2xx o r) := by
  unfold sentInvite2xx
  dsimp only
  by_cases hmethod : r.method = .invite
  · rw [if_neg (not_not.mpr hmethod)]
    cases hcontact : r.contactOk with
    | false => exact looksIf_of_skips (by simp) ⟨by simp; rfl, by simp, by simp⟩
    | true =>
      exact looksIf_of_examines ⟨hmethod, rfl⟩ ⟨by simp, by simp, decideConnected_delivers _⟩
  · rw [if_pos hmethod]
    exact looksIf_of_skips (fun h => hmethod h.1) ⟨rfl, rfl, rfl⟩

theorem midcall2xx_looks (r : SuccessResponse) :
    ccb.LooksIf (r.method = .invite) (fun _ => ccb.featuretype ≠ .other) r.parts
      (ccb.midcall2xx o r) := by
  unfold midcall2xx
  dsimp only
  by_cases hmethod : r.method = .invite
  · rw [if_neg (not_not.mpr hmethod)]
    exact looksIf_of_examines hmethod
      ⟨by simp, by simp, decideMidcall2xx_delivers _ _ handsOver_sendAck fun _ hfeature => hfeature⟩
  · rw [if_pos hmethod]
    exact looksIf_of_skips hmethod ⟨rfl, rfl, rfl⟩

/-- What a request in a call that is set up has to meet for its SDP to go to the GSM. -/
def GivesRequest (ccb : CallCcb) (r : DialogRequest) : Prop :=
  if r.method = .ack then ccb.oaState = .offerSent
  else if r.method = .update then ccb.oaState = .idle
  else True

/-- The table of the state machine leads to a handler that looks at the body, or to one that does not. -/
theorem handleRequest_looks (r : DialogRequest) :
    ccb.LooksIf (ccb.LooksAtRequest r) (fun _ => ccb.GivesRequest r) r.parts (ccb.handleRequest o r) := by
  unfold LooksAtRequest GivesRequest
  by_cases hinvite : (ccb.state = .active ∨ ccb.state = .sentMidcallInvite) ∧ r.method = .invite
  · rw [if_pos hinvite]
    obtain ⟨hstate | hstate, hmethod⟩ := hinvite
    · simpa [handleRequest, hstate, hmethod] using activeInvite_looks r
    · simpa [handleRequest, hstate, hmethod] using activeInvite_looks r
  rw [if_neg hinvite]
  by_cases hupdate : (ccb.state = .active ∨ ccb.state = .sentMidcallInvite) ∧ r.method = .update
  · rw [if_pos hupdate]
    obtain ⟨hstate | hstate, hmethod⟩ := hupdate
    · simpa [handleRequest, hstate, hmethod] using activeUpdate_looks r
    · simpa [handleRequest, hstate, hmethod] using activeUpdate_looks r
  rw [if_neg hupdate]
  by_cases hack : ccb.state = .recvMidcallInviteSipAckPending ∧ r.method = .ack
  · rw [if_pos hack]
    simpa [handleRequest, hack.1, hack.2] using sipAckPendingAck_looks r
  rw [if_neg hack]
  refine looksIf_of_skips id ?_
  -- the rows of the table that are left answer with an error, or with the handler of the other messages
  unfold handleRequest
  split
  · exact absurd ⟨.inl ‹_›, ‹_›⟩ hinvite
  · exact absurd ⟨.inr ‹_›, ‹_›⟩ hinvite
  · exact absurd ⟨.inl ‹_›, ‹_›⟩ hupdate
  · exact absurd ⟨.inr ‹_›, ‹_›⟩ hupdate
  · exact absurd ⟨‹_›, ‹_›⟩ hack
  · exact skips_sendErrorResponse rfl ..
  · exact skips_sendErrorResponse rfl ..
  · exact ⟨rfl, rfl, rfl⟩
  · exact defaultSipMessage_skips r

theorem inviteFeatureAck_skips (feature : Feature) (data : Option Bool) (cause : CcCause) :
    ccb.Skips (ccb.inviteFeatureAck o feature data cause) := by
  cases feature with
  | hold =>
    exact ⟨rfl, by simp [inviteFeatureAck, sendInviteResponse200],
      by simp [inviteFeatureAck, sendInviteResponse200, answered]⟩
  | resume | media =>
    cases hrejects : rejectsSdp cause with
    | false =>
      exact ⟨rfl, by simp [inviteFeatureAck, sendInviteResponse200, hrejects],
        by simp [inviteFeatureAck, sendInviteResponse200, answered, hrejects]⟩
    | true =>
      exact ⟨rfl, by simp [inviteFeatureAck, hrejects], by simp [inviteFeatureAck, answered, hrejects]⟩
  | other => exact ⟨rfl, rfl, rfl⟩

theorem updateFeatureAck_skips (feature : Feature) (data : Option Bool) (cause : CcCause) :
    ccb.Skips (ccb.updateFeatureAck o feature data cause) := by
  cases feature with
  | hold | resume | media =>
    exact ⟨rfl, by simp [updateFeatureAck], by simp [updateFeatureAck, answered]⟩
  | other => exact ⟨rfl, rfl, rfl⟩

theorem receive_looks (ccb : CallCcb) (e : AuditEvent) :
    ccb.LooksIf (ccb.LooksAt e) (fun audit => ccb.Gives audit e) e.parts (ccb.receive e) := by
  cases e with
  | request o r =>
    unfold LooksAt receive receiveRequest
    dsimp only [AuditEvent.parts]
    split_ifs with hidle hearly hack
    · exact (idleInvite_looks r).mono fun audit hgives => by simpa [Gives, hidle] using hgives
    · refine (earlyUpdate_looks r).mono fun audit hgives => ?_
      simpa only [Gives, if_neg hidle, if_pos hearly] using hgives
    · refine (recvInviteAck_looks r.toDialogRequest).mono fun audit hgives => ?_
      simpa only [Gives, if_neg hidle, if_neg hearly, if_pos hack.2] using hgives
    · refine (handleRequest_looks r.toDialogRequest).mono fun audit hgives => ?_
      simpa only [Gives, if_neg hidle, if_neg hearly, GivesRequest] using hgives
  | response o r =>
    unfold LooksAt receive receive2xx
    dsimp only [AuditEvent.parts]
    split
    · exact (sentInvite2xx_looks r).mono fun _ _ => trivial
    · exact (midcall2xx_looks r).mono fun _ hgives => hgives ‹_›
    · refine looksIf_of_skips id ?_
      split_ifs
      · exact ⟨rfl, rfl, by simp [answered]⟩
      · exact ⟨rfl, rfl, rfl⟩
  | featureAck o feature data cause =>
    refine looksIf_of_skips id ?_
    unfold receive handle
    dsimp only
    split
    · exact inviteFeatureAck_skips feature data cause
    · exact updateFeatureAck_skips feature data cause
    · exact ⟨rfl, rfl, rfl⟩
  | auditAck o parts =>
    exact looksIf_of_skips id ⟨rfl, by simp [receive, handle, auditAck, sendInviteResponse200],
      by simp [receive, handle, auditAck, sendInviteResponse200, answered]⟩
  | other f => exact looksIf_of_skips id ⟨rfl, rfl, rfl⟩

end CallCcb

/-! ## The ids and the record -/

namespace SdpMemory

variable {m : SdpMemory} {parts : List BodyPart} {sdp sdp' : ParsedSdp}

theorem isAudit_iff : m.isAudit sdp = true ↔
    m.oldSessionId.isSome ∧ m.oldVersionId.isSome ∧ m.oldSessionId = sdp.sessionId ∧
      m.oldVersionId = sdp.versionId := by
  unfold isAudit
  constructor
  · intro h
    simp only [Bool.and_eq_true, beq_iff_eq] at h
    exact ⟨h.1.1.1.1.1, h.1.1.1.1.2, h.1.2, h.2⟩
  · rintro ⟨hsession, hversion, hs, hv⟩
    simp [← hs, ← hv, hsession, hversion]

theorem isAudit_congr (h : sdp.SameIds sdp') : m.isAudit sdp = m.isAudit sdp' := by
  unfold isAudit
  rw [h.1, h.2]

theorem sameIds_of_isAudit_remember (h : (remember sdp).isAudit sdp' = true) : sdp.SameIds sdp' := by
  unfold remember at h
  split_ifs at h
  · exact ⟨(isAudit_iff.mp h).2.2.1, (isAudit_iff.mp h).2.2.2⟩
  · exact absurd h (by simp [isAudit])

theorem extract_of_none (h : sdpOf parts = none) :
    (m.extract parts).2 = m ∧ (m.extract parts).1 ≠ .success ∧ (m.extract parts).1 ≠ .sessionAudit := by
  unfold extract
  unfold sdpOf at h
  split
  · simp
  · rename_i part hpart
    rw [hpart] at h
    dsimp only at h
    split_ifs
    · simp
    · rw [if_neg ‹_›] at h
      rw [h]
      simp

theorem extract_of_noMedia (h : sdpOf parts = some sdp) (hmedia : sdp.mediaLines = 0) :
    m.extract parts = (.noMedia, m) := by
  unfold extract
  unfold sdpOf at h
  split
  · rename_i hpart
    rw [hpart] at h
    exact absurd h (by simp)
  · rename_i part hpart
    rw [hpart] at h
    dsimp only at h
    split_ifs at h ⊢
    rw [h]
    dsimp only
    rw [if_pos hmedia]

theorem extract_of_media (h : sdpOf parts = some sdp) (hmedia : sdp.mediaLines ≠ 0) :
    m.extract parts = (if m.isAudit sdp then .sessionAudit else .success, remember sdp) := by
  unfold extract
  unfold sdpOf at h
  split
  · rename_i hpart
    rw [hpart] at h
    exact absurd h (by simp)
  · rename_i part hpart
    rw [hpart] at h
    dsimp only at h
    split_ifs at h ⊢ <;> simp_all

end SdpMemory

namespace Call

variable {c : Call} {e : AuditEvent} {history : List SdpRecord} {sdp sdp' : ParsedSdp}

theorem seen_cons_of_handed (h : sdp.SameIds sdp') : Seen ({ sdp, handed := true } :: history) sdp' :=
  ⟨[], { sdp, handed := true }, history, rfl, h, rfl, rfl, by simp⟩

theorem Seen.cons (h : Seen history sdp') (hother : ¬ sdp.SameIds sdp') :
    Seen ({ sdp, handed := false } :: history) sdp' := by
  obtain ⟨newer, x, older, rfl, hids, hhanded, hrefused, hnewer⟩ := h
  refine ⟨{ sdp, handed := false } :: newer, x, older, rfl, hids, hhanded, hrefused, ?_⟩
  intro y hy
  rcases List.mem_cons.mp hy with rfl | hy
  · exact ⟨hother, rfl⟩
  · exact hnewer y hy

theorem Seen.congr (h : Seen history sdp) (hids : sdp.SameIds sdp') : Seen history sdp' := by
  obtain ⟨newer, x, older, hhistory, hx, hhanded, hrefused, hnewer⟩ := h
  refine ⟨newer, x, older, hhistory, ⟨hx.1.trans hids.1, hx.2.trans hids.2⟩, hhanded, hrefused, ?_⟩
  exact fun y hy => ⟨fun hsame => (hnewer y hy).1 ⟨hsame.1.trans hids.1.symm, hsame.2.trans hids.2.symm⟩,
    (hnewer y hy).2⟩

/-- What would be taken for an audit has been seen by the GSM. -/
def Inv (c : Call) : Prop := ∀ sdp, c.ccb.memory.isAudit sdp = true → Seen c.history sdp

theorem history_step (h : c.Meets e) : (c.step e).history = record c.history (c.ccb.receive e) (sdpOf e.parts) := by
  have haccepted : (c.asked && refusal c.ccb e) = false := by
    cases hasked : c.asked with
    | false => rfl
    | true => simpa using h.accepted hasked
  unfold step
  simp only [haccepted, Bool.false_eq_true, if_false]

theorem Inv.audited (hinv : c.Inv) : c.Audited e := by
  intro hverdict sdp hsdp
  obtain ⟨hlooks, hskips⟩ := c.ccb.receive_looks e
  by_cases hp : c.ccb.LooksAt e
  · have haudit := (hlooks hp).verdict.symm.trans hverdict
    by_cases hmedia : sdp.mediaLines = 0
    · rw [SdpMemory.extract_of_noMedia hsdp hmedia] at haudit
      exact absurd haudit (by simp)
    · rw [SdpMemory.extract_of_media hsdp hmedia] at haudit
      refine hinv sdp ?_
      by_contra hnot
      simp [hnot] at haudit
  · exact absurd ((hskips hp).verdict.symm.trans hverdict) (by simp)

theorem Inv.of_passed (hinv : c.Inv) (h : c.Meets e) {h' : Handled} (hmemory : h'.ccb.memory = c.ccb.memory)
    (hquiet : h'.actions.any Action.handsOver = false) (hverdict : h'.verdict ≠ some .sessionAudit)
    (hpassed : ∀ sdp, sdpOf e.parts = some sdp → ¬ (c.ccb.LooksAt e ∧ sdp.mediaLines ≠ 0)) :
    ∀ sdp', h'.ccb.memory.isAudit sdp' = true → Seen (record c.history h' (sdpOf e.parts)) sdp' := by
  intro sdp' haudit
  rw [hmemory] at haudit
  cases hsdp : sdpOf e.parts with
  | none => exact hinv sdp' haudit
  | some sdp =>
    unfold record
    dsimp only
    rw [if_neg (by simp [hquiet]), if_neg (fun hno => hverdict hno.1)]
    refine (hinv sdp' haudit).cons fun hsame => ?_
    -- the SDP would be the one whose ids are remembered
    have hno := h.passed sdp hsdp (hpassed sdp hsdp)
    rw [SdpMemory.isAudit_congr hsame, haudit] at hno
    exact absurd hno (by simp)

/-- **The step lemma.** What is remembered stays what the GSM has seen. -/
theorem Inv.step (hinv : c.Inv) (h : c.Meets e) : (c.step e).Inv := by
  obtain ⟨hlooks, hskips⟩ := c.ccb.receive_looks e
  unfold Inv
  rw [history_step h]
  change ∀ sdp, (c.ccb.receive e).ccb.memory.isAudit sdp = true → _
  by_cases hp : c.ccb.LooksAt e
  · obtain ⟨hverdict, hmemory, hdelivers⟩ := hlooks hp
    cases hsdp : sdpOf e.parts with
    | none =>
      obtain ⟨hkept, hsuccess, haudit⟩ := SdpMemory.extract_of_none (m := c.ccb.memory) hsdp
      rw [← hsdp]
      refine hinv.of_passed h (hmemory.trans hkept) (hdelivers.quiet hsuccess haudit) ?_ ?_
      · rw [hverdict]
        simpa using haudit
      · rintro sdp hsome
        rw [hsdp] at hsome
        exact absurd hsome (by simp)
    | some sdp =>
      by_cases hmedia : sdp.mediaLines = 0
      · have hextract := SdpMemory.extract_of_noMedia (m := c.ccb.memory) hsdp hmedia
        rw [hextract] at hverdict hmemory hdelivers
        rw [← hsdp]
        refine hinv.of_passed h hmemory (hdelivers.quiet (by simp) (by simp)) (by simp [hverdict]) ?_
        intro sdp' hsome hno
        obtain rfl := Option.some.inj (hsdp.symm.trans hsome)
        exact hno.2 hmedia
      · have hextract := SdpMemory.extract_of_media (m := c.ccb.memory) hsdp hmedia
        rw [hextract] at hverdict hmemory hdelivers
        intro sdp' haudit'
        rw [hmemory] at haudit'
        have hsame := SdpMemory.sameIds_of_isAudit_remember haudit'
        unfold record
        dsimp only
        rcases hdelivers.given _ rfl (h.given sdp hsdp hp hmedia) with hhanded | ⟨haudit, hrefuses⟩
        · rw [if_pos hhanded]
          exact seen_cons_of_handed hsame
        · -- an audit that is not refused is the SDP that the GSM has
          by_cases hhanded : (c.ccb.receive e).actions.any Action.handsOver = true
          · rw [if_pos hhanded]
            exact seen_cons_of_handed hsame
          · rw [if_neg hhanded, if_pos ⟨by rw [hverdict, if_pos haudit], hrefuses⟩]
            exact (hinv sdp haudit).congr hsame
  · obtain ⟨hverdict, hmemory, hquiet⟩ := hskips hp
    exact hinv.of_passed h hmemory hquiet (by simp [hverdict]) fun _ _ hno => hp hno.1

theorem Inv.auditedThroughout : ∀ {es : List AuditEvent} {c : Call}, c.Inv → c.MeetsThroughout es →
    c.AuditedThroughout es
  | [], _, _, _ => trivial
  | _ :: _, _, hinv, h => ⟨hinv.audited, (hinv.step h.1).auditedThroughout h.2⟩

end Call

/-! ## Main result -/

/-- **Session audits are only audits.** In a run from the start of a call whose events meet their condition,
an SDP is taken for a session audit only if the last SDP with its session id and version was handed to the
GSM and has not been refused, and no other was handed to it since. -/
theorem audits_of_meets (ccb : CallCcb) (es : List AuditEvent) (hmemory : ccb.memory = {})
    (h : ({ ccb } : Call).MeetsThroughout es) : ({ ccb } : Call).AuditedThroughout es := by
  refine Call.Inv.auditedThroughout (fun sdp haudit => ?_) h
  rw [hmemory] at haudit
  exact absurd haudit (by simp [SdpMemory.isAudit])

/-- A request with a CSeq header, with an SDP or without. -/
def callRequest (cseq : CStr) (body : Bool) : CallRequest := { toDialogRequest := requestOf cseq body }

/-- An INVITE with the SDP, what the GSM answers, the ACK, and another INVITE with the same SDP. -/
def repeatedOffer (cause : CcCause) : List AuditEvent :=
  [.request {} (callRequest "1 INVITE" true), .featureAck {} .media (some true) cause,
    .request {} (callRequest "1 ACK" false), .request {} (callRequest "2 INVITE" true)]

theorem Call.meets_of_sdp {c : Call} {e : AuditEvent} (sdp : ParsedSdp)
    (hsdp : sdpOf e.parts = some sdp) (hlooks : c.ccb.LooksAt e) (hmedia : sdp.mediaLines ≠ 0)
    (hgives : ∀ audit, c.ccb.Gives audit e)
    (haccepted : refusal c.ccb e = false) : c.Meets e where
  given := fun _ _ _ _ => hgives _
  passed := by
    intro sdp' hsome hno
    obtain rfl := Option.some.inj (hsdp.symm.trans hsome)
    exact absurd ⟨hlooks, hmedia⟩ hno
  accepted := fun _ => haccepted

theorem Call.meets_of_none {c : Call} {e : AuditEvent} (hsdp : sdpOf e.parts = none)
    (haccepted : refusal c.ccb e = false) : c.Meets e where
  given := fun _ hsome => absurd (hsdp.symm.trans hsome) (by simp)
  passed := fun _ hsome => absurd (hsdp.symm.trans hsome) (by simp)
  accepted := fun _ => haccepted

/-- An offer that the GSM has accepted is an audit when it comes again. -/
theorem audits_repeatedOffer : ({ ccb := {} } : Call).AuditedThroughout (repeatedOffer .normal) := by
  refine audits_of_meets {} _ rfl ⟨?_, ?_, ?_, ?_, trivial⟩
  · exact Call.meets_of_sdp sdpBodyParsed (by decide +kernel) (by decide +kernel) (by decide)
      (fun _ => trivial) rfl
  · exact Call.meets_of_none rfl (by decide +kernel)
  · exact Call.meets_of_none rfl (by decide +kernel)
  · exact Call.meets_of_sdp sdpBodyParsed (by decide +kernel) (by decide +kernel) (by decide)
      (fun _ => trivial) rfl

theorem Call.Seen.head {x : SdpRecord} {history : List SdpRecord} {sdp : ParsedSdp}
    (h : Seen (x :: history) sdp) (hids : x.sdp.SameIds sdp) : x.refused = false := by
  obtain ⟨newer, y, older, hhistory, -, -, hrefused, hnewer⟩ := h
  cases newer with
  | nil =>
    obtain ⟨rfl, -⟩ := List.cons.inj hhistory
    exact hrefused
  | cons z newer =>
    obtain ⟨rfl, -⟩ := List.cons.inj hhistory
    exact absurd hids (hnewer x List.mem_cons_self).1

/-- An offer that the GSM has refused is taken for an audit when it comes again. -/
theorem not_audits_repeatedOffer :
    ¬ ∀ ccb es, ccb.memory = {} → ({ ccb } : Call).AuditedThroughout es := by
  intro h
  obtain ⟨-, -, -, haudited, -⟩ := h {} (repeatedOffer .payloadMismatch) rfl
  have hseen := haudited (by decide +kernel) sdpBodyParsed (by decide +kernel)
  generalize hhistory : Call.history _ = history at hseen
  have hrefused : history = [{ sdp := sdpBodyParsed, handed := true, refused := true }] :=
    hhistory.symm.trans (by decide +kernel)
  rw [hrefused] at hseen
  exact absurd (hseen.head ⟨rfl, rfl⟩) (by decide)

end Sip
