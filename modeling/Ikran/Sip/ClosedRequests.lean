import Ikran.Sip.MidCall

/-!
# Received requests are closed

A run of an established call in which the other side sends INVITEs, UPDATEs and ACKs and the GSM answers what
it is asked. Every request that is admitted takes a block, and has to give it back with its final response,
an INVITE with its ACK at the latest; every INVITE and every UPDATE that is admitted has to get one final
response; and when no request is open, the state of offer and answer has to be idle. Not all exits of the
handlers do so, and the condition of an event leaves out those that do not.

A run keeps a ledger beside the call control block: the requests that were admitted, the final responses,
the requests that the GSM was asked about, and the requests that are open.
-/

namespace Sip

open CStr

/-! ## The ledger -/

/-- Number and method of the request in a block. -/
def Transaction.key (x : Transaction) : Cseq := ⟨x.cseqNumber, x.cseqMethod⟩

/-- A request that the GSM was asked about, for an audit or for media. -/
structure Waiting where
  audit : Bool
  cseq : Cseq

/-- The INVITE or the UPDATE that the handler of an event admits. -/
def CallCcb.admits (ccb : CallCcb) : CallEvent → Option Cseq
  | .request r =>
    if (ccb.state = .active ∨ ccb.state = .sentMidcallInvite) ∧ (ccb.admitRequest r true).1 = none ∧
        ((r.method = .invite ∧ getMethodRequestTrxIndex ccb.sentRequest .invite = none) ∨
          (r.method = .update ∧ getMethodRequestTrxIndex ccb.recvRequest .update = none)) then
      r.parsedCseq
    else none
  | _ => none

/-- The final responses to INVITEs and UPDATEs among the things that are done. -/
def finalsOf (actions : List Action) : List Cseq :=
  actions.filterMap fun a =>
    match a with
    | .respond method number statusCode =>
      if 200 ≤ statusCode ∧ (method = .invite ∨ method = .update) then some ⟨number, method⟩ else none
    | _ => none

/-- The final responses to requests that were admitted. The handler of an INVITE or an UPDATE that is not
admitted answers that request. -/
def CallCcb.answers (ccb : CallCcb) (o : Outcome) (e : CallCcb.CallEvent) : List Cseq :=
  match e with
  | .request r => if r.method ≠ .ack ∧ ccb.admits e = none then [] else finalsOf (ccb.handle o e).actions
  | _ => finalsOf (ccb.handle o e).actions

/-- The GSM is asked for media or for an audit. -/
def asksGsm (actions : List Action) : Option Bool :=
  actions.findSome? fun a =>
    match a with
    | .gsm .featureMedia _ => some false
    | .gsm .audit _ => some true
    | _ => none

/-- The requests that the GSM has not answered behind an event: it answers those for media in their order,
and so those for an audit. -/
def answered (awaiting : List Waiting) : CallCcb.CallEvent → List Waiting
  | .request _ => awaiting
  | .featureAck feature _ _ => if feature = .other then awaiting else awaiting.eraseP fun w => !w.audit
  | .auditAck _ => awaiting.eraseP fun w => w.audit

/-- The number of an ACK that passes the checks of its headers. -/
def CallCcb.CallEvent.acks : CallCcb.CallEvent → Option UInt32
  | .request r =>
    if r.method = .ack then
      match r.checkHeaders with
      | .ok cseq => some cseq.number
      | .error _ => none
    else none
  | _ => none

/-- A request is closed: an UPDATE by its final response, an INVITE by its ACK. -/
def closes (e : CallCcb.CallEvent) (finals : List Cseq) (x : Cseq) : Bool :=
  (x.method == .update && finals.contains x) || (x.method == .invite && e.acks == some x.number)

/-- A call control block and its ledger. -/
structure Ledger where
  ccb : CallCcb
  admitted : List Cseq := []
  finals : List Cseq := []
  awaiting : List Waiting := []
  opened : List Cseq := []

namespace Ledger

def step (c : Ledger) (o : Outcome) (e : CallCcb.CallEvent) : Ledger :=
  let new := c.ccb.admits e
  let finals := c.ccb.answers o e
  { ccb := (c.ccb.handle o e).ccb
    admitted := new.toList ++ c.admitted
    finals := finals ++ c.finals
    awaiting :=
      (match new, asksGsm (c.ccb.handle o e).actions with
        | some cseq, some audit => [⟨audit, cseq⟩]
        | _, _ => []) ++ Sip.answered c.awaiting e
    opened := (new.toList ++ c.opened).filter fun x => !closes e finals x }

end Ledger

/-- A response that refuses a request because of another one. -/
def Action.isBusy : Action → Bool
  | .respond _ _ statusCode => statusCode == 491 || statusCode == 500
  | _ => false

/-- A request is refused because of another one: with 491 or 500, or for want of a block. -/
def CallCcb.RefusesAsBusy (ccb : CallCcb) (o : Outcome) (r : DialogRequest) : Prop :=
  (ccb.handle o (.request r)).actions.any Action.isBusy = true ∨
    ∃ midcall, (ccb.admitRequest r midcall).1 = some .tooManyTransactions

namespace Ledger

/-- Received requests are closed: a block belongs to a request that is open, every INVITE and UPDATE that
was admitted has one final response unless the GSM has not answered yet, and when no request is open the
state of offer and answer is idle and no request is refused because of another one. -/
structure Closed (c : Ledger) : Prop where
  blocks : ∀ k, c.ccb.recvRequest k ≠ {} → (c.ccb.recvRequest k).key ∈ c.opened
  finals : (c.finals ++ c.awaiting.map Waiting.cseq).Perm c.admitted
  idle : c.opened = [] → c.ccb.state ≠ .release → c.ccb.oaState = .idle
  accepts : c.opened = [] → c.ccb.state ≠ .release → ∀ o r, ¬ c.ccb.RefusesAsBusy o r

/-- Requests are closed in every state of a run. -/
def ClosedThroughout : Ledger → List (Outcome × CallCcb.CallEvent) → Prop
  | c, [] => c.Closed
  | c, (o, e) :: es => c.Closed ∧ ClosedThroughout (c.step o e) es

/-- An established call in which no request is open. -/
structure Established (c : Ledger) : Prop where
  state : c.ccb.state = .active
  oaState : c.ccb.oaState = .idle
  recv : c.ccb.recvRequest = fun _ => {}
  sent : getMethodRequestTrxIndex c.ccb.sentRequest .invite = none
  admitted : c.admitted = []
  finals : c.finals = []
  awaiting : c.awaiting = []
  opened : c.opened = []

end Ledger

/-! ## The condition -/

/-- An error can be built and sent. -/
def Outcome.SendsError (o : Outcome) : Prop := o.general = true ∧ o.sends = true

/-- A response can be built and sent, with the local body or without. -/
def Outcome.SendsResponse (o : Outcome) (sendSd localBody : Bool) : Prop :=
  o.standard = true ∧ o.general = true ∧ o.sends = true ∧
    (sendSd = true → localBody = true ∧ o.copied = true)

/-- The body of a request is no SDP with media. -/
def SdpStatus.Unacceptable (status : SdpStatus) : Prop := status = .error ∨ status = .noMedia

instance (status : SdpStatus) : Decidable status.Unacceptable := inferInstanceAs (Decidable (_ ∨ _))

namespace Ledger

/-- The response to an UPDATE whose body has been looked at can be sent, if it is sent at once. -/
def CanAnswerUpdate (ccb : CallCcb) (o : Outcome) : SdpStatus → Prop
  | .success | .sessionAudit => ccb.oaState ≠ .idle → o.SendsResponse false false
  | .error | .noMedia => o.SendsError
  | .notPresent => o.SendsResponse false false
  | .dnsFail => True

/-- The condition of a request that is admitted. The number is not the one that marks a free block; an
INVITE does not come while the block of another one is there; an UPDATE has no Require header and an
acceptable display name; and what is sent at once can be sent. -/
structure MeetsAdmitted (ccb : CallCcb) (o : Outcome) (r : DialogRequest) : Prop where
  number : ∀ cseq, r.checkHeaders = .ok cseq → cseq.number ≠ startCseq
  single : r.method = .invite → getMethodRequestTrxIndex ccb.recvRequest .invite = none
  invite : r.method = .invite → (ccb.memory.extract r.parts).1.Unacceptable → o.SendsError
  update : r.method = .update → r.displayValid = true ∧ r.require = false ∧
    CanAnswerUpdate ccb o (ccb.memory.extract r.parts).1

/-- The condition of an ACK. It does not come while the GSM is asked about an INVITE, and its body is not
refused when it has to answer an offer. -/
structure MeetsAck (c : Ledger) (r : DialogRequest) : Prop where
  answered : ∀ w ∈ c.awaiting, w.cseq.method ≠ .invite
  answer : c.ccb.state = .recvMidcallInviteSipAckPending → (c.ccb.admitRequest r false).1 = none →
    c.ccb.oaState = .offerSent → ¬ (c.ccb.memory.extract r.parts).1.Unacceptable

/-- The condition of an event: that of a request, and of an answer of the GSM that its response can be sent.
To an UPDATE the GSM has to answer with SDP, and it answers an audit only when it is asked for one. -/
def Meets (c : Ledger) (o : Outcome) : CallCcb.CallEvent → Prop
  | .request r =>
    (c.ccb.admits (.request r) ≠ none → MeetsAdmitted c.ccb o r) ∧ (r.method = .ack → c.MeetsAck r)
  | .featureAck feature data cause =>
    feature ≠ .other →
      (c.ccb.state = .recvMidcallInviteCcFeatureAckPending →
        o.SendsResponse (feature == .hold || !CallCcb.rejectsSdp cause)
          (c.ccb.localBody || data.getD false)) ∧
      (c.ccb.state = .recvUpdateMediaCcFeatureAckPending →
        data.isSome = true ∧ o.SendsResponse true (c.ccb.localBody || data.getD false))
  | .auditAck parts =>
    getMethodRequestTrxIndex c.ccb.recvRequest .invite ≠ none →
      (∃ w ∈ c.awaiting, w.audit = true) ∧ o.SendsResponse true (c.ccb.localBody || parts)

/-- Every event of a run meets its condition. -/
def MeetsThroughout : Ledger → List (Outcome × CallCcb.CallEvent) → Prop
  | _, [] => True
  | c, (o, e) :: es => c.Meets o e ∧ MeetsThroughout (c.step o e) es

end Ledger

theorem Outcome.SendsResponse.bare {o : Outcome} {a b : Bool} (h : o.SendsResponse false a) : o.SendsResponse false b :=
  ⟨h.1, h.2.1, h.2.2.1, fun hno => absurd hno Bool.false_ne_true⟩

/-! ## Storing requests -/

/-- The checks of a request change the number of the last INVITE at most: an INVITE is remembered, and an ACK
has its number. -/
theorem Ccb.checkMethod_ok {ccb ccb' : Ccb} {request : Request} {cseq : Cseq} {method : SipMethod}
    {midcall : Bool} (h : ccb.checkMethod request cseq method midcall = .ok ccb') :
    ccb' = { ccb with lastRecvInviteCseq := ccb'.lastRecvInviteCseq } ∧
      (method = .invite → ccb'.lastRecvInviteCseq = cseq.number) ∧
      (method ≠ .invite → ccb'.lastRecvInviteCseq = ccb.lastRecvInviteCseq) ∧
      (method = .ack → cseq.number = ccb.lastRecvInviteCseq) := by
  unfold Ccb.checkMethod at h
  split at h
  · split_ifs at h
    obtain rfl := Except.ok.inj h
    exact ⟨rfl, fun _ => rfl, fun hno => absurd rfl hno, nofun⟩
  · split_ifs at h
    obtain rfl := Except.ok.inj h
    exact ⟨rfl, nofun, fun _ => rfl, nofun⟩
  · split_ifs at h
    obtain rfl := Except.ok.inj h
    exact ⟨rfl, nofun, fun _ => rfl, nofun⟩
  · split_ifs at h with hnumber
    obtain rfl := Except.ok.inj h
    exact ⟨rfl, nofun, fun _ => rfl, fun _ => not_not.mp hnumber⟩
  · obtain rfl := Except.ok.inj h
    exact ⟨rfl, fun hno => absurd hno ‹_›, fun _ => rfl, fun hno => absurd hno ‹_›⟩

namespace CallCcb

variable {o : Outcome} {ccb : CallCcb} {r : DialogRequest} {midcall : Bool} {q : List Transaction}

/-- A block behind the number of the last INVITE. -/
def withInviteCseq (ccb : CallCcb) (number : UInt32) : CallCcb := { ccb with lastRecvInviteCseq := number }

def stored (ccb : CallCcb) (r : Request) (cseq : Cseq) (k : Fin maxReqOutstanding) (number : UInt32) :
    CallCcb :=
  { ccb with toCcb := { ccb.toCcb with lastRecvInviteCseq := number }.storeRequest r cseq k }

/-- What becomes of a request that is checked and stored. -/
inductive Admission (ccb : CallCcb) (r : DialogRequest) (midcall : Bool) : Prop
  | refused (e : StoreError) (number : UInt32) (herror : (ccb.admitRequest r midcall).1 = some e)
      (hfull : e = .tooManyTransactions → getNextRequestTrxIndex ccb.recvRequest = none)
      (hother : r.method ≠ .invite → number = ccb.lastRecvInviteCseq)
      (hnumber : ∀ cseq, r.checkHeaders = .ok cseq → r.method = .ack →
        getNextRequestTrxIndex ccb.recvRequest ≠ none → cseq.number ≠ ccb.lastRecvInviteCseq)
      (heq : (ccb.admitRequest r midcall).2 = ccb.withInviteCseq number)
  | stored (cseq : Cseq) (k : Fin maxReqOutstanding) (number : UInt32)
      (hnone : (ccb.admitRequest r midcall).1 = none) (hheaders : r.checkHeaders = .ok cseq)
      (hnext : getNextRequestTrxIndex ccb.recvRequest = some k)
      (hinvite : r.method = .invite → number = cseq.number)
      (hother : r.method ≠ .invite → number = ccb.lastRecvInviteCseq)
      (hack : r.method = .ack → cseq.number = ccb.lastRecvInviteCseq)
      (heq : (ccb.admitRequest r midcall).2 = ccb.stored r.toRequest cseq k number)

variable {request : Request}

theorem checkHeaders_ne_full {e : StoreError} (h : request.checkHeaders = .error e) :
    e ≠ .tooManyTransactions := by
  unfold Request.checkHeaders at h
  by_cases hcall : request.callId = none
  · rw [if_pos hcall] at h
    obtain rfl := Except.error.inj h
    decide
  rw [if_neg hcall] at h
  cases hparsed : request.parsedCseq with
  | none =>
    rw [hparsed] at h
    obtain rfl := Except.error.inj h
    decide
  | some parsed =>
    rw [hparsed] at h
    dsimp only at h
    split_ifs at h
    all_goals
      obtain rfl := Except.error.inj h
      decide

variable {cseq : Cseq}

theorem checkMethod_ne_full {c : Ccb} {method : SipMethod} {e : StoreError}
    (h : c.checkMethod request cseq method midcall = .error e) : e ≠ .tooManyTransactions := by
  unfold Ccb.checkMethod at h
  split at h
  · split_ifs at h
    all_goals
      obtain rfl := Except.error.inj h
      decide
  · split_ifs at h
    obtain rfl := Except.error.inj h
    decide
  · split_ifs at h
    obtain rfl := Except.error.inj h
    decide
  · split_ifs at h
    obtain rfl := Except.error.inj h
    decide
  · exact absurd h nofun

theorem checkMethod_ack {c : Ccb}
    (h : cseq.number = c.lastRecvInviteCseq) : c.checkMethod request cseq .ack midcall = .ok c := by
  simp [Ccb.checkMethod, h]

/-- A request is refused and its block of the last INVITE may be written, or it is stored. -/
theorem admission : Admission ccb r midcall := by
  cases hheaders : r.checkHeaders with
  | error e =>
    refine .refused e ccb.lastRecvInviteCseq ?_ (fun hfull => absurd hfull (checkHeaders_ne_full hheaders))
      (fun _ => rfl) (fun cseq hok => ?_) ?_
    · simp [admitRequest, Ccb.checkAndStore, hheaders]
    · cases hheaders.symm.trans hok
    · simp [admitRequest, Ccb.checkAndStore, hheaders, withInviteCseq]
  | ok cseq =>
    cases hmethod : ccb.toCcb.checkMethod r.toRequest cseq r.method midcall with
    | error e =>
      refine .refused e ccb.lastRecvInviteCseq ?_ (fun hfull => absurd hfull (checkMethod_ne_full hmethod))
        (fun _ => rfl) (fun cseq' hok hack _ hnumber => ?_) ?_
      · simp [admitRequest, Ccb.checkAndStore, hheaders, hmethod]
      · obtain rfl := Except.ok.inj (hheaders.symm.trans hok)
        rw [hack, checkMethod_ack hnumber] at hmethod
        cases hmethod
      · simp [admitRequest, Ccb.checkAndStore, hheaders, hmethod, withInviteCseq]
    | ok c =>
      obtain ⟨hc, hinvite, hother, hack⟩ := Ccb.checkMethod_ok hmethod
      have hrecv : c.recvRequest = ccb.recvRequest := by rw [hc]
      cases hnext : getNextRequestTrxIndex ccb.recvRequest with
      | none =>
        have hrun : ccb.toCcb.checkAndStore r.toRequest r.method midcall = (some .tooManyTransactions, c) := by
          simp [Ccb.checkAndStore, hheaders, hmethod, hrecv, hnext]
        refine .refused .tooManyTransactions c.lastRecvInviteCseq ?_ (fun _ => hnext) hother
          (fun _ _ _ hno => absurd hnext hno) ?_
        · rw [admitRequest, hrun]
        · rw [admitRequest, hrun, withInviteCseq]
          dsimp only
          rw [← hc]
      | some k =>
        have hrun : ccb.toCcb.checkAndStore r.toRequest r.method midcall =
            (none, c.storeRequest r.toRequest cseq k) := by
          simp [Ccb.checkAndStore, hheaders, hmethod, hrecv, hnext]
        refine .stored cseq k c.lastRecvInviteCseq ?_ hheaders hnext hinvite hother hack ?_
        · rw [admitRequest, hrun]
        · rw [admitRequest, hrun, CallCcb.stored]
          dsimp only
          rw [← hc]

/-! ## Responses that are sent -/

theorem getMethodRequestTrxIndex_map {t : Table} (h : Table.Holds t q) {method : SipMethod}
    (hmethod : method ≠ .invalid) :
    (getMethodRequestTrxIndex t method).map t = q.find? fun x => x.cseqMethod == method :=
  h.represents.find? (p := fun x : Transaction => x.cseqMethod == method)
    (beq_eq_false_iff_ne.mpr hmethod.symm)

theorem getMethodRequestTrxIndex_eq_none {t : Table} (h : Table.Holds t q) {method : SipMethod}
    (hmethod : method ≠ .invalid) :
    getMethodRequestTrxIndex t method = none ↔ ∀ x ∈ q, x.cseqMethod ≠ method := by
  rw [← Option.map_eq_none_iff (f := t), getMethodRequestTrxIndex_map h hmethod, List.find?_eq_none]
  simp

/-- A response that is built: one with the body answers the offer that was received, or makes one. -/
def offered (ccb : CallCcb) (sendSd : Bool) : CallCcb :=
  { ccb with
    oaState :=
      if sendSd then if ccb.oaState = .offerReceived then .idle else .offerSent else ccb.oaState }

variable {sendSd : Bool}

theorem createResponse_sends {x : Transaction} (method : SipMethod)
    (hmethod : method ≠ .invalid) (h : Table.Holds ccb.recvRequest q) (hlast : ccb.lastRequest ≠ none)
    (hfind : (q.find? fun y => y.cseqMethod == method) = some x)
    (hsends : o.SendsResponse sendSd ccb.localBody) :
    ccb.createResponse o method sendSd = (some x.cseqNumber, ccb.offered sendSd) := by
  obtain ⟨hstandard, hgeneral, -, hbody⟩ := hsends
  have hindex := getMethodRequestTrxIndex_map h hmethod
  rw [hfind] at hindex
  obtain ⟨k, hk, rfl⟩ := Option.map_eq_some_iff.mp hindex
  unfold createResponse
  rw [if_neg (by simp [hlast, hstandard]), hk]
  cases sendSd with
  | false => simp [hgeneral, offered]
  | true =>
    obtain ⟨hlocal, hcopied⟩ := hbody rfl
    simp [hgeneral, hlocal, hcopied, offered]

theorem createResponse_none {method : SipMethod} (h : Table.Holds ccb.recvRequest q)
    (hmethod : method ≠ .invalid) (hnone : ∀ x ∈ q, x.cseqMethod ≠ method) :
    ccb.createResponse o method sendSd = (none, ccb) := by
  unfold createResponse
  rw [(getMethodRequestTrxIndex_eq_none h hmethod).mpr hnone]
  exact ite_self _

variable {statusCode : ℕ}

theorem sent_some {method : SipMethod} {number : UInt32} (hsends : o.sends = true) :
    sent o method statusCode (some number) = [.respond method number statusCode] := by
  simp [sent, hsends]

theorem sendInviteResponse_sends (ccb : CallCcb) {x : Transaction}
    (h : Table.Holds ccb.recvRequest q) (hlast : ccb.lastRequest ≠ none)
    (hfind : (q.find? fun y => y.cseqMethod == .invite) = some x)
    (hsends : o.SendsResponse sendSd ccb.localBody) :
    ccb.sendInviteResponse o statusCode sendSd = ([.respond .invite x.cseqNumber statusCode], ccb.offered sendSd) := by
  rw [sendInviteResponse, createResponse_sends .invite nofun h hlast hfind hsends, sent_some hsends.2.2.1]

variable {cause : CcCause}

theorem sendUpdateResponse_sends (ccb : CallCcb) {x : Transaction}
    (h : Table.Holds ccb.recvRequest q) (hlast : ccb.lastRequest ≠ none)
    (hfind : (q.find? fun y => y.cseqMethod == .update) = some x)
    (hsends : o.SendsResponse sendSd ccb.localBody) :
    ccb.sendUpdateResponse o sendSd cause =
      ([.respond .update x.cseqNumber cause.toSip], (ccb.offered sendSd).cleanRecv .update) := by
  rw [sendUpdateResponse, createResponse_sends .update nofun h hlast hfind hsends, sent_some hsends.2.2.1]

theorem sendErrorResponse_sends (hheaders : r.checkHeaders = .ok cseq) (hsends : o.SendsError) :
    ccb.sendErrorResponse o r.toRequest statusCode true =
      ([.respond cseq.method cseq.number statusCode], ccb.cleanRecv cseq.method) := by
  obtain ⟨header, hheader, hcseq⟩ := Option.bind_eq_some_iff.mp (parsedCseq_of_checkHeaders hheaders)
  unfold sendErrorResponse
  rw [hheader]
  dsimp only
  rw [hcseq]
  simp [hsends.1, hsends.2]

theorem sendErrorResponse_snd (request : Request) (statusCode : ℕ) :
    (ccb.sendErrorResponse o request statusCode false).2 = ccb := by
  unfold sendErrorResponse
  split
  · rfl
  · split
    · rfl
    · rfl

theorem method_eq_of_checkHeaders (h : r.checkHeaders = .ok cseq) : cseq.method = r.method :=
  r.methodEq cseq (parsedCseq_of_checkHeaders h)

theorem extract_ne_dnsFail (m : SdpMemory) (parts : List BodyPart) : (m.extract parts).1 ≠ .dnsFail := by
  unfold SdpMemory.extract
  cases parts.find? BodyPart.isSdp with
  | none => nofun
  | some part =>
    by_cases hlength : part.length ≤ 0
    · simp [hlength]
    · cases hsdp : part.sdp with
      | none => simp [hlength, hsdp]
      | some sdp =>
        by_cases hmedia : sdp.mediaLines = 0
        · simp [hlength, hsdp, hmedia]
        · cases haudit : m.isAudit sdp <;> simp [hlength, hsdp, hmedia, haudit]

/-- At most one request is there, an INVITE. -/
def Invites (q : List Transaction) : Prop := q = [] ∨ ∃ x, x.cseqMethod = .invite ∧ q = [x]

/-- What the blocks hold and the GSM is asked about, by the state of the call. -/
inductive Phase (ccb : CallCcb) : List Transaction → List Waiting → Prop
  /-- No offer is under way. An INVITE that was an audit may wait for its ACK. -/
  | calm {invites : List Transaction} (hinvites : Invites invites) (hstate : ccb.state = .active)
      (hoa : ccb.oaState = .idle) : Phase ccb invites []
  | audited (x : Transaction) (hx : x.cseqMethod = .invite) (hstate : ccb.state = .active)
      (hoa : ccb.oaState = .offerReceived) (hlast : ccb.lastRequest ≠ none) :
      Phase ccb [x] [⟨true, x.key⟩]
  | asked (x : Transaction) (hx : x.cseqMethod = .invite)
      (hstate : ccb.state = .recvMidcallInviteCcFeatureAckPending)
      (hoa : ccb.oaState = .idle ∨ ccb.oaState = .offerReceived) (hlast : ccb.lastRequest ≠ none)
      (hnumber : ccb.lastRecvInviteCseq = x.cseqNumber) : Phase ccb [x] [⟨false, x.key⟩]
  /-- An INVITE is answered. It is gone if its ACK had a body that was refused. -/
  | acking {invites : List Transaction} (hinvites : Invites invites)
      (hstate : ccb.state = .recvMidcallInviteSipAckPending)
      (hoa : ccb.oaState = .idle ∨ (ccb.oaState = .offerSent ∧ invites ≠ []))
      (hnumber : ∀ x ∈ invites, ccb.lastRecvInviteCseq = x.cseqNumber)
      (hlive : ccb.lastRecvInviteCseq ≠ startCseq) : Phase ccb invites []
  | updating {invites : List Transaction} (hinvites : Invites invites) (u : Transaction)
      (hu : u.cseqMethod = .update) (hstate : ccb.state = .recvUpdateMediaCcFeatureAckPending)
      (hoa : ccb.oaState = .offerReceived) (hlast : ccb.lastRequest ≠ none) :
      Phase ccb (invites ++ [u]) [⟨false, u.key⟩]
  | released (hstate : ccb.state = .release) : Phase ccb [] []

/-- The blocks of a call in a good run. -/
structure Held (ccb : CallCcb) (q : List Transaction) (awaiting : List Waiting) : Prop where
  holds : Table.Holds ccb.recvRequest q
  phase : ccb.Phase q awaiting
  sent : ccb.state ≠ .release → getMethodRequestTrxIndex ccb.sentRequest .invite = none

/-- The requests that the GSM is asked about behind an event. -/
def waits (ccb : CallCcb) (o : Outcome) (awaiting : List Waiting) (e : CallEvent) : List Waiting :=
  (match ccb.admits e, asksGsm (ccb.handle o e).actions with
    | some cseq, some audit => [⟨audit, cseq⟩]
    | _, _ => []) ++ Sip.answered awaiting e

/-- An event of a good run: the blocks behind it, the balance of the responses, and that no request which is
closed keeps its block. -/
structure Turn (ccb : CallCcb) (o : Outcome) (e : CallEvent) (q q' : List Transaction)
    (awaiting : List Waiting) : Prop where
  held : (ccb.handle o e).ccb.Held q' (ccb.waits o awaiting e)
  balance : (ccb.answers o e ++ (ccb.waits o awaiting e).map Waiting.cseq).Perm
    ((ccb.admits e).toList ++ awaiting.map Waiting.cseq)
  blocks : ∀ x ∈ q', (x.key ∈ (ccb.admits e).toList ∨ x ∈ q) ∧ closes e (ccb.answers o e) x.key = false

/-! ## Answers of the GSM -/

variable {e : CallEvent} {x u : Transaction} {awaiting : List Waiting} {invites : List Transaction}

theorem toSip_final (cause : CcCause) : 200 ≤ cause.toSip := by
  cases cause <;> decide

theorem Invites.method (h : Invites invites) : ∀ x ∈ invites, x.cseqMethod = .invite := by
  rintro x hx
  rcases h with rfl | ⟨y, hy, rfl⟩
  · exact absurd hx List.not_mem_nil
  · rwa [List.mem_singleton.mp hx]

theorem Invites.find_update (h : Invites invites) (hu : u.cseqMethod = .update) :
    ((invites ++ [u]).find? fun y => y.cseqMethod == .update) = some u := by
  rcases h with rfl | ⟨x, hx, rfl⟩
  · simp [hu]
  · simp [hu, hx]

theorem Invites.erase_update (h : Invites invites) (hu : u.cseqMethod = .update) :
    ((invites ++ [u]).eraseP fun y => y.cseqMethod == .update) = invites := by
  rcases h with rfl | ⟨x, hx, rfl⟩
  · simp [hu]
  · simp [hu, hx]

theorem Turn.of_kept (hheld : (ccb.handle o e).ccb.Held q awaiting) (hnew : ccb.admits e = none)
    (hanswers : ccb.answers o e = []) (hanswered : Sip.answered awaiting e = awaiting)
    (hcloses : ∀ x ∈ q, closes e [] x.key = false) : ccb.Turn o e q q awaiting where
  held := by
    rw [waits, hnew, hanswered]
    exact hheld
  balance := by
    rw [waits, hnew, hanswered, hanswers]
    exact .refl _
  blocks := fun x hx => ⟨.inr hx, by rw [hanswers]; exact hcloses x hx⟩

theorem Turn.of_answer (w : Waiting) (statusCode : ℕ) {q' : List Transaction}
    (hnew : ccb.admits e = none) (hacks : e.acks = none)
    (hanswers : ccb.answers o e = finalsOf (ccb.handle o e).actions)
    (hactions : (ccb.handle o e).actions = [.respond w.cseq.method w.cseq.number statusCode])
    (hfinal : 200 ≤ statusCode) (hmethod : w.cseq.method = .invite ∨ w.cseq.method = .update)
    (hanswered : Sip.answered [w] e = []) (hheld : (ccb.handle o e).ccb.Held q' [])
    (hblocks : ∀ x ∈ q', x ∈ q ∧ x.cseqMethod = .invite) : ccb.Turn o e q q' [w] := by
  have hfinals : finalsOf (ccb.handle o e).actions = [w.cseq] := by
    rw [hactions]
    simp [finalsOf, hfinal, hmethod]
  rw [hfinals] at hanswers
  refine ⟨?_, ?_, fun x hx => ⟨.inr (hblocks x hx).1, ?_⟩⟩
  · rw [waits, hnew, hanswered]
    exact hheld
  · rw [waits, hnew, hanswered, hanswers]
    exact .refl _
  · simp [closes, hacks, Transaction.key, (hblocks x hx).2]

/-- A phase depends on a few fields only; the number of the last INVITE matters when its ACK is waited
for. -/
theorem Phase.congr {ccb' : CallCcb} (h : ccb.Phase q awaiting) (hstate : ccb'.state = ccb.state)
    (hoa : ccb'.oaState = ccb.oaState) (hlast : ccb'.lastRequest = ccb.lastRequest)
    (hnumber : ccb.state ≠ .active → ccb'.lastRecvInviteCseq = ccb.lastRecvInviteCseq) :
    ccb'.Phase q awaiting := by
  cases h with
  | calm hinvites hs ho => exact .calm hinvites (hstate.trans hs) (hoa.trans ho)
  | audited x hx hs ho hl => exact .audited x hx (hstate.trans hs) (hoa.trans ho) (hlast ▸ hl)
  | asked x hx hs ho hl hn =>
    exact .asked x hx (hstate.trans hs) (hoa ▸ ho) (hlast ▸ hl) ((hnumber (by rw [hs]; nofun)).trans hn)
  | acking hinvites hs ho hn hl =>
    have hsame := hnumber (by rw [hs]; nofun)
    exact .acking hinvites (hstate.trans hs) (hoa ▸ ho) (hsame ▸ hn) (hsame ▸ hl)
  | updating hinvites u hu hs ho hl =>
    exact .updating hinvites u hu (hstate.trans hs) (hoa.trans ho) (hlast ▸ hl)
  | released hs => exact .released (hstate.trans hs)

theorem Phase.method (h : ccb.Phase q awaiting) : ∀ x ∈ q, x.cseqMethod = .invite ∨ x.cseqMethod = .update := by
  intro y hy
  cases h with
  | calm hinvites | acking hinvites => exact .inl (hinvites.method y hy)
  | audited x hx | asked x hx => exact .inl (List.mem_singleton.mp hy ▸ hx)
  | updating hinvites u hu =>
    rcases List.mem_append.mp hy with hy | hy
    · exact .inl (hinvites.method y hy)
    · exact .inr (List.mem_singleton.mp hy ▸ hu)
  | released => exact absurd hy List.not_mem_nil

theorem Phase.state_ne (h : ccb.Phase q awaiting) : ccb.state ≠ .sentMidcallInvite := by
  cases h with
  | calm _ hs | audited _ _ hs | asked _ _ hs | acking _ hs | updating _ _ _ hs | released hs =>
    rw [hs]
    nofun

variable {feature : Feature} {data : Option Bool}

theorem inviteFeatureAck_eq (hfeature : feature ≠ .other) : ccb.inviteFeatureAck o feature data cause =
      let p :=
        if (feature == .hold || !rejectsSdp cause) = true then (ccb.saveBody data).sendInviteResponse o 200 true
        else { ccb.saveBody data with oaState := .idle }.sendInviteResponse o 488 false
      answered (p.1, { p.2 with state := .recvMidcallInviteSipAckPending }) := by
  cases feature with
  | hold => rfl
  | resume | media =>
    unfold inviteFeatureAck
    cases hrejects : rejectsSdp cause
    · rfl
    · rfl
  | other => exact absurd rfl hfeature

theorem turn_inviteFeatureAck (hholds : Table.Holds ccb.recvRequest [x]) (hx : x.cseqMethod = .invite)
    (hstate : ccb.state = .recvMidcallInviteCcFeatureAckPending)
    (hoa : ccb.oaState = .idle ∨ ccb.oaState = .offerReceived) (hlast : ccb.lastRequest ≠ none)
    (hnumber : ccb.lastRecvInviteCseq = x.cseqNumber)
    (hsent : getMethodRequestTrxIndex ccb.sentRequest .invite = none)
    (hfeature : feature ≠ .other)
    (hsends : o.SendsResponse (feature == .hold || !rejectsSdp cause) (ccb.localBody || data.getD false)) :
    ccb.Turn o (.featureAck feature data cause) [x] [x] [⟨false, x.key⟩] := by
  have hfind : ([x].find? fun y => y.cseqMethod == SipMethod.invite) = some x := by simp [hx]
  have hlive : ccb.lastRecvInviteCseq ≠ startCseq := hnumber ▸ (hholds.live x List.mem_cons_self).2
  have hanswered : Sip.answered [⟨false, x.key⟩] (.featureAck feature data cause) = [] := by
    simp [Sip.answered, hfeature]
  have hblocks : ∀ y ∈ [x], y ∈ [x] ∧ y.cseqMethod = .invite := by
    simpa using hx
  have hnumbers : ∀ y ∈ [x], ccb.lastRecvInviteCseq = y.cseqNumber := by
    simpa using hnumber
  have hhandle : ccb.handle o (.featureAck feature data cause) = ccb.inviteFeatureAck o feature data cause := by
    rw [handle, hstate]
  rw [inviteFeatureAck_eq hfeature] at hhandle
  by_cases haccept : (feature == .hold || !rejectsSdp cause) = true
  · -- the response has the answer or the offer of the GSM
    rw [haccept] at hsends
    rw [if_pos haccept, sendInviteResponse_sends (ccb.saveBody data) hholds hlast hfind hsends] at hhandle
    have hoffer : ((ccb.saveBody data).offered true).oaState = .idle ∨
        (((ccb.saveBody data).offered true).oaState = .offerSent ∧ [x] ≠ []) := by
      rcases hoa with hoa | hoa <;> simp [offered, saveBody, hoa]
    refine Turn.of_answer ⟨false, x.key⟩ 200 rfl rfl rfl ?_ le_rfl (.inl hx) hanswered ?_ hblocks
    · rw [hhandle, Transaction.key, hx]
      rfl
    · rw [hhandle]
      exact ⟨hholds, .acking (.inr ⟨x, hx, rfl⟩) rfl hoffer hnumbers hlive, fun _ => hsent⟩
  · -- the offer is rejected, and none is under way any more
    rw [Bool.eq_false_iff.mpr haccept] at hsends
    rw [if_neg haccept, sendInviteResponse_sends { ccb.saveBody data with oaState := .idle } hholds
      hlast hfind hsends] at hhandle
    refine Turn.of_answer ⟨false, x.key⟩ 488 rfl rfl rfl ?_ (by decide) (.inl hx) hanswered ?_ hblocks
    · rw [hhandle, Transaction.key, hx]
      rfl
    · rw [hhandle]
      exact ⟨hholds, .acking (.inr ⟨x, hx, rfl⟩) rfl (.inl rfl) hnumbers hlive, fun _ => hsent⟩

theorem turn_updateFeatureAck (hinvites : Invites invites)
    (hholds : Table.Holds ccb.recvRequest (invites ++ [u])) (hu : u.cseqMethod = .update)
    (hstate : ccb.state = .recvUpdateMediaCcFeatureAckPending) (hoa : ccb.oaState = .offerReceived)
    (hlast : ccb.lastRequest ≠ none)
    (hsent : getMethodRequestTrxIndex ccb.sentRequest .invite = none)
    (hfeature : feature ≠ .other) (hdata : data.isSome = true)
    (hsends : o.SendsResponse true (ccb.localBody || data.getD false)) :
    ccb.Turn o (.featureAck feature data cause) (invites ++ [u]) invites [⟨false, u.key⟩] := by
  have hhandle : ccb.handle o (.featureAck feature data cause) =
      let p := (ccb.saveBody data).sendUpdateResponse o data.isSome (updateCause feature cause)
      answered (p.1, { p.2 with state := .active }) := by
    rw [handle, hstate]
    cases feature with
    | hold | resume | media => rfl
    | other => exact absurd rfl hfeature
  rw [hdata, sendUpdateResponse_sends (ccb.saveBody data) hholds hlast (hinvites.find_update hu) hsends] at hhandle
  have hclean := hholds.clean .update
  rw [hinvites.erase_update hu] at hclean
  refine Turn.of_answer ⟨false, u.key⟩ (updateCause feature cause).toSip rfl rfl rfl ?_ (toSip_final _)
    (.inr hu) (by simp [Sip.answered, hfeature]) ?_
    fun x hx => ⟨List.mem_append_left _ hx, hinvites.method x hx⟩
  · rw [hhandle, Transaction.key, hu]
    rfl
  · rw [hhandle]
    refine ⟨hclean, .calm hinvites rfl ?_, fun _ => hsent⟩
    change ((ccb.saveBody data).offered true).oaState = .idle
    simp [offered, saveBody, hoa]

theorem turn_featureAck (h : ccb.Held q awaiting) (hmeets : feature ≠ .other →
      (ccb.state = .recvMidcallInviteCcFeatureAckPending →
        o.SendsResponse (feature == .hold || !rejectsSdp cause) (ccb.localBody || data.getD false)) ∧
      (ccb.state = .recvUpdateMediaCcFeatureAckPending →
        data.isSome = true ∧ o.SendsResponse true (ccb.localBody || data.getD false))) :
    ∃ q', ccb.Turn o (.featureAck feature data cause) q q' awaiting := by
  obtain ⟨hholds, hphase, hsent⟩ := h
  have hkept (hhandle : ccb.handle o (.featureAck feature data cause) = { ccb })
      (hawaiting : Sip.answered awaiting (.featureAck feature data cause) = awaiting) :
      ∃ q', ccb.Turn o (.featureAck feature data cause) q q' awaiting := by
    refine ⟨q, .of_kept ?_ rfl ?_ hawaiting fun _ _ => by simp [closes, CallEvent.acks]⟩
    · rw [hhandle]
      exact ⟨hholds, hphase, hsent⟩
    · change finalsOf (ccb.handle o (.featureAck feature data cause)).actions = []
      rw [hhandle]
      rfl
  cases hphase with
  | calm hinvites hstate hoa => exact hkept (by rw [handle, hstate]) (by simp [Sip.answered])
  | audited x hx hstate hoa hlast => exact hkept (by rw [handle, hstate]) (by simp [Sip.answered])
  | acking hinvites hstate hoa hnumber hlive => exact hkept (by rw [handle, hstate]) (by simp [Sip.answered])
  | released hstate => exact hkept (by rw [handle, hstate]) (by simp [Sip.answered])
  | asked x hx hstate hoa hlast hnumber =>
    by_cases hfeature : feature = .other
    · subst hfeature
      exact hkept (by rw [handle, hstate]; rfl) (by simp [Sip.answered])
    · exact ⟨_, turn_inviteFeatureAck hholds hx hstate hoa hlast hnumber
        (hsent (by rw [hstate]; rintro ⟨⟩)) hfeature ((hmeets hfeature).1 hstate)⟩
  | updating hinvites u hu hstate hoa hlast =>
    by_cases hfeature : feature = .other
    · subst hfeature
      exact hkept (by rw [handle, hstate]; rfl) (by simp [Sip.answered])
    · obtain ⟨hdata, hsends⟩ := (hmeets hfeature).2 hstate
      exact ⟨_, turn_updateFeatureAck hinvites hholds hu hstate hoa hlast
        (hsent (by rw [hstate]; rintro ⟨⟩)) hfeature hdata hsends⟩

theorem turn_auditAck (h : ccb.Held q awaiting) {parts : Bool}
    (hmeets : getMethodRequestTrxIndex ccb.recvRequest .invite ≠ none →
      (∃ w ∈ awaiting, w.audit = true) ∧ o.SendsResponse true (ccb.localBody || parts)) :
    ∃ q', ccb.Turn o (.auditAck parts) q q' awaiting := by
  obtain ⟨hholds, hphase, hsent⟩ := h
  have hhandle : ccb.handle o (.auditAck parts) =
      answered ((ccb.saveBody (some parts)).sendInviteResponse o 200 true) := rfl
  by_cases hinvite : ∀ x ∈ q, x.cseqMethod ≠ .invite
  · -- without an INVITE no response is built
    have hcreated : (ccb.saveBody (some parts)).createResponse o .invite true =
        (none, ccb.saveBody (some parts)) := createResponse_none hholds nofun hinvite
    rw [sendInviteResponse, hcreated] at hhandle
    refine ⟨q, .of_kept ?_ rfl ?_ ?_ fun _ _ => by simp [closes, CallEvent.acks]⟩
    · rw [hhandle]
      exact ⟨hholds, hphase.congr rfl rfl rfl fun _ => rfl, hsent⟩
    · change finalsOf (ccb.handle o (.auditAck parts)).actions = []
      rw [hhandle]
      rfl
    · cases hphase with
      | audited x hx => exact absurd hx (hinvite x List.mem_cons_self)
      | calm | acking | released => rfl
      | asked x hx => exact absurd hx (hinvite x List.mem_cons_self)
      | updating => rfl
  · have hindex := (getMethodRequestTrxIndex_eq_none hholds (nofun : SipMethod.invite ≠ .invalid)).not.mpr hinvite
    obtain ⟨⟨w, hw, haudit⟩, hsends⟩ := hmeets hindex
    cases hphase with
    | audited x hx hstate hoa hlast =>
      have hfind : ([x].find? fun y => y.cseqMethod == SipMethod.invite) = some x := by simp [hx]
      rw [sendInviteResponse_sends (ccb.saveBody (some parts)) hholds hlast hfind hsends] at hhandle
      refine ⟨[x], Turn.of_answer ⟨true, x.key⟩ 200 rfl rfl rfl ?_ le_rfl (.inl hx) rfl ?_ (by simpa using hx)⟩
      · rw [hhandle, Transaction.key, hx]
        rfl
      · rw [hhandle]
        refine ⟨hholds, .calm (.inr ⟨x, hx, rfl⟩) hstate ?_, hsent⟩
        change ((ccb.saveBody (some parts)).offered true).oaState = .idle
        simp [offered, saveBody, hoa]
    | calm | acking | released => exact absurd hw List.not_mem_nil
    | asked x | updating _ x =>
      rw [List.mem_singleton.mp hw] at haudit
      exact absurd haudit nofun

/-! ## Requests that are refused -/

theorem Held.cleanRecv (h : ccb.Held q awaiting) {method : SipMethod}
    (habsent : ∀ x ∈ q, x.cseqMethod ≠ method) : (ccb.cleanRecv method).Held q awaiting := by
  have hclean := h.holds.clean method
  rw [List.eraseP_of_forall_not (by simpa using habsent)] at hclean
  exact ⟨hclean, h.phase.congr rfl rfl rfl fun _ => rfl, h.sent⟩

theorem Held.sendErrorResponse (h : ccb.Held q awaiting) (habsent : ∀ x ∈ q, x.cseqMethod ≠ r.method) :
    (ccb.sendErrorResponse o r.toRequest statusCode true).2.Held q awaiting := by
  unfold CallCcb.sendErrorResponse
  split
  · refine h.cleanRecv fun x hx => ?_
    rcases h.phase.method x hx with hm | hm <;> rw [hm] <;> nofun
  · rename_i header hheader
    split
    · exact h
    · rename_i cseq hcseq
      have hmethod : cseq.method = r.method := r.methodEq cseq (by rw [Request.parsedCseq, hheader]; exact hcseq)
      exact h.cleanRecv (hmethod ▸ habsent)

theorem Held.answeredError (h : ccb.Held q awaiting) (request : Request) (statusCode : ℕ) :
    (answered (ccb.sendErrorResponse o request statusCode false)).ccb.Held q awaiting := by
  rw [answered, sendErrorResponse_snd]
  exact h

theorem Held.defaultSipMessage (h : ccb.Held q awaiting) (hack : r.method ≠ .ack) :
    (ccb.defaultSipMessage o r).ccb.Held q awaiting := by
  unfold CallCcb.defaultSipMessage
  split
  · exact absurd ‹_› hack
  · split_ifs
    · exact h.answeredError r.toRequest 500
    · exact h
  · split_ifs
    · exact h.answeredError r.toRequest 500
    · exact h
  · rename_i hcancel
    refine h.sendErrorResponse fun x hx => ?_
    rcases h.phase.method x hx with hm | hm <;> rw [hm, hcancel] <;> nofun
  · exact h

theorem Held.refused (h : ccb.Held q awaiting) (hstate : ccb.state = .active)
    (hpassed : (ccb.admitRequest r true).1 ≠ none) (statusCode : ℕ) :
    ((ccb.admitRequest r true).2.sendErrorResponse o r.toRequest statusCode false).2.Held q awaiting := by
  rw [sendErrorResponse_snd]
  cases (admission : Admission ccb r true) with
  | refused e number herror hfull hother hnumber heq =>
    rw [heq]
    exact ⟨h.holds, h.phase.congr rfl rfl rfl fun hno => absurd hstate hno, h.sent⟩
  | stored cseq k number hnone => exact absurd hnone hpassed

theorem admits_of_stored (hstate : ccb.state = .active) (hpassed : (ccb.admitRequest r true).1 = none)
    (hmethod : (r.method = .invite ∧ getMethodRequestTrxIndex ccb.sentRequest .invite = none) ∨
      (r.method = .update ∧ getMethodRequestTrxIndex ccb.recvRequest .update = none)) :
    ccb.admits (.request r) ≠ none := by
  cases (admission : Admission ccb r true) with
  | refused e number herror => exact absurd (hpassed.symm.trans herror) nofun
  | stored cseq k number hnone hheaders =>
    rw [admits, if_pos ⟨.inl hstate, hpassed, hmethod⟩, parsedCseq_of_checkHeaders hheaders]
    nofun

theorem turn_refused (h : ccb.Held q awaiting) (hack : r.method ≠ .ack)
    (hnew : ccb.admits (.request r) = none) : ccb.Turn o (.request r) q q awaiting := by
  refine .of_kept ?_ hnew (if_pos ⟨hack, hnew⟩) rfl fun x _ => by simp [closes, CallEvent.acks, hack]
  change (ccb.handleRequest o r).ccb.Held q awaiting
  unfold handleRequest
  split
  · rename_i hstate hmethod
    have hglare := h.sent (by rw [hstate]; nofun)
    have hpassed : (ccb.admitRequest r true).1 ≠ none := fun hno =>
      admits_of_stored hstate hno (.inl ⟨hmethod, hglare⟩) hnew
    unfold activeInvite
    dsimp only
    rw [if_neg (by simp [hglare]), if_pos (Option.isSome_iff_ne_none.mpr hpassed)]
    exact h.refused hstate hpassed 400
  · exact absurd ‹_› h.phase.state_ne
  · rename_i hstate hmethod
    unfold activeUpdate
    dsimp only
    by_cases hold : getMethodRequestTrxIndex ccb.recvRequest .update = none
    · have hpassed : (ccb.admitRequest r true).1 ≠ none := fun hno =>
        admits_of_stored hstate hno (.inr ⟨hmethod, hold⟩) hnew
      rw [if_neg (by simp [hold]), if_pos (Option.isSome_iff_ne_none.mpr hpassed)]
      exact h.refused hstate hpassed 400
    · rw [if_pos (Option.isSome_iff_ne_none.mpr hold)]
      exact h.answeredError r.toRequest 500
  · exact absurd ‹_› h.phase.state_ne
  · exact absurd ‹_› hack
  · exact h.answeredError r.toRequest 481
  · exact h.answeredError r.toRequest 481
  · exact h
  · exact h.defaultSipMessage hack

/-! ## Requests that are admitted -/

theorem holds_stored (h : Table.Holds ccb.recvRequest q) {k : Fin maxReqOutstanding}
    {number : UInt32} (hheaders : r.checkHeaders = .ok cseq)
    (hnext : getNextRequestTrxIndex ccb.recvRequest = some k) (hlive : cseq.number ≠ startCseq) :
    Table.Holds (ccb.stored r.toRequest cseq k number).recvRequest (q ++ [recvBlock r.toRequest cseq]) := by
  rw [h.next] at hnext
  split_ifs at hnext with hlt
  obtain rfl := Option.some.inj hnext
  have hblock : (recvBlock r.toRequest cseq).Live := ⟨method_of_checkHeaders hheaders, hlive⟩
  have hwrite := h.write hlt hblock
  rw [arrive, if_neg (not_or.mpr ⟨hblock.1, by omega⟩)] at hwrite
  have hrecv : (ccb.stored r.toRequest cseq ⟨q.length, hlt⟩ number).recvRequest =
      Function.update ccb.recvRequest ⟨q.length, hlt⟩ (recvBlock r.toRequest cseq) := by
    simp only [stored, Ccb.storeRequest, h.eq_free hlt]
    rfl
  rw [hrecv]
  exact hwrite

/-- The contact and the ids of the SDP are written. -/
def looked (ccb : CallCcb) (contact : Option CStr) (memory : SdpMemory) : CallCcb :=
  { ccb with contactInfo := contact, memory }

theorem takeContact_eq (ccb : CallCcb) (r : DialogRequest) :
    ∃ contact, ccb.takeContact r = ccb.looked contact ccb.memory := by
  unfold takeContact
  split
  · exact ⟨_, rfl⟩
  · exact ⟨ccb.contactInfo, rfl⟩

theorem createResponse_bare (method : SipMethod) : (ccb.createResponse o method false).2 = ccb := by
  unfold createResponse
  by_cases hstart : (decide (ccb.lastRequest = none) || !o.standard) = true
  · rw [if_pos hstart]
  · rw [if_neg hstart]
    cases getMethodRequestTrxIndex ccb.recvRequest method <;> rfl

theorem finalsOf_trying (method : SipMethod) (number : Option UInt32) : finalsOf (sent o method 100 number) = [] := by
  cases number with
  | none => rfl
  | some number =>
    unfold sent
    dsimp only
    split_ifs <;> rfl

theorem finalsOf_respond (hfinal : 200 ≤ statusCode) (hmethod : cseq.method = .invite ∨ cseq.method = .update) :
    finalsOf [.respond cseq.method cseq.number statusCode] = [cseq] := by
  simp [finalsOf, hfinal, hmethod]

section Admitted

variable {cseq : Cseq} {k : Fin maxReqOutstanding} {number : UInt32}

theorem Turn.of_finished (hnew : ccb.admits (.request r) = some cseq) (hack : r.method ≠ .ack)
    (hactions : finalsOf (ccb.handle o (.request r)).actions = [cseq])
    (hasks : asksGsm (ccb.handle o (.request r)).actions = none)
    (hheld : (ccb.handle o (.request r)).ccb.Held q awaiting)
    (hinvites : ∀ x ∈ q, x.cseqMethod = .invite) : ccb.Turn o (.request r) q q awaiting := by
  have hanswers : ccb.answers o (.request r) = [cseq] := by
    rw [answers, if_neg (by rw [hnew]; exact fun hno => absurd hno.2 nofun)]
    exact hactions
  have hwaits : ccb.waits o awaiting (.request r) = awaiting := by
    rw [waits, hasks]
    cases ccb.admits (.request r) <;> rfl
  refine ⟨?_, ?_, fun x hx => ⟨.inr hx, ?_⟩⟩
  · rw [hwaits]
    exact hheld
  · rw [hwaits, hanswers, hnew]
    exact .refl _
  · simp [closes, CallEvent.acks, hack, Transaction.key, hinvites x hx]

theorem Turn.of_asked (audit : Bool) {q' : List Transaction}
    (hnew : ccb.admits (.request r) = some cseq) (hack : r.method ≠ .ack)
    (hactions : finalsOf (ccb.handle o (.request r)).actions = [])
    (hasks : asksGsm (ccb.handle o (.request r)).actions = some audit)
    (hheld : (ccb.handle o (.request r)).ccb.Held q' (⟨audit, cseq⟩ :: awaiting))
    (hblocks : ∀ x ∈ q', x.key = cseq ∨ x ∈ q) : ccb.Turn o (.request r) q q' awaiting := by
  have hanswers : ccb.answers o (.request r) = [] := by
    rw [answers, if_neg (by rw [hnew]; exact fun hno => absurd hno.2 nofun)]
    exact hactions
  have hwaits : ccb.waits o awaiting (.request r) = ⟨audit, cseq⟩ :: awaiting := by
    rw [waits, hasks, hnew]
    rfl
  refine ⟨?_, ?_, fun x hx => ⟨?_, ?_⟩⟩
  · rw [hwaits]
    exact hheld
  · rw [hwaits, hanswers, hnew]
    exact .refl _
  · rw [hnew]
    exact (hblocks x hx).imp_left fun hkey => by simp [hkey]
  · simp [closes, CallEvent.acks, hack, hanswers]

theorem activeInvite_run (hglare : getMethodRequestTrxIndex ccb.sentRequest .invite = none)
    (hnone : (ccb.admitRequest r true).1 = none)
    (heq : (ccb.admitRequest r true).2 = ccb.stored r.toRequest cseq k number) :
    ∃ contact, ccb.activeInvite o r =
      { ((ccb.stored r.toRequest cseq k number).looked contact (ccb.memory.extract r.parts).2).decideInvite o
          r (ccb.memory.extract r.parts).1 with
        verdict := some (ccb.memory.extract r.parts).1 } := by
  obtain ⟨contact, hcontact⟩ := takeContact_eq (ccb.stored r.toRequest cseq k number) r
  refine ⟨contact, ?_⟩
  unfold activeInvite
  dsimp only
  rw [if_neg (by simp [hglare]), if_neg (by simp [hnone]), heq, hcontact]
  rfl

theorem activeUpdate_run (hold : getMethodRequestTrxIndex ccb.recvRequest .update = none)
    (hnone : (ccb.admitRequest r true).1 = none) (hdisplay : r.displayValid = true) (hrequire : r.require = false)
    (heq : (ccb.admitRequest r true).2 = ccb.stored r.toRequest cseq k number) :
    ∃ contact, ccb.activeUpdate o r =
      { ((ccb.stored r.toRequest cseq k number).looked contact (ccb.memory.extract r.parts).2).decideUpdate o
          r (ccb.memory.extract r.parts).1 with
        verdict := some (ccb.memory.extract r.parts).1 } := by
  obtain ⟨contact, hcontact⟩ := takeContact_eq (ccb.stored r.toRequest cseq k number) r
  refine ⟨contact, ?_⟩
  unfold activeUpdate
  dsimp only
  rw [if_neg (by simp [hold]), if_neg (by simp [hnone]), if_neg (by simp [hdisplay]),
    if_neg (by simp [hrequire]), heq, hcontact]
  rfl

theorem askInvite_eq (sdp : Bool) : ccb.askInvite o sdp =
      { ccb := { ccb with state := .recvMidcallInviteCcFeatureAckPending }
        actions := .gsm .featureMedia sdp ::
          sent o .invite 100 ({ ccb with state := .recvMidcallInviteCcFeatureAckPending }.createResponse o
            .invite false).1 } := by
  unfold askInvite sendInviteResponse100 sendInviteResponse
  dsimp only
  rw [createResponse_bare]

theorem turn_invite (hholds : Table.Holds ccb.recvRequest []) (hstate : ccb.state = .active)
    (hoa : ccb.oaState = .idle) (hglare : getMethodRequestTrxIndex ccb.sentRequest .invite = none)
    (hmethod : r.method = .invite) (hnone : (ccb.admitRequest r true).1 = none)
    (hheaders : r.checkHeaders = .ok cseq) (hnext : getNextRequestTrxIndex ccb.recvRequest = some k)
    (hnumber : number = cseq.number)
    (heq : (ccb.admitRequest r true).2 = ccb.stored r.toRequest cseq k number) (hlive : cseq.number ≠ startCseq)
    (hsends : (ccb.memory.extract r.parts).1.Unacceptable → o.SendsError) :
    ∃ q', ccb.Turn o (.request r) [] q' [] := by
  have hack : r.method ≠ .ack := by rw [hmethod]; nofun
  have hkey : cseq.method = .invite := (method_eq_of_checkHeaders hheaders).trans hmethod
  have hnew : ccb.admits (.request r) = some cseq := by
    rw [admits, if_pos ⟨.inl hstate, hnone, .inl ⟨hmethod, hglare⟩⟩, parsedCseq_of_checkHeaders hheaders]
  obtain ⟨contact, hrun⟩ := activeInvite_run (o := o) hglare hnone heq
  have hhandle : ccb.handle o (.request r) = ccb.activeInvite o r := by
    rw [handle, handleRequest, hstate, hmethod]
  rw [hrun] at hhandle
  have hstored : Table.Holds (ccb.stored r.toRequest cseq k number).recvRequest [recvBlock r.toRequest cseq] :=
    holds_stored hholds hheaders hnext hlive
  have hlast : (ccb.stored r.toRequest cseq k number).lastRequest ≠ none := nofun
  have hblocks : ∀ x ∈ [recvBlock r.toRequest cseq], x.key = cseq ∨ x ∈ ([] : List Transaction) := by
    intro x hx
    rw [List.mem_singleton.mp hx]
    exact .inl rfl
  have hstate' : (ccb.stored r.toRequest cseq k number).state = .active := hstate
  generalize hs : ccb.stored r.toRequest cseq k number = s at *
  have hsent : getMethodRequestTrxIndex s.sentRequest .invite = none := hs ▸ hglare
  have hidle : s.oaState = .idle := hs ▸ hoa
  have hcseq : s.lastRecvInviteCseq = cseq.number := hs ▸ hnumber
  -- the GSM is asked for the media, with SDP or without
  have hask (sdp : Bool) (c : CallCcb)
      (hc : c = { s.looked contact (ccb.memory.extract r.parts).2 with oaState := c.oaState })
      (hoa' : c.oaState = .idle ∨ c.oaState = .offerReceived)
      (hactions : (ccb.handle o (.request r)).actions = (c.askInvite o sdp).actions)
      (hccb : (ccb.handle o (.request r)).ccb = (c.askInvite o sdp).ccb) :
      ∃ q', ccb.Turn o (.request r) [] q' [] := by
    rw [askInvite_eq] at hactions hccb
    refine ⟨_, .of_asked false hnew hack ?_ ?_ ?_ hblocks⟩
    · rw [hactions]
      exact finalsOf_trying _ _
    · rw [hactions]
      rfl
    · rw [hccb, hc]
      rw [hc] at hoa'
      exact ⟨hstored, .asked _ hkey rfl hoa' hlast hcseq, fun _ => hsent⟩
  cases hverdict : (ccb.memory.extract r.parts).1 with
  | sessionAudit =>
    rw [hverdict, decideInvite, if_pos (.inr hstate')] at hhandle
    refine ⟨_, .of_asked true hnew hack ?_ ?_ ?_ hblocks⟩
    · rw [hhandle]
      rfl
    · rw [hhandle]
      rfl
    · rw [hhandle]
      exact ⟨hstored, .audited _ hkey hstate' rfl hlast, fun _ => hsent⟩
  | success =>
    rw [hverdict] at hhandle
    exact hask true { s.looked contact (ccb.memory.extract r.parts).2 with oaState := .offerReceived } rfl
      (.inr rfl) (by rw [hhandle]; rfl) (by rw [hhandle]; rfl)
  | notPresent =>
    rw [hverdict] at hhandle
    exact hask false (s.looked contact (ccb.memory.extract r.parts).2) rfl (.inl hidle)
      (by rw [hhandle]; rfl) (by rw [hhandle]; rfl)
  | dnsFail => exact absurd hverdict (extract_ne_dnsFail _ _)
  | error | noMedia =>
    have herror := hsends (by rw [hverdict]; decide)
    rw [hverdict, decideInvite, sendErrorResponse_sends hheaders herror, hkey] at hhandle
    have hclean := hstored.clean .invite
    have herase : ([recvBlock r.toRequest cseq].eraseP fun x => x.cseqMethod == .invite) = [] := by
      simp [recvBlock, hkey]
    rw [herase] at hclean
    refine ⟨[], .of_finished hnew hack ?_ ?_ ?_ (by simp)⟩
    · rw [hhandle]
      change finalsOf [.respond .invite cseq.number 400] = [cseq]
      rw [← hkey]
      exact finalsOf_respond (by decide) (.inl hkey)
    · rw [hhandle]
      rfl
    · rw [hhandle]
      exact ⟨hclean, .calm (.inl rfl) hstate' hidle, fun _ => hsent⟩

theorem decideUpdate_busy {status : SdpStatus} (hstatus : status = .success ∨ status = .sessionAudit)
    (hbusy : ccb.oaState ≠ .idle) :
    ∃ cause, ccb.decideUpdate o r status = answered (ccb.sendUpdateResponse o false cause) := by
  rcases hstatus with rfl | rfl
  · exact ⟨_, if_pos hbusy⟩
  · exact ⟨_, if_pos hbusy⟩

theorem decideUpdate_idle {status : SdpStatus} (hstatus : status = .success ∨ status = .sessionAudit)
    (hidle : ccb.oaState = .idle) :
    ccb.decideUpdate o r status =
      { ccb := { ccb with oaState := .offerReceived, state := .recvUpdateMediaCcFeatureAckPending }
        actions := [.gsm .featureMedia true] } := by
  rcases hstatus with rfl | rfl
  · exact if_neg (not_not.mpr hidle)
  · exact if_neg (not_not.mpr hidle)

/-- An UPDATE that is admitted. An audited INVITE may be there, and the GSM may be asked about it. -/
theorem turn_update (h : ccb.Held q awaiting) (hinvites : Invites q) (hstate : ccb.state = .active)
    (hold : getMethodRequestTrxIndex ccb.recvRequest .update = none)
    (hmethod : r.method = .update) (hnone : (ccb.admitRequest r true).1 = none)
    (hheaders : r.checkHeaders = .ok cseq) (hnext : getNextRequestTrxIndex ccb.recvRequest = some k)
    (heq : (ccb.admitRequest r true).2 = ccb.stored r.toRequest cseq k number) (hlive : cseq.number ≠ startCseq)
    (hdisplay : r.displayValid = true) (hrequire : r.require = false)
    (hsends : Ledger.CanAnswerUpdate ccb o (ccb.memory.extract r.parts).1) :
    ∃ q', ccb.Turn o (.request r) q q' awaiting := by
  have hack : r.method ≠ .ack := by rw [hmethod]; nofun
  have hkey : cseq.method = .update := (method_eq_of_checkHeaders hheaders).trans hmethod
  have hnew : ccb.admits (.request r) = some cseq := by
    rw [admits, if_pos ⟨.inl hstate, hnone, .inr ⟨hmethod, hold⟩⟩, parsedCseq_of_checkHeaders hheaders]
  have hglare := h.sent (by rw [hstate]; nofun)
  obtain ⟨contact, hrun⟩ := activeUpdate_run (o := o) hold hnone hdisplay hrequire heq
  have hhandle : ccb.handle o (.request r) = ccb.activeUpdate o r := by
    rw [handle, handleRequest, hstate, hmethod]
  rw [hrun] at hhandle
  have hstored : Table.Holds (ccb.stored r.toRequest cseq k number).recvRequest
      (q ++ [recvBlock r.toRequest cseq]) := holds_stored h.holds hheaders hnext hlive
  have hlast : (ccb.stored r.toRequest cseq k number).lastRequest ≠ none := nofun
  have hphase : (ccb.stored r.toRequest cseq k number).Phase q awaiting := by
    cases h.phase with
    | calm hinvites hs ho => exact .calm hinvites hs ho
    | audited x hx hs ho hl => exact .audited x hx hs ho nofun
    | asked _ _ hs | acking _ hs | updating _ _ _ hs | released hs =>
      exact absurd (hs.symm.trans hstate) nofun
  have hstate' : (ccb.stored r.toRequest cseq k number).state = .active := hstate
  have hsent : getMethodRequestTrxIndex (ccb.stored r.toRequest cseq k number).sentRequest .invite = none :=
    hglare
  have hoa : (ccb.stored r.toRequest cseq k number).oaState = ccb.oaState := rfl
  generalize ccb.stored r.toRequest cseq k number = s at *
  have hclean := hstored.clean .update
  rw [hinvites.erase_update hkey] at hclean
  have hfind := hinvites.find_update (u := recvBlock r.toRequest cseq) hkey
  -- the response is sent at once, and the block is released
  have hanswer (statusCode : ℕ) (hfinal : 200 ≤ statusCode) (c : CallCcb)
      (hc : c = (s.looked contact (ccb.memory.extract r.parts).2).cleanRecv .update)
      (hactions : finalsOf (ccb.handle o (.request r)).actions =
        finalsOf [.respond .update cseq.number statusCode])
      (hasks : asksGsm (ccb.handle o (.request r)).actions = none)
      (hccb : (ccb.handle o (.request r)).ccb = c) : ∃ q', ccb.Turn o (.request r) q q' awaiting := by
    refine ⟨q, .of_finished hnew hack ?_ hasks ?_ hinvites.method⟩
    · rw [hactions, ← hkey]
      exact finalsOf_respond hfinal (.inr hkey)
    · rw [hccb, hc]
      exact ⟨hclean, hphase.congr rfl rfl rfl fun _ => rfl, fun _ => hsent⟩
  cases hverdict : (ccb.memory.extract r.parts).1 with
  | success | sessionAudit =>
    have hstatus : (ccb.memory.extract r.parts).1 = .success ∨
        (ccb.memory.extract r.parts).1 = .sessionAudit := by
      rw [hverdict]
      decide
    rw [hverdict] at hsends
    by_cases hidle : ccb.oaState = .idle
    · have hidle' : (s.looked contact (ccb.memory.extract r.parts).2).oaState = .idle := hoa.trans hidle
      rw [decideUpdate_idle hstatus hidle'] at hhandle
      have hawaiting : awaiting = [] := by
        cases hphase with
        | audited x hx hs ho hl => exact absurd (ho.symm.trans (hoa.trans hidle)) nofun
        | calm => rfl
        | asked _ _ hs | acking _ hs | updating _ _ _ hs | released hs =>
          exact absurd (hs.symm.trans hstate') nofun
      subst hawaiting
      refine ⟨q ++ [recvBlock r.toRequest cseq], .of_asked false hnew hack ?_ ?_ ?_ ?_⟩
      · rw [hhandle]
        rfl
      · rw [hhandle]
        rfl
      · rw [hhandle]
        exact ⟨hstored, .updating hinvites _ hkey rfl rfl hlast, fun _ => hsent⟩
      · intro x hx
        rcases List.mem_append.mp hx with hx | hx
        · exact .inr hx
        · rw [List.mem_singleton.mp hx]
          exact .inl rfl
    · have hbusy : (s.looked contact (ccb.memory.extract r.parts).2).oaState ≠ .idle :=
        fun hno => hidle (hoa.symm.trans hno)
      obtain ⟨cause, hdecide⟩ := decideUpdate_busy (o := o) (r := r) hstatus hbusy
      rw [hdecide, sendUpdateResponse_sends (s.looked contact (ccb.memory.extract r.parts).2) hstored hlast
        hfind (hsends hidle).bare] at hhandle
      exact hanswer cause.toSip (toSip_final cause) _ rfl (by rw [hhandle]; rfl) (by rw [hhandle]; rfl)
        (by rw [hhandle]; rfl)
  | notPresent =>
    rw [hverdict] at hsends
    have hdecide (c : CallCcb) : c.decideUpdate o r .notPresent =
        { ccb := (c.sendUpdateResponse o false .ok).2
          actions := .gsm .featureUpdate false :: (c.sendUpdateResponse o false .ok).1 } := rfl
    rw [hverdict, hdecide, sendUpdateResponse_sends (s.looked contact (ccb.memory.extract r.parts).2) hstored
      hlast hfind hsends.bare] at hhandle
    exact hanswer CcCause.ok.toSip (toSip_final .ok) _ rfl (by rw [hhandle]; rfl) (by rw [hhandle]; rfl)
      (by rw [hhandle]; rfl)
  | dnsFail => exact absurd hverdict (extract_ne_dnsFail _ _)
  | error | noMedia =>
    rw [hverdict] at hsends
    rw [hverdict, decideUpdate, sendErrorResponse_sends hheaders hsends, hkey] at hhandle
    exact hanswer 400 (by decide) _ rfl (by rw [hhandle]; rfl) (by rw [hhandle]; rfl) (by rw [hhandle]; rfl)

end Admitted

/-! ## ACKs -/

theorem Invites.erase_invite (h : Invites invites) : (invites.eraseP fun y => y.cseqMethod == .invite) = [] := by
  rcases h with rfl | ⟨x, hx, rfl⟩
  · rfl
  · simp [hx]

theorem Invites.erase_front (h : Invites invites) (hu : u.cseqMethod ≠ .invite) :
    ((invites ++ [u]).eraseP fun y => y.cseqMethod == .invite) = [u] := by
  rcases h with rfl | ⟨x, hx, rfl⟩
  · simp [hu]
  · simp [hx]

theorem Invites.erase_ack (h : Invites invites) (hu : u.cseqMethod = .ack) :
    ((invites ++ [u]).eraseP fun y => y.cseqMethod == .ack) = invites := by
  rcases h with rfl | ⟨x, hx, rfl⟩
  · simp [hu]
  · simp [hu, hx]

theorem Invites.holds_clean (h : Invites invites) {t : Table} (hholds : Table.Holds t invites) :
    Table.Holds (cleanMethodRequestTrx (cleanMethodRequestTrx t .ack) .invite) [] := by
  have hack := hholds.clean .ack
  rw [List.eraseP_of_forall_not (by simpa using fun x hx => by rw [h.method x hx]; nofun)] at hack
  have hinvite := hack.clean .invite
  rwa [h.erase_invite] at hinvite

theorem recvRequest_endCall (c : CallCcb) : (c.endCall o).ccb.recvRequest = c.recvRequest := by
  change (c.toDialogCcb.sendBye o.building).2.recvRequest = c.recvRequest
  have hallocate (d : Ccb) : (d.allocateTrx .bye).2.recvRequest = d.recvRequest := by
    rw [Ccb.allocateTrx, if_neg (by decide), if_pos (by decide)]
    split <;> rfl
  unfold DialogCcb.sendBye
  split
  · rfl
  · rename_i uri _
    dsimp only
    split_ifs
    · exact hallocate _
    · exact hallocate _

theorem finalsOf_endCall : finalsOf (ccb.endCall o).actions = [] := by
  simp [endCall, finalsOf]

theorem sendErrorResponse_ack (c : CallCcb) (statusCode : ℕ) (hheaders : r.checkHeaders = .ok cseq)
    (hkey : cseq.method = .ack) :
    finalsOf (c.sendErrorResponse o r.toRequest statusCode true).1 = [] ∧
      (c.sendErrorResponse o r.toRequest statusCode true).2 = c.cleanRecv .ack := by
  obtain ⟨header, hheader, hcseq⟩ := Option.bind_eq_some_iff.mp (parsedCseq_of_checkHeaders hheaders)
  unfold sendErrorResponse
  rw [hheader]
  dsimp only
  rw [hcseq]
  dsimp only
  rw [hkey]
  refine ⟨?_, rfl⟩
  cases o.general && o.sends
  · rfl
  · simp [finalsOf]

theorem Turn.of_ack {q' : List Transaction} (hmethod : r.method = .ack)
    (hactions : finalsOf (ccb.handle o (.request r)).actions = [])
    (hheld : (ccb.handle o (.request r)).ccb.Held q' awaiting)
    (hblocks : ∀ x ∈ q', x ∈ q ∧ (x.cseqMethod = .invite → (CallEvent.request r).acks ≠ some x.cseqNumber)) :
    ccb.Turn o (.request r) q q' awaiting := by
  have hnew : ccb.admits (.request r) = none := by
    rw [admits, if_neg]
    rw [hmethod]
    rintro ⟨-, -, ⟨hno, -⟩ | ⟨hno, -⟩⟩ <;> exact absurd hno nofun
  have hanswers : ccb.answers o (.request r) = [] := by
    rw [answers, if_neg fun hno => hno.1 hmethod]
    exact hactions
  have hwaits : ccb.waits o awaiting (.request r) = awaiting := by
    rw [waits, hnew]
    rfl
  refine ⟨?_, ?_, fun x hx => ⟨.inr (hblocks x hx).1, ?_⟩⟩
  · rw [hwaits]
    exact hheld
  · rw [hwaits, hanswers, hnew]
    exact .refl _
  · rw [hanswers]
    by_cases hinvite : x.cseqMethod = .invite
    · have hnot := (hblocks x hx).2 hinvite
      simp [closes, Transaction.key, hinvite, hnot]
    · simp [closes, Transaction.key, hinvite]

theorem turn_awaitedAck (hinvites : Invites invites) (hholds : Table.Holds ccb.recvRequest invites)
    (hstate : ccb.state = .recvMidcallInviteSipAckPending)
    (hoa : ccb.oaState = .idle ∨ (ccb.oaState = .offerSent ∧ invites ≠ []))
    (hnumber : ∀ x ∈ invites, ccb.lastRecvInviteCseq = x.cseqNumber)
    (hlive : ccb.lastRecvInviteCseq ≠ startCseq)
    (hsent : getMethodRequestTrxIndex ccb.sentRequest .invite = none) (hmethod : r.method = .ack)
    (hanswer : (ccb.admitRequest r false).1 = none → ccb.oaState = .offerSent →
      ¬ (ccb.memory.extract r.parts).1.Unacceptable) :
    ∃ q', ccb.Turn o (.request r) invites q' [] := by
  have hhandle : ccb.handle o (.request r) = ccb.sipAckPendingAck o r := by
    rw [handle, handleRequest, hstate, hmethod]
  have hroom : invites.length < maxReqOutstanding := by
    rcases hinvites with rfl | ⟨x, -, rfl⟩
    · decide
    · exact show 1 < 3 by decide
  cases (admission : Admission ccb r false) with
  | refused e number herror hfull hother hnumber' heq =>
    rw [sipAckPendingAck, if_pos (by rw [herror]; rfl), heq] at hhandle
    have hnext : getNextRequestTrxIndex ccb.recvRequest ≠ none := by
      rw [hholds.next, dif_pos hroom]
      nofun
    have hsame := hother (by rw [hmethod]; nofun)
    refine ⟨invites, .of_ack hmethod ?_ ?_ fun x hx => ⟨hx, fun _ hacks => ?_⟩⟩
    · rw [hhandle]
      rfl
    · rw [hhandle]
      exact ⟨hholds, .acking hinvites hstate hoa (hsame ▸ hnumber) (hsame ▸ hlive), fun _ => hsent⟩
    · rw [CallEvent.acks, if_pos hmethod] at hacks
      cases hheaders : r.checkHeaders with
      | error e => simp [hheaders] at hacks
      | ok cseq =>
        rw [hheaders] at hacks
        exact hnumber' cseq hheaders hmethod hnext ((Option.some.inj hacks).trans (hnumber x hx).symm)
  | stored cseq k number hnone hheaders hnext hinvite hother hack heq =>
    rw [sipAckPendingAck, if_neg (by rw [hnone]; nofun), heq] at hhandle
    have hkey : cseq.method = .ack := (method_eq_of_checkHeaders hheaders).trans hmethod
    have hstored : Table.Holds (ccb.stored r.toRequest cseq k number).recvRequest
        (invites ++ [recvBlock r.toRequest cseq]) :=
      holds_stored hholds hheaders hnext (hack hmethod ▸ hlive)
    have hcleaned := hstored.clean .ack
    rw [hinvites.erase_ack hkey] at hcleaned
    have hempty : Table.Holds (ccb.stored r.toRequest cseq k number).cleanInvite.recvRequest [] := by
      have hclean := hcleaned.clean .invite
      rwa [hinvites.erase_invite] at hclean
    have hlast : number = ccb.lastRecvInviteCseq := hother (by rw [hmethod]; nofun)
    have hrun : ∃ c : CallCcb, c.recvRequest = (ccb.stored r.toRequest cseq k number).recvRequest ∧
        c.sentRequest = ccb.sentRequest ∧ c.oaState = ccb.oaState ∧ c.state = ccb.state ∧
        c.lastRecvInviteCseq = number ∧
        (ccb.handle o (.request r)).ccb = (c.decideAck o r (ccb.memory.extract r.parts).1).ccb ∧
        (ccb.handle o (.request r)).actions = (c.decideAck o r (ccb.memory.extract r.parts).1).actions := by
      refine ⟨{ ccb.stored r.toRequest cseq k number with memory := (ccb.memory.extract r.parts).2 }, rfl, rfl,
        rfl, rfl, rfl, ?_, ?_⟩
      · rw [hhandle]
        rfl
      · rw [hhandle]
        rfl
    obtain ⟨c, hrecv, hsent', hoa', hstate', hlast', hccb, hactions⟩ := hrun
    have hglare : getMethodRequestTrxIndex c.sentRequest .invite = none := by
      rw [hsent']
      exact hsent
    have hempty : c.cleanInvite.recvRequest.Holds [] := by
      have hclean := hcleaned.clean .invite
      rw [hinvites.erase_invite, ← hrecv] at hclean
      exact hclean
    -- the block is released whatever the ACK has
    have hturn (hfinals : finalsOf (c.decideAck o r (ccb.memory.extract r.parts).1).actions = [])
        (hheld : (c.decideAck o r (ccb.memory.extract r.parts).1).ccb.Held [] []) :
        ∃ q', ccb.Turn o (.request r) invites q' [] :=
      ⟨[], .of_ack hmethod (hactions ▸ hfinals) (hccb ▸ hheld) (by simp)⟩
    have hended (hdecide : c.decideAck o r (ccb.memory.extract r.parts).1 =
        { c.endCall o with ccb := (c.endCall o).ccb.cleanInvite }) :
        ∃ q', ccb.Turn o (.request r) invites q' [] := by
      refine hturn ?_ ?_
      · rw [hdecide]
        exact finalsOf_endCall
      · rw [hdecide]
        refine ⟨?_, .released rfl, fun hno => absurd rfl hno⟩
        change Table.Holds (cleanMethodRequestTrx (cleanMethodRequestTrx (c.endCall o).ccb.recvRequest .ack) .invite) []
        rw [recvRequest_endCall]
        exact hempty
    cases hverdict : (ccb.memory.extract r.parts).1 with
    | success | sessionAudit =>
      by_cases hoffer : c.oaState = .offerSent
      · rw [hverdict, decideAck, if_neg (not_not.mpr hoffer)] at hturn
        exact hturn rfl ⟨hempty, .calm (.inl rfl) rfl rfl, fun _ => hglare⟩
      · exact hended (by rw [hverdict, decideAck, if_pos hoffer])
    | error | noMedia =>
      have hidle : c.oaState = .idle := by
        rcases hoa with hoa | ⟨hoa, -⟩
        · exact hoa'.trans hoa
        · exact absurd (by rw [hverdict]; decide) (hanswer hnone hoa)
      obtain ⟨hfinals, hsnd⟩ := sendErrorResponse_ack (o := o) c 400 hheaders hkey
      rw [hverdict, decideAck, hsnd] at hturn
      refine hturn hfinals ⟨?_, .acking (.inl rfl) (hstate'.trans hstate) (.inl hidle) (by simp) ?_, fun _ => ?_⟩
      · have hagain := hinvites.holds_clean hcleaned
        rw [← hrecv] at hagain
        exact hagain
      · exact hlast'.trans hlast ▸ hlive
      · exact hglare
    | notPresent =>
      by_cases hoffer : c.oaState = .offerSent
      · exact hended (by rw [hverdict, decideAck, if_pos hoffer])
      · have hidle : c.oaState = .idle := by
          rcases hoa with hoa | ⟨hoa, -⟩
          · exact hoa'.trans hoa
          · exact absurd (hoa'.trans hoa) hoffer
        rw [hverdict, decideAck, if_neg hoffer] at hturn
        exact hturn rfl ⟨hempty, .calm (.inl rfl) rfl hidle, fun _ => hglare⟩
    | dnsFail => exact absurd hverdict (extract_ne_dnsFail _ _)

theorem turn_ack (h : ccb.Held q awaiting) (hmethod : r.method = .ack)
    (hawaiting : ∀ w ∈ awaiting, w.cseq.method ≠ .invite)
    (hanswer : ccb.state = .recvMidcallInviteSipAckPending → (ccb.admitRequest r false).1 = none →
      ccb.oaState = .offerSent → ¬ (ccb.memory.extract r.parts).1.Unacceptable) :
    ∃ q', ccb.Turn o (.request r) q q' awaiting := by
  obtain ⟨hholds, hphase, hsent⟩ := h
  have hcleaned := hholds.clean .invite
  cases hphase with
  | calm hinvites hstate hoa =>
    have hhandle : ccb.handle o (.request r) = { ccb := ccb.cleanRecv .invite } := by
      rw [handle, handleRequest, hstate, hmethod, defaultSipMessage, hmethod]
    rw [hinvites.erase_invite] at hcleaned
    refine ⟨[], .of_ack hmethod ?_ ?_ (by simp)⟩
    · rw [hhandle]
      rfl
    · rw [hhandle]
      exact ⟨hcleaned, .calm (.inl rfl) hstate hoa, hsent⟩
  | audited x hx | asked x hx => exact absurd hx (hawaiting _ List.mem_cons_self)
  | acking hinvites hstate hoa hnumber hlive =>
    exact turn_awaitedAck hinvites hholds hstate hoa hnumber hlive (hsent (by rw [hstate]; nofun)) hmethod
      (hanswer hstate)
  | updating hinvites u hu hstate hoa hlast =>
    have hhandle : ccb.handle o (.request r) = { ccb := ccb.cleanRecv .invite } := by
      rw [handle, handleRequest, hstate, hmethod, defaultSipMessage, hmethod]
    rw [hinvites.erase_front (by rw [hu]; nofun)] at hcleaned
    refine ⟨[u], .of_ack hmethod ?_ ?_ ?_⟩
    · rw [hhandle]
      rfl
    · rw [hhandle]
      exact ⟨hcleaned, .updating (.inl rfl) u hu hstate hoa hlast, hsent⟩
    · intro x hx
      obtain rfl := List.mem_singleton.mp hx
      exact ⟨by simp, fun hinvite => absurd (hu.symm.trans hinvite) nofun⟩
  | released hstate =>
    have hhandle : ccb.handle o (.request r) = { ccb } := by
      rw [handle, handleRequest, hstate, hmethod]
    refine ⟨[], .of_ack hmethod ?_ ?_ (by simp)⟩
    · rw [hhandle]
      rfl
    · rw [hhandle]
      exact ⟨hholds, .released hstate, hsent⟩

theorem turn_admitted (h : ccb.Held q awaiting) (hnew : ccb.admits (.request r) ≠ none)
    (hmeets : Ledger.MeetsAdmitted ccb o r) : ∃ q', ccb.Turn o (.request r) q q' awaiting := by
  have hcases : (ccb.state = .active ∨ ccb.state = .sentMidcallInvite) ∧ (ccb.admitRequest r true).1 = none ∧
      ((r.method = .invite ∧ getMethodRequestTrxIndex ccb.sentRequest .invite = none) ∨
        (r.method = .update ∧ getMethodRequestTrxIndex ccb.recvRequest .update = none)) := by
    by_contra hno
    exact hnew (if_neg hno)
  obtain ⟨hstate, hnone, hmethod⟩ := hcases
  replace hstate := hstate.resolve_right h.phase.state_ne
  cases (admission : Admission ccb r true) with
  | refused e number herror => exact absurd (hnone.symm.trans herror) nofun
  | stored cseq k number _ hheaders hnext hinvite hother hack heq =>
    have hlive := hmeets.number cseq hheaders
    rcases hmethod with ⟨hmethod, hglare⟩ | ⟨hmethod, hold⟩
    · have hfree : ∀ x ∈ q, x.cseqMethod ≠ .invite :=
        (getMethodRequestTrxIndex_eq_none h.holds (by decide)).mp (hmeets.single hmethod)
      obtain ⟨hholds, hphase, -⟩ := h
      cases hphase with
      | calm hinvites hs hoa =>
        rcases hinvites with rfl | ⟨x, hx, rfl⟩
        · exact turn_invite hholds hstate hoa hglare hmethod hnone hheaders hnext (hinvite hmethod) heq hlive
            (hmeets.invite hmethod)
        · exact absurd hx (hfree x List.mem_cons_self)
      | audited x hx => exact absurd hx (hfree x List.mem_cons_self)
      | asked _ _ hs | acking _ hs | updating _ _ _ hs | released hs =>
        exact absurd (hs.symm.trans hstate) nofun
    · obtain ⟨hdisplay, hrequire, hsends⟩ := hmeets.update hmethod
      have hinvites : Invites q := by
        cases h.phase with
        | calm hinvites => exact hinvites
        | audited x hx => exact .inr ⟨x, hx, rfl⟩
        | asked _ _ hs | acking _ hs | updating _ _ _ hs | released hs =>
          exact absurd (hs.symm.trans hstate) nofun
      exact turn_update h hinvites hstate hold hmethod hnone hheaders hnext heq hlive hdisplay hrequire hsends

/-! ## Requests that come when no other is open -/

theorem Phase.idle (h : ccb.Phase q awaiting) (hq : q = []) (hstate : ccb.state ≠ .release) : ccb.oaState = .idle := by
  cases h with
  | calm _ _ hoa => exact hoa
  | audited | asked => exact absurd hq (List.cons_ne_nil _ _)
  | acking _ _ hoa => exact hoa.resolve_right fun hno => hno.2 hq
  | updating => exact absurd hq (by simp)
  | released hs => exact absurd hs hstate

theorem isBusy_sent {method : SipMethod} {number : Option UInt32} (hcode : statusCode ≠ 491 ∧ statusCode ≠ 500) :
    (sent o method statusCode number).any Action.isBusy = false := by
  cases number with
  | none => rfl
  | some number =>
    unfold sent
    dsimp only
    split_ifs
    · simp [Action.isBusy, hcode]
    · rfl

theorem isBusy_sendErrorResponse {withCcb : Bool} (hcode : statusCode ≠ 491 ∧ statusCode ≠ 500) :
    (ccb.sendErrorResponse o request statusCode withCcb).1.any Action.isBusy = false := by
  unfold sendErrorResponse
  split
  · rfl
  · split
    · rfl
    · dsimp only
      split_ifs
      · simp [Action.isBusy, hcode]
      · rfl

theorem isBusy_endCall : (ccb.endCall o).actions.any Action.isBusy = false := by
  simp [endCall, Action.isBusy]

theorem isBusy_activeInvite (hglare : getMethodRequestTrxIndex ccb.sentRequest .invite = none) :
    (ccb.activeInvite o r).actions.any Action.isBusy = false := by
  unfold activeInvite
  dsimp only
  rw [if_neg (by simp [hglare])]
  split_ifs
  · exact isBusy_sendErrorResponse (by decide)
  · have hask (c : CallCcb) (sdp : Bool) : (c.askInvite o sdp).actions.any Action.isBusy = false := by
      rw [askInvite_eq]
      simpa [Action.isBusy] using isBusy_sent (by decide)
    have hverdict := extract_ne_dnsFail ((ccb.admitRequest r true).2.takeContact r).memory r.parts
    cases h : (((ccb.admitRequest r true).2.takeContact r).memory.extract r.parts).1 with
    | dnsFail => exact absurd h hverdict
    | sessionAudit =>
      unfold decideInvite
      dsimp only
      split_ifs
      · rfl
      · exact hask _ _
    | success | notPresent => exact hask _ _
    | error | noMedia => exact isBusy_sendErrorResponse (by decide)

theorem isBusy_activeUpdate (hold : getMethodRequestTrxIndex ccb.recvRequest .update = none)
    (hidle : ccb.oaState = .idle) : (ccb.activeUpdate o r).actions.any Action.isBusy = false := by
  unfold activeUpdate
  dsimp only
  rw [if_neg (by simp [hold])]
  split_ifs
  · exact isBusy_sendErrorResponse (by decide)
  · exact isBusy_sendErrorResponse (by decide)
  · exact isBusy_sent (by decide)
  · have hverdict := extract_ne_dnsFail ((ccb.admitRequest r true).2.takeContact r).memory r.parts
    have hidle' : ((ccb.admitRequest r true).2.takeContact r).oaState = .idle := by
      obtain ⟨contact, hcontact⟩ := takeContact_eq (ccb.admitRequest r true).2 r
      rw [hcontact]
      exact hidle
    cases h : (((ccb.admitRequest r true).2.takeContact r).memory.extract r.parts).1 with
    | dnsFail => exact absurd h hverdict
    | success | sessionAudit =>
      unfold decideUpdate
      dsimp only
      rw [if_neg (not_not.mpr hidle')]
      rfl
    | notPresent => exact isBusy_sent (by decide)
    | error | noMedia => exact isBusy_sendErrorResponse (by decide)

theorem isBusy_sipAckPendingAck : (ccb.sipAckPendingAck o r).actions.any Action.isBusy = false := by
  unfold sipAckPendingAck
  dsimp only
  split_ifs
  · rfl
  · cases h : ((ccb.admitRequest r false).2.memory.extract r.parts).1 with
    | dnsFail => exact absurd h (extract_ne_dnsFail _ _)
    | success | sessionAudit | notPresent =>
      unfold decideAck
      dsimp only
      split_ifs
      · exact isBusy_endCall
      · rfl
    | error | noMedia => exact isBusy_sendErrorResponse (by decide)

theorem isBusy_defaultSipMessage (h : ccb.Held [] awaiting) :
    (ccb.defaultSipMessage o r).actions.any Action.isBusy = false := by
  have hnone (method : SipMethod) (hmethod : method ≠ .invalid) :
      getMethodRequestTrxIndex ccb.recvRequest method = none :=
    (getMethodRequestTrxIndex_eq_none h.holds hmethod).mpr (by simp)
  unfold defaultSipMessage
  split
  · rfl
  · rw [if_neg (by simp [hnone .invite (by decide)])]
    rfl
  · rw [if_neg (by simp [hnone .update (by decide)])]
    rfl
  · exact isBusy_sendErrorResponse (by decide)
  · rfl

theorem not_refusesAsBusy (h : ccb.Held [] awaiting) (hstate : ccb.state ≠ .release) : ¬ ccb.RefusesAsBusy o r := by
  rintro (hbusy | ⟨midcall, hfull⟩)
  · refine absurd hbusy (Bool.eq_false_iff.mp ?_)
    have hglare := h.sent hstate
    have hold : getMethodRequestTrxIndex ccb.recvRequest .update = none :=
      (getMethodRequestTrxIndex_eq_none h.holds (by decide)).mpr (by simp)
    have hidle := h.phase.idle rfl hstate
    change (ccb.handleRequest o r).actions.any Action.isBusy = false
    unfold handleRequest
    split
    · exact isBusy_activeInvite hglare
    · exact isBusy_activeInvite hglare
    · exact isBusy_activeUpdate hold hidle
    · exact absurd ‹_› h.phase.state_ne
    · exact isBusy_sipAckPendingAck
    · exact absurd ‹_› hstate
    · exact absurd ‹_› hstate
    · rfl
    · exact isBusy_defaultSipMessage h
  · cases (admission : Admission ccb r midcall) with
    | refused e number herror hno =>
      have hnext := hno (Option.some.inj (herror.symm.trans hfull))
      rw [h.holds.next] at hnext
      exact absurd hnext nofun
    | stored cseq k number hnone => exact absurd (hnone.symm.trans hfull) nofun

end CallCcb

/-! ## Runs -/

namespace Ledger

variable {c : Ledger} {o : Outcome} {e : CallCcb.CallEvent}

/-- The blocks hold requests that are open, and the responses balance. -/
def Inv (c : Ledger) : Prop :=
  ∃ q, c.ccb.Held q c.awaiting ∧ (∀ x ∈ q, x.key ∈ c.opened) ∧
    (c.finals ++ c.awaiting.map Waiting.cseq).Perm c.admitted

theorem exists_turn {q : List Transaction} (h : c.ccb.Held q c.awaiting) (hmeets : c.Meets o e) :
    ∃ q', c.ccb.Turn o e q q' c.awaiting := by
  cases e with
  | request r =>
    by_cases hack : r.method = .ack
    · exact CallCcb.turn_ack h hack (hmeets.2 hack).answered (hmeets.2 hack).answer
    · by_cases hnew : c.ccb.admits (.request r) = none
      · exact ⟨q, CallCcb.turn_refused h hack hnew⟩
      · exact CallCcb.turn_admitted h hnew (hmeets.1 hnew)
  | featureAck feature data cause => exact CallCcb.turn_featureAck h hmeets
  | auditAck parts => exact CallCcb.turn_auditAck h hmeets

/-- **The step lemma.** An event that meets its condition keeps the invariant. -/
theorem Inv.step (h : c.Inv) (hmeets : c.Meets o e) : (c.step o e).Inv := by
  obtain ⟨q, hheld, hopen, hperm⟩ := h
  obtain ⟨q', hheld', hbalance, hblocks⟩ := exists_turn hheld hmeets
  refine ⟨q', hheld', fun x hx => ?_, ?_⟩
  · obtain ⟨hfrom, hcloses⟩ := hblocks x hx
    refine List.mem_filter.mpr ⟨List.mem_append.mpr (hfrom.imp_right (hopen x)), ?_⟩
    rw [hcloses]
    rfl
  · refine List.perm_iff_count.mpr fun a => ?_
    have hcount := hperm.count_eq a
    have hcount' := hbalance.count_eq a
    change (c.ccb.answers o e ++ c.finals ++ (c.ccb.waits o c.awaiting e).map Waiting.cseq).count a =
      ((c.ccb.admits e).toList ++ c.admitted).count a
    simp only [List.count_append] at hcount hcount' ⊢
    omega

theorem Inv.closed (h : c.Inv) : c.Closed := by
  obtain ⟨q, hheld, hopen, hperm⟩ := h
  have hnil (hopened : c.opened = []) : q = [] := by
    refine List.eq_nil_iff_forall_not_mem.mpr fun x hx => ?_
    have hmem := hopen x hx
    rw [hopened] at hmem
    exact absurd hmem List.not_mem_nil
  refine ⟨fun k hk => ?_, hperm, fun hopened hstate => ?_, fun hopened hstate o r => ?_⟩
  · by_cases hlt : k.val < q.length
    · rw [hheld.holds.represents.get_of_lt k hlt]
      exact hopen _ (List.getElem_mem hlt)
    · exact absurd (hheld.holds.represents.get_of_le k (by omega)) hk
  · exact hheld.phase.idle (hnil hopened) hstate
  · obtain rfl := hnil hopened
    exact CallCcb.not_refusesAsBusy hheld hstate

theorem Inv.closedThroughout : ∀ {es : List (Outcome × CallCcb.CallEvent)} {c : Ledger}, c.Inv →
    c.MeetsThroughout es → c.ClosedThroughout es
  | [], _, hinv, _ => hinv.closed
  | _ :: _, _, hinv, h => ⟨hinv.closed, (hinv.step h.1).closedThroughout h.2⟩

theorem Established.inv (h : c.Established) : c.Inv := by
  refine ⟨[], ⟨⟨?_, by simp⟩, ?_, fun _ => h.sent⟩, by simp, ?_⟩
  · rw [h.recv]
    exact .nil
  · rw [h.awaiting]
    exact .calm (.inl rfl) h.state h.oaState
  · rw [h.finals, h.awaiting, h.admitted]
    exact .refl _

end Ledger

/-- **Received requests are closed.** In a run of an established call whose events meet their condition,
every block belongs to an open request, every INVITE and UPDATE that is admitted has one final response
unless the GSM has not answered yet, and when no request is open the state of offer and answer is idle and no
request is refused because of another one. -/
theorem closed_of_meets {c : Ledger} (h : c.Established) (es : List (Outcome × CallCcb.CallEvent))
    (hmeets : c.MeetsThroughout es) : c.ClosedThroughout es :=
  h.inv.closedThroughout hmeets

/-- An UPDATE with SDP that the GSM accepts is closed. -/
theorem closed_update : ({ ccb := {} } : Ledger).ClosedThroughout
    [({}, .request (requestOf "1 UPDATE" true)), ({}, .featureAck .media (some true) .normal)] := by
  have hmethod : (requestOf "1 UPDATE" true).method = .update := by decide +kernel
  have hheaders : (requestOf "1 UPDATE" true).checkHeaders = .ok ⟨1, .update⟩ := by decide +kernel
  refine closed_of_meets ⟨rfl, rfl, rfl, rfl, rfl, rfl, rfl, rfl⟩ _
    ⟨⟨fun _ => ⟨fun cseq hok => ?_, fun hno => ?_, fun hno => ?_, fun _ => ⟨rfl, rfl, ?_⟩⟩,
      fun hno => ?_⟩,
      fun _ => ⟨fun hno => ?_, fun _ => ⟨rfl, rfl, rfl, rfl, fun _ => ⟨?_, rfl⟩⟩⟩, trivial⟩
  · obtain rfl := Except.ok.inj (hheaders.symm.trans hok)
    decide
  · exact absurd (hmethod.symm.trans hno) nofun
  · exact absurd (hmethod.symm.trans hno) nofun
  · exact fun hno => absurd rfl hno
  · exact absurd (hmethod.symm.trans hno) nofun
  · exact absurd hno (by decide +kernel)
  · decide +kernel

/-- Requests are not closed in every run of an established call: an UPDATE whose display name is refused, and
one with a Require header, keep their blocks, and the second one has no final response; and the answer of the
GSM to an UPDATE without SDP leaves the offer that was received. -/
theorem not_closed :
    (¬ ∀ (c : Ledger) es, c.Established → c.ClosedThroughout es) ∧
    (¬ ({ ccb := {} } : Ledger).ClosedThroughout
      [({}, .request { requestOf "1 UPDATE" false with displayValid := false })]) ∧
    (¬ ({ ccb := {} } : Ledger).ClosedThroughout
      [({}, .request { requestOf "1 UPDATE" false with require := true })]) ∧
    ¬ ({ ccb := {} } : Ledger).ClosedThroughout
      [({}, .request (requestOf "1 UPDATE" true)), ({}, .featureAck .media none .normal)] := by
  have hestablished : ({ ccb := {} } : Ledger).Established := ⟨rfl, rfl, rfl, rfl, rfl, rfl, rfl, rfl⟩
  have hdisplay : ¬ ({ ccb := {} } : Ledger).ClosedThroughout
      [({}, .request { requestOf "1 UPDATE" false with displayValid := false })] := by
    rintro ⟨-, hclosed⟩
    have hmem := hclosed.blocks ⟨0, by decide⟩ (by decide +kernel)
    exact absurd hmem (by decide +kernel)
  refine ⟨fun hall => hdisplay (hall _ _ hestablished), hdisplay, ?_, ?_⟩
  · rintro ⟨-, hclosed⟩
    have hlength := hclosed.finals.length_eq
    exact absurd hlength (by decide +kernel)
  · rintro ⟨-, -, hclosed⟩
    have hidle := hclosed.idle (by decide +kernel) (by decide +kernel)
    exact absurd hidle (by decide +kernel)

end Sip
