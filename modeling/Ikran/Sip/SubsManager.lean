import Ikran.Lib.CString
import Ikran.Lib.Pool
import Ikran.Sip.Notify

/-!
# The subscription manager

The table of subscriptions (SCBs) in `ccsip_subsmanager.c`. An application registers for an event, subscribes,
notifies and answers; the network subscribes, notifies and answers; timers send again, renew and clean up.

A handler that still has work to do after it has called an application leaves a frame. The application may send
requests before it returns, and the frame is finished when it does. A handler whose last act is the call leaves
none, as a request that comes inside finds the same table as one that comes later. What a request contains is a
decision of its sender, and so is the time that is left of a subscription.
-/

namespace Sip.SubsManager

open Notify (Request SmState Method Task Outcome)
open Publish (Config)

/-! ## Data -/

abbrev maxScbs : ℕ := 102

def limitScbsUsage : ℕ := 82

def maxSipCallId : ℕ := 128

/-- A place in the table. -/
abbrev ScbIndex := Fin maxScbs

/-- The events that can be subscribed to (`cc_subscriptions_t`). -/
inductive EventPackage
  | none
  | xfer
  | dialog
  | config
  | kpml
  | presence
  | remotecc
  | remoteccOptionsind
  | configapp
  | mediaInfo
  deriving DecidableEq

/-- A subscription (`sipSCB_t`), as `initialize_scb` leaves it when nothing is given. -/
structure Scb extends Notify.Scb where
  /-- `hb.sipCallID` -/
  callID : CStr := []
  eventType : EventPackage := .none
  requestId : ℤ := -1
  internal : Bool := false
  ccbp : Option ℕ := Option.none
  autoResubscribe : Bool := false
  lastRecvRequestCseq : ℕ := 0
  incomingTrxns : List ℕ := []
  outstandingIncomingNotifyTrxns : ℤ := 0

/-- What is read of the CCB of a call. -/
structure Ccb where
  sipCallID : CStr := []
  lastUsedCseq : UInt32 := 0

/-- What a step finds outside the table. -/
structure Env where
  config : Config := { transport := .udp, sipRetx := 10, timerSubscribeDelta := 5 }
  outcome : Outcome := .sent
  message : Bool := true
  node : Bool := true
  /-- `CPR_REACH_MEMORY_HIGH_WATER_MARK` -/
  highWater : Bool := false
  ccbs : ℕ → Ccb := fun _ => {}
  newCallID : CStr := "1"

/-- What is left of a handler that has called an application. -/
inductive Frame
  /-- `subsmanager_handle_ev_app_subscribe`, whose SUBSCRIBE was not sent. -/
  | subscribeFailed (i : ScbIndex)
  /-- `subsmanager_handle_ev_sip_subscribe` -/
  | subscribeInd (i : ScbIndex)
  /-- `subsmanager_handle_ev_sip_subscribe_notify` -/
  | notifyInd (i : ScbIndex)
  | result (i : ScbIndex)
  /-- `sip_subsManager_shut`, with the places that are left. -/
  | shut (i : ScbIndex) (is : List ScbIndex)
  /-- `sip_subsManager_reg_failure_common` -/
  | regFailure (i : ScbIndex) (is : List ScbIndex)
  /-- `subsmanager_handle_periodic_timer_expire` -/
  | periodic (is : List ScbIndex)

structure Manager where
  /-- `subsManagerSCBS` -/
  scbs : ScbIndex → Scb := fun _ => {}
  currentScbsAllocated : ℕ := 0
  /-- The next number that `new_sub_id` gives. -/
  uniqueId : UInt32 := 0
  subsManagerRunning : Bool := false
  frames : List Frame := []

/-! ## Messages -/

/-- A registration (`sipspi_subscribe_reg_t`). -/
structure SubscribeReg where
  eventPackage : EventPackage
  subsIndCallback : Bool := true
  subsIndCallbackTask : Task := Option.none
  subsIndCallbackMsgID : ℤ := 0

/-- A subscription that an application asks for (`sipspi_subscribe_t`). -/
structure Subscribe where
  /-- `CCSIP_SUBS_INVALID_SUB_ID` when it is not known. -/
  subId : Option UInt32 := Option.none
  requestId : ℤ := 0
  eventPackage : EventPackage := .none
  /-- The CCB of its `call_id`. -/
  ccbp : Option ℕ := Option.none
  autoResubscribe : Bool := false
  eventData : Option ℕ := Option.none
  subsResultCallback : Bool := false
  subsNotCallbackTask : Task := Option.none
  subsResCallbackMsgID : ℤ := 0

/-- How far `sipSPISendSubscribeNotifyResponse` comes. -/
inductive Response
  | refused
  | failed
  | unsent
  | sent
  deriving DecidableEq

/-- The end of a subscription (`sipspi_subscribe_term_t`). -/
structure SubsTerm where
  subId : Option UInt32 := Option.none
  requestId : ℤ := 0
  eventPackage : EventPackage := .none
  immediate : Bool := true

/-- How the bodies of a SUBSCRIBE are taken. -/
inductive Bodies
  | passed
  | noMemory
  | answered
  | bad

/-- A SUBSCRIBE or REFER from the network. -/
structure SipSubscribe where
  method : Method := .subscribe
  event : Option CStr
  callID : CStr
  cseq : ℕ
  /-- `sipSPICheckRequest` and the checks of Content-Length, CSeq, From, To and the Request-URI pass. -/
  wellFormed : Bool := true
  /-- There is no call with its Call-ID, and `is_previous_sub` finds it. -/
  previous : Bool := false
  ccbp : Option ℕ := Option.none
  contact : Bool := true
  recordRoute : Bool := true
  referTo : Bool := true
  via : Bool := true
  viaMemory : Bool := true
  bodies : Bodies := .passed

structure SipNotify where
  event : Option CStr
  dialogBody : Bool := false
  callID : CStr
  cseq : ℕ
  /-- `sipSPICheckRequest` passes. -/
  wellFormed : Bool := true
  subsState : Bool := true
  cseqParsed : Bool := true
  via : Bool := true
  viaMemory : Bool := true
  body : Bool := true

structure SipResponse where
  callID : CStr
  method : Method
  cseq : UInt32
  responseCode : ℕ
  routed : Bool := true
  authorized : Bool := true

/-- What the periodic timer finds for a subscription. -/
structure Tick where
  env : Env := {}
  due : Bool := false
  expired : Bool := false

/-- What happens to the subscription manager. -/
inductive Event
  | init
  | shut
  /-- `sip_subsManager_rollover` and `sip_subsManager_reset_reg` -/
  | regFailure
  | appSubscribeRegister (m : SubscribeReg)
  | appSubscribe (env : Env) (m : Subscribe)
  | appSubscribeResponse (subId : Option UInt32) (o : Response)
  | appNotify (env : Env) (r : Request)
  | appNotifyResponse (subId : Option UInt32) (cseq : ℕ) (o : Response)
  | appSubscriptionTerminated (m : SubsTerm)
  | sipSubscribe (m : SipSubscribe)
  | sipSubscribeNotify (m : SipNotify)
  | sipResponse (env : Env) (m : SipResponse)
  | retryTimer (config : Config) (i : ScbIndex)
  | periodicTimer (ticks : ScbIndex → Tick)
  /-- `submanager_update_ccb_addr`, as a call ends. -/
  | ccbRemoved (ccb : ℕ) (lastUsedCseq : UInt32)
  | callbackReturns (ticks : ScbIndex → Tick)

/-- The application can ask for it inside a callback. -/
def Event.isApp : Event → Bool
  | .appSubscribeRegister _ | .appSubscribe _ _ | .appSubscribeResponse _ _ | .appNotify _ _
  | .appNotifyResponse _ _ _ | .appSubscriptionTerminated _ => true
  | _ => false

/-- The event of an Event header, in a SUBSCRIBE or REFER. -/
def SipSubscribe.eventPackage (m : SipSubscribe) : Option EventPackage :=
  match m.event with
  | some event =>
    if CStr.strcaseEq event "dialog" then some .dialog
    else if CStr.strncaseEq event "kpml" 4 then some .kpml
    else if CStr.strcaseEq event "presence" then some .presence
    else Option.none
  | Option.none => if m.method = .refer then some .none else Option.none

/-- The event of an Event header, in a NOTIFY. -/
def SipNotify.eventPackage (m : SipNotify) : Option EventPackage :=
  match m.event with
  | some event =>
    if CStr.strcaseEq event "dialog" then some .dialog
    else if CStr.strcaseEq event "kpml" then some .kpml
    else if CStr.strcaseEq event "sip-profile" then some .config
    else if CStr.strcaseEq event "presence" then some .presence
    else if CStr.strcaseEq event "refer" ∧ m.dialogBody then some .dialog
    else Option.none
  | Option.none => Option.none

/-! ## A subscription -/

namespace Scb

variable (scb : Scb) (env : Env)

/-- What concerns NOTIFYs changes. -/
def on (f : Notify.Scb → Notify.Scb) : Scb :=
  { scb with toScb := f scb.toScb }

/-- What sending finds outside the subscription. -/
def sending : Notify.Env :=
  { config := env.config
    outcome := env.outcome
    ccb := scb.ccbp.map fun ccb => (env.ccbs ccb).lastUsedCseq
    message := env.message
    node := env.node }

def sipSPISendSubscribe (renew : Bool) : Scb :=
  { scb.on (·.sipSPISendSubscribe (scb.sending env)) with
    callID := match scb.ccbp with
      | some ccb => (env.ccbs ccb).sipCallID
      | Option.none => if renew then scb.callID else env.newCallID.take (maxSipCallId - 1) }

/-- A new subscription of an application is filled in. -/
def prepare (m : Subscribe) : Scb :=
  { scb with
    ccbp := m.ccbp
    eventType := m.eventPackage
    subsResultCallback := m.subsResultCallback
    subsNotCallbackTask := m.subsNotCallbackTask
    autoResubscribe := m.autoResubscribe
    requestId := m.requestId
    internal := true }

/-- The state after a SUBSCRIBE was sent. -/
def subscribing : Scb :=
  scb.on fun s => { s with
    smState := if s.smState = .rcvdNotify then .sentSubscribeRcvdNotify else .sentSubscribe }

/-- A new subscription of the network is filled in, from the registration for its event. -/
def populate (reg : Scb) (m : SipSubscribe) : Scb :=
  { scb with
    eventType := reg.eventType
    subsNotCallbackTask := reg.subsNotCallbackTask
    internal := false
    ccbp := m.ccbp
    callID := m.callID.take (maxSipCallId - 1) }

def storeIncomingTrxn (cseq : ℕ) : Scb :=
  { scb with incomingTrxns := scb.incomingTrxns ++ [cseq] }

/-- The state after the application was told of a SUBSCRIBE. -/
def subscribed : Scb :=
  scb.on fun s => { s with
    smState := if s.smState = .sentNotify then .rcvdSubscribeSentNotify else .rcvdSubscribe }

/-- The state after a NOTIFY came. -/
def notified : Scb :=
  scb.on fun s => { s with
    smState := if s.smState = .sentSubscribe ∨ s.smState = .sentSubscribeRcvdNotify then .sentSubscribeRcvdNotify
      else .rcvdNotify }

/-- `sipSPISendSubscribeNotifyResponse`, with whether it has sent the response. -/
def sipSPISendSubscribeNotifyResponse (cseq : ℕ) (o : Response) : Scb × Bool :=
  if o = .refused ∨ cseq ∉ scb.incomingTrxns then (scb, false)
  else
    let scb := { scb with incomingTrxns := scb.incomingTrxns.erase cseq }
    if o = .failed then (scb, false) else ({ scb with retxFlag := false }, o = .sent)

/-- The state after a SUBSCRIBE was answered. -/
def answered : Scb :=
  scb.on fun s => { s with smState := if s.smState = .rcvdSubscribeSentNotify then .sentNotify else .active }

/-- The state after a NOTIFY was answered. -/
def notifyAnswered : Scb :=
  let smState :=
    if scb.outstandingIncomingNotifyTrxns = 1 then
      if scb.smState = .sentSubscribeRcvdNotify then .sentSubscribe else .active
    else scb.smState
  { scb with smState, outstandingIncomingNotifyTrxns := scb.outstandingIncomingNotifyTrxns - 1 }

/-- A 401 or a 407: the last request is sent again with credentials. -/
def resend (method : Method) (authorized : Bool) : Scb :=
  if authorized = false then scb
  else if method = .subscribe ∨ method = .refer then scb.sipSPISendSubscribe env true
  else scb.on (·.sipSPISendSubNotify (scb.sending env))

/-- The subscription is one that `find_scb_by_callid` finds. -/
def hasCallid (callID : CStr) : Bool :=
  scb.smState ≠ .registered ∧ scb.callID = callID

/-- The subscription has sent the request that a response is for. -/
def hasRequest (callID : CStr) (method : Method) (cseq : UInt32) : Bool :=
  scb.smState ≠ .registered ∧ scb.lastSentRequestCseqMethod = method ∧ scb.lastSentRequestCseq = cseq ∧
    scb.callID = callID

end Scb

namespace Manager

variable (s : Manager) (env : Env)

/-! ## The table -/

/-- One subscription changes. -/
def modify (i : ScbIndex) (f : Scb → Scb) : Manager :=
  { s with scbs := Function.update s.scbs i (f (s.scbs i)) }

/-- An application is called, and work is left. -/
def push (f : Frame) : Manager :=
  { s with frames := f :: s.frames }

def live (i : ScbIndex) : Bool :=
  (s.scbs i).smState ≠ .idle

def findScbByCallid (callID : CStr) : Option ScbIndex :=
  Pool.firstLive s.live (fun i => (s.scbs i).hasCallid callID) s.currentScbsAllocated

def findReqScb (callID : CStr) (method : Method) (cseq : UInt32) : Option ScbIndex :=
  Pool.firstLive s.live (fun i => (s.scbs i).hasRequest callID method cseq) s.currentScbsAllocated

def getScbIndexFromSubId (subId : UInt32) : ℕ :=
  (subId &&& 0xffff).toNat

def findScbBySubId (subId : Option UInt32) : Option ScbIndex :=
  match subId with
  | Option.none => Option.none
  | some id =>
    if h : getScbIndexFromSubId id < maxScbs then
      if (s.scbs ⟨_, h⟩).subId = some id then some ⟨_, h⟩ else Option.none
    else Option.none

def findScbByRegistration (event : EventPackage) : Option ScbIndex :=
  Pool.first fun i => (s.scbs i).eventType = event ∧ (s.scbs i).smState = .registered

def findScbBySubscription (callID : CStr) : Option ScbIndex :=
  Pool.first fun i => CStr.strcaseEq (s.scbs i).callID callID

/-- The search by sub_id, or by request id and event while the application does not know it. -/
def findSubscription (subId : Option UInt32) (requestId : ℤ) (event : EventPackage) : Option ScbIndex :=
  match subId with
  | Option.none => Pool.first fun i =>
      (s.scbs i).requestId = requestId ∧ (s.scbs i).eventType = event ∧ (s.scbs i).pendingClean = false
  | some id => s.findScbBySubId (some id)

/-- `new_sub_id`, without its count. -/
def subIdOf (uniqueId : UInt32) (i : ScbIndex) : UInt32 :=
  uniqueId <<< 16 ||| UInt32.ofNat i

/-- `new_sub_id`, with the next count. The id that means none is left out. -/
def newSubId (uniqueId : UInt32) (i : ScbIndex) : UInt32 × UInt32 :=
  if subIdOf uniqueId i = 0xffffffff then (subIdOf (uniqueId + 1) i, uniqueId + 2)
  else (subIdOf uniqueId i, uniqueId + 1)

/-- The SCB that `allocate_scb` takes. -/
def firstIdle : Option ScbIndex :=
  Pool.first fun i => (s.scbs i).smState = .idle

/-- `allocate_scb`, for the SCB that it takes. The state stays `SUBS_STATE_IDLE`. -/
def allocateScb (i : ScbIndex) : Manager :=
  let (subId, uniqueId) := newSubId s.uniqueId i
  { s.modify i fun scb => { scb with subId := some subId } with
    currentScbsAllocated := s.currentScbsAllocated + 1, uniqueId }

def freeScb (i : ScbIndex) : Manager :=
  { s.modify i fun _ => {} with
    currentScbsAllocated := if s.live i then s.currentScbsAllocated - 1 else s.currentScbsAllocated }

/-! ## Requests of an application -/

/-- A registration is taken: there is a way to call the application, and none is there for its event. -/
def registers (m : SubscribeReg) : Bool :=
  s.subsManagerRunning ∧ (m.subsIndCallback ∨ m.subsIndCallbackMsgID ≠ 0) ∧
    s.findScbByRegistration m.eventPackage = Option.none

/-- `subsmanager_handle_ev_app_subscribe_register` -/
def handleEvAppSubscribeRegister (m : SubscribeReg) : Manager :=
  if s.registers m then
    match s.firstIdle with
    | Option.none => s
    | some i => (s.allocateScb i).modify i fun scb => { scb with
        eventType := m.eventPackage
        subsNotCallbackTask := m.subsIndCallbackTask
        smState := .registered }
  else s

/-- A SUBSCRIBE is sent, and the application is told if it is not. -/
def sendSubscribe (m : Subscribe) (i : ScbIndex) (reSubscribe : Bool) : Manager :=
  let s := s.modify i fun scb => { scb with eventDataP := m.eventData }.sipSPISendSubscribe env reSubscribe
  if env.outcome = .sent then s.modify i (·.subscribing)
  else if reSubscribe then s
  else s.push (.subscribeFailed i)

/-- A new subscription is taken: the event is supported, the application can be told, and there is room. -/
def accepts (m : Subscribe) : Bool :=
  (m.eventPackage = .dialog ∨ m.eventPackage = .kpml ∨ m.eventPackage = .presence) ∧
    (m.subsResultCallback ∨ m.subsNotCallbackTask ≠ Option.none ∧ m.subsResCallbackMsgID ≠ 0) ∧
    ¬(m.eventPackage = .presence ∧ (limitScbsUsage ≤ s.currentScbsAllocated ∨ env.highWater))

/-- `subsmanager_handle_ev_app_subscribe` -/
def handleEvAppSubscribe (m : Subscribe) : Manager :=
  if s.subsManagerRunning = false then s
  else
    match s.findSubscription m.subId m.requestId m.eventPackage with
    | some i => s.sendSubscribe env m i true
    | Option.none =>
      if s.accepts env m then
        match s.firstIdle with
        | Option.none => s
        | some i => ((s.allocateScb i).modify i (·.prepare m)).sendSubscribe env m i false
      else s

/-- `subsmanager_handle_ev_app_subscribe_response` -/
def handleEvAppSubscribeResponse (subId : Option UInt32) (o : Response) : Manager :=
  match s.findScbBySubId subId with
  | Option.none => s
  | some i => s.modify i fun scb =>
      let (scb, sent) := scb.sipSPISendSubscribeNotifyResponse scb.lastRecvRequestCseq o
      if sent then scb.answered else scb

/-- `subsmanager_handle_ev_app_notify` -/
def handleEvAppNotify (r : Request) : Manager :=
  match s.findScbBySubId (some r.subId) with
  | Option.none => s
  | some i => s.modify i fun scb => scb.on fun n => (n.handleEvAppNotify (scb.sending env) r).1

/-- `subsmanager_handle_ev_app_notify_response` -/
def handleEvAppNotifyResponse (subId : Option UInt32) (cseq : ℕ) (o : Response) : Manager :=
  match s.findScbBySubId subId with
  | Option.none => s
  | some i => s.modify i fun scb =>
      let (scb, sent) := scb.sipSPISendSubscribeNotifyResponse (if cseq = 0 then scb.lastRecvRequestCseq else cseq) o
      if sent then scb.notifyAnswered else scb

/-- `subsmanager_handle_ev_app_subscription_terminated` -/
def handleEvAppSubscriptionTerminated (m : SubsTerm) : Manager :=
  match s.findSubscription m.subId m.requestId m.eventPackage with
  | Option.none => s
  | some i =>
    if s.live i = false ∨ (s.scbs i).pendingClean then s
    else if m.immediate then s.freeScb i
    else s.modify i fun scb => scb.on fun n => (n.handleEvAppSubscriptionTerminated false).1

def handlePendingRequests (i : ScbIndex) : Manager :=
  match (s.scbs i).pendingRequests with
  | [] => s
  | r :: rs => (s.modify i fun scb => { scb with pendingRequests := rs }).handleEvAppNotify env r

/-! ## Requests of the network -/

/-- The Via of a request is stored, if there is one. -/
def storeVia (i : ScbIndex) (via : Bool) (cseq : ℕ) : Manager :=
  if via then s.modify i (·.storeIncomingTrxn cseq) else s

/-- A SUBSCRIBE is taken in, and the application told. -/
def receive (m : SipSubscribe) (i : ScbIndex) (reSubscribe : Bool) : Manager :=
  let s := s.modify i fun scb => { scb with lastRecvRequestCseq := m.cseq }
  if m.method = .refer ∧ m.referTo = false then s
  else if m.via ∧ m.viaMemory = false then s
  else
    let s := s.storeVia i m.via m.cseq
    match m.bodies with
    | .noMemory => s
    | .answered | .bad => if reSubscribe then s else s.freeScb i
    | .passed => s.push (.subscribeInd i)

/-- The Contact and the Record-Route of a new subscription are good. -/
def populates (m : SipSubscribe) : Bool :=
  m.contact ∧ (m.method = .subscribe ∧ m.ccbp = Option.none → m.recordRoute)

/-- A SUBSCRIBE of a new subscription, for which there is a registration. -/
def handleNewSubscribe (m : SipSubscribe) (reg : ScbIndex) : Manager :=
  match s.firstIdle with
  | Option.none => s
  | some i =>
    let s' := (s.allocateScb i).modify i (·.populate (s.scbs reg) m)
    if populates m then s'.receive m i false else s'.freeScb i

/-- The subscription that a SUBSCRIBE is for, if there is one. -/
def findReSubscribed (m : SipSubscribe) (event : EventPackage) : Option ScbIndex :=
  (s.findScbBySubscription m.callID).filter fun i => (s.scbs i).eventType = event

/-- The registration for a SUBSCRIBE of a new subscription, which is not one that has ended. -/
def findRegistration (m : SipSubscribe) (event : EventPackage) : Option ScbIndex :=
  if m.previous then Option.none else s.findScbByRegistration event

/-- `subsmanager_handle_ev_sip_subscribe` -/
def handleEvSipSubscribe (m : SipSubscribe) : Manager :=
  match m.eventPackage with
  | Option.none => s
  | some event =>
    if s.subsManagerRunning = false ∨ m.wellFormed = false ∨ m.callID = [] then s
    else
      match s.findReSubscribed m event with
      | some i =>
        if (s.scbs i).pendingClean ∨ m.cseq ≤ (s.scbs i).lastRecvRequestCseq then s
        else s.receive m i true
      | Option.none =>
        match s.findRegistration m event with
        | Option.none => s
        | some reg => s.handleNewSubscribe m reg

/-- `subsmanager_handle_ev_sip_subscribe_notify` -/
def handleEvSipSubscribeNotify (m : SipNotify) : Manager :=
  if m.wellFormed = false ∨ m.eventPackage = Option.none ∨ m.callID = [] then s
  else
    match s.findScbBySubscription m.callID with
    | Option.none => s
    | some i =>
      if (s.scbs i).pendingClean ∨ m.subsState = false ∨ m.cseqParsed = false then s
      else
        let s := s.modify i fun scb => { scb with lastRecvRequestCseq := max scb.lastRecvRequestCseq m.cseq }
        if m.via ∧ m.viaMemory = false then s
        else
          let s := s.storeVia i m.via m.cseq
          let s := s.modify i (·.notified)
          if m.body then s.push (.notifyInd i) else s

/-- A response for a subscription that the application has ended. -/
def flush (i : ScbIndex) : Manager :=
  if (s.scbs i).pendingRequests ≠ [] then
    (s.modify i fun scb => { scb with
      pendingCount := scb.pendingCount + Notify.tmrPeriodicSubnotInterval
      smState := .active }).handlePendingRequests env i
  else s.freeScb i

/-- The application is told the result of a response. -/
def conclude (i : ScbIndex) (responseCode : ℕ) : Manager :=
  let s := s.modify i (·.on fun n => (n.release responseCode).1)
  if (s.scbs i).smState = .sentSubscribeRcvdNotify ∨ (s.scbs i).smState = .sentSubscribe then
    s.modify i (·.on fun n => { n with smState := n.subscribed responseCode })
  else if (s.scbs i).awaits then
    (s.modify i (·.on fun n => { n with smState := n.responded responseCode })).push (.result i)
  else s

/-- `subsmanager_handle_ev_sip_response` -/
def handleEvSipResponse (m : SipResponse) : Manager :=
  match s.findReqScb m.callID m.method m.cseq with
  | Option.none => s
  | some i =>
    let s := s.modify i fun scb => { scb with retxFlag := false }
    if m.method = .subscribe ∧ m.routed = false then s
    else if m.responseCode = 401 ∨ m.responseCode = 407 then s.modify i (·.resend env m.method m.authorized)
    else if (s.scbs i).pendingClean then s.flush env i
    else s.conclude i m.responseCode

/-! ## Timers and the end -/

/-- `subsmanager_handle_retry_timer_expire`. Whether the message can be sent again makes no difference. -/
def handleRetryTimerExpire (config : Config) (i : ScbIndex) : Manager :=
  if (s.scbs i).retxFlag = false then s
  else if (s.scbs i).retxCounter < config.maxRetx then
    s.modify i fun scb => { scb with retxCounter := scb.retxCounter + 1 }
  else
    (s.modify i (·.on fun n => { n with
      retxFlag := false
      retxCounter := 0
      smState := if n.lastSentRequestCseqMethod = .subscribe ∨ n.lastSentRequestCseqMethod = .refer then n.smState
        else .active })).push (.result i)

/-- The subscription is renewed by the periodic timer. -/
def renews (i : ScbIndex) : Bool :=
  (s.scbs i).internal ∧ (s.scbs i).autoResubscribe ∧ (s.scbs i).smState ≠ .sentSubscribe

/-- The application is told by the periodic timer that the subscription runs out. -/
def runsOut (i : ScbIndex) (tick : Tick) : Bool :=
  if (s.scbs i).internal then !(s.scbs i).autoResubscribe else tick.expired

/-- `subsmanager_handle_periodic_timer_expire`, for the places that are left. -/
def handlePeriodic (ticks : ScbIndex → Tick) : List ScbIndex → Manager → Manager
  | [], s => s
  | i :: is, s =>
    let scb := s.scbs i
    if scb.pendingClean then
      if 0 < scb.pendingCount then
        handlePeriodic ticks is
          (s.modify i fun scb => { scb with pendingCount := scb.pendingCount - Notify.tmrPeriodicSubnotInterval })
      else handlePeriodic ticks is (s.freeScb i)
    else if scb.smState = .registered ∨ scb.smState = .idle ∨ (ticks i).due = false then handlePeriodic ticks is s
    else if s.renews i then
      -- the application is called when the re-SUBSCRIBE is not sent
      if s.subsManagerRunning ∧ (ticks i).env.outcome ≠ .sent then
        (s.push (.periodic is)).handleEvAppSubscribe (ticks i).env { subId := scb.subId }
      else handlePeriodic ticks is (s.handleEvAppSubscribe (ticks i).env { subId := scb.subId })
    else if s.runsOut i (ticks i) then s.push (.periodic is)
    else handlePeriodic ticks is s

/-- `sip_subsManager_reg_failure_common`, for the places that are left. -/
def regFailure : List ScbIndex → Manager
  | [] => s
  | i :: is =>
    if (s.scbs i).smState = .idle ∨ (s.scbs i).smState = .registered then regFailure is
    else s.push (.regFailure i is)

/-- `sip_subsManager_shut`, for the places that are left. -/
def shut : List ScbIndex → Manager
  | [] => { s with subsManagerRunning := false }
  | i :: is => if (s.scbs i).smState = .idle then shut is else s.push (.shut i is)

/-- `sip_subsManager_init` -/
def init : Manager :=
  if s.subsManagerRunning then s
  else { s with scbs := fun _ => {}, currentScbsAllocated := 0, subsManagerRunning := true }

/-- `submanager_update_ccb_addr`, for the places that are left and the live SCBs that it still looks for. -/
def updateCcbAddr (ccb : ℕ) (lastUsedCseq : UInt32) : List ScbIndex → ℕ → Manager → Manager
  | [], _, s => s
  | i :: is, num, s =>
    if num = 0 then s
    else if s.live i then
      if (s.scbs i).smState ≠ .registered ∧ (s.scbs i).ccbp = some ccb then
        updateCcbAddr ccb lastUsedCseq is (num - 1)
          (s.modify i fun scb => { scb with lastSentRequestCseq := lastUsedCseq, ccbp := Option.none })
      else updateCcbAddr ccb lastUsedCseq is (num - 1) s
    else updateCcbAddr ccb lastUsedCseq is num s

/-- What is left after a callback is done. -/
def resume (ticks : ScbIndex → Tick) : Frame → Manager
  | .subscribeFailed i => s.freeScb i
  | .subscribeInd i => s.modify i (·.subscribed)
  | .notifyInd i => s.modify i fun scb => { scb with
      outstandingIncomingNotifyTrxns := scb.outstandingIncomingNotifyTrxns + 1 }
  | .result i => s.handlePendingRequests (ticks i).env i
  | .shut i is => (s.freeScb i).shut is
  | .regFailure i is => (s.freeScb i).regFailure is
  | .periodic is => handlePeriodic ticks is s

def handle : Event → Manager
  | .init => s.init
  | .shut => if s.subsManagerRunning then s.shut (List.finRange maxScbs) else s
  | .regFailure => if s.subsManagerRunning then s.regFailure (List.finRange maxScbs) else s
  | .appSubscribeRegister m => s.handleEvAppSubscribeRegister m
  | .appSubscribe env m => s.handleEvAppSubscribe env m
  | .appSubscribeResponse subId o => s.handleEvAppSubscribeResponse subId o
  | .appNotify env r => s.handleEvAppNotify env r
  | .appNotifyResponse subId cseq o => s.handleEvAppNotifyResponse subId cseq o
  | .appSubscriptionTerminated m => s.handleEvAppSubscriptionTerminated m
  | .sipSubscribe m => s.handleEvSipSubscribe m
  | .sipSubscribeNotify m => s.handleEvSipSubscribeNotify m
  | .sipResponse env m => s.handleEvSipResponse env m
  | .retryTimer config i => s.handleRetryTimerExpire config i
  | .periodicTimer ticks => handlePeriodic ticks (List.finRange maxScbs) s
  | .ccbRemoved ccb lastUsedCseq =>
    updateCcbAddr ccb lastUsedCseq (List.finRange maxScbs) s.currentScbsAllocated s
  | .callbackReturns ticks =>
    match s.frames with
    | [] => s
    | f :: frames => { s with frames }.resume ticks f

/-- An event can come: inside a callback only what the application asks for, and its return. -/
def Admits (e : Event) : Prop :=
  match e with
  | .callbackReturns _ => s.frames ≠ []
  | e => s.frames = [] ∨ e.isApp

/-- The subscription manager was started. -/
def start : Manager :=
  ({} : Manager).init

end Manager

/-- The states that events lead to, all of which meet a condition. -/
inductive Run (P : Manager → Event → Prop) : Manager → Prop
  | start : Run P Manager.start
  | step (s : Manager) (e : Event) : Run P s → s.Admits e → P s e → Run P (s.handle e)

end Sip.SubsManager
