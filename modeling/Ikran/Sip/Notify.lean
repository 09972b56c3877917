import Ikran.Sip.Publish

/-!
# NOTIFY requests

The NOTIFYs of one subscription in `ccsip_subsmanager.c`. The application asks for a NOTIFY, which is sent at
once, or queued while another one is not answered. A response, or a timeout, lets the next queued request go.
The application ends the subscription at once, or after its queue had time to go out.

A step leaves a trace of what is asked for, sent, reported and freed. What a NOTIFY contains is left out, and
so are the other requests of a subscription but for the states that they lead to.
-/

namespace Sip.Notify

open Publish (Config)

/-! ## Data -/

/-- The states of a subscription (`subsState_t`). -/
inductive SmState
  | idle
  | registered
  | sentSubscribe
  | rcvdNotify
  | sentSubscribeRcvdNotify
  | rcvdSubscribe
  | sentNotify
  | rcvdSubscribeSentNotify
  | active
  deriving DecidableEq

/-- The methods of the requests that are sent for a subscription. -/
inductive Method
  | invalid
  | subscribe
  | refer
  | notify
  deriving DecidableEq

/-- A task of the phone, or none (`CC_SRC_MIN`). -/
abbrev Task := Option ℕ

/-- A request of the application for a NOTIFY (`sipspi_notify_t`). -/
structure Request where
  id : ℕ
  subId : UInt32
  eventData : Option ℕ := none
  /-- Whether there is a `notifyResultCallback`. -/
  notifyResultCallback : Bool := false
  subsNotResCallbackMsgID : ℤ := 0
  subsNotCallbackTask : Task := none
  deriving DecidableEq

/-- What a step does that the network or the application can see. -/
inductive Effect
  | request (r : Request)
  | send (cseq : UInt32) (r : Option Request)
  | retransmit
  | closed (cseq : UInt32)
  /-- The application is told that its request has failed (`NOTIFY_REQUEST_FAILED`). -/
  | failed (r : Request)
  | result (statusCode : ℕ)
  | freeEventData (ptr : ℕ)

def ccsipSubsStartCseq : UInt32 := 1000

def requestTimeout : ℕ := 1090

def tmrPeriodicSubnotInterval : ℤ := 5

/-- A subscription (`sipSCB_t`). -/
structure Scb where
  /-- `CCSIP_SUBS_INVALID_SUB_ID` when there is none. -/
  subId : Option UInt32 := none
  smState : SmState := .idle
  pendingClean : Bool := false
  pendingCount : ℤ := 0
  pendingRequests : List Request := []
  eventDataP : Option ℕ := none
  notifyResultCallback : Bool := false
  subsResultCallback : Bool := false
  subsNotCallbackTask : Task := none
  notResCallbackMsgID : ℤ := 0
  retxFlag : Bool := false
  retxCounter : ℕ := 0
  lastSentRequestCseq : UInt32 := 0
  lastSentRequestCseqMethod : Method := .invalid

/-- How far `sipSPISendSubNotify` comes. -/
inductive Outcome
  | refused
  | numbered
  | named
  | armed
  | sent
  deriving DecidableEq

/-- What a step finds outside the subscription. -/
structure Env where
  config : Config
  outcome : Outcome := .sent
  ccb : Option UInt32 := none
  message : Bool := true
  node : Bool := true

/-- A message for the subscription. -/
inductive Msg
  /-- `SIPSPI_EV_CC_NOTIFY`. -/
  | appNotify (r : Request)
  /-- `SIPSPI_EV_CC_SUBSCRIPTION_TERMINATED`. -/
  | appTerminated (immediate : Bool)
  | sipResponse (method : Method) (cseq : UInt32) (responseCode : ℕ) (routed authorized : Bool)
  /-- `SIP_TMR_MSG_SUBNOT_RETRY`, with whether the message could be sent again. -/
  | retryTimer (sent : Bool)
  /-- `SIP_TMR_PERIODIC_SUBNOT`. -/
  | periodicTimer

/-- A response is final (`code_class > codeClass1xx`). -/
def isFinal (responseCode : ℕ) : Bool :=
  200 ≤ responseCode && responseCode < 700

def freeEventData (eventData : Option ℕ) : List Effect :=
  eventData.toList.map .freeEventData

/-- `sip_send_error_message` and the like: there is a callback, or else a task. -/
def report (callback : Bool) (task : Task) (e : Effect) : List Effect :=
  if callback ∨ task ≠ none then [e] else []

namespace Scb

variable (s : Scb) (env : Env)

/-- A NOTIFY has been sent and is not answered. -/
def awaits : Bool :=
  s.smState = .sentNotify ∨ s.smState = .rcvdSubscribeSentNotify

/-- The next CSeq (`sm_add_cseq`). -/
def nextCseq : UInt32 :=
  match env.ccb with
  | some lastUsedCseq => lastUsedCseq + 1
  | none => if s.lastSentRequestCseq = 0 then ccsipSubsStartCseq else s.lastSentRequestCseq + 1

/-- `ccsip_common_util_set_retry_settings`. -/
def setRetrySettings : Scb :=
  { s with
    retxFlag := true
    retxCounter := match env.config.transport with
      | .udp => 0
      | .other => env.config.maxRetx
      | .unknown => s.retxCounter }

/-- What `sipSPISendSubNotify` leaves in the subscription. -/
def sipSPISendSubNotify : Scb :=
  let numbered := { s with lastSentRequestCseq := s.nextCseq env }
  let named := { numbered with lastSentRequestCseqMethod := .notify }
  match env.outcome with
  | .refused => s
  | .numbered => numbered
  | .named => named
  | .armed | .sent => named.setRetrySettings env

/-- What `sipSPISendSubscribe` leaves in the subscription. -/
def sipSPISendSubscribe : Scb :=
  let named := { s with lastSentRequestCseqMethod := .subscribe }
  let numbered := { named with lastSentRequestCseq := s.nextCseq env }
  match env.outcome with
  | .refused => s
  | .named => named
  | .numbered => numbered
  | .armed | .sent => numbered.setRetrySettings env

/-- `initialize_scb`, after everything is freed (`free_scb`). A NOTIFY that is not answered is given up. -/
def freeScb : Scb × List Effect :=
  ({}, freeEventData s.eventDataP ++ s.pendingRequests.flatMap (fun r => freeEventData r.eventData) ++
    [.closed s.lastSentRequestCseq])

/-- The subscription takes a request over, with its event data. -/
def take (r : Request) : Scb :=
  { s with
    notifyResultCallback := r.notifyResultCallback
    notResCallbackMsgID := r.subsNotResCallbackMsgID
    eventDataP := r.eventData }

/-- The state after a NOTIFY was sent. -/
def notified : SmState :=
  if s.smState = .rcvdSubscribe then .rcvdSubscribeSentNotify else .sentNotify

/-- `subsmanager_handle_ev_app_notify`. -/
def handleEvAppNotify (r : Request) : Scb × List Effect :=
  let refuse := freeEventData r.eventData ++ report r.notifyResultCallback r.subsNotCallbackTask (.failed r)
  if s.subId ≠ some r.subId then (s, refuse)
  else if s.awaits then
    if env.message ∧ env.node then ({ s with pendingRequests := s.pendingRequests ++ [r] }, [])
    else (s, refuse)
  else if s.smState = .idle then (s, refuse)
  else if r.notifyResultCallback = false ∧ r.subsNotResCallbackMsgID = 0 then (s, freeEventData r.eventData)
  else
    let s' := (s.take r).sipSPISendSubNotify env
    if env.outcome = .sent then
      ({ s' with smState := s.notified },
        freeEventData s.eventDataP ++ [.send s'.lastSentRequestCseq (some r)])
    else
      (s', freeEventData s.eventDataP ++ report s'.notifyResultCallback s'.subsNotCallbackTask (.failed r))

/-- `handle_pending_requests`, whose first request is handled. -/
def handlePendingRequests : Scb × List Effect :=
  match s.pendingRequests with
  | [] => (s, [])
  | r :: rs => { s with pendingRequests := rs }.handleEvAppNotify env r

/-- `subsmanager_handle_ev_app_subscription_terminated`. -/
def handleEvAppSubscriptionTerminated (immediate : Bool) : Scb × List Effect :=
  if s.smState = .idle ∨ s.pendingClean then (s, [])
  else if immediate then s.freeScb
  else
    ({ s with
      pendingClean := true
      pendingCount := if s.pendingRequests ≠ [] then 2 * tmrPeriodicSubnotInterval
        else tmrPeriodicSubnotInterval }, [])

/-! ## Responses -/

/-- The state after the response to a SUBSCRIBE. -/
def subscribed (responseCode : ℕ) : SmState :=
  if isFinal responseCode then
    if s.smState = .sentSubscribeRcvdNotify then .rcvdNotify else .active
  else s.smState

/-- The state after the response to a NOTIFY. -/
def responded (responseCode : ℕ) : SmState :=
  if isFinal responseCode then
    if s.smState = .rcvdSubscribeSentNotify then .rcvdSubscribe else .active
  else s.smState

/-- A 401 or a 407: the last request is sent again with credentials. -/
def resend (method : Method) (authorized : Bool) : Scb × List Effect :=
  if authorized = false then (s, [])
  else if method = .subscribe ∨ method = .refer then (s.sipSPISendSubscribe env, [])
  else
    let s' := s.sipSPISendSubNotify env
    (s', if env.outcome = .sent then [.send s'.lastSentRequestCseq none] else [])

/-- A response for a subscription that the application has ended. -/
def flush : Scb × List Effect :=
  if s.pendingRequests ≠ [] then
    { s with pendingCount := s.pendingCount + tmrPeriodicSubnotInterval, smState := .active }.handlePendingRequests
      env
  else s.freeScb

/-- The body is not needed any more after a final response. -/
def release (responseCode : ℕ) : Scb × List Effect :=
  ({ s with eventDataP := if isFinal responseCode then none else s.eventDataP },
    if isFinal responseCode then freeEventData s.eventDataP else [])

/-- The application is told the result of a response. -/
def conclude (responseCode : ℕ) : Scb × List Effect :=
  let (s, freed) := s.release responseCode
  if s.smState = .sentSubscribeRcvdNotify ∨ s.smState = .sentSubscribe then
    ({ s with smState := s.subscribed responseCode },
      freed ++ report s.subsResultCallback s.subsNotCallbackTask (.result responseCode))
  else if s.awaits then
    let (s', effects) := { s with smState := s.responded responseCode }.handlePendingRequests env
    (s', freed ++ report s.notifyResultCallback s.subsNotCallbackTask (.result responseCode) ++ effects)
  else (s, freed)

/-- A response to the last request. -/
def respond (method : Method) (responseCode : ℕ) (authorized : Bool) : Scb × List Effect :=
  if responseCode = 401 ∨ responseCode = 407 then s.resend env method authorized
  else if s.pendingClean then s.flush env
  else s.conclude env responseCode

/-- `subsmanager_handle_ev_sip_response`. -/
def handleEvSipResponse (method : Method) (cseq : UInt32) (responseCode : ℕ) (routed authorized : Bool) :
    Scb × List Effect :=
  -- `find_req_scb`
  if s.smState = .idle ∨ s.smState = .registered ∨ s.lastSentRequestCseqMethod ≠ method ∨
      s.lastSentRequestCseq ≠ cseq then (s, [])
  else
    let s := { s with retxFlag := false }
    let closed := if method = .notify ∧ isFinal responseCode then [.closed cseq] else []
    if method = .subscribe ∧ routed = false then (s, closed)
    else
      let (s, effects) := s.respond env method responseCode authorized
      (s, closed ++ effects)

/-- The last request was not answered in time. -/
def expire : Scb × List Effect :=
  let s := { s with retxFlag := false, retxCounter := 0 }
  if s.lastSentRequestCseqMethod = .subscribe ∨ s.lastSentRequestCseqMethod = .refer then
    let (s', effects) := s.handlePendingRequests env
    (s', report s.subsResultCallback s.subsNotCallbackTask (.result requestTimeout) ++ effects)
  else
    let (s', effects) := { s with smState := .active }.handlePendingRequests env
    (s', .closed s.lastSentRequestCseq ::
      report s.notifyResultCallback s.subsNotCallbackTask (.result requestTimeout) ++ effects)

/-- `subsmanager_handle_retry_timer_expire`. -/
def handleRetryTimerExpire (sent : Bool) : Scb × List Effect :=
  if s.retxFlag = false then (s, [])
  else if s.retxCounter < env.config.maxRetx then
    ({ s with retxCounter := s.retxCounter + 1 }, if sent then [.retransmit] else [])
  else s.expire env

/-- `subsmanager_handle_periodic_timer_expire`, for a subscription that the application has ended. -/
def handlePeriodicTimerExpire : Scb × List Effect :=
  if s.pendingClean then
    if 0 < s.pendingCount then ({ s with pendingCount := s.pendingCount - tmrPeriodicSubnotInterval }, [])
    else s.freeScb
  else (s, [])

/-- A message is handled. -/
def process : Msg → Scb × List Effect
  | .appNotify r =>
    let (s, effects) := s.handleEvAppNotify env r
    (s, .request r :: effects)
  | .appTerminated immediate => s.handleEvAppSubscriptionTerminated immediate
  | .sipResponse method cseq responseCode routed authorized =>
    s.handleEvSipResponse env method cseq responseCode routed authorized
  | .retryTimer sent => s.handleRetryTimerExpire env sent
  | .periodicTimer => s.handlePeriodicTimerExpire

end Scb

end Sip.Notify
