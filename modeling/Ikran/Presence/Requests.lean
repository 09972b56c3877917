import Ikran.Lib.CString

/-!
# Presence requests

The requests for the state of a presence entity in `pres_sub_not_handler.c`, which are kept in a list. The
application asks for a state and ends its requests. The subscription manager tells the responses, the
notifications and the ends of the subscriptions. A request of a line button may wait for a timer, which
keeps a pointer to the request. A notification that no subscription was asked for is applied to the requests
of the line buttons, or waits until the application has made them.

A step leaves a trace of what is accessed, freed and sent. A pointer is a number that is not used again, so
that an access through the pointer of a request that was freed is seen. The texts fit their buffers.
-/

namespace Presence

/-! ## Data -/

/-- `cc_blf_state_t`. -/
inductive BlfState
  | unknown
  | idle
  | inuse
  | expired
  | rejected
  | alerting
  deriving DecidableEq

/-- The presence of an entity (`Presence_ext_t`): what is looked at. -/
structure PresenceExt where
  entity : CStr
  /-- `person.personStatus.basic`. -/
  personBasic : CStr := []
  /-- `tuple[0].status.basic`. -/
  tupleBasic : CStr := []
  onThePhone : Bool := false
  alerting : Bool := false
  deriving DecidableEq

/-- The first element of a list of event data. -/
inductive EventBody
  | presence (p : PresenceExt)
  | other

/-- A list of event data (`ccsip_event_data_t`), with its pointer. -/
structure EventData where
  ptr : ℕ
  body : EventBody

def ccsipSubsInvalidSubId : UInt32 := 0xFFFFFFFF

def maxRegLines : ℕ := 8

/-- A request (`pres_subscription_req_t`), with its pointer. -/
structure Request where
  ptr : ℕ
  requestId : ℤ
  subId : UInt32 := ccsipSubsInvalidSubId
  duration : ℤ
  presentity : CStr
  watcher : CStr
  appId : ℤ
  highestCseq : UInt32 := 0
  featureMask : UInt32
  blfState : BlfState := .unknown
  deriving DecidableEq

/-- A notification that waits (`pres_pending_notify_t`). -/
structure PendingNotify where
  presentity : CStr
  eventPtr : ℕ
  presence : PresenceExt
  deriving DecidableEq

/-- What a step does to the memory, and what it sends. -/
inductive Effect
  | alloc (ptr : ℕ)
  | access (ptr : ℕ)
  | free (ptr : ℕ)
  | freeEventData (ptr : ℕ)
  /-- `sub_int_subscribe`. -/
  | subscribe (subId : UInt32) (requestId duration : ℤ) (presentity watcher : CStr)
  /-- `sub_int_subscribe_term`. -/
  | subscribeTerm (subId : UInt32) (immediate : Bool) (requestId : ℤ)
  /-- `sub_int_notify_ack`. -/
  | notifyAck (subId : UInt32) (status : ℕ) (cseq : UInt32)
  | uiBlfNotification (requestId : ℤ) (state : BlfState) (appId : ℤ)
  /-- `cc_feature` with `CC_FEATURE_BLF_ALERT_TONE`. -/
  | alertTone
  deriving DecidableEq

structure Module where
  /-- `s_pres_req_list`. -/
  requests : Option (List Request) := none
  /-- `s_pending_notify_list`. -/
  pending : Option (List PendingNotify) := none
  /-- `s_subs_hndlr_initialized`. -/
  initialized : Bool := false
  /-- The requests of the timers that are running, by line button (`s_retry_after_timers`). -/
  timers : ℤ → Option ℕ := fun _ => none
  expirations : List ℕ := []
  nextPtr : ℕ := 0
  nextEventPtr : ℕ := 0

/-- `sip_subs_state_reason_e`. -/
inductive Reason
  | invalid
  | deactivated
  | probation
  | rejected
  | timeout
  | giveup
  | noresource

/-- `ccsip_reason_code_e`. -/
inductive ReasonCode
  | normal
  | error
  | shutdown
  | rollover
  | resetReg
  deriving DecidableEq

structure Memory where
  /-- For a list (`sll_create`). -/
  list : Bool := true
  entry : Bool := true
  /-- For the node of a list (`sll_append`). -/
  node : Bool := true

/-- A message of the module, with the outcome of what it calls. -/
inductive Msg
  /-- `SUB_MSG_PRESENCE_GET_STATE`. -/
  | getState (requestId duration : ℤ) (watcher presentity : CStr) (appId : ℤ) (featureMask : UInt32)
      (memory : Memory) (sent : Bool)
  /-- `SUB_MSG_PRESENCE_TERM_REQ`. -/
  | termReq (requestId : ℤ)
  /-- `SUB_MSG_PRESENCE_TERM_REQ_ALL`. -/
  | termReqAll
  /-- `SUB_MSG_PRESENCE_SUBSCRIBE_RESP`. -/
  | subscribeResp (statusCode requestId : ℤ) (subId : UInt32) (expires : ℤ) (sent : Bool)
  /-- `SUB_MSG_PRESENCE_NOTIFY`. The state of the subscription may be `terminated`. -/
  | notify (terminated : Bool) (reason : Reason) (requestId : ℤ) (subId cseq : UInt32)
      (eventData : Option EventBody) (timerCancelled timerStarted sent : Bool)
  /-- `SUB_MSG_PRESENCE_UNSOLICITED_NOTIFY`. -/
  | unsolicitedNotify (eventData : Option EventBody) (memory : Memory)
  /-- `SUB_MSG_PRESENCE_TERMINATE`. -/
  | terminate (reasonCode : ReasonCode) (requestId : ℤ) (subId : UInt32)
  | subHandlerInitialized
  | expire (appId : ℤ)
  /-- `TIMER_EXPIRATION`, for the oldest expiration in the message queue. -/
  | timerExpiration (sent : Bool)

def blfPickupFeature : UInt32 := 1

def extractBlfState (body : Option PresenceExt) (featureMask : UInt32) : BlfState :=
  match body with
  | none => .unknown
  | some p =>
    let basic := if p.personBasic = [] then p.tupleBasic else p.personBasic
    if p.onThePhone = false ∧ CStr.strcaseEq basic "closed".toList then .unknown
    else if featureMask &&& blfPickupFeature ≠ 0 ∧ p.alerting then .alerting
    else if p.onThePhone then .inuse
    else if CStr.strcaseEq basic "open".toList then .idle
    else .unknown

/-- What stands behind the first colon (`strchr`). -/
def afterColon (s : CStr) : Option CStr :=
  if ':' ∈ s then some ((s.dropWhile (· ≠ ':')).drop 1) else none

/-- The presence of a list of event data, unless it is of another type. -/
def EventBody.presence? : EventBody → Option PresenceExt
  | .presence p => some p
  | .other => none

namespace Module

variable (s : Module)

/-! ## Requests -/

/-- The requests of the list, which may not have been created. -/
def list : List Request :=
  s.requests.getD []

/-- The request of an id (`sll_find` with `find_matching_node`). -/
def find (requestId : ℤ) : Option Request :=
  s.list.find? (·.requestId = requestId)

/-- The fields of a request are written. -/
def update (r : Request) : Module :=
  { s with requests := s.requests.map fun l => l.map fun r' => if r'.ptr = r.ptr then r else r' }

/-- `send_subscribe_ev_to_sip_task`. -/
def sendSubscribe (r : Request) : List Effect :=
  [.access r.ptr, .subscribe r.subId r.requestId r.duration r.presentity r.watcher]

/-- The request is removed from the list, its timer cancelled and its memory freed
(`free_sub_request`). -/
def freeSubRequest (r : Request) : Module × List Effect :=
  ({ s with
      requests := s.requests.map fun l => l.filter (·.ptr ≠ r.ptr)
      timers := if 0 < r.appId then Function.update s.timers r.appId none else s.timers },
    [.access r.ptr, .free r.ptr])

/-- A SUBSCRIBE is sent, and the request freed when this fails. -/
def subscribeOrFree (r : Request) (sent : Bool) (failed : List Effect) : Module × List Effect :=
  if sent then (s, sendSubscribe r)
  else
    let (s, freed) := s.freeSubRequest r
    (s, sendSubscribe r ++ failed ++ freed)

/-- A request is appended to the list, when there is memory for its node. -/
def appendRequest (r : Request) (node : Bool) : Module :=
  { s with
    requests := if node then some (s.list ++ [r]) else some s.list
    nextPtr := s.nextPtr + 1 }

/-- A SUBSCRIBE is sent for a state that is asked for, and the request freed when this fails. -/
def subscribeState (r : Request) (appId : ℤ) (sent : Bool) : Module × List Effect :=
  if sent then (s, .access r.ptr :: sendSubscribe r)
  else
    let (s, freed) := s.freeSubRequest r
    (s, .access r.ptr :: sendSubscribe r ++ freed ++ [.uiBlfNotification r.requestId .rejected appId])

/-- The list of the requests is created when there is none. -/
def createList : Module :=
  { s with requests := some s.list }

def getState (requestId duration : ℤ) (watcher presentity : CStr) (appId : ℤ) (featureMask : UInt32)
    (memory : Memory) (sent : Bool) : Module × List Effect :=
  if s.requests = none ∧ memory.list = false then
    (s, [.uiBlfNotification requestId .rejected appId])
  else
    match s.find requestId with
    | some r =>
      let r := { r with duration }
      (s.createList.update r).subscribeState r appId sent
    | none =>
      if memory.entry = false then (s.createList, [])
      else
        let r : Request :=
          { ptr := s.nextPtr, requestId, duration, presentity, watcher, appId, featureMask }
        let (s, effects) := (s.createList.appendRequest r memory.node).subscribeState r appId sent
        (s, .alloc r.ptr :: effects)

def terminateReq (requestId : ℤ) : Module × List Effect :=
  match s.find requestId with
  | none => (s, [])
  | some r =>
    let r := { r with duration := 0 }
    let (s, freed) := (s.update r).freeSubRequest r
    (s, .access r.ptr :: sendSubscribe r ++ .access r.ptr ::
      .subscribeTerm r.subId false r.requestId :: freed)

/-- The loop of `terminate_req_all`. -/
def terminateAll : Module → List Request → Module × List Effect
  | s, [] => (s, [])
  | s, r :: l =>
    let (s, freed) := s.freeSubRequest r
    let (s, rest) := terminateAll s l
    (s, .access r.ptr :: .subscribeTerm r.subId true r.requestId :: freed ++ rest)

def terminateReqAll : Module × List Effect :=
  match s.requests with
  | none => (s, [])
  | some l =>
    let (s, effects) := s.terminateAll l
    ({ s with initialized := false }, effects)

def subscribeResponseInd (statusCode requestId : ℤ) (subId : UInt32) (expires : ℤ) (sent : Bool) :
    Module × List Effect :=
  match s.find requestId with
  | none => (s, [.subscribeTerm subId true requestId])
  | some r =>
    let r := { r with subId }
    if 100 ≤ statusCode ∧ statusCode < 300 then (s.update r, [.access r.ptr])
    else if statusCode = 423 then
      let r := { r with duration := expires }
      let (s, effects) := (s.update r).subscribeOrFree r sent
        [.access r.ptr, .uiBlfNotification requestId .rejected r.appId]
      (s, .access r.ptr :: effects)
    else if statusCode = 481 ∧ 0 < r.appId then
      let r' := { r with blfState := .unknown, subId := ccsipSubsInvalidSubId, highestCseq := 0 }
      let (s, effects) := (s.update r').subscribeOrFree r' sent
        [.access r.ptr, .uiBlfNotification requestId .rejected r.appId]
      (s, .access r.ptr :: .uiBlfNotification requestId .unknown r.appId :: .access r.ptr ::
        .subscribeTerm r.subId true r.requestId :: .access r.ptr :: effects)
    else
      let (s, freed) := (s.update r).freeSubRequest r
      (s, .access r.ptr :: .uiBlfNotification requestId .rejected r.appId :: .access r.ptr ::
        .subscribeTerm r.subId true r.requestId :: freed)

/-! ## Notifications -/

/-- A list of event data is received, with what is freed of it at once because it is of another type. -/
def receive (eventData : Option EventBody) : Module × Option (ℕ × PresenceExt) × List Effect :=
  match eventData with
  | none => (s, none, [])
  | some body =>
    let s' := { s with nextEventPtr := s.nextEventPtr + 1 }
    match body.presence? with
    | none => (s', none, [.freeEventData s.nextEventPtr])
    | some p => (s', some (s.nextEventPtr, p), [])

def freeEventData (event : Option (ℕ × PresenceExt)) : List Effect :=
  match event with
  | none => []
  | some (ptr, _) => [.freeEventData ptr]

/-- The alerting tone is played for an alerting line. -/
def alert (state : BlfState) : List Effect :=
  if state = .alerting then [.alertTone] else []

/-- A subscription has expired. For a line button a new one is asked for, later when the notification says
so and the timer can be started. -/
def notifyExpired (r : Request) (later timerCancelled timerStarted sent : Bool) : Module × List Effect :=
  let expired : List Effect :=
    [.access r.ptr, .uiBlfNotification r.requestId .expired r.appId, .access r.ptr]
  if 0 < r.appId then
    let r := { r with blfState := .expired, subId := ccsipSubsInvalidSubId, highestCseq := 0 }
    let s := s.update r
    if later ∧ timerCancelled then
      -- the timer is cancelled in any case
      if timerStarted then
        ({ s with timers := Function.update s.timers r.appId (some r.ptr) }, expired ++ [.access r.ptr])
      else
        let (s, effects) :=
          { s with timers := Function.update s.timers r.appId none }.subscribeOrFree r sent []
        (s, expired ++ .access r.ptr :: effects)
    else
      let (s, effects) := s.subscribeOrFree r sent []
      (s, expired ++ .access r.ptr :: effects)
  else
    let r := { r with blfState := .expired }
    let (s, freed) := (s.update r).freeSubRequest r
    (s, expired ++ freed)

/-- The end of a subscription is notified, in order. -/
def notifyTerminated (r : Request) (reason : Reason) (subId : UInt32)
    (timerCancelled timerStarted sent : Bool) : Module × List Effect :=
  let (s, effects) :=
    match reason with
    | .deactivated =>
      let r := { r with subId := ccsipSubsInvalidSubId, highestCseq := 0 }
      let (s, effects) := (s.update r).subscribeOrFree r sent
        [.access r.ptr, .uiBlfNotification r.requestId .rejected r.appId]
      (s, .access r.ptr :: effects)
    | .timeout => s.notifyExpired r false timerCancelled timerStarted sent
    | .probation | .giveup => s.notifyExpired r true timerCancelled timerStarted sent
    | .invalid | .rejected | .noresource =>
      let (s, freed) := s.freeSubRequest r
      (s, .access r.ptr :: .uiBlfNotification r.requestId .rejected r.appId :: freed)
  (s, .access r.ptr :: .subscribeTerm subId true r.requestId :: effects)

def notifyIndCb (terminated : Bool) (reason : Reason) (requestId : ℤ) (subId cseq : UInt32)
    (eventData : Option EventBody) (timerCancelled timerStarted sent : Bool) : Module × List Effect :=
  let (s, event, freed) := s.receive eventData
  match s.find requestId with
  | none =>
    (s, freed ++ [.notifyAck subId 481 cseq, .subscribeTerm subId true requestId] ++ freeEventData event)
  | some r =>
    let freed := freed ++ [.notifyAck subId 200 cseq, .access r.ptr]
    if cseq < r.highestCseq then (s, freed ++ freeEventData event)
    else
      let r := { r with highestCseq := cseq }
      let s := s.update r
      if terminated then
        let (s, effects) := s.notifyTerminated r reason subId timerCancelled timerStarted sent
        (s, freed ++ effects ++ freeEventData event)
      else
        let state := extractBlfState (event.map Prod.snd) r.featureMask
        (s.update { r with blfState := state },
          freed ++ [.access r.ptr, .uiBlfNotification requestId state r.appId, .access r.ptr] ++
            alert state ++ freeEventData event)

/-- The requests of the line buttons for a presence entity. -/
def matching (presentity : CStr) : List Request :=
  s.list.filter fun r => 0 < r.appId ∧ r.presentity = presentity

/-- The state is applied to the requests of the line buttons for a presence entity, with whether there is
one (`apply_presence_state_to_matching_feature_keys`). -/
def applyPresenceState (presentity : CStr) (p : PresenceExt) : Module × List Effect × Bool :=
  ({ s with
      requests := s.requests.map fun l => l.map fun r =>
        if 0 < r.appId ∧ r.presentity = presentity then
          { r with blfState := extractBlfState (some p) r.featureMask }
        else r },
    s.list.flatMap fun r =>
      .access r.ptr ::
        if 0 < r.appId ∧ r.presentity = presentity then
          let state := extractBlfState (some p) r.featureMask
          .uiBlfNotification r.requestId state r.appId :: alert state
        else [],
    !(s.matching presentity).isEmpty)

variable (extractUser : CStr → CStr)

/-- The state is applied to the requests for the entity, and for its user when there is none. -/
def applyPresence (url entity : CStr) (p : PresenceExt) : Module × List Effect :=
  let (s, effects, found) := s.applyPresenceState url p
  if found then (s, effects)
  else
    let (s, effects', _) := s.applyPresenceState (extractUser entity) p
    (s, effects ++ effects')

def appendNotificationToPendingQueue (ptr : ℕ) (p : PresenceExt) (memory : Memory) :
    Module × List Effect :=
  if s.pending = none ∧ memory.list = false then (s, [.freeEventData ptr])
  else
    let l := s.pending.getD []
    match l.find? (·.presentity = p.entity) with
    | some n =>
      -- only one notification of an entity waits
      ({ s with
          pending := some (l.map fun n => if n.presentity = p.entity then
            { n with eventPtr := ptr, presence := p } else n) },
        [.freeEventData n.eventPtr])
    | none =>
      let s := { s with pending := some l }
      if l.length = maxRegLines then (s, [.freeEventData ptr])
      else if memory.entry = false then (s, [.freeEventData ptr])
      else if memory.node = false then (s, [])
      else
        ({ s with pending := some (l ++ [{ presentity := p.entity, eventPtr := ptr, presence := p }]) }, [])

def unsolicitedNotifyIndCb (eventData : Option EventBody) (memory : Memory) : Module × List Effect :=
  let (s, event, freed) := s.receive eventData
  match event with
  | none => (s, freed)
  | some (ptr, p) =>
    if s.initialized = false then
      let (s, effects) := s.appendNotificationToPendingQueue ptr p memory
      (s, freed ++ effects)
    else if s.requests = none then (s, freed ++ [.freeEventData ptr])
    else
      match afterColon p.entity with
      | none => (s, freed)
      | some url =>
        let (s, effects) := s.applyPresence extractUser url p.entity p
        (s, freed ++ effects ++ [.freeEventData ptr])

/-- The loop of `sub_handler_initialized`, with what is left of the list, or nothing when the list is
destroyed. -/
def drain : Module → List PendingNotify → Module × Option (List PendingNotify) × List Effect
  | s, [] => (s, none, [])
  | s, n :: l =>
    match afterColon n.presentity with
    | none => (s, some (n :: l), [])
    | some url =>
      let (s, effects) := s.applyPresence extractUser url n.presentity n.presence
      let (s, rest, effects') := drain s l
      (s, rest, effects ++ .freeEventData n.eventPtr :: effects')

def subHandlerInitialized : Module × List Effect :=
  let s := { s with initialized := true }
  match s.pending with
  | none => (s, [])
  | some l =>
    let (s, pending, effects) := s.drain extractUser l
    ({ s with pending }, effects)

/-! ## Ends and timers -/

def terminateCb (reasonCode : ReasonCode) (requestId : ℤ) (subId : UInt32) : Module × List Effect :=
  match s.find requestId with
  | none => (s, [.subscribeTerm subId true requestId])
  | some r =>
    let ended : List Effect :=
      if reasonCode = .error then .access r.ptr :: sendSubscribe { r with duration := 0 } else []
    let term : List Effect :=
      match reasonCode with
      | .resetReg | .rollover | .shutdown => []
      | .normal | .error => [.subscribeTerm subId true requestId]
    let effects := .access r.ptr :: ended ++ term ++ [.access r.ptr, .uiBlfNotification requestId .unknown r.appId]
    if reasonCode = .error ∨ reasonCode = .resetReg then
      let r := { r with subId := ccsipSubsInvalidSubId, highestCseq := 0 }
      (s.update r, effects ++ .access r.ptr :: sendSubscribe r)
    else
      let (s, freed) := s.freeSubRequest r
      (s, effects ++ freed)

def expire (appId : ℤ) : Module :=
  match s.timers appId with
  | none => s
  | some ptr =>
    { s with
      timers := Function.update s.timers appId none
      expirations := s.expirations ++ [ptr] }

/-- `process_timer_expiration`. What it does with a request that has been freed is not followed. -/
def processTimerExpiration (sent : Bool) : Module × List Effect :=
  match s.expirations with
  | [] => (s, [])
  | ptr :: expirations =>
    let s := { s with expirations }
    match s.list.find? (·.ptr = ptr) with
    | none => (s, [.access ptr])
    | some r => s.subscribeOrFree r sent []

/-- `pres_process_msg_from_msgq`. -/
def process : Msg → Module × List Effect
  | .getState requestId duration watcher presentity appId featureMask memory sent =>
    s.getState requestId duration watcher presentity appId featureMask memory sent
  | .termReq requestId => s.terminateReq requestId
  | .termReqAll => s.terminateReqAll
  | .subscribeResp statusCode requestId subId expires sent =>
    s.subscribeResponseInd statusCode requestId subId expires sent
  | .notify terminated reason requestId subId cseq eventData timerCancelled timerStarted sent =>
    s.notifyIndCb terminated reason requestId subId cseq eventData timerCancelled timerStarted sent
  | .unsolicitedNotify eventData memory => s.unsolicitedNotifyIndCb extractUser eventData memory
  | .terminate reasonCode requestId subId => s.terminateCb reasonCode requestId subId
  | .subHandlerInitialized => s.subHandlerInitialized extractUser
  | .expire appId => (s.expire appId, [])
  | .timerExpiration sent => s.processTimerExpiration sent

end Module

end Presence
