import Ikran.Lib.HeapTrace
import Mathlib.Data.Int.Notation

/-!
# Publications

The contexts of the publications in `ccsip_publish.c`, which are kept in a list. The application asks for a
first PUBLISH, which makes a context, and for further ones through the handle of the context. A request that
comes while a PUBLISH is outstanding is deferred. A response is matched by its Call-ID. A context is removed
when its publication ends or cannot go on, and the application is told.

A step leaves a trace of the contexts that are read and freed, and of what is sent. A pointer is a number
that is not used again, and so is a Call-ID, which the phone generates for each PUBLISH. What a PUBLISH
contains is left out, but for the request that it is sent for.
-/

namespace Sip.Publish

/-! ## Data -/

/-- Where a response to the application goes, with the handles in it. -/
structure Address where
  pubHandle : UInt32
  appHandle : UInt32
  callbackTask : ℤ
  respMsgId : ℤ
  deriving DecidableEq

/-- A request of the application (`pub_req_t`). -/
structure Request where
  /-- `NULL_PUBLISH_HANDLE` for a first PUBLISH. -/
  pubHandle : UInt32
  appHandle : UInt32 := 0
  expires : UInt32 := 0
  eventData : Option ℕ := none
  callbackTask : ℤ := 0
  respMsgId : ℤ := 0

/-- A context (`ccsip_publish_cb_t`), with its pointer. -/
structure Pcb where
  ptr : ℕ
  pubHandle : UInt32
  appHandle : UInt32 := 0
  callbackTask : ℤ := 0
  respMsgId : ℤ := 0
  origExpiration : ℤ := 0
  expires : ℤ := 0
  eventData : Option ℕ := none
  /-- `sipCallID`, which is empty before the first PUBLISH. -/
  callId : Option ℕ := none
  retxFlag : Bool := false
  retxCounter : ℕ := 0
  outstandingTrxn : Bool := false
  pendingReqs : List Request := []

/-- Where the request asks to be answered. -/
def Request.address (r : Request) : Address :=
  { pubHandle := r.pubHandle, appHandle := r.appHandle, callbackTask := r.callbackTask, respMsgId := r.respMsgId }

/-- Where the application is told of the context. -/
def Pcb.address (p : Pcb) : Address :=
  { pubHandle := p.pubHandle, appHandle := p.appHandle, callbackTask := p.callbackTask, respMsgId := p.respMsgId }

/-- What a step does to the contexts, and what it sends. -/
inductive Effect
  | alloc (ptr : ℕ) (address : Address)
  | access (ptr : ℕ)
  | free (ptr : ℕ)
  | examine (ptr : ℕ)
  | freeEventData (ptr : ℕ)
  | send (ptr callId : ℕ) (deferred : Option Request)
  | resend (ptr : ℕ)
  | defer (ptr : ℕ) (r : Request)
  | final (callId : ℕ)
  /-- `send_resp_to_app`. -/
  | respond (respCode : ℤ) (address : Address)

instance : HeapEffect Effect where
  heapOp
    | .alloc ptr _ => some (.alloc ptr)
    | .access ptr | .examine ptr => some (.access ptr)
    | .free ptr => some (.free ptr)
    | .freeEventData _ | .send .. | .resend _ | .defer .. | .final _ | .respond .. => none

def publishFailedNocontext : ℤ := 1001

def publishFailedNoresource : ℤ := 1002

def publishFailedSend : ℤ := 1003

def publishFailedReset : ℤ := 1004

def sipCliErrReqTimeout : ℤ := 408

def tmrPeriodicPublishInterval : ℤ := 5

def maxNonInviteRetryAttempts : ℕ := 10

/-- What `sipTransportGetTransportType` tells. -/
inductive Transport
  | udp
  | other
  | unknown

/-- The configuration that a step reads. -/
structure Config where
  /-- `CFGID_SIP_RETX`. -/
  sipRetx : ℕ
  /-- `CFGID_TIMER_SUBSCRIBE_DELTA`. -/
  timerSubscribeDelta : ℤ
  transport : Transport

/-- The most retransmissions of a PUBLISH. -/
def Config.maxRetx (config : Config) : ℕ :=
  min config.sipRetx maxNonInviteRetryAttempts

structure Memory where
  list : Bool := true
  pcb : Bool := true
  timer : Bool := true
  pendingReqs : Bool := true
  node : Bool := true
  request : Bool := true
  requestNode : Bool := true

structure Module where
  /-- `s_PCB_list`. -/
  pcbList : Option (List Pcb) := none
  /-- The last handle (`generate_new_pub_handle`). -/
  handle : UInt32 := 0
  nextPtr : ℕ := 0
  nextCallId : ℕ := 0

/-- A message of the module, with the outcome of what it calls. -/
inductive Msg
  /-- `SIPSPI_EV_CC_PUBLISH_REQ`. -/
  | appPublish (r : Request) (memory : Memory) (sent : Bool)
  /-- `SIP_PUBLISH_RETRY_TIMER`. -/
  | retryTimer (handle : UInt32) (sent : Bool)
  /-- `SIP_TMR_PERIODIC_SUBNOT`, with the contexts for which a PUBLISH can be sent. -/
  | periodicTimer (memory : Memory) (sent : ℕ → Bool)
  /-- A response, with its Call-ID, its Min-Expires, its Expires, whether there is a SIP-ETag and memory for
  it, and whether an authorization can be made. -/
  | sipResponse (callId : Option ℕ) (responseCode : ℤ) (authorized : Bool) (minExpires expires : Option ℤ)
      (sipEtag : Option Bool) (memory : Memory) (sent : Bool)
  /-- `publish_reset`. -/
  | reset

namespace Module

variable (s : Module)

/-! ## Contexts -/

/-- The contexts of the list, which may not have been created. -/
def list : List Pcb :=
  s.pcbList.getD []

def findPcb (pubHandle : UInt32) : Option Pcb :=
  s.list.find? (·.pubHandle = pubHandle)

def findPcbBySipCallid (callId : ℕ) : Option Pcb :=
  s.list.find? (·.callId = some callId)

/-- The fields of a context are written. -/
def update (p : Pcb) : Module :=
  { s with pcbList := s.pcbList.map fun l => l.map fun p' => if p'.ptr = p.ptr then p else p' }

def generateNewPubHandle : UInt32 :=
  if s.handle + 1 = 0 then s.handle + 2 else s.handle + 1

def getNewPcb (memory : Memory) : Module × Option Pcb :=
  if s.pcbList = none ∧ memory.list = false then (s, none)
  else
    let s := { s with pcbList := some s.list }
    if memory.pcb = false then (s, none)
    else
      let p : Pcb := { ptr := s.nextPtr, pubHandle := s.generateNewPubHandle }
      let s := { s with handle := p.pubHandle, nextPtr := s.nextPtr + 1 }
      if memory.timer = false ∨ memory.pendingReqs = false then (s, none)
      else if memory.node then ({ s with pcbList := some (s.list ++ [p]) }, some p)
      else (s, some p)

def freeEventData (eventData : Option ℕ) : List Effect :=
  eventData.toList.map .freeEventData

def freePcb (p : Pcb) : Module × List Effect :=
  ({ s with pcbList := s.pcbList.map fun l => l.filter (·.ptr ≠ p.ptr) },
    .access p.ptr :: p.pendingReqs.flatMap (fun r => freeEventData r.eventData) ++ freeEventData p.eventData ++
      [.free p.ptr])

variable (config : Config)

/-- `ccsip_common_util_set_retry_settings`. -/
def setRetrySettings (p : Pcb) : Pcb :=
  { p with
    retxFlag := true
    retxCounter := match config.transport with
      | .udp => 0
      | .other => config.maxRetx
      | .unknown => p.retxCounter }

/-- A PUBLISH with a new Call-ID is sent for the context (`sipSPISendPublish`), and is outstanding. -/
def sipSPISendPublish (p : Pcb) (deferred : Option Request) : Module × List Effect :=
  ({ s with nextCallId := s.nextCallId + 1 }.update
      { setRetrySettings config p with callId := some s.nextCallId, outstandingTrxn := true },
    [.access p.ptr, .send p.ptr s.nextCallId deferred])

/-- A PUBLISH is sent for a request. When this fails the context is freed, and the request answered. -/
def sendRequest (p : Pcb) (r : Request) (deferred : Option Request) (sent : Bool) : Module × List Effect :=
  if sent then s.sipSPISendPublish config p deferred
  else
    let (s, freed) := s.freePcb p
    (s, .access p.ptr :: freed ++ [.respond publishFailedSend r.address])

/-- The data of a further request go into its context. A request with nothing ends the publication. -/
def modify (p : Pcb) (r : Request) : Pcb :=
  { p with
    eventData := r.eventData
    origExpiration := if r.eventData = none ∧ r.expires = 0 then 0 else p.origExpiration }

/-- `publish_handle_ev_app_publish`, for a request that may have been deferred. -/
def handleEvAppPublish (r : Request) (deferred : Option Request) (memory : Memory) (sent : Bool) :
    Module × List Effect :=
  if r.pubHandle ≠ 0 then
    match s.findPcb r.pubHandle with
    | none => (s, .respond publishFailedNocontext r.address :: freeEventData r.eventData)
    | some p =>
      if p.outstandingTrxn then
        if memory.request then
          -- a request without a node is lost
          (if memory.requestNode then s.update { p with pendingReqs := p.pendingReqs ++ [r] } else s,
            [.access p.ptr, .defer p.ptr r])
        else
          let (s, freed) := s.freePcb p
          (s, .access p.ptr :: freed ++
            .respond publishFailedNoresource r.address :: freeEventData r.eventData)
      else
        let (s, effects) := (s.update (modify p r)).sendRequest config (modify p r) r deferred sent
        (s, .access p.ptr :: freeEventData p.eventData ++ effects)
  else
    match s.getNewPcb memory with
    | (s, none) => (s, .respond publishFailedNoresource r.address :: freeEventData r.eventData)
    | (s, some p) =>
      let p := { p with
        appHandle := r.appHandle
        origExpiration := r.expires.toNat
        eventData := r.eventData
        callbackTask := r.callbackTask
        respMsgId := r.respMsgId }
      let (s, effects) := (s.update p).sendRequest config p r deferred sent
      (s, .alloc p.ptr p.address :: effects)

/-! ## Timers -/

/-- The application is told that a context ends, which is freed. -/
def endPcb (p : Pcb) (respCode : ℤ) : Module × List Effect :=
  let (s, freed) := s.freePcb p
  (s, .access p.ptr :: .respond respCode p.address :: freed)

/-- `publish_handle_retry_timer_expire`. -/
def handleRetryTimerExpire (handle : UInt32) (sent : Bool) : Module × List Effect :=
  match s.findPcb handle with
  | none => (s, [])
  | some p =>
    if p.retxFlag = false then (s, [.access p.ptr])
    else if p.retxCounter < config.maxRetx then
      let p := { p with retxCounter := p.retxCounter + 1 }
      if sent then (s.update p, [.access p.ptr, .resend p.ptr])
      else
        let (s, effects) := (s.update p).endPcb p publishFailedSend
        (s, .access p.ptr :: effects)
    else
      let (s, effects) := s.endPcb p sipCliErrReqTimeout
      (s, .access p.ptr :: effects)

/-- The time that is left, after a period. -/
def elapsed (p : Pcb) : Pcb :=
  { p with
    expires := if tmrPeriodicPublishInterval ≤ p.expires then p.expires - tmrPeriodicPublishInterval
      else p.expires }

def refreshRequest (p : Pcb) : Request :=
  { pubHandle := p.pubHandle, expires := UInt32.ofInt p.origExpiration }

/-- A context is examined in a periodic pass. -/
def examine (p : Pcb) (memory : Memory) (sent : Bool) : Module × List Effect :=
  if p.outstandingTrxn then (s, [.examine p.ptr])
  else
    let p := elapsed p
    if p.expires ≤ config.timerSubscribeDelta + tmrPeriodicPublishInterval then
      let (s, effects) := (s.update p).handleEvAppPublish config (refreshRequest p) none memory sent
      (s, .examine p.ptr :: effects)
    else (s.update p, [.examine p.ptr])

/-- The context behind a pointer (`sll_next`). -/
def sllNext (ptr : ℕ) : Option Pcb :=
  (s.list.dropWhile (·.ptr ≠ ptr)).tail.head?

/-- The loop of `publish_handle_periodic_timer_expire`. The context that is examined may be freed, in which
case there is none behind it. The number of the contexts bounds the loop. -/
def periodicLoop (memory : Memory) (sent : ℕ → Bool) : ℕ → Module → Pcb → Module × List Effect
  | 0, s, _ => (s, [])
  | n + 1, s, p =>
    let (s, effects) := s.examine config p memory (sent p.ptr)
    match s.sllNext p.ptr with
    | none => (s, effects)
    | some p' =>
      let (s, rest) := periodicLoop memory sent n s p'
      (s, effects ++ rest)

/-- `publish_handle_periodic_timer_expire`. -/
def handlePeriodicTimerExpire (memory : Memory) (sent : ℕ → Bool) : Module × List Effect :=
  match s.list.head? with
  | none => (s, [])
  | some p => periodicLoop config memory sent s.list.length s p

/-! ## Responses -/

/-- The context can go on with a PUBLISH, or else the application is told and the context freed. -/
def againOrEnd (p : Pcb) (again : Bool) : Module × List Effect :=
  if again then s.sipSPISendPublish config p none else s.endPcb p publishFailedSend

/-- A 2xx response to a publication that goes on. The next deferred request is handled, or else the
application is told. -/
def nextRequest (p : Pcb) (responseCode : ℤ) (memory : Memory) (sent : Bool) : Module × List Effect :=
  match p.pendingReqs with
  | [] => (s, [.access p.ptr, .respond responseCode p.address])
  | r :: rs =>
    let (s, effects) := (s.update { p with pendingReqs := rs }).handleEvAppPublish config r (some r) memory sent
    (s, .access p.ptr :: effects)

def handleResponse (p : Pcb) (responseCode : ℤ) (authorized : Bool) (minExpires expires : Option ℤ)
    (sipEtag : Option Bool) (memory : Memory) (sent : Bool) : Module × List Effect :=
  if responseCode = 401 ∨ responseCode = 407 then s.againOrEnd config p (authorized && sent)
  else if responseCode = 423 then
    let p := match minExpires with
      | some expiryTime =>
        if p.expires < expiryTime then { p with expires := expiryTime, origExpiration := expiryTime } else p
      | none => p
    (s.update p).againOrEnd config p (minExpires.isSome && sent)
  else if 299 < responseCode then s.endPcb p responseCode
  else if responseCode < 200 then (s, [])
  else if p.origExpiration = 0 then s.endPcb p responseCode
  else
    let p := { p with expires := expires.getD p.expires }
    let s := s.update p
    if sipEtag = some false then
      -- the fields of the context are read after it was freed
      let (s, freed) := s.freePcb p
      (s, freed ++ [.access p.ptr, .respond publishFailedNoresource p.address])
    else s.nextRequest config p responseCode memory sent

/-- `publish_handle_ev_sip_response`. -/
def handleEvSipResponse (callId : Option ℕ) (responseCode : ℤ) (authorized : Bool)
    (minExpires expires : Option ℤ) (sipEtag : Option Bool) (memory : Memory) (sent : Bool) :
    Module × List Effect :=
  match callId with
  | none => (s, [])
  | some callId =>
    match s.findPcbBySipCallid callId with
    | none => (s, [])
    | some p =>
      let p := { p with
        retxFlag := false
        outstandingTrxn := if 200 ≤ responseCode then false else p.outstandingTrxn }
      let (s, effects) := (s.update p).handleResponse config p responseCode authorized minExpires expires
        sipEtag memory sent
      (s, .access p.ptr :: (if 200 ≤ responseCode then [.final callId] else []) ++ .access p.ptr :: effects)

/-- The loop of `publish_reset`. -/
def resetLoop : Module → List Pcb → Module × List Effect
  | s, [] => (s, [])
  | s, p :: l =>
    let (s, effects) := s.endPcb p publishFailedReset
    let (s, rest) := resetLoop s l
    (s, effects ++ rest)

/-- A message is handled. -/
def process : Msg → Module × List Effect
  | .appPublish r memory sent => s.handleEvAppPublish config r none memory sent
  | .retryTimer handle sent => s.handleRetryTimerExpire config handle sent
  | .periodicTimer memory sent => s.handlePeriodicTimerExpire config memory sent
  | .sipResponse callId responseCode authorized minExpires expires sipEtag memory sent =>
    s.handleEvSipResponse config callId responseCode authorized minExpires expires sipEtag memory sent
  | .reset => s.resetLoop s.list

end Module

end Sip.Publish
