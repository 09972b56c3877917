import Mathlib.Data.List.Basic

/-!
# The provider

The handling of registration indications and of session updates in `ccprovider.c`. When the registration
manager indicates a failover or a fallback, the provider answers once the calls allow it: after a failover
the connected calls are preserved until they end, and a fallback waits until there is no call.

Of a session the state is kept, and of the updates those that create, change or close a session. What is
told to the application about a call is left out, with the features that a call has.
-/

namespace Ccapp

/-! ## Data -/

/-- `cc_reg_state_t`. -/
inductive RegState
  | createdIdle
  | oosFailover
  | oosRegistering
  | oosAwaitCfgSync
  | oosAwaitRestart
  | inservice
  | oosIdle
  deriving DecidableEq

/-- `Cucm_mode_t`. -/
inductive CucmMode
  | failover
  | fallback
  | noCucmSrstAvailable
  | noneAvail
  deriving DecidableEq

/-- `cc_service_cause_t`. -/
inductive Cause
  | none
  | failover
  | fallback
  | regAllFailed
  | shutdown
  | unregAll
  | logoutReset

/-- `cc_call_state_t`. -/
inductive CallState
  | offhook
  | onhook
  | ringout
  | ringin
  | proceed
  | connected
  | hold
  | remhold
  | resume
  | busy
  | reorder
  | conference
  | dialing
  | reminuse
  | holdrevert
  | whisper
  | preservation
  | waitingfordigits
  deriving DecidableEq

/-- `cc_service_state_t`. -/
inductive ServiceState
  | idle
  | ins
  | oos
  deriving DecidableEq

/-- The registration that is answered (`cc_regmgr_rsp_e`). -/
inductive RegRsp
  | failover
  | fallback
  deriving DecidableEq

/-- The type of an answer (`cc_regmgr_rsp_type_e`). -/
inductive RspType
  | start
  | complete

/-- The events that the session manager is told. -/
inductive RegistrationEvent
  | inservice
  | oosRegAllFailed
  | oosFailover
  | oosFallback
  | oosShutdownAck

inductive Output
  /-- An answer to the registration manager (`cc_fail_fallback_sip`). -/
  | failFallback (rspType : RspType) (rsp : RegRsp) (waited : Bool)
  /-- A call is ended (`cc_onhook`). -/
  | onhook (sessId : UInt32)
  /-- The session manager is told (`registration_processEvent`). -/
  | registration (event : RegistrationEvent)

/-- A session (`session_data_t`). -/
structure Session where
  sessId : UInt32
  state : CallState

/-- A call that is preserved after a failover. -/
def Session.preserved (s : Session) : Bool :=
  s.state = .connected || s.state = .preservation

/-- The state of the provider (`CCAppGlobal_t`), with the table of the sessions. -/
structure Provider where
  state : RegState := .createdIdle
  cucmMode : CucmMode := .noneAvail
  inPreservation : Bool := false
  cause : Cause := .none
  sessions : List Session := []

/-- The events of a session that are looked at, and the others. -/
inductive CallEvent
  | sessionClosed
  | callState (state : CallState)
  | newcall (state : CallState)
  | information
  | preservationActive
  | other
  deriving DecidableEq

/-- A message of the provider. -/
inductive Msg
  /-- `CCAPP_FAILOVER_IND`. -/
  | failoverInd
  /-- `CCAPP_FALLBACK_IND`. -/
  | fallbackInd
  /-- `CCAPP_SHUTDOWN_ACK`. -/
  | shutdownAck
  /-- `CCAPP_REG_ALL_FAIL`. -/
  | regAllFail
  /-- `CCAPP_MODE_NOTIFY`, whose mode is not looked at. -/
  | modeNotify
  /-- `CCAPP_FEATURE_UPDATE` with the registration state `CC_REGISTERED`. -/
  | registered
  /-- `CCAPP_SERVICE_CMD` with `CMD_INSERVICE`. -/
  | inserviceCmd
  /-- `CCAPP_SESSION_UPDATE`. There may be no memory for a new session. -/
  | sessionUpdate (sessId : UInt32) (event : CallEvent) (memory : Bool)
  deriving DecidableEq

def mapProviderState : RegState → ServiceState
  | .inservice => .ins
  | .createdIdle => .idle
  | _ => .oos

def getSessType (sessId : UInt32) : UInt32 :=
  (sessId &&& 0xF0000000) >>> 28

def sessiontypeCallcontrol : UInt32 := 1

namespace Provider

variable (p : Provider)

def findhash (sessId : UInt32) : Option Session :=
  p.sessions.find? (·.sessId = sessId)

def addhash (s : Session) : Provider :=
  { p with sessions := p.sessions ++ [s] }

def delhash (sessId : UInt32) : Provider :=
  { p with sessions := p.sessions.eraseP (·.sessId = sessId) }

def setState (sessId : UInt32) (state : CallState) : Provider :=
  { p with sessions := p.sessions.map fun s => if s.sessId = sessId then { s with state } else s }

def isNoCallExist : Bool :=
  p.sessions.isEmpty

/-! ## Failover and fallback -/

/-- The connected calls are preserved and the others ended, with whether there are calls to preserve
(`ccappPreserveCall`). -/
def ccappPreserveCall : Provider × List Output × Bool :=
  let preserve := p.sessions.any Session.preserved
  ({ p with inPreservation := p.inPreservation || preserve },
    (p.sessions.filter fun s => !s.preserved).map fun s => .onhook s.sessId, preserve)

def ccproHandleIns : List Output :=
  [.registration .inservice]

def ccproHandleOos : List Output :=
  match p.cause with
  | .regAllFailed => [.registration .oosRegAllFailed]
  | .failover => [.registration .oosFailover]
  | .fallback => [.registration .oosFallback]
  | .shutdown => [.registration .oosShutdownAck]
  | _ => []

def proceedWithFofb : Provider × List Output :=
  let p := { p with state := .oosRegistering }
  let (p, out) : Provider × List Output :=
    match p.cucmMode with
    | .failover => ({ p with cause := .failover }, [.failFallback .start .failover true])
    | .fallback => ({ p with cause := .fallback }, [.failFallback .start .fallback true])
    | .noCucmSrstAvailable => ({ p with cause := .regAllFailed, state := .oosIdle }, [])
    | .noneAvail => (p, [])
  (p, out ++ if mapProviderState p.state = .oos then p.ccproHandleOos else [])

/-- The session manager is told the service state, at the end of `ccappHandleRegStateUpdates`. -/
def notifyServiceState : List Output :=
  match mapProviderState p.state with
  | .ins => ccproHandleIns
  | .oos => p.ccproHandleOos
  | .idle => []

/-- `CCAPP_FAILOVER_IND` in `ccappHandleRegStateUpdates`. -/
def handleFailoverInd : Provider × List Output :=
  let p := { p with state := .oosFailover, cucmMode := .failover, cause := .failover }
  let (p, ended, preserve) := p.ccappPreserveCall
  if preserve then (p, ended ++ p.notifyServiceState)
  else
    let p := { p with state := .oosRegistering }
    (p, ended ++ [.failFallback .start .failover false] ++ p.notifyServiceState)

/-- `CCAPP_FALLBACK_IND` in `ccappHandleRegStateUpdates`. -/
def handleFallbackInd : Provider × List Output :=
  let p := { p with cucmMode := .fallback, cause := .none }
  if p.isNoCallExist then
    let p := { p with state := .oosRegistering, cause := .fallback }
    (p, [.failFallback .start .fallback false] ++ p.notifyServiceState)
  else (p, p.notifyServiceState)

/-- `CCAPP_SHUTDOWN_ACK` in `ccappHandleRegStateUpdates`. -/
def handleShutdownAck : Provider × List Output :=
  let p := { p with
    state := .oosIdle
    cucmMode := .noneAvail
    inPreservation := false
    cause := .shutdown }
  (p, p.notifyServiceState)

/-- `CCAPP_REG_ALL_FAIL` in `ccappHandleRegStateUpdates`. -/
def handleRegAllFail : Provider × List Output :=
  let p := { p with state := .oosIdle, cucmMode := .noCucmSrstAvailable, inPreservation := false }
  let (p, ended, preserve) := p.ccappPreserveCall
  let p := { p with cause := if preserve then .failover else .regAllFailed }
  (p, ended ++ p.notifyServiceState)

/-- The registration state `CC_REGISTERED` in `ccp_handler`. -/
def handleRegistered : Provider × List Output :=
  if p.state = .inservice then (p, [])
  else
    let complete : List Output :=
      match p.cucmMode with
      | .failover => [.failFallback .complete .failover false]
      | .fallback => [.failFallback .complete .fallback false]
      | _ => []
    ({ p with state := .inservice, cause := .none, cucmMode := .noneAvail }, ccproHandleIns ++ complete)

/-- The state that a new session takes, for the events that create one. -/
def newState : CallEvent → Option CallState
  | .information => some .ringin
  | .callState state | .newcall state => if state = .onhook then none else some state
  | _ => none

/-- A session is deleted. When no session is left, the provider goes on with what has waited. -/
def closeSession (sessId : UInt32) : Provider × List Output :=
  let p := p.delhash sessId
  if (p.inPreservation ∨ p.cucmMode = .fallback) ∧ p.isNoCallExist then
    { p with inPreservation := false }.proceedWithFofb
  else (p, [])

def ccappUpdateSessionData (sessId : UInt32) (event : CallEvent) (memory : Bool) :
    Provider × List Output :=
  match p.findhash sessId with
  | none =>
    match newState event with
    | some state => if memory then (p.addhash { sessId, state }, []) else (p, [])
    | none => (p, [])
  | some data =>
    match event with
    | .sessionClosed => p.closeSession sessId
    | .callState state =>
      -- a call that the other side holds stays so
      let state :=
        if state = .hold ∧ (data.state = .remhold ∨ data.state = .reminuse) then .remhold else state
      let p := p.setState sessId state
      if state = .onhook then p.closeSession sessId else (p, [])
    | .newcall state => (p.setState sessId state, [])
    | .preservationActive => (p.setState sessId .preservation, [])
    | .information | .other => (p, [])

def ccpHandler : Msg → Provider × List Output
  | .failoverInd => p.handleFailoverInd
  | .fallbackInd => p.handleFallbackInd
  | .shutdownAck => p.handleShutdownAck
  | .regAllFail => p.handleRegAllFail
  | .modeNotify => ({ p with cause := .none }, [])
  | .registered => p.handleRegistered
  | .inserviceCmd => ({ p with state := .oosRegistering }, [])
  | .sessionUpdate sessId event memory =>
    if getSessType sessId = sessiontypeCallcontrol then p.ccappUpdateSessionData sessId event memory
    else (p, [])

end Provider

end Ccapp
