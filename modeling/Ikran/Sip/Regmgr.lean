import Mathlib.Algebra.GroupWithZero.Nat
import Mathlib.Data.Fintype.Basic

/-!
# The registration manager

The call managers of `sip_common_regmgr.c`: one is active, one stands by, and those that have failed are
monitored, each with a fallback record that sends keepalives until the call manager can take a role again.

The messages that the SIP task posts to itself wait in a queue. What the network, the platform, the
configuration and the memory answer while an event is handled is given with the event. The registration of
the prime line and of the backup (`ccsip_register.c`) may move them to another state at any time; what it
asks of the registration manager is modelled. A read that the program cannot make is noted as a fault, and
the handler goes on without it.
-/

namespace Sip.Regmgr

/-! ## Data -/

/-- The primary, the secondary and the tertiary call manager (`CCM_ID`). -/
abbrev CcmId := Fin 3

scoped instance neZero3 : NeZero 3 := ⟨by decide⟩

/-- A line of the fallback records, counted from `MAX_CCBS`. -/
abbrev LineNum := Fin 2

scoped instance neZero2 : NeZero 2 := ⟨by decide⟩

inductive CcbIndex
  /-- `REG_CCB_START`, the prime line. -/
  | line
  /-- `REG_BACKUP_CCB`. -/
  | backup
  | fallback (n : LineNum)

/-- The states of a registration (`sipRegSMStateType_t`). -/
inductive RegState
  | idle
  | registering
  | registered
  | unregistering
  | inFallback
  | stabilityCheck
  | tokenWait
  deriving DecidableEq

/-- `SIP_REG_PRE_FALLBACK` is the fourth value of another enumeration (`ccsip_register_states_t`). -/
abbrev RegState.preFallback : RegState :=
  .unregistering

/-- What the registration manager uses of a CCB. -/
structure Ccb where
  /-- `cc_cfg_table_entry`. -/
  entry : Option CcmId
  state : RegState
  registerSent : Bool := false
  referSent : Bool := false

/-- A fallback record (`fallback_ccb_t`) with its CCB. -/
structure Fallback where
  ptr : ℕ
  index : LineNum
  ccb : Ccb
  waitTimer : Bool := false
  retryTimer : Bool := false
  tlsSocketWaiting : Bool := false
  stabilityMsgCount : ℤ := 0

/-- The two timers of a fallback record. -/
inductive Timer
  | wait
  | retry
  deriving DecidableEq

/-- The messages for a registration (`ccsip_register_send_msg`). -/
inductive Cmd
  | tmrRegRetry
  | tmrRegWait
  | regCancel
  | regCleanup

/-- A message in the queue of the task. -/
inductive Msg
  /-- `TIMER_EXPIRATION` of a timer, with the fallback record that it was started for. -/
  | timerExpiration (t : Timer) (ptr : ℕ)
  | reg (cmd : Cmd) (ndx : CcbIndex) (ccm : CcmId)

/-- How a REGISTER goes that a 401 or a 407 asks for. -/
inductive Challenge
  /-- `cred_get_credentials_r` has no more. -/
  | noCredentials
  | unparsed
  | unsupported
  | digest
  deriving DecidableEq

/-- A response, as far as the handlers tell them apart. -/
inductive Response
  /-- 100. -/
  | trying
  /-- Another 1xx. -/
  | progress
  /-- 2xx. -/
  | success
  /-- 3xx, with whether its Contact can be used. -/
  | redirect (usable : Bool)
  /-- 401 and 407. -/
  | challenge (c : Challenge)
  /-- 423. -/
  | intervalTooSmall
  /-- 486, with whether it has a Retry-After. -/
  | busyHere (retryAfter : Bool)
  /-- 404, 413 and 480, with whether it has a Retry-After. -/
  | notFound (retryAfter : Bool)
  /-- Another 4xx. -/
  | clientError
  /-- 503, with whether it has a Retry-After. -/
  | unavailable (retryAfter : Bool)
  /-- Another 5xx or 6xx. -/
  | failure
  deriving DecidableEq

/-- The events of a registration (`sipRegSMEventType_t`). -/
inductive RegEvent
  | cancel
  | response (r : Response)
  | tmrAck
  | tmrWait
  | tmrRetry
  | cleanup
  deriving DecidableEq

/-- How a call manager is reached (`CONN_TYPE`). -/
inductive ConnType
  | udp
  | tcp
  | tls
  deriving DecidableEq

/-- What the environment answers while an event is handled. -/
structure Outcomes where
  /-- A REGISTER to a call manager is sent (`sipSPISendRegister`). -/
  sendRegister : CcmId → Bool := fun _ => true
  /-- A REFER is sent (`sipSPISendRefer`). -/
  sendRefer : Bool := true
  sendMsg : Bool := true
  connect : CcmId → Bool := fun _ => true
  /-- The address of a call manager is configured (`is_valid`). -/
  isValid : CcmId → Bool := fun _ => true
  connType : CcmId → ConnType := fun _ => .udp
  /-- `sec_level` asks for TLS. -/
  secLevel : CcmId → Bool := fun _ => false
  recordMemory : CcmId → Bool := fun _ => true
  ccbMemory : CcmId → Bool := fun _ => true
  /-- `sip_platform_is_phone_idle`. -/
  isPhoneIdle : Bool := true
  /-- The lines are to be registered, and are not (`ccsip_register_all_lines`). -/
  registersLines : Bool := true
  retxExceeded : Bool := true
  /-- `sip_config_get_keepalive_expires`. -/
  keepaliveExpires : ℤ := 120
  /-- `CFGID_CONN_MONITOR_DURATION`. -/
  connMonitorDuration : ℤ := 120

/-- A read that the program cannot make. -/
inductive Fault
  | divisionByZero
  | freedRecord
  | null

/-- The tables of the registration manager and the queue of the task. -/
structure State where
  /-- `CCM_Active_Standby_Table`. -/
  activeCcmEntry : Option CcmId := none
  standbyCcmEntry : Option CcmId := none
  line : Ccb := { entry := none, state := .idle }
  backup : Ccb := { entry := none, state := .idle }
  /-- `NULL` before the list is created and after it is destroyed. -/
  fallbackCcbList : Option (List Fallback) := none
  lost : List Fallback := []
  fallbackLinesAvailable : LineNum → Bool := fun _ => true
  /-- `CCM_Failover_Table`. -/
  failoverCcmEntry : Option CcmId := none
  primeRegistered : Bool := false
  /-- `CCM_Fallback_Table`. -/
  fallbackCcmEntry : Option CcmId := none
  fallbackCcb : Option ℕ := none
  isResp : Bool := false
  newStandbyAvailable : Option CcmId := none
  wanFailure : Bool := false
  handles : CcmId → Bool := fun _ => false
  posted : List Msg := []
  allocated : ℕ := 0
  faults : List Fault := []

namespace Fallback

variable (o : Outcomes) (r : Fallback)

/-- `sip_reg_sm_change_state`. -/
def changeState (state : RegState) : Fallback :=
  { r with ccb := { r.ccb with state := state } }

/-- `sip_regmgr_retry_timer_start`. -/
def retryTimerStart : Fallback :=
  { r with retryTimer := true }

/-- `sip_regmgr_wait_timer_start`. -/
def waitTimerStart : Fallback :=
  { r with waitTimer := true }

/-- `sip_regmgr_tls_retry_timer_start`, for the time of a connection or for the rest. -/
def tlsRetryTimerStart : Fallback :=
  { r with tlsSocketWaiting := !r.tlsSocketWaiting, retryTimer := true }

/-- `sip_regmgr_fallback_generic_timer_stop`. -/
def timerStop : Timer → Fallback
  | .wait => { r with waitTimer := false }
  | .retry => { r with retryTimer := false }

/-- `sipSPISendRegister` to the call manager. -/
def sendRegister (ccm : CcmId) : Fallback :=
  { r with ccb := { r.ccb with registerSent := o.sendRegister ccm } }

/-- `sipSPISendRefer` for a token. -/
def sendRefer : Fallback :=
  { r with ccb := { r.ccb with referSent := o.sendRefer } }

/-- `sip_regmgr_send_refer`. -/
def regmgrSendRefer : Fallback :=
  if o.sendRefer then (r.sendRefer o).changeState .tokenWait else r.sendRefer o

/-- `ccsip_register_cleanup`, which initialises the CCB (`sip_sm_ccb_init`). -/
def registerCleanup : Fallback :=
  { r with ccb := { entry := none, state := .idle } }

end Fallback

namespace State

variable (o : Outcomes) (s : State)

def fallbacks : List Fallback :=
  s.fallbackCcbList.getD []

/-- A read that the program cannot make. -/
def fault (f : Fault) : State :=
  { s with faults := f :: s.faults }

/-! ## The list of the fallback records -/

/-- `sip_regmgr_get_fallback_ccb_by_index`. -/
def getFallbackCcbByIndex (n : LineNum) : Option Fallback :=
  s.fallbacks.find? (·.index = n)

/-- `sip_regmgr_find_fallback_ccb_by_ccmid`, and by the address and the port of the call manager. -/
def findFallbackCcbByCcmid (ccm : CcmId) : Option Fallback :=
  s.fallbacks.find? (·.ccb.entry = some ccm)

/-- The record with a line changes. -/
def modifyFallback (n : LineNum) (f : Fallback → Fallback) : State :=
  { s with
    fallbackCcbList := s.fallbackCcbList.map fun l => l.map fun r => if r.index = n then f r else r }

/-- `sip_regmgr_get_fallback_line_num`. -/
def getFallbackLineNum : Option LineNum :=
  (List.finRange 2).find? s.fallbackLinesAvailable

/-- A line is taken, or returned (`sip_regmgr_return_fallback_line_num`). -/
def setFallbackLine (n : LineNum) (available : Bool) : State :=
  { s with fallbackLinesAvailable := Function.update s.fallbackLinesAvailable n available }

/-- `sip_regmgr_free_fallback_ccb`, with `sip_regmgr_clean_fallback_ccb`. -/
def freeFallbackCcb (n : LineNum) : State :=
  match s.getFallbackCcbByIndex n with
  | none => s
  | some _ =>
    { s.setFallbackLine n true with
      fallbackCcbList := s.fallbackCcbList.map fun l => l.filter (·.index ≠ n) }

/-- `sip_regmgr_free_fallback_ccb_list`. -/
def freeFallbackCcbList : State :=
  { s with
    fallbackLinesAvailable := fun n => s.fallbackLinesAvailable n || s.fallbacks.any (·.index = n)
    fallbackCcbList := none }

/-- `sip_regmgr_create_fallback_ccb`. -/
def createFallbackCcb (ccm : CcmId) : State :=
  if (s.findFallbackCcbByCcmid ccm).isSome then s
  else match s.getFallbackLineNum with
    | none => s
    | some n =>
      -- without memory for the CCB, the record is cleaned without the line
      if o.recordMemory ccm = false then s
      else if o.ccbMemory ccm = false then s.setFallbackLine n false
      else
        let r : Fallback :=
          { ptr := s.allocated, index := n, ccb := { entry := some ccm, state := .preFallback } }
        let s := { s.setFallbackLine n false with allocated := s.allocated + 1 }
        match s.fallbackCcbList with
        -- `sll_append` refuses a list that is NULL
        | none => { s with lost := s.lost ++ [r] }
        | some l => { s with fallbackCcbList := some (l ++ [r]) }

/-- `sip_regmgr_trigger_fallback_monitor` at one record. -/
def startMonitor (r : Fallback) : Fallback :=
  if r.ccb.state = .preFallback then
    let r' := r.changeState .inFallback
    match r.ccb.entry with
    | none => r'
    | some ccm =>
      if s.handles ccm then (r'.sendRegister o ccm).retryTimerStart else r'.retryTimerStart
  else r

/-- `sip_regmgr_trigger_fallback_monitor`. -/
def triggerFallbackMonitor : State :=
  { s with fallbackCcbList := s.fallbackCcbList.map fun l => l.map (s.startMonitor o) }

/-- `sip_sm_get_ccb_by_index`. -/
def getCcbByIndex : CcbIndex → Option Ccb
  | .line => some s.line
  | .backup => some s.backup
  | .fallback n => (s.getFallbackCcbByIndex n).map (·.ccb)

/-- The call manager of a CCB, when there is one. -/
def entryOf (ndx : CcbIndex) : Option CcmId :=
  (s.getCcbByIndex ndx).bind (·.entry)

/-- `ccsip_register_send_msg`. -/
def registerSendMsg (cmd : Cmd) (ndx : CcbIndex) : State :=
  match s.entryOf ndx with
  | none => s
  | some ccm => if o.sendMsg then { s with posted := s.posted ++ [.reg cmd ndx ccm] } else s

/-! ## The active and the standby call manager -/

/-- `sip_sm_call_cleanup` of the prime line: `sip_regmgr_set_cc_info` sets its entry. -/
def lineCleanup : State :=
  { s with line := { entry := s.activeCcmEntry, state := .idle } }

/-- `sip_sm_call_cleanup` of the backup. -/
def backupCleanup : State :=
  { s with backup := { entry := s.standbyCcmEntry, state := .idle } }

/-- `sip_regmgr_setup_new_active_ccb`. -/
def setupNewActiveCcb (entry : Option CcmId) : State :=
  { s with line := { entry := entry, state := .idle }, activeCcmEntry := entry }

/-- `sip_regmgr_setup_new_standby_ccb`. -/
def setupNewStandbyCcb (ccm : CcmId) : State :=
  { s with backup := { entry := some ccm, state := .unregistering }, standbyCcmEntry := some ccm }

/-- The connection of a call manager is closed or made. -/
def setHandle (ccm : CcmId) (valid : Bool) : State :=
  { s with handles := Function.update s.handles ccm valid }

/-- The call managers after one, in order. -/
def after (ccm : CcmId) : List CcmId :=
  (List.finRange 3).filter (ccm < ·)

/-- The next standby among call managers: the loop of `sip_regmgr_ccm_get_next`. -/
def searchStandby : List CcmId → State → Option CcmId × State
  | [], s => (none, s)
  | ccm :: ccms, s =>
    if o.isValid ccm = false then searchStandby ccms s
    -- `sip_regmgr_ccm_get_conn`
    else if s.handles ccm ∨ o.connect ccm then
      (some ccm, { s.setHandle ccm true with standbyCcmEntry := some ccm })
    else searchStandby ccms (s.createFallbackCcb o ccm)

/-- The search, after which there may be no standby. -/
def findStandby (ccm : CcmId) : Option CcmId × State :=
  match s.searchStandby o (after ccm) with
  | (none, s) => (none, s.backupCleanup)
  | found => found

/-- The call manager of a CCB has failed. -/
def giveUp (ccm : CcmId) : State :=
  (if o.connType ccm = .udp then s else s.setHandle ccm false).createFallbackCcb o ccm

/-- `sip_regmgr_ccm_get_next` from `ACTIVE_CC`. -/
def ccmGetNextActive (entry : Option CcmId) : Option CcmId × State :=
  match entry with
  | none => (none, s)
  | some ccm =>
    let s := s.giveUp o ccm
    match s.standbyCcmEntry with
    | none => (none, { s with activeCcmEntry := none })
    | some next =>
      (some next, ({ s with activeCcmEntry := some next, standbyCcmEntry := none }.findStandby o next).2)

/-- `sip_regmgr_ccm_get_next` from `STANDBY_CC`. -/
def ccmGetNextStandby (entry : Option CcmId) : Option CcmId × State :=
  match entry with
  | none => (none, s)
  | some ccm => (s.giveUp o ccm).findStandby o ccm

/-- The prime line is registered with the active call manager (`sip_regmgr_register_lines`). -/
def registerPrime : State :=
  (match s.standbyCcmEntry with
    | none => s
    | some ccm => s.setupNewStandbyCcb ccm).lineCleanup

/-- `ccsip_register_all_lines`. -/
def registerAllLines : State :=
  if o.registersLines then s.backupCleanup.registerPrime else s

/-- `sip_regmgr_ev_tmr_ack_retry` in REGISTERED and in REGISTERING: a failover. -/
def failover (ccb : Ccb) : State :=
  if ccb.entry ≠ s.activeCcmEntry then s
  else match s.ccmGetNextActive o ccb.entry with
    | (none, s) => s.freeFallbackCcbList
    | (some next, s) =>
      let s := { s with failoverCcmEntry := some next, primeRegistered := false, fallbackCcmEntry := none }
      match s.standbyCcmEntry with
      | none => s
      | some ccm => s.setupNewStandbyCcb ccm

/-- `sip_regmgr_ev_tmr_ack_retry` for the prime line. -/
def lineTmrAckRetry : State :=
  match s.line.state with
  | .registered | .registering => s.failover o s.line
  | .unregistering => s.lineCleanup
  | _ => s

/-- `sip_regmgr_ev_tmr_ack_retry` for the backup. -/
def backupTmrAckRetry : State :=
  match s.backup.state with
  | .registered | .registering => s.failover o s.backup
  | .unregistering =>
    match s.ccmGetNextStandby o s.backup.entry with
    | (some ccm, s) =>
      ((s.setupNewStandbyCcb ccm).registerSendMsg o .regCancel .backup).triggerFallbackMonitor o
    | (none, s) => { s with standbyCcmEntry := none }.triggerFallbackMonitor o
  | _ => s

/-- `sip_regmgr_replace_standby`, with a call manager that waits to stand by. -/
def replaceStandby : State :=
  match s.newStandbyAvailable with
  | none => s
  | some ccm =>
    let s := s.setupNewStandbyCcb ccm
    let s := match s.findFallbackCcbByCcmid ccm with
      | none => s
      | some r => s.freeFallbackCcb r.index
    { s.registerSendMsg o .regCancel .backup with newStandbyAvailable := none }

/-- `ccsip_handle_ev_unreg_2xx` for the backup. -/
def backupUnreg2xx : State :=
  { s with backup := { s.backup with registerSent := false } }.replaceStandby o

/-! ## Fallback -/

/-- `sip_regmgr_ev_tmr_ack_retry` in IN_FALLBACK: the next keepalive. -/
def keepalive (n : LineNum) (ccm : CcmId) (r : Fallback) : State :=
  let poll (r : Fallback) := (r.sendRegister o ccm).retryTimerStart
  if s.standbyCcmEntry.any (· < ccm) then s.freeFallbackCcb n
  else if s.handles ccm then s.modifyFallback n poll
  else if o.secLevel ccm ∧ o.connType ccm = .tls then
    if r.tlsSocketWaiting then s.modifyFallback n .tlsRetryTimerStart
    else if o.connect ccm then (s.setHandle ccm true).modifyFallback n .tlsRetryTimerStart
    else s.modifyFallback n .retryTimerStart
  else if o.connect ccm then (s.setHandle ccm true).modifyFallback n poll
  else s.modifyFallback n .retryTimerStart

/-- `sip_regmgr_ev_tmr_ack_retry` for a fallback record. -/
def fallbackTmrAckRetry (n : LineNum) (r : Fallback) : State :=
  match r.ccb.state with
  -- `SIP_REG_PRE_FALLBACK` too
  | .unregistering => s.modifyFallback n .registerCleanup
  | .inFallback | .tokenWait =>
    match r.ccb.entry with
    | none => s.fault .null
    | some ccm => (s.modifyFallback n (·.changeState .inFallback)).keepalive o n ccm r
  | .stabilityCheck =>
    match r.ccb.entry with
    | none => s.fault .null
    | some ccm =>
      (s.modifyFallback n fun r => (r.timerStop .wait).changeState .inFallback).keepalive o n ccm r
  | .idle | .registering | .registered => s

/-- `sip_regmgr_ev_default` for a fallback record. -/
def fallbackDefault (n : LineNum) (r : Fallback) : State :=
  (s.modifyFallback n (·.changeState .inFallback)).fallbackTmrAckRetry o n (r.changeState .inFallback)

/-- A REGISTER is sent with the timers as they are. -/
def resendRegister (n : LineNum) (r : Fallback) : State :=
  match r.ccb.entry with
  | none => s
  | some ccm => s.modifyFallback n (·.sendRegister o ccm)

/-- `sip_regmgr_set_stability_total_msgs`. -/
def setStabilityTotalMsgs (n : LineNum) : State :=
  if o.keepaliveExpires = 0 then s.fault .divisionByZero
  else s.modifyFallback n fun r =>
    { r with stabilityMsgCount := o.connMonitorDuration.tdiv o.keepaliveExpires }

/-- `sip_regmgr_check_and_transition` before the active call manager: a token is asked for. -/
def requestToken (n : LineNum) : State :=
  if o.isPhoneIdle ∧ s.fallbackCcmEntry = none then
    if o.sendRefer then
      s.modifyFallback n fun r => ((r.sendRefer o).changeState .tokenWait).retryTimerStart
    else s.modifyFallback n (·.sendRefer o)
  else s.modifyFallback n fun r => (r.changeState .inFallback).retryTimerStart

/-- The call manager of a record becomes the standby. -/
def becomeStandby (n : LineNum) (ccm : CcmId) : State :=
  ((s.setupNewStandbyCcb ccm).freeFallbackCcb n).registerSendMsg o .regCancel .backup

/-- The call manager of a record waits until the REGISTER of the backup is answered. -/
def awaitStandby (ccm : CcmId) : State :=
  match s.newStandbyAvailable with
  | none => { s with newStandbyAvailable := some ccm }
  | some waiting => if ccm < waiting then { s with newStandbyAvailable := some ccm } else s

/-- `sip_regmgr_check_and_transition` behind the active call manager: the standby may be replaced. -/
def offerStandby (n : LineNum) (ccm : CcmId) : State :=
  match s.standbyCcmEntry with
  | none => s.becomeStandby o n ccm
  | some standby =>
    if standby < ccm then s.freeFallbackCcb n
    else if s.backup.registerSent then s.awaitStandby ccm
    else match s.backup.entry with
      | none => s.fault .null
      | some old => (if o.connType old = .tcp then s.setHandle old false else s).becomeStandby o n ccm

/-- `sip_regmgr_check_and_transition`. -/
def checkAndTransition (n : LineNum) (ccm : CcmId) : State :=
  if s.wanFailure then
    ((s.modifyFallback n (·.changeState .stabilityCheck)).setStabilityTotalMsgs o n).modifyFallback n
      .waitTimerStart
  else match s.activeCcmEntry with
    | none => s.fault .null
    | some active =>
      if ccm < active then s.requestToken o n
      else if ccm = active then s
      else s.offerStandby o n ccm

/-- `sip_regmgr_ev_in_fallback_2xx`. -/
def inFallback2xx (n : LineNum) (r : Fallback) : State :=
  let s := s.modifyFallback n fun r =>
    { r with ccb := { r.ccb with registerSent := false } }.timerStop .retry
  match r.ccb.entry with
  | none => s.fault .null
  | some ccm => s.checkAndTransition o n ccm

/-- `sip_regmgr_ev_stability_check_2xx`. -/
def stabilityCheck2xx (n : LineNum) (r : Fallback) : State :=
  let count := if 0 < r.stabilityMsgCount then r.stabilityMsgCount - 1 else r.stabilityMsgCount
  let s := s.modifyFallback n fun r =>
    { r with ccb := { r.ccb with registerSent := false }, stabilityMsgCount := count }.timerStop .retry
  if count ≠ 0 then s.modifyFallback n .waitTimerStart
  else match r.ccb.entry with
    | none => s.fault .null
    | some ccm => { s with wanFailure := false }.checkAndTransition o n ccm

/-- `sip_regmgr_ev_token_wait_2xx`. -/
def tokenWait2xx (n : LineNum) (r : Fallback) : State :=
  let s := s.modifyFallback n fun r =>
    { r with ccb := { r.ccb with registerSent := false } }.timerStop .wait
  match s.fallbackCcmEntry with
  | none => { s with fallbackCcmEntry := r.ccb.entry, isResp := false, fallbackCcb := some r.ptr }
  | some _ => s.modifyFallback n fun r => (r.changeState .inFallback).retryTimerStart

/-- `sip_regmgr_ev_token_wait_4xx_n_5xx`, for a 486 or a 503, or for another response. -/
def tokenWait4xx5xx (n : LineNum) (wait : Bool) : State :=
  s.modifyFallback n fun r =>
    let r := { r with ccb := { r.ccb with registerSent := false } }.timerStop .wait
    if wait then r.waitTimerStart else (r.changeState .inFallback).retryTimerStart

/-- `sip_regmgr_ev_token_wait_tmr_wait`. -/
def tokenWaitTmrWait (n : LineNum) : State :=
  s.modifyFallback n fun r => (r.sendRefer o).retryTimerStart

/-- `sip_regmgr_ev_cleanup`. -/
def evCleanup (n : LineNum) (r : Fallback) : State :=
  let old := s.line.entry
  let s := (s.setupNewActiveCcb r.ccb.entry).freeFallbackCcb n
  let s := if s.isResp then { s.registerAllLines o with fallbackCcmEntry := none }
    else { s.registerPrime with primeRegistered := true }
  let s := match old with
    | none => s
    | some ccm =>
      (if o.connType ccm = ConnType.udp then s else s.setHandle ccm (o.connect ccm)).setupNewStandbyCcb ccm
  s.registerSendMsg o .regCancel .backup

/-- A 401 or a 407 in `ccsip_handle_ev_4xx`. -/
def authenticate (n : LineNum) (r : Fallback) : Challenge → State
  -- `sip_regmgr_ev_failure_response`
  | .noCredentials => s.freeFallbackCcbList
  | .unparsed => s
  | .unsupported => s.modifyFallback n .registerCleanup
  | .digest =>
    if r.ccb.entry.any o.sendRegister then s.resendRegister o n r
    else s.modifyFallback n .registerCleanup

/-- A response to a fallback record in TOKEN_WAIT. -/
def tokenWaitResponse (n : LineNum) (r : Fallback) : Response → State
  | .trying => s
  | .progress => s.modifyFallback n .registerCleanup
  | .success => s.tokenWait2xx n r
  | .challenge c => s.authenticate o n r c
  | .intervalTooSmall => s.resendRegister o n r
  | .busyHere _ | .unavailable _ => s.tokenWait4xx5xx n true
  | .notFound _ | .clientError => s.tokenWait4xx5xx n false
  | .redirect _ | .failure => s.fallbackDefault o n r

/-- A response to a fallback record in IN_FALLBACK. -/
def inFallbackResponse (n : LineNum) (r : Fallback) : Response → State
  | .trying => s
  | .progress => s.modifyFallback n .registerCleanup
  | .success => s.inFallback2xx o n r
  | .redirect _ => s.fallbackDefault o n r
  -- `sip_regmgr_ev_fallback_retry`
  | _ => s.modifyFallback n .retryTimerStart

/-- A response to a fallback record in STABILITY_CHECK. -/
def stabilityCheckResponse (n : LineNum) (r : Fallback) : Response → State
  | .trying => s
  | .progress => s.modifyFallback n .registerCleanup
  | .success => s.stabilityCheck2xx o n r
  | _ => s.fallbackDefault o n r

/-- A response to a fallback record in SIP_REG_PRE_FALLBACK, which is handled as UNREGISTERING. -/
def preFallbackResponse (n : LineNum) (r : Fallback) : Response → State
  | .trying => s
  | .progress => s.modifyFallback n .registerCleanup
  | .success => s.modifyFallback n (·.changeState .idle)
  | .redirect usable =>
    if usable ∧ r.ccb.entry.any o.sendRegister then s.resendRegister o n r
    else s.modifyFallback n .registerCleanup
  | .challenge c => s.authenticate o n r c
  | .intervalTooSmall => s.resendRegister o n r
  | .busyHere retryAfter | .notFound retryAfter | .unavailable retryAfter =>
    if retryAfter then s else s.freeFallbackCcbList
  | .clientError | .failure => s.freeFallbackCcbList

/-- An event for a fallback record (`gSIPRegSMTable`). A record does not register. -/
def fallbackEvent (n : LineNum) (r : Fallback) : RegState → RegEvent → State
  | .idle, .cancel => s.modifyFallback n .registerCleanup
  | .idle, .cleanup => s.fallbackDefault o n r
  | .unregistering, .cancel => s.resendRegister o n r
  | .unregistering, .response resp => s.preFallbackResponse o n r resp
  | .unregistering, .tmrAck => s.fallbackTmrAckRetry o n r
  | .unregistering, .tmrWait => s.registerSendMsg o .regCancel (.fallback n)
  | .unregistering, .tmrRetry => if o.retxExceeded then s.fallbackTmrAckRetry o n r else s
  | .unregistering, .cleanup => s.fallbackDefault o n r
  | .inFallback, .cancel => s.resendRegister o n r
  | .inFallback, .response resp => s.inFallbackResponse o n r resp
  | .inFallback, .tmrAck => s.fallbackTmrAckRetry o n r
  | .inFallback, .tmrWait => s.fallbackDefault o n r
  | .inFallback, .tmrRetry => s.fallbackTmrAckRetry o n r
  | .inFallback, .cleanup => s.fallbackDefault o n r
  | .stabilityCheck, .cancel => s.resendRegister o n r
  | .stabilityCheck, .response resp => s.stabilityCheckResponse o n r resp
  | .stabilityCheck, .tmrAck => s.fallbackTmrAckRetry o n r
  | .stabilityCheck, .tmrWait =>
    (s.registerSendMsg o .regCancel (.fallback n)).modifyFallback n .retryTimerStart
  | .stabilityCheck, .tmrRetry => s.fallbackTmrAckRetry o n r
  | .stabilityCheck, .cleanup => s.fallbackDefault o n r
  | .tokenWait, .cancel => s.fallbackDefault o n r
  | .tokenWait, .response resp => s.tokenWaitResponse o n r resp
  | .tokenWait, .tmrAck => s.fallbackTmrAckRetry o n r
  | .tokenWait, .tmrWait => s.tokenWaitTmrWait o n
  | .tokenWait, .tmrRetry => s.fallbackTmrAckRetry o n r
  | .tokenWait, .cleanup => s.evCleanup o n r
  | _, _ => s

/-- `sip_reg_sm_process_event` for the fallback record with a line. -/
def fallbackProcess (n : LineNum) (ev : RegEvent) : State :=
  match s.getFallbackCcbByIndex n with
  | none => s
  | some r => s.fallbackEvent o n r r.ccb.state ev

/-- `sip_regmgr_retry_timeout_expire` and `sip_regmgr_wait_timeout_expire`. -/
def timeoutExpire (t : Timer) (ptr : ℕ) : State :=
  match s.fallbacks.find? (·.ptr = ptr) with
  | none => s.fault .freedRecord
  | some r =>
    match t with
    | .retry => s.registerSendMsg o .tmrRegRetry (.fallback r.index)
    | .wait => (s.modifyFallback r.index (·.timerStop .wait)).registerSendMsg o .tmrRegWait (.fallback r.index)

/-- `ccsip_handle_ev_reg_cancel`, or `ccsip_handle_ev_default` in IDLE. -/
def cancelRegistration (ccb cleaned : Ccb) : Ccb :=
  if ccb.state = .idle then cleaned
  else { ccb with state := .unregistering, registerSent := ccb.entry.any o.sendRegister }

/-- A message for the registration of a CCB. -/
def process (cmd : Cmd) (ccm : CcmId) : CcbIndex → State
  | .fallback n =>
    match cmd with
    | .tmrRegRetry => if s.entryOf (.fallback n) = some ccm then s.fallbackProcess o n .tmrRetry else s
    | .tmrRegWait => s.fallbackProcess o n .tmrWait
    | .regCancel => s.fallbackProcess o n .cancel
    | .regCleanup => s.fallbackProcess o n .cleanup
  | .line =>
    match cmd with
    | .tmrRegRetry => if s.line.entry = some ccm ∧ o.retxExceeded then s.lineTmrAckRetry o else s
    | .regCancel => { s with line := cancelRegistration o s.line s.lineCleanup.line }
    | .tmrRegWait | .regCleanup => s
  | .backup =>
    match cmd with
    | .tmrRegRetry => if s.backup.entry = some ccm ∧ o.retxExceeded then s.backupTmrAckRetry o else s
    | .regCancel => { s with backup := cancelRegistration o s.backup s.backupCleanup.backup }
    | .tmrRegWait | .regCleanup => s

/-- What is left in the queue. -/
def leave (ms : List Msg) : State :=
  { s with posted := ms }

/-- The first message of the queue is handled. -/
def deliver : State :=
  match s.posted with
  | [] => s
  | .timerExpiration t ptr :: ms => (s.leave ms).timeoutExpire o t ptr
  | .reg cmd ndx ccm :: ms => (s.leave ms).process o cmd ccm ndx

/-- The connections at the start, of which a failed one was tried over UDP as well: the loop of
`sip_regmgr_setup_cc_conns`. -/
def setupCcConns : List CcmId → Bool → State → Bool × State
  | [], active, s => (active, s)
  | ccm :: ccms, active, s =>
    if o.connect ccm then
      if active then (true, { s.setHandle ccm true with standbyCcmEntry := some ccm })
      else setupCcConns ccms true { s.setHandle ccm true with activeCcmEntry := some ccm }
    else if o.isValid ccm then setupCcConns ccms active (s.createFallbackCcb o ccm)
    else setupCcConns ccms active s

/-- A new list (`sll_create`); the records of the old one are lost. -/
def createFallbackCcbList : State :=
  { s with fallbackCcbList := some [], lost := s.lost ++ s.fallbacks }

/-- `sip_regmgr_init`, and the CCBs of the prime line and of the backup after it (`sip_sm_init`). -/
def init : State :=
  match s.createFallbackCcbList.setupCcConns o (List.finRange 3) false with
  | (false, s) => { s with activeCcmEntry := none }.freeFallbackCcbList
  | (true, s) =>
    let s := { s.triggerFallbackMonitor o with fallbackCcmEntry := none, isResp := false }
    s.lineCleanup.backupCleanup

/-- `sip_regmgr_shutdown`. -/
def shutdown : State :=
  { s.freeFallbackCcbList with activeCcmEntry := none, standbyCcmEntry := none }

/-- `sip_regmgr_failover_rsp_start`. -/
def failoverRspStart : State :=
  { (s.setupNewActiveCcb s.failoverCcmEntry).registerPrime with primeRegistered := true }

/-- `sip_regmgr_register_lines` for all lines. -/
def registerLines : State :=
  if s.primeRegistered then s else s.registerPrime

/-- `sip_regmgr_failover_rsp_complete`. -/
def failoverRspComplete : State :=
  { s.registerLines.triggerFallbackMonitor o with primeRegistered := false }

/-- The fallback table has no call manager any more. -/
def endFallback : State :=
  { s with fallbackCcmEntry := none }

/-- `sip_regmgr_phone_idle`. -/
def phoneIdle (waited : Bool) : State :=
  match s.fallbackCcb with
  | none => s.fault .null
  | some ptr =>
    match s.fallbacks.find? (·.ptr = ptr) with
    | none => s.fault .freedRecord
    | some r =>
      if waited then s.endFallback.modifyFallback r.index (·.regmgrSendRefer o)
      else (s.registerSendMsg o .regCancel .line).registerSendMsg o .regCleanup (.fallback r.index)

/-- `sip_regmgr_fallback_rsp`. -/
def fallbackRsp : State :=
  let s := { s with isResp := true }
  let s := match s.fallbackCcmEntry with
    | none => s
    | some _ => { s.registerLines with fallbackCcmEntry := none }
  { s with primeRegistered := false }

/-- `sip_tcp_createconnfailed_to_spi`: a connection is lost. -/
def createConnFailed (ccm : CcmId) : State :=
  let closed := s.setHandle ccm false
  if s.activeCcmEntry = some ccm then closed.registerSendMsg o .tmrRegRetry .line
  else if s.standbyCcmEntry = some ccm then closed.registerSendMsg o .tmrRegRetry .backup
  else closed

variable {o s} {n : LineNum} {f : Fallback → Fallback} {r : Fallback}

theorem fallbacks_modifyFallback :
    (s.modifyFallback n f).fallbacks = s.fallbacks.map fun r => if r.index = n then f r else r := by
  unfold modifyFallback fallbacks
  cases s.fallbackCcbList <;> rfl

theorem mem_modifyFallback :
    r ∈ (s.modifyFallback n f).fallbacks ↔ ∃ r₀ ∈ s.fallbacks, (if r₀.index = n then f r₀ else r₀) = r := by
  rw [fallbacks_modifyFallback, List.mem_map]

theorem getFallbackCcbByIndex_eq_none (h : s.getFallbackCcbByIndex n = none) : ∀ r ∈ s.fallbacks, r.index ≠ n := by
  simpa [getFallbackCcbByIndex] using h

theorem mem_of_getFallbackCcbByIndex (h : s.getFallbackCcbByIndex n = some r) : r ∈ s.fallbacks ∧ r.index = n :=
  ⟨List.mem_of_find?_eq_some h, by simpa using List.find?_some h⟩

theorem fallbacks_freeFallbackCcb : (s.freeFallbackCcb n).fallbacks = s.fallbacks.filter (·.index ≠ n) := by
  unfold freeFallbackCcb
  split
  · next hnone =>
    refine (List.filter_eq_self.2 fun r hr => ?_).symm
    simpa using getFallbackCcbByIndex_eq_none hnone r hr
  · unfold fallbacks
    cases s.fallbackCcbList <;> rfl

theorem fallbacks_freeFallbackCcbList : s.freeFallbackCcbList.fallbacks = [] := rfl

theorem fallbacks_triggerFallbackMonitor :
    (s.triggerFallbackMonitor o).fallbacks = s.fallbacks.map (s.startMonitor o) := by
  unfold triggerFallbackMonitor fallbacks
  cases s.fallbackCcbList <;> rfl

end State

/-! ## Runs -/

/-- An event for the registration manager. -/
inductive Event
  /-- The SIP stack starts (`sip_sm_init`). -/
  | init
  | shutdown
  | timerExpires (t : Timer) (n : LineNum)
  | deliver
  /-- The acknowledgement timer of a CCB runs out (`SIP_TMR_REG_ACK`). -/
  | tmrAck (ndx : CcbIndex)
  | response (n : LineNum) (r : Response)
  /-- The registration of the prime line is rejected (`sip_regmgr_ev_failure_response`). -/
  | lineRejected
  /-- The backup is answered (`ccsip_handle_ev_unreg_2xx`). -/
  | backup2xx
  /-- `SIP_TMR_STANDBY_KEEPALIVE`. -/
  | standbyKeepalive
  | lineMoves (state : RegState) (registerSent reset : Bool)
  | backupMoves (state : RegState) (registerSent reset : Bool)
  /-- `sip_regmgr_rsp` with `FAILOVER_RSP`. -/
  | failoverRspStart
  | failoverRspComplete
  /-- `sip_regmgr_rsp` with `FALLBACK_RSP`. -/
  | phoneIdle (waited : Bool)
  | fallbackRsp
  | createConnFailed (ccm : CcmId)

namespace State

variable (o : Outcomes) (s : State)

/-- A timer of a fallback record runs out: it does not run any more, and its message is posted. -/
def timerExpires (t : Timer) (n : LineNum) (r : Fallback) : State :=
  let s := s.modifyFallback n (·.timerStop t)
  if o.sendMsg then { s with posted := s.posted ++ [.timerExpiration t r.ptr] } else s

/-- A response is final, so that its request is answered. -/
def answered (r : Fallback) : Response → Fallback
  | .trying | .progress => r
  | _ => { r with ccb := { r.ccb with registerSent := false, referSent := false } }

def handle : Event → State
  | .init => s.init o
  | .shutdown => s.shutdown
  | .timerExpires t n =>
    match s.getFallbackCcbByIndex n with
    | none => s
    | some r =>
      if r.waitTimer ∧ t = .wait ∨ r.retryTimer ∧ t = .retry then s.timerExpires o t n r else s
  | .deliver => s.deliver o
  | .tmrAck .line => s.lineTmrAckRetry o
  | .tmrAck .backup => s.backupTmrAckRetry o
  | .tmrAck (.fallback n) => s.fallbackProcess o n .tmrAck
  | .response n resp =>
    match s.getFallbackCcbByIndex n with
    | none => s
    | some r =>
      if r.ccb.registerSent ∨ r.ccb.referSent then
        (s.modifyFallback n (answered · resp)).fallbackProcess o n (.response resp)
      else s
  | .lineRejected => s.freeFallbackCcbList
  | .backup2xx =>
    if s.backup.state = .unregistering ∧ s.backup.registerSent then s.backupUnreg2xx o else s
  | .standbyKeepalive =>
    if s.backup.state = .unregistering then s.registerSendMsg o .regCancel .backup else s
  | .lineMoves state sent reset =>
    { s with
      line := { entry := if reset then s.activeCcmEntry else s.line.entry, state := state, registerSent := sent } }
  | .backupMoves state sent reset =>
    { s with
      backup :=
        { entry := if reset then s.standbyCcmEntry else s.backup.entry, state := state, registerSent := sent } }
  | .failoverRspStart => s.failoverRspStart
  | .failoverRspComplete => s.failoverRspComplete o
  | .phoneIdle waited => s.phoneIdle o waited
  | .fallbackRsp => s.fallbackRsp
  | .createConnFailed ccm => s.createConnFailed o ccm

end State

/-- The states that the phone can reach by events that meet a condition. -/
inductive Run (P : State → Event → Outcomes → Prop) : State → Prop
  | start : Run P {}
  | step (s : State) (ev : Event) (o : Outcomes) (h : Run P s) (hev : P s ev o) : Run P (s.handle o ev)

end Sip.Regmgr
