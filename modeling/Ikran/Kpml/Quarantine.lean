import Ikran.Kpml.Regex
import Ikran.Lib.CircularQueue
import Ikran.Lib.Keyed

/-!
# Quarantined digits

The records of `kpmlmap.c`, one for each call. The digits of a call are quarantined in its record while there is
no subscription, and are passed on when there is one.

The list of the records is there. Messages, timers, and what the dial plan stores of a digit are left out, as
they change no record. The outcome of `kpml_treat_regex` and the state of the call are part of a message; memory
for a record is there for both the record and its node, or for none of them.
-/

namespace Kpml

open CStr

/-! ## Records -/

abbrev maxDialstring : ℕ := 256

/-- `kpml_config_e`. -/
inductive KpmlConfig
  | none | signalOnly | dtmfOnly | both
  deriving DecidableEq

/-- `kpml_state_e`. -/
inductive KpmlState
  | noSubData | subDataFound | notifySent

/-- `kpml_match_action_e`, as far as `kpml_match_pattern` returns it. -/
inductive KpmlMatchAction
  | nomatch | fullpattern | immediately

/-- `KPML_ONE_SHOT` of `kpml_sub_type_e`. -/
def kpmlOneShot : ℤ := 0

def kpmlPersistent : ℤ := 1

def kpmlSinglyNotify : ℤ := 2

def bkspaceKey : Char := 'Z'

/-- The line and the identifier of a call. -/
abbrev KpmlKey := UInt16 × UInt16

/-- `kpml_data_t`. The queue is `q_digits`, `dig_head` and `dig_tail`. -/
structure KpmlData where
  line : UInt16
  callId : UInt16
  kpmlId : UInt32
  subId : ℤ := 0
  pendingSub : Bool := false
  subReject : Bool := false
  persistent : ℤ := kpmlOneShot
  enterkey : Bool := false
  regexMatch : BitVec 64 := 0
  kpmlDialed : CStr := []
  lastDigBkspace : Bool := false
  enableBackspace : Bool := false
  queue : CircularQueue Char maxDialstring := { cells := fun _ => nul, head := 0, tail := 0 }

def KpmlData.key (r : KpmlData) : KpmlKey := (r.line, r.callId)

/-- `s_kpml_list`. A call has one record. -/
structure KpmlList where
  records : List KpmlData := []
  nodup : (records.map KpmlData.key).Nodup := by decide

namespace KpmlList

/-- `sll_find` with `kpml_match_line_call_id`. -/
def find (l : KpmlList) (k : KpmlKey) : Option KpmlData := l.records.find? (·.key = k)

/-- The record of a call is written. -/
def put (l : KpmlList) (r : KpmlData) : KpmlList where
  records := Keyed.replace KpmlData.key r l.records
  nodup := by
    rw [Keyed.map_key_replace]
    exact l.nodup

/-- The record of a call is removed from the list, and released. -/
def erase (l : KpmlList) (k : KpmlKey) : KpmlList where
  records := l.records.filter (·.key ≠ k)
  nodup := l.nodup.sublist (List.filter_sublist.map KpmlData.key)

/-- `sll_append` of the record of a call that has none. -/
def append (l : KpmlList) (r : KpmlData) : KpmlList :=
  if h : r.key ∈ l.records.map KpmlData.key then l
  else
    { records := l.records ++ [r]
      nodup := by
        rw [List.map_append]
        exact l.nodup.append (List.nodup_singleton _) (by simpa using h) }

end KpmlList

/-- `CFGID_KPML_ENABLED`, `s_kpml_list` and `g_kpml_id`. -/
structure State where
  config : KpmlConfig := .none
  list : KpmlList := {}
  gKpmlId : UInt32 := 0

/-- A call of `kpml_update_dialed_digits` for a digit that was quarantined. -/
abbrev Delivery := KpmlKey × Char

/-- A state, the digits that were passed on to reach it, and whether a record was used that had been released. -/
structure Outcome where
  state : State
  delivered : List Delivery := []
  fault : Bool := false

namespace State

/-- The record of a call. -/
def find (s : State) (k : KpmlKey) : Option KpmlData := s.list.find k

/-- The record of a call is written. -/
def put (s : State) (r : KpmlData) : State := { s with list := s.list.put r }

/-- `kpml_clear_data` with `KPML_ONE_SHOT`. -/
def erase (s : State) (k : KpmlKey) : State := { s with list := s.list.erase k }

/-- `kpml_get_new_data` and `sll_append`, and the record that is filled in. -/
def appendNew (s : State) (r : UInt32 → KpmlData) : State :=
  { s with list := s.list.append (r (s.gKpmlId + 1)), gKpmlId := s.gKpmlId + 1 }

/-- A record for the call is made when there is none and there is memory. -/
def ensure (s : State) (k : KpmlKey) (memory : Bool) : State :=
  if (s.find k).isNone ∧ memory then s.appendNew fun id => { line := k.1, callId := k.2, kpmlId := id } else s

/-- The record of a call is changed, if there is one. -/
def modify (s : State) (k : KpmlKey) (f : KpmlData → KpmlData) : State :=
  match s.find k with
  | some r => s.put (f r)
  | none => s

def kpmlQuarantineDigits (s : State) (k : KpmlKey) (digit : Char) (memory : Bool) : State :=
  if s.config = .none then s
  else (s.ensure k memory).modify k fun r => { r with queue := r.queue.push digit }

def kpmlFlushQuarantineBuffer (s : State) (k : KpmlKey) : State :=
  if s.config = .none then s
  else
    match s.find k with
    | some r => if r.pendingSub then s else s.erase k
    | none => s

def kpmlSetSubscriptionReject (s : State) (k : KpmlKey) (memory : Bool) : State :=
  if s.config = .none then s else (s.ensure k memory).modify k fun r => { r with subReject := true }

/-- `kpml_clear_data` of the record of a call. -/
def kpmlClearData (s : State) (r : KpmlData) : State :=
  if r.persistent = kpmlOneShot then s.erase r.key
  else if r.persistent = kpmlPersistent ∨ r.persistent = kpmlSinglyNotify then s.put { r with kpmlDialed := [] }
  else s.put r

def kpmlMatchPattern (r : KpmlData) : KpmlMatchAction :=
  if '#' ∈ r.kpmlDialed ∧ r.enterkey then .immediately
  else if kpmlMatchRequestedDigit r.regexMatch r.kpmlDialed.peek then .fullpattern
  else .nomatch

def dialedChar (digit : Char) : Char := if digit = '\x0f' then '#' else if digit = '\x0e' then '*' else digit

/-- The record with the digit, and the action that it calls for. -/
def dialDigit (r : KpmlData) (digit : Char) : KpmlData × KpmlMatchAction :=
  if digit = bkspaceKey then ({ r with kpmlDialed := ['b', 's'], lastDigBkspace := true }, .fullpattern)
  else
    let r := { r with kpmlDialed := r.kpmlDialed ++ [dialedChar digit] }
    (r, kpmlMatchPattern r)

/-- `kpml_update_dialed_digits`. The loop over the list meets one record of the call. -/
def kpmlUpdateDialedDigits (s : State) (k : KpmlKey) (digit : Char) : KpmlState × State :=
  if s.config = .none then (.noSubData, s)
  else
    match s.find k with
    | none => (.noSubData, s)
    | some r =>
      if r.pendingSub = false then (.noSubData, s)
      else if maxDialstring - 1 ≤ r.kpmlDialed.length then (.subDataFound, s)
      else if digit = '\x82' then (.notifySent, s.kpmlClearData { r with kpmlDialed := [] })
      else
        match dialDigit r digit with
        | (r, .nomatch) => (.subDataFound, s.put { r with kpmlDialed := [] })
        | (r, _) => (.notifySent, s.kpmlClearData { r with kpmlDialed := [] })

/-- The loop of `kpml_update_quarantined_digits`, which takes the digits at the head of the queue, for at most as many
of them as there is fuel for. -/
def deliverLoop : ℕ → State → KpmlKey → Outcome
  | 0, s, _ => { state := s }
  | fuel + 1, s, k =>
    match s.find k with
    | none => { state := s, fault := true }
    | some r =>
      if r.queue.head = r.queue.tail then { state := s }
      else
        let digit := r.queue.cells r.queue.head
        let next := deliverLoop fuel
          ((s.kpmlUpdateDialedDigits k digit).2.modify k fun r => { r with queue := r.queue.pop }) k
        { next with delivered := (k, digit) :: next.delivered }

def kpmlUpdateQuarantinedDigits (s : State) (k : KpmlKey) : Outcome := deliverLoop maxDialstring s k

end State

/-! ## Subscriptions -/

/-- `lsm_states_t`. -/
inductive LsmState
  | none | idle | pending | offhook | onhook | proceed | ringout | ringin | connected | busy | congestion | holding
  | cwt | xfer | attnXfer | conf | invalidNumber
  deriving DecidableEq

/-- The state is in front of `LSM_S_CONNECTED`. -/
def LsmState.beforeConnected : LsmState → Bool
  | none | idle | pending | offhook | onhook | proceed | ringout | ringin => true
  | _ => false

/-- `KPMLRequest`, as far as it is kept in a record or checked. What `kpml_treat_regex` makes of the regular
expression is the bitmask and the flag for the backspace key, or an error. -/
structure KpmlRequest where
  persist : ℤ
  flush : Bool := false
  longhold : ℕ := 0
  longrepeat : ℕ := 0
  nopartial : ℕ := 0
  enterkey : CStr := []
  regex : Option (BitVec 64 × Bool)

/-- `ccsip_sub_not_data_t` of a subscription, with the state of its call, and whether there is memory for a new
record. -/
structure SubsInd where
  lineId : UInt16
  gsmId : UInt16
  subId : ℤ
  subDuration : ℕ
  request : Option KpmlRequest
  lsmState : LsmState
  memory : Bool

def SubsInd.key (m : SubsInd) : KpmlKey := (m.lineId, m.gsmId)

def KpmlData.kpmlUpdateData (r : KpmlData) : Option KpmlRequest → KpmlData
  | none => r
  | some q => { r with persistent := q.persist, kpmlDialed := if q.flush then [] else r.kpmlDialed }

def checkKpmlConfig (config : KpmlConfig) : LsmState → Bool
  | .offhook | .proceed => config = .signalOnly || config = .both
  | .ringout | .connected | .holding => config = .dtmfOnly || config = .both
  | _ => false

def checkSubcriptionCreateError (r : KpmlData) (lsmState : LsmState) : Bool :=
  lsmState ≠ .none && !(lsmState.beforeConnected && r.subReject)

def checkIfKpmlAttributesSupported (q : KpmlRequest) : Bool :=
  q.longhold = 0 && (q.longrepeat = 0 && q.nopartial = 0)

def kpmlTreatEnterkey (enterStr : CStr) : Option Bool :=
  if enterStr = [] then some false else if enterStr = ['#'] then some true else none

/-- The record that an accepted request makes. -/
def KpmlData.withRequest (r : KpmlData) (q : KpmlRequest) : Option KpmlData :=
  if checkIfKpmlAttributesSupported q then
    q.regex.bind fun e =>
      (kpmlTreatEnterkey q.enterkey).map fun enterkey =>
        { r with regexMatch := e.1, enableBackspace := e.2, enterkey }
  else none

namespace State

/-- The part of `kpml_receive_subscribe` behind the record. An empty one refreshes the subscription. -/
def subscribeRecord (s : State) (r : KpmlData) (isEmptyResubscribe : Bool) (m : SubsInd) : Outcome :=
  if m.subDuration = 0 then { state := s.erase r.key }
  else if checkKpmlConfig s.config m.lsmState && checkSubcriptionCreateError r m.lsmState then
    let r := { r with subId := m.subId, pendingSub := true, subReject := false }
    if isEmptyResubscribe then (s.put r).kpmlUpdateQuarantinedDigits r.key
    else
      match m.request.bind r.withRequest with
      | some r => (s.put r).kpmlUpdateQuarantinedDigits r.key
      | none => { state := s.erase r.key }
  else { state := s.erase r.key }

/-- A subscription for a call that has no record. -/
def subscribeNew (s : State) (m : SubsInd) : Outcome :=
  let new : UInt32 → KpmlData := fun id =>
    KpmlData.kpmlUpdateData { line := m.lineId, callId := m.gsmId, kpmlId := id } m.request
  if m.memory then (s.appendNew new).subscribeRecord (new (s.gKpmlId + 1)) false m else { state := s }

def kpmlReceiveSubscribe (s : State) (m : SubsInd) : Outcome :=
  if s.config = .none then { state := s }
  else if m.lineId = 0 ∨ m.gsmId = 0 then { state := s }
  else
    match s.find m.key with
    | some r =>
      if r.pendingSub then
        if m.request.isNone then s.subscribeRecord r true m else (s.erase m.key).subscribeNew m
      else s.subscribeRecord (r.kpmlUpdateData m.request) false m
    | none => s.subscribeNew m

def kpmlTerminateSubscription (s : State) (subId : ℤ) : State :=
  if s.config = .none ∨ subId = -1 then s
  else
    match s.list.records.find? (·.subId = subId) with
    | some r => s.erase r.key
    | none => s

/-- `kpml_receive_notify_response`, by the status of the response: a success, a timeout, or another one. -/
def kpmlReceiveNotifyResponse (s : State) (k : KpmlKey) (success timeout : Bool) : Outcome :=
  match s.find k with
  | some r =>
    if r.lastDigBkspace ∧ success then (s.put { r with lastDigBkspace := false }).kpmlUpdateQuarantinedDigits k
    else if timeout then { state := s.erase k }
    else s.kpmlUpdateQuarantinedDigits k
  | none => { state := s }

def kpmlInterDigitTimerEvent (s : State) (kpmlId : UInt32) : State :=
  match s.list.records.find? (·.kpmlId = kpmlId) with
  | some r => s.kpmlClearData r
  | none => s

def kpmlSubscriptionTimerEvent (s : State) (kpmlId : UInt32) : State :=
  match s.list.records.find? (·.kpmlId = kpmlId) with
  | some r => s.erase r.key
  | none => s

end State

/-- What happens to the records. -/
inductive KpmlOp
  | configure (config : KpmlConfig)
  | quarantineDigits (k : KpmlKey) (digit : Char) (memory : Bool)
  | flushQuarantineBuffer (k : KpmlKey)
  | setSubscriptionReject (k : KpmlKey) (memory : Bool)
  | updateDialedDigits (k : KpmlKey) (digit : Char)
  | receiveSubscribe (m : SubsInd)
  | terminateSubscription (subId : ℤ)
  | receiveNotifyResponse (k : KpmlKey) (success timeout : Bool)
  | interDigitTimerEvent (kpmlId : UInt32)
  | subscriptionTimerEvent (kpmlId : UInt32)

namespace State

def step (s : State) : KpmlOp → Outcome
  | .configure config => { state := { s with config } }
  | .quarantineDigits k digit memory => { state := s.kpmlQuarantineDigits k digit memory }
  | .flushQuarantineBuffer k => { state := s.kpmlFlushQuarantineBuffer k }
  | .setSubscriptionReject k memory => { state := s.kpmlSetSubscriptionReject k memory }
  | .updateDialedDigits k digit => { state := (s.kpmlUpdateDialedDigits k digit).2 }
  | .receiveSubscribe m => s.kpmlReceiveSubscribe m
  | .terminateSubscription subId => { state := s.kpmlTerminateSubscription subId }
  | .receiveNotifyResponse k success timeout => s.kpmlReceiveNotifyResponse k success timeout
  | .interDigitTimerEvent kpmlId => { state := s.kpmlInterDigitTimerEvent kpmlId }
  | .subscriptionTimerEvent kpmlId => { state := s.kpmlSubscriptionTimerEvent kpmlId }

/-- Operations one after another, with all digits that they pass on. -/
def run (s : State) : List KpmlOp → Outcome
  | [] => { state := s }
  | op :: ops =>
    let first := s.step op
    let rest := first.state.run ops
    { rest with delivered := first.delivered ++ rest.delivered, fault := first.fault || rest.fault }

end State

end Kpml
