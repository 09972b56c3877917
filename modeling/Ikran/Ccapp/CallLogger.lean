import Ikran.Ccapp.Provider
import Ikran.Lib.CString
import Mathlib.Data.List.Induction
import Mathlib.Order.Basic

/-!
# The call log of a session

`call_logger.c`, which keeps the log record of a call while its session is updated. A session ends with the update
to `ONHOOK`. Each call of the logger has the time that `time` returns, which is positive.
-/

namespace Ccapp

open CStr

/-- `cc_call_type_t`. -/
inductive CallType
  | none | incoming | outgoing | forwarded
  deriving DecidableEq

/-- `cc_log_disposition_t`. -/
inductive LogDisposition
  | missed | rcvd | sent | unknwn | delete
  deriving DecidableEq

/-- One entry of `remotePartyName`, `remotePartyNumber` and `altPartyNumber`. -/
structure RemoteParty where
  name : CStr := []
  number : CStr := []
  altNumber : CStr := []
  deriving DecidableEq

/-- `cc_call_log_t`, as `calllogger_init_call_log` leaves it. -/
structure CallLog where
  localPartyName : CStr := []
  localPartyNumber : CStr := []
  remote : RemoteParty := {}
  newLeg : RemoteParty := {}
  startTime : ℕ := 0
  duration : UInt32 := 0
  logDisp : LogDisposition := .unknwn
  /-- None is `MAX_CALL_STATES`. -/
  callState : Option CallState := none
  deriving DecidableEq

/-- What the logger reads of a session, with `missedCallMask` and the time. -/
structure SessionData where
  state : CallState
  type : CallType
  line : ℕ := 1
  clgName : CStr := []
  clgNumber : CStr := []
  cldName : CStr := []
  cldNumber : CStr := []
  altNumber : CStr := []
  missedCallMask : Option CStr := none
  now : ℕ
  now_pos : 0 < now := by decide

namespace SessionData

variable (d : SessionData)

def comesIn : Bool := d.type = .incoming || d.type = .forwarded

/-- `localName`, `localNumber`, `remoteName` and `remoteNumber` of a call that comes in, or that is logged so. -/
def localName : CStr := if d.comesIn then d.cldName else d.clgName

@[inherit_doc localName]
def localNumber : CStr := if d.comesIn then d.cldNumber else d.clgNumber

@[inherit_doc localName]
def remoteName : CStr := if d.comesIn then d.clgName else d.cldName

@[inherit_doc localName]
def remoteNumber : CStr := if d.comesIn then d.clgNumber else d.cldNumber

def isMissedCallLoggingEnabled : Bool :=
  d.missedCallMask.elim true fun mask => !(0 < d.line && mask[d.line - 1]? = some '0')

def missedDisp : LogDisposition := if d.isMissedCallLoggingEnabled then .missed else .delete

end SessionData

def partyInfoPassedTheNumberFilter (partyString : CStr) : Bool :=
  (CStr.peek partyString.tail).toNat ∉ [17, 91, 5, 18, 16, 52]

def partyInfoPassedTheNameFilter (partyString : CStr) : Bool :=
  (CStr.peek partyString.tail).toNat ∉ [52, 53]

/-- The called name and number pass the filters. -/
def SessionData.passes (d : SessionData) : Bool :=
  partyInfoPassedTheNameFilter d.cldName && partyInfoPassedTheNumberFilter d.cldNumber

namespace CallLog

variable (log : CallLog) (d : SessionData)

/-- The logged number is the given one, or there is none. -/
def sameNumber (number : CStr) : Bool :=
  log.remote.number = [] || number.peek ≠ nul && strncmpEq log.remote.number number number.length

/-- The local party is populated if it is not yet. -/
def populate (number name : CStr) : CallLog :=
  if log.localPartyNumber = [] then { log with localPartyNumber := number, localPartyName := name } else log

/-- The remote party of a placed call. The name is set whatever the filters say. -/
def placedParty : RemoteParty :=
  if log.sameNumber d.cldNumber then
    { log.remote with name := d.cldName, number := if d.passes then d.cldNumber else log.remote.number }
  else log.remote

/-- The start and the duration of a placed call. -/
def placedTimes : CallLog :=
  let log := if d.state = .connected ∧ log.startTime = 0 then { log with startTime := d.now } else log
  let log :=
    if d.state = .onhook then
      if log.startTime ≠ 0 then { log with duration := UInt32.ofInt ((d.now : ℤ) - log.startTime) }
      else { log with startTime := d.now }
    else log
  { log with callState := some d.state }

def handlePlacedCall : CallLog :=
  let log := log.populate d.clgNumber d.clgName
  placedTimes { log with remote := log.placedParty d } d

/-- The remote parties of a call that comes in. -/
def receivedParties : RemoteParty × RemoteParty :=
  if log.sameNumber d.remoteNumber then
    (⟨if log.remote.name = [] then d.remoteName else log.remote.name, d.remoteNumber, d.altNumber⟩, log.newLeg)
  else (log.remote, ⟨d.remoteName, d.remoteNumber, d.altNumber⟩)

/-- The disposition, the start and the duration of a call that comes in. -/
def receivedTimes : CallLog :=
  let log :=
    if d.state = .onhook then
      if log.callState = some .ringin then { log with startTime := d.now, logDisp := d.missedDisp, duration := 0 }
      else if log.startTime ≠ 0 then { log with duration := UInt32.ofInt ((d.now : ℤ) - log.startTime) }
      else log
    else log
  let log :=
    if d.state = .connected ∧ log.startTime = 0 then { log with logDisp := .rcvd, startTime := d.now } else log
  { log with callState := some d.state }

def handleMissedOrReceviedCall : CallLog :=
  let log := log.populate d.localNumber d.localName
  let parties := log.receivedParties d
  receivedTimes { log with remote := parties.1, newLeg := parties.2 } d

/-- `calllogger_update`. A call whose disposition is `CC_LOGD_DELETE` is not left alone. -/
def callloggerUpdate : CallLog :=
  if log.logDisp = .rcvd ∨ log.logDisp = .missed ∨ d.comesIn then log.handleMissedOrReceviedCall d
  else if log.logDisp = .sent ∨ d.type = .outgoing then log.handlePlacedCall d
  else log

def callloggerSetPlacedCallInfo (plcdName plcdNumber : CStr) (now : ℕ) : CallLog :=
  if log.logDisp = .rcvd then log
  else
    { log with
      remote := { log.remote with name := plcdName, number := plcdNumber }
      logDisp := .sent
      startTime := now }

end CallLog

inductive LogUpdate
  /-- A state, an attribute or call information (`calllogger_update`). -/
  | session (d : SessionData)
  | placed (plcdName plcdNumber : CStr) (now : ℕ)
  /-- `calllogger_updateLogDisp`. -/
  | disp (logDisp : LogDisposition)

namespace LogUpdate

/-- What an update makes of the record. -/
def apply (log : CallLog) : LogUpdate → CallLog
  | session d => log.callloggerUpdate d
  | placed plcdName plcdNumber now => log.callloggerSetPlacedCallInfo plcdName plcdNumber now
  | disp logDisp => { log with logDisp }

/-- The record behind a run. -/
def run (log : CallLog) (us : List LogUpdate) : CallLog := us.foldl apply log

/-- The update meets nothing that goes wrong: a call to be deleted has no type that is logged, a call that comes in
and was connected does not ring when it ends, and the name of a placed call is not set to one that is rejected. -/
def Kept (log : CallLog) : LogUpdate → Prop
  | session d =>
    (log.logDisp = .delete → d.type = .none) ∧
      (d.comesIn → d.state = .onhook → log.callState = some .ringin → log.startTime = 0) ∧
      (d.type = .outgoing → log.sameNumber d.cldNumber → d.passes ∨ d.cldName = log.remote.name ∨
        (log.logDisp = .rcvd ∨ log.logDisp = .missed) ∧ log.remote.name ≠ [])
  | _ => True

/-- All updates of a run are met well. -/
def AllKept : CallLog → List LogUpdate → Prop
  | _, [] => True
  | log, u :: us => Kept log u ∧ AllKept (apply log u) us

end LogUpdate

open LogUpdate

/-- The first update to `CONNECTED`. -/
def firstConnected (ds : List SessionData) : Option SessionData := ds.find? fun d => d.state = .connected

def lastState (ds : List SessionData) : Option CallState := ds.getLast?.map SessionData.state

/-- The record of a call that comes in and ends. -/
structure Verdict (ds : List SessionData) (last : SessionData) (log : CallLog) : Prop where
  missed : log.logDisp = last.missedDisp ↔ firstConnected ds = none ∧ lastState ds = some .ringin
  received : log.logDisp = .rcvd ↔ (firstConnected ds).isSome
  duration : ∀ d, firstConnected ds = some d → log.duration = UInt32.ofInt ((last.now : ℤ) - d.now)

/-- What a run is promised to leave: a call to be deleted is left alone, a call that comes in is told to be missed or
received, and the remote name of an outgoing call is not replaced by one that is rejected. -/
structure Logged (us : List LogUpdate) : Prop where
  deleted : ∀ front d back, us = front ++ session d :: back → (run {} front).logDisp = .delete →
    (run {} front).callloggerUpdate d = run {} front
  verdict : ∀ ds last back, us = (ds ++ [last]).map session ++ back → (∀ d ∈ ds ++ [last], d.comesIn) →
    (∀ d ∈ ds, d.state ≠ .onhook) → last.state = .onhook → Verdict ds last (run {} ((ds ++ [last]).map session))
  filtered : ∀ front d back, us = front ++ session d :: back → d.type = .outgoing →
    ((run {} front).callloggerUpdate d).remote.name ≠ (run {} front).remote.name → d.passes

/-! ## The steps -/

variable {log : CallLog} {d : SessionData}

theorem populate_remote (number name : CStr) : (log.populate number name).remote = log.remote := by
  rw [CallLog.populate]
  split_ifs <;> rfl

theorem populate_sameNumber (number name number' : CStr) :
    (log.populate number name).sameNumber number' = log.sameNumber number' := by
  rw [CallLog.sameNumber, populate_remote, CallLog.sameNumber]

theorem placedTimes_remote : (log.placedTimes d).remote = log.remote := by
  rw [CallLog.placedTimes]
  split_ifs <;> rfl

theorem receivedTimes_remote : (log.receivedTimes d).remote = log.remote := by
  rw [CallLog.receivedTimes]
  split_ifs <;> rfl

/-- What is known of the end of a call that comes in depends on its times only. -/
theorem handleMissedOrReceviedCall_eq (log : CallLog) (d : SessionData) :
    ∃ log' : CallLog, log.handleMissedOrReceviedCall d = log'.receivedTimes d ∧
      log'.callState = log.callState ∧ log'.startTime = log.startTime ∧ log'.logDisp = log.logDisp := by
  refine ⟨_, rfl, ?_⟩
  rw [CallLog.populate]
  split_ifs <;> exact ⟨rfl, rfl, rfl⟩

theorem callloggerUpdate_of_comesIn (h : d.comesIn) : log.callloggerUpdate d = log.handleMissedOrReceviedCall d :=
  if_pos (.inr (.inr h))

/-- What the record says of a call that comes in and has not ended. -/
structure Tracks (ds : List SessionData) (log : CallLog) : Prop where
  callState : log.callState = lastState ds
  startTime : log.startTime = (firstConnected ds).elim 0 SessionData.now
  logDisp : log.logDisp = if (firstConnected ds).isSome then .rcvd else .unknwn

/-- The first update to `CONNECTED` starts the call, and the others leave it. -/
theorem Tracks.step {ds : List SessionData} (h : Tracks ds log) (hin : d.comesIn) (hstate : d.state ≠ .onhook) :
    Tracks (ds ++ [d]) (log.callloggerUpdate d) := by
  rw [callloggerUpdate_of_comesIn hin]
  obtain ⟨log', heq, hcall, hstart, hdisp⟩ := handleMissedOrReceviedCall_eq log d
  have hlast : lastState (ds ++ [d]) = some d.state := by rw [lastState, List.getLast?_concat]; rfl
  have hfirst : firstConnected (ds ++ [d]) = (firstConnected ds).or (firstConnected [d]) := List.find?_append
  rw [heq, CallLog.receivedTimes, if_neg hstate]
  rw [hstart, h.startTime]
  cases hds : firstConnected ds with
  | some first =>
    rw [if_neg fun hgo => first.now_pos.ne' hgo.2]
    refine ⟨hlast.symm, ?_, ?_⟩ <;> rw [hfirst, hds]
    · exact hstart.trans (h.startTime.trans (by rw [hds]; rfl))
    · exact hdisp.trans (h.logDisp.trans (by rw [hds]; rfl))
  | none =>
    by_cases hconnected : d.state = .connected
    · have hsingle : firstConnected [d] = some d := List.find?_cons_of_pos (by simpa using hconnected)
      rw [if_pos ⟨hconnected, rfl⟩]
      exact ⟨hlast.symm, by rw [hfirst, hds, hsingle]; rfl, by rw [hfirst, hds, hsingle]; rfl⟩
    · have hsingle : firstConnected [d] = none := List.find?_cons_of_neg (by simpa using hconnected)
      rw [if_neg fun hgo => hconnected hgo.1]
      refine ⟨hlast.symm, ?_, ?_⟩ <;> rw [hfirst, hds, hsingle]
      · exact hstart.trans (h.startTime.trans (by rw [hds]; rfl))
      · exact hdisp.trans (h.logDisp.trans (by rw [hds]; rfl))

/-- The record tracks a call that comes in. By induction on its updates. -/
theorem tracks_run (ds : List SessionData) (hin : ∀ d ∈ ds, d.comesIn) (hstate : ∀ d ∈ ds, d.state ≠ .onhook) :
    Tracks ds (run {} (ds.map session)) := by
  induction ds using List.reverseRecOn with
  | nil => exact ⟨rfl, rfl, rfl⟩
  | append_singleton ds d ih =>
    rw [List.map_append, run, List.foldl_append]
    exact (ih (fun e he => hin e (List.mem_append_left _ he)) fun e he => hstate e (List.mem_append_left _ he)).step
      (hin d (by simp)) (hstate d (by simp))

/-- A call that ends, and does not ring again behind `CONNECTED`, is missed or received. -/
theorem Tracks.verdict {ds : List SessionData} (h : Tracks ds log) (hin : d.comesIn) (hend : d.state = .onhook)
    (hring : log.callState = some .ringin → log.startTime = 0) : Verdict ds d (log.callloggerUpdate d) := by
  rw [callloggerUpdate_of_comesIn hin]
  obtain ⟨log', heq, hcall, hstart, hdisp⟩ := handleMissedOrReceviedCall_eq log d
  have hmissed : d.missedDisp ≠ .rcvd ∧ d.missedDisp ≠ .unknwn := by
    rw [SessionData.missedDisp]
    split_ifs <;> decide
  rw [heq, CallLog.receivedTimes, if_pos hend, if_neg fun hgo => absurd (hend.symm.trans hgo.1) (by decide)]
  rw [hcall, hstart]
  by_cases hringin : log.callState = some .ringin
  · have hnone : firstConnected ds = none := by
      cases hds : firstConnected ds with
      | none => rfl
      | some first =>
        have hzero := hring hringin
        rw [h.startTime, hds] at hzero
        exact absurd hzero first.now_pos.ne'
    rw [if_pos hringin]
    exact ⟨iff_of_true rfl ⟨hnone, h.callState.symm.trans hringin⟩,
      iff_of_false hmissed.1 (by rw [hnone]; decide), fun first hfirst => by rw [hnone] at hfirst; cases hfirst⟩
  · rw [if_neg hringin]
    have hnot : ¬ (firstConnected ds = none ∧ lastState ds = some .ringin) := fun hgo =>
      hringin (h.callState.trans hgo.2)
    cases hds : firstConnected ds with
    | none =>
      rw [h.startTime, hds, if_neg (by simp)]
      rw [hds] at hnot
      have hunknown : log'.logDisp = .unknwn := hdisp.trans (h.logDisp.trans (by rw [hds]; rfl))
      exact ⟨iff_of_false (by rw [hunknown]; exact hmissed.2.symm) (by rw [hds]; exact hnot),
        iff_of_false (by rw [hunknown]; decide) (by rw [hds]; decide),
        fun first hfirst => by rw [hds] at hfirst; cases hfirst⟩
    | some first =>
      have hrcvd : log'.logDisp = .rcvd := hdisp.trans (h.logDisp.trans (by rw [hds]; rfl))
      have hnow : log.startTime = first.now := h.startTime.trans (by rw [hds]; rfl)
      rw [if_pos (by rw [hnow]; exact first.now_pos.ne')]
      refine ⟨iff_of_false (by rw [hrcvd]; exact hmissed.1.symm) (by rw [hds]; simp),
        iff_of_true hrcvd (by rw [hds]; rfl), fun first' hfirst => ?_⟩
      obtain rfl := Option.some.inj (hds.symm.trans hfirst)
      rw [hnow]

theorem name_callloggerUpdate (h : (log.callloggerUpdate d).remote.name ≠ log.remote.name)
    (htype : d.type = .outgoing) : log.sameNumber d.cldNumber ∧ d.cldName ≠ log.remote.name ∧
      ((log.logDisp = .rcvd ∨ log.logDisp = .missed) → log.remote.name = []) := by
  have hin : d.comesIn = false := by rw [SessionData.comesIn, htype]; rfl
  rw [CallLog.callloggerUpdate] at h
  by_cases hdisp : log.logDisp = .rcvd ∨ log.logDisp = .missed
  · rw [if_pos (hdisp.imp_right .inl), CallLog.handleMissedOrReceviedCall, receivedTimes_remote] at h
    dsimp only at h
    rw [CallLog.receivedParties, populate_sameNumber, populate_remote, SessionData.remoteNumber,
      SessionData.remoteName, hin, if_neg Bool.false_ne_true, if_neg Bool.false_ne_true] at h
    by_cases hsame : log.sameNumber d.cldNumber
    · rw [if_pos hsame] at h
      by_cases hempty : log.remote.name = []
      · rw [if_pos hempty] at h
        exact ⟨hsame, h, fun _ => hempty⟩
      · rw [if_neg hempty] at h
        exact absurd rfl h
    · rw [if_neg hsame] at h
      exact absurd rfl h
  · have hother : ¬ (log.logDisp = .rcvd ∨ log.logDisp = .missed ∨ d.comesIn) := by
      rw [hin]
      exact fun hgo => hgo.elim (hdisp ∘ .inl) fun hgo => hgo.elim (hdisp ∘ .inr) Bool.false_ne_true
    rw [if_neg hother, if_pos (.inr htype), CallLog.handlePlacedCall, placedTimes_remote] at h
    dsimp only at h
    rw [CallLog.placedParty, populate_sameNumber, populate_remote] at h
    by_cases hsame : log.sameNumber d.cldNumber
    · rw [if_pos hsame] at h
      exact ⟨hsame, h, fun hgo => absurd hgo hdisp⟩
    · rw [if_neg hsame] at h
      exact absurd rfl h

theorem AllKept.step {us : List LogUpdate} {front back : List LogUpdate} {u : LogUpdate} (h : AllKept log us)
    (hus : us = front ++ u :: back) : Kept (run log front) u := by
  induction front generalizing log us with
  | nil => exact (hus ▸ h).1
  | cons v front ih => exact ih (hus ▸ h).2 rfl

end Ccapp
