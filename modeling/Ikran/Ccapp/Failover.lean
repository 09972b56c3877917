import Ikran.Ccapp.Provider

/-!
# Failover and fallback are answered once

Between an indication of a failover or a fallback and the next indication, or the registration, the provider
should start the answer at most once. It should not start the answer to a failover while a call is left that
was connected when a failover was indicated, nor the answer to a fallback while there is a call, and it
should not be in service afterwards until the registration.

The answer is started by the indication when the calls allow it, and otherwise by the end of the last call.
The mode of a fallback stays after its answer, so the end of a later call starts it again. The flag of an
earlier failover stays when a failover is indicated while the calls of the earlier one are held: the answer
is started at once, and again when they have ended.
-/

namespace Ccapp

/-! ## The property -/

/-- What is remembered of a run. -/
structure History where
  failoverStarts : ℕ := 0
  fallbackStarts : ℕ := 0
  started : Bool := false
  preserved : List UInt32 := []
  /-- Since the last indication the calls have allowed its answer: no call was connected or preserved when
  the failover was indicated, there was no call when the fallback was, or the last call has ended. -/
  allowed : Bool := false

/-- The number of answers that a step starts. -/
def starts (rsp : RegRsp) (out : List Output) : ℕ :=
  out.countP fun o => match o with
    | .failFallback .start r _ => r = rsp
    | _ => false

/-- Indications and the registration. -/
def Msg.newPeriod : Msg → Bool
  | .failoverInd | .fallbackInd | .shutdownAck | .regAllFail | .registered => true
  | .modeNotify | .inserviceCmd | .sessionUpdate .. => false

def Provider.endsLast (p : Provider) (sessId : UInt32) (event : CallEvent) : Bool :=
  getSessType sessId = sessiontypeCallcontrol && (p.findhash sessId).isSome &&
    (event = .sessionClosed || event = .callState .onhook) && (p.delhash sessId).isNoCallExist

namespace History

/-- A message is handled, with what it leads to. -/
def next (h : History) (p : Provider) (msg : Msg) (result : Provider × List Output) : History where
  failoverStarts := (if msg.newPeriod then 0 else h.failoverStarts) + starts .failover result.2
  fallbackStarts := (if msg.newPeriod then 0 else h.fallbackStarts) + starts .fallback result.2
  started := (h.started && msg ≠ .registered) || 0 < starts .failover result.2 + starts .fallback result.2
  preserved :=
    let preserved := if msg = .failoverInd then
        h.preserved ++ (p.sessions.filter Session.preserved).map Session.sessId
      else h.preserved
    preserved.filter fun sessId => result.1.sessions.any (·.sessId = sessId)
  allowed :=
    match msg with
    | .failoverInd => !p.sessions.any Session.preserved
    | .fallbackInd => p.isNoCallExist
    | .shutdownAck | .regAllFail | .registered => false
    | .modeNotify | .inserviceCmd => h.allowed
    | .sessionUpdate sessId event _ => h.allowed || p.endsLast sessId event

end History

/-- What a step should keep: the answers are started once at most, not while a call is left that they have
to wait for, and the provider is not in service until the registration. -/
structure StepAnswers (h' : History) (result : Provider × List Output) : Prop where
  failoverOnce : h'.failoverStarts ≤ 1
  fallbackOnce : h'.fallbackStarts ≤ 1
  failoverWaits : 0 < starts .failover result.2 → h'.preserved = []
  fallbackWaits : 0 < starts .fallback result.2 → result.1.sessions = []
  outOfService : h'.started = true → result.1.state ≠ .inservice

/-- A failover and a fallback are answered once, throughout a run. -/
def AnsweredOnce : Provider → History → List Msg → Prop
  | _, _, [] => True
  | p, h, msg :: msgs =>
    let result := p.ccpHandler msg
    let h' := h.next p msg result
    StepAnswers h' result ∧ AnsweredOnce result.1 h' msgs

/-- The message does not start an answer again, or too early:

- a failover is not indicated when no call is connected or preserved and one is left that was so when an
  earlier failover was indicated,
- once the calls have allowed the answer, the last call does not end in the mode of a fallback, or in the
  mode of a failover with the flag of preservation set. -/
def MsgOk (p : Provider) (h : History) : Msg → Prop
  | .failoverInd => p.sessions.any Session.preserved = true ∨ h.preserved = []
  | .sessionUpdate sessId event _ =>
    p.endsLast sessId event = true → h.allowed = true →
      p.cucmMode ≠ .fallback ∧ (p.cucmMode = .failover → p.inPreservation = false)
  | _ => True

/-- No message of a run starts an answer again, or too early. -/
def RunOk : Provider → History → List Msg → Prop
  | _, _, [] => True
  | p, h, msg :: msgs =>
    let result := p.ccpHandler msg
    MsgOk p h msg ∧ RunOk result.1 (h.next p msg result) msgs

/-! ## Handlers -/

namespace Provider

variable (p : Provider)

@[simp]
theorem starts_nil (rsp : RegRsp) : starts rsp [] = 0 := rfl

@[simp]
theorem starts_append (rsp : RegRsp) (l l' : List Output) : starts rsp (l ++ l') = starts rsp l + starts rsp l' :=
  List.countP_append

@[simp]
theorem starts_ended (rsp : RegRsp) (sessions : List Session) :
    starts rsp (sessions.map fun s => .onhook s.sessId) = 0 := by
  simp [starts, List.countP_map, Function.comp_def]

@[simp]
theorem starts_ccproHandleOos (rsp : RegRsp) : starts rsp p.ccproHandleOos = 0 := by
  cases hcause : p.cause <;> simp [ccproHandleOos, hcause, starts]

@[simp]
theorem starts_notifyServiceState (rsp : RegRsp) : starts rsp p.notifyServiceState = 0 := by
  simp only [notifyServiceState]
  split
  · rfl
  · exact starts_ccproHandleOos p rsp
  · rfl

@[simp]
theorem starts_cons_start (rsp rsp' : RegRsp) (waited : Bool) (out : List Output) :
    starts rsp (.failFallback .start rsp' waited :: out) =
      (if rsp' = rsp then 1 else 0) + starts rsp out := by
  simp [starts, List.countP_cons, Nat.add_comm]

@[simp]
theorem sessions_ccappPreserveCall : p.ccappPreserveCall.1.sessions = p.sessions := rfl

theorem handleFailoverInd_spec :
    let preserve := p.sessions.any Session.preserved
    p.handleFailoverInd.1 = { p with
          state := if preserve then .oosFailover else .oosRegistering
          cucmMode := .failover
          cause := .failover
          inPreservation := p.inPreservation || preserve } ∧
      starts .failover p.handleFailoverInd.2 = (if preserve then 0 else 1) ∧
      starts .fallback p.handleFailoverInd.2 = 0 := by
  cases hp : p.sessions.any Session.preserved <;>
    simp [handleFailoverInd, ccappPreserveCall, hp]

theorem handleFallbackInd_spec : p.handleFallbackInd.1 = { p with
          state := if p.isNoCallExist then .oosRegistering else p.state
          cucmMode := .fallback
          cause := if p.isNoCallExist then .fallback else .none } ∧
      starts .failover p.handleFallbackInd.2 = 0 ∧
      starts .fallback p.handleFallbackInd.2 = (if p.isNoCallExist then 1 else 0) := by
  have hno : ({ p with cucmMode := .fallback, cause := .none } : Provider).isNoCallExist = p.isNoCallExist := rfl
  cases hp : p.isNoCallExist <;> simp [handleFallbackInd, hno, hp]

theorem proceedWithFofb_spec : p.proceedWithFofb.1.sessions = p.sessions ∧ p.proceedWithFofb.1.cucmMode = p.cucmMode ∧
      p.proceedWithFofb.1.inPreservation = p.inPreservation ∧
      p.proceedWithFofb.1.state ≠ .inservice ∧
      starts .failover p.proceedWithFofb.2 = (if p.cucmMode = .failover then 1 else 0) ∧
      starts .fallback p.proceedWithFofb.2 = (if p.cucmMode = .fallback then 1 else 0) := by
  cases hmode : p.cucmMode <;> simp [proceedWithFofb, hmode, mapProviderState]

theorem handleShutdownAck_spec (rsp : RegRsp) :
    p.handleShutdownAck.1.sessions = p.sessions ∧ p.handleShutdownAck.1.cucmMode = .noneAvail ∧
      p.handleShutdownAck.1.state = .oosIdle ∧ starts rsp p.handleShutdownAck.2 = 0 := by
  simp [handleShutdownAck]

theorem handleRegAllFail_spec (rsp : RegRsp) : p.handleRegAllFail.1.sessions = p.sessions ∧
      p.handleRegAllFail.1.cucmMode = .noCucmSrstAvailable ∧
      p.handleRegAllFail.1.state = .oosIdle ∧ starts rsp p.handleRegAllFail.2 = 0 := by
  simp [handleRegAllFail, ccappPreserveCall]

theorem handleRegistered_spec (rsp : RegRsp) :
    p.handleRegistered.1.sessions = p.sessions ∧ p.handleRegistered.1.state = .inservice ∧
      p.handleRegistered.1.cucmMode = (if p.state = .inservice then p.cucmMode else .noneAvail) ∧
      starts rsp p.handleRegistered.2 = 0 := by
  by_cases hstate : p.state = .inservice
  · simp [handleRegistered, hstate]
  · cases hmode : p.cucmMode <;> simp [handleRegistered, hstate, hmode, ccproHandleIns, starts]

/-! ## Session updates -/

variable {sessId : UInt32}

theorem closeSession_of_ne (h : (p.delhash sessId).isNoCallExist = false) :
    p.closeSession sessId = (p.delhash sessId, []) := by
  simp [closeSession, h]

theorem closeSession_of_eq (h : (p.delhash sessId).isNoCallExist = true) :
    let r := p.closeSession sessId
    r.1.sessions = [] ∧ r.1.cucmMode = p.cucmMode ∧ r.1.inPreservation = false ∧
      (r.1.state = .inservice → p.state = .inservice ∧ p.cucmMode ≠ .fallback ∧ p.inPreservation = false) ∧
      starts .failover r.2 = (if p.cucmMode = .failover ∧ p.inPreservation = true then 1 else 0) ∧
      starts .fallback r.2 = (if p.cucmMode = .fallback then 1 else 0) := by
  have hsessions : (p.delhash sessId).sessions = [] := by simpa [isNoCallExist] using h
  by_cases hwait : p.inPreservation = true ∨ p.cucmMode = .fallback
  · obtain ⟨hs, hmode, hpres, hstate, hfailover, hfallback⟩ :=
      proceedWithFofb_spec { p.delhash sessId with inPreservation := false }
    have hclose : p.closeSession sessId = { p.delhash sessId with inPreservation := false }.proceedWithFofb := by
      simp only [closeSession, h, and_true]
      exact if_pos hwait
    simp only [hclose]
    refine ⟨hs.trans hsessions, hmode, hpres, fun hins => absurd hins hstate, ?_, ?_⟩
    · rw [hfailover]
      -- the mode of a failover waits with the flag set
      have hmode' : p.cucmMode = .failover → p.inPreservation = true := by
        intro hm
        simpa [hm] using hwait
      simp only [delhash]
      split_ifs <;> simp_all
    · rw [hfallback]
      rfl
  · obtain ⟨hpres, hmode⟩ := not_or.1 hwait
    have hpres : p.inPreservation = false := by simpa using hpres
    have hclose : p.closeSession sessId = (p.delhash sessId, []) := by
      simp only [closeSession]
      exact if_neg fun h => hwait h.1
    rw [hclose]
    exact ⟨hsessions, rfl, hpres, fun hins => ⟨hins, hmode, hpres⟩, by simp [hpres], by simp [hmode]⟩

theorem isNoCallExist_delhash_setState (sessId : UInt32) (state : CallState) :
    ((p.setState sessId state).delhash sessId).isNoCallExist = (p.delhash sessId).isNoCallExist := by
  have hid : (fun s : Session => decide (s.sessId = sessId)) ∘
      (fun s : Session => if s.sessId = sessId then { s with state } else s) =
      fun s => decide (s.sessId = sessId) := by
    funext s
    by_cases hs : s.sessId = sessId <;> simp [hs]
  simp [isNoCallExist, delhash, setState, List.eraseP_map, hid]

theorem sessionUpdate_of_ne {event : CallEvent} (memory : Bool) (h : p.endsLast sessId event = false) :
    let r := p.ccpHandler (.sessionUpdate sessId event memory)
    r.1.state = p.state ∧ r.1.cucmMode = p.cucmMode ∧ r.1.inPreservation = p.inPreservation ∧ r.2 = [] := by
  simp only [ccpHandler]
  by_cases htype : getSessType sessId = sessiontypeCallcontrol
  · simp only [htype, if_true, ccappUpdateSessionData]
    cases hfind : p.findhash sessId with
    | none =>
      simp only
      cases newState event <;> cases memory <;> simp [addhash]
    | some data =>
      have hlast : event = .sessionClosed ∨ event = .callState .onhook → (p.delhash sessId).isNoCallExist = false := by
        intro hevent
        rcases hevent with rfl | rfl <;> simpa [endsLast, htype, hfind] using h
      cases event with
      | sessionClosed => simp [closeSession_of_ne p (hlast (.inl rfl)), delhash]
      | callState state =>
        simp only
        generalize hstate' : (if state = .hold ∧ (data.state = .remhold ∨ data.state = .reminuse) then
          CallState.remhold else state) = state'
        by_cases honhook : state' = .onhook
        · have : state = .onhook := by
            split_ifs at hstate' <;> simp_all
          rw [if_pos honhook, closeSession_of_ne]
          · simp [delhash, setState]
          · rw [isNoCallExist_delhash_setState]
            exact hlast (.inr (by rw [this]))
        · simp [honhook, setState]
      | newcall state => simp [setState]
      | preservationActive => simp [setState]
      | information => simp
      | other => simp
  · simp [htype]

theorem sessionUpdate_of_eq {event : CallEvent} (memory : Bool) (h : p.endsLast sessId event = true) :
    let r := p.ccpHandler (.sessionUpdate sessId event memory)
    r.1.sessions = [] ∧ r.1.cucmMode = p.cucmMode ∧ r.1.inPreservation = false ∧
      (r.1.state = .inservice → p.state = .inservice ∧ p.cucmMode ≠ .fallback ∧ p.inPreservation = false) ∧
      starts .failover r.2 = (if p.cucmMode = .failover ∧ p.inPreservation = true then 1 else 0) ∧
      starts .fallback r.2 = (if p.cucmMode = .fallback then 1 else 0) := by
  simp only [endsLast, Bool.and_eq_true, Bool.or_eq_true, decide_eq_true_eq] at h
  obtain ⟨⟨⟨htype, hsome⟩, hevent⟩, hlast⟩ := h
  obtain ⟨data, hfind⟩ := Option.isSome_iff_exists.1 hsome
  simp only [ccpHandler, htype, if_true, ccappUpdateSessionData, hfind]
  rcases hevent with rfl | rfl
  · exact closeSession_of_eq p hlast
  · simp only [reduceCtorEq, false_and, if_false, if_true]
    exact closeSession_of_eq (p.setState sessId .onhook) ((isNoCallExist_delhash_setState p sessId .onhook).trans hlast)

end Provider

/-! ## Steps -/

/-- What holds throughout a run in which each answer is started once. -/
structure Inv (p : Provider) (h : History) : Prop where
  failover : p.cucmMode = .failover → h.failoverStarts = (if h.allowed then 1 else 0) ∧
    (h.allowed = false → p.inPreservation = true) ∧ p.state ≠ .inservice
  fallback : p.cucmMode = .fallback → h.fallbackStarts = if h.allowed then 1 else 0
  noFailover : p.cucmMode ≠ .failover → h.failoverStarts = 0
  noFallback : p.cucmMode ≠ .fallback → h.fallbackStarts = 0
  started : h.started = true → p.state ≠ .inservice
  exist : ∀ sessId ∈ h.preserved, p.sessions.any (·.sessId = sessId) = true

theorem inv_init : Inv {} {} := by
  constructor <;> simp

variable {p : Provider} {h : History}

theorem Inv.failoverStarts_le (hinv : Inv p h) : h.failoverStarts ≤ 1 := by
  by_cases hmode : p.cucmMode = .failover
  · rw [(hinv.failover hmode).1]
    split_ifs <;> decide
  · rw [hinv.noFailover hmode]
    decide

theorem Inv.fallbackStarts_le (hinv : Inv p h) : h.fallbackStarts ≤ 1 := by
  by_cases hmode : p.cucmMode = .fallback
  · rw [hinv.fallback hmode]
    split_ifs <;> decide
  · rw [hinv.noFallback hmode]
    decide

section

variable {p : Provider} {h : History} {msg : Msg} {result : Provider × List Output}

theorem exist_next (sessId : UInt32) (hmem : sessId ∈ (h.next p msg result).preserved) :
    result.1.sessions.any (·.sessId = sessId) = true := by
  simp only [History.next, List.mem_filter] at hmem
  exact hmem.2

theorem preserved_next_of_sessions (hexist : ∀ sessId ∈ h.preserved, p.sessions.any (·.sessId = sessId) = true)
    (hsessions : result.1.sessions = p.sessions) (hnone : p.sessions.any Session.preserved = false) :
    (h.next p msg result).preserved = h.preserved := by
  have hfilter : p.sessions.filter Session.preserved = [] := by
    simpa using hnone
  simp only [History.next, hfilter, List.map_nil, List.append_nil, ite_self, hsessions]
  exact List.filter_eq_self.2 hexist

theorem preserved_next_of_nil (hsessions : result.1.sessions = []) : (h.next p msg result).preserved = [] := by
  simp [History.next, hsessions]

end

/-- What a message should keep, and what it keeps when it starts no answer again or too early. -/
def StepOk (p : Provider) (h : History) (msg : Msg) : Prop :=
  let result := p.ccpHandler msg
  let h' := h.next p msg result
  (StepAnswers h' result ↔ MsgOk p h msg) ∧ (MsgOk p h msg → Inv result.1 h')

theorem stepOk_of_inv {msg : Msg} (hok : MsgOk p h msg)
    (hinv : Inv (p.ccpHandler msg).1 (h.next p msg (p.ccpHandler msg)))
    (hfailover : 0 < starts .failover (p.ccpHandler msg).2 → (h.next p msg (p.ccpHandler msg)).preserved = [])
    (hfallback : 0 < starts .fallback (p.ccpHandler msg).2 → (p.ccpHandler msg).1.sessions = []) :
    StepOk p h msg :=
  ⟨⟨fun _ => hok, fun _ => ⟨hinv.failoverStarts_le, hinv.fallbackStarts_le, hfailover, hfallback,
    hinv.started⟩⟩, fun _ => hinv⟩

theorem Inv.failoverInd (hinv : Inv p h) : StepOk p h .failoverInd := by
  obtain ⟨hresult, hfailover, hfallback⟩ := p.handleFailoverInd_spec
  have hstate : p.handleFailoverInd.1.state ≠ .inservice := by
    rw [hresult]
    simp only
    split_ifs <;> decide
  have hnext : Inv p.handleFailoverInd.1 (h.next p .failoverInd p.handleFailoverInd) := by
    refine ⟨fun _ => ⟨?_, ?_, hstate⟩, ?_, ?_, ?_, fun _ => hstate, exist_next⟩
    · cases hp : p.sessions.any Session.preserved <;> simp [History.next, Msg.newPeriod, hfailover, hp]
    · rw [hresult]
      simp +contextual [History.next]
    · simp [hresult]
    · simp [hresult]
    · simp [History.next, Msg.newPeriod, hfallback]
  cases hp : p.sessions.any Session.preserved with
  | true =>
    refine stepOk_of_inv (.inl hp) hnext ?_ ?_
    · simp [Provider.ccpHandler, hfailover, hp]
    · simp [Provider.ccpHandler, hfallback]
  | false =>
    -- the answer is started while the remembered sessions are there
    have hpreserved : (h.next p .failoverInd p.handleFailoverInd).preserved = h.preserved :=
      preserved_next_of_sessions hinv.exist (by rw [hresult]) hp
    refine ⟨⟨fun hanswers => .inr ?_, fun hok => ?_⟩, fun _ => hnext⟩
    · rw [← hpreserved]
      exact hanswers.failoverWaits (by simp [Provider.ccpHandler, hfailover, hp])
    · have hnil : h.preserved = [] := by simpa [MsgOk, hp] using hok
      refine ⟨hnext.failoverStarts_le, hnext.fallbackStarts_le, fun _ => hpreserved.trans hnil, ?_,
        fun _ => hstate⟩
      simp [Provider.ccpHandler, hfallback]

theorem Inv.fallbackInd (hinv : Inv p h) : StepOk p h .fallbackInd := by
  obtain ⟨hresult, hfailover, hfallback⟩ := p.handleFallbackInd_spec
  have hnext : Inv p.handleFallbackInd.1 (h.next p .fallbackInd p.handleFallbackInd) := by
    refine ⟨?_, fun _ => ?_, ?_, ?_, ?_, exist_next⟩
    · simp [hresult]
    · cases hp : p.isNoCallExist <;> simp [History.next, Msg.newPeriod, hfallback, hp]
    · simp [History.next, Msg.newPeriod, hfailover]
    · simp [hresult]
    · intro hstarted
      cases hp : p.isNoCallExist with
      | true => simp [hresult, hp]
      | false =>
        have hbefore : h.started = true := by
          simpa [History.next, hfailover, hfallback, hp] using hstarted
        simpa [hresult, hp] using hinv.started hbefore
  refine stepOk_of_inv trivial hnext ?_ ?_
  · simp [Provider.ccpHandler, hfailover]
  · simp only [Provider.ccpHandler, hfallback]
    intro hstart
    cases hp : p.isNoCallExist with
    | true => simpa [hresult, Provider.isNoCallExist] using hp
    | false => simp [hp] at hstart

theorem stepOk_of_newPeriod {msg : Msg} (hok : MsgOk p h msg) (hperiod : msg.newPeriod = true)
    (hmode : (p.ccpHandler msg).1.cucmMode ≠ .failover)
    (hallowed : (h.next p msg (p.ccpHandler msg)).allowed = false)
    (hstarts : ∀ rsp, starts rsp (p.ccpHandler msg).2 = 0)
    (hstarted : (h.next p msg (p.ccpHandler msg)).started = true → (p.ccpHandler msg).1.state ≠ .inservice) :
    StepOk p h msg := by
  have hfailover : (h.next p msg (p.ccpHandler msg)).failoverStarts = 0 := by
    simp [History.next, hperiod, hstarts]
  have hfallback : (h.next p msg (p.ccpHandler msg)).fallbackStarts = 0 := by
    simp [History.next, hperiod, hstarts]
  refine stepOk_of_inv hok ⟨?_, ?_, ?_, ?_, hstarted, exist_next⟩ ?_ ?_
  · exact fun h => absurd h hmode
  · simp [hfallback, hallowed]
  · simp [hfailover]
  · simp [hfallback]
  · simp [hstarts]
  · simp [hstarts]

theorem Inv.sessionUpdate_of_eq (hinv : Inv p h) {sessId : UInt32}
    {event : CallEvent} (memory : Bool) (hlast : p.endsLast sessId event = true) :
    StepOk p h (.sessionUpdate sessId event memory) := by
  obtain ⟨hsessions, hmode, -, hstate, hfailover, hfallback⟩ := p.sessionUpdate_of_eq memory hlast
  simp only [StepOk]
  generalize hresult : p.ccpHandler (.sessionUpdate sessId event memory) = result at *
  generalize hnext : h.next p (.sessionUpdate sessId event memory) result = h'
  have hfailovers : h'.failoverStarts =
      h.failoverStarts + if p.cucmMode = .failover ∧ p.inPreservation = true then 1 else 0 := by
    simp [← hnext, History.next, Msg.newPeriod, hfailover]
  have hfallbacks : h'.fallbackStarts = h.fallbackStarts + if p.cucmMode = .fallback then 1 else 0 := by
    simp [← hnext, History.next, Msg.newPeriod, hfallback]
  have hallowed : h'.allowed = true := by simp [← hnext, History.next, hlast]
  have hpreserved : h'.preserved = [] := hnext ▸ preserved_next_of_nil hsessions
  have hout : h'.started = true → result.1.state ≠ .inservice := by
    intro hstarted hins
    obtain ⟨hins, hne, hpres⟩ := hstate hins
    have hbefore : h.started = true := by
      simpa [← hnext, History.next, hfailover, hfallback, hne, hpres] using hstarted
    exact hinv.started hbefore hins
  -- the answer that is started is the first
  have hinv' : MsgOk p h (.sessionUpdate sessId event memory) → Inv result.1 h' := by
    intro hok
    refine ⟨?_, ?_, ?_, ?_, hout, by simp [hpreserved]⟩ <;> rw [hmode]
    · intro hm
      obtain ⟨hcount, hwait, hne⟩ := hinv.failover hm
      refine ⟨?_, by simp [hallowed], fun hins => hne (hstate hins).1⟩
      rw [hfailovers, hcount, hallowed]
      cases ha : h.allowed with
      | true => simp [(hok hlast ha).2 hm]
      | false => simp [hm, hwait ha]
    · intro hm
      rw [hfallbacks, hinv.fallback hm, hallowed]
      cases ha : h.allowed with
      | true => exact absurd hm (hok hlast ha).1
      | false => simp [hm]
    · intro hm
      simp [hfailovers, hinv.noFailover hm, hm]
    · intro hm
      simp [hfallbacks, hinv.noFallback hm, hm]
  refine ⟨⟨fun hanswers _ ha => ⟨fun hm => ?_, fun hm => ?_⟩, fun hok => ?_⟩, hinv'⟩
  · have hcount := hanswers.fallbackOnce
    simp [hfallbacks, hinv.fallback hm, ha, hm] at hcount
  · by_contra hpres
    have hpres : p.inPreservation = true := by simpa using hpres
    have hcount := hanswers.failoverOnce
    simp [hfailovers, (hinv.failover hm).1, ha, hm, hpres] at hcount
  · exact ⟨(hinv' hok).failoverStarts_le, (hinv' hok).fallbackStarts_le, fun _ => hpreserved,
      fun _ => hsessions, hout⟩

/-- **One message keeps the answers at one** exactly when it does not start one again, or too early. -/
theorem Inv.step (hinv : Inv p h) (msg : Msg) : StepOk p h msg := by
  cases msg with
  | failoverInd => exact hinv.failoverInd
  | fallbackInd => exact hinv.fallbackInd
  | shutdownAck =>
    refine stepOk_of_newPeriod trivial rfl ?_ rfl ?_ ?_
    · simp [Provider.ccpHandler, (p.handleShutdownAck_spec .failover).2.1]
    · exact fun rsp => (p.handleShutdownAck_spec rsp).2.2.2
    · simp [Provider.ccpHandler, (p.handleShutdownAck_spec .failover).2.2.1]
  | regAllFail =>
    refine stepOk_of_newPeriod trivial rfl ?_ rfl ?_ ?_
    · simp [Provider.ccpHandler, (p.handleRegAllFail_spec .failover).2.1]
    · exact fun rsp => (p.handleRegAllFail_spec rsp).2.2.2
    · simp [Provider.ccpHandler, (p.handleRegAllFail_spec .failover).2.2.1]
  | registered =>
    have hstarts : ∀ rsp, starts rsp p.handleRegistered.2 = 0 := fun rsp => (p.handleRegistered_spec rsp).2.2.2
    refine stepOk_of_newPeriod trivial rfl ?_ rfl hstarts ?_
    · simp only [Provider.ccpHandler, (p.handleRegistered_spec .failover).2.2.1]
      split_ifs with hins
      · -- in the mode of a failover the provider is not in service
        exact fun hmode => (hinv.failover hmode).2.2 hins
      · decide
    · simp [History.next, Provider.ccpHandler, hstarts]
  | modeNotify =>
    refine stepOk_of_inv trivial ⟨hinv.failover, hinv.fallback, hinv.noFailover, hinv.noFallback, ?_, exist_next⟩ ?_ ?_
    · simpa [History.next, Provider.ccpHandler] using hinv.started
    · simp [Provider.ccpHandler]
    · simp [Provider.ccpHandler]
  | inserviceCmd =>
    refine stepOk_of_inv trivial ⟨?_, hinv.fallback, hinv.noFailover, hinv.noFallback, ?_, exist_next⟩ ?_ ?_
    · exact fun hmode => ⟨(hinv.failover hmode).1, (hinv.failover hmode).2.1, by simp [Provider.ccpHandler]⟩
    · simp [Provider.ccpHandler]
    · simp [Provider.ccpHandler]
    · simp [Provider.ccpHandler]
  | sessionUpdate sessId event memory =>
    cases hlast : p.endsLast sessId event with
    | false =>
      obtain ⟨hstate, hmode, hpres, hout⟩ := p.sessionUpdate_of_ne memory hlast
      have hnext : ∀ rsp, starts rsp (p.ccpHandler (.sessionUpdate sessId event memory)).2 = 0 := by
        simp [hout]
      refine stepOk_of_inv (by simp [MsgOk, hlast]) ⟨?_, ?_, ?_, ?_, ?_, exist_next⟩ ?_ ?_
      · rw [hmode, hpres, hstate]
        simpa [History.next, Msg.newPeriod, hnext, hlast] using hinv.failover
      · rw [hmode]
        simpa [History.next, Msg.newPeriod, hnext, hlast] using hinv.fallback
      · rw [hmode]
        simpa [History.next, Msg.newPeriod, hnext] using hinv.noFailover
      · rw [hmode]
        simpa [History.next, Msg.newPeriod, hnext] using hinv.noFallback
      · rw [hstate]
        simpa [History.next, hnext] using hinv.started
      · simp [hnext]
      · simp [hnext]
    | true => exact hinv.sessionUpdate_of_eq memory hlast

theorem Inv.answeredOnce_iff_runOk (hinv : Inv p h) (msgs : List Msg) : AnsweredOnce p h msgs ↔ RunOk p h msgs := by
  induction msgs generalizing p h with
  | nil => exact Iff.rfl
  | cons msg msgs ih =>
    obtain ⟨hanswers, hnext⟩ := hinv.step msg
    simp only [AnsweredOnce, RunOk]
    rw [hanswers]
    exact and_congr_right fun hok => ih (hnext hok)

/-- **A failover and a fallback are answered once, and only when the calls allow it**, throughout a run, if
and only if

- no failover is indicated when no call is connected or preserved, and one is left that was so when an
  earlier failover was indicated, and
- once the calls have allowed the answer to an indication, the last call does not end until the next
  indication or the registration: not in the mode of a fallback, and in the mode of a failover not with
  the flag of preservation set. -/
theorem answeredOnce_iff (msgs : List Msg) : AnsweredOnce {} {} msgs ↔ RunOk {} {} msgs :=
  inv_init.answeredOnce_iff_runOk msgs

/-- A fallback is indicated when there is no call. Before the registration a call comes in and ends. -/
def shortCall : List Msg :=
  [.registered, .fallbackInd, .sessionUpdate 0x10010001 .information true,
    .sessionUpdate 0x10010001 (.callState .onhook) true]

/-- A failover is indicated while a call is connected, and again when the other side holds it. Then the call
ends. -/
def heldCall : List Msg :=
  [.registered, .sessionUpdate 0x10010001 (.callState .connected) true, .failoverInd,
    .sessionUpdate 0x10010001 (.callState .remhold) true, .failoverInd,
    .sessionUpdate 0x10010001 .sessionClosed true]

/-- **A fallback is answered twice** when a call comes in and ends before the registration, and a failover
twice when it is indicated again while the preserved call is held. -/
theorem not_answeredOnce : ¬ AnsweredOnce {} {} shortCall ∧ ¬ AnsweredOnce {} {} heldCall := by
  constructor
  · intro h
    exact absurd h.2.2.2.1.fallbackOnce (by decide)
  · intro h
    exact absurd h.2.2.2.2.2.1.failoverOnce (by decide)

end Ccapp
