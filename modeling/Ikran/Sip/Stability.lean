import Ikran.Sip.Regmgr

/-!
# The stability count

A stability check would compute its count from the keepalive interval, which can be zero. The check starts only
when the WAN is thought to have failed, and no event of the registration manager says so.
-/

namespace Sip.Regmgr

namespace State

variable {o : Outcomes} {s s' : State} {n : LineNum} {ccm : CcmId} {f : Fallback → Fallback}

/-- What a division by zero needs and leaves. -/
def health (s : State) : Bool × List Fault :=
  (s.wanFailure, s.faults)

@[simp]
theorem health_modifyFallback : (s.modifyFallback n f).health = s.health := rfl

@[simp]
theorem health_freeFallbackCcb : (s.freeFallbackCcb n).health = s.health := by
  unfold freeFallbackCcb
  split <;> rfl

@[simp]
theorem health_freeFallbackCcbList : s.freeFallbackCcbList.health = s.health := rfl

@[simp]
theorem health_createFallbackCcb : (s.createFallbackCcb o ccm).health = s.health := by
  unfold createFallbackCcb
  split
  · rfl
  · split
    · rfl
    · split
      · rfl
      · split
        · rfl
        · dsimp only
          split <;> rfl

@[simp]
theorem health_triggerFallbackMonitor : (s.triggerFallbackMonitor o).health = s.health := rfl

@[simp]
theorem health_registerSendMsg {cmd : Cmd} {ndx : CcbIndex} : (s.registerSendMsg o cmd ndx).health = s.health := by
  unfold registerSendMsg
  split
  · rfl
  · split_ifs <;> rfl

@[simp]
theorem health_lineCleanup : s.lineCleanup.health = s.health := rfl

@[simp]
theorem health_backupCleanup : s.backupCleanup.health = s.health := rfl

@[simp]
theorem health_setupNewActiveCcb {entry : Option CcmId} : (s.setupNewActiveCcb entry).health = s.health := rfl

@[simp]
theorem health_setupNewStandbyCcb : (s.setupNewStandbyCcb ccm).health = s.health := rfl

@[simp]
theorem health_setHandle {valid : Bool} : (s.setHandle ccm valid).health = s.health := rfl

@[simp]
theorem health_giveUp : (s.giveUp o ccm).health = s.health := by
  unfold giveUp
  split_ifs <;> simp

@[simp]
theorem health_registerPrime : s.registerPrime.health = s.health := by
  unfold registerPrime
  split <;> simp

@[simp]
theorem health_registerLines : s.registerLines.health = s.health := by
  unfold registerLines
  split_ifs <;> simp

@[simp]
theorem health_registerAllLines : (s.registerAllLines o).health = s.health := by
  unfold registerAllLines
  split_ifs <;> simp

theorem health_searchStandby (ccms : List CcmId) (s : State) : (searchStandby o ccms s).2.health = s.health := by
  induction ccms generalizing s with
  | nil => rfl
  | cons ccm ccms ih =>
    rw [searchStandby]
    split_ifs
    · exact ih s
    · rfl
    · rw [ih, health_createFallbackCcb]

@[simp]
theorem health_findStandby : (s.findStandby o ccm).2.health = s.health := by
  have hsearch := health_searchStandby (o := o) (after ccm) s
  unfold findStandby
  split <;> simp_all

@[simp]
theorem health_ccmGetNextActive (entry : Option CcmId) : (s.ccmGetNextActive o entry).2.health = s.health := by
  unfold ccmGetNextActive
  split
  · rfl
  · next ccm =>
    have hgive : (s.giveUp o ccm).health = s.health := health_giveUp
    dsimp only
    split
    · exact hgive
    · rw [health_findStandby]
      exact hgive

@[simp]
theorem health_ccmGetNextStandby (entry : Option CcmId) : (s.ccmGetNextStandby o entry).2.health = s.health := by
  unfold ccmGetNextStandby
  split <;> simp

@[simp]
theorem health_failover {ccb : Ccb} : (s.failover o ccb).health = s.health := by
  have hnext := health_ccmGetNextActive (s := s) (o := o) ccb.entry
  unfold failover
  split_ifs
  · rfl
  · split
    · next heq => rw [health_freeFallbackCcbList, ← hnext, heq]
    · next heq =>
      rw [heq] at hnext
      rw [← hnext]
      dsimp only
      split <;> rfl

@[simp]
theorem health_lineTmrAckRetry : (s.lineTmrAckRetry o).health = s.health := by
  unfold lineTmrAckRetry
  split <;> simp

@[simp]
theorem health_backupTmrAckRetry : (s.backupTmrAckRetry o).health = s.health := by
  have hnext := health_ccmGetNextStandby (s := s) (o := o) s.backup.entry
  unfold backupTmrAckRetry
  split
  · simp
  · simp
  · split <;> next heq =>
      rw [heq] at hnext
      simp only [health_triggerFallbackMonitor, health_registerSendMsg, health_setupNewStandbyCcb]
      exact hnext
  · rfl

@[simp]
theorem health_replaceStandby : (s.replaceStandby o).health = s.health := by
  unfold replaceStandby
  split
  · rfl
  · next ccm _ =>
    show (State.registerSendMsg o _ _ _).health = _
    rw [health_registerSendMsg]
    split <;> simp

variable {r : Fallback}

@[simp]
theorem health_keepalive : (s.keepalive o n ccm r).health = s.health := by
  unfold keepalive
  split_ifs <;> simp

@[simp]
theorem health_resendRegister : (s.resendRegister o n r).health = s.health := by
  unfold resendRegister
  split <;> simp

@[simp]
theorem health_requestToken : (s.requestToken o n).health = s.health := by
  unfold requestToken
  split_ifs <;> rfl

@[simp]
theorem health_becomeStandby : (s.becomeStandby o n ccm).health = s.health := by
  simp [becomeStandby]

@[simp]
theorem health_awaitStandby : (s.awaitStandby ccm).health = s.health := by
  unfold awaitStandby
  split
  · rfl
  · split_ifs <;> rfl

@[simp]
theorem health_tokenWait2xx : (s.tokenWait2xx n r).health = s.health := by
  unfold tokenWait2xx
  dsimp only
  split <;> rfl

@[simp]
theorem health_evCleanup : (s.evCleanup o n r).health = s.health := by
  unfold evCleanup
  rw [health_registerSendMsg]
  split
  · split_ifs
    · exact (health_registerAllLines (o := o)).trans (by simp)
    · exact health_registerPrime.trans (by simp)
  · rw [health_setupNewStandbyCcb]
    split_ifs
    all_goals first
      | exact (health_registerAllLines (o := o)).trans (by simp)
      | exact health_registerPrime.trans (by simp)

@[simp]
theorem health_authenticate {c : Challenge} : (s.authenticate o n r c).health = s.health := by
  cases c with
  | digest =>
    unfold authenticate
    split_ifs <;> simp
  | _ => simp [authenticate]

/-- The WAN is not thought to have failed, and nothing was divided by zero. -/
def Calm (s : State) : Prop :=
  s.wanFailure = false ∧ Fault.divisionByZero ∉ s.faults

variable {r : Fallback}

theorem Calm.congr (h : s.Calm) (heq : s'.health = s.health) : s'.Calm := by
  have hwan : s'.wanFailure = s.wanFailure := congrArg Prod.fst heq
  have hfaults : s'.faults = s.faults := congrArg Prod.snd heq
  rw [Calm, hwan, hfaults]
  exact h

theorem Calm.null (h : s.Calm) : (s.fault .null).Calm := ⟨h.1, by simpa [fault] using h.2⟩

theorem Calm.freedRecord (h : s.Calm) : (s.fault .freedRecord).Calm := ⟨h.1, by simpa [fault] using h.2⟩

theorem Calm.modifyFallback (h : s.Calm) : (s.modifyFallback n f).Calm := h.congr rfl

theorem Calm.fallbackTmrAckRetry (h : s.Calm) : (s.fallbackTmrAckRetry o n r).Calm := by
  unfold State.fallbackTmrAckRetry
  split
  · exact h.congr rfl
  all_goals first
    | exact h
    | split
      · exact h.null
      · exact h.congr (by simp)

theorem Calm.fallbackDefault (h : s.Calm) : (s.fallbackDefault o n r).Calm := Calm.fallbackTmrAckRetry h.modifyFallback

theorem Calm.offerStandby (h : s.Calm) : (s.offerStandby o n ccm).Calm := by
  unfold State.offerStandby
  split
  · exact h.congr (by simp)
  · split
    · exact h.congr (by simp)
    · split
      · exact h.congr (by simp)
      · split
        · exact h.null
        · refine h.congr ?_
          rw [health_becomeStandby]
          split <;> rfl

theorem Calm.checkAndTransition (h : s.Calm) : (s.checkAndTransition o n ccm).Calm := by
  unfold State.checkAndTransition
  rw [if_neg (by simp [h.1])]
  split
  · exact h.null
  · split
    · exact h.congr (by simp)
    · split
      · exact h
      · exact h.offerStandby

theorem Calm.inFallback2xx (h : s.Calm) : (s.inFallback2xx o n r).Calm := by
  unfold State.inFallback2xx
  dsimp only
  split
  · exact Calm.null h.modifyFallback
  · exact Calm.checkAndTransition h.modifyFallback

theorem Calm.stabilityCheck2xx (h : s.Calm) : (s.stabilityCheck2xx o n r).Calm := by
  unfold State.stabilityCheck2xx
  dsimp only
  generalize (if 0 < r.stabilityMsgCount then r.stabilityMsgCount - 1 else r.stabilityMsgCount) = count
  split
  · exact h.congr rfl
  · split
    · exact Calm.null h.modifyFallback
    · exact Calm.checkAndTransition ⟨rfl, h.2⟩

theorem Calm.fallbackEvent (h : s.Calm) (state : RegState) (ev : RegEvent) : (s.fallbackEvent o n r state ev).Calm := by
  unfold State.fallbackEvent
  split
  -- the responses have tables of their own
  case h_4 resp =>
    unfold State.preFallbackResponse
    split
    all_goals first
      | exact h
      | exact h.congr (by simp)
      | split_ifs <;> first
        | exact h
        | exact h.congr (by simp)
  case h_10 resp =>
    unfold State.inFallbackResponse
    split
    all_goals first
      | exact h
      | exact h.inFallback2xx
      | exact h.fallbackDefault
  case h_16 resp =>
    unfold State.stabilityCheckResponse
    split
    all_goals first
      | exact h
      | exact h.stabilityCheck2xx
      | exact h.fallbackDefault
  case h_22 resp =>
    unfold State.tokenWaitResponse
    split
    all_goals first
      | exact h
      | exact h.fallbackDefault
      | exact h.congr (by simp)
  all_goals first
    | exact h
    | exact h.fallbackDefault
    | exact h.fallbackTmrAckRetry
    | exact h.congr (by simp)
    | split_ifs <;> first
      | exact h
      | exact h.fallbackTmrAckRetry

theorem Calm.fallbackProcess (h : s.Calm) {ev : RegEvent} : (s.fallbackProcess o n ev).Calm := by
  unfold State.fallbackProcess
  split
  · exact h
  · exact h.fallbackEvent _ _

theorem Calm.timeoutExpire (h : s.Calm) {t : Timer} {ptr : ℕ} : (s.timeoutExpire o t ptr).Calm := by
  unfold State.timeoutExpire
  split
  · exact h.freedRecord
  · cases t with
    | retry => exact h.congr health_registerSendMsg
    | wait => exact h.modifyFallback.congr health_registerSendMsg

theorem Calm.process (h : s.Calm) {cmd : Cmd} {ndx : CcbIndex} : (s.process o cmd ccm ndx).Calm := by
  unfold State.process
  split
  · split
    · split
      · exact h.fallbackProcess
      · exact h
    all_goals exact h.fallbackProcess
  all_goals
    split
    · split
      · exact h.congr (by simp)
      · exact h
    · exact h.congr rfl
    all_goals exact h

theorem Calm.leave (h : s.Calm) {ms : List Msg} : (s.leave ms).Calm := h

theorem Calm.deliver (h : s.Calm) : (s.deliver o).Calm := by
  unfold State.deliver
  split
  · exact h
  · exact h.leave.timeoutExpire
  · exact h.leave.process

theorem Calm.setupCcConns (h : s.Calm) (ccms : List CcmId) (active : Bool) : (s.setupCcConns o ccms active).2.Calm := by
  induction ccms generalizing s active with
  | nil => exact h
  | cons ccm ccms ih =>
    rw [State.setupCcConns]
    split
    · split
      · exact h
      · exact ih (s := { s.setHandle ccm true with activeCcmEntry := some ccm }) h _
    · split
      · exact ih (h.congr health_createFallbackCcb) _
      · exact ih h _

theorem Calm.init (h : s.Calm) : (s.init o).Calm := by
  have hlist : s.createFallbackCcbList.Calm := h
  have hconns := hlist.setupCcConns (o := o) (List.finRange 3) false
  unfold State.init
  split <;> next heq =>
    rw [heq] at hconns
    exact hconns.congr rfl

theorem Calm.phoneIdle (h : s.Calm) {waited : Bool} : (s.phoneIdle o waited).Calm := by
  unfold State.phoneIdle
  split
  · exact h.null
  · split
    · exact h.freedRecord
    · split
      · exact h.congr rfl
      · exact h.congr (by simp)

theorem Calm.handle (h : s.Calm) (ev : Event) : (s.handle o ev).Calm := by
  unfold State.handle
  split
  case h_1 => exact h.init
  case h_3 =>
    split
    · exact h
    · split
      · unfold State.timerExpires
        dsimp only
        split <;> exact h.congr rfl
      · exact h
  case h_4 => exact h.deliver
  case h_7 => exact h.fallbackProcess
  case h_8 =>
    split
    · exact h
    · split
      · exact Calm.fallbackProcess h.modifyFallback
      · exact h
  case h_10 =>
    split
    · exact (Calm.congr h rfl).congr health_replaceStandby
    · exact h
  case h_16 => exact h.phoneIdle
  case h_17 =>
    unfold State.fallbackRsp
    dsimp only
    split
    · exact h.congr rfl
    · exact Calm.congr h (health_registerLines.trans rfl)
  case h_11 => split <;> exact h.congr (by simp)
  case h_14 => exact h.congr (health_registerPrime.trans rfl)
  case h_15 => exact h.congr ((health_triggerFallbackMonitor (o := o)).trans health_registerLines)
  case h_18 =>
    unfold State.createConnFailed
    dsimp only
    split
    · exact h.congr (by simp)
    · split <;> exact h.congr (by simp)
  all_goals first
    | exact h.congr (by simp)
    | exact h.congr rfl

end State

theorem Run.calm {P : State → Event → Outcomes → Prop} {s : State} (h : Run P s) : s.Calm := by
  induction h with
  | start => exact ⟨rfl, List.not_mem_nil⟩
  | step s ev o _ _ ih => exact ih.handle ev

end Sip.Regmgr
