import Ikran.Sip.Notify
import Mathlib.Data.List.Perm.Basic

/-!
# Traces of NOTIFYs

What a trace tells of the requests of the application, of the NOTIFYs that are sent and of the event data.
Whatever message comes, a step asks for what its message asks for, and it frees or holds all the event data
that there is, once.
-/

namespace Sip.Notify

def requested (effects : List Effect) : List Request :=
  effects.filterMap fun e => match e with
    | .request r => some r
    | _ => none

def sent (effects : List Effect) : List Request :=
  effects.filterMap fun e => match e with
    | .send _ r => r
    | _ => none

/-- The requests that are reported as failed. -/
def failed (effects : List Effect) : List Request :=
  effects.filterMap fun e => match e with
    | .failed r => some r
    | _ => none

/-- The event data that is freed. -/
def freed (effects : List Effect) : List ℕ :=
  effects.filterMap fun e => match e with
    | .freeEventData ptr => some ptr
    | _ => none

/-- The NOTIFYs that are out, after an effect. -/
def out (cseqs : List UInt32) : Effect → List UInt32
  | .send cseq _ => cseqs ++ [cseq]
  | .closed cseq => cseqs.filter (· ≠ cseq)
  | _ => cseqs

/-- The NOTIFYs that are not answered. -/
def unanswered (effects : List Effect) : List UInt32 :=
  effects.foldl out []

def dataOf (rs : List Request) : List ℕ :=
  rs.flatMap fun r => r.eventData.toList

/-- The event data that a subscription holds. -/
def Scb.held (s : Scb) : List ℕ :=
  s.eventDataP.toList ++ dataOf s.pendingRequests

/-! ## Traces -/

section

variable (es es' : List Effect)

@[simp]
theorem requested_append : requested (es ++ es') = requested es ++ requested es' := List.filterMap_append

@[simp]
theorem sent_append : sent (es ++ es') = sent es ++ sent es' := List.filterMap_append

@[simp]
theorem failed_append : failed (es ++ es') = failed es ++ failed es' := List.filterMap_append

@[simp]
theorem freed_append : freed (es ++ es') = freed es ++ freed es' := List.filterMap_append

theorem unanswered_append : unanswered (es ++ es') = es'.foldl out (unanswered es) := List.foldl_append

end

@[simp]
theorem dataOf_append (rs rs' : List Request) : dataOf (rs ++ rs') = dataOf rs ++ dataOf rs' := List.flatMap_append

@[simp]
theorem dataOf_cons (r : Request) (rs : List Request) : dataOf (r :: rs) = r.eventData.toList ++ dataOf rs := rfl

/-- Nothing is asked for, sent or reported as failed, and no NOTIFY is closed. -/
structure Quiet (es : List Effect) : Prop where
  requested : requested es = []
  sent : sent es = []
  failed : failed es = []
  out : ∀ cseqs, es.foldl out cseqs = cseqs

theorem Quiet.append {es es' : List Effect} (h : Quiet es) (h' : Quiet es') : Quiet (es ++ es') where
  requested := by rw [requested_append, h.requested, h'.requested, List.nil_append]
  sent := by rw [sent_append, h.sent, h'.sent, List.nil_append]
  failed := by rw [failed_append, h.failed, h'.failed, List.nil_append]
  out := fun cseqs => by rw [List.foldl_append, h.out, h'.out]

theorem Quiet.nil : Quiet [] := ⟨rfl, rfl, rfl, fun _ => rfl⟩

theorem quiet_freeEventData (eventData : Option ℕ) : Quiet (freeEventData eventData) := by
  cases eventData with
  | none => exact .nil
  | some ptr => exact ⟨rfl, rfl, rfl, fun _ => rfl⟩

theorem quiet_flatMap (rs : List Request) : Quiet (rs.flatMap fun r => freeEventData r.eventData) := by
  induction rs with
  | nil => exact .nil
  | cons r rs ih => exact (quiet_freeEventData r.eventData).append ih

theorem quiet_result (callback : Bool) (task : Task) (statusCode : ℕ) :
    Quiet (report callback task (.result statusCode)) := by
  unfold report
  split
  · exact ⟨rfl, rfl, rfl, fun _ => rfl⟩
  · exact .nil

@[simp]
theorem freed_freeEventData (eventData : Option ℕ) : freed (freeEventData eventData) = eventData.toList := by
  cases eventData <;> rfl

@[simp]
theorem freed_flatMap (rs : List Request) : freed (rs.flatMap fun r => freeEventData r.eventData) = dataOf rs := by
  induction rs with
  | nil => rfl
  | cons r rs ih => rw [List.flatMap_cons, freed_append, freed_freeEventData, ih, dataOf_cons]

@[simp]
theorem freed_report_failed (callback : Bool) (task : Task) (r : Request) :
    freed (report callback task (.failed r)) = [] := by
  unfold report
  split <;> rfl

@[simp]
theorem freed_report_result (callback : Bool) (task : Task) (statusCode : ℕ) :
    freed (report callback task (.result statusCode)) = [] := by
  unfold report
  split <;> rfl

/-! ## Requests -/

/-- What a message asks for. -/
def Msg.requests : Msg → List Request
  | .appNotify r => [r]
  | _ => []

@[simp]
theorem requested_freeEventData (eventData : Option ℕ) : requested (freeEventData eventData) = [] :=
  (quiet_freeEventData eventData).requested

@[simp]
theorem requested_report_result (callback : Bool) (task : Task) (statusCode : ℕ) :
    requested (report callback task (.result statusCode)) = [] :=
  (quiet_result callback task statusCode).requested

@[simp]
theorem requested_report_failed (callback : Bool) (task : Task) (r : Request) :
    requested (report callback task (.failed r)) = [] := by
  unfold report
  split <;> rfl

namespace Scb

variable (s : Scb) (env : Env)

@[simp]
theorem requested_freeScb : requested s.freeScb.2 = [] := by
  have hfreed := (quiet_freeEventData s.eventDataP).append (quiet_flatMap s.pendingRequests)
  rw [freeScb, requested_append, hfreed.requested]
  rfl

@[simp]
theorem requested_handleEvAppNotify (r : Request) : requested (s.handleEvAppNotify env r).2 = [] := by
  have hsend : ∀ cseq, requested [.send cseq (some r)] = [] := fun _ => rfl
  have hnil : requested [] = [] := rfl
  unfold handleEvAppNotify
  dsimp only
  split_ifs <;> simp [hsend, hnil]

@[simp]
theorem requested_handlePendingRequests : requested (s.handlePendingRequests env).2 = [] := by
  unfold handlePendingRequests
  split
  · rfl
  · exact requested_handleEvAppNotify ..

theorem requested_resend (method : Method) (authorized : Bool) : requested (s.resend env method authorized).2 = [] := by
  unfold resend
  dsimp only
  split_ifs <;> rfl

theorem requested_flush : requested (s.flush env).2 = [] := by
  unfold flush
  split
  · exact requested_handlePendingRequests ..
  · exact requested_freeScb s

theorem requested_conclude (responseCode : ℕ) : requested (s.conclude env responseCode).2 = [] := by
  have hrelease : requested (s.release responseCode).2 = [] := by
    unfold release
    dsimp only
    split
    · exact requested_freeEventData _
    · rfl
  unfold conclude
  dsimp only
  split_ifs <;> simp [hrelease]

theorem requested_respond (method : Method) (responseCode : ℕ) (authorized : Bool) :
    requested (s.respond env method responseCode authorized).2 = [] := by
  unfold respond
  split_ifs
  · exact requested_resend ..
  · exact requested_flush ..
  · exact requested_conclude ..

theorem requested_expire : requested (s.expire env).2 = [] := by
  have hclosed : ∀ es, requested (.closed s.lastSentRequestCseq :: es) = requested es := fun _ => rfl
  unfold expire
  dsimp only
  split
  · simp
  · simp [hclosed]

theorem requested_process (msg : Msg) : requested (s.process env msg).2 = msg.requests := by
  cases msg with
  | appNotify r => exact congrArg (r :: ·) (requested_handleEvAppNotify s env r)
  | appTerminated immediate =>
    change requested (s.handleEvAppSubscriptionTerminated immediate).2 = []
    unfold handleEvAppSubscriptionTerminated
    split
    · rfl
    · split
      · exact requested_freeScb s
      · rfl
  | sipResponse method cseq responseCode routed authorized =>
    change requested (s.handleEvSipResponse env method cseq responseCode routed authorized).2 = []
    have hclosed : requested (if method = .notify ∧ isFinal responseCode then [.closed cseq] else []) = [] := by
      split <;> rfl
    unfold handleEvSipResponse
    dsimp only
    split
    · rfl
    · split
      · exact hclosed
      · rw [requested_append, hclosed, requested_respond, List.append_nil]
  | retryTimer sent =>
    change requested (s.handleRetryTimerExpire env sent).2 = []
    unfold handleRetryTimerExpire
    split
    · rfl
    · split
      · dsimp only
        split <;> rfl
      · exact requested_expire s env
  | periodicTimer =>
    change requested s.handlePeriodicTimerExpire.2 = []
    unfold handlePeriodicTimerExpire
    split_ifs
    · rfl
    · exact requested_freeScb s
    · rfl

end Scb

/-! ## Event data -/

namespace Scb

variable (s : Scb) (env : Env)

@[simp]
theorem held_sipSPISendSubNotify : (s.sipSPISendSubNotify env).held = s.held := by
  unfold sipSPISendSubNotify
  split <;> rfl

@[simp]
theorem held_sipSPISendSubscribe : (s.sipSPISendSubscribe env).held = s.held := by
  unfold sipSPISendSubscribe
  split <;> rfl

/-- Nothing of the event data is lost or freed twice in a step, which is given more. -/
def Conserves (s : Scb) (given : List ℕ) (step : Scb × List Effect) : Prop :=
  (freed step.2 ++ step.1.held).Perm (s.held ++ given)

theorem conserves_freeScb : s.Conserves [] s.freeScb := by
  have hclosed : freed [.closed s.lastSentRequestCseq] = [] := rfl
  simp only [Conserves, freeScb, freed_append, freed_freeEventData, freed_flatMap, hclosed, List.append_nil]
  exact List.Perm.of_eq (List.append_nil _)

theorem conserves_handleEvAppNotify (r : Request) : s.Conserves r.eventData.toList (s.handleEvAppNotify env r) := by
  have hrefuse : s.Conserves r.eventData.toList
      (s, freeEventData r.eventData ++ report r.notifyResultCallback r.subsNotCallbackTask (.failed r)) := by
    simpa [Conserves] using List.perm_append_comm
  have htake : ((s.take r).sipSPISendSubNotify env).held = r.eventData.toList ++ dataOf s.pendingRequests := by
    rw [held_sipSPISendSubNotify]
    rfl
  unfold handleEvAppNotify
  dsimp only
  split
  · exact hrefuse
  · split
    · split
      · -- the request waits behind the others
        simp only [Conserves, held, dataOf_append, dataOf_cons]
        simp [freed, dataOf]
      · exact hrefuse
    · split
      · exact hrefuse
      · split
        · simpa [Conserves] using List.perm_append_comm
        · -- the event data of the last request makes way
          have hsend : ∀ cseq, freed [Effect.send cseq (some r)] = [] := fun _ => rfl
          split
          · have hheld : ({ (s.take r).sipSPISendSubNotify env with smState := s.notified } : Scb).held =
                r.eventData.toList ++ dataOf s.pendingRequests := htake
            simp only [Conserves, freed_append, freed_freeEventData, hsend, hheld, List.append_nil]
            rw [held, List.append_assoc]
            exact List.Perm.append_left _ List.perm_append_comm
          · simp only [Conserves, freed_append, freed_freeEventData, freed_report_failed, htake, List.append_nil]
            rw [held, List.append_assoc]
            exact List.Perm.append_left _ List.perm_append_comm

theorem conserves_handlePendingRequests : s.Conserves [] (s.handlePendingRequests env) := by
  unfold handlePendingRequests
  split
  · simp [Conserves, freed]
  · rename_i r rs hq
    refine (conserves_handleEvAppNotify _ env r).trans ?_
    simp only [held, hq, dataOf_cons, List.append_nil, List.append_assoc]
    exact List.Perm.append_left _ List.perm_append_comm

variable {s}

theorem Conserves.of_held {s' : Scb} {step : Scb × List Effect} {given : List ℕ} (h : s'.Conserves given step)
    (hs : s'.held = s.held) {before : List Effect} (hb : freed before = []) :
    s.Conserves given (step.1, before ++ step.2) := by
  unfold Conserves at h ⊢
  rwa [freed_append, hb, List.nil_append, ← hs]

theorem conserves_of_held {s' : Scb} (hs : s'.held = s.held) {es : List Effect} (he : freed es = []) :
    s.Conserves [] (s', es) := by
  simp [Conserves, he, hs]

theorem conserves_resend (method : Method) (authorized : Bool) : s.Conserves [] (s.resend env method authorized) := by
  unfold resend
  split
  · exact conserves_of_held rfl rfl
  · split
    · exact conserves_of_held (held_sipSPISendSubscribe s env) rfl
    · exact conserves_of_held (held_sipSPISendSubNotify s env) (by split <;> rfl)

theorem conserves_flush : s.Conserves [] (s.flush env) := by
  unfold flush
  split
  · exact conserves_handlePendingRequests _ env
  · exact conserves_freeScb s

theorem conserves_release (responseCode : ℕ) :
    freed (s.release responseCode).2 ++ (s.release responseCode).1.held = s.held := by
  unfold release
  dsimp only
  split
  · rw [freed_freeEventData]
    rfl
  · rfl

theorem conserves_conclude (responseCode : ℕ) : s.Conserves [] (s.conclude env responseCode) := by
  have hrelease := conserves_release (s := s) responseCode
  unfold conclude
  dsimp only
  split
  · simp only [Conserves, freed_append, freed_report_result, List.append_nil]
    exact List.Perm.of_eq hrelease
  · split
    · simp only [Conserves, freed_append, freed_report_result, List.append_nil]
      rw [← hrelease, List.append_assoc]
      refine List.Perm.append_left _ ((conserves_handlePendingRequests _ env).trans ?_)
      rw [List.append_nil]
      exact List.Perm.refl _
    · simp only [Conserves, List.append_nil]
      exact List.Perm.of_eq hrelease

theorem conserves_respond (method : Method) (responseCode : ℕ) (authorized : Bool) :
    s.Conserves [] (s.respond env method responseCode authorized) := by
  unfold respond
  split_ifs
  · exact conserves_resend env method authorized
  · exact conserves_flush env
  · exact conserves_conclude env responseCode

theorem conserves_handleEvSipResponse (method : Method) (cseq : UInt32) (responseCode : ℕ) (routed authorized : Bool) :
    s.Conserves [] (s.handleEvSipResponse env method cseq responseCode routed authorized) := by
  have hclosed : freed (if method = .notify ∧ isFinal responseCode then [.closed cseq] else []) = [] := by
    split <;> rfl
  unfold handleEvSipResponse
  dsimp only
  split
  · exact conserves_of_held rfl rfl
  · split
    · exact conserves_of_held rfl hclosed
    · exact (conserves_respond (s := { s with retxFlag := false }) env method responseCode authorized).of_held
        rfl hclosed

theorem conserves_handleRetryTimerExpire (sent : Bool) : s.Conserves [] (s.handleRetryTimerExpire env sent) := by
  unfold handleRetryTimerExpire
  split
  · exact conserves_of_held rfl rfl
  · split
    · exact conserves_of_held rfl (by split <;> rfl)
    · unfold expire
      dsimp only
      split
      · exact (conserves_handlePendingRequests { s with retxFlag := false, retxCounter := 0 } env).of_held rfl
          (freed_report_result ..)
      · refine (conserves_handlePendingRequests
          { s with retxFlag := false, retxCounter := 0, smState := .active } env).of_held rfl ?_
        exact freed_report_result ..

theorem conserves_process (msg : Msg) : s.Conserves (dataOf msg.requests) (s.process env msg) := by
  cases msg with
  | appNotify r =>
    rw [Msg.requests, dataOf_cons]
    simpa [Conserves, process, freed, dataOf] using conserves_handleEvAppNotify s env r
  | appTerminated immediate =>
    change s.Conserves [] (s.handleEvAppSubscriptionTerminated immediate)
    unfold handleEvAppSubscriptionTerminated
    split
    · exact conserves_of_held rfl rfl
    · split
      · exact conserves_freeScb s
      · exact conserves_of_held rfl rfl
  | sipResponse method cseq responseCode routed authorized =>
    exact conserves_handleEvSipResponse env method cseq responseCode routed authorized
  | retryTimer sent => exact conserves_handleRetryTimerExpire env sent
  | periodicTimer =>
    change s.Conserves [] s.handlePeriodicTimerExpire
    unfold handlePeriodicTimerExpire
    split
    · split
      · exact conserves_of_held rfl rfl
      · exact conserves_freeScb s
    · exact conserves_of_held rfl rfl

end Scb

end Sip.Notify
