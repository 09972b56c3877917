import Ikran.Sip.NotifyTrace

/-!
# NOTIFYs are sent one after the other

At most one NOTIFY of a subscription is not answered. A request of the application is sent once or reported
once as failed, in the order in which it came, it does not wait when no NOTIFY is out, and its event data is
freed once. The queue gives away one request for each response, whatever comes of it. So a request that cannot
be sent leaves the ones behind it, a provisional response moves the first request to the end of the queue,
and so on.
-/

namespace Sip.Notify

/-- The NOTIFYs of a subscription are serialised, which was `s₀` before. -/
structure Serialized (s₀ s : Scb) (trace : List Effect) : Prop where
  oneUnanswered : (unanswered trace).length ≤ 1
  accounted : (sent trace ++ failed trace ++ s.pendingRequests).Perm (requested trace)
  inOrder : (sent trace ++ s.pendingRequests).Sublist (requested trace)
  noneWaits : unanswered trace = [] → s.pendingRequests = []
  freed : (freed trace ++ s.held).Perm (s₀.held ++ dataOf (requested trace))

/-- The NOTIFYs are serialised, throughout a run. -/
def AlwaysSerialized (s₀ : Scb) : Scb → List Effect → List (Env × Msg) → Prop
  | _, _, [] => True
  | s, trace, (env, msg) :: msgs =>
    let (s', effects) := s.process env msg
    Serialized s₀ s' (trace ++ effects) ∧ AlwaysSerialized s₀ s' (trace ++ effects) msgs

/-- A subscription without NOTIFYs and requests. -/
def Scb.Fresh (s : Scb) : Prop :=
  s.awaits = false ∧ s.pendingRequests = []

instance (s : Scb) : Decidable s.Fresh :=
  inferInstanceAs (Decidable (_ ∧ _))

/-! ## The condition -/

/-- The application can be told of its request. -/
def Request.Reachable (r : Request) : Prop :=
  r.notifyResultCallback ∨ r.subsNotCallbackTask ≠ none

/-- The request is sent or queued, or the application can be told. -/
def NotifyOk (s : Scb) (env : Env) (r : Request) : Prop :=
  if s.subId ≠ some r.subId then r.Reachable
  else if s.awaits then (env.message ∧ env.node) ∨ r.Reachable
  else if s.smState = .idle then r.Reachable
  else (r.notifyResultCallback ∨ r.subsNotResCallbackMsgID ≠ 0) ∧
    (env.outcome = .sent ∨ r.notifyResultCallback ∨ s.subsNotCallbackTask ≠ none)

/-- The first request of the queue is sent, or there is none behind it. -/
def PendingOk (s : Scb) (env : Env) : Prop :=
  ∀ r ∈ s.pendingRequests.head?, NotifyOk { s with smState := .active } env r ∧
    (env.outcome = .sent ∨ s.pendingRequests.length ≤ 1)

/-- The first request of the queue does not go behind another one. -/
def ProvisionalOk (s : Scb) (env : Env) : Prop :=
  ∀ r ∈ s.pendingRequests.head?, NotifyOk s env r ∧
    (¬ (env.message ∧ env.node) ∨ s.pendingRequests.length ≤ 1)

/-- The response is fine: the NOTIFY is sent again with credentials when it has to be, and the next request
goes out in its turn. -/
def ResponseOk (s : Scb) (env : Env) (responseCode : ℕ) (authorized : Bool) : Prop :=
  if responseCode = 401 ∨ responseCode = 407 then s.awaits = (authorized && env.outcome = .sent)
  else if isFinal responseCode then PendingOk s env
  else if s.pendingClean then s.pendingRequests = []
  else ProvisionalOk s env

/-- The message is fine: no request is lost, overtaken or left. -/
def MsgOk (s : Scb) (env : Env) : Msg → Prop
  | .appNotify r => NotifyOk s env r
  | .appTerminated immediate => immediate → s.pendingClean = false → s.pendingRequests = []
  | .sipResponse method cseq responseCode _ authorized =>
    method ≠ .subscribe → method ≠ .refer → s.lastSentRequestCseqMethod = method →
      s.lastSentRequestCseq = cseq → s.smState ≠ .idle → s.smState ≠ .registered →
      ResponseOk s env responseCode authorized
  | .retryTimer _ => s.retxFlag → ¬ s.retxCounter < env.config.maxRetx → PendingOk s env
  | .periodicTimer => s.pendingClean → ¬ 0 < s.pendingCount → s.pendingRequests = []

/-- Whether a message is so is decidable. -/
instance decidableMsgOk (s : Scb) (env : Env) : (msg : Msg) → Decidable (MsgOk s env msg)
  | .appNotify _ => by
    unfold MsgOk NotifyOk Request.Reachable
    infer_instance
  | .appTerminated _ | .periodicTimer => by
    unfold MsgOk
    infer_instance
  | .sipResponse .. => by
    unfold MsgOk ResponseOk ProvisionalOk PendingOk NotifyOk Request.Reachable
    infer_instance
  | .retryTimer _ => by
    unfold MsgOk PendingOk NotifyOk Request.Reachable
    infer_instance

/-- The messages of a run are so. -/
def RunOk : Scb → List (Env × Msg) → Prop
  | _, [] => True
  | s, (env, msg) :: msgs => MsgOk s env msg ∧ RunOk (s.process env msg).1 msgs

instance decidableRunOk : (s : Scb) → (msgs : List (Env × Msg)) → Decidable (RunOk s msgs)
  | _, [] => .isTrue trivial
  | s, (env, msg) :: msgs =>
    have := decidableRunOk (s.process env msg).1 msgs
    inferInstanceAs (Decidable (MsgOk s env msg ∧ RunOk (s.process env msg).1 msgs))

/-! ## The queue -/

/-- The requests that wait are neither sent nor reported, and come after those that are sent. -/
structure Pending (trace : List Effect) (waiting : List Request) : Prop where
  accounted : (sent trace ++ failed trace ++ waiting).Perm (requested trace)
  inOrder : (sent trace ++ waiting).Sublist (requested trace)

namespace Pending

variable {trace es : List Effect} {r : Request} {rs rs' : List Request}

theorem append (h : Pending trace rs) (hrequested : requested es = []) (hsent : sent es = [])
    (hfailed : failed es = []) : Pending (trace ++ es) rs := by
  constructor
  · rw [sent_append, failed_append, requested_append, hsent, hfailed, hrequested, List.append_nil,
      List.append_nil, List.append_nil]
    exact h.accounted
  · rw [sent_append, requested_append, hsent, hrequested, List.append_nil, List.append_nil]
    exact h.inOrder

theorem quiet (h : Pending trace rs) (hes : Quiet es) : Pending (trace ++ es) rs :=
  h.append hes.requested hes.sent hes.failed

theorem closed (h : Pending trace rs) (cseq : UInt32) : Pending (trace ++ [.closed cseq]) rs := h.append rfl rfl rfl

theorem request (h : Pending trace rs) (r : Request) : Pending (trace ++ [.request r]) (rs ++ [r]) := by
  have hsent : sent [.request r] = [] := rfl
  have hfailed : failed [.request r] = [] := rfl
  have hrequested : requested [.request r] = [r] := rfl
  constructor
  · rw [sent_append, failed_append, requested_append, hsent, hfailed, hrequested, List.append_nil,
      List.append_nil, ← List.append_assoc]
    exact h.accounted.append_right [r]
  · rw [sent_append, requested_append, hsent, hrequested, List.append_nil, ← List.append_assoc]
    exact h.inOrder.append_right [r]

theorem send (h : Pending trace (r :: rs)) (cseq : UInt32) : Pending (trace ++ [.send cseq (some r)]) rs := by
  have hsent : sent [.send cseq (some r)] = [r] := rfl
  have hfailed : failed [.send cseq (some r)] = [] := rfl
  have hrequested : requested [.send cseq (some r)] = [] := rfl
  constructor
  · rw [sent_append, failed_append, requested_append, hsent, hfailed, hrequested, List.append_nil, List.append_nil]
    refine List.Perm.trans ?_ h.accounted
    rw [List.append_assoc, List.append_assoc, List.append_assoc, List.singleton_append]
    exact List.Perm.append_left _ List.perm_middle.symm
  · rw [sent_append, requested_append, hsent, hrequested, List.append_nil, List.append_assoc, List.singleton_append]
    exact h.inOrder

theorem fail (h : Pending trace rs) (hsub : rs'.Sublist rs) (hperm : rs.Perm (r :: rs')) :
    Pending (trace ++ [.failed r]) rs' := by
  have hsent : sent [.failed r] = [] := rfl
  have hfailed : failed [.failed r] = [r] := rfl
  have hrequested : requested [.failed r] = [] := rfl
  constructor
  · rw [sent_append, failed_append, requested_append, hsent, hfailed, hrequested, List.append_nil,
      List.append_nil, List.append_assoc, List.append_assoc, List.singleton_append, ← List.append_assoc]
    exact (List.Perm.append_left _ hperm.symm).trans h.accounted
  · rw [sent_append, requested_append, hsent, hrequested, List.append_nil, List.append_nil]
    exact (hsub.append_left _).trans h.inOrder

end Pending

namespace Scb

variable (s : Scb) (env : Env)

@[simp]
theorem subId_sipSPISendSubNotify : (s.sipSPISendSubNotify env).subId = s.subId := by
  unfold sipSPISendSubNotify
  split <;> rfl

@[simp]
theorem smState_sipSPISendSubNotify : (s.sipSPISendSubNotify env).smState = s.smState := by
  unfold sipSPISendSubNotify
  split <;> rfl

@[simp]
theorem pendingRequests_sipSPISendSubNotify : (s.sipSPISendSubNotify env).pendingRequests = s.pendingRequests := by
  unfold sipSPISendSubNotify
  split <;> rfl

@[simp]
theorem callback_sipSPISendSubNotify : (s.sipSPISendSubNotify env).notifyResultCallback = s.notifyResultCallback := by
  unfold sipSPISendSubNotify
  split <;> rfl

@[simp]
theorem task_sipSPISendSubNotify : (s.sipSPISendSubNotify env).subsNotCallbackTask = s.subsNotCallbackTask := by
  unfold sipSPISendSubNotify
  split <;> rfl

theorem method_sipSPISendSubNotify (h : env.outcome = .sent) :
    (s.sipSPISendSubNotify env).lastSentRequestCseqMethod = .notify := by
  simp [sipSPISendSubNotify, h, setRetrySettings]

@[simp]
theorem smState_sipSPISendSubscribe : (s.sipSPISendSubscribe env).smState = s.smState := by
  unfold sipSPISendSubscribe
  split <;> rfl

@[simp]
theorem pendingRequests_sipSPISendSubscribe : (s.sipSPISendSubscribe env).pendingRequests = s.pendingRequests := by
  unfold sipSPISendSubscribe
  split <;> rfl

theorem awaits_congr {s' : Scb} (h : s'.smState = s.smState) : s'.awaits = s.awaits := by
  rw [awaits, awaits, h]

theorem awaits_notified : ({ s with smState := s.notified } : Scb).awaits = true := by
  unfold notified awaits
  split <;> rfl

theorem awaits_responded {responseCode : ℕ} (h : isFinal responseCode) :
    ({ s with smState := s.responded responseCode } : Scb).awaits = false := by
  unfold responded awaits
  rw [if_pos h]
  split <;> rfl

end Scb

theorem report_eq {callback : Bool} {task : Task} (h : callback ∨ task ≠ none) (e : Effect) :
    report callback task e = [e] :=
  if_pos h

/-- What is true between two messages. -/
structure Inv (s : Scb) (trace : List Effect) : Prop where
  pending : Pending trace s.pendingRequests
  named : ∀ r ∈ s.pendingRequests, s.subId = some r.subId
  oneOut : unanswered trace = if s.awaits then [s.lastSentRequestCseq] else []
  method : s.awaits → s.lastSentRequestCseqMethod = .notify
  queue : s.awaits = false → s.pendingRequests = []

section

variable {s s' : Scb} {env : Env} {trace es : List Effect} {r : Request} {cseq : UInt32}

theorem unanswered_quiet (hes : Quiet es) : unanswered (trace ++ es) = unanswered trace := by
  rw [unanswered_append, hes.out]

theorem unanswered_closed (h : ∀ c ∈ unanswered trace, c = cseq) : unanswered (trace ++ [.closed cseq]) = [] := by
  rw [unanswered_append]
  exact List.filter_eq_nil_iff.mpr fun c hc => by simpa using h c hc

theorem inv_of_failed (hp : Pending trace [r]) (hu : unanswered trace = []) (hes : Quiet es)
    (hs : s.awaits = false) (hq : s.pendingRequests = []) : Inv s (trace ++ (es ++ [.failed r])) where
  pending := by
    rw [hq, ← List.append_assoc]
    exact (hp.quiet hes).fail (List.nil_sublist _) (List.Perm.refl _)
  named := by simp [hq]
  oneOut := by
    rw [← List.append_assoc, hs, unanswered_append, unanswered_quiet hes, hu]
    rfl
  method := by simp [hs]
  queue := fun _ => hq

theorem inv_handle_still (hp : Pending trace (r :: s.pendingRequests)) (hu : unanswered trace = [])
    (hnamed : ∀ r ∈ s.pendingRequests, s.subId = some r.subId) (hs : s.awaits = false)
    (hok : NotifyOk s env r)
    (hq : s.pendingRequests = [] ∨ s.subId = some r.subId ∧ s.smState ≠ .idle ∧ env.outcome = .sent) :
    Inv (s.handleEvAppNotify env r).1 (trace ++ (s.handleEvAppNotify env r).2) := by
  have hrefuse (hempty : s.pendingRequests = []) (hr : r.Reachable) : Inv s (trace ++
      (freeEventData r.eventData ++ report r.notifyResultCallback r.subsNotCallbackTask (.failed r))) := by
    rw [report_eq hr]
    exact inv_of_failed (hempty ▸ hp) hu (quiet_freeEventData _) hs hempty
  unfold NotifyOk at hok
  unfold Scb.handleEvAppNotify
  dsimp only
  split
  · rename_i hsub
    rw [if_pos hsub] at hok
    exact hrefuse (hq.resolve_right fun h => hsub h.1) hok
  · rename_i hsub
    have hawaits : ¬ s.awaits = true := by simp [hs]
    rw [if_neg hsub, if_neg hawaits] at hok
    rw [if_neg hawaits]
    split
    · rename_i hidle
      rw [if_pos hidle] at hok
      exact hrefuse (hq.resolve_right fun h => h.2.1 hidle) hok
    · rename_i hidle
      rw [if_neg hidle] at hok
      have hanswer : ¬ (r.notifyResultCallback = false ∧ r.subsNotResCallbackMsgID = 0) := by
        rintro ⟨hcallback, hmsg⟩
        simp [hcallback, hmsg] at hok
      rw [if_neg hanswer]
      split
      · -- the NOTIFY goes out, and the others wait for its response
        rename_i hsent
        have hcseq := ((hp.quiet (quiet_freeEventData s.eventDataP)).send
          ((s.take r).sipSPISendSubNotify env).lastSentRequestCseq)
        have hnotified : ({ (s.take r).sipSPISendSubNotify env with smState := s.notified } : Scb).awaits = true :=
          Scb.awaits_notified s
        constructor
        · rw [← List.append_assoc]
          simpa [Scb.take] using hcseq
        · simpa [Scb.take] using hnamed
        · rw [if_pos hnotified, ← List.append_assoc, unanswered_append, unanswered_quiet (quiet_freeEventData _), hu]
          rfl
        · exact fun _ => (s.take r).method_sipSPISendSubNotify env hsent
        · rw [hnotified]
          exact fun h => absurd h (by decide)
      · rename_i hsent
        have hempty : s.pendingRequests = [] := hq.resolve_right fun h => hsent h.2.2
        rw [report_eq (by simpa [Scb.take] using hok.2.resolve_left hsent)]
        refine inv_of_failed (hempty ▸ hp) hu (quiet_freeEventData _) ?_ (by simpa [Scb.take] using hempty)
        rw [Scb.awaits_congr s (by simp [Scb.take]), hs]

/-- A request is handled while a NOTIFY is out. It waits, or is reported. -/
theorem inv_handle_awaits {rs : List Request} (hp : Pending trace rs) (hperm : rs.Perm (r :: s.pendingRequests))
    (hsub : s.pendingRequests.Sublist rs)
    (hbehind : s.subId = some r.subId → env.message ∧ env.node → rs = s.pendingRequests ++ [r])
    (hnamed : ∀ r ∈ s.pendingRequests, s.subId = some r.subId)
    (hu : unanswered trace = [s.lastSentRequestCseq]) (hm : s.lastSentRequestCseqMethod = .notify)
    (hs : s.awaits = true) (hok : NotifyOk s env r) :
    Inv (s.handleEvAppNotify env r).1 (trace ++ (s.handleEvAppNotify env r).2) := by
  have hrefuse (hr : r.Reachable) : Inv s (trace ++
      (freeEventData r.eventData ++ report r.notifyResultCallback r.subsNotCallbackTask (.failed r))) := by
    rw [report_eq hr, ← List.append_assoc]
    have hquiet := quiet_freeEventData r.eventData
    constructor
    · exact (hp.quiet hquiet).fail hsub hperm
    · exact hnamed
    · rw [if_pos hs, unanswered_append, unanswered_quiet hquiet, hu]
      rfl
    · exact fun _ => hm
    · rw [hs]
      exact fun h => absurd h (by decide)
  unfold NotifyOk at hok
  unfold Scb.handleEvAppNotify
  dsimp only
  split
  · rename_i hne
    rw [if_pos hne] at hok
    exact hrefuse hok
  · rename_i heq
    rw [if_neg heq, if_pos hs] at hok
    split
    · rename_i hmemory
      have heq := not_not.mp heq
      constructor
      · rw [List.append_nil, ← hbehind heq hmemory]
        exact hp
      · intro r' hr'
        rcases List.mem_append.mp hr' with h | h
        · exact hnamed r' h
        · rw [List.mem_singleton.mp h]
          exact heq
      · rw [List.append_nil, hu]
        exact (if_pos hs).symm
      · exact fun _ => hm
      · exact fun h => absurd (hs.symm.trans h) (by decide)
    · rename_i hmemory
      exact hrefuse (hok.resolve_left hmemory)

theorem inv_pending_still (hp : Pending trace s.pendingRequests) (hu : unanswered trace = [])
    (hnamed : ∀ r ∈ s.pendingRequests, s.subId = some r.subId) (hs : s.awaits = false)
    (hidle : s.pendingRequests ≠ [] → s.smState ≠ .idle) (hok : PendingOk s env) :
    Inv (s.handlePendingRequests env).1 (trace ++ (s.handlePendingRequests env).2) := by
  unfold Scb.handlePendingRequests
  split
  · rename_i hq
    rw [List.append_nil]
    exact ⟨hp, hnamed, by simp [hu, hs], by simp [hs], fun _ => hq⟩
  · rename_i r rs hq
    have hidle := hidle (by simp [hq])
    have hsub := hnamed r (by simp [hq])
    obtain ⟨hnotify, hbehind⟩ := hok r (by simp [hq])
    have hactive : ({ s with smState := .active } : Scb).awaits = false := rfl
    -- the states do not differ in what they make of a request
    have hnotify : NotifyOk { s with pendingRequests := rs } env r := by
      have hawaits : ({ s with pendingRequests := rs } : Scb).awaits = s.awaits := Scb.awaits_congr s rfl
      simp only [NotifyOk, hactive, hawaits, hs, hidle] at hnotify ⊢
      simpa using hnotify
    rw [hq] at hp hbehind hnamed
    refine inv_handle_still hp hu (fun r' hr' => hnamed r' (List.mem_cons_of_mem r hr')) hs hnotify ?_
    rcases hbehind with hsent | hone
    · exact .inr ⟨hsub, hidle, hsent⟩
    · exact .inl (List.length_eq_zero_iff.mp (Nat.le_zero.mp (Nat.le_of_succ_le_succ hone)))

theorem inv_pending_awaits (h : Inv s trace) (hs : s.awaits = true) (hok : ProvisionalOk s env) :
    Inv (s.handlePendingRequests env).1 (trace ++ (s.handlePendingRequests env).2) := by
  unfold Scb.handlePendingRequests
  split
  · rw [List.append_nil]
    exact h
  · rename_i r rs hq
    obtain ⟨hnotify, hbehind⟩ := hok r (by simp [hq])
    have hu : unanswered trace = [s.lastSentRequestCseq] := by rw [h.oneOut, if_pos hs]
    have hp := h.pending
    have hnamed := h.named
    rw [hq] at hp hbehind hnamed
    refine inv_handle_awaits hp (List.Perm.refl _) (List.sublist_cons_self r rs) (fun _ hmemory => ?_)
      (fun r' hr' => hnamed r' (List.mem_cons_of_mem r hr')) hu (h.method hs) hs hnotify
    have hone := hbehind.resolve_left (not_not.mpr hmemory)
    rw [List.length_eq_zero_iff.mp (Nat.le_zero.mp (Nat.le_of_succ_le_succ hone))]
    rfl

end

/-! ## Steps -/

namespace Inv

variable {s s' : Scb} {env : Env} {trace es : List Effect}

theorem congr (s' : Scb) (h : Inv s trace) (hsub : s'.subId = s.subId) (hstate : s'.smState = s.smState)
    (hq : s'.pendingRequests = s.pendingRequests) (hcseq : s'.lastSentRequestCseq = s.lastSentRequestCseq)
    (hmethod : s'.lastSentRequestCseqMethod = s.lastSentRequestCseqMethod) (hes : Quiet es) :
    Inv s' (trace ++ es) := by
  have hawaits := Scb.awaits_congr s hstate
  constructor
  · rw [hq]
    exact h.pending.quiet hes
  · rw [hq, hsub]
    exact h.named
  · rw [unanswered_quiet hes, hawaits, hcseq]
    exact h.oneOut
  · rw [hawaits, hmethod]
    exact h.method
  · rw [hawaits, hq]
    exact h.queue

theorem still (h : Inv s trace) (hs : s.awaits = false) (hs' : s'.awaits = false)
    (hq : s'.pendingRequests = s.pendingRequests) (hes : Quiet es) : Inv s' (trace ++ es) := by
  have hempty : s'.pendingRequests = [] := hq.trans (h.queue hs)
  constructor
  · rw [hempty, ← h.queue hs]
    exact h.pending.quiet hes
  · simp [hempty]
  · rw [unanswered_quiet hes, h.oneOut, hs, hs']
    rfl
  · simp [hs']
  · exact fun _ => hempty

theorem last (h : Inv s trace) : ∀ c ∈ unanswered trace, c = s.lastSentRequestCseq := by
  rw [h.oneOut]
  split
  · exact fun c hc => List.mem_singleton.mp hc
  · simp

theorem of_freeScb (hp : Pending trace s.pendingRequests) (hq : s.pendingRequests = [])
    (hu : ∀ c ∈ Notify.unanswered trace, c = s.lastSentRequestCseq) :
    Inv s.freeScb.1 (trace ++ s.freeScb.2) := by
  have hfreed := (quiet_freeEventData s.eventDataP).append (quiet_flatMap s.pendingRequests)
  have hawaits : s.freeScb.1.awaits = false := rfl
  have hp := (hp.quiet hfreed).closed s.lastSentRequestCseq
  rw [Scb.freeScb, ← List.append_assoc]
  constructor
  · exact hq ▸ hp
  · exact fun r hr => absurd hr List.not_mem_nil
  · rw [unanswered_closed (by rw [unanswered_quiet hfreed]; exact hu)]
    rfl
  · exact fun h => absurd h (Bool.eq_false_iff.mp hawaits)
  · exact fun _ => rfl

theorem freeScb (h : Inv s trace) (hq : s.pendingRequests = []) : Inv s.freeScb.1 (trace ++ s.freeScb.2) :=
  of_freeScb h.pending hq h.last

theorem closed (h : Inv s trace) (hs : s.awaits = false) (cseq : UInt32) : Inv s (trace ++ [.closed cseq]) where
  pending := h.pending.closed cseq
  named := h.named
  oneOut := by
    have hu : unanswered trace = [] := by
      rw [h.oneOut, hs]
      rfl
    rw [unanswered_closed (by simp [hu]), hs]
    rfl
  method := h.method
  queue := h.queue

theorem next (s' : Scb) (h : Inv s trace) (hs' : s'.awaits = false) (hidle : s'.smState ≠ .idle)
    (hsub : s'.subId = s.subId) (hq : s'.pendingRequests = s.pendingRequests) (hes : Quiet es)
    (hok : PendingOk s' env) :
    Inv (s'.handlePendingRequests env).1
      (trace ++ [.closed s.lastSentRequestCseq] ++ (es ++ (s'.handlePendingRequests env).2)) := by
  rw [← List.append_assoc]
  refine inv_pending_still ?_ ?_ ?_ hs' (fun _ => hidle) hok
  · rw [hq]
    exact (h.pending.closed _).quiet hes
  · rw [unanswered_quiet hes]
    exact unanswered_closed h.last
  · rw [hq, hsub]
    exact h.named

variable {authorized : Bool}

theorem resend_still (h : Inv s trace) (hs : s.awaits = false) {method : Method}
    (hok : method ≠ .subscribe → method ≠ .refer → s.awaits = (authorized && env.outcome = .sent)) :
    Inv (s.resend env method authorized).1 (trace ++ (s.resend env method authorized).2) := by
  unfold Scb.resend
  split
  · rw [List.append_nil]
    exact h
  · rename_i hauthorized
    split
    · exact h.still hs (by rw [Scb.awaits_congr s (Scb.smState_sipSPISendSubscribe s env), hs])
        (Scb.pendingRequests_sipSPISendSubscribe s env) .nil
    · rename_i hmethod
      have hsent : ¬ env.outcome = .sent := by
        intro hsent
        have hok := hok (fun h => hmethod (.inl h)) (fun h => hmethod (.inr h))
        simp [hs, hsent] at hok
        exact hauthorized hok
      dsimp only
      rw [if_neg hsent]
      exact h.still hs (by rw [Scb.awaits_congr s (Scb.smState_sipSPISendSubNotify s env), hs])
        (Scb.pendingRequests_sipSPISendSubNotify s env) .nil

theorem resend_awaits (h : Inv s trace) (hs : s.awaits = true) (hsent : env.outcome = .sent) :
    Inv (s.resend env .notify true).1 (trace ++ [.closed s.lastSentRequestCseq] ++ (s.resend env .notify true).2) := by
  have hawaits : (s.sipSPISendSubNotify env).awaits = true := by
    rw [Scb.awaits_congr s (Scb.smState_sipSPISendSubNotify s env), hs]
  have heffects : s.resend env .notify true =
      (s.sipSPISendSubNotify env, [.send (s.sipSPISendSubNotify env).lastSentRequestCseq none]) := by
    simp [Scb.resend, hsent]
  rw [heffects]
  constructor
  · rw [Scb.pendingRequests_sipSPISendSubNotify]
    exact (h.pending.closed _).append rfl rfl rfl
  · rw [Scb.pendingRequests_sipSPISendSubNotify, Scb.subId_sipSPISendSubNotify]
    exact h.named
  · rw [if_pos hawaits, unanswered_append, unanswered_closed h.last]
    rfl
  · exact fun _ => s.method_sipSPISendSubNotify env hsent
  · exact fun h => absurd (hawaits.symm.trans h) (by decide)

theorem flush_still (h : Inv s trace) (hq : s.pendingRequests = []) :
    Inv (s.flush env).1 (trace ++ (s.flush env).2) := by
  unfold Scb.flush
  rw [if_neg (not_not.mpr hq)]
  exact h.freeScb hq

theorem quiet_release (s : Scb) (responseCode : ℕ) : Quiet (s.release responseCode).2 := by
  unfold Scb.release
  dsimp only
  split
  · exact quiet_freeEventData _
  · exact .nil

theorem conclude_still (h : Inv s trace) (hs : s.awaits = false) (responseCode : ℕ) :
    Inv (s.conclude env responseCode).1 (trace ++ (s.conclude env responseCode).2) := by
  have hrelease := quiet_release s responseCode
  have hawaits : (s.release responseCode).1.awaits = false := hs
  unfold Scb.conclude
  dsimp only
  split
  · rename_i hstate
    refine h.still hs ?_ rfl (hrelease.append (quiet_result ..))
    change s.smState = _ ∨ s.smState = _ at hstate
    simp only [Scb.subscribed, Scb.awaits, Scb.release]
    split_ifs <;> rcases hstate with h | h <;> simp [h]
  · rw [if_neg (by simp [hawaits])]
    exact h.still hs hawaits rfl hrelease

theorem not_subscribing (hs : s.awaits = true) :
    ¬ (s.smState = .sentSubscribeRcvdNotify ∨ s.smState = .sentSubscribe) := by
  rintro (h | h) <;> simp [Scb.awaits, h] at hs

theorem conclude_awaits (hs : s.awaits = true) (responseCode : ℕ) :
    let s' : Scb := { (s.release responseCode).1 with smState := s.responded responseCode }
    s.conclude env responseCode = ((s'.handlePendingRequests env).1, (s.release responseCode).2 ++
      report s.notifyResultCallback s.subsNotCallbackTask (.result responseCode) ++
      (s'.handlePendingRequests env).2) := by
  have hawaits : (s.release responseCode).1.awaits = true := hs
  unfold Scb.conclude
  dsimp only
  rw [if_neg (not_subscribing hawaits), if_pos hawaits]
  rfl

variable {responseCode : ℕ}

theorem conclude_final (h : Inv s trace) (hs : s.awaits = true) (hfinal : isFinal responseCode)
    (hok : PendingOk s env) :
    Inv (s.conclude env responseCode).1
      (trace ++ [.closed s.lastSentRequestCseq] ++ (s.conclude env responseCode).2) := by
  have hresult := (quiet_release s responseCode).append
    (quiet_result s.notifyResultCallback s.subsNotCallbackTask responseCode)
  have hidle : s.responded responseCode ≠ .idle := by
    unfold Scb.responded
    rw [if_pos hfinal]
    split <;> simp
  have hnext := h.next { (s.release responseCode).1 with smState := s.responded responseCode }
    (Scb.awaits_responded s hfinal) hidle rfl rfl hresult hok
  rw [conclude_awaits hs]
  exact hnext

theorem conclude_provisional (h : Inv s trace) (hs : s.awaits = true)
    (hfinal : isFinal responseCode = false) (hok : ProvisionalOk s env) :
    Inv (s.conclude env responseCode).1 (trace ++ (s.conclude env responseCode).2) := by
  have hresult := (quiet_release s responseCode).append
    (quiet_result s.notifyResultCallback s.subsNotCallbackTask responseCode)
  have hstate : s.responded responseCode = s.smState := by
    rw [Scb.responded, hfinal]
    rfl
  have hsame := h.congr { (s.release responseCode).1 with smState := s.responded responseCode }
    rfl hstate rfl rfl rfl hresult
  rw [conclude_awaits hs, ← List.append_assoc]
  refine inv_pending_awaits hsame (by rw [Scb.awaits_congr s hstate, hs]) ?_
  intro r hr
  rw [hstate]
  exact hok r hr

theorem flush_final (h : Inv s trace) (hok : PendingOk s env) :
    Inv (s.flush env).1 (trace ++ [.closed s.lastSentRequestCseq] ++ (s.flush env).2) := by
  unfold Scb.flush
  split
  · let active : Scb := { s with pendingCount := s.pendingCount + tmrPeriodicSubnotInterval, smState := .active }
    exact h.next active rfl (by simp [active]) rfl rfl .nil hok
  · rename_i hq
    refine of_freeScb (h.pending.closed _) (not_not.mp hq) ?_
    rw [unanswered_closed h.last]
    exact fun c hc => absurd hc List.not_mem_nil

theorem respond_still (h : Inv s trace) (hs : s.awaits = false) {method : Method} (responseCode : ℕ)
    (hok : method ≠ .subscribe → method ≠ .refer → ResponseOk s env responseCode authorized) :
    Inv (s.respond env method responseCode authorized).1
      (trace ++ (s.respond env method responseCode authorized).2) := by
  unfold Scb.respond
  split
  · rename_i hcode
    refine h.resend_still hs fun h₁ h₂ => ?_
    simpa [ResponseOk, hcode] using hok h₁ h₂
  · split
    · exact h.flush_still (h.queue hs)
    · exact h.conclude_still hs responseCode

theorem respond_awaits (h : Inv s trace) (hs : s.awaits = true) (hok : ResponseOk s env responseCode authorized) :
    Inv (s.respond env .notify responseCode authorized).1
      (trace ++ ((if isFinal responseCode then [.closed s.lastSentRequestCseq] else []) ++
        (s.respond env .notify responseCode authorized).2)) := by
  unfold ResponseOk at hok
  unfold Scb.respond
  rw [← List.append_assoc]
  split
  · rename_i hcode
    have hfinal : isFinal responseCode = true := by
      rcases hcode with rfl | rfl <;> rfl
    rw [if_pos hcode, hs] at hok
    simp only [Bool.and_eq_true, decide_eq_true_eq, eq_comm (a := true)] at hok
    rw [hfinal, if_pos rfl, hok.1]
    exact h.resend_awaits hs hok.2
  · rename_i hcode
    rw [if_neg hcode] at hok
    cases hfinal : isFinal responseCode with
    | true =>
      rw [hfinal, if_pos rfl] at hok
      rw [if_pos rfl]
      split
      · exact h.flush_final hok
      · exact h.conclude_final hs hfinal hok
    | false =>
      rw [hfinal, if_neg Bool.false_ne_true] at hok
      rw [if_neg Bool.false_ne_true, List.append_nil]
      split
      · rename_i hclean
        rw [if_pos hclean] at hok
        exact h.flush_still hok
      · rename_i hclean
        rw [if_neg hclean] at hok
        exact h.conclude_provisional hs hfinal hok

theorem handleEvSipResponse (h : Inv s trace) (method : Method) (cseq : UInt32) (responseCode : ℕ)
    (routed authorized : Bool) (hok : MsgOk s env (.sipResponse method cseq responseCode routed authorized)) :
    Inv (s.handleEvSipResponse env method cseq responseCode routed authorized).1
      (trace ++ (s.handleEvSipResponse env method cseq responseCode routed authorized).2) := by
  have hretx := h.congr { s with retxFlag := false } rfl rfl rfl rfl rfl .nil
  rw [List.append_nil] at hretx
  unfold Scb.handleEvSipResponse
  dsimp only
  split
  · rw [List.append_nil]
    exact h
  · rename_i hmatch
    push Not at hmatch
    obtain ⟨hidle, hregistered, hmethod, hcseq⟩ := hmatch
    have hok : method ≠ .subscribe → method ≠ .refer → ResponseOk s env responseCode authorized :=
      fun h₁ h₂ => hok h₁ h₂ hmethod hcseq hidle hregistered
    cases hs : s.awaits with
    | true =>
      have hnotify : method = .notify := hmethod.symm.trans (h.method hs)
      subst hnotify
      rw [if_neg (by simp)]
      simp only [true_and]
      rw [← hcseq]
      exact hretx.respond_awaits hs (hok (by simp) (by simp))
    | false =>
      -- what is closed was not out
      have hclosed : Inv { s with retxFlag := false }
          (trace ++ if method = .notify ∧ isFinal responseCode then [.closed cseq] else []) := by
        split
        · exact hretx.closed hs cseq
        · rwa [List.append_nil]
      split
      · exact hclosed
      · rw [← List.append_assoc]
        exact hclosed.respond_still hs responseCode hok

theorem handlePendingRequests_nil (hq : s.pendingRequests = []) : s.handlePendingRequests env = (s, []) := by
  unfold Scb.handlePendingRequests
  rw [hq]

theorem expire (h : Inv s trace) (hok : PendingOk s env) : Inv (s.expire env).1 (trace ++ (s.expire env).2) := by
  unfold Scb.expire
  dsimp only
  split
  · -- another request than a NOTIFY
    rename_i hmethod
    have hs : s.awaits = false := by
      refine Bool.eq_false_iff.mpr fun hs => ?_
      rw [h.method hs] at hmethod
      simp at hmethod
    rw [handlePendingRequests_nil (s := { s with retxFlag := false, retxCounter := 0 }) (h.queue hs), List.append_nil]
    exact h.still hs hs rfl (quiet_result ..)
  · have hnext := h.next { s with retxFlag := false, retxCounter := 0, smState := .active } rfl (by simp)
      rfl rfl (quiet_result s.notifyResultCallback s.subsNotCallbackTask requestTimeout) hok
    rw [List.append_assoc, List.singleton_append, ← List.cons_append] at hnext
    exact hnext

theorem process (h : Inv s trace) (msg : Msg) (hok : MsgOk s env msg) :
    Inv (s.process env msg).1 (trace ++ (s.process env msg).2) := by
  cases msg with
  | appNotify r =>
    have hasked := h.pending.request r
    have hquiet : ∀ cseqs, List.foldl out cseqs [.request r] = cseqs := fun _ => rfl
    have hu : Notify.unanswered (trace ++ [.request r]) = Notify.unanswered trace := by
      rw [unanswered_append, hquiet]
    change Inv (s.handleEvAppNotify env r).1 (trace ++ ([.request r] ++ (s.handleEvAppNotify env r).2))
    rw [← List.append_assoc]
    cases hs : s.awaits with
    | true =>
      refine inv_handle_awaits hasked (List.perm_append_singleton r _) (List.sublist_append_left _ _)
        (fun _ _ => rfl) h.named ?_ (h.method hs) hs hok
      rw [hu, h.oneOut, if_pos hs]
    | false =>
      have hq := h.queue hs
      rw [hq, List.nil_append] at hasked
      refine inv_handle_still (hq ▸ hasked) ?_ h.named hs hok (.inl hq)
      rw [hu, h.oneOut, hs]
      rfl
  | appTerminated immediate =>
    change Inv (s.handleEvAppSubscriptionTerminated immediate).1
      (trace ++ (s.handleEvAppSubscriptionTerminated immediate).2)
    unfold Scb.handleEvAppSubscriptionTerminated
    split
    · rw [List.append_nil]
      exact h
    · rename_i hlive
      split
      · rename_i himmediate
        exact h.freeScb (hok himmediate (Bool.eq_false_iff.mpr fun hclean => hlive (.inr hclean)))
      · exact h.congr _ rfl rfl rfl rfl rfl .nil
  | sipResponse method cseq responseCode routed authorized =>
    exact h.handleEvSipResponse method cseq responseCode routed authorized hok
  | retryTimer sent =>
    change Inv (s.handleRetryTimerExpire env sent).1 (trace ++ (s.handleRetryTimerExpire env sent).2)
    unfold Scb.handleRetryTimerExpire
    split
    · rw [List.append_nil]
      exact h
    · rename_i hretx
      split
      · refine h.congr _ rfl rfl rfl rfl rfl ?_
        split
        · exact ⟨rfl, rfl, rfl, fun _ => rfl⟩
        · exact .nil
      · rename_i hcounter
        exact h.expire (hok (by simpa using hretx) hcounter)
  | periodicTimer =>
    change Inv s.handlePeriodicTimerExpire.1 (trace ++ s.handlePeriodicTimerExpire.2)
    unfold Scb.handlePeriodicTimerExpire
    split
    · rename_i hclean
      split
      · exact h.congr _ rfl rfl rfl rfl rfl .nil
      · rename_i hcount
        exact h.freeScb (hok hclean hcount)
    · rw [List.append_nil]
      exact h

theorem serialized {s₀ : Scb} (h : Inv s trace)
    (hfreed : (freed trace ++ s.held).Perm (s₀.held ++ dataOf (requested trace))) : Serialized s₀ s trace where
  oneUnanswered := by
    rw [h.oneOut]
    split <;> simp
  accounted := h.pending.accounted
  inOrder := h.pending.inOrder
  noneWaits := by
    rw [h.oneOut]
    split
    · exact fun hnone => absurd hnone (List.cons_ne_nil _ _)
    · rename_i hs
      exact fun _ => h.queue (Bool.eq_false_iff.mpr hs)
  freed := hfreed

end Inv

variable {trace : List Effect}

theorem freed_process {s₀ s : Scb}
    (h : (freed trace ++ s.held).Perm (s₀.held ++ dataOf (requested trace))) (env : Env) (msg : Msg) :
    (freed (trace ++ (s.process env msg).2) ++ (s.process env msg).1.held).Perm
      (s₀.held ++ dataOf (requested (trace ++ (s.process env msg).2))) := by
  rw [freed_append, requested_append, dataOf_append, s.requested_process, List.append_assoc,
    ← List.append_assoc s₀.held]
  refine ((s.conserves_process env msg).append_left (freed trace)).trans ?_
  rw [← List.append_assoc]
  exact h.append_right _

theorem Inv.run {s₀ s : Scb} {msgs : List (Env × Msg)} (h : Inv s trace)
    (hfreed : (freed trace ++ s.held).Perm (s₀.held ++ dataOf (requested trace))) (hok : RunOk s msgs) :
    AlwaysSerialized s₀ s trace msgs := by
  induction msgs generalizing s trace with
  | nil => trivial
  | cons m msgs ih =>
    obtain ⟨env, msg⟩ := m
    have hstep := h.process msg hok.1
    have hfreed := freed_process hfreed env msg
    exact ⟨hstep.serialized hfreed, ih hstep hfreed hok.2⟩

theorem inv_init {s : Scb} (hs : s.Fresh) : Inv s [] where
  pending := ⟨by simp [hs.2, requested, sent, failed], by simp [hs.2, requested, sent]⟩
  named := by simp [hs.2]
  oneOut := by
    rw [hs.1]
    rfl
  method := by simp [hs.1]
  queue := fun _ => hs.2

/-- **NOTIFYs are serialised.** From a subscription without NOTIFYs, in a run whose messages are fine, at most
one NOTIFY is not answered, a request is sent or reported once and in its order, none waits while no NOTIFY is
out, and the event data is freed once. -/
theorem alwaysSerialized (s : Scb) (msgs : List (Env × Msg)) (hs : s.Fresh) (hok : RunOk s msgs) :
    AlwaysSerialized s s [] msgs :=
  (inv_init hs).run (by simp [freed, requested, dataOf]) hok

/-! ## Runs -/

/-- Outside of the subscription all is well. -/
def env : Env :=
  { config := { sipRetx := 10, timerSubscribeDelta := 5, transport := .udp } }

/-- A subscription that the network has asked for. -/
def subscription : Scb :=
  { subId := some 7, smState := .rcvdSubscribe, subsNotCallbackTask := some 1 }

/-- The application asks for a NOTIFY. -/
def ask (id : ℕ) : Env × Msg :=
  (env, .appNotify { id, subId := 7, eventData := some id, notifyResultCallback := true })

/-- The last NOTIFY is answered. -/
def answer (cseq : UInt32) (responseCode : ℕ) : Env × Msg :=
  (env, .sipResponse .notify cseq responseCode true true)

/-- A second request waits for the response to the first one, which is asked to give its credentials. -/
theorem alwaysSerialized_two : AlwaysSerialized subscription subscription []
    [ask 0, ask 1, answer 1000 100, answer 1000 401, answer 1001 200, answer 1002 200] :=
  alwaysSerialized _ _ (by decide) (by decide +kernel)

/-- The state and the trace after messages. -/
def after : Scb → List Effect → List (Env × Msg) → Scb × List Effect
  | s, trace, [] => (s, trace)
  | s, trace, (env, msg) :: msgs =>
    let (s', effects) := s.process env msg
    after s' (trace ++ effects) msgs

theorem AlwaysSerialized.last {s₀ s : Scb} {msgs : List (Env × Msg)} {m : Env × Msg}
    (h : AlwaysSerialized s₀ s trace (msgs ++ [m])) :
    Serialized s₀ (after s trace (msgs ++ [m])).1 (after s trace (msgs ++ [m])).2 := by
  induction msgs generalizing s trace with
  | nil => exact h.1
  | cons m' msgs ih => exact ih h.2

/-- NOTIFYs are not always serialised. A provisional response puts the first of two requests behind the
second. A request that cannot be sent leaves the one behind it. A 401 without credentials leaves the queue. When
the application has ended the subscription a provisional response lets a second NOTIFY out. A subscription that
is ended at once forgets its queue. -/
theorem not_alwaysSerialized :
    (¬ AlwaysSerialized subscription subscription [] ([ask 0, ask 1, ask 2, answer 1000 100] ++ [answer 1000 200])) ∧
    (¬ AlwaysSerialized subscription subscription [] ([ask 0, ask 1, ask 2] ++
      [({ env with outcome := .refused }, .sipResponse .notify 1000 200 true true)])) ∧
    (¬ AlwaysSerialized subscription subscription [] ([ask 0, ask 1] ++
      [(env, .sipResponse .notify 1000 401 true false)])) ∧
    (¬ AlwaysSerialized subscription subscription [] ([ask 0, ask 1, (env, .appTerminated false)] ++
      [answer 1000 100])) ∧
    ¬ AlwaysSerialized subscription subscription [] ([ask 0, ask 1] ++ [(env, .appTerminated true)]) := by
  refine ⟨fun h => ?_, fun h => ?_, fun h => ?_, fun h => ?_, fun h => ?_⟩
  · have horder := h.last.inOrder
    revert horder
    decide +kernel
  · have hwaits := h.last.noneWaits
    revert hwaits
    decide +kernel
  · have hwaits := h.last.noneWaits
    revert hwaits
    decide +kernel
  · have hone := h.last.oneUnanswered
    revert hone
    decide +kernel
  · have haccounted := h.last.accounted.length_eq
    revert haccounted
    decide +kernel

end Sip.Notify
