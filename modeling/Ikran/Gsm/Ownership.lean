import Ikran.Gsm.Cac
import Ikran.Gsm.Deferred

/-!
# Ownership of messages

Who owns the buffer of a call control message, in `gsm.c`, `fim.c`, `fsmcac.c` and `dcsm.c`. The answer of
`fim_process_event` says whether its caller releases the message. A message that it keeps is in the queue
of deferred events, or in a record of the requests for bandwidth.

What the machines do with a message is an argument: the state of the list of calls after it, and the calls
that are released.
-/

namespace Gsm

/-- The messages that bandwidth is requested for, in `fim_process_event`. -/
def Event.needsBandwidth (e : Event) : Bool :=
  !e.fromGsm &&
    match e.msgId with
    | .setup | .offhook | .dialstring | .line | .feature .newCall => true
    | .feature _ | .other => false

/-- Those who own messages, with what has happened to the messages. -/
structure Owner where
  state : DcsmState := .ready
  /-- The queue of deferred events (`s_msg_list`). -/
  deferred : List Event := []
  cac : Cac Event := {}
  delivered : List Event := []
  released : List Event := []
  down : Bool := false

/-- What the environment and the machines decide while a message is handled. -/
structure Handling where
  /-- Whether the network is a wireless one (`platWlanISActive`). -/
  wlan : Bool := false
  ok : Bool := true
  state : DcsmState := .ready
  calls : List ℕ := []

namespace Owner

variable (s : Owner)

/-- Whether the event is put into the queue (`dcsm_process_event`). -/
def dcsmProcessEvent (e : Event) : Bool :=
  match s.state with
  | .ready => false
  | .waiting => e.deferrable

def machines (h : Handling) : Owner :=
  { s with
    state := h.state
    cac := h.calls.foldl Cac.fsmCacCallReleaseCleanup s.cac }

/-- A message is deferred, held until there is bandwidth for it, or handed to the machines. The answer is
whether the caller releases it (`fim_process_event`). -/
def fimProcessEvent (e : Event) (h : Handling) : Bool × Owner :=
  if s.dcsmProcessEvent e then (false, { s with deferred := s.deferred ++ [e] })
  else if h.wlan && e.needsBandwidth then
    let req := s.cac.fsmCacCallBandwidthReq e.bwCallId e h.ok
    (!req.1, { s with cac := req.2 })
  else (true, s.machines h)

/-- The message is released where the answer says so (`fim_free_event` and `cprReleaseBuffer`). -/
def releaseIf (s : Owner) (e : Event) (release : Bool) : Owner :=
  if release then { s with released := s.released ++ [e] } else s

/-- A message is handled by those who do not keep it, and released. -/
def handle (s : Owner) (e : Event) (h : Handling) : Owner :=
  let result := s.fimProcessEvent e h
  result.2.releaseIf e result.1

/-- A message is delivered (`gsm_process_msg`). -/
def deliver (s : Owner) (e : Event) : Owner :=
  { s with delivered := s.delivered ++ [e] }

/-- The first of the deferred events is replayed (`dcsm_do_ready_state_job`). -/
def dcsmDoReadyStateJob (h : Handling) : Owner :=
  match s.state, s.deferred with
  | .ready, e :: es => { s with deferred := es }.handle e h
  | _, _ => s

/-- The bandwidth of the first record is granted. Its message is handed to the machines, or deferred, and
freed with the record whatever `fim_process_event` answers. -/
def availResp (answered : ℕ) (h : Handling) (alloc : Cac.Alloc) : Owner :=
  match s.cac.list with
  | [] => s
  | r :: _ =>
    if r.cacState = .reqPending ∧ s.dcsmProcessEvent r.msgPtr = false then
      { s with
        state := h.state
        cac := s.cac.fsmCacProcessBwAvailResp answered h.calls alloc }
    else
      let deferred := if r.cacState = .reqPending then s.deferred ++ [r.msgPtr] else s.deferred
      { s with
        deferred
        cac := s.cac.fsmCacProcessBwAvailResp answered [] alloc }

/-- The call control is shut down (`gsm_shutdown`). The walk of `dcsm_shutdown` through the queue steps to
the next message before it frees one. -/
def gsmShutdown : Owner :=
  { s with
    cac := s.cac.fsmCacClearList
    released := s.released ++ s.deferred.tail
    deferred := []
    down := true }

inductive Action
  | deliver (e : Event) (h : Handling)
  | availResp (e : Event) (answered : ℕ) (h : Handling) (alloc : Cac.Alloc)
  | failedResp (e : Event) (answered : ℕ) (alloc : Cac.Alloc)
  | failTimer (timer : ℕ) (alloc : Cac.Alloc)
  | job (h : Handling)
  | jobs (h : Handling)
  | shutdown

/-- An action. After the shutdown, a message is released and nothing else happens. -/
def step (s : Owner) : Action → Owner
  | .deliver e h => if s.down then (s.deliver e).releaseIf e true else (s.deliver e).handle e h
  | .availResp e answered h alloc =>
    (if s.down then s.deliver e else (s.deliver e).availResp answered h alloc).releaseIf e true
  | .failedResp e answered alloc =>
    (if s.down then s.deliver e
      else { s.deliver e with cac := s.cac.fsmCacProcessBwFailedResp answered alloc }).releaseIf e true
  | .failTimer timer alloc =>
    if s.down then s else { s with cac := s.cac.fsmCacProcessBwFailTimer timer alloc }
  | .job h => if s.down then s else s.machines h
  | .jobs h => if s.down then s else s.dcsmDoReadyStateJob h
  | .shutdown => if s.down then s else s.gsmShutdown

def run (s : Owner) (actions : List Action) : Owner :=
  actions.foldl step s

/-- Each message that was delivered is in the queue, is held by a record, or was released with its record
or by the task, in one of these places and once. After the shutdown it was released. -/
structure Owned : Prop where
  once : ∀ e, s.deferred.count e + s.cac.messages.count e + s.released.count e = s.delivered.count e
  atEnd : s.down = true → s.deferred = [] ∧ s.cac.list = []

/-- The bandwidth for a message is not refused at once, where no record waits. -/
def RequestOk (e : Event) (h : Handling) : Prop :=
  s.dcsmProcessEvent e = false → h.wlan = true → e.needsBandwidth = true →
    s.cac.fsmCacCheckIfPendingReq = none → h.ok = true

/-- A message for which there is bandwidth is not deferred, and its replay does not release the call that
waits next when the bandwidth for that is refused. -/
def GrantOk (h : Handling) (alloc : Cac.Alloc) : Prop :=
  ∀ r ∈ s.cac.list.head?, r.cacState = .reqPending → s.dcsmProcessEvent r.msgPtr = false ∧
    ∀ n ∈ s.cac.list.tail.head?, alloc.ok = false → n.callId ∉ h.calls

def StepOk : Action → Prop
  | .deliver e h => s.down = false → s.RequestOk e h
  | .availResp _ _ h alloc => s.down = false → s.GrantOk h alloc
  | .jobs h => s.down = false → s.state = .ready → ∀ e ∈ s.deferred.head?, s.RequestOk e h
  | .shutdown => s.down = false → s.deferred = []
  | .failedResp .. | .failTimer .. | .job _ => True

instance (e : Event) (h : Handling) : Decidable (s.RequestOk e h) :=
  inferInstanceAs (Decidable (_ → _ → _ → _ → _))

instance (h : Handling) (alloc : Cac.Alloc) : Decidable (s.GrantOk h alloc) :=
  inferInstanceAs (Decidable (∀ r ∈ s.cac.list.head?, r.cacState = .reqPending →
    s.dcsmProcessEvent r.msgPtr = false ∧
      ∀ n ∈ s.cac.list.tail.head?, alloc.ok = false → n.callId ∉ h.calls))

instance decidableStepOk (s : Owner) : (a : Action) → Decidable (s.StepOk a)
  | .deliver e h => inferInstanceAs (Decidable (s.down = false → s.RequestOk e h))
  | .availResp _ _ h alloc => inferInstanceAs (Decidable (s.down = false → s.GrantOk h alloc))
  | .jobs h => inferInstanceAs (Decidable (s.down = false → s.state = .ready →
      ∀ e ∈ s.deferred.head?, s.RequestOk e h))
  | .shutdown => inferInstanceAs (Decidable (s.down = false → s.deferred = []))
  | .failedResp .. => .isTrue trivial
  | .failTimer .. => .isTrue trivial
  | .job _ => .isTrue trivial

/-- The condition on a sequence of actions. -/
def RunOk : Owner → List Action → Prop
  | _, [] => True
  | s, a :: as => s.StepOk a ∧ RunOk (s.step a) as

instance decidableRunOk : (s : Owner) → (as : List Action) → Decidable (RunOk s as)
  | _, [] => .isTrue trivial
  | s, a :: as =>
    have := decidableRunOk (s.step a) as
    inferInstanceAs (Decidable (s.StepOk a ∧ RunOk (s.step a) as))

variable {s}

/-! ## A message is handled -/

/-- What is true between two actions. -/
structure Inv (s : Owner) : Prop where
  distinct : s.cac.Distinct
  owned : s.Owned

/-- The messages whose owner is looked for. -/
def count (s : Owner) (e : Event) : ℕ :=
  s.deferred.count e + s.cac.messages.count e + s.released.count e

theorem machines_spec (hd : s.cac.Distinct) (h : Handling) :
    (s.machines h).cac.Distinct ∧ ∀ e, (s.machines h).count e = s.count e := by
  obtain ⟨hmoved, -⟩ := hd.foldl_release h.calls
  refine ⟨hmoved.distinct, fun e => ?_⟩
  simp only [count, machines]
  rw [hmoved.messages.count_eq e]

variable {h : Handling}

theorem handle_spec (hd : s.cac.Distinct) {e : Event} (hok : s.RequestOk e h) :
    (s.handle e h).cac.Distinct ∧ ∀ e', (s.handle e h).count e' = s.count e' + [e].count e' := by
  rw [handle, fimProcessEvent]
  split
  next =>
    refine ⟨hd, fun e' => ?_⟩
    simp only [releaseIf, Bool.false_eq_true, if_false, count, List.count_append]
    omega
  next hqueued =>
    split
    next hneeds =>
      rw [Bool.and_eq_true] at hneeds
      obtain ⟨hdistinct, hcases⟩ := hd.fsmCacCallBandwidthReq e.bwCallId e h.ok
      generalize s.cac.fsmCacCallBandwidthReq e.bwCallId e h.ok = result at hdistinct hcases
      obtain ⟨held, cac⟩ := result
      refine ⟨by cases held <;> exact hdistinct, fun e' => ?_⟩
      rcases hcases with ⟨hmessages, hheld | ⟨hnone, hfalse⟩⟩ | ⟨hmessages, hheld⟩
      · -- the record has the message
        obtain rfl : held = true := hheld
        have hcount := hmessages.count_eq e'
        simp only [releaseIf, Bool.not_true, Bool.false_eq_true, if_false, count] at hcount ⊢
        rw [hcount, ← List.singleton_append, List.count_append]
        omega
      · -- the message would be freed with its record and by the caller
        have hqueued' : s.dcsmProcessEvent e = false := by simpa using hqueued
        have htrue := hok hqueued' hneeds.1 hneeds.2 hnone
        exact absurd (htrue.symm.trans hfalse) (by simp)
      · -- the caller releases the message
        obtain rfl : held = false := hheld
        have hcount := hmessages.count_eq e'
        simp only [releaseIf, Bool.not_false, if_true, count, List.count_append] at hcount ⊢
        rw [hcount]
        omega
    next =>
      obtain ⟨hdistinct, hcount⟩ := machines_spec hd h
      refine ⟨hdistinct, fun e' => ?_⟩
      have hcount := hcount e'
      simp only [releaseIf, if_true, count, List.count_append] at hcount ⊢
      omega

theorem availResp_spec (hd : s.cac.Distinct) (answered : ℕ) {alloc : Cac.Alloc} (hok : s.GrantOk h alloc) :
    (s.availResp answered h alloc).cac.Distinct ∧ ∀ e, (s.availResp answered h alloc).count e = s.count e := by
  rw [availResp]
  split
  next => exact ⟨hd, fun _ => rfl⟩
  next r rest hlist =>
    have hgrant := hok r (by simp [hlist])
    split
    next hpending =>
      have hmoved := hd.fsmCacProcessBwAvailResp answered (hgrant hpending.1).2
      refine ⟨hmoved.distinct, fun e => ?_⟩
      simp only [count]
      rw [hmoved.messages.count_eq e]
    next hnot =>
      -- the record has not requested its bandwidth
      have hstate : r.cacState ≠ .reqPending := fun hpending =>
        hnot ⟨hpending, (hgrant hpending).1⟩
      have hmoved : Cac.Moved s.cac (s.cac.fsmCacProcessBwAvailResp answered [] alloc) :=
        hd.fsmCacProcessBwAvailResp answered fun _ _ _ => List.not_mem_nil
      refine ⟨hmoved.distinct, fun e => ?_⟩
      simp only [count, hstate, if_false]
      rw [hmoved.messages.count_eq e]

/-! ## An action -/

theorem Owned.count_eq (h : s.Owned) (e : Event) : s.count e = s.delivered.count e := h.once e

theorem releaseIf_count (s : Owner) (e e' : Event) : (s.releaseIf e true).count e' = s.count e' + [e].count e' := by
  simp only [releaseIf, if_true, count, List.count_append]
  omega

/-- What an action does to the messages: those of the list are delivered, and each is owned or released. -/
structure Balanced (s s' : Owner) (es : List Event) : Prop where
  distinct : s'.cac.Distinct
  count : ∀ e, s'.count e = s.count e + es.count e
  delivered : s'.delivered = s.delivered ++ es
  down : s'.down = s.down

theorem balanced_handle (hd : s.cac.Distinct) {e : Event} (hok : s.RequestOk e h) :
    Balanced s ((s.deliver e).handle e h) [e] := by
  obtain ⟨hdistinct, hcount⟩ := handle_spec (s := s.deliver e) hd hok
  refine ⟨hdistinct, hcount, ?_, ?_⟩ <;>
  · rw [handle, fimProcessEvent]
    split
    · rfl
    · split
      · rw [releaseIf]
        split <;> rfl
      · rfl

theorem Balanced.release {s' : Owner} (h : Balanced s s' []) (e : Event) :
    Balanced s ({ s' with delivered := s'.delivered ++ [e] }.releaseIf e true) [e] := by
  refine ⟨h.distinct, fun e' => ?_, ?_, h.down⟩
  · rw [releaseIf_count]
    have hcount := h.count e'
    simp only [Owner.count, List.count_nil, Nat.add_zero] at hcount ⊢
    rw [hcount]
  · simp only [releaseIf, if_true]
    rw [h.delivered, List.append_nil]

theorem balanced_of_moved {cac : Cac Event} (h : Cac.Moved s.cac cac) : Balanced s { s with cac } [] := by
  refine ⟨h.distinct, fun e => ?_, (List.append_nil _).symm, rfl⟩
  simp only [Owner.count, List.count_nil, Nat.add_zero]
  rw [h.messages.count_eq e]

theorem balanced_machines (hd : s.cac.Distinct) (h : Handling) : Balanced s (s.machines h) [] := by
  obtain ⟨hdistinct, hcount⟩ := machines_spec hd h
  exact ⟨hdistinct, hcount, (List.append_nil _).symm, rfl⟩

theorem balanced_availResp (hd : s.cac.Distinct) {answered : ℕ} {alloc : Cac.Alloc}
    (hok : s.GrantOk h alloc) : Balanced s (s.availResp answered h alloc) [] := by
  obtain ⟨hdistinct, hcount⟩ := availResp_spec hd answered hok
  refine ⟨hdistinct, hcount, ?_, ?_⟩ <;>
  · rw [Owner.availResp]
    split
    · simp
    · split <;> simp

theorem balanced_dcsmDoReadyStateJob (hd : s.cac.Distinct)
    (hok : s.state = .ready → ∀ e ∈ s.deferred.head?, s.RequestOk e h) :
    Balanced s (s.dcsmDoReadyStateJob h) [] := by
  rw [Owner.dcsmDoReadyStateJob]
  split
  next e es hready hqueue =>
    have hrequest : RequestOk { s with deferred := es } e h := hok hready e (by simp [hqueue])
    have hbalanced := balanced_handle (s := { s with deferred := es }) hd hrequest
    obtain ⟨hdistinct, hcount⟩ := handle_spec (s := { s with deferred := es }) hd hrequest
    refine ⟨hdistinct, fun e' => ?_, ?_, ?_⟩
    · -- the message leaves the queue, and has another owner
      rw [hcount e']
      simp only [Owner.count, hqueue, List.count_nil, Nat.add_zero, ← List.singleton_append (l := es),
        List.count_append]
      omega
    all_goals
      rw [handle, fimProcessEvent]
      split
      · simp [releaseIf]
      · split
        · rw [releaseIf]
          split <;> simp
        · simp [releaseIf, machines]
  next => exact ⟨hd, fun _ => by simp, (List.append_nil _).symm, rfl⟩

theorem Inv.of_balanced {s' : Owner} {es : List Event} (h : s.Inv) (hdown : s.down = false)
    (hb : Balanced s s' es) : s'.Inv := by
  refine ⟨hb.distinct, fun e => ?_, fun htrue => ?_⟩
  · have hold := h.owned.count_eq e
    have hnew := hb.count e
    rw [hb.delivered, List.count_append, ← hold, ← hnew]
    rfl
  · rw [hb.down, hdown] at htrue
    exact absurd htrue (by simp)

theorem Inv.step_of_down (h : s.Inv) (hdown : s.down = true) (a : Action) : (s.step a).Inv := by
  have hrelease : ∀ e, ((s.deliver e).releaseIf e true).Inv := fun e => by
    refine ⟨h.distinct, fun e' => ?_, fun _ => h.owned.atEnd hdown⟩
    have hcount := releaseIf_count (s.deliver e) e e'
    have hold := h.owned.count_eq e'
    have hdelivered : ((s.deliver e).releaseIf e true).delivered = s.delivered ++ [e] := rfl
    rw [hdelivered, List.count_append, ← hold]
    exact hcount
  cases a <;> simp only [Owner.step, hdown, if_true] <;> first | exact hrelease _ | exact h

theorem availResp_deliver (e : Event) (answered : ℕ) (h : Handling) (alloc : Cac.Alloc) :
    (s.deliver e).availResp answered h alloc = (s.availResp answered h alloc).deliver e := by
  cases hlist : s.cac.list with
  | nil =>
    have hs : s.availResp answered h alloc = s := by rw [Owner.availResp, hlist]
    have hd : (s.deliver e).availResp answered h alloc = s.deliver e := by
      rw [Owner.availResp, show (s.deliver e).cac = s.cac from rfl, hlist]
    rw [hs, hd]
  | cons r rs =>
    rw [Owner.availResp, Owner.availResp, show (s.deliver e).cac = s.cac from rfl, hlist]
    by_cases hc : r.cacState = .reqPending ∧ s.dcsmProcessEvent r.msgPtr = false
    · have hc' : r.cacState = .reqPending ∧ (s.deliver e).dcsmProcessEvent r.msgPtr = false := hc
      simp only [if_pos hc, if_pos hc']
      rfl
    · have hc' : ¬ (r.cacState = .reqPending ∧ (s.deliver e).dcsmProcessEvent r.msgPtr = false) := hc
      simp only [if_neg hc, if_neg hc']
      rfl

theorem Inv.step (h : s.Inv) {a : Action} (hok : s.StepOk a) : (s.step a).Inv := by
  cases hdown : s.down with
  | true => exact h.step_of_down hdown a
  | false =>
    have hd := h.distinct
    have hnot : ¬ s.down = true := by simp [hdown]
    cases a with
    | deliver e handling =>
      rw [Owner.step, if_neg hnot]
      exact h.of_balanced hdown (balanced_handle hd (hok hdown))
    | availResp e answered handling alloc =>
      rw [Owner.step, if_neg hnot, availResp_deliver]
      exact h.of_balanced hdown ((balanced_availResp hd (hok hdown)).release e)
    | failedResp e answered alloc =>
      rw [Owner.step, if_neg hnot]
      exact h.of_balanced hdown ((balanced_of_moved (hd.fsmCacProcessBwFailedResp answered alloc)).release e)
    | failTimer timer alloc =>
      rw [Owner.step, if_neg hnot]
      exact h.of_balanced hdown (balanced_of_moved (hd.fsmCacProcessBwFailTimer timer alloc))
    | job handling =>
      rw [Owner.step, if_neg hnot]
      exact h.of_balanced hdown (balanced_machines hd handling)
    | jobs handling =>
      rw [Owner.step, if_neg hnot]
      exact h.of_balanced hdown (balanced_dcsmDoReadyStateJob hd (hok hdown))
    | shutdown =>
      rw [Owner.step, if_neg hnot]
      have hclear := Cac.moved_fsmCacClearList s.cac
      refine ⟨hclear.distinct, fun e => ?_, fun _ => ⟨rfl, rfl⟩⟩
      -- the queue is empty, so that no message is passed over
      have hold := h.owned.once e
      simp only [gsmShutdown, hok hdown, List.tail_nil, List.append_nil] at hold ⊢
      rw [hclear.messages.count_eq e]
      exact hold

theorem Inv.run (h : s.Inv) {actions : List Action} (hok : s.RunOk actions) : (s.run actions).Inv := by
  induction actions generalizing s with
  | nil => exact h
  | cons a actions ih => exact ih (h.step hok.1) hok.2

/-- **Ownership of messages.** A message that was delivered has one owner until it is released, and is
released once and by the end, in every run in which the bandwidth for a message is not refused at once
where no record waits, a message for which there is bandwidth is not deferred and does not release the call
that waits next when that is refused, and no event is deferred at the shutdown. -/
theorem owned_of_ok {actions : List Action} (hok : RunOk {} actions) : (run {} actions).Owned := by
  have hinit : Inv {} :=
    ⟨⟨List.Pairwise.nil, fun a ha => absurd ha List.not_mem_nil⟩, fun _ => rfl, fun _ => ⟨rfl, rfl⟩⟩
  exact (hinit.run hok).owned

/-- A set-up that bandwidth is requested for. -/
def setup (buffer : ℕ) : Event :=
  { buffer, msgId := .setup, bwCallId := buffer }

/-- The message that says that the bandwidth is granted. -/
def granted (buffer : ℕ) : Event :=
  { buffer, msgId := .feature .other, fromGsm := true }

/-- Two calls are granted their bandwidth. -/
theorem owned_twoCalls :
    (run {} [.deliver (setup 1) { wlan := true }, .deliver (setup 2) { wlan := true },
        .availResp (granted 3) 0 {} {}, .availResp (granted 4) 1 {} {}, .shutdown]).cac.messages =
          [setup 1, setup 2] ∧
      (run {} [.deliver (setup 1) { wlan := true }, .deliver (setup 2) { wlan := true },
        .availResp (granted 3) 0 {} {}, .availResp (granted 4) 1 {} {}, .shutdown]).Owned := by
  refine ⟨by decide, owned_of_ok ?_⟩
  decide

/-- The message of a call that is refused its bandwidth at once is released with its record, and by the
task. -/
theorem not_owned : ¬ ∀ actions : List Action, (run {} actions).Owned := by
  intro h
  have hcount := (h [.deliver (setup 1) { wlan := true, ok := false }]).once (setup 1)
  revert hcount
  decide

end Owner

end Gsm
