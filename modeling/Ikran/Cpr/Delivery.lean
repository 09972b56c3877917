import Ikran.Cpr.MessageQueue
import Mathlib.Data.List.Basic

/-!
# Delivery of messages

A message queue delivers what is sent to it, in order and once, whichever of its two queues a message goes
through. What the receiver has returned, what it has in hand, the system queue and the extended queue are
together the messages that were sent.

The extended queue is used only while the system queue is full, and each message that is received makes room
for one of it. Hence the receiver does not wait while the extended queue has messages.

The count of the messages lags behind: a message that the receiver has taken is counted until the receiver
has locked the mutex. It is a number of sixteen bits.
-/

namespace Cpr

variable {α : Type} {capacity : ℕ+}

/-! ## Queues -/

namespace MsgQueue

variable {q : MsgQueue α} {m : Message α} {n : ℕ}

/-- The messages of a queue, from the oldest on. -/
def contents (q : MsgQueue α) : List (Message α) :=
  q.system ++ q.extended.reverse

/-- The numbers of a queue are right, with `n` messages that are counted and have been taken. -/
structure Ok (q : MsgQueue α) (n : ℕ) : Prop where
  depth : q.extendedQDepth.toNat = q.extended.length
  bound : q.extendedQDepth ≤ q.maxExtendedQDepth
  count : q.currentCount = UInt16.ofNat (q.contents.length + n)

/-- The system queue takes a message. -/
def posted (q : MsgQueue α) (m : Message α) : MsgQueue α :=
  { q with system := q.system ++ [m], currentCount := q.currentCount + 1 }

def postedExtended (q : MsgQueue α) (m : Message α) : MsgQueue α :=
  { q with
    extended := m :: q.extended
    extendedQDepth := q.extendedQDepth + 1
    currentCount := q.currentCount + 1 }

@[simp]
theorem contents_postedExtended : (q.postedExtended m).contents = q.contents ++ [m] := by
  simp [contents, postedExtended]

theorem contents_posted (h : q.extended = []) : (q.posted m).contents = q.contents ++ [m] := by
  simp [contents, posted, h]

theorem ofNat_length_append_singleton (l : List (Message α)) (n : ℕ) :
    UInt16.ofNat ((l ++ [m]).length + n) = UInt16.ofNat (l.length + n) + 1 := by
  rw [List.length_append, List.length_singleton, Nat.add_right_comm, UInt16.ofNat_add]
  rfl

theorem Ok.extendedQDepth_eq_zero_iff (h : q.Ok n) : q.extendedQDepth = 0 ↔ q.extended = [] := by
  rw [← UInt16.toNat_inj, h.depth]
  simp

theorem ok_create (depth : UInt16) : (cprCreateMessageQueue depth : MsgQueue α).Ok 0 := ⟨rfl, UInt16.zero_le, rfl⟩

theorem Ok.posted (h : q.Ok n) (he : q.extended = []) : (q.posted m).Ok n := by
  refine ⟨h.depth, h.bound, ?_⟩
  rw [contents_posted he, ofNat_length_append_singleton, ← h.count]
  rfl

theorem Ok.postedExtended (h : q.Ok n) (hlt : q.extendedQDepth < q.maxExtendedQDepth) : (q.postedExtended m).Ok n := by
  have hnat := UInt16.lt_iff_toNat_lt.1 hlt
  have hmax := q.maxExtendedQDepth.toNat_lt
  have hsucc : (q.extendedQDepth + 1).toNat = q.extendedQDepth.toNat + 1 := by
    rw [UInt16.toNat_add]
    exact Nat.mod_eq_of_lt (by simp; omega)
  refine ⟨?_, ?_, ?_⟩
  · simpa [MsgQueue.postedExtended, hsucc] using h.depth
  · exact UInt16.le_iff_toNat_le.2 (hsucc ▸ hnat)
  · rw [contents_postedExtended, ofNat_length_append_singleton, ← h.count]
    rfl

/-- What an attempt to send does: nothing, or one of the queues takes the message, the extended queue only
behind other messages of its own or a full system queue. -/
theorem Ok.cprSendAttempt_cases (h : q.Ok n) (capacity : ℕ+) (m : Message α) (own memory : Bool) :
    (∃ rc, rc ≠ some .success ∧ q.cprSendAttempt capacity m own memory = (q, rc)) ∨
    (q.extended = [] ∧ q.cprSendAttempt capacity m own memory = (q.posted m, some .success)) ∨
    ((q.extended ≠ [] ∨ q.system ≠ []) ∧ q.extendedQDepth < q.maxExtendedQDepth ∧
      q.cprSendAttempt capacity m own memory = (q.postedExtended m, some .success)) := by
  have hzero := h.extendedQDepth_eq_zero_iff
  by_cases hdepth : q.extendedQDepth = 0
  · by_cases hroom : q.system.length < capacity
    · refine .inr (.inl ⟨hzero.1 hdepth, ?_⟩)
      simp [cprSendAttempt, hdepth, cprPostMessage, hroom, MsgQueue.posted]
    have hfull : q.system ≠ [] := by
      rintro hnil
      exact hroom (by simp [hnil])
    by_cases hmax : q.maxExtendedQDepth = 0
    · refine .inl ⟨none, by simp, ?_⟩
      simp [cprSendAttempt, hdepth, cprPostMessage, hroom, hmax]
    cases memory with
    | false =>
      refine .inl ⟨some .failure, by simp, ?_⟩
      simp [cprSendAttempt, hdepth, cprPostMessage, hroom, hmax, cprPostExtendedQMsg]
    | true =>
      refine .inr (.inr ⟨.inr hfull, ?_, ?_⟩)
      · rw [hdepth]
        exact UInt16.pos_iff_ne_zero.2 hmax
      · simp [cprSendAttempt, hdepth, cprPostMessage, hroom, hmax, cprPostExtendedQMsg, MsgQueue.postedExtended]
  · have hne : q.extended ≠ [] := fun hnil => hdepth (hzero.2 hnil)
    by_cases hlt : q.extendedQDepth < q.maxExtendedQDepth
    · cases memory with
      | false =>
        refine .inl ⟨some .failure, by simp, ?_⟩
        simp [cprSendAttempt, hdepth, hlt, cprPostExtendedQMsg]
      | true =>
        refine .inr (.inr ⟨.inl hne, hlt, ?_⟩)
        simp [cprSendAttempt, hdepth, hlt, cprPostExtendedQMsg, MsgQueue.postedExtended]
    · refine .inl ⟨if own then some .failure else none, by split <;> simp, ?_⟩
      cases own <;> simp [cprSendAttempt, hdepth, hlt]

theorem Ok.cprMoveMsgToQueue (h : q.Ok n) (hne : q.extended ≠ []) (capacity : ℕ+) :
    (q.cprMoveMsgToQueue capacity).Ok n ∧ (q.cprMoveMsgToQueue capacity).contents = q.contents ∧
      (q.cprMoveMsgToQueue capacity).system ≠ [] := by
  have hlast := List.getLast?_eq_some_getLast hne
  by_cases hroom : q.system.length < capacity
  · have hmove : q.cprMoveMsgToQueue capacity = { q with
          system := q.system ++ [q.extended.getLast hne]
          extended := q.extended.dropLast
          extendedQDepth := q.extendedQDepth - 1 } := by
      simp [MsgQueue.cprMoveMsgToQueue, hlast, cprPostMessage, hroom]
    have hcontents : (q.cprMoveMsgToQueue capacity).contents = q.contents := by
      have hback := congrArg List.reverse (List.dropLast_append_getLast hne)
      rw [List.reverse_append] at hback
      rw [hmove, contents, contents, ← hback]
      simp
    have hpos : 0 < q.extended.length := List.length_pos_iff.2 hne
    have hpred : (q.extendedQDepth - 1).toNat = q.extendedQDepth.toNat - 1 :=
      UInt16.toNat_sub_of_le _ _ (UInt16.le_iff_toNat_le.2 (by simp [h.depth]; omega))
    refine ⟨⟨?_, ?_, ?_⟩, hcontents, ?_⟩
    · simp [hmove, hpred, h.depth]
    · rw [hmove, UInt16.le_iff_toNat_le, hpred]
      exact (Nat.sub_le _ _).trans (UInt16.le_iff_toNat_le.1 h.bound)
    · rw [hcontents, ← h.count, hmove]
    · simp [hmove]
  · have hmove : q.cprMoveMsgToQueue capacity = q := by
      simp [MsgQueue.cprMoveMsgToQueue, hlast, cprPostMessage, hroom]
    rw [hmove]
    exact ⟨h, rfl, fun hnil => hroom (by simp [hnil])⟩

end MsgQueue

namespace Receiver

def hand : Receiver α → List (Message α)
  | .idle | .waiting _ => []
  | .taken m | .counted m | .reposting m => [m]

/-- The number of messages that the receiver has taken and not counted. -/
def uncounted : Receiver α → ℕ
  | .taken _ => 1
  | _ => 0

end Receiver

namespace State

variable {s s' : State α}

/-- The messages are delivered in order and once. The depth of the extended queue is right and within its
bound, and the count is right but for a message that the receiver has not counted yet. The receiver does not
wait while the extended queue has messages. -/
structure Delivers (s : State α) : Prop where
  inOrder : s.received ++ s.receiver.hand ++ s.queue.contents = s.sent
  ok : s.queue.Ok s.receiver.uncounted
  notBlocked : s.Blocked → s.queue.extended = []

/-- What holds in every state. -/
structure Inv (s : State α) : Prop where
  inOrder : s.received ++ s.receiver.hand ++ s.queue.contents = s.sent
  ok : s.queue.Ok s.receiver.uncounted
  behind : s.queue.extended ≠ [] → s.receiver.hand = [] → s.queue.system ≠ []
  reposting : ∀ m, s.receiver = .reposting m → s.queue.extended ≠ []

theorem Inv.toDelivers (h : s.Inv) : s.Delivers where
  inOrder := h.inOrder
  ok := h.ok
  notBlocked := by
    rintro ⟨hwaiting, hempty⟩
    by_contra hne
    exact h.behind hne (by simp [hwaiting, Receiver.hand]) hempty

theorem inv_init (depth : UInt16) : (init depth : State α).Inv where
  inOrder := rfl
  ok := MsgQueue.ok_create depth
  behind := fun hne => absurd rfl hne
  reposting := by simp [init]

@[simp]
theorem sent_finish (s : State α) (thread : ℕ) (m : Message α) (rc : CprRC) :
    (s.finish thread m rc).sent = s.sent ++ if rc = .success then [m] else [] := by
  cases rc <;> simp [sent, finish]

/-! ## Steps -/

theorem attempt_of_ne (thread : ℕ) {call : SendCall α} {memory : Bool} {rc : Option CprRC} (hrc : rc ≠ some .success)
    (h : s.queue.cprSendAttempt capacity call.message call.own memory = (s.queue, rc)) :
    let s' := s.attempt capacity thread call memory
    s'.queue = s.queue ∧ s'.receiver = s.receiver ∧ s'.received = s.received ∧ s'.sent = s.sent := by
  simp only [attempt, h]
  cases rc with
  | none => by_cases hagain : 1 < call.attemptsToSend <;> simp [hagain, finish, sent]
  | some rc =>
    have hrc : rc ≠ .success := by simpa using hrc
    simpa [finish, hrc] using sent_finish s thread call.message rc

theorem attempt_of_eq (thread : ℕ) {call : SendCall α} {memory : Bool} {queue : MsgQueue α}
    (h : s.queue.cprSendAttempt capacity call.message call.own memory = (queue, some .success)) :
    let s' := s.attempt capacity thread call memory
    s'.queue = queue ∧ s'.receiver = s.receiver ∧ s'.received = s.received ∧ s'.sent = s.sent ++ [call.message] := by
  simp only [attempt, h]
  exact ⟨rfl, rfl, rfl, sent_finish _ thread call.message .success⟩

theorem Inv.attempt (h : s.Inv) (capacity : ℕ+) (thread : ℕ) (call : SendCall α) (memory : Bool) :
    (s.attempt capacity thread call memory).Inv := by
  obtain ⟨rc, hrc, heq⟩ | ⟨hnil, heq⟩ | ⟨hbehind, hlt, heq⟩ :=
    h.ok.cprSendAttempt_cases capacity call.message call.own memory
  · obtain ⟨hqueue, hreceiver, hreceived, hsent⟩ := attempt_of_ne thread hrc heq
    refine ⟨?_, ?_, ?_, ?_⟩ <;> rw [hqueue, hreceiver]
    · rw [hreceived, hsent, h.inOrder]
    · exact h.ok
    · exact h.behind
    · exact h.reposting
  · obtain ⟨hqueue, hreceiver, hreceived, hsent⟩ := attempt_of_eq thread heq
    refine ⟨?_, ?_, ?_, ?_⟩ <;> rw [hqueue, hreceiver]
    · rw [hreceived, hsent, MsgQueue.contents_posted hnil, ← h.inOrder, List.append_assoc _ _ [_]]
    · exact h.ok.posted hnil
    · exact fun hne => absurd hnil hne
    · exact h.reposting
  · obtain ⟨hqueue, hreceiver, hreceived, hsent⟩ := attempt_of_eq thread heq
    refine ⟨?_, ?_, ?_, ?_⟩ <;> rw [hqueue, hreceiver]
    · rw [hreceived, hsent, MsgQueue.contents_postedExtended, ← h.inOrder, List.append_assoc _ _ [_]]
    · exact h.ok.postedExtended hlt
    · exact fun _ hhand => hbehind.elim (fun hne => h.behind hne hhand) id
    · exact fun m _ => List.cons_ne_nil _ _

/-- **A step keeps the messages in order.** -/
theorem Inv.step (h : s.Inv) {e : Event α} (hstep : s.step capacity e = some s') : s'.Inv := by
  obtain ⟨horder, hok, hbehind, hreposting⟩ := h
  cases e with
  | send thread message own =>
    simp only [State.step] at hstep
    split at hstep
    · obtain rfl := Option.some.inj hstep
      exact ⟨horder, hok, hbehind, hreposting⟩
    · cases hstep
  | attempt thread memory =>
    simp only [State.step, Option.map_eq_some_iff] at hstep
    obtain ⟨call, -, rfl⟩ := hstep
    exact Inv.attempt ⟨horder, hok, hbehind, hreposting⟩ capacity thread call memory
  | get waitForever =>
    cases hr : s.receiver with
    | idle =>
      simp only [State.step, hr, Option.some.injEq] at hstep
      subst hstep
      simp only [hr, Receiver.hand, Receiver.uncounted] at horder hok hbehind
      exact ⟨horder, hok, fun hne _ => hbehind hne trivial, by simp⟩
    | _ => simp [State.step, hr] at hstep
  | receive =>
    cases hr : s.receiver with
    | waiting waitForever =>
      simp only [hr, Receiver.hand, Receiver.uncounted] at horder hok hbehind
      cases hsystem : s.queue.system with
      | nil =>
        cases waitForever with
        | false =>
          simp only [State.step, hr, hsystem, Option.some.injEq] at hstep
          subst hstep
          exact ⟨horder, hok, fun hne _ => hbehind hne trivial, by simp⟩
        | true => simp [State.step, hr, hsystem] at hstep
      | cons m rest =>
        simp only [State.step, hr, hsystem, Option.some.injEq] at hstep
        subst hstep
        refine ⟨?_, ⟨hok.depth, hok.bound, ?_⟩, by simp [Receiver.hand], by simp⟩
        · simpa [Receiver.hand, MsgQueue.contents, hsystem, sent] using horder
        · -- it is counted still
          rw [hok.count]
          simp [MsgQueue.contents, hsystem, Receiver.uncounted]
    | _ => simp [State.step, hr] at hstep
  | count =>
    cases hr : s.receiver with
    | taken m =>
      simp only [State.step, hr, Option.some.injEq] at hstep
      subst hstep
      simp only [hr, Receiver.hand, Receiver.uncounted] at horder hok
      refine ⟨horder, ⟨hok.depth, hok.bound, ?_⟩, by simp [Receiver.hand], by simp⟩
      have hcount := hok.count
      rw [UInt16.ofNat_add] at hcount
      simp only [hcount, Receiver.uncounted, Nat.add_zero]
      exact UInt16.add_sub_cancel _ _
    | _ => simp [State.step, hr] at hstep
  | look =>
    cases hr : s.receiver with
    | counted m =>
      simp only [State.step, hr] at hstep
      simp only [hr, Receiver.hand, Receiver.uncounted] at horder hok
      split_ifs at hstep with hdepth
      · obtain rfl := Option.some.inj hstep
        have hne : s.queue.extended ≠ [] := fun hnil => hdepth (hok.extendedQDepth_eq_zero_iff.2 hnil)
        exact ⟨horder, hok, by simp [Receiver.hand], fun _ _ => hne⟩
      · obtain rfl := Option.some.inj hstep
        have hnil := hok.extendedQDepth_eq_zero_iff.1 (not_not.1 hdepth)
        refine ⟨?_, hok, fun hne => absurd hnil hne, by simp⟩
        simpa [Receiver.hand, sent] using horder
    | _ => simp [State.step, hr] at hstep
  | move =>
    cases hr : s.receiver with
    | reposting m =>
      simp only [State.step, hr, Option.some.injEq] at hstep
      subst hstep
      simp only [hr, Receiver.hand, Receiver.uncounted] at horder hok
      obtain ⟨hok', hcontents, hsystem⟩ := hok.cprMoveMsgToQueue (hreposting m hr) capacity
      refine ⟨?_, hok', fun _ _ => hsystem, by simp⟩
      simpa [Receiver.hand, hcontents, sent] using horder
    | _ => simp [State.step, hr] at hstep

theorem Inv.run (h : s.Inv) {events : List (Event α)} (hrun : s.run capacity events = some s') : s'.Inv := by
  induction events generalizing s with
  | nil =>
    obtain rfl := Option.some.inj hrun
    exact h
  | cons e events ih =>
    simp only [State.run, Option.bind_eq_some_iff] at hrun
    obtain ⟨s₁, hstep, hrun⟩ := hrun
    exact ih (h.step hstep) hrun

theorem Reachable.inv {depth : UInt16} (h : Reachable capacity depth s) : s.Inv :=
  let ⟨_, hrun⟩ := h
  (inv_init depth).run hrun

/-! ## The receiver goes on -/

/-- How far the receiver is from having received everything. -/
def remaining (s : State α) : ℕ :=
  5 * (s.queue.system.length + s.queue.extended.length) +
    match s.receiver with
    | .idle => 1
    | .waiting _ => 0
    | .taken _ => 4
    | .counted _ => 3
    | .reposting _ => 2

theorem Inv.exists_step (h : s.Inv) (capacity : ℕ+) (hne : s.received ≠ s.sent) :
    ∃ e s', e.ofReceiver = true ∧ s.step capacity e = some s' ∧ s'.sent = s.sent ∧ s'.remaining < s.remaining := by
  cases hr : s.receiver with
  | idle =>
    refine ⟨.get false, { s with receiver := .waiting false }, rfl, ?_, rfl, ?_⟩
    · simp [State.step, hr]
    · simp [remaining, hr]
  | waiting waitForever =>
    cases hsystem : s.queue.system with
    | nil =>
      -- nothing is left behind the system queue
      have hnil : s.queue.extended = [] := by
        by_contra hext
        exact h.behind hext (by simp [hr, Receiver.hand]) hsystem
      have horder := h.inOrder
      simp only [hr, Receiver.hand, MsgQueue.contents, hsystem, hnil] at horder
      exact absurd (by simpa using horder) hne
    | cons m rest =>
      refine ⟨.receive, { s with queue.system := rest, receiver := .taken m }, rfl, ?_, rfl, ?_⟩
      · simp [State.step, hr, hsystem]
      · simp [remaining, hr, hsystem]
        omega
  | taken m =>
    refine ⟨.count, { s with queue.currentCount := s.queue.currentCount - 1, receiver := .counted m }, rfl, ?_, rfl, ?_⟩
    · simp [State.step, hr]
    · simp [remaining, hr]
  | counted m =>
    by_cases hdepth : s.queue.extendedQDepth = 0
    · refine ⟨.look, { s with receiver := .idle, received := s.received ++ [m] }, rfl, ?_, rfl, ?_⟩
      · simp [State.step, hr, hdepth]
      · simp [remaining, hr]
    · refine ⟨.look, { s with receiver := .reposting m }, rfl, ?_, rfl, ?_⟩
      · simp [State.step, hr, hdepth]
      · simp [remaining, hr]
  | reposting m =>
    refine ⟨.move, { s with
      queue := s.queue.cprMoveMsgToQueue capacity
      receiver := .idle
      received := s.received ++ [m] }, rfl, ?_, rfl, ?_⟩
    · simp [State.step, hr]
    · obtain ⟨-, hcontents, -⟩ := h.ok.cprMoveMsgToQueue (h.reposting m hr) capacity
      have hlen := congrArg List.length hcontents
      simp only [MsgQueue.contents, List.length_append, List.length_reverse] at hlen
      simp [remaining, hr, hlen]

/-- **What was sent is received**, once the receiver goes on alone. -/
theorem Inv.exists_run (h : s.Inv) (capacity : ℕ+) :
    ∃ events s', (∀ e ∈ events, e.ofReceiver = true) ∧ s.run capacity events = some s' ∧
      s'.sent = s.sent ∧ s'.received = s.sent := by
  induction hn : s.remaining using Nat.strong_induction_on generalizing s with
  | _ n ih =>
    by_cases hdone : s.received = s.sent
    · exact ⟨[], s, by simp, rfl, rfl, hdone⟩
    obtain ⟨e, s₁, he, hstep, hsent, hlt⟩ := h.exists_step capacity hdone
    obtain ⟨events, s₂, hevents, hrun, hsent₂, hreceived⟩ := ih _ (hn ▸ hlt) (h.step hstep) rfl
    refine ⟨e :: events, s₂, ?_, ?_, hsent₂.trans hsent, hreceived.trans hsent⟩
    · simpa [he] using hevents
    · simp [State.run, hstep, hrun]

/-- **Message queues are FIFO and lossless.** In every state that is reached by any number of senders and
one receiver, whatever the system queue holds and the depth that was asked for:

- the messages for which `cprSendMessage` returns `CPR_SUCCESS` are what the receiver has returned, then
  what it has in hand, then what the queues hold, in this order,
- the depth of the extended queue is the number of its messages and is within its bound,
- the count is the number of messages in the two queues with the one that the receiver has taken and not
  counted, as a number of sixteen bits,
- the receiver does not wait for the system queue while the extended queue has messages, and
- the receiver can go on to receive all that was sent. -/
theorem delivers (capacity : ℕ+) (depth : UInt16) (s : State α) (h : s.Reachable capacity depth) :
    s.Delivers ∧ ∃ events s', (∀ e ∈ events, e.ofReceiver = true) ∧
      s.run capacity events = some s' ∧ s'.sent = s.sent ∧ s'.received = s.sent :=
  ⟨h.inv.toDelivers, h.inv.exists_run capacity⟩

/-- Three messages are sent to a queue that takes one. -/
def overflow : List (Event ℕ) :=
  [.send 1 { msg := 10 } false, .attempt 1 true, .send 2 { msg := 20 } false, .attempt 2 true,
    .send 1 { msg := 30 } false, .attempt 1 true, .get true, .receive, .count, .look, .move]

theorem delivers_overflow :
    ∃ s, (init 33).run 1 overflow = some s ∧ s.received = [{ msg := 10 }] ∧ s.Delivers :=
  ⟨_, rfl, rfl, (delivers 1 33 _ ⟨overflow, rfl⟩).1⟩

/-- **The count is not always the number of messages**: a message that has been taken from the system queue
is counted until the receiver has locked the mutex. -/
theorem not_currentCount_eq :
    ¬ ∀ (capacity : ℕ+) (depth : UInt16) (s : State ℕ), s.Reachable capacity depth →
      s.queue.currentCount.toNat = s.queue.system.length + s.queue.extended.length := by
  intro h
  have htaken := h 1 33 _ ⟨[.send 1 { msg := 10 } false, .attempt 1 true, .get true, .receive], rfl⟩
  exact absurd htaken (by decide)

end State

end Cpr
