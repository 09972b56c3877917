import Mathlib.Data.PNat.Defs

/-!
# Message queues

The message queues of `cpr_linux_ipc.c`. A message queue is a queue of the system, which takes a number of
messages, with a list for the messages that it does not take (the extended queue). Any number of threads
send to a queue, and one thread receives from it.

A critical section under the mutex of the queue is one step. The receiver takes a message from the system
queue, counts it and looks at the depth of the extended queue outside of it, in steps of their own. The
statistics that no function reads are left out.
-/

namespace Cpr

variable {α : Type}

/-! ## Queues -/

/-- A message with the data of its sender (`struct msgbuffer`, `cpr_msgq_node_t`). -/
structure Message (α : Type) where
  msg : α
  usrPtr : Option α := none
  deriving DecidableEq

/-- `cpr_msgq_post_result_e`. -/
inductive PostResult
  | success
  | failed
  | pending

/-- `cprRC_t`. -/
inductive CprRC
  | success
  | failure
  deriving DecidableEq

/-- A message queue (`cpr_msg_queue_t`). -/
structure MsgQueue (α : Type) where
  system : List (Message α) := []
  currentCount : UInt16 := 0
  extendedQDepth : UInt16 := 0
  maxExtendedQDepth : UInt16
  /-- The extended queue from `head`, the newest message, to `tail`, the oldest. -/
  extended : List (Message α) := []

def osMsgtql : UInt16 := 31

def cprMaxMsgQDepth : UInt16 := 256

def cprAttemptsToSend : ℕ := 25

/-- A new queue, whose depth is brought into its bounds (`cprCreateMessageQueue`). -/
def cprCreateMessageQueue (depth : UInt16) : MsgQueue α where
  maxExtendedQDepth := max osMsgtql (min depth cprMaxMsgQDepth) - osMsgtql

namespace MsgQueue

variable (capacity : ℕ+) (q : MsgQueue α) (m : Message α)

/-- A message is posted to the system queue, which is not full (`cprPostMessage`). -/
def cprPostMessage : MsgQueue α × PostResult :=
  if q.system.length < capacity then
    ({ q with system := q.system ++ [m], currentCount := q.currentCount + 1 }, .success)
  else (q, .pending)

/-- A message is posted to the extended queue, when there is memory for it (`cprPostExtendedQMsg`). -/
def cprPostExtendedQMsg (memory : Bool) : MsgQueue α × PostResult :=
  if memory then
    ({ q with
        extended := m :: q.extended
        extendedQDepth := q.extendedQDepth + 1
        currentCount := q.currentCount + 1 }, .success)
  else (q, .failed)

/-- The oldest message of the extended queue is moved to the system queue (`cprMoveMsgToQueue`). -/
def cprMoveMsgToQueue : MsgQueue α :=
  match q.extended.getLast? with
  | none => q
  | some node =>
    match q.cprPostMessage capacity node with
    | (q, .success) =>
      { q with
        extended := q.extended.dropLast
        extendedQDepth := q.extendedQDepth - 1
        -- it was counted before
        currentCount := q.currentCount - 1 }
    | (q, _) => q

/-- An attempt to send a message, with what the call returns, or nothing when it is tried again (the loop of
`cprSendMessage`). The sender may be the thread of the queue. -/
def cprSendAttempt (own memory : Bool) : MsgQueue α × Option CprRC :=
  if q.extendedQDepth ≠ 0 then
    if q.extendedQDepth < q.maxExtendedQDepth then
      match q.cprPostExtendedQMsg m memory with
      | (q, .success) => (q, some .success)
      | (q, _) => (q, some .failure)
    else if own then (q, some .failure)
    else (q, none)
  else
    let (q, rc) :=
      match q.cprPostMessage capacity m with
      | (q, .pending) => if q.maxExtendedQDepth ≠ 0 then q.cprPostExtendedQMsg m memory else (q, .pending)
      | posted => posted
    match rc with
    | .success => (q, some .success)
    | .failed => (q, some .failure)
    | .pending => (q, none)

end MsgQueue

/-! ## Calls -/

/-- A call of `cprSendMessage`. -/
structure SendCall (α : Type) where
  message : Message α
  own : Bool
  attemptsToSend : ℕ := cprAttemptsToSend

/-- How far the receiver is in `cprGetMessage`. -/
inductive Receiver (α : Type)
  | idle
  | waiting (waitForever : Bool)
  | taken (m : Message α)
  | counted (m : Message α)
  | reposting (m : Message α)

/-- A message queue with the calls that are in progress. -/
structure State (α : Type) where
  queue : MsgQueue α
  receiver : Receiver α := .idle
  senders : ℕ → Option (SendCall α) := fun _ => none
  /-- The messages of the calls of `cprSendMessage`, with what these return, in the order in which they are
  posted or given up. -/
  results : List (Message α × CprRC) := []
  /-- What the calls of `cprGetMessage` have returned. -/
  received : List (Message α) := []

/-- A step of a sender or of the receiver. -/
inductive Event (α : Type)
  /-- A thread calls `cprSendMessage`. -/
  | send (thread : ℕ) (message : Message α) (own : Bool)
  | attempt (thread : ℕ) (memory : Bool)
  /-- The receiver calls `cprGetMessage`. -/
  | get (waitForever : Bool)
  | receive
  | count
  | look
  | move

def Event.ofReceiver : Event α → Bool
  | .send .. | .attempt .. => false
  | .get _ | .receive | .count | .look | .move => true

namespace State

variable (capacity : ℕ+)

/-- A queue before its first message. -/
def init (depth : UInt16) : State α where
  queue := cprCreateMessageQueue depth

/-- The messages for which `cprSendMessage` returns `CPR_SUCCESS`. -/
def sent (s : State α) : List (Message α) :=
  (s.results.filter fun r => r.2 = .success).map Prod.fst

/-- A call of a thread returns. -/
def finish (s : State α) (thread : ℕ) (m : Message α) (rc : CprRC) : State α :=
  { s with
    senders := Function.update s.senders thread none
    results := s.results ++ [(m, rc)] }

/-- A thread attempts to send its message, and gives up after the last attempt. -/
def attempt (s : State α) (thread : ℕ) (call : SendCall α) (memory : Bool) : State α :=
  match s.queue.cprSendAttempt capacity call.message call.own memory with
  | (queue, some rc) => { s with queue }.finish thread call.message rc
  | (queue, none) =>
    if 1 < call.attemptsToSend then
      { s with
        queue
        senders := Function.update s.senders thread
          (some { call with attemptsToSend := call.attemptsToSend - 1 }) }
    else { s with queue }.finish thread call.message .failure

/-- A step, when it is possible: the receiver does not go on while it waits for a message. -/
def step (s : State α) : Event α → Option (State α)
  | .send thread message own =>
    match s.senders thread with
    | none => some { s with senders := Function.update s.senders thread (some { message, own }) }
    | some _ => none
  | .attempt thread memory => (s.senders thread).map fun call => s.attempt capacity thread call memory
  | .get waitForever =>
    match s.receiver with
    | .idle => some { s with receiver := .waiting waitForever }
    | _ => none
  | .receive =>
    match s.receiver, s.queue.system with
    | .waiting _, m :: rest => some { s with queue.system := rest, receiver := .taken m }
    -- no message, and `NULL` is returned
    | .waiting false, [] => some { s with receiver := .idle }
    | _, _ => none
  | .count =>
    match s.receiver with
    | .taken m =>
      some { s with queue.currentCount := s.queue.currentCount - 1, receiver := .counted m }
    | _ => none
  | .look =>
    match s.receiver with
    | .counted m =>
      if s.queue.extendedQDepth ≠ 0 then some { s with receiver := .reposting m }
      else some { s with receiver := .idle, received := s.received ++ [m] }
    | _ => none
  | .move =>
    match s.receiver with
    | .reposting m =>
      some { s with
        queue := s.queue.cprMoveMsgToQueue capacity
        receiver := .idle
        received := s.received ++ [m] }
    | _ => none

/-- What a sequence of steps leads to, when each of them is possible. -/
def run : State α → List (Event α) → Option (State α)
  | s, [] => some s
  | s, e :: events => (s.step capacity e).bind fun s => run s events

/-- A state that is reached from a new queue. -/
def Reachable (depth : UInt16) (s : State α) : Prop :=
  ∃ events, (init depth).run capacity events = some s

/-- The receiver waits for a message, and the system queue has none. -/
def Blocked (s : State α) : Prop :=
  s.receiver = .waiting true ∧ s.queue.system = []

end State

end Cpr
