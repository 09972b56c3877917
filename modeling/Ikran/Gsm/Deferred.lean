import Ikran.Gsm.Dcsm

/-!
# Deferred events

The task of `gsm.c` with the queue of `dcsm.c`. While a call is in transition, the events by which the
user starts or takes a call are put into a queue. After each message that the task has taken, one event
of the queue is handed to the machines, unless a call is still in transition. When the last call leaves
its transition, the task sends a message without a buffer to itself, to be woken up for the queue. The
task takes such a message for no message.

What the machines do with an event is an argument: the changes of state that the list of calls is told,
and the messages that are sent.
-/

namespace Gsm

/-- The features that `dcsm_wait_ev_feature_handling` looks at. -/
inductive Feature
  | answer
  | newCall
  | redial
  | resume
  | join
  | other
  deriving DecidableEq

/-- The messages that start a call or that the table of `dcsm.c` has a handler for, and the others. -/
inductive MsgId
  | feature (ftrId : Feature)
  | setup
  | offhook
  | line
  | dialstring
  | other
  deriving DecidableEq

/-- A call control message. -/
structure Event where
  buffer : ℕ
  msgId : MsgId
  bwCallId : ℕ := 0
  fromGsm : Bool := false
  deriving DecidableEq

/-- The answer of `dcsm_wait_ev_feature_handling`: whether the feature is put into the queue. -/
def Feature.deferred : Feature → Bool
  | .answer | .newCall | .redial | .resume | .join => true
  | .other => false

/-- The events that are put into the queue while a call is in transition. -/
def Event.deferrable (e : Event) : Bool :=
  match e.msgId with
  | .feature ftrId => ftrId.deferred
  | .offhook | .dialstring => true
  | .setup | .line | .other => false

/-- A message of the task: an event, or something else that the machines are told about, such as a timer.
-/
inductive Cmd
  | event (e : Event)
  | job
  deriving DecidableEq

/-- What happens while a message is handled. -/
inductive Effect
  | setState (state : DcsmState)
  | send (cmd : Cmd)

/-- The task, with what has happened to the events that can be deferred. -/
structure GsmTask where
  /-- The messages for the task. The message by which it wakes itself up has no buffer. -/
  inbox : List (Option Cmd) := []
  state : DcsmState := .ready
  /-- The queue of deferred events (`s_msg_list`). -/
  deferred : List Event := []
  jobsDue : Bool := false
  arrived : List Event := []
  processed : List Event := []

/-- An action of the task, or of somebody who sends to it. -/
inductive Action
  | send (cmd : Cmd)
  | take (effects : List Effect)
  | jobs (effects : List Effect)

namespace GsmTask

variable (s : GsmTask)

/-- The list of calls becomes ready or waiting (`dcsm_update_gsm_state`). -/
def setState (state : DcsmState) : GsmTask :=
  if state = .ready ∧ s.deferred ≠ [] then { s with state, inbox := s.inbox ++ [none] }
  else { s with state }

/-- One thing happens while a message is handled. -/
def effect (s : GsmTask) : Effect → GsmTask
  | .setState state => s.setState state
  | .send cmd => { s with inbox := s.inbox ++ [some cmd] }

/-- Whether the event is put into the queue (`dcsm_process_event`): the table has handlers for the state
in which the list waits. -/
def dcsmProcessEvent (e : Event) : Bool :=
  match s.state with
  | .ready => false
  | .waiting => e.deferrable

/-- An event is handed to the machines, unless it is put into the queue (`fim_process_event`). -/
def fimProcessEvent (e : Event) (effects : List Effect) : GsmTask :=
  if s.dcsmProcessEvent e then { s with deferred := s.deferred ++ [e] }
  else
    let processed := if e.deferrable then s.processed ++ [e] else s.processed
    effects.foldl effect { s with processed }

/-- A message is handled (`gsm_process_msg`). -/
def gsmProcessMsg (effects : List Effect) : Cmd → GsmTask
  | .event e =>
    let arrived := if e.deferrable then s.arrived ++ [e] else s.arrived
    { s with arrived }.fimProcessEvent e effects
  | .job => effects.foldl effect s

/-- The first of the deferred events is replayed, while no call is in transition
(`dcsm_do_ready_state_job`). -/
def dcsmDoReadyStateJob (effects : List Effect) : GsmTask :=
  match s.state, s.deferred with
  | .ready, e :: es => { s with deferred := es }.fimProcessEvent e effects
  | _, _ => s

/-- An action, where it can be taken. The task blocks while it has no message. -/
def step : Action → Option GsmTask
  | .send cmd => some { s with inbox := s.inbox ++ [some cmd] }
  | .take effects =>
    if s.jobsDue then none else
    match s.inbox with
    | [] => none
    | none :: rest => some { s with inbox := rest }
    | some cmd :: rest => some { { s with inbox := rest }.gsmProcessMsg effects cmd with jobsDue := true }
  | .jobs effects =>
    if s.jobsDue then some { s.dcsmDoReadyStateJob effects with jobsDue := false } else none

def run (s : GsmTask) (actions : List Action) : Option GsmTask :=
  actions.foldlM step s

/-- The deferred events are replayed: those that were taken are the ones handed to the machines followed
by those in the queue, and the queue is empty where the task blocks with no call in transition. -/
structure Replayed : Prop where
  inOrder : s.arrived = s.processed ++ s.deferred
  drained : s.jobsDue = false → s.inbox = [] → s.state = .ready → s.deferred = []

/-- The state of the list of calls after what happens while a message is handled. -/
def finalState (effects : List Effect) (state : DcsmState) : DcsmState :=
  effects.foldl (fun state effect =>
    match effect with
    | .setState state => state
    | .send _ => state) state

/-- The replay of an event that is not the last one of the queue leaves a call in transition. -/
def ReplayOk : Action → Prop
  | .jobs effects =>
    s.state = .ready → 2 ≤ s.deferred.length → finalState effects .ready = .waiting
  | _ => True

/-- Every replay of a run is as above. -/
def RunOk : GsmTask → List Action → Prop
  | _, [] => True
  | s, a :: as => s.ReplayOk a ∧ ∀ s' ∈ s.step a, RunOk s' as

instance decidableReplayOk (s : GsmTask) : (a : Action) → Decidable (s.ReplayOk a)
  | .jobs effects => inferInstanceAs (Decidable
      (s.state = .ready → 2 ≤ s.deferred.length → finalState effects .ready = .waiting))
  | .send _ => .isTrue trivial
  | .take _ => .isTrue trivial

instance decidableRunOk : (s : GsmTask) → (as : List Action) → Decidable (RunOk s as)
  | _, [] => .isTrue trivial
  | s, a :: as =>
    have : DecidablePred (RunOk · as) := fun s' => decidableRunOk s' as
    inferInstanceAs (Decidable (s.ReplayOk a ∧ ∀ s' ∈ s.step a, RunOk s' as))

/-! ## What happens while a message is handled -/

variable {s}

theorem foldl_effect (effects : List Effect) (s : GsmTask) :
    (effects.foldl effect s).deferred = s.deferred ∧ (effects.foldl effect s).arrived = s.arrived ∧
      (effects.foldl effect s).processed = s.processed ∧
      (effects.foldl effect s).state = finalState effects s.state := by
  induction effects generalizing s with
  | nil => exact ⟨rfl, rfl, rfl, rfl⟩
  | cons e effects ih =>
    obtain ⟨hdeferred, harrived, hprocessed, hstate⟩ := ih (effect s e)
    simp only [List.foldl_cons, finalState] at hstate ⊢
    rw [hdeferred, harrived, hprocessed, hstate]
    cases e with
    | send cmd => exact ⟨rfl, rfl, rfl, rfl⟩
    | setState state =>
      rw [effect, setState]
      split <;> exact ⟨rfl, rfl, rfl, rfl⟩

theorem dcsmProcessEvent_iff {e : Event} : s.dcsmProcessEvent e = true ↔ s.state = .waiting ∧ e.deferrable = true := by
  rw [dcsmProcessEvent]
  cases s.state <;> simp

theorem fimProcessEvent_of_deferred {e : Event} (h : s.dcsmProcessEvent e = true) (effects : List Effect) :
    s.fimProcessEvent e effects = { s with deferred := s.deferred ++ [e] } := by
  rw [fimProcessEvent, if_pos h]

theorem fimProcessEvent_of_not_deferred {e : Event} (h : ¬ s.dcsmProcessEvent e = true) (effects : List Effect) :
    (s.fimProcessEvent e effects).deferred = s.deferred ∧ (s.fimProcessEvent e effects).arrived = s.arrived ∧
      (s.fimProcessEvent e effects).processed =
        (if e.deferrable then s.processed ++ [e] else s.processed) ∧
      (s.fimProcessEvent e effects).state = finalState effects s.state := by
  rw [fimProcessEvent, if_neg h]
  exact foldl_effect effects _

/-- What is true between two actions. -/
structure Inv (s : GsmTask) : Prop where
  inOrder : s.arrived = s.processed ++ s.deferred
  drained : s.jobsDue = false → s.state = .ready → s.deferred = []
  deferrable : ∀ e ∈ s.deferred, e.deferrable = true

/-- The order and the kind of the events, whatever the task does next. -/
def Ordered (s : GsmTask) : Prop :=
  s.arrived = s.processed ++ s.deferred ∧ ∀ e ∈ s.deferred, e.deferrable = true

theorem Inv.gsmProcessMsg (h : s.Inv) (hdue : s.jobsDue = false) (effects : List Effect) (cmd : Cmd) :
    (s.gsmProcessMsg effects cmd).Ordered := by
  cases cmd with
  | job =>
    obtain ⟨hdeferred, harrived, hprocessed, -⟩ := foldl_effect effects s
    rw [GsmTask.gsmProcessMsg, Ordered, hdeferred, harrived, hprocessed]
    exact ⟨h.inOrder, h.deferrable⟩
  | event e =>
    let s₁ : GsmTask := { s with arrived := if e.deferrable then s.arrived ++ [e] else s.arrived }
    change (s₁.fimProcessEvent e effects).Ordered
    by_cases hqueued : s.dcsmProcessEvent e = true
    · have hqueued' : s₁.dcsmProcessEvent e = true := hqueued
      -- an event that is deferred comes behind the others
      have hkind := (dcsmProcessEvent_iff.mp hqueued).2
      rw [fimProcessEvent_of_deferred hqueued']
      refine ⟨?_, fun e' he' => ?_⟩
      · simp only [s₁, hkind, if_true]
        rw [h.inOrder, List.append_assoc]
      · rcases List.mem_append.mp he' with hmem | hmem
        · exact h.deferrable e' hmem
        · rwa [List.mem_singleton.mp hmem]
    · have hqueued' : ¬ s₁.dcsmProcessEvent e = true := hqueued
      obtain ⟨hdeferred, harrived, hprocessed, -⟩ := fimProcessEvent_of_not_deferred hqueued' effects
      rw [Ordered, hdeferred, harrived, hprocessed]
      refine ⟨?_, h.deferrable⟩
      simp only [s₁]
      cases hkind : e.deferrable with
      | false => exact h.inOrder
      | true =>
        -- the event was not deferred, as no call is in transition, and so there is none before it
        have hready : s.state = .ready := by
          cases hstate : s.state with
          | ready => rfl
          | waiting => exact absurd (dcsmProcessEvent_iff.mpr ⟨hstate, hkind⟩) hqueued
        have hempty := h.drained hdue hready
        have hinOrder := h.inOrder
        rw [hempty, List.append_nil] at hinOrder
        simp only [if_true, hinOrder, hempty, List.append_nil]

theorem Inv.dcsmDoReadyStateJob (h : s.Inv) {effects : List Effect} (hok : s.ReplayOk (.jobs effects)) :
    (s.dcsmDoReadyStateJob effects).Ordered ∧ ((s.dcsmDoReadyStateJob effects).state = .ready →
        (s.dcsmDoReadyStateJob effects).deferred = []) := by
  rw [GsmTask.dcsmDoReadyStateJob]
  split
  next e es hstate hqueue =>
    have hkind : e.deferrable = true := h.deferrable e (hqueue ▸ List.mem_cons_self)
    have hnot : ¬ GsmTask.dcsmProcessEvent { s with deferred := es } e = true := fun hq =>
      absurd (hstate.symm.trans (dcsmProcessEvent_iff.mp hq).1) (by simp)
    obtain ⟨hdeferred, harrived, hprocessed, hfinal⟩ := fimProcessEvent_of_not_deferred hnot effects
    rw [Ordered, hdeferred, harrived, hprocessed, hfinal]
    refine ⟨⟨?_, fun e' he' => h.deferrable e' (hqueue ▸ List.mem_cons_of_mem e he')⟩,
      fun hready => ?_⟩
    · simp only [hkind, if_true]
      rw [h.inOrder, hqueue, List.append_assoc, List.singleton_append]
    · -- the event was the last one, or its replay leaves a call in transition
      cases es with
      | nil => rfl
      | cons e' es =>
        have hwaiting := hok hstate (by rw [hqueue]; simp)
        rw [hstate, hwaiting] at hready
        exact absurd hready (by simp)
  next hother =>
    refine ⟨⟨h.inOrder, h.deferrable⟩, fun hready => ?_⟩
    cases hqueue : s.deferred with
    | nil => rfl
    | cons e es => exact absurd hqueue (hother e es hready)

/-- What an action keeps, when a replay of an event that is not the last one leaves a call in transition.
-/
theorem Inv.step {s' : GsmTask} {a : Action} (h : s.Inv) (hok : s.ReplayOk a) (hstep : s.step a = some s') :
    s'.Inv := by
  cases a with
  | send cmd =>
    obtain rfl := Option.some.inj hstep
    exact ⟨h.inOrder, h.drained, h.deferrable⟩
  | take effects =>
    rw [GsmTask.step] at hstep
    split at hstep
    next => exact absurd hstep (by simp)
    next hdue =>
      have hdue : s.jobsDue = false := by simpa using hdue
      split at hstep
      next => exact absurd hstep (by simp)
      next rest _ =>
        obtain rfl := Option.some.inj hstep
        exact ⟨h.inOrder, h.drained, h.deferrable⟩
      next cmd rest _ =>
        obtain rfl := Option.some.inj hstep
        have hinv : Inv { s with inbox := rest } := ⟨h.inOrder, h.drained, h.deferrable⟩
        obtain ⟨hinOrder, hkinds⟩ := hinv.gsmProcessMsg hdue effects cmd
        exact ⟨hinOrder, fun hnot => absurd hnot (by simp), hkinds⟩
  | jobs effects =>
    rw [GsmTask.step] at hstep
    split at hstep
    next =>
      obtain rfl := Option.some.inj hstep
      obtain ⟨⟨hinOrder, hkinds⟩, hdrained⟩ := h.dcsmDoReadyStateJob hok
      exact ⟨hinOrder, fun _ => hdrained, hkinds⟩
    next => exact absurd hstep (by simp)

/-! ## Every run -/

theorem Inv.run {s' : GsmTask} {actions : List Action} (h : s.Inv) (hok : s.RunOk actions)
    (hrun : s.run actions = some s') : s'.Inv := by
  induction actions generalizing s with
  | nil =>
    obtain rfl := Option.some.inj hrun
    exact h
  | cons a actions ih =>
    rw [GsmTask.run, List.foldlM_cons, Option.bind_eq_bind, Option.bind_eq_some_iff] at hrun
    obtain ⟨s₁, hstep, hrun⟩ := hrun
    exact ih (h.step hok.1 hstep) (hok.2 s₁ hstep) hrun

/-- **Deferred events.** In a run in which the replay of an event that is not the last one of the queue
leaves a call in transition, the events are handed to the machines once each and in the order in which they
arrived, and the task does not block with an event in the queue while no call is in transition. -/
theorem replayed_of_ok {actions : List Action} {s : GsmTask} (hrun : run {} actions = some s)
    (hok : RunOk {} actions) : s.Replayed := by
  have hinit : Inv {} := ⟨rfl, fun _ _ => rfl, fun e he => absurd he List.not_mem_nil⟩
  have hinv := hinit.run hok hrun
  exact ⟨hinv.inOrder, fun hdue _ hready => hinv.drained hdue hready⟩

/-- An off-hook of the user. -/
def offhook (buffer : ℕ) : Event :=
  { buffer, msgId := .offhook }

/-- A call connects, the user goes off-hook, and the call is connected. -/
def oneDeferred : List Action :=
  [.send .job, .take [.setState .waiting], .jobs [],
    .send (.event (offhook 1)), .take [], .jobs [],
    .send .job, .take [.setState .ready], .jobs []]

/-- One event is replayed. -/
theorem replayed_oneDeferred :
    (run {} oneDeferred).map processed = some [offhook 1] ∧
      ∀ s, run {} oneDeferred = some s → s.Replayed := by
  exact ⟨by decide, fun s hrun => replayed_of_ok hrun (by decide)⟩

/-- A call connects, the user goes off-hook twice, and the call is connected. -/
def twoDeferred : List Action :=
  [.send .job, .take [.setState .waiting], .jobs [],
    .send (.event (offhook 1)), .take [], .jobs [],
    .send (.event (offhook 2)), .take [], .jobs [],
    .send .job, .take [.setState .ready], .jobs [], .take []]

/-- The second of two events is forgotten: the task blocks with no call in transition. -/
theorem not_replayed :
    ¬ ∀ (actions : List Action) (s : GsmTask), run {} actions = some s → s.Replayed := by
  intro h
  have hblocked : (run {} twoDeferred).map (fun s => (s.jobsDue, s.inbox, s.state, s.deferred)) =
      some (false, [], .ready, [offhook 2]) := by decide
  obtain ⟨s, hrun, hs⟩ := Option.map_eq_some_iff.mp hblocked
  simp only [Prod.mk.injEq] at hs
  obtain ⟨hdue, hinbox, hready, hdeferred⟩ := hs
  rw [(h twoDeferred s hrun).drained hdue hinbox hready] at hdeferred
  exact absurd hdeferred (by simp)

end GsmTask

end Gsm
