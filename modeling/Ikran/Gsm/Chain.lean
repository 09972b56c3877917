import Ikran.Gsm.Dcsm
import Ikran.Gsm.Lines

/-!
# Processing of messages

`fim_process_event` of `fim.c` with the handlers of `fsmdef.c` for calls that are not there yet. A message
for a new call sets up a chain, which is counted on a line, and takes data for the call. The machines of
the chain are asked in turn, until one does not hand on the message. When the default machine asks for it,
the chain is cleaned up.

The handlers of the other states are scripts: what they do to the tables, and what they answer. A message
that is put into a queue before it gets to the machines is left out. It comes back as a message when it is
taken from the queue.
-/

namespace Gsm

/-- The features that are looked at before the machines are asked, and those of the idle state. -/
inductive FimFeature
  | newCall
  | select
  | dirtrxfr
  | b2bconf
  | cfwdAll
  | notify
  | endCall
  | other
  deriving DecidableEq

/-- The messages that `fim_process_event` and the idle state tell apart. -/
inductive FimMsgId
  | setup
  | offhook
  | dialstring
  | line
  | feature (featureId : FimFeature)
  | release
  | releaseComplete
  | other
  deriving DecidableEq

structure FimMsg where
  msgId : FimMsgId
  callId : CallId
  line : ℕ
  fromUiOrGsm : Bool := true
  calledNumber : Bool := true
  replaces : Bool := false
  /-- Whether a set-up joins a call to listen to it (`CC_FEAT_MONITOR`). -/
  monitor : Bool := false

/-- The answers to a request for a line (`cc_causes_t`). -/
inductive Cause
  | ok
  | busy
  | noResource
  | unassignedNum
  | error
  deriving DecidableEq

/-- The answers of a handler (`sm_rcs_t`). -/
inductive SmRc
  | error
  | success
  | cont
  | defCont
  | «end»
  | cleanup
  deriving DecidableEq

/-- A null pointer that is followed. -/
inductive Crash
  | cb
  | dcb
  deriving DecidableEq

/-- What becomes of a message. -/
inductive Outcome
  | ignored
  | refused
  | awaited
  | handled
  deriving DecidableEq

/-- What a handler of the default machine does to the tables. -/
inductive Move
  | changeState (state : FsmdefState)
  | useDcb
  | setSendRelease (sendRelease : Bool)
  /-- The call is released, and the answer of `fsmdef_release` is not looked at. -/
  | dropRelease

/-- How a handler of the default machine ends. -/
inductive Answer
  | rc (rc : SmRc)
  /-- With the answer of `fsmdef_release`. -/
  | release (sendRelease : Bool)

/-- How a set-up ends for which there is a line. -/
inductive SetupEnd
  /-- The call is ended by a message: it is anonymous, another call is active, or there is none to
  replace. -/
  | endCall
  | release
  | alert

/-- What a feature machine does with a message. -/
structure Visit where
  changes : List (FcbId × FsmdefState) := []
  handsOn : Bool := true

/-- What the environment and the handlers decide while a message is processed. -/
structure Decisions where
  /-- Whether the message is dropped because the user has to wait (`ui_locked`). -/
  filtered : Bool := false
  facility : Cause := .ok
  freeLine : ℕ := 1
  visit : FsmType → Visit := fun _ => {}
  setupEnd : SetupEnd := .alert
  moves : List Move := []
  answer : Answer := .rc .end

/-- The events by which a call is established. -/
def FimMsgId.Establishes (msgId : FimMsgId) : Prop :=
  msgId = .setup ∨ msgId = .offhook ∨ msgId = .dialstring ∨ msgId = .line ∨
    msgId = .feature .newCall

instance (msgId : FimMsgId) : Decidable msgId.Establishes :=
  inferInstanceAs (Decidable (_ ∨ _))

/-- The features that may need a new chain (`fim_check_feature_event`). -/
def FimMsgId.fimCheckFeatureEvent : FimMsgId → Bool
  | .feature .select | .feature .dirtrxfr | .feature .b2bconf | .feature .cfwdAll => true
  | _ => false

/-- The features that need data for the call before the machines are asked
(`fim_feature_need_outgoing_call_context`). -/
def FimMsgId.fimFeatureNeedOutgoingCallContext (msgId : FimMsgId) : Bool :=
  msgId ≠ .feature .notify

namespace Blocks

variable (s : Blocks)

/-- The data of a new call is taken and set, once a line has been looked for. -/
def fsmGetCallContext (callId : CallId) (line : ℕ) (fcb : Option FcbId) (facility : Cause) :
    Cause × Blocks :=
  match s.fsmdefGetNewDcb callId with
  | none => (.noResource, s)
  | some (d, s) =>
    let set := (s.fsmdefInitDcb d callId line fcb).fsmSetFcbDcbs d
    (if set.1 then facility else .error, set.2)

/-- The data of an outgoing call is taken (`fsm_get_new_outgoing_call_context`). -/
def fsmGetNewOutgoingCallContext (callId : CallId) (line : ℕ) (fcb : Option FcbId)
    (facility : Cause) : Cause × Blocks :=
  s.fsmGetCallContext callId (if facility = .ok then line else lsmNoLine) fcb facility

/-- The data of an incoming call is taken (`fsm_get_new_incoming_call_context`). Without a line, it is
set to the first one. -/
def fsmGetNewIncomingCallContext (callId : CallId) (fcb : Option FcbId) (facility : Cause)
    (freeLine : ℕ) : Cause × Blocks :=
  s.fsmGetCallContext callId (if facility = .ok then freeLine else 1) fcb facility

end Blocks

/-- The tables of the call control with the counters of the lines. -/
structure Fim extends CallControl where
  lines : Lines := fun _ => {}
  counted : ChnId → Option ℕ := fun _ => none

namespace Fim

variable (config : ℕ → LineConfig) (s : Fim)

/-! ## The default machine -/

def changeState (f : FcbId) (state : FsmdefState) : Fim :=
  { s with toCallControl := s.fsmChangeState f state }

/-- The tables are changed. -/
def setBlocks (blocks : Blocks) : Fim :=
  { s with blocks }

/-- The call of the chain has to be counted on the line, or on none. -/
def setCounted (k : ChnId) (line : Option ℕ) : Fim :=
  { s with counted := Function.update s.counted k line }

def count (line : ℕ) : Fim :=
  { s with lines := s.lines.increment config line }

/-- A call is not counted any more. -/
def uncount (line : ℕ) : Fim :=
  { s with lines := s.lines.decrement config line }

/-- The call is released (`fsmdef_release`). Where no release is sent, the data and the block are given
back, and the chain has to be cleaned up. -/
def fsmdefRelease (f : FcbId) (sendRelease : Bool) : Except Crash (SmRc × Fim) :=
  match (s.blocks.fcbs f).dcb with
  | none => .error .dcb
  | some d =>
    if sendRelease then .ok (.end, s.changeState f .releasing)
    else
      let s := s.changeState f .idle
      let s := s.setBlocks (s.blocks.fsmdefFreeDcb (some d))
      .ok (.cleanup, { s with toCallControl := s.fsmRelease f })

/-- A handler does one thing. -/
def move (s : Fim) (f : FcbId) : Move → Except Crash Fim
  | .changeState state => .ok (s.changeState f state)
  | .useDcb =>
    match (s.blocks.fcbs f).dcb with
    | none => .error .dcb
    | some _ => .ok s
  | .setSendRelease sendRelease =>
    match (s.blocks.fcbs f).dcb with
    | none => .error .dcb
    | some d => .ok (s.setBlocks (s.blocks.setDcb d { s.blocks.dcbs d with sendRelease }))
  | .dropRelease =>
    match (s.blocks.fcbs f).dcb with
    | none => .error .dcb
    | some d => (s.fsmdefRelease f (s.blocks.dcbs d).sendRelease).map Prod.snd

/-- A handler does the things of its script. -/
def moves (f : FcbId) : List Move → Fim → Except Crash Fim
  | [], s => .ok s
  | m :: ms, s =>
    match s.move f m with
    | .error crash => .error crash
    | .ok s => moves f ms s

/-- A handler ends. -/
def answer (s : Fim) (f : FcbId) : Answer → Except Crash (SmRc × Fim)
  | .rc rc => .ok (rc, s)
  | .release sendRelease => s.fsmdefRelease f sendRelease

def script (f : FcbId) (d : Decisions) : Except Crash (SmRc × Outcome × Fim) :=
  match moves f d.moves s with
  | .error crash => .error crash
  | .ok s => (s.answer f d.answer).map fun (rc, s) => (rc, .handled, s)

/-- The call of a set-up is counted on its line, or it is written down that it is not. -/
def countSetup (k : ChnId) (dcb : DcbId) (msg : FimMsg) : Fim :=
  if msg.monitor = false ∧ msg.replaces = false then
    (s.setCounted k (some (s.blocks.dcbs dcb).line)).count config (s.blocks.dcbs dcb).line
  else s.setBlocks (s.blocks.setDcb dcb
    { s.blocks.dcbs dcb with callNotCountedInMncBt := true })

/-- The call of a set-up has its data and its line. -/
def setUp (f : FcbId) (dcb : DcbId) (d : Decisions) : Except Crash (SmRc × Outcome × Fim) :=
  match d.setupEnd with
  | .endCall => .ok (.end, .awaited, s)
  | .release =>
    let s := s.setBlocks (s.blocks.setDcb dcb { s.blocks.dcbs dcb with sendRelease := true })
    (s.fsmdefRelease f true).map fun (rc, s) => (rc, .handled, s)
  | .alert =>
    let s := s.setBlocks (s.blocks.setDcb dcb { s.blocks.dcbs dcb with sendRelease := true })
    .ok (.end, .handled, s.changeState f .incomingAlerting)

/-- A set-up in the idle state (`fsmdef_ev_idle_setup`). A call that joins or replaces another one is not
counted. The others are counted before it is looked at whether there is a line for them. -/
def fsmdefEvIdleSetup (k : ChnId) (f : FcbId) (msg : FimMsg) (d : Decisions) :
    Except Crash (SmRc × Outcome × Fim) :=
  if msg.calledNumber = false then .ok (.cleanup, .refused, s) else
  let context := s.blocks.fsmGetNewIncomingCallContext msg.callId (some f) d.facility d.freeLine
  let s := s.setBlocks context.2
  match (s.blocks.fcbs f).dcb with
  | none => .error .dcb
  | some dcb =>
    let counted := s.countSetup config k dcb msg
    if msg.monitor = false ∧ msg.replaces = false ∧
        s.lines.isLineAvailable (s.blocks.dcbs dcb).line = false then
      .ok (.end, .awaited, counted)
    else
      match context.1 with
      | .ok => counted.setUp f dcb d
      | .noResource => .ok (.cleanup, .refused, counted)
      | .busy | .unassignedNum | .error => .ok (.end, .awaited, counted)

/-- The call goes off-hook (`fsmdef_offhook`, with the handlers of the idle state that call it first). -/
def fsmdefOffhook (f : FcbId) (msg : FimMsg) (d : Decisions) :
    Except Crash (SmRc × Outcome × Fim) :=
  match (s.blocks.fcbs f).dcb with
  | some _ => s.script f d
  | none =>
    let context := s.blocks.fsmGetNewOutgoingCallContext msg.callId msg.line (some f) d.facility
    let s := s.setBlocks context.2
    if context.1 = .ok then s.script f d else .ok (.cleanup, .refused, s)

/-- A new call is started in the idle state (`CC_FEATURE_NEW_CALL` of `fsmdef_ev_idle_feature`). Without a
free line, the call is ended by a message, as a transfer may wait for it. -/
def fsmdefEvIdleNewCall (f : FcbId) (msg : FimMsg) (d : Decisions) :
    Except Crash (SmRc × Outcome × Fim) :=
  if msg.fromUiOrGsm = false then .ok (.end, .handled, s) else
  match (s.blocks.fcbs f).dcb with
  | some _ => s.script f d
  | none =>
    let context :=
      s.blocks.fsmGetNewOutgoingCallContext (s.blocks.fcbs f).callId msg.line (some f) d.facility
    let s := s.setBlocks context.2
    match context.1 with
    | .ok => s.script f d
    | .noResource => .ok (.cleanup, .refused, s)
    | .busy | .unassignedNum | .error =>
      match (s.blocks.fcbs f).dcb with
      | none => .error .dcb
      | some _ => .ok (.end, .awaited, s)

/-- The default machine is asked (`sm_process_event` with `fsmdef_function_table`). -/
def fsmdef (k : ChnId) (f : FcbId) (msg : FimMsg) (d : Decisions) :
    Except Crash (SmRc × Outcome × Fim) :=
  match (s.blocks.fcbs f).state, msg.msgId with
  | .min, _ | .max, _ => .ok (.error, .handled, s)
  | .idle, .setup => s.fsmdefEvIdleSetup config k f msg d
  | .idle, .offhook | .idle, .line | .idle, .dialstring => s.fsmdefOffhook f msg d
  | .idle, .feature .newCall => s.fsmdefEvIdleNewCall f msg d
  | _, _ => s.script f d

/-! ## The chain -/

def changeFeature (s : Fim) (change : FcbId × FsmdefState) : Fim :=
  match (s.blocks.fcbs change.1).fsmType with
  | .cnf | .b2bcnf | .xfr => s.changeState change.1 change.2
  | .none | .default => s

/-- The feature machines of the list are asked, with the answer whether the default machine is asked next.
They hand on every set-up. -/
def askFeatures (k : ChnId) (msg : FimMsg) (d : Decisions) :
    List FsmType → Fim → Except Crash (Bool × Fim)
  | [], s => .ok (true, s)
  | t :: ts, s =>
    match (s.blocks.chns k).cb t with
    | none => .error .cb
    | some _ =>
      let s := (d.visit t).changes.foldl changeFeature s
      if msg.msgId = .setup ∨ (d.visit t).handsOn = true then askFeatures k msg d ts s
      else .ok (false, s)

/-- The chain is cleaned up (`fim_free_call_chn`). -/
def fimFreeCallChn (k : ChnId) (line : ℕ) (updateCallCnt : Bool) : Fim :=
  let s := s.setBlocks (s.blocks.fimFreeCallChn k)
  let s := if updateCallCnt then s.uncount config line else s
  s.setCounted k none

/-- The line that a chain is taken from when it is cleaned up: the one of the message, or for a release
the one of the call. -/
def msgLine (f : FcbId) (msg : FimMsg) : ℕ :=
  if (s.blocks.fcbs f).fsmType = .default ∧ msg.msgId = .release then
    match (s.blocks.fcbs f).dcb with
    | none => msg.line
    | some dcb => (s.blocks.dcbs dcb).line
  else msg.line

/-- Whether a chain is taken from a line when it is cleaned up (`update_call_cnt`). -/
def updateCallCnt (f : FcbId) : Bool :=
  match (s.blocks.fcbs f).dcb with
  | none => true
  | some dcb => !(s.blocks.dcbs dcb).callNotCountedInMncBt

/-- What is done with the answer of the default machine, in the loop of `fim_process_event` and after
it. -/
def finish (k : ChnId) (f : FcbId) (msg : FimMsg) (line : ℕ) (updateCallCnt : Bool) (rc : SmRc) : Fim :=
  let s :=
    if rc = .end ∧ (s.blocks.fcbs f).fsmType = .default ∧ msg.msgId = .feature .cfwdAll then
      s.uncount config line
    else s
  if rc = .cleanup then s.fimFreeCallChn config k line updateCallCnt else s

/-- The default machine of a chain is asked, and the chain is cleaned up where it says so. -/
def askDefault (k : ChnId) (msg : FimMsg) (d : Decisions) : Except Crash (Outcome × Fim) :=
  match (s.blocks.chns k).cb .default with
  | none => .error .cb
  | some f =>
    (s.fsmdef config k f msg d).map fun (rc, outcome, s') =>
      (outcome, s'.finish config k f msg (s.msgLine f msg) (s.updateCallCnt f) rc)

/-- The message is passed to the chain. -/
def dispatch (k : ChnId) (msg : FimMsg) (d : Decisions) : Except Crash (Outcome × Fim) :=
  match askFeatures k msg d [.cnf, .b2bcnf, .xfr] s with
  | .error crash => .error crash
  | .ok (false, s) => .ok (.handled, s)
  | .ok (true, s) => s.askDefault config k msg d

/-- A new chain gets the message. The call is counted, unless its line is not known yet. -/
def start (k : ChnId) (msg : FimMsg) (d : Decisions) : Except Crash (Outcome × Fim) :=
  (if msg.msgId = .setup then s else s.count config msg.line).dispatch config k msg d

/-- A chain is set up for the call. The call of a set-up is counted later, or not at all. -/
def create (k : ChnId) (blocks : Blocks) (msg : FimMsg) : Fim :=
  (s.setBlocks blocks).setCounted k (if msg.msgId = .setup then none else some msg.line)

/-- A message for a call without a chain. -/
def fimNewCall (msg : FimMsg) (d : Decisions) : Except Crash (Outcome × Fim) :=
  if msg.msgId.Establishes then
    match s.blocks.fimGetNewCallChn msg.callId with
    | (none, _) => .ok (.refused, s)
    | (some k, blocks) => (s.create k blocks msg).start config k msg d
  else if msg.msgId.fimCheckFeatureEvent then
    match s.blocks.fimGetNewCallChn msg.callId with
    | (none, _) => .ok (.refused, s)
    | (some k, blocks) =>
      let s := s.create k blocks msg
      if msg.msgId.fimFeatureNeedOutgoingCallContext then
        let fcb := s.blocks.fsmGetFcbByCallIdAndType msg.callId .default
        match s.blocks.fsmGetNewOutgoingCallContext msg.callId msg.line fcb d.facility with
        | (.ok, blocks) => (s.setBlocks blocks).start config k msg d
        | (_, blocks) => .ok (.refused, s.setBlocks blocks)
      else s.start config k msg d
  else .ok (.ignored, s)

/-- A message is processed (`fim_process_event`). -/
def fimProcessEvent (msg : FimMsg) (d : Decisions) : Except Crash (Outcome × Fim) :=
  if msg.callId = noCallId then .ok (.ignored, s) else
  match s.blocks.fimGetCallChnByCallId msg.callId with
  | none => s.fimNewCall config msg d
  | some k => if d.filtered then .ok (.ignored, s) else s.dispatch config k msg d

/-- A sequence of messages, up to the first null pointer that is followed. -/
def run : List (FimMsg × Decisions) → Fim → Except Crash Fim
  | [], s => .ok s
  | (msg, d) :: events, s =>
    match s.fimProcessEvent config msg d with
    | .error crash => .error crash
    | .ok (_, s) => run events s

end Fim

end Gsm
