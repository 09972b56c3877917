import Ikran.Lib.Pool

/-!
# Control blocks

The fixed tables of the call control of `fim.c`, `fsm.c` and `fsmdef.c`. A call has a chain of state
machines. Each machine of the chain works on a control block (`fsm_fcb_t`), and the call has data of its
own (`fsmdef_dcb_t`). A block whose call id is 0 is free.

The blocks of the feature machines hold more data, which is left out, as the functions here only find and
reset the block.
-/

namespace Gsm

open Pool

/-- The number of calls, `LSM_MAX_CALLS`. -/
abbrev maxCalls : ℕ := 51

/-- A call id. Calls have ids from 1 on. -/
abbrev CallId := ℕ

/-- The id of no call, `CC_NO_CALL_ID`. -/
abbrev noCallId : CallId := 0

/-- The state machines of a call (`fsm_types_t`), apart from the head of the chain, which has no
machine. -/
inductive FsmType
  | none
  | cnf
  | b2bcnf
  | xfr
  | default
  deriving DecidableEq

/-- The machines of a chain, in the order in which they are asked. -/
def FsmType.chain : List FsmType :=
  [.cnf, .b2bcnf, .xfr, .default]

/-- The states of the default machine (`fsmdef_states_t`). The states of the other machines are numbers
of the same range, and are written with the names of the numbers here. -/
inductive FsmdefState
  | min
  | idle
  | collectInfo
  | callSent
  | outgoingProceeding
  | kpmlCollectInfo
  | outgoingAlerting
  | incomingAlerting
  | connecting
  | joining
  | connected
  | connectedMediaPend
  | releasing
  | holdPending
  | holding
  | resumePending
  | preserved
  | max
  deriving DecidableEq

/-- A place in the table of control blocks, which has `FSM_MAX_FCBS` places. -/
abbrev FcbId := Fin (maxCalls * 4)

/-- A place in the table of call data, which has `FSMDEF_MAX_DCBS` places. -/
abbrev DcbId := Fin maxCalls

/-- A place in the table of chains, which has `FIM_MAX_CHNS` places. -/
abbrev ChnId := Fin maxCalls

/-- The control block of a machine (`fsm_fcb_t`). -/
structure Fcb where
  callId : CallId := noCallId
  state : FsmdefState := .idle
  fsmType : FsmType := .none
  dcb : Option DcbId := none

/-- The data of a call (`fsmdef_dcb_t`). -/
structure Dcb where
  callId : CallId := noCallId
  line : ℕ := 0
  fcb : Option FcbId := none
  sendRelease : Bool := false
  callNotCountedInMncBt : Bool := false

/-- The chain of a call (the row of `fim_icb_t` behind one head). -/
structure Chn where
  callId : CallId := noCallId
  cb : FsmType → Option FcbId := fun _ => none

/-- The tables of the call control. -/
structure Blocks where
  fcbs : FcbId → Fcb := fun _ => {}
  dcbs : DcbId → Dcb := fun _ => {}
  chns : ChnId → Chn := fun _ => {}

namespace Blocks

variable (s : Blocks)

/-- The block of the call (`fsm_get_fcb_by_call_id`). -/
def fsmGetFcbByCallId (callId : CallId) : Option FcbId :=
  first fun f => decide ((s.fcbs f).callId = callId)

/-- The block of the call's machine (`fsm_get_fcb_by_call_id_and_type`). -/
def fsmGetFcbByCallIdAndType (callId : CallId) (fsmType : FsmType) : Option FcbId :=
  first fun f => decide ((s.fcbs f).callId = callId ∧ (s.fcbs f).fsmType = fsmType)

/-- The data of the call (`fsmdef_get_dcb_by_call_id`). -/
def fsmdefGetDcbByCallId (callId : CallId) : Option DcbId :=
  first fun d => decide ((s.dcbs d).callId = callId)

/-- The chain of the call (`fim_get_call_chn_by_call_id`). -/
def fimGetCallChnByCallId (callId : CallId) : Option ChnId :=
  first fun k => decide ((s.chns k).callId = callId)

/-- A block is written over. -/
def setFcb (f : FcbId) (fcb : Fcb) : Blocks :=
  { s with fcbs := Function.update s.fcbs f fcb }

/-- The data of a call is written over. -/
def setDcb (d : DcbId) (dcb : Dcb) : Blocks :=
  { s with dcbs := Function.update s.dcbs d dcb }

/-- A chain is written over. -/
def setChn (k : ChnId) (chn : Chn) : Blocks :=
  { s with chns := Function.update s.chns k chn }

/-- The block is set for a machine of a call (`fsm_init_fcb`). -/
def fsmInitFcb (f : FcbId) (callId : CallId) (dcb : Option DcbId) (fsmType : FsmType) : Blocks :=
  s.setFcb f { callId, state := .idle, fsmType, dcb }

/-- A free block is taken for a machine (`fsm_get_new_fcb`). -/
def fsmGetNewFcb (callId : CallId) (fsmType : FsmType) : Option FcbId × Blocks :=
  match s.fsmGetFcbByCallId noCallId with
  | none => (none, s)
  | some f => (some f, s.fsmInitFcb f callId none fsmType)

/-! ## Chains -/

/-- The machines of the list take a block each, in `fim_get_new_call_chn`. -/
def getCbs (k : ChnId) (callId : CallId) : List FsmType → Blocks → Blocks
  | [], s => s
  | t :: ts, s =>
    let (cb, s) := s.fsmGetNewFcb callId t
    getCbs k callId ts (s.setChn k { s.chns k with cb := Function.update (s.chns k).cb t cb })

/-- A chain for a new call (`fim_get_new_call_chn`). There is none for a call that has one already, or
when all are taken. The machines get their blocks without a look at whether there was one left. -/
def fimGetNewCallChn (callId : CallId) : Option ChnId × Blocks :=
  match s.fimGetCallChnByCallId callId with
  | some _ => (none, s)
  | none =>
    match s.fimGetCallChnByCallId noCallId with
    | none => (none, s)
    | some k => (some k, getCbs k callId FsmType.chain (s.setChn k { s.chns k with callId }))

def freeFcb (f : FcbId) : Blocks :=
  s.fsmInitFcb f noCallId none .none

/-- The block of a feature machine is given back (`fsmcnf_free_cb`, `fsmb2bcnf_free_cb`,
`fsmxfr_free_cb`). -/
def freeFeatureCb (callId : CallId) (fsmType : FsmType) : Blocks :=
  if callId = noCallId then s else
  match s.fsmGetFcbByCallIdAndType callId fsmType with
  | none => s
  | some f => s.freeFcb f

/-- The block that `fsmdef_free_cb` resets: the one that the data of the call points to, or the one of
the call's default machine where there is no data. -/
def fsmdefFcb (callId : CallId) : Option FcbId :=
  match s.fsmdefGetDcbByCallId callId with
  | some d => (s.dcbs d).fcb
  | none => s.fsmGetFcbByCallIdAndType callId .default

/-- The data of the call is reset, where there is one. -/
def freeDcbOf (callId : CallId) : Blocks :=
  match s.fsmdefGetDcbByCallId callId with
  | some d => s.setDcb d {}
  | none => s

/-- The block of the default machine and the data of the call are given back (`fsmdef_free_cb`). -/
def fsmdefFreeCb (callId : CallId) : Blocks :=
  if callId = noCallId then s else
  match s.fsmdefFcb callId with
  | some f => (s.freeDcbOf callId).freeFcb f
  | none => s.freeDcbOf callId

/-- What a machine does to give its block back. -/
def freeCb (callId : CallId) (s : Blocks) : FsmType → Blocks
  | .none => s
  | .default => s.fsmdefFreeCb callId
  | fsmType => s.freeFeatureCb callId fsmType

/-- A chain is cleaned up (`fim_free_call_chn`), apart from the count of the line. Each machine looks for
its block again, by the id of the call. -/
def fimFreeCallChn (k : ChnId) : Blocks :=
  (FsmType.chain.foldl (freeCb (s.chns k).callId) s).setChn k {}

/-- Free call data is taken (`fsmdef_get_new_dcb`). -/
def fsmdefGetNewDcb (callId : CallId) : Option (DcbId × Blocks) :=
  (s.fsmdefGetDcbByCallId noCallId).map fun d => (d, s.setDcb d { s.dcbs d with callId })

/-- The call data is set (`fsmdef_init_dcb`). -/
def fsmdefInitDcb (d : DcbId) (callId : CallId) (line : ℕ) (fcb : Option FcbId) : Blocks :=
  s.setDcb d { callId, line, fcb }

/-- The machines of the list are told the data of the call, until one has no block: the loop of
`fsm_set_fcb_dcbs`. -/
def setFcbDcbs (d : DcbId) (callId : CallId) : List FsmType → Blocks → Bool × Blocks
  | [], s => (true, s)
  | t :: ts, s =>
    match s.fsmGetFcbByCallIdAndType callId t with
    | none => (false, s)
    | some f => setFcbDcbs d callId ts (s.setFcb f { s.fcbs f with dcb := some d })

/-- The machines of the call are told the data of the call (`fsm_set_fcb_dcbs`). -/
def fsmSetFcbDcbs (d : DcbId) : Bool × Blocks :=
  setFcbDcbs d (s.dcbs d).callId FsmType.chain s

/-- The data of a new call is taken (`fsm_get_new_outgoing_call_context` and
`fsm_get_new_incoming_call_context`), once a line has been looked for. There is none when all are taken.
-/
def fsmGetNewCallContext (callId : CallId) (line : ℕ) (fcb : FcbId) : Option (Bool × Blocks) :=
  (s.fsmdefGetNewDcb callId).map fun (d, s) =>
    (s.fsmdefInitDcb d callId line (some fcb)).fsmSetFcbDcbs d

/-- The data of the call is given back (`fsmdef_free_dcb`). -/
def fsmdefFreeDcb : Option DcbId → Blocks
  | none => s
  | some d => s.setDcb d {}

end Blocks

end Gsm
