import Ikran.Gsm.Blocks

/-!
# Calls in transition

The list of `dcsm.c` of the calls that are in transition. While there is one, the events by which the user
starts or takes a call wait. The list follows the states of the default machines, and nothing else: it is
changed by `fsm_change_state`, and is not looked at when a chain is cleaned up.

The default machine asks for a clean-up of its chain after it has released the call, or from a handler that
refuses the call. The events that wait are left out here.
-/

namespace Gsm

open Pool

variable {n : ℕ}

/-- The loop of `dcsm_add_call_id_to_list`: the last free place, or nothing when the call is found. -/
def freeLoc (callIds : Fin n → CallId) (callId : CallId) :
    Option (Fin n) → List (Fin n) → Option (Fin n)
  | loc, [] => loc
  | loc, i :: is =>
    if callIds i = noCallId then freeLoc callIds callId (some i) is
    else if callIds i = callId then none
    else freeLoc callIds callId loc is

/-- The call is added to the list, unless it is there or there is no space
(`dcsm_add_call_id_to_list`). -/
def dcsmAddCallIdToList (callIds : Fin n → CallId) (callId : CallId) : Fin n → CallId :=
  match freeLoc callIds callId none (List.finRange n) with
  | none => callIds
  | some loc => Function.update callIds loc callId

/-- The loop of `dcsm_remove_check_for_empty_list`, which remembers whether another call was seen. -/
def removeLoop (callId : CallId) :
    (Fin n → CallId) → Bool → List (Fin n) → (Fin n → CallId) × Bool
  | callIds, present, [] => (callIds, !present)
  | callIds, present, i :: is =>
    if callIds i = callId then
      let callIds := Function.update callIds i noCallId
      if present then (callIds, false) else removeLoop callId callIds present is
    else if callIds i ≠ noCallId then removeLoop callId callIds true is
    else removeLoop callId callIds present is

/-- The call is taken from the list, with the answer whether the list is empty now
(`dcsm_remove_check_for_empty_list`). -/
def dcsmRemoveCheckForEmptyList (callIds : Fin n → CallId) (callId : CallId) :
    (Fin n → CallId) × Bool :=
  removeLoop callId callIds false (List.finRange n)

/-! ## The list is kept -/

section List

variable {callIds : Fin n → CallId} {callId : CallId}

variable {is : List (Fin n)}

theorem freeLoc_eq_some {loc : Option (Fin n)} {i : Fin n} (h : freeLoc callIds callId loc is = some i) :
    (loc = some i ∨ callIds i = noCallId) ∧ ∀ j ∈ is, callIds j ≠ noCallId → callIds j ≠ callId := by
  induction is generalizing loc with
  | nil => exact ⟨.inl h, fun j hj => absurd hj List.not_mem_nil⟩
  | cons j is ih =>
    rw [freeLoc] at h
    split at h
    next hfree =>
      obtain ⟨hloc, hrest⟩ := ih h
      refine ⟨.inr ?_, List.forall_mem_cons.mpr ⟨fun hne => absurd hfree hne, hrest⟩⟩
      rcases hloc with heq | heq
      · rwa [← Option.some.inj heq]
      · exact heq
    next hfree =>
      split at h
      next => exact absurd h (by simp)
      next hother =>
        obtain ⟨hloc, hrest⟩ := ih h
        exact ⟨hloc, List.forall_mem_cons.mpr ⟨fun _ => hother, hrest⟩⟩

theorem freeLoc_eq_none {loc : Option (Fin n)} (h : freeLoc callIds callId loc is = none) :
    (∃ j ∈ is, callIds j ≠ noCallId ∧ callIds j = callId) ∨ loc = none ∧ ∀ j ∈ is, callIds j ≠ noCallId := by
  induction is generalizing loc with
  | nil => exact .inr ⟨h, fun j hj => absurd hj List.not_mem_nil⟩
  | cons j is ih =>
    rw [freeLoc] at h
    split at h
    next hfree =>
      rcases ih h with ⟨i, hi, hcall⟩ | ⟨hloc, -⟩
      · exact .inl ⟨i, List.mem_cons_of_mem j hi, hcall⟩
      · exact absurd hloc (by simp)
    next hfree =>
      split at h
      next hcall => exact .inl ⟨j, List.mem_cons_self, hfree, hcall⟩
      next =>
        rcases ih h with ⟨i, hi, hcall⟩ | ⟨hloc, hrest⟩
        · exact .inl ⟨i, List.mem_cons_of_mem j hi, hcall⟩
        · exact .inr ⟨hloc, List.forall_mem_cons.mpr ⟨hfree, hrest⟩⟩

theorem dcsmAddCallIdToList_cases (callIds : Fin n → CallId) (callId : CallId) :
    (∃ loc, callIds loc = noCallId ∧ (∀ j, callIds j ≠ noCallId → callIds j ≠ callId) ∧
      dcsmAddCallIdToList callIds callId = Function.update callIds loc callId) ∨
    ((∃ j, callIds j ≠ noCallId ∧ callIds j = callId) ∨ ∀ j, callIds j ≠ noCallId) ∧
      dcsmAddCallIdToList callIds callId = callIds := by
  cases h : freeLoc callIds callId none (List.finRange n) with
  | some loc =>
    obtain ⟨hloc, hnone⟩ := freeLoc_eq_some h
    exact .inl ⟨loc, hloc.resolve_left (by simp), fun j => hnone j (List.mem_finRange j),
      by rw [dcsmAddCallIdToList, h]⟩
  | none =>
    refine .inr ⟨?_, by rw [dcsmAddCallIdToList, h]⟩
    rcases freeLoc_eq_none h with ⟨j, -, hj⟩ | ⟨-, hfull⟩
    · exact .inl ⟨j, hj⟩
    · exact .inr fun j => hfull j (List.mem_finRange j)

/-- The loop takes the call from the places of the list, where it is at one of them at most. It finds the
list empty when no other call is at them and none was seen before. -/
theorem removeLoop_eq (present : Bool) (hdistinct : is.Pairwise fun i j => callIds i = callId → callIds j ≠ callId) :
    (removeLoop callId callIds present is).1 =
        (fun i => if i ∈ is ∧ callIds i = callId then noCallId else callIds i) ∧
      ((removeLoop callId callIds present is).2 = true ↔
        present = false ∧ ∀ i ∈ is, callIds i = callId ∨ callIds i = noCallId) := by
  induction is generalizing callIds present with
  | nil => simp [removeLoop]
  | cons i is ih =>
    rw [List.pairwise_cons] at hdistinct
    obtain ⟨hhead, htail⟩ := hdistinct
    by_cases hi : callIds i = callId
    · -- the call is not at a place behind this one, where the list is as it was
      have hrest : ∀ j ∈ is, callIds j ≠ callId := fun j hj => hhead j hj hi
      have hnot : i ∉ is := fun hmem => hrest i hmem hi
      have hupd : ∀ j ∈ is, Function.update callIds i noCallId j = callIds j := fun j hj =>
        Function.update_of_ne (ne_of_mem_of_not_mem hj hnot) _ _
      have hfun : Function.update callIds i noCallId =
          fun j => if j ∈ i :: is ∧ callIds j = callId then noCallId else callIds j := by
        funext j
        by_cases hj : j = i
        · subst hj
          simp [hi]
        · by_cases hmem : j ∈ is <;> simp [hj, hmem, hrest]
      cases present with
      | true =>
        rw [← hfun]
        simp [removeLoop, hi]
      | false =>
        have htail' : is.Pairwise fun j k => Function.update callIds i noCallId j = callId →
            Function.update callIds i noCallId k ≠ callId :=
          htail.imp_of_mem fun hj hk h => by rwa [hupd _ hj, hupd _ hk]
        obtain ⟨h₁, h₂⟩ := ih false htail'
        have hstep : removeLoop callId callIds false (i :: is) =
            removeLoop callId (Function.update callIds i noCallId) false is := by
          simp [removeLoop, hi]
        rw [hstep, h₁, h₂]
        constructor
        · funext j
          by_cases hj : j ∈ is ∧ Function.update callIds i noCallId j = callId
          · exact absurd ((hupd j hj.1).symm.trans hj.2) (hrest j hj.1)
          · rw [if_neg hj, hfun]
        · simp only [List.forall_mem_cons, hi, true_or, true_and]
          exact ⟨fun h j hj => by rw [← hupd j hj]; exact h j hj,
            fun h j hj => by rw [hupd j hj]; exact h j hj⟩
    · by_cases hfree : callIds i = noCallId
      · have hstep : removeLoop callId callIds present (i :: is) = removeLoop callId callIds present is := by
          rw [removeLoop, if_neg hi, if_neg (not_not.mpr hfree)]
        obtain ⟨h₁, h₂⟩ := ih present htail
        rw [hstep, h₁, h₂]
        constructor
        · funext j
          by_cases hj : j = i
          · subst hj
            simp [hi]
          · simp [hj]
        · simp [hfree]
      · have hstep : removeLoop callId callIds present (i :: is) = removeLoop callId callIds true is := by
          rw [removeLoop, if_neg hi, if_pos hfree]
        obtain ⟨h₁, h₂⟩ := ih true htail
        rw [hstep, h₁, h₂]
        constructor
        · funext j
          by_cases hj : j = i
          · subst hj
            simp [hi]
          · simp [hj]
        · simp [hi, hfree]

theorem dcsmRemoveCheckForEmptyList_eq (hcall : callId ≠ noCallId)
    (hdistinct : ∀ i j, callIds i ≠ noCallId → callIds i = callIds j → i = j) :
    (dcsmRemoveCheckForEmptyList callIds callId).1 =
        (fun i => if callIds i = callId then noCallId else callIds i) ∧
      ((dcsmRemoveCheckForEmptyList callIds callId).2 = true ↔ ∀ i, callIds i = callId ∨ callIds i = noCallId) := by
  have hpairwise : (List.finRange n).Pairwise fun i j => callIds i = callId → callIds j ≠ callId := by
    refine (List.nodup_finRange n).imp fun {i j} hne hi hj => hne (hdistinct i j ?_ (hi.trans hj.symm))
    rwa [hi]
  simpa [dcsmRemoveCheckForEmptyList] using removeLoop_eq false hpairwise

end List

/-- The states of the list (`dcsm_state_e`). -/
inductive DcsmState
  | ready
  | waiting
  deriving DecidableEq

/-- The list of calls (`dcsm_cb`). -/
structure Dcsm where
  callIds : Fin maxCalls → CallId := fun _ => noCallId
  state : DcsmState := .ready

/-- The tables of the call control with the list of calls. -/
structure CallControl where
  blocks : Blocks := {}
  dcsm : Dcsm := {}

/-- What `dcsm_update_gsm_state` does for a state of the default machine. -/
inductive DcsmUpdate
  | add
  | addUnlessReleased
  | remove
  deriving DecidableEq

/-- The cases of `dcsm_update_gsm_state`. -/
def FsmdefState.dcsmUpdate : FsmdefState → DcsmUpdate
  | .releasing => .addUnlessReleased
  | .connecting | .holdPending | .resumePending => .add
  | _ => .remove

/-- The calls that the list waits for are in one of these states. -/
def FsmdefState.InTransition (state : FsmdefState) : Prop :=
  state = .connecting ∨ state = .holdPending ∨ state = .resumePending ∨ state = .releasing

instance (state : FsmdefState) : Decidable state.InTransition :=
  inferInstanceAs (Decidable (_ ∨ _))

/-- The default machine of the call is in transition. -/
def Blocks.Pending (b : Blocks) (callId : CallId) : Prop :=
  ∃ f, (b.fcbs f).callId = callId ∧ (b.fcbs f).fsmType = .default ∧ (b.fcbs f).state.InTransition

namespace CallControl

variable (s : CallControl)

/-- A call has been found to be in transition. -/
def wait (callId : CallId) : CallControl :=
  { s with dcsm := { callIds := dcsmAddCallIdToList s.dcsm.callIds callId, state := .waiting } }

/-- A call has been found not to be in transition. -/
def proceed (callId : CallId) : CallControl :=
  let removed := dcsmRemoveCheckForEmptyList s.dcsm.callIds callId
  { s with
    dcsm := { callIds := removed.1, state := if removed.2 then .ready else s.dcsm.state } }

/-- The list is told the new state of a machine (`dcsm_update_gsm_state`). -/
def dcsmUpdateGsmState (fcb : Fcb) (callId : CallId) (state : FsmdefState) : CallControl :=
  if fcb.fsmType ≠ .default then s else
  match state.dcsmUpdate with
  | .addUnlessReleased =>
    match s.blocks.fsmdefGetDcbByCallId callId with
    -- nobody answers to a release that is not sent, so that there is nothing to wait for
    | some d => if (s.blocks.dcbs d).sendRelease = false then s else s.wait callId
    | none => s.wait callId
  | .add => s.wait callId
  | .remove => s.proceed callId

/-- The state of a machine is changed (`fsm_change_state`). -/
def fsmChangeState (f : FcbId) (state : FsmdefState) : CallControl :=
  let fcb := { s.blocks.fcbs f with state }
  { s with blocks := s.blocks.setFcb f fcb }.dcsmUpdateGsmState fcb fcb.callId state

/-- A machine is released (`fsm_release`), apart from the requests for bandwidth of its call. -/
def fsmRelease (f : FcbId) : CallControl :=
  let s := s.fsmChangeState f .idle
  { s with blocks := s.blocks.freeFcb f }

/-- The states with a handler that answers `SM_RC_CLEANUP` before the call is released: a call is refused
in the idle state, `fsmdef_ev_collectinginfo_release` and `fsmdef_ev_callsent_release` have no timer for
the tone. -/
def cleanUpStates : List FsmdefState :=
  [.idle, .collectInfo, .callSent, .outgoingProceeding, .kpmlCollectInfo, .outgoingAlerting]

/-- The default machine may have asked for the clean-up of a chain: the call has been released, so that
its block is not found any more, or the machine is in one of the states above. -/
def MayCleanUp (k : ChnId) : Prop :=
  ∀ f, s.blocks.fsmdefFcb (s.blocks.chns k).callId = some f →
    (s.blocks.fcbs f).fsmType = .default → (s.blocks.fcbs f).state ∈ cleanUpStates

inductive Step : CallControl → CallControl → Prop
  | newCallChn (s : CallControl) (callId : CallId) :
    Step s { s with blocks := (s.blocks.fimGetNewCallChn callId).2 }
  | newCallContext (s : CallControl) (callId : CallId) (line : ℕ) (f : FcbId) (ok : Bool)
    (blocks : Blocks) (h : s.blocks.fsmGetNewCallContext callId line f = some (ok, blocks)) :
    Step s { s with blocks }
  | setDcb (s : CallControl) (d : DcbId) (dcb : Dcb) :
    Step s { s with blocks := s.blocks.setDcb d dcb }
  | freeDcb (s : CallControl) (d : Option DcbId) :
    Step s { s with blocks := s.blocks.fsmdefFreeDcb d }
  | changeState (s : CallControl) (f : FcbId) (state : FsmdefState) : Step s (s.fsmChangeState f state)
  | release (s : CallControl) (f : FcbId) : Step s (s.fsmRelease f)
  | freeCallChn (s : CallControl) (k : ChnId) (h : s.MayCleanUp k) :
    Step s { s with blocks := s.blocks.fimFreeCallChn k }

/-- A state that is reached from the start by steps of the call control. -/
def Reachable (s : CallControl) : Prop :=
  Relation.ReflTransGen Step {} s


/-- The list waits exactly while a call is in transition. -/
structure WaitsExactly : Prop where
  waiting_iff : s.dcsm.state = .waiting ↔ ∃ i, s.dcsm.callIds i ≠ noCallId
  distinct : ∀ i j, s.dcsm.callIds i ≠ noCallId → s.dcsm.callIds i = s.dcsm.callIds j → i = j
  pending : ∀ i, s.dcsm.callIds i ≠ noCallId → s.blocks.Pending (s.dcsm.callIds i)

end CallControl

/-! ## Blocks that are taken and given back -/

namespace Blocks

variable {b b' : Blocks} {callId : CallId}

/-- A block of the default machine works for a call. -/
def DefaultCalled (b : Blocks) : Prop :=
  ∀ f, (b.fcbs f).fsmType = .default → (b.fcbs f).callId ≠ noCallId

/-- No call stops being in transition from one state of the tables to the next, and the default machines
work for calls. -/
structure Safe (b b' : Blocks) : Prop where
  pending : ∀ callId, callId ≠ noCallId → b.Pending callId → b'.Pending callId
  called : b.DefaultCalled → b'.DefaultCalled

theorem Safe.refl (b : Blocks) : Safe b b := ⟨fun _ _ h => h, fun h => h⟩

theorem Safe.trans {b'' : Blocks} (h : Safe b b') (h' : Safe b' b'') : Safe b b'' :=
  ⟨fun c hc hp => h'.pending c hc (h.pending c hc hp), fun hd => h'.called (h.called hd)⟩

theorem Safe.of_fcbs (h : b'.fcbs = b.fcbs) : Safe b b' :=
  ⟨fun _ _ hp => by rwa [Pending, h], fun hd => by rwa [DefaultCalled, h]⟩

theorem DefaultCalled.setFcb {f : FcbId} {fcb : Fcb} (hd : b.DefaultCalled)
    (hnew : fcb.fsmType = .default → fcb.callId ≠ noCallId) : (b.setFcb f fcb).DefaultCalled := by
  intro g htype
  by_cases hg : g = f
  · subst hg
    simp only [Blocks.setFcb, Function.update_self] at htype ⊢
    exact hnew htype
  · simp only [Blocks.setFcb, Function.update_of_ne hg] at htype ⊢
    exact hd g htype

theorem safe_setFcb {f : FcbId} {fcb : Fcb} (hold : (b.fcbs f).callId ≠ noCallId → (b.fcbs f).fsmType = .default →
      (b.fcbs f).state.InTransition → fcb.callId = (b.fcbs f).callId ∧ fcb.fsmType = .default ∧ fcb.state.InTransition)
    (hnew : b.DefaultCalled → fcb.fsmType = .default → fcb.callId ≠ noCallId) :
    Safe b (b.setFcb f fcb) := by
  constructor
  · rintro c hc ⟨g, rfl, htype, hstate⟩
    by_cases hg : g = f
    · subst hg
      obtain ⟨hcall, htype', hstate'⟩ := hold hc htype hstate
      exact ⟨g, by simpa [setFcb] using hcall, by simpa [setFcb] using htype',
        by simpa [setFcb] using hstate'⟩
    · exact ⟨g, by simp [setFcb, hg], by simpa [setFcb, hg] using htype,
        by simpa [setFcb, hg] using hstate⟩
  · exact fun hd => hd.setFcb (hnew hd)

theorem safe_fsmGetNewFcb (hcall : callId ≠ noCallId) (t : FsmType) : Safe b (b.fsmGetNewFcb callId t).2 := by
  rw [fsmGetNewFcb]
  split
  next => exact .refl b
  next f hf =>
    have hfree : (b.fcbs f).callId = noCallId := of_decide_eq_true (of_first hf)
    exact safe_setFcb (fun hne => absurd hfree hne) fun _ _ => hcall

theorem safe_getCbs (k : ChnId) (hcall : callId ≠ noCallId) (ts : List FsmType) (b : Blocks) :
    Safe b (getCbs k callId ts b) := by
  induction ts generalizing b with
  | nil => exact .refl b
  | cons t ts ih =>
    rw [getCbs]
    refine ((safe_fsmGetNewFcb hcall t).trans ?_).trans (ih _)
    exact .of_fcbs rfl

theorem safe_fimGetNewCallChn (b : Blocks) (callId : CallId) : Safe b (b.fimGetNewCallChn callId).2 := by
  rw [fimGetNewCallChn]
  split
  next => exact .refl b
  next hnone =>
    split
    next => exact .refl b
    next k hk =>
      -- a chain that is free would have been found for the call without an id
      have hcall : callId ≠ noCallId := by
        rintro rfl
        rw [hk] at hnone
        exact absurd hnone (by simp)
      have hset : Safe b (b.setChn k { b.chns k with callId }) := .of_fcbs rfl
      exact hset.trans (safe_getCbs k hcall FsmType.chain _)

theorem safe_setFcbDcbs (d : DcbId) (ts : List FsmType) (b : Blocks) : Safe b (setFcbDcbs d callId ts b).2 := by
  induction ts generalizing b with
  | nil => exact .refl b
  | cons t ts ih =>
    rw [setFcbDcbs]
    split
    next => exact .refl b
    next f _ =>
      have hset : Safe b (b.setFcb f { b.fcbs f with dcb := some d }) :=
        safe_setFcb (fun _ htype hstate => ⟨rfl, htype, hstate⟩) fun hd => hd f
      exact hset.trans (ih _)

theorem safe_fsmGetNewCallContext {line : ℕ} {f : FcbId} {ok : Bool}
    (h : b.fsmGetNewCallContext callId line f = some (ok, b')) : Safe b b' := by
  rw [fsmGetNewCallContext, Option.map_eq_some_iff] at h
  obtain ⟨⟨d, s⟩, hnew, heq⟩ := h
  obtain ⟨d', -, hs⟩ := Option.map_eq_some_iff.mp hnew
  obtain ⟨rfl, rfl⟩ := Prod.mk.inj hs
  let b₁ := (b.setDcb d' { b.dcbs d' with callId }).fsmdefInitDcb d' callId line (some f)
  have hdcb : Safe b b₁ := .of_fcbs rfl
  have hfcbs : Safe b₁ (b₁.fsmSetFcbDcbs d').2 := safe_setFcbDcbs d' FsmType.chain b₁
  have heq' : b₁.fsmSetFcbDcbs d' = (ok, b') := heq
  rw [heq'] at hfcbs
  exact hdcb.trans hfcbs

/-- The default machines of two states of the tables have the same blocks, and the calls the same data. -/
structure SameDefault (b b' : Blocks) : Prop where
  dcbs : b'.dcbs = b.dcbs
  fsmType : ∀ f, (b'.fcbs f).fsmType = .default ↔ (b.fcbs f).fsmType = .default
  fcbs : ∀ f, (b.fcbs f).fsmType = .default → b'.fcbs f = b.fcbs f

theorem SameDefault.trans {b'' : Blocks} (h : SameDefault b b') (h' : SameDefault b' b'') : SameDefault b b'' :=
  ⟨h'.dcbs.trans h.dcbs, fun f => (h'.fsmType f).trans (h.fsmType f),
    fun f hf => (h'.fcbs f ((h.fsmType f).mpr hf)).trans (h.fcbs f hf)⟩

theorem SameDefault.fsmdefFcb (h : SameDefault b b') : b'.fsmdefFcb callId = b.fsmdefFcb callId := by
  have hfcb : b'.fsmGetFcbByCallIdAndType callId .default = b.fsmGetFcbByCallIdAndType callId .default := by
    refine first_congr fun f => decide_eq_decide.mpr ?_
    by_cases hf : (b.fcbs f).fsmType = .default
    · rw [h.fcbs f hf]
    · simp [hf, mt (h.fsmType f).mp hf]
  rw [Blocks.fsmdefFcb, Blocks.fsmdefFcb, fsmdefGetDcbByCallId, fsmdefGetDcbByCallId, h.dcbs, hfcb]

theorem freeFeatureCb_spec (b : Blocks) (callId : CallId) {t : FsmType} (ht : t ≠ .default) :
    Safe b (b.freeFeatureCb callId t) ∧ SameDefault b (b.freeFeatureCb callId t) := by
  have hsame : SameDefault b b := ⟨rfl, fun _ => .rfl, fun _ _ => rfl⟩
  rw [freeFeatureCb]
  split
  next => exact ⟨.refl b, hsame⟩
  next =>
    split
    next => exact ⟨.refl b, hsame⟩
    next f hf =>
      have htype : (b.fcbs f).fsmType ≠ .default := by
        rw [(of_decide_eq_true (of_first hf)).2]
        exact ht
      refine ⟨safe_setFcb (fun _ hd => absurd hd htype) fun _ hd => absurd hd (by simp), rfl, ?_, ?_⟩
      · intro g
        by_cases hg : g = f
        · subst hg
          simp [freeFcb, fsmInitFcb, setFcb, htype]
        · simp [freeFcb, fsmInitFcb, setFcb, hg]
      · intro g hd
        have hg : g ≠ f := fun heq => htype (heq ▸ hd)
        simp [freeFcb, fsmInitFcb, setFcb, hg]

theorem safe_fsmdefFreeCb (b : Blocks) (callId : CallId)
    (h : ∀ f, b.fsmdefFcb callId = some f → (b.fcbs f).fsmType = .default → ¬ (b.fcbs f).state.InTransition) :
    Safe b (b.fsmdefFreeCb callId) := by
  have hdcb : (b.freeDcbOf callId).fcbs = b.fcbs := by
    rw [freeDcbOf]
    split <;> rfl
  rw [fsmdefFreeCb]
  split
  next => exact .refl b
  next =>
    split
    next f hf =>
      refine Safe.trans (.of_fcbs hdcb) (safe_setFcb (fun _ htype hstate => ?_) ?_)
      · rw [hdcb] at htype hstate
        exact absurd hstate (h f hf htype)
      · intro _ hd
        exact absurd hd (by simp)
    next => exact .of_fcbs hdcb

theorem safe_fimFreeCallChn {k : ChnId}
    (h : ∀ f, b.fsmdefFcb (b.chns k).callId = some f → (b.fcbs f).fsmType = .default →
      ¬ (b.fcbs f).state.InTransition) :
    Safe b (b.fimFreeCallChn k) := by
  generalize hcall : (b.chns k).callId = callId at h
  -- the feature machines give their blocks back first, which leaves the default machine as it is
  obtain ⟨safe₁, same₁⟩ := freeFeatureCb_spec b callId (t := .cnf) (by simp)
  obtain ⟨safe₂, same₂⟩ := freeFeatureCb_spec (b.freeFeatureCb callId .cnf) callId (t := .b2bcnf) (by simp)
  obtain ⟨safe₃, same₃⟩ := freeFeatureCb_spec
    ((b.freeFeatureCb callId .cnf).freeFeatureCb callId .b2bcnf) callId (t := .xfr) (by simp)
  have same := (same₁.trans same₂).trans same₃
  have hdefault := safe_fsmdefFreeCb
    (((b.freeFeatureCb callId .cnf).freeFeatureCb callId .b2bcnf).freeFeatureCb callId .xfr) callId
    fun f hf htype => by
      have htype' := (same.fsmType f).mp htype
      rw [same.fcbs f htype']
      exact h f (same.fsmdefFcb ▸ hf) htype'
  rw [fimFreeCallChn, hcall]
  exact (((safe₁.trans safe₂).trans safe₃).trans hdefault).trans (.of_fcbs rfl)

end Blocks

namespace CallControl

variable {s s' : CallControl}

/-! ## A step -/

/-- What every step keeps. -/
structure Inv (s : CallControl) : Prop where
  waits : s.WaitsExactly
  called : s.blocks.DefaultCalled

theorem Inv.of_safe {blocks : Blocks} (h : s.Inv) (hsafe : Blocks.Safe s.blocks blocks) : Inv { s with blocks } :=
  ⟨⟨h.waits.waiting_iff, h.waits.distinct,
    fun i hi => hsafe.pending _ hi (h.waits.pending i hi)⟩, hsafe.called h.called⟩

theorem Inv.wait (h : s.Inv) {callId : CallId} (hcall : callId ≠ noCallId)
    (hpending : s.blocks.Pending callId) : (s.wait callId).Inv := by
  refine ⟨⟨?_, ?_, ?_⟩, h.called⟩
  all_goals rcases dcsmAddCallIdToList_cases s.dcsm.callIds callId with
      ⟨loc, hfree, hnew, heq⟩ | ⟨hsame, heq⟩
  · -- the call itself is in the list now
    exact ⟨fun _ => ⟨loc, by simpa [CallControl.wait, heq] using hcall⟩, fun _ => rfl⟩
  · refine ⟨fun _ => ?_, fun _ => rfl⟩
    simp only [CallControl.wait, heq]
    rcases hsame with ⟨j, hj, -⟩ | hfull
    · exact ⟨j, hj⟩
    · exact ⟨0, hfull 0⟩
  · intro i j hi hij
    simp only [CallControl.wait, heq] at hi hij
    by_cases hil : i = loc <;> by_cases hjl : j = loc
    · rw [hil, hjl]
    · subst hil
      rw [Function.update_self, Function.update_of_ne hjl] at hij
      exact absurd hij.symm (hnew j (hij ▸ hcall))
    · subst hjl
      rw [Function.update_self, Function.update_of_ne hil] at hij
      exact absurd hij (hnew i (hij ▸ hcall))
    · rw [Function.update_of_ne hil] at hi hij
      rw [Function.update_of_ne hjl] at hij
      exact h.waits.distinct i j hi hij
  · simpa only [CallControl.wait, heq] using h.waits.distinct
  · intro i hi
    simp only [CallControl.wait, heq] at hi ⊢
    by_cases hil : i = loc
    · subst hil
      rwa [Function.update_self]
    · rw [Function.update_of_ne hil] at hi ⊢
      exact h.waits.pending i hi
  · simpa only [CallControl.wait, heq] using h.waits.pending

theorem Inv.proceed (h : s.Inv) {callId : CallId} (hcall : callId ≠ noCallId) {blocks : Blocks}
    (hcalled : blocks.DefaultCalled)
    (hpending : ∀ c, c ≠ noCallId → c ≠ callId → s.blocks.Pending c → blocks.Pending c) :
    ({ s with blocks }.proceed callId).Inv := by
  obtain ⟨hids, hempty⟩ := dcsmRemoveCheckForEmptyList_eq hcall h.waits.distinct
  have hstays : ∀ {i}, (if s.dcsm.callIds i = callId then noCallId else s.dcsm.callIds i) ≠ noCallId →
      s.dcsm.callIds i ≠ callId ∧ s.dcsm.callIds i ≠ noCallId := by
    intro i hi
    split at hi
    next => exact absurd rfl hi
    next hne => exact ⟨hne, hi⟩
  refine ⟨⟨?_, ?_, ?_⟩, hcalled⟩
  · simp only [CallControl.proceed, hids]
    by_cases hall : ∀ i, s.dcsm.callIds i = callId ∨ s.dcsm.callIds i = noCallId
    · rw [if_pos (hempty.mpr hall)]
      refine iff_of_false (by simp) ?_
      rintro ⟨i, hi⟩
      obtain ⟨hne, hset⟩ := hstays hi
      exact (hall i).elim hne hset
    · rw [if_neg (mt hempty.mp hall), h.waits.waiting_iff]
      obtain ⟨i, hi⟩ := not_forall.mp hall
      rw [not_or] at hi
      exact iff_of_true ⟨i, hi.2⟩ ⟨i, by rw [if_neg hi.1]; exact hi.2⟩
  · intro i j hi hij
    simp only [CallControl.proceed, hids] at hi hij
    obtain ⟨hne, hset⟩ := hstays hi
    rw [if_neg hne] at hij
    obtain ⟨hne', -⟩ := hstays (hij ▸ hset)
    rw [if_neg hne'] at hij
    exact h.waits.distinct i j hset hij
  · intro i hi
    simp only [CallControl.proceed, hids] at hi ⊢
    obtain ⟨hne, hset⟩ := hstays hi
    rw [if_neg hne]
    exact hpending _ hset hne (h.waits.pending i hset)

theorem dcsmUpdate_eq_remove_iff (state : FsmdefState) : state.dcsmUpdate = .remove ↔ ¬ state.InTransition := by
  cases state <;> decide

theorem blocks_fsmChangeState (s : CallControl) (f : FcbId) (state : FsmdefState) :
    (s.fsmChangeState f state).blocks = s.blocks.setFcb f { s.blocks.fcbs f with state } := by
  rw [CallControl.fsmChangeState, dcsmUpdateGsmState]
  by_cases htype : (s.blocks.fcbs f).fsmType = .default
  · rw [if_neg (not_not.mpr htype)]
    cases state.dcsmUpdate with
    | add => rfl
    | remove => rfl
    | addUnlessReleased =>
      dsimp only
      split
      · split <;> rfl
      · rfl
  · rw [if_pos htype]

theorem Inv.fsmChangeState (h : s.Inv) (f : FcbId) (state : FsmdefState) : (s.fsmChangeState f state).Inv := by
  rw [CallControl.fsmChangeState, dcsmUpdateGsmState]
  by_cases htype : (s.blocks.fcbs f).fsmType = .default
  swap
  · -- the list does not look at the other machines
    rw [if_pos htype]
    exact h.of_safe (Blocks.safe_setFcb (fun _ hd => absurd hd htype) fun _ hd => absurd hd htype)
  have hcall := h.called f htype
  rw [if_neg (not_not.mpr htype)]
  by_cases hstate : state.InTransition
  · have hset : Inv { s with blocks := s.blocks.setFcb f { s.blocks.fcbs f with state } } :=
      h.of_safe (Blocks.safe_setFcb (fun _ _ _ => ⟨rfl, htype, hstate⟩) fun _ _ => hcall)
    have hpending : (s.blocks.setFcb f { s.blocks.fcbs f with state }).Pending (s.blocks.fcbs f).callId :=
      ⟨f, by simp [Blocks.setFcb], by simpa [Blocks.setFcb] using htype,
        by simpa [Blocks.setFcb] using hstate⟩
    cases hupd : state.dcsmUpdate with
    | remove => exact absurd hstate ((dcsmUpdate_eq_remove_iff state).mp hupd)
    | add => exact hset.wait hcall hpending
    | addUnlessReleased =>
      dsimp only
      split
      next d _ =>
        split
        · exact hset
        · exact hset.wait hcall hpending
      next => exact hset.wait hcall hpending
  · rw [(dcsmUpdate_eq_remove_iff state).mpr hstate]
    refine h.proceed hcall (h.called.setFcb fun _ => hcall) ?_
    -- the other calls have other blocks
    rintro c _ hother ⟨g, rfl, hg⟩
    have hgf : g ≠ f := fun heq => hother (heq ▸ rfl)
    exact ⟨g, by simp [Blocks.setFcb, hgf], by simpa [Blocks.setFcb, hgf] using hg⟩

theorem Inv.fsmRelease (h : s.Inv) (f : FcbId) : (s.fsmRelease f).Inv := by
  refine (h.fsmChangeState f .idle).of_safe (Blocks.safe_setFcb (fun _ _ hstate => ?_) ?_)
  · have hidle : ((s.fsmChangeState f .idle).blocks.fcbs f).state = .idle := by
      simp [blocks_fsmChangeState, Blocks.setFcb]
    rw [hidle] at hstate
    exact absurd hstate (by decide)
  · intro _ hd
    exact absurd hd (by simp)

theorem not_inTransition_of_mem {state : FsmdefState} (h : state ∈ cleanUpStates) : ¬ state.InTransition := by
  revert h
  cases state <;> decide

theorem Inv.step (h : s.Inv) (hstep : Step s s') : s'.Inv := by
  cases hstep with
  | newCallChn callId => exact h.of_safe (Blocks.safe_fimGetNewCallChn s.blocks callId)
  | newCallContext callId line f ok blocks hnew => exact h.of_safe (Blocks.safe_fsmGetNewCallContext hnew)
  | setDcb d dcb => exact h.of_safe (.of_fcbs rfl)
  | freeDcb d => cases d <;> exact h.of_safe (.of_fcbs rfl)
  | changeState f state => exact h.fsmChangeState f state
  | release f => exact h.fsmRelease f
  | freeCallChn k hmay =>
    refine h.of_safe (Blocks.safe_fimFreeCallChn fun f hf htype => ?_)
    exact not_inTransition_of_mem (hmay f hf htype)

theorem Reachable.inv (h : s.Reachable) : s.Inv := by
  induction h with
  | refl =>
    refine ⟨⟨?_, fun i j hi => absurd rfl hi, fun i hi => absurd rfl hi⟩, fun f hd => ?_⟩
    · exact iff_of_false (by simp) fun ⟨i, hi⟩ => hi rfl
    · exact absurd hd (by simp)
  | tail _ hstep ih => exact ih.step hstep

end CallControl

end Gsm
