import Mathlib.Data.List.Perm.Basic
import Mathlib.Data.List.Nodup
import Mathlib.Data.List.Range

/-!
# Requests for bandwidth

The list of `fsmcac.c` of the calls that wait for bandwidth. A call that starts on a wireless network has
its first message held in a record, until the bandwidth for it is granted. One allocation is requested at
a time, for the record at the front of the list.

The answers to an allocation and the timers of the records carry a call id, which is not looked at: they
are taken for the record at the front. Whether an allocation can be requested, and which calls the replay
of a message releases, are arguments. The records are told apart by the order of their requests.
-/

namespace Gsm

/-- The states of a record (`fsm_cac_state_e`). -/
inductive CacState
  | idle
  | reqPending
  | reqResp
  deriving DecidableEq

/-- A record (`cac_data_t`), for messages of the type `α`. -/
structure CacData (α : Type) where
  id : ℕ
  callId : ℕ
  msgPtr : α
  cacState : CacState := .idle

/-- What becomes of a record. -/
inductive Ending
  | replay
  | failure
  | cleanup
  deriving DecidableEq

/-- The list of records (`s_cac_list`), with what has happened to the records. -/
structure Cac (α : Type) where
  list : List (CacData α) := []
  next : ℕ := 0
  ended : List (CacData α × Ending) := []
  responses : List (ℕ × CacData α) := []
  timeouts : List (ℕ × Option ℕ) := []
  readFreed : Bool := false

namespace Cac

variable {α : Type} (s : Cac α)

/-- The numbers of the records in the list. -/
def ids : List ℕ :=
  s.list.map CacData.id

/-- The numbers of the records that are freed. -/
def endedIds : List ℕ :=
  s.ended.map fun e => e.1.id

/-- A record is taken from the list and freed with its message (`fsm_clear_cac_data`). -/
def fsmClearCacData (r : CacData α) (ending : Ending) : Cac α :=
  { s with
    list := s.list.filter fun r' => r'.id ≠ r.id
    ended := s.ended ++ [(r, ending)] }

/-- The failure of every record is reported (`fsm_cac_clear_list`). -/
def fsmCacClearList : Cac α :=
  { s with
    list := []
    ended := s.ended ++ s.list.map fun r => (r, .failure) }

/-- The bandwidth of a record is requested, or its failure is reported
(`fsm_cac_process_bw_allocation`). -/
def fsmCacProcessBwAllocation (r : CacData α) (ok : Bool) : Cac α :=
  if ok then
    { s with
      list := s.list.map fun r' => if r'.id = r.id then { r' with cacState := .reqPending } else r' }
  else s.fsmClearCacData r .failure

/-- The first record that waits for its bandwidth (`fsm_cac_check_if_pending_req`). -/
def fsmCacCheckIfPendingReq : Option (CacData α) :=
  s.list.find? fun r => r.cacState = .reqPending ∨ r.cacState = .idle

/-- A message is held until there is bandwidth for its call, with the answer whether it is
(`fsm_cac_call_bandwidth_req`). -/
def fsmCacCallBandwidthReq (callId : ℕ) (msgPtr : α) (ok : Bool) : Bool × Cac α :=
  let r : CacData α := { id := s.next, callId, msgPtr }
  let s := { s with next := s.next + 1 }
  match s.fsmCacCheckIfPendingReq with
  | none =>
    -- the record is not in the list yet
    let s := s.fsmCacProcessBwAllocation r ok
    if ok then (true, { s with list := s.list ++ [{ r with cacState := .reqPending }] }) else (false, s)
  | some p =>
    if p.cacState = .idle then
      let s := s.fsmCacProcessBwAllocation p ok
      -- the new record is neither in the list nor freed
      if ok then (true, { s with list := s.list ++ [r] }) else (false, s.fsmCacClearList)
    else (true, { s with list := s.list ++ [r] })

/-- The first record of a call that is released is given up (`fsm_cac_call_release_cleanup`). -/
def fsmCacCallReleaseCleanup (callId : ℕ) : Cac α :=
  match s.list.find? fun r => r.callId = callId with
  | none => s
  | some r => s.fsmClearCacData r .cleanup

/-- What the environment decides when the bandwidth of a record that waits is requested. -/
structure Alloc where
  ok : Bool := true
  freed : CacState := .idle

/-- The bandwidth of the record that was the next one is requested. Neither the record nor, when there is
no bandwidth, its state is read with a look at whether it was freed. -/
def requestNext (s : Cac α) (alloc : Alloc) : Option (CacData α) → Cac α
  | none => s
  | some r =>
    let readFreed := s.readFreed || decide (r.id ∉ s.ids) || !alloc.ok
    let s := { s.fsmCacProcessBwAllocation r alloc.ok with readFreed }
    if !alloc.ok && decide (alloc.freed = .idle) then s.fsmCacClearList else s

def respond (answered : ℕ) (r : CacData α) : Cac α :=
  { s with responses := s.responses ++ [(answered, r)] }

/-- The bandwidth is granted: the message of the first record is handed to the machines, which may release
calls (`fsm_cac_process_bw_avail_resp`). -/
def fsmCacProcessBwAvailResp (answered : ℕ) (released : List ℕ) (alloc : Alloc) : Cac α :=
  match s.list with
  | [] => s
  | r :: rest =>
    match r.cacState with
    | .reqPending =>
      let s := (s.respond answered r).fsmClearCacData r .replay
      (released.foldl fsmCacCallReleaseCleanup s).requestNext alloc rest.head?
    | _ => (s.respond answered r).fsmCacProcessBwAllocation r alloc.ok

/-- The failure of the first record is reported, in `fsm_cac_process_bw_failed_resp`. -/
def failFirst (alloc : Alloc) : Cac α :=
  match s.list with
  | [] => s
  | r :: rest =>
    match r.cacState with
    | .reqPending => (s.fsmClearCacData r .failure).requestNext alloc rest.head?
    | _ => s.fsmCacProcessBwAllocation r alloc.ok

/-- The bandwidth is not granted (`fsm_cac_process_bw_failed_resp`). -/
def fsmCacProcessBwFailedResp (answered : ℕ) (alloc : Alloc) : Cac α :=
  match s.list with
  | [] => s
  | r :: _ => (s.respond answered r).failFirst alloc

/-- The record that a failure is reported for. -/
def failing : Option ℕ :=
  match s.list with
  | [] => none
  | r :: _ => if r.cacState = .reqPending then some r.id else none

/-- The timer of a record expires (`fsm_cac_process_bw_fail_timer`). -/
def fsmCacProcessBwFailTimer (timer : ℕ) (alloc : Alloc) : Cac α :=
  if timer ∈ s.ids ∨ s.failing ≠ none then
    { s with timeouts := s.timeouts ++ [(timer, s.failing)] }.failFirst alloc
  else s.failFirst alloc

/-- What happens to the list. -/
inductive Action (α : Type)
  | request (callId : ℕ) (msgPtr : α) (ok : Bool)
  | availResp (answered : ℕ) (released : List ℕ) (alloc : Alloc)
  | failedResp (answered : ℕ) (alloc : Alloc)
  | failTimer (timer : ℕ) (alloc : Alloc)
  | release (callId : ℕ)

/-- One thing happens to the list. -/
def step (s : Cac α) : Action α → Cac α
  | .request callId msgPtr ok => (s.fsmCacCallBandwidthReq callId msgPtr ok).2
  | .availResp answered released alloc => s.fsmCacProcessBwAvailResp answered released alloc
  | .failedResp answered alloc => s.fsmCacProcessBwFailedResp answered alloc
  | .failTimer timer alloc => s.fsmCacProcessBwFailTimer timer alloc
  | .release callId => s.fsmCacCallReleaseCleanup callId

/-- A sequence of things that happen to the list. -/
def run (s : Cac α) (actions : List (Action α)) : Cac α :=
  actions.foldl step s

/-- The records whose message was handed to the machines, in order. -/
def replayed : List ℕ :=
  s.ended.filterMap fun e => if e.2 = .replay then some e.1.id else none

/-- The requests are taken one after the other. -/
structure Serialised : Prop where
  onePending : (s.list.filter fun r => r.cacState = .reqPending).length ≤ 1
  answered : ∀ p ∈ s.responses, p.2.id = p.1 ∧ p.2.cacState = .reqPending
  timedOut : ∀ p ∈ s.timeouts, p.2 = some p.1
  inOrder : s.replayed.Pairwise (· < ·)
  endsOnce : (s.ids ++ s.endedIds).Perm (List.range s.next)
  notRead : s.readFreed = false

/-- The next record can be requested. -/
def NextOk (ok : Bool) (released : List ℕ) (rest : List (CacData α)) : Prop :=
  ∀ r ∈ rest.head?, ok = true ∧ r.callId ∉ released

instance (ok : Bool) (released : List ℕ) (rest : List (CacData α)) : Decidable (NextOk ok released rest) :=
  inferInstanceAs (Decidable (∀ r ∈ rest.head?, ok = true ∧ r.callId ∉ released))

/-- The first record is the one that an answer or a timer is for, and its allocation was requested. The
allocation of the next one can be requested, and the replay does not release its call. -/
def FirstOk (id : ℕ) (released : List ℕ) (ok : Bool) : Prop :=
  ∀ r ∈ s.list.head?, r.id = id ∧ r.cacState = .reqPending ∧ NextOk ok released s.list.tail

instance (id : ℕ) (released : List ℕ) (ok : Bool) : Decidable (s.FirstOk id released ok) :=
  inferInstanceAs (Decidable (∀ r ∈ s.list.head?,
    r.id = id ∧ r.cacState = .reqPending ∧ NextOk ok released s.list.tail))

/-- The condition on what happens to the list. -/
def StepOk : Action α → Prop
  | .request _ _ ok => ∀ r ∈ s.list.head?, r.cacState = .idle → ok = true
  | .availResp answered released alloc => s.FirstOk answered released alloc.ok
  | .failedResp answered alloc => s.FirstOk answered [] alloc.ok
  | .failTimer timer alloc => s.FirstOk timer [] alloc.ok
  | .release _ => True

instance decidableStepOk (s : Cac α) : (a : Action α) → Decidable (s.StepOk a)
  | .request _ _ ok => inferInstanceAs (Decidable (∀ r ∈ s.list.head?, r.cacState = .idle → ok = true))
  | .availResp answered released alloc =>
    inferInstanceAs (Decidable (s.FirstOk answered released alloc.ok))
  | .failedResp answered alloc => inferInstanceAs (Decidable (s.FirstOk answered [] alloc.ok))
  | .failTimer timer alloc => inferInstanceAs (Decidable (s.FirstOk timer [] alloc.ok))
  | .release _ => .isTrue trivial

/-- The condition on a sequence of things that happen to the list. -/
def RunOk : Cac α → List (Action α) → Prop
  | _, [] => True
  | s, a :: as => s.StepOk a ∧ RunOk (s.step a) as

instance decidableRunOk : (s : Cac α) → (as : List (Action α)) → Decidable (RunOk s as)
  | _, [] => .isTrue trivial
  | s, a :: as =>
    have := decidableRunOk (s.step a) as
    inferInstanceAs (Decidable (s.StepOk a ∧ RunOk (s.step a) as))

variable {s}

/-! ## A record is freed or requested -/

/-- What is true between two things that happen to the list. -/
structure Inv (s : Cac α) : Prop where
  sorted : s.ids.Pairwise (· < ·)
  idleTail : ∀ r ∈ s.list.tail, r.cacState = .idle
  noResp : ∀ r ∈ s.list, r.cacState ≠ .reqResp
  before : ∀ a ∈ s.replayed, ∀ b ∈ s.ids, a < b
  answered : ∀ p ∈ s.responses, p.2.id = p.1 ∧ p.2.cacState = .reqPending
  timedOut : ∀ p ∈ s.timeouts, p.2 = some p.1
  inOrder : s.replayed.Pairwise (· < ·)
  endsOnce : (s.ids ++ s.endedIds).Perm (List.range s.next)
  notRead : s.readFreed = false

theorem Inv.lt_next (h : s.Inv) {a : ℕ} (ha : a ∈ s.ids ++ s.endedIds) : a < s.next :=
  List.mem_range.mp (h.endsOnce.subset ha)

theorem mem_ended_of_mem_replayed {a : ℕ} (ha : a ∈ s.replayed) : a ∈ s.endedIds := by
  obtain ⟨⟨r, ending⟩, he, heq⟩ := List.mem_filterMap.mp ha
  split at heq
  next => exact List.mem_map.mpr ⟨(r, ending), he, Option.some.inj heq⟩
  next => exact absurd heq (by simp)

theorem ids_fsmClearCacData (r : CacData α) (ending : Ending) :
    (s.fsmClearCacData r ending).ids = s.ids.filter (· ≠ r.id) := by
  simp only [ids, fsmClearCacData, List.filter_map]
  rfl

theorem replayed_fsmClearCacData (r : CacData α) (ending : Ending) : (s.fsmClearCacData r ending).replayed =
      s.replayed ++ if ending = .replay then [r.id] else [] := by
  simp only [replayed, fsmClearCacData, List.filterMap_append, List.filterMap_cons, List.filterMap_nil]
  cases ending <;> rfl

theorem perm_cons_filter_ne {l : List ℕ} (hl : l.Nodup) {a : ℕ} (ha : a ∈ l) : l.Perm (a :: l.filter (· ≠ a)) := by
  have herase : l.filter (· ≠ a) = l.erase a := by
    rw [hl.erase_eq_filter a]
    exact List.filter_congr fun x _ => by simp [bne, Bool.beq_eq_decide_eq]
  rw [herase]
  exact List.perm_cons_erase ha

variable {r : CacData α}

/-- A record of the list is freed. It is the first one when it is granted. -/
theorem Inv.fsmClearCacData (h : s.Inv) (ending : Ending) (hr : r ∈ s.list)
    (hfirst : ending = .replay → s.list.head? = some r) : (s.fsmClearCacData r ending).Inv := by
  have hmem : r.id ∈ s.ids := List.mem_map.mpr ⟨r, hr, rfl⟩
  have hnodup : s.ids.Nodup := h.sorted.imp fun hlt => hlt.ne
  have hsub : (s.fsmClearCacData r ending).ids.Sublist s.ids := by
    rw [ids_fsmClearCacData]
    exact List.filter_sublist
  have htail : (s.fsmClearCacData r ending).list.tail ⊆ s.list.tail := by
    rw [Cac.fsmClearCacData]
    cases s.list with
    | nil => exact List.Subset.refl _
    | cons a l =>
      rw [List.filter_cons]
      split
      · exact List.filter_subset_self _
      · exact List.Subset.trans (List.tail_sublist _).subset (List.filter_subset_self _)
  refine ⟨h.sorted.sublist hsub, fun a ha => h.idleTail a (htail ha),
    fun a ha => h.noResp a (List.mem_of_mem_filter ha), ?_, h.answered, h.timedOut, ?_, ?_, h.notRead⟩
  · intro a ha b hb
    rw [replayed_fsmClearCacData] at ha
    have hb' := hsub.subset hb
    rcases List.mem_append.mp ha with hold | hnew
    · exact h.before a hold b hb'
    · -- the record that is granted is the first one of the list
      split at hnew
      next hreplay =>
        obtain rfl := List.mem_singleton.mp hnew
        obtain ⟨l, hl⟩ : ∃ l, s.list = r :: l := List.head?_eq_some_iff.mp (hfirst hreplay)
        have hsorted := h.sorted
        rw [ids_fsmClearCacData] at hb
        have hne : b ≠ r.id := by simpa using (List.mem_filter.mp hb).2
        rw [ids, hl, List.map_cons, List.pairwise_cons] at hsorted
        rw [ids, hl, List.map_cons, List.mem_cons] at hb'
        exact hsorted.1 b (hb'.resolve_left hne)
      next => exact absurd hnew List.not_mem_nil
  · rw [replayed_fsmClearCacData]
    split
    next =>
      rw [List.pairwise_append]
      exact ⟨h.inOrder, List.pairwise_singleton _ _,
        fun a ha b hb => List.mem_singleton.mp hb ▸ h.before a ha r.id hmem⟩
    next =>
      rw [List.append_nil]
      exact h.inOrder
  · rw [ids_fsmClearCacData]
    have hended : (s.fsmClearCacData r ending).endedIds = s.endedIds ++ [r.id] := by
      simp [endedIds, Cac.fsmClearCacData]
    rw [hended]
    calc s.ids.filter (· ≠ r.id) ++ (s.endedIds ++ [r.id])
        _ = s.ids.filter (· ≠ r.id) ++ s.endedIds ++ [r.id] := (List.append_assoc ..).symm
        List.Perm _ ([r.id] ++ (s.ids.filter (· ≠ r.id) ++ s.endedIds)) := List.perm_append_comm
        List.Perm _ (s.ids ++ s.endedIds) := (perm_cons_filter_ne hnodup hmem).symm.append_right _
        List.Perm _ (List.range s.next) := h.endsOnce

variable {rest : List (CacData α)}

theorem fsmCacProcessBwAllocation_list (h : s.Inv) (hlist : s.list = r :: rest) :
    (s.fsmCacProcessBwAllocation r true).list = { r with cacState := .reqPending } :: rest := by
  have hsorted := h.sorted
  rw [ids, hlist, List.map_cons, List.pairwise_cons] at hsorted
  simp only [fsmCacProcessBwAllocation, if_true, hlist, List.map_cons]
  refine congrArg _ ?_
  conv_rhs => rw [← List.map_id rest]
  refine List.map_congr_left fun r' hr' => ?_
  rw [if_neg (hsorted.1 r'.id (List.mem_map.mpr ⟨r', hr', rfl⟩)).ne', id]

theorem Inv.fsmCacProcessBwAllocation (h : s.Inv)
    (hlist : s.list = r :: rest) : (s.fsmCacProcessBwAllocation r true).Inv := by
  have hnew := fsmCacProcessBwAllocation_list h hlist
  have hids : (s.fsmCacProcessBwAllocation r true).ids = s.ids := by
    rw [ids, hnew, ids, hlist, List.map_cons, List.map_cons]
  have htail := h.idleTail
  have hnoResp := h.noResp
  rw [hlist] at htail hnoResp
  refine ⟨hids ▸ h.sorted, ?_, ?_, fun a ha b hb => h.before a ha b (hids ▸ hb), h.answered, h.timedOut,
    h.inOrder, ?_, h.notRead⟩
  · rw [hnew]
    exact htail
  · rw [hnew, List.forall_mem_cons]
    exact ⟨by simp, fun a ha => hnoResp a (List.mem_cons_of_mem r ha)⟩
  · rw [hids]
    exact h.endsOnce

theorem Inv.fsmCacCallReleaseCleanup (h : s.Inv) (callId : ℕ) : (s.fsmCacCallReleaseCleanup callId).Inv := by
  rw [Cac.fsmCacCallReleaseCleanup]
  split
  next => exact h
  next r hr =>
    exact h.fsmClearCacData .cleanup (List.mem_of_find?_eq_some hr) fun hreplay => absurd hreplay (by simp)

variable {released : List ℕ}

theorem Inv.foldl_release (h : s.Inv) (hlist : s.list = r :: rest) (hr : r.callId ∉ released) :
    (released.foldl Cac.fsmCacCallReleaseCleanup s).Inv ∧
      ∃ rest', (released.foldl Cac.fsmCacCallReleaseCleanup s).list = r :: rest' := by
  induction released generalizing s rest with
  | nil => exact ⟨h, rest, hlist⟩
  | cons c released ih =>
    rw [List.mem_cons, not_or] at hr
    have hstep : ∃ rest', (s.fsmCacCallReleaseCleanup c).list = r :: rest' := by
      rw [Cac.fsmCacCallReleaseCleanup]
      split
      next => exact ⟨rest, hlist⟩
      next r' hr' =>
        -- the record of another call is another record
        have hcall : r'.callId = c := by simpa using List.find?_some hr'
        have hmem : r' ∈ rest := by
          have hmem := List.mem_of_find?_eq_some hr'
          rw [hlist, List.mem_cons] at hmem
          exact hmem.resolve_left fun heq => hr.1 (heq ▸ hcall)
        have hsorted := h.sorted
        rw [ids, hlist, List.map_cons, List.pairwise_cons] at hsorted
        have hne : r.id ≠ r'.id := (hsorted.1 r'.id (List.mem_map.mpr ⟨r', hmem, rfl⟩)).ne
        exact ⟨_, by rw [Cac.fsmClearCacData, hlist, List.filter_cons_of_pos (by simpa using hne)]⟩
    obtain ⟨rest', hrest'⟩ := hstep
    exact ih (h.fsmCacCallReleaseCleanup c) hrest' hr.2

theorem foldl_release_of_nil (hlist : s.list = []) (released : List ℕ) :
    released.foldl Cac.fsmCacCallReleaseCleanup s = s := by
  induction released with
  | nil => rfl
  | cons c released ih =>
    have hstep : s.fsmCacCallReleaseCleanup c = s := by
      rw [Cac.fsmCacCallReleaseCleanup, hlist]
      rfl
    rw [List.foldl_cons, hstep, ih]

variable {alloc : Alloc}

theorem Inv.endFirst (h : s.Inv) (hlist : s.list = r :: rest) (ending : Ending) (hok : NextOk alloc.ok released rest) :
    ((released.foldl Cac.fsmCacCallReleaseCleanup (s.fsmClearCacData r ending)).requestNext alloc rest.head?).Inv := by
  have hinv : (s.fsmClearCacData r ending).Inv :=
    h.fsmClearCacData ending (hlist ▸ List.mem_cons_self) fun _ => by rw [hlist, List.head?_cons]
  have hrest : (s.fsmClearCacData r ending).list = rest := by
    have hsorted := h.sorted
    rw [ids, hlist, List.map_cons, List.pairwise_cons] at hsorted
    rw [Cac.fsmClearCacData, hlist, List.filter_cons_of_neg (by simp), List.filter_eq_self]
    intro r' hr'
    simpa using (hsorted.1 r'.id (List.mem_map.mpr ⟨r', hr', rfl⟩)).ne'
  cases rest with
  | nil =>
    rw [foldl_release_of_nil hrest]
    exact hinv
  | cons n rest =>
    obtain ⟨hok, hcall⟩ := hok n rfl
    obtain ⟨hinv', rest', hlist'⟩ := hinv.foldl_release hrest hcall
    have hmem : n.id ∈ (released.foldl Cac.fsmCacCallReleaseCleanup (s.fsmClearCacData r ending)).ids := by
      rw [ids, hlist']
      exact List.mem_cons_self
    have halloc := hinv'.fsmCacProcessBwAllocation hlist'
    rw [List.head?_cons, requestNext, hok]
    refine ⟨halloc.sorted, halloc.idleTail, halloc.noResp, halloc.before, halloc.answered,
      halloc.timedOut, halloc.inOrder, halloc.endsOnce, ?_⟩
    simpa [hmem] using hinv'.notRead

/-! ## One thing happens -/

theorem Inv.append (h : s.Inv) (hid : r.id = s.next) (hresp : r.cacState ≠ .reqResp)
    (hidle : s.list ≠ [] → r.cacState = .idle) :
    Inv { s with list := s.list ++ [r], next := s.next + 1 } := by
  have hids : ids { s with list := s.list ++ [r], next := s.next + 1 } = s.ids ++ [s.next] := by
    simp [ids, hid]
  refine ⟨?_, ?_, ?_, ?_, h.answered, h.timedOut, h.inOrder, ?_, h.notRead⟩
  · rw [hids, List.pairwise_append]
    refine ⟨h.sorted, List.pairwise_singleton _ _, fun a ha b hb => ?_⟩
    rw [List.mem_singleton.mp hb]
    exact h.lt_next (List.mem_append_left _ ha)
  · cases hlist : s.list with
    | nil => simp
    | cons a l =>
      have htail := h.idleTail
      rw [hlist] at htail
      intro r' hr'
      rcases List.mem_append.mp hr' with hold | hnew
      · exact htail r' hold
      · rw [List.mem_singleton.mp hnew]
        exact hidle (by simp [hlist])
  · intro r' hr'
    rcases List.mem_append.mp hr' with hold | hnew
    · exact h.noResp r' hold
    · rwa [List.mem_singleton.mp hnew]
  · intro a ha b hb
    rw [hids] at hb
    rcases List.mem_append.mp hb with hold | hnew
    · exact h.before a ha b hold
    · rw [List.mem_singleton.mp hnew]
      exact h.lt_next (List.mem_append_right _ (mem_ended_of_mem_replayed ha))
  · rw [hids, List.range_succ]
    calc s.ids ++ [s.next] ++ s.endedIds
        List.Perm _ (s.ids ++ s.endedIds ++ [s.next]) := by
          rw [List.append_assoc, List.append_assoc]
          exact List.perm_append_comm.append_left _
        List.Perm _ (List.range s.next ++ [s.next]) := h.endsOnce.append_right _

theorem list_cases (s : Cac α) : s.list = [] ∨ ∃ r rest, s.list = r :: rest := by
  cases s.list with
  | nil => exact .inl rfl
  | cons r rest => exact .inr ⟨r, rest, rfl⟩

theorem FirstOk.of_cons {id : ℕ} {ok : Bool} (h : s.FirstOk id released ok) (hlist : s.list = r :: rest) :
    r.id = id ∧ r.cacState = .reqPending ∧ NextOk ok released rest := by
  have hfirst := h r (by simp [hlist])
  rwa [hlist, List.tail_cons] at hfirst

theorem Inv.fsmCacCallBandwidthReq (h : s.Inv) {callId : ℕ} {msgPtr : α} {ok : Bool}
    (hok : s.StepOk (.request callId msgPtr ok)) :
    (s.fsmCacCallBandwidthReq callId msgPtr ok).2.Inv := by
  rw [Cac.fsmCacCallBandwidthReq]
  rcases s.list_cases with hlist | ⟨p, rest, hlist⟩
  · simp only [fsmCacCheckIfPendingReq, hlist, List.find?_nil]
    cases ok with
    | true =>
      have happend := h.append (r := { id := s.next, callId, msgPtr, cacState := .reqPending }) rfl
        (by simp) fun hne => absurd hlist hne
      simpa [Cac.fsmCacProcessBwAllocation, hlist] using happend
    | false =>
      -- the record is freed at once
      have happend := h.append (r := { id := s.next, callId, msgPtr }) rfl (by simp) fun _ => rfl
      have hclear := happend.fsmClearCacData .failure
        (List.mem_append_right s.list List.mem_cons_self) fun hreplay => absurd hreplay (by simp)
      simpa [Cac.fsmCacProcessBwAllocation, Cac.fsmClearCacData, hlist] using hclear
  · have hfirst : s.fsmCacCheckIfPendingReq = some p := by
      have hp : p.cacState ≠ .reqResp := h.noResp p (hlist ▸ List.mem_cons_self)
      rw [fsmCacCheckIfPendingReq, hlist, List.find?_cons_of_pos]
      cases hstate : p.cacState <;> simp_all
    have hfirst' : fsmCacCheckIfPendingReq { s with next := s.next + 1 } = some p := hfirst
    simp only [hfirst']
    split
    next hidle =>
      obtain rfl : ok = true := hok p (by simp [hlist]) hidle
      exact (h.fsmCacProcessBwAllocation hlist).append (r := { id := s.next, callId, msgPtr }) rfl (by simp)
        fun _ => rfl
    next => exact h.append (r := { id := s.next, callId, msgPtr }) rfl (by simp) fun _ => rfl

theorem Inv.respond (h : s.Inv) (hr : r.cacState = .reqPending) : (s.respond r.id r).Inv := by
  refine ⟨h.sorted, h.idleTail, h.noResp, h.before, fun p hp => ?_, h.timedOut, h.inOrder, h.endsOnce,
    h.notRead⟩
  rcases List.mem_append.mp hp with hold | hnew
  · exact h.answered p hold
  · rw [List.mem_singleton.mp hnew]
    exact ⟨rfl, hr⟩

theorem Inv.failFirst (h : s.Inv) (hlist : s.list = r :: rest) (hpending : r.cacState = .reqPending)
    (hnext : NextOk alloc.ok [] rest) : (s.failFirst alloc).Inv := by
  have hfail := h.endFirst hlist .failure hnext
  simpa [Cac.failFirst, hlist, hpending] using hfail

theorem Inv.step (h : s.Inv) {a : Action α} (hok : s.StepOk a) : (s.step a).Inv := by
  cases a with
  | request callId msgPtr ok => exact h.fsmCacCallBandwidthReq hok
  | release callId => exact h.fsmCacCallReleaseCleanup callId
  | availResp answered released alloc =>
    rw [Cac.step, fsmCacProcessBwAvailResp]
    split
    next => exact h
    next r rest hlist =>
      obtain ⟨rfl, hpending, hnext⟩ := FirstOk.of_cons hok hlist
      simp only [hpending]
      exact (h.respond hpending).endFirst hlist .replay hnext
  | failedResp answered alloc =>
    rw [Cac.step, fsmCacProcessBwFailedResp]
    split
    next => exact h
    next r rest hlist =>
      obtain ⟨rfl, hpending, hnext⟩ := FirstOk.of_cons hok hlist
      exact (h.respond hpending).failFirst hlist hpending hnext
  | failTimer timer alloc =>
    rw [Cac.step, fsmCacProcessBwFailTimer]
    rcases s.list_cases with hlist | ⟨r, rest, hlist⟩
    · have hfail : s.failFirst alloc = s := by rw [Cac.failFirst, hlist]
      rw [if_neg (by simp [ids, failing, hlist]), hfail]
      exact h
    · obtain ⟨rfl, hpending, hnext⟩ := FirstOk.of_cons hok hlist
      have hfailing : s.failing = some r.id := by simp [failing, hlist, hpending]
      rw [if_pos (.inr (by simp [hfailing])), hfailing]
      have hlog : Inv { s with timeouts := s.timeouts ++ [(r.id, some r.id)] } := by
        refine ⟨h.sorted, h.idleTail, h.noResp, h.before, h.answered, fun p hp => ?_, h.inOrder,
          h.endsOnce, h.notRead⟩
        rcases List.mem_append.mp hp with hold | hnew
        · exact h.timedOut p hold
        · rw [List.mem_singleton.mp hnew]
      exact hlog.failFirst hlist hpending hnext

theorem Inv.run (h : s.Inv) {actions : List (Action α)} (hok : s.RunOk actions) : (s.run actions).Inv := by
  induction actions generalizing s with
  | nil => exact h
  | cons a actions ih => exact ih (h.step hok.1) hok.2

theorem Inv.serialised (h : s.Inv) : s.Serialised := by
  refine ⟨?_, h.answered, h.timedOut, h.inOrder, h.endsOnce, h.notRead⟩
  have htail := h.idleTail
  cases hlist : s.list with
  | nil => simp
  | cons r rest =>
    rw [hlist] at htail
    have hrest : rest.filter (fun r => r.cacState = .reqPending) = [] := by
      rw [List.filter_eq_nil_iff]
      intro r' hr'
      simp [htail r' hr']
    rw [List.filter_cons]
    split <;> simp [hrest]

/-- **Requests for bandwidth.** The requests are taken one after the other in every run in which an answer
or a timer is for the first record, whose allocation was requested, the allocation of a record that waits
is not refused at once, and the replay of a message does not release the call that waits next. -/
theorem serialised_of_ok {actions : List (Action α)} (hok : RunOk {} actions) :
    (run {} actions).Serialised := by
  have hinit : Inv (α := α) {} :=
    ⟨List.Pairwise.nil, by simp, by simp, by simp [replayed], by simp, by simp, List.Pairwise.nil,
      by simp [ids, endedIds], rfl⟩
  exact (hinit.run hok).serialised

/-- Two calls are granted their bandwidth. -/
theorem serialised_twoCalls :
    (run {} [.request 1 "first" true, .request 2 "second" true, .availResp 0 [] {},
        .availResp 1 [] {}]).replayed = [0, 1] ∧
      (run {} [.request 1 "first" true, .request 2 "second" true, .availResp 0 [] {},
        .availResp 1 [] {}]).Serialised :=
  ⟨by decide, serialised_of_ok (by decide)⟩

/-- The answer for a call that has been released is taken for the next call. -/
theorem not_serialised : ¬ ∀ actions : List (Action String), (run {} actions).Serialised := by
  intro h
  have hanswered :=
    (h [.request 1 "first" true, .release 1, .request 2 "second" true, .availResp 0 [] {}]).answered
  revert hanswered
  decide

/-! ## The messages of the records -/

/-- The messages that the records hold, and those that were freed with their record. -/
def messages (s : Cac α) : List α :=
  s.list.map CacData.msgPtr ++ s.ended.map fun e => e.1.msgPtr

/-- The records are different ones. -/
structure Distinct (s : Cac α) : Prop where
  sorted : s.ids.Pairwise (· < ·)
  lt_next : ∀ a ∈ s.ids, a < s.next

/-- The records stay different ones, and no message is lost or freed twice. -/
structure Moved (s s' : Cac α) : Prop where
  messages : s'.messages.Perm s.messages
  distinct : s'.Distinct

theorem Moved.refl (h : s.Distinct) : Moved s s := ⟨.refl _, h⟩

theorem Moved.trans {s' s'' : Cac α} (h : Moved s s') (h' : Moved s' s'') : Moved s s'' :=
  ⟨h'.messages.trans h.messages, h'.distinct⟩

theorem Distinct.eq_of_id_eq (h : s.Distinct) {r' : CacData α} (hr : r ∈ s.list) (hr' : r' ∈ s.list)
    (heq : r.id = r'.id) : r = r' :=
  List.inj_on_of_nodup_map (h.sorted.imp fun hlt => hlt.ne) hr hr' heq

theorem perm_msgPtr_filter {l : List (CacData α)} (hl : (l.map CacData.id).Pairwise (· < ·)) (hr : r ∈ l) :
    (l.map CacData.msgPtr).Perm (r.msgPtr :: (l.filter fun r' => r'.id ≠ r.id).map CacData.msgPtr) := by
  induction l with
  | nil => exact absurd hr List.not_mem_nil
  | cons a l ih =>
    rw [List.map_cons, List.pairwise_cons] at hl
    rcases List.mem_cons.mp hr with rfl | hmem
    · have hrest : l.filter (fun r' => r'.id ≠ r.id) = l := by
        rw [List.filter_eq_self]
        intro r' hr'
        simpa using (hl.1 r'.id (List.mem_map.mpr ⟨r', hr', rfl⟩)).ne'
      rw [List.filter_cons_of_neg (by simp), hrest, List.map_cons]
    · have hne : a.id ≠ r.id := (hl.1 r.id (List.mem_map.mpr ⟨r, hmem, rfl⟩)).ne
      rw [List.filter_cons_of_pos (by simpa using hne), List.map_cons, List.map_cons]
      exact ((ih hl.2 hmem).cons _).trans (.swap ..)

theorem Distinct.fsmClearCacData (h : s.Distinct) (hr : r ∈ s.list) (ending : Ending) :
    Moved s (s.fsmClearCacData r ending) := by
  have hsub : (s.fsmClearCacData r ending).ids.Sublist s.ids := by
    rw [ids_fsmClearCacData]
    exact List.filter_sublist
  refine ⟨?_, h.sorted.sublist hsub, fun a ha => h.lt_next a (hsub.subset ha)⟩
  have hperm := perm_msgPtr_filter h.sorted hr
  rw [messages, messages, Cac.fsmClearCacData, List.map_append, List.map_singleton, ← List.append_assoc]
  refine List.perm_append_comm.trans ?_
  exact (hperm.symm.append_right (s.ended.map fun e => e.1.msgPtr))

theorem moved_fsmCacClearList (s : Cac α) : Moved s s.fsmCacClearList := by
  refine ⟨?_, List.Pairwise.nil, fun a ha => absurd ha List.not_mem_nil⟩
  simp only [messages, fsmCacClearList, List.map_nil, List.nil_append, List.map_append, List.map_map]
  exact List.perm_append_comm

theorem Distinct.fsmCacProcessBwAllocation (h : s.Distinct) (ok : Bool)
    (hr : ok = false → r ∈ s.list) : Moved s (s.fsmCacProcessBwAllocation r ok) := by
  cases ok with
  | false => exact h.fsmClearCacData (hr rfl) .failure
  | true =>
    have hids : (s.fsmCacProcessBwAllocation r true).ids = s.ids := by
      simp only [ids, Cac.fsmCacProcessBwAllocation, if_true, List.map_map]
      refine List.map_congr_left fun r' _ => ?_
      simp only [Function.comp_apply]
      split <;> rfl
    have hmessages : (s.fsmCacProcessBwAllocation r true).messages = s.messages := by
      simp only [messages, Cac.fsmCacProcessBwAllocation, if_true, List.map_map]
      refine congrArg (· ++ _) (List.map_congr_left fun r' _ => ?_)
      simp only [Function.comp_apply]
      split <;> rfl
    exact ⟨hmessages ▸ .refl _, hids ▸ h.sorted, fun a ha => h.lt_next a (hids ▸ ha)⟩

theorem Distinct.fsmCacCallReleaseCleanup (h : s.Distinct) (callId : ℕ) :
    Moved s (s.fsmCacCallReleaseCleanup callId) := by
  rw [Cac.fsmCacCallReleaseCleanup]
  split
  next => exact .refl h
  next r hr => exact h.fsmClearCacData (List.mem_of_find?_eq_some hr) .cleanup

theorem Distinct.mem_fsmCacCallReleaseCleanup (h : s.Distinct) {callId : ℕ}
    (hr : r ∈ s.list) (hcall : r.callId ≠ callId) : r ∈ (s.fsmCacCallReleaseCleanup callId).list := by
  rw [Cac.fsmCacCallReleaseCleanup]
  split
  next => exact hr
  next r' hr' =>
    have hcall' : r'.callId = callId := by simpa using List.find?_some hr'
    refine List.mem_filter.mpr ⟨hr, ?_⟩
    have hne : r.id ≠ r'.id := fun heq =>
      hcall (h.eq_of_id_eq hr (List.mem_of_find?_eq_some hr') heq ▸ hcall')
    simpa using hne

theorem Distinct.foldl_release (h : s.Distinct) (released : List ℕ) :
    Moved s (released.foldl Cac.fsmCacCallReleaseCleanup s) ∧
      ∀ r ∈ s.list, r.callId ∉ released → r ∈ (released.foldl Cac.fsmCacCallReleaseCleanup s).list := by
  induction released generalizing s with
  | nil => exact ⟨.refl h, fun r hr _ => hr⟩
  | cons c released ih =>
    have hstep := h.fsmCacCallReleaseCleanup c
    obtain ⟨hmoved, hstays⟩ := ih hstep.distinct
    refine ⟨hstep.trans hmoved, fun r hr hnot => ?_⟩
    rw [List.mem_cons, not_or] at hnot
    exact hstays r (h.mem_fsmCacCallReleaseCleanup hr hnot.1) hnot.2

/-- The bandwidth of the next record is requested. The record is in the list when its failure is
reported. -/
theorem Distinct.requestNext (h : s.Distinct) {next : Option (CacData α)}
    (hnext : ∀ r ∈ next, alloc.ok = false → r ∈ s.list) : Moved s (s.requestNext alloc next) := by
  cases next with
  | none => exact .refl h
  | some r =>
    have halloc := h.fsmCacProcessBwAllocation alloc.ok (hnext r rfl)
    rw [Cac.requestNext]
    have hread : Moved s { s.fsmCacProcessBwAllocation r alloc.ok with
        readFreed := s.readFreed || decide (r.id ∉ s.ids) || !alloc.ok } :=
      ⟨halloc.messages, halloc.distinct.sorted, halloc.distinct.lt_next⟩
    dsimp only
    split
    · exact hread.trans (moved_fsmCacClearList _)
    · exact hread

theorem Distinct.endFirst (h : s.Distinct) (hlist : s.list = r :: rest) (ending : Ending) (released : List ℕ)
    (hnext : ∀ n ∈ rest.head?, alloc.ok = false → n.callId ∉ released) :
    Moved s ((released.foldl Cac.fsmCacCallReleaseCleanup (s.fsmClearCacData r ending)).requestNext alloc
      rest.head?) := by
  have hclear := h.fsmClearCacData (hlist ▸ List.mem_cons_self) ending
  obtain ⟨hmoved, hstays⟩ := hclear.distinct.foldl_release released
  refine (hclear.trans hmoved).trans (hmoved.distinct.requestNext fun n hn hok => ?_)
  -- the next record is still in the list
  have hmem : n ∈ rest := List.mem_of_mem_head? hn
  have hsorted := h.sorted
  rw [ids, hlist, List.map_cons, List.pairwise_cons] at hsorted
  refine hstays n (List.mem_filter.mpr ⟨hlist ▸ List.mem_cons_of_mem r hmem, ?_⟩) (hnext n hn hok)
  simpa using (hsorted.1 n.id (List.mem_map.mpr ⟨n, hmem, rfl⟩)).ne'

theorem Distinct.respond (h : s.Distinct) (answered : ℕ) (r : CacData α) : Moved s (s.respond answered r) :=
  ⟨.refl _, h.sorted, h.lt_next⟩

theorem Distinct.fsmCacProcessBwAvailResp (h : s.Distinct) (answered : ℕ)
    (hnext : ∀ n ∈ s.list.tail.head?, alloc.ok = false → n.callId ∉ released) :
    Moved s (s.fsmCacProcessBwAvailResp answered released alloc) := by
  rw [Cac.fsmCacProcessBwAvailResp]
  split
  next => exact .refl h
  next r rest hlist =>
    rw [hlist, List.tail_cons] at hnext
    have hrespond := h.respond answered r
    split
    next => exact hrespond.trans (hrespond.distinct.endFirst hlist .replay _ hnext)
    next =>
      exact hrespond.trans (hrespond.distinct.fsmCacProcessBwAllocation _ fun _ =>
        hlist ▸ List.mem_cons_self)

theorem Distinct.failFirst (h : s.Distinct) (alloc : Alloc) : Moved s (s.failFirst alloc) := by
  rw [Cac.failFirst]
  split
  next => exact .refl h
  next r rest hlist =>
    split
    next => exact h.endFirst hlist .failure [] fun _ _ _ => List.not_mem_nil
    next => exact h.fsmCacProcessBwAllocation _ fun _ => hlist ▸ List.mem_cons_self

theorem Distinct.fsmCacProcessBwFailedResp (h : s.Distinct) (answered : ℕ) (alloc : Alloc) :
    Moved s (s.fsmCacProcessBwFailedResp answered alloc) := by
  rw [Cac.fsmCacProcessBwFailedResp]
  split
  next => exact .refl h
  next r _ _ =>
    have hrespond := h.respond answered r
    exact hrespond.trans (hrespond.distinct.failFirst alloc)

theorem Distinct.fsmCacProcessBwFailTimer (h : s.Distinct) (timer : ℕ) (alloc : Alloc) :
    Moved s (s.fsmCacProcessBwFailTimer timer alloc) := by
  rw [Cac.fsmCacProcessBwFailTimer]
  split
  · have hlog : Moved s { s with timeouts := s.timeouts ++ [(timer, s.failing)] } := ⟨.refl _, h.sorted, h.lt_next⟩
    exact hlog.trans (hlog.distinct.failFirst alloc)
  · exact h.failFirst alloc

theorem Distinct.append (h : s.Distinct) (hid : r.id = s.next) :
    Distinct { s with list := s.list ++ [r], next := s.next + 1 } ∧
      (messages { s with list := s.list ++ [r], next := s.next + 1 }).Perm (r.msgPtr :: s.messages) := by
  have hids : ids { s with list := s.list ++ [r], next := s.next + 1 } = s.ids ++ [s.next] := by
    simp [ids, hid]
  refine ⟨⟨?_, fun a ha => ?_⟩, ?_⟩
  · rw [hids, List.pairwise_append]
    exact ⟨h.sorted, List.pairwise_singleton _ _, fun a ha b hb => List.mem_singleton.mp hb ▸ h.lt_next a ha⟩
  · rw [hids] at ha
    rcases List.mem_append.mp ha with hold | hnew
    · exact (h.lt_next a hold).trans (Nat.lt_succ_self _)
    · rw [List.mem_singleton.mp hnew]
      exact Nat.lt_succ_self _
  · rw [messages, messages, List.map_append, List.map_singleton, List.append_assoc, List.singleton_append]
    exact List.perm_middle

/-- A call requests bandwidth. Its message is held or was freed, except where the request of a record that
waits was refused, which leaves the message to the caller. -/
theorem Distinct.fsmCacCallBandwidthReq (h : s.Distinct) (callId : ℕ) (msgPtr : α) (ok : Bool) :
    (s.fsmCacCallBandwidthReq callId msgPtr ok).2.Distinct ∧
      ((s.fsmCacCallBandwidthReq callId msgPtr ok).2.messages.Perm (msgPtr :: s.messages) ∧
          ((s.fsmCacCallBandwidthReq callId msgPtr ok).1 = true ∨ s.fsmCacCheckIfPendingReq = none ∧ ok = false) ∨
        (s.fsmCacCallBandwidthReq callId msgPtr ok).2.messages.Perm s.messages ∧
          (s.fsmCacCallBandwidthReq callId msgPtr ok).1 = false) := by
  rw [Cac.fsmCacCallBandwidthReq]
  have hcheck : fsmCacCheckIfPendingReq { s with next := s.next + 1 } = s.fsmCacCheckIfPendingReq := rfl
  cases hfirst : s.fsmCacCheckIfPendingReq with
  | none =>
    simp only [hcheck, hfirst]
    cases ok with
    | true =>
      have halloc := h.fsmCacProcessBwAllocation (r := { id := s.next, callId, msgPtr }) true (by simp)
      obtain ⟨hdistinct, hmessages⟩ := halloc.distinct.append
        (r := { id := s.next, callId, msgPtr, cacState := .reqPending }) rfl
      exact ⟨hdistinct, .inl ⟨hmessages.trans (halloc.messages.cons msgPtr), .inl rfl⟩⟩
    | false =>
      -- the record is freed at once, with the message
      obtain ⟨hdistinct, hmessages⟩ := h.append (r := { id := s.next, callId, msgPtr }) rfl
      have hclear := hdistinct.fsmClearCacData (List.mem_append_right s.list List.mem_cons_self) .failure
      have hlist : (s.list ++ [(⟨s.next, callId, msgPtr, .idle⟩ : CacData α)]).filter
          (fun r' => r'.id ≠ s.next) = s.list.filter fun r' => r'.id ≠ s.next := by
        rw [List.filter_append, List.filter_cons_of_neg (by simp), List.filter_nil, List.append_nil]
      simp only [Cac.fsmClearCacData, hlist] at hclear
      simp only [Cac.fsmCacProcessBwAllocation, Cac.fsmClearCacData, Bool.false_eq_true, if_false]
      exact ⟨hclear.distinct, .inl ⟨hclear.messages.trans hmessages, .inr (by simp)⟩⟩
  | some p =>
    simp only [hcheck, hfirst]
    have hp : p ∈ s.list := List.mem_of_find?_eq_some hfirst
    split
    next =>
      cases ok with
      | true =>
        have halloc := h.fsmCacProcessBwAllocation (r := p) true (by simp)
        obtain ⟨hdistinct, hmessages⟩ := halloc.distinct.append (r := { id := s.next, callId, msgPtr }) rfl
        exact ⟨hdistinct, .inl ⟨hmessages.trans (halloc.messages.cons msgPtr), .inl rfl⟩⟩
      | false =>
        have hnext : Moved s { s with next := s.next + 1 } :=
          ⟨.refl _, h.sorted, fun a ha => (h.lt_next a ha).trans (Nat.lt_succ_self _)⟩
        have halloc := hnext.distinct.fsmCacProcessBwAllocation (r := p) false fun _ => hp
        have hall := (hnext.trans halloc).trans (moved_fsmCacClearList _)
        exact ⟨hall.distinct, .inr ⟨hall.messages, rfl⟩⟩
    next =>
      obtain ⟨hdistinct, hmessages⟩ := h.append (r := { id := s.next, callId, msgPtr }) rfl
      exact ⟨hdistinct, .inl ⟨hmessages, .inl rfl⟩⟩

end Cac

end Gsm
