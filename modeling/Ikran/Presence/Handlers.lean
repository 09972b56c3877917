import Ikran.Lib.HeapTrace
import Ikran.Presence.Requests
import Mathlib.Data.List.Nodup

/-!
# Handlers of presence requests

A handler of requests accesses requests that are not freed, and keeps the requests of the list apart. It
leaves the notifications as they are.
-/

namespace Presence

open HeapTrace (Safe alive safe_append alive_append)

/-! ## Traces -/

instance : HeapEffect Effect where
  heapOp
    | .alloc ptr => some (.alloc ptr)
    | .access ptr => some (.access ptr)
    | .free ptr => some (.free ptr)
    | .freeEventData _ | .subscribe .. | .subscribeTerm .. | .notifyAck .. | .uiBlfNotification .. => none
    | .alertTone => none

@[simp]
theorem heapOp_freeEventData (ptr : ℕ) : HeapEffect.heapOp (Effect.freeEventData ptr) = none := rfl

/-- The lists of event data that a trace frees. -/
def freedEventData (tr : List Effect) : List ℕ :=
  tr.filterMap fun e => match e with
    | .freeEventData ptr => some ptr
    | _ => none

section

variable {l : List ℕ} {tr tr' : List Effect} {ptr : ℕ}

@[simp]
theorem freedEventData_append : freedEventData (tr ++ tr') = freedEventData tr ++ freedEventData tr' :=
  List.filterMap_append

/-- A part of a trace that accesses requests that are not freed, and does nothing else to the memory. -/
structure Quiet (l : List ℕ) (tr : List Effect) : Prop where
  safe : Safe l tr
  alive : alive l tr = l
  eventData : freedEventData tr = []

theorem quiet_nil : Quiet l [] := ⟨trivial, rfl, rfl⟩

theorem quiet_sendSubscribe {r : Request} (h : r.ptr ∈ l) : Quiet l (Module.sendSubscribe r) :=
  ⟨⟨h, trivial, trivial⟩, rfl, rfl⟩

theorem Quiet.append (h : Quiet l tr) (h' : Quiet l tr') : Quiet l (tr ++ tr') where
  safe := (safe_append l tr tr').2 ⟨h.safe, by rw [h.alive]; exact h'.safe⟩
  alive := by rw [alive_append, h.alive, h'.alive]
  eventData := by rw [freedEventData_append, h.eventData, h'.eventData]; rfl

/-- An effect that accesses a request that is not freed, or does nothing to the memory. -/
def Effect.Quiet (l : List ℕ) : Effect → Prop
  | .access ptr => ptr ∈ l
  | .alloc _ | .free _ | .freeEventData _ => False
  | _ => True

theorem quiet_of_forall (h : ∀ e ∈ tr, e.Quiet l) : Quiet l tr := by
  induction tr with
  | nil => exact ⟨trivial, rfl, rfl⟩
  | cons e tr ih =>
    obtain ⟨he, htr⟩ := List.forall_mem_cons.1 h
    obtain ⟨hsafe, halive, hdata⟩ := ih htr
    cases e with
    | alloc | free | freeEventData => exact he.elim
    | access => exact ⟨⟨he, hsafe⟩, halive, hdata⟩
    | subscribe | subscribeTerm | notifyAck | uiBlfNotification | alertTone =>
      exact ⟨⟨trivial, hsafe⟩, halive, hdata⟩

theorem quiet_alert (state : BlfState) : Quiet l (Module.alert state) := by
  refine quiet_of_forall fun e he => ?_
  simp only [Module.alert] at he
  split_ifs at he
  · obtain rfl := List.mem_singleton.1 he
    trivial
  · cases he

end

/-! ## Handlers of requests -/

namespace Module

variable {s : Module} {l : List ℕ} {r : Request}

/-- The requests of the list are not freed, and have different pointers and ids. -/
structure Wf (s : Module) (l : List ℕ) : Prop where
  alive : ∀ r ∈ s.list, r.ptr ∈ l
  fresh : ∀ ptr ∈ l, ptr < s.nextPtr
  ptrs : (s.list.map Request.ptr).Nodup
  ids : (s.list.map Request.requestId).Nodup

/-- What a handler of requests keeps: it accesses requests that are not freed, and leaves the notifications
as they are. -/
structure Handles (s : Module) (l : List ℕ) (result : Module × List Effect) : Prop where
  safe : Safe l result.2
  wf : Wf result.1 (alive l result.2)
  pending : result.1.pending = s.pending
  nextEventPtr : result.1.nextEventPtr = s.nextEventPtr
  eventData : freedEventData result.2 = []
  initialized : result.1.initialized → s.initialized

theorem mem_list_of_find {requestId : ℤ} (h : s.find requestId = some r) : r ∈ s.list ∧ r.requestId = requestId :=
  ⟨List.mem_of_find?_eq_some h, by simpa using List.find?_some h⟩

@[simp]
theorem list_update (s : Module) (r : Request) :
    (s.update r).list = s.list.map fun r' => if r'.ptr = r.ptr then r else r' := by
  cases h : s.requests <;> simp [list, update, h]

variable {r₀ : Request}

theorem mem_list_update (hr : r₀ ∈ s.list) (hptr : r.ptr = r₀.ptr) : r ∈ (s.update r).list := by
  rw [list_update, List.mem_map]
  exact ⟨r₀, hr, if_pos hptr.symm⟩

@[simp]
theorem list_freeSubRequest (s : Module) (r : Request) :
    (s.freeSubRequest r).1.list = s.list.filter (·.ptr ≠ r.ptr) := by
  cases h : s.requests <;> simp [list, freeSubRequest, h]

theorem Wf.of_list {s' : Module} (h : s.Wf l) (hlist : s'.list = s.list) (hptr : s'.nextPtr = s.nextPtr) : s'.Wf l where
  alive := by rw [hlist]; exact h.alive
  fresh := by rw [hptr]; exact h.fresh
  ptrs := by rw [hlist]; exact h.ptrs
  ids := by rw [hlist]; exact h.ids

theorem Wf.update (h : s.Wf l) (r : Request) (hmem : r₀ ∈ s.list) (hptr : r.ptr = r₀.ptr)
    (hid : r.requestId = r₀.requestId) : (s.update r).Wf l where
  alive := by
    intro r' hr'
    rw [list_update, List.mem_map] at hr'
    obtain ⟨r'', hr'', rfl⟩ := hr'
    split_ifs
    · exact hptr ▸ h.alive r₀ hmem
    · exact h.alive r'' hr''
  fresh := h.fresh
  ptrs := by
    have hmap : (s.update r).list.map Request.ptr = s.list.map Request.ptr := by
      rw [list_update, List.map_map]
      refine List.map_congr_left fun r' _ => ?_
      by_cases hp : r'.ptr = r.ptr <;> simp [hp]
    rw [hmap]
    exact h.ptrs
  ids := by
    have hmap : (s.update r).list.map Request.requestId = s.list.map Request.requestId := by
      rw [list_update, List.map_map]
      refine List.map_congr_left fun r' hr' => ?_
      by_cases hp : r'.ptr = r.ptr
      · -- the pointers are different
        have heq : r' = r₀ := List.inj_on_of_nodup_map h.ptrs hr' hmem (hp.trans hptr)
        rw [Function.comp_apply, if_pos hp, hid, heq]
      · simp [hp]
    rw [hmap]
    exact h.ids

theorem Wf.freeSubRequest (h : s.Wf l) (r : Request) : (s.freeSubRequest r).1.Wf (l.filter (· ≠ r.ptr)) where
  alive := by
    intro r' hr'
    rw [list_freeSubRequest, List.mem_filter] at hr'
    exact List.mem_filter.2 ⟨h.alive r' hr'.1, hr'.2⟩
  fresh := fun ptr hptr => h.fresh ptr (List.mem_filter.1 hptr).1
  ptrs := by
    rw [list_freeSubRequest]
    exact h.ptrs.sublist (List.filter_sublist.map _)
  ids := by
    rw [list_freeSubRequest]
    exact h.ids.sublist (List.filter_sublist.map _)

theorem handles_self (h : s.Wf l) {tr : List Effect} (hquiet : Quiet l tr) : Handles s l (s, tr) where
  safe := hquiet.safe
  wf := by
    rw [hquiet.alive]
    exact h
  pending := rfl
  nextEventPtr := rfl
  eventData := hquiet.eventData
  initialized := id

theorem handles_freeSubRequest (h : s.Wf l) (hmem : r.ptr ∈ l) : Handles s l (s.freeSubRequest r) where
  safe := ⟨hmem, hmem, trivial⟩
  wf := h.freeSubRequest r
  pending := rfl
  nextEventPtr := rfl
  eventData := rfl
  initialized := id

variable {result : Module × List Effect}

theorem Handles.prepend {tr : List Effect} (h : Handles s l result)
    (hquiet : Quiet l tr) : Handles s l (result.1, tr ++ result.2) where
  safe := (safe_append l tr _).2 ⟨hquiet.safe, by rw [hquiet.alive]; exact h.safe⟩
  wf := by
    rw [alive_append, hquiet.alive]
    exact h.wf
  pending := h.pending
  nextEventPtr := h.nextEventPtr
  eventData := by
    rw [freedEventData_append, hquiet.eventData, h.eventData]
    rfl
  initialized := h.initialized

theorem Handles.cons {e : Effect} (h : Handles s l result) (he : e.Quiet l) : Handles s l (result.1, e :: result.2) :=
  have hquiet : Quiet l [e] := quiet_of_forall (by simpa using he)
  h.prepend hquiet

theorem Handles.access {ptr : ℕ} (h : Handles s l result)
    (hptr : ptr ∈ l) : Handles s l (result.1, .access ptr :: result.2) :=
  h.cons hptr

theorem Handles.of_frame {s' : Module} (h : Handles s' l result)
    (hpending : s'.pending = s.pending) (hnext : s'.nextEventPtr = s.nextEventPtr)
    (hinit : s'.initialized → s.initialized) : Handles s l result :=
  ⟨h.safe, h.wf, h.pending.trans hpending, h.nextEventPtr.trans hnext, h.eventData, hinit ∘ h.initialized⟩

theorem handles_subscribeOrFree (h : s.Wf l) (hmem : r.ptr ∈ l) (sent : Bool) {failed : List Effect}
    (hfailed : Quiet l failed) : Handles s l (s.subscribeOrFree r sent failed) := by
  cases sent with
  | true => exact handles_self h (quiet_sendSubscribe hmem)
  | false =>
    exact (handles_freeSubRequest h hmem).prepend ((quiet_sendSubscribe hmem).append hfailed)

theorem quiet_access {ptr : ℕ} (h : ptr ∈ l) : Quiet l [.access ptr] := ⟨⟨h, trivial⟩, rfl, rfl⟩

theorem handles_subscribeState (h : s.Wf l) (hmem : r.ptr ∈ l) (appId : ℤ) (sent : Bool) :
    Handles s l (s.subscribeState r appId sent) := by
  have hquiet := (quiet_access hmem).append (quiet_sendSubscribe hmem)
  cases sent with
  | true => exact handles_self h hquiet
  | false =>
    have hfreed := (handles_freeSubRequest h hmem).prepend hquiet
    refine ⟨?_, ?_, rfl, rfl, ?_, id⟩
    · exact (safe_append l _ [_]).2 ⟨hfreed.safe, trivial, trivial⟩
    · exact hfreed.wf
    · rfl

theorem Wf.appendRequest (h : s.Wf l) (hptr : r.ptr = s.nextPtr) (hid : s.find r.requestId = none)
    (node : Bool) : (s.appendRequest r node).Wf (r.ptr :: l) := by
  have hfresh : ∀ ptr ∈ r.ptr :: l, ptr < (s.appendRequest r node).nextPtr := by
    intro ptr hmem
    obtain rfl | hmem := List.mem_cons.1 hmem
    · exact hptr ▸ Nat.lt_succ_self _
    · exact Nat.lt_succ_of_lt (h.fresh ptr hmem)
  cases node with
  | false => exact ⟨fun r' hr' => List.mem_cons_of_mem _ (h.alive r' hr'), hfresh, h.ptrs, h.ids⟩
  | true =>
    have hlist : (s.appendRequest r true).list = s.list ++ [r] := rfl
    refine ⟨?_, hfresh, ?_, ?_⟩ <;> rw [hlist]
    · intro r' hr'
      obtain hr' | hr' := List.mem_append.1 hr'
      · exact List.mem_cons_of_mem _ (h.alive r' hr')
      · obtain rfl := List.mem_singleton.1 hr'
        exact List.mem_cons_self
    · -- the pointer is not used yet
      rw [List.map_append, List.map_singleton, List.nodup_append]
      refine ⟨h.ptrs, List.nodup_singleton _, ?_⟩
      simp only [List.mem_map, List.mem_singleton]
      rintro _ ⟨r', hr', rfl⟩ _ rfl heq
      exact absurd (h.fresh _ (h.alive r' hr')) (by omega)
    · rw [List.map_append, List.map_singleton, List.nodup_append]
      refine ⟨h.ids, List.nodup_singleton _, ?_⟩
      simp only [List.mem_map, List.mem_singleton]
      rintro _ ⟨r', hr', rfl⟩ _ rfl heq
      have := List.find?_eq_none.1 hid r' hr'
      simp [heq] at this

/-- **A state is asked for.** -/
theorem handles_getState (h : s.Wf l) (requestId duration : ℤ) (watcher presentity : CStr) (appId : ℤ)
    (featureMask : UInt32) (memory : Memory) (sent : Bool) :
    Handles s l (s.getState requestId duration watcher presentity appId featureMask memory sent) := by
  have h' : s.createList.Wf l := h.of_list rfl rfl
  by_cases hlist : s.requests = none ∧ memory.list = false
  · rw [getState, if_pos hlist]
    exact handles_self h ⟨⟨trivial, trivial⟩, rfl, rfl⟩
  rw [getState, if_neg hlist]
  cases hfind : s.find requestId with
  | some r =>
    obtain ⟨hr, -⟩ := mem_list_of_find hfind
    exact (handles_subscribeState (h'.update { r with duration } hr rfl rfl) (r := { r with duration })
      (h.alive r hr) appId sent).of_frame rfl rfl id
  | none =>
    simp only
    split_ifs with hentry
    · exact ⟨trivial, h', rfl, rfl, rfl, id⟩
    · have hhandles := handles_subscribeState
        (h'.appendRequest (r := { ptr := s.nextPtr, requestId, duration, presentity, watcher, appId, featureMask })
          rfl hfind memory.node) List.mem_cons_self appId sent
      exact ⟨⟨trivial, hhandles.safe⟩, hhandles.wf, hhandles.pending, hhandles.nextEventPtr, hhandles.eventData,
        hhandles.initialized⟩

/-- **A request is ended.** -/
theorem handles_terminateReq (h : s.Wf l) (requestId : ℤ) : Handles s l (s.terminateReq requestId) := by
  simp only [terminateReq]
  cases hfind : s.find requestId with
  | none => exact handles_self h (quiet_of_forall (by simp))
  | some r =>
    obtain ⟨hr, -⟩ := mem_list_of_find hfind
    have hmem := h.alive r hr
    have hfreed : Handles s l ((s.update { r with duration := 0 }).freeSubRequest { r with duration := 0 }) :=
      (handles_freeSubRequest (h.update { r with duration := 0 } hr rfl rfl) hmem).of_frame rfl rfl id
    have hended := ((hfreed.cons (e := .subscribeTerm r.subId false r.requestId) trivial).access
      hmem).prepend (quiet_sendSubscribe (r := { r with duration := 0 }) hmem)
    exact hended.access hmem

theorem handles_terminateAll (h : s.Wf l) {rs : List Request} (hrs : ∀ r ∈ rs, r.ptr ∈ l)
    (hnodup : (rs.map Request.ptr).Nodup) : Handles s l (s.terminateAll rs) := by
  induction rs generalizing s l with
  | nil => exact handles_self h ⟨trivial, rfl, rfl⟩
  | cons r rs ih =>
    rw [List.map_cons, List.nodup_cons] at hnodup
    have hmem := hrs r List.mem_cons_self
    have hrest := ih (h.freeSubRequest r) (fun r' hr' => ?_) hnodup.2
    · refine ⟨⟨hmem, trivial, hmem, hmem, hrest.safe⟩, hrest.wf, hrest.pending, hrest.nextEventPtr, hrest.eventData,
        hrest.initialized⟩
    · have hne : r'.ptr ≠ r.ptr := fun heq => hnodup.1 (heq ▸ List.mem_map_of_mem hr')
      exact List.mem_filter.2 ⟨hrs r' (List.mem_cons_of_mem _ hr'), by simpa using hne⟩

/-- **All requests are ended.** -/
theorem handles_terminateReqAll (h : s.Wf l) : Handles s l s.terminateReqAll := by
  simp only [terminateReqAll]
  cases hrs : s.requests with
  | none => exact handles_self h ⟨trivial, rfl, rfl⟩
  | some rs =>
    have hlist : s.list = rs := by simp [list, hrs]
    have hhandles := handles_terminateAll h (hlist ▸ h.alive) (hlist ▸ h.ptrs)
    exact ⟨hhandles.safe, hhandles.wf.of_list rfl rfl, hhandles.pending, hhandles.nextEventPtr,
      hhandles.eventData, Bool.noConfusion⟩

theorem handles_update_subscribeOrFree (h : s.Wf l) (hr : r₀ ∈ s.list) (r : Request)
    (hptr : r.ptr = r₀.ptr) (hid : r.requestId = r₀.requestId) (sent : Bool) {failed : List Effect}
    (hfailed : ∀ e ∈ failed, e.Quiet l) :
    Handles s l ((s.update r).subscribeOrFree r sent failed) :=
  (handles_subscribeOrFree (h.update r hr hptr hid) (hptr ▸ h.alive r₀ hr) sent
    (quiet_of_forall hfailed)).of_frame rfl rfl id

theorem handles_update_freeSubRequest (h : s.Wf l) (hr : r₀ ∈ s.list) (r : Request)
    (hptr : r.ptr = r₀.ptr) (hid : r.requestId = r₀.requestId) :
    Handles s l ((s.update r).freeSubRequest r) :=
  (handles_freeSubRequest (h.update r hr hptr hid) (hptr ▸ h.alive r₀ hr)).of_frame rfl rfl id

/-- **A response to a SUBSCRIBE.** -/
theorem handles_subscribeResponseInd (h : s.Wf l) (statusCode requestId : ℤ) (subId : UInt32) (expires : ℤ)
    (sent : Bool) : Handles s l (s.subscribeResponseInd statusCode requestId subId expires sent) := by
  simp only [subscribeResponseInd]
  cases hfind : s.find requestId with
  | none => exact handles_self h (quiet_of_forall (by simp [Effect.Quiet]))
  | some r =>
    obtain ⟨hr, -⟩ := mem_list_of_find hfind
    have hmem := h.alive r hr
    have hfailed : ∀ e ∈ [.access r.ptr, .uiBlfNotification requestId .rejected r.appId], Effect.Quiet l e := by
      simp [Effect.Quiet, hmem]
    simp only
    split_ifs
    · exact (handles_self (h.update { r with subId } hr rfl rfl) (quiet_access hmem)).of_frame rfl rfl id
    · exact (handles_update_subscribeOrFree h hr { r with subId, duration := expires } rfl rfl sent hfailed).access hmem
    · have hsent := handles_update_subscribeOrFree h hr
        { r with subId := ccsipSubsInvalidSubId, blfState := .unknown, highestCseq := 0 } rfl rfl sent hfailed
      have hterm := ((hsent.access hmem).cons (e := .subscribeTerm subId true r.requestId) trivial).access hmem
      exact (hterm.cons (e := .uiBlfNotification requestId .unknown r.appId) trivial).access hmem
    · have hfreed := handles_update_freeSubRequest h hr { r with subId } rfl rfl
      have hterm := (hfreed.cons (e := .subscribeTerm subId true r.requestId) trivial).access hmem
      exact (hterm.cons (e := .uiBlfNotification requestId .rejected r.appId) trivial).access hmem

theorem handles_notifyExpired (h : s.Wf l) (hr : r ∈ s.list) (later timerCancelled timerStarted sent : Bool) :
    Handles s l (s.notifyExpired r later timerCancelled timerStarted sent) := by
  have hmem := h.alive r hr
  have hexpired : Quiet l [.access r.ptr, .uiBlfNotification r.requestId .expired r.appId, .access r.ptr] :=
    quiet_of_forall (by simp [Effect.Quiet, hmem])
  let renewed := { r with blfState := .expired, subId := ccsipSubsInvalidSubId, highestCseq := 0 }
  have hwrite : (s.update renewed).Wf l := h.update renewed hr rfl rfl
  simp only [notifyExpired]
  split_ifs
  · have hstarted : Wf { s.update renewed with timers := Function.update s.timers r.appId (some r.ptr) } l :=
      hwrite.of_list rfl rfl
    have hself := (handles_self hstarted (quiet_access hmem)).of_frame (s := s) rfl rfl id
    exact hself.prepend hexpired
  · have hcancelled : Wf { s.update renewed with timers := Function.update s.timers r.appId none } l :=
      hwrite.of_list rfl rfl
    have hsent := handles_subscribeOrFree (r := renewed) hcancelled hmem sent quiet_nil
    exact ((hsent.of_frame (s := s) rfl rfl id).access hmem).prepend hexpired
  · exact ((handles_update_subscribeOrFree h hr renewed rfl rfl sent (by simp)).access hmem).prepend hexpired
  · exact (handles_update_freeSubRequest h hr { r with blfState := .expired } rfl rfl).prepend hexpired

/-- **The end of a subscription is notified.** -/
theorem handles_notifyTerminated (h : s.Wf l) (hr : r ∈ s.list) (reason : Reason) (subId : UInt32)
    (timerCancelled timerStarted sent : Bool) :
    Handles s l (s.notifyTerminated r reason subId timerCancelled timerStarted sent) := by
  have hmem := h.alive r hr
  have hterm : ∀ {result : Module × List Effect}, Handles s l result →
      Handles s l (result.1, .access r.ptr :: .subscribeTerm subId true r.requestId :: result.2) :=
    fun h => (h.cons (e := .subscribeTerm subId true r.requestId) trivial).access hmem
  cases reason with
  | deactivated =>
    refine hterm (Handles.access ?_ hmem)
    exact handles_update_subscribeOrFree h hr { r with subId := ccsipSubsInvalidSubId, highestCseq := 0 } rfl
      rfl sent (by simp [Effect.Quiet, hmem])
  | timeout => exact hterm (handles_notifyExpired h hr false timerCancelled timerStarted sent)
  | probation | giveup => exact hterm (handles_notifyExpired h hr true timerCancelled timerStarted sent)
  | invalid | rejected | noresource =>
    have hfreed := (handles_freeSubRequest h hmem).cons (e := .uiBlfNotification r.requestId .rejected r.appId) trivial
    exact hterm (hfreed.access hmem)

/-- **The subscription manager ends a subscription.** -/
theorem handles_terminateCb (h : s.Wf l) (reasonCode : ReasonCode) (requestId : ℤ) (subId : UInt32) :
    Handles s l (s.terminateCb reasonCode requestId subId) := by
  simp only [terminateCb]
  cases hfind : s.find requestId with
  | none => exact handles_self h (quiet_of_forall (by simp [Effect.Quiet]))
  | some r =>
    obtain ⟨hr, -⟩ := mem_list_of_find hfind
    have hmem := h.alive r hr
    have hwrite := h.update { r with subId := ccsipSubsInvalidSubId, highestCseq := 0 } hr rfl rfl
    have hfreed := handles_freeSubRequest h hmem
    cases reasonCode with
    | normal | shutdown | rollover =>
      exact hfreed.prepend (quiet_of_forall (by simp [Effect.Quiet, hmem]))
    | error | resetReg =>
      exact (handles_self hwrite (quiet_of_forall (by simp [Effect.Quiet, sendSubscribe, hmem]))).of_frame rfl rfl id

/-- **A timer expires.** -/
theorem handles_expire (h : s.Wf l) (appId : ℤ) : Handles s l (s.expire appId, []) := by
  simp only [expire]
  cases s.timers appId with
  | none => exact handles_self h quiet_nil
  | some ptr => exact ⟨trivial, h.of_list rfl rfl, rfl, rfl, rfl, id⟩

/-- **The expiration of a timer is handled**, when its request was not freed. -/
theorem handles_processTimerExpiration (h : s.Wf l) (sent : Bool)
    (hok : ∀ ptr ∈ s.expirations.head?, ∃ r ∈ s.list, r.ptr = ptr) :
    Handles s l (s.processTimerExpiration sent) := by
  simp only [processTimerExpiration]
  cases hexp : s.expirations with
  | nil => exact handles_self h quiet_nil
  | cons ptr expirations =>
    obtain ⟨r₀, hr₀, hptr⟩ := hok ptr (by simp [hexp])
    have hs' : ({ s with expirations } : Module).Wf l := h.of_list rfl rfl
    cases hfind : ({ s with expirations } : Module).list.find? (·.ptr = ptr) with
    | none =>
      have := List.find?_eq_none.1 hfind r₀ hr₀
      simp [hptr] at this
    | some r =>
      have hmem := hs'.alive r (List.mem_of_find?_eq_some hfind)
      simp only [hfind]
      exact (handles_subscribeOrFree hs' hmem sent quiet_nil).of_frame rfl rfl id

end Module

end Presence
