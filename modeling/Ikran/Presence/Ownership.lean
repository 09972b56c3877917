import Ikran.Presence.Handlers
import Mathlib.Data.List.Dedup
import Mathlib.Data.List.Perm.Basic

/-!
# Requests and notifications are owned

A request is not accessed after it was freed, there is one request of an id, and a list of event data is
freed once or held by one notification that waits. When the application has made its requests, no
notification waits any more, and the last state of each presence entity is applied to the requests for it.

Two things are left out. The expiration of a timer may be in the message queue when its request is freed, and
its handler accesses the request. The entity of a presence document may have no colon: its notification is
not freed, or blocks those that wait behind it.

While the application makes its requests, the notifications of a number of entities wait, and those of
others are ignored.
-/

namespace Presence

open HeapTrace (Safe alive safe_append alive_append)

/-! ## The property -/

/-- The entities of notifications, in the order of their first ones. -/
def entities (awaiting : List PresenceExt) : List CStr :=
  (awaiting.map PresenceExt.entity).reverse.dedup.reverse

def lastState (awaiting : List PresenceExt) (entity : CStr) : Option PresenceExt :=
  awaiting.reverse.find? (·.entity = entity)

namespace Module

variable (extractUser : CStr → CStr)

/-- The lists of event data that notifications hold. -/
def held (s : Module) : List ℕ :=
  (s.pending.getD []).map PendingNotify.eventPtr

/-- The requests of line buttons that an entity matches: those for the entity without its scheme, or else
for its user. -/
def matchingEntity (s : Module) (entity : CStr) : List Request :=
  let long := (afterColon entity).elim [] s.matching
  if long = [] then s.matching (extractUser entity) else long

variable (may : List CStr → List CStr)

/-- What a run should keep: only requests that are not freed are accessed, there is one request of an id, and
each list of event data is freed or held once. -/
structure Owned (s : Module) (trace : List Effect) : Prop where
  safe : Safe [] trace
  oneRequest : (s.list.map Request.requestId).Nodup
  eventData : (freedEventData trace ++ s.held).Perm (List.range s.nextEventPtr)

/-- What should be when the application has made its requests: no notification waits, and the last state of
each of the entities is applied to the requests for it. -/
structure Drained (s s' : Module) (awaiting : List PresenceExt) (effects : List Effect) : Prop where
  pending : s'.pending = none
  applied : ∀ entity ∈ may (entities awaiting), ∃ p, lastState awaiting entity = some p ∧
    ∀ r ∈ s.matchingEntity extractUser entity,
      .uiBlfNotification r.requestId (extractBlfState (some p) r.featureMask) r.appId ∈ effects

/-- The notifications that have come since the application makes its requests. -/
def nextAwaiting (s : Module) (awaiting : List PresenceExt) : Msg → List PresenceExt
  | .unsolicitedNotify (some (.presence p)) _ => if s.initialized then awaiting else awaiting ++ [p]
  | .subHandlerInitialized => []
  | _ => awaiting

/-- Requests and notifications are owned, throughout a run, with the entities that may wait. -/
def AlwaysOwned : Module → List Effect → List PresenceExt → List Msg → Prop
  | _, _, _, [] => True
  | s, trace, awaiting, msg :: msgs =>
    let (s', effects) := s.process extractUser msg
    Owned s' (trace ++ effects) ∧
      (msg = .subHandlerInitialized → Drained extractUser may s s' awaiting effects) ∧
      AlwaysOwned s' (trace ++ effects) (s.nextAwaiting awaiting msg) msgs

/-- The message is not the expiration of a timer whose request was freed. The entity of an unsolicited
notification has a colon, and there is memory for it to wait. -/
def MsgOk (s : Module) : Msg → Prop
  | .timerExpiration _ => ∀ ptr ∈ s.expirations.head?, ∃ r ∈ s.list, r.ptr = ptr
  | .unsolicitedNotify (some (.presence p)) memory =>
    (afterColon p.entity).isSome ∧ memory = {}
  | _ => True

/-- The messages of a run are so. -/
def RunOk : Module → List Msg → Prop
  | _, [] => True
  | s, msg :: msgs => MsgOk s msg ∧ RunOk (s.process extractUser msg).1 msgs

end Module


/-! ## Notifications of requests -/

namespace Module

variable {s : Module} {l : List ℕ}

/-- What a step keeps of the requests and the lists of event data. -/
structure Keeps (s : Module) (l : List ℕ) (result : Module × List Effect) : Prop where
  safe : Safe l result.2
  wf : Wf result.1 (alive l result.2)
  eventData : ∃ k, result.1.nextEventPtr = s.nextEventPtr + k ∧
    (freedEventData result.2 ++ result.1.held).Perm (s.held ++ List.range' s.nextEventPtr k)

/-- The step leaves the notifications that wait. -/
structure KeepsPending (s : Module) (l : List ℕ) (result : Module × List Effect) : Prop
    extends Keeps s l result where
  pending : result.1.pending = s.pending
  initialized : result.1.initialized → s.initialized

theorem Handles.keepsPending {result : Module × List Effect} (h : Handles s l result) : KeepsPending s l result where
  safe := h.safe
  wf := h.wf
  eventData := ⟨0, h.nextEventPtr, by simp [h.eventData, held, h.pending]⟩
  pending := h.pending
  initialized := h.initialized

theorem receive_fst (s : Module) (eventData : Option EventBody) :
    (s.receive eventData).1 = { s with nextEventPtr := s.nextEventPtr + eventData.toList.length } := by
  obtain _ | p | _ := eventData <;> rfl

theorem keeps_receive (eventData : Option EventBody) {result : Module × List Effect}
    (h : Handles { s with nextEventPtr := s.nextEventPtr + eventData.toList.length } l result) :
    KeepsPending s l (result.1, (s.receive eventData).2.2 ++ result.2 ++ freeEventData (s.receive eventData).2.1) := by
  have hheld : result.1.held = s.held := by rw [held, h.pending]; rfl
  refine ⟨?_, h.pending, h.initialized⟩
  obtain _ | p | _ := eventData
  · refine ⟨?_, ?_, 0, h.nextEventPtr, ?_⟩
    · simpa [receive, freeEventData] using h.safe
    · simpa [receive, freeEventData] using h.wf
    · simp [receive, freeEventData, h.eventData, hheld]
  · refine ⟨?_, ?_, 1, h.nextEventPtr, ?_⟩
    · simpa [receive, freeEventData, EventBody.presence?, Safe] using h.safe
    · simpa [receive, freeEventData, EventBody.presence?] using h.wf
    · -- it is freed at the end
      have hfreed : freedEventData (result.2 ++ [.freeEventData s.nextEventPtr]) = [s.nextEventPtr] := by
        rw [freedEventData_append, h.eventData]
        rfl
      simp only [receive, freeEventData, EventBody.presence?, List.nil_append, hfreed, hheld]
      exact List.perm_append_comm
  · refine ⟨?_, ?_, 1, h.nextEventPtr, ?_⟩
    · simpa [receive, freeEventData, EventBody.presence?, Safe] using h.safe
    · simpa [receive, freeEventData, EventBody.presence?] using h.wf
    · -- it is freed at once
      have hfreed : freedEventData ([.freeEventData s.nextEventPtr] ++ result.2 ++ []) = [s.nextEventPtr] := by
        rw [freedEventData_append, freedEventData_append, h.eventData]
        rfl
      simp only [receive, freeEventData, EventBody.presence?, hfreed, hheld]
      exact List.perm_append_comm

/-- **A notification of a subscription.** -/
theorem keeps_notifyIndCb (h : s.Wf l) (terminated : Bool) (reason : Reason) (requestId : ℤ)
    (subId cseq : UInt32) (eventData : Option EventBody) (timerCancelled timerStarted sent : Bool) :
    KeepsPending s l (s.notifyIndCb terminated reason requestId subId cseq eventData timerCancelled
      timerStarted sent) := by
  let s₁ : Module := { s with nextEventPtr := s.nextEventPtr + eventData.toList.length }
  have h₁ : s₁.Wf l := h.of_list rfl rfl
  simp only [notifyIndCb, receive_fst]
  generalize hfind : Module.find _ requestId = found
  change s₁.find requestId = found at hfind
  cases found with
  | none => exact keeps_receive eventData (handles_self h₁ (quiet_of_forall (by simp [Effect.Quiet])))
  | some r =>
    obtain ⟨hr, -⟩ := mem_list_of_find hfind
    have hmem := h₁.alive r hr
    have hack : Quiet l [.notifyAck subId 200 cseq, .access r.ptr] := quiet_of_forall (by simp [Effect.Quiet, hmem])
    simp only
    split_ifs with hcseq
    · exact keeps_receive eventData (handles_self h₁ hack)
    · let r' := { r with highestCseq := cseq }
      have hended := handles_notifyTerminated (h₁.update r' hr rfl rfl) (mem_list_update hr rfl) reason subId
        timerCancelled timerStarted sent
      have hkeeps := keeps_receive eventData ((hended.of_frame (s := s₁) rfl rfl id).prepend hack)
      simpa only [List.append_assoc] using hkeeps
    · let state := extractBlfState ((s.receive eventData).2.1.map Prod.snd) r.featureMask
      let r' := { r with highestCseq := cseq, blfState := state }
      have hupdate := (h₁.update { r with highestCseq := cseq } hr rfl rfl).update r' (mem_list_update hr rfl) rfl rfl
      have hnotified : Quiet l [.access r.ptr, .uiBlfNotification requestId state r.appId, .access r.ptr] :=
        quiet_of_forall (by simp [Effect.Quiet, hmem])
      have hkeeps := keeps_receive (s := s) eventData (((handles_self hupdate ((hack.append hnotified).append
        (quiet_alert state))).of_frame (s := s₁) rfl rfl id))
      simpa only [List.append_assoc] using hkeeps

/-! ## Notifications of entities -/

/-- What the state of an entity does not change of the requests. -/
structure SameRequests (s s' : Module) : Prop where
  keys : s'.list.map (fun r => (r.ptr, r.requestId, r.appId, r.presentity, r.featureMask)) =
    s.list.map fun r => (r.ptr, r.requestId, r.appId, r.presentity, r.featureMask)
  nextPtr : s'.nextPtr = s.nextPtr
  nextEventPtr : s'.nextEventPtr = s.nextEventPtr
  pending : s'.pending = s.pending
  initialized : s'.initialized = s.initialized

theorem SameRequests.refl (s : Module) : SameRequests s s := ⟨rfl, rfl, rfl, rfl, rfl⟩

variable {s' : Module}

theorem SameRequests.trans {s'' : Module} (h : SameRequests s s') (h' : SameRequests s' s'') : SameRequests s s'' :=
  ⟨h'.keys.trans h.keys, h'.nextPtr.trans h.nextPtr, h'.nextEventPtr.trans h.nextEventPtr,
    h'.pending.trans h.pending, h'.initialized.trans h.initialized⟩

theorem SameRequests.map_eq {α : Type} (h : SameRequests s s') (f : ℕ × ℤ × ℤ × CStr × UInt32 → α) :
    (s'.list.map fun r => f (r.ptr, r.requestId, r.appId, r.presentity, r.featureMask)) =
      s.list.map fun r => f (r.ptr, r.requestId, r.appId, r.presentity, r.featureMask) := by
  have hmap := congrArg (List.map f) h.keys
  rwa [List.map_map, List.map_map] at hmap

theorem SameRequests.wf (h : SameRequests s s') (hwf : s.Wf l) : s'.Wf l where
  alive := by
    have hptrs : s'.list.map Request.ptr = s.list.map Request.ptr := h.map_eq fun k => k.1
    intro r hr
    obtain ⟨r', hr', hptr⟩ := List.mem_map.1 (hptrs ▸ List.mem_map_of_mem hr)
    exact hptr ▸ hwf.alive r' hr'
  fresh := by
    rw [h.nextPtr]
    exact hwf.fresh
  ptrs := by
    have hptrs : s'.list.map Request.ptr = s.list.map Request.ptr := h.map_eq fun k => k.1
    rw [hptrs]
    exact hwf.ptrs
  ids := by
    have hids : s'.list.map Request.requestId = s.list.map Request.requestId := h.map_eq fun k => k.2.1
    rw [hids]
    exact hwf.ids

/-- The notification of the application for a state of an entity. -/
def notified (p : PresenceExt) (r : Request) : Effect :=
  .uiBlfNotification r.requestId (extractBlfState (some p) r.featureMask) r.appId

theorem SameRequests.notified_matching (h : SameRequests s s') (p : PresenceExt) (presentity : CStr) :
    (s'.matching presentity).map (notified p) = (s.matching presentity).map (notified p) := by
  let f (k : ℕ × ℤ × ℤ × CStr × UInt32) : Option Effect :=
    if 0 < k.2.2.1 ∧ k.2.2.2.1 = presentity then
      some (.uiBlfNotification k.2.1 (extractBlfState (some p) k.2.2.2.2) k.2.2.1) else none
  have hfilter (l : List Request) : (l.filter fun r => 0 < r.appId ∧ r.presentity = presentity).map
      (notified p) = l.filterMap fun r => f (r.ptr, r.requestId, r.appId, r.presentity, r.featureMask) := by
    induction l with
    | nil => rfl
    | cons r l ih =>
      rw [List.filter_cons, List.filterMap_cons]
      by_cases hr : 0 < r.appId ∧ r.presentity = presentity
      · rw [if_pos (decide_eq_true hr), List.map_cons, ih]
        simp [f, hr, notified]
      · rw [if_neg (by simpa using hr), ih]
        simp [f, hr]
  have hmap := congrArg (List.filterMap id) (h.map_eq f)
  simp only [List.filterMap_map] at hmap
  rw [matching, matching, hfilter, hfilter]
  exact hmap

theorem SameRequests.matching_eq_nil (h : SameRequests s s') (presentity : CStr) :
    s'.matching presentity = [] ↔ s.matching presentity = [] := by
  have hmap := h.notified_matching { entity := [] } presentity
  rw [← List.map_eq_nil_iff, hmap, List.map_eq_nil_iff]

theorem applyPresenceState_spec (h : s.Wf l) (presentity : CStr) (p : PresenceExt) :
    SameRequests s (s.applyPresenceState presentity p).1 ∧ Quiet l (s.applyPresenceState presentity p).2.1 ∧
      ∀ r ∈ s.matching presentity, notified p r ∈ (s.applyPresenceState presentity p).2.1 := by
  refine ⟨⟨?_, rfl, rfl, rfl, rfl⟩, quiet_of_forall ?_, ?_⟩
  · have hlist : (s.applyPresenceState presentity p).1.list = s.list.map fun r =>
        if 0 < r.appId ∧ r.presentity = presentity then
          { r with blfState := extractBlfState (some p) r.featureMask } else r := by
      cases hrs : s.requests <;> simp [list, applyPresenceState, hrs]
    rw [hlist, List.map_map]
    refine List.map_congr_left fun r _ => ?_
    by_cases hr : 0 < r.appId ∧ r.presentity = presentity <;> simp [hr]
  · intro e he
    obtain ⟨r, hr, he⟩ := List.mem_flatMap.1 he
    obtain rfl | he := List.mem_cons.1 he
    · exact h.alive r hr
    · split_ifs at he
      · obtain rfl | he := List.mem_cons.1 he
        · trivial
        · rw [alert] at he
          split_ifs at he
          · obtain rfl := List.mem_singleton.1 he
            trivial
          · cases he
      · cases he
  · intro r hr
    obtain ⟨hr, hmatch⟩ := List.mem_filter.1 hr
    refine List.mem_flatMap.2 ⟨r, hr, List.mem_cons_of_mem _ ?_⟩
    rw [if_pos (of_decide_eq_true hmatch)]
    exact List.mem_cons_self

variable (extractUser : CStr → CStr)

/-- **A state is applied to the requests that an entity matches.** -/
theorem applyPresence_spec (h : s.Wf l) {url entity : CStr} (hurl : afterColon entity = some url) (p : PresenceExt) :
    SameRequests s (s.applyPresence extractUser url entity p).1 ∧ Quiet l (s.applyPresence extractUser url entity p).2 ∧
      ∀ r ∈ s.matchingEntity extractUser entity, notified p r ∈ (s.applyPresence extractUser url entity p).2 := by
  obtain ⟨hsame, hquiet, hmem⟩ := applyPresenceState_spec h url p
  have hfound : (s.applyPresenceState url p).2.2 = !(s.matching url).isEmpty := rfl
  simp only [applyPresence, matchingEntity, hurl, Option.elim_some, hfound]
  by_cases hnil : s.matching url = []
  · -- the requests for the user
    obtain ⟨hsame', hquiet', hmem'⟩ := applyPresenceState_spec (hsame.wf h) (extractUser entity) p
    rw [if_pos hnil, hnil]
    refine ⟨hsame.trans hsame', hquiet.append hquiet', fun r hr => List.mem_append_right _ ?_⟩
    have hnotified : notified p r ∈ ((s.applyPresenceState url p).1.matching (extractUser entity)).map
        (notified p) := by
      rw [hsame.notified_matching]
      exact List.mem_map_of_mem hr
    obtain ⟨r', hr', heq⟩ := List.mem_map.1 hnotified
    exact heq ▸ hmem' r' hr'
  · have hempty : (s.matching url).isEmpty = false := by simpa using hnil
    rw [if_neg hnil, hempty]
    exact ⟨hsame, hquiet, hmem⟩

theorem SameRequests.notified_matchingEntity (h : SameRequests s s') (p : PresenceExt) (entity : CStr) :
    (s'.matchingEntity extractUser entity).map (notified p) =
      (s.matchingEntity extractUser entity).map (notified p) := by
  cases hurl : afterColon entity with
  | none =>
    simp only [matchingEntity, hurl, Option.elim_none, if_true]
    exact h.notified_matching p _
  | some url =>
    simp only [matchingEntity, hurl, Option.elim_some, h.matching_eq_nil]
    split_ifs <;> exact h.notified_matching p _

/-- **The notifications that wait are applied**, each to the requests that its entity matches. -/
theorem drain_spec (h : s.Wf l) {ns : List PendingNotify} (hns : ∀ n ∈ ns, (afterColon n.presentity).isSome) :
    SameRequests s (s.drain extractUser ns).1 ∧ (s.drain extractUser ns).2.1 = none ∧
      Safe l (s.drain extractUser ns).2.2 ∧ alive l (s.drain extractUser ns).2.2 = l ∧
      freedEventData (s.drain extractUser ns).2.2 = ns.map PendingNotify.eventPtr ∧
      ∀ n ∈ ns, ∀ r ∈ s.matchingEntity extractUser n.presentity,
        notified n.presence r ∈ (s.drain extractUser ns).2.2 := by
  induction ns generalizing s with
  | nil => exact ⟨.refl s, rfl, trivial, rfl, rfl, by simp⟩
  | cons n ns ih =>
    obtain ⟨hn, hns⟩ := List.forall_mem_cons.1 hns
    obtain ⟨url, hurl⟩ := Option.isSome_iff_exists.1 hn
    obtain ⟨hsame, hquiet, hmem⟩ := applyPresence_spec extractUser h hurl n.presence
    obtain ⟨hsame', hnone, hsafe, halive, hfreed, hmem'⟩ := ih (hsame.wf h) hns
    simp only [drain, hurl]
    refine ⟨hsame.trans hsame', hnone, ?_, ?_, ?_, ?_⟩
    · refine (safe_append _ _ _).2 ⟨hquiet.safe, ?_⟩
      rw [hquiet.alive]
      exact ⟨trivial, hsafe⟩
    · rw [alive_append, hquiet.alive]
      exact halive
    · rw [freedEventData_append, hquiet.eventData, List.nil_append, List.map_cons, ← hfreed]
      rfl
    · intro m hm r hr
      obtain rfl | hm := List.mem_cons.1 hm
      · exact List.mem_append_left _ (hmem r hr)
      · -- the requests have not changed but for their state
        have hnotified : notified m.presence r ∈ ((s.applyPresence extractUser url n.presentity
            n.presence).1.matchingEntity extractUser m.presentity).map (notified m.presence) := by
          rw [hsame.notified_matchingEntity]
          exact List.mem_map_of_mem hr
        obtain ⟨r', hr', heq⟩ := List.mem_map.1 hnotified
        exact List.mem_append_right _ (List.mem_cons_of_mem _ (heq ▸ hmem' m hm r' hr'))

end Module

/-! ## Notifications that wait -/

@[simp]
theorem entities_append (awaiting : List PresenceExt) (p : PresenceExt) : entities (awaiting ++ [p]) =
      if p.entity ∈ entities awaiting then entities awaiting else entities awaiting ++ [p.entity] := by
  have hmem : p.entity ∈ entities awaiting ↔ p.entity ∈ (awaiting.map PresenceExt.entity).reverse := by
    rw [entities, List.mem_reverse, List.mem_dedup]
  simp only [hmem]
  simp only [entities, List.map_append, List.map_singleton, List.reverse_append, List.reverse_singleton,
    List.singleton_append]
  split_ifs with h
  · rw [List.dedup_cons_of_mem h]
  · rw [List.dedup_cons_of_notMem h, List.reverse_cons]

theorem nodup_entities (awaiting : List PresenceExt) : (entities awaiting).Nodup :=
  List.nodup_reverse.2 (List.nodup_dedup _)

@[simp]
theorem lastState_append (awaiting : List PresenceExt) (p : PresenceExt) (entity : CStr) :
    lastState (awaiting ++ [p]) entity = if p.entity = entity then some p else lastState awaiting entity := by
  by_cases h : p.entity = entity <;> simp [lastState, h]

namespace Module

variable {s : Module} {awaiting : List PresenceExt}

/-- The notifications that wait are the last ones of the first entities. -/
structure Waits (s : Module) (awaiting : List PresenceExt) : Prop where
  presentities : (s.pending.getD []).map PendingNotify.presentity = (entities awaiting).take maxRegLines
  presence : ∀ n ∈ s.pending.getD [], lastState awaiting n.presentity = some n.presence
  colon : ∀ n ∈ s.pending.getD [], (afterColon n.presentity).isSome
  initialized : s.initialized → s.pending = none ∧ awaiting = []

theorem Waits.nodup (h : s.Waits awaiting) : ((s.pending.getD []).map PendingNotify.presentity).Nodup := by
  rw [h.presentities]
  exact (nodup_entities awaiting).sublist (List.take_sublist _ _)

theorem perm_replace {ns : List PendingNotify} {n : PendingNotify} (hn : n ∈ ns)
    (hnodup : (ns.map PendingNotify.presentity).Nodup) (ptr : ℕ) (p : PresenceExt) :
    (n.eventPtr :: (ns.map fun m => if m.presentity = n.presentity then
      { m with eventPtr := ptr, presence := p } else m).map PendingNotify.eventPtr).Perm
      (ptr :: ns.map PendingNotify.eventPtr) := by
  induction ns with
  | nil => cases hn
  | cons m ns ih =>
    rw [List.map_cons, List.nodup_cons] at hnodup
    by_cases hm : m = n
    · subst hm
      have hid : ns.map (fun m' => if m'.presentity = m.presentity then
          { m' with eventPtr := ptr, presence := p } else m') = ns := by
        refine (List.map_congr_left fun m' hm' => ?_).trans (List.map_id ns)
        have hne : m'.presentity ≠ m.presentity := fun heq => hnodup.1 (heq ▸ List.mem_map_of_mem hm')
        exact if_neg hne
      rw [List.map_cons, List.map_cons, List.map_cons, if_pos rfl, hid]
      exact .swap _ _ _
    · have hn : n ∈ ns := (List.mem_cons.1 hn).resolve_left fun heq => hm heq.symm
      have hne : m.presentity ≠ n.presentity := fun heq => hnodup.1 (heq ▸ List.mem_map_of_mem hn)
      rw [List.map_cons, List.map_cons, List.map_cons, if_neg hne]
      exact (List.Perm.swap _ _ _).trans (((ih hn hnodup.2).cons _).trans (.swap _ _ _))

/-- What a notification that has to wait does: it changes nothing but the list, and it is held or freed. -/
structure Appends (s : Module) (awaiting : List PresenceExt) (ptr : ℕ) (p : PresenceExt)
    (result : Module × List Effect) : Prop where
  waits : result.1.Waits (awaiting ++ [p])
  eventData : (freedEventData result.2 ++ result.1.held).Perm (ptr :: s.held)
  safe : ∀ l, Safe l result.2 ∧ alive l result.2 = l
  frame : result.1 = { s with pending := result.1.pending }

variable {p : PresenceExt}

theorem Waits.appends_full (h : s.Waits awaiting) (hinit : s.initialized = false) (ptr : ℕ)
    (hnew : ∀ n ∈ s.pending.getD [], n.presentity ≠ p.entity)
    (hlen : (s.pending.getD []).length = maxRegLines) :
    Appends s awaiting ptr p ({ s with pending := some (s.pending.getD []) }, [.freeEventData ptr]) := by
  refine ⟨⟨?_, ?_, h.colon, ?_⟩, .refl _, fun l => ⟨⟨trivial, trivial⟩, rfl⟩, rfl⟩
  · have hfull := congrArg List.length h.presentities
    rw [List.length_map, hlen, List.length_take] at hfull
    refine h.presentities.trans ?_
    rw [entities_append]
    split_ifs
    · rfl
    · exact (List.take_append_of_le_length (by omega)).symm
  · intro n hn
    rw [lastState_append, if_neg (hnew n hn).symm]
    exact h.presence n hn
  · simp [hinit]

/-- A notification of an entity that does not wait yet, when there is a place. -/
theorem Waits.appends_place (h : s.Waits awaiting) (hinit : s.initialized = false)
    (hcolon : (afterColon p.entity).isSome) (ptr : ℕ)
    (hnew : ∀ n ∈ s.pending.getD [], n.presentity ≠ p.entity)
    (hlen : (s.pending.getD []).length ≠ maxRegLines) :
    Appends s awaiting ptr p ({ s with pending := some (s.pending.getD [] ++
      [{ presentity := p.entity, eventPtr := ptr, presence := p }]) }, []) := by
  refine ⟨⟨?_, ?_, ?_, ?_⟩, ?_, fun l => ⟨trivial, rfl⟩, rfl⟩
  · have hplace := congrArg List.length h.presentities
    rw [List.length_map, List.length_take] at hplace
    have hall : (entities awaiting).take maxRegLines = entities awaiting := List.take_of_length_le (by omega)
    have hnotMem : p.entity ∉ entities awaiting := by
      rw [← hall, ← h.presentities]
      rintro hmem
      obtain ⟨n, hn, hentity⟩ := List.mem_map.1 hmem
      exact hnew n hn hentity
    rw [entities_append, if_neg hnotMem, Option.getD_some, List.map_append, h.presentities, hall]
    refine (List.take_of_length_le ?_).symm
    rw [List.length_append, List.length_map, List.length_singleton]
    omega
  · intro n hn
    rw [lastState_append]
    obtain hn | hn := List.mem_append.1 hn
    · rw [if_neg (hnew n hn).symm]
      exact h.presence n hn
    · obtain rfl := List.mem_singleton.1 hn
      exact if_pos rfl
  · intro n hn
    obtain hn | hn := List.mem_append.1 hn
    · exact h.colon n hn
    · obtain rfl := List.mem_singleton.1 hn
      exact hcolon
  · simp [hinit]
  · simp only [held, Option.getD_some, List.map_append, List.map_singleton]
    change (_ ++ [ptr]).Perm ([ptr] ++ _)
    exact List.perm_append_comm

theorem Waits.appends_replace (h : s.Waits awaiting) (hinit : s.initialized = false)
    (ptr : ℕ) {n : PendingNotify} (hn : n ∈ s.pending.getD []) (hentity : n.presentity = p.entity) :
    Appends s awaiting ptr p ({ s with
          pending := some ((s.pending.getD []).map fun n => if n.presentity = p.entity then
            { n with eventPtr := ptr, presence := p } else n) },
        [.freeEventData n.eventPtr]) := by
  refine ⟨⟨?_, ?_, ?_, ?_⟩, ?_, fun l => ⟨⟨trivial, trivial⟩, rfl⟩, rfl⟩
  · have hmem : p.entity ∈ entities awaiting := List.mem_of_mem_take (h.presentities ▸ List.mem_map.2 ⟨n, hn, hentity⟩)
    rw [entities_append, if_pos hmem, ← h.presentities, Option.getD_some, List.map_map]
    refine List.map_congr_left fun m _ => ?_
    by_cases hm : m.presentity = p.entity <;> simp [hm]
  · intro m' hm'
    obtain ⟨m, hm, rfl⟩ := List.mem_map.1 hm'
    rw [lastState_append]
    by_cases heq : m.presentity = p.entity
    · simp [heq]
    · rw [if_neg heq, if_neg (Ne.symm heq)]
      exact h.presence m hm
  · intro m' hm'
    obtain ⟨m, hm, rfl⟩ := List.mem_map.1 hm'
    split_ifs <;> exact h.colon m hm
  · simp [hinit]
  · rw [← hentity]
    exact perm_replace hn h.nodup ptr p

/-- **A notification waits, or is ignored.** -/
theorem Waits.appends (h : s.Waits awaiting) (hinit : s.initialized = false)
    (hcolon : (afterColon p.entity).isSome) (ptr : ℕ) :
    Appends s awaiting ptr p (s.appendNotificationToPendingQueue ptr p {}) := by
  simp only [appendNotificationToPendingQueue, Bool.true_eq_false, and_false, if_false]
  cases hfind : (s.pending.getD []).find? (·.presentity = p.entity) with
  | some n =>
    have hentity : n.presentity = p.entity := by simpa using List.find?_some hfind
    exact h.appends_replace hinit ptr (List.mem_of_find?_eq_some hfind) hentity
  | none =>
    have hnew : ∀ n ∈ s.pending.getD [], n.presentity ≠ p.entity := by
      simpa using List.find?_eq_none.1 hfind
    simp only
    split_ifs with hlen
    · exact h.appends_full hinit ptr hnew hlen
    · exact h.appends_place hinit hcolon ptr hnew hlen

/-! ## Runs -/

variable {trace : List Effect} (extractUser : CStr → CStr)

/-- What holds in a run. -/
structure Inv (s : Module) (trace : List Effect) (awaiting : List PresenceExt) : Prop where
  safe : Safe [] trace
  wf : s.Wf (alive [] trace)
  eventData : (freedEventData trace ++ s.held).Perm (List.range s.nextEventPtr)
  waits : s.Waits awaiting

theorem Inv.owned (h : Inv s trace awaiting) : Owned s trace := ⟨h.safe, h.wf.ids, h.eventData⟩

theorem inv_init : Inv {} [] [] where
  safe := trivial
  wf := ⟨by simp [list], by simp [alive], .nil, .nil⟩
  eventData := .nil
  waits := ⟨rfl, by simp, by simp, by simp⟩

theorem Inv.keeps {result : Module × List Effect} {awaiting' : List PresenceExt}
    (h : Inv s trace awaiting) (hkeeps : Keeps s (alive [] trace) result)
    (hwaits : result.1.Waits awaiting') : Inv result.1 (trace ++ result.2) awaiting' where
  safe := (safe_append _ _ _).2 ⟨h.safe, hkeeps.safe⟩
  wf := by
    rw [alive_append]
    exact hkeeps.wf
  eventData := by
    obtain ⟨k, hnext, hperm⟩ := hkeeps.eventData
    have hrange : List.range result.1.nextEventPtr = List.range s.nextEventPtr ++ List.range' s.nextEventPtr k := by
      rw [hnext, List.range_eq_range', List.range_eq_range', List.range'_append_1.symm, Nat.zero_add]
    rw [freedEventData_append, List.append_assoc, hrange]
    refine (hperm.append_left _).trans ?_
    rw [← List.append_assoc]
    exact h.eventData.append_right _
  waits := hwaits

theorem Inv.keepsPending {result : Module × List Effect} (h : Inv s trace awaiting)
    (hkeeps : KeepsPending s (alive [] trace) result) : Inv result.1 (trace ++ result.2) awaiting := by
  refine h.keeps hkeeps.toKeeps ⟨?_, ?_, ?_, ?_⟩
  · rw [hkeeps.pending]
    exact h.waits.presentities
  · rw [hkeeps.pending]
    exact h.waits.presence
  · rw [hkeeps.pending]
    exact h.waits.colon
  · rw [hkeeps.pending]
    exact h.waits.initialized ∘ hkeeps.initialized

theorem Inv.unsolicitedNotify_waits (h : Inv s trace awaiting) (hinit : s.initialized = false)
    (hcolon : (afterColon p.entity).isSome) :
    Inv (s.unsolicitedNotifyIndCb extractUser (some (.presence p)) {}).1
      (trace ++ (s.unsolicitedNotifyIndCb extractUser (some (.presence p)) {}).2) (awaiting ++ [p]) := by
  let s₁ : Module := { s with nextEventPtr := s.nextEventPtr + 1 }
  have hwaits₁ : s₁.Waits awaiting := ⟨h.waits.presentities, h.waits.presence, h.waits.colon, h.waits.initialized⟩
  obtain ⟨hwaits, hperm, hsafe, hframe⟩ := hwaits₁.appends hinit hcolon s.nextEventPtr
  have hcb : s.unsolicitedNotifyIndCb extractUser (some (.presence p)) {} =
      s₁.appendNotificationToPendingQueue s.nextEventPtr p {} := by
    simp [unsolicitedNotifyIndCb, receive, EventBody.presence?, hinit, s₁]
  rw [hcb]
  refine h.keeps ⟨(hsafe _).1, ?_, 1, ?_, ?_⟩ hwaits
  · rw [(hsafe _).2, hframe]
    exact h.wf.of_list rfl rfl
  · rw [hframe]
  · have hcomm : ([s.nextEventPtr] ++ s.held).Perm (s.held ++ [s.nextEventPtr]) := List.perm_append_comm
    exact hperm.trans hcomm

theorem Inv.unsolicitedNotify_applied (h : Inv s trace awaiting) (hinit : s.initialized)
    (hcolon : (afterColon p.entity).isSome) :
    Inv (s.unsolicitedNotifyIndCb extractUser (some (.presence p)) {}).1
      (trace ++ (s.unsolicitedNotifyIndCb extractUser (some (.presence p)) {}).2) awaiting := by
  let s₁ : Module := { s with nextEventPtr := s.nextEventPtr + 1 }
  have h₁ : s₁.Wf (alive [] trace) := h.wf.of_list rfl rfl
  obtain ⟨url, hurl⟩ := Option.isSome_iff_exists.1 hcolon
  refine h.keepsPending ?_
  by_cases hreq : s.requests = none
  · have hcb : s.unsolicitedNotifyIndCb extractUser (some (.presence p)) {} =
        (s₁, [.freeEventData s.nextEventPtr]) := by
      simp [unsolicitedNotifyIndCb, receive, EventBody.presence?, hinit, hreq, s₁]
    rw [hcb]
    exact ⟨⟨⟨trivial, trivial⟩, h₁, 1, rfl, List.perm_append_comm⟩, rfl, id⟩
  · have hcb : s.unsolicitedNotifyIndCb extractUser (some (.presence p)) {} =
        ((s₁.applyPresence extractUser url p.entity p).1,
          (s₁.applyPresence extractUser url p.entity p).2 ++ [.freeEventData s.nextEventPtr]) := by
      simp [unsolicitedNotifyIndCb, receive, EventBody.presence?, hinit, hreq, hurl, s₁]
    obtain ⟨hsame, hquiet, -⟩ := applyPresence_spec extractUser h₁ hurl p
    rw [hcb]
    refine ⟨⟨?_, ?_, 1, hsame.nextEventPtr, ?_⟩, hsame.pending, ?_⟩
    · refine (safe_append _ _ _).2 ⟨hquiet.safe, ?_⟩
      trivial
    · rw [alive_append, hquiet.alive]
      exact hsame.wf h₁
    · rw [freedEventData_append, hquiet.eventData, held, hsame.pending]
      exact List.perm_append_comm
    · rw [hsame.initialized]
      exact id

/-- **The application has made its requests.** -/
theorem Inv.subHandlerInitialized (h : Inv s trace awaiting) :
    Inv (s.subHandlerInitialized extractUser).1 (trace ++ (s.subHandlerInitialized extractUser).2) [] ∧
      Drained extractUser (List.take maxRegLines) s (s.subHandlerInitialized extractUser).1 awaiting
        (s.subHandlerInitialized extractUser).2 := by
  let s₁ : Module := { s with initialized := true }
  have h₁ : s₁.Wf (alive [] trace) := h.wf.of_list rfl rfl
  cases hpending : s.pending with
  | none =>
    have hcb : s.subHandlerInitialized extractUser = (s₁, []) := by
      simp [Module.subHandlerInitialized, hpending, s₁]
    have hnil := h.waits.presentities
    rw [hpending] at hnil
    rw [hcb]
    refine ⟨h.keeps ⟨trivial, h₁, 0, rfl, by simp [freedEventData, held, s₁]⟩ ⟨?_, ?_, ?_,
      fun _ => ⟨hpending, rfl⟩⟩, hpending, ?_⟩
    · simp [s₁, hpending, entities]
    · simp [s₁, hpending]
    · simp [s₁, hpending]
    · rw [← hnil]
      simp
  | some ns =>
    have hcolon : ∀ n ∈ ns, (afterColon n.presentity).isSome := by
      simpa [hpending] using h.waits.colon
    obtain ⟨hsame, hnone, hsafe, halive, hfreed, hmem⟩ := drain_spec extractUser h₁ hcolon
    have hcb : s.subHandlerInitialized extractUser =
        ({ (s₁.drain extractUser ns).1 with pending := none }, (s₁.drain extractUser ns).2.2) := by
      simp [Module.subHandlerInitialized, hpending, s₁, ← hnone]
    rw [hcb]
    refine ⟨h.keeps ⟨hsafe, ?_, 0, hsame.nextEventPtr, ?_⟩ ⟨by simp [entities], by simp, by simp,
      fun _ => ⟨rfl, rfl⟩⟩, rfl, ?_⟩
    · rw [halive]
      exact (hsame.wf h₁).of_list rfl rfl
    · simp [hfreed, held, hpending]
    · intro entity hentity
      rw [← h.waits.presentities, hpending] at hentity
      obtain ⟨n, hn, rfl⟩ := List.mem_map.1 hentity
      exact ⟨n.presence, h.waits.presence n (by simpa [hpending] using hn), hmem n hn⟩

/-- **What a message keeps.** -/
theorem Inv.step (h : Inv s trace awaiting) {msg : Msg} (hok : MsgOk s msg) :
    Inv (s.process extractUser msg).1 (trace ++ (s.process extractUser msg).2) (s.nextAwaiting awaiting msg) ∧
      (msg = .subHandlerInitialized →
        Drained extractUser (List.take maxRegLines) s (s.process extractUser msg).1 awaiting
          (s.process extractUser msg).2) := by
  -- the other handlers leave the notifications that wait
  have hleft (msg : Msg) : ∀ {result : Module × List Effect}, KeepsPending s (alive [] trace) result →
      msg ≠ .subHandlerInitialized → Inv result.1 (trace ++ result.2) awaiting ∧
        (msg = .subHandlerInitialized → Drained extractUser (List.take maxRegLines) s result.1 awaiting result.2) :=
    fun hkeeps hne => ⟨h.keepsPending hkeeps, fun heq => (hne heq).elim⟩
  cases msg with
  | getState => exact hleft _ (handles_getState h.wf ..).keepsPending nofun
  | termReq => exact hleft _ (handles_terminateReq h.wf _).keepsPending nofun
  | termReqAll => exact hleft _ (handles_terminateReqAll h.wf).keepsPending nofun
  | subscribeResp => exact hleft _ (handles_subscribeResponseInd h.wf ..).keepsPending nofun
  | notify => exact hleft _ (keeps_notifyIndCb h.wf ..) nofun
  | terminate => exact hleft _ (handles_terminateCb h.wf ..).keepsPending nofun
  | expire => exact hleft _ (handles_expire h.wf _).keepsPending nofun
  | timerExpiration => exact hleft _ (handles_processTimerExpiration h.wf _ hok).keepsPending nofun
  | subHandlerInitialized =>
    obtain ⟨hinv, hdrained⟩ := h.subHandlerInitialized extractUser
    exact ⟨hinv, fun _ => hdrained⟩
  | unsolicitedNotify eventData memory =>
    obtain _ | p | _ := eventData
    · exact hleft _ (keeps_receive none (handles_self (h.wf.of_list rfl rfl) quiet_nil)) nofun
    · obtain ⟨hcolon, rfl⟩ := hok
      refine ⟨?_, nofun⟩
      cases hinit : s.initialized with
      | false =>
        have hinv := h.unsolicitedNotify_waits extractUser hinit hcolon
        simpa [process, nextAwaiting, hinit] using hinv
      | true =>
        have hinv := h.unsolicitedNotify_applied extractUser hinit hcolon
        simpa [process, nextAwaiting, hinit] using hinv
    · -- it is freed at once
      have hwf : Wf { s with nextEventPtr := s.nextEventPtr + 1 } (alive [] trace) := h.wf.of_list rfl rfl
      have hkeeps := keeps_receive (some .other) (handles_self hwf quiet_nil)
      exact hleft (.unsolicitedNotify (some .other) memory) hkeeps nofun

/-- **What a run keeps.** -/
theorem Inv.run (h : Inv s trace awaiting) {msgs : List Msg} (hok : RunOk extractUser s msgs) :
    AlwaysOwned extractUser (List.take maxRegLines) s trace awaiting msgs := by
  induction msgs generalizing s trace awaiting with
  | nil => trivial
  | cons msg msgs ih =>
    obtain ⟨hinv, hdrained⟩ := h.step extractUser hok.1
    exact ⟨hinv.owned, hdrained, ih hinv hok.2⟩

/-- What stands between the scheme and the host, for the URLs of the runs below. -/
def userOf (url : CStr) : CStr :=
  (url.drop 4).takeWhile (· ≠ '@')

def lineButton (presentity : CStr) : Msg :=
  .getState 7 3600 "sip:w@h".toList presentity 1 blfPickupFeature {} true

def rings (entity : CStr) : Msg :=
  .unsolicitedNotify (some (.presence { entity, onThePhone := true, alerting := true })) {}

/-- The state, the trace and the notifications that wait, after messages. -/
def after (s : Module) (trace : List Effect) (awaiting : List PresenceExt) :
    List Msg → Module × List Effect × List PresenceExt
  | [] => (s, trace, awaiting)
  | msg :: msgs =>
    let (s', effects) := s.process extractUser msg
    after s' (trace ++ effects) (s.nextAwaiting awaiting msg) msgs

theorem AlwaysOwned.last {may : List CStr → List CStr} {msgs : List Msg} {msg : Msg}
    (h : AlwaysOwned extractUser may s trace awaiting (msgs ++ [msg])) :
    let (s', trace', awaiting') := s.after extractUser trace awaiting msgs
    Owned (s'.process extractUser msg).1 (trace' ++ (s'.process extractUser msg).2) ∧
      (msg = .subHandlerInitialized → Drained extractUser may s' (s'.process extractUser msg).1 awaiting'
        (s'.process extractUser msg).2) := by
  induction msgs generalizing s trace awaiting with
  | nil => exact ⟨h.1, h.2.1⟩
  | cons msg' msgs ih => exact ih h.2.2

/-- The entities of nine phones. -/
def phones : List CStr :=
  ["sip:1@h", "sip:2@h", "sip:3@h", "sip:4@h", "sip:5@h", "sip:6@h", "sip:7@h", "sip:8@h", "sip:9@h"].map
    String.toList

end Module

end Presence
