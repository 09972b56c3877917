import Ikran.Sip.PublishContexts

/-!
# Publications are managed

A context of a publication has at most one PUBLISH outstanding, its deferred requests are sent in order, it is
not read after it was freed, and a periodic pass examines each context once. When a context is removed, the
application is told once, where it asked to be told of the context.

This holds while no context is removed where the code answers the request that failed and not the context: a
first PUBLISH that cannot be sent, a further one whose request does not carry the address of the context, and
a refresh. There must also be memory for the tag of a response, whose failure is told from a context that was
freed, and for the nodes of the lists, whose failure is not seen.
-/

namespace Sip.Publish

open HeapTrace (Safe)

/-! ## The property -/

def examined (effects : List Effect) : List ℕ :=
  effects.filterMap fun e => match e with
    | .examine ptr => some ptr
    | _ => none

def removed (effects : List Effect) : List ℕ :=
  effects.filterMap fun e => match e with
    | .free ptr => some ptr
    | _ => none

/-- Where the application is told something. -/
def told (effects : List Effect) : List Address :=
  effects.filterMap fun e => match e with
    | .respond _ address => some address
    | _ => none

namespace Module

/-- What a run should keep: only contexts that are not freed are read, each has at most one PUBLISH
outstanding, and deferred requests are sent in order. -/
structure Managed (s : Module) (trace : List Effect) : Prop where
  safe : Safe [] trace
  outstanding : ∀ ptr, (outstanding trace ptr).length ≤ 1
  inOrder : ∀ ptr, sentDeferred trace ptr <+: deferred trace ptr
  waiting : ∀ p ∈ s.list, deferred trace p.ptr = sentDeferred trace p.ptr ++ p.pendingReqs

/-- What a step should do: a periodic pass examines each context once, and the application is told once of a
context that is removed. -/
structure Tells (s : Module) (trace : List Effect) (msg : Msg) (effects : List Effect) : Prop where
  examined : ∀ memory sent, msg = .periodicTimer memory sent → examined effects = s.list.map Pcb.ptr
  told : ∀ ptr ∈ removed effects, ∃ address, addressOf (trace ++ effects) ptr = some address ∧
    (told effects).count address = 1

/-- Publications are managed, throughout a run. -/
def AlwaysManaged : Module → List Effect → List (Config × Msg) → Prop
  | _, _, [] => True
  | s, trace, (config, msg) :: msgs =>
    let (s', effects) := s.process config msg
    Managed s' (trace ++ effects) ∧ Tells s trace msg effects ∧ AlwaysManaged s' (trace ++ effects) msgs

/-- The request has the address of its context, or does not fail. -/
def RequestOk (s : Module) (r : Request) (memory : Memory) (sent : Bool) : Prop :=
  ∀ p ∈ s.findPcb r.pubHandle, r.address = p.address ∨
    if p.outstandingTrxn then memory.request else sent

/-- A first request does not fail when there is a context for it, whose handle is not in use. -/
def FirstOk (s : Module) (memory : Memory) (sent : Bool) : Prop :=
  ∀ p ∈ (s.getNewPcb memory).2, sent ∧ memory.node ∧ ∀ p' ∈ s.list, p'.pubHandle ≠ p.pubHandle

/-- The refresh of a context is due in a periodic pass. -/
def RefreshDue (config : Config) (p : Pcb) : Prop :=
  p.outstandingTrxn = false ∧
    (elapsed p).expires ≤ config.timerSubscribeDelta + tmrPeriodicPublishInterval

/-- The message does not remove a context without its address. There is memory for the nodes of the lists and
the tag of a response. -/
def MsgOk (s : Module) (config : Config) : Msg → Prop
  | .appPublish r memory sent =>
    memory.requestNode ∧ if r.pubHandle = 0 then s.FirstOk memory sent else s.RequestOk r memory sent
  | .periodicTimer _ sent => ∀ p ∈ s.list, RefreshDue config p → sent p.ptr
  | .sipResponse callId _ _ _ _ sipEtag _ sent =>
    sipEtag ≠ some false ∧ ∀ c ∈ callId, ∀ p ∈ s.findPcbBySipCallid c, ∀ r ∈ p.pendingReqs.head?,
      r.address = p.address ∨ sent
  | .retryTimer .. | .reset => True

/-- Whether a message is so is decidable. -/
instance decidableMsgOk (s : Module) (config : Config) : (msg : Msg) → Decidable (MsgOk s config msg)
  | .appPublish r memory sent => by
    unfold MsgOk FirstOk RequestOk
    infer_instance
  | .periodicTimer _ sent => by
    unfold MsgOk RefreshDue
    infer_instance
  | .sipResponse .. => by
    unfold MsgOk
    infer_instance
  | .retryTimer .. | .reset => .isTrue trivial

/-- The messages of a run are so. -/
def RunOk : Module → List (Config × Msg) → Prop
  | _, [] => True
  | s, (config, msg) :: msgs => MsgOk s config msg ∧ RunOk (s.process config msg).1 msgs

instance decidableRunOk : (s : Module) → (msgs : List (Config × Msg)) → Decidable (RunOk s msgs)
  | _, [] => .isTrue trivial
  | s, (config, msg) :: msgs =>
    have := decidableRunOk (s.process config msg).1 msgs
    inferInstanceAs (Decidable (MsgOk s config msg ∧ RunOk (s.process config msg).1 msgs))

end Module

section

variable (trace es : List Effect)

theorem removed_append : removed (trace ++ es) = removed trace ++ removed es := List.filterMap_append

theorem told_append : told (trace ++ es) = told trace ++ told es := List.filterMap_append

theorem examined_append : examined (trace ++ es) = examined trace ++ examined es := List.filterMap_append

end

namespace Module

variable {s : Module} {trace es : List Effect} {p p₀ : Pcb}

theorem Inv.managed (h : Inv s trace) : Managed s trace :=
  ⟨h.safe, h.atMost, h.inOrder, fun p hp => (h.pcb p hp).waiting⟩

/-! ## Requests -/

variable {config : Config}

/-- **A PUBLISH is sent** for a context that has none outstanding, perhaps for a request that was deferred. -/
theorem Inv.sipSPISendPublish (h : Inv s trace) (hp₀ : p₀ ∈ s.list) (hptr : p.ptr = p₀.ptr)
    (haddress : p.address = p₀.address) (htrxn : p₀.outstandingTrxn = false) {r : Option Request}
    (hpending : p₀.pendingReqs = r.toList ++ p.pendingReqs) :
    Inv (s.sipSPISendPublish config p r).1 (trace ++ (s.sipSPISendPublish config p r).2) := by
  obtain ⟨haddr, hout, hwait⟩ := h.pcb p₀ hp₀
  have hview := view_send trace p.ptr p.ptr s.nextCallId r
  rw [hptr, hout, htrxn, hwait, haddr, hpending] at hview
  simp only [view, Prod.mk.injEq] at hview
  obtain ⟨hout', hdef, hsent, haddr'⟩ := hview
  have hhandle : p.pubHandle = p₀.pubHandle := congrArg Address.pubHandle haddress
  rw [← hptr] at hout' hdef hsent haddr'
  refine h.write (p := { setRetrySettings config p with callId := some s.nextCallId, outstandingTrxn := true })
    hp₀ hptr haddress (Nat.le_succ _) ?_ ?_ ?_ ?_ ⟨?_, hout', ?_⟩
  · rintro c hc
    obtain rfl : s.nextCallId = c := Option.some.inj hc
    exact ⟨Nat.lt_succ_self _, .inr (Nat.le_refl _)⟩
  · intro r' hr'
    exact (h.requests p₀ hp₀ r' (hpending ▸ List.mem_append_right _ hr')).trans hhandle.symm
  · exact List.forall_mem_cons.2 ⟨hptr ▸ h.alive p₀ hp₀, List.forall_mem_singleton.2 trivial⟩
  · exact fun ptr hne => List.forall_mem_cons.2 ⟨trivial, List.forall_mem_singleton.2 (Ne.symm hne)⟩
  · exact haddr'.trans (congrArg some haddress.symm)
  · refine hdef.trans ?_
    rw [← List.append_assoc, ← hsent]
    rfl

variable {r : Request}

theorem Inv.defer (h : Inv s trace) (hp : p ∈ s.list) (hr : r.pubHandle = p.pubHandle) :
    Inv (s.update { p with pendingReqs := p.pendingReqs ++ [r] }) (trace ++ [.access p.ptr, .defer p.ptr r]) := by
  obtain ⟨haddr, hout, hwait⟩ := h.pcb p hp
  have hview := view_defer trace p.ptr p.ptr r
  simp only [view, Prod.mk.injEq] at hview
  obtain ⟨hout', hdef, hsent, haddr'⟩ := hview
  refine h.write (p := { p with pendingReqs := p.pendingReqs ++ [r] }) hp rfl rfl (Nat.le_refl _) ?_ ?_ ?_ ?_
    ⟨haddr'.trans haddr, hout'.trans hout, ?_⟩
  · exact fun c hc => ⟨h.callId_lt p hp c hc, .inl hc⟩
  · intro r' hr'
    obtain hr' | hr' := List.mem_append.1 hr'
    · exact h.requests p hp r' hr'
    · obtain rfl := List.mem_singleton.1 hr'
      exact hr
  · exact List.forall_mem_cons.2 ⟨h.alive p hp, List.forall_mem_singleton.2 trivial⟩
  · exact fun ptr hne => List.forall_mem_cons.2 ⟨trivial, List.forall_mem_singleton.2 (Ne.symm hne)⟩
  · rw [hdef, hsent, hwait, List.append_assoc]

theorem update_update (s : Module) {p' : Pcb} (h : p.ptr = p'.ptr) : (s.update p).update p' = s.update p' := by
  cases hl : s.pcbList with
  | none => simp [update, hl]
  | some l =>
    have hreplace := Keyed.replace_replace h l
    simp only [Keyed.replace] at hreplace
    simp only [update, hl, Option.map_some, hreplace]

theorem update_freePcb (s : Module) {p' : Pcb} (h : p.ptr = p'.ptr) : (s.update p).freePcb p' = s.freePcb p' := by
  cases hl : s.pcbList with
  | none => simp [update, freePcb, hl]
  | some l =>
    have hfilter := Keyed.filter_replace h l
    simp only [Keyed.replace] at hfilter
    simp only [update, freePcb, hl, Option.map_some, hfilter]

theorem Inv.findPcb_update (h : Inv s trace) (hp₀ : p₀ ∈ s.list) (hptr : p.ptr = p₀.ptr)
    (hhandle : p.pubHandle = p₀.pubHandle) : (s.update p).findPcb p₀.pubHandle = some p := by
  have hhandles : ((s.update p).list.map Pcb.pubHandle).Nodup := by
    rw [list_update, Keyed.map_replace h.ptrs hp₀ hptr hhandle]
    exact h.handles
  refine Keyed.find?_eq hhandles ?_ hhandle
  rw [list_update]
  exact Keyed.mem_replace_self hp₀ hptr.symm

/-! ## What is told -/

/-- No request waits for a context that has no PUBLISH outstanding, but for one context. -/
def IdleBut (s : Module) (ptr : ℕ) : Prop :=
  ∀ p ∈ s.list, p.ptr ≠ ptr → p.outstandingTrxn = false → p.pendingReqs = []

/-- What a step keeps. The application is told once of a context that is removed. -/
structure Keeps (trace : List Effect) (result : Module × List Effect) : Prop where
  inv : Inv result.1 (trace ++ result.2)
  idle : ∀ p ∈ result.1.list, p.outstandingTrxn = false → p.pendingReqs = []
  tells : ∀ ptr ∈ removed result.2, ∃ address, addressOf (trace ++ result.2) ptr = some address ∧
    (told result.2).count address = 1

variable {result : Module × List Effect}

theorem Keeps.prepend (h : Keeps (trace ++ es) result) (hremoved : removed es = [])
    (htold : told es = []) : Keeps trace (result.1, es ++ result.2) where
  inv := by
    rw [← List.append_assoc]
    exact h.inv
  idle := h.idle
  tells := by
    rw [removed_append, hremoved, told_append, htold, ← List.append_assoc]
    exact h.tells

theorem idle_update {n : ℕ} (hidle : IdleBut s p.ptr) (hp : p.outstandingTrxn = false → p.pendingReqs = []) :
    ∀ p' ∈ ({ s with nextCallId := n }.update p).list, p'.outstandingTrxn = false → p'.pendingReqs = [] := by
  intro p' hp'
  rw [list_update] at hp'
  obtain rfl | ⟨hp', hne⟩ := Keyed.mem_replace hp'
  · exact hp
  · exact hidle p' hp' hne

theorem keeps_of_not_removed (hinv : Inv result.1 (trace ++ result.2))
    (hidle : ∀ p ∈ result.1.list, p.outstandingTrxn = false → p.pendingReqs = [])
    (hremoved : removed result.2 = []) : Keeps trace result :=
  ⟨hinv, hidle, by simp [hremoved]⟩

@[simp]
theorem removed_freeEventData (eventData : Option ℕ) : removed (freeEventData eventData) = [] := by
  cases eventData <;> rfl

@[simp]
theorem told_freeEventData (eventData : Option ℕ) : told (freeEventData eventData) = [] := by
  cases eventData <;> rfl

theorem removed_flatMap (rs : List Request) : removed (rs.flatMap fun r => freeEventData r.eventData) = [] := by
  induction rs with
  | nil => rfl
  | cons r rs ih => rw [List.flatMap_cons, removed_append, removed_freeEventData, ih, List.append_nil]

theorem told_flatMap (rs : List Request) : told (rs.flatMap fun r => freeEventData r.eventData) = [] := by
  induction rs with
  | nil => rfl
  | cons r rs ih => rw [List.flatMap_cons, told_append, told_freeEventData, ih, List.append_nil]

theorem removed_freePcb (s : Module) (p : Pcb) : removed (s.freePcb p).2 = [p.ptr] := by
  rw [freePcb_snd, beforeFree, ← List.singleton_append, removed_append, removed_append, removed_append,
    removed_flatMap, removed_freeEventData]
  rfl

theorem told_freePcb (s : Module) (p : Pcb) : told (s.freePcb p).2 = [] := by
  rw [freePcb_snd, beforeFree, ← List.singleton_append, told_append, told_append, told_append, told_flatMap,
    told_freeEventData]
  rfl

/-- **A context is removed, and the application told of it.** -/
theorem keeps_freePcb (h : Inv s trace) (hp₀ : p₀ ∈ s.list) (hptr : p.ptr = p₀.ptr)
    (hidle : IdleBut s p.ptr) (pre post : List Effect)
    (hpre : HeapTrace.Quiet (HeapTrace.alive [] trace) pre) (hpreOff : ∀ ptr, ∀ e ∈ pre, e.Off ptr)
    (hpost : ∀ l, HeapTrace.Quiet l post) (hpostOff : ∀ ptr, ∀ e ∈ post, e.Off ptr)
    (hremoved : removed pre = [] ∧ removed post = []) (htold : told pre ++ told post = [p₀.address]) :
    Keeps trace ((s.freePcb p).1, pre ++ (s.freePcb p).2 ++ post) where
  inv := by
    rw [← List.append_assoc, ← List.append_assoc]
    exact ((h.silent hpre hpreOff).freePcb hp₀ hptr).silent (hpost _) hpostOff
  idle := by
    intro p' hp'
    rw [list_freePcb, List.mem_filter] at hp'
    exact hidle p' hp'.1 (by simpa using hp'.2)
  tells := by
    intro ptr hmem
    rw [removed_append, removed_append, hremoved.1, hremoved.2, removed_freePcb] at hmem
    obtain rfl : ptr = p.ptr := by simpa using hmem
    refine ⟨p₀.address, ?_, ?_⟩
    · rw [addressOf_append, hptr, (h.pcb p₀ hp₀).address, Option.some_or]
    · rw [told_append, told_append, told_freePcb, List.append_nil, htold, List.count_singleton_self]

/-- **A PUBLISH is sent.** -/
theorem keeps_sipSPISendPublish (h : Inv s trace) (hp₀ : p₀ ∈ s.list) (hptr : p.ptr = p₀.ptr)
    (haddress : p.address = p₀.address) (htrxn : p₀.outstandingTrxn = false) {r : Option Request}
    (hpending : p₀.pendingReqs = r.toList ++ p.pendingReqs) (hidle : IdleBut s p.ptr) :
    Keeps trace (s.sipSPISendPublish config p r) := by
  refine keeps_of_not_removed (h.sipSPISendPublish hp₀ hptr haddress htrxn hpending) ?_ rfl
  exact idle_update hidle nofun

theorem keeps_endPcb (h : Inv s trace) (hp₀ : p₀ ∈ s.list) (hptr : p.ptr = p₀.ptr)
    (haddress : p.address = p₀.address) (hidle : IdleBut s p.ptr) (respCode : ℤ) :
    Keeps trace (s.endPcb p respCode) := by
  have hpre : HeapTrace.Quiet (HeapTrace.alive [] trace) [Effect.access p.ptr, .respond respCode p.address] :=
    List.forall_mem_cons.2 ⟨hptr ▸ h.alive p₀ hp₀, List.forall_mem_singleton.2 trivial⟩
  have hkeeps := keeps_freePcb h hp₀ hptr hidle _ [] hpre
    (fun ptr => List.forall_mem_cons.2 ⟨trivial, List.forall_mem_singleton.2 trivial⟩)
    (fun _ => List.forall_mem_nil _) (fun _ => List.forall_mem_nil _) ⟨rfl, rfl⟩ (congrArg (fun a => [a]) haddress)
  rw [List.append_nil] at hkeeps
  exact hkeeps

theorem update_sipSPISendPublish (s : Module) {q : Pcb} (h : q.ptr = p.ptr) (r : Option Request) :
    (s.update q).sipSPISendPublish config p r = s.sipSPISendPublish config p r :=
  congrArg (fun s' => (s', _)) (update_update { s with nextCallId := s.nextCallId + 1 } h)

variable {sent : Bool}

/-- **A PUBLISH is sent for a request**, or its context removed. -/
theorem keeps_sendRequest (h : Inv s trace) (hp₀ : p₀ ∈ s.list) (hptr : p.ptr = p₀.ptr)
    (haddress : p.address = p₀.address) (htrxn : p₀.outstandingTrxn = false) {d : Option Request}
    (hpending : p₀.pendingReqs = d.toList ++ p.pendingReqs) (hidle : IdleBut s p.ptr)
    (hok : r.address = p₀.address ∨ sent) : Keeps trace (s.sendRequest config p r d sent) := by
  cases sent with
  | true => exact keeps_sipSPISendPublish h hp₀ hptr haddress htrxn hpending hidle
  | false =>
    have hanswer : r.address = p₀.address := by simpa using hok
    exact keeps_freePcb h hp₀ hptr hidle [.access p.ptr] [.respond publishFailedSend r.address]
      (List.forall_mem_singleton.2 (hptr ▸ h.alive p₀ hp₀)) (fun _ => List.forall_mem_singleton.2 trivial)
      (fun _ => List.forall_mem_singleton.2 trivial) (fun _ => List.forall_mem_singleton.2 trivial) ⟨rfl, rfl⟩
      (congrArg (fun a => [a]) hanswer)

theorem update_sendRequest (s : Module) {q : Pcb} (h : q.ptr = p.ptr) (r : Request) (d : Option Request)
    (sent : Bool) : (s.update q).sendRequest config p r d sent = s.sendRequest config p r d sent := by
  simp only [sendRequest, update_sipSPISendPublish s h, update_freePcb s h]

theorem Inv.handleEvAppPublish_eq (h : Inv s trace) (hp₀ : p₀ ∈ s.list) (hptr : p.ptr = p₀.ptr)
    (hhandle : p.pubHandle = p₀.pubHandle) (htrxn : p.outstandingTrxn = false)
    (hr : r.pubHandle = p₀.pubHandle) (d : Option Request) (memory : Memory) (sent : Bool) :
    (s.update p).handleEvAppPublish config r d memory sent = ((s.sendRequest config (modify p r) r d sent).1,
        .access p.ptr :: freeEventData p.eventData ++ (s.sendRequest config (modify p r) r d sent).2) := by
  have hne : r.pubHandle ≠ 0 := hr ▸ h.handle_ne p₀ hp₀
  have hfind : (s.update p).findPcb r.pubHandle = some p := hr ▸ h.findPcb_update hp₀ hptr hhandle
  have hmodify : p.ptr = (modify p r).ptr := rfl
  simp only [handleEvAppPublish, if_pos hne, hfind, htrxn, update_update s hmodify]
  exact congrArg (fun result : Module × List Effect => (result.1, _ ++ result.2))
    (update_sendRequest s rfl r d sent)

/-- **A further request for a context that has no PUBLISH outstanding.** -/
theorem keeps_request (h : Inv s trace) (hp₀ : p₀ ∈ s.list) (hptr : p.ptr = p₀.ptr)
    (haddress : p.address = p₀.address) (htrxn₀ : p₀.outstandingTrxn = false)
    (htrxn : p.outstandingTrxn = false) {d : Option Request}
    (hpending : p₀.pendingReqs = d.toList ++ p.pendingReqs) (hidle : IdleBut s p.ptr)
    (hr : r.pubHandle = p₀.pubHandle) (memory : Memory) (hok : r.address = p₀.address ∨ sent) :
    Keeps trace ((s.update p).handleEvAppPublish config r d memory sent) := by
  have hhandle : p.pubHandle = p₀.pubHandle := congrArg Address.pubHandle haddress
  have hpre : HeapTrace.Quiet (HeapTrace.alive [] trace) (Effect.access p.ptr :: freeEventData p.eventData) :=
    List.forall_mem_cons.2 ⟨hptr ▸ h.alive p₀ hp₀, quiet_freeEventData _ _⟩
  have hinv := h.silent hpre fun ptr => List.forall_mem_cons.2 ⟨trivial, off_freeEventData ptr _⟩
  have hsent : Keeps (trace ++ Effect.access p.ptr :: freeEventData p.eventData)
      (s.sendRequest config (modify p r) r d sent) :=
    keeps_sendRequest (p := modify p r) hinv hp₀ hptr haddress htrxn₀ hpending hidle hok
  have hkeeps := hsent.prepend (removed_freeEventData _) (told_freeEventData _)
  rw [h.handleEvAppPublish_eq hp₀ hptr hhandle htrxn hr]
  exact hkeeps

theorem Inv.update_self (h : Inv s trace) (hp : p ∈ s.list) : s.update p = s := by
  cases hl : s.pcbList with
  | none =>
    simp only [update, hl, Option.map_none]
    rw [← hl]
  | some l =>
    have hlist : s.list = l := by simp [list, hl]
    have hmap : (l.map fun p' => if p'.ptr = p.ptr then p else p') = l := by
      refine (List.map_congr_left fun p' hp' => ?_).trans (List.map_id l)
      split_ifs with heq
      · exact (Keyed.eq_of_key_eq h.ptrs (hlist ▸ hp') hp heq).symm
      · rfl
    simp only [update, hl, Option.map_some, hmap]
    rw [← hl]

/-- No request waits for a context that has no PUBLISH outstanding. -/
def Idle (s : Module) : Prop :=
  ∀ p ∈ s.list, p.outstandingTrxn = false → p.pendingReqs = []

theorem Idle.but (h : Idle s) (ptr : ℕ) : IdleBut s ptr := fun p hp _ => h p hp

variable {memory : Memory}

/-- **A further request of the application.** -/
theorem keeps_further (h : Inv s trace) (hidle : Idle s) (hne : r.pubHandle ≠ 0)
    (hnode : memory.requestNode) (hok : s.RequestOk r memory sent) :
    Keeps trace (s.handleEvAppPublish config r none memory sent) := by
  cases hfind : s.findPcb r.pubHandle with
  | none =>
    have hresult : s.handleEvAppPublish config r none memory sent =
        (s, .respond publishFailedNocontext r.address :: freeEventData r.eventData) := by
      simp only [handleEvAppPublish, if_pos hne, hfind]
    rw [hresult]
    refine keeps_of_not_removed ?_ hidle (removed_freeEventData _)
    exact h.silent (List.forall_mem_cons.2 ⟨trivial, quiet_freeEventData _ _⟩)
      fun ptr => List.forall_mem_cons.2 ⟨trivial, off_freeEventData ptr _⟩
  | some p =>
    have hp : p ∈ s.list := List.mem_of_find?_eq_some hfind
    have hr : p.pubHandle = r.pubHandle := by simpa using List.find?_some hfind
    have hok := hok p hfind
    cases htrxn : p.outstandingTrxn with
    | false =>
      have hkeeps : Keeps trace ((s.update p).handleEvAppPublish config r none memory sent) :=
        keeps_request h hp rfl rfl htrxn htrxn rfl (hidle.but p.ptr) hr.symm memory (by simpa [htrxn] using hok)
      rwa [h.update_self hp] at hkeeps
    | true =>
      rw [handleEvAppPublish, if_pos hne]
      simp only [hfind]
      rw [if_pos htrxn]
      cases hmemory : memory.request with
      | true =>
        rw [if_pos rfl, if_pos hnode]
        refine keeps_of_not_removed (h.defer hp hr.symm) ?_ rfl
        exact idle_update (hidle.but _) fun hout => absurd (htrxn.symm.trans hout) (by decide)
      | false =>
        have hanswer : r.address = p.address := by simpa [htrxn, hmemory] using hok
        refine keeps_freePcb h hp rfl (hidle.but _) [.access p.ptr]
          (.respond publishFailedNoresource r.address :: freeEventData r.eventData)
          (List.forall_mem_singleton.2 (h.alive p hp)) (fun _ => List.forall_mem_singleton.2 trivial)
          (fun l => List.forall_mem_cons.2 ⟨trivial, quiet_freeEventData l _⟩)
          (fun ptr => List.forall_mem_cons.2 ⟨trivial, off_freeEventData ptr _⟩)
          ⟨rfl, removed_freeEventData _⟩ ?_
        have htold := told_freeEventData r.eventData
        simp only [told] at htold
        simp [told, htold, hanswer]

theorem generateNewPubHandle_ne (s : Module) : s.generateNewPubHandle ≠ 0 := by
  rw [generateNewPubHandle]
  split_ifs with h
  · have hadd : s.handle + 2 = s.handle + 1 + 1 := by
      rw [UInt32.add_assoc]
      rfl
    rw [hadd, h]
    decide
  · exact h

theorem getNewPcb_none (h : (s.getNewPcb memory).2 = none) :
    (s.getNewPcb memory).1.list = s.list ∧ s.nextPtr ≤ (s.getNewPcb memory).1.nextPtr ∧
      (s.getNewPcb memory).1.nextCallId = s.nextCallId := by
  rw [getNewPcb] at h ⊢
  split_ifs at h ⊢
  · exact ⟨rfl, Nat.le_refl _, rfl⟩
  · exact ⟨rfl, Nat.le_refl _, rfl⟩
  · exact ⟨rfl, Nat.le_succ _, rfl⟩

theorem getNewPcb_some (h : (s.getNewPcb memory).2 = some p) (hnode : memory.node) :
    p = { ptr := s.nextPtr, pubHandle := s.generateNewPubHandle } ∧
      (s.getNewPcb memory).1.list = s.list ++ [p] ∧ (s.getNewPcb memory).1.nextPtr = s.nextPtr + 1 ∧
      (s.getNewPcb memory).1.nextCallId = s.nextCallId := by
  rw [getNewPcb] at h ⊢
  split_ifs at h ⊢
  obtain rfl := Option.some.inj h
  exact ⟨rfl, rfl, rfl, rfl⟩

/-- **A first request of the application.** -/
theorem keeps_first (h : Inv s trace) (hidle : Idle s) (hzero : r.pubHandle = 0) (hok : s.FirstOk memory sent) :
    Keeps trace (s.handleEvAppPublish config r none memory sent) := by
  have hne : ¬ r.pubHandle ≠ 0 := fun hne => hne hzero
  rw [handleEvAppPublish, if_neg hne]
  rcases hnew : s.getNewPcb memory with ⟨s', _ | p⟩
  · obtain ⟨hlist, hptr, hcallId⟩ := getNewPcb_none (congrArg Prod.snd hnew)
    rw [hnew] at hlist hptr hcallId
    have hinv : Inv s' trace := h.of_list hlist hptr hcallId
    refine keeps_of_not_removed ?_ (fun p hp => hidle p (hlist ▸ hp)) (removed_freeEventData _)
    exact hinv.silent (List.forall_mem_cons.2 ⟨trivial, quiet_freeEventData _ _⟩)
      fun ptr => List.forall_mem_cons.2 ⟨trivial, off_freeEventData ptr _⟩
  · obtain ⟨hsent, hnode, hfresh⟩ := hok p (congrArg Prod.snd hnew)
    obtain ⟨rfl, hlist, hptr, hcallId⟩ := getNewPcb_some (congrArg Prod.snd hnew) hnode
    rw [hnew] at hlist hptr hcallId
    let p : Pcb :=
      { ptr := s.nextPtr
        pubHandle := s.generateNewPubHandle
        appHandle := r.appHandle
        origExpiration := r.expires.toNat
        eventData := r.eventData
        callbackTask := r.callbackTask
        respMsgId := r.respMsgId }
    have hlist' : (s'.update p).list = s.list ++ [p] := by
      have hold : Keyed.replace Pcb.ptr p s.list = s.list := by
        refine (List.map_congr_left fun p' hp' => ?_).trans (List.map_id _)
        have hlt : p'.ptr < p.ptr := h.ptr_lt p' hp'
        exact if_neg (Nat.ne_of_lt hlt)
      rw [list_update, hlist, Keyed.replace, List.map_append]
      exact congrArg₂ (· ++ ·) hold (congrArg (fun a => [a]) (if_pos rfl))
    have halloc : Inv (s'.update p) (trace ++ [.alloc p.ptr p.address]) :=
      h.alloc (p := p) rfl (generateNewPubHandle_ne s) hfresh rfl rfl rfl hlist' hptr hcallId
    have hp : p ∈ (s'.update p).list := by
      rw [hlist']
      exact List.mem_append_right _ (List.mem_singleton.2 rfl)
    have hidle' : IdleBut (s'.update p) p.ptr := by
      intro p' hp' hptr'
      rw [hlist'] at hp'
      obtain hp' | hp' := List.mem_append.1 hp'
      · exact hidle p' hp'
      · exact absurd (congrArg Pcb.ptr (List.mem_singleton.1 hp')) hptr'
    have hkeeps : Keeps (trace ++ [.alloc p.ptr p.address]) ((s'.update p).sendRequest config p r none sent) :=
      keeps_sendRequest halloc hp rfl rfl rfl rfl hidle' (.inr hsent)
    exact hkeeps.prepend rfl rfl

/-! ## Timers -/

theorem quiet_access {l : List ℕ} {ptr : ℕ} (h : ptr ∈ l) : HeapTrace.Quiet l [Effect.access ptr] :=
  List.forall_mem_singleton.2 h

theorem off_access {ptr' : ℕ} (ptr : ℕ) : ∀ e ∈ [Effect.access ptr'], e.Off ptr := List.forall_mem_singleton.2 trivial

theorem keeps_access_endPcb (h : Inv s trace) (hp₀ : p₀ ∈ s.list) (hptr : p.ptr = p₀.ptr)
    (haddress : p.address = p₀.address) (hidle : Idle s) (respCode : ℤ) :
    Keeps trace ((s.endPcb p respCode).1, .access p.ptr :: (s.endPcb p respCode).2) := by
  have hinv := h.silent (quiet_access (hptr ▸ h.alive p₀ hp₀)) off_access
  exact (keeps_endPcb hinv hp₀ hptr haddress (hidle.but _) respCode).prepend rfl rfl

/-- **A retry timer expires.** -/
theorem keeps_handleRetryTimerExpire (h : Inv s trace) (hidle : Idle s) (handle : UInt32) (sent : Bool) :
    Keeps trace (s.handleRetryTimerExpire config handle sent) := by
  simp only [handleRetryTimerExpire]
  cases hfind : s.findPcb handle with
  | none => exact keeps_of_not_removed (by simpa using h) hidle rfl
  | some p =>
    have hp : p ∈ s.list := List.mem_of_find?_eq_some hfind
    have hread := quiet_access (h.alive p hp)
    simp only
    split_ifs
    · exact keeps_of_not_removed (h.silent hread off_access) hidle rfl
    · have hwrite := h.rewrite (p := { p with retxCounter := p.retxCounter + 1 }) hp rfl rfl rfl rfl rfl
      refine keeps_of_not_removed (hwrite.silent ?_ ?_) (idle_update (hidle.but _) (hidle p hp)) rfl
      · exact List.forall_mem_cons.2 ⟨h.alive p hp, List.forall_mem_singleton.2 trivial⟩
      · exact fun _ => List.forall_mem_cons.2 ⟨trivial, List.forall_mem_singleton.2 trivial⟩
    · have hend := keeps_access_endPcb (p := { p with retxCounter := p.retxCounter + 1 }) h hp rfl rfl hidle
        publishFailedSend
      simp only [endPcb, update_freePcb]
      exact hend
    · exact keeps_access_endPcb h hp rfl rfl hidle sipCliErrReqTimeout

/-- What the examination of a context does in a periodic pass. -/
structure Examines (s : Module) (trace : List Effect) (p : Pcb) (result : Module × List Effect) : Prop where
  inv : Inv result.1 (trace ++ result.2)
  idle : Idle result.1
  list : ∃ q : Pcb, q.ptr = p.ptr ∧ result.1.list = Keyed.replace Pcb.ptr q s.list
  removed : removed result.2 = []
  told : told result.2 = []
  examined : examined result.2 = [p.ptr]

theorem examined_freeEventData (eventData : Option ℕ) : Publish.examined (freeEventData eventData) = [] := by
  cases eventData <;> rfl

theorem exists_list_sipSPISendPublish (s : Module) (config : Config) (p : Pcb) (r : Option Request) :
    ∃ q : Pcb, q.ptr = p.ptr ∧ (s.sipSPISendPublish config p r).1.list = Keyed.replace Pcb.ptr q s.list :=
  ⟨{ setRetrySettings config p with callId := some s.nextCallId, outstandingTrxn := true }, rfl,
    list_update { s with nextCallId := s.nextCallId + 1 } _⟩

/-- **A context is examined**, whose refresh can be sent when it is due. -/
theorem examines_examine (h : Inv s trace) (hidle : Idle s) (hp : p ∈ s.list) (memory : Memory)
    (hok : RefreshDue config p → sent) : Examines s trace p (s.examine config p memory sent) := by
  have hread : HeapTrace.Quiet (HeapTrace.alive [] trace) [Effect.examine p.ptr] :=
    List.forall_mem_singleton.2 (h.alive p hp)
  have hoff : ∀ ptr, ∀ e ∈ [Effect.examine p.ptr], e.Off ptr := fun _ => List.forall_mem_singleton.2 trivial
  have hinv := h.silent hread hoff
  by_cases htrxn : p.outstandingTrxn
  · rw [examine, if_pos htrxn]
    refine ⟨hinv, hidle, ⟨p, rfl, ?_⟩, rfl, rfl, rfl⟩
    rw [← list_update, h.update_self hp]
  have htrxn' : p.outstandingTrxn = false := by simpa using htrxn
  rw [examine, if_neg htrxn]
  simp only
  by_cases hdue : (elapsed p).expires ≤ config.timerSubscribeDelta + tmrPeriodicPublishInterval
  · -- the refresh is sent
    have hpublish : (s.update (elapsed p)).handleEvAppPublish config (refreshRequest (elapsed p)) none memory
        sent = _ := h.handleEvAppPublish_eq (p := elapsed p) hp rfl rfl htrxn' rfl none memory sent
    rw [if_pos hdue, hpublish, sendRequest, if_pos (hok ⟨htrxn', hdue⟩)]
    have hread' : HeapTrace.Quiet (HeapTrace.alive [] trace)
        (.examine p.ptr :: .access p.ptr :: freeEventData p.eventData) :=
      List.forall_mem_cons.2 ⟨h.alive p hp, List.forall_mem_cons.2 ⟨h.alive p hp, quiet_freeEventData _ _⟩⟩
    have hinv' := h.silent hread' fun ptr =>
      List.forall_mem_cons.2 ⟨trivial, List.forall_mem_cons.2 ⟨trivial, off_freeEventData ptr _⟩⟩
    have hsent : Inv (s.sipSPISendPublish config (modify (elapsed p) (refreshRequest (elapsed p))) none).1 _ :=
      hinv'.sipSPISendPublish (p := modify (elapsed p) (refreshRequest (elapsed p))) hp rfl rfl htrxn' rfl
    refine ⟨?_, idle_update (hidle.but _) nofun, 
      exists_list_sipSPISendPublish s config (modify (elapsed p) (refreshRequest (elapsed p))) none, ?_, ?_, ?_⟩
    · rw [List.append_assoc] at hsent
      exact hsent
    · have hremoved := removed_freeEventData p.eventData
      exact (removed_append (freeEventData p.eventData) [.access p.ptr, .send p.ptr s.nextCallId none]).trans
        (congrArg (· ++ []) hremoved)
    · have htold := told_freeEventData p.eventData
      exact (told_append (freeEventData p.eventData) [.access p.ptr, .send p.ptr s.nextCallId none]).trans
        (congrArg (· ++ []) htold)
    · have hexamined := examined_freeEventData p.eventData
      exact congrArg (p.ptr :: ·) ((examined_append (freeEventData p.eventData)
        [.access p.ptr, .send p.ptr s.nextCallId none]).trans (congrArg (· ++ []) hexamined))
  · rw [if_neg hdue]
    have hwrite := hinv.rewrite (p := elapsed p) hp rfl rfl rfl rfl rfl
    exact ⟨hwrite, idle_update (hidle.but _) (hidle p hp), ⟨elapsed p, rfl, list_update s _⟩, rfl, rfl, rfl⟩

theorem sllNext_eq {pre post : List Pcb} {q : Pcb} (hnodup : (s.list.map Pcb.ptr).Nodup)
    (hlist : s.list = pre ++ q :: post) : s.sllNext q.ptr = post.head? := by
  have hpre : ∀ p ∈ pre, decide (p.ptr ≠ q.ptr) = true := by
    intro p hp
    rw [hlist, List.map_append, List.nodup_append] at hnodup
    exact decide_eq_true (hnodup.2.2 p.ptr (List.mem_map_of_mem hp) q.ptr (by simp))
  rw [sllNext, hlist, List.dropWhile_append_of_pos hpre, List.dropWhile_cons_of_neg (by simp), List.tail_cons]

theorem Examines.exists_list (h : Examines s trace p result)
    (hnodup : (s.list.map Pcb.ptr).Nodup) {pre post : List Pcb} (hlist : s.list = pre ++ p :: post) :
    ∃ q : Pcb, result.1.list = pre ++ q :: post ∧ result.1.sllNext p.ptr = post.head? := by
  obtain ⟨q, hptr, hq⟩ := h.list
  have hlist' : result.1.list = pre ++ q :: post := by
    rw [hq, hlist]
    exact Keyed.replace_append_cons (hlist ▸ hnodup) hptr
  refine ⟨q, hlist', ?_⟩
  rw [← hptr]
  exact sllNext_eq h.inv.ptrs hlist'

theorem keeps_periodicLoop (h : Inv s trace) (hidle : Idle s) {pre post : List Pcb}
    (hlist : s.list = pre ++ p :: post) {n : ℕ} (hn : post.length < n) (memory : Memory) {sent : ℕ → Bool}
    (hok : ∀ p' ∈ p :: post, RefreshDue config p' → sent p'.ptr) :
    Keeps trace (periodicLoop config memory sent n s p) ∧ removed (periodicLoop config memory sent n s p).2 = [] ∧
      told (periodicLoop config memory sent n s p).2 = [] ∧
      examined (periodicLoop config memory sent n s p).2 = (p :: post).map Pcb.ptr := by
  obtain ⟨m, rfl⟩ : ∃ m, n = m + 1 := ⟨n - 1, by omega⟩
  have hp : p ∈ s.list := hlist ▸ List.mem_append_right _ List.mem_cons_self
  have hexamines : Examines s trace p (s.examine config p memory (sent p.ptr)) :=
    examines_examine h hidle hp memory (hok p List.mem_cons_self)
  obtain ⟨q, hlist', hnext⟩ := hexamines.exists_list h.ptrs hlist
  induction post generalizing s trace p pre m q with
  | nil =>
    simp only [List.head?_nil] at hnext
    simp only [periodicLoop, hnext]
    exact ⟨keeps_of_not_removed hexamines.inv hexamines.idle hexamines.removed, hexamines.removed,
      hexamines.told, hexamines.examined⟩
  | cons p' post ih =>
    simp only [List.head?_cons] at hnext
    simp only [periodicLoop, hnext]
    have hlist'' : (s.examine config p memory (sent p.ptr)).1.list = (pre ++ [q]) ++ p' :: post := by
      rw [hlist', List.append_assoc]
      rfl
    have hp' : p' ∈ (s.examine config p memory (sent p.ptr)).1.list :=
      hlist'' ▸ List.mem_append_right _ List.mem_cons_self
    have hok' : ∀ p'' ∈ p' :: post, RefreshDue config p'' → sent p''.ptr :=
      fun p'' hp'' => hok p'' (List.mem_cons_of_mem _ hp'')
    obtain ⟨k, rfl⟩ : ∃ k, m = k + 1 := ⟨m - 1, by simp only [List.length_cons] at hn; omega⟩
    have hexamines' : Examines _ _ p' (examine _ config p' memory (sent p'.ptr)) :=
      examines_examine hexamines.inv hexamines.idle hp' memory (hok' p' List.mem_cons_self)
    obtain ⟨q', hq', hnext'⟩ := hexamines'.exists_list hexamines.inv.ptrs hlist''
    obtain ⟨hkeeps, hremoved, htold, hexamined⟩ := ih hexamines.inv hexamines.idle hlist'' hok' k
      (by simp only [List.length_cons] at hn; omega) hp' hexamines' q' hq' hnext'
    refine ⟨hkeeps.prepend hexamines.removed hexamines.told, ?_, ?_, ?_⟩
    · rw [removed_append, hexamines.removed, hremoved, List.append_nil]
    · rw [told_append, hexamines.told, htold, List.append_nil]
    · rw [examined_append, hexamines.examined, hexamined]
      rfl

/-- **A periodic pass examines each context once**, when the refreshes can be sent. -/
theorem keeps_handlePeriodicTimerExpire (h : Inv s trace) (hidle : Idle s) (memory : Memory) {sent : ℕ → Bool}
    (hok : ∀ p ∈ s.list, RefreshDue config p → sent p.ptr) :
    Keeps trace (s.handlePeriodicTimerExpire config memory sent) ∧
      examined (s.handlePeriodicTimerExpire config memory sent).2 = s.list.map Pcb.ptr := by
  rw [handlePeriodicTimerExpire]
  cases hlist : s.list with
  | nil => exact ⟨keeps_of_not_removed (by simpa using h) hidle rfl, rfl⟩
  | cons p post =>
    have hlist' : s.list = [] ++ p :: post := hlist
    obtain ⟨hkeeps, -, -, hexamined⟩ := keeps_periodicLoop h hidle hlist' (Nat.lt_succ_self post.length) memory
      (hlist ▸ hok)
    exact ⟨hkeeps, hexamined⟩

/-! ## Responses -/

theorem update_againOrEnd (s : Module) {q : Pcb} (h : q.ptr = p.ptr) (again : Bool) :
    (s.update q).againOrEnd config p again = s.againOrEnd config p again := by
  simp only [againOrEnd, endPcb, update_sipSPISendPublish s h, update_freePcb s h]

theorem keeps_againOrEnd (h : Inv s trace) (hp₀ : p₀ ∈ s.list) (hptr : p.ptr = p₀.ptr)
    (haddress : p.address = p₀.address) (htrxn : p₀.outstandingTrxn = false)
    (hpending : p₀.pendingReqs = p.pendingReqs) (hidle : IdleBut s p.ptr) (again : Bool) :
    Keeps trace (s.againOrEnd config p again) := by
  cases again with
  | true => exact keeps_sipSPISendPublish h hp₀ hptr haddress htrxn hpending hidle
  | false => exact keeps_endPcb h hp₀ hptr haddress hidle publishFailedSend

theorem keeps_nextRequest (h : Inv s trace) (hp₀ : p₀ ∈ s.list) (hptr : p.ptr = p₀.ptr)
    (haddress : p.address = p₀.address) (hcallId : p.callId = p₀.callId)
    (htrxn₀ : p₀.outstandingTrxn = false) (htrxn : p.outstandingTrxn = false)
    (hpending : p.pendingReqs = p₀.pendingReqs) (hidle : IdleBut s p.ptr) (responseCode : ℤ) (memory : Memory)
    (hok : ∀ r ∈ p₀.pendingReqs.head?, r.address = p₀.address ∨ sent) :
    Keeps trace ((s.update p).nextRequest config p responseCode memory sent) := by
  have hread : HeapTrace.Quiet (HeapTrace.alive [] trace) [Effect.access p.ptr] := quiet_access (hptr ▸ h.alive p₀ hp₀)
  rw [nextRequest]
  cases hreqs : p.pendingReqs with
  | nil =>
    have hwrite := h.rewrite hp₀ hptr haddress hcallId (htrxn.trans htrxn₀.symm) hpending
    refine keeps_of_not_removed (hwrite.silent (List.forall_mem_cons.2 ⟨hptr ▸ h.alive p₀ hp₀,
      List.forall_mem_singleton.2 trivial⟩) fun _ => List.forall_mem_cons.2 ⟨trivial,
      List.forall_mem_singleton.2 trivial⟩) (idle_update hidle fun _ => hreqs) rfl
  | cons r rs =>
    have hreqs₀ : p₀.pendingReqs = r :: rs := hpending.symm.trans hreqs
    have hr : r.pubHandle = p₀.pubHandle := h.requests p₀ hp₀ r (by simp [hreqs₀])
    have hkeeps : Keeps (trace ++ [.access p.ptr])
        ((s.update { p with pendingReqs := rs }).handleEvAppPublish config r (some r) memory sent) :=
      keeps_request (p := { p with pendingReqs := rs }) (d := some r) (h.silent hread off_access) hp₀ hptr haddress
        htrxn₀ htrxn hreqs₀ hidle hr memory (hok r (by simp [hreqs₀]))
    simp only [update_update s (show p.ptr = ({ p with pendingReqs := rs } : Pcb).ptr from rfl)]
    exact hkeeps.prepend rfl rfl

/-- **A final response to the PUBLISH of a context.** -/
theorem keeps_handleResponse (h : Inv s trace) (hp : p ∈ s.list) (htrxn : p.outstandingTrxn = false)
    (hidle : IdleBut s p.ptr) {responseCode : ℤ} (hfinal : 200 ≤ responseCode) (authorized : Bool)
    (minExpires expires : Option ℤ) {sipEtag : Option Bool} (hetag : sipEtag ≠ some false) (memory : Memory)
    (hok : ∀ r ∈ p.pendingReqs.head?, r.address = p.address ∨ sent) :
    Keeps trace (s.handleResponse config p responseCode authorized minExpires expires sipEtag memory sent) := by
  unfold handleResponse
  split_ifs with hauth hinterval herror hprovisional hremoved
  · exact keeps_againOrEnd h hp rfl rfl htrxn rfl hidle _
  · have hagain : ∀ q : Pcb, q.ptr = p.ptr → q.address = p.address → p.pendingReqs = q.pendingReqs →
        Keeps trace ((s.update q).againOrEnd config q (minExpires.isSome && sent)) := by
      intro q hptr haddress hpending
      rw [update_againOrEnd s rfl]
      exact keeps_againOrEnd h hp hptr haddress htrxn hpending (hptr ▸ hidle) _
    cases minExpires with
    | none => exact hagain p rfl rfl rfl
    | some expiryTime =>
      simp only
      split_ifs
      · exact hagain { p with expires := expiryTime, origExpiration := expiryTime } rfl rfl rfl
      · exact hagain p rfl rfl rfl
  · exact keeps_endPcb h hp rfl rfl hidle responseCode
  · omega
  · exact keeps_endPcb h hp rfl rfl hidle responseCode
  · exact keeps_nextRequest (p := { p with expires := expires.getD p.expires }) h hp rfl rfl rfl htrxn htrxn
      rfl hidle responseCode memory hok

/-- **A response.** -/
theorem keeps_handleEvSipResponse (h : Inv s trace) (hidle : Idle s) (callId : Option ℕ) (responseCode : ℤ)
    (authorized : Bool) (minExpires expires : Option ℤ) {sipEtag : Option Bool} (hetag : sipEtag ≠ some false)
    (memory : Memory) (hok : ∀ c ∈ callId, ∀ p ∈ s.findPcbBySipCallid c,
      ∀ r ∈ p.pendingReqs.head?, r.address = p.address ∨ sent) :
    Keeps trace (s.handleEvSipResponse config callId responseCode authorized minExpires expires sipEtag memory
      sent) := by
  have hnothing : Keeps trace (s, []) := keeps_of_not_removed (by simpa using h) hidle rfl
  cases callId with
  | none => exact hnothing
  | some c =>
    simp only [handleEvSipResponse]
    cases hfind : s.findPcbBySipCallid c with
    | none => exact hnothing
    | some p =>
      have hp : p ∈ s.list := List.mem_of_find?_eq_some hfind
      have hc : p.callId = some c := by simpa using List.find?_some hfind
      have hread := quiet_access (h.alive p hp)
      have hok := hok c rfl p hfind
      simp only
      by_cases hfinal : 200 ≤ responseCode
      · let p' := { p with outstandingTrxn := false }
        let q := { p with retxFlag := false, outstandingTrxn := false }
        have hanswered := (h.silent hread off_access).final hp hc
        have hp' : p' ∈ (s.update p').list := by
          rw [list_update]
          exact Keyed.mem_replace_self hp rfl
        have hwrite : Inv (s.update q) (trace ++ [.access p.ptr] ++ [.final c]) := by
          have hrewrite := hanswered.rewrite (p := q) hp' rfl rfl rfl rfl rfl
          rwa [update_update s (show p'.ptr = q.ptr from rfl)] at hrewrite
        have hq : q ∈ (s.update q).list := by
          rw [list_update]
          exact Keyed.mem_replace_self hp rfl
        have hidle' : IdleBut (s.update q) q.ptr := by
          intro p'' hp'' hne
          rw [list_update] at hp''
          obtain rfl | ⟨hp'', -⟩ := Keyed.mem_replace hp''
          · exact absurd rfl hne
          · exact hidle p'' hp''
        have hinv := hwrite.silent (quiet_access (hwrite.alive q hq)) off_access
        have hkeeps : Keeps _ ((s.update q).handleResponse config q responseCode authorized minExpires expires
            sipEtag memory sent) :=
          keeps_handleResponse hinv hq rfl hidle' hfinal authorized minExpires expires hetag memory hok
        simp only [if_pos hfinal]
        exact ((hkeeps.prepend rfl rfl).prepend rfl rfl).prepend rfl rfl
      · let q := { p with retxFlag := false }
        have hprovisional : (s.update q).handleResponse config q responseCode authorized minExpires expires
            sipEtag memory sent = (s.update q, []) := by
          unfold handleResponse
          rw [if_neg (by omega), if_neg (by omega), if_neg (by omega), if_pos (by omega)]
        simp only [if_neg hfinal]
        change Keeps trace (((s.update q).handleResponse config q responseCode authorized minExpires expires
          sipEtag memory sent).1, _)
        rw [hprovisional]
        have hwrite : Inv (s.update q) trace := h.rewrite hp rfl rfl rfl rfl rfl
        refine keeps_of_not_removed (hwrite.silent ?_ ?_) (idle_update (hidle.but _) (hidle p hp)) rfl
        · exact List.forall_mem_cons.2 ⟨h.alive p hp, quiet_access (h.alive p hp)⟩
        · exact fun ptr => List.forall_mem_cons.2 ⟨trivial, off_access ptr⟩

theorem resetLoop_spec (h : Inv s trace) (hidle : Idle s) {l : List Pcb} (hlist : s.list = l) :
    Inv (s.resetLoop l).1 (trace ++ (s.resetLoop l).2) ∧ (s.resetLoop l).1.list = [] ∧
      removed (s.resetLoop l).2 = l.map Pcb.ptr ∧ told (s.resetLoop l).2 = l.map Pcb.address := by
  induction l generalizing s trace with
  | nil => exact ⟨by simpa [resetLoop] using h, hlist, rfl, rfl⟩
  | cons p l ih =>
    have hp : p ∈ s.list := hlist ▸ List.mem_cons_self
    have hend := keeps_endPcb h hp rfl rfl (hidle.but _) publishFailedReset
    have hlist' : (s.endPcb p publishFailedReset).1.list = l := by
      have hnodup := h.ptrs
      rw [hlist, List.map_cons, List.nodup_cons] at hnodup
      have hne : ∀ p' ∈ l, p'.ptr ≠ p.ptr := fun p' hp' heq => hnodup.1 (heq ▸ List.mem_map_of_mem hp')
      rw [endPcb, list_freePcb, hlist, List.filter_cons_of_neg (by simp)]
      exact List.filter_eq_self.2 fun p' hp' => decide_eq_true (hne p' hp')
    obtain ⟨hinv, hnil, hremoved, htold⟩ := ih hend.inv hend.idle hlist'
    rw [List.append_assoc] at hinv
    refine ⟨hinv, hnil, ?_, ?_⟩
    · simp only [resetLoop, removed_append, hremoved]
      exact congrArg (· ++ _) (removed_freePcb s p)
    · simp only [resetLoop, told_append, htold]
      exact congrArg (p.address :: · ++ _) (told_freePcb s p)

/-- **The module is reset.** -/
theorem keeps_reset (h : Inv s trace) (hidle : Idle s) : Keeps trace (s.resetLoop s.list) := by
  obtain ⟨hinv, hnil, hremoved, htold⟩ := resetLoop_spec h hidle rfl
  refine ⟨hinv, by simp [hnil], ?_⟩
  intro ptr hptr
  rw [hremoved] at hptr
  obtain ⟨p, hp, rfl⟩ := List.mem_map.1 hptr
  refine ⟨p.address, ?_, ?_⟩
  · rw [addressOf_append, (h.pcb p hp).address, Option.some_or]
  · -- the handles are different
    have hnodup : (s.list.map Pcb.address).Nodup := by
      refine List.Nodup.of_map Address.pubHandle ?_
      rw [List.map_map]
      exact h.handles
    rw [htold]
    exact List.count_eq_one_of_mem hnodup (List.mem_map_of_mem hp)

/-! ## Runs -/

/-- **What a message keeps.** -/
theorem Inv.step (h : Inv s trace) (hidle : Idle s) {msg : Msg} (hok : MsgOk s config msg) :
    Keeps trace (s.process config msg) ∧ Tells s trace msg (s.process config msg).2 := by
  have htells : Keeps trace (s.process config msg) → (∀ memory sent, msg = .periodicTimer memory sent →
        examined (s.process config msg).2 = s.list.map Pcb.ptr) →
      Keeps trace (s.process config msg) ∧ Tells s trace msg (s.process config msg).2 :=
    fun hkeeps hexamined => ⟨hkeeps, hexamined, hkeeps.tells⟩
  cases msg with
  | appPublish r memory sent =>
    obtain ⟨hnode, hok⟩ := hok
    refine htells ?_ nofun
    by_cases hzero : r.pubHandle = 0
    · rw [if_pos hzero] at hok
      exact keeps_first h hidle hzero hok
    · rw [if_neg hzero] at hok
      exact keeps_further h hidle hzero hnode hok
  | retryTimer handle sent => exact htells (keeps_handleRetryTimerExpire h hidle handle sent) nofun
  | periodicTimer memory sent =>
    have hpass := keeps_handlePeriodicTimerExpire h hidle memory hok
    exact htells hpass.1 fun _ _ _ => hpass.2
  | sipResponse =>
    obtain ⟨hetag, hok⟩ := hok
    exact htells (keeps_handleEvSipResponse h hidle _ _ _ _ _ hetag _ hok) nofun
  | reset => exact htells (keeps_reset h hidle) nofun

/-- **What a run keeps.** -/
theorem Inv.run (h : Inv s trace) (hidle : Idle s) {msgs : List (Config × Msg)} (hok : RunOk s msgs) :
    AlwaysManaged s trace msgs := by
  induction msgs generalizing s trace with
  | nil => trivial
  | cons msg msgs ih =>
    obtain ⟨config, msg⟩ := msg
    obtain ⟨hkeeps, htells⟩ := h.step hidle hok.1
    exact ⟨hkeeps.inv.managed, htells, ih hkeeps.inv hkeeps.idle hok.2⟩

theorem inv_init : Inv {} [] where
  safe := trivial
  alive := by simp [list]
  ptrs := .nil
  handles := .nil
  handle_ne := by simp [list]
  pcb := by simp [list]
  requests := by simp [list]
  callIds := by simp [list]
  callId_lt := by simp [list]
  atMost := by simp [outstanding]
  inOrder := by simp [sentDeferred, deferred]
  ptr_lt := by simp [list]
  unused := fun _ _ => rfl

/-- **Publications are managed**, in every run from the start. -/
theorem alwaysManaged (msgs : List (Config × Msg)) (hok : RunOk {} msgs) : AlwaysManaged {} [] msgs :=
  inv_init.run (by simp [Idle, list]) hok

/-- The configuration of the runs below. -/
def phone : Config :=
  { sipRetx := 10, timerSubscribeDelta := 5, transport := .udp }

def publish (appHandle : UInt32) (sent : Bool) : Config × Msg :=
  (phone, .appPublish { pubHandle := 0, appHandle, expires := 60, callbackTask := 2, respMsgId := 9 } {} sent)

/-- A response, with the number of the PUBLISH. -/
def answered (callId : ℕ) (responseCode : ℤ) (sipEtag : Option Bool) : Config × Msg :=
  (phone, .sipResponse (some callId) responseCode true none (some 3600) sipEtag {} true)

/-- A publication that is made and ends. -/
theorem alwaysManaged_publish : AlwaysManaged {} [] [publish 5 true, answered 0 200 (some true),
    (phone, .appPublish { pubHandle := 1, callbackTask := 2, respMsgId := 9 } {} true), answered 1 200 none] :=
  alwaysManaged _ (by decide +kernel)

/-- The state and the trace after messages. -/
def after : Module → List Effect → List (Config × Msg) → Module × List Effect
  | s, trace, [] => (s, trace)
  | s, trace, (config, msg) :: msgs =>
    let (s', effects) := s.process config msg
    after s' (trace ++ effects) msgs

theorem AlwaysManaged.last {msgs : List (Config × Msg)} {msg : Msg}
    (h : AlwaysManaged s trace (msgs ++ [(config, msg)])) :
    let (s', trace') := after s trace msgs
    Managed (s'.process config msg).1 (trace' ++ (s'.process config msg).2) ∧
      Tells s' trace' msg (s'.process config msg).2 := by
  induction msgs generalizing s trace with
  | nil => exact ⟨h.1, h.2.1⟩
  | cons msg' msgs ih => exact ih h.2.2

/-- A context is read after it was freed, when there is no memory for the tag of a response. A periodic pass
stops at a context whose refresh cannot be sent. A first request that cannot be sent is answered without the
handle of its context. -/
theorem not_alwaysManaged :
    (¬ AlwaysManaged {} [] ([publish 5 true] ++ [answered 0 200 (some false)])) ∧
    (¬ AlwaysManaged {} []
      ([publish 5 true, publish 6 true, answered 0 200 none, answered 1 200 none] ++
        [({ phone with timerSubscribeDelta := 4000 }, .periodicTimer {} fun _ => false)])) ∧
    ¬ AlwaysManaged {} [] ([] ++ [publish 5 false]) := by
  refine ⟨fun h => ?_, fun h => ?_, fun h => ?_⟩
  · have hsafe := h.last.1.safe
    revert hsafe
    decide +kernel
  · have hexamined := h.last.2.examined _ _ rfl
    revert hexamined
    decide +kernel
  · obtain ⟨address, haddress, hcount⟩ := h.last.2.told 0 (by decide +kernel)
    have hown : addressOf ([] ++ ((after {} [] []).1.process phone (publish 5 false).2).2) 0 =
        some { pubHandle := 1, appHandle := 5, callbackTask := 2, respMsgId := 9 } := by decide +kernel
    obtain rfl := Option.some.inj (hown.symm.trans haddress)
    revert hcount
    decide +kernel

end Module

end Sip.Publish
