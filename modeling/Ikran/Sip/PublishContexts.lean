import Ikran.Lib.Keyed
import Ikran.Sip.Publish

/-!
# Contexts of publications

What a trace tells of a context: the PUBLISH requests that are outstanding, the requests that were deferred
and those of them that were sent, and where the application is told of it. The contexts of the list agree
with the trace, while contexts are made, written and freed, PUBLISH requests sent and answered, and requests
deferred.
-/

namespace Sip.Publish

open HeapTrace (Safe alive)

/-! ## Traces -/

/-- The PUBLISH requests of a context that no final response has come for, after an effect. -/
def answer (ptr : ℕ) (l : List ℕ) : Effect → List ℕ
  | .send ptr' callId _ => if ptr' = ptr then l ++ [callId] else l
  | .final callId => l.filter (· ≠ callId)
  | _ => l

/-- The PUBLISH requests of a context that are outstanding. -/
def outstanding (trace : List Effect) (ptr : ℕ) : List ℕ :=
  trace.foldl (answer ptr) []

/-- The requests of a context that were deferred. -/
def deferred (trace : List Effect) (ptr : ℕ) : List Request :=
  trace.filterMap fun e => match e with
    | .defer ptr' r => if ptr' = ptr then some r else none
    | _ => none

/-- The deferred requests of a context that were sent. -/
def sentDeferred (trace : List Effect) (ptr : ℕ) : List Request :=
  trace.filterMap fun e => match e with
    | .send ptr' _ r => if ptr' = ptr then r else none
    | _ => none

/-- Where the application is told of a context. -/
def addressOf (trace : List Effect) (ptr : ℕ) : Option Address :=
  trace.findSome? fun e => match e with
    | .alloc ptr' address => if ptr' = ptr then some address else none
    | _ => none

section

variable (trace es : List Effect) (ptr : ℕ)

theorem outstanding_append : outstanding (trace ++ es) ptr = es.foldl (answer ptr) (outstanding trace ptr) :=
  List.foldl_append

theorem deferred_append : deferred (trace ++ es) ptr = deferred trace ptr ++ deferred es ptr := List.filterMap_append

theorem sentDeferred_append : sentDeferred (trace ++ es) ptr = sentDeferred trace ptr ++ sentDeferred es ptr :=
  List.filterMap_append

theorem addressOf_append : addressOf (trace ++ es) ptr = (addressOf trace ptr).or (addressOf es ptr) :=
  List.findSome?_append

end

/-- The effect does not concern the PUBLISH requests of a context. -/
def Effect.Off (ptr : ℕ) : Effect → Prop
  | .alloc ptr' _ | .send ptr' _ _ | .defer ptr' _ => ptr' ≠ ptr
  | .final _ => False
  | _ => True

/-- What the trace tells of a context. -/
def view (trace : List Effect) (ptr : ℕ) : List ℕ × List Request × List Request × Option Address :=
  (outstanding trace ptr, deferred trace ptr, sentDeferred trace ptr, addressOf trace ptr)

theorem view_append {trace es : List Effect} {ptr : ℕ} (h : ∀ e ∈ es, e.Off ptr) :
    view (trace ++ es) ptr = view trace ptr := by
  induction es generalizing trace with
  | nil => rw [List.append_nil]
  | cons e es ih =>
    obtain ⟨he, hes⟩ := List.forall_mem_cons.1 h
    rw [← List.singleton_append, ← List.append_assoc, ih hes]
    simp only [view, outstanding_append, deferred_append, sentDeferred_append, addressOf_append]
    cases e with
    | final => exact he.elim
    | alloc | send | defer =>
      have hne : _ ≠ ptr := he
      simp [answer, deferred, sentDeferred, addressOf, hne]
    | access | free | examine | freeEventData | resend | respond =>
      simp [answer, deferred, sentDeferred, addressOf]

theorem view_final (trace : List Effect) (ptr c : ℕ) :
    view (trace ++ [.final c]) ptr = ((outstanding trace ptr).filter (· ≠ c), (view trace ptr).2) := by
  simp [view, outstanding_append, answer, deferred, sentDeferred, addressOf]

theorem view_alloc (trace : List Effect) (ptr : ℕ) (address : Address) :
    view (trace ++ [.alloc ptr address]) ptr = (outstanding trace ptr, deferred trace ptr,
      sentDeferred trace ptr, (addressOf trace ptr).or (some address)) := by
  simp only [view, outstanding_append, deferred_append, sentDeferred_append, addressOf_append]
  simp [answer, deferred, sentDeferred, addressOf]

theorem view_send (trace : List Effect) (ptr ptr' c : ℕ) (r : Option Request) :
    view (trace ++ [.access ptr', .send ptr c r]) ptr = (outstanding trace ptr ++ [c], deferred trace ptr,
      sentDeferred trace ptr ++ r.toList, addressOf trace ptr) := by
  simp only [view, outstanding_append, deferred_append, sentDeferred_append, addressOf_append]
  cases r <;> simp [answer, deferred, sentDeferred, addressOf]

theorem view_defer (trace : List Effect) (ptr ptr' : ℕ) (r : Request) :
    view (trace ++ [.access ptr', .defer ptr r]) ptr = (outstanding trace ptr, deferred trace ptr ++ [r],
      sentDeferred trace ptr, addressOf trace ptr) := by
  simp only [view, outstanding_append, deferred_append, sentDeferred_append, addressOf_append]
  simp [answer, deferred, sentDeferred, addressOf]

/-! ## The invariant -/

/-- What the trace tells of a context of the list. -/
structure PcbOk (trace : List Effect) (p : Pcb) : Prop where
  address : addressOf trace p.ptr = some p.address
  outstanding : outstanding trace p.ptr = if p.outstandingTrxn then p.callId.toList else []
  waiting : deferred trace p.ptr = sentDeferred trace p.ptr ++ p.pendingReqs

theorem PcbOk.of_view {trace trace' : List Effect} {p : Pcb} (h : PcbOk trace p)
    (hview : view trace' p.ptr = view trace p.ptr) : PcbOk trace' p := by
  simp only [view, Prod.mk.injEq] at hview
  obtain ⟨hout, hdef, hsent, haddr⟩ := hview
  exact ⟨haddr.trans h.address, hout.trans h.outstanding, by rw [hdef, hsent, h.waiting]⟩

namespace Module

/-- What holds between the effects of a run. -/
structure Inv (s : Module) (trace : List Effect) : Prop where
  safe : Safe [] trace
  alive : ∀ p ∈ s.list, p.ptr ∈ alive [] trace
  ptrs : (s.list.map Pcb.ptr).Nodup
  handles : (s.list.map Pcb.pubHandle).Nodup
  handle_ne : ∀ p ∈ s.list, p.pubHandle ≠ 0
  pcb : ∀ p ∈ s.list, PcbOk trace p
  requests : ∀ p ∈ s.list, ∀ r ∈ p.pendingReqs, r.pubHandle = p.pubHandle
  callIds : ∀ p ∈ s.list, ∀ p' ∈ s.list, ∀ c ∈ p.callId, c ∈ p'.callId → p = p'
  callId_lt : ∀ p ∈ s.list, ∀ c ∈ p.callId, c < s.nextCallId
  atMost : ∀ ptr, (outstanding trace ptr).length ≤ 1
  inOrder : ∀ ptr, sentDeferred trace ptr <+: deferred trace ptr
  ptr_lt : ∀ p ∈ s.list, p.ptr < s.nextPtr
  unused : ∀ ptr, s.nextPtr ≤ ptr → view trace ptr = ([], [], [], none)

variable {s : Module} {trace es : List Effect} {p p₀ : Pcb}

theorem list_update (s : Module) (p : Pcb) : (s.update p).list = Keyed.replace Pcb.ptr p s.list := by
  cases h : s.pcbList <;> simp [list, update, Keyed.replace, h]

theorem list_freePcb (s : Module) (p : Pcb) : (s.freePcb p).1.list = s.list.filter (·.ptr ≠ p.ptr) := by
  cases h : s.pcbList <;> simp [list, freePcb, h]

/-- A context is written, and the trace goes on with effects of the context. Those of other contexts may be
answered. -/
theorem Inv.write_of_view (h : Inv s trace) (hp₀ : p₀ ∈ s.list) (hptr : p.ptr = p₀.ptr)
    (haddress : p.address = p₀.address) {n : ℕ} (hn : s.nextCallId ≤ n)
    (hcallId : ∀ c ∈ p.callId, c < n ∧ (p₀.callId = some c ∨ s.nextCallId ≤ c))
    (hrequests : ∀ r ∈ p.pendingReqs, r.pubHandle = p.pubHandle)
    (hquiet : HeapTrace.Quiet (HeapTrace.alive [] trace) es)
    (hothers : ∀ ptr ≠ p.ptr, (outstanding (trace ++ es) ptr).Sublist (outstanding trace ptr) ∧
      (view (trace ++ es) ptr).2 = (view trace ptr).2)
    (hview : ∀ p' ∈ s.list, p'.ptr ≠ p.ptr → view (trace ++ es) p'.ptr = view trace p'.ptr)
    (hpcb : PcbOk (trace ++ es) p) :
    Inv ({ s with nextCallId := n }.update p) (trace ++ es) := by
  have hlist : ({ s with nextCallId := n }.update p).list = Keyed.replace Pcb.ptr p s.list :=
    list_update { s with nextCallId := n } p
  have hhandle : p.pubHandle = p₀.pubHandle := congrArg Address.pubHandle haddress
  have hone : (outstanding (trace ++ es) p.ptr).length ≤ 1 := by
    rw [hpcb.outstanding]
    cases p.outstandingTrxn <;> cases p.callId <;> simp
  have hpre : sentDeferred (trace ++ es) p.ptr <+: deferred (trace ++ es) p.ptr := ⟨p.pendingReqs, hpcb.waiting.symm⟩
  have hmem : ∀ {p'}, p' ∈ ({ s with nextCallId := n }.update p).list → p' = p ∨ p' ∈ s.list ∧ p'.ptr ≠ p.ptr :=
    fun hp' => Keyed.mem_replace (hlist ▸ hp')
  have hcall : ∀ {p'}, p' ∈ s.list → p'.ptr ≠ p.ptr → ∀ c ∈ p'.callId, c ∉ p.callId := by
    intro p' hp' hne c hc hc'
    obtain ⟨-, hold | hnew⟩ := hcallId c hc'
    · exact hne ((congrArg Pcb.ptr (h.callIds p' hp' p₀ hp₀ c hc hold)).trans hptr.symm)
    · exact absurd (h.callId_lt p' hp' c hc) (by omega)
  constructor
  case safe => exact (HeapTrace.safe_append _ _ _).2 ⟨h.safe, hquiet.safe⟩
  case alive =>
    intro p' hp'
    rw [HeapTrace.alive_append, hquiet.alive]
    obtain rfl | ⟨hp', -⟩ := hmem hp'
    · exact hptr ▸ h.alive p₀ hp₀
    · exact h.alive p' hp'
  case ptrs =>
    rw [hlist, Keyed.map_key_replace]
    exact h.ptrs
  case handles =>
    rw [hlist, Keyed.map_replace h.ptrs hp₀ hptr hhandle]
    exact h.handles
  case handle_ne =>
    intro p' hp'
    obtain rfl | ⟨hp', -⟩ := hmem hp'
    · exact hhandle ▸ h.handle_ne p₀ hp₀
    · exact h.handle_ne p' hp'
  case pcb =>
    intro p' hp'
    obtain rfl | ⟨hp', hne⟩ := hmem hp'
    · exact hpcb
    · exact (h.pcb p' hp').of_view (hview p' hp' hne)
  case requests =>
    intro p' hp'
    obtain rfl | ⟨hp', -⟩ := hmem hp'
    · exact hrequests
    · exact h.requests p' hp'
  case callIds =>
    intro p' hp' p'' hp'' c hc hc'
    obtain heq | ⟨hs, hne⟩ := hmem hp' <;> obtain heq' | ⟨hs', hne'⟩ := hmem hp''
    · rw [heq, heq']
    · exact absurd (heq ▸ hc) (hcall hs' hne' c hc')
    · exact absurd (heq' ▸ hc') (hcall hs hne c hc)
    · exact h.callIds p' hs p'' hs' c hc hc'
  case callId_lt =>
    intro p' hp' c hc
    obtain rfl | ⟨hp', -⟩ := hmem hp'
    · exact (hcallId c hc).1
    · exact Nat.lt_of_lt_of_le (h.callId_lt p' hp' c hc) hn
  case atMost =>
    intro ptr
    by_cases hne : ptr = p.ptr
    · exact hne ▸ hone
    · exact Nat.le_trans (hothers ptr hne).1.length_le (h.atMost ptr)
  case inOrder =>
    intro ptr
    by_cases hne : ptr = p.ptr
    · exact hne ▸ hpre
    · have hsame := (hothers ptr hne).2
      simp only [view, Prod.mk.injEq] at hsame
      rw [hsame.1, hsame.2.1]
      exact h.inOrder ptr
  case ptr_lt =>
    intro p' hp'
    obtain rfl | ⟨hp', -⟩ := hmem hp'
    · exact hptr ▸ h.ptr_lt p₀ hp₀
    · exact h.ptr_lt p' hp'
  case unused =>
    intro ptr hge
    have hlt : p₀.ptr < s.nextPtr := h.ptr_lt p₀ hp₀
    have hge' : s.nextPtr ≤ ptr := hge
    obtain ⟨hsub, hsame⟩ := hothers ptr (by omega)
    have hunused := h.unused ptr hge'
    have hnil : outstanding trace ptr = [] := congrArg Prod.fst hunused
    rw [hnil] at hsub
    refine Prod.ext (List.sublist_nil.1 hsub) ?_
    rw [hsame, hunused]

theorem Inv.write (h : Inv s trace) (hp₀ : p₀ ∈ s.list) (hptr : p.ptr = p₀.ptr)
    (haddress : p.address = p₀.address) {n : ℕ} (hn : s.nextCallId ≤ n)
    (hcallId : ∀ c ∈ p.callId, c < n ∧ (p₀.callId = some c ∨ s.nextCallId ≤ c))
    (hrequests : ∀ r ∈ p.pendingReqs, r.pubHandle = p.pubHandle)
    (hquiet : HeapTrace.Quiet (HeapTrace.alive [] trace) es) (hoff : ∀ ptr ≠ p.ptr, ∀ e ∈ es, e.Off ptr)
    (hpcb : PcbOk (trace ++ es) p) :
    Inv ({ s with nextCallId := n }.update p) (trace ++ es) := by
  have hview : ∀ ptr ≠ p.ptr, view (trace ++ es) ptr = view trace ptr := fun ptr hne => view_append (hoff ptr hne)
  refine h.write_of_view hp₀ hptr haddress hn hcallId hrequests hquiet (fun ptr hne => ?_)
    (fun p' _ hne => hview p'.ptr hne) hpcb
  have hout : outstanding (trace ++ es) ptr = outstanding trace ptr := congrArg Prod.fst (hview ptr hne)
  exact ⟨hout ▸ List.Sublist.refl _, congrArg Prod.snd (hview ptr hne)⟩

theorem Inv.rewrite (h : Inv s trace) (hp₀ : p₀ ∈ s.list) (hptr : p.ptr = p₀.ptr)
    (haddress : p.address = p₀.address) (hcallId : p.callId = p₀.callId)
    (htrxn : p.outstandingTrxn = p₀.outstandingTrxn) (hpending : p.pendingReqs = p₀.pendingReqs) :
    Inv (s.update p) trace := by
  have hpcb : PcbOk (trace ++ []) p := by
    obtain ⟨haddr, hout, hwait⟩ := h.pcb p₀ hp₀
    rw [List.append_nil]
    exact ⟨by rw [hptr, haddr, haddress], by rw [hptr, hout, htrxn, hcallId], by rw [hptr, hwait, hpending]⟩
  have hhandle : p.pubHandle = p₀.pubHandle := congrArg Address.pubHandle haddress
  have hinv := h.write hp₀ hptr haddress (Nat.le_refl _)
    (fun c hc => ⟨h.callId_lt p₀ hp₀ c (hcallId ▸ hc), .inl (hcallId ▸ hc)⟩)
    (fun r hr => hhandle ▸ h.requests p₀ hp₀ r (hpending ▸ hr)) (List.forall_mem_nil _)
    (fun _ _ => List.forall_mem_nil _) hpcb
  rwa [List.append_nil] at hinv

theorem Inv.final (h : Inv s trace) (hp : p ∈ s.list) {c : ℕ} (hc : p.callId = some c) :
    Inv (s.update { p with outstandingTrxn := false }) (trace ++ [.final c]) := by
  have hquiet : HeapTrace.Quiet (HeapTrace.alive [] trace) [Effect.final c] := List.forall_mem_singleton.2 trivial
  refine h.write_of_view (p := { p with outstandingTrxn := false }) hp rfl rfl (Nat.le_refl _)
    (fun c' hc' => ⟨h.callId_lt p hp c' hc', .inl hc'⟩) (h.requests p hp) hquiet (fun ptr _ => ?_)
    (fun p' hp' hne => ?_) ?_
  · have hview := view_final trace ptr c
    have hout : outstanding (trace ++ [.final c]) ptr = (outstanding trace ptr).filter (· ≠ c) :=
      congrArg Prod.fst hview
    exact ⟨hout ▸ List.filter_sublist, by rw [hview]⟩
  · -- the Call-IDs are different
    have hfilter : (outstanding trace p'.ptr).filter (· ≠ c) = outstanding trace p'.ptr := by
      rw [(h.pcb p' hp').outstanding]
      cases htrxn : p'.outstandingTrxn
      · rfl
      · refine List.filter_eq_self.2 fun c' hc' => ?_
        have hmem : c' ∈ p'.callId := by simpa using hc'
        have hcc : c' ≠ c := by
          rintro rfl
          have heq : p' = p := h.callIds p' hp' p hp c' hmem hc
          exact hne (by rw [heq])
        simpa using hcc
    rw [view_final, hfilter]
    rfl
  · obtain ⟨haddr, hout, hwait⟩ := h.pcb p hp
    have hview := view_final trace p.ptr c
    simp only [view, Prod.mk.injEq] at hview
    obtain ⟨hout', hdef, hsent, haddr'⟩ := hview
    refine ⟨haddr'.trans haddr, ?_, by rw [hdef, hsent, hwait]⟩
    rw [hout', hout, hc]
    cases p.outstandingTrxn <;> simp

theorem Inv.silent (h : Inv s trace) (hquiet : HeapTrace.Quiet (HeapTrace.alive [] trace) es)
    (hoff : ∀ ptr, ∀ e ∈ es, e.Off ptr) : Inv s (trace ++ es) := by
  have hview : ∀ ptr, view (trace ++ es) ptr = view trace ptr := fun ptr => view_append (hoff ptr)
  have hparts := fun ptr => by simpa only [view, Prod.mk.injEq] using hview ptr
  exact {
    safe := (HeapTrace.safe_append _ _ _).2 ⟨h.safe, hquiet.safe⟩
    alive := fun p hp => by
      rw [HeapTrace.alive_append, hquiet.alive]
      exact h.alive p hp
    ptrs := h.ptrs
    handles := h.handles
    handle_ne := h.handle_ne
    pcb := fun p hp => (h.pcb p hp).of_view (hview p.ptr)
    requests := h.requests
    callIds := h.callIds
    callId_lt := h.callId_lt
    atMost := fun ptr => by
      rw [(hparts ptr).1]
      exact h.atMost ptr
    inOrder := fun ptr => by
      rw [(hparts ptr).2.1, (hparts ptr).2.2.1]
      exact h.inOrder ptr
    ptr_lt := h.ptr_lt
    unused := fun ptr hge => by
      rw [hview ptr]
      exact h.unused ptr hge }

theorem quiet_freeEventData (l : List ℕ) (eventData : Option ℕ) : HeapTrace.Quiet l (freeEventData eventData) := by
  intro e he
  obtain ⟨ptr, -, rfl⟩ := List.mem_map.1 he
  trivial

theorem off_freeEventData (ptr : ℕ) (eventData : Option ℕ) : ∀ e ∈ freeEventData eventData, e.Off ptr := by
  intro e he
  obtain ⟨ptr', -, rfl⟩ := List.mem_map.1 he
  trivial

/-- The effects of `free_pcb` but for the last one. -/
def beforeFree (p : Pcb) : List Effect :=
  .access p.ptr :: p.pendingReqs.flatMap (fun r => freeEventData r.eventData) ++ freeEventData p.eventData

theorem freePcb_snd (s : Module) (p : Pcb) : (s.freePcb p).2 = beforeFree p ++ [.free p.ptr] := rfl

theorem quiet_beforeFree {l : List ℕ} (h : p.ptr ∈ l) : HeapTrace.Quiet l (beforeFree p) := by
  refine HeapTrace.Quiet.append (List.forall_mem_cons.2 ⟨h, ?_⟩) (quiet_freeEventData l _)
  intro e he
  obtain ⟨r, -, he⟩ := List.mem_flatMap.1 he
  exact quiet_freeEventData l _ e he

theorem off_beforeFree (ptr : ℕ) : ∀ e ∈ beforeFree p, e.Off ptr := by
  refine List.forall_mem_append.2 ⟨List.forall_mem_cons.2 ⟨trivial, ?_⟩, off_freeEventData ptr _⟩
  intro e he
  obtain ⟨r, -, he⟩ := List.mem_flatMap.1 he
  exact off_freeEventData ptr _ e he

/-- **A context is freed.** -/
theorem Inv.freePcb (h : Inv s trace) (hp₀ : p₀ ∈ s.list) (hptr : p.ptr = p₀.ptr) :
    Inv (s.freePcb p).1 (trace ++ (s.freePcb p).2) := by
  have halive : p.ptr ∈ HeapTrace.alive [] trace := hptr ▸ h.alive p₀ hp₀
  have hbefore := h.silent (quiet_beforeFree halive) off_beforeFree
  have hview : ∀ ptr, view (trace ++ beforeFree p ++ [.free p.ptr]) ptr = view (trace ++ beforeFree p) ptr :=
    fun ptr => view_append (List.forall_mem_singleton.2 trivial)
  have hparts := fun ptr => by simpa only [view, Prod.mk.injEq] using hview ptr
  have hmem : ∀ {p'}, p' ∈ (s.freePcb p).1.list → p' ∈ s.list ∧ p'.ptr ≠ p.ptr := by
    intro p' hp'
    rw [list_freePcb, List.mem_filter] at hp'
    exact ⟨hp'.1, by simpa using hp'.2⟩
  have hsub : (s.freePcb p).1.list.Sublist s.list := list_freePcb s p ▸ List.filter_sublist
  rw [freePcb_snd, ← List.append_assoc]
  exact {
    safe := by
      refine (HeapTrace.safe_append _ _ _).2 ⟨hbefore.safe, ?_, trivial⟩
      rw [HeapTrace.alive_append, (quiet_beforeFree halive).alive]
      exact halive
    alive := fun p' hp' => by
      obtain ⟨hp', hne⟩ := hmem hp'
      rw [HeapTrace.alive_append]
      exact List.mem_filter.2 ⟨hbefore.alive p' hp', by simpa using hne⟩
    ptrs := h.ptrs.sublist (hsub.map _)
    handles := h.handles.sublist (hsub.map _)
    handle_ne := fun p' hp' => h.handle_ne p' (hmem hp').1
    pcb := fun p' hp' => (hbefore.pcb p' (hmem hp').1).of_view (hview p'.ptr)
    requests := fun p' hp' => h.requests p' (hmem hp').1
    callIds := fun p' hp' p'' hp'' => h.callIds p' (hmem hp').1 p'' (hmem hp'').1
    callId_lt := fun p' hp' => h.callId_lt p' (hmem hp').1
    atMost := fun ptr => by
      rw [(hparts ptr).1]
      exact hbefore.atMost ptr
    inOrder := fun ptr => by
      rw [(hparts ptr).2.1, (hparts ptr).2.2.1]
      exact hbefore.inOrder ptr
    ptr_lt := fun p' hp' => h.ptr_lt p' (hmem hp').1
    unused := fun ptr hge => by
      rw [hview ptr]
      exact hbefore.unused ptr hge }

theorem Inv.of_list {s' : Module} (h : Inv s trace) (hlist : s'.list = s.list) (hptr : s.nextPtr ≤ s'.nextPtr)
    (hcallId : s'.nextCallId = s.nextCallId) : Inv s' trace where
  safe := h.safe
  alive := hlist ▸ h.alive
  ptrs := hlist ▸ h.ptrs
  handles := hlist ▸ h.handles
  handle_ne := hlist ▸ h.handle_ne
  pcb := hlist ▸ h.pcb
  requests := hlist ▸ h.requests
  callIds := hlist ▸ h.callIds
  callId_lt := hlist ▸ hcallId ▸ h.callId_lt
  atMost := h.atMost
  inOrder := h.inOrder
  ptr_lt := fun p hp => Nat.lt_of_lt_of_le (h.ptr_lt p (hlist ▸ hp)) hptr
  unused := fun ptr hge => h.unused ptr (Nat.le_trans hptr hge)

/-- **A context is made.** -/
theorem Inv.alloc {s' : Module} (h : Inv s trace) (hptr : p.ptr = s.nextPtr) (hne : p.pubHandle ≠ 0)
    (hfresh : ∀ p' ∈ s.list, p'.pubHandle ≠ p.pubHandle) (hcallId : p.callId = none)
    (htrxn : p.outstandingTrxn = false) (hpending : p.pendingReqs = []) (hlist : s'.list = s.list ++ [p])
    (hptr' : s'.nextPtr = s.nextPtr + 1) (hcallId' : s'.nextCallId = s.nextCallId) :
    Inv s' (trace ++ [.alloc p.ptr p.address]) := by
  have hview : ∀ ptr ≠ p.ptr, view (trace ++ [.alloc p.ptr p.address]) ptr = view trace ptr :=
    fun ptr hne => view_append (List.forall_mem_singleton.2 (Ne.symm hne))
  have hunused := h.unused p.ptr (Nat.le_of_eq hptr.symm)
  have hself : view (trace ++ [.alloc p.ptr p.address]) p.ptr = ([], [], [], some p.address) := by
    simp only [view, Prod.mk.injEq] at hunused
    obtain ⟨hout, hdef, hsent, haddr⟩ := hunused
    rw [view_alloc, hout, hdef, hsent, haddr]
    rfl
  have hlt : ∀ p' ∈ s.list, p'.ptr ≠ p.ptr := fun p' hp' => by
    have := h.ptr_lt p' hp'
    omega
  have hmem : ∀ {p'}, p' ∈ s'.list → p' ∈ s.list ∨ p' = p := by
    intro p' hp'
    rw [hlist] at hp'
    exact (List.mem_append.1 hp').imp_right List.mem_singleton.1
  have halive : HeapTrace.alive [] (trace ++ [Effect.alloc p.ptr p.address]) =
      p.ptr :: HeapTrace.alive [] trace := HeapTrace.alive_append _ _ _
  constructor
  case safe => exact (HeapTrace.safe_append _ _ _).2 ⟨h.safe, trivial, trivial⟩
  case alive =>
    intro p' hp'
    rw [halive]
    obtain hp' | rfl := hmem hp'
    · exact List.mem_cons_of_mem _ (h.alive p' hp')
    · exact List.mem_cons_self
  case ptrs =>
    rw [hlist, List.map_append, List.nodup_append]
    refine ⟨h.ptrs, List.nodup_singleton _, ?_⟩
    rintro a ha b hb rfl
    obtain ⟨p', hp', rfl⟩ := List.mem_map.1 ha
    exact hlt p' hp' (List.mem_singleton.1 hb)
  case handles =>
    rw [hlist, List.map_append, List.nodup_append]
    refine ⟨h.handles, List.nodup_singleton _, ?_⟩
    rintro a ha b hb rfl
    obtain ⟨p', hp', rfl⟩ := List.mem_map.1 ha
    exact hfresh p' hp' (List.mem_singleton.1 hb)
  case handle_ne =>
    intro p' hp'
    obtain hp' | rfl := hmem hp'
    · exact h.handle_ne p' hp'
    · exact hne
  case pcb =>
    intro p' hp'
    obtain hp' | rfl := hmem hp'
    · exact (h.pcb p' hp').of_view (hview p'.ptr (hlt p' hp'))
    · simp only [view, Prod.mk.injEq] at hself
      obtain ⟨hout, hdef, hsent, haddr⟩ := hself
      exact ⟨haddr, by rw [hout, htrxn]; rfl, by rw [hdef, hsent, hpending]; rfl⟩
  case requests =>
    intro p' hp'
    obtain hp' | rfl := hmem hp'
    · exact h.requests p' hp'
    · simp [hpending]
  case callIds =>
    intro p' hp' p'' hp'' c hc hc'
    obtain hs | rfl := hmem hp' <;> obtain hs' | rfl := hmem hp''
    · exact h.callIds p' hs p'' hs' c hc hc'
    · simp [hcallId] at hc'
    · simp [hcallId] at hc
    · rfl
  case callId_lt =>
    intro p' hp' c hc
    obtain hp' | rfl := hmem hp'
    · exact hcallId' ▸ h.callId_lt p' hp' c hc
    · simp [hcallId] at hc
  case atMost =>
    intro ptr
    by_cases heq : ptr = p.ptr
    · have hnil : outstanding (trace ++ [.alloc p.ptr p.address]) p.ptr = [] := congrArg Prod.fst hself
      rw [heq, hnil]
      exact Nat.zero_le _
    · have hsame : outstanding (trace ++ [.alloc p.ptr p.address]) ptr = outstanding trace ptr :=
        congrArg Prod.fst (hview ptr heq)
      rw [hsame]
      exact h.atMost ptr
  case inOrder =>
    intro ptr
    by_cases heq : ptr = p.ptr
    · simp only [view, Prod.mk.injEq] at hself
      rw [heq, hself.2.1]
      exact hself.2.2.1 ▸ List.prefix_rfl
    · have hsame := hview ptr heq
      simp only [view, Prod.mk.injEq] at hsame
      rw [hsame.2.1, hsame.2.2.1]
      exact h.inOrder ptr
  case ptr_lt =>
    intro p' hp'
    rw [hptr']
    obtain hp' | rfl := hmem hp'
    · exact Nat.lt_succ_of_lt (h.ptr_lt p' hp')
    · omega
  case unused =>
    intro ptr hge
    rw [hview ptr (by omega)]
    exact h.unused ptr (by omega)

end Module

end Sip.Publish
