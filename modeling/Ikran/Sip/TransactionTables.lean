import Ikran.Sip.Transactions

/-!
# The transaction tables over a run

Each table of outstanding requests is meant to be a queue: the requests stand in the first blocks, in
the order in which they were stored or sent, and a request leaves only when it is cleaned up. The queues
are kept here beside the tables, and are changed as the routines are meant to change them.

The searches tell a free block by its number. They see the end of the queue as long as no request has
the number that marks a free block, which a received request can have, and which the counter of sent
requests comes back to. A caller that could not get a block cleans up by method all the same, and takes
away a request that was sent before.
-/

namespace Sip

open CStr

/-! ## Runs -/

/-- The operations on the tables. A request that is sent gets a block first; when there is none, the
caller cleans up. -/
inductive Op
  | allocate (method : SipMethod)
  | send (method : SipMethod)
  | store (request : Request) (method : SipMethod) (midcall : Bool)
  | clean (method : SipMethod) (sent : Bool)

/-- A caller of `allocateTrx` whose message cannot be built or sent without a block, such as
`sipSPISendUpdate`. -/
def Ccb.sendRequest (ccb : Ccb) (method : SipMethod) : Ccb :=
  let (allocated, ccb) := ccb.allocateTrx method
  if allocated then ccb else ccb.cleanMethodRequestTrx method true

def Ccb.perform (ccb : Ccb) : Op → Ccb
  | .allocate method => (ccb.allocateTrx method).2
  | .send method => ccb.sendRequest method
  | .store request method midcall => (ccb.checkAndStore request method midcall).2
  | .clean method sent => ccb.cleanMethodRequestTrx method sent

/-- The outstanding requests of both directions, in the order of their arrival. -/
structure Queues where
  sent : List Transaction := []
  recv : List Transaction := []

/-- Another request arrives, if there is room for it. What has no method is no request. -/
def arrive (q : List Transaction) (x : Transaction) : List Transaction :=
  if x.cseqMethod = .invalid ∨ maxReqOutstanding ≤ q.length then q else q ++ [x]

def sentBlock (method : SipMethod) (number : UInt32) : Transaction :=
  { cseqMethod := method, cseqNumber := number }

def recvBlock (request : Request) (cseq : Cseq) : Transaction :=
  { u := request.via.getD [], cseqMethod := cseq.method, cseqNumber := cseq.number }

/-- A request is sent: a CANCEL with the number of the last one, any other but an ACK with the next
number. -/
def Queues.allocate (q : Queues) (ccb : Ccb) (method : SipMethod) : Queues :=
  if method = .cancel then
    match q.sent.getLast? with
    | none => q
    | some last => { q with sent := arrive q.sent (sentBlock .cancel last.cseqNumber) }
  else if method = .ack then q
  else { q with sent := arrive q.sent (sentBlock method (ccb.lastUsedCseq + 1)) }

/-- The checks of a request succeed. -/
def Ccb.Admits (ccb : Ccb) (request : Request) (cseq : Cseq) (method : SipMethod) (midcall : Bool) :
    Prop :=
  request.checkHeaders = .ok cseq ∧ ∃ ccb', ccb.checkMethod request cseq method midcall = .ok ccb'

/-- What an operation does to the queues. An operation that fails leaves them alone. -/
def Queues.perform (q : Queues) (ccb : Ccb) : Op → Queues
  | .allocate method | .send method => q.allocate ccb method
  | .store request method midcall =>
    match request.checkHeaders with
    | .error _ => q
    | .ok cseq =>
      match ccb.checkMethod request cseq method midcall with
      | .error _ => q
      | .ok _ => { q with recv := arrive q.recv (recvBlock request cseq) }
  | .clean method sent =>
    if sent then { q with sent := q.sent.eraseP fun x => x.cseqMethod == method }
    else { q with recv := q.recv.eraseP fun x => x.cseqMethod == method }

/-- The block and the queues beside it. -/
structure Traced where
  ccb : Ccb
  queues : Queues

def Traced.step (s : Traced) (op : Op) : Traced :=
  ⟨s.ccb.perform op, s.queues.perform s.ccb op⟩

/-- The block of a table holds a request. -/
def Table.Occupied (t : Table) (k : Fin maxReqOutstanding) : Prop := (t k).cseqMethod ≠ .invalid

/-- The occupied blocks are a prefix of the table, in order of arrival; the search for the next block
finds the first that is not occupied, and that for the last request the last that is. -/
structure Table.Sound (t : Table) (q : List Transaction) : Prop where
  occupied : ∀ k : Fin maxReqOutstanding, Table.Occupied t k ↔ k.val < q.length
  arrival : ∀ k : Fin maxReqOutstanding, ∀ h : k.val < q.length, t k = q[k.val]
  next : getNextRequestTrxIndex t = Pool.first fun k => (t k).cseqMethod == .invalid
  last : getLastRequestTrxIndex t = Compact.last fun k => (t k).cseqMethod != .invalid

/-- Both tables are sound. -/
structure Traced.Sound (s : Traced) : Prop where
  sent : Table.Sound s.ccb.sentRequest s.queues.sent
  recv : Table.Sound s.ccb.recvRequest s.queues.recv

/-- The tables are sound in all states of a run. -/
def Traced.SoundThroughout : Traced → List Op → Prop
  | s, [] => s.Sound
  | s, op :: ops => s.Sound ∧ SoundThroughout (s.step op) ops

/-- The tables of a block that has just been initialised. -/
structure Traced.Initial (s : Traced) : Prop where
  sentRequest : s.ccb.sentRequest = fun _ => {}
  recvRequest : s.ccb.recvRequest = fun _ => {}
  sent : s.queues.sent = []
  recv : s.queues.recv = []

/-- Some block of the table is free. -/
def Table.HasRoom (t : Table) : Prop := ∃ k, (t k).cseqMethod = .invalid

/-- The number of a new request and its method agree on whether its block is free. -/
def Marks (number : UInt32) (method : SipMethod) : Prop :=
  number = startCseq ↔ method = .invalid

/-- The condition of an operation. The number that the next request gets, or that a stored request
brings, does not mark a free block; and a request that gets no block is not of the method of one that
has been sent. -/
def Op.Meets (ccb : Ccb) : Op → Prop
  | .allocate method =>
    method ≠ .ack → method ≠ .cancel → Table.HasRoom ccb.sentRequest → Marks (ccb.lastUsedCseq + 1) method
  | .send method =>
    method ≠ .ack →
      (method ≠ .cancel → Table.HasRoom ccb.sentRequest → Marks (ccb.lastUsedCseq + 1) method) ∧
      (¬ Table.HasRoom ccb.sentRequest → ∀ k, (ccb.sentRequest k).cseqMethod ≠ method)
  | .store request method midcall =>
    ∀ cseq, ccb.Admits request cseq method midcall → Table.HasRoom ccb.recvRequest →
      cseq.number ≠ startCseq
  | .clean _ _ => True

/-- All operations of a run meet their condition. -/
def Traced.MeetsThroughout : Traced → List Op → Prop
  | _, [] => True
  | s, op :: ops => op.Meets s.ccb ∧ MeetsThroughout (s.step op) ops

/-! ## The invariant -/

/-- A request that all routines tell from a free block. -/
def Transaction.Live (x : Transaction) : Prop := x.cseqMethod ≠ .invalid ∧ x.cseqNumber ≠ startCseq

/-- The table holds the queue, and all its requests are told from free blocks. -/
structure Table.Holds (t : Table) (q : List Transaction) : Prop where
  represents : Compact.Represents {} t q
  live : ∀ x ∈ q, x.Live

namespace Table.Holds

variable {t : Table} {q : List Transaction}

theorem next (h : Table.Holds t q) : getNextRequestTrxIndex t =
    if hlt : q.length < maxReqOutstanding then some ⟨q.length, hlt⟩ else none :=
  h.represents.first_free (p := fun x : Transaction => x.cseqNumber == startCseq) rfl
    fun x hx => beq_eq_false_iff_ne.mpr (h.live x hx).2

theorem last (h : Table.Holds t q) : getLastRequestTrxIndex t =
    if hpos : 0 < q.length then some ⟨q.length - 1,
      Nat.lt_of_lt_of_le (Nat.sub_one_lt_of_lt hpos) h.represents.length_le⟩ else none :=
  h.represents.last_used (p := fun x : Transaction => x.cseqNumber != startCseq) rfl
    fun x hx => bne_iff_ne.mpr (h.live x hx).2

theorem sound (h : Table.Holds t q) : Table.Sound t q where
  occupied := fun k => by
    constructor
    · intro hocc
      by_contra hle
      exact hocc (congrArg Transaction.cseqMethod (h.represents.get_of_le k (by omega)))
    · intro hlt
      exact h.represents.forall_lt (fun x hx => (h.live x hx).1) k hlt
  arrival := h.represents.get_of_lt
  next := h.next.trans (h.represents.first_free (p := fun x : Transaction => x.cseqMethod == .invalid) rfl
    fun x hx => beq_eq_false_iff_ne.mpr (h.live x hx).1).symm
  last := h.last.trans (h.represents.last_used (p := fun x : Transaction => x.cseqMethod != .invalid) rfl
    fun x hx => bne_iff_ne.mpr (h.live x hx).1).symm

theorem hasRoom_iff (h : Table.Holds t q) : Table.HasRoom t ↔ q.length < maxReqOutstanding := by
  constructor
  · rintro ⟨k, hk⟩
    by_contra hle
    exact h.represents.forall_lt (fun x hx => (h.live x hx).1) k (by omega) hk
  · intro hlt
    exact ⟨⟨q.length, hlt⟩, congrArg Transaction.cseqMethod (h.represents.get_of_le _ le_rfl)⟩

theorem clean (h : Table.Holds t q) (method : SipMethod) :
    Table.Holds (cleanMethodRequestTrx t method) (q.eraseP fun x => x.cseqMethod == method) where
  represents := h.represents.removeFirst _
  live := fun x hx => h.live x (List.mem_of_mem_eraseP hx)

theorem eq_free (h : Table.Holds t q) (hlt : q.length < maxReqOutstanding) : t ⟨q.length, hlt⟩ = {} :=
  h.represents.get_of_le _ le_rfl

/-- A request that arrives is stored at the end of the queue, when its number does not mark a free
block. -/
theorem write (h : Table.Holds t q) (hlt : q.length < maxReqOutstanding) {x : Transaction}
    (hx : x.Live) : Table.Holds (Function.update t ⟨q.length, hlt⟩ x) (arrive q x) where
  represents := by
    rw [arrive, if_neg (not_or.mpr ⟨hx.1, by omega⟩)]
    exact h.represents.append hlt x
  live := by
    rw [arrive, if_neg (not_or.mpr ⟨hx.1, by omega⟩)]
    intro y hy
    rcases List.mem_append.mp hy with hy | hy
    · exact h.live y hy
    · rwa [List.mem_singleton.mp hy]

/-- Conversely, a table that is still sound with a block at the end of the queue has no block that is
free for some routines only. -/
theorem marks_of_sound (h : Table.Holds t q) (hlt : q.length < maxReqOutstanding) {x : Transaction}
    {q' : List Transaction} (hsound : Table.Sound (Function.update t ⟨q.length, hlt⟩ x) q') :
    Marks x.cseqNumber x.cseqMethod := by
  have hbefore : ∀ j < (⟨q.length, hlt⟩ : Fin maxReqOutstanding), (Function.update t ⟨q.length, hlt⟩ x j).Live := by
    intro j hj
    rw [Function.update_of_ne (ne_of_lt hj)]
    exact h.represents.forall_lt h.live j hj
  have hat : Function.update t ⟨q.length, hlt⟩ x ⟨q.length, hlt⟩ = x := Function.update_self ..
  have hnext := hsound.next
  constructor
  · -- the search for the next block stops here, so the block is not occupied
    intro hnum
    have hfound : getNextRequestTrxIndex (Function.update t ⟨q.length, hlt⟩ x) = some ⟨q.length, hlt⟩ :=
      Compact.first_eq_some_of (by rw [hat, hnum]; rfl)
        fun j hj => beq_eq_false_iff_ne.mpr (hbefore j hj).2
    have hfree := Pool.of_first (hnext ▸ hfound)
    rw [hat] at hfree
    exact beq_iff_eq.mp hfree
  · -- the block is the first that is not occupied, so the search for the next one stops here
    intro hmethod
    have hfound : (Pool.first fun k =>
        (Function.update t ⟨q.length, hlt⟩ x k).cseqMethod == SipMethod.invalid) =
        some ⟨q.length, hlt⟩ :=
      Compact.first_eq_some_of (by rw [hat, hmethod]; rfl)
        fun j hj => beq_eq_false_iff_ne.mpr (hbefore j hj).1
    have hfree := Pool.of_first (hnext.trans hfound)
    rw [hat] at hfree
    exact beq_iff_eq.mp hfree

/-- Cleaning up behind a request that got no block leaves a sound table only when no request has its
method. -/
theorem absent_of_sound (h : Table.Holds t q) {method : SipMethod}
    (hsound : Table.Sound (cleanMethodRequestTrx t method) q) (k : Fin maxReqOutstanding)
    (hk : k.val < q.length) : (t k).cseqMethod ≠ method := by
  intro hmethod
  have hmem : q[k.val] ∈ q := List.getElem_mem hk
  have htest : (q[k.val].cseqMethod == method) = true := by
    rw [← h.represents.get_of_lt k hk, hmethod]
    exact beq_self_eq_true method
  have hlen : (q.eraseP fun x => x.cseqMethod == method).length = q.length - 1 :=
    List.length_eraseP_of_mem hmem htest
  have hlast : q.length - 1 < maxReqOutstanding :=
    Nat.lt_of_lt_of_le (Nat.sub_one_lt_of_lt (Nat.zero_lt_of_lt hk)) h.represents.length_le
  -- one request is gone, and the last place of the queue is free
  have hfree := (h.clean method).represents.get_of_le ⟨q.length - 1, hlast⟩ (le_of_eq hlen)
  refine (hsound.occupied ⟨q.length - 1, hlast⟩).mpr ?_ (congrArg Transaction.cseqMethod hfree)
  exact Nat.sub_one_lt_of_lt (Nat.zero_lt_of_lt hk)

theorem clean_of_absent (h : Table.Holds t q) {method : SipMethod}
    (habsent : ∀ x ∈ q, x.cseqMethod ≠ method) : Table.Holds (cleanMethodRequestTrx t method) q := by
  have hclean := h.clean method
  rwa [List.eraseP_of_forall_not fun x hx => by simpa using habsent x hx] at hclean

end Table.Holds

/-! ## Sent requests -/

/-- Both tables hold their queues. -/
structure Traced.Inv (s : Traced) : Prop where
  sent : Table.Holds s.ccb.sentRequest s.queues.sent
  recv : Table.Holds s.ccb.recvRequest s.queues.recv

variable {q : List Transaction}

theorem setSent_sentRequest {ccb : Ccb} (h : Table.Holds ccb.sentRequest q)
    (hlt : q.length < maxReqOutstanding) (number : UInt32) (method : SipMethod) :
    (ccb.setSent ⟨q.length, hlt⟩ number method).sentRequest =
      Function.update ccb.sentRequest ⟨q.length, hlt⟩ (sentBlock method number) := by
  rw [Ccb.setSent, h.eq_free hlt]
  rfl

/-- What `allocateTrx` can do: nothing is needed for an ACK; without a block it fails and leaves
everything as it is; otherwise the block at the end of the queue is written. -/
inductive AllocateOutcome (ccb : Ccb) (q : Queues) (method : SipMethod) : Prop
  | notNeeded (hack : method = .ack) (hrun : ccb.allocateTrx method = (true, ccb))
      (hqueue : q.allocate ccb method = q)
  | failed (hack : method ≠ .ack) (hfull : q.sent.length = maxReqOutstanding ∨ (method = .cancel ∧ q.sent = []))
      (hrun : ccb.allocateTrx method = (false, ccb)) (hqueue : q.allocate ccb method = q)
  | written (hlt : q.sent.length < maxReqOutstanding) (number : UInt32) (hack : method ≠ .ack)
      (hnext : method ≠ .cancel → number = ccb.lastUsedCseq + 1)
      (hsame : method = .cancel → ∃ x ∈ q.sent, number = x.cseqNumber)
      (hok : (ccb.allocateTrx method).1 = true)
      (hsent : (ccb.allocateTrx method).2.sentRequest =
        Function.update ccb.sentRequest ⟨q.sent.length, hlt⟩ (sentBlock method number))
      (hrecv : (ccb.allocateTrx method).2.recvRequest = ccb.recvRequest)
      (hqueue : q.allocate ccb method = { q with sent := arrive q.sent (sentBlock method number) })

theorem arrive_of_full (h : maxReqOutstanding ≤ q.length) (x : Transaction) : arrive q x = q := if_pos (Or.inr h)

/-- What `allocateTrx` does when the table holds its queue. -/
theorem allocate_outcome {ccb : Ccb} {q : Queues} (h : Table.Holds ccb.sentRequest q.sent)
    (method : SipMethod) : AllocateOutcome ccb q method := by
  have hle := h.represents.length_le
  by_cases hcancel : method = .cancel
  · subst hcancel
    by_cases hpos : 0 < q.sent.length
    · have hlast := h.last
      rw [dif_pos hpos] at hlast
      have hget : ccb.sentRequest ⟨q.sent.length - 1, Nat.lt_of_lt_of_le (Nat.sub_one_lt_of_lt hpos) hle⟩ =
          q.sent[q.sent.length - 1] := h.represents.get_of_lt _ (Nat.sub_one_lt_of_lt hpos)
      have hlast? : q.sent.getLast? = some q.sent[q.sent.length - 1] := by
        rw [List.getLast?_eq_getElem?, List.getElem?_eq_getElem (Nat.sub_one_lt_of_lt hpos)]
      have hqueue : q.allocate ccb .cancel = { q with
          sent := arrive q.sent (sentBlock .cancel q.sent[q.sent.length - 1].cseqNumber) } := by
        rw [Queues.allocate, if_pos rfl, hlast?]
      by_cases hlt : q.sent.length < maxReqOutstanding
      · have hnext := h.next
        rw [dif_pos hlt] at hnext
        have hrun : ccb.allocateTrx .cancel =
            (true, ccb.setSent ⟨_, hlt⟩ q.sent[q.sent.length - 1].cseqNumber .cancel) := by
          rw [Ccb.allocateTrx, if_pos rfl, hlast, hnext, ← hget]
        exact .written hlt _ (by decide) (fun hne => absurd rfl hne)
          (fun _ => ⟨_, List.getElem_mem (Nat.sub_one_lt_of_lt hpos), rfl⟩) (by rw [hrun])
          (by rw [hrun, setSent_sentRequest h]) (by rw [hrun]; rfl) hqueue
      · have hnext := h.next
        rw [dif_neg hlt] at hnext
        refine .failed (by decide) (Or.inl (by omega)) ?_ ?_
        · rw [Ccb.allocateTrx, if_pos rfl, hlast, hnext]
        · rw [hqueue, arrive_of_full (by omega)]
    · have hnil : q.sent = [] := List.eq_nil_of_length_eq_zero (by omega)
      have hlast := h.last
      rw [dif_neg hpos] at hlast
      refine .failed (by decide) (Or.inr ⟨rfl, hnil⟩) ?_ ?_
      · rw [Ccb.allocateTrx, if_pos rfl, hlast]
      · rw [Queues.allocate, if_pos rfl, hnil]
        rfl
  · by_cases hack : method = .ack
    · subst hack
      exact .notNeeded rfl rfl rfl
    · have hqueue : q.allocate ccb method = { q with
          sent := arrive q.sent (sentBlock method (ccb.lastUsedCseq + 1)) } := by
        rw [Queues.allocate, if_neg hcancel, if_neg hack]
      by_cases hlt : q.sent.length < maxReqOutstanding
      · have hnext := h.next
        rw [dif_pos hlt] at hnext
        have hrun : ccb.allocateTrx method = (true, Ccb.setSent
            { ccb with lastUsedCseq := ccb.lastUsedCseq + 1 } ⟨_, hlt⟩ (ccb.lastUsedCseq + 1) method) := by
          rw [Ccb.allocateTrx, if_neg hcancel, if_pos hack, hnext]
        have hcount : Table.Holds ({ ccb with lastUsedCseq := ccb.lastUsedCseq + 1 } : Ccb).sentRequest q.sent := h
        exact .written hlt _ hack (fun _ => rfl) (fun heq => absurd heq hcancel) (by rw [hrun])
          (by rw [hrun, setSent_sentRequest hcount]) (by rw [hrun]; rfl) hqueue
      · have hnext := h.next
        rw [dif_neg hlt] at hnext
        refine .failed hack (Or.inl (by omega)) ?_ ?_
        · rw [Ccb.allocateTrx, if_neg hcancel, if_pos hack, hnext]
        · rw [hqueue, arrive_of_full (by omega)]

variable {method : SipMethod}

/-- A new request whose number and method agree is either told from a free block by all routines, or is
a free block. -/
theorem holds_sent {t : Table} (h : Table.Holds t q) (hlt : q.length < maxReqOutstanding) {number : UInt32}
    (hmarks : Marks number method) :
    Table.Holds (Function.update t ⟨q.length, hlt⟩ (sentBlock method number)) (arrive q (sentBlock method number)) := by
  by_cases hmethod : method = .invalid
  · have hfree : sentBlock method number = {} := by
      rw [sentBlock, hmethod, hmarks.mpr hmethod]
    rw [hfree, arrive, if_pos (Or.inl rfl), ← h.eq_free hlt, Function.update_eq_self]
    exact h
  · exact h.write hlt ⟨hmethod, fun hnum => hmethod (hmarks.mp hnum)⟩

theorem marks_cancel {t : Table} (h : Table.Holds t q) {number : UInt32}
    (hsame : ∃ x ∈ q, number = x.cseqNumber) : Marks number .cancel := by
  obtain ⟨x, hx, rfl⟩ := hsame
  exact iff_of_false (h.live x hx).2 (by decide)

variable {s : Traced}

theorem inv_send (h : s.Inv) (op : Op) (method : SipMethod)
    (hop : op = .allocate method ∨ op = .send method) (hmeets : op.Meets s.ccb) :
    (s.step op).Inv := by
  have hroom := h.sent.hasRoom_iff
  have hqueue : (s.step op).queues = s.queues.allocate s.ccb method := by
    rcases hop with rfl | rfl <;> rfl
  rcases allocate_outcome h.sent method with
    ⟨hack, hrun, hsame⟩ | ⟨hack, hfull, hrun, hsame⟩ |
    ⟨hlt, number, hack, hnext, hcancel, hok, hsent, hrecv, hwritten⟩
  · have hccb : (s.step op).ccb = s.ccb := by
      rcases hop with rfl | rfl
      · exact congrArg Prod.snd hrun
      · simp [Traced.step, Ccb.perform, Ccb.sendRequest, hrun]
    exact ⟨by rw [hccb, hqueue, hsame]; exact h.sent, by rw [hccb, hqueue, hsame]; exact h.recv⟩
  · rcases hop with rfl | rfl
    · have hccb : (s.step (.allocate method)).ccb = s.ccb := congrArg Prod.snd hrun
      exact ⟨by rw [hccb, hqueue, hsame]; exact h.sent, by rw [hccb, hqueue, hsame]; exact h.recv⟩
    · have hccb : (s.step (.send method)).ccb = s.ccb.cleanMethodRequestTrx method true := by
        simp [Traced.step, Ccb.perform, Ccb.sendRequest, hrun]
      -- no request has the method, so that nothing is cleaned up
      have habsent : ∀ x ∈ s.queues.sent, x.cseqMethod ≠ method := by
        rcases hfull with hfull | ⟨-, hnil⟩
        · have hnone := (hmeets hack).2 (by rw [hroom]; omega)
          intro x hx
          obtain ⟨k, hk, rfl⟩ := List.getElem_of_mem hx
          rw [← h.sent.represents.get_of_lt ⟨k, by omega⟩ hk]
          exact hnone _
        · rw [hnil]
          nofun
      exact ⟨by rw [hccb, hqueue, hsame]; exact h.sent.clean_of_absent habsent,
        by rw [hccb, hqueue, hsame]; exact h.recv⟩
  · have hmarks : Marks number method := by
      by_cases hc : method = .cancel
      · subst hc
        exact marks_cancel h.sent (hcancel rfl)
      · rw [hnext hc]
        rcases hop with rfl | rfl
        · exact hmeets hack hc (hroom.mpr hlt)
        · exact (hmeets hack).1 hc (hroom.mpr hlt)
    have hccb : (s.step op).ccb = (s.ccb.allocateTrx method).2 := by
      rcases hop with rfl | rfl
      · rfl
      · simp [Traced.step, Ccb.perform, Ccb.sendRequest, hok]
    refine ⟨?_, ?_⟩
    · rw [hccb, hqueue, hwritten, hsent]
      exact holds_sent h.sent hlt hmarks
    · rw [hccb, hqueue, hwritten, hrecv]
      exact h.recv

theorem meets_send (h : s.Inv) (op : Op) (method : SipMethod)
    (hop : op = .allocate method ∨ op = .send method) (hsound : (s.step op).Sound) :
    op.Meets s.ccb := by
  have hroom := h.sent.hasRoom_iff
  have hqueue : (s.step op).queues = s.queues.allocate s.ccb method := by
    rcases hop with rfl | rfl <;> rfl
  have hsent := hsound.sent
  rw [hqueue] at hsent
  rcases allocate_outcome h.sent method with
    ⟨hack, -, -⟩ | ⟨hack, hfull, hrun, hsame⟩ | ⟨hlt, number, hack, hnext, -, hok, hwrite, -, -⟩
  · rcases hop with rfl | rfl
    · exact fun hne => absurd hack hne
    · exact fun hne => absurd hack hne
  · rcases hop with rfl | rfl
    · intro _ hc hhas
      rcases hfull with hfull | ⟨hcancel, -⟩
      · have hlt := hroom.mp hhas
        omega
      · exact absurd hcancel hc
    · have hccb : (s.step (.send method)).ccb = s.ccb.cleanMethodRequestTrx method true := by
        simp [Traced.step, Ccb.perform, Ccb.sendRequest, hrun]
      rw [hccb, hsame] at hsent
      refine fun _ => ⟨fun hc hhas => ?_, fun hno k => ?_⟩
      · rcases hfull with hfull | ⟨hcancel, -⟩
        · have hlt := hroom.mp hhas
          omega
        · exact absurd hcancel hc
      · have hlen : maxReqOutstanding ≤ s.queues.sent.length := by
          rw [hroom] at hno
          omega
        exact h.sent.absent_of_sound hsent k (Nat.lt_of_lt_of_le k.isLt hlen)
  · have hccb : (s.step op).ccb = (s.ccb.allocateTrx method).2 := by
      rcases hop with rfl | rfl
      · rfl
      · simp [Traced.step, Ccb.perform, Ccb.sendRequest, hok]
    rw [hccb, hwrite] at hsent
    have hmarks : Marks number method := h.sent.marks_of_sound hlt hsent
    rcases hop with rfl | rfl
    · exact fun _ hc _ => hnext hc ▸ hmarks
    · exact fun _ => ⟨fun hc _ => hnext hc ▸ hmarks, fun hno => absurd (hroom.mpr hlt) hno⟩

/-! ## Received requests -/

theorem getMethodCode_ne_invalid (method : CStr) : getMethodCode method ≠ .invalid := by
  have hite : ∀ (c : Prop) [Decidable c] (a b : SipMethod), a ≠ .invalid → b ≠ .invalid →
      (if c then a else b) ≠ .invalid := by
    intro c _ a b ha hb
    split_ifs
    · exact ha
    · exact hb
  unfold getMethodCode
  iterate 15 refine hite _ _ _ nofun ?_
  nofun

variable {cseq : Cseq}

theorem method_of_parseCseq {header : CStr} (h : parseCseq header = some cseq) : cseq.method ≠ .invalid := by
  unfold parseCseq at h
  split_ifs at h
  split at h
  · cases h
  · dsimp only at h
    split_ifs at h
    split at h
    · cases h
    · obtain rfl := Option.some.inj h
      exact getMethodCode_ne_invalid _

variable {request : Request}

theorem parsedCseq_of_checkHeaders (h : request.checkHeaders = .ok cseq) : request.parsedCseq = some cseq := by
  unfold Request.checkHeaders at h
  by_cases hcall : request.callId = none
  · rw [if_pos hcall] at h
    cases h
  rw [if_neg hcall] at h
  cases hparsed : request.parsedCseq with
  | none =>
    rw [hparsed] at h
    cases h
  | some parsed =>
    rw [hparsed] at h
    dsimp only at h
    split_ifs at h
    exact congrArg some (Except.ok.inj h)

theorem method_of_checkHeaders (h : request.checkHeaders = .ok cseq) : cseq.method ≠ .invalid := by
  obtain ⟨header, -, hheader⟩ := Option.bind_eq_some_iff.mp (parsedCseq_of_checkHeaders h)
  exact method_of_parseCseq hheader

theorem tables_of_checkMethod {ccb ccb' : Ccb}
    {midcall : Bool} (h : ccb.checkMethod request cseq method midcall = .ok ccb') :
    ccb'.sentRequest = ccb.sentRequest ∧ ccb'.recvRequest = ccb.recvRequest := by
  unfold Ccb.checkMethod at h
  split at h
  · split_ifs at h
    obtain rfl := Except.ok.inj h
    exact ⟨rfl, rfl⟩
  · split_ifs at h
    obtain rfl := Except.ok.inj h
    exact ⟨rfl, rfl⟩
  · split_ifs at h
    obtain rfl := Except.ok.inj h
    exact ⟨rfl, rfl⟩
  · split_ifs at h
    obtain rfl := Except.ok.inj h
    exact ⟨rfl, rfl⟩
  · obtain rfl := Except.ok.inj h
    exact ⟨rfl, rfl⟩

/-- What a received request does to the tables: nothing when it is refused; otherwise the block at the
end of the queue is written. -/
inductive StoreOutcome (s : Traced) (request : Request) (method : SipMethod) (midcall : Bool) : Prop
  | refused
      (hno : ∀ cseq, s.ccb.Admits request cseq method midcall → ¬ Table.HasRoom s.ccb.recvRequest)
      (hsent : (s.step (.store request method midcall)).ccb.sentRequest = s.ccb.sentRequest)
      (hrecv : (s.step (.store request method midcall)).ccb.recvRequest = s.ccb.recvRequest)
      (hqueue : (s.step (.store request method midcall)).queues = s.queues)
  | stored (cseq : Cseq) (hlt : s.queues.recv.length < maxReqOutstanding)
      (hadmits : s.ccb.Admits request cseq method midcall)
      (hsent : (s.step (.store request method midcall)).ccb.sentRequest = s.ccb.sentRequest)
      (hrecv : (s.step (.store request method midcall)).ccb.recvRequest =
        Function.update s.ccb.recvRequest ⟨s.queues.recv.length, hlt⟩ (recvBlock request cseq))
      (hqueue : (s.step (.store request method midcall)).queues =
        { s.queues with recv := arrive s.queues.recv (recvBlock request cseq) })

theorem store_outcome (h : Table.Holds s.ccb.recvRequest s.queues.recv) (request : Request)
    (method : SipMethod) (midcall : Bool) : StoreOutcome s request method midcall := by
  cases hheaders : request.checkHeaders with
  | error e =>
    have hno : ∀ cseq, ¬ s.ccb.Admits request cseq method midcall := by
      rintro cseq ⟨hok, -⟩
      rw [hheaders] at hok
      cases hok
    refine .refused (fun cseq hadmits => absurd hadmits (hno cseq)) ?_ ?_ ?_
    · simp [Traced.step, Ccb.perform, Ccb.checkAndStore, hheaders]
    · simp [Traced.step, Ccb.perform, Ccb.checkAndStore, hheaders]
    · simp [Traced.step, Queues.perform, hheaders]
  | ok cseq =>
    cases hmethod : s.ccb.checkMethod request cseq method midcall with
    | error e =>
      have hno : ∀ cseq', ¬ s.ccb.Admits request cseq' method midcall := by
        rintro cseq' ⟨hok, ccb', hok'⟩
        obtain rfl := Except.ok.inj (hheaders.symm.trans hok)
        rw [hmethod] at hok'
        cases hok'
      refine .refused (fun cseq' hadmits => absurd hadmits (hno cseq')) ?_ ?_ ?_
      · simp [Traced.step, Ccb.perform, Ccb.checkAndStore, hheaders, hmethod]
      · simp [Traced.step, Ccb.perform, Ccb.checkAndStore, hheaders, hmethod]
      · simp [Traced.step, Queues.perform, hheaders, hmethod]
    | ok ccb' =>
      obtain ⟨hsent, hrecv⟩ := tables_of_checkMethod hmethod
      have hholds : Table.Holds ccb'.recvRequest s.queues.recv := hrecv ▸ h
      have hnext := hholds.next
      by_cases hlt : s.queues.recv.length < maxReqOutstanding
      · rw [dif_pos hlt] at hnext
        have hfree := hholds.eq_free hlt
        have hrun : (s.step (.store request method midcall)).ccb = ccb'.storeRequest request cseq ⟨_, hlt⟩ := by
          simp [Traced.step, Ccb.perform, Ccb.checkAndStore, hheaders, hmethod, hnext]
        refine .stored cseq hlt ⟨hheaders, ccb', hmethod⟩ ?_ ?_ ?_
        · rw [hrun]
          exact hsent
        · rw [hrun, Ccb.storeRequest, hfree]
          exact congrArg (fun t => Function.update t _ (recvBlock request cseq)) hrecv
        · simp [Traced.step, Queues.perform, hheaders, hmethod]
      · rw [dif_neg hlt] at hnext
        have hrun : (s.step (.store request method midcall)).ccb = ccb' := by
          simp [Traced.step, Ccb.perform, Ccb.checkAndStore, hheaders, hmethod, hnext]
        refine .refused (fun _ _ => h.hasRoom_iff.not.mpr hlt) ?_ ?_ ?_
        · rw [hrun, hsent]
        · rw [hrun, hrecv]
        · have hfull : arrive s.queues.recv (recvBlock request cseq) = s.queues.recv := arrive_of_full (by omega) _
          simp [Traced.step, Queues.perform, hheaders, hmethod, hfull]

theorem inv_store (h : s.Inv) {midcall : Bool} (hmeets : (Op.store request method midcall).Meets s.ccb) :
    (s.step (.store request method midcall)).Inv := by
  rcases store_outcome h.recv request method midcall with
    ⟨-, hsent, hrecv, hqueue⟩ | ⟨cseq, hlt, hadmits, hsent, hrecv, hqueue⟩
  · exact ⟨by rw [hsent, hqueue]; exact h.sent, by rw [hrecv, hqueue]; exact h.recv⟩
  · have hnumber := hmeets cseq hadmits (h.recv.hasRoom_iff.mpr hlt)
    have hlive : (recvBlock request cseq).Live := ⟨method_of_checkHeaders hadmits.1, hnumber⟩
    exact ⟨by rw [hsent, hqueue]; exact h.sent, by rw [hrecv, hqueue]; exact h.recv.write hlt hlive⟩

theorem meets_store (h : s.Inv) {midcall : Bool} (hsound : (s.step (.store request method midcall)).Sound) :
    (Op.store request method midcall).Meets s.ccb := by
  intro cseq hadmits hroom
  rcases store_outcome h.recv request method midcall with
    ⟨hno, -, -, -⟩ | ⟨cseq', hlt, hadmits', -, hrecv, -⟩
  · exact absurd hroom (hno cseq hadmits)
  · obtain rfl := Except.ok.inj (hadmits'.1.symm.trans hadmits.1)
    have htable := hsound.recv
    rw [hrecv] at htable
    have hmarks := h.recv.marks_of_sound hlt htable
    exact fun hnum => method_of_checkHeaders hadmits.1 (hmarks.mp hnum)

/-! ## Runs -/

theorem inv_clean (h : s.Inv) (method : SipMethod) (sent : Bool) : (s.step (.clean method sent)).Inv := by
  cases sent with
  | true => exact ⟨h.sent.clean method, h.recv⟩
  | false => exact ⟨h.sent, h.recv.clean method⟩

theorem Traced.Inv.step (h : s.Inv) {op : Op} (hmeets : op.Meets s.ccb) : (s.step op).Inv := by
  cases op with
  | allocate method => exact inv_send h _ method (Or.inl rfl) hmeets
  | send method => exact inv_send h _ method (Or.inr rfl) hmeets
  | store request method midcall => exact inv_store h hmeets
  | clean method sent => exact inv_clean h method sent

theorem Traced.Inv.meets (h : s.Inv) {op : Op} (hsound : (s.step op).Sound) : op.Meets s.ccb := by
  cases op with
  | allocate method => exact meets_send h _ method (Or.inl rfl) hsound
  | send method => exact meets_send h _ method (Or.inr rfl) hsound
  | store request method midcall => exact meets_store h hsound
  | clean method sent => trivial

/-- The tables are sound throughout a run exactly when its operations meet their conditions, from any
state in which the tables hold their queues. -/
theorem soundThroughout_iff (h : s.Inv) (ops : List Op) : s.SoundThroughout ops ↔ s.MeetsThroughout ops := by
  induction ops generalizing s with
  | nil => exact iff_of_true ⟨h.sent.sound, h.recv.sound⟩ trivial
  | cons op ops ih =>
    constructor
    · rintro ⟨-, hrest⟩
      have hnext : (s.step op).Sound := by
        cases ops with
        | nil => exact hrest
        | cons op' ops => exact hrest.1
      have hmeets := h.meets hnext
      exact ⟨hmeets, (ih (h.step hmeets)).mp hrest⟩
    · rintro ⟨hmeets, hrest⟩
      exact ⟨⟨h.sent.sound, h.recv.sound⟩, (ih (h.step hmeets)).mpr hrest⟩

/-- **The tables are sound throughout a run exactly when every operation meets its condition.** A number
that marks a free block makes the searches see a free block where a request is, and a caller that got no
block takes away a request of the same method. -/
theorem tables_sound_iff {s : Traced} (h : s.Initial) (ops : List Op) :
    s.SoundThroughout ops ↔ s.MeetsThroughout ops := by
  refine soundThroughout_iff ⟨⟨?_, ?_⟩, ⟨?_, ?_⟩⟩ ops
  · rw [h.sentRequest, h.sent]
    exact .nil
  · rw [h.sent]
    nofun
  · rw [h.recvRequest, h.recv]
    exact .nil
  · rw [h.recv]
    nofun

/-- A block and its queues when the block has just been initialised. -/
def Traced.fresh : Traced := ⟨{}, {}⟩

theorem Traced.initial_fresh : Traced.fresh.Initial := ⟨rfl, rfl, rfl, rfl⟩

/-- An INFO with the number after the one that marks a free block. -/
def info101 : Request :=
  { callId := some "1@a", cseq := some "101 INFO", via := some "SIP/2.0/TCP a" }

/-- An INVITE is sent, an INFO is received, and the INVITE is cleaned up: the tables stay sound. -/
theorem tables_sound_info :
    Traced.fresh.SoundThroughout [.send .invite, .store info101 .info true, .clean .invite true] := by
  refine (tables_sound_iff Traced.initial_fresh _).mpr ⟨?_, ?_, trivial, trivial⟩
  · intro _
    exact ⟨fun _ _ => iff_of_false (by decide) (by decide), fun hno => absurd ⟨⟨0, by decide⟩, rfl⟩ hno⟩
  · rintro cseq ⟨hheaders, -⟩ -
    have hcseq : info101.checkHeaders = .ok ⟨101, .info⟩ := by decide +kernel
    obtain rfl := Except.ok.inj (hcseq.symm.trans hheaders)
    decide

/-- A request with the number 100 is overwritten by the next one; and three requests that were sent are
two after a second UPDATE got no block. -/
theorem not_tables_sound :
    (¬ Traced.fresh.SoundThroughout
      [.store { info101 with cseq := some "100 INFO" } .info true, .store info101 .info true]) ∧
    ¬ Traced.fresh.SoundThroughout [.send .update, .send .info, .send .invite, .send .update] := by
  constructor
  · rintro ⟨-, -, hsound⟩
    have hlost := (hsound.recv.occupied ⟨1, by decide⟩).mpr (by decide +kernel)
    exact hlost (by decide +kernel)
  · rintro ⟨-, -, -, -, hsound⟩
    have hlost := (hsound.sent.occupied ⟨2, by decide⟩).mpr (by decide +kernel)
    exact hlost (by decide +kernel)

end Sip
