import Ikran.Sip.RelDev

/-!
# Retransmissions

The records that the list of `ccsip_reldev.c` holds are those of a ring buffer. A message is coupled with
the first record of its transaction, and of several records of one transaction the first one that has a
coupled message is the newest, as long as no call couples a message with several transactions.
-/

namespace Sip

open CStr Httpish

/-! ## Records with the same identifiers -/

namespace Record

/-- A record without the message that is coupled with it. -/
def key (r : Record) : Record := { r with coupledMessage := {}, validCoupledMessage := false }

variable {r m : Record}

theorem matches_iff : m.Matches r ↔ m.SameIds r ∧ (m.isRequest = true ∨ m.responseCode = r.responseCode) := by
  rw [Matches, strcasecmpIgnorewhitespace_iff]
  constructor
  · rintro ⟨h1, h2, h3, h4, h5, h6, h7, h8⟩
    exact ⟨⟨h1, h2, h3, h4, h5, h6, h7⟩, h8⟩
  · rintro ⟨⟨h1, h2, h3, h4, h5, h6, h7⟩, h8⟩
    exact ⟨h1, h2, h3, h4, h5, h6, h7, h8⟩

variable {r' : Record}

theorem SameIds.symm (h : r.SameIds r') : r'.SameIds r :=
  ⟨h.1.symm, h.2.symm, h.3.symm, h.4.symm, h.5.symm, h.6.symm, h.7.symm⟩

theorem SameIds.trans {r'' : Record} (h : r.SameIds r') (h' : r'.SameIds r'') : r.SameIds r'' :=
  ⟨h.1.trans h'.1, h.2.trans h'.2, h.3.trans h'.3, h.4.trans h'.4, h.5.trans h'.5, h.6.trans h'.6, h.7.trans h'.7⟩

theorem SameTransaction.symm (h : r.SameTransaction r') : r'.SameTransaction r := ⟨h.1.symm, h.2.symm, h.3.symm⟩

theorem Matches.of_sameTransaction (hm : m.Matches r) (h : r.SameTransaction r') : m.Matches r' := by
  obtain ⟨hids, hcode⟩ := matches_iff.mp hm
  exact matches_iff.mpr ⟨hids.trans h.ids, hcode.imp_right fun hc => hc.trans h.responseCode⟩

theorem SameMessage.matches (h : m.SameMessage r) : m.Matches r := by
  refine matches_iff.mpr ⟨h.ids, ?_⟩
  cases hm : m.isRequest with
  | true => exact .inl rfl
  | false => exact .inr (h.responseCode hm)

theorem Matches.sameMessage (h : m.Matches r) (hdir : m.isRequest = r.isRequest) : m.SameMessage r := by
  obtain ⟨hids, hcode⟩ := matches_iff.mp h
  refine ⟨hdir, hids, fun hm => hcode.resolve_left ?_⟩
  rw [hm]
  exact Bool.false_ne_true

end Record

theorem CoupleCall.Selects.of_sameTransaction {stack : Stack} {c : CoupleCall} {r r' : Record}
    (hc : c.Selects stack r) (h : r.SameTransaction r') : c.Selects stack r' := by
  obtain ⟨h1, h2, h3, h4, h5⟩ := hc
  refine ⟨h1.trans h.ids.callId, h2.trans h.ids.cseqNumber, h3.trans h.ids.cseqMethod,
    h4.imp_right fun htag => ?_, h5.imp_right fun hcode => ⟨hcode.1, ?_⟩⟩
  · exact (strcasecmpIgnorewhitespace_iff _ _).mpr (((strcasecmpIgnorewhitespace_iff _ _).mp htag).trans h.ids.tag)
  · rw [← h.responseCode, hcode.2]

theorem ClearCall.covers_of_sameTransaction (d : ClearCall) {r r' : Record}
    (h : r.SameTransaction r') : d.covers r = d.covers r' := by
  simp only [covers, h.ids.callId, h.ids.fromUser, h.ids.fromHost, h.ids.toUser]

def CoupledMessage.text (cm : CoupledMessage) : CStr := cm.messageBuf.take cm.messageBufLen

namespace RelDev

/-! ## Calls -/

variable {stack : Stack}

theorem coupleAt_cases (stack : Stack) (c : CoupleCall) (i : Fin sipRrlistLength) (s : RelDev) : (Unwritten c ∧ ∃ cm,
      coupleAt stack c i s = (none, s.setCoupled i cm (s.list i).validCoupledMessage)) ∨
    ∃ text cm, httpishMsgWrite c.coupledMessage sipUdpMessageSize = some text ∧
      cm.text = text ∧ coupleAt stack c i s = (some i, s.setCoupled i cm true) := by
  unfold coupleAt Unwritten
  generalize hwrite : httpishMsgWrite c.coupledMessage sipUdpMessageSize = written
  cases written with
  | none => exact .inl ⟨fun text h => absurd h (by simp), _, rfl⟩
  | some text =>
    simp only
    by_cases htext : text.peek = nul
    · have hempty : (overwrite text (overwrite [nul] (s.list i).coupledMessage.messageBuf)).peek = nul := by
        cases text with
        | nil => rfl
        | cons a text => exact htext
      rw [if_pos (.inl hempty)]
      exact .inl ⟨fun t h => Option.some.inj h ▸ htext, _, rfl⟩
    · obtain ⟨a, text, rfl⟩ : ∃ a t, text = a :: t := by
        cases text with
        | nil => exact absurd rfl htext
        | cons a t => exact ⟨a, t, rfl⟩
      have hfull : ¬ ((overwrite (a :: text) (overwrite [nul] (s.list i).coupledMessage.messageBuf)).peek = nul ∨
            (a :: text).length = 0) := not_or.mpr ⟨htext, Nat.succ_ne_zero _⟩
      rw [if_neg hfull]
      refine .inr ⟨a :: text, _, rfl, ?_, rfl⟩
      exact List.take_left

theorem couple_cases (stack : Stack) (c : CoupleCall) (s : RelDev) :
    ((∀ i, ¬ c.Selects stack (s.list i)) ∧ step stack s (.couple c) = s ∧ coupling stack s (.couple c) = none) ∨
    ∃ i, c.Selects stack (s.list i) ∧ (∀ j < i, ¬ c.Selects stack (s.list j)) ∧
      ((Unwritten c ∧ coupling stack s (.couple c) = none ∧
        ∃ cm, step stack s (.couple c) = s.setCoupled i cm (s.list i).validCoupledMessage) ∨
      ∃ text cm, cm.text = text ∧ step stack s (.couple c) = s.setCoupled i cm true ∧
        coupling stack s (.couple c) = some (c, text)) := by
  simp only [step, coupling]
  cases hfind : Fin.find? fun i => decide (c.Selects stack (s.list i)) with
  | none =>
    have hstore : sipRelDevCoupledMessageStore stack c s = (none, s) := by
      delta sipRelDevCoupledMessageStore
      rw [hfind]
    refine .inl ⟨fun i => ?_, ?_, ?_⟩
    · exact of_decide_eq_false (Fin.eq_false_of_find?_eq_none hfind i)
    · rw [hstore]
    · rw [hstore]
      exact if_neg Bool.false_ne_true
  | some i =>
    obtain ⟨hi, hfirst⟩ := Fin.find?_eq_some_iff.mp hfind
    refine .inr ⟨i, of_decide_eq_true hi, fun j hj => of_decide_eq_false (hfirst j hj), ?_⟩
    have hstore : sipRelDevCoupledMessageStore stack c s = coupleAt stack c i s := by
      delta sipRelDevCoupledMessageStore
      rw [hfind]
    rcases coupleAt_cases stack c i s with ⟨hun, cm, heq⟩ | ⟨text, cm, hwrite, htext, heq⟩
    · rw [hstore, heq]
      exact .inl ⟨hun, if_neg Bool.false_ne_true, cm, rfl⟩
    · rw [hstore, heq, hwrite]
      exact .inr ⟨text, cm, htext, rfl, if_pos rfl⟩

theorem run_concat (stack : Stack) (ops : List Op) (op : Op) :
    run stack (ops ++ [op]) = step stack (run stack ops) op := by
  simp [run]

theorem couplings_concat (s : RelDev) (ops : List Op) (op : Op) : couplings stack s (ops ++ [op]) =
      couplings stack s ops ++ (coupling stack (ops.foldl (step stack) s) op).toList := by
  induction ops generalizing s with
  | nil => simp [couplings]
  | cons o ops ih => simp only [List.cons_append, couplings, ih, List.foldl_cons, List.append_assoc]

variable {ops : List Op} {op : Op}

theorem lastCoupled_concat_none (h : coupling stack (run stack ops) op = none) (r : Record) :
    lastCoupled stack (ops ++ [op]) r = lastCoupled stack ops r := by
  rw [lastCoupled, couplings_concat]
  rw [run] at h
  rw [h, Option.toList_none, List.append_nil, lastCoupled]

theorem lastCoupled_concat_some {c : CoupleCall} {text : CStr}
    (h : coupling stack (run stack ops) op = some (c, text)) (r : Record) :
    lastCoupled stack (ops ++ [op]) r =
      if c.Selects stack r then some text else lastCoupled stack ops r := by
  rw [lastCoupled, couplings_concat]
  rw [run] at h
  rw [h, Option.toList_some, List.filter_append]
  by_cases hc : c.Selects stack r
  · simp [hc]
  · simp [hc, lastCoupled]

/-! ## What the list holds -/

/-- The records that are held, in their places. -/
def cells (ops : List Op) : RingBuffer.Cells sipRrlistLength Record := RingBuffer.run (events ops)

theorem cells_concat (ops : List Op) (op : Op) : cells (ops ++ [op]) = op.event.elim (cells ops) (cells ops).step := by
  rw [cells, events, List.filterMap_append]
  cases op <;> simp [List.filterMap_cons, Op.event, RingBuffer.run_concat, cells, events]

variable {i : Fin sipRrlistLength}

theorem occupied_iff : Occupied ops i ↔ ∃ e, (cells ops).cell i = some e := by
  constructor
  · rintro ⟨t, r, h⟩
    exact ⟨(t, r), RingBuffer.cell_run_iff.mpr h⟩
  · rintro ⟨⟨t, r⟩, h⟩
    exact ⟨t, r, RingBuffer.cell_run_iff.mp h⟩

/-- The list has the records that are held in their places, and its counter is the next place. -/
structure Tracks (stack : Stack) (ops : List Op) : Prop where
  key : ∀ i, ((run stack ops).list i).key = ((cells ops).cell i).elim {} fun e => e.2.key
  counter : (if sipRrlistLength - 1 < (run stack ops).counter then 0 else (run stack ops).counter) =
    (cells ops).count % sipRrlistLength

theorem key_setCoupled (s : RelDev) (i j : Fin sipRrlistLength) (cm : CoupledMessage) (valid : Bool) :
    ((s.setCoupled i cm valid).list j).key = (s.list j).key := by
  simp only [setCoupled]
  by_cases hj : j = i
  · subst hj
    rw [Function.update_self]
    rfl
  · rw [Function.update_of_ne hj]

theorem key_couple (c : CoupleCall) (s : RelDev) (i : Fin sipRrlistLength) :
    ((step stack s (.couple c)).list i).key = (s.list i).key := by
  rcases couple_cases stack c s with ⟨-, h, -⟩ | ⟨j, -, -, ⟨-, -, cm, h⟩ | ⟨-, cm, -, h, -⟩⟩
  · rw [h]
  · rw [h, key_setCoupled]
  · rw [h, key_setCoupled]

theorem counter_couple (c : CoupleCall) (s : RelDev) :
    (step stack s (.couple c)).counter = s.counter := by
  rcases couple_cases stack c s with ⟨-, h, -⟩ | ⟨j, -, -, ⟨-, -, cm, h⟩ | ⟨-, cm, -, h, -⟩⟩
  all_goals
    rw [h]
    try rfl

theorem Tracks.list_store (h : Tracks stack ops) (r : Record) : (run stack (ops ++ [.store r])).list =
      Function.update (run stack ops).list (cells ops).next { r with validCoupledMessage := false } := by
  have hnext : (cells ops).next = Fin.ofNat sipRrlistLength
      (if sipRrlistLength - 1 < (run stack ops).counter then 0 else (run stack ops).counter) := by
    rw [h.counter, RingBuffer.Cells.next]
    exact Fin.ext (Nat.mod_mod _ _).symm
  rw [run_concat, hnext]
  rfl

theorem Tracks.drop {covers : Record → Bool} (h : Tracks stack ops)
    (hevent : op.event = some (.drop covers)) (hcovers : ∀ r, covers r.key = covers r)
    (hlist : ∀ s i, (step stack s op).list i = if covers (s.list i) then {} else s.list i)
    (hcounter : ∀ s, (step stack s op).counter = s.counter) : Tracks stack (ops ++ [op]) := by
  constructor
  · intro i
    have hkey := h.key i
    have hcov := hcovers ((run stack ops).list i)
    rw [run_concat, hlist, cells_concat, hevent, Option.elim_some]
    simp only [RingBuffer.Cells.step]
    cases hcell : (cells ops).cell i with
    | none =>
      rw [hcell] at hkey
      rw [Option.filter_none]
      split
      · rfl
      · exact hkey
    | some e =>
      rw [hcell, Option.elim_some] at hkey
      rw [hkey, hcovers] at hcov
      rw [Option.filter_some, ← hcov]
      cases covers e.2 with
      | true => rfl
      | false => exact hkey
  · rw [run_concat, hcounter, cells_concat, hevent, h.counter]
    rfl

/-- **The list has the records that are held in their places.** By induction on the calls. -/
theorem tracks (stack : Stack) (ops : List Op) : Tracks stack ops := by
  induction ops using List.reverseRecOn with
  | nil => exact ⟨fun _ => rfl, rfl⟩
  | append_singleton ops op ih =>
    cases op with
    | store r =>
      have hcells : cells (ops ++ [.store r]) = (cells ops).step (.push r) := cells_concat ops _
      constructor
      · intro i
        rw [ih.list_store, hcells]
        by_cases hi : i = (cells ops).next
        · subst hi
          rw [Function.update_self, RingBuffer.Cells.cell_push_next]
          rfl
        · rw [Function.update_of_ne hi, RingBuffer.Cells.cell_push_of_ne hi, ih.key]
      · have hcount : (cells (ops ++ [.store r])).count = (cells ops).count + 1 := by rw [hcells]; rfl
        have hcounter : (run stack (ops ++ [.store r])).counter = (cells ops).count % sipRrlistLength + 1 := by
          rw [run_concat, ← ih.counter]
          rfl
        rw [hcounter, hcount]
        simp only [sipRrlistLength]
        split <;> omega
    | couple c =>
      have hcells : cells (ops ++ [.couple c]) = cells ops := cells_concat ops _
      constructor
      · intro i
        rw [run_concat, key_couple, hcells, ih.key]
      · rw [run_concat, counter_couple, hcells, ih.counter]
    | clear d => exact ih.drop rfl (fun _ => rfl) (fun _ _ => rfl) fun _ => rfl
    | clearAll => exact ih.drop rfl (fun _ => rfl) (fun _ _ => rfl) fun _ => rfl

variable {r : Record}

theorem key_of_cell {t : ℕ} (h : (cells ops).cell i = some (t, r)) : ((run stack ops).list i).key = r.key := by
  rw [(tracks stack ops).key, h]
  rfl

/-! ## The coupled messages -/

/-- The messages that are coupled with the records of the list: each is the last one of its transaction, or
there is a newer record of the transaction in front. -/
structure Couples (stack : Stack) (ops : List Op) : Prop where
  occupied : ∀ i, ((run stack ops).list i).validCoupledMessage = true →
    ∃ e, (cells ops).cell i = some e
  latest : ∀ i, ((run stack ops).list i).validCoupledMessage = true →
    lastCoupled stack ops ((run stack ops).list i) =
      some ((run stack ops).list i).coupledMessage.text ∨
    ∃ j < i, (cells ops).Newer j i ∧
      ((run stack ops).list j).SameTransaction ((run stack ops).list i)
  newer : ∀ i, ((run stack ops).list i).validCoupledMessage = true →
    ∀ j < i, (∃ e, (cells ops).cell j = some e) →
      ((run stack ops).list j).SameTransaction ((run stack ops).list i) → (cells ops).Newer j i

theorem Couples.store (h : Couples stack ops) (r : Record) : Couples stack (ops ++ [.store r]) := by
  have hlist := (tracks stack ops).list_store r
  have hcells : cells (ops ++ [.store r]) = (cells ops).step (.push r) := cells_concat ops _
  have hother : ∀ {i}, i ≠ (cells ops).next →
      (run stack (ops ++ [.store r])).list i = (run stack ops).list i := fun hi => by
    rw [hlist, Function.update_of_ne hi]
  have hlast : ∀ r', lastCoupled stack (ops ++ [.store r]) r' = lastCoupled stack ops r' := lastCoupled_concat_none rfl
  have hvalid : ∀ i, ((run stack (ops ++ [.store r])).list i).validCoupledMessage = true →
      i ≠ (cells ops).next ∧ ((run stack ops).list i).validCoupledMessage = true := by
    intro i hi
    by_cases hnext : i = (cells ops).next
    · rw [hlist, hnext, Function.update_self] at hi
      exact absurd hi Bool.false_ne_true
    · exact ⟨hnext, hother hnext ▸ hi⟩
  constructor
  · intro i hi
    obtain ⟨hne, hi⟩ := hvalid i hi
    rw [hcells, RingBuffer.Cells.cell_push_of_ne hne]
    exact h.occupied i hi
  · intro i hi
    obtain ⟨hne, hi⟩ := hvalid i hi
    rw [hlast, hother hne]
    refine (h.latest i hi).imp_right ?_
    rintro ⟨j, hj, hnewer, hsame⟩
    rw [hcells]
    refine ⟨j, hj, hnewer.push hne, ?_⟩
    rw [hother hnewer.ne_next]
    exact hsame
  · intro i hi j hj hocc hsame
    obtain ⟨hne, hi⟩ := hvalid i hi
    rw [hcells] at hocc ⊢
    by_cases hnext : j = (cells ops).next
    · obtain ⟨e, he⟩ := h.occupied i hi
      rw [hnext]
      exact RingBuffer.Cells.newer_next hne he
    · rw [RingBuffer.Cells.cell_push_of_ne hnext] at hocc
      rw [hother hne, hother hnext] at hsame
      exact (h.newer i hi j hj hocc hsame).push hne

/-- A test that drops records keeps the messages of the others, if it does not tell the records of a
transaction apart. -/
theorem Couples.drop {covers : Record → Bool} (h : Couples stack ops)
    (hevent : op.event = some (.drop covers)) (hcovers : ∀ r, covers r.key = covers r)
    (hsame : ∀ r r' : Record, r.SameTransaction r' → covers r = covers r')
    (hlist : ∀ s i, (step stack s op).list i = if covers (s.list i) then {} else s.list i)
    (hcoupling : coupling stack (run stack ops) op = none) : Couples stack (ops ++ [op]) := by
  have hcells : cells (ops ++ [op]) = (cells ops).step (.drop covers) := by
    rw [cells_concat, hevent, Option.elim_some]
  have hlast := lastCoupled_concat_none hcoupling
  have hkept : ∀ {i}, covers ((run stack ops).list i) = false →
      (run stack (ops ++ [op])).list i = (run stack ops).list i := fun hi => by
    rw [run_concat, hlist, hi, if_neg Bool.false_ne_true]
  have hcell : ∀ {i e}, covers ((run stack ops).list i) = false → (cells ops).cell i = some e → covers e.2 = false := by
    rintro i ⟨t, r⟩ hi he
    rw [← hcovers, key_of_cell he, hcovers] at hi
    exact hi
  have hvalid : ∀ i, ((run stack (ops ++ [op])).list i).validCoupledMessage = true →
      covers ((run stack ops).list i) = false ∧ ((run stack ops).list i).validCoupledMessage = true := by
    intro i hi
    rw [run_concat, hlist] at hi
    split at hi
    · exact absurd hi Bool.false_ne_true
    · rename_i hcov
      exact ⟨Bool.not_eq_true _ ▸ hcov, hi⟩
  constructor
  · intro i hi
    obtain ⟨hcov, hi⟩ := hvalid i hi
    obtain ⟨e, he⟩ := h.occupied i hi
    refine ⟨e, ?_⟩
    simp [hcells, RingBuffer.Cells.step, he, hcell hcov he]
  · intro i hi
    obtain ⟨hcov, hi⟩ := hvalid i hi
    rw [hlast, hkept hcov]
    refine (h.latest i hi).imp_right ?_
    rintro ⟨j, hj, hnewer, htrans⟩
    have hcovj := (hsame _ _ htrans).trans hcov
    rw [hcells]
    refine ⟨j, hj, hnewer.drop (fun e => hcell hcovj) fun e => hcell hcov, ?_⟩
    rw [hkept hcovj]
    exact htrans
  · intro i hi j hj hocc htrans
    obtain ⟨hcov, hi⟩ := hvalid i hi
    obtain ⟨⟨t, r⟩, he⟩ := hocc
    rw [hcells] at he ⊢
    obtain ⟨he, hr⟩ := Option.filter_eq_some_iff.mp he
    have hcovj : covers ((run stack ops).list j) = false := by
      rw [← hcovers, key_of_cell he, hcovers]
      exact Bool.not_eq_true' _ ▸ hr
    rw [hkept hcov, hkept hcovj] at htrans
    exact (h.newer i hi j hj ⟨_, he⟩ htrans).drop (fun e => hcell hcovj) fun e => hcell hcov

variable {r' : Record}

theorem sameTransaction_congr {r₁ r₁' : Record} (h : r.key = r₁.key) (h' : r'.key = r₁'.key) :
    r.SameTransaction r' ↔ r₁.SameTransaction r₁' := by
  have hkey : ∀ r r' : Record, r.SameTransaction r' ↔ r.key.SameTransaction r'.key := fun r r' =>
    ⟨fun h => ⟨h.1, ⟨h.2.1, h.2.2, h.2.3, h.2.4, h.2.5, h.2.6, h.2.7⟩, h.3⟩,
      fun h => ⟨h.1, ⟨h.2.1, h.2.2, h.2.3, h.2.4, h.2.5, h.2.6, h.2.7⟩, h.3⟩⟩
  rw [hkey, h, h', ← hkey]

theorem lastCoupled_congr (h : r.key = r'.key) (ops : List Op) :
    lastCoupled stack ops r = lastCoupled stack ops r' := by
  have hkey : ∀ r, lastCoupled stack ops r = lastCoupled stack ops r.key := fun _ => rfl
  rw [hkey, h, ← hkey]

theorem selects_congr {c : CoupleCall} (h : r.key = r'.key) : c.Selects stack r ↔ c.Selects stack r' := by
  have hkey : ∀ r : Record, c.Selects stack r ↔ c.Selects stack r.key := fun _ => Iff.rfl
  rw [hkey, h, ← hkey]

/-- A call that the code can cope with couples its message with the transaction that it selects. -/
theorem Couples.couple {c : CoupleCall} (h : Couples stack ops)
    (hc : CallOk stack ops c) : Couples stack (ops ++ [.couple c]) := by
  have hcells : cells (ops ++ [.couple c]) = cells ops := cells_concat ops _
  have hkey : ∀ i, ((run stack (ops ++ [.couple c])).list i).key = ((run stack ops).list i).key :=
    fun i => by rw [run_concat, key_couple]
  have hother : ∀ {i j cm valid}, j ≠ i →
      (((run stack ops).setCoupled i cm valid).list j) = (run stack ops).list j := fun hj =>
    Function.update_of_ne hj _ _
  have hself : ∀ i cm valid, ((run stack ops).setCoupled i cm valid).list i =
      { (run stack ops).list i with coupledMessage := cm, validCoupledMessage := valid } :=
    fun i cm valid => Function.update_self _ _ _
  rcases couple_cases stack c (run stack ops) with
    ⟨-, hstep, hcoup⟩ | ⟨i₀, hsel, hfirst, ⟨hun, hcoup, cm, hstep⟩ | ⟨text, cm, htext, hstep, hcoup⟩⟩
  · -- no record is selected
    have hrun : run stack (ops ++ [.couple c]) = run stack ops := by rw [run_concat, hstep]
    have hlast := lastCoupled_concat_none hcoup
    constructor <;> simp only [hrun, hcells, hlast]
    exacts [h.occupied, h.latest, h.newer]
  · -- the text is not written, over a record without a coupled message
    have hinvalid : ((run stack ops).list i₀).validCoupledMessage = false := by
      rw [← Bool.not_eq_true]
      exact fun hv => hc.written i₀ hsel hfirst hv hun
    have hlast := lastCoupled_concat_none hcoup
    have hvalid : ∀ i, ((run stack (ops ++ [.couple c])).list i).validCoupledMessage = true →
        (run stack (ops ++ [.couple c])).list i = (run stack ops).list i := by
      intro i hi
      by_cases hi₀ : i = i₀
      · rw [run_concat, hstep, hi₀, hself, hinvalid] at hi
        exact absurd hi Bool.false_ne_true
      · rw [run_concat, hstep, hother hi₀]
    constructor
    · intro i hi
      rw [hcells]
      exact h.occupied i (hvalid i hi ▸ hi)
    · intro i hi
      rw [hlast, hcells, hvalid i hi]
      simp only [sameTransaction_congr (hkey _) rfl]
      exact h.latest i (hvalid i hi ▸ hi)
    · intro i hi j hj hocc hsame
      rw [hcells] at hocc ⊢
      exact h.newer i (hvalid i hi ▸ hi) j hj hocc ((sameTransaction_congr (hkey j) (hkey i)).mp hsame)
  · -- the message is coupled with the first record that is selected
    have hrun : run stack (ops ++ [.couple c]) = (run stack ops).setCoupled i₀ cm true := by
      rw [run_concat, hstep]
    have hoccupied := occupied_iff.mp (hc.occupied i₀ hsel)
    have hvalid : ∀ {i}, i ≠ i₀ → ((run stack (ops ++ [.couple c])).list i).validCoupledMessage = true →
        ((run stack ops).list i).validCoupledMessage = true := by
      intro i hi₀ hi
      rwa [hrun, hother hi₀] at hi
    constructor
    · intro i hi
      rw [hcells]
      by_cases hi₀ : i = i₀
      · exact hi₀ ▸ hoccupied
      · exact h.occupied i (hvalid hi₀ hi)
    · intro i hi
      rw [lastCoupled_concat_some hcoup, hcells]
      by_cases hi₀ : i = i₀
      · left
        rw [hi₀, if_pos ((selects_congr (hkey i₀)).mpr hsel), hrun, hself]
        exact congrArg some htext.symm
      · by_cases hseli : c.Selects stack ((run stack ops).list i)
        · -- the message goes to the newer record in front
          have hlt : i₀ < i := by
            rcases lt_or_gt_of_ne hi₀ with hlt | hlt
            · exact absurd hseli (hfirst i hlt)
            · exact hlt
          have hsame := hc.sameTransaction i₀ i hsel hseli
          exact .inr ⟨i₀, hlt, h.newer i (hvalid hi₀ hi) i₀ hlt hoccupied hsame,
            (sameTransaction_congr (hkey i₀) (hkey i)).mpr hsame⟩
        · rw [if_neg fun hsel => hseli ((selects_congr (hkey i)).mp hsel), lastCoupled_congr (hkey i)]
          simp only [sameTransaction_congr (hkey _) (hkey i)]
          rw [hrun, hother hi₀]
          exact h.latest i (hvalid hi₀ hi)
    · intro i hi j hj hocc hsame
      rw [hcells] at hocc ⊢
      rw [sameTransaction_congr (hkey j) (hkey i)] at hsame
      by_cases hi₀ : i = i₀
      · subst hi₀
        exact absurd (hsel.of_sameTransaction hsame.symm) (hfirst j hj)
      · exact h.newer i (hvalid hi₀ hi) j hj hocc hsame

theorem RunOk.of_concat (h : RunOk stack (ops ++ [op])) : RunOk stack ops := by
  rintro before c after rfl
  exact h before c (after ++ [op]) (by simp)

/-- **Behind calls that the code can cope with, the messages are coupled with the newest records.** By
induction on the calls. -/
theorem couples_of_ok (h : RunOk stack ops) : Couples stack ops := by
  induction ops using List.reverseRecOn with
  | nil => exact ⟨fun _ hi => absurd hi Bool.false_ne_true, fun _ hi => absurd hi Bool.false_ne_true,
      fun _ hi => absurd hi Bool.false_ne_true⟩
  | append_singleton ops op ih =>
    have hops := ih h.of_concat
    cases op with
    | store r => exact hops.store r
    | couple c => exact hops.couple (h ops c [] rfl)
    | clear d =>
      exact hops.drop rfl (fun _ => rfl) (fun _ _ => d.covers_of_sameTransaction) (fun _ _ => rfl) rfl
    | clearAll => exact hops.drop rfl (fun _ => rfl) (fun _ _ _ => rfl) (fun _ _ => rfl) rfl

/-! ## Retransmissions -/

theorem matches_congr {m : Record} (h : r.key = r'.key) : m.Matches r ↔ m.Matches r' := by
  have hkey : ∀ r, m.Matches r ↔ m.Matches r.key := fun _ => Iff.rfl
  rw [hkey, h, ← hkey]

theorem isDuplicate_eq_some_iff {m : Record} {s : RelDev} : sipRelDevMessageIsDuplicate m s = some i ↔
      m.Matches (s.list i) ∧ ∀ j < i, ¬ m.Matches (s.list j) := by
  rw [sipRelDevMessageIsDuplicate, Fin.find?_eq_some_iff]
  simp only [decide_eq_true_eq, decide_eq_false_iff_not]

theorem getStored_eq {destBufSize : ℕ} {s : RelDev} (h : sipRelDevGetStoredCoupledMessage i destBufSize s ≠ []) :
    (s.list i).validCoupledMessage = true ∧
      sipRelDevGetStoredCoupledMessage i destBufSize s = (s.list i).coupledMessage.text := by
  unfold sipRelDevGetStoredCoupledMessage at h ⊢
  have hi : Fin.ofNat sipRrlistLength ((i : ℕ) : ℤ).toNat = i := Fin.ext (by simp)
  simp only [hi] at h ⊢
  split_ifs at h ⊢ with hrange hvalid hlen
  all_goals first
    | exact absurd rfl h
    | exact ⟨Bool.not_eq_false _ ▸ hvalid, rfl⟩

/-- A request, with the identifiers of a transaction. -/
def invite : Record :=
  { isRequest := true, callId := "a", cseqNumber := 1, cseqMethod := .invite, tag := "b",
    fromUser := "alice", fromHost := "example", toUser := "bob" }

/-- A response, with the same identifiers. -/
def answer : Record := { invite with isRequest := false, responseCode := 200 }

/-- A stack in which every message has the tag of these. -/
def exampleStack : Stack := ⟨fun _ => "b", fun _ => []⟩

/-- The response that is coupled with the request. -/
def coupleAnswer : CoupleCall :=
  { coupledMessage := msgOf "SIP/2.0 200 OK" [] []
    callId := "a"
    cseqNumber := 1
    cseqMethod := .invite
    isRequest := false
    responseCode := 200
    destIpaddr := .invalid
    destPort := 5060
    ignoreTag := false }

end RelDev

end Sip
