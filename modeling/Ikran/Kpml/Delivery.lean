import Ikran.Kpml.QueuedDigits

/-!
# Digits are delivered once

The digits that are quarantined for a call are kept, up to the newest that there is room for, and a subscription
that becomes active gets them once, in their order.
-/

namespace Kpml

namespace State

/-! ## Subscriptions -/

variable {r : KpmlData}

theorem keeps_withRequest {r' : KpmlData} {q : KpmlRequest} (h : r.withRequest q = some r') : Keeps r r' := by
  rw [KpmlData.withRequest] at h
  split_ifs at h
  obtain ⟨e, -, he⟩ := Option.bind_eq_some_iff.mp h
  obtain ⟨enterkey, -, rfl⟩ := Option.map_eq_some_iff.mp he
  exact ⟨rfl, rfl, rfl, rfl⟩

/-- A subscription releases the record that it is for, or it makes it that of a subscription, and passes its digits
on. Behind a record that had no subscription there is a request then. -/
theorem subscribeRecord_cases (s : State) (r : KpmlData) (isEmptyResubscribe : Bool) (m : SubsInd) :
    s.subscribeRecord r isEmptyResubscribe m = { state := s.erase r.key } ∨
      ∃ r₁, r₁.key = r.key ∧ r₁.queue = r.queue ∧ r₁.persistent = r.persistent ∧ r₁.pendingSub = true ∧
        (isEmptyResubscribe = true ∨ m.request.isSome) ∧
        s.subscribeRecord r isEmptyResubscribe m = (s.put r₁).kpmlUpdateQuarantinedDigits r.key := by
  rw [subscribeRecord]
  split_ifs with hduration hcheck hempty
  · exact .inl rfl
  · exact .inr ⟨{ r with subId := m.subId, pendingSub := true, subReject := false }, rfl, rfl, rfl, rfl,
      .inl hempty, rfl⟩
  · dsimp only
    split
    · next r₁ hbind =>
      obtain ⟨q, hq, hr₁⟩ := Option.bind_eq_some_iff.mp hbind
      have hkeeps := keeps_withRequest hr₁
      exact .inr ⟨r₁, hkeeps.key, hkeeps.queue, hkeeps.persistent, hkeeps.pendingSub, .inr (by rw [hq]; rfl),
        congrArg (s.put r₁).kpmlUpdateQuarantinedDigits hkeeps.key⟩
    · exact .inl rfl
  · exact .inl rfl

variable {s : State}

theorem find_subscribeRecord_of_ne {k : KpmlKey} (isEmptyResubscribe : Bool) (m : SubsInd)
    (h : r.key ≠ k) : (s.subscribeRecord r isEmptyResubscribe m).state.find k = s.find k := by
  rcases subscribeRecord_cases s r isEmptyResubscribe m with herase | ⟨r₁, hkey, -, -, -, -, hdeliver⟩
  · rw [herase]
    exact find_erase_of_ne h
  · rw [hdeliver]
    exact (find_deliverLoop_of_ne h maxDialstring _).trans (find_put_of_ne (hkey ▸ h))

theorem subscribeRecord_subset {r₀ : KpmlData} (isEmptyResubscribe : Bool) (m : SubsInd)
    (hr : s.find r.key = some r₀) (hqueue : r.queue = r₀.queue) :
    (∀ e ∈ (s.subscribeRecord r isEmptyResubscribe m).delivered, e.1 = r.key ∧ e.2 ∈ s.quarantined r.key) ∧
      ∀ k, (s.subscribeRecord r isEmptyResubscribe m).state.quarantined k ⊆ s.quarantined k := by
  rcases subscribeRecord_cases s r isEmptyResubscribe m with herase | ⟨r₁, hkey, hqueue₁, -, -, -, hdeliver⟩
  · rw [herase]
    exact ⟨fun e he => absurd he List.not_mem_nil, quarantined_erase_subset s r.key⟩
  · have hfound : s.find r₁.key = some r₀ := by rw [hkey, hr]
    have hput : ∀ k, (s.put r₁).quarantined k = s.quarantined k := quarantined_put hfound (hqueue₁.trans hqueue)
    obtain ⟨hmem, hleft⟩ := kpmlUpdateQuarantinedDigits_subset (s.put r₁) r.key
    rw [hdeliver]
    exact ⟨fun e he => ⟨(hmem e he).1, hput r.key ▸ (hmem e he).2⟩, fun k => hput k ▸ hleft k⟩

variable {m : SubsInd}

theorem subscribeRecord_delivers {r₀ : KpmlData} (hr : s.find r.key = some r₀)
    (hpersistent : m.request.isSome → r.persistent ≠ kpmlOneShot)
    (h : (s.subscribeRecord r false m).state.subscribed r.key = true) :
    (s.subscribeRecord r false m).delivered = r.queue.contents.map (Prod.mk r.key) ∧
      (s.subscribeRecord r false m).state.quarantined r.key = [] ∧
      (s.subscribeRecord r false m).fault = false := by
  rcases subscribeRecord_cases s r false m with herase | ⟨r₁, hkey, hqueue, hsame, -, hrequest, hdeliver⟩
  · rw [herase, subscribed_of_find_none (find_erase_self s r.key)] at h
    cases h
  · have hsome : m.request.isSome := hrequest.resolve_left Bool.false_ne_true
    have hput : (s.put r₁).find r.key = some r₁ := hkey ▸ find_put_self (by rw [hkey, hr])
    obtain ⟨r', hr', hnil, -, hdelivered, hfault⟩ := deliverLoop_all maxDialstring hput
      (by rw [hsame]; exact hpersistent hsome) (Nat.le_of_lt r₁.queue.length_lt)
    rw [hdeliver]
    refine ⟨?_, ?_, hfault⟩
    · rw [← hqueue]
      exact hdelivered
    · rw [kpmlUpdateQuarantinedDigits, quarantined_of_find hr', hnil]

theorem kpmlUpdateData_key (r : KpmlData) (q : Option KpmlRequest) :
    (r.kpmlUpdateData q).key = r.key ∧ (r.kpmlUpdateData q).queue = r.queue ∧
      (∀ q', q = some q' → (r.kpmlUpdateData q).persistent = q'.persist) := by
  cases q with
  | none => exact ⟨rfl, rfl, nofun⟩
  | some q =>
    refine ⟨rfl, rfl, ?_⟩
    rintro q' ⟨⟩
    rfl

theorem subscribeNew_cases (hnone : s.find m.key = none) : s.subscribeNew m = { state := s } ∨
      ∃ (s' : State) (r : KpmlData), s'.find m.key = some r ∧ r.key = m.key ∧ r.queue.contents = [] ∧
        (∀ q, m.request = some q → r.persistent = q.persist) ∧ (∀ k, k ≠ m.key → s'.find k = s.find k) ∧
        s.subscribeNew m = s'.subscribeRecord r false m := by
  rw [subscribeNew]
  split_ifs
  · refine .inr ⟨_, _, ?_, ?_, ?_, ?_, ?_, rfl⟩
    · have hkey := (kpmlUpdateData_key { line := m.lineId, callId := m.gsmId, kpmlId := s.gKpmlId + 1 } m.request).1
      have hself := find_appendNew_self (s := s) (r := fun id =>
        KpmlData.kpmlUpdateData { line := m.lineId, callId := m.gsmId, kpmlId := id } m.request)
        (by rw [hkey]; exact hnone)
      rwa [hkey] at hself
    · exact (kpmlUpdateData_key _ _).1
    · rw [(kpmlUpdateData_key _ _).2.1]
      exact CircularQueue.contents_eq_nil_iff.mpr rfl
    · exact (kpmlUpdateData_key _ _).2.2
    · intro k hk
      exact find_appendNew_of_ne (by rw [(kpmlUpdateData_key _ _).1]; exact hk.symm)
  · exact .inl rfl

/-- The record that a subscription is for, in the state in which it goes on: that of the call, or a new one. -/
structure Selects (s : State) (m : SubsInd) (s' : State) (r : KpmlData) (isEmptyResubscribe : Bool) : Prop where
  key : r.key = m.key
  found : ∃ r₀, s'.find r.key = some r₀ ∧ r.queue = r₀.queue
  others : ∀ k, k ≠ m.key → s'.find k = s.find k
  subset : ∀ k, s'.quarantined k ⊆ s.quarantined k
  unsubscribed : s.subscribed m.key = false → isEmptyResubscribe = false ∧
    r.queue.contents = s.quarantined m.key ∧ ∀ q, m.request = some q → r.persistent = q.persist

theorem subscribeNew_selects (hnone : s.find m.key = none) : s.subscribeNew m = { state := s } ∨
      ∃ s' r, s.Selects m s' r false ∧ s.subscribeNew m = s'.subscribeRecord r false m := by
  rcases subscribeNew_cases hnone with hsame | ⟨s', r, hr, hkey, hnil, hpersist, hothers, hnew⟩
  · exact .inl hsame
  · refine .inr ⟨s', r, ⟨hkey, ⟨r, hkey ▸ hr, rfl⟩, hothers, ?_, ?_⟩, hnew⟩
    · intro k
      by_cases hk : k = m.key
      · rw [hk, quarantined_of_find hr, hnil]
        exact List.nil_subset _
      · rw [quarantined_congr (hothers k hk)]
        exact List.Subset.refl _
    · intro _
      rw [quarantined_of_find_none hnone]
      exact ⟨rfl, hnil, hpersist⟩

/-- A subscription changes nothing, or it removes a record that it cannot replace, or a record is selected. -/
theorem kpmlReceiveSubscribe_cases (s : State) (m : SubsInd) :
    s.kpmlReceiveSubscribe m = { state := s } ∨ s.kpmlReceiveSubscribe m = { state := s.erase m.key } ∨
      ∃ s' r isEmptyResubscribe, s.Selects m s' r isEmptyResubscribe ∧
        s.kpmlReceiveSubscribe m = s'.subscribeRecord r isEmptyResubscribe m := by
  rw [kpmlReceiveSubscribe]
  by_cases hconfig : s.config = .none
  · exact .inl (by rw [if_pos hconfig])
  by_cases hline : m.lineId = 0 ∨ m.gsmId = 0
  · exact .inl (by rw [if_neg hconfig, if_pos hline])
  rw [if_neg hconfig, if_neg hline]
  cases hr : s.find m.key with
  | none =>
    rcases subscribeNew_selects hr with hsame | ⟨s', r, hselects, hnew⟩
    · exact .inl hsame
    · exact .inr (.inr ⟨s', r, false, hselects, hnew⟩)
  | some r =>
    have hkey := key_of_find hr
    dsimp only
    by_cases hpending : r.pendingSub = true
    · have hsubscribed : s.subscribed m.key ≠ false := by
        rw [subscribed, hr]
        simpa using hpending
      rw [if_pos hpending]
      split_ifs
      · exact .inr (.inr ⟨s, r, true, ⟨hkey, ⟨r, hkey ▸ hr, rfl⟩, fun _ _ => rfl, fun _ => List.Subset.refl _,
          fun h => absurd h hsubscribed⟩, rfl⟩)
      · -- the record is released, and a new one is made for the call
        rcases subscribeNew_selects (find_erase_self s m.key) with hsame | ⟨s', r', hselects, hnew⟩
        · exact .inr (.inl hsame)
        · exact .inr (.inr ⟨s', r', false, ⟨hselects.key, hselects.found,
            fun k hk => (hselects.others k hk).trans (find_erase_of_ne hk.symm),
            fun k => List.Subset.trans (hselects.subset k) (quarantined_erase_subset s m.key k),
            fun h => absurd h hsubscribed⟩, hnew⟩)
    · obtain ⟨hsame, hqueue, hpersist⟩ := kpmlUpdateData_key r m.request
      rw [if_neg hpending]
      exact .inr (.inr ⟨s, r.kpmlUpdateData m.request, false, ⟨hsame.trans hkey,
        ⟨r, by rw [hsame, hkey, hr], hqueue⟩, fun _ _ => rfl, fun _ => List.Subset.refl _,
        fun _ => ⟨rfl, by rw [hqueue, quarantined_of_find hr], hpersist⟩⟩, rfl⟩)

theorem find_kpmlReceiveSubscribe_of_ne {k : KpmlKey} (h : m.key ≠ k) :
    (s.kpmlReceiveSubscribe m).state.find k = s.find k := by
  rcases kpmlReceiveSubscribe_cases s m with hsame | herase | ⟨s', r, empty, hselects, hrecord⟩
  · rw [hsame]
  · rw [herase]
    exact find_erase_of_ne h
  · rw [hrecord, find_subscribeRecord_of_ne empty m (hselects.key ▸ h)]
    exact hselects.others k h.symm

theorem kpmlReceiveSubscribe_subset (s : State) (m : SubsInd) :
    (∀ e ∈ (s.kpmlReceiveSubscribe m).delivered, e.1 = m.key ∧ e.2 ∈ s.quarantined m.key) ∧
      ∀ k, (s.kpmlReceiveSubscribe m).state.quarantined k ⊆ s.quarantined k := by
  rcases kpmlReceiveSubscribe_cases s m with hsame | herase | ⟨s', r, empty, hselects, hrecord⟩
  · rw [hsame]
    exact ⟨fun e he => absurd he List.not_mem_nil, fun k => List.Subset.refl _⟩
  · rw [herase]
    exact ⟨fun e he => absurd he List.not_mem_nil, quarantined_erase_subset s m.key⟩
  · obtain ⟨r₀, hr₀, hqueue⟩ := hselects.found
    obtain ⟨hmem, hleft⟩ := subscribeRecord_subset empty m hr₀ hqueue
    rw [hrecord]
    refine ⟨fun e he => ?_, fun k => List.Subset.trans (hleft k) (hselects.subset k)⟩
    obtain ⟨hkey, hdigit⟩ := hmem e he
    rw [hselects.key] at hkey hdigit
    exact ⟨hkey, hselects.subset m.key hdigit⟩

/-- **A subscription that becomes active gets the digits of its call**, when it is not for one digit. -/
theorem kpmlReceiveSubscribe_delivers (hsubscribed : s.subscribed m.key = false)
    (hpersistent : ∀ q, m.request = some q → q.persist ≠ kpmlOneShot)
    (h : (s.kpmlReceiveSubscribe m).state.subscribed m.key = true) :
    (s.kpmlReceiveSubscribe m).delivered = (s.quarantined m.key).map (Prod.mk m.key) ∧
      (s.kpmlReceiveSubscribe m).state.quarantined m.key = [] ∧ (s.kpmlReceiveSubscribe m).fault = false := by
  rcases kpmlReceiveSubscribe_cases s m with hsame | herase | ⟨s', r, empty, hselects, hrecord⟩
  · rw [hsame] at h
    cases hsubscribed.symm.trans h
  · rw [herase, subscribed_of_find_none (find_erase_self s m.key)] at h
    cases h
  · obtain ⟨r₀, hr₀, -⟩ := hselects.found
    obtain ⟨rfl, hcontents, hpersist⟩ := hselects.unsubscribed hsubscribed
    rw [hrecord] at h ⊢
    rw [← hcontents, ← hselects.key]
    refine subscribeRecord_delivers hr₀ (fun hsome => ?_) (hselects.key ▸ h)
    obtain ⟨q, hq⟩ := Option.isSome_iff_exists.mp hsome
    rw [hpersist q hq]
    exact hpersistent q hq

/-! ## Operations -/

theorem find_kpmlFlushQuarantineBuffer_of_ne {k k' : KpmlKey} (h : k ≠ k') :
    (s.kpmlFlushQuarantineBuffer k).find k' = s.find k' := by
  rw [kpmlFlushQuarantineBuffer]
  by_cases hconfig : s.config = .none
  · rw [if_pos hconfig]
  rw [if_neg hconfig]
  cases s.find k with
  | none => rfl
  | some r =>
    dsimp only
    split_ifs
    · rfl
    · exact find_erase_of_ne h

theorem quarantined_kpmlFlushQuarantineBuffer_subset (s : State) (k k' : KpmlKey) :
    (s.kpmlFlushQuarantineBuffer k).quarantined k' ⊆ s.quarantined k' := by
  rw [kpmlFlushQuarantineBuffer]
  by_cases hconfig : s.config = .none
  · rw [if_pos hconfig]
    exact List.Subset.refl _
  rw [if_neg hconfig]
  cases s.find k with
  | none => exact List.Subset.refl _
  | some r =>
    dsimp only
    split_ifs
    · exact List.Subset.refl _
    · exact quarantined_erase_subset s k k'

theorem kpmlReceiveNotifyResponse_cases (s : State) (k : KpmlKey) (success timeout : Bool) :
    s.kpmlReceiveNotifyResponse k success timeout = { state := s } ∨
      s.kpmlReceiveNotifyResponse k success timeout = { state := s.erase k } ∨
      ∃ s' : State, (∀ k', k ≠ k' → s'.find k' = s.find k') ∧ (∀ k', s'.quarantined k' = s.quarantined k') ∧
        s.kpmlReceiveNotifyResponse k success timeout = s'.kpmlUpdateQuarantinedDigits k := by
  rw [kpmlReceiveNotifyResponse]
  cases hr : s.find k with
  | none => exact .inl rfl
  | some r =>
    have hkey := key_of_find hr
    dsimp only
    split_ifs
    · have hfound : s.find r.key = some r := by rw [hkey, hr]
      exact .inr (.inr ⟨s.put { r with lastDigBkspace := false }, fun k' hk => find_put_of_ne (hkey.trans_ne hk),
        quarantined_put (r := { r with lastDigBkspace := false }) hfound rfl, rfl⟩)
    · exact .inr (.inl rfl)
    · exact .inr (.inr ⟨s, fun _ _ => rfl, fun _ => rfl, rfl⟩)

end State

/-- The call that an operation is about, if there is one. -/
def KpmlOp.touches (s : State) : KpmlOp → Option KpmlKey
  | .configure _ => none
  | .quarantineDigits k _ _ | .flushQuarantineBuffer k | .setSubscriptionReject k _ | .updateDialedDigits k _
  | .receiveNotifyResponse k _ _ => some k
  | .receiveSubscribe m => some m.key
  | .terminateSubscription subId => (s.list.records.find? (·.subId = subId)).map KpmlData.key
  | .interDigitTimerEvent kpmlId | .subscriptionTimerEvent kpmlId =>
    (s.list.records.find? (·.kpmlId = kpmlId)).map KpmlData.key

namespace State

variable {s : State}

theorem find_of_mem {r : KpmlData} (h : r ∈ s.list.records) : s.find r.key = some r := Keyed.find?_eq s.list.nodup h rfl

/-- **An operation leaves the records of other calls as they are.** -/
theorem find_step {op : KpmlOp} {k : KpmlKey} (h : op.touches s ≠ some k) : (s.step op).state.find k = s.find k := by
  cases op with
  | configure config => rfl
  | quarantineDigits k' digit memory =>
    exact find_kpmlQuarantineDigits_of_ne digit memory fun hk => h (congrArg some hk)
  | flushQuarantineBuffer k' => exact find_kpmlFlushQuarantineBuffer_of_ne fun hk => h (congrArg some hk)
  | setSubscriptionReject k' memory =>
    exact find_kpmlSetSubscriptionReject_of_ne memory fun hk => h (congrArg some hk)
  | updateDialedDigits k' digit => exact find_kpmlUpdateDialedDigits_of_ne digit fun hk => h (congrArg some hk)
  | receiveSubscribe m => exact find_kpmlReceiveSubscribe_of_ne fun hk => h (congrArg some hk)
  | terminateSubscription subId =>
    show (s.kpmlTerminateSubscription subId).find k = _
    rw [kpmlTerminateSubscription]
    by_cases hnone : s.config = .none ∨ subId = -1
    · rw [if_pos hnone]
    rw [if_neg hnone]
    rw [KpmlOp.touches] at h
    cases hr : s.list.records.find? (·.subId = subId) with
    | none => rfl
    | some r =>
      rw [hr] at h
      exact find_erase_of_ne fun hk => h (congrArg some hk)
  | receiveNotifyResponse k' success timeout =>
    have hne : k' ≠ k := fun hk => h (congrArg some hk)
    rw [step]
    rcases kpmlReceiveNotifyResponse_cases s k' success timeout with hsame | herase | ⟨s', hothers, -, hdeliver⟩
    · rw [hsame]
    · rw [herase]
      exact find_erase_of_ne hne
    · rw [hdeliver]
      exact (find_deliverLoop_of_ne hne maxDialstring s').trans (hothers k hne)
  | interDigitTimerEvent kpmlId =>
    show (s.kpmlInterDigitTimerEvent kpmlId).find k = _
    rw [kpmlInterDigitTimerEvent]
    rw [KpmlOp.touches] at h
    cases hr : s.list.records.find? (·.kpmlId = kpmlId) with
    | none => rfl
    | some r =>
      rw [hr] at h
      exact find_kpmlClearData_of_ne fun hk => h (congrArg some hk)
  | subscriptionTimerEvent kpmlId =>
    show (s.kpmlSubscriptionTimerEvent kpmlId).find k = _
    rw [kpmlSubscriptionTimerEvent]
    rw [KpmlOp.touches] at h
    cases hr : s.list.records.find? (·.kpmlId = kpmlId) with
    | none => rfl
    | some r =>
      rw [hr] at h
      exact find_erase_of_ne fun hk => h (congrArg some hk)

theorem of_mem_delivered_step {op : KpmlOp} {e : Delivery} (h : e ∈ (s.step op).delivered) :
    op.touches s = some e.1 ∧ e.2 ∈ s.quarantined e.1 := by
  cases op with
  | receiveSubscribe m =>
    obtain ⟨hkey, hdigit⟩ := (kpmlReceiveSubscribe_subset s m).1 e h
    exact ⟨congrArg some hkey.symm, hkey ▸ hdigit⟩
  | receiveNotifyResponse k success timeout =>
    rw [step] at h
    rcases kpmlReceiveNotifyResponse_cases s k success timeout with hsame | herase | ⟨s', -, hsame, hdeliver⟩
    · rw [hsame] at h
      exact absurd h List.not_mem_nil
    · rw [herase] at h
      exact absurd h List.not_mem_nil
    · rw [hdeliver] at h
      obtain ⟨hkey, hdigit⟩ := (kpmlUpdateQuarantinedDigits_subset s' k).1 e h
      rw [hsame] at hdigit
      exact ⟨congrArg some hkey.symm, hkey ▸ hdigit⟩
  | _ => exact absurd h List.not_mem_nil

/-- A digit that is quarantined after an operation was so before, or it is the one that was quarantined. -/
theorem of_mem_quarantined_step {op : KpmlOp} {k : KpmlKey} {digit : Char}
    (h : digit ∈ (s.step op).state.quarantined k) :
    digit ∈ s.quarantined k ∨ ∃ memory, op = .quarantineDigits k digit memory := by
  by_cases htouches : op.touches s ≠ some k
  · rw [quarantined_congr (find_step htouches)] at h
    exact .inl h
  cases op with
  | configure config => exact .inl h
  | quarantineDigits k' digit' memory =>
    obtain rfl : k' = k := by simpa [KpmlOp.touches] using htouches
    change digit ∈ (s.kpmlQuarantineDigits k' digit' memory).quarantined k' at h
    by_cases hstores : s.stores k' memory
    · rw [(quarantined_kpmlQuarantineDigits digit' hstores).1] at h
      rcases List.mem_append.mp (List.mem_of_mem_drop h) with hold | hnew
      · exact .inl hold
      · exact .inr ⟨memory, by rw [List.mem_singleton.mp hnew]⟩
    · rw [kpmlQuarantineDigits_of_not_stores digit' hstores] at h
      exact .inl h
  | flushQuarantineBuffer k' => exact .inl (quarantined_kpmlFlushQuarantineBuffer_subset s k' k h)
  | setSubscriptionReject k' memory =>
    obtain rfl : k' = k := by simpa [KpmlOp.touches] using htouches
    exact .inl ((quarantined_kpmlSetSubscriptionReject s k' memory).1 ▸ h)
  | updateDialedDigits k' digit' => exact .inl (quarantined_kpmlUpdateDialedDigits_subset s k' digit' k h)
  | receiveSubscribe m => exact .inl ((kpmlReceiveSubscribe_subset s m).2 k h)
  | terminateSubscription subId =>
    change digit ∈ (s.kpmlTerminateSubscription subId).quarantined k at h
    rw [kpmlTerminateSubscription] at h
    by_cases hnone : s.config = .none ∨ subId = -1
    · rw [if_pos hnone] at h
      exact .inl h
    rw [if_neg hnone] at h
    cases hr : s.list.records.find? (·.subId = subId) with
    | none =>
      rw [hr] at h
      exact .inl h
    | some r =>
      rw [hr] at h
      exact .inl (quarantined_erase_subset s r.key k h)
  | receiveNotifyResponse k' success timeout =>
    rw [step] at h
    rcases kpmlReceiveNotifyResponse_cases s k' success timeout with hsame | herase | ⟨s', -, hsame, hdeliver⟩
    · rw [hsame] at h
      exact .inl h
    · rw [herase] at h
      exact .inl (quarantined_erase_subset s k' k h)
    · rw [hdeliver] at h
      exact .inl (hsame k ▸ (kpmlUpdateQuarantinedDigits_subset s' k').2 k h)
  | interDigitTimerEvent kpmlId =>
    change digit ∈ (s.kpmlInterDigitTimerEvent kpmlId).quarantined k at h
    rw [kpmlInterDigitTimerEvent] at h
    cases hr : s.list.records.find? (·.kpmlId = kpmlId) with
    | none =>
      rw [hr] at h
      exact .inl h
    | some r =>
      rw [hr] at h
      exact .inl (quarantined_kpmlClearData_subset (find_of_mem (List.mem_of_find?_eq_some hr)) rfl k h)
  | subscriptionTimerEvent kpmlId =>
    change digit ∈ (s.kpmlSubscriptionTimerEvent kpmlId).quarantined k at h
    rw [kpmlSubscriptionTimerEvent] at h
    cases hr : s.list.records.find? (·.kpmlId = kpmlId) with
    | none =>
      rw [hr] at h
      exact .inl h
    | some r =>
      rw [hr] at h
      exact .inl (quarantined_erase_subset s r.key k h)

/-- **A digit is only passed on for the call that it was quarantined for.** By induction on the operations: what is
passed on was quarantined at the start, or by one of them. -/
theorem of_mem_delivered_run {ops : List KpmlOp} {e : Delivery} (h : e ∈ (s.run ops).delivered) :
    e.2 ∈ s.quarantined e.1 ∨ ∃ memory, .quarantineDigits e.1 e.2 memory ∈ ops := by
  induction ops generalizing s with
  | nil => exact absurd h List.not_mem_nil
  | cons op ops ih =>
    rcases List.mem_append.mp h with hfirst | hrest
    · exact .inl (of_mem_delivered_step hfirst).2
    · rcases ih hrest with hlater | ⟨memory, hop⟩
      · rcases of_mem_quarantined_step hlater with hbefore | ⟨memory, hop⟩
        · exact .inl hbefore
        · exact .inr ⟨memory, hop ▸ List.mem_cons_self⟩
      · exact .inr ⟨memory, List.mem_cons_of_mem op hop⟩

end State

/-! ## Collecting digits -/

/-- An operation that leaves the digits of a call as they are while there is no subscription. It is about another
call, or it matches a digit, or makes a subscription be rejected, or finds no memory for a digit. -/
inductive KpmlOp.Spares (s : State) (k : KpmlKey) : KpmlOp → Prop
  | other {op} (h : op.touches s ≠ some k) : Spares s k op
  | updateDialedDigits (digit) : Spares s k (.updateDialedDigits k digit)
  | setSubscriptionReject (memory) : Spares s k (.setSubscriptionReject k memory)
  | noMemory {digit memory} (h : ¬s.stores k memory) : Spares s k (.quarantineDigits k digit memory)

/-- Operations that quarantine these digits for a call, among others that leave its digits as they are. -/
inductive Collects (k : KpmlKey) : State → List KpmlOp → List Char → Prop
  | done (s) : Collects k s [] []
  | quarantine {s digit memory ops digits} (hstores : s.stores k memory)
      (h : Collects k (s.step (.quarantineDigits k digit memory)).state ops digits) :
      Collects k s (.quarantineDigits k digit memory :: ops) (digit :: digits)
  | spare {s op ops digits} (hspares : op.Spares s k) (h : Collects k (s.step op).state ops digits) :
      Collects k s (op :: ops) digits

theorem KpmlOp.Spares.step {s : State} {k : KpmlKey} {op : KpmlOp} (h : op.Spares s k)
    (hsubscribed : s.subscribed k = false) :
    (s.step op).state.quarantined k = s.quarantined k ∧ (s.step op).state.subscribed k = false ∧
      ∀ e ∈ (s.step op).delivered, e.1 ≠ k := by
  cases h with
  | other h =>
    have hfind := State.find_step h
    refine ⟨State.quarantined_congr hfind, (State.subscribed_congr hfind).trans hsubscribed, fun e he hk => ?_⟩
    exact h ((State.of_mem_delivered_step he).1.trans (congrArg some hk))
  | updateDialedDigits digit =>
    rw [State.step, State.kpmlUpdateDialedDigits_of_not_subscribed digit hsubscribed]
    exact ⟨rfl, hsubscribed, fun e he => absurd he List.not_mem_nil⟩
  | setSubscriptionReject memory =>
    obtain ⟨hsame, hsub⟩ := State.quarantined_kpmlSetSubscriptionReject s k memory
    exact ⟨hsame, hsub.trans hsubscribed, fun e he => absurd he List.not_mem_nil⟩
  | noMemory h =>
    rw [State.step, State.kpmlQuarantineDigits_of_not_stores _ h]
    exact ⟨rfl, hsubscribed, fun e he => absurd he List.not_mem_nil⟩

/-- **The newest digits are quarantined.** By induction on the operations, behind the digits that are there. -/
theorem Collects.run {k : KpmlKey} {s : State} {ops : List KpmlOp} {digits : List Char} (h : Collects k s ops digits)
    (hsubscribed : s.subscribed k = false) :
    (s.run ops).state.quarantined k = CircularQueue.newest maxDialstring (s.quarantined k ++ digits) ∧
      (s.run ops).state.subscribed k = false ∧ ∀ e ∈ (s.run ops).delivered, e.1 ≠ k := by
  induction h with
  | done s =>
    refine ⟨?_, hsubscribed, fun e he => absurd he List.not_mem_nil⟩
    rw [List.append_nil, CircularQueue.newest_of_length_lt]
    · rfl
    · rw [State.quarantined]
      cases s.find k with
      | none => decide
      | some r => exact r.queue.length_contents ▸ r.queue.length_lt
  | @quarantine s digit memory ops digits hstores h ih =>
    obtain ⟨hpushed, hsame⟩ := State.quarantined_kpmlQuarantineDigits digit hstores
    obtain ⟨hquarantined, hsub, hdelivered⟩ := ih (hsame.trans hsubscribed)
    refine ⟨hquarantined.trans ?_, hsub, hdelivered⟩
    rw [State.step, hpushed, CircularQueue.newest_newest_append, List.append_assoc, List.singleton_append]
  | spare hspares h ih =>
    obtain ⟨hsame, hsub, hfirst⟩ := hspares.step hsubscribed
    obtain ⟨hquarantined, hsub', hdelivered⟩ := ih hsub
    rw [hsame] at hquarantined
    exact ⟨hquarantined, hsub', fun e he => (List.mem_append.mp he).elim (hfirst e) (hdelivered e)⟩

/-- **Quarantined digits are delivered once, in their order.** The digits of a call without a subscription are kept,
up to the newest 255, and none of them is passed on. A subscription that becomes active afterwards, and is not for one
digit, gets all that are kept, and leaves none. In any run, a call gets only digits that were quarantined for it. -/
theorem quarantined_digits_delivered {k : KpmlKey} {s : State} {ops : List KpmlOp} {digits : List Char}
    (hempty : s.quarantined k = []) (hsubscribed : s.subscribed k = false) (h : Collects k s ops digits) :
    (s.run ops).state.quarantined k = CircularQueue.newest maxDialstring digits ∧
      (∀ e ∈ (s.run ops).delivered, e.1 ≠ k) ∧
      (∀ m : SubsInd, m.key = k → (∀ q, m.request = some q → q.persist ≠ kpmlOneShot) →
        (((s.run ops).state.step (.receiveSubscribe m)).state.subscribed k = true) →
        ((s.run ops).state.step (.receiveSubscribe m)).delivered =
            (CircularQueue.newest maxDialstring digits).map (Prod.mk k) ∧
          ((s.run ops).state.step (.receiveSubscribe m)).state.quarantined k = [] ∧
          ((s.run ops).state.step (.receiveSubscribe m)).fault = false) ∧
      ∀ (all : List KpmlOp) (e : Delivery), e ∈ (({} : State).run all).delivered →
        ∃ memory, .quarantineDigits e.1 e.2 memory ∈ all := by
  obtain ⟨hquarantined, hsub, hdelivered⟩ := h.run hsubscribed
  rw [hempty, List.nil_append] at hquarantined
  refine ⟨hquarantined, hdelivered, ?_, fun all e he => ?_⟩
  · rintro m rfl hpersistent hactive
    rw [← hquarantined]
    exact State.kpmlReceiveSubscribe_delivers hsub hpersistent hactive
  · exact (State.of_mem_delivered_run he).resolve_left List.not_mem_nil

/-- Two digits of a call. -/
def fiveSix : List KpmlOp :=
  [.configure .both, .quarantineDigits (1, 1) '5' true, .quarantineDigits (1, 1) '6' true]

/-- A persistent subscription for every digit. -/
def persistentSub : SubsInd where
  lineId := 1
  gsmId := 1
  subId := 7
  subDuration := 3600
  request := some { persist := kpmlPersistent, regex := some (0xfff, false) }
  lsmState := .connected
  memory := true

theorem collects_fiveSix : Collects (1, 1) {} fiveSix ['5', '6'] :=
  .spare (.other nofun) (.quarantine ⟨nofun, .inr rfl⟩ (.quarantine ⟨nofun, .inr rfl⟩ (.done _)))

theorem quarantined_digits_delivered_fiveSix :
    ((({} : State).run fiveSix).state.step (.receiveSubscribe persistentSub)).delivered =
      [((1, 1), '5'), ((1, 1), '6')] :=
  ((quarantined_digits_delivered rfl rfl collects_fiveSix).2.2.1 persistentSub rfl
    (by rintro q ⟨⟩; decide) (by decide)).1

/-- No operation of a run is about the call. -/
def State.Untouched (k : KpmlKey) : State → List KpmlOp → Prop
  | _, [] => True
  | s, op :: ops => op.touches s ≠ some k ∧ Untouched k (s.step op).state ops

end Kpml
