import Ikran.Sip.Regmgr

/-!
# The roles of the call managers

A call manager is active, stands by, or has a fallback record; and a fallback record has a line of its own. The
roles are changed by failovers, by the failure of the standby, and by a fallback, whose steps do not follow each
other at once: another event in between finds tables that do not fit together.
-/

namespace Sip.Regmgr

namespace State

variable (s : State)

/-- The records that are allocated and not freed. -/
def live : List Fallback :=
  s.fallbacks ++ s.lost

def Consistent : Prop :=
  (∀ ccm, s.activeCcmEntry = some ccm → s.standbyCcmEntry ≠ some ccm) ∧
  (∀ ccm, (s.live.filter (·.ccb.entry = some ccm)).length ≤ 1) ∧
  (∀ ccm, s.activeCcmEntry = some ccm → s.line.state = .registered → ∀ r ∈ s.live, r.ccb.entry ≠ some ccm) ∧
  (∀ n, s.fallbackLinesAvailable n = false ↔ (s.live.filter (·.index = n)).length = 1) ∧
  Fault.freedRecord ∉ s.faults

/-- There is a record for a call manager. -/
def Has (ccm : CcmId) : Prop :=
  ∃ r ∈ s.fallbacks, r.ccb.entry = some ccm

/-- A call manager can be connected to after one has failed, whose connection is closed. -/
def connects (o : Outcomes) (failed ccm : CcmId) : Bool :=
  o.isValid ccm && (s.handles ccm && (ccm ≠ failed || o.connType failed = .udp) || o.connect ccm)

/-- The first call manager behind one that can be connected to has no record, and has not just failed. -/
def Finds (o : Outcomes) (active failed : CcmId) : Prop :=
  ∀ ccm, (after active).find? (s.connects o failed) = some ccm → ccm ≠ failed ∧ ¬s.Has ccm

/-- A failover of a CCB of the active call manager can record the failure and find a standby. -/
def FailsOver (o : Outcomes) (ccb : Ccb) : Prop :=
  ∀ ccm, ccb.entry = some ccm → s.activeCcmEntry = some ccm →
    s.fallbackCcbList ≠ none ∧ ∀ next, s.standbyCcmEntry = some next → s.Finds o next ccm

def LineFails (o : Outcomes) : Prop :=
  s.line.state = .registered ∨ s.line.state = .registering → s.FailsOver o s.line

/-- The backup fails in order: it is behind the active call manager. -/
def BackupFails (o : Outcomes) : Prop :=
  (s.backup.state = .registered ∨ s.backup.state = .registering → s.FailsOver o s.backup) ∧
  (s.backup.state = .unregistering → ∀ ccm, s.backup.entry = some ccm →
    s.fallbackCcbList ≠ none ∧ (∀ active, s.activeCcmEntry = some active → active < ccm) ∧ s.Finds o ccm ccm)

/-- A fallback finds the prime line at another call manager, which has no record. -/
def CleansUp (n : LineNum) : Prop :=
  ∀ r ∈ s.fallbacks, r.index = n → r.ccb.state = .tokenWait → ∀ old, s.line.entry = some old →
    r.ccb.entry ≠ some old ∧ ¬s.Has old

end State

/-- An event finds the tables as its handler expects them. -/
def Orderly (s : State) (ev : Event) (o : Outcomes) : Prop :=
  (∀ ccm, o.ccbMemory ccm) ∧
  match ev with
  | .init => s.fallbacks = [] ∧ s.standbyCcmEntry = none
  | .deliver =>
    match s.posted with
    | .timerExpiration _ ptr :: _ => ∃ r ∈ s.fallbacks, r.ptr = ptr
    | .reg .tmrRegRetry .line ccm :: _ => s.line.entry = some ccm ∧ o.retxExceeded → s.LineFails o
    | .reg .tmrRegRetry .backup ccm :: _ => s.backup.entry = some ccm ∧ o.retxExceeded → s.BackupFails o
    | .reg .regCleanup (.fallback n) _ :: _ => s.CleansUp n
    | _ => True
  | .tmrAck .line => s.LineFails o
  | .tmrAck .backup => s.BackupFails o
  | .backup2xx => ∀ ccm, s.newStandbyAvailable = some ccm → s.activeCcmEntry ≠ some ccm
  | .failoverRspStart => ∀ ccm, s.failoverCcmEntry = some ccm → s.standbyCcmEntry ≠ some ccm ∧ ¬s.Has ccm
  | .phoneIdle _ => ∀ ptr, s.fallbackCcb = some ptr → ∃ r ∈ s.fallbacks, r.ptr = ptr
  | _ => True

/-! ## The invariant -/

/-- The records have lines and call managers of their own. -/
structure Records (s : State) : Prop where
  indexNodup : (s.fallbacks.map (·.index)).Nodup
  entry : ∀ r ∈ s.fallbacks, ∀ r' ∈ s.fallbacks, ∀ ccm,
    r.ccb.entry = some ccm → r'.ccb.entry = some ccm → r = r'
  lines : ∀ n, s.fallbackLinesAvailable n = false ↔ ∃ r ∈ s.fallbacks, r.index = n
  lost : s.lost = []
  faults : Fault.freedRecord ∉ s.faults

/-- A call manager that is active or stands by has no record. -/
structure Roles (s : State) : Prop extends Records s where
  distinct : ∀ ccm, s.activeCcmEntry = some ccm → s.standbyCcmEntry ≠ some ccm
  active : ∀ ccm, s.Has ccm → s.activeCcmEntry ≠ some ccm
  standby : ∀ ccm, s.Has ccm → s.standbyCcmEntry ≠ some ccm

theorem length_filter_le_one {α : Type*} {p : α → Bool} {l : List α} (hnodup : l.Nodup)
    (h : ∀ a ∈ l, ∀ b ∈ l, p a → p b → a = b) : (l.filter p).length ≤ 1 := by
  have hsub : (l.filter p).Nodup := hnodup.filter p
  match hl : l.filter p with
  | [] => exact Nat.zero_le 1
  | [_] => exact Nat.le_refl 1
  | a :: b :: rest =>
    have ha : a ∈ l.filter p := hl ▸ List.mem_cons_self
    have hb : b ∈ l.filter p := hl ▸ List.mem_cons_of_mem _ List.mem_cons_self
    rw [List.mem_filter] at ha hb
    rw [hl, List.nodup_cons] at hsub
    exact absurd (h a ha.1 b hb.1 ha.2 hb.2 ▸ List.mem_cons_self) hsub.1

theorem Roles.toConsistent {s : State} (h : Roles s) : s.Consistent := by
  have hlive : s.live = s.fallbacks := by rw [State.live, h.lost, List.append_nil]
  have hnodup : s.fallbacks.Nodup := h.indexNodup.of_map
  rw [State.Consistent, hlive]
  refine ⟨h.distinct, fun ccm => ?_, fun ccm hactive _ r hr hentry => ?_, fun n => ?_, h.faults⟩
  · exact length_filter_le_one hnodup fun r hr r' hr' hp hp' =>
      h.entry r hr r' hr' ccm (by simpa using hp) (by simpa using hp')
  · exact h.active ccm ⟨r, hr, hentry⟩ hactive
  · have hone : (s.fallbacks.filter (·.index = n)).length ≤ 1 := length_filter_le_one hnodup fun r hr r' hr' hp hp' =>
        List.inj_on_of_nodup_map h.indexNodup hr hr' (by simp_all)
    rw [h.lines n]
    constructor
    · rintro ⟨r, hr, hindex⟩
      have hpos : 0 < (s.fallbacks.filter (·.index = n)).length :=
        List.length_pos_of_mem (List.mem_filter.2 ⟨hr, by simpa using hindex⟩)
      omega
    · intro hlen
      obtain ⟨r, hr⟩ := List.exists_mem_of_length_pos (hlen ▸ Nat.one_pos)
      rw [List.mem_filter] at hr
      exact ⟨r, hr.1, by simpa using hr.2⟩

/-- A change of a record that leaves its line, and its call manager or takes it away. -/
structure Fallback.Stays (f : Fallback → Fallback) : Prop where
  index : ∀ r, (f r).index = r.index
  entry : ∀ r ccm, (f r).ccb.entry = some ccm → r.ccb.entry = some ccm

open State

variable {o : Outcomes} {s s' : State} {n : LineNum} {ccm : CcmId} {f : Fallback → Fallback} {r : Fallback}

/-! ## The records -/

namespace Records

theorem same (h : Records s) (hlist : s'.fallbackCcbList = s.fallbackCcbList)
    (hlines : s'.fallbackLinesAvailable = s.fallbackLinesAvailable) (hlost : s'.lost = s.lost)
    (hfaults : s'.faults = s.faults) : Records s' := by
  have hfallbacks : s'.fallbacks = s.fallbacks := by rw [fallbacks, hlist, fallbacks]
  obtain ⟨hindex, hentry, hlinesOf, hlostOf, hfaultsOf⟩ := h
  exact ⟨hfallbacks ▸ hindex, hfallbacks ▸ hentry, hfallbacks ▸ hlines ▸ hlinesOf, hlost.trans hlostOf,
    hfaults ▸ hfaultsOf⟩

theorem modifyFallback (h : Records s) (hf : Fallback.Stays f) : Records (s.modifyFallback n f) := by
  have hindex : ∀ r : Fallback, (if r.index = n then f r else r).index = r.index := by
    intro r
    split
    · exact hf.index r
    · rfl
  have hentry : ∀ (r : Fallback) ccm, (if r.index = n then f r else r).ccb.entry = some ccm →
      r.ccb.entry = some ccm := by
    intro r ccm heq
    split at heq
    · exact hf.entry r ccm heq
    · exact heq
  refine ⟨?_, ?_, fun m => ?_, h.lost, h.faults⟩
  · rw [fallbacks_modifyFallback, List.map_map]
    refine (List.map_congr_left fun r _ => hindex r) ▸ h.indexNodup
  · intro r hr r' hr' ccm heq heq'
    obtain ⟨r₀, hr₀, rfl⟩ := mem_modifyFallback.1 hr
    obtain ⟨r₁, hr₁, rfl⟩ := mem_modifyFallback.1 hr'
    rw [h.entry r₀ hr₀ r₁ hr₁ ccm (hentry _ _ heq) (hentry _ _ heq')]
  · refine (h.lines m).trans ⟨?_, ?_⟩
    · rintro ⟨r, hr, rfl⟩
      exact ⟨_, mem_modifyFallback.2 ⟨r, hr, rfl⟩, hindex r⟩
    · rintro ⟨r, hr, rfl⟩
      obtain ⟨r₀, hr₀, rfl⟩ := mem_modifyFallback.1 hr
      exact ⟨r₀, hr₀, (hindex r₀).symm⟩

theorem freeFallbackCcb (h : Records s) : Records (s.freeFallbackCcb n) := by
  have hmem : ∀ r, r ∈ (s.freeFallbackCcb n).fallbacks ↔ r ∈ s.fallbacks ∧ r.index ≠ n := by
    intro r
    rw [fallbacks_freeFallbackCcb, List.mem_filter]
    simp
  have hrest : (s.freeFallbackCcb n).lost = s.lost ∧ (s.freeFallbackCcb n).faults = s.faults ∧
      ∀ m, (s.freeFallbackCcb n).fallbackLinesAvailable m = false ↔ m ≠ n ∧ s.fallbackLinesAvailable m = false := by
    unfold State.freeFallbackCcb
    split
    · next hnone =>
      refine ⟨rfl, rfl, fun m => ⟨fun hm => ⟨?_, hm⟩, And.right⟩⟩
      rintro rfl
      obtain ⟨r, hr, hindex⟩ := (h.lines m).1 hm
      exact getFallbackCcbByIndex_eq_none hnone r hr hindex
    · refine ⟨rfl, rfl, fun m => ?_⟩
      by_cases hm : m = n
      · subst hm
        simp [setFallbackLine]
      · simp [setFallbackLine, hm]
  obtain ⟨hlost, hfaults, hlines⟩ := hrest
  refine ⟨?_, fun r hr r' hr' => h.entry r ((hmem r).1 hr).1 r' ((hmem r').1 hr').1, fun m => ?_,
    hlost.trans h.lost, hfaults ▸ h.faults⟩
  · rw [fallbacks_freeFallbackCcb]
    exact h.indexNodup.sublist (List.filter_sublist.map _)
  · rw [hlines, h.lines]
    constructor
    · rintro ⟨hm, r, hr, rfl⟩
      exact ⟨r, (hmem r).2 ⟨hr, hm⟩, rfl⟩
    · rintro ⟨r, hr, rfl⟩
      exact ⟨((hmem r).1 hr).2, r, ((hmem r).1 hr).1, rfl⟩

theorem freeFallbackCcbList (h : Records s) : Records s.freeFallbackCcbList := by
  refine ⟨List.nodup_nil, fun _ hr => absurd hr List.not_mem_nil, fun n => ?_, h.lost, h.faults⟩
  constructor
  · intro hn
    simp only [State.freeFallbackCcbList, Bool.or_eq_false_iff, List.any_eq_false] at hn
    obtain ⟨r, hr, hindex⟩ := (h.lines n).1 hn.1
    exact absurd (by simpa using hindex) (hn.2 r hr)
  · rintro ⟨_, hr, _⟩
    exact absurd hr List.not_mem_nil

theorem stays_startMonitor : Fallback.Stays (s.startMonitor o) := by
  constructor
  · intro r
    unfold startMonitor
    split
    · dsimp only
      split
      · rfl
      · split <;> rfl
    · rfl
  · intro r ccm heq
    unfold startMonitor at heq
    split at heq
    · dsimp only at heq
      split at heq
      · exact heq
      · split at heq <;> exact heq
    · exact heq

theorem triggerFallbackMonitor (h : Records s) : Records (s.triggerFallbackMonitor o) := by
  have hstays : Fallback.Stays (s.startMonitor o) := stays_startMonitor
  have hfallbacks := fallbacks_triggerFallbackMonitor (s := s) (o := o)
  refine ⟨?_, ?_, fun m => ?_, h.lost, h.faults⟩
  · rw [hfallbacks, List.map_map]
    exact (List.map_congr_left fun r _ => hstays.index r) ▸ h.indexNodup
  · intro r hr r' hr' ccm heq heq'
    rw [hfallbacks] at hr hr'
    obtain ⟨r₀, hr₀, rfl⟩ := List.mem_map.1 hr
    obtain ⟨r₁, hr₁, rfl⟩ := List.mem_map.1 hr'
    rw [h.entry r₀ hr₀ r₁ hr₁ ccm (hstays.entry _ _ heq) (hstays.entry _ _ heq')]
  · rw [hfallbacks]
    refine (h.lines m).trans ⟨?_, ?_⟩
    · rintro ⟨r, hr, rfl⟩
      exact ⟨_, List.mem_map_of_mem hr, hstays.index r⟩
    · rintro ⟨r, hr, rfl⟩
      obtain ⟨r₀, hr₀, rfl⟩ := List.mem_map.1 hr
      exact ⟨r₀, hr₀, (hstays.index r₀).symm⟩

theorem createFallbackCcb_cases (hmemory : o.ccbMemory ccm) (hlist : s.fallbackCcbList ≠ none) :
    s.createFallbackCcb o ccm = s ∨ ∃ r : Fallback, r.ccb.entry = some ccm ∧ s.fallbackLinesAvailable r.index = true ∧
        (∀ r' ∈ s.fallbacks, r'.ccb.entry ≠ some ccm) ∧
        s.createFallbackCcb o ccm = { s.setFallbackLine r.index false with
            allocated := s.allocated + 1
            fallbackCcbList := some (s.fallbacks ++ [r]) } := by
  unfold State.createFallbackCcb
  split
  · exact .inl rfl
  · next hnone =>
    split
    · exact .inl rfl
    · next n hn =>
      rw [hmemory]
      simp only [Bool.true_eq_false, if_false]
      split
      · exact .inl rfl
      · obtain ⟨l, hl⟩ := Option.ne_none_iff_exists'.1 hlist
        have hfallbacks : s.fallbacks = l := by rw [fallbacks, hl, Option.getD_some]
        refine .inr ⟨{ ptr := s.allocated, index := n, ccb := { entry := some ccm, state := .preFallback } }, rfl,
          List.find?_some hn, ?_, ?_⟩
        · simpa [findFallbackCcbByCcmid] using hnone
        · simp [setFallbackLine, hl, hfallbacks]

theorem createFallbackCcb (h : Records s) (hmemory : o.ccbMemory ccm) (hlist : s.fallbackCcbList ≠ none) :
    Records (s.createFallbackCcb o ccm) := by
  obtain heq | ⟨r, hentry, havailable, hnone, heq⟩ := createFallbackCcb_cases hmemory hlist
  · rw [heq]
    exact h
  · have hindex : ∀ r' ∈ s.fallbacks, r'.index ≠ r.index := by
      intro r' hr' hindex
      have hused := (h.lines r.index).2 ⟨r', hr', hindex⟩
      simp [havailable] at hused
    have hmem : ∀ r', r' ∈ s.fallbacks ++ [r] ↔ r' ∈ s.fallbacks ∨ r' = r := by simp
    rw [heq]
    refine ⟨?_, fun r₀ hr₀ r₁ hr₁ ccm' h₀ h₁ => ?_, fun n => ?_, h.lost, h.faults⟩
    · simp only [fallbacks, Option.getD_some, List.map_append, List.map_cons, List.map_nil]
      refine h.indexNodup.append (List.nodup_singleton _) ?_
      simpa [List.Disjoint] using hindex
    · rcases (hmem r₀).1 hr₀ with hold₀ | rfl <;> rcases (hmem r₁).1 hr₁ with hold₁ | rfl
      · exact h.entry r₀ hold₀ r₁ hold₁ ccm' h₀ h₁
      · exact absurd (h₀.trans (h₁.symm.trans hentry)) (hnone r₀ hold₀)
      · exact absurd (h₁.trans (h₀.symm.trans hentry)) (hnone r₁ hold₁)
      · rfl
    · show Function.update s.fallbackLinesAvailable r.index false n = false ↔ ∃ r' ∈ s.fallbacks ++ [r], r'.index = n
      simp only [hmem]
      by_cases hn : n = r.index
      · subst hn
        simp
      · rw [Function.update_of_ne hn, h.lines n]
        constructor
        · rintro ⟨r', hr', rfl⟩
          exact ⟨r', .inl hr', rfl⟩
        · rintro ⟨r', hr' | rfl, rfl⟩
          · exact ⟨r', hr', rfl⟩
          · exact absurd rfl hn

end Records

/-! ## The search for a standby -/

/-- A call manager has an address and a connection, or one can be made. -/
def State.reaches (s : State) (o : Outcomes) (ccm : CcmId) : Bool :=
  o.isValid ccm && (s.handles ccm || o.connect ccm)

/-- The records may grow by those of some call managers. -/
structure Grows (s : State) (p : CcmId → Prop) (s' : State) : Prop extends Records s' where
  list : s'.fallbackCcbList ≠ none
  has : ∀ ccm, s'.Has ccm → s.Has ccm ∨ p ccm
  active : s'.activeCcmEntry = s.activeCcmEntry

namespace Grows

variable {p q : CcmId → Prop}

theorem trans {s'' : State} (h : Grows s p s') (h' : Grows s' q s'') (hp : ∀ ccm, p ccm → q ccm) : Grows s q s'' := by
  refine ⟨h'.toRecords, h'.list, fun ccm hhas => ?_, h'.active.trans h.active⟩
  rcases h'.has ccm hhas with hhas | hq
  · exact (h.has ccm hhas).imp_right (hp ccm)
  · exact .inr hq

theorem mono (h : Grows s p s') (hp : ∀ ccm, p ccm → q ccm) : Grows s q s' :=
  { h with has := fun ccm hhas => (h.has ccm hhas).imp_right (hp ccm) }

theorem createFallbackCcb (h : Records s) (hmemory : o.ccbMemory ccm) (hlist : s.fallbackCcbList ≠ none) :
    Grows s (· = ccm) (s.createFallbackCcb o ccm) := by
  have hrecords := h.createFallbackCcb hmemory hlist
  obtain heq | ⟨r, hentry, -, -, heq⟩ := Records.createFallbackCcb_cases hmemory hlist <;> rw [heq] at hrecords ⊢
  · exact ⟨hrecords, hlist, fun _ hhas => .inl hhas, rfl⟩
  · refine ⟨hrecords, Option.some_ne_none _, fun ccm' hhas => ?_, rfl⟩
    obtain ⟨r', hr', hentry'⟩ := hhas
    rcases List.mem_append.1 hr' with hr' | hr'
    · exact .inl ⟨r', hr', hentry'⟩
    · rw [List.mem_singleton.1 hr', hentry] at hentry'
      exact .inr (Option.some.inj hentry').symm

end Grows

theorem rest_createFallbackCcb : (s.createFallbackCcb o ccm).handles = s.handles ∧
    (s.createFallbackCcb o ccm).standbyCcmEntry = s.standbyCcmEntry := by
  unfold createFallbackCcb
  split
  · exact ⟨rfl, rfl⟩
  · split
    · exact ⟨rfl, rfl⟩
    · split
      · exact ⟨rfl, rfl⟩
      · split
        · exact ⟨rfl, rfl⟩
        · dsimp only
          split <;> exact ⟨rfl, rfl⟩

theorem reaches_createFallbackCcb : (s.createFallbackCcb o ccm).reaches o = s.reaches o := by
  funext ccm'
  rw [reaches, rest_createFallbackCcb.1, reaches]

theorem fst_searchStandby (ccms : List CcmId) (s : State) : (searchStandby o ccms s).1 = ccms.find? (s.reaches o) := by
  induction ccms generalizing s with
  | nil => rfl
  | cons ccm ccms ih =>
    rw [searchStandby, List.find?_cons]
    split
    · next hvalid => rw [ih s, reaches, hvalid, Bool.false_and]
    · next hvalid =>
      split
      · next hreached =>
        have hreaches : s.reaches o ccm = true := by simpa [reaches, hvalid] using hreached
        rw [hreaches]
      · next hreached =>
        have hreaches : s.reaches o ccm = false := by simpa [reaches, hvalid] using hreached
        rw [ih, hreaches, reaches_createFallbackCcb]

theorem standbyCcmEntry_searchStandby (ccms : List CcmId) (s : State) :
    (searchStandby o ccms s).2.standbyCcmEntry = (ccms.find? (s.reaches o)).or s.standbyCcmEntry := by
  rw [← fst_searchStandby]
  induction ccms generalizing s with
  | nil => rfl
  | cons ccm ccms ih =>
    rw [searchStandby]
    split
    · exact ih s
    · split
      · rfl
      · rw [ih, rest_createFallbackCcb.2]

theorem Grows.searchStandby (ccms : List CcmId) (h : Records s) (hmemory : ∀ ccm, o.ccbMemory ccm)
    (hlist : s.fallbackCcbList ≠ none) :
    Grows s (fun ccm => ccm ∈ ccms ∧ s.reaches o ccm = false) (State.searchStandby o ccms s).2 := by
  induction ccms generalizing s with
  | nil => exact ⟨h, hlist, fun _ hhas => .inl hhas, rfl⟩
  | cons ccm ccms ih =>
    rw [State.searchStandby]
    split
    · exact (ih h hlist).mono fun _ hp => ⟨List.mem_cons_of_mem _ hp.1, hp.2⟩
    · next hvalid =>
      split
      · exact ⟨h.same rfl rfl rfl rfl, hlist, fun _ hhas => .inl hhas, rfl⟩
      · next hreached =>
        have hreaches : s.reaches o ccm = false := by simpa [reaches, hvalid] using hreached
        have hcreate := Grows.createFallbackCcb h (hmemory ccm) hlist
        have hrest := ih hcreate.toRecords hcreate.list
        rw [reaches_createFallbackCcb] at hrest
        refine (hcreate.mono fun ccm' heq => ?_).trans (hrest.mono fun ccm' hp => ?_) fun _ hp => hp
        · rw [heq]
          exact ⟨List.mem_cons_self, hreaches⟩
        · exact ⟨List.mem_cons_of_mem _ hp.1, hp.2⟩

/-- What a search leaves: neither the active call manager nor the standby that was found has a record. -/
structure Searched (s : State) (result : Option CcmId) (s' : State) : Prop extends Records s' where
  active : ∀ ccm, s'.activeCcmEntry = some ccm → ¬s'.Has ccm
  found : ∀ ccm, result = some ccm →
    s'.standbyCcmEntry = some ccm ∧ s'.activeCcmEntry ≠ some ccm ∧ ¬s'.Has ccm
  standby : result = none → s'.standbyCcmEntry = s.standbyCcmEntry

theorem Searched.findStandby (ccm : CcmId) (h : Records s) (hmemory : ∀ ccm, o.ccbMemory ccm)
    (hlist : s.fallbackCcbList ≠ none)
    (hactive : ∀ active, s.activeCcmEntry = some active → ¬s.Has active ∧ active ∉ after ccm)
    (hfinds : ∀ found, (after ccm).find? (s.reaches o) = some found → ¬s.Has found) :
    Searched s (s.findStandby o ccm).1 (s.findStandby o ccm).2 := by
  have hgrows := Grows.searchStandby (after ccm) h hmemory hlist
  have hfst := fst_searchStandby (o := o) (after ccm) s
  have hstandby := standbyCcmEntry_searchStandby (o := o) (after ccm) s
  have hnone : ∀ active, (State.searchStandby o (after ccm) s).2.activeCcmEntry = some active →
      ¬(State.searchStandby o (after ccm) s).2.Has active := by
    intro active heq hhas
    obtain ⟨hold, hafter⟩ := hactive active (hgrows.active ▸ heq)
    rcases hgrows.has active hhas with hhas | hnew
    · exact hold hhas
    · exact hafter hnew.1
  unfold State.findStandby
  split
  · next s' heq =>
    rw [heq] at hgrows hfst hstandby hnone
    refine ⟨hgrows.toRecords.same rfl rfl rfl rfl, hnone, fun _ hfound => (nomatch hfound), fun _ => ?_⟩
    rw [← hfst] at hstandby
    exact hstandby
  · next found hfound =>
    refine ⟨hgrows.toRecords, hnone, fun ccm' heq => ⟨?_, fun hact => ?_, fun hhas => ?_⟩, fun heq => ?_⟩
    · rw [hstandby, ← hfst, heq, Option.some_or]
    · exact (hactive ccm' (hgrows.active ▸ hact)).2 (List.mem_of_find?_eq_some (hfst ▸ heq))
    · have hfind : (after ccm).find? (s.reaches o) = some ccm' := hfst ▸ heq
      rcases hgrows.has ccm' hhas with hhas | hnew
      · exact hfinds ccm' hfind hhas
      · exact absurd (List.find?_some hfind) (by simp [hnew.2])
    · rw [hstandby, ← hfst, heq, Option.none_or]

/-! ## The roles -/

namespace State

def roleView (s : State) :
    Option (List Fallback) × (LineNum → Bool) × List Fallback × List Fault × Option CcmId × Option CcmId :=
  (s.fallbackCcbList, s.fallbackLinesAvailable, s.lost, s.faults, s.activeCcmEntry, s.standbyCcmEntry)

/-- The standby of a failover has become the active call manager. -/
def promote (s : State) (next : CcmId) : State :=
  { s with activeCcmEntry := some next, standbyCcmEntry := none }

theorem roleView_registerSendMsg {cmd : Cmd} {ndx : CcbIndex} :
    (s.registerSendMsg o cmd ndx).roleView = s.roleView := by
  unfold registerSendMsg
  split
  · rfl
  · split <;> rfl

theorem roleView_setupNewStandbyCcb (h : s.standbyCcmEntry = some ccm) :
    (s.setupNewStandbyCcb ccm).roleView = s.roleView := by
  simp [roleView, setupNewStandbyCcb, h]

theorem roleView_registerPrime : s.registerPrime.roleView = s.roleView := by
  unfold registerPrime
  split
  · rfl
  · next heq => exact roleView_setupNewStandbyCcb heq

theorem roleView_registerLines : s.registerLines.roleView = s.roleView := by
  unfold registerLines
  split
  · rfl
  · exact roleView_registerPrime

theorem roleView_registerAllLines : (s.registerAllLines o).roleView = s.roleView := by
  unfold registerAllLines
  split
  · exact roleView_registerPrime
  · rfl

end State

namespace Roles

theorem of (h : Roles s) (hrecords : Records s') (hhas : ∀ ccm, s'.Has ccm → s.Has ccm)
    (hactive : s'.activeCcmEntry = s.activeCcmEntry) (hstandby : s'.standbyCcmEntry = s.standbyCcmEntry) :
    Roles s' where
  toRecords := hrecords
  distinct := by
    rw [hactive, hstandby]
    exact h.distinct
  active ccm hccm := hactive ▸ h.active ccm (hhas ccm hccm)
  standby ccm hccm := hstandby ▸ h.standby ccm (hhas ccm hccm)

theorem same (h : Roles s) (heq : s'.roleView = s.roleView) : Roles s' := by
  simp only [roleView, Prod.mk.injEq] at heq
  obtain ⟨hlist, hlines, hlost, hfaults, hactive, hstandby⟩ := heq
  refine h.of (h.toRecords.same hlist hlines hlost hfaults) (fun ccm hhas => ?_) hactive hstandby
  rw [Has, fallbacks, hlist] at hhas
  exact hhas

theorem registerSendMsg (h : Roles s) {cmd : Cmd} {ndx : CcbIndex} : Roles (s.registerSendMsg o cmd ndx) :=
  h.same roleView_registerSendMsg

theorem change (h : Records s) (hlist : s'.fallbackCcbList = s.fallbackCcbList)
    (hlines : s'.fallbackLinesAvailable = s.fallbackLinesAvailable) (hlost : s'.lost = s.lost)
    (hfaults : s'.faults = s.faults)
    (hactive : ∀ ccm, s'.activeCcmEntry = some ccm → s'.standbyCcmEntry ≠ some ccm ∧ ¬s.Has ccm)
    (hstandby : ∀ ccm, s'.standbyCcmEntry = some ccm → ¬s.Has ccm) : Roles s' where
  toRecords := h.same hlist hlines hlost hfaults
  distinct ccm hccm := (hactive ccm hccm).1
  active ccm hhas hccm := by
    rw [Has, fallbacks, hlist] at hhas
    exact (hactive ccm hccm).2 hhas
  standby ccm hhas hccm := by
    rw [Has, fallbacks, hlist] at hhas
    exact hstandby ccm hccm hhas

theorem modifyFallback (h : Roles s) (hf : Fallback.Stays f) : Roles (s.modifyFallback n f) := by
  refine h.of (h.toRecords.modifyFallback hf) (fun ccm hhas => ?_) rfl rfl
  obtain ⟨r, hr, hentry⟩ := hhas
  obtain ⟨r₀, hr₀, rfl⟩ := mem_modifyFallback.1 hr
  split at hentry
  · exact ⟨r₀, hr₀, hf.entry r₀ ccm hentry⟩
  · exact ⟨r₀, hr₀, hentry⟩

theorem entries_freeFallbackCcb : (s.freeFallbackCcb n).activeCcmEntry = s.activeCcmEntry ∧
    (s.freeFallbackCcb n).standbyCcmEntry = s.standbyCcmEntry := by
  unfold State.freeFallbackCcb
  split <;> exact ⟨rfl, rfl⟩

theorem freeFallbackCcb (h : Roles s) : Roles (s.freeFallbackCcb n) := by
  refine h.of h.toRecords.freeFallbackCcb (fun ccm hhas => ?_) entries_freeFallbackCcb.1 entries_freeFallbackCcb.2
  obtain ⟨r, hr, hentry⟩ := hhas
  rw [fallbacks_freeFallbackCcb] at hr
  exact ⟨r, (List.mem_filter.1 hr).1, hentry⟩

theorem has_freeFallbackCcb (h : Records s) (hr : r ∈ s.fallbacks) (hindex : r.index = n)
    (hhas : (s.freeFallbackCcb n).Has ccm) : s.Has ccm ∧ r.ccb.entry ≠ some ccm := by
  obtain ⟨r', hr', hentry'⟩ := hhas
  rw [fallbacks_freeFallbackCcb, List.mem_filter] at hr'
  obtain ⟨hr', hother⟩ := hr'
  refine ⟨⟨r', hr', hentry'⟩, fun hentry => ?_⟩
  rw [h.entry r' hr' r hr ccm hentry' hentry, hindex] at hother
  simp at hother

theorem freeFallbackCcbList (h : Records s)
    (hdistinct : ∀ ccm, s.activeCcmEntry = some ccm → s.standbyCcmEntry ≠ some ccm) :
    Roles s.freeFallbackCcbList := by
  have hnone : ∀ ccm, ¬s.freeFallbackCcbList.Has ccm := fun _ ⟨_, hr, _⟩ => absurd hr List.not_mem_nil
  exact ⟨h.freeFallbackCcbList, hdistinct, fun ccm hhas => absurd hhas (hnone ccm),
    fun ccm hhas => absurd hhas (hnone ccm)⟩

theorem triggerFallbackMonitor (h : Roles s) : Roles (s.triggerFallbackMonitor o) := by
  refine h.of h.toRecords.triggerFallbackMonitor (fun ccm hhas => ?_) rfl rfl
  obtain ⟨r, hr, hentry⟩ := hhas
  rw [fallbacks_triggerFallbackMonitor] at hr
  obtain ⟨r₀, hr₀, rfl⟩ := List.mem_map.1 hr
  exact ⟨r₀, hr₀, Records.stays_startMonitor.entry r₀ ccm hentry⟩

/-! ### Failovers -/

theorem reaches_giveUp : (s.giveUp o ccm).reaches o = s.connects o ccm := by
  funext ccm'
  unfold giveUp reaches connects
  rw [rest_createFallbackCcb.1]
  split
  · next hudp => simp [hudp]
  · next hudp =>
    by_cases heq : ccm' = ccm
    · subst heq
      simp [setHandle, hudp]
    · simp [setHandle, heq]

theorem grows_giveUp (h : Records s) (hmemory : o.ccbMemory ccm) (hlist : s.fallbackCcbList ≠ none) :
    Grows s (· = ccm) (s.giveUp o ccm) ∧ (s.giveUp o ccm).standbyCcmEntry = s.standbyCcmEntry := by
  unfold State.giveUp
  split
  · exact ⟨Grows.createFallbackCcb h hmemory hlist, rest_createFallbackCcb.2⟩
  · have hclosed : Records (s.setHandle ccm false) := h.same rfl rfl rfl rfl
    have hgrows := Grows.createFallbackCcb (o := o) hclosed hmemory hlist
    exact ⟨{ hgrows with }, rest_createFallbackCcb.2⟩

theorem of_searched {result : Option CcmId} (h : Searched s result s') (hnone : s.standbyCcmEntry = none) :
    Roles s' := by
  have hstandby : ∀ ccm, s'.standbyCcmEntry = some ccm → s'.activeCcmEntry ≠ some ccm ∧ ¬s'.Has ccm := by
    intro ccm heq
    cases hresult : result with
    | none =>
      rw [h.standby hresult, hnone] at heq
      exact nomatch heq
    | some found =>
      obtain ⟨hfound, hne, hhas⟩ := h.found found hresult
      obtain rfl : found = ccm := Option.some.inj (hfound.symm.trans heq)
      exact ⟨hne, hhas⟩
  exact change h.toRecords rfl rfl rfl rfl
    (fun ccm hactive => ⟨fun heq => (hstandby ccm heq).1 hactive, h.active ccm hactive⟩)
    fun ccm heq => (hstandby ccm heq).2

theorem failover (h : Roles s) (hmemory : ∀ ccm, o.ccbMemory ccm) {ccb : Ccb} (hfails : s.FailsOver o ccb) :
    Roles (s.failover o ccb) := by
  unfold State.failover
  split
  · exact h
  · next hentry =>
    rw [not_not] at hentry
    cases hccm : ccb.entry with
    | none => exact freeFallbackCcbList h.toRecords h.distinct
    | some failed =>
      have hactive : s.activeCcmEntry = some failed := hentry.symm.trans hccm
      obtain ⟨hlist, hfinds⟩ := hfails failed hccm hactive
      obtain ⟨hgrows, hstandby⟩ := grows_giveUp (o := o) h.toRecords (hmemory failed) hlist
      cases hnext : s.standbyCcmEntry with
      | none =>
        have heq : s.ccmGetNextActive o (some failed) = (none, { s.giveUp o failed with activeCcmEntry := none }) := by
          simp only [State.ccmGetNextActive, hstandby, hnext]
        rw [heq]
        exact freeFallbackCcbList (hgrows.toRecords.same rfl rfl rfl rfl) fun _ hnone => nomatch hnone
      | some next =>
        have heq : s.ccmGetNextActive o (some failed) =
            (some next, (((s.giveUp o failed).promote next).findStandby o next).2) := by
          simp only [State.ccmGetNextActive, hstandby, hnext]
          rfl
        have hpromoted : Records ((s.giveUp o failed).promote next) := hgrows.toRecords.same rfl rfl rfl rfl
        have hsearched := Searched.findStandby (o := o) next hpromoted hmemory hgrows.list
          (fun active hact => ?_) fun found hfound hhas => ?_
        · have hroles := of_searched hsearched rfl
          rw [heq]
          dsimp only
          split
          · exact hroles.same rfl
          · next standby hst => exact Roles.same hroles (roleView_setupNewStandbyCcb hst)
        · -- the old standby had no record, and is not the call manager that has failed
          obtain rfl : next = active := Option.some.inj hact
          refine ⟨fun hhas => ?_, by simp [after]⟩
          rcases hgrows.has next hhas with hhas | rfl
          · exact h.standby next hhas hnext
          · exact h.distinct next hactive hnext
        · have hreaches : ((s.giveUp o failed).promote next).reaches o = s.connects o failed := reaches_giveUp
          obtain ⟨hne, hnone⟩ := hfinds next hnext found (hreaches ▸ hfound)
          rcases hgrows.has found hhas with hhas | heq
          · exact hnone hhas
          · exact hne heq

theorem lineTmrAckRetry (h : Roles s) (hmemory : ∀ ccm, o.ccbMemory ccm) (hfails : s.LineFails o) :
    Roles (s.lineTmrAckRetry o) := by
  unfold State.lineTmrAckRetry
  split
  · next hstate => exact h.failover hmemory (hfails (.inl hstate))
  · next hstate => exact h.failover hmemory (hfails (.inr hstate))
  · exact h.same rfl
  · exact h

theorem backupTmrAckRetry (h : Roles s) (hmemory : ∀ ccm, o.ccbMemory ccm) (hfails : s.BackupFails o) :
    Roles (s.backupTmrAckRetry o) := by
  obtain ⟨hfailover, hsearch⟩ := hfails
  unfold State.backupTmrAckRetry
  split
  · next hstate => exact h.failover hmemory (hfailover (.inl hstate))
  · next hstate => exact h.failover hmemory (hfailover (.inr hstate))
  · next hstate =>
    cases hccm : s.backup.entry with
    | none =>
      -- there is no call manager to search behind
      refine triggerFallbackMonitor (change h.toRecords rfl rfl rfl rfl (fun ccm hactive => ?_) ?_)
      · exact ⟨fun hnone => (nomatch hnone), fun hhas => h.active ccm hhas hactive⟩
      · exact fun _ hnone => nomatch hnone
    | some failed =>
      obtain ⟨hlist, hbehind, hfinds⟩ := hsearch hstate failed hccm
      obtain ⟨hgrows, hstandby⟩ := grows_giveUp (o := o) h.toRecords (hmemory failed) hlist
      have hsearched := Searched.findStandby (o := o) failed hgrows.toRecords hmemory hgrows.list
        (fun active hact => ?_) fun found hfound hhas => ?_
      · have heq : s.ccmGetNextStandby o (some failed) = (s.giveUp o failed).findStandby o failed := rfl
        rw [heq]
        generalize (s.giveUp o failed).findStandby o failed = result at hsearched
        obtain ⟨result, s'⟩ := result
        cases result with
        | none =>
          refine triggerFallbackMonitor (change hsearched.toRecords rfl rfl rfl rfl (fun ccm hactive => ?_) ?_)
          · exact ⟨fun hnone => (nomatch hnone), hsearched.active ccm hactive⟩
          · exact fun _ hnone => nomatch hnone
        | some found =>
          obtain ⟨hst, hne, hnone⟩ := hsearched.found found rfl
          have hroles : Roles (s'.setupNewStandbyCcb found) := by
            refine change hsearched.toRecords rfl rfl rfl rfl (fun ccm hactive => ⟨fun heq => ?_, ?_⟩) ?_
            · exact hne (hactive.trans heq.symm)
            · exact hsearched.active ccm hactive
            · exact fun ccm heq => Option.some.inj heq ▸ hnone
          exact hroles.registerSendMsg.triggerFallbackMonitor
      · have hlt := hbehind active (hgrows.active ▸ hact)
        refine ⟨fun hhas => ?_, by simp [after, hlt.le]⟩
        rcases hgrows.has active hhas with hhas | heq
        · exact h.active active hhas (hgrows.active ▸ hact)
        · exact hlt.ne heq
      · obtain ⟨hne, hnone⟩ := hfinds found (reaches_giveUp ▸ hfound)
        rcases hgrows.has found hhas with hhas | heq
        · exact hnone hhas
        · exact hne heq
  · exact h

/-! ### The fallback records -/

theorem null (h : Roles s) : Roles (s.fault .null) := by
  obtain ⟨⟨hindex, hentry, hlines, hlost, hfaults⟩, hdistinct, hactive, hstandby⟩ := h
  exact ⟨⟨hindex, hentry, hlines, hlost, by simpa [fault] using hfaults⟩, hdistinct, hactive, hstandby⟩

theorem setHandle (h : Roles s) {valid : Bool} : Roles (s.setHandle ccm valid) := h.same rfl

theorem stays_of_entry (hindex : ∀ r, (f r).index = r.index) (hentry : ∀ r, (f r).ccb.entry = r.ccb.entry) :
    Fallback.Stays f :=
  ⟨hindex, fun r _ heq => (hentry r).symm.trans heq⟩

theorem stays_changeState (state : RegState) : Fallback.Stays (·.changeState state) :=
  stays_of_entry (fun _ => rfl) fun _ => rfl

theorem stays_retryTimerStart : Fallback.Stays Fallback.retryTimerStart := stays_of_entry (fun _ => rfl) fun _ => rfl

theorem stays_registerCleanup : Fallback.Stays Fallback.registerCleanup := ⟨fun _ => rfl, fun _ _ heq => nomatch heq⟩

theorem keepalive (h : Roles s) : Roles (s.keepalive o n ccm r) := by
  have hpoll : Fallback.Stays fun r => (r.sendRegister o ccm).retryTimerStart :=
    stays_of_entry (fun _ => rfl) fun _ => rfl
  have htls : Fallback.Stays Fallback.tlsRetryTimerStart := stays_of_entry (fun _ => rfl) fun _ => rfl
  unfold State.keepalive
  split_ifs
  · exact h.freeFallbackCcb
  · exact h.modifyFallback hpoll
  · exact h.modifyFallback htls
  · exact h.setHandle.modifyFallback htls
  · exact h.modifyFallback stays_retryTimerStart
  · exact h.setHandle.modifyFallback hpoll
  · exact h.modifyFallback stays_retryTimerStart

theorem fallbackTmrAckRetry (h : Roles s) : Roles (s.fallbackTmrAckRetry o n r) := by
  unfold State.fallbackTmrAckRetry
  split
  · exact h.modifyFallback stays_registerCleanup
  · split
    · exact h.null
    · exact (h.modifyFallback (stays_changeState _)).keepalive
  · split
    · exact h.null
    · exact (h.modifyFallback (stays_changeState _)).keepalive
  · split
    · exact h.null
    · have hstop : Fallback.Stays fun r => (r.timerStop .wait).changeState .inFallback :=
        stays_of_entry (fun _ => rfl) fun _ => rfl
      exact (h.modifyFallback hstop).keepalive
  all_goals exact h

theorem fallbackDefault (h : Roles s) : Roles (s.fallbackDefault o n r) :=
  (h.modifyFallback (stays_changeState _)).fallbackTmrAckRetry

theorem resendRegister (h : Roles s) : Roles (s.resendRegister o n r) := by
  unfold State.resendRegister
  split
  · exact h
  · exact h.modifyFallback (stays_of_entry (fun _ => rfl) fun _ => rfl)

theorem standbyOfRecord (h : Roles s) (hr : r ∈ s.fallbacks) (hindex : r.index = n) (hentry : r.ccb.entry = some ccm)
    (hne : s.activeCcmEntry ≠ some ccm) : Roles ((s.setupNewStandbyCcb ccm).freeFallbackCcb n) := by
  have hsetup : Records (s.setupNewStandbyCcb ccm) := h.toRecords.same rfl rfl rfl rfl
  have hentries := entries_freeFallbackCcb (s := s.setupNewStandbyCcb ccm) (n := n)
  refine change hsetup.freeFallbackCcb rfl rfl rfl rfl (fun ccm' heq => ?_) fun ccm' heq hhas => ?_
  · rw [hentries.1] at heq
    rw [hentries.2]
    refine ⟨fun hst => hne (heq.trans hst.symm), fun hhas => ?_⟩
    exact h.active ccm' (has_freeFallbackCcb hsetup hr hindex hhas).1 heq
  · rw [hentries.2] at heq
    exact (has_freeFallbackCcb hsetup hr hindex hhas).2 (hentry.trans heq)

theorem becomeStandby (h : Roles s) (hr : r ∈ s.fallbacks) (hindex : r.index = n) (hentry : r.ccb.entry = some ccm)
    (hne : s.activeCcmEntry ≠ some ccm) : Roles (s.becomeStandby o n ccm) :=
  (h.standbyOfRecord hr hindex hentry hne).registerSendMsg

theorem requestToken (h : Roles s) : Roles (s.requestToken o n) := by
  unfold State.requestToken
  split_ifs
  all_goals exact h.modifyFallback (stays_of_entry (fun _ => rfl) fun _ => rfl)

theorem offerStandby (h : Roles s) (hr : r ∈ s.fallbacks) (hindex : r.index = n) (hentry : r.ccb.entry = some ccm)
    (hne : s.activeCcmEntry ≠ some ccm) : Roles (s.offerStandby o n ccm) := by
  unfold State.offerStandby
  split
  · exact h.becomeStandby hr hindex hentry hne
  · split
    · exact h.freeFallbackCcb
    · split
      · unfold State.awaitStandby
        split
        · exact h.same rfl
        · split
          · exact h.same rfl
          · exact h
      · split
        · exact h.null
        · split
          · exact h.setHandle.becomeStandby hr hindex hentry hne
          · exact h.becomeStandby hr hindex hentry hne

theorem setStabilityTotalMsgs (h : Roles s) : Roles (s.setStabilityTotalMsgs o n) := by
  unfold State.setStabilityTotalMsgs
  split
  · obtain ⟨⟨hindex, hentry, hlines, hlost, hfaults⟩, hdistinct, hactive, hstandby⟩ := h
    exact ⟨⟨hindex, hentry, hlines, hlost, by simpa [fault] using hfaults⟩, hdistinct, hactive, hstandby⟩
  · exact h.modifyFallback (stays_of_entry (fun _ => rfl) fun _ => rfl)

theorem checkAndTransition (h : Roles s) (hr : r ∈ s.fallbacks) (hindex : r.index = n)
    (hentry : r.ccb.entry = some ccm) : Roles (s.checkAndTransition o n ccm) := by
  unfold State.checkAndTransition
  split
  · have hcheck : Roles ((s.modifyFallback n (·.changeState .stabilityCheck)).setStabilityTotalMsgs o n) :=
      (h.modifyFallback (stays_changeState _)).setStabilityTotalMsgs
    exact hcheck.modifyFallback (stays_of_entry (fun _ => rfl) fun _ => rfl)
  · split
    · exact h.null
    · next active hactive =>
      split
      · exact h.requestToken
      · split
        · exact h
        · next hne =>
          refine h.offerStandby hr hindex hentry fun heq => hne ?_
          exact (Option.some.inj (hactive.symm.trans heq)).symm

theorem mem_modify (hr : r ∈ s.fallbacks) (hindex : r.index = n) : f r ∈ (s.modifyFallback n f).fallbacks :=
  mem_modifyFallback.2 ⟨r, hr, if_pos hindex⟩

theorem inFallback2xx (h : Roles s) (hr : r ∈ s.fallbacks) (hindex : r.index = n) : Roles (s.inFallback2xx o n r) := by
  unfold State.inFallback2xx
  dsimp only
  have hstop := h.modifyFallback (n := n)
    (f := fun r => { r with ccb := { r.ccb with registerSent := false } }.timerStop .retry)
    (stays_of_entry (fun _ => rfl) fun _ => rfl)
  split
  · exact hstop.null
  · next ccm hccm => exact hstop.checkAndTransition (mem_modify hr hindex) hindex hccm

theorem stabilityCheck2xx (h : Roles s) (hr : r ∈ s.fallbacks) (hindex : r.index = n) :
    Roles (s.stabilityCheck2xx o n r) := by
  unfold State.stabilityCheck2xx
  dsimp only
  generalize (if 0 < r.stabilityMsgCount then r.stabilityMsgCount - 1 else r.stabilityMsgCount) = count
  have hstop := h.modifyFallback (n := n) (f := fun r =>
      { r with ccb := { r.ccb with registerSent := false }, stabilityMsgCount := count }.timerStop .retry)
    (stays_of_entry (fun _ => rfl) fun _ => rfl)
  split
  · exact hstop.modifyFallback (stays_of_entry (fun _ => rfl) fun _ => rfl)
  · split
    · exact hstop.null
    · next ccm hccm =>
      refine checkAndTransition ?_ (mem_modify hr hindex) hindex hccm
      exact hstop.same rfl

theorem tokenWait2xx (h : Roles s) : Roles (s.tokenWait2xx n r) := by
  have hstop := h.modifyFallback (n := n)
    (f := fun r => { r with ccb := { r.ccb with registerSent := false } }.timerStop .wait)
    (stays_of_entry (fun _ => rfl) fun _ => rfl)
  unfold State.tokenWait2xx
  dsimp only
  split
  · exact hstop.same rfl
  · exact hstop.modifyFallback (stays_of_entry (fun _ => rfl) fun _ => rfl)

theorem tokenWait4xx5xx (h : Roles s) {wait : Bool} : Roles (s.tokenWait4xx5xx n wait) := by
  unfold State.tokenWait4xx5xx
  cases wait <;> exact h.modifyFallback (stays_of_entry (fun _ => rfl) fun _ => rfl)

theorem replaceStandby (h : Roles s) (hwaits : ∀ ccm, s.newStandbyAvailable = some ccm → s.activeCcmEntry ≠ some ccm) :
    Roles (s.replaceStandby o) := by
  unfold State.replaceStandby
  split
  · exact h
  · next ccm hccm =>
    have hsetup : Records (s.setupNewStandbyCcb ccm) := h.toRecords.same rfl rfl rfl rfl
    have hne := hwaits ccm hccm
    have hsend : ∀ {s' : State}, Roles s' →
        Roles { s'.registerSendMsg o .regCancel .backup with newStandbyAvailable := none } :=
      fun hroles => Roles.same (hroles.registerSendMsg (o := o)) rfl
    dsimp only
    split
    · next hnone =>
        refine hsend (change h.toRecords rfl rfl rfl rfl (fun ccm' heq => ⟨fun hst => ?_, fun hhas => ?_⟩) ?_)
        · exact hne (heq.trans hst.symm)
        · exact h.active ccm' hhas heq
        · rintro ccm' heq ⟨r, hr, hentry⟩
          obtain rfl := Option.some.inj heq
          simpa [hentry] using List.find?_eq_none.1 hnone r hr
    · next r hfound =>
        have hr : r ∈ s.fallbacks := List.mem_of_find?_eq_some hfound
        exact hsend (h.standbyOfRecord hr rfl (by simpa using List.find?_some hfound) hne)

/-- A fallback makes the call manager of a record active, and the one of the prime line the standby. -/
theorem evCleanup (h : Roles s) (hr : r ∈ s.fallbacks) (hindex : r.index = n)
    (hcleans : ∀ old, s.line.entry = some old → r.ccb.entry ≠ some old ∧ ¬s.Has old) :
    Roles (s.evCleanup o n r) := by
  have hsetup : Records (s.setupNewActiveCcb r.ccb.entry) := h.toRecords.same rfl rfl rfl rfl
  have hentries := entries_freeFallbackCcb (s := s.setupNewActiveCcb r.ccb.entry) (n := n)
  have hhas : ∀ ccm, ((s.setupNewActiveCcb r.ccb.entry).freeFallbackCcb n).Has ccm →
      s.Has ccm ∧ r.ccb.entry ≠ some ccm := fun ccm => has_freeFallbackCcb hsetup hr hindex
  have hfree : Roles ((s.setupNewActiveCcb r.ccb.entry).freeFallbackCcb n) := by
    refine change hsetup.freeFallbackCcb rfl rfl rfl rfl (fun ccm heq => ?_) fun ccm heq hhas' => ?_
    · rw [hentries.1] at heq
      rw [hentries.2]
      exact ⟨h.standby ccm ⟨r, hr, heq⟩, fun hhas' => (hhas ccm hhas').2 heq⟩
    · rw [hentries.2] at heq
      exact h.standby ccm (hhas ccm hhas').1 heq
  have hactive : ((s.setupNewActiveCcb r.ccb.entry).freeFallbackCcb n).activeCcmEntry = r.ccb.entry := hentries.1
  unfold State.evCleanup
  dsimp only
  generalize (s.setupNewActiveCcb r.ccb.entry).freeFallbackCcb n = s₁ at hfree hactive hhas ⊢
  have hview : (if s₁.isResp then { s₁.registerAllLines o with fallbackCcmEntry := none }
      else { s₁.registerPrime with primeRegistered := true }).roleView = s₁.roleView := by
    split
    · exact roleView_registerAllLines (o := o)
    · exact roleView_registerPrime
  generalize (if s₁.isResp then { s₁.registerAllLines o with fallbackCcmEntry := none }
      else { s₁.registerPrime with primeRegistered := true } : State) = s₂ at hview ⊢
  have hnext : Roles s₂ := hfree.same hview
  refine registerSendMsg ?_
  split
  · exact hnext
  · next old hold =>
    obtain ⟨hne, hnone⟩ := hcleans old hold
    simp only [roleView, Prod.mk.injEq] at hview
    obtain ⟨hlist, -, -, -, hact, -⟩ := hview
    have hgone : ¬s₂.Has old := by
      intro hhas'
      rw [Has, fallbacks, hlist] at hhas'
      exact hnone (hhas old hhas').1
    have hstandby : Roles (s₂.setupNewStandbyCcb old) := by
      refine change hnext.toRecords rfl rfl rfl rfl (fun ccm heq => ⟨fun hst => ?_, fun hhas' => ?_⟩) ?_
      · exact hne ((hact.trans hactive).symm.trans (heq.trans hst.symm))
      · exact hnext.active ccm hhas' heq
      · exact fun ccm heq => Option.some.inj heq ▸ hgone
    split
    · exact hstandby
    · exact hstandby.same rfl

theorem authenticate (h : Roles s) (c : Challenge) : Roles (s.authenticate o n r c) := by
  cases c with
  | noCredentials => exact freeFallbackCcbList h.toRecords h.distinct
  | unparsed => exact h
  | unsupported => exact h.modifyFallback stays_registerCleanup
  | digest =>
    unfold State.authenticate
    dsimp only
    split
    · exact h.resendRegister
    · exact h.modifyFallback stays_registerCleanup

theorem tokenWaitResponse (h : Roles s) (resp : Response) : Roles (s.tokenWaitResponse o n r resp) := by
  cases resp with
  | trying => exact h
  | progress => exact h.modifyFallback stays_registerCleanup
  | success => exact h.tokenWait2xx
  | redirect usable => exact h.fallbackDefault
  | challenge c => exact h.authenticate c
  | intervalTooSmall => exact h.resendRegister
  | busyHere retryAfter => exact h.tokenWait4xx5xx
  | notFound retryAfter => exact h.tokenWait4xx5xx
  | clientError => exact h.tokenWait4xx5xx
  | unavailable retryAfter => exact h.tokenWait4xx5xx
  | failure => exact h.fallbackDefault

theorem inFallbackResponse (h : Roles s) (hr : r ∈ s.fallbacks) (hindex : r.index = n) (resp : Response) :
    Roles (s.inFallbackResponse o n r resp) := by
  cases resp with
  | trying => exact h
  | progress => exact h.modifyFallback stays_registerCleanup
  | success => exact h.inFallback2xx hr hindex
  | redirect usable => exact h.fallbackDefault
  | challenge c => exact h.modifyFallback stays_retryTimerStart
  | intervalTooSmall => exact h.modifyFallback stays_retryTimerStart
  | busyHere retryAfter => exact h.modifyFallback stays_retryTimerStart
  | notFound retryAfter => exact h.modifyFallback stays_retryTimerStart
  | clientError => exact h.modifyFallback stays_retryTimerStart
  | unavailable retryAfter => exact h.modifyFallback stays_retryTimerStart
  | failure => exact h.modifyFallback stays_retryTimerStart

theorem stabilityCheckResponse (h : Roles s) (hr : r ∈ s.fallbacks) (hindex : r.index = n) (resp : Response) :
    Roles (s.stabilityCheckResponse o n r resp) := by
  cases resp with
  | trying => exact h
  | progress => exact h.modifyFallback stays_registerCleanup
  | success => exact h.stabilityCheck2xx hr hindex
  | redirect usable => exact h.fallbackDefault
  | challenge c => exact h.fallbackDefault
  | intervalTooSmall => exact h.fallbackDefault
  | busyHere retryAfter => exact h.fallbackDefault
  | notFound retryAfter => exact h.fallbackDefault
  | clientError => exact h.fallbackDefault
  | unavailable retryAfter => exact h.fallbackDefault
  | failure => exact h.fallbackDefault

theorem preFallbackResponse (h : Roles s) (resp : Response) : Roles (s.preFallbackResponse o n r resp) := by
  have hfree : Roles s.freeFallbackCcbList := freeFallbackCcbList h.toRecords h.distinct
  have hretryAfter : ∀ retryAfter : Bool, Roles (if retryAfter then s else s.freeFallbackCcbList) := by
    intro retryAfter
    split
    · exact h
    · exact hfree
  cases resp with
  | trying => exact h
  | progress => exact h.modifyFallback stays_registerCleanup
  | success => exact h.modifyFallback (stays_changeState _)
  | redirect usable =>
    unfold State.preFallbackResponse
    dsimp only
    split
    · exact h.resendRegister
    · exact h.modifyFallback stays_registerCleanup
  | challenge c => exact h.authenticate c
  | intervalTooSmall => exact h.resendRegister
  | busyHere retryAfter => exact hretryAfter retryAfter
  | notFound retryAfter => exact hretryAfter retryAfter
  | clientError => exact hfree
  | unavailable retryAfter => exact hretryAfter retryAfter
  | failure => exact hfree

theorem fallbackEvent (h : Roles s) (hr : r ∈ s.fallbacks) (hindex : r.index = n) (state : RegState) (ev : RegEvent)
    (hcleans : state = .tokenWait → ev = .cleanup → ∀ old, s.line.entry = some old →
      r.ccb.entry ≠ some old ∧ ¬s.Has old) :
    Roles (s.fallbackEvent o n r state ev) := by
  have hretry : Roles (s.fallbackTmrAckRetry o n r) := h.fallbackTmrAckRetry
  have hdefault : Roles (s.fallbackDefault o n r) := h.fallbackDefault
  have hresend : Roles (s.resendRegister o n r) := h.resendRegister
  unfold State.fallbackEvent
  split
  case h_1 => exact h.modifyFallback stays_registerCleanup
  case h_4 resp => exact h.preFallbackResponse resp
  case h_6 => exact h.registerSendMsg
  case h_7 => split <;> assumption
  case h_10 resp => exact h.inFallbackResponse hr hindex resp
  case h_16 resp => exact h.stabilityCheckResponse hr hindex resp
  case h_18 => exact h.registerSendMsg.modifyFallback stays_retryTimerStart
  case h_22 resp => exact h.tokenWaitResponse resp
  case h_24 => exact h.modifyFallback (stays_of_entry (fun _ => rfl) fun _ => rfl)
  case h_26 => exact h.evCleanup hr hindex (hcleans rfl rfl)
  all_goals assumption

theorem fallbackProcess (h : Roles s) {ev : RegEvent} (hcleans : ev = .cleanup → s.CleansUp n) :
    Roles (s.fallbackProcess o n ev) := by
  unfold State.fallbackProcess
  split
  · exact h
  · next r hfound =>
    obtain ⟨hr, hindex⟩ := mem_of_getFallbackCcbByIndex hfound
    exact h.fallbackEvent hr hindex _ _ fun hstate hev => hcleans hev r hr hindex hstate

/-! ### The queue -/

theorem timeoutExpire (h : Roles s) {t : Timer} {ptr : ℕ} (hlive : ∃ r ∈ s.fallbacks, r.ptr = ptr) :
    Roles (s.timeoutExpire o t ptr) := by
  unfold State.timeoutExpire
  split
  · next hnone =>
    obtain ⟨r, hr, hptr⟩ := hlive
    exact absurd hptr (by simpa using List.find?_eq_none.1 hnone r hr)
  · cases t with
    | retry => exact h.registerSendMsg
    | wait =>
      have hstop : Fallback.Stays (·.timerStop .wait) := stays_of_entry (fun _ => rfl) fun _ => rfl
      exact (h.modifyFallback hstop).registerSendMsg

theorem deliver (h : Roles s) (hord : Orderly s .deliver o) : Roles (s.deliver o) := by
  obtain ⟨hmemory, hord⟩ := hord
  unfold State.deliver
  split
  · exact h
  · next t ptr ms hposted =>
    have hleave : Roles (s.leave ms) := h.same rfl
    simp only [hposted] at hord
    exact hleave.timeoutExpire hord
  · next cmd ndx ccm ms hposted =>
    have hleave : Roles (s.leave ms) := h.same rfl
    cases ndx with
    | fallback n =>
      cases cmd with
      | tmrRegRetry =>
        unfold State.process
        dsimp only
        split
        · exact hleave.fallbackProcess fun hev => nomatch hev
        · exact hleave
      | tmrRegWait => exact hleave.fallbackProcess fun hev => nomatch hev
      | regCancel => exact hleave.fallbackProcess fun hev => nomatch hev
      | regCleanup =>
        simp only [hposted] at hord
        exact hleave.fallbackProcess fun _ => hord
    | line =>
      cases cmd with
      | tmrRegRetry =>
        simp only [hposted] at hord
        unfold State.process
        dsimp only
        split
        · next hcurrent => exact hleave.lineTmrAckRetry hmemory (hord hcurrent)
        · exact hleave
      | tmrRegWait => exact hleave
      | regCancel => exact hleave.same rfl
      | regCleanup => exact hleave
    | backup =>
      cases cmd with
      | tmrRegRetry =>
        simp only [hposted] at hord
        unfold State.process
        dsimp only
        split
        · next hcurrent => exact hleave.backupTmrAckRetry hmemory (hord hcurrent)
        · exact hleave
      | tmrRegWait => exact hleave
      | regCancel => exact hleave.same rfl
      | regCleanup => exact hleave

/-! ### Start, end and the platform -/

/-- What the connections at the start leave, with the call managers that are not tried yet. -/
structure Connecting (ccms : List CcmId) (active : Bool) (s : State) : Prop extends Records s where
  list : s.fallbackCcbList ≠ none
  standby : s.standbyCcmEntry = none
  has : ∀ ccm ∈ ccms, ¬s.Has ccm
  active : active = true → ∀ ccm, s.activeCcmEntry = some ccm → ¬s.Has ccm ∧ ccm ∉ ccms

theorem setupCcConns (ccms : List CcmId) {active : Bool} (h : Connecting ccms active s) (hnodup : ccms.Nodup)
    (hmemory : ∀ ccm, o.ccbMemory ccm) :
    Records (s.setupCcConns o ccms active).2 ∧
      ((s.setupCcConns o ccms active).1 = true → Roles (s.setupCcConns o ccms active).2) := by
  induction ccms generalizing s active with
  | nil =>
    refine ⟨h.toRecords, fun hactive => change h.toRecords rfl rfl rfl rfl (fun ccm heq => ⟨?_, ?_⟩) ?_⟩
    · rw [State.setupCcConns, h.standby]
      exact fun hnone => nomatch hnone
    · exact (h.active hactive ccm heq).1
    · rw [State.setupCcConns, h.standby]
      exact fun _ hnone => nomatch hnone
  | cons ccm ccms ih =>
    obtain ⟨hnew, hrest⟩ := List.nodup_cons.1 hnodup
    have hhas := h.has ccm List.mem_cons_self
    rw [State.setupCcConns]
    split
    · split
      · next hactive =>
        -- the second connection is the standby
        have hroles : Roles { s.setHandle ccm true with standbyCcmEntry := some ccm } := by
          refine change h.toRecords rfl rfl rfl rfl (fun ccm' heq => ⟨fun hst => ?_, ?_⟩) ?_
          · exact (h.active hactive ccm' heq).2 (Option.some.inj hst ▸ List.mem_cons_self)
          · exact (h.active hactive ccm' heq).1
          · exact fun ccm' hst => Option.some.inj hst ▸ hhas
        exact ⟨hroles.toRecords, fun _ => hroles⟩
      · refine ih (s := { s.setHandle ccm true with activeCcmEntry := some ccm }) ?_ hrest
        refine ⟨h.toRecords.same rfl rfl rfl rfl, h.list, h.standby, ?_, fun _ ccm' heq => ?_⟩
        · exact fun ccm' hmem => h.has ccm' (List.mem_cons_of_mem _ hmem)
        · obtain rfl := Option.some.inj heq
          exact ⟨hhas, hnew⟩
    · split
      · have hgrows := Grows.createFallbackCcb h.toRecords (hmemory ccm) h.list
        refine ih ⟨hgrows.toRecords, hgrows.list, rest_createFallbackCcb.2.trans h.standby, ?_, ?_⟩ hrest
        · intro ccm' hmem hhas'
          rcases hgrows.has ccm' hhas' with hold | rfl
          · exact h.has ccm' (List.mem_cons_of_mem _ hmem) hold
          · exact hnew hmem
        · intro hactive ccm' heq
          obtain ⟨hold, hnot⟩ := h.active hactive ccm' (hgrows.active ▸ heq)
          refine ⟨fun hhas' => ?_, fun hmem => hnot (List.mem_cons_of_mem _ hmem)⟩
          rcases hgrows.has ccm' hhas' with hhas' | rfl
          · exact hold hhas'
          · exact hnot List.mem_cons_self
      · refine ih ⟨h.toRecords, h.list, h.standby, ?_, fun hactive ccm' heq => ?_⟩ hrest
        · exact fun ccm' hmem => h.has ccm' (List.mem_cons_of_mem _ hmem)
        · obtain ⟨hold, hnot⟩ := h.active hactive ccm' heq
          exact ⟨hold, fun hmem => hnot (List.mem_cons_of_mem _ hmem)⟩

theorem init (h : Roles s) (hmemory : ∀ ccm, o.ccbMemory ccm) (hempty : s.fallbacks = [])
    (hstandby : s.standbyCcmEntry = none) : Roles (s.init o) := by
  have hconnecting : Connecting (List.finRange 3) false s.createFallbackCcbList := by
    refine ⟨⟨List.nodup_nil, fun _ hr => absurd hr List.not_mem_nil, fun n => ?_, ?_, h.faults⟩,
      Option.some_ne_none _, hstandby, fun _ _ ⟨_, hr, _⟩ => absurd hr List.not_mem_nil, fun hfalse => ?_⟩
    · refine (h.lines n).trans ⟨?_, fun ⟨_, hr, _⟩ => absurd hr List.not_mem_nil⟩
      rintro ⟨r, hr, _⟩
      rw [hempty] at hr
      exact absurd hr List.not_mem_nil
    · rw [State.createFallbackCcbList, hempty, List.append_nil]
      exact h.lost
    · exact absurd hfalse Bool.false_ne_true
  have hconns := setupCcConns (o := o) (List.finRange 3) hconnecting (List.nodup_finRange 3) hmemory
  unfold State.init
  split
  · next s' heq =>
    rw [heq] at hconns
    have hnone : Records { s' with activeCcmEntry := none } := hconns.1.same rfl rfl rfl rfl
    exact freeFallbackCcbList hnone fun _ hactive => nomatch hactive
  · next s' heq =>
    rw [heq] at hconns
    exact Roles.same (s := s'.triggerFallbackMonitor o) (hconns.2 rfl).triggerFallbackMonitor rfl

theorem failoverRspStart (h : Roles s)
    (hfree : ∀ ccm, s.failoverCcmEntry = some ccm → s.standbyCcmEntry ≠ some ccm ∧ ¬s.Has ccm) :
    Roles s.failoverRspStart := by
  have hactive : Roles (s.setupNewActiveCcb s.failoverCcmEntry) :=
    change h.toRecords rfl rfl rfl rfl (fun ccm heq => hfree ccm heq) fun ccm heq hhas => h.standby ccm hhas heq
  exact Roles.same (s := (s.setupNewActiveCcb s.failoverCcmEntry).registerPrime)
    (hactive.same roleView_registerPrime) rfl

theorem phoneIdle (h : Roles s) {waited : Bool}
    (hlive : ∀ ptr, s.fallbackCcb = some ptr → ∃ r ∈ s.fallbacks, r.ptr = ptr) :
    Roles (s.phoneIdle o waited) := by
  have hend : Roles s.endFallback := h.same rfl
  unfold State.phoneIdle
  split
  · exact h.null
  · next ptr hptr =>
    split
    · next hnone =>
      obtain ⟨r, hr, heq⟩ := hlive ptr hptr
      exact absurd heq (by simpa using List.find?_eq_none.1 hnone r hr)
    · split
      · refine hend.modifyFallback (stays_of_entry (fun r => ?_) fun r => ?_)
        all_goals
          unfold Fallback.regmgrSendRefer
          split <;> rfl
      · exact h.registerSendMsg.registerSendMsg

theorem fallbackRsp (h : Roles s) : Roles s.fallbackRsp := by
  have hresp : Roles { s with isResp := true } := h.same rfl
  unfold State.fallbackRsp
  dsimp only
  split
  · exact hresp.same rfl
  · exact Roles.same (hresp.same roleView_registerLines) rfl

theorem createConnFailed (h : Roles s) : Roles (s.createConnFailed o ccm) := by
  unfold State.createConnFailed
  dsimp only
  split
  · exact h.setHandle.registerSendMsg
  · split
    · exact h.setHandle.registerSendMsg
    · exact h.setHandle

theorem handle (h : Roles s) (ev : Event) (hord : Orderly s ev o) : Roles (s.handle o ev) := by
  cases ev with
  | init => exact h.init hord.1 hord.2.1 hord.2.2
  | shutdown =>
    refine Roles.change (s := s.freeFallbackCcbList) h.toRecords.freeFallbackCcbList rfl rfl rfl rfl ?_ ?_
    · exact fun _ hnone => nomatch hnone
    · exact fun _ hnone => nomatch hnone
  | timerExpires t n =>
    unfold State.handle
    dsimp only
    split
    · exact h
    · split
      · have hstop : Fallback.Stays (·.timerStop t) := by
          cases t <;> exact stays_of_entry (fun _ => rfl) fun _ => rfl
        unfold State.timerExpires
        dsimp only
        split
        · exact Roles.same (h.modifyFallback hstop) rfl
        · exact h.modifyFallback hstop
      · exact h
  | deliver => exact h.deliver hord
  | tmrAck ndx =>
    cases ndx with
    | line => exact h.lineTmrAckRetry hord.1 hord.2
    | backup => exact h.backupTmrAckRetry hord.1 hord.2
    | fallback n => exact h.fallbackProcess fun hev => nomatch hev
  | response n resp =>
    unfold State.handle
    dsimp only
    split
    · exact h
    · split
      · have hanswered : Fallback.Stays (answered · resp) := by
          cases resp <;> exact stays_of_entry (fun _ => rfl) fun _ => rfl
        exact (h.modifyFallback hanswered).fallbackProcess fun hev => nomatch hev
      · exact h
  | lineRejected => exact freeFallbackCcbList h.toRecords h.distinct
  | backup2xx =>
    unfold State.handle
    dsimp only
    split
    · have hanswered : Roles { s with backup := { s.backup with registerSent := false } } := h.same rfl
      exact hanswered.replaceStandby hord.2
    · exact h
  | standbyKeepalive =>
    unfold State.handle
    dsimp only
    split
    · exact h.registerSendMsg
    · exact h
  | lineMoves state registerSent reset => exact h.same rfl
  | backupMoves state registerSent reset => exact h.same rfl
  | failoverRspStart => exact h.failoverRspStart hord.2
  | failoverRspComplete =>
    have hlines : Roles s.registerLines := h.same roleView_registerLines
    exact Roles.same (hlines.triggerFallbackMonitor (o := o)) rfl
  | phoneIdle waited => exact h.phoneIdle hord.2
  | fallbackRsp => exact h.fallbackRsp
  | createConnFailed ccm => exact h.createConnFailed

end Roles

/-! ## Runs -/

theorem Run.roles (h : Run Orderly s) : Roles s := by
  induction h with
  | start =>
    have hnone : ∀ ccm, ¬({} : State).Has ccm := fun _ ⟨_, hr, _⟩ => absurd hr List.not_mem_nil
    refine ⟨⟨List.nodup_nil, fun _ hr => absurd hr List.not_mem_nil, fun n => ?_, rfl, List.not_mem_nil⟩,
      fun _ hactive => (nomatch hactive), fun ccm hhas => absurd hhas (hnone ccm),
      fun ccm hhas => absurd hhas (hnone ccm)⟩
    exact ⟨fun hfalse => (nomatch hfalse), fun ⟨_, hr, _⟩ => absurd hr List.not_mem_nil⟩
  | step s ev o _ hord ih => exact ih.handle ev hord

/-- The primary cannot be connected to at the start. -/
def secondaryActive : State :=
  ({} : State).handle { connect := (· ≠ 0) } .init

/-- The primary answers a keepalive and gives a token; the phone is idle. -/
def tokenGiven : State :=
  [.timerExpires .retry 0, .deliver, .deliver, .response 0 .success, .response 0 .success, .phoneIdle false].foldl
    (fun s ev => s.handle {} ev) secondaryActive

/-- The primary is active again, and the secondary stands by. -/
def primaryBack : State :=
  (tokenGiven.handle {} .deliver).handle {} .deliver

theorem run_tokenGiven : Run Orderly tokenGiven := by
  have hmemory : ∀ ccm, ({} : Outcomes).ccbMemory ccm := fun _ => rfl
  have hrun : Run Orderly secondaryActive := .step _ _ _ .start ⟨fun _ => rfl, rfl, rfl⟩
  replace hrun := hrun.step _ (.timerExpires .retry 0) {} ⟨hmemory, trivial⟩
  replace hrun := hrun.step _ .deliver {} ⟨hmemory, _, List.mem_cons_self, rfl⟩
  replace hrun := hrun.step _ .deliver {} ⟨hmemory, trivial⟩
  replace hrun := hrun.step _ (.response 0 .success) {} ⟨hmemory, trivial⟩
  replace hrun := hrun.step _ (.response 0 .success) {} ⟨hmemory, trivial⟩
  exact hrun.step _ (.phoneIdle false) {} ⟨hmemory, fun _ hptr => ⟨_, List.mem_cons_self, Option.some.inj hptr⟩⟩

theorem run_primaryBack : Run Orderly primaryBack := by
  have hmemory : ∀ ccm, ({} : Outcomes).ccbMemory ccm := fun _ => rfl
  refine .step _ _ _ (.step _ _ _ run_tokenGiven ⟨hmemory, trivial⟩) ⟨hmemory, fun r hr _ _ old hold => ?_⟩
  obtain rfl := Option.some.inj hold
  obtain rfl := List.mem_singleton.1 hr
  refine ⟨by decide, fun ⟨r', hr', hentry⟩ => ?_⟩
  obtain rfl := List.mem_singleton.1 hr'
  exact absurd hentry (by decide)

/-- The primary cannot be connected to at the start, and there is no memory for the CCB of its record. -/
def lineLost : State :=
  ({} : State).handle { connect := (· ≠ 0), ccbMemory := fun _ => false } .init

end Sip.Regmgr
