import Ikran.Lib.Keyed
import Ikran.Sip.Stability

/-!
# Failed call managers stay monitored

A fallback record that is past SIP_REG_PRE_FALLBACK sends keepalives from its retry timer. Each handler has
to start the timer again, or to free the record. The handlers of this chapter do so, but not always: a REFER
that is not sent, a keepalive that the active call manager answers, a standby that is busy, and a CCB that is
cleaned leave the record without a timer.
-/

namespace Sip.Regmgr

/-- A message that leads to the next keepalive of a record. -/
def Msg.Wakes (r : Fallback) : Msg → Prop
  | .timerExpiration _ ptr => ptr = r.ptr
  | .reg .tmrRegRetry (.fallback n) ccm => n = r.index ∧ r.ccb.entry = some ccm
  | .reg .tmrRegWait (.fallback n) _ => n = r.index
  | .reg _ _ _ => False

instance (r : Fallback) : DecidablePred (Msg.Wakes r)
  | .timerExpiration _ ptr => inferInstanceAs (Decidable (ptr = r.ptr))
  | .reg .tmrRegRetry (.fallback n) ccm => inferInstanceAs (Decidable (n = r.index ∧ r.ccb.entry = some ccm))
  | .reg .tmrRegWait (.fallback n) _ => inferInstanceAs (Decidable (n = r.index))
  | .reg .tmrRegRetry .line _ | .reg .tmrRegRetry .backup _ | .reg .tmrRegWait .line _
  | .reg .tmrRegWait .backup _ | .reg .regCancel _ _ | .reg .regCleanup _ _ => .isFalse id

/-- The states in which the answers to a fallback record are handled. -/
def RegState.Polls (state : RegState) : Prop :=
  state = .inFallback ∨ state = .stabilityCheck ∨ state = .tokenWait

instance : DecidablePred RegState.Polls :=
  fun _ => inferInstanceAs (Decidable (_ ∨ _ ∨ _))

/-- The retry timer or the wait timer of the record runs or has run out with its message in the queue, or a
request is outstanding whose answer is handled. -/
def Fallback.Monitored (r : Fallback) (posted : List Msg) : Prop :=
  r.retryTimer ∨ r.waitTimer ∨
    r.ccb.state.Polls ∧ ((∃ m ∈ posted, m.Wakes r) ∨ r.ccb.registerSent ∨ r.ccb.referSent)

instance (r : Fallback) (posted : List Msg) : Decidable (r.Monitored posted) :=
  inferInstanceAs (Decidable (_ ∨ _ ∨ _ ∧ (_ ∨ _ ∨ _)))

/-- The CCB is cleaned when the REGISTER with credentials does not go. -/
def Challenge.Discards (o : Outcomes) (r : Fallback) : Challenge → Prop
  | .unsupported => True
  | .digest => r.ccb.entry.any o.sendRegister = false
  | .noCredentials | .unparsed => False

/-- The CCB of a record is cleaned by an event. -/
def Fallback.Discards (o : Outcomes) (r : Fallback) : RegState → RegEvent → Prop
  | .unregistering, .response (.redirect usable) => ¬(usable ∧ r.ccb.entry.any o.sendRegister)
  | .unregistering, .response .success | .unregistering, .tmrAck => True
  | .unregistering, .tmrRetry => o.retxExceeded
  | .inFallback, .response (.challenge _) => False
  | _, .response .progress => True
  | _, .response (.challenge c) => c.Discards o r
  | _, _ => False

/-- The call manager of a record answers a keepalive, and the record is freed or its timer started again:
another one is active, the REFER goes when it is needed, and the standby that is to be replaced is not busy. -/
def State.Rearms (s : State) (o : Outcomes) (ccm : CcmId) : Prop :=
  ∃ active, s.activeCcmEntry = some active ∧ ccm ≠ active ∧
    (ccm < active → o.isPhoneIdle → s.fallbackCcmEntry = none → o.sendRefer) ∧
    (active < ccm → ∀ standby, s.standbyCcmEntry = some standby → ccm ≤ standby →
      s.backup.registerSent = false ∧ s.backup.entry ≠ none)

/-- An event for a record does not lose it. -/
def State.KeepsRecord (s : State) (o : Outcomes) (n : LineNum) (ev : RegEvent) : Prop :=
  ∀ r ∈ s.fallbacks, r.index = n → ¬r.Discards o r.ccb.state ev ∧
    (r.ccb.state = .inFallback → ev = .response .success → ∀ ccm, r.ccb.entry = some ccm → s.Rearms o ccm)

def Cmd.event : Cmd → RegEvent
  | .tmrRegRetry => .tmrRetry
  | .tmrRegWait => .tmrWait
  | .regCancel => .cancel
  | .regCleanup => .cleanup

/-- An event takes none of the branches that lose a record. -/
def Keeps (s : State) (ev : Event) (o : Outcomes) : Prop :=
  match ev with
  | .init => s.fallbacks = []
  | .timerExpires _ _ => o.sendMsg
  | .deliver =>
    match s.posted with
    | .timerExpiration _ ptr :: _ => o.sendMsg ∧ ∃ r ∈ s.fallbacks, r.ptr = ptr
    | .reg cmd (.fallback n) ccm :: _ =>
      (cmd = .tmrRegRetry → s.entryOf (.fallback n) = some ccm) → s.KeepsRecord o n cmd.event
    | _ => True
  | .tmrAck (.fallback n) => s.KeepsRecord o n .tmrAck
  | .response n resp => s.KeepsRecord o n (.response resp)
  | .phoneIdle _ => ∃ r ∈ s.fallbacks, s.fallbackCcb = some r.ptr
  | _ => True

/-! ## Armed records -/

/-- A message of the retry timer of a record. -/
def Msg.Retries (r : Fallback) : Msg → Prop
  | .timerExpiration .retry ptr => ptr = r.ptr
  | .reg .tmrRegRetry (.fallback n) ccm => n = r.index ∧ r.ccb.entry = some ccm
  | _ => False

/-- The retry timer runs, or has run out with its message in the queue. -/
def Fallback.Armed (r : Fallback) (posted : List Msg) : Prop :=
  r.retryTimer ∨ ∃ m ∈ posted, m.Retries r

/-- What every record has in common. -/
structure Fallback.Known (s : State) (r : Fallback) : Prop where
  entry : r.ccb.entry ≠ none
  state : r.ccb.state = .preFallback ∨ r.ccb.state = .inFallback ∨ r.ccb.state = .tokenWait
  taken : s.fallbackLinesAvailable r.index = false
  allocated : r.ptr < s.allocated
  table : s.fallbackCcb = some r.ptr → r.ccb.state ≠ .preFallback

/-- Every record past SIP_REG_PRE_FALLBACK is armed, but perhaps that with a line. -/
structure Inv (x : Option LineNum) (s : State) : Prop where
  wanFailure : s.wanFailure = false
  indexNodup : (s.fallbacks.map (·.index)).Nodup
  ptrNodup : (s.fallbacks.map (·.ptr)).Nodup
  tableAllocated : ∀ ptr, s.fallbackCcb = some ptr → ptr < s.allocated
  known : ∀ r ∈ s.fallbacks, r.Known s
  armed : ∀ r ∈ s.fallbacks, some r.index ≠ x → r.ccb.state ≠ .preFallback → r.Armed s.posted
  lost : ∀ r ∈ s.lost, r.ccb.state = .preFallback

theorem Msg.Retries.wakes {m : Msg} {r : Fallback} (h : m.Retries r) : m.Wakes r := by
  cases m with
  | timerExpiration t ptr =>
    cases t with
    | wait => exact h.elim
    | retry => exact h
  | reg cmd ndx ccm =>
    cases cmd <;> cases ndx <;> first
      | exact h
      | exact h.elim

theorem Fallback.Armed.mono {r : Fallback} {posted posted' : List Msg} (h : r.Armed posted)
    (hsub : posted ⊆ posted') : r.Armed posted' :=
  h.imp_right fun ⟨m, hm, hr⟩ => ⟨m, hsub hm, hr⟩

theorem Fallback.Known.isMonitored {s : State} {r : Fallback} (hknown : r.Known s)
    (hstate : r.ccb.state ≠ .preFallback) {posted : List Msg} (h : r.Armed posted) : r.Monitored posted := by
  have hpolls : r.ccb.state.Polls := by
    rcases hknown.state with hpre | hin | htoken
    · exact absurd hpre hstate
    · exact .inl hin
    · exact .inr (.inr htoken)
  rcases h with htimer | ⟨m, hm, hretries⟩
  · exact .inl htimer
  · exact .inr (.inr ⟨hpolls, .inl ⟨m, hm, hretries.wakes⟩⟩)

/-- A change of a record that leaves who it is, and its state or brings it to IN_FALLBACK or TOKEN_WAIT. -/
structure Fallback.Moves (f : Fallback → Fallback) : Prop where
  ptr : ∀ r, (f r).ptr = r.ptr
  index : ∀ r, (f r).index = r.index
  entry : ∀ r, (f r).ccb.entry = r.ccb.entry
  state : ∀ r, (f r).ccb.state = r.ccb.state ∨ (f r).ccb.state = .inFallback ∨ (f r).ccb.state = .tokenWait

namespace Fallback

variable {s s' : State} {f : Fallback → Fallback} {r : Fallback}

theorem Known.moves (h : r.Known s) (hf : Moves f) : (f r).Known s := by
  refine ⟨?_, ?_, ?_, ?_, ?_⟩
  · rw [hf.entry]
    exact h.entry
  · rcases hf.state r with hsame | hin | htoken
    · rw [hsame]
      exact h.state
    · exact .inr (.inl hin)
    · exact .inr (.inr htoken)
  · rw [hf.index]
    exact h.taken
  · rw [hf.ptr]
    exact h.allocated
  · intro htable
    rw [hf.ptr] at htable
    rcases hf.state r with hsame | hin | htoken
    · rw [hsame]
      exact h.table htable
    · simp [hin]
    · simp [htoken]

theorem Armed.moves {posted : List Msg} (h : r.Armed posted) (hf : Moves f)
    (htimer : r.retryTimer → (f r).retryTimer) : (f r).Armed posted := by
  refine h.imp htimer fun ⟨m, hm, hretries⟩ => ⟨m, hm, ?_⟩
  unfold Msg.Retries at hretries ⊢
  rw [hf.ptr, hf.index, hf.entry]
  exact hretries

end Fallback

namespace State

variable {o : Outcomes} {s s' : State} {n : LineNum} {ccm : CcmId} {f : Fallback → Fallback} {r : Fallback}
  {x : Option LineNum}

/-- What the invariant sees of a state, but for the queue. -/
def records (s : State) : Option (List Fallback) × List Fallback × (LineNum → Bool) × ℕ × Option ℕ × Bool :=
  (s.fallbackCcbList, s.lost, s.fallbackLinesAvailable, s.allocated, s.fallbackCcb, s.wanFailure)

end State

namespace Inv

open State

variable {o : Outcomes} {s s' : State} {n : LineNum} {ccm : CcmId} {f : Fallback → Fallback} {r : Fallback}
  {x : Option LineNum}

theorem congr (h : Inv x s) (heq : s'.records = s.records) (hposted : s.posted ⊆ s'.posted) : Inv x s' := by
  simp only [records, Prod.mk.injEq] at heq
  obtain ⟨hlist, hlost, hlines, hallocated, htable, hwan⟩ := heq
  have hfallbacks : s'.fallbacks = s.fallbacks := by rw [fallbacks, hlist, fallbacks]
  refine ⟨hwan ▸ h.wanFailure, hfallbacks ▸ h.indexNodup, hfallbacks ▸ h.ptrNodup, ?_, ?_, ?_, hlost ▸ h.lost⟩
  · rw [htable, hallocated]
    exact h.tableAllocated
  · intro r hr
    obtain ⟨hentry, hstate, htaken, hlt, htab⟩ := h.known r (hfallbacks ▸ hr)
    exact ⟨hentry, hstate, hlines ▸ htaken, hallocated ▸ hlt, htable ▸ htab⟩
  · intro r hr hx hpre
    exact (h.armed r (hfallbacks ▸ hr) hx hpre).mono hposted

theorem same (h : Inv x s) (heq : s'.records = s.records) (hposted : s'.posted = s.posted) : Inv x s' :=
  h.congr heq (hposted ▸ List.Subset.refl _)

theorem except (h : Inv none s) (x : Option LineNum) : Inv x s :=
  { h with armed := fun r hr _ => h.armed r hr (by simp) }

theorem of_except (h : Inv (some n) s)
    (harmed : ∀ r ∈ s.fallbacks, r.index = n → r.ccb.state ≠ .preFallback → r.Armed s.posted) : Inv none s := by
  refine { h with armed := fun r hr _ hpre => ?_ }
  by_cases hn : r.index = n
  · exact harmed r hr hn hpre
  · exact h.armed r hr (fun heq => hn (Option.some.inj heq)) hpre

theorem freeFallbackCcb (h : Inv (some n) s) : Inv none (s.freeFallbackCcb n) := by
  have hsub : (s.freeFallbackCcb n).fallbacks.Sublist s.fallbacks := by
    rw [fallbacks_freeFallbackCcb]
    exact List.filter_sublist
  have hmem : ∀ r ∈ (s.freeFallbackCcb n).fallbacks, r ∈ s.fallbacks ∧ r.index ≠ n := by
    intro r hr
    rw [fallbacks_freeFallbackCcb] at hr
    simpa using List.mem_filter.1 hr
  have hrest : (s.freeFallbackCcb n).wanFailure = s.wanFailure ∧ (s.freeFallbackCcb n).fallbackCcb = s.fallbackCcb ∧
      (s.freeFallbackCcb n).allocated = s.allocated ∧ (s.freeFallbackCcb n).posted = s.posted ∧
      (s.freeFallbackCcb n).lost = s.lost ∧
      ∀ m, m ≠ n → (s.freeFallbackCcb n).fallbackLinesAvailable m = s.fallbackLinesAvailable m := by
    unfold State.freeFallbackCcb
    split
    · simp
    · exact ⟨rfl, rfl, rfl, rfl, rfl, fun m hm => Function.update_of_ne hm _ _⟩
  obtain ⟨hwan, htable, hallocated, hposted, hlost, hlines⟩ := hrest
  refine ⟨hwan ▸ h.wanFailure, h.indexNodup.sublist (hsub.map _), h.ptrNodup.sublist (hsub.map _), ?_, ?_, ?_,
    hlost ▸ h.lost⟩
  · rw [htable, hallocated]
    exact h.tableAllocated
  · intro r hr
    obtain ⟨hr, hn⟩ := hmem r hr
    obtain ⟨hentry, hstate, htaken, hlt, htab⟩ := h.known r hr
    exact ⟨hentry, hstate, (hlines _ hn).trans htaken, hallocated ▸ hlt, htable ▸ htab⟩
  · intro r hr _ hpre
    obtain ⟨hr, hn⟩ := hmem r hr
    rw [hposted]
    exact h.armed r hr (fun heq => hn (Option.some.inj heq)) hpre

theorem freeFallbackCcbList (h : Inv x s) : Inv none s.freeFallbackCcbList :=
  ⟨h.wanFailure, List.nodup_nil, List.nodup_nil, h.tableAllocated, fun _ hr => absurd hr List.not_mem_nil,
    fun _ hr => absurd hr List.not_mem_nil, h.lost⟩

theorem modifyExcept (h : Inv (some n) s) (hf : Fallback.Moves f) : Inv (some n) (s.modifyFallback n f) := by
  have hkey : ∀ {κ : Type} (key : Fallback → κ), (∀ r, key (f r) = key r) →
      (s.modifyFallback n f).fallbacks.map key = s.fallbacks.map key := by
    intro κ key hkey
    rw [fallbacks_modifyFallback, List.map_map]
    refine List.map_congr_left fun r _ => ?_
    rw [Function.comp_apply]
    split_ifs
    · exact hkey r
    · rfl
  refine ⟨h.wanFailure, ?_, ?_, h.tableAllocated, ?_, ?_, h.lost⟩
  · rw [hkey _ hf.index]
    exact h.indexNodup
  · rw [hkey _ hf.ptr]
    exact h.ptrNodup
  · intro r hr
    obtain ⟨r₀, hr₀, rfl⟩ := mem_modifyFallback.1 hr
    split_ifs
    · obtain ⟨hentry, hstate, htaken, hlt, htab⟩ := (h.known r₀ hr₀).moves hf
      exact ⟨hentry, hstate, htaken, hlt, htab⟩
    · obtain ⟨hentry, hstate, htaken, hlt, htab⟩ := h.known r₀ hr₀
      exact ⟨hentry, hstate, htaken, hlt, htab⟩
  · intro r hr hx hpre
    obtain ⟨r₀, hr₀, rfl⟩ := mem_modifyFallback.1 hr
    split_ifs at hx hpre ⊢ with hn
    · exact absurd (congrArg some ((hf.index r₀).trans hn)) hx
    · exact h.armed r₀ hr₀ hx hpre

theorem modify (h : Inv (some n) s) (hf : Fallback.Moves f)
    (harmed : ∀ r ∈ s.fallbacks, r.index = n → (f r).ccb.state ≠ .preFallback → (f r).Armed s.posted) :
    Inv none (s.modifyFallback n f) := by
  refine (h.modifyExcept hf).of_except fun r hr hn hpre => ?_
  obtain ⟨r₀, hr₀, rfl⟩ := mem_modifyFallback.1 hr
  split_ifs at hn hpre ⊢ with heq
  · exact harmed r₀ hr₀ heq hpre
  · exact absurd hn heq

theorem rearm (h : Inv (some n) s) (hf : Fallback.Moves f) (htimer : ∀ r, (f r).retryTimer) :
    Inv none (s.modifyFallback n f) :=
  h.modify hf fun r _ _ _ => .inl (htimer r)

theorem keep (h : Inv none s) (hf : Fallback.Moves f)
    (hstate : ∀ r ∈ s.fallbacks, r.index = n → (f r).ccb.state ≠ .preFallback → r.ccb.state ≠ .preFallback)
    (htimer : ∀ r, (f r).retryTimer = r.retryTimer) : Inv none (s.modifyFallback n f) :=
  (h.except _).modify hf fun r hr hn hpre =>
    (h.armed r hr (by simp) (hstate r hr hn hpre)).moves hf fun ht => (htimer r).trans ht

theorem createFallbackCcb (h : Inv x s) : Inv x (s.createFallbackCcb o ccm) := by
  have htake : ∀ n, s.getFallbackLineNum = some n → (∀ r ∈ s.fallbacks, r.index ≠ n) ∧
      ∀ r ∈ s.fallbacks, (s.setFallbackLine n false).fallbackLinesAvailable r.index = false := by
    intro n hn
    have havailable : s.fallbackLinesAvailable n = true := List.find?_some hn
    have hne : ∀ r ∈ s.fallbacks, r.index ≠ n := by
      rintro r hr rfl
      simp [(h.known r hr).taken] at havailable
    exact ⟨hne, fun r hr => (Function.update_of_ne (hne r hr) _ _).trans (h.known r hr).taken⟩
  unfold State.createFallbackCcb
  split
  · exact h
  · split
    · exact h
    · next n hn =>
      obtain ⟨hne, htaken⟩ := htake n hn
      split
      · exact h
      · split
        · -- the line is lost
          refine ⟨h.wanFailure, h.indexNodup, h.ptrNodup, h.tableAllocated, fun r hr => ?_, h.armed, h.lost⟩
          exact { h.known r hr with taken := htaken r hr }
        · dsimp only
          split
          · next hnone =>
            have hnil : s.fallbacks = [] := by
              rw [fallbacks, show s.fallbackCcbList = none from hnone, Option.getD_none]
            refine ⟨h.wanFailure, h.indexNodup, h.ptrNodup, fun ptr hptr => ?_, ?_, h.armed, fun r hr => ?_⟩
            · exact Nat.lt_succ_of_lt (h.tableAllocated ptr hptr)
            · exact fun r hr => absurd (hnil ▸ hr) List.not_mem_nil
            · rcases List.mem_append.1 hr with hr | hr
              · exact h.lost r hr
              · rw [List.mem_singleton.1 hr]
          · next l hlist =>
            replace hlist : s.fallbackCcbList = some l := hlist
            have hl : s.fallbacks = l := by rw [fallbacks, hlist, Option.getD_some]
            rw [hl] at hne htaken
            have hknown := h.known
            have harmed := h.armed
            have hindex := h.indexNodup
            have hptr := h.ptrNodup
            rw [hl] at hknown harmed hindex hptr
            refine ⟨h.wanFailure, ?_, ?_, fun ptr hp => Nat.lt_succ_of_lt (h.tableAllocated ptr hp), ?_, ?_, h.lost⟩
            · simp only [fallbacks, Option.getD_some, List.map_append, List.map_cons, List.map_nil]
              refine hindex.append (List.nodup_singleton _) ?_
              simpa [List.Disjoint] using fun r hr => hne r hr
            · simp only [fallbacks, Option.getD_some, List.map_append, List.map_cons, List.map_nil]
              refine hptr.append (List.nodup_singleton _) ?_
              simpa [List.Disjoint] using fun r hr => (hknown r hr).allocated.ne
            · intro r hr
              rcases List.mem_append.1 hr with hr | hr
              · obtain ⟨hentry, hstate, _, hlt, htab⟩ := hknown r hr
                exact ⟨hentry, hstate, htaken r hr, Nat.lt_succ_of_lt hlt, htab⟩
              · rw [List.mem_singleton.1 hr]
                refine ⟨by simp, .inl rfl, Function.update_self .., Nat.lt_succ_self _, fun htab => ?_⟩
                exact absurd (h.tableAllocated _ htab) (Nat.lt_irrefl _)
            · intro r hr hx hpre
              rcases List.mem_append.1 hr with hr | hr
              · exact harmed r hr hx hpre
              · rw [List.mem_singleton.1 hr] at hpre
                exact absurd rfl hpre

theorem startMonitor_moves : Fallback.Moves (s.startMonitor o) := by
  constructor <;> intro r <;> unfold startMonitor <;> split
  all_goals first
    | rfl
    | exact .inl rfl
    | dsimp only
      split
      · first
        | rfl
        | exact .inr (.inl rfl)
      · split <;> first
        | rfl
        | exact .inr (.inl rfl)

theorem startMonitor_armed (hentry : r.ccb.entry ≠ none) {posted : List Msg}
    (h : r.ccb.state ≠ .preFallback → r.Armed posted) : (s.startMonitor o r).Armed posted := by
  unfold startMonitor
  split
  · dsimp only
    split
    · next heq => exact absurd heq hentry
    · split <;> exact .inl rfl
  · next hpre => exact h hpre

theorem triggerFallbackMonitor (h : Inv x s) : Inv x (s.triggerFallbackMonitor o) := by
  have hmoves : Fallback.Moves (s.startMonitor o) := startMonitor_moves
  have hfallbacks := fallbacks_triggerFallbackMonitor (s := s) (o := o)
  refine ⟨h.wanFailure, ?_, ?_, h.tableAllocated, ?_, ?_, h.lost⟩
  · have hindex : (s.fallbacks.map (s.startMonitor o)).map (·.index) = s.fallbacks.map (·.index) := by
      rw [List.map_map]
      exact List.map_congr_left fun r _ => hmoves.index r
    rw [hfallbacks, hindex]
    exact h.indexNodup
  · have hptr : (s.fallbacks.map (s.startMonitor o)).map (·.ptr) = s.fallbacks.map (·.ptr) := by
      rw [List.map_map]
      exact List.map_congr_left fun r _ => hmoves.ptr r
    rw [hfallbacks, hptr]
    exact h.ptrNodup
  · intro r hr
    rw [hfallbacks] at hr
    obtain ⟨r₀, hr₀, rfl⟩ := List.mem_map.1 hr
    obtain ⟨hentry, hstate, htaken, hlt, htab⟩ := (h.known r₀ hr₀).moves hmoves
    exact ⟨hentry, hstate, htaken, hlt, htab⟩
  · intro r hr hx _
    rw [hfallbacks] at hr
    obtain ⟨r₀, hr₀, rfl⟩ := List.mem_map.1 hr
    rw [hmoves.index] at hx
    exact startMonitor_armed (h.known r₀ hr₀).entry (h.armed r₀ hr₀ hx)

theorem registerSendMsg {cmd : Cmd} {ndx : CcbIndex} (h : Inv x s) : Inv x (s.registerSendMsg o cmd ndx) := by
  unfold State.registerSendMsg
  split
  · exact h
  · split
    · exact h.congr rfl (List.subset_append_left _ _)
    · exact h

/-! ### The prime line and the backup -/

theorem giveUp (h : Inv x s) : Inv x (s.giveUp o ccm) := by
  unfold State.giveUp
  split
  · exact h.createFallbackCcb
  · exact Inv.createFallbackCcb (h.same rfl rfl)

theorem registerPrime (h : Inv x s) : Inv x s.registerPrime := by
  unfold State.registerPrime
  split <;> exact h.same rfl rfl

theorem registerLines (h : Inv x s) : Inv x s.registerLines := by
  unfold State.registerLines
  split
  · exact h
  · exact h.registerPrime

theorem registerAllLines (h : Inv x s) : Inv x (s.registerAllLines o) := by
  unfold State.registerAllLines
  split
  · exact Inv.registerPrime (h.same rfl rfl)
  · exact h

theorem searchStandby (ccms : List CcmId) (h : Inv x s) : Inv x (State.searchStandby o ccms s).2 := by
  induction ccms generalizing s with
  | nil => exact h
  | cons ccm ccms ih =>
    rw [State.searchStandby]
    split
    · exact ih h
    · split
      · exact h.same rfl rfl
      · exact ih h.createFallbackCcb

theorem findStandby (h : Inv x s) : Inv x (s.findStandby o ccm).2 := by
  have hsearch := h.searchStandby (o := o) (after ccm)
  unfold State.findStandby
  split
  · next heq =>
    rw [heq] at hsearch
    exact hsearch.same rfl rfl
  · exact hsearch

theorem ccmGetNextActive (h : Inv x s) (entry : Option CcmId) : Inv x (s.ccmGetNextActive o entry).2 := by
  unfold State.ccmGetNextActive
  split
  · exact h
  · dsimp only
    split
    · exact Inv.same h.giveUp rfl rfl
    · exact Inv.findStandby (Inv.same h.giveUp rfl rfl)

theorem ccmGetNextStandby (h : Inv x s) (entry : Option CcmId) : Inv x (s.ccmGetNextStandby o entry).2 := by
  unfold State.ccmGetNextStandby
  split
  · exact h
  · exact h.giveUp.findStandby

theorem failover (h : Inv none s) {ccb : Ccb} : Inv none (s.failover o ccb) := by
  have hnext := h.ccmGetNextActive (o := o) ccb.entry
  unfold State.failover
  split
  · exact h
  · split <;> next heq =>
      rw [heq] at hnext
      first
        | exact hnext.freeFallbackCcbList
        | dsimp only
          split <;> exact hnext.same rfl rfl

theorem lineTmrAckRetry (h : Inv none s) : Inv none (s.lineTmrAckRetry o) := by
  unfold State.lineTmrAckRetry
  split
  · exact h.failover
  · exact h.failover
  · exact h.same rfl rfl
  · exact h

theorem backupTmrAckRetry (h : Inv none s) : Inv none (s.backupTmrAckRetry o) := by
  have hnext := h.ccmGetNextStandby (o := o) s.backup.entry
  unfold State.backupTmrAckRetry
  split
  · exact h.failover
  · exact h.failover
  · split
    · next ccm s' heq =>
      rw [heq] at hnext
      have hsetup : Inv none (s'.setupNewStandbyCcb ccm) := Inv.same (s := s') hnext rfl rfl
      exact hsetup.registerSendMsg.triggerFallbackMonitor
    · next s' heq =>
      rw [heq] at hnext
      exact Inv.triggerFallbackMonitor (Inv.same (s := s') hnext rfl rfl)
  · exact h

theorem replaceStandby (h : Inv none s) : Inv none (s.replaceStandby o) := by
  unfold State.replaceStandby
  split
  · exact h
  · next ccm _ =>
    have hsetup : Inv none (s.setupNewStandbyCcb ccm) := h.same rfl rfl
    refine Inv.same (s := State.registerSendMsg o _ _ _) (Inv.registerSendMsg ?_) rfl rfl
    split
    · exact hsetup
    · exact (hsetup.except _).freeFallbackCcb

/-! ### The fallback records -/

theorem keepalive (ccm : CcmId) (h : Inv (some n) s) : Inv none (s.keepalive o n ccm r) := by
  have hset : ∀ valid, Inv (some n) (s.setHandle ccm valid) := fun _ => h.same rfl rfl
  have hpoll : Fallback.Moves fun r => (r.sendRegister o ccm).retryTimerStart :=
    ⟨fun _ => rfl, fun _ => rfl, fun _ => rfl, fun _ => .inl rfl⟩
  have htls : Fallback.Moves Fallback.tlsRetryTimerStart :=
    ⟨fun _ => rfl, fun _ => rfl, fun _ => rfl, fun _ => .inl rfl⟩
  have hretry : Fallback.Moves Fallback.retryTimerStart := ⟨fun _ => rfl, fun _ => rfl, fun _ => rfl, fun _ => .inl rfl⟩
  unfold State.keepalive
  split_ifs
  · exact h.freeFallbackCcb
  · exact h.rearm hpoll fun _ => rfl
  · exact h.rearm htls fun _ => rfl
  · exact (hset true).rearm htls fun _ => rfl
  · exact h.rearm hretry fun _ => rfl
  · exact (hset true).rearm hpoll fun _ => rfl
  · exact h.rearm hretry fun _ => rfl

theorem moves_inFallback : Fallback.Moves (·.changeState .inFallback) :=
  ⟨fun _ => rfl, fun _ => rfl, fun _ => rfl, fun _ => .inr (.inl rfl)⟩

theorem fallbackTmrAckRetry (h : Inv (some n) s) (hentry : r.ccb.entry ≠ none)
    (hstate : r.ccb.state = .inFallback ∨ r.ccb.state = .tokenWait) :
    Inv none (s.fallbackTmrAckRetry o n r) := by
  obtain ⟨ccm, hccm⟩ := Option.ne_none_iff_exists'.1 hentry
  have hnext := (h.modifyExcept moves_inFallback).keepalive (o := o) (r := r) ccm
  unfold State.fallbackTmrAckRetry
  rcases hstate with hstate | hstate <;> simpa [hstate, hccm] using hnext

theorem fallbackDefault (h : Inv (some n) s) (hentry : r.ccb.entry ≠ none) : Inv none (s.fallbackDefault o n r) :=
  (h.modifyExcept moves_inFallback).fallbackTmrAckRetry hentry (.inl rfl)

theorem resendRegister (h : Inv none s) : Inv none (s.resendRegister o n r) := by
  unfold State.resendRegister
  split
  · exact h
  · exact h.keep ⟨fun _ => rfl, fun _ => rfl, fun _ => rfl, fun _ => .inl rfl⟩ (fun _ _ _ hpre => hpre)
      fun _ => rfl

theorem becomeStandby (h : Inv (some n) s) : Inv none (s.becomeStandby o n ccm) := by
  have hsetup : Inv (some n) (s.setupNewStandbyCcb ccm) := h.same rfl rfl
  exact hsetup.freeFallbackCcb.registerSendMsg

theorem checkAndTransition (h : Inv (some n) s) (hrearms : s.Rearms o ccm) :
    Inv none (s.checkAndTransition o n ccm) := by
  obtain ⟨active, hactive, hne, htoken, hstandby⟩ := hrearms
  unfold State.checkAndTransition
  simp only [h.wanFailure, hactive, Bool.false_eq_true, if_false]
  split
  · next hlt =>
    unfold State.requestToken
    split
    · next hidle =>
      rw [if_pos (htoken hlt hidle.1 hidle.2)]
      exact h.rearm ⟨fun _ => rfl, fun _ => rfl, fun _ => rfl, fun _ => .inr (.inr rfl)⟩ fun _ => rfl
    · exact h.rearm ⟨fun _ => rfl, fun _ => rfl, fun _ => rfl, fun _ => .inr (.inl rfl)⟩ fun _ => rfl
  · next hlt =>
    have hbehind : active < ccm := lt_of_le_of_ne (not_lt.1 hlt) (Ne.symm hne)
    unfold State.offerStandby
    split
    · exact h.becomeStandby
    · next standby hcurrent =>
      split
      · exact h.freeFallbackCcb
      · next hle =>
        obtain ⟨hidle, hentry⟩ := hstandby hbehind standby hcurrent (not_lt.1 hle)
        obtain ⟨old, hold⟩ := Option.ne_none_iff_exists'.1 hentry
        simp only [hidle, hold, Bool.false_eq_true, if_false]
        refine Inv.becomeStandby ?_
        split
        · exact h.same rfl rfl
        · exact h

theorem eq_of_index (h : Inv x s) (hr : r ∈ s.fallbacks) {r' : Fallback} (hr' : r' ∈ s.fallbacks)
    (hindex : r'.index = r.index) : r' = r :=
  Keyed.eq_of_key_eq h.indexNodup hr' hr hindex

theorem eq_of_ptr (h : Inv x s) (hr : r ∈ s.fallbacks) {r' : Fallback} (hr' : r' ∈ s.fallbacks)
    (hptr : r'.ptr = r.ptr) : r' = r :=
  Keyed.eq_of_key_eq h.ptrNodup hr' hr hptr

theorem of_preFallback (h : Inv (some r.index) s) (hr : r ∈ s.fallbacks) (hpre : r.ccb.state = .preFallback) :
    Inv none s :=
  h.of_except fun _ hr' hindex hne => absurd hpre (h.eq_of_index hr hr' hindex ▸ hne)

theorem inFallback2xx (h : Inv (some n) s) (hentry : r.ccb.entry = some ccm)
    (hrearms : s.Rearms o ccm) : Inv none (s.inFallback2xx o n r) := by
  unfold State.inFallback2xx
  simp only [hentry]
  refine Inv.checkAndTransition (h.modifyExcept ?_) hrearms
  exact ⟨fun _ => rfl, fun _ => rfl, fun _ => rfl, fun _ => .inl rfl⟩

theorem setTable (h : Inv x s) (hr : r ∈ s.fallbacks) (hstate : r.ccb.state ≠ .preFallback)
    (hlist : s'.fallbackCcbList = s.fallbackCcbList) (hlost : s'.lost = s.lost)
    (hlines : s'.fallbackLinesAvailable = s.fallbackLinesAvailable) (hallocated : s'.allocated = s.allocated)
    (htable : s'.fallbackCcb = some r.ptr)
    (hwan : s'.wanFailure = s.wanFailure) (hposted : s'.posted = s.posted) : Inv x s' := by
  have hfallbacks : s'.fallbacks = s.fallbacks := by rw [fallbacks, hlist, fallbacks]
  refine ⟨hwan ▸ h.wanFailure, hfallbacks ▸ h.indexNodup, hfallbacks ▸ h.ptrNodup, ?_, ?_, ?_, hlost ▸ h.lost⟩
  · intro ptr hptr
    rw [htable, Option.some.injEq] at hptr
    rw [hallocated, ← hptr]
    exact (h.known r hr).allocated
  · intro r' hr'
    rw [hfallbacks] at hr'
    obtain ⟨hentry, hknown, htaken, hlt, -⟩ := h.known r' hr'
    refine ⟨hentry, hknown, hlines ▸ htaken, hallocated ▸ hlt, fun hptr => ?_⟩
    rw [htable, Option.some.injEq] at hptr
    rw [h.eq_of_ptr hr hr' hptr.symm]
    exact hstate
  · rw [hfallbacks, hposted]
    exact h.armed

theorem tokenWait2xx (h : Inv none s) (hr : r ∈ s.fallbacks) (hstate : r.ccb.state = .tokenWait) :
    Inv none (s.tokenWait2xx r.index r) := by
  have hmoves : Fallback.Moves fun r : Fallback =>
      { r with ccb := { r.ccb with registerSent := false } }.timerStop .wait :=
    ⟨fun _ => rfl, fun _ => rfl, fun _ => rfl, fun _ => .inl rfl⟩
  have hstop := h.keep (n := r.index) hmoves (fun _ _ _ hpre => hpre) fun _ => rfl
  unfold State.tokenWait2xx
  dsimp only
  split
  · refine hstop.setTable (r := { r with ccb := { r.ccb with registerSent := false } }.timerStop .wait) ?_ ?_
      rfl rfl rfl rfl rfl rfl rfl
    · exact mem_modifyFallback.2 ⟨r, hr, if_pos rfl⟩
    · simp [Fallback.timerStop, hstate]
  · exact Inv.rearm (hstop.except _) ⟨fun _ => rfl, fun _ => rfl, fun _ => rfl, fun _ => .inr (.inl rfl)⟩
      fun _ => rfl

theorem tokenWait4xx5xx (h : Inv none s) {wait : Bool} : Inv none (s.tokenWait4xx5xx n wait) := by
  unfold State.tokenWait4xx5xx
  cases wait with
  | true =>
    exact h.keep ⟨fun _ => rfl, fun _ => rfl, fun _ => rfl, fun _ => .inl rfl⟩ (fun _ _ _ hpre => hpre)
      fun _ => rfl
  | false =>
    exact (h.except _).rearm ⟨fun _ => rfl, fun _ => rfl, fun _ => rfl, fun _ => .inr (.inl rfl)⟩ fun _ => rfl

theorem tokenWaitTmrWait (h : Inv none s) : Inv none (s.tokenWaitTmrWait o n) :=
  (h.except _).rearm ⟨fun _ => rfl, fun _ => rfl, fun _ => rfl, fun _ => .inl rfl⟩ fun _ => rfl

theorem evCleanup (h : Inv none s) : Inv none (s.evCleanup o n r) := by
  have hactive : Inv none (s.setupNewActiveCcb r.ccb.entry) := h.same rfl rfl
  have hfree : Inv none ((s.setupNewActiveCcb r.ccb.entry).freeFallbackCcb n) := (hactive.except _).freeFallbackCcb
  unfold State.evCleanup
  dsimp only
  refine Inv.registerSendMsg ?_
  generalize hs₁ : (s.setupNewActiveCcb r.ccb.entry).freeFallbackCcb n = s₁ at hfree ⊢
  have hlines : Inv none (if s₁.isResp then { s₁.registerAllLines o with fallbackCcmEntry := none }
      else { s₁.registerPrime with primeRegistered := true }) := by
    split
    · exact Inv.same (hfree.registerAllLines (o := o)) rfl rfl
    · exact Inv.same hfree.registerPrime rfl rfl
  generalize (if s₁.isResp then { s₁.registerAllLines o with fallbackCcmEntry := none }
      else { s₁.registerPrime with primeRegistered := true } : State) = s₂ at hlines ⊢
  split
  · exact hlines
  · split <;> exact hlines.same rfl rfl

theorem authenticate (h : Inv none s) {c : Challenge} (hc : ¬c.Discards o r) : Inv none (s.authenticate o n r c) := by
  cases c with
  | noCredentials => exact h.freeFallbackCcbList
  | unparsed => exact h
  | unsupported => exact absurd trivial hc
  | digest =>
    have hsent : r.ccb.entry.any o.sendRegister = true := by simpa [Challenge.Discards] using hc
    simp only [State.authenticate, hsent, if_true]
    exact h.resendRegister

variable {resp : Response}

theorem tokenWaitResponse (h : Inv none s) (hr : r ∈ s.fallbacks) (hstate : r.ccb.state = .tokenWait)
    (hkeeps : ¬r.Discards o .tokenWait (.response resp)) :
    Inv none (s.tokenWaitResponse o r.index r resp) := by
  have hentry := (h.known r hr).entry
  cases resp with
  | trying => exact h
  | progress => exact absurd trivial hkeeps
  | success => exact h.tokenWait2xx hr hstate
  | redirect usable => exact (h.except _).fallbackDefault hentry
  | challenge c => exact h.authenticate hkeeps
  | intervalTooSmall => exact h.resendRegister
  | busyHere retryAfter => exact h.tokenWait4xx5xx
  | notFound retryAfter => exact h.tokenWait4xx5xx
  | clientError => exact h.tokenWait4xx5xx
  | unavailable retryAfter => exact h.tokenWait4xx5xx
  | failure => exact (h.except _).fallbackDefault hentry

theorem inFallbackResponse (h : Inv none s) (hr : r ∈ s.fallbacks) (hkeeps : ¬r.Discards o .inFallback (.response resp))
    (hrearms : resp = .success → ∀ ccm, r.ccb.entry = some ccm → s.Rearms o ccm) :
    Inv none (s.inFallbackResponse o r.index r resp) := by
  have hentry := (h.known r hr).entry
  have hretry : Inv none (s.modifyFallback r.index .retryTimerStart) :=
    (h.except _).rearm ⟨fun _ => rfl, fun _ => rfl, fun _ => rfl, fun _ => .inl rfl⟩ fun _ => rfl
  cases resp with
  | trying => exact h
  | progress => exact absurd trivial hkeeps
  | success =>
    obtain ⟨ccm, hccm⟩ := Option.ne_none_iff_exists'.1 hentry
    exact (h.except _).inFallback2xx hccm (hrearms rfl ccm hccm)
  | redirect usable => exact (h.except _).fallbackDefault hentry
  | challenge c => exact hretry
  | intervalTooSmall => exact hretry
  | busyHere retryAfter => exact hretry
  | notFound retryAfter => exact hretry
  | clientError => exact hretry
  | unavailable retryAfter => exact hretry
  | failure => exact hretry

theorem preFallbackResponse (h : Inv none s) (hkeeps : ¬r.Discards o .unregistering (.response resp)) :
    Inv none (s.preFallbackResponse o r.index r resp) := by
  have hretryAfter : ∀ retryAfter : Bool, Inv none (if retryAfter then s else s.freeFallbackCcbList) := by
    intro retryAfter
    split
    · exact h
    · exact h.freeFallbackCcbList
  cases resp with
  | trying => exact h
  | progress => exact absurd trivial hkeeps
  | success => exact absurd trivial hkeeps
  | redirect usable =>
    have hsent : s.preFallbackResponse o r.index r (.redirect usable) = s.resendRegister o r.index r :=
      if_pos (not_not.1 hkeeps)
    rw [hsent]
    exact h.resendRegister
  | challenge c => exact h.authenticate hkeeps
  | intervalTooSmall => exact h.resendRegister
  | busyHere retryAfter => exact hretryAfter retryAfter
  | notFound retryAfter => exact hretryAfter retryAfter
  | clientError => exact h.freeFallbackCcbList
  | unavailable retryAfter => exact hretryAfter retryAfter
  | failure => exact h.freeFallbackCcbList

/-- An event for a record. The handler of the retry timer finds it without its timer. -/
theorem fallbackEvent {ev : RegEvent} (h : Inv (some r.index) s) (hev : ev ≠ .tmrRetry → Inv none s)
    (hr : r ∈ s.fallbacks) (hkeeps : ¬r.Discards o r.ccb.state ev)
    (hrearms : r.ccb.state = .inFallback → ev = .response .success → ∀ ccm, r.ccb.entry = some ccm → s.Rearms o ccm) :
    Inv none (s.fallbackEvent o r.index r r.ccb.state ev) := by
  have hentry := (h.known r hr).entry
  rcases (h.known r hr).state with hstate | hstate | hstate
  · -- the record does not leave SIP_REG_PRE_FALLBACK
    have hnone := h.of_preFallback hr hstate
    rw [hstate] at hkeeps ⊢
    cases ev with
    | cancel => exact hnone.resendRegister
    | response resp => exact hnone.preFallbackResponse hkeeps
    | tmrAck => exact absurd trivial hkeeps
    | tmrWait => exact hnone.registerSendMsg
    | tmrRetry =>
      have hresent : s.fallbackEvent o r.index r .unregistering .tmrRetry = s := if_neg hkeeps
      rw [hresent]
      exact hnone
    | cleanup => exact h.fallbackDefault hentry
  · have hretry := h.fallbackTmrAckRetry (o := o) hentry (.inl hstate)
    rw [hstate] at hkeeps ⊢
    cases ev with
    | cancel => exact (hev (by simp)).resendRegister
    | response resp => exact (hev (by simp)).inFallbackResponse hr hkeeps fun heq => hrearms hstate (heq ▸ rfl)
    | tmrAck => exact hretry
    | tmrWait => exact h.fallbackDefault hentry
    | tmrRetry => exact hretry
    | cleanup => exact h.fallbackDefault hentry
  · have hretry := h.fallbackTmrAckRetry (o := o) hentry (.inr hstate)
    rw [hstate] at hkeeps ⊢
    cases ev with
    | cancel => exact h.fallbackDefault hentry
    | response resp => exact (hev (by simp)).tokenWaitResponse hr hstate hkeeps
    | tmrAck => exact hretry
    | tmrWait => exact (hev (by simp)).tokenWaitTmrWait
    | tmrRetry => exact hretry
    | cleanup => exact (hev (by simp)).evCleanup

theorem fallbackProcess {ev : RegEvent} (h : Inv (some n) s) (hev : ev ≠ .tmrRetry → Inv none s)
    (hkeeps : s.KeepsRecord o n ev) : Inv none (s.fallbackProcess o n ev) := by
  unfold State.fallbackProcess
  split
  · next hnone =>
    exact h.of_except fun r hr hindex _ => absurd hindex (getFallbackCcbByIndex_eq_none hnone r hr)
  · next r hfound =>
    obtain ⟨hr, rfl⟩ := mem_of_getFallbackCcbByIndex hfound
    obtain ⟨hdiscards, hrearms⟩ := hkeeps r hr rfl
    exact h.fallbackEvent hev hr hdiscards hrearms

/-! ### The queue -/

theorem leave {m : Msg} {ms : List Msg} (h : Inv none s) (hposted : s.posted = m :: ms)
    (hfor : ∀ r ∈ s.fallbacks, m.Retries r → some r.index = x) : Inv x (s.leave ms) := by
  refine ⟨h.wanFailure, h.indexNodup, h.ptrNodup, h.tableAllocated, fun r hr => ?_, fun r hr hx hpre => ?_,
    h.lost⟩
  · obtain ⟨hentry, hstate, htaken, hlt, htab⟩ := h.known r hr
    exact ⟨hentry, hstate, htaken, hlt, htab⟩
  · refine (h.armed r hr (by simp) hpre).imp_right fun ⟨m', hm', hretries⟩ => ?_
    rw [hposted] at hm'
    rcases List.mem_cons.1 hm' with rfl | hm'
    · exact absurd (hfor r hr hretries) hx
    · exact ⟨m', hm', hretries⟩

theorem entryOf_fallback (h : Inv x s) (hr : r ∈ s.fallbacks) : s.entryOf (.fallback r.index) = r.ccb.entry := by
  have hfound : s.getFallbackCcbByIndex r.index = some r := Keyed.find?_eq h.indexNodup hr rfl
  simp [entryOf, getCcbByIndex, hfound]

theorem timeoutExpire {t : Timer} {ptr : ℕ} {ms : List Msg} (h : Inv none s)
    (hposted : s.posted = .timerExpiration t ptr :: ms) (hsend : o.sendMsg)
    (hlive : ∃ r ∈ s.fallbacks, r.ptr = ptr) : Inv none ((s.leave ms).timeoutExpire o t ptr) := by
  obtain ⟨r, hr, rfl⟩ := hlive
  have hfind : (s.leave ms).fallbacks.find? (·.ptr = r.ptr) = some r := Keyed.find?_eq h.ptrNodup hr rfl
  unfold State.timeoutExpire
  rw [hfind]
  cases t with
  | wait =>
    have hleave : Inv none (s.leave ms) := h.leave hposted fun _ _ hretries => hretries.elim
    have hkeep : Inv none ((s.leave ms).modifyFallback r.index (·.timerStop .wait)) :=
      hleave.keep ⟨fun _ => rfl, fun _ => rfl, fun _ => rfl, fun _ => .inl rfl⟩ (fun _ _ _ hpre => hpre)
        fun _ => rfl
    exact hkeep.registerSendMsg
  | retry =>
    have hleave : Inv (some r.index) (s.leave ms) :=
      h.leave hposted fun r' hr' hretries => by rw [h.eq_of_ptr hr hr' hretries.symm]
    obtain ⟨ccm, hccm⟩ := Option.ne_none_iff_exists'.1 (h.known r hr).entry
    have hentry := (hleave.entryOf_fallback hr).trans hccm
    have hposted' : Inv (some r.index) ((s.leave ms).registerSendMsg o .tmrRegRetry (.fallback r.index)) :=
      hleave.registerSendMsg
    refine hposted'.of_except fun r' hr' hindex _ => ?_
    have hsent : ((s.leave ms).registerSendMsg o .tmrRegRetry (.fallback r.index)) =
        { s.leave ms with posted := ms ++ [.reg .tmrRegRetry (.fallback r.index) ccm] } := by
      simp only [State.registerSendMsg, hentry, hsend, if_true]
      rfl
    rw [hsent] at hr' ⊢
    rw [h.eq_of_index hr hr' hindex]
    exact .inr ⟨_, List.mem_append_right _ (List.mem_singleton_self _), rfl, hccm⟩

theorem process {cmd : Cmd} {ndx : CcbIndex} {ms : List Msg} (h : Inv none s)
    (hposted : s.posted = .reg cmd ndx ccm :: ms)
    (hkeeps : ∀ n, ndx = .fallback n → (cmd = .tmrRegRetry → s.entryOf (.fallback n) = some ccm) →
      s.KeepsRecord o n cmd.event) :
    Inv none ((s.leave ms).process o cmd ccm ndx) := by
  cases ndx with
  | fallback n =>
    have hexcept : Inv (some n) (s.leave ms) := by
      refine h.leave hposted fun r _ hretries => ?_
      cases cmd with
      | tmrRegRetry => rw [hretries.1]
      | tmrRegWait => exact hretries.elim
      | regCancel => exact hretries.elim
      | regCleanup => exact hretries.elim
    have hother : cmd ≠ .tmrRegRetry → Inv none (s.leave ms) := fun hcmd =>
      h.leave hposted fun _ _ hretries => by cases cmd <;> first | exact absurd rfl hcmd | exact hretries.elim
    cases cmd with
    | tmrRegRetry =>
      unfold State.process
      dsimp only
      split
      · next hentry => exact hexcept.fallbackProcess (fun hev => absurd rfl hev) (hkeeps n rfl fun _ => hentry)
      · next hentry =>
        -- the message is for another call manager, so that it is thrown away
        refine h.leave hposted fun r hr hretries => absurd ?_ hentry
        obtain ⟨rfl, hccm⟩ := hretries
        exact (h.entryOf_fallback hr).trans hccm
    | tmrRegWait => exact hexcept.fallbackProcess (fun _ => hother (by simp)) (hkeeps n rfl (by simp))
    | regCancel => exact hexcept.fallbackProcess (fun _ => hother (by simp)) (hkeeps n rfl (by simp))
    | regCleanup => exact hexcept.fallbackProcess (fun _ => hother (by simp)) (hkeeps n rfl (by simp))
  | line =>
    have hleave : Inv none (s.leave ms) := h.leave hposted fun _ _ hretries => by
      cases cmd <;> exact hretries.elim
    cases cmd with
    | tmrRegRetry =>
      unfold State.process
      dsimp only
      split
      · exact hleave.lineTmrAckRetry
      · exact hleave
    | regCancel => exact hleave.same rfl rfl
    | tmrRegWait => exact hleave
    | regCleanup => exact hleave
  | backup =>
    have hleave : Inv none (s.leave ms) := h.leave hposted fun _ _ hretries => by
      cases cmd <;> exact hretries.elim
    cases cmd with
    | tmrRegRetry =>
      unfold State.process
      dsimp only
      split
      · exact hleave.backupTmrAckRetry
      · exact hleave
    | regCancel => exact hleave.same rfl rfl
    | tmrRegWait => exact hleave
    | regCleanup => exact hleave

/-! ### Events -/

theorem setupCcConns (h : Inv none s) (ccms : List CcmId) (active : Bool) :
    Inv none (s.setupCcConns o ccms active).2 := by
  induction ccms generalizing s active with
  | nil => exact h
  | cons ccm ccms ih =>
    rw [State.setupCcConns]
    split
    · split
      · exact h.same rfl rfl
      · exact ih (s := { s.setHandle ccm true with activeCcmEntry := some ccm }) (h.same rfl rfl) _
    · split
      · exact ih h.createFallbackCcb _
      · exact ih h _

theorem init (h : Inv none s) (hnone : s.fallbacks = []) : Inv none (s.init o) := by
  have hlist : Inv none s.createFallbackCcbList := by
    refine ⟨h.wanFailure, List.nodup_nil, List.nodup_nil, h.tableAllocated, ?_, ?_, ?_⟩
    · exact fun _ hr => absurd hr List.not_mem_nil
    · exact fun _ hr => absurd hr List.not_mem_nil
    · rw [State.createFallbackCcbList, hnone, List.append_nil]
      exact h.lost
  have hconns := hlist.setupCcConns (o := o) (List.finRange 3) false
  unfold State.init
  split <;> next heq =>
    rw [heq] at hconns
    first
      | exact Inv.freeFallbackCcbList (Inv.same hconns rfl rfl)
      | exact Inv.same hconns.triggerFallbackMonitor rfl rfl

theorem timerExpires {t : Timer} (h : Inv none s) (hr : r ∈ s.fallbacks) (hsend : o.sendMsg) :
    Inv none (s.timerExpires o t r.index r) := by
  have hmoves : Fallback.Moves fun r => r.timerStop t := by
    cases t <;> exact ⟨fun _ => rfl, fun _ => rfl, fun _ => rfl, fun _ => .inl rfl⟩
  have hexcept := (h.except (some r.index)).modifyExcept hmoves
  unfold State.timerExpires
  simp only [hsend, if_true]
  refine Inv.of_except (hexcept.congr rfl (List.subset_append_left _ _)) fun r' hr' hindex hpre => ?_
  obtain ⟨r₀, hr₀, rfl⟩ := mem_modifyFallback.1 hr'
  split_ifs at hindex hpre ⊢ with hn
  · obtain rfl := h.eq_of_index hr hr₀ hn
    cases t with
    | wait =>
      have harmed := (h.armed r₀ hr (by simp) hpre).moves hmoves fun ht => ht
      exact harmed.mono (List.subset_append_left _ _)
    | retry => exact .inr ⟨_, List.mem_append_right _ (List.mem_singleton_self _), rfl⟩
  · exact absurd hindex hn

theorem phoneIdle {waited : Bool} (h : Inv none s) (hlive : ∃ r ∈ s.fallbacks, s.fallbackCcb = some r.ptr) :
    Inv none (s.phoneIdle o waited) := by
  obtain ⟨r, hr, htable⟩ := hlive
  have hfind : s.fallbacks.find? (·.ptr = r.ptr) = some r := Keyed.find?_eq h.ptrNodup hr rfl
  have hend : Inv none s.endFallback := h.same rfl rfl
  unfold State.phoneIdle
  rw [htable]
  dsimp only
  rw [hfind]
  dsimp only
  split
  · refine hend.keep ?_ ?_ ?_
    · constructor <;> intro r <;> unfold Fallback.regmgrSendRefer <;> split <;> first
        | rfl
        | exact .inl rfl
        | exact .inr (.inr rfl)
    · intro r' hr' hindex _
      rw [h.eq_of_index hr hr' hindex]
      exact (h.known r hr).table htable
    · intro r
      unfold Fallback.regmgrSendRefer
      split <;> rfl
  · exact h.registerSendMsg.registerSendMsg

theorem moves_answered (resp : Response) : Fallback.Moves (answered · resp) := by
  cases resp <;> exact ⟨fun _ => rfl, fun _ => rfl, fun _ => rfl, fun _ => .inl rfl⟩

theorem response (h : Inv none s) (hkeeps : s.KeepsRecord o n (.response resp)) :
    Inv none ((s.modifyFallback n (answered · resp)).fallbackProcess o n (.response resp)) := by
  have hstate : ∀ r : Fallback, (answered r resp).ccb.state = r.ccb.state := by
    intro r
    cases resp <;> rfl
  have hentry := (moves_answered resp).entry
  have hnext : Inv none (s.modifyFallback n (answered · resp)) :=
    h.keep (moves_answered resp) (fun r _ _ hpre => hstate r ▸ hpre) fun r => by cases resp <;> rfl
  refine (hnext.except _).fallbackProcess (fun _ => hnext) fun r hr hindex => ?_
  obtain ⟨r₀, hr₀, rfl⟩ := mem_modifyFallback.1 hr
  split_ifs at hindex ⊢ with hn
  · obtain ⟨hdiscards, hrearms⟩ := hkeeps r₀ hr₀ hn
    refine ⟨fun hdiscard => hdiscards ?_, fun hin hev ccm hccm => ?_⟩
    · rw [hstate] at hdiscard
      unfold Fallback.Discards Challenge.Discards at hdiscard ⊢
      rw [hentry] at hdiscard
      exact hdiscard
    · exact hrearms (hstate r₀ ▸ hin) hev ccm (hentry r₀ ▸ hccm)
  · exact absurd hindex hn

theorem fallbackRsp (h : Inv none s) : Inv none s.fallbackRsp := by
  have hresp : Inv none { s with isResp := true } := h.same rfl rfl
  unfold State.fallbackRsp
  dsimp only
  split
  · exact hresp.same rfl rfl
  · exact Inv.same hresp.registerLines rfl rfl

theorem handle (h : Inv none s) (ev : Event) (hkeeps : Keeps s ev o) : Inv none (s.handle o ev) := by
  cases ev with
  | init => exact h.init hkeeps
  | shutdown => exact Inv.same h.freeFallbackCcbList rfl rfl
  | timerExpires t n =>
    unfold State.handle
    dsimp only
    split
    · exact h
    · next r hfound =>
      obtain ⟨hr, rfl⟩ := mem_of_getFallbackCcbByIndex hfound
      split
      · exact h.timerExpires hr hkeeps
      · exact h
  | deliver =>
    unfold State.handle State.deliver
    unfold Keeps at hkeeps
    dsimp only at hkeeps ⊢
    split
    · exact h
    · next t ptr ms hposted =>
      simp only [hposted] at hkeeps
      exact h.timeoutExpire hposted hkeeps.1 hkeeps.2
    · next cmd ndx ccm ms hposted =>
      refine h.process hposted fun n hndx hcmd => ?_
      subst hndx
      simp only [hposted] at hkeeps
      exact hkeeps hcmd
  | tmrAck ndx =>
    cases ndx with
    | line => exact h.lineTmrAckRetry
    | backup => exact h.backupTmrAckRetry
    | fallback n => exact (h.except _).fallbackProcess (fun _ => h) hkeeps
  | response n resp =>
    unfold State.handle
    dsimp only
    split
    · exact h
    · split
      · exact h.response hkeeps
      · exact h
  | lineRejected => exact h.freeFallbackCcbList
  | backup2xx =>
    unfold State.handle
    dsimp only
    split
    · exact Inv.replaceStandby (s := { s with backup := _ }) (h.same rfl rfl)
    · exact h
  | standbyKeepalive =>
    unfold State.handle
    dsimp only
    split
    · exact h.registerSendMsg
    · exact h
  | lineMoves state registerSent reset => exact h.same rfl rfl
  | backupMoves state registerSent reset => exact h.same rfl rfl
  | failoverRspStart =>
    have hactive : Inv none (s.setupNewActiveCcb s.failoverCcmEntry) := h.same rfl rfl
    exact Inv.same hactive.registerPrime rfl rfl
  | failoverRspComplete => exact Inv.same (h.registerLines.triggerFallbackMonitor (o := o)) rfl rfl
  | phoneIdle waited => exact h.phoneIdle hkeeps
  | fallbackRsp => exact h.fallbackRsp
  | createConnFailed ccm =>
    have hclosed : Inv none (s.setHandle ccm false) := h.same rfl rfl
    unfold State.handle State.createConnFailed
    dsimp only
    split
    · exact hclosed.registerSendMsg
    · split
      · exact hclosed.registerSendMsg
      · exact hclosed

end Inv

theorem Run.mono {P Q : State → Event → Outcomes → Prop} {s : State} (h : Run P s)
    (himp : ∀ s ev o, P s ev o → Q s ev o) : Run Q s := by
  induction h with
  | start => exact .start
  | step s ev o _ hev ih => exact ih.step s ev o (himp s ev o hev)

theorem Run.inv {s : State} (h : Run Keeps s) : Inv none s := by
  induction h with
  | start =>
    refine ⟨rfl, List.nodup_nil, List.nodup_nil, fun _ hptr => (nomatch hptr), ?_, ?_, ?_⟩
    all_goals exact fun _ hr => absurd hr List.not_mem_nil
  | step s ev o _ hkeeps ih => exact ih.handle ev hkeeps

/-- The primary cannot be connected to at the start, and the timer of its record runs out. -/
def primaryWaits : State :=
  (({} : State).handle { connect := (· ≠ 0) } .init).handle {} (.timerExpires .retry 0)

theorem run_primaryWaits : Run Keeps primaryWaits := .step _ _ _ (.step _ _ _ .start rfl) rfl

/-- The primary then answers a keepalive, and the REFER for a token does not go. -/
def tokenFails : State :=
  ((primaryWaits.handle {} .deliver).handle {} .deliver).handle { sendRefer := false } (.response 0 .success)

end Sip.Regmgr
