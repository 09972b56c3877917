import Ikran.Gsm.Process

/-!
# Refused calls

A call that is refused at once leaves the tables, the counters and the list of calls as they were, unless a
set-up is cleaned up on a line on which it was not counted, or a feature is refused after its chain has been
set up. A set-up for which there is no data follows a null pointer.
-/

namespace Gsm

open Pool

namespace Fim

variable {config : ℕ → LineConfig} {s s' s₁ s₂ : Fim} {k : ChnId} {f : FcbId} {msg : FimMsg}
  {d : Decisions} {callId : CallId}

/-- The same chains, blocks and data work for calls, the lines count as many calls, and the same calls are
waited for. -/
structure LeftAsIs (s s' : Fim) : Prop where
  chns : ∀ k, s'.blocks.Busy k ↔ s.blocks.Busy k
  fcbs : ∀ f, (s'.blocks.fcbs f).callId = noCallId ↔ (s.blocks.fcbs f).callId = noCallId
  dcbs : ∀ d, (s'.blocks.dcbs d).callId = noCallId ↔ (s.blocks.dcbs d).callId = noCallId
  lines : ∀ l, (s'.lines l).callPerline = (s.lines l).callPerline
  dcsm : s'.dcsm = s.dcsm

theorem LeftAsIs.refl (s : Fim) : LeftAsIs s s := ⟨fun _ => .rfl, fun _ => .rfl, fun _ => .rfl, fun _ => rfl, rfl⟩

/-- There is no room for a new call: no chain, no block, no data, or no line is free, or a set-up has no
called number or a line that is busy. -/
def NoRoom (s : Fim) (msg : FimMsg) (d : Decisions) : Prop :=
  s.blocks.fimGetCallChnByCallId noCallId = none ∨ s.blocks.fsmGetFcbByCallId noCallId = none ∨
    s.blocks.fsmdefGetDcbByCallId noCallId = none ∨ d.facility ≠ .ok ∨
      msg.msgId = .setup ∧ (msg.calledNumber = false ∨ s.lines.isLineAvailable d.freeLine = false)

/-- What becomes of a message leaves everything as it is when the call is refused, and follows no null
pointer when there is no room. -/
def Clean (noRoom : Prop) (s : Fim) : Except Crash (Outcome × Fim) → Prop
  | .error _ => ¬ noRoom
  | .ok (outcome, s') => outcome = .refused → LeftAsIs s s'

/-- A message that is refused leaves everything as it is. -/
def RefusedCleanly (config : ℕ → LineConfig) (s : Fim) (msg : FimMsg) (d : Decisions) : Prop :=
  Clean (s.NoRoom msg d) s (s.fimProcessEvent config msg d)

/-- A set-up without a called number has no line that is counted. Another set-up finds data, and when it
finds no instance of its line, it has the line on which it is counted, if it is. -/
def SetupRefusalOk (s : Fim) (msg : FimMsg) (d : Decisions) : Prop :=
  if msg.calledNumber = false then ¬ Lines.Valid msg.line
  else s.blocks.fsmdefGetDcbByCallId noCallId ≠ none ∧
    (d.facility = .noResource →
      if msg.monitor = false ∧ msg.replaces = false then
        s.lines.isLineAvailable 1 = true → msg.line = 1
      else ¬ Lines.Valid msg.line)

/-- The condition on a message for which there is a chain. A set-up meets its own condition. A feature finds
data and a line. -/
def RefusalOk (s : Fim) (msg : FimMsg) (d : Decisions) : Prop :=
  s.blocks.fimGetCallChnByCallId noCallId ≠ none →
    match msg.msgId with
    | .setup => s.SetupRefusalOk msg d
    | .feature .select | .feature .dirtrxfr | .feature .b2bconf | .feature .cfwdAll =>
      s.blocks.fsmdefGetDcbByCallId noCallId ≠ none ∧ d.facility = .ok
    | _ => True

/-! ## What a new call takes -/

/-- The chain, blocks and data that were free and work for the call now are all that has changed. -/
structure Grown (s s' : Fim) (k : ChnId) (callId : CallId) : Prop where
  free : ¬ s.blocks.Busy k
  chn : (s'.blocks.chns k).callId = callId
  chns : ∀ k', k' ≠ k → s'.blocks.chns k' = s.blocks.chns k'
  fcbs : ∀ f, if (s'.blocks.fcbs f).callId = callId then (s.blocks.fcbs f).callId = noCallId
    else (s'.blocks.fcbs f).callId = (s.blocks.fcbs f).callId
  dcbs : ∀ d, if (s'.blocks.dcbs d).callId = callId then (s.blocks.dcbs d).callId = noCallId
    else (s'.blocks.dcbs d).callId = (s.blocks.dcbs d).callId
  dcsm : s'.dcsm = s.dcsm

theorem Grown.of_sameLinks (h : Grown s s₁ k callId) (hsame : Blocks.SameLinks s₁.blocks s₂.blocks)
    (hdcsm : s₂.dcsm = s₁.dcsm) : Grown s s₂ k callId where
  free := h.free
  chn := by rw [hsame.chns]; exact h.chn
  chns := by rw [hsame.chns]; exact h.chns
  fcbs f := by rw [hsame.fcbCall]; exact h.fcbs f
  dcbs d := by rw [hsame.dcbCall]; exact h.dcbs d
  dcsm := hdcsm.trans h.dcsm

theorem Grown.withData (h : Grown s s₁ k callId) {dcb : DcbId} {line : ℕ}
    (hdcb : (s.blocks.dcbs dcb).callId = noCallId) :
    Grown s (s₁.setBlocks (s₁.blocks.withData dcb callId line f)) k callId where
  free := h.free
  chn := h.chn
  chns := h.chns
  fcbs g := by
    have hcall : ((s₁.blocks.withData dcb callId line f).fcbs g).callId = (s₁.blocks.fcbs g).callId := by
      simp only [Blocks.withData]
      split <;> rfl
    rw [setBlocks, hcall]
    exact h.fcbs g
  dcbs d' := by
    by_cases hd : d' = dcb
    · subst hd
      simpa [setBlocks, Blocks.withData] using hdcb
    · simpa [setBlocks, Blocks.withData, hd] using h.dcbs d'
  dcsm := h.dcsm

/-- A call that is cleaned up leaves the tables as they were, and the counters where it is taken from the
line on which it was counted. -/
theorem Grown.leftAsIs_iff (h : Grown s s₁ k callId) (hready : s₁.Ready k f) (config : ℕ → LineConfig) (line : ℕ) :
    LeftAsIs s (s₁.finish config k f msg line true .cleanup) ↔
      ∀ l, (s₁.lines.decrement config line l).callPerline = (s.lines l).callPerline := by
  obtain ⟨hlines, -⟩ := finish_spec config s₁ k f msg line true .cleanup fun _ hrc => absurd hrc (by simp)
  have hblocks : (s₁.finish config k f msg line true .cleanup).blocks = s₁.blocks.wipe callId k := by
    rw [blocks_finish, if_pos rfl, ← h.chn]
    exact (hready.inv.owns hready.busy).fimFreeCallChn_eq hready.busy rfl
  have hdcsm : (s₁.finish config k f msg line true .cleanup).dcsm = s₁.dcsm := by
    simp [Fim.finish, Fim.fimFreeCallChn, setCounted, uncount, setBlocks]
  rw [if_pos ⟨rfl, rfl⟩] at hlines
  refine ⟨fun hleft l => by rw [← hlines]; exact hleft.lines l, fun hcount => ⟨fun k' => ?_, fun g => ?_,
    fun d' => ?_, fun l => by rw [hlines]; exact hcount l, hdcsm.trans h.dcsm⟩⟩
  · rw [Blocks.Busy, hblocks]
    by_cases hk : k' = k
    · subst hk
      simpa [Blocks.wipe] using h.free
    · simp [Blocks.wipe, hk, Blocks.Busy, h.chns k' hk]
  · rw [hblocks]
    have hg := h.fcbs g
    split at hg
    next hcall => simp [Blocks.wipe, hcall, hg]
    next hcall =>
      rw [← hg]
      simp [Blocks.wipe, hcall]
  · rw [hblocks]
    have hd := h.dcbs d'
    split at hd
    next hcall => simp [Blocks.wipe, hcall, hd]
    next hcall =>
      rw [← hd]
      simp [Blocks.wipe, hcall]

/-! ## A new chain -/

/-- A chain that has been set up for the call of a message, which has no data yet. -/
structure Waiting (s s' : Fim) (k : ChnId) (f : FcbId) (msg : FimMsg) : Prop where
  ready : s'.Ready k f
  grown : Grown s s' k msg.callId
  fcb : s'.blocks.fcbs f = { callId := msg.callId, fsmType := .default }
  dcbs : ∀ dcb, (s'.blocks.dcbs dcb).callId = (s.blocks.dcbs dcb).callId

theorem waiting_create (h : s.blocks.Inv) (hcall : msg.callId ≠ noCallId)
    (hnone : s.blocks.fimGetCallChnByCallId msg.callId = none) (hfree : ¬ s.blocks.Busy k)
    {blocks : Blocks} {g : FsmType → FcbId}
    (htaken : Blocks.Taken (s.blocks.setChn k { s.blocks.chns k with callId := msg.callId }) blocks k
      msg.callId FsmType.chain g) : Waiting s (s.create k blocks msg) k (g .default) msg := by
  obtain ⟨hready, hfcb⟩ := s.ready_create h hcall hnone hfree htaken
  obtain ⟨-, hfcbs, hdcbs⟩ := h.callId_ne hcall hnone
  have hdcb : ∀ dcb, ((s.create k blocks msg).blocks.dcbs dcb).callId = (s.blocks.dcbs dcb).callId := fun dcb => by
      show (blocks.dcbs dcb).callId = (s.blocks.dcbs dcb).callId
      rw [htaken.dcbs]
      rfl
  refine ⟨hready, ⟨hfree, hready.fcb.1.symm.trans (by rw [hfcb]), fun k' hk' => ?_, fun f' => ?_,
    fun dcb => ?_, rfl⟩, hfcb, hdcb⟩
  · show blocks.chns k' = s.blocks.chns k'
    rw [htaken.chns k' hk']
    simp [Blocks.setChn, hk']
  · show if (blocks.fcbs f').callId = msg.callId then (s.blocks.fcbs f').callId = noCallId
      else (blocks.fcbs f').callId = (s.blocks.fcbs f').callId
    by_cases hf : ∃ t ∈ FsmType.chain, g t = f'
    · obtain ⟨t, ht, rfl⟩ := hf
      rw [htaken.taken t ht, if_pos rfl]
      exact htaken.wasFree t ht
    · push Not at hf
      have heq : blocks.fcbs f' = s.blocks.fcbs f' := htaken.fcbs f' hf
      rw [heq, if_neg (hfcbs f')]
  · rw [hdcb dcb, if_neg (hdcbs dcb)]

theorem Waiting.count (config : ℕ → LineConfig) (h : Waiting s s' k f msg) (line : ℕ) :
    Waiting s (s'.count config line) k f msg :=
  ⟨⟨h.ready.inv, h.ready.busy, h.ready.cb⟩,
    ⟨h.grown.free, h.grown.chn, h.grown.chns, h.grown.fcbs, h.grown.dcbs, h.grown.dcsm⟩, h.fcb, h.dcbs⟩

theorem Waiting.dispatch_cases (config : ℕ → LineConfig) (d : Decisions) (h : Waiting s s' k f msg) :
    (msg.msgId ≠ .setup ∧ ∃ s₁, s'.dispatch config k msg d = .ok (.handled, s₁)) ∨
      ∃ s₁, s'.dispatch config k msg d = s₁.askDefault config k msg d ∧ Waiting s s₁ k f msg ∧ s₁.lines = s'.lines := by
  obtain ⟨reached, s₁, heq, hsame, hready⟩ := h.ready.askFeatures msg d [.cnf, .b2bcnf, .xfr] (by decide)
  rw [Fim.dispatch, heq]
  cases reached with
  | false =>
    refine .inl ⟨fun hmsg => ?_, s₁, rfl⟩
    exact absurd (askFeatures_setup hmsg heq) (by simp)
  | true =>
    refine .inr ⟨s₁, rfl, ⟨hready, h.grown.of_sameLinks hsame.links hsame.dcsm, ?_, fun dcb => ?_⟩,
      hsame.lines⟩
    · rw [hsame.default.fcbs f h.ready.fcb.2, h.fcb]
    · rw [hsame.links.dcbCall, h.dcbs]

/-- What is done with the answer for a new chain: a clean-up takes the call from the line of the message. -/
def finished (config : ℕ → LineConfig) (k : ChnId) (f : FcbId) (msg : FimMsg)
    (r : SmRc × Outcome × Fim) : Outcome × Fim :=
  (r.2.1, r.2.2.finish config k f msg msg.line true r.1)

/-- The default machine works on the line of the message, and takes the call from the count when the chain
is cleaned up. -/
theorem Waiting.askDefault_eq (h : Waiting s s₁ k f msg) (hmsg : msg.msgId ≠ .release) :
    s₁.askDefault config k msg d = (s₁.fsmdef config k f msg d).map (finished config k f msg) := by
  have hline : s₁.msgLine f msg = msg.line := if_neg fun hand => hmsg hand.2
  have hupdate : s₁.updateCallCnt f = true := by rw [updateCallCnt, h.fcb]
  rw [Fim.askDefault, h.ready.cb]
  dsimp only
  rw [hline, hupdate]
  rfl

theorem Waiting.fsmGetCallContext (h : Waiting s s₁ k f msg) (line : ℕ) (facility : Cause) :
    s₁.blocks.fsmGetCallContext msg.callId line (some f) facility = (.noResource, s₁.blocks) ∧
        s.blocks.fsmdefGetDcbByCallId noCallId = none ∨
      ∃ (dcb : DcbId) (blocks : Blocks),
        s₁.blocks.fsmGetCallContext msg.callId line (some f) facility = (facility, blocks) ∧
        s.blocks.fsmdefGetDcbByCallId noCallId ≠ none ∧
        (s₁.setBlocks blocks).Ready k f ∧ Grown s (s₁.setBlocks blocks) k msg.callId ∧
        (blocks.fcbs f).dcb = some dcb ∧ (blocks.dcbs dcb).line = line := by
  have hcall : (s₁.blocks.fcbs f).callId = msg.callId := by rw [h.fcb]
  have hnone : (s₁.blocks.fcbs f).dcb = none := by rw [h.fcb]
  rw [← hcall]
  rcases h.ready.inv.fsmGetCallContext_cases line facility h.ready.callId_ne with
    ⟨heq, hfull⟩ | ⟨dcb, hdcb, heq⟩
  · refine .inl ⟨heq, first_eq_none_iff.mpr fun d' => decide_eq_false ?_⟩
    rw [← h.dcbs]
    exact hfull d'
  · have hdcb' := hdcb
    rw [h.dcbs] at hdcb'
    refine .inr ⟨dcb, _, heq, fun hfull => ?_, ⟨h.ready.inv.withData h.ready.callId_ne h.ready.fcb.2 hnone
      hdcb, h.ready.busy, h.ready.cb⟩, ?_, by simp [Blocks.withData], by simp [Blocks.withData]⟩
    · exact of_decide_eq_false (first_eq_none_iff.mp hfull dcb) hdcb'
    · rw [hcall]
      exact h.grown.withData hdcb'

/-! ## The handlers of the idle state -/

theorem not_noRoom (h : s.blocks.Inv) (hfree : ¬ s.blocks.Busy k)
    (hdcb : s.blocks.fsmdefGetDcbByCallId noCallId ≠ none) (hfacility : d.facility = .ok)
    (hmsg : msg.msgId ≠ .setup) : ¬ s.NoRoom msg d := by
  rintro (hchn | hfcb | hnone | hne | ⟨hsetup, -⟩)
  · exact hfree fun heq => of_decide_eq_false (first_eq_none_iff.mp hchn k) heq
  · -- the blocks of the chain are free with it
    obtain ⟨f, hf⟩ := Finset.card_pos.mp (Nat.lt_of_lt_of_le (by decide) (h.length_le_card hfree))
    exact of_decide_eq_false (first_eq_none_iff.mp hfcb f) (Blocks.mem_freeFcbs.mp hf)
  · exact hdcb hnone
  · exact hne hfacility
  · exact hmsg hsetup

theorem clean_script {noRoom : Prop} (hroom : ¬ noRoom) {φ : SmRc × Outcome × Fim → Outcome × Fim}
    (hφ : ∀ r, (φ r).1 = r.2.1) : Clean noRoom s ((s₂.script f d).map φ) := by
  rw [Fim.script]
  cases Fim.moves f d.moves s₂ with
  | error crash => exact hroom
  | ok s₃ =>
    dsimp only
    cases s₃.answer f d.answer with
    | error crash => exact hroom
    | ok r =>
      intro hrefused
      rw [hφ] at hrefused
      exact absurd hrefused (by simp)

theorem Grown.leftAsIs (h : Grown s s₂ k callId) (hready : s₂.Ready k f)
    (hlines : s₂.lines = s.lines.increment config msg.line) :
    LeftAsIs s (s₂.finish config k f msg msg.line true .cleanup) := by
  refine (h.leftAsIs_iff hready config _).mpr ?_
  rw [hlines]
  exact (Lines.callPerline_decrement_increment_eq_iff config s.lines _ _).mpr (.inl rfl)

theorem Waiting.clean_offhook (h : Waiting s s₁ k f msg) (hinv : s.blocks.Inv)
    (hlines : s₁.lines = s.lines.increment config msg.line) (hmsg : msg.msgId ≠ .setup) :
    Clean (s.NoRoom msg d) s ((s₁.fsmdefOffhook f msg d).map (finished config k f msg)) := by
  have hnone : (s₁.blocks.fcbs f).dcb = none := by rw [h.fcb]
  rw [Fim.fsmdefOffhook, hnone]
  dsimp only
  rw [Blocks.fsmGetNewOutgoingCallContext]
  rcases h.fsmGetCallContext (if d.facility = .ok then msg.line else lsmNoLine) d.facility with
    ⟨heq, -⟩ | ⟨dcb, blocks, heq, hdcb, hready, hgrown, -, -⟩
  · rw [heq]
    exact fun _ => h.grown.leftAsIs h.ready hlines
  · rw [heq]
    dsimp only
    split
    next hok => exact clean_script (not_noRoom hinv h.grown.free hdcb hok hmsg) fun _ => rfl
    next => exact fun _ => hgrown.leftAsIs hready hlines

theorem Waiting.clean_newCall (h : Waiting s s₁ k f msg) (hinv : s.blocks.Inv)
    (hlines : s₁.lines = s.lines.increment config msg.line) (hmsg : msg.msgId ≠ .setup) :
    Clean (s.NoRoom msg d) s ((s₁.fsmdefEvIdleNewCall f msg d).map (finished config k f msg)) := by
  have hnone : (s₁.blocks.fcbs f).dcb = none := by rw [h.fcb]
  have hcall : (s₁.blocks.fcbs f).callId = msg.callId := by rw [h.fcb]
  rw [Fim.fsmdefEvIdleNewCall]
  split
  · exact fun hrefused => absurd hrefused (by simp)
  · rw [hnone, hcall]
    dsimp only
    rw [Blocks.fsmGetNewOutgoingCallContext]
    rcases h.fsmGetCallContext (if d.facility = .ok then msg.line else lsmNoLine) d.facility with
      ⟨heq, -⟩ | ⟨dcb, blocks, heq, hdcb, hready, hgrown, hdata, -⟩
    · rw [heq]
      exact fun _ => h.grown.leftAsIs h.ready hlines
    · rw [heq]
      dsimp only
      cases hfacility : d.facility with
      | ok => exact clean_script (not_noRoom hinv h.grown.free hdcb hfacility hmsg) fun _ => rfl
      | noResource => exact fun _ => hgrown.leftAsIs hready hlines
      | busy | unassignedNum | error =>
        -- the release by a message is awaited
        simp only [setBlocks, hdata]
        exact fun hrefused => absurd hrefused (by simp)

theorem Grown.countSetup (config : ℕ → LineConfig) (msg : FimMsg) (h : Grown s s₂ k callId)
    (hready : s₂.Ready k f) (dcb : DcbId) :
    Grown s (s₂.countSetup config k dcb msg) k callId ∧ (s₂.countSetup config k dcb msg).Ready k f ∧
      (s₂.countSetup config k dcb msg).lines =
        if msg.monitor = false ∧ msg.replaces = false then
          s₂.lines.increment config (s₂.blocks.dcbs dcb).line else s₂.lines := by
  rw [Fim.countSetup]
  split
  · exact ⟨⟨h.free, h.chn, h.chns, h.fcbs, h.dcbs, h.dcsm⟩, ⟨hready.inv, hready.busy, hready.cb⟩, rfl⟩
  · have hsame : Blocks.SameLinks s₂.blocks (s₂.blocks.setDcb dcb
        { s₂.blocks.dcbs dcb with callNotCountedInMncBt := true }) := Blocks.sameLinks_setDcb rfl rfl
    exact ⟨h.of_sameLinks hsame rfl, hready.of_sameLinks hsame, rfl⟩

theorem clean_setUp {noRoom : Prop} {dcb : DcbId} (hdcb : (s₂.blocks.fcbs f).dcb = some dcb) :
    Clean noRoom s ((s₂.setUp f dcb d).map (finished config k f msg)) := by
  rw [Fim.setUp]
  cases d.setupEnd with
  | endCall => exact fun hrefused => absurd hrefused (by simp)
  | alert => exact fun hrefused => absurd hrefused (by simp)
  | release =>
    have hdcb' : ((s₂.setBlocks (s₂.blocks.setDcb dcb
        { s₂.blocks.dcbs dcb with sendRelease := true })).blocks.fcbs f).dcb = some dcb := hdcb
    simp only [Fim.fsmdefRelease, hdcb']
    exact fun hrefused => absurd hrefused (by simp)

theorem Grown.leftAsIs_countSetup_iff (h : Grown s s₂ k callId) (hready : s₂.Ready k f) {dcb : DcbId}
    (hlines : s₂.lines = s.lines) (hline : (s₂.blocks.dcbs dcb).line = 1) :
    LeftAsIs s ((s₂.countSetup config k dcb msg).finish config k f msg msg.line true .cleanup) ↔
      if msg.monitor = false ∧ msg.replaces = false then msg.line = 1 else ¬ Lines.Valid msg.line := by
  obtain ⟨hgrown, hready', hcount⟩ := h.countSetup config msg hready dcb
  rw [hgrown.leftAsIs_iff hready', hcount, hline, hlines]
  split
  · have hvalid : Lines.Valid 1 := by decide
    rw [Lines.callPerline_decrement_increment_eq_iff]
    exact or_iff_left fun hand => hand.2 hvalid
  · exact Lines.callPerline_decrement_eq_iff config s.lines msg.line

theorem Waiting.clean_setup_iff (h : Waiting s s₁ k f msg) (hlines : s₁.lines = s.lines) : Clean (s.NoRoom msg d) s
        ((s₁.fsmdefEvIdleSetup config k f msg d).map (finished config k f msg)) ↔
      s.SetupRefusalOk msg d := by
  have hnone : (s₁.blocks.fcbs f).dcb = none := by rw [h.fcb]
  rw [Fim.fsmdefEvIdleSetup, SetupRefusalOk]
  by_cases hnumber : msg.calledNumber = false
  · -- the call is not counted yet
    rw [if_pos hnumber, if_pos hnumber]
    refine Iff.trans ⟨fun hclean => hclean rfl, fun hleft _ => hleft⟩ ((h.grown.leftAsIs_iff h.ready _ _).trans ?_)
    rw [hlines]
    exact Lines.callPerline_decrement_eq_iff config s.lines msg.line
  · obtain ⟨line, hof⟩ : ∃ line, line = if d.facility = .ok then d.freeLine else 1 := ⟨_, rfl⟩
    rw [if_neg hnumber, if_neg hnumber, Blocks.fsmGetNewIncomingCallContext, ← hof]
    rcases h.fsmGetCallContext line d.facility with
      ⟨heq, hfull⟩ | ⟨dcb, blocks, heq, hdcb, hready, hgrown, hdata, hline⟩
    · -- the missing data is looked at
      rw [heq]
      simp only [setBlocks, hnone]
      exact iff_of_false (fun hclean => hclean (.inr (.inr (.inl hfull)))) fun hand => hand.1 hfull
    · rw [heq]
      have hdata' : ((s₁.setBlocks blocks).blocks.fcbs f).dcb = some dcb := hdata
      have hline' : ((s₁.setBlocks blocks).blocks.dcbs dcb).line = line := hline
      have hlines' : (s₁.setBlocks blocks).lines = s.lines := hlines
      have hawaited {s' : Fim} {noRoom : Prop} : Clean noRoom s
          ((.ok (.end, .awaited, s') : Except Crash _).map (finished config k f msg)) :=
        fun hrefused => absurd hrefused (by simp)
      simp only [hdata', hline', hlines', and_iff_right hdcb]
      by_cases hbusy : msg.monitor = false ∧ msg.replaces = false ∧ s.lines.isLineAvailable line = false
      · -- the line of a call without an instance is the first one
        rw [if_pos hbusy]
        refine iff_of_true hawaited fun hnores => ?_
        rw [if_pos ⟨hbusy.1, hbusy.2.1⟩]
        intro hroom
        have hfull := hbusy.2.2
        rw [hof, hnores, if_neg (by simp), hroom] at hfull
        exact absurd hfull (by simp)
      · rw [if_neg hbusy]
        cases hfacility : d.facility with
        | ok =>
          refine iff_of_true (clean_setUp ?_) fun hnores => absurd hnores (by simp)
          rw [Fim.countSetup]
          split
          · exact hdata
          · exact hdata
        | noResource =>
          rw [hfacility, if_neg (by simp)] at hof
          rw [hof] at hline' hbusy
          refine Iff.trans ⟨fun hclean => hclean rfl, fun hleft _ => hleft⟩
            ((hgrown.leftAsIs_countSetup_iff hready hlines' hline').trans ?_)
          by_cases hjoins : msg.monitor = false ∧ msg.replaces = false
          · have havailable : s.lines.isLineAvailable 1 = true := by
              by_contra hnot
              exact hbusy ⟨hjoins.1, hjoins.2, by simpa using hnot⟩
            simp [hjoins, havailable]
          · simp [hjoins]
        | busy | unassignedNum | error => exact iff_of_true hawaited fun hnores => absurd hnores (by simp)

/-! ## A message for a new call -/

theorem Waiting.clean_start (h : Waiting s s' k f msg) (hinv : s.blocks.Inv) (hlines : s'.lines = s.lines)
    (hmsg : msg.msgId ≠ .setup) (hest : msg.msgId.Establishes) :
    Clean (s.NoRoom msg d) s (s'.start config k msg d) := by
  have hrelease : msg.msgId ≠ .release := fun hmsg => by
    rw [hmsg] at hest
    exact absurd hest (by decide)
  rw [Fim.start, if_neg hmsg]
  rcases (h.count config msg.line).dispatch_cases config d with
    ⟨-, s₁, heq⟩ | ⟨s₁, heq, hwaiting, hlines₁⟩
  · rw [heq]
    exact fun hrefused => absurd hrefused (by simp)
  · have hcounted : s₁.lines = s.lines.increment config msg.line := by
      rw [hlines₁, ← hlines]
      rfl
    have hstate : (s₁.blocks.fcbs f).state = .idle := by rw [hwaiting.fcb]
    rw [heq, hwaiting.askDefault_eq hrelease, Fim.fsmdef, hstate]
    rcases hest with hsetup | hof | hof | hof | hof
    · exact absurd hsetup hmsg
    all_goals rw [hof]
    · exact hwaiting.clean_offhook hinv hcounted hmsg
    · exact hwaiting.clean_offhook hinv hcounted hmsg
    · exact hwaiting.clean_offhook hinv hcounted hmsg
    · exact hwaiting.clean_newCall hinv hcounted hmsg

theorem Waiting.clean_start_setup_iff (h : Waiting s s' k f msg) (hlines : s'.lines = s.lines)
    (hmsg : msg.msgId = .setup) :
    Clean (s.NoRoom msg d) s (s'.start config k msg d) ↔ s.SetupRefusalOk msg d := by
  rw [Fim.start, if_pos hmsg]
  rcases h.dispatch_cases config d with ⟨hne, -⟩ | ⟨s₁, heq, hwaiting, hlines₁⟩
  · exact absurd hmsg hne
  · rw [heq, hwaiting.askDefault_eq (by simp [hmsg]), fsmdef_eq_setup hmsg (by rw [hwaiting.fcb])]
    exact hwaiting.clean_setup_iff (hlines₁.trans hlines)

theorem Ready.clean_start_feature (h : s₁.Ready k f) (hmsg : msg.msgId.fimCheckFeatureEvent = true)
    {noRoom : Prop} (hroom : ¬ noRoom) : Clean noRoom s (s₁.start config k msg d) := by
  have hsetup : msg.msgId ≠ .setup := fun heq => by simp [heq, FimMsgId.fimCheckFeatureEvent] at hmsg
  have hready : (s₁.count config msg.line).Ready k f := ⟨h.inv, h.busy, h.cb⟩
  obtain ⟨reached, s₂, heq, -, hready₂⟩ := hready.askFeatures msg d [.cnf, .b2bcnf, .xfr] (by decide)
  rw [Fim.start, if_neg hsetup, Fim.dispatch, heq]
  cases reached with
  | false => exact fun hrefused => absurd hrefused (by simp)
  | true =>
    dsimp only
    rw [askDefault, hready₂.cb]
    dsimp only
    rw [Fim.fsmdef]
    split
    next => exact fun hrefused => absurd hrefused (by simp)
    next => exact fun hrefused => absurd hrefused (by simp)
    next hof => exact absurd hof hsetup
    next hof => simp [hof, FimMsgId.fimCheckFeatureEvent] at hmsg
    next hof => simp [hof, FimMsgId.fimCheckFeatureEvent] at hmsg
    next hof => simp [hof, FimMsgId.fimCheckFeatureEvent] at hmsg
    next hof => simp [hof, FimMsgId.fimCheckFeatureEvent] at hmsg
    next => exact clean_script hroom fun _ => rfl

theorem Waiting.clean_feature_iff (h : Waiting s s' k f msg) (hinv : s.blocks.Inv)
    (hmsg : msg.msgId.fimCheckFeatureEvent = true) :
    Clean (s.NoRoom msg d) s (match s'.blocks.fsmGetNewOutgoingCallContext msg.callId msg.line
          (s'.blocks.fsmGetFcbByCallIdAndType msg.callId .default) d.facility with
        | (.ok, blocks) => (s'.setBlocks blocks).start config k msg d
        | (_, blocks) => .ok (.refused, s'.setBlocks blocks)) ↔
      s.blocks.fsmdefGetDcbByCallId noCallId ≠ none ∧ d.facility = .ok := by
  have hlook : s'.blocks.fsmGetFcbByCallIdAndType msg.callId .default = some f := by
    have heq := h.ready.inv.fsmGetFcbByCallIdAndType_eq h.ready.callId_ne
    rwa [h.fcb] at heq
  have hsetup : msg.msgId ≠ .setup := fun heq => by simp [heq, FimMsgId.fimCheckFeatureEvent] at hmsg
  -- a call that is refused keeps its chain
  have hkept : ∀ s₂ : Fim, Grown s s₂ k msg.callId → s₂.Ready k f →
      ¬ Clean (s.NoRoom msg d) s (.ok (.refused, s₂)) := fun s₂ hgrown hready hclean =>
    hgrown.free (((hclean rfl).chns k).mp hready.busy)
  rw [hlook, Blocks.fsmGetNewOutgoingCallContext]
  rcases h.fsmGetCallContext (if d.facility = .ok then msg.line else lsmNoLine) d.facility with
    ⟨heq, hfull⟩ | ⟨dcb, blocks, heq, hdcb, hready, hgrown, -, -⟩
  · rw [heq]
    exact iff_of_false (hkept s' h.grown h.ready) fun hand => hand.1 hfull
  · rw [heq, and_iff_right hdcb]
    cases hfacility : d.facility with
    | ok => exact iff_of_true (hready.clean_start_feature hmsg
        (not_noRoom hinv h.grown.free hdcb hfacility hsetup)) rfl
    | busy | noResource | unassignedNum | error =>
      exact iff_of_false (hkept _ hgrown hready) (by simp)

theorem clean_fimNewCall_iff (h : s.blocks.Inv) (hcall : msg.callId ≠ noCallId)
    (hnone : s.blocks.fimGetCallChnByCallId msg.callId = none) :
    Clean (s.NoRoom msg d) s (s.fimNewCall config msg d) ↔ s.RefusalOk msg d := by
  rw [Fim.fimNewCall]
  rcases h.fimGetNewCallChn_cases hcall hnone with hfull | ⟨k, blocks, g, hnew, hfree, htaken⟩
  · -- no chain is free
    have hchn : s.blocks.fimGetCallChnByCallId noCallId = none := by
      rw [Blocks.fimGetNewCallChn, hnone] at hfull
      cases hk : s.blocks.fimGetCallChnByCallId noCallId with
      | none => rfl
      | some k =>
        rw [hk] at hfull
        exact absurd hfull (by simp)
    rw [hfull]
    refine iff_of_true ?_ fun hsome => absurd hchn hsome
    split
    · exact fun _ => .refl s
    · split
      · exact fun _ => .refl s
      · exact fun hrefused => absurd hrefused (by simp)
  · have hwaiting := waiting_create h hcall hnone hfree htaken
    have hroom : s.blocks.fimGetCallChnByCallId noCallId ≠ none := fun hfirst =>
      hfree fun heq => of_decide_eq_false (first_eq_none_iff.mp hfirst k) heq
    rw [hnew, RefusalOk, forall_prop_of_true hroom]
    split
    next hest =>
      by_cases hmsg : msg.msgId = .setup
      · dsimp only
        rw [hwaiting.clean_start_setup_iff rfl hmsg, hmsg]
      · refine iff_of_true (hwaiting.clean_start h rfl hmsg hest) ?_
        rcases hest with hof | hof | hof | hof | hof
        · exact absurd hof hmsg
        all_goals rw [hof]; trivial
    next hest =>
      split
      next hfeature =>
        have hneed : msg.msgId.fimFeatureNeedOutgoingCallContext = true := by
          rw [FimMsgId.fimFeatureNeedOutgoingCallContext, decide_eq_true_iff]
          intro hnotify
          rw [hnotify] at hfeature
          exact absurd hfeature (by decide)
        dsimp only
        rw [if_pos hneed]
        refine (hwaiting.clean_feature_iff h hfeature).trans ?_
        cases hof : msg.msgId with
        | feature featureId =>
          rw [hof] at hfeature
          cases featureId with
          | select | dirtrxfr | b2bconf | cfwdAll => exact .rfl
          | newCall | notify | endCall | other => exact absurd hfeature (by decide)
        | setup | offhook | dialstring | line | release | releaseComplete | other =>
          rw [hof] at hfeature
          exact absurd hfeature (by decide)
      next hfeature =>
        refine iff_of_true (fun hrefused => absurd hrefused (by simp)) ?_
        cases hof : msg.msgId with
        | setup => exact absurd (.inl hof) hest
        | feature featureId =>
          rw [hof] at hfeature
          cases featureId with
          | select | dirtrxfr | b2bconf | cfwdAll => exact absurd rfl hfeature
          | newCall | notify | endCall | other => trivial
        | offhook | dialstring | line | release | releaseComplete | other => trivial

/-- **A refused call leaves nothing behind.** A message for a call without a chain that is refused leaves
the chains, the blocks and the data that work for calls, the counters and the calls that are waited for as
they were, and follows no null pointer when there is no room, exactly when it meets the condition. -/
theorem refusedCleanly_iff (h : s.blocks.Inv) (hcall : msg.callId ≠ noCallId)
    (hnone : s.blocks.fimGetCallChnByCallId msg.callId = none) :
    s.RefusedCleanly config msg d ↔ s.RefusalOk msg d := by
  rw [RefusedCleanly, Fim.fimProcessEvent, if_neg hcall, hnone]
  exact clean_fimNewCall_iff h hcall hnone

/-- The line is busy when the user goes off-hook. -/
theorem refusedCleanly_busy :
    RefusedCleanly (fun _ => ⟨2, 2⟩) {} { msgId := .offhook, callId := 1, line := 1 }
      { facility := .busy } :=
  (refusedCleanly_iff Blocks.inv_init (by decide) (by decide)).mpr fun _ => trivial

/-- A set-up without a called number is taken from the count of its line, on which it was not counted. -/
theorem not_refusedCleanly : ¬ ∀ (config : ℕ → LineConfig) (s : Fim) (msg : FimMsg) (d : Decisions),
    s.blocks.Inv → msg.callId ≠ noCallId → s.blocks.fimGetCallChnByCallId msg.callId = none →
      s.RefusedCleanly config msg d := by
  intro h
  have hclean := h (fun _ => ⟨2, 2⟩) {} { msgId := .setup, callId := 1, line := 1, calledNumber := false } {}
    Blocks.inv_init (by decide) (by decide)
  have hrun : ((fimProcessEvent (fun _ => ⟨2, 2⟩) {}
      { msgId := .setup, callId := 1, line := 1, calledNumber := false } {}).toOption.map fun r =>
        (r.1, (r.2.lines 1).callPerline)) = some (.refused, 4294967295) := by decide +kernel
  rw [RefusedCleanly] at hclean
  cases hr : fimProcessEvent (fun _ => ⟨2, 2⟩) {}
      { msgId := .setup, callId := 1, line := 1, calledNumber := false } {} with
  | error crash =>
    rw [hr] at hrun
    exact absurd hrun (by simp [Except.toOption])
  | ok r =>
    rw [hr] at hrun hclean
    simp only [Except.toOption, Option.map_some, Option.some.injEq, Prod.mk.injEq] at hrun
    have hcount := (hclean hrun.1).lines 1
    rw [hrun.2] at hcount
    exact absurd hcount (by decide)

end Fim

end Gsm
