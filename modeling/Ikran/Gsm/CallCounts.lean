import Ikran.Gsm.Process

/-!
# Counts of the calls of a line

The counter of a line against the chains whose calls have to be counted on it: every chain, unless it was
set up for a call that joins or replaces another one. A chain is counted when it is set up, or when the
number of an incoming call has been looked up, and it is taken from the count when it is cleaned up, on the
line that the message has.
-/

namespace Gsm

open Pool

instance (b : Blocks) (k : ChnId) : Decidable (b.Busy k) :=
  inferInstanceAs (Decidable (_ ≠ _))

/-- What a handler answers at its end. -/
def Answer.smRc (a : Answer) : SmRc :=
  match a with
  | rc answer => answer
  | release sendRelease => if sendRelease then .end else .cleanup

namespace Fim

variable {config : ℕ → LineConfig} {s s' : Fim} {k : ChnId} {f : FcbId} {msg : FimMsg} {d : Decisions}
  {l line : ℕ}

/-- The chains whose calls have to be counted on the line. -/
def countedChns (s : Fim) (l : ℕ) : Finset ChnId :=
  Finset.univ.filter fun k => s.blocks.Busy k ∧ s.counted k = some l

/-- The number of the calls that have to be counted on the line. -/
def callCount (s : Fim) (l : ℕ) : ℕ :=
  (s.countedChns l).card

/-- The counter of each line counts the calls, and its flags say whether they are as many as the limits. -/
def CountsCalls (config : ℕ → LineConfig) (s : Fim) : Prop :=
  ∀ l, Lines.Valid l → (s.lines l).Counts (config l) (s.callCount l)

/-- Two numbers of one line, or of no line that is counted. -/
def SameLine (line l : ℕ) : Prop :=
  line = l ∨ ¬ Lines.Valid line ∧ ¬ Lines.Valid l

instance (line l : ℕ) : Decidable (SameLine line l) :=
  inferInstanceAs (Decidable (_ ∨ _))

/-- A message for a call that has a chain is no set-up in the idle state. Where it may clean up the chain, it
has the line on which the call is counted. -/
def LineOk (s : Fim) (k : ChnId) (f : FcbId) (msg : FimMsg) (d : Decisions) : Prop :=
  ¬ (msg.msgId = .setup ∧ (s.blocks.fcbs f).state = .idle) ∧
    (d.answer.smRc = .cleanup ∨ (s.blocks.fcbs f).dcb = none →
      ∀ l ∈ s.counted k, SameLine (s.msgLine f msg) l)

instance (s : Fim) (k : ChnId) (f : FcbId) (msg : FimMsg) (d : Decisions) :
    Decidable (s.LineOk k f msg d) :=
  inferInstanceAs (Decidable (_ ∧ (_ → ∀ l ∈ s.counted k, SameLine (s.msgLine f msg) l)))

/-- A set-up that is cleaned up at once has the line on which the call is counted, if it is. -/
def SetupOk (msg : FimMsg) (d : Decisions) : Prop :=
  if msg.calledNumber = false then ¬ Lines.Valid msg.line
  else d.facility = .noResource →
    if msg.monitor = false ∧ msg.replaces = false then msg.line = 1 else ¬ Lines.Valid msg.line

instance (msg : FimMsg) (d : Decisions) : Decidable (SetupOk msg d) :=
  inferInstanceAs (Decidable (ite _ _ _))

/-- The condition on a message. -/
structure CountOk (s : Fim) (msg : FimMsg) (d : Decisions) : Prop where
  drops : dropsSent (s.sendRelease msg.callId) d.moves = true
  /-- The call forwarding feature, which takes its call from the count at once, has no line that is
  counted. -/
  forward : msg.msgId = .feature .cfwdAll → d.answer.smRc = .end → ¬ Lines.Valid msg.line
  line : ∀ k ∈ s.blocks.fimGetCallChnByCallId msg.callId, ∀ f ∈ (s.blocks.chns k).cb .default,
    s.LineOk k f msg d
  setup : s.blocks.fimGetCallChnByCallId msg.callId = none → msg.msgId = .setup → SetupOk msg d
  feature : s.blocks.fimGetCallChnByCallId msg.callId = none →
    msg.msgId.fimCheckFeatureEvent = true → s.blocks.fimGetCallChnByCallId noCallId ≠ none →
      s.blocks.fsmdefGetDcbByCallId noCallId ≠ none ∧ d.facility = .ok

/-! ## One chain more or less -/

theorem mem_countedChns : k ∈ s.countedChns l ↔ s.blocks.Busy k ∧ s.counted k = some l := by
  rw [countedChns, Finset.mem_filter, and_iff_right (Finset.mem_univ k)]

/-- The number of the other calls that have to be counted on the line. -/
def callCountBut (s : Fim) (k : ChnId) (l : ℕ) : ℕ :=
  ((s.countedChns l).erase k).card

theorem callCount_eq (s : Fim) (k : ChnId) (l : ℕ) :
    s.callCount l = s.callCountBut k l + if s.blocks.Busy k ∧ s.counted k = some l then 1 else 0 := by
  rw [callCount, callCountBut]
  split
  next h => exact (Finset.card_erase_add_one (mem_countedChns.mpr h)).symm
  next h => rw [Finset.erase_eq_of_notMem (mt mem_countedChns.mp h), Nat.add_zero]

theorem callCountBut_congr (hchns : ∀ k', k' ≠ k → s'.blocks.chns k' = s.blocks.chns k')
    (hcounted : ∀ k', k' ≠ k → s'.counted k' = s.counted k') :
    s'.callCountBut k l = s.callCountBut k l := by
  rw [callCountBut, callCountBut]
  congr 1
  ext k'
  rw [Finset.mem_erase, Finset.mem_erase, mem_countedChns, mem_countedChns, Blocks.Busy, Blocks.Busy]
  exact and_congr_right fun hne => by rw [hchns k' hne, hcounted k' hne]

theorem callCount_lt (s : Fim) (l : ℕ) : s.callCount l + 1 < 2 ^ 32 := by
  have hle : s.callCount l ≤ 51 := by
    refine (Finset.card_le_univ _).trans ?_
    rw [Fintype.card_fin]
  omega

theorem CountsCalls.increment (h : CountsCalls config s) (hother : ∀ l, s'.callCountBut k l = s.callCountBut k l)
    (hwas : ∀ l, ¬ (s.blocks.Busy k ∧ s.counted k = some l))
    (hbusy : s'.blocks.Busy k) (hcounted : s'.counted k = some line)
    (hlines : s'.lines = s.lines.increment config line) : CountsCalls config s' := by
  intro l hl
  have hold := h l hl
  rw [s.callCount_eq k, if_neg (hwas l)] at hold
  have hlt := s.callCount_lt l
  rw [s.callCount_eq k, if_neg (hwas l)] at hlt
  rw [s'.callCount_eq k, hother l, hlines, Lines.increment]
  by_cases hline : l = line
  · subst hline
    rw [if_pos hl, Function.update_self, if_pos ⟨hbusy, hcounted⟩]
    exact hold.increment hlt
  · have hnot : ¬ (s'.blocks.Busy k ∧ s'.counted k = some l) := fun hcalls =>
      hline (Option.some.inj (hcalls.2.symm.trans hcounted))
    rw [if_neg hnot]
    split
    · rw [Function.update_of_ne hline]
      exact hold
    · exact hold

theorem CountsCalls.decrement (h : CountsCalls config s)
    (hpos : ∀ l, 0 < (config l).maxNumCalls ∧ 0 < (config l).busyTrigger)
    (hother : ∀ l, s'.callCountBut k l = s.callCountBut k l)
    (hbusy : s.blocks.Busy k) (hcounted : s.counted k = some line)
    (hfree : ¬ s'.blocks.Busy k) (hlines : s'.lines = s.lines.decrement config line) :
    CountsCalls config s' := by
  intro l hl
  have hold := h l hl
  rw [s'.callCount_eq k, hother l, if_neg fun hand => hfree hand.1, hlines, Lines.decrement]
  by_cases hline : l = line
  · subst hline
    rw [s.callCount_eq k, if_pos ⟨hbusy, hcounted⟩] at hold
    rw [if_pos hl, Function.update_self]
    exact hold.decrement (hpos l).1 (hpos l).2
  · have hnot : ¬ (s.blocks.Busy k ∧ s.counted k = some l) := fun hcalls =>
      hline (Option.some.inj (hcalls.2.symm.trans hcounted))
    rw [s.callCount_eq k, if_neg hnot] at hold
    split
    · rw [Function.update_of_ne hline]
      exact hold
    · exact hold

theorem CountsCalls.congr (h : CountsCalls config s) (hother : ∀ l, s'.callCountBut k l = s.callCountBut k l)
    (hwas : ∀ l, Lines.Valid l → ¬ (s.blocks.Busy k ∧ s.counted k = some l))
    (his : ∀ l, Lines.Valid l → ¬ (s'.blocks.Busy k ∧ s'.counted k = some l))
    (hlines : s'.lines = s.lines) : CountsCalls config s' := by
  intro l hl
  have hold := h l hl
  rw [s.callCount_eq k, if_neg (hwas l hl)] at hold
  rw [s'.callCount_eq k, hother l, if_neg (his l hl), hlines]
  exact hold

theorem CountsCalls.of_same (h : CountsCalls config s) (hsame : Same s s') : CountsCalls config s' := by
  intro l hl
  have hcount : s'.callCount l = s.callCount l := by
    rw [callCount, callCount]
    congr 1
    ext k
    rw [mem_countedChns, mem_countedChns, Blocks.Busy, Blocks.Busy, hsame.chns, hsame.counted]
  rw [hcount, hsame.lines]
  exact h l hl

/-! ## A chain is cleaned up -/

/-- What is true between two messages. -/
structure Tallied (config : ℕ → LineConfig) (s : Fim) : Prop where
  inv : s.blocks.Inv
  counts : CountsCalls config s
  left : ∀ k, s.blocks.Busy k →
    (s.counted k = none ↔ s.blocks.Uncounted (s.blocks.chns k).callId)

theorem uncounted_wipe {b : Blocks} {callId c : CallId} (hc : c ≠ noCallId) (hne : c ≠ callId) :
    (b.wipe callId k).Uncounted c ↔ b.Uncounted c := by
  refine exists_congr fun d => ?_
  by_cases hd : (b.dcbs d).callId = callId
  · simp only [Blocks.wipe, if_pos hd]
    exact iff_of_false (fun h => hc h.1.symm) fun h => hne (h.1.symm.trans hd)
  · simp only [Blocks.wipe, if_neg hd]

theorem Ready.updateCallCnt_iff (h : s.Ready k f) :
    s.updateCallCnt f = true ↔ ¬ s.blocks.Uncounted (s.blocks.chns k).callId := by
  rw [← h.fcb.1, updateCallCnt]
  cases hd : (s.blocks.fcbs f).dcb with
  | none => exact iff_of_true rfl (h.not_uncounted hd)
  | some dcb =>
    have hcall := (h.inv.dcb f dcb h.fcb.2 hd).1
    have hiff : s.blocks.Uncounted (s.blocks.fcbs f).callId ↔ (s.blocks.dcbs dcb).callNotCountedInMncBt = true := by
      refine ⟨fun ⟨d', hd', hflag⟩ => ?_, fun hflag => ⟨dcb, hcall, hflag⟩⟩
      rwa [(h.inv.owns h.callId_ne).oneData d' dcb hd' hcall] at hflag
    rw [hiff]
    simp

/-- The chain is cleaned up, on the line on which its call is counted. -/
theorem Ready.tallied_cleanup (h : s.Ready k f) (hcounts : CountsCalls config s)
    (hpos : ∀ l, 0 < (config l).maxNumCalls ∧ 0 < (config l).busyTrigger)
    (hleft : ∀ k', k' ≠ k → s.blocks.Busy k' → (s.counted k' = none ↔ s.blocks.Uncounted (s.blocks.chns k').callId))
    (line : ℕ) (update : Bool)
    (hsome : ∀ l, s.counted k = some l → update = true ∧ SameLine line l)
    (hnone : s.counted k = none → update = true → ¬ Lines.Valid line)
    (hblocks : s'.blocks = s.blocks.fimFreeCallChn k)
    (hcounted : s'.counted = Function.update s.counted k none)
    (hlines : s'.lines = if update then s.lines.decrement config line else s.lines) :
    Tallied config s' := by
  have hwipe : s'.blocks = s.blocks.wipe (s.blocks.chns k).callId k := by
    rw [hblocks, (h.inv.owns h.busy).fimFreeCallChn_eq h.busy rfl]
  have hchn : ∀ k', k' ≠ k → s'.blocks.chns k' = s.blocks.chns k' := fun k' hk' => by
    rw [hwipe]
    simp [Blocks.wipe, hk']
  have hfree : ¬ s'.blocks.Busy k := by
    rw [Blocks.Busy, hwipe]
    simp [Blocks.wipe]
  have hother : ∀ l, s'.callCountBut k l = s.callCountBut k l := fun l =>
    callCountBut_congr hchn fun k' hk' => by rw [hcounted, Function.update_of_ne hk']
  refine ⟨by rw [hblocks]; exact h.inv.fimFreeCallChn h.busy, ?_, fun k' hbusy' => ?_⟩
  · have hkeep : (∀ l, Lines.Valid l → s.counted k ≠ some l) → s'.lines = s.lines →
        CountsCalls config s' := fun hwas heq =>
      hcounts.congr hother (fun l hl hand => hwas l hl hand.2) (fun l _ hand => hfree hand.1) heq
    cases hk : s.counted k with
    | none =>
      refine hkeep (fun l _ => by simp [hk]) ?_
      cases update with
      | false => exact hlines
      | true => rw [hlines, if_pos rfl, Lines.decrement, if_neg (hnone hk rfl)]
    | some l =>
      obtain ⟨rfl, rfl | ⟨hinvalid, hinvalid'⟩⟩ := hsome l hk
      · exact hcounts.decrement hpos hother h.busy hk hfree (by rw [hlines, if_pos rfl])
      · refine hkeep (fun l' hl' heq => ?_) ?_
        · rw [hk] at heq
          exact hinvalid' (Option.some.inj heq ▸ hl')
        · rw [hlines, if_pos rfl, Lines.decrement, if_neg hinvalid]
  · have hk' : k' ≠ k := by
      rintro rfl
      exact hfree hbusy'
    rw [Blocks.Busy, hchn k' hk'] at hbusy'
    have hne : (s.blocks.chns k').callId ≠ (s.blocks.chns k).callId := fun heq =>
      hk' (h.inv.distinct k' k hbusy' heq)
    rw [hchn k' hk', hcounted, Function.update_of_ne hk', hwipe, uncounted_wipe hbusy' hne]
    exact hleft k' hk' hbusy'

theorem Tallied.of_same (h : Tallied config s) (hsame : Same s s') (hinv : s'.blocks.Inv) : Tallied config s' where
  inv := hinv
  counts := h.counts.of_same hsame
  left k hbusy := by
    rw [Blocks.Busy, hsame.chns] at hbusy
    rw [hsame.chns, hsame.counted, hsame.uncounted _ hbusy]
    exact h.left k hbusy

theorem Tallied.congr (h : Tallied config s) (hblocks : s'.blocks = s.blocks)
    (hlines : s'.lines = s.lines) (hcounted : s'.counted = s.counted) : Tallied config s' :=
  h.of_same ⟨by rw [hblocks], hlines, hcounted, fun c _ => by rw [hblocks]⟩ (by rw [hblocks]; exact h.inv)

theorem Tallied.finish (h : Tallied config s) (hready : s.Ready k f)
    (hpos : ∀ l, 0 < (config l).maxNumCalls ∧ 0 < (config l).busyTrigger)
    {rc : SmRc} (hforward : msg.msgId = .feature .cfwdAll → rc = .end → ¬ Lines.Valid line)
    (hline : rc = .cleanup → ∀ l ∈ s.counted k, SameLine line l) (hsettled : Settled (Same s) k f rc s') :
    Tallied config (s'.finish config k f msg line (s.updateCallCnt f) rc) := by
  obtain ⟨s₀, hready₀, hsame, hs⟩ := hsettled
  have h₀ := h.of_same hsame hready₀.inv
  obtain ⟨hlines, hcounted⟩ := finish_spec config s' k f msg line (s.updateCallCnt f) rc hforward
  have hblocks : (s'.finish config k f msg line (s.updateCallCnt f) rc).blocks =
      if rc = .cleanup then s'.blocks.fimFreeCallChn k else s'.blocks := blocks_finish
  by_cases hrc : rc = .cleanup
  · -- the chain is cleaned up as it was before its call was released
    have hlike : CleansLike s₀ s' k := by
      rcases hs with rfl | ⟨-, hlike⟩
      · exact ⟨rfl, rfl, rfl⟩
      · exact hlike
    have hiff := hready.updateCallCnt_iff
    have hleft := h.left k hready.busy
    refine hready₀.tallied_cleanup h₀.counts hpos (fun k' _ => h₀.left k') line
      (s.updateCallCnt f) (fun l hl => ?_) (fun hnone hupd => ?_)
      (by rw [hblocks, if_pos hrc, hlike.blocks]) (by rw [hcounted, if_pos hrc, hlike.counted])
      (by rw [hlines, hlike.lines]; simp only [hrc, true_and])
    · rw [hsame.counted] at hl
      refine ⟨hiff.mpr fun hun => ?_, hline hrc l hl⟩
      rw [hleft.mpr hun] at hl
      exact absurd hl (by simp)
    · rw [hsame.counted] at hnone
      exact absurd (hleft.mp hnone) (hiff.mp hupd)
  · have heq : s' = s₀ := hs.resolve_right fun hand => hrc hand.1
    subst heq
    refine h₀.congr (by rw [hblocks, if_neg hrc]) ?_ (by rw [hcounted, if_neg hrc])
    rw [hlines, if_neg fun hand => hrc hand.1]

/-! ## What the handlers answer -/

variable {outcome : Outcome}

theorem script_smRc {rc : SmRc} (h : s.script f d = .ok (rc, outcome, s')) : rc = d.answer.smRc := by
  rw [Fim.script] at h
  cases hms : Fim.moves f d.moves s with
  | error crash =>
    rw [hms] at h
    exact absurd h (by simp)
  | ok s₁ =>
    rw [hms] at h
    cases ha : d.answer with
    | rc answer =>
      simp only [ha, Fim.answer, Except.map, Except.ok.injEq, Prod.mk.injEq] at h
      exact h.1.symm
    | release sendRelease =>
      simp only [ha, Fim.answer, Fim.fsmdefRelease] at h
      cases hd : (s₁.blocks.fcbs f).dcb with
      | none =>
        rw [hd] at h
        exact absurd h (by simp [Except.map])
      | some dcb =>
        cases sendRelease <;> simp_all [Except.map, Answer.smRc]

theorem fsmdefOffhook_cleanup (h : s.fsmdefOffhook f msg d = .ok (.cleanup, outcome, s')) :
    d.answer.smRc = .cleanup ∨ (s.blocks.fcbs f).dcb = none := by
  rw [Fim.fsmdefOffhook] at h
  cases hd : (s.blocks.fcbs f).dcb with
  | none => exact .inr rfl
  | some dcb =>
    rw [hd] at h
    exact .inl (script_smRc h).symm

theorem fsmdefEvIdleNewCall_cleanup (h : s.fsmdefEvIdleNewCall f msg d = .ok (.cleanup, outcome, s')) :
    d.answer.smRc = .cleanup ∨ (s.blocks.fcbs f).dcb = none := by
  rw [Fim.fsmdefEvIdleNewCall] at h
  split at h
  · exact absurd h (by simp)
  · cases hd : (s.blocks.fcbs f).dcb with
    | none => exact .inr rfl
    | some dcb =>
      rw [hd] at h
      exact .inl (script_smRc h).symm

theorem fsmdef_smRc {rc : SmRc} (hsetup : ¬ (msg.msgId = .setup ∧ (s.blocks.fcbs f).state = .idle))
    (h : s.fsmdef config k f msg d = .ok (rc, outcome, s')) :
    (rc = .cleanup → d.answer.smRc = .cleanup ∨ (s.blocks.fcbs f).dcb = none) ∧
      (msg.msgId = .feature .cfwdAll → rc = .end → d.answer.smRc = .end) := by
  rw [Fim.fsmdef] at h
  split at h
  next =>
    cases h
    exact ⟨fun hrc => absurd hrc (by simp), fun _ hrc => absurd hrc (by simp)⟩
  next =>
    cases h
    exact ⟨fun hrc => absurd hrc (by simp), fun _ hrc => absurd hrc (by simp)⟩
  next hstate hmsg => exact absurd ⟨hmsg, hstate⟩ hsetup
  next hmsg => exact ⟨fun hrc => fsmdefOffhook_cleanup (hrc ▸ h), fun hcfwd => by simp [hmsg] at hcfwd⟩
  next hmsg => exact ⟨fun hrc => fsmdefOffhook_cleanup (hrc ▸ h), fun hcfwd => by simp [hmsg] at hcfwd⟩
  next hmsg => exact ⟨fun hrc => fsmdefOffhook_cleanup (hrc ▸ h), fun hcfwd => by simp [hmsg] at hcfwd⟩
  next hmsg =>
    exact ⟨fun hrc => fsmdefEvIdleNewCall_cleanup (hrc ▸ h), fun hcfwd => by simp [hmsg] at hcfwd⟩
  next =>
    have hrc := script_smRc h
    exact ⟨fun heq => .inl (hrc.symm.trans heq), fun _ heq => hrc.symm.trans heq⟩

/-! ## A chain gets a message -/

/-- A message is passed to a chain whose call is counted, or is left out. -/
theorem Tallied.dispatch (h : Tallied config s) (hready : s.Ready k f)
    (hpos : ∀ l, 0 < (config l).maxNumCalls ∧ 0 < (config l).busyTrigger)
    (hcall : msg.callId = (s.blocks.fcbs f).callId)
    (hdrops : dropsSent (s.sent f) d.moves = true)
    (hforward : msg.msgId = .feature .cfwdAll → d.answer.smRc = .end → ¬ Lines.Valid msg.line)
    (hsetup : ¬ (msg.msgId = .setup ∧ (s.blocks.fcbs f).state = .idle))
    (hline : d.answer.smRc = .cleanup ∨ (s.blocks.fcbs f).dcb = none →
      ∀ l ∈ s.counted k, SameLine (s.msgLine f msg) l) :
    Safely (fun r => Tallied config r.2) (s.dispatch config k msg d) := by
  rw [Fim.dispatch]
  obtain ⟨reached, s₁, heq, hsame, hready₁⟩ := hready.askFeatures msg d [.cnf, .b2bcnf, .xfr] (by decide)
  rw [heq]
  have h₁ : Tallied config s₁ := h.of_same hsame.same hready₁.inv
  cases reached with
  | false => exact h₁
  | true =>
    -- the default machine and its data are as they were before the feature machines were asked
    have hfcb : s₁.blocks.fcbs f = s.blocks.fcbs f := hsame.default.fcbs f hready.fcb.2
    have hdcbs : s₁.blocks.dcbs = s.blocks.dcbs := hsame.default.dcbs
    have hsent : s₁.sent f = s.sent f := by rw [sent, sent, hfcb, hdcbs]
    have hmsgLine : s₁.msgLine f msg = s.msgLine f msg := by rw [msgLine, msgLine, hfcb, hdcbs]
    rw [← hfcb] at hsetup
    have hsettled : Safely (fun r => Settled (Same s₁) k f r.1 r.2.2) (s₁.fsmdef config k f msg d) :=
      hready₁.fsmdef (by rw [hfcb]; exact hcall) hsetup (by rw [hsent]; exact hdrops)
    dsimp only
    rw [askDefault, hready₁.cb]
    dsimp only
    cases hfsmdef : s₁.fsmdef config k f msg d with
    | error crash =>
      rw [hfsmdef] at hsettled
      exact hsettled
    | ok r =>
      rw [hfsmdef] at hsettled
      obtain ⟨rc, outcome, s₂⟩ := r
      obtain ⟨hcleanup, hend⟩ := fsmdef_smRc hsetup hfsmdef
      refine h₁.finish hready₁ hpos (fun hcfwd hrc => ?_) (fun hrc => ?_) hsettled
      · have heq : s₁.msgLine f msg = msg.line := if_neg fun hand => by simp [hcfwd] at hand
        rw [heq]
        exact hforward hcfwd (hend hcfwd hrc)
      · rw [hsame.counted, hmsgLine]
        exact hline (by rw [← hfcb]; exact hcleanup hrc)

theorem Tallied.newChn (h : Tallied config s) (line : ℕ) (hfree : ¬ s.blocks.Busy k) (hready : s'.Ready k f)
    (hchns : ∀ k', k' ≠ k → s'.blocks.chns k' = s.blocks.chns k')
    (hothers : ∀ c, c ≠ noCallId → c ≠ (s'.blocks.chns k).callId → (s'.blocks.Uncounted c ↔ s.blocks.Uncounted c))
    (hk : s'.lines = s.lines.increment config line ∧ s'.counted = Function.update s.counted k (some line) ∧
        ¬ s'.blocks.Uncounted (s'.blocks.chns k).callId ∨
      s'.lines = s.lines ∧ s'.counted = Function.update s.counted k none ∧
        s'.blocks.Uncounted (s'.blocks.chns k).callId) : Tallied config s' := by
  have hcounted : ∀ k', k' ≠ k → s'.counted k' = s.counted k' := fun k' hk' => by
    rcases hk with ⟨-, heq, -⟩ | ⟨-, heq, -⟩ <;> rw [heq, Function.update_of_ne hk']
  have hother : ∀ l, s'.callCountBut k l = s.callCountBut k l := fun l =>
    callCountBut_congr hchns hcounted
  have hwas : ∀ l, ¬ (s.blocks.Busy k ∧ s.counted k = some l) := fun l hand => hfree hand.1
  refine ⟨hready.inv, ?_, fun k' hbusy' => ?_⟩
  · rcases hk with ⟨hlines, heq, -⟩ | ⟨hlines, heq, -⟩
    · exact h.counts.increment hother hwas hready.busy (by rw [heq, Function.update_self]) hlines
    · refine h.counts.congr hother (fun l _ => hwas l) (fun l _ hand => ?_) hlines
      rw [heq, Function.update_self] at hand
      exact absurd hand.2 (by simp)
  · by_cases hkk : k' = k
    · subst hkk
      rcases hk with ⟨-, heq, hun⟩ | ⟨-, heq, hun⟩
      · rw [heq, Function.update_self]
        exact iff_of_false (by simp) hun
      · rw [heq, Function.update_self]
        exact iff_of_true rfl hun
    · have hne : (s'.blocks.chns k').callId ≠ (s'.blocks.chns k).callId := fun heq =>
        hkk (hready.inv.distinct k' k hbusy' heq)
      rw [hcounted k' hkk, hothers _ hbusy' hne]
      rw [Blocks.Busy, hchns k' hkk] at hbusy'
      rw [hchns k' hkk]
      exact h.left k' hbusy'

theorem Tallied.start (h : Tallied config s) (hfree : ¬ s.blocks.Busy k) (hready : s'.Ready k f)
    (hpos : ∀ l, 0 < (config l).maxNumCalls ∧ 0 < (config l).busyTrigger)
    (hmsg : msg.msgId ≠ .setup) (hcall : msg.callId = (s'.blocks.fcbs f).callId)
    (hchns : ∀ k', k' ≠ k → s'.blocks.chns k' = s.blocks.chns k')
    (huncounted : ∀ c, c ≠ noCallId → (s'.blocks.Uncounted c ↔ s.blocks.Uncounted c))
    (hun : ¬ s.blocks.Uncounted msg.callId) (hlines : s'.lines = s.lines)
    (hcounted : s'.counted = Function.update s.counted k (some msg.line))
    (hdrops : dropsSent (s'.sent f) d.moves = true)
    (hforward : msg.msgId = .feature .cfwdAll → d.answer.smRc = .end → ¬ Lines.Valid msg.line)
    (hrelease : msg.msgId ≠ .release) :
    Safely (fun r => Tallied config r.2) (s'.start config k msg d) := by
  have hkcall : (s'.blocks.chns k).callId = msg.callId := hready.fcb.1.symm.trans hcall.symm
  have hready' : (s'.count config msg.line).Ready k f := ⟨hready.inv, hready.busy, hready.cb⟩
  have htallied : Tallied config (s'.count config msg.line) := by
    refine h.newChn msg.line hfree hready' hchns (fun c hc _ => huncounted c hc)
      (.inl ⟨by rw [← hlines]; rfl, hcounted, ?_⟩)
    show ¬ s'.blocks.Uncounted (s'.blocks.chns k).callId
    rw [huncounted _ hready.busy, hkcall]
    exact hun
  rw [Fim.start, if_neg hmsg]
  refine htallied.dispatch hready' hpos hcall hdrops hforward (fun hand => hmsg hand.1) ?_
  intro _ l hl
  have hl' : (s'.count config msg.line).counted k = some l := hl
  have hline : (s'.count config msg.line).msgLine f msg = msg.line := if_neg fun hand => hrelease hand.2
  rw [show (s'.count config msg.line).counted = s'.counted from rfl, hcounted, Function.update_self] at hl'
  rw [hline]
  exact .inl (Option.some.inj hl')

/-- A chain that is set up for a call that is not counted yet. -/
structure NewChn (s s' : Fim) (k : ChnId) (f : FcbId) (msg : FimMsg) : Prop where
  free : ¬ s.blocks.Busy k
  ready : s'.Ready k f
  fcb : s'.blocks.fcbs f = { callId := msg.callId, fsmType := .default }
  chns : ∀ k', k' ≠ k → s'.blocks.chns k' = s.blocks.chns k'
  uncounted : ∀ c, c ≠ noCallId → (s'.blocks.Uncounted c ↔ s.blocks.Uncounted c)
  lines : s'.lines = s.lines
  counted : s'.counted = Function.update s.counted k none

namespace NewChn

variable {s₂ : Fim}

theorem of_sameDefault (h : NewChn s s' k f msg) (hsame : SameDefault s' s₂) (hready : s₂.Ready k f) :
    NewChn s s₂ k f msg where
  free := h.free
  ready := hready
  fcb := (hsame.default.fcbs f h.ready.fcb.2).trans h.fcb
  chns k' hk' := by rw [hsame.links.chns, h.chns k' hk']
  uncounted c hc := (hsame.same.uncounted c hc).trans (h.uncounted c hc)
  lines := hsame.lines.trans h.lines
  counted := hsame.counted.trans h.counted

theorem counts (hnew : NewChn s s' k f msg) (h : CountsCalls config s) : CountsCalls config s' := by
  have hother : ∀ l, s'.callCountBut k l = s.callCountBut k l := fun l =>
    callCountBut_congr hnew.chns fun k' hk' => by rw [hnew.counted, Function.update_of_ne hk']
  refine h.congr hother (fun l _ hand => hnew.free hand.1) (fun l _ hand => ?_) hnew.lines
  rw [hnew.counted, Function.update_self] at hand
  exact absurd hand.2 (by simp)

theorem updateCallCnt_eq (h : NewChn s s' k f msg) : s'.updateCallCnt f = true := by
  rw [updateCallCnt, h.fcb]

theorem cleanup (hnew : NewChn s s' k f msg) (h : Tallied config s) (hmsg : msg.msgId = .setup)
    (hpos : ∀ l, 0 < (config l).maxNumCalls ∧ 0 < (config l).busyTrigger)
    (hline : ¬ Lines.Valid msg.line) :
    Tallied config (s'.finish config k f msg msg.line true .cleanup) := by
  obtain ⟨hlines, hcounted⟩ := finish_spec config s' k f msg msg.line true .cleanup fun hcfwd => by simp [hmsg] at hcfwd
  refine hnew.ready.tallied_cleanup (hnew.counts h.counts) hpos (fun k' hk' hbusy' => ?_)
    msg.line true (fun l hl => ?_) (fun _ _ => hline) ?_ hcounted ?_
  · rw [Blocks.Busy, hnew.chns k' hk'] at hbusy'
    rw [hnew.chns k' hk', hnew.counted, Function.update_of_ne hk', hnew.uncounted _ hbusy']
    exact h.left k' hbusy'
  · rw [hnew.counted, Function.update_self] at hl
    exact absurd hl (by simp)
  · rw [blocks_finish, if_pos rfl]
  · rw [hlines]
    simp only [true_and]

theorem setUp (hnew : NewChn s s' k f msg) (h : Tallied config s) (hready : s₂.Ready k f)
    (hset : SetUp config s' k msg line s₂) : Tallied config s₂ := by
  have hkcall : (s₂.blocks.chns k).callId = (s'.blocks.chns k).callId := by rw [hset.chns]
  refine h.newChn line hnew.free hready (fun k' hk' => by rw [hset.chns, hnew.chns k' hk'])
    (fun c hc hne => (hset.others c hc (hkcall ▸ hne)).trans (hnew.uncounted c hc)) ?_
  rw [hkcall]
  by_cases hmsg : msg.monitor = false ∧ msg.replaces = false
  · obtain ⟨hlines, hcounted, hun⟩ := hset.counts hmsg
    refine .inl ⟨by rw [hlines, hnew.lines], ?_, hun⟩
    rw [hcounted, hnew.counted, Function.update_idem]
  · obtain ⟨hlines, hcounted, hun⟩ := hset.joins hmsg
    exact .inr ⟨hlines.trans hnew.lines, hcounted.trans hnew.counted, hun⟩

/-- There is no instance of the line for the call, and the chain is cleaned up on the line of the
message. -/
theorem cleanup_setUp (hnew : NewChn s s' k f msg) (h : Tallied config s) (hmsg : msg.msgId = .setup)
    (hpos : ∀ l, 0 < (config l).maxNumCalls ∧ 0 < (config l).busyTrigger) (hready : s₂.Ready k f)
    (hset : SetUp config s' k msg 1 s₂)
    (hline : if msg.monitor = false ∧ msg.replaces = false then msg.line = 1 else ¬ Lines.Valid msg.line) :
    Tallied config (s₂.finish config k f msg msg.line true .cleanup) := by
  have h₂ := hnew.setUp h hready hset
  obtain ⟨hlines, hcounted⟩ := finish_spec config s₂ k f msg msg.line true .cleanup fun hcfwd => by simp [hmsg] at hcfwd
  refine hready.tallied_cleanup h₂.counts hpos (fun k' _ => h₂.left k')
    msg.line true (fun l hl => ⟨rfl, ?_⟩) (fun hnone _ => ?_) ?_ hcounted ?_
  · by_cases hjoins : msg.monitor = false ∧ msg.replaces = false
    · rw [if_pos hjoins] at hline
      rw [(hset.counts hjoins).2.1, Function.update_self] at hl
      exact .inl (hline.trans (Option.some.inj hl))
    · rw [(hset.joins hjoins).2.1, hnew.counted, Function.update_self] at hl
      exact absurd hl (by simp)
  · by_cases hjoins : msg.monitor = false ∧ msg.replaces = false
    · rw [(hset.counts hjoins).2.1, Function.update_self] at hnone
      exact absurd hnone (by simp)
    · rwa [if_neg hjoins] at hline
  · rw [blocks_finish, if_pos rfl]
  · rw [hlines]
    simp only [true_and]

theorem askDefault (hnew : NewChn s s' k f msg) (h : Tallied config s) (hmsg : msg.msgId = .setup)
    (hpos : ∀ l, 0 < (config l).maxNumCalls ∧ 0 < (config l).busyTrigger)
    (hok : SetupOk msg d) :
    Safely (fun r => Tallied config r.2) (s'.askDefault config k msg d) := by
  have hsettled := hnew.ready.fsmdefEvIdleSetup config msg d (by rw [hnew.fcb]) (by rw [hnew.fcb])
  have hmsgLine : s'.msgLine f msg = msg.line := if_neg fun hand => by simp [hmsg] at hand
  rw [Fim.askDefault, hnew.ready.cb]
  dsimp only
  rw [fsmdef_eq_setup hmsg (by rw [hnew.fcb]), hmsgLine, hnew.updateCallCnt_eq]
  refine Safely.map (hsettled.mono fun r hr => ?_)
  obtain ⟨rc, outcome, s₂⟩ := r
  rcases hr with ⟨hnumber, hrc, hs₂⟩ | ⟨hnumber, hready₂, hset, hrc | ⟨hrc, hnores⟩⟩
  · dsimp only at hrc hs₂ ⊢
    rw [SetupOk, if_pos hnumber] at hok
    rw [hrc, hs₂]
    exact hnew.cleanup h hmsg hpos hok
  · dsimp only at hrc hready₂ hset ⊢
    have h₂ := hnew.setUp h hready₂ hset
    rw [hrc]
    obtain ⟨hlines, hcounted⟩ := finish_spec config s₂ k f msg msg.line true .end fun hcfwd => by simp [hmsg] at hcfwd
    exact h₂.congr (by rw [blocks_finish, if_neg (by simp)]) (by rw [hlines, if_neg (by simp)])
      (by rw [hcounted, if_neg (by simp)])
  · dsimp only at hrc hready₂ hset ⊢
    rw [hnores, if_neg (by simp)] at hset
    rw [SetupOk, if_neg hnumber] at hok
    rw [hrc]
    exact hnew.cleanup_setUp h hmsg hpos hready₂ hset (hok hnores)

theorem start (hnew : NewChn s s' k f msg) (h : Tallied config s) (hmsg : msg.msgId = .setup)
    (hpos : ∀ l, 0 < (config l).maxNumCalls ∧ 0 < (config l).busyTrigger)
    (hok : SetupOk msg d) :
    Safely (fun r => Tallied config r.2) (s'.start config k msg d) := by
  rw [Fim.start, if_pos hmsg, Fim.dispatch]
  obtain ⟨reached, s₁, heq, hsame, hready⟩ := hnew.ready.askFeatures msg d [.cnf, .b2bcnf, .xfr] (by decide)
  rw [heq, askFeatures_setup hmsg heq]
  exact (hnew.of_sameDefault hsame hready).askDefault h hmsg hpos hok

end NewChn

/-! ## A message -/

theorem chns_create {blocks : Blocks} {g : FsmType → FcbId}
    (htaken : Blocks.Taken (s.blocks.setChn k { s.blocks.chns k with callId := msg.callId }) blocks k
      msg.callId FsmType.chain g) :
    (∀ k', k' ≠ k → (s.create k blocks msg).blocks.chns k' = s.blocks.chns k') ∧
      ∀ c, (s.create k blocks msg).blocks.Uncounted c ↔ s.blocks.Uncounted c := by
  refine ⟨fun k' hk' => ?_, fun c => ?_⟩
  · show blocks.chns k' = s.blocks.chns k'
    rw [htaken.chns k' hk']
    simp [Blocks.setChn, hk']
  · show blocks.Uncounted c ↔ s.blocks.Uncounted c
    rw [Blocks.Uncounted, Blocks.Uncounted, htaken.dcbs]
    rfl

theorem Tallied.fimNewCall (h : Tallied config s) (hok : s.CountOk msg d)
    (hpos : ∀ l, 0 < (config l).maxNumCalls ∧ 0 < (config l).busyTrigger)
    (hcall : msg.callId ≠ noCallId) (hnone : s.blocks.fimGetCallChnByCallId msg.callId = none) :
    Safely (fun r => Tallied config r.2) (s.fimNewCall config msg d) := by
  have hdrops := hok.drops
  rw [sendRelease_eq_false h.inv hcall hnone] at hdrops
  have hun : ¬ s.blocks.Uncounted msg.callId := fun ⟨dcb, hdcb, _⟩ =>
    (h.inv.callId_ne hcall hnone).2.2 dcb hdcb
  rw [Fim.fimNewCall]
  rcases h.inv.fimGetNewCallChn_cases hcall hnone with hfull | ⟨k, blocks, g, hnew, hfree, htaken⟩
  · rw [hfull]
    split
    · exact h
    · split <;> exact h
  · obtain ⟨hready, hfcb⟩ := s.ready_create h.inv hcall hnone hfree htaken
    obtain ⟨hchns, huncounted⟩ := chns_create (s := s) htaken
    have hcallId : msg.callId = ((s.create k blocks msg).blocks.fcbs (g .default)).callId := by
      rw [hfcb]
    have hnodata : ((s.create k blocks msg).blocks.fcbs (g .default)).dcb = none := by rw [hfcb]
    rw [hnew]
    split
    next hest =>
      dsimp only
      by_cases hmsg : msg.msgId = .setup
      · refine NewChn.start ⟨hfree, hready, hfcb, hchns, fun c _ => huncounted c, rfl, ?_⟩ h hmsg hpos
          (hok.setup hnone hmsg)
        rw [create, if_pos hmsg]
        rfl
      · refine h.start hfree hready hpos hmsg hcallId hchns (fun c _ => huncounted c) hun rfl ?_
          (by rw [sent_of_none hnodata]; exact hdrops) hok.forward fun hrelease => ?_
        · rw [create, if_neg hmsg]
          rfl
        · rw [hrelease] at hest
          exact absurd hest (by decide)
    next =>
      split
      next hfeature =>
        have hmsg : msg.msgId ≠ .setup := fun hmsg => by rw [hmsg] at hfeature; exact absurd hfeature (by decide)
        have hrelease : msg.msgId ≠ .release := fun hmsg => by
          rw [hmsg] at hfeature
          exact absurd hfeature (by decide)
        have hcounted : (s.create k blocks msg).counted = Function.update s.counted k (some msg.line) := by
          rw [create, if_neg hmsg]
          rfl
        -- a chain was free, so there are data and a line for the feature
        have hroom : s.blocks.fimGetCallChnByCallId noCallId ≠ none := fun hfirst =>
          hfree fun heq => of_decide_eq_false (first_eq_none_iff.mp hfirst k) heq
        obtain ⟨hdata, hfacility⟩ := hok.feature hnone hfeature hroom
        dsimp only
        split
        · rcases hready.fimFeatureContext (d := d) hfcb with
            ⟨cause, -, -, hfull⟩ | ⟨dcb, blocks', heq, hready', hsame, hdcb, hsent⟩
          · refine absurd (first_eq_none_iff.mpr fun dcb => decide_eq_false fun hfirst => ?_) hdata
            refine hfull dcb (Eq.trans ?_ hfirst)
            show (blocks.dcbs dcb).callId = (s.blocks.dcbs dcb).callId
            rw [htaken.dcbs]
            rfl
          · rw [heq, hfacility]
            refine h.start hfree hready' hpos hmsg ?_ (fun k' hk' => ?_) (fun c hc => ?_) hun rfl hcounted
              (by rw [hsent]; exact hdrops) hok.forward hrelease
            · simp only [setBlocks, hdcb]
              exact hcallId
            · rw [hsame.chns, hchns k' hk']
            · rw [hsame.uncounted c hc, huncounted]
        · exact h.start hfree hready hpos hmsg hcallId hchns (fun c _ => huncounted c) hun rfl hcounted
            (by rw [sent_of_none hnodata]; exact hdrops) hok.forward hrelease
      next => exact h

theorem Tallied.fimProcessEvent (h : Tallied config s) (hok : s.CountOk msg d)
    (hpos : ∀ l, 0 < (config l).maxNumCalls ∧ 0 < (config l).busyTrigger) :
    Safely (fun r => Tallied config r.2) (s.fimProcessEvent config msg d) := by
  rw [Fim.fimProcessEvent]
  by_cases hcall : msg.callId = noCallId
  · rw [if_pos hcall]
    exact h
  · rw [if_neg hcall]
    cases hk : s.blocks.fimGetCallChnByCallId msg.callId with
    | none => exact h.fimNewCall hok hpos hcall hk
    | some k =>
      have hkcall : (s.blocks.chns k).callId = msg.callId := of_decide_eq_true (of_first hk)
      have hbusy : s.blocks.Busy k := by
        rw [Blocks.Busy, hkcall]
        exact hcall
      obtain ⟨f, hcb, hf, -⟩ := h.inv.cb k hbusy .default (by decide)
      have hready : s.Ready k f := ⟨h.inv, hbusy, hcb⟩
      have hcallId : msg.callId = (s.blocks.fcbs f).callId := (hf.trans hkcall).symm
      have hsent : s.sendRelease msg.callId = s.sent f := by
        rw [sendRelease, sent, hcallId, hready.fsmdefGetDcbByCallId_eq]
      obtain ⟨hsetup, hline⟩ := hok.line k hk f hcb
      dsimp only
      split
      · exact h
      · exact h.dispatch hready hpos hcallId (hsent ▸ hok.drops) hok.forward hsetup hline

/-! ## Every run -/

/-- The condition on a sequence of messages. -/
def RunCountOk (config : ℕ → LineConfig) : List (FimMsg × Decisions) → Fim → Prop
  | [], _ => True
  | (msg, d) :: events, s =>
    s.CountOk msg d ∧ Then (RunCountOk config events) (s.fimProcessEvent config msg d)

theorem tallied_init (hpos : ∀ l, 0 < (config l).maxNumCalls ∧ 0 < (config l).busyTrigger) : Tallied config {} where
  inv := Blocks.inv_init
  counts l _ := by
    have hcount : callCount {} l = 0 :=
      Finset.card_eq_zero.mpr (Finset.filter_eq_empty_iff.mpr fun k _ hand => hand.1 rfl)
    have hlimit {limit : UInt32} (hpos : 0 < limit) : false = true ↔ limit.toNat ≤ 0 := by
      rw [UInt32.lt_iff_toNat_lt, UInt32.toNat_zero] at hpos
      exact iff_of_false (by simp) (by omega)
    rw [hcount]
    exact ⟨rfl, hlimit (hpos l).1, hlimit (hpos l).2⟩
  left k hbusy := absurd rfl hbusy

theorem Tallied.run {events : List (FimMsg × Decisions)} (h : Tallied config s)
    (hpos : ∀ l, 0 < (config l).maxNumCalls ∧ 0 < (config l).busyTrigger)
    (hok : RunCountOk config events s) : Safely (Tallied config) (run config events s) := by
  induction events generalizing s with
  | nil => exact h
  | cons event events ih =>
    obtain ⟨msg, d⟩ := event
    obtain ⟨hstep, hrest⟩ := hok
    have htallied := h.fimProcessEvent hstep hpos
    rw [Fim.run]
    cases hr : s.fimProcessEvent config msg d with
    | error crash =>
      rw [hr] at htallied
      exact htallied
    | ok r =>
      rw [hr] at htallied hrest
      exact ih htallied hrest

/-- **Line counters count calls.** In every state reached, the counter of a line is the number of the calls
that have to be counted on it, and its flags say whether they are as many as the limits, in every run of
messages that meet the condition and for all positive limits. -/
theorem countsCalls_of_ok {events : List (FimMsg × Decisions)}
    (hpos : ∀ l, 0 < (config l).maxNumCalls ∧ 0 < (config l).busyTrigger)
    (hok : RunCountOk config events {}) : Safely (CountsCalls config) (run config events {}) :=
  ((tallied_init hpos).run hpos hok).mono fun _ h => h.counts

/-- The condition is checked field by field. -/
instance (s : Fim) (msg : FimMsg) (d : Decisions) : Decidable (s.CountOk msg d) :=
  decidable_of_iff
    (dropsSent (s.sendRelease msg.callId) d.moves = true ∧
      (msg.msgId = .feature .cfwdAll → d.answer.smRc = .end → ¬ Lines.Valid msg.line) ∧
      (∀ k ∈ s.blocks.fimGetCallChnByCallId msg.callId, ∀ f ∈ (s.blocks.chns k).cb .default,
        s.LineOk k f msg d) ∧
      (s.blocks.fimGetCallChnByCallId msg.callId = none → msg.msgId = .setup → SetupOk msg d) ∧
      (s.blocks.fimGetCallChnByCallId msg.callId = none →
        msg.msgId.fimCheckFeatureEvent = true → s.blocks.fimGetCallChnByCallId noCallId ≠ none →
          s.blocks.fsmdefGetDcbByCallId noCallId ≠ none ∧ d.facility = .ok))
    ⟨fun ⟨drops, forward, line, setup, feature⟩ => ⟨drops, forward, line, setup, feature⟩,
      fun ⟨drops, forward, line, setup, feature⟩ => ⟨drops, forward, line, setup, feature⟩⟩

instance decidableRunCountOk (config : ℕ → LineConfig) :
    (events : List (FimMsg × Decisions)) → DecidablePred (RunCountOk config events)
  | [], _ => .isTrue trivial
  | (msg, d) :: events, s =>
    have := decidableRunCountOk config events
    inferInstanceAs (Decidable (s.CountOk msg d ∧
      Then (RunCountOk config events) (s.fimProcessEvent config msg d)))

/-- A call is started, and hung up on its line. -/
theorem countsCalls_oneCall :
    RunCountOk (fun _ => ⟨2, 2⟩) [offhook 1 1, onhook 1 1] {} ∧
      Safely (CountsCalls fun _ => ⟨2, 2⟩) (run (fun _ => ⟨2, 2⟩) [offhook 1 1, onhook 1 1] {}) :=
  ⟨by decide +kernel, countsCalls_of_ok (fun _ => by decide) (by decide +kernel)⟩

/-- The line has two calls, and no instance for a third one. The call is ended by a message with the line of
its data, which is none. -/
def noInstance : List (FimMsg × Decisions) :=
  [offhook 1 1, offhook 2 1,
    ({ msgId := .feature .newCall, callId := 3, line := 1 }, { facility := .busy }),
    ({ msgId := .feature .endCall, callId := 3, line := lsmNoLine }, { answer := .release false })]

/-- A call that finds no instance of its line stays in the count. -/
theorem not_countsCalls : ¬ ∀ (config : ℕ → LineConfig) (events : List (FimMsg × Decisions)),
    (∀ l, 0 < (config l).maxNumCalls ∧ 0 < (config l).busyTrigger) →
      Safely (CountsCalls config) (run config events {}) := by
  intro h
  have hrun := h (fun _ => ⟨4, 4⟩) noInstance fun _ => by decide
  -- the line has two chains, and a count of three
  have hcount := hrun.mono (Q := fun s => (s.lines 1).callPerline.toNat = s.callCount 1) fun s hs =>
    (hs 1 (by decide)).count
  revert hcount
  decide +kernel

end Fim

end Gsm
