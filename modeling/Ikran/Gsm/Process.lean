import Ikran.Gsm.Links

/-!
# Messages keep the links

Every message leaves the chains with their control blocks, unless a handler releases its call and does not
look at the answer by which `fsmdef_release` asks for a clean-up, or a set-up comes for a call in the idle
state that has data already.
-/

namespace Gsm

open Pool

/-- What is reached has the property, and no null control block is followed on the way. -/
def Safely {α : Type} (P : α → Prop) : Except Crash α → Prop
  | .ok a => P a
  | .error crash => crash = .dcb

theorem Safely.mono {α : Type} {P Q : α → Prop} {r : Except Crash α} (h : Safely P r)
    (hpq : ∀ a, P a → Q a) : Safely Q r := by
  cases r with
  | ok a => exact hpq a h
  | error crash => exact h

theorem Safely.map {α β : Type} {P : β → Prop} {r : Except Crash α} {φ : α → β}
    (h : Safely (fun a => P (φ a)) r) : Safely P (r.map φ) := by
  cases r with
  | ok a => exact h
  | error crash => exact h

instance decidableSafely {α : Type} (P : α → Prop) [DecidablePred P] :
    (r : Except Crash α) → Decidable (Safely P r)
  | .ok a => inferInstanceAs (Decidable (P a))
  | .error crash => inferInstanceAs (Decidable (crash = .dcb))

/-- Each answer that is not looked at is that of a release that was sent. The flag says whether the other
end waits for one. -/
def dropsSent : Bool → List Move → Bool
  | _, [] => true
  | sent, .dropRelease :: ms => sent && dropsSent sent ms
  | _, .setSendRelease sent :: ms => dropsSent sent ms
  | sent, .changeState _ :: ms => dropsSent sent ms
  | sent, .useDcb :: ms => dropsSent sent ms

namespace Fim

variable {config : ℕ → LineConfig} {s s' : Fim} {k : ChnId} {f : FcbId} {msg : FimMsg} {d : Decisions}

/-- Whether the other end of the call waits for a release. -/
def sendRelease (s : Fim) (callId : CallId) : Bool :=
  match s.blocks.fsmdefGetDcbByCallId callId with
  | none => false
  | some d => (s.blocks.dcbs d).sendRelease

/-- The answer of a release that is not sent is looked at, and a set-up does not come for an idle call that
has data. -/
def StepOk (s : Fim) (msg : FimMsg) (d : Decisions) : Prop :=
  dropsSent (s.sendRelease msg.callId) d.moves = true ∧
    (msg.msgId = .setup → ∀ f ∈ s.blocks.fsmGetFcbByCallIdAndType msg.callId .default,
      (s.blocks.fcbs f).state = .idle → (s.blocks.fcbs f).dcb = none)

instance (s : Fim) (msg : FimMsg) (d : Decisions) : Decidable (s.StepOk msg d) :=
  inferInstanceAs (Decidable (_ ∧ (_ → ∀ f ∈ s.blocks.fsmGetFcbByCallIdAndType msg.callId .default,
      (s.blocks.fcbs f).state = .idle → (s.blocks.fcbs f).dcb = none)))

/-- The state after a message has the property, if no null pointer is followed. -/
def Then (P : Fim → Prop) : Except Crash (Outcome × Fim) → Prop
  | .error _ => True
  | .ok (_, s) => P s

instance decidableThen (P : Fim → Prop) [DecidablePred P] :
    (r : Except Crash (Outcome × Fim)) → Decidable (Then P r)
  | .error _ => .isTrue trivial
  | .ok (_, s) => inferInstanceAs (Decidable (P s))

/-- The condition on a sequence of messages. -/
def RunOk (config : ℕ → LineConfig) : List (FimMsg × Decisions) → Fim → Prop
  | [], _ => True
  | (msg, d) :: events, s =>
    s.StepOk msg d ∧ Then (RunOk config events) (s.fimProcessEvent config msg d)

instance decidableRunOk (config : ℕ → LineConfig) :
    (events : List (FimMsg × Decisions)) → DecidablePred (RunOk config events)
  | [], _ => .isTrue trivial
  | (msg, d) :: events, s =>
    have := decidableRunOk config events
    inferInstanceAs (Decidable (s.StepOk msg d ∧
      Then (RunOk config events) (s.fimProcessEvent config msg d)))

/-! ## A handler of the default machine -/

/-- The chain has its blocks, and the block of its default machine is the one that a handler works on. -/
structure Ready (s : Fim) (k : ChnId) (f : FcbId) : Prop where
  inv : s.blocks.Inv
  busy : s.blocks.Busy k
  cb : (s.blocks.chns k).cb .default = some f

theorem Ready.fcb (h : s.Ready k f) :
    (s.blocks.fcbs f).callId = (s.blocks.chns k).callId ∧ (s.blocks.fcbs f).fsmType = .default :=
  (h.inv.of_cb h.cb (by decide)).2

theorem Ready.callId_ne (h : s.Ready k f) : (s.blocks.fcbs f).callId ≠ noCallId := by
  rw [h.fcb.1]
  exact h.busy

theorem Ready.of_sameLinks (h : s.Ready k f) (hsame : Blocks.SameLinks s.blocks s'.blocks) : s'.Ready k f :=
  ⟨h.inv.of_sameLinks hsame, by rw [Blocks.Busy, hsame.chns]; exact h.busy,
    by rw [hsame.chns]; exact h.cb⟩

theorem blocks_changeState (s : Fim) (f : FcbId) (state : FsmdefState) :
    (s.changeState f state).blocks = s.blocks.setFcb f { s.blocks.fcbs f with state } :=
  CallControl.blocks_fsmChangeState s.toCallControl f state

theorem sameLinks_changeState (s : Fim) (f : FcbId) (state : FsmdefState) :
    Blocks.SameLinks s.blocks (s.changeState f state).blocks := by
  rw [blocks_changeState]
  exact Blocks.sameLinks_changeState s.blocks f state

/-- The chains, the counts and the calls that are left out of them are the same. -/
structure Same (s s' : Fim) : Prop where
  chns : s'.blocks.chns = s.blocks.chns
  lines : s'.lines = s.lines
  counted : s'.counted = s.counted
  uncounted : ∀ callId, callId ≠ noCallId →
    (s'.blocks.Uncounted callId ↔ s.blocks.Uncounted callId)

theorem Same.refl (s : Fim) : Same s s := ⟨rfl, rfl, rfl, fun _ _ => .rfl⟩

theorem Same.trans {s'' : Fim} (h : Same s s') (h' : Same s' s'') : Same s s'' :=
  ⟨h'.chns.trans h.chns, h'.lines.trans h.lines, h'.counted.trans h.counted,
    fun c hc => (h'.uncounted c hc).trans (h.uncounted c hc)⟩

theorem Same.of_dcbs {blocks : Blocks} (hchns : blocks.chns = s.blocks.chns)
    (hcall : ∀ d, (blocks.dcbs d).callId = (s.blocks.dcbs d).callId)
    (hflag : ∀ d, (blocks.dcbs d).callNotCountedInMncBt = (s.blocks.dcbs d).callNotCountedInMncBt) :
    Same s (s.setBlocks blocks) :=
  ⟨hchns, rfl, rfl, fun c _ => by simp only [setBlocks, Blocks.Uncounted, hcall, hflag]⟩

theorem same_changeState (s : Fim) (f : FcbId) (state : FsmdefState) : Same s (s.changeState f state) := by
  have hblocks := s.blocks_changeState f state
  exact ⟨by rw [hblocks]; rfl, rfl, rfl, fun c _ => by rw [hblocks]; rfl⟩

theorem same_setSendRelease (s : Fim) (d : DcbId) (sendRelease : Bool) :
    Same s (s.setBlocks (s.blocks.setDcb d { s.blocks.dcbs d with sendRelease })) := by
  refine .of_dcbs rfl (fun d' => ?_) fun d' => ?_ <;>
    · by_cases hd : d' = d
      · subst hd
        simp [Blocks.setDcb]
      · simp [Blocks.setDcb, hd]

/-- Whether the other end waits for a release, as the machine has it. -/
def sent (s : Fim) (f : FcbId) : Bool :=
  match (s.blocks.fcbs f).dcb with
  | none => false
  | some d => (s.blocks.dcbs d).sendRelease

theorem Ready.fsmdefGetDcbByCallId_eq (h : s.Ready k f) :
    s.blocks.fsmdefGetDcbByCallId (s.blocks.fcbs f).callId = (s.blocks.fcbs f).dcb := by
  cases hd : (s.blocks.fcbs f).dcb with
  | none =>
    exact first_eq_none_iff.mpr fun d =>
      decide_eq_false (h.inv.dcb_callId_ne h.callId_ne h.fcb.2 hd d)
  | some d =>
    have hcall := (h.inv.dcb f d h.fcb.2 hd).1
    exact first_eq_of_unique (decide_eq_true hcall) fun d' hd' =>
      (h.inv.owns h.callId_ne).oneData d' d (of_decide_eq_true hd') hcall

theorem Ready.fsmdefRelease_sent (h : s.Ready k f) {d : DcbId} (hd : (s.blocks.fcbs f).dcb = some d) :
    s.fsmdefRelease f true = .ok (.end, s.changeState f .releasing) ∧ (s.changeState f .releasing).Ready k f :=
  ⟨by rw [fsmdefRelease, hd]; rfl, h.of_sameLinks (s.sameLinks_changeState f _)⟩

/-- The clean-up of the chain leaves the same of both states. -/
structure CleansLike (s s' : Fim) (k : ChnId) : Prop where
  blocks : s'.blocks.fimFreeCallChn k = s.blocks.fimFreeCallChn k
  lines : s'.lines = s.lines
  counted : s'.counted = s.counted

theorem Ready.fsmdefRelease_unsent (h : s.Ready k f) {d : DcbId} (hd : (s.blocks.fcbs f).dcb = some d) :
    ∃ s', s.fsmdefRelease f false = .ok (.cleanup, s') ∧ CleansLike s s' k := by
  obtain ⟨hcall, htype⟩ := h.fcb
  obtain ⟨hdcall, -⟩ := h.inv.dcb f d htype hd
  let s₁ := s.changeState f .idle
  let s₂ := s₁.setBlocks (s₁.blocks.fsmdefFreeDcb (some d))
  have hrelease : s.fsmdefRelease f false = .ok (.cleanup, { s₂ with toCallControl := s₂.fsmRelease f }) := by
    rw [fsmdefRelease, hd]
    rfl
  refine ⟨_, hrelease, ?_, rfl, rfl⟩
  have hblocks₁ : s₁.blocks = s.blocks.setFcb f { s.blocks.fcbs f with state := .idle } := s.blocks_changeState f .idle
  have hblocks : (s₂.fsmRelease f).blocks = (s₂.blocks.setFcb f { s₂.blocks.fcbs f with state := .idle
      }).freeFcb f := by
    rw [CallControl.fsmRelease, CallControl.blocks_fsmChangeState]
  have hfcbs : (s₂.fsmRelease f).blocks.fcbs = Function.update s.blocks.fcbs f {} := by
    rw [hblocks]
    simp [Blocks.freeFcb, Blocks.fsmInitFcb, Blocks.setFcb, s₂, setBlocks, Blocks.fsmdefFreeDcb,
      Blocks.setDcb, hblocks₁]
  have hdcbs : (s₂.fsmRelease f).blocks.dcbs = Function.update s.blocks.dcbs d {} := by
    rw [hblocks]
    simp [Blocks.freeFcb, Blocks.fsmInitFcb, Blocks.setFcb, s₂, setBlocks, Blocks.fsmdefFreeDcb,
      Blocks.setDcb, hblocks₁]
  have hchns : (s₂.fsmRelease f).blocks.chns = s.blocks.chns := by
    rw [hblocks]
    simp [Blocks.freeFcb, Blocks.fsmInitFcb, Blocks.setFcb, s₂, setBlocks, Blocks.fsmdefFreeDcb,
      Blocks.setDcb, hblocks₁]
  show (s₂.fsmRelease f).blocks.fimFreeCallChn k = s.blocks.fimFreeCallChn k
  generalize (s₂.fsmRelease f).blocks = w at hfcbs hdcbs hchns
  have howns : s.blocks.Owns (s.blocks.chns k).callId := h.inv.owns h.busy
  -- the blocks that are left of the call are found by its id as before
  have hfcb : ∀ g, (w.fcbs g).callId = (s.blocks.chns k).callId → w.fcbs g = s.blocks.fcbs g := by
    intro g hg
    have hgf : g ≠ f := by
      rintro rfl
      rw [hfcbs, Function.update_self] at hg
      exact h.busy hg.symm
    rw [hfcbs, Function.update_of_ne hgf]
  have hdcb : ∀ d', (w.dcbs d').callId ≠ (s.blocks.chns k).callId := by
    intro d' hd'
    rw [hdcbs] at hd'
    by_cases hdd : d' = d
    · subst hdd
      rw [Function.update_self] at hd'
      exact h.busy hd'.symm
    · rw [Function.update_of_ne hdd] at hd'
      exact hdd (howns.oneData d' d hd' (hdcall.trans hcall))
  have howns' : w.Owns (s.blocks.chns k).callId := by
    refine ⟨fun g g' hg hg' ht => ?_, fun g hg => ?_, fun d' hd' => absurd hd' (hdcb d'),
      fun d' _ hd' => absurd hd' (hdcb d')⟩
    · rw [hfcb g hg, hfcb g' hg'] at ht
      rw [hfcb g hg] at hg
      rw [hfcb g' hg'] at hg'
      exact howns.unique g g' hg hg' ht
    · have hkind := hfcb g hg
      rw [hkind] at hg ⊢
      exact howns.kind g hg
  have hwipe : w.wipe (s.blocks.chns k).callId k = s.blocks.wipe (s.blocks.chns k).callId k := by
    simp only [Blocks.wipe, hchns]
    congr 1
    · funext g
      by_cases hg : g = f
      · subst hg
        simp [hfcbs, hcall]
      · simp [hfcbs, hg]
    · funext d'
      by_cases hdd : d' = d
      · subst hdd
        simp [hdcbs, hdcall, hcall]
      · simp [hdcbs, hdd]
  rw [howns'.fimFreeCallChn_eq h.busy (by rw [hchns]), howns.fimFreeCallChn_eq h.busy rfl, hwipe]

/-- A handler has left the chain in a state with the property, or has released the call of such a state and
asks for the clean-up. -/
def Settled (P : Fim → Prop) (k : ChnId) (f : FcbId) (rc : SmRc) (s' : Fim) : Prop :=
  ∃ s₀, s₀.Ready k f ∧ P s₀ ∧ (s' = s₀ ∨ rc = .cleanup ∧ CleansLike s₀ s' k)

theorem Settled.mono {P Q : Fim → Prop} {rc : SmRc} (h : Settled P k f rc s')
    (hpq : ∀ s₀, P s₀ → Q s₀) : Settled Q k f rc s' := by
  obtain ⟨s₀, hready, hp, hs⟩ := h
  exact ⟨s₀, hready, hpq s₀ hp, hs⟩

theorem Ready.settled {P : Fim → Prop} (h : s.Ready k f) (hp : P s) (rc : SmRc) : Settled P k f rc s :=
  ⟨s, h, hp, .inl rfl⟩

theorem Ready.fsmdefRelease (h : s.Ready k f) (sendRelease : Bool) :
    Safely (fun r => Settled (Same s) k f r.1 r.2) (s.fsmdefRelease f sendRelease) := by
  cases hd : (s.blocks.fcbs f).dcb with
  | none =>
    rw [Fim.fsmdefRelease, hd]
    rfl
  | some d =>
    cases sendRelease with
    | true =>
      obtain ⟨heq, hready⟩ := h.fsmdefRelease_sent hd
      rw [heq]
      exact hready.settled (s.same_changeState f _) _
    | false =>
      obtain ⟨s', heq, hlike⟩ := h.fsmdefRelease_unsent hd
      rw [heq]
      exact ⟨s, h, .refl s, .inr ⟨rfl, hlike⟩⟩

theorem sent_changeState (s : Fim) (f : FcbId) (state : FsmdefState) : (s.changeState f state).sent f = s.sent f := by
  rw [sent, sent, blocks_changeState]
  simp [Blocks.setFcb]

theorem Ready.moves (h : s.Ready k f) {ms : List Move} (hdrops : dropsSent (s.sent f) ms = true) :
    Safely (fun s' => s'.Ready k f ∧ Same s s') (moves f ms s) := by
  induction ms generalizing s with
  | nil => exact ⟨h, .refl s⟩
  | cons m ms ih =>
    rw [Fim.moves]
    cases m with
    | changeState state =>
      have hrest := ih (h.of_sameLinks (s.sameLinks_changeState f state)) (by rw [sent_changeState]; exact hdrops)
      exact hrest.mono fun s' hs' => ⟨hs'.1, (s.same_changeState f state).trans hs'.2⟩
    | useDcb =>
      rw [move]
      cases hd : (s.blocks.fcbs f).dcb with
      | none => rfl
      | some d => exact ih h hdrops
    | setSendRelease sendRelease =>
      rw [move]
      cases hd : (s.blocks.fcbs f).dcb with
      | none => rfl
      | some d =>
        have hsent : (s.setBlocks (s.blocks.setDcb d { s.blocks.dcbs d with sendRelease })).sent f = sendRelease := by
          simp [sent, setBlocks, Blocks.setDcb, hd]
        have hready : (s.setBlocks (s.blocks.setDcb d { s.blocks.dcbs d with sendRelease })).Ready k f :=
          h.of_sameLinks (Blocks.sameLinks_setDcb rfl rfl)
        have hrest := ih hready (by rw [hsent]; exact hdrops)
        exact hrest.mono fun s' hs' => ⟨hs'.1, (s.same_setSendRelease d sendRelease).trans hs'.2⟩
    | dropRelease =>
      rw [move]
      cases hd : (s.blocks.fcbs f).dcb with
      | none => rfl
      | some d =>
        rw [dropsSent, Bool.and_eq_true] at hdrops
        have hsent : (s.blocks.dcbs d).sendRelease = true := by
          simpa [sent, hd] using hdrops.1
        obtain ⟨heq, hready⟩ := h.fsmdefRelease_sent hd
        simp only [hsent, heq]
        have hrest := ih hready (by rw [sent_changeState]; exact hdrops.2)
        exact hrest.mono fun s' hs' => ⟨hs'.1, (s.same_changeState f .releasing).trans hs'.2⟩

theorem Ready.answer (h : s.Ready k f) (a : Answer) :
    Safely (fun r => Settled (Same s) k f r.1 r.2) (s.answer f a) := by
  cases a with
  | rc rc => exact h.settled (.refl s) rc
  | release sendRelease => exact h.fsmdefRelease sendRelease

theorem Ready.script (h : s.Ready k f) (hdrops : dropsSent (s.sent f) d.moves = true) :
    Safely (fun r => Settled (Same s) k f r.1 r.2.2) (s.script f d) := by
  rw [Fim.script]
  have hmoves := h.moves hdrops
  cases hms : Fim.moves f d.moves s with
  | error crash =>
    rw [hms] at hmoves
    exact hmoves
  | ok s' =>
    rw [hms] at hmoves
    obtain ⟨hready, hsame⟩ := hmoves
    refine Safely.map ((hready.answer d.answer).mono fun r hr => ?_)
    exact hr.mono fun s₀ hs₀ => hsame.trans hs₀

/-! ## The handlers of the idle state -/

theorem Ready.not_uncounted (h : s.Ready k f) (hnone : (s.blocks.fcbs f).dcb = none) :
    ¬ s.blocks.Uncounted (s.blocks.fcbs f).callId := by
  rintro ⟨d, hd, -⟩
  exact h.inv.dcb_callId_ne h.callId_ne h.fcb.2 hnone d hd

/-- A default machine without data asks for some. It gets the data, or there is none left. -/
theorem Ready.fsmGetCallContext (h : s.Ready k f) (hnone : (s.blocks.fcbs f).dcb = none) (line : ℕ) (facility : Cause) :
    s.blocks.fsmGetCallContext (s.blocks.fcbs f).callId line (some f) facility =
        (.noResource, s.blocks) ∧ (∀ d, (s.blocks.dcbs d).callId ≠ noCallId) ∨
      ∃ (dcb : DcbId) (blocks : Blocks), s.blocks.fsmGetCallContext (s.blocks.fcbs f).callId line (some f) facility =
          (facility, blocks) ∧
        (s.setBlocks blocks).Ready k f ∧ Same s (s.setBlocks blocks) ∧
        blocks.fcbs f = { s.blocks.fcbs f with dcb := some dcb } ∧
        blocks.dcbs dcb = { callId := (s.blocks.fcbs f).callId, line, fcb := some f } := by
  rcases h.inv.fsmGetCallContext_cases line facility h.callId_ne with hnores | ⟨d, hd, heq⟩
  · exact .inl hnores
  · refine .inr ⟨d, _, heq, ⟨h.inv.withData h.callId_ne h.fcb.2 hnone hd, h.busy, h.cb⟩,
      ⟨rfl, rfl, rfl, fun c hc => ?_⟩, by simp [Blocks.withData], by simp [Blocks.withData]⟩
    -- the new data is counted, and was the data of no call
    have hother : ∀ d', d' ≠ d → (s.blocks.withData d (s.blocks.fcbs f).callId line f).dcbs d' =
        s.blocks.dcbs d' := fun d' hd' => by simp [Blocks.withData, hd']
    have hself : ((s.blocks.withData d (s.blocks.fcbs f).callId line f).dcbs d).callNotCountedInMncBt =
        false := by simp [Blocks.withData]
    constructor
    · rintro ⟨d', hd', hflag⟩
      have hdd : d' ≠ d := by
        rintro rfl
        exact absurd (hself.symm.trans hflag) (by simp)
      simp only [setBlocks, hother d' hdd] at hd' hflag
      exact ⟨d', hd', hflag⟩
    · rintro ⟨d', hd', hflag⟩
      have hdd : d' ≠ d := by
        rintro rfl
        exact hc (hd'.symm.trans hd)
      exact ⟨d', by simp only [setBlocks, hother d' hdd]; exact hd',
        by simp only [setBlocks, hother d' hdd]; exact hflag⟩

theorem sent_of_new (s' : Fim) {dcb : DcbId} {callId : CallId} {line : ℕ} {fcb : Option FcbId}
    {old : Fcb} (hdcb : s'.blocks.fcbs f = { old with dcb := some dcb })
    (hnew : s'.blocks.dcbs dcb = { callId, line, fcb }) : s'.sent f = false := by
  rw [sent, hdcb]
  simp [hnew]

theorem sent_of_none (hnone : (s.blocks.fcbs f).dcb = none) : s.sent f = false := by
  rw [sent, hnone]

theorem Ready.fsmdefOffhook (h : s.Ready k f) (hcall : msg.callId = (s.blocks.fcbs f).callId)
    (hdrops : dropsSent (s.sent f) d.moves = true) :
    Safely (fun r => Settled (Same s) k f r.1 r.2.2) (s.fsmdefOffhook f msg d) := by
  rw [Fim.fsmdefOffhook]
  cases hd : (s.blocks.fcbs f).dcb with
  | some dcb => exact h.script hdrops
  | none =>
    rw [sent_of_none hd] at hdrops
    rw [hcall, Blocks.fsmGetNewOutgoingCallContext]
    rcases h.fsmGetCallContext hd _ d.facility with
      ⟨hnores, -⟩ | ⟨dcb, blocks, heq, hready, hsame, hdcb, hnew⟩
    · rw [hnores]
      exact h.settled (.refl s) _
    · rw [heq]
      dsimp only
      split
      · rw [← sent_of_new (s.setBlocks blocks) hdcb hnew] at hdrops
        exact (hready.script hdrops).mono fun r hr => hr.mono fun s₀ hs₀ => hsame.trans hs₀
      · exact hready.settled hsame _

theorem Ready.fsmdefEvIdleNewCall (h : s.Ready k f) (hdrops : dropsSent (s.sent f) d.moves = true) :
    Safely (fun r => Settled (Same s) k f r.1 r.2.2) (s.fsmdefEvIdleNewCall f msg d) := by
  rw [Fim.fsmdefEvIdleNewCall]
  split
  · exact h.settled (.refl s) _
  · cases hd : (s.blocks.fcbs f).dcb with
    | some dcb => exact h.script hdrops
    | none =>
      rw [sent_of_none hd] at hdrops
      rw [Blocks.fsmGetNewOutgoingCallContext]
      rcases h.fsmGetCallContext hd _ d.facility with
        ⟨hnores, -⟩ | ⟨dcb, blocks, heq, hready, hsame, hdcb, hnew⟩
      · rw [hnores]
        exact h.settled (.refl s) _
      · rw [heq]
        dsimp only
        cases d.facility with
        | ok =>
          rw [← sent_of_new (s.setBlocks blocks) hdcb hnew] at hdrops
          exact (hready.script hdrops).mono fun r hr => hr.mono fun s₀ hs₀ => hsame.trans hs₀
        | noResource => exact hready.settled hsame _
        | busy | unassignedNum | error =>
          simp only [setBlocks, hdcb]
          exact hready.settled hsame _

/-- The call of a set-up is counted, or left out of the count. -/
structure SetUp (config : ℕ → LineConfig) (s : Fim) (k : ChnId) (msg : FimMsg) (line : ℕ)
    (s' : Fim) : Prop where
  chns : s'.blocks.chns = s.blocks.chns
  others : ∀ callId, callId ≠ noCallId → callId ≠ (s.blocks.chns k).callId →
    (s'.blocks.Uncounted callId ↔ s.blocks.Uncounted callId)
  counts : msg.monitor = false ∧ msg.replaces = false →
    s'.lines = s.lines.increment config line ∧
      s'.counted = Function.update s.counted k (some line) ∧
      ¬ s'.blocks.Uncounted (s.blocks.chns k).callId
  joins : ¬ (msg.monitor = false ∧ msg.replaces = false) →
    s'.lines = s.lines ∧ s'.counted = s.counted ∧ s'.blocks.Uncounted (s.blocks.chns k).callId

theorem SetUp.trans {line : ℕ} {s'' : Fim} (h : SetUp config s k msg line s')
    (hbusy : s.blocks.Busy k) (hsame : Same s' s'') : SetUp config s k msg line s'' where
  chns := hsame.chns.trans h.chns
  others c hc hne := (hsame.uncounted c hc).trans (h.others c hc hne)
  counts hmsg := by
    obtain ⟨hlines, hcounted, hun⟩ := h.counts hmsg
    exact ⟨hsame.lines.trans hlines, hsame.counted.trans hcounted, mt (hsame.uncounted _ hbusy).mp hun⟩
  joins hmsg := by
    obtain ⟨hlines, hcounted, hun⟩ := h.joins hmsg
    exact ⟨hsame.lines.trans hlines, hsame.counted.trans hcounted, (hsame.uncounted _ hbusy).mpr hun⟩

theorem Ready.countSetup (config : ℕ → LineConfig) (msg : FimMsg) (h : s.Ready k f) {dcb : DcbId}
    (hdcb : (s.blocks.fcbs f).dcb = some dcb)
    (hun : ¬ s.blocks.Uncounted (s.blocks.chns k).callId) :
    (s.countSetup config k dcb msg).Ready k f ∧ ((s.countSetup config k dcb msg).blocks.fcbs f).dcb = some dcb ∧
      SetUp config s k msg (s.blocks.dcbs dcb).line (s.countSetup config k dcb msg) := by
  rw [Fim.countSetup]
  split
  next hmsg =>
    exact ⟨⟨h.inv, h.busy, h.cb⟩, hdcb, rfl, fun _ _ _ => .rfl, fun _ => ⟨rfl, rfl, hun⟩,
      fun hnot => absurd hmsg hnot⟩
  next hmsg =>
    have hdcall : (s.blocks.dcbs dcb).callId = (s.blocks.chns k).callId :=
      (h.inv.dcb f dcb h.fcb.2 hdcb).1.trans h.fcb.1
    refine ⟨h.of_sameLinks (Blocks.sameLinks_setDcb rfl rfl), hdcb, rfl, fun c _ hne => ?_,
      fun hyes => absurd hyes hmsg, fun _ => ⟨rfl, rfl, dcb, ?_, ?_⟩⟩
    · have hother : ∀ d', ((s.blocks.setDcb dcb
          { s.blocks.dcbs dcb with callNotCountedInMncBt := true }).dcbs d').callId = c →
          (s.blocks.setDcb dcb { s.blocks.dcbs dcb with callNotCountedInMncBt := true }).dcbs d' =
            s.blocks.dcbs d' := by
        intro d' hd'
        by_cases hdd : d' = dcb
        · subst hdd
          simp only [Blocks.setDcb, Function.update_self] at hd'
          exact absurd (hd'.symm.trans hdcall) hne
        · simp [Blocks.setDcb, hdd]
      constructor
      · rintro ⟨d', hd', hflag⟩
        have heq := hother d' hd'
        simp only [setBlocks, heq] at hd' hflag
        exact ⟨d', hd', hflag⟩
      · rintro ⟨d', hd', hflag⟩
        have hdd : d' ≠ dcb := by
          rintro rfl
          exact hne (hd'.symm.trans hdcall)
        exact ⟨d', by simpa [setBlocks, Blocks.setDcb, hdd] using hd',
          by simpa [setBlocks, Blocks.setDcb, hdd] using hflag⟩
    · simp [setBlocks, Blocks.setDcb, hdcall]
    · simp [setBlocks, Blocks.setDcb]

theorem Ready.setUp (h : s.Ready k f) {dcb : DcbId} (hdcb : (s.blocks.fcbs f).dcb = some dcb) :
    Safely (fun r => r.1 = .end ∧ r.2.2.Ready k f ∧ Same s r.2.2) (s.setUp f dcb d) := by
  let s' := s.setBlocks (s.blocks.setDcb dcb { s.blocks.dcbs dcb with sendRelease := true })
  have hready : s'.Ready k f := h.of_sameLinks (Blocks.sameLinks_setDcb rfl rfl)
  have hsame : Same s s' := s.same_setSendRelease dcb true
  rw [Fim.setUp]
  cases d.setupEnd with
  | endCall => exact ⟨rfl, h, .refl s⟩
  | release =>
    obtain ⟨heq, hready'⟩ := hready.fsmdefRelease_sent (d := dcb) hdcb
    simp only [s'] at heq
    simp only [heq]
    exact ⟨rfl, hready', hsame.trans (s'.same_changeState f _)⟩
  | alert =>
    exact ⟨rfl, hready.of_sameLinks (s'.sameLinks_changeState f _), hsame.trans (s'.same_changeState f _)⟩

/-- A set-up comes for a call without data. It has no number, or gets its data and is counted. -/
theorem Ready.fsmdefEvIdleSetup (config : ℕ → LineConfig) (msg : FimMsg) (d : Decisions)
    (h : s.Ready k f) (hcall : msg.callId = (s.blocks.fcbs f).callId)
    (hnone : (s.blocks.fcbs f).dcb = none) :
    Safely (fun r => msg.calledNumber = false ∧ r.1 = .cleanup ∧ r.2.2 = s ∨
      ¬ msg.calledNumber = false ∧ r.2.2.Ready k f ∧
        SetUp config s k msg (if d.facility = .ok then d.freeLine else 1) r.2.2 ∧
        (r.1 = .end ∨ r.1 = .cleanup ∧ d.facility = .noResource))
      (s.fsmdefEvIdleSetup config k f msg d) := by
  rw [Fim.fsmdefEvIdleSetup, hcall, Blocks.fsmGetNewIncomingCallContext]
  generalize (if d.facility = .ok then d.freeLine else 1) = line
  by_cases hnumber : msg.calledNumber = false
  · rw [if_pos hnumber]
    exact .inl ⟨hnumber, rfl, rfl⟩
  rw [if_neg hnumber]
  rcases h.fsmGetCallContext hnone line d.facility with
    ⟨hnores, -⟩ | ⟨dcb, blocks, heq, hready, hsame, hdcb, hnew⟩
  · rw [hnores]
    simp only [setBlocks, hnone]
    rfl
  · rw [heq]
    have hdcb' : ((s.setBlocks blocks).blocks.fcbs f).dcb = some dcb := by
      simp [setBlocks, hdcb]
    have hun : ¬ (s.setBlocks blocks).blocks.Uncounted ((s.setBlocks blocks).blocks.chns k).callId := by
      rw [hsame.chns, hsame.uncounted _ h.busy, ← h.fcb.1]
      exact h.not_uncounted hnone
    obtain ⟨hcount, hcdcb, hset⟩ := hready.countSetup config msg hdcb' hun
    have hset' : SetUp config s k msg line ((s.setBlocks blocks).countSetup config k dcb msg) := by
      have hline : ((s.setBlocks blocks).blocks.dcbs dcb).line = line := by
        simp [setBlocks, hnew]
      have hchns : (blocks.chns k).callId = (s.blocks.chns k).callId := by
        rw [← hsame.chns]
        rfl
      rw [hline] at hset
      refine ⟨hset.chns.trans hsame.chns, fun c hc hne => ?_, fun hmsg => ?_, fun hmsg => ?_⟩
      · exact (hset.others c hc (by rw [hsame.chns]; exact hne)).trans (hsame.uncounted c hc)
      · rw [← hchns]
        exact hset.counts hmsg
      · rw [← hchns]
        exact hset.joins hmsg
    simp only [hdcb']
    split
    · exact .inr ⟨hnumber, hcount, hset', .inl rfl⟩
    · cases d.facility with
      | ok =>
        refine (hcount.setUp hcdcb).mono fun r hr => .inr ⟨hnumber, hr.2.1, ?_, .inl hr.1⟩
        exact hset'.trans h.busy hr.2.2
      | noResource => exact .inr ⟨hnumber, hcount, hset', .inr ⟨rfl, rfl⟩⟩
      | busy | unassignedNum | error => exact .inr ⟨hnumber, hcount, hset', .inl rfl⟩

theorem Ready.fsmdef (h : s.Ready k f) (hcall : msg.callId = (s.blocks.fcbs f).callId)
    (hsetup : ¬ (msg.msgId = .setup ∧ (s.blocks.fcbs f).state = .idle))
    (hdrops : dropsSent (s.sent f) d.moves = true) :
    Safely (fun r => Settled (Same s) k f r.1 r.2.2) (s.fsmdef config k f msg d) := by
  rw [Fim.fsmdef]
  split
  next => exact h.settled (.refl s) _
  next => exact h.settled (.refl s) _
  next hstate hmsg => exact absurd ⟨hmsg, hstate⟩ hsetup
  next => exact h.fsmdefOffhook hcall hdrops
  next => exact h.fsmdefOffhook hcall hdrops
  next => exact h.fsmdefOffhook hcall hdrops
  next => exact h.fsmdefEvIdleNewCall hdrops
  next => exact h.script hdrops

theorem fsmdef_eq_setup (hmsg : msg.msgId = .setup) (hstate : (s.blocks.fcbs f).state = .idle) :
    s.fsmdef config k f msg d = s.fsmdefEvIdleSetup config k f msg d := by
  rw [Fim.fsmdef, hmsg, hstate]

/-! ## The chain -/

/-- The feature machines change their own states only. -/
structure SameDefault (s s' : Fim) : Prop where
  links : Blocks.SameLinks s.blocks s'.blocks
  default : Blocks.SameDefault s.blocks s'.blocks
  lines : s'.lines = s.lines
  counted : s'.counted = s.counted
  dcsm : s'.dcsm = s.dcsm

theorem SameDefault.refl (s : Fim) : SameDefault s s := ⟨.refl _, ⟨rfl, fun _ => .rfl, fun _ _ => rfl⟩, rfl, rfl, rfl⟩

theorem SameDefault.trans {s'' : Fim} (h : SameDefault s s') (h' : SameDefault s' s'') : SameDefault s s'' :=
  ⟨h.links.trans h'.links, h.default.trans h'.default, h'.lines.trans h.lines,
    h'.counted.trans h.counted, h'.dcsm.trans h.dcsm⟩

theorem SameDefault.same (h : SameDefault s s') : Same s s' := ⟨h.links.chns, h.lines, h.counted, fun c _ => by
    rw [Blocks.Uncounted, Blocks.Uncounted, h.default.dcbs]⟩

theorem sameDefault_changeState (hf : (s.blocks.fcbs f).fsmType ≠ .default) (state : FsmdefState) :
    SameDefault s (s.changeState f state) := by
  have hlinks := s.sameLinks_changeState f state
  have hblocks := s.blocks_changeState f state
  refine ⟨hlinks, ⟨by rw [hblocks]; rfl, fun g => by rw [hlinks.fsmType g], fun g hg => ?_⟩, rfl, rfl, ?_⟩
  swap
  · rw [changeState, CallControl.fsmChangeState, CallControl.dcsmUpdateGsmState, if_pos hf]
  have hgf : g ≠ f := fun heq => hf (heq ▸ hg)
  rw [hblocks]
  simp [Blocks.setFcb, hgf]

theorem sameDefault_changeFeature (s : Fim) (change : FcbId × FsmdefState) :
    SameDefault s (s.changeFeature change) := by
  rw [changeFeature]
  split
  next htype => exact sameDefault_changeState (by simp [htype]) _
  next htype => exact sameDefault_changeState (by simp [htype]) _
  next htype => exact sameDefault_changeState (by simp [htype]) _
  next => exact .refl s
  next => exact .refl s

theorem sameDefault_changeFeatures (s : Fim) (changes : List (FcbId × FsmdefState)) :
    SameDefault s (changes.foldl changeFeature s) := by
  induction changes generalizing s with
  | nil => exact .refl s
  | cons change changes ih => exact (sameDefault_changeFeature s change).trans (ih _)

theorem Ready.askFeatures (h : s.Ready k f) (msg : FimMsg) (d : Decisions) (ts : List FsmType)
    (hts : ts ⊆ FsmType.chain) :
    ∃ reached s', askFeatures k msg d ts s = .ok (reached, s') ∧ SameDefault s s' ∧ s'.Ready k f := by
  induction ts generalizing s with
  | nil => exact ⟨true, s, rfl, .refl s, h⟩
  | cons t ts ih =>
    obtain ⟨ht, hts⟩ := List.cons_subset.mp hts
    obtain ⟨g, hcb, -⟩ := h.inv.cb k h.busy t ht
    rw [Fim.askFeatures, hcb]
    dsimp only
    have hsame := sameDefault_changeFeatures s (d.visit t).changes
    have hready := h.of_sameLinks hsame.links
    split
    · obtain ⟨reached, s', heq, hsame', hready'⟩ := ih hready hts
      exact ⟨reached, s', heq, hsame.trans hsame', hready'⟩
    · exact ⟨false, _, rfl, hsame, hready⟩

theorem askFeatures_setup (hmsg : msg.msgId = .setup) {ts : List FsmType} {reached : Bool}
    (h : askFeatures k msg d ts s = .ok (reached, s')) : reached = true := by
  induction ts generalizing s with
  | nil =>
    simp only [Fim.askFeatures, Except.ok.injEq, Prod.mk.injEq] at h
    exact h.1.symm
  | cons t ts ih =>
    rw [Fim.askFeatures] at h
    cases hcb : (s.blocks.chns k).cb t with
    | none =>
      rw [hcb] at h
      exact absurd h (by simp)
    | some g =>
      rw [hcb] at h
      simp only [hmsg, true_or, if_true] at h
      exact ih h

theorem Ready.fsmdef_settled (h : s.Ready k f) (hcall : msg.callId = (s.blocks.fcbs f).callId)
    (hsetup : msg.msgId = .setup → (s.blocks.fcbs f).state = .idle → (s.blocks.fcbs f).dcb = none)
    (hdrops : dropsSent (s.sent f) d.moves = true) :
    Safely (fun r => Settled (fun _ => True) k f r.1 r.2.2) (s.fsmdef config k f msg d) := by
  by_cases hidle : msg.msgId = .setup ∧ (s.blocks.fcbs f).state = .idle
  · obtain ⟨hmsg, hstate⟩ := hidle
    rw [fsmdef_eq_setup hmsg hstate]
    refine (h.fsmdefEvIdleSetup config msg d hcall (hsetup hmsg hstate)).mono fun r hr => ?_
    rcases hr with ⟨-, -, hs⟩ | ⟨-, hready, -, -⟩
    · rw [hs]
      exact h.settled trivial _
    · exact hready.settled trivial _
  · exact (h.fsmdef hcall hidle hdrops).mono fun r hr => hr.mono fun _ _ => trivial

theorem blocks_finish {line : ℕ} {updateCallCnt : Bool} {rc : SmRc} :
    (s.finish config k f msg line updateCallCnt rc).blocks =
      if rc = .cleanup then s.blocks.fimFreeCallChn k else s.blocks := by
  cases updateCallCnt <;> rw [Fim.finish] <;> split <;> split <;> rfl

theorem finish_spec (config : ℕ → LineConfig) (s : Fim) (k : ChnId) (f : FcbId) (msg : FimMsg)
    (line : ℕ) (update : Bool) (rc : SmRc)
    (hforward : msg.msgId = .feature .cfwdAll → rc = .end → ¬ Lines.Valid line) :
    (s.finish config k f msg line update rc).lines =
        (if rc = .cleanup ∧ update = true then s.lines.decrement config line else s.lines) ∧
      (s.finish config k f msg line update rc).counted =
        if rc = .cleanup then Function.update s.counted k none else s.counted := by
  by_cases hcfwd : rc = .end ∧ (s.blocks.fcbs f).fsmType = .default ∧ msg.msgId = .feature .cfwdAll
  · obtain ⟨rfl, -, hmsg⟩ := hcfwd
    have hlines : s.lines.decrement config line = s.lines := by
      rw [Lines.decrement, if_neg (hforward hmsg rfl)]
    rw [Fim.finish]
    split
    next h => exact absurd h (by simp)
    next => simp [uncount, hlines]
  · rw [Fim.finish, if_neg hcfwd]
    by_cases hrc : rc = .cleanup
    · cases update <;> simp [hrc, Fim.fimFreeCallChn, setCounted, uncount, setBlocks]
    · simp [hrc]

theorem Settled.finish {P : Fim → Prop} {rc : SmRc} (h : Settled P k f rc s) (line : ℕ)
    (updateCallCnt : Bool) : (s.finish config k f msg line updateCallCnt rc).blocks.Inv := by
  rw [blocks_finish]
  obtain ⟨s₀, hready, -, rfl | ⟨rfl, hlike⟩⟩ := h
  · split
    · exact hready.inv.fimFreeCallChn hready.busy
    · exact hready.inv
  · rw [if_pos rfl, hlike.blocks]
    exact hready.inv.fimFreeCallChn hready.busy

theorem Ready.dispatch (h : s.Ready k f) (hcall : msg.callId = (s.blocks.fcbs f).callId)
    (hsetup : msg.msgId = .setup → (s.blocks.fcbs f).state = .idle → (s.blocks.fcbs f).dcb = none)
    (hdrops : dropsSent (s.sent f) d.moves = true) :
    Safely (fun r => r.2.blocks.Inv) (s.dispatch config k msg d) := by
  rw [Fim.dispatch]
  obtain ⟨reached, s', heq, hsame, hready⟩ := h.askFeatures msg d [.cnf, .b2bcnf, .xfr] (by decide)
  rw [heq]
  cases reached with
  | false => exact hready.inv
  | true =>
    dsimp only
    rw [askDefault, hready.cb]
    -- the default machine is as it was before the feature machines were asked
    have hfcb : s'.blocks.fcbs f = s.blocks.fcbs f := hsame.default.fcbs f h.fcb.2
    have hsent : s'.sent f = s.sent f := by rw [sent, sent, hfcb, hsame.default.dcbs]
    have hsettled : Safely (fun r => Settled (fun _ => True) k f r.1 r.2.2) (s'.fsmdef config k f msg d) :=
      hready.fsmdef_settled (by rw [hfcb]; exact hcall) (by rw [hfcb]; exact hsetup)
        (by rw [hsent]; exact hdrops)
    refine Safely.map (hsettled.mono fun r hr => ?_)
    exact hr.finish _ _

theorem Ready.start (h : s.Ready k f) (hcall : msg.callId = (s.blocks.fcbs f).callId)
    (hsetup : msg.msgId = .setup → (s.blocks.fcbs f).dcb = none)
    (hdrops : dropsSent (s.sent f) d.moves = true) :
    Safely (fun r => r.2.blocks.Inv) (s.start config k msg d) := by
  rw [Fim.start]
  split
  · exact h.dispatch hcall (fun hmsg _ => hsetup hmsg) hdrops
  · have hcount : (s.count config msg.line).Ready k f := ⟨h.inv, h.busy, h.cb⟩
    exact hcount.dispatch hcall (fun hmsg _ => hsetup hmsg) hdrops

theorem sendRelease_eq_false (h : s.blocks.Inv) (hcall : msg.callId ≠ noCallId)
    (hnone : s.blocks.fimGetCallChnByCallId msg.callId = none) :
    s.sendRelease msg.callId = false := by
  have hdata : s.blocks.fsmdefGetDcbByCallId msg.callId = none :=
    first_eq_none_iff.mpr fun d => decide_eq_false ((h.callId_ne hcall hnone).2.2 d)
  rw [sendRelease, hdata]

theorem ready_create (h : s.blocks.Inv) (hcall : msg.callId ≠ noCallId)
    (hnone : s.blocks.fimGetCallChnByCallId msg.callId = none) (hfree : ¬ s.blocks.Busy k)
    {blocks : Blocks} {g : FsmType → FcbId}
    (htaken : Blocks.Taken (s.blocks.setChn k { s.blocks.chns k with callId := msg.callId }) blocks k
      msg.callId FsmType.chain g) :
    (s.create k blocks msg).Ready k (g .default) ∧ (s.create k blocks msg).blocks.fcbs (g .default) =
        { callId := msg.callId, fsmType := .default } := by
  have hkcall : (blocks.chns k).callId = msg.callId := by
    rw [htaken.callId]
    simp [Blocks.setChn]
  refine ⟨⟨h.of_taken hcall hnone hfree htaken, ?_, htaken.cb .default (by decide)⟩,
    htaken.taken .default (by decide)⟩
  show (blocks.chns k).callId ≠ noCallId
  rw [hkcall]
  exact hcall

theorem Ready.fimFeatureContext (h : s.Ready k f)
    (hfcb : s.blocks.fcbs f = { callId := msg.callId, fsmType := .default }) :
    (∃ cause, cause ≠ .ok ∧ s.blocks.fsmGetNewOutgoingCallContext msg.callId msg.line
        (s.blocks.fsmGetFcbByCallIdAndType msg.callId .default) d.facility = (cause, s.blocks) ∧
        ∀ d, (s.blocks.dcbs d).callId ≠ noCallId) ∨
      ∃ (dcb : DcbId) (blocks : Blocks), s.blocks.fsmGetNewOutgoingCallContext msg.callId msg.line
          (s.blocks.fsmGetFcbByCallIdAndType msg.callId .default) d.facility = (d.facility, blocks) ∧
        (s.setBlocks blocks).Ready k f ∧ Same s (s.setBlocks blocks) ∧
        blocks.fcbs f = { s.blocks.fcbs f with dcb := some dcb } ∧
        (s.setBlocks blocks).sent f = false := by
  have hcall : (s.blocks.fcbs f).callId = msg.callId := by rw [hfcb]
  have hlook : s.blocks.fsmGetFcbByCallIdAndType msg.callId .default = some f := by
    have heq := h.inv.fsmGetFcbByCallIdAndType_eq h.callId_ne
    rwa [hfcb] at heq
  have hnone : (s.blocks.fcbs f).dcb = none := by rw [hfcb]
  rw [hlook, ← hcall, Blocks.fsmGetNewOutgoingCallContext]
  rcases h.fsmGetCallContext hnone (if d.facility = .ok then msg.line else lsmNoLine) d.facility with
    ⟨hnores, hfull⟩ | ⟨dcb, blocks, heq, hready, hsame, hdcb, hnew⟩
  · exact .inl ⟨.noResource, by simp, hnores, hfull⟩
  · exact .inr ⟨dcb, blocks, heq, hready, hsame, hdcb, sent_of_new (s.setBlocks blocks) hdcb hnew⟩

theorem Inv.fimNewCall (h : s.blocks.Inv) (hcall : msg.callId ≠ noCallId)
    (hnone : s.blocks.fimGetCallChnByCallId msg.callId = none)
    (hdrops : dropsSent false d.moves = true) :
    Safely (fun r => r.2.blocks.Inv) (s.fimNewCall config msg d) := by
  rw [Fim.fimNewCall]
  rcases h.fimGetNewCallChn_cases hcall hnone with hfull | ⟨k, blocks, g, hnew, hfree, htaken⟩
  · rw [hfull]
    split
    · exact h
    · split <;> exact h
  · obtain ⟨hready, hfcb⟩ := s.ready_create h hcall hnone hfree htaken
    have hcallId : msg.callId = ((s.create k blocks msg).blocks.fcbs (g .default)).callId := by
      rw [hfcb]
    have hnodata : ((s.create k blocks msg).blocks.fcbs (g .default)).dcb = none := by rw [hfcb]
    have hstart : Safely (fun r => r.2.blocks.Inv) ((s.create k blocks msg).start config k msg d) :=
      hready.start hcallId (fun _ => hnodata) (by rw [sent_of_none hnodata]; exact hdrops)
    rw [hnew]
    split
    · exact hstart
    · split
      next hfeature =>
        dsimp only
        split
        · rcases hready.fimFeatureContext (d := d) hfcb with
            ⟨cause, hne, heq, -⟩ | ⟨dcb, blocks', heq, hready', -, hdcb, hsent⟩
          · rw [heq]
            cases cause with
            | ok => exact absurd rfl hne
            | busy | noResource | unassignedNum | error => exact hready.inv
          · rw [heq]
            cases d.facility with
            | ok =>
              refine hready'.start ?_ (fun hmsg => ?_) (by rw [hsent]; exact hdrops)
              · simp only [setBlocks, hdcb]
                exact hcallId
              · rw [hmsg] at hfeature
                exact absurd hfeature (by decide)
            | busy | noResource | unassignedNum | error => exact hready'.inv
        · exact hstart
      next => exact h

theorem Inv.fimProcessEvent (h : s.blocks.Inv) (hok : s.StepOk msg d) :
    Safely (fun r => r.2.blocks.Inv) (s.fimProcessEvent config msg d) := by
  obtain ⟨hdrops, hsetup⟩ := hok
  rw [Fim.fimProcessEvent]
  by_cases hcall : msg.callId = noCallId
  · rw [if_pos hcall]
    exact h
  · rw [if_neg hcall]
    cases hk : s.blocks.fimGetCallChnByCallId msg.callId with
    | none =>
      rw [sendRelease_eq_false h hcall hk] at hdrops
      exact Inv.fimNewCall h hcall hk hdrops
    | some k =>
      have hkcall : (s.blocks.chns k).callId = msg.callId := of_decide_eq_true (of_first hk)
      have hbusy : s.blocks.Busy k := by
        rw [Blocks.Busy, hkcall]
        exact hcall
      obtain ⟨f, hcb, hf, htype⟩ := h.cb k hbusy .default (by decide)
      have hready : s.Ready k f := ⟨h, hbusy, hcb⟩
      have hcallId : msg.callId = (s.blocks.fcbs f).callId := (hf.trans hkcall).symm
      have hlook : s.blocks.fsmGetFcbByCallIdAndType msg.callId .default = some f := by
        rw [hcallId, ← htype]
        exact h.fsmGetFcbByCallIdAndType_eq hready.callId_ne
      have hsent : s.sendRelease msg.callId = s.sent f := by
        rw [sendRelease, sent, hcallId, hready.fsmdefGetDcbByCallId_eq]
      dsimp only
      split
      · exact h
      · exact hready.dispatch hcallId (fun hmsg => hsetup hmsg f hlook) (hsent ▸ hdrops)

/-! ## Every run -/

theorem Inv.run {events : List (FimMsg × Decisions)} (h : s.blocks.Inv) (hok : RunOk config events s) :
    Safely (fun s' => s'.blocks.Inv) (run config events s) := by
  induction events generalizing s with
  | nil => exact h
  | cons event events ih =>
    obtain ⟨msg, d⟩ := event
    obtain ⟨hstep, hrest⟩ := hok
    have hinv : Safely (fun r => r.2.blocks.Inv) (s.fimProcessEvent config msg d) :=
      Inv.fimProcessEvent h hstep
    rw [Fim.run]
    cases hr : s.fimProcessEvent config msg d with
    | error crash =>
      rw [hr] at hinv
      exact hinv
    | ok r =>
      rw [hr] at hinv hrest
      exact ih hinv hrest

/-- **Chains own their control blocks.** In every state reached, a chain that works for a call has a block
for each of its machines and shares it with no other chain, each block that works for a call is in one
chain, and no null control block has been followed, in every run in which the answer of a release that is
not sent is looked at and no set-up comes for an idle call that has data. -/
theorem linked_of_ok {events : List (FimMsg × Decisions)} (hok : RunOk config events {}) :
    Safely (fun s => s.blocks.Linked) (run config events {}) :=
  (Inv.run Blocks.inv_init hok).mono fun _ h => h.linked

/-- The user goes off-hook. -/
def offhook (callId : CallId) (line : ℕ) : FimMsg × Decisions :=
  ({ msgId := .offhook, callId, line }, { moves := [.changeState .collectInfo] })

/-- A call is hung up that nobody waits for. -/
def onhook (callId : CallId) (line : ℕ) : FimMsg × Decisions :=
  ({ msgId := .other, callId, line }, { answer := .release false })

/-- A call is started, and hung up. -/
theorem linked_oneCall :
    RunOk (fun _ => ⟨2, 2⟩) [offhook 1 1, onhook 1 1] {} ∧
      Safely (fun s => s.blocks.Linked) (run (fun _ => ⟨2, 2⟩) [offhook 1 1, onhook 1 1] {}) :=
  ⟨by decide, linked_of_ok (by decide)⟩

/-- The other end of a connected call goes, which clears the flag and leaves the call
(`CC_CAUSE_REMOTE_DISCONN_REQ_PLAYTONE`). The call is put on hold and resumed, and its description cannot be
built. -/
def resumed : List (FimMsg × Decisions) :=
  [offhook 1 1,
    ({ msgId := .other, callId := 1, line := 1 },
      { moves := [.setSendRelease true, .changeState .callSent] }),
    ({ msgId := .other, callId := 1, line := 1 }, { moves := [.useDcb, .changeState .connected] }),
    ({ msgId := .release, callId := 1, line := 1 },
      { moves := [.setSendRelease false], answer := .rc .success }),
    ({ msgId := .feature .other, callId := 1, line := 1 },
      { moves := [.useDcb, .changeState .holdPending] }),
    ({ msgId := .other, callId := 1, line := 1 }, { moves := [.useDcb, .changeState .holding] }),
    ({ msgId := .feature .other, callId := 1, line := 1 }, { moves := [.useDcb, .dropRelease] })]

/-- A call that is resumed after its other end has gone is released, and keeps its chain. -/
theorem not_linked : ¬ ∀ (config : ℕ → LineConfig) (events : List (FimMsg × Decisions)),
    Safely (fun s => s.blocks.Linked) (run config events {}) := by
  intro h
  have hrun := h (fun _ => ⟨2, 2⟩) resumed
  -- the block that the chain still has for its default machine is free
  have hcb := hrun.mono (Q := fun s => (s.blocks.chns 0).callId ≠ noCallId →
      ∀ f ∈ (s.blocks.chns 0).cb .default, (s.blocks.fcbs f).callId ≠ noCallId) fun s hs hbusy f hf => by
    obtain ⟨f', hf', hcall, -⟩ := hs.cb 0 hbusy .default (by decide)
    rw [Option.mem_def, hf'] at hf
    rw [← Option.some.inj hf, hcall]
    exact hbusy
  revert hcb
  decide +kernel

end Fim

end Gsm
