import Ikran.Gsm.Chain
import Mathlib.Data.Finset.Prod
import Mathlib.Data.Fintype.Card

/-!
# Chains and their control blocks

A chain that works for a call has a block of its own for each of its machines, a block works for the call
of its chain, and the data of a call and the block of its default machine know each other. The blocks are
found again by the id of their call when the chain is cleaned up, so that this has to hold after every
message.
-/

namespace Gsm

open Pool

namespace Blocks

variable {b b' : Blocks} {callId : CallId} {k : ChnId} {f g : FcbId} {d : DcbId} {t : FsmType}

/-- The chain works for a call. -/
def Busy (b : Blocks) (k : ChnId) : Prop :=
  (b.chns k).callId ≠ noCallId

/-- The chains own their control blocks. -/
structure Linked (b : Blocks) : Prop where
  distinct : ∀ k k', b.Busy k → (b.chns k).callId = (b.chns k').callId → k = k'
  cb : ∀ k, b.Busy k → ∀ t ∈ FsmType.chain, ∃ f, (b.chns k).cb t = some f ∧
    (b.fcbs f).callId = (b.chns k).callId ∧ (b.fcbs f).fsmType = t
  notShared : ∀ k k' t t' f, (b.chns k).cb t = some f → (b.chns k').cb t' = some f →
    t ∈ FsmType.chain → t' ∈ FsmType.chain → k = k'
  owned : ∀ f, (b.fcbs f).callId ≠ noCallId →
    ∃! k, b.Busy k ∧ ∃ t ∈ FsmType.chain, (b.chns k).cb t = some f
  dcb : ∀ f d, (b.fcbs f).fsmType = .default → (b.fcbs f).dcb = some d →
    (b.dcbs d).callId = (b.fcbs f).callId ∧ (b.dcbs d).fcb = some f

/-- What is true between two messages. -/
structure Inv (b : Blocks) : Prop where
  distinct : ∀ k k', b.Busy k → (b.chns k).callId = (b.chns k').callId → k = k'
  cb : ∀ k, b.Busy k → ∀ t ∈ FsmType.chain, ∃ f, (b.chns k).cb t = some f ∧
    (b.fcbs f).callId = (b.chns k).callId ∧ (b.fcbs f).fsmType = t
  free : ∀ k, ¬ b.Busy k → ∀ t, (b.chns k).cb t = none
  owned : ∀ f, (b.fcbs f).callId ≠ noCallId → ∃ k, (b.chns k).callId = (b.fcbs f).callId ∧
    (b.fcbs f).fsmType ∈ FsmType.chain ∧ (b.chns k).cb (b.fcbs f).fsmType = some f
  unused : ∀ f, (b.fcbs f).callId = noCallId → (b.fcbs f).fsmType = .none
  dcb : ∀ f d, (b.fcbs f).fsmType = .default → (b.fcbs f).dcb = some d →
    (b.dcbs d).callId = (b.fcbs f).callId ∧ (b.dcbs d).fcb = some f
  data : ∀ d, (b.dcbs d).callId ≠ noCallId → ∃ f, (b.dcbs d).fcb = some f ∧
    (b.fcbs f).dcb = some d ∧ (b.fcbs f).fsmType = .default ∧
      (b.fcbs f).callId = (b.dcbs d).callId

theorem Inv.fcb_eq (h : b.Inv) (hf : (b.fcbs f).callId ≠ noCallId)
    (hcall : (b.fcbs f).callId = (b.fcbs g).callId) (htype : (b.fcbs f).fsmType = (b.fcbs g).fsmType) :
    f = g := by
  obtain ⟨k, hk, -, hcb⟩ := h.owned f hf
  obtain ⟨k', hk', -, hcb'⟩ := h.owned g (hcall ▸ hf)
  have hkk : k = k' := h.distinct k k' (by rw [Busy, hk]; exact hf) (hk.trans (hcall.trans hk'.symm))
  subst hkk
  rw [← htype, hcb] at hcb'
  exact Option.some.inj hcb'

theorem Inv.of_cb (h : b.Inv) (hcb : (b.chns k).cb t = some f) (ht : t ∈ FsmType.chain) :
    b.Busy k ∧ (b.fcbs f).callId = (b.chns k).callId ∧ (b.fcbs f).fsmType = t := by
  have hbusy : b.Busy k := by
    by_contra hfree
    rw [h.free k hfree t] at hcb
    exact absurd hcb (by simp)
  obtain ⟨f', hcb', hcall, htype⟩ := h.cb k hbusy t ht
  rw [hcb] at hcb'
  obtain rfl := Option.some.inj hcb'
  exact ⟨hbusy, hcall, htype⟩

theorem Inv.linked (h : b.Inv) : b.Linked where
  distinct := h.distinct
  cb := h.cb
  notShared k k' t t' f hcb hcb' ht ht' := by
    obtain ⟨hbusy, hcall, -⟩ := h.of_cb hcb ht
    obtain ⟨-, hcall', -⟩ := h.of_cb hcb' ht'
    exact h.distinct k k' hbusy (hcall.symm.trans hcall')
  owned f hf := by
    obtain ⟨k, hk, htype, hcb⟩ := h.owned f hf
    refine ⟨k, ⟨by rw [Busy, hk]; exact hf, _, htype, hcb⟩, ?_⟩
    rintro k' ⟨hbusy', t', ht', hcb'⟩
    obtain ⟨-, hcall', -⟩ := h.of_cb hcb' ht'
    exact h.distinct k' k hbusy' (hcall'.symm.trans hk.symm)
  dcb := h.dcb

theorem inv_init : Inv {} where
  distinct _ _ hbusy := absurd rfl hbusy
  cb _ hbusy := absurd rfl hbusy
  free _ _ _ := rfl
  owned _ hf := absurd rfl hf
  unused _ _ := rfl
  dcb _ _ htype := absurd htype (by simp)
  data _ hd := absurd rfl hd

/-- The data of the call says that it is left out of the count of its line. -/
def Uncounted (b : Blocks) (callId : CallId) : Prop :=
  ∃ d, (b.dcbs d).callId = callId ∧ (b.dcbs d).callNotCountedInMncBt = true

/-- Two states of the tables with the same links. -/
structure SameLinks (b b' : Blocks) : Prop where
  chns : b'.chns = b.chns
  fcbCall : ∀ f, (b'.fcbs f).callId = (b.fcbs f).callId
  fsmType : ∀ f, (b'.fcbs f).fsmType = (b.fcbs f).fsmType
  dcb : ∀ f, (b'.fcbs f).dcb = (b.fcbs f).dcb
  dcbCall : ∀ d, (b'.dcbs d).callId = (b.dcbs d).callId
  fcb : ∀ d, (b'.dcbs d).fcb = (b.dcbs d).fcb

theorem SameLinks.refl (b : Blocks) : SameLinks b b :=
  ⟨rfl, fun _ => rfl, fun _ => rfl, fun _ => rfl, fun _ => rfl, fun _ => rfl⟩

theorem SameLinks.trans {b'' : Blocks} (h : SameLinks b b') (h' : SameLinks b' b'') : SameLinks b b'' :=
  ⟨h'.chns.trans h.chns, fun f => (h'.fcbCall f).trans (h.fcbCall f),
    fun f => (h'.fsmType f).trans (h.fsmType f), fun f => (h'.dcb f).trans (h.dcb f),
    fun d => (h'.dcbCall d).trans (h.dcbCall d), fun d => (h'.fcb d).trans (h.fcb d)⟩

theorem Inv.of_sameLinks (h : b.Inv) (hsame : SameLinks b b') : b'.Inv := by
  constructor <;>
    simp only [Busy, hsame.chns, hsame.fcbCall, hsame.fsmType, hsame.dcb, hsame.dcbCall, hsame.fcb]
  exacts [h.distinct, h.cb, h.free, h.owned, h.unused, h.dcb, h.data]

theorem sameLinks_changeState (b : Blocks) (f : FcbId) (state : FsmdefState) :
    SameLinks b (b.setFcb f { b.fcbs f with state }) := by
  refine ⟨rfl, ?_, ?_, ?_, fun _ => rfl, fun _ => rfl⟩ <;>
    · intro g
      by_cases hg : g = f
      · subst hg
        simp [setFcb]
      · simp [setFcb, hg]

theorem sameLinks_setDcb {dcb : Dcb} (hcall : dcb.callId = (b.dcbs d).callId)
    (hfcb : dcb.fcb = (b.dcbs d).fcb) : SameLinks b (b.setDcb d dcb) := by
  refine ⟨rfl, fun _ => rfl, fun _ => rfl, fun _ => rfl, ?_, ?_⟩ <;>
    · intro d'
      by_cases hd : d' = d
      · subst hd
        simp [setDcb, hcall, hfcb]
      · simp [setDcb, hd]

/-! ## A chain is cleaned up -/

/-- The tables without a call. -/
def wipe (b : Blocks) (callId : CallId) (k : ChnId) : Blocks where
  fcbs f := if (b.fcbs f).callId = callId then {} else b.fcbs f
  dcbs d := if (b.dcbs d).callId = callId then {} else b.dcbs d
  chns := Function.update b.chns k {}

/-- The blocks and the data of the call are found by its id. -/
structure Owns (b : Blocks) (callId : CallId) : Prop where
  unique : ∀ f g, (b.fcbs f).callId = callId → (b.fcbs g).callId = callId →
    (b.fcbs f).fsmType = (b.fcbs g).fsmType → f = g
  kind : ∀ f, (b.fcbs f).callId = callId → (b.fcbs f).fsmType ∈ FsmType.chain
  data : ∀ d, (b.dcbs d).callId = callId → ∃ f, (b.dcbs d).fcb = some f ∧
    (b.fcbs f).callId = callId ∧ (b.fcbs f).fsmType = .default
  oneData : ∀ d d', (b.dcbs d).callId = callId → (b.dcbs d').callId = callId → d = d'

theorem Inv.owns (h : b.Inv) (hcall : callId ≠ noCallId) : b.Owns callId where
  unique f g hf hg htype := h.fcb_eq (hf ▸ hcall) (hf.trans hg.symm) htype
  kind f hf := by
    obtain ⟨k, -, htype, -⟩ := h.owned f (hf ▸ hcall)
    exact htype
  data d hd := by
    obtain ⟨f, hfcb, -, htype, hf⟩ := h.data d (hd ▸ hcall)
    exact ⟨f, hfcb, hf.trans hd, htype⟩
  oneData d d' hd hd' := by
    obtain ⟨f, -, hdcb, htype, hf⟩ := h.data d (hd ▸ hcall)
    obtain ⟨f', -, hdcb', htype', hf'⟩ := h.data d' (hd' ▸ hcall)
    have hff : f = f' := h.fcb_eq (by rw [hf, hd]; exact hcall)
      (hf.trans (hd.trans (hd'.symm.trans hf'.symm))) (htype.trans htype'.symm)
    subst hff
    rw [hdcb] at hdcb'
    exact Option.some.inj hdcb'

/-- The tables without the block of the call's machine. -/
def clearFcb (b : Blocks) (callId : CallId) (t : FsmType) : Blocks :=
  { b with fcbs := fun f =>
      if (b.fcbs f).callId = callId ∧ (b.fcbs f).fsmType = t then {} else b.fcbs f }

theorem Owns.freeFcb_eq (h : b.Owns callId) (hf : (b.fcbs f).callId = callId)
    (htype : (b.fcbs f).fsmType = t) : b.freeFcb f = b.clearFcb callId t := by
  have hfcbs : (b.freeFcb f).fcbs = (b.clearFcb callId t).fcbs := by
    funext g
    by_cases hg : g = f
    · subst hg
      simp [freeFcb, fsmInitFcb, setFcb, clearFcb, hf, htype]
    · have hother : ¬ ((b.fcbs g).callId = callId ∧ (b.fcbs g).fsmType = t) :=
        fun hg' => hg (h.unique g f hg'.1 hf (hg'.2.trans htype.symm))
      simp [freeFcb, fsmInitFcb, setFcb, clearFcb, hg, hother]
  calc b.freeFcb f = { b with fcbs := (b.freeFcb f).fcbs } := rfl
    _ = b.clearFcb callId t := by rw [hfcbs]; rfl

theorem clearFcb_eq_self (h : ∀ f, ¬ ((b.fcbs f).callId = callId ∧ (b.fcbs f).fsmType = t)) :
    b.clearFcb callId t = b := by
  simp [clearFcb, h]

theorem Owns.freeFeatureCb_eq (h : b.Owns callId) (hcall : callId ≠ noCallId) (t : FsmType) :
    b.freeFeatureCb callId t = b.clearFcb callId t := by
  rw [freeFeatureCb, if_neg hcall]
  cases hf : b.fsmGetFcbByCallIdAndType callId t with
  | none =>
    have hnone := first_eq_none_iff.mp hf
    exact (clearFcb_eq_self fun f => of_decide_eq_false (hnone f)).symm
  | some f =>
    obtain ⟨hcall', htype⟩ := of_decide_eq_true (of_first hf)
    exact h.freeFcb_eq hcall' htype

theorem Owns.clearFcb (h : b.Owns callId) (hcall : callId ≠ noCallId) (ht : t ≠ .default) :
    (b.clearFcb callId t).Owns callId := by
  have hkept : ∀ f, ((b.clearFcb callId t).fcbs f).callId = callId →
      (b.fcbs f).callId = callId ∧ (b.clearFcb callId t).fcbs f = b.fcbs f := by
    intro f hf
    by_cases hclear : (b.fcbs f).callId = callId ∧ (b.fcbs f).fsmType = t
    · simp only [Blocks.clearFcb, if_pos hclear] at hf
      exact absurd hf.symm hcall
    · have heq : (b.clearFcb callId t).fcbs f = b.fcbs f := if_neg hclear
      exact ⟨heq ▸ hf, heq⟩
  refine ⟨fun f g hf hg htype => ?_, fun f hf => ?_, fun d hd => ?_, h.oneData⟩
  · obtain ⟨hf', heq⟩ := hkept f hf
    obtain ⟨hg', heq'⟩ := hkept g hg
    rw [heq, heq'] at htype
    exact h.unique f g hf' hg' htype
  · obtain ⟨hf', heq⟩ := hkept f hf
    rw [heq]
    exact h.kind f hf'
  · obtain ⟨f, hfcb, hf, htype⟩ := h.data d hd
    have hne : ¬ ((b.fcbs f).callId = callId ∧ (b.fcbs f).fsmType = t) := fun hclear => ht (hclear.2.symm.trans htype)
    refine ⟨f, hfcb, ?_, ?_⟩ <;> simp only [Blocks.clearFcb, if_neg hne]
    exacts [hf, htype]

/-- The default machine gives its block and the data of the call back. -/
theorem Owns.fsmdefFreeCb_eq (h : b.Owns callId) (hcall : callId ≠ noCallId) : b.fsmdefFreeCb callId =
      { b.clearFcb callId .default with
        dcbs := fun d => if (b.dcbs d).callId = callId then {} else b.dcbs d } := by
  have hdcbs : b.freeDcbOf callId =
      { b with dcbs := fun d => if (b.dcbs d).callId = callId then {} else b.dcbs d } := by
    rw [freeDcbOf]
    cases hd : b.fsmdefGetDcbByCallId callId with
    | none =>
      have hnone : ∀ d, ¬ (b.dcbs d).callId = callId := fun d => of_decide_eq_false (first_eq_none_iff.mp hd d)
      simp [hnone]
    | some d =>
      have hd' : (b.dcbs d).callId = callId := of_decide_eq_true (of_first hd)
      have hfun : Function.update b.dcbs d {} =
          fun d => if (b.dcbs d).callId = callId then {} else b.dcbs d := by
        funext d'
        by_cases hdd : d' = d
        · subst hdd
          simp [hd']
        · have hne : ¬ (b.dcbs d').callId = callId := fun hd'' => hdd (h.oneData d' d hd'' hd')
          simp [hdd, hne]
      rw [← hfun]
      rfl
  have hfcb : b.fsmdefFcb callId = none ∧ (∀ f, ¬ ((b.fcbs f).callId = callId ∧ (b.fcbs f).fsmType = .default)) ∨
      ∃ f, b.fsmdefFcb callId = some f ∧ (b.fcbs f).callId = callId ∧ (b.fcbs f).fsmType = .default := by
    rw [fsmdefFcb]
    cases hd : b.fsmdefGetDcbByCallId callId with
    | some d =>
      obtain ⟨f, hfcb, hf, htype⟩ := h.data d (of_decide_eq_true (of_first hd))
      exact .inr ⟨f, hfcb, hf, htype⟩
    | none =>
      cases hf : b.fsmGetFcbByCallIdAndType callId .default with
      | none => exact .inl ⟨rfl, fun f => of_decide_eq_false (first_eq_none_iff.mp hf f)⟩
      | some f =>
        obtain ⟨hf', htype⟩ := of_decide_eq_true (of_first hf)
        exact .inr ⟨f, rfl, hf', htype⟩
  rw [fsmdefFreeCb, if_neg hcall]
  rcases hfcb with ⟨hnone, hno⟩ | ⟨f, hsome, hf, htype⟩
  · rw [hnone]
    dsimp only
    rw [hdcbs, clearFcb_eq_self hno]
  · rw [hsome]
    dsimp only
    rw [hdcbs, ← h.freeFcb_eq hf htype]
    rfl

theorem Owns.fimFreeCallChn_eq (h : b.Owns callId) (hcall : callId ≠ noCallId)
    (hk : (b.chns k).callId = callId) : b.fimFreeCallChn k = b.wipe callId k := by
  have h₁ := h.clearFcb hcall (t := .cnf) (by simp)
  have h₂ := h₁.clearFcb hcall (t := .b2bcnf) (by simp)
  have h₃ := h₂.clearFcb hcall (t := .xfr) (by simp)
  have hfold : FsmType.chain.foldl (freeCb callId) b =
      (((b.freeFeatureCb callId .cnf).freeFeatureCb callId .b2bcnf).freeFeatureCb
        callId .xfr).fsmdefFreeCb callId := rfl
  rw [fimFreeCallChn, hk, hfold, h.freeFeatureCb_eq hcall, h₁.freeFeatureCb_eq hcall,
    h₂.freeFeatureCb_eq hcall, h₃.fsmdefFreeCb_eq hcall]
  simp only [setChn, wipe, Blocks.clearFcb]
  congr 1
  funext f
  by_cases hf : (b.fcbs f).callId = callId
  · -- the block is that of one of the four machines
    have hkind := h.kind f hf
    simp only [FsmType.chain, List.mem_cons, List.not_mem_nil, or_false] at hkind
    rcases hkind with htype | htype | htype | htype <;> simp [hf, htype]
  · simp [hf]

theorem Inv.wipe (h : b.Inv) (hbusy : b.Busy k) : (b.wipe (b.chns k).callId k).Inv := by
  have hchn : ∀ k', k' ≠ k → (b.wipe (b.chns k).callId k).chns k' = b.chns k' :=
    fun k' hk' => by simp [Blocks.wipe, hk']
  have hself : (b.wipe (b.chns k).callId k).chns k = {} := by simp [Blocks.wipe]
  have hfcb : ∀ f, (b.fcbs f).callId ≠ (b.chns k).callId →
      (b.wipe (b.chns k).callId k).fcbs f = b.fcbs f := fun f hf => by simp [Blocks.wipe, hf]
  have hfree : ∀ f, (b.fcbs f).callId = (b.chns k).callId →
      (b.wipe (b.chns k).callId k).fcbs f = {} := fun f hf => by simp [Blocks.wipe, hf]
  have hdcb : ∀ d, (b.dcbs d).callId ≠ (b.chns k).callId →
      (b.wipe (b.chns k).callId k).dcbs d = b.dcbs d := fun d hd => by simp [Blocks.wipe, hd]
  have hdfree : ∀ d, (b.dcbs d).callId = (b.chns k).callId →
      (b.wipe (b.chns k).callId k).dcbs d = {} := fun d hd => by simp [Blocks.wipe, hd]
  generalize b.wipe (b.chns k).callId k = w at hchn hself hfcb hfree hdcb hdfree
  have hother : ∀ {k'}, w.Busy k' → k' ≠ k := by
    rintro k' hbusy' rfl
    rw [Busy, hself] at hbusy'
    exact hbusy' rfl
  have hcall : ∀ {f}, (w.fcbs f).callId ≠ noCallId → (b.fcbs f).callId ≠ (b.chns k).callId := by
    intro f hf heq
    rw [hfree f heq] at hf
    exact hf rfl
  constructor
  · intro k₁ k₂ hbusy₁ heq
    have hne₁ := hother hbusy₁
    have hne₂ : k₂ ≠ k := by
      rintro rfl
      rw [Busy, heq, hself] at hbusy₁
      exact hbusy₁ rfl
    rw [Busy, hchn k₁ hne₁] at hbusy₁
    rw [hchn k₁ hne₁, hchn k₂ hne₂] at heq
    exact h.distinct k₁ k₂ hbusy₁ heq
  · intro k' hbusy' t ht
    have hne := hother hbusy'
    rw [Busy, hchn k' hne] at hbusy'
    obtain ⟨f, hcb, hf, htype⟩ := h.cb k' hbusy' t ht
    have hff : (b.fcbs f).callId ≠ (b.chns k).callId := fun heq =>
      hne (h.distinct k' k hbusy' (hf.symm.trans heq))
    exact ⟨f, by rw [hchn k' hne]; exact hcb, by rw [hfcb f hff, hchn k' hne]; exact hf,
      by rw [hfcb f hff]; exact htype⟩
  · intro k' hfree' t
    by_cases hne : k' = k
    · rw [hne, hself]
    · rw [hchn k' hne]
      rw [Busy, hchn k' hne] at hfree'
      exact h.free k' hfree' t
  · intro f hf
    have hff := hcall hf
    rw [hfcb f hff] at hf ⊢
    obtain ⟨k', hk', htype, hcb⟩ := h.owned f hf
    have hne : k' ≠ k := fun heq => hff (by rw [← hk', heq])
    exact ⟨k', by rw [hchn k' hne]; exact hk', htype, by rw [hchn k' hne]; exact hcb⟩
  · intro f hf
    by_cases hff : (b.fcbs f).callId = (b.chns k).callId
    · rw [hfree f hff]
    · rw [hfcb f hff] at hf ⊢
      exact h.unused f hf
  · intro f d htype hd
    by_cases hff : (b.fcbs f).callId = (b.chns k).callId
    · rw [hfree f hff] at htype
      exact absurd htype (by simp)
    · rw [hfcb f hff] at htype hd ⊢
      obtain ⟨hcall', hback⟩ := h.dcb f d htype hd
      rw [hdcb d (by rw [hcall']; exact hff)]
      exact ⟨hcall', hback⟩
  · intro d hd
    have hdd : (b.dcbs d).callId ≠ (b.chns k).callId := by
      intro heq
      rw [hdfree d heq] at hd
      exact hd rfl
    rw [hdcb d hdd] at hd ⊢
    obtain ⟨f, hback, hdata, htype, hf⟩ := h.data d hd
    have hff : (b.fcbs f).callId ≠ (b.chns k).callId := by rw [hf]; exact hdd
    exact ⟨f, hback, by rw [hfcb f hff]; exact hdata, by rw [hfcb f hff]; exact htype,
      by rw [hfcb f hff]; exact hf⟩

theorem Inv.fimFreeCallChn (h : b.Inv) (hbusy : b.Busy k) : (b.fimFreeCallChn k).Inv := by
  rw [(h.owns hbusy).fimFreeCallChn_eq hbusy rfl]
  exact h.wipe hbusy

/-! ## A chain is set up -/

def freeFcbs (b : Blocks) : Finset FcbId :=
  Finset.univ.filter fun f => (b.fcbs f).callId = noCallId

theorem mem_freeFcbs : f ∈ b.freeFcbs ↔ (b.fcbs f).callId = noCallId := by
  rw [freeFcbs, Finset.mem_filter, and_iff_right (Finset.mem_univ f)]

theorem freeFcbs_setFcb (fcb : Fcb) (hcall : fcb.callId ≠ noCallId) :
    (b.setFcb f fcb).freeFcbs = b.freeFcbs.erase f := by
  ext g
  rw [Finset.mem_erase, mem_freeFcbs, mem_freeFcbs]
  by_cases hg : g = f
  · subst hg
    simp [setFcb, hcall]
  · simp [setFcb, hg]

theorem Inv.length_le_card (h : b.Inv) (hk : ¬ b.Busy k) : FsmType.chain.length ≤ b.freeFcbs.card := by
  let busy := Finset.univ.filter fun f => ¬ (b.fcbs f).callId = noCallId
  let places := (Finset.univ.erase k) ×ˢ FsmType.chain.toFinset
  -- a block that is not free is at a place of one of the other chains
  have hsub : busy.image some ⊆ places.image fun p => (b.chns p.1).cb p.2 := by
    intro o ho
    obtain ⟨f, hf, rfl⟩ := Finset.mem_image.mp ho
    have hbusy : (b.fcbs f).callId ≠ noCallId := (Finset.mem_filter.mp hf).2
    obtain ⟨k', hk', htype, hcb⟩ := h.owned f hbusy
    have hne : k' ≠ k := fun heq => hk (by rw [Busy, ← heq, hk']; exact hbusy)
    exact Finset.mem_image.mpr ⟨(k', (b.fcbs f).fsmType), by simp [places, hne, htype], hcb⟩
  have hbusy : busy.card ≤ 50 * 4 :=
    calc busy.card = (busy.image some).card :=
          (Finset.card_image_of_injective _ (Option.some_injective _)).symm
      _ ≤ places.card := (Finset.card_le_card hsub).trans Finset.card_image_le
      _ = (Finset.univ.erase k).card * FsmType.chain.toFinset.card := Finset.card_product _ _
      _ ≤ 50 * 4 := by
        refine Nat.mul_le_mul ?_ (List.toFinset_card_le _)
        rw [Finset.card_erase_of_mem (Finset.mem_univ k), Finset.card_univ, Fintype.card_fin]
        decide
  have hall : b.freeFcbs.card + busy.card = 51 * 4 := by
    rw [freeFcbs, Finset.card_filter_add_card_filter_not, Finset.card_univ, Fintype.card_fin]
  have hlen : FsmType.chain.length = 4 := rfl
  omega

/-- The machines of the list have taken the blocks of `g` for the chain. -/
structure Taken (b b' : Blocks) (k : ChnId) (call : CallId) (ts : List FsmType)
    (g : FsmType → FcbId) : Prop where
  dcbs : b'.dcbs = b.dcbs
  chns : ∀ k', k' ≠ k → b'.chns k' = b.chns k'
  callId : (b'.chns k).callId = (b.chns k).callId
  cb : ∀ t ∈ ts, (b'.chns k).cb t = some (g t)
  cbOther : ∀ t, t ∉ ts → (b'.chns k).cb t = (b.chns k).cb t
  wasFree : ∀ t ∈ ts, (b.fcbs (g t)).callId = noCallId
  taken : ∀ t ∈ ts, b'.fcbs (g t) = { callId := call, fsmType := t }
  fcbs : ∀ f, (∀ t ∈ ts, g t ≠ f) → b'.fcbs f = b.fcbs f

/-- The machines of a list take their blocks where there are enough. -/
theorem exists_taken (hcall : callId ≠ noCallId) (ts : List FsmType) (hnodup : ts.Nodup)
    (hfree : ts.length ≤ b.freeFcbs.card) :
    ∃ g, Taken b (getCbs k callId ts b) k callId ts g := by
  induction ts generalizing b with
  | nil =>
    exact ⟨fun _ => 0, rfl, fun _ _ => rfl, rfl, by simp, fun _ _ => rfl, by simp, by simp,
      fun _ _ => rfl⟩
  | cons t ts ih =>
    rw [List.nodup_cons] at hnodup
    rw [List.length_cons] at hfree
    obtain ⟨f₀, hf₀⟩ := Finset.card_pos.mp (Nat.lt_of_lt_of_le (Nat.succ_pos _) hfree)
    have hsome : (b.fsmGetFcbByCallId noCallId).isSome = true :=
      isSome_first_iff.mpr ⟨f₀, decide_eq_true (mem_freeFcbs.mp hf₀)⟩
    obtain ⟨f, hf⟩ := Option.isSome_iff_exists.mp hsome
    have hffree : (b.fcbs f).callId = noCallId := of_decide_eq_true (of_first hf)
    let b₁ := (b.fsmInitFcb f callId none t).setChn k
      { b.chns k with cb := Function.update (b.chns k).cb t (some f) }
    have hstep : getCbs k callId (t :: ts) b = getCbs k callId ts b₁ := by
      rw [getCbs, fsmGetNewFcb, hf]
      rfl
    have hfcbs₁ : b₁.fcbs = Function.update b.fcbs f { callId, fsmType := t } := rfl
    have hself₁ : b₁.fcbs f = { callId, fsmType := t } := by rw [hfcbs₁, Function.update_self]
    have hother₁ : ∀ f', f' ≠ f → b₁.fcbs f' = b.fcbs f' := fun f' hf' => by
      rw [hfcbs₁, Function.update_of_ne hf']
    have hchn₁ : b₁.chns k = { b.chns k with cb := Function.update (b.chns k).cb t (some f) } := by
      simp [b₁, setChn]
    have hfree₁ : ts.length ≤ b₁.freeFcbs.card := by
      have heq : b₁.freeFcbs = b.freeFcbs.erase f := freeFcbs_setFcb { callId, fsmType := t } hcall
      rw [heq, Finset.card_erase_of_mem (mem_freeFcbs.mpr hffree)]
      omega
    obtain ⟨g, hg⟩ := ih hnodup.2 hfree₁
    rw [hstep]
    -- the block that is taken first is none of the later ones
    have hne : ∀ t' ∈ ts, g t' ≠ f := by
      intro t' ht' heq
      have hwas := hg.wasFree t' ht'
      rw [heq, hself₁] at hwas
      exact hcall hwas
    have hupd : ∀ t' ∈ ts, Function.update g t f t' = g t' := fun t' ht' =>
      Function.update_of_ne (ne_of_mem_of_not_mem ht' hnodup.1) _ _
    refine ⟨Function.update g t f, hg.dcbs, ?_, ?_, ?_, ?_, ?_, ?_, ?_⟩
    · intro k' hk'
      rw [hg.chns k' hk']
      simp [b₁, setChn, hk', fsmInitFcb, setFcb]
    · rw [hg.callId, hchn₁]
    · intro t' ht'
      rcases List.mem_cons.mp ht' with rfl | hmem
      · rw [hg.cbOther t' hnodup.1, hchn₁]
        simp
      · rw [hg.cb t' hmem, hupd t' hmem]
    · intro t' ht'
      rw [List.mem_cons, not_or] at ht'
      rw [hg.cbOther t' ht'.2, hchn₁]
      exact Function.update_of_ne ht'.1 _ _
    · intro t' ht'
      rcases List.mem_cons.mp ht' with rfl | hmem
      · rw [Function.update_self]
        exact hffree
      · rw [hupd t' hmem, ← hother₁ _ (hne t' hmem)]
        exact hg.wasFree t' hmem
    · intro t' ht'
      rcases List.mem_cons.mp ht' with rfl | hmem
      · rw [Function.update_self, hg.fcbs f hne]
        exact hself₁
      · rw [hupd t' hmem]
        exact hg.taken t' hmem
    · intro f' hf'
      have hff : f' ≠ f := by
        have hnot := hf' t List.mem_cons_self
        rw [Function.update_self] at hnot
        exact hnot.symm
      rw [hg.fcbs f' fun t' ht' => ?_, hother₁ f' hff]
      rw [← hupd t' ht']
      exact hf' t' (List.mem_cons_of_mem t ht')

theorem Inv.callId_ne (h : b.Inv) (hcall : callId ≠ noCallId) (hnone : b.fimGetCallChnByCallId callId = none) :
    (∀ k, (b.chns k).callId ≠ callId) ∧ (∀ f, (b.fcbs f).callId ≠ callId) ∧ ∀ d, (b.dcbs d).callId ≠ callId := by
  have hchn : ∀ k, (b.chns k).callId ≠ callId := fun k =>
    of_decide_eq_false (first_eq_none_iff.mp hnone k)
  have hfcb : ∀ f, (b.fcbs f).callId ≠ callId := by
    intro f hf
    obtain ⟨k, hk, -⟩ := h.owned f (hf ▸ hcall)
    exact hchn k (hk.trans hf)
  refine ⟨hchn, hfcb, fun d hd => ?_⟩
  obtain ⟨f, -, -, -, hf⟩ := h.data d (hd ▸ hcall)
  exact hfcb f (hf.trans hd)

theorem Inv.fimGetNewCallChn_cases (h : b.Inv) (hcall : callId ≠ noCallId)
    (hnone : b.fimGetCallChnByCallId callId = none) :
    b.fimGetNewCallChn callId = (none, b) ∨ ∃ k b' g, b.fimGetNewCallChn callId = (some k, b') ∧ ¬ b.Busy k ∧
        Taken (b.setChn k { b.chns k with callId }) b' k callId FsmType.chain g := by
  rw [fimGetNewCallChn, hnone]
  cases hk : b.fimGetCallChnByCallId noCallId with
  | none => exact .inl rfl
  | some k =>
    have hfree : ¬ b.Busy k := not_not.mpr (of_decide_eq_true (of_first hk))
    obtain ⟨g, hg⟩ := exists_taken (b := b.setChn k { b.chns k with callId }) (k := k) hcall
      FsmType.chain (by decide) (h.length_le_card hfree)
    exact .inr ⟨k, _, g, rfl, hfree, hg⟩

theorem Inv.of_taken (h : b.Inv) (hcall : callId ≠ noCallId)
    (hnone : b.fimGetCallChnByCallId callId = none) (hk : ¬ b.Busy k) {g : FsmType → FcbId}
    (hg : Taken (b.setChn k { b.chns k with callId }) b' k callId FsmType.chain g) : b'.Inv := by
  obtain ⟨hchnNe, hfcbNe, hdcbNe⟩ := h.callId_ne hcall hnone
  have hkcall : (b'.chns k).callId = callId := by
    rw [hg.callId]
    simp [setChn]
  have hchn : ∀ k', k' ≠ k → b'.chns k' = b.chns k' := fun k' hk' => by
    rw [hg.chns k' hk']
    simp [setChn, hk']
  have hdcbs : b'.dcbs = b.dcbs := hg.dcbs
  -- a block that works for a call is none of those that are taken
  have hold : ∀ f, (b.fcbs f).callId ≠ noCallId → b'.fcbs f = b.fcbs f := by
    intro f hf
    refine hg.fcbs f fun t ht heq => hf ?_
    rw [← heq]
    exact hg.wasFree t ht
  have hnew : ∀ f, (∃ t ∈ FsmType.chain, f = g t ∧ b'.fcbs f = { callId, fsmType := t }) ∨ b'.fcbs f = b.fcbs f := by
    intro f
    by_cases hf : ∃ t ∈ FsmType.chain, g t = f
    · obtain ⟨t, ht, rfl⟩ := hf
      exact .inl ⟨t, ht, rfl, hg.taken t ht⟩
    · push Not at hf
      exact .inr (hg.fcbs f hf)
  constructor
  · intro k₁ k₂ hbusy heq
    by_cases h₁ : k₁ = k <;> by_cases h₂ : k₂ = k
    · rw [h₁, h₂]
    · rw [h₁, hkcall, hchn k₂ h₂] at heq
      exact absurd heq.symm (hchnNe k₂)
    · rw [h₂, hkcall, hchn k₁ h₁] at heq
      exact absurd heq (hchnNe k₁)
    · rw [Busy, hchn k₁ h₁] at hbusy
      rw [hchn k₁ h₁, hchn k₂ h₂] at heq
      exact h.distinct k₁ k₂ hbusy heq
  · intro k' hbusy t ht
    by_cases hkk : k' = k
    · subst hkk
      exact ⟨g t, hg.cb t ht, by rw [hg.taken t ht, hkcall], by rw [hg.taken t ht]⟩
    · rw [Busy, hchn k' hkk] at hbusy
      obtain ⟨f, hcb, hf, htype⟩ := h.cb k' hbusy t ht
      have hfold := hold f (by rw [hf]; exact hbusy)
      exact ⟨f, by rw [hchn k' hkk]; exact hcb, by rw [hfold, hchn k' hkk]; exact hf,
        by rw [hfold]; exact htype⟩
  · intro k' hfree t
    have hkk : k' ≠ k := by
      rintro rfl
      rw [Busy, hkcall] at hfree
      exact hfree hcall
    rw [Busy, hchn k' hkk] at hfree
    rw [hchn k' hkk]
    exact h.free k' hfree t
  · intro f hf
    rcases hnew f with ⟨t, ht, rfl, htaken⟩ | heq
    · rw [htaken]
      exact ⟨k, hkcall, ht, hg.cb t ht⟩
    · rw [heq] at hf ⊢
      obtain ⟨k', hk', htype, hcb⟩ := h.owned f hf
      have hkk : k' ≠ k := by
        rintro rfl
        rw [Busy, hk'] at hk
        exact hk hf
      exact ⟨k', by rw [hchn k' hkk]; exact hk', htype, by rw [hchn k' hkk]; exact hcb⟩
  · intro f hf
    rcases hnew f with ⟨t, ht, rfl, htaken⟩ | heq
    · rw [htaken] at hf
      exact absurd hf hcall
    · rw [heq] at hf ⊢
      exact h.unused f hf
  · intro f d htype hd
    rcases hnew f with ⟨t, ht, rfl, htaken⟩ | heq
    · rw [htaken] at hd
      exact absurd hd (by simp)
    · rw [heq] at htype hd ⊢
      rw [hdcbs]
      exact h.dcb f d htype hd
  · intro d hd
    rw [hdcbs] at hd ⊢
    obtain ⟨f, hback, hdata, htype, hf⟩ := h.data d hd
    have hfold := hold f (by rw [hf]; exact hd)
    exact ⟨f, hback, by rw [hfold]; exact hdata, by rw [hfold]; exact htype, by rw [hfold]; exact hf⟩

/-! ## A call gets its data -/

theorem Inv.fsmGetFcbByCallIdAndType_eq (h : b.Inv) (hf : (b.fcbs f).callId ≠ noCallId) :
    b.fsmGetFcbByCallIdAndType (b.fcbs f).callId (b.fcbs f).fsmType = some f :=
  first_eq_of_unique (decide_eq_true ⟨rfl, rfl⟩) fun g hg => by
    obtain ⟨hcall, htype⟩ := of_decide_eq_true hg
    exact (h.fcb_eq hf hcall.symm htype.symm).symm

/-- The machines of the list know the data. -/
def tell (b : Blocks) (d : DcbId) (callId : CallId) (ts : List FsmType) : Blocks :=
  { b with fcbs := fun f =>
      if (b.fcbs f).callId = callId ∧ (b.fcbs f).fsmType ∈ ts then { b.fcbs f with dcb := some d }
      else b.fcbs f }

theorem setFcbDcbs_eq {ts : List FsmType} (hfound : ∀ t ∈ ts, ∃ f, (b.fcbs f).callId = callId ∧ (b.fcbs f).fsmType = t)
    (hunique : ∀ f g, (b.fcbs f).callId = callId → (b.fcbs g).callId = callId →
      (b.fcbs f).fsmType = (b.fcbs g).fsmType → f = g) :
    setFcbDcbs d callId ts b = (true, b.tell d callId ts) := by
  induction ts generalizing b with
  | nil => simp [setFcbDcbs, tell]
  | cons t ts ih =>
    obtain ⟨f, hf, htype⟩ := hfound t List.mem_cons_self
    have hlook : b.fsmGetFcbByCallIdAndType callId t = some f :=
      first_eq_of_unique (decide_eq_true ⟨hf, htype⟩) fun g hg => by
        obtain ⟨hg', htype'⟩ := of_decide_eq_true hg
        exact hunique g f hg' hf (htype'.trans htype.symm)
    let b₁ := b.setFcb f { b.fcbs f with dcb := some d }
    have hstep : setFcbDcbs d callId (t :: ts) b = setFcbDcbs d callId ts b₁ := by
      rw [setFcbDcbs, hlook]
    have hcall₁ : ∀ g, (b₁.fcbs g).callId = (b.fcbs g).callId := by
      intro g
      by_cases hg : g = f
      · subst hg
        simp [b₁, setFcb]
      · simp [b₁, setFcb, hg]
    have htype₁ : ∀ g, (b₁.fcbs g).fsmType = (b.fcbs g).fsmType := by
      intro g
      by_cases hg : g = f
      · subst hg
        simp [b₁, setFcb]
      · simp [b₁, setFcb, hg]
    rw [hstep, ih]
    · have hfcbs : (b₁.tell d callId ts).fcbs = (b.tell d callId (t :: ts)).fcbs := by
        funext g
        simp only [tell, hcall₁, htype₁]
        by_cases hg : g = f
        · subst hg
          by_cases hmem : (b.fcbs g).fsmType ∈ ts <;> simp [b₁, setFcb, hf, htype]
        · have hne : (b.fcbs g).callId = callId → (b.fcbs g).fsmType ≠ t := fun hg' htype' =>
            hg (hunique g f hg' hf (htype'.trans htype.symm))
          by_cases hg' : (b.fcbs g).callId = callId
          · simp [b₁, setFcb, hg, hg', hne hg']
          · simp [b₁, setFcb, hg, hg']
      calc (true, b₁.tell d callId ts)
          = (true, { b with fcbs := (b₁.tell d callId ts).fcbs }) := rfl
        _ = (true, b.tell d callId (t :: ts)) := by rw [hfcbs]; rfl
    · intro t' ht'
      obtain ⟨g, hg, htype'⟩ := hfound t' (List.mem_cons_of_mem t ht')
      exact ⟨g, by rw [hcall₁]; exact hg, by rw [htype₁]; exact htype'⟩
    · intro g g' hg hg' htype'
      rw [hcall₁] at hg hg'
      rw [htype₁, htype₁] at htype'
      exact hunique g g' hg hg' htype'

theorem Inv.dcb_callId_ne (h : b.Inv) (hf : (b.fcbs f).callId ≠ noCallId)
    (htype : (b.fcbs f).fsmType = .default) (hnone : (b.fcbs f).dcb = none) (d : DcbId) :
    (b.dcbs d).callId ≠ (b.fcbs f).callId := by
  intro hd
  obtain ⟨g, -, hdata, htype', hg⟩ := h.data d (hd ▸ hf)
  have hgf : f = g := h.fcb_eq hf (hd.symm.trans hg.symm) (htype.trans htype'.symm)
  subst hgf
  rw [hnone] at hdata
  exact absurd hdata (by simp)

def withData (b : Blocks) (d : DcbId) (callId : CallId) (line : ℕ) (f : FcbId) : Blocks :=
  { b with
    dcbs := Function.update b.dcbs d { callId, line, fcb := some f }
    fcbs := fun g =>
      if (b.fcbs g).callId = callId then { b.fcbs g with dcb := some d } else b.fcbs g }

theorem Inv.fsmGetCallContext_cases (h : b.Inv) (line : ℕ) (facility : Cause) (hf : (b.fcbs f).callId ≠ noCallId) :
    (b.fsmGetCallContext (b.fcbs f).callId line (some f) facility = (.noResource, b) ∧
        ∀ d, (b.dcbs d).callId ≠ noCallId) ∨
      ∃ d, (b.dcbs d).callId = noCallId ∧ b.fsmGetCallContext (b.fcbs f).callId line (some f) facility =
          (facility, b.withData d (b.fcbs f).callId line f) := by
  rw [fsmGetCallContext, fsmdefGetNewDcb]
  cases hd : b.fsmdefGetDcbByCallId noCallId with
  | none =>
    exact .inl ⟨rfl, fun d => of_decide_eq_false (first_eq_none_iff.mp hd d)⟩
  | some d =>
    refine .inr ⟨d, of_decide_eq_true (of_first hd), ?_⟩
    obtain ⟨k, hk, -, -⟩ := h.owned f hf
    have hbusy : b.Busy k := by rw [Busy, hk]; exact hf
    let b₁ := (b.setDcb d { b.dcbs d with callId := (b.fcbs f).callId }).fsmdefInitDcb d
      (b.fcbs f).callId line (some f)
    have hcall₁ : (b₁.dcbs d).callId = (b.fcbs f).callId := by
      simp [b₁, fsmdefInitDcb, setDcb]
    have hset : b₁.fsmSetFcbDcbs d = (true, b₁.tell d (b.fcbs f).callId FsmType.chain) := by
      rw [fsmSetFcbDcbs, hcall₁]
      refine setFcbDcbs_eq (fun t ht => ?_) (h.owns hf).unique
      obtain ⟨g, -, hg, htype⟩ := h.cb k hbusy t ht
      exact ⟨g, hg.trans hk, htype⟩
    have htell : b₁.tell d (b.fcbs f).callId FsmType.chain = b.withData d (b.fcbs f).callId line f := by
      simp only [tell, withData, b₁, fsmdefInitDcb, setDcb, Function.update_idem]
      congr 1
      funext g
      by_cases hg : (b.fcbs g).callId = (b.fcbs f).callId
      · simp [hg, (h.owns hf).kind g hg]
      · simp [hg]
    have hgoal : (b₁.fsmSetFcbDcbs d).1 = true ∧ (b₁.fsmSetFcbDcbs d).2 = b.withData d (b.fcbs f).callId line f := by
      rw [hset]
      exact ⟨rfl, htell⟩
    simp only [Option.map_some]
    rw [hgoal.1, hgoal.2]
    rfl

theorem Inv.withData (h : b.Inv) {line : ℕ} (hf : (b.fcbs f).callId ≠ noCallId)
    (htype : (b.fcbs f).fsmType = .default) (hnone : (b.fcbs f).dcb = none)
    (hd : (b.dcbs d).callId = noCallId) : (b.withData d (b.fcbs f).callId line f).Inv := by
  have hne := h.dcb_callId_ne hf htype hnone
  have hfcall : ∀ g, ((b.withData d (b.fcbs f).callId line f).fcbs g).callId = (b.fcbs g).callId := by
    intro g
    simp only [Blocks.withData]
    split <;> rfl
  have hftype : ∀ g, ((b.withData d (b.fcbs f).callId line f).fcbs g).fsmType = (b.fcbs g).fsmType := by
    intro g
    simp only [Blocks.withData]
    split <;> rfl
  have hself : (b.withData d (b.fcbs f).callId line f).dcbs d =
      { callId := (b.fcbs f).callId, line, fcb := some f } := by
    simp [Blocks.withData]
  have hother : ∀ d', d' ≠ d → (b.withData d (b.fcbs f).callId line f).dcbs d' = b.dcbs d' :=
    fun d' hd' => by simp [Blocks.withData, hd']
  have hdcb : ∀ g, ((b.withData d (b.fcbs f).callId line f).fcbs g).dcb =
      if (b.fcbs g).callId = (b.fcbs f).callId then some d else (b.fcbs g).dcb := by
    intro g
    simp only [Blocks.withData]
    split <;> rfl
  have hchns : (b.withData d (b.fcbs f).callId line f).chns = b.chns := rfl
  generalize b.withData d (b.fcbs f).callId line f = w at hfcall hftype hself hother hdcb hchns
  constructor <;> simp only [Busy, hchns, hfcall, hftype]
  · exact h.distinct
  · exact h.cb
  · exact h.free
  · exact h.owned
  · exact h.unused
  · intro g d' htype' hd'
    rw [hdcb g] at hd'
    split at hd'
    next hcall =>
      obtain rfl := Option.some.inj hd'
      have hgf : f = g := h.fcb_eq hf hcall.symm (htype.trans htype'.symm)
      subst hgf
      rw [hself]
      exact ⟨rfl, rfl⟩
    next hcall =>
      obtain ⟨hcall', hback⟩ := h.dcb g d' htype' hd'
      have hdd : d' ≠ d := by
        rintro rfl
        rw [hd] at hcall'
        -- free data is known to no default machine
        have hidle := h.unused g hcall'.symm
        rw [htype'] at hidle
        exact absurd hidle (by simp)
      rw [hother d' hdd]
      exact ⟨hcall', hback⟩
  · intro d' hd'
    by_cases hdd : d' = d
    · subst hdd
      rw [hself]
      exact ⟨f, rfl, by rw [hdcb, if_pos rfl], htype, rfl⟩
    · rw [hother d' hdd] at hd' ⊢
      obtain ⟨g, hback, hdata, htype', hg⟩ := h.data d' hd'
      refine ⟨g, hback, ?_, htype', hg⟩
      rw [hdcb, if_neg (by rw [hg]; exact hne d')]
      exact hdata

end Blocks

end Gsm
