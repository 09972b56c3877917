import Ikran.Sip.SubsManager

/-!
# The subscription manager accounts for its subscriptions

Between events, `currentScbsAllocated` is the number of SCBs in use, those that are not are as they were
initialised, and the others have different ids. So a search that stops after that many SCBs in use finds what
there is.

It does not hold in every run. An SCB is taken while its state is still `SUBS_STATE_IDLE`, and `free_scb` counts
down only for other states: when the SUBSCRIBE of a new subscription is not sent, the count stays one too high.
An incoming SUBSCRIBE that is refused after its SCB was taken leaves the count or the SCB behind.

An SCB is taken exactly when it has an id. The invariant counts ids, and says where an SCB may have one and be
idle: while a callback is running that was called for it.
-/

namespace Sip.SubsManager

open Notify (SmState)

namespace Manager

variable {s : Manager} {i j : ScbIndex} {env : Env} {f : Scb → Scb} {e : Option ScbIndex}

structure Accounted (s : Manager) : Prop where
  counted : s.currentScbsAllocated = Pool.count s.live
  initialised : ∀ i, s.live i = false → s.scbs i = {}
  valid : ∀ i, s.live i → ∃ id, (s.scbs i).subId = some id ∧ id ≠ 0xffffffff
  distinct : ∀ i j, s.live i → s.live j → (s.scbs i).subId = (s.scbs j).subId → i = j
  findScbByCallid : ∀ callID, (∃ i, s.live i ∧ (s.scbs i).hasCallid callID) →
    ∃ i, s.findScbByCallid callID = some i ∧ s.live i ∧ (s.scbs i).hasCallid callID
  findReqScb : ∀ callID method cseq, (∃ i, s.live i ∧ (s.scbs i).hasRequest callID method cseq) →
    ∃ i, s.findReqScb callID method cseq = some i ∧ s.live i ∧ (s.scbs i).hasRequest callID method cseq

/-- The SCB that `allocate_scb` takes is not taken yet. -/
def TakesFree (s : Manager) : Prop :=
  ∀ i, s.firstIdle = some i → (s.scbs i).subId = none

def Opens (s : Manager) (m : SipSubscribe) : Prop :=
  ∃ event reg, m.eventPackage = some event ∧ s.subsManagerRunning ∧ m.wellFormed ∧ m.callID ≠ [] ∧
    s.findReSubscribed m event = none ∧ s.findRegistration m event = some reg ∧ s.firstIdle ≠ none

/-- A SUBSCRIBE passes the checks that are made after its SCB was taken. -/
def Passes (m : SipSubscribe) : Prop :=
  populates m ∧ (m.method = .refer → m.referTo) ∧ (m.via → m.viaMemory) ∧ m.bodies = .passed

/-- What a callback leaves can be finished. -/
def Resumes (s : Manager) : Frame → Prop
  | .subscribeFailed i => (s.scbs i).subId = none ∨ s.live i
  | .subscribeInd i | .notifyInd i => (s.scbs i).subId ≠ none
  | _ => True

/-- An event comes in a state where its handler keeps the account. -/
def Orderly (s : Manager) : Event → Prop
  | .appSubscribeRegister m => s.registers m → s.TakesFree
  | .appSubscribe env m => s.subsManagerRunning →
      (∀ i, s.findSubscription m.subId m.requestId m.eventPackage = some i → (s.scbs i).subId ≠ none) ∧
      (s.findSubscription m.subId m.requestId m.eventPackage = none → s.accepts env m → s.TakesFree)
  | .sipSubscribe m => s.Opens m → Passes m
  | .callbackReturns _ => ∀ f ∈ s.frames.head?, s.Resumes f
  | _ => True

theorem subId_of_findScbBySubId {id : Option UInt32} (h : s.findScbBySubId id = some i) :
    (s.scbs i).subId = id ∧ id ≠ none := by
  cases id with
  | none => exact (nomatch h)
  | some id =>
    simp only [findScbBySubId] at h
    split_ifs at h with hlt hid
    obtain rfl := Option.some.inj h
    exact ⟨hid, Option.some_ne_none _⟩

theorem getScbIndexFromSubId_subIdOf (u : UInt32) (i : ScbIndex) : getScbIndexFromSubId (subIdOf u i) = i := by
  have hi : i.val < 2 ^ 16 := lt_trans i.isLt (by decide)
  apply Nat.eq_of_testBit_eq
  intro k
  simp only [getScbIndexFromSubId, subIdOf, UInt32.toNat_and, UInt32.toNat_or, UInt32.toNat_shiftLeft,
    UInt32.toNat_ofNat', Nat.testBit_and, Nat.testBit_or]
  rw [show (0xffff : UInt32).toNat = 2 ^ 16 - 1 from rfl, Nat.testBit_two_pow_sub_one,
    show (16 : UInt32).toNat % 32 = 16 from rfl, Nat.testBit_mod_two_pow, Nat.testBit_shiftLeft,
    Nat.mod_eq_of_lt (lt_trans hi (by decide))]
  by_cases hk : k < 16
  · simp [hk]
  · have hzero : i.val.testBit k = false :=
      Nat.testBit_lt_two_pow (lt_of_lt_of_le hi (Nat.pow_le_pow_right (by decide) (by omega)))
    simp [hk, hzero]

theorem getScbIndexFromSubId_newSubId (u : UInt32) (i : ScbIndex) : getScbIndexFromSubId (newSubId u i).1 = i := by
  rw [newSubId]
  split_ifs <;> exact getScbIndexFromSubId_subIdOf _ i

end Manager

/-- What a callback is running for, whose SCB may be idle. -/
def Frame.covers : Frame → ScbIndex → Prop
  | .subscribeFailed j, i | .subscribeInd j, i => i = j
  | _, _ => False

/-- The frame is of a SUBSCRIBE that was not sent. -/
def Frame.IsFailure : Frame → Prop
  | .subscribeFailed _ => True
  | _ => False

namespace Manager

variable {s : Manager} {i j : ScbIndex} {env : Env} {f : Scb → Scb} {e : Option ScbIndex}

/-! ## The invariant -/

/-- The invariant, but for an SCB that was just taken and is still idle. -/
structure Held (s : Manager) (e : Option ScbIndex) : Prop where
  counted : s.currentScbsAllocated = Pool.count fun i => (s.scbs i).subId.isSome
  fresh : ∀ i, (s.scbs i).subId = none → s.scbs i = {}
  index : ∀ i id, (s.scbs i).subId = some id → getScbIndexFromSubId id = i
  taken : ∀ i, (s.scbs i).subId ≠ none → s.live i = false → some i = e ∨ ∃ f ∈ s.frames, f.covers i
  nested : ∀ f ∈ s.frames.dropLast, f.IsFailure

/-- A change of an SCB that leaves its id, and does not make it idle. -/
structure Keeps (f : Scb → Scb) (scb : Scb) : Prop where
  subId : (f scb).subId = scb.subId
  smState : scb.smState ≠ .idle → (f scb).smState ≠ .idle

@[simp] theorem scbs_modify_self : (s.modify i f).scbs i = f (s.scbs i) := Function.update_self ..

@[simp] theorem scbs_modify_of_ne (h : j ≠ i) : (s.modify i f).scbs j = s.scbs j := Function.update_of_ne h ..

@[simp] theorem currentScbsAllocated_modify : (s.modify i f).currentScbsAllocated = s.currentScbsAllocated := rfl

@[simp] theorem frames_modify : (s.modify i f).frames = s.frames := rfl

@[simp] theorem subsManagerRunning_modify : (s.modify i f).subsManagerRunning = s.subsManagerRunning := rfl

theorem live_iff : s.live i = true ↔ (s.scbs i).smState ≠ .idle := by
  simp [live]

theorem not_live_iff : s.live i = false ↔ (s.scbs i).smState = .idle := by
  simp [live]

namespace Held

theorem subId_of_live (h : s.Held e) (hlive : s.live i) : (s.scbs i).subId ≠ none := by
  intro hnone
  rw [live_iff, h.fresh i hnone] at hlive
  exact hlive rfl

theorem count_congr {s' : Manager} (h : ∀ i, (s'.scbs i).subId = (s.scbs i).subId) :
    (Pool.count fun i => (s'.scbs i).subId.isSome) = Pool.count fun i => (s.scbs i).subId.isSome := by
  simp only [h]

theorem modify (h : s.Held e) (hid : (s.scbs i).subId ≠ none) (hf : Keeps f (s.scbs i)) : (s.modify i f).Held e := by
  have hsame : ∀ j, ((s.modify i f).scbs j).subId = (s.scbs j).subId := by
    intro j
    by_cases hj : j = i
    · subst hj
      rw [scbs_modify_self, hf.subId]
    · rw [scbs_modify_of_ne hj]
  refine ⟨?_, fun j hnone => ?_, fun j id hj => ?_, fun j hj hidle => ?_, h.nested⟩
  · rw [count_congr hsame]
    exact h.counted
  · have hji : j ≠ i := fun hji => hid (hji ▸ hsame j ▸ hnone)
    rw [scbs_modify_of_ne hji]
    exact h.fresh j (hsame j ▸ hnone)
  · exact h.index j id (hsame j ▸ hj)
  · refine h.taken j (hsame j ▸ hj) ?_
    by_cases hji : j = i
    · subst hji
      rw [not_live_iff] at hidle ⊢
      rw [scbs_modify_self] at hidle
      exact not_not.mp fun hne => hf.smState hne hidle
    · rw [not_live_iff, scbs_modify_of_ne hji] at hidle
      exact not_live_iff.mpr hidle

theorem modify_live (h : s.Held e) (hlive : s.live i) (hf : Keeps f (s.scbs i)) : (s.modify i f).Held e :=
  h.modify (h.subId_of_live hlive) hf

theorem settle (h : s.Held (some i)) (hlive : s.live i) : s.Held none := by
  refine ⟨h.counted, h.fresh, h.index, fun j hj hidle => ?_, h.nested⟩
  rcases h.taken j hj hidle with heq | hframe
  · obtain rfl := Option.some.inj heq
    rw [hlive] at hidle
    exact (nomatch hidle)
  · exact .inr hframe

theorem push (h : s.Held e) {f : Frame} (hf : s.frames = [] ∨ f.IsFailure)
    (he : ∀ i, e = some i → f.covers i) : (s.push f).Held none := by
  refine ⟨h.counted, h.fresh, h.index, fun j hj hidle => ?_, ?_⟩
  · rcases h.taken j hj hidle with heq | ⟨f', hf', hcovers⟩
    · exact .inr ⟨f, List.mem_cons_self, he j heq.symm⟩
    · exact .inr ⟨f', List.mem_cons_of_mem _ hf', hcovers⟩
  · -- only the last frame may be another one than a failure
    intro f' hf'
    rw [Manager.push] at hf'
    by_cases hnil : s.frames = []
    · rw [hnil, List.dropLast_singleton] at hf'
      exact absurd hf' List.not_mem_nil
    · rw [List.dropLast_cons_of_ne_nil hnil] at hf'
      rcases List.mem_cons.mp hf' with rfl | hf'
      · exact hf.resolve_left hnil
      · exact h.nested f' hf'

theorem pop (h : s.Held none) {f : Frame} {frames : List Frame} (hframes : s.frames = f :: frames) :
    (∀ i, f.covers i → ({ s with frames } : Manager).Held (some i)) ∧
      ((∀ i, ¬f.covers i) → ({ s with frames } : Manager).Held none) := by
  have hnested : ∀ f' ∈ frames.dropLast, f'.IsFailure := by
    intro f' hf'
    refine h.nested f' ?_
    rw [hframes, List.dropLast_cons_of_ne_nil (by rintro rfl; exact absurd hf' List.not_mem_nil)]
    exact List.mem_cons_of_mem _ hf'
  have htaken : ∀ j, (s.scbs j).subId ≠ none → s.live j = false → f.covers j ∨ ∃ f' ∈ frames, f'.covers j := by
    intro j hj hidle
    obtain ⟨f', hf', hcovers⟩ := (h.taken j hj hidle).resolve_left nofun
    rw [hframes] at hf'
    rcases List.mem_cons.mp hf' with rfl | hf'
    · exact .inl hcovers
    · exact .inr ⟨f', hf', hcovers⟩
  refine ⟨fun i hi => ⟨h.counted, h.fresh, h.index, fun j hj hidle => ?_, hnested⟩,
    fun hnone => ⟨h.counted, h.fresh, h.index, fun j hj hidle => ?_, hnested⟩⟩
  · refine (htaken j hj hidle).imp_left fun hcovers => ?_
    cases f with
    | subscribeFailed k | subscribeInd k =>
      rw [Frame.covers] at hi hcovers
      rw [hi, hcovers]
    | _ => exact hi.elim
  · exact .inr ((htaken j hj hidle).resolve_left (hnone j))

theorem frames_eq_nil (h : s.Held e) {f : Frame} {frames : List Frame} (hframes : s.frames = f :: frames)
    (hf : ¬f.IsFailure) : frames = [] := by
  by_contra hnil
  refine hf (h.nested f ?_)
  rw [hframes, List.dropLast_cons_of_ne_nil hnil]
  exact List.mem_cons_self

theorem freeScb (h : s.Held e) (hi : (s.scbs i).subId = none ∨ s.live i) : (s.freeScb i).Held e := by
  have hscbs : ∀ j, (s.freeScb i).scbs j = if j = i then {} else s.scbs j := by
    intro j
    by_cases hj : j = i
    · subst hj
      rw [if_pos rfl]
      exact scbs_modify_self (s := s) (f := fun _ => {})
    · rw [if_neg hj]
      exact scbs_modify_of_ne (s := s) (f := fun _ => {}) hj
  refine ⟨?_, fun j hnone => ?_, fun j id hj => ?_, fun j hj hidle => ?_, h.nested⟩
  · rcases hi with hnone | hlive
    · -- the SCB was not taken, and its state is idle
      have hidle : s.live i = false := by
        rw [not_live_iff, h.fresh i hnone]
      have hcount : (s.freeScb i).currentScbsAllocated = s.currentScbsAllocated := by
        simp [Manager.freeScb, hidle]
      rw [hcount, h.counted]
      refine (count_congr fun j => ?_).symm
      rw [hscbs]
      split_ifs with hj
      · rw [hj, hnone]
      · rfl
    · have hcount : (s.freeScb i).currentScbsAllocated = s.currentScbsAllocated - 1 := by
        simp [Manager.freeScb, hlive]
      rw [hcount, h.counted]
      refine (Pool.count_clear (i := i) ?_ ?_ fun j hj => ?_).symm
      · exact Option.isSome_iff_ne_none.mpr (h.subId_of_live hlive)
      · simp [hscbs]
      · simp [hscbs, hj]
  · rw [hscbs] at hnone ⊢
    split_ifs with hj
    · rfl
    · rw [if_neg hj] at hnone
      exact h.fresh j hnone
  · rw [hscbs] at hj
    split_ifs at hj with hji
    exact h.index j id hj
  · rw [hscbs] at hj
    rw [not_live_iff, hscbs] at hidle
    split_ifs at hj with hji
    · exact absurd rfl hj
    · rw [if_neg hji] at hidle
      exact h.taken j hj (not_live_iff.mpr hidle)

theorem freeScb_taken (h : s.Held (some i)) (hi : (s.scbs i).subId = none ∨ s.live i) : (s.freeScb i).Held none := by
  have hfree := h.freeScb hi
  refine ⟨hfree.counted, hfree.fresh, hfree.index, fun j hj hidle => ?_, hfree.nested⟩
  rcases hfree.taken j hj hidle with heq | hframe
  · obtain rfl := Option.some.inj heq
    exact absurd (by simp [Manager.freeScb]) hj
  · exact .inr hframe

theorem allocateScb (h : s.Held none) (hi : (s.scbs i).subId = none) : (s.allocateScb i).Held (some i) := by
  have hself : (s.allocateScb i).scbs i = { s.scbs i with subId := some (newSubId s.uniqueId i).1 } :=
    Function.update_self ..
  have hother : ∀ j, j ≠ i → (s.allocateScb i).scbs j = s.scbs j := fun j hj => Function.update_of_ne hj ..
  refine ⟨?_, fun j hnone => ?_, fun j id hj => ?_, fun j hj hidle => ?_, h.nested⟩
  · have hcount : (s.allocateScb i).currentScbsAllocated = s.currentScbsAllocated + 1 := rfl
    rw [hcount, h.counted]
    refine (Pool.count_set (i := i) ?_ ?_ fun j hj => ?_).symm
    · simp [hi]
    · rw [hself]
      rfl
    · rw [hother j hj]
  · by_cases hji : j = i
    · subst hji
      rw [hself] at hnone
      exact (nomatch hnone)
    · rw [hother j hji] at hnone ⊢
      exact h.fresh j hnone
  · by_cases hji : j = i
    · subst hji
      rw [hself] at hj
      rw [← Option.some.inj hj]
      exact getScbIndexFromSubId_newSubId _ _
    · rw [hother j hji] at hj
      exact h.index j id hj
  · by_cases hji : j = i
    · exact .inl (congrArg some hji)
    · rw [hother j hji] at hj
      rw [not_live_iff, hother j hji] at hidle
      exact .inr ((h.taken j hj (not_live_iff.mpr hidle)).resolve_left nofun)

end Held

theorem Held.accounted_of_frames (h : s.Held none) (hframes : s.frames = []) : s.Accounted := by
  -- no callback is running, so an idle SCB has no id
  have hidle : ∀ i, s.live i = false → (s.scbs i).subId = none := by
    intro i hi
    by_contra hid
    obtain ⟨f, hf, -⟩ := (h.taken i hid hi).resolve_left nofun
    rw [hframes] at hf
    exact absurd hf List.not_mem_nil
  have hlive : (fun i => (s.scbs i).subId.isSome) = s.live := by
    funext i
    cases hi : s.live i with
    | false => rw [hidle i hi, Option.isSome_none]
    | true => exact Option.isSome_iff_ne_none.mpr (h.subId_of_live hi)
  have hcounted : s.currentScbsAllocated = Pool.count s.live := by rw [h.counted, hlive]
  have hsearch : ∀ p : ScbIndex → Bool, (∃ i, s.live i ∧ p i) →
      ∃ i, Pool.firstLive s.live p s.currentScbsAllocated = some i ∧ s.live i ∧ p i := by
    rintro p ⟨i, hi, hp⟩
    rw [Pool.firstLive_eq_first hcounted.ge]
    obtain ⟨j, hj⟩ := Option.isSome_iff_exists.mp (Pool.isSome_first_iff
      (p := fun i => s.live i && p i) |>.mpr ⟨i, Bool.and_eq_true_iff.mpr ⟨hi, hp⟩⟩)
    exact ⟨j, hj, Bool.and_eq_true_iff.mp (Pool.of_first hj)⟩
  refine ⟨hcounted, fun i hi => h.fresh i (hidle i hi), fun i hi => ?_, fun i j hi hj heq => ?_,
    fun callID => hsearch _, fun callID method cseq => hsearch _⟩
  · obtain ⟨id, hid⟩ := Option.ne_none_iff_exists'.mp (h.subId_of_live hi)
    refine ⟨id, hid, fun hinvalid => ?_⟩
    -- the place that the invalid id would name is behind the table
    have hindex := h.index i id hid
    have hlt : i.val < 102 := i.isLt
    rw [hinvalid, show getScbIndexFromSubId 0xffffffff = 65535 from rfl] at hindex
    omega
  · obtain ⟨id, hid⟩ := Option.ne_none_iff_exists'.mp (h.subId_of_live hi)
    exact Fin.ext ((h.index i id hid).symm.trans (h.index j id (heq ▸ hid)))

/-! ## Changes of a subscription -/

section Changes

variable {scb : Scb} {n : Notify.Scb} {nenv : Notify.Env}

theorem Keeps.of_eq (hid : (f scb).subId = scb.subId) (hstate : (f scb).smState = scb.smState) : Keeps f scb :=
  ⟨hid, fun hne => hstate ▸ hne⟩

theorem Keeps.of_ne (hid : (f scb).subId = scb.subId) (hstate : (f scb).smState ≠ .idle) : Keeps f scb :=
  ⟨hid, fun _ => hstate⟩

theorem view_sendSubscribe :
    (n.sipSPISendSubscribe nenv).subId = n.subId ∧ (n.sipSPISendSubscribe nenv).smState = n.smState := by
  unfold Notify.Scb.sipSPISendSubscribe
  cases nenv.outcome <;> exact ⟨rfl, rfl⟩

theorem view_sendSubNotify :
    (n.sipSPISendSubNotify nenv).subId = n.subId ∧ (n.sipSPISendSubNotify nenv).smState = n.smState := by
  unfold Notify.Scb.sipSPISendSubNotify
  cases nenv.outcome <;> exact ⟨rfl, rfl⟩

theorem keeps_sipSPISendSubscribe {renew : Bool} : Keeps (·.sipSPISendSubscribe env renew) scb :=
  .of_eq view_sendSubscribe.1 view_sendSubscribe.2

theorem keeps_sendSubscribe (env : Env) (m : Subscribe) (renew : Bool) :
    Keeps (fun scb => { scb with eventDataP := m.eventData }.sipSPISendSubscribe env renew) scb :=
  .of_eq view_sendSubscribe.1 view_sendSubscribe.2

theorem smState_subscribing : scb.subscribing.smState ≠ .idle := by
  unfold Scb.subscribing Scb.on
  dsimp only
  split_ifs <;> decide

theorem keeps_subscribing : Keeps (·.subscribing) scb := .of_ne rfl smState_subscribing

theorem smState_subscribed : scb.subscribed.smState ≠ .idle := by
  unfold Scb.subscribed Scb.on
  dsimp only
  split_ifs <;> decide

theorem keeps_subscribed : Keeps (·.subscribed) scb := .of_ne rfl smState_subscribed

theorem smState_notified : scb.notified.smState ≠ .idle := by
  unfold Scb.notified Scb.on
  dsimp only
  split_ifs <;> decide

theorem keeps_notified : Keeps (·.notified) scb := .of_ne rfl smState_notified

theorem smState_answered : scb.answered.smState ≠ .idle := by
  unfold Scb.answered Scb.on
  dsimp only
  split_ifs <;> decide

theorem keeps_answered : Keeps (·.answered) scb := .of_ne rfl smState_answered

theorem keeps_notifyAnswered : Keeps (·.notifyAnswered) scb := by
  refine ⟨rfl, fun hne => ?_⟩
  simp only [Scb.notifyAnswered]
  split_ifs
  · decide
  · decide
  · exact hne

theorem keeps_sendResponse {cseq : ℕ} {o : Response} :
    Keeps (fun scb => (scb.sipSPISendSubscribeNotifyResponse cseq o).1) scb := by
  refine .of_eq ?_ ?_ <;>
  · simp only [Scb.sipSPISendSubscribeNotifyResponse]
    split_ifs <;> rfl

theorem keeps_respond {c : Scb → ℕ} {o : Response} (hf : ∀ scb, Keeps f scb) : Keeps (fun scb =>
      if (scb.sipSPISendSubscribeNotifyResponse (c scb) o).2 then
        f (scb.sipSPISendSubscribeNotifyResponse (c scb) o).1
      else (scb.sipSPISendSubscribeNotifyResponse (c scb) o).1) scb := by
  have hsend : Keeps (fun x => (x.sipSPISendSubscribeNotifyResponse (c scb) o).1) scb := keeps_sendResponse
  by_cases hsent : (scb.sipSPISendSubscribeNotifyResponse (c scb) o).2 = true
  · refine ⟨?_, fun hne => ?_⟩
    · rw [if_pos hsent, (hf _).subId, hsend.subId]
    · rw [if_pos hsent]
      exact (hf _).smState (hsend.smState hne)
  · refine ⟨?_, fun hne => ?_⟩
    · rw [if_neg hsent, hsend.subId]
    · rw [if_neg hsent]
      exact hsend.smState hne

theorem keeps_appNotify {nenv : Scb → Notify.Env} {r : Notify.Request} :
    Keeps (fun scb => scb.on fun n => (n.handleEvAppNotify (nenv scb) r).1) scb := by
  have hnotified : scb.toScb.notified ≠ .idle := by
    rw [Notify.Scb.notified]
    split_ifs <;> decide
  refine ⟨?_, fun hne => ?_⟩
  · simp only [Scb.on, Notify.Scb.handleEvAppNotify]
    split_ifs
    all_goals first | rfl | exact view_sendSubNotify.1
  · simp only [Scb.on, Notify.Scb.handleEvAppNotify]
    split_ifs
    all_goals first
      | exact hne
      | exact hnotified
      | exact fun heq => hne ((view_sendSubNotify (n := scb.take r)).2.symm.trans heq)

theorem keeps_terminated : Keeps (fun scb => scb.on fun n => (n.handleEvAppSubscriptionTerminated false).1) scb := by
  refine .of_eq ?_ ?_ <;>
  · simp only [Scb.on, Notify.Scb.handleEvAppSubscriptionTerminated]
    split_ifs <;> first | rfl | contradiction

theorem keeps_resend {method : Notify.Method} {authorized : Bool} : Keeps (·.resend env method authorized) scb := by
  by_cases hauth : authorized = false
  · refine .of_eq ?_ ?_ <;> simp only [Scb.resend, if_pos hauth]
  · by_cases hmethod : method = .subscribe ∨ method = .refer
    · have hsend : Keeps (·.sipSPISendSubscribe env true) scb := keeps_sipSPISendSubscribe
      refine ⟨?_, fun hne => ?_⟩ <;> simp only [Scb.resend, if_neg hauth, if_pos hmethod]
      · exact hsend.subId
      · exact hsend.smState hne
    · refine .of_eq ?_ ?_ <;> simp only [Scb.resend, if_neg hauth, if_neg hmethod]
      · exact view_sendSubNotify.1
      · exact view_sendSubNotify.2

theorem keeps_release (responseCode : ℕ) : Keeps (·.on fun n => (n.release responseCode).1) scb :=
  .of_eq rfl rfl

theorem keeps_result {responseCode : ℕ} :
    Keeps (·.on fun n => { n with smState := n.subscribed responseCode }) scb := by
  refine ⟨rfl, fun hne => ?_⟩
  simp only [Scb.on, Notify.Scb.subscribed]
  split_ifs
  · decide
  · decide
  · exact hne

theorem keeps_responded {responseCode : ℕ} :
    Keeps (·.on fun n => { n with smState := n.responded responseCode }) scb := by
  refine ⟨rfl, fun hne => ?_⟩
  simp only [Scb.on, Notify.Scb.responded]
  split_ifs
  · decide
  · decide
  · exact hne

end Changes

/-! ## Requests of an application -/

namespace Held

theorem sendSubscribe_again (h : s.Held e) {m : Subscribe} (hid : (s.scbs i).subId ≠ none) :
    (s.sendSubscribe env m i true).Held e := by
  have hsend := h.modify hid (keeps_sendSubscribe env m true)
  rw [Manager.sendSubscribe]
  by_cases hsent : env.outcome = .sent
  · rw [if_pos hsent]
    refine hsend.modify ?_ keeps_subscribing
    rwa [scbs_modify_self, (keeps_sendSubscribe env m _).subId]
  · rw [if_neg hsent, if_pos rfl]
    exact hsend

theorem sendSubscribe_new (h : s.Held (some i)) {m : Subscribe} (hid : (s.scbs i).subId ≠ none) :
    (s.sendSubscribe env m i false).Held none := by
  have hsend := h.modify hid (keeps_sendSubscribe env m false)
  rw [Manager.sendSubscribe]
  by_cases hsent : env.outcome = .sent
  · rw [if_pos hsent]
    refine (hsend.modify ?_ keeps_subscribing).settle ?_
    · rwa [scbs_modify_self, (keeps_sendSubscribe env m _).subId]
    · rw [live_iff, scbs_modify_self]
      exact smState_subscribing
  · rw [if_neg hsent, if_neg (by decide)]
    exact hsend.push (.inr trivial) fun j hj => (Option.some.inj hj).symm

theorem fill (h : s.Held none) (hi : (s.scbs i).subId = none) (hf : ∀ scb, (f scb).subId = scb.subId)
    (hstate : ∀ scb, scb.smState ≠ .idle → (f scb).smState ≠ .idle) :
    ((s.allocateScb i).modify i f).Held (some i) ∧ (((s.allocateScb i).modify i f).scbs i).subId ≠ none := by
  have hid : ((s.allocateScb i).scbs i).subId ≠ none := by
    simp [Manager.allocateScb, Manager.modify]
  refine ⟨(h.allocateScb hi).modify hid ⟨hf _, hstate _⟩, ?_⟩
  rwa [scbs_modify_self, hf]

theorem handleEvAppSubscribeRegister (h : s.Held none) {m : SubscribeReg} (hfree : s.registers m → s.TakesFree) :
    (s.handleEvAppSubscribeRegister m).Held none := by
  rw [Manager.handleEvAppSubscribeRegister]
  split_ifs with hreg
  · cases hidle : s.firstIdle with
    | none => exact h
    | some i =>
      obtain ⟨hfill, -⟩ := h.fill (hfree hreg i hidle) (f := fun scb => { scb with
          eventType := m.eventPackage
          subsNotCallbackTask := m.subsIndCallbackTask
          smState := .registered }) (fun _ => rfl) fun _ _ => by simp
      refine hfill.settle ?_
      simp [live_iff]
  · exact h

theorem handleEvAppSubscribe (h : s.Held none) {m : Subscribe} (hord : s.Orderly (.appSubscribe env m)) :
    (s.handleEvAppSubscribe env m).Held none := by
  rw [Manager.handleEvAppSubscribe]
  by_cases hrun : s.subsManagerRunning = false
  · rw [if_pos hrun]
    exact h
  · obtain ⟨hfound, hfree⟩ := hord (Bool.not_eq_false _ ▸ hrun)
    rw [if_neg hrun]
    cases hfind : s.findSubscription m.subId m.requestId m.eventPackage with
    | some i => exact h.sendSubscribe_again (hfound i hfind)
    | none =>
      by_cases haccepts : s.accepts env m = true
      · simp only [if_pos haccepts]
        cases hidle : s.firstIdle with
        | none => exact h
        | some i =>
          obtain ⟨hfill, hid⟩ :=
            h.fill (hfree hfind haccepts i hidle) (f := (·.prepare m)) (fun _ => rfl) fun _ hne => hne
          exact hfill.sendSubscribe_new hid
      · simp only [if_neg haccepts]
        exact h

variable {id : Option UInt32}

theorem modify_found (h : s.Held e) (hfind : s.findScbBySubId id = some i)
    (hf : Keeps f (s.scbs i)) : (s.modify i f).Held e := by
  obtain ⟨hid, hne⟩ := subId_of_findScbBySubId hfind
  exact h.modify (hid ▸ hne) hf

theorem handleEvAppSubscribeResponse (h : s.Held none) {o : Response} :
    (s.handleEvAppSubscribeResponse id o).Held none := by
  rw [Manager.handleEvAppSubscribeResponse]
  cases hfind : s.findScbBySubId id with
  | none => exact h
  | some i =>
    exact h.modify_found hfind (keeps_respond (c := fun scb => scb.lastRecvRequestCseq) fun _ => keeps_answered)

theorem handleEvAppNotify (h : s.Held e) {r : Notify.Request} : (s.handleEvAppNotify env r).Held e := by
  rw [Manager.handleEvAppNotify]
  cases hfind : s.findScbBySubId (some r.subId) with
  | none => exact h
  | some i => exact h.modify_found hfind keeps_appNotify

theorem handleEvAppNotifyResponse (h : s.Held none) {cseq : ℕ} {o : Response} :
    (s.handleEvAppNotifyResponse id cseq o).Held none := by
  rw [Manager.handleEvAppNotifyResponse]
  cases hfind : s.findScbBySubId id with
  | none => exact h
  | some i =>
    exact h.modify_found hfind
      (keeps_respond (c := fun scb => if cseq = 0 then scb.lastRecvRequestCseq else cseq)
        fun _ => keeps_notifyAnswered)

theorem handleEvAppSubscriptionTerminated (h : s.Held none) {m : SubsTerm} :
    (s.handleEvAppSubscriptionTerminated m).Held none := by
  rw [Manager.handleEvAppSubscriptionTerminated]
  cases hfind : s.findSubscription m.subId m.requestId m.eventPackage with
  | none => exact h
  | some i =>
    simp only
    split_ifs with hidle himmediate
    · exact h
    · rw [not_or, Bool.not_eq_false] at hidle
      exact h.freeScb (.inr hidle.1)
    · rw [not_or, Bool.not_eq_false] at hidle
      exact h.modify_live hidle.1 keeps_terminated

theorem handlePendingRequests (h : s.Held e) : (s.handlePendingRequests env i).Held e := by
  rw [Manager.handlePendingRequests]
  cases hpending : (s.scbs i).pendingRequests with
  | nil => exact h
  | cons r rs =>
    have hid : (s.scbs i).subId ≠ none := by
      intro hnone
      rw [h.fresh i hnone] at hpending
      exact (nomatch hpending)
    exact (h.modify hid (.of_eq rfl rfl)).handleEvAppNotify

/-! ## Requests of the network -/

theorem live_of_subId (h : s.Held none) (hframes : s.frames = []) (hid : (s.scbs i).subId ≠ none) : s.live i := by
  by_contra hidle
  obtain ⟨f, hf, -⟩ := (h.taken i hid (Bool.not_eq_true _ ▸ hidle)).resolve_left nofun
  rw [hframes] at hf
  exact absurd hf List.not_mem_nil

theorem takesFree (h : s.Held none) (hframes : s.frames = []) : s.TakesFree := by
  intro i hidle
  by_contra hid
  have hlive := live_iff.mp (h.live_of_subId hframes hid)
  exact hlive (of_decide_eq_true (Pool.of_first hidle))

theorem storeVia (h : s.Held e) (hid : (s.scbs i).subId ≠ none) {via : Bool} {cseq : ℕ} :
    (s.storeVia i via cseq).Held e ∧ (s.storeVia i via cseq).frames = s.frames ∧
      ((s.storeVia i via cseq).scbs i).subId ≠ none := by
  cases via with
  | true =>
    have hstore : Keeps (·.storeIncomingTrxn cseq) (s.scbs i) := .of_eq rfl rfl
    refine ⟨h.modify hid hstore, rfl, ?_⟩
    rw [Manager.storeVia, if_pos rfl, scbs_modify_self, hstore.subId]
    exact hid
  | false => exact ⟨h, rfl, hid⟩

theorem receive_again (h : s.Held none) (hframes : s.frames = []) {m : SipSubscribe} (hid : (s.scbs i).subId ≠ none) :
    (s.receive m i true).Held none := by
  have hcseq := h.modify hid (f := fun scb => { scb with lastRecvRequestCseq := m.cseq }) (.of_eq rfl rfl)
  obtain ⟨hstored, hnil, -⟩ := hcseq.storeVia (i := i) (by rwa [scbs_modify_self])
  simp only [Manager.receive]
  by_cases hrefer : m.method = .refer ∧ m.referTo = false
  · rw [if_pos hrefer]
    exact hcseq
  by_cases hvia : m.via = true ∧ m.viaMemory = false
  · rw [if_neg hrefer, if_pos hvia]
    exact hcseq
  · rw [if_neg hrefer, if_neg hvia]
    cases m.bodies with
    | passed => exact hstored.push (.inl (hnil.trans hframes)) fun _ hnone => (nomatch hnone)
    | noMemory | answered | bad => exact hstored

theorem receive_new (h : s.Held (some i)) (hframes : s.frames = []) {m : SipSubscribe}
    (hid : (s.scbs i).subId ≠ none) (hpass : Passes m) : (s.receive m i false).Held none := by
  obtain ⟨-, hrefer, hvia, hbodies⟩ := hpass
  have hcseq := h.modify hid (f := fun scb => { scb with lastRecvRequestCseq := m.cseq }) (.of_eq rfl rfl)
  simp only [Manager.receive]
  rw [if_neg fun hbad => by simp [hrefer hbad.1] at hbad, if_neg fun hbad => by simp [hvia hbad.1] at hbad, hbodies]
  obtain ⟨hstored, hnil, -⟩ := hcseq.storeVia (i := i) (by rwa [scbs_modify_self])
  exact hstored.push (.inl (hnil.trans hframes)) fun j hj => (Option.some.inj hj).symm

/-- `subsmanager_handle_ev_sip_subscribe` -/
theorem handleEvSipSubscribe (h : s.Held none) (hframes : s.frames = []) {m : SipSubscribe}
    (hord : s.Opens m → Passes m) : (s.handleEvSipSubscribe m).Held none := by
  rw [Manager.handleEvSipSubscribe]
  cases hevent : m.eventPackage with
  | none => exact h
  | some event =>
    by_cases hcheck : s.subsManagerRunning = false ∨ m.wellFormed = false ∨ m.callID = []
    · simp only [if_pos hcheck]
      exact h
    have hopen := hcheck
    rw [not_or, not_or, Bool.not_eq_false, Bool.not_eq_false] at hopen
    simp only [if_neg hcheck]
    cases hagain : s.findReSubscribed m event with
    | some i =>
      -- an SCB with a Call-ID is one that was taken
      have hid : (s.scbs i).subId ≠ none := by
        intro hnone
        rw [findReSubscribed, Option.filter_eq_some_iff] at hagain
        have hcase := Pool.of_first hagain.1
        rw [h.fresh i hnone, CStr.strcaseEq, beq_iff_eq, List.map_nil, eq_comm, List.map_eq_nil_iff] at hcase
        exact hopen.2.2 hcase
      simp only
      split_ifs
      · exact h
      · exact h.receive_again hframes hid
    | none =>
      cases hreg : s.findRegistration m event with
      | none => exact h
      | some reg =>
        simp only [Manager.handleNewSubscribe]
        cases hidle : s.firstIdle with
        | none => exact h
        | some i =>
          have hpass := hord ⟨event, reg, hevent, hopen.1, hopen.2.1, hopen.2.2, hagain, hreg, by simp [hidle]⟩
          obtain ⟨hfill, hid⟩ := h.fill (h.takesFree hframes i hidle) (f := (·.populate (s.scbs reg) m))
            (fun _ => rfl) fun _ hne => hne
          simp only [if_pos hpass.1]
          exact hfill.receive_new hframes hid hpass

/-- `subsmanager_handle_ev_sip_subscribe_notify` -/
theorem handleEvSipSubscribeNotify (h : s.Held none) (hframes : s.frames = []) {m : SipNotify} :
    (s.handleEvSipSubscribeNotify m).Held none := by
  rw [Manager.handleEvSipSubscribeNotify]
  by_cases hcheck : m.wellFormed = false ∨ m.eventPackage = none ∨ m.callID = []
  · rw [if_pos hcheck]
    exact h
  rw [if_neg hcheck]
  rw [not_or, not_or] at hcheck
  cases hfind : s.findScbBySubscription m.callID with
  | none => exact h
  | some i =>
    have hid : (s.scbs i).subId ≠ none := by
      intro hnone
      have hcase := Pool.of_first hfind
      rw [h.fresh i hnone, CStr.strcaseEq, beq_iff_eq, List.map_nil, eq_comm, List.map_eq_nil_iff] at hcase
      exact hcheck.2.2 hcase
    have hcseq := h.modify hid
      (f := fun scb => { scb with lastRecvRequestCseq := max scb.lastRecvRequestCseq m.cseq }) (.of_eq rfl rfl)
    obtain ⟨hstored, hnil, hid'⟩ := hcseq.storeVia (i := i) (by rwa [scbs_modify_self])
    simp only
    by_cases hstate : (s.scbs i).pendingClean = true ∨ m.subsState = false ∨ m.cseqParsed = false
    · rw [if_pos hstate]
      exact h
    by_cases hvia : m.via = true ∧ m.viaMemory = false
    · rw [if_neg hstate, if_pos hvia]
      exact hcseq
    rw [if_neg hstate, if_neg hvia]
    split_ifs
    · exact (hstored.modify hid' keeps_notified).push (.inl (hnil.trans hframes)) fun _ hnone => (nomatch hnone)
    · exact hstored.modify hid' keeps_notified

theorem flush (h : s.Held none) (hlive : s.live i) : (s.flush env i).Held none := by
  rw [Manager.flush]
  split_ifs
  · refine (h.modify_live hlive (f := fun scb => { scb with
      pendingCount := scb.pendingCount + Notify.tmrPeriodicSubnotInterval
      smState := .active }) (.of_ne rfl ?_)).handlePendingRequests
    simp
  · exact h.freeScb (.inr hlive)

theorem conclude (h : s.Held none) (hframes : s.frames = []) (hlive : s.live i) {responseCode : ℕ} :
    (s.conclude i responseCode).Held none := by
  have hrelease := h.modify_live hlive (keeps_release responseCode)
  have hid : ((s.modify i (·.on fun n => (n.release responseCode).1)).scbs i).subId ≠ none := by
    rw [scbs_modify_self, (keeps_release responseCode).subId]
    exact h.subId_of_live hlive
  simp only [Manager.conclude]
  split_ifs
  · exact hrelease.modify hid keeps_result
  · exact (hrelease.modify hid keeps_responded).push (.inl hframes) fun _ hnone => (nomatch hnone)
  · exact hrelease

theorem handleEvSipResponse (h : s.Held none) (hframes : s.frames = []) {m : SipResponse} :
    (s.handleEvSipResponse env m).Held none := by
  rw [Manager.handleEvSipResponse]
  cases hfind : s.findReqScb m.callID m.method m.cseq with
  | none => exact h
  | some i =>
    have hlive : s.live i := Pool.live_of_firstLive hfind
    have hflag := h.modify_live hlive (f := fun scb => { scb with retxFlag := false }) (.of_eq rfl rfl)
    have hlive' : (s.modify i fun scb => { scb with retxFlag := false }).live i := by
      rw [live_iff, scbs_modify_self]
      exact live_iff.mp hlive
    simp only
    split_ifs
    · exact hflag
    · exact hflag.modify_live hlive' keeps_resend
    · exact hflag.flush hlive'
    · exact hflag.conclude hframes hlive'

/-! ## Timers and the end -/

theorem handleRetryTimerExpire (h : s.Held none) (hframes : s.frames = []) {config : Publish.Config} :
    (s.handleRetryTimerExpire config i).Held none := by
  rw [Manager.handleRetryTimerExpire]
  by_cases hflag : (s.scbs i).retxFlag = false
  · rw [if_pos hflag]
    exact h
  have hid : (s.scbs i).subId ≠ none := by
    intro hnone
    rw [h.fresh i hnone] at hflag
    exact hflag rfl
  rw [if_neg hflag]
  split_ifs
  · exact h.modify hid (.of_eq rfl rfl)
  · refine (h.modify hid ⟨rfl, fun hne => ?_⟩).push (.inl hframes) fun _ hnone => (nomatch hnone)
    simp only [Scb.on]
    split_ifs
    · exact hne
    · decide

theorem findScbBySubId_self (h : s.Held e) (hid : (s.scbs i).subId ≠ none) :
    s.findScbBySubId (s.scbs i).subId = some i := by
  obtain ⟨id, hsome⟩ := Option.ne_none_iff_exists'.mp hid
  have hindex := h.index i id hsome
  have hlt : getScbIndexFromSubId id < maxScbs := hindex ▸ i.isLt
  have hi : (⟨getScbIndexFromSubId id, hlt⟩ : ScbIndex) = i := Fin.ext hindex
  rw [hsome]
  simp only [findScbBySubId, dif_pos hlt, hi, hsome, if_true]

theorem renew (h : s.Held none) (hid : (s.scbs i).subId ≠ none) (env : Env) :
    (s.handleEvAppSubscribe env { subId := (s.scbs i).subId }).Held none ∧
      (s.handleEvAppSubscribe env { subId := (s.scbs i).subId }).frames = s.frames := by
  have hfind : s.findSubscription (s.scbs i).subId 0 .none = some i := by
    obtain ⟨id, hsome⟩ := Option.ne_none_iff_exists'.mp hid
    rw [← h.findScbBySubId_self hid, hsome, findSubscription]
  refine ⟨h.handleEvAppSubscribe fun _ => ⟨fun j hj => ?_, fun hnone => ?_⟩, ?_⟩
  · obtain rfl := Option.some.inj (hfind.symm.trans hj)
    exact hid
  · exact (nomatch hfind.symm.trans hnone)
  · simp only [Manager.handleEvAppSubscribe, hfind, Manager.sendSubscribe, if_true]
    split_ifs <;> rfl

variable {is : List ScbIndex}

/-- `subsmanager_handle_periodic_timer_expire` -/
theorem handlePeriodic {ticks : ScbIndex → Tick} (h : s.Held none) (hframes : s.frames = []) :
    (handlePeriodic ticks is s).Held none := by
  induction is generalizing s with
  | nil => exact h
  | cons i is ih =>
    have hnone : ∀ i, (none : Option ScbIndex) = some i → (Frame.periodic is).covers i := fun _ hi => (nomatch hi)
    have hpush : (s.push (.periodic is)).Held none := h.push (.inl hframes) hnone
    rw [Manager.handlePeriodic]
    by_cases hclean : (s.scbs i).pendingClean = true
    · have hid : (s.scbs i).subId ≠ none := by
        intro hid
        rw [h.fresh i hid] at hclean
        exact (nomatch hclean)
      simp only [if_pos hclean]
      split_ifs
      · exact ih (h.modify hid (.of_eq rfl rfl)) hframes
      · exact ih (h.freeScb (.inr (h.live_of_subId hframes hid))) hframes
    simp only [if_neg hclean]
    by_cases hskip : (s.scbs i).smState = .registered ∨ (s.scbs i).smState = .idle ∨ (ticks i).due = false
    · rw [if_pos hskip]
      exact ih h hframes
    rw [if_neg hskip]
    rw [not_or, not_or] at hskip
    have hid : (s.scbs i).subId ≠ none := h.subId_of_live (live_iff.mpr hskip.2.1)
    split_ifs
    · -- the re-SUBSCRIBE was not sent: the loop goes on when the application returns
      exact (hpush.renew (i := i) hid _).1
    · obtain ⟨hrenew, hnil⟩ := h.renew hid (ticks i).env
      exact ih hrenew (hnil.trans hframes)
    · exact hpush
    · exact ih h hframes

theorem regFailure (h : s.Held none) (hframes : s.frames = []) : (s.regFailure is).Held none := by
  induction is with
  | nil => exact h
  | cons i is ih =>
    rw [Manager.regFailure]
    split_ifs
    · exact ih
    · exact h.push (.inl hframes) fun _ hnone => (nomatch hnone)

theorem shut (h : s.Held none) (hframes : s.frames = []) : (s.shut is).Held none := by
  induction is with
  | nil => exact ⟨h.counted, h.fresh, h.index, h.taken, h.nested⟩
  | cons i is ih =>
    rw [Manager.shut]
    split_ifs
    · exact ih
    · exact h.push (.inl hframes) fun _ hnone => (nomatch hnone)

theorem init (h : s.Held none) (hframes : s.frames = []) : s.init.Held none := by
  rw [Manager.init]
  split_ifs
  · exact h
  · refine ⟨?_, fun _ _ => rfl, fun _ _ hid => (nomatch hid), fun _ hid => absurd rfl hid, ?_⟩
    · exact (Pool.count_eq_zero fun _ => rfl).symm
    · rw [hframes]
      exact fun _ hf => absurd hf List.not_mem_nil

theorem updateCcbAddr {ccb : ℕ} {cseq : UInt32} {num : ℕ} (h : s.Held none) :
    (updateCcbAddr ccb cseq is num s).Held none := by
  induction is generalizing s num with
  | nil => exact h
  | cons i is ih =>
    rw [Manager.updateCcbAddr]
    split_ifs with hnum hlive hccb
    · exact h
    · exact ih (h.modify_live hlive (.of_eq rfl rfl))
    · exact ih h
    · exact ih h

/-! ## Runs -/

theorem callbackReturns (h : s.Held none) {f : Frame} {frames : List Frame} (hframes : s.frames = f :: frames)
    (hord : s.Resumes f) {ticks : ScbIndex → Tick} : (({ s with frames } : Manager).resume ticks f).Held none := by
  obtain ⟨hcovered, hother⟩ := h.pop hframes
  have hnil : ¬f.IsFailure → ({ s with frames } : Manager).frames = [] := h.frames_eq_nil hframes
  cases f with
  | subscribeFailed i => exact (hcovered i rfl).freeScb_taken hord
  | subscribeInd i =>
    refine ((hcovered i rfl).modify hord keeps_subscribed).settle ?_
    rw [live_iff, scbs_modify_self]
    exact smState_subscribed
  | notifyInd i =>
    exact (hother fun _ hc => hc).modify hord
      (f := fun scb => { scb with outstandingIncomingNotifyTrxns := scb.outstandingIncomingNotifyTrxns + 1 })
      (.of_eq rfl rfl)
  | result i => exact (hother fun _ hc => hc).handlePendingRequests
  | shut i is =>
    have hbase := hother fun _ hc => hc
    refine (hbase.freeScb ?_).shut (hnil id)
    by_cases hid : (s.scbs i).subId = none
    · exact .inl hid
    · exact .inr (hbase.live_of_subId (hnil id) hid)
  | regFailure i is =>
    have hbase := hother fun _ hc => hc
    refine (hbase.freeScb ?_).regFailure (hnil id)
    by_cases hid : (s.scbs i).subId = none
    · exact .inl hid
    · exact .inr (hbase.live_of_subId (hnil id) hid)
  | periodic is => exact (hother fun _ hc => hc).handlePeriodic (hnil id)

theorem handle (h : s.Held none) {ev : Event} (hadmits : s.Admits ev) (hord : s.Orderly ev) :
    (s.handle ev).Held none := by
  -- what an application cannot ask for comes between events only
  have hframes : ev.isApp = false → (∀ ticks, ev ≠ .callbackReturns ticks) → s.frames = [] := by
    intro happ hreturn
    cases ev with
    | callbackReturns ticks => exact absurd rfl (hreturn ticks)
    | _ => exact hadmits.resolve_right fun htrue => (nomatch happ.symm.trans htrue)
  cases ev with
  | init => exact h.init (hframes rfl nofun)
  | shut =>
    simp only [Manager.handle]
    split_ifs
    · exact h.shut (hframes rfl nofun)
    · exact h
  | regFailure =>
    simp only [Manager.handle]
    split_ifs
    · exact h.regFailure (hframes rfl nofun)
    · exact h
  | appSubscribeRegister m => exact h.handleEvAppSubscribeRegister hord
  | appSubscribe env m => exact h.handleEvAppSubscribe hord
  | appSubscribeResponse id o => exact h.handleEvAppSubscribeResponse
  | appNotify env r => exact h.handleEvAppNotify
  | appNotifyResponse id cseq o => exact h.handleEvAppNotifyResponse
  | appSubscriptionTerminated m => exact h.handleEvAppSubscriptionTerminated
  | sipSubscribe m => exact h.handleEvSipSubscribe (hframes rfl nofun) hord
  | sipSubscribeNotify m => exact h.handleEvSipSubscribeNotify (hframes rfl nofun)
  | sipResponse env m => exact h.handleEvSipResponse (hframes rfl nofun)
  | retryTimer config i => exact h.handleRetryTimerExpire (hframes rfl nofun)
  | periodicTimer ticks => exact h.handlePeriodic (hframes rfl nofun)
  | ccbRemoved ccb cseq => exact h.updateCcbAddr
  | callbackReturns ticks =>
    cases hcase : s.frames with
    | nil => exact absurd hcase hadmits
    | cons f frames =>
      simp only [Manager.handle, hcase]
      exact h.callbackReturns hcase (hord f (by rw [hcase]; rfl))

end Held

end Manager

open Manager

theorem Run.held {s : Manager} (hrun : Run Orderly s) : s.Held none := by
  induction hrun with
  | start =>
    refine ⟨?_, fun _ _ => rfl, fun _ _ hid => (nomatch hid), fun _ hid => absurd rfl hid, ?_⟩
    · exact (Pool.count_eq_zero fun _ => rfl).symm
    · exact fun _ hf => absurd hf List.not_mem_nil
  | step s ev _ hadmits hord ih => exact ih.handle hadmits hord

/-- **The subscriptions are accounted for** between the events of every run that the handlers can keep the account
in: the SUBSCRIBE of a new subscription is sent, or the subscription is put to use before the application is told
that it was not; an incoming one passes every check after its SCB was taken; an SCB that is given back inside a
callback is not written to behind it; no SCB is taken twice; and what a request id finds was taken. -/
theorem accounted : ∀ s, Run Orderly s → s.frames = [] → s.Accounted :=
  fun _ hrun hframes => hrun.held.accounted_of_frames hframes

/-- An application subscribes to the presence of someone. -/
def presenceSubscribed : Manager :=
  Manager.start.handle (.appSubscribe {} { requestId := 1, eventPackage := .presence, subsResultCallback := true })

theorem accounted_presenceSubscribed : presenceSubscribed.Accounted := by
  have hnew : Manager.start.findSubscription none 1 .presence = none := by decide +kernel
  refine accounted _ (.step _ _ .start (.inl rfl) fun _ => ⟨fun i hi => ?_, fun _ _ i _ => rfl⟩) (by decide +kernel)
  exact (nomatch hnew.symm.trans hi)

/-- The SUBSCRIBE of a new subscription is not sent, and the application is told. -/
def subscribeLost : Manager :=
  (Manager.start.handle (.appSubscribe { outcome := .refused }
    { requestId := 1, eventPackage := .presence, subsResultCallback := true })).handle (.callbackReturns fun _ => {})

/-- One SCB is counted and none is in use: `free_scb` does not count down for an idle one. -/
theorem not_accounted : ¬∀ s, Run (fun _ _ => True) s → s.frames = [] → s.Accounted := by
  intro h
  have hrun : Run (fun _ _ => True) subscribeLost :=
    .step _ _ (.step _ _ .start (.inl rfl) trivial) (by rw [Admits]; decide +kernel) trivial
  have hcounted := (h subscribeLost hrun (by decide +kernel)).counted
  exact absurd hcounted (by decide +kernel)

end Sip.SubsManager
