import Mathlib.Algebra.Group.Nat.Defs
import Mathlib.Logic.Function.Basic

/-!
# Counters of the lines

The counters of `lsm.c`. Each line counts its calls, and remembers whether they are as many as the line
may have, and as many as make it busy. The two flags are not computed from the count, but changed when
the count comes to a limit.
-/

namespace Gsm

/-- The number of lines, `MAX_REG_LINES`. Lines have numbers from 1 on. -/
abbrev maxRegLines : ℕ := 8

/-- The number of no line, `LSM_NO_LINE`. -/
abbrev lsmNoLine : ℕ := 0

structure LineConfig where
  /-- The number of calls that the line may have (`CFGID_LINE_MAXNUMCALLS`). -/
  maxNumCalls : UInt32
  /-- The number of calls that make the line busy (`CFGID_LINE_BUSY_TRIGGER`). -/
  busyTrigger : UInt32

structure LineCount where
  /-- The number of calls (`lsm_call_perline`). -/
  callPerline : UInt32 := 0
  /-- Whether the line has as many calls as it may have (`lsm_mnc_reached`). -/
  mncReached : Bool := false
  /-- Whether the line is busy (`lsm_bt_reached`). -/
  btReached : Bool := false

namespace LineCount

/-- A call is counted. A flag is set when the count comes to its limit. -/
def increment (config : LineConfig) (l : LineCount) : LineCount :=
  let calls := l.callPerline + 1
  { callPerline := calls
    mncReached := if calls = config.maxNumCalls then true else l.mncReached
    btReached := if calls = config.busyTrigger then true else l.btReached }

/-- A call is not counted any more. One flag is cleared below its limit, the other one when the count comes
below it. -/
def decrement (config : LineConfig) (l : LineCount) : LineCount :=
  let calls := l.callPerline - 1
  { callPerline := calls
    mncReached := if calls ≤ config.maxNumCalls - 1 then false else l.mncReached
    btReached := if calls = config.busyTrigger - 1 then false else l.btReached }

/-- The counter and the flags of a line with `n` calls. -/
structure Counts (config : LineConfig) (n : ℕ) (l : LineCount) : Prop where
  count : l.callPerline.toNat = n
  mnc : l.mncReached = true ↔ config.maxNumCalls.toNat ≤ n
  bt : l.btReached = true ↔ config.busyTrigger.toNat ≤ n

variable {config : LineConfig} {n : ℕ} {l : LineCount}

theorem Counts.increment (h : l.Counts config n) (hn : n + 1 < 2 ^ 32) :
    (l.increment config).Counts config (n + 1) := by
  have hcount : (l.callPerline + 1).toNat = n + 1 := by
    rw [UInt32.toNat_add, h.count, UInt32.toNat_one, Nat.mod_eq_of_lt hn]
  -- a flag that is not set now has its limit above the count
  have hflag {limit : UInt32} {flag : Bool} (hflag : flag = true ↔ limit.toNat ≤ n) :
      (if l.callPerline + 1 = limit then true else flag) = true ↔ limit.toNat ≤ n + 1 := by
    by_cases heq : l.callPerline + 1 = limit
    · rw [if_pos heq, ← heq, hcount]
      simp
    · have hne : n + 1 ≠ limit.toNat := fun hne => heq (UInt32.toNat_inj.mp (hcount.trans hne))
      rw [if_neg heq, hflag]
      omega
  exact ⟨hcount, hflag h.mnc, hflag h.bt⟩

theorem Counts.decrement (h : l.Counts config (n + 1)) (hmnc : 0 < config.maxNumCalls)
    (hbt : 0 < config.busyTrigger) : (l.decrement config).Counts config n := by
  have hpred {x : UInt32} {m : ℕ} (hx : x.toNat = m + 1) : (x - 1).toNat = m := by
    have hle : (1 : UInt32) ≤ x := by
      rw [UInt32.le_iff_toNat_le, UInt32.toNat_one]
      omega
    rw [UInt32.toNat_sub_of_le _ _ hle, UInt32.toNat_one]
    omega
  have hcount : (l.callPerline - 1).toNat = n := hpred h.count
  have hlimit {limit : UInt32} (hpos : 0 < limit) : ∃ m, limit.toNat = m + 1 := by
    rw [UInt32.lt_iff_toNat_lt, UInt32.toNat_zero] at hpos
    exact ⟨limit.toNat - 1, by omega⟩
  obtain ⟨mnc, hmnc⟩ := hlimit hmnc
  obtain ⟨bt, hbt⟩ := hlimit hbt
  refine ⟨hcount, ?_, ?_⟩
  · have hle : l.callPerline - 1 ≤ config.maxNumCalls - 1 ↔ n ≤ mnc := by
      rw [UInt32.le_iff_toNat_le, hcount, hpred hmnc]
    have hold := h.mnc
    simp only [LineCount.decrement, hle]
    split <;> simp_all <;> omega
  · have heq : l.callPerline - 1 = config.busyTrigger - 1 ↔ n = bt := by
      rw [← UInt32.toNat_inj, hcount, hpred hbt]
    have hold := h.bt
    simp only [LineCount.decrement, heq]
    split <;> simp_all <;> omega

end LineCount

/-- The counters of the lines, by the number of the line. -/
abbrev Lines := ℕ → LineCount

namespace Lines

variable (config : ℕ → LineConfig) (lines : Lines)

def Valid (line : ℕ) : Prop :=
  1 ≤ line ∧ line ≤ maxRegLines

instance (line : ℕ) : Decidable (Valid line) :=
  inferInstanceAs (Decidable (_ ∧ _))

/-- A call is counted on the line (`lsm_increment_call_chn_cnt`). -/
def increment (line : ℕ) : Lines :=
  if Valid line then Function.update lines line ((lines line).increment (config line)) else lines

/-- A call is not counted on the line any more (`lsm_decrement_call_chn_cnt`). -/
def decrement (line : ℕ) : Lines :=
  if Valid line then Function.update lines line ((lines line).decrement (config line)) else lines

/-- Whether there is room on the line for an incoming call (`lsm_is_line_available`). -/
def isLineAvailable (line : ℕ) : Bool :=
  !(lines line).btReached

theorem callPerline_increment (line l : ℕ) : (lines.increment config line l).callPerline =
      (lines l).callPerline + if Valid line ∧ l = line then 1 else 0 := by
  rw [increment]
  by_cases hline : l = line
  · subst hline
    split <;> simp [LineCount.increment, *]
  · split <;> simp [hline]

theorem callPerline_decrement (line l : ℕ) : (lines.decrement config line l).callPerline =
      (lines l).callPerline - if Valid line ∧ l = line then 1 else 0 := by
  rw [decrement]
  by_cases hline : l = line
  · subst hline
    split <;> simp [LineCount.decrement, *]
  · split <;> simp [hline]

theorem callPerline_decrement_eq_iff (line : ℕ) :
    (∀ l, (lines.decrement config line l).callPerline = (lines l).callPerline) ↔ ¬ Valid line := by
  simp only [callPerline_decrement]
  constructor
  · intro h hvalid
    have hline := h line
    rw [if_pos ⟨hvalid, rfl⟩] at hline
    have hcancel := UInt32.sub_add_cancel (lines line).callPerline 1
    rw [hline] at hcancel
    simp at hcancel
  · intro hvalid l
    rw [if_neg fun hand => hvalid hand.1, UInt32.sub_zero]

theorem callPerline_decrement_increment_eq_iff (line line' : ℕ) :
    (∀ l, ((lines.increment config line).decrement config line' l).callPerline =
        (lines l).callPerline) ↔ line' = line ∨ ¬ Valid line' ∧ ¬ Valid line := by
  simp only [callPerline_decrement, callPerline_increment]
  constructor
  · intro h
    by_contra hnot
    rw [not_or, not_and_or, not_not, not_not] at hnot
    obtain ⟨hne, hvalid | hvalid⟩ := hnot
    · have hline := h line'
      rw [if_neg fun hand => hne hand.2, if_pos ⟨hvalid, rfl⟩, UInt32.add_zero] at hline
      have hcancel := UInt32.sub_add_cancel (lines line').callPerline 1
      rw [hline] at hcancel
      simp at hcancel
    · have hline := h line
      rw [if_pos ⟨hvalid, rfl⟩, if_neg fun hand => hne hand.2.symm, UInt32.sub_zero] at hline
      simp at hline
  · rintro (rfl | ⟨hvalid', hvalid⟩) l
    · exact UInt32.add_sub_cancel _ _
    · rw [if_neg fun hand => hvalid hand.1, if_neg fun hand => hvalid' hand.1, UInt32.sub_zero,
        UInt32.add_zero]

end Lines

end Gsm
