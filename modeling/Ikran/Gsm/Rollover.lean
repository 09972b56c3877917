import Ikran.Gsm.Lines
import Ikran.Lib.CString
import Ikran.Lib.Pool

/-!
# Rollover between lines

The functions of `lsm.c` that look for a line with room for one more call. The lines behind a given line are
searched first, then those from the first line up to the given one.
-/

namespace Gsm

/-- The settings of the lines that a search reads. -/
structure LineSetup where
  /-- Whether the feature of a line (`CFGID_LINE_FEATURE`) is `cfgLineFeatureDN`. -/
  isDn : ℕ → Bool
  /-- `CFGID_LINE_NAME`. -/
  name : ℕ → CStr

abbrev noLinesAvailable : ℕ := 0

def noRollover : ℤ := 0

def rolloverAcrossSameDn : ℤ := 1

def rolloverNextAvailableLine : ℤ := 2

namespace LineSetup

variable (setup : LineSetup) (lines : Lines)

/-- The limit of a line is reached (`limit_reached`). -/
def limitReached (incoming : Bool) (i : ℕ) : Bool :=
  if incoming then (lines i).btReached else (lines i).mncReached

/-- The body of the loops: a line is returned. -/
def takes (line : ℕ) (sameDn incoming : Bool) (i : ℕ) : Bool :=
  if setup.isDn i = false then false
  else if limitReached lines incoming i = false then
    if sameDn then CStr.strcaseEq (setup.name i) (setup.name line) else true
  else false

def lsmFindNextAvailableLine (line : ℕ) (sameDn incoming : Bool) : ℕ :=
  match Pool.firstFrom (setup.takes lines line sameDn incoming) (maxRegLines - line) (line + 1) with
  | some i => i
  | none => (Pool.firstFrom (setup.takes lines line sameDn incoming) line 1).getD noLinesAvailable

/-- `lsm_get_newcall_line`, with the value of `CFGID_ROLLOVER`. -/
def lsmGetNewcallLine (rollover : ℤ) (line : ℕ) : ℕ :=
  if (lines line).mncReached = false then line
  else if rollover = noRollover then noLinesAvailable
  else if rollover = rolloverAcrossSameDn then setup.lsmFindNextAvailableLine lines line true false
  else if rollover = rolloverNextAvailableLine then
    let foundLine := setup.lsmFindNextAvailableLine lines line true false
    if foundLine = noLinesAvailable then setup.lsmFindNextAvailableLine lines line false false
    else foundLine
  else noLinesAvailable

end LineSetup

/-! ## The search -/

/-- The steps from a line to another one, up to the last line and on from the first one. -/
def stepsTo (line i : ℕ) : ℕ :=
  if line < i then i - line else maxRegLines + i - line

/-- The first line with a property behind a line, or no line when no line has it. -/
def IsNext (property : ℕ → Prop) (line found : ℕ) : Prop :=
  found = noLinesAvailable ∧ (∀ i, ¬ property i) ∨
    property found ∧ ∀ i, property i → stepsTo line found ≤ stepsTo line i

namespace LineSetup

variable (setup : LineSetup) (lines : Lines)

/-- A line that can be taken. -/
structure Admissible (line : ℕ) (sameDn incoming : Bool) (i : ℕ) : Prop where
  valid : Lines.Valid i
  dn : setup.isDn i = true
  room : limitReached lines incoming i = false
  name : sameDn = true → CStr.strcaseEq (setup.name i) (setup.name line) = true

variable {setup lines} {line : ℕ} {sameDn incoming : Bool} {i : ℕ}

theorem takes_iff : setup.takes lines line sameDn incoming i = true ↔ setup.isDn i = true ∧
    limitReached lines incoming i = false ∧
      (sameDn = true → CStr.strcaseEq (setup.name i) (setup.name line) = true) := by
  rw [takes]
  cases setup.isDn i <;> cases limitReached lines incoming i <;> cases sameDn <;> simp

theorem not_admissible (h : setup.takes lines line sameDn incoming i = false) :
    ¬ setup.Admissible lines line sameDn incoming i := fun hi =>
  absurd (takes_iff.mpr ⟨hi.dn, hi.room, hi.name⟩) (h ▸ Bool.false_ne_true)

theorem lsmFindNextAvailableLine_spec (hline : Lines.Valid line) :
    IsNext (setup.Admissible lines line sameDn incoming) line
      (setup.lsmFindNextAvailableLine lines line sameDn incoming) := by
  obtain ⟨hpos, hmax⟩ := hline
  have hadm {i : ℕ} (hi : Lines.Valid i) (h : setup.takes lines line sameDn incoming i = true) :
      setup.Admissible lines line sameDn incoming i :=
    ⟨hi, (takes_iff.mp h).1, (takes_iff.mp h).2.1, (takes_iff.mp h).2.2⟩
  rw [lsmFindNextAvailableLine]
  obtain ⟨found, hup, hle, hlt, htakes, hbefore⟩ | ⟨hup, hnone⟩ :=
    Pool.firstFrom_spec (setup.takes lines line sameDn incoming) (maxRegLines - line) (line + 1)
  · rw [hup]
    refine Or.inr ⟨hadm (i := found) ⟨by omega, by omega⟩ htakes, fun i hi => ?_⟩
    by_contra hnear
    have hvalid := hi.valid
    simp only [Lines.Valid] at hvalid
    simp only [stepsTo, if_pos (show line < found from hle)] at hnear
    -- a line that is nearer is behind the line and in front of the one that is found
    exact not_admissible (hbefore i (by split_ifs at hnear <;> omega) (by split_ifs at hnear <;> omega)) hi
  · rw [hup]
    have hle {i : ℕ} (hi : setup.Admissible lines line sameDn incoming i) : i ≤ line := by
      by_contra hlt
      have hvalid := hi.valid.2
      exact not_admissible (hnone i (by omega) (by omega)) hi
    obtain ⟨found, hdown, hpos, hlt, htakes, hbefore⟩ | ⟨hdown, hnone⟩ :=
      Pool.firstFrom_spec (setup.takes lines line sameDn incoming) line 1
    · rw [hdown]
      refine Or.inr ⟨hadm (i := found) ⟨hpos, by omega⟩ htakes, fun i hi => ?_⟩
      by_contra hnear
      simp only [Option.getD_some, stepsTo, if_neg (show ¬ line < found by omega), if_neg (hle hi).not_gt] at hnear
      exact not_admissible (hbefore i hi.valid.1 (by omega)) hi
    · rw [hdown]
      refine Or.inl ⟨rfl, fun i hi => ?_⟩
      have hi' := hle hi
      exact not_admissible (hnone i hi.valid.1 (by omega)) hi

theorem IsNext.room {found : ℕ} (h : IsNext (setup.Admissible lines line sameDn incoming) line found)
    (hfound : found ≠ noLinesAvailable) : limitReached lines incoming found = false := by
  rcases h with ⟨hno, -⟩ | ⟨hadm, -⟩
  · exact absurd hno hfound
  · exact hadm.room

theorem IsNext.none {found : ℕ} (h : IsNext (setup.Admissible lines line sameDn incoming) line found) :
    found = noLinesAvailable ↔ ∀ i, ¬ setup.Admissible lines line sameDn incoming i := by
  rcases h with ⟨hno, hnone⟩ | ⟨hadm, -⟩
  · exact iff_of_true hno hnone
  · refine iff_of_false (fun hno => ?_) fun hnone => hnone _ hadm
    exact absurd (hno ▸ hadm.valid.1) (by decide)

/-- What the choice of a line for a new call is asked to be. -/
structure NewcallRight (setup : LineSetup) (lines : Lines) (rollover : ℤ) (line found : ℕ) : Prop where
  room : found ≠ noLinesAvailable → (lines found).mncReached = false
  itself : (lines line).mncReached = false → found = line
  sameName : (lines line).mncReached = true →
    rollover = rolloverAcrossSameDn ∨ rollover = rolloverNextAvailableLine →
      (∃ i, setup.Admissible lines line true false i) →
        IsNext (setup.Admissible lines line true false) line found
  none : found = noLinesAvailable → (lines line).mncReached = true ∧
    (rollover = rolloverAcrossSameDn → ∀ i, ¬ setup.Admissible lines line true false i) ∧
      (rollover = rolloverNextAvailableLine → ∀ i, ¬ setup.Admissible lines line false false i)

theorem lsmGetNewcallLine_spec (hline : Lines.Valid line) (rollover : ℤ) :
    setup.NewcallRight lines rollover line (setup.lsmGetNewcallLine lines rollover line) := by
  have hsame := @lsmFindNextAvailableLine_spec setup lines line true false hline
  have hany := @lsmFindNextAvailableLine_spec setup lines line false false hline
  have hpos : line ≠ noLinesAvailable := Nat.one_le_iff_ne_zero.mp hline.1
  have hzero : ∀ {x : ℤ}, x = rolloverAcrossSameDn ∨ x = rolloverNextAvailableLine → x ≠ noRollover := by
    rintro x (rfl | rfl) <;> decide
  rw [lsmGetNewcallLine]
  by_cases hfull : (lines line).mncReached = false
  · rw [if_pos hfull]
    exact ⟨fun _ => hfull, fun _ => rfl, fun h => absurd (h.symm.trans hfull) (by decide),
      fun h => absurd h hpos⟩
  · rw [if_neg hfull]
    have hfull' : (lines line).mncReached = true := eq_true_of_ne_false hfull
    dsimp only
    split_ifs with hno hdn hnext hnone
    · exact ⟨fun h => absurd rfl h, fun h => absurd h hfull, fun _ h => absurd hno (hzero h),
        fun _ => ⟨hfull', fun h => absurd hno (hzero (Or.inl h)), fun h => absurd hno (hzero (Or.inr h))⟩⟩
    · exact ⟨IsNext.room hsame, fun h => absurd h hfull, fun _ _ _ => hsame,
        fun h => ⟨hfull', fun _ => (IsNext.none hsame).mp h, fun h' => absurd (hdn.symm.trans h') (by decide)⟩⟩
    · refine ⟨IsNext.room hany, fun h => absurd h hfull, fun _ _ ⟨i, hi⟩ => ?_,
        fun h => ⟨hfull', fun h' => absurd h' hdn, fun _ => (IsNext.none hany).mp h⟩⟩
      exact absurd hi ((IsNext.none hsame).mp hnone i)
    · exact ⟨IsNext.room hsame, fun h => absurd h hfull, fun _ _ _ => hsame, fun h => absurd h hnone⟩
    · exact ⟨fun h => absurd rfl h, fun h => absurd h hfull, fun _ h => absurd h (not_or.mpr ⟨hdn, hnext⟩),
        fun _ => ⟨hfull', fun h => absurd h hdn, fun h => absurd h hnext⟩⟩

/-- **Rollover is a complete circular search.** The search finds the first line in circular order that can be
taken, and the line for a new call is the line itself, or the first one that the setting admits. -/
theorem rollover_complete (setup : LineSetup) (lines : Lines) {line : ℕ} (hline : Lines.Valid line) :
    (∀ sameDn incoming, IsNext (setup.Admissible lines line sameDn incoming) line
      (setup.lsmFindNextAvailableLine lines line sameDn incoming)) ∧
    ∀ rollover, setup.NewcallRight lines rollover line (setup.lsmGetNewcallLine lines rollover line) :=
  ⟨fun _ _ => lsmFindNextAvailableLine_spec hline, lsmGetNewcallLine_spec hline⟩

/-- Of eight lines with one name, all full but the second one, the second one is found behind the seventh. -/
theorem rollover_complete_seven :
    let lines : Lines := fun i => { mncReached := i ≠ 2 }
    IsNext (LineSetup.Admissible ⟨fun _ => true, fun _ => "line"⟩ lines 7 true false) 7 2 :=
  (rollover_complete ⟨fun _ => true, fun _ => "line"⟩ (fun i => { mncReached := i ≠ 2 })
    (show Lines.Valid 7 by decide)).1 true false

end LineSetup

end Gsm
