import Mathlib.Order.Interval.Set.Basic

/-!
# Runs of natural numbers

A set of natural numbers with a greatest element is the union of its maximal intervals. A scan that
goes through the numbers in ascending order and keeps the interval it stands in finds them.
-/

namespace Runs

/-- The maximal intervals of `S` in ascending order: none of them is empty, and between two of them
at least one number is missing. -/
structure IsRuns (S : Set ℕ) (rs : List (ℕ × ℕ)) : Prop where
  nonempty : ∀ r ∈ rs, r.1 ≤ r.2
  gaps : rs.Pairwise fun r r' => r.2 + 1 < r'.1
  covers : ∀ i, i ∈ S ↔ ∃ r ∈ rs, i ∈ Set.Icc r.1 r.2

variable {S T : Set ℕ} {rs : List (ℕ × ℕ)} {p : ℕ → Bool} {m k : ℕ}

namespace IsRuns

theorem nil : IsRuns ∅ [] := ⟨nofun, .nil, fun i => by simp⟩

variable {r : ℕ × ℕ}

theorem snd_mem (h : IsRuns S rs) (hr : r ∈ rs) : r.2 ∈ S := (h.covers r.2).mpr ⟨r, hr, h.nonempty r hr, le_rfl⟩

theorem fst_mem (h : IsRuns S rs) (hr : r ∈ rs) : r.1 ∈ S := (h.covers r.1).mpr ⟨r, hr, le_rfl, h.nonempty r hr⟩

theorem cons (h : IsRuns S rs) (hne : r.1 ≤ r.2) (hgap : ∀ i ∈ S, r.2 + 1 < i)
    (hT : ∀ i, i ∈ T ↔ i ∈ Set.Icc r.1 r.2 ∨ i ∈ S) : IsRuns T (r :: rs) where
  nonempty := List.forall_mem_cons.mpr ⟨hne, h.nonempty⟩
  gaps := List.pairwise_cons.mpr ⟨fun r' hr' => hgap _ (h.fst_mem hr'), h.gaps⟩
  covers := fun i => by simp only [hT, h.covers, List.mem_cons, exists_eq_or_imp]

theorem congr (h : IsRuns S rs) (hT : ∀ i, i ∈ T ↔ i ∈ S) : IsRuns T rs :=
  ⟨h.nonempty, h.gaps, fun i => (hT i).trans (h.covers i)⟩

theorem tail (h : IsRuns S (r :: rs)) : IsRuns {i | i ∈ S ∧ r.2 < i} rs where
  nonempty := fun r' hr' => h.nonempty r' (List.mem_cons_of_mem r hr')
  gaps := (List.pairwise_cons.mp h.gaps).2
  covers := fun i => by
    have hgap := (List.pairwise_cons.mp h.gaps).1
    have hi := h.covers i
    simp only [List.mem_cons, exists_eq_or_imp] at hi
    rw [Set.mem_ofPred_eq, hi]
    constructor
    · rintro ⟨hr | hrest, hlt⟩
      · exact absurd hr.2 (Nat.not_le_of_lt hlt)
      · exact hrest
    · rintro ⟨r', hr', hmem⟩
      have hbehind := hgap r' hr'
      have hfirst := hmem.1
      exact ⟨Or.inr ⟨r', hr', hmem⟩, by omega⟩

end IsRuns

/-! ## The scan -/

/-- Go through ascending numbers, in the interval that is still open. An interval ends in front of a
number without the property, and with the number `m`. -/
def scan (p : ℕ → Bool) (m : ℕ) : Option (ℕ × ℕ) → List ℕ → List (ℕ × ℕ)
  | _, [] => []
  | run, i :: is =>
    if p i then
      if i = m then ((run.map Prod.fst).getD i, i) :: scan p m none is
      else scan p m (some ((run.map Prod.fst).getD i, i)) is
    else run.toList ++ scan p m none is

/-- What a scan from `k` on still has to report: the open interval, and the numbers from `k` to `m`
with the property. -/
def pending (p : ℕ → Bool) (m k : ℕ) (run : Option (ℕ × ℕ)) : Set ℕ :=
  {i | (∃ r ∈ run, i ∈ Set.Icc r.1 r.2) ∨ (k ≤ i ∧ i ≤ m ∧ p i)}

/-- An interval that is open in front of `k`: it is not empty and reaches `k`, and `m` is still to
come. -/
def OpenAt (m k : ℕ) (run : Option (ℕ × ℕ)) : Prop :=
  ∀ r ∈ run, r.1 ≤ r.2 ∧ r.2 + 1 = k ∧ k ≤ m

theorem openAt_none : OpenAt m k none := fun _ hr => nomatch hr

variable {run : Option (ℕ × ℕ)}

theorem pending_of_pos (hp : p k = true) (hopen : OpenAt m k run) (hk : k ≤ m) (i : ℕ) : i ∈ pending p m k run ↔
      i ∈ Set.Icc ((run.map Prod.fst).getD k) k ∨ (k + 1 ≤ i ∧ i ≤ m ∧ p i) := by
  cases run with
  | none =>
    simp only [pending, Set.mem_ofPred_eq, Set.mem_Icc, Option.map_none, Option.getD_none]
    constructor
    · rintro (⟨r, hr, -⟩ | ⟨hki, him, hpi⟩)
      · cases hr
      · grind
    · grind
  | some r =>
    obtain ⟨hne, hend, -⟩ := hopen r rfl
    have hmem : ∀ i, i ∈ pending p m k (some r) ↔ i ∈ Set.Icc r.1 r.2 ∨ (k ≤ i ∧ i ≤ m ∧ p i) := by
      intro i
      simp [pending]
    rw [hmem]
    simp only [Set.mem_Icc, Option.map_some, Option.getD_some]
    grind

theorem first_le (hopen : OpenAt m k run) : (run.map Prod.fst).getD k ≤ k := by
  cases run with
  | none => exact le_rfl
  | some r =>
    obtain ⟨hne, hend, -⟩ := hopen r rfl
    change r.1 ≤ k
    omega

theorem isRuns_scan_range' (n : ℕ) (hk : k + n = m + 1) (hopen : OpenAt m k run) :
    IsRuns (pending p m k run) (scan p m run (List.range' k n)) := by
  induction n generalizing k run with
  | zero =>
    -- behind `m` no interval is open
    cases run with
    | none =>
      refine IsRuns.nil.congr fun i => ?_
      simp only [pending, Set.mem_ofPred_eq, Set.mem_empty_iff_false, iff_false]
      rintro (⟨r, hr, -⟩ | ⟨hki, him, -⟩)
      · cases hr
      · omega
    | some r =>
      obtain ⟨-, -, hle⟩ := hopen r rfl
      omega
  | succ n ih =>
    have hclosed := fun hn : k + 1 + n = m + 1 => ih hn (openAt_none : OpenAt m (k + 1) none)
    have hnone : ∀ i, i ∈ pending p m (k + 1) none ↔ (k + 1 ≤ i ∧ i ≤ m ∧ p i) := by
      intro i
      simp [pending]
    rw [List.range'_succ, scan]
    by_cases hp : p k = true
    · have hpending := pending_of_pos hp hopen (by omega)
      rw [if_pos hp]
      by_cases hkm : k = m
      · rw [if_pos hkm]
        refine (hclosed (by omega)).cons (first_le hopen) (fun i hi => ?_) fun i => ?_
        · obtain ⟨hlow, hhigh, -⟩ := (hnone i).mp hi
          omega
        · rw [hpending, hnone]
      · rw [if_neg hkm]
        have hopen' : OpenAt m (k + 1) (some ((run.map Prod.fst).getD k, k)) := by
          rintro r ⟨⟩
          exact ⟨first_le hopen, rfl, by omega⟩
        have hnext := ih (by omega) hopen'
        refine hnext.congr fun i => ?_
        rw [hpending]
        simp [pending]
    · rw [if_neg hp]
      have hskip : ∀ i, (k ≤ i ∧ i ≤ m ∧ p i = true) ↔ (k + 1 ≤ i ∧ i ≤ m ∧ p i = true) := by
        intro i
        grind
      cases run with
      | none =>
        refine (hclosed (by omega)).congr fun i => ?_
        rw [hnone, ← hskip]
        simp [pending]
      | some r =>
        obtain ⟨hne, hend, -⟩ := hopen r rfl
        refine (hclosed (by omega)).cons hne (fun i hi => ?_) fun i => ?_
        · obtain ⟨hlow, -, -⟩ := (hnone i).mp hi
          omega
        · rw [hnone, ← hskip]
          simp [pending]

/-- **The scan finds the maximal intervals of the numbers up to `m` with the property.** -/
theorem isRuns_scan (p : ℕ → Bool) (m : ℕ) : IsRuns {i | i ≤ m ∧ p i = true} (scan p m none (List.range (m + 1))) := by
  rw [List.range_eq_range']
  refine (isRuns_scan_range' (m + 1) (Nat.zero_add _) openAt_none).congr fun i => ?_
  simp [pending]

end Runs
