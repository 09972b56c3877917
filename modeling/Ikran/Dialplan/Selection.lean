import Ikran.Dialplan.Language
import Mathlib.Data.List.MinMax

/-!
# The choice among the templates

Which template the pass of `MatchDialTemplate` ends with, said without the pass, and what that means for
the parts of the answer.
-/

namespace Dialplan

/-- Longer exact matches are better, and among them those with less wildcards. -/
def Matching.rank (m : Matching) : ℕ := 8 * m.thismatchlen.toNat + m.thismatch.toNat

section

variable (pound : Bool) (dialed : CStr)

def DialTemplate.reads (t : DialTemplate) : Bool :=
  (matchTemplate pound t.pattern dialed).thismatch ≠ .noMatch

/-- Its pattern is used up. -/
def DialTemplate.isFull (t : DialTemplate) : Bool := (matchTemplate pound t.pattern dialed).pmatch = []

/-- How many characters it matches exactly. -/
def DialTemplate.matchlen (t : DialTemplate) : ℕ :=
  (matchTemplate pound t.pattern dialed).thismatchlen.toNat

def DialTemplate.matchType (t : DialTemplate) : DialMatchAction :=
  (matchTemplate pound t.pattern dialed).thismatch

/-- How often it skips commas. -/
def DialTemplate.commas (t : DialTemplate) : ℕ :=
  (matchTemplate pound t.pattern dialed).commaCounter

/-- What is left of its pattern starts with a comma. -/
def DialTemplate.asksForTone (t : DialTemplate) : Bool :=
  (matchTemplate pound t.pattern dialed).pmatch.peek = ','

/-- How good it is. -/
def DialTemplate.rank (t : DialTemplate) : ℕ := (matchTemplate pound t.pattern dialed).rank

end

/-- The tone that a template defines for the comma with the given number. -/
def DialTemplate.toneAt (t : DialTemplate) (comma : ℕ) : Tone := t.tones.getD comma defaultTone

section

variable (pound : Bool) (line : UInt16) (dialed : CStr)

/-- The templates of the line that read the dialed string. -/
def readers (plan : List DialTemplate) : List DialTemplate :=
  plan.filter fun t => matchLineNumber t.line line && t.reads pound dialed

/-- The first best of the templates that read the dialed string. -/
def partialBest (plan : List DialTemplate) : Option DialTemplate :=
  (readers pound line dialed plan).argmax (·.rank pound dialed)

/-- The templates from the first best one on that match the dialed string, with as many exact
characters. -/
def candidates (best : DialTemplate) (ts : List DialTemplate) : List DialTemplate :=
  (ts.dropWhile fun t => t.rank pound dialed < best.rank pound dialed).filter fun t =>
    t.isFull pound dialed && t.matchlen pound dialed = best.matchlen pound dialed

/-- The first best of these. -/
def fullBest (plan : List DialTemplate) : Option DialTemplate :=
  (partialBest pound line dialed plan).bind fun best =>
    (candidates pound dialed best (readers pound line dialed plan)).argmax
      fun t => (t.matchType pound dialed).toNat

/-- The template that the pass ends with. -/
def chosen (plan : List DialTemplate) : Option DialTemplate :=
  (fullBest pound line dialed plan).or (partialBest pound line dialed plan)

end

/-! ## One template -/

/-- A template is read to its end, or up to a terminator, by at least no exact character. -/
structure Read (m : Matching) : Prop where
  thismatchlen : 0 ≤ m.thismatchlen
  ended : m.pinput = [] ∨ m.dialnow = true

/-- What is kept of the best template so far agrees. -/
structure Kept (b : Best) : Prop where
  matchlen : b.matchlen = b.partialmatchlen
  result : b.result.toNat ≤ b.partialmatchType.toNat
  start : b.partialmatch = false → b.partialmatchlen = 0 ∧ b.partialmatchType = .noMatch

variable {pound : Bool} {dialed : CStr}

theorem read_of_reads {pattern : CStr} (h : (matchTemplate pound pattern dialed).thismatch ≠ .noMatch) :
    Read (matchTemplate pound pattern dialed) := by
  rcases matchTemplate_spec pound pattern dialed with hmis | ⟨rest, hread⟩
  · exact absurd hmis.thismatch h
  · exact ⟨hread.thismatchlen, hread.ended⟩

theorem thismatchlen_of_not_reads {pattern : CStr} (h : (matchTemplate pound pattern dialed).thismatch = .noMatch) :
    (matchTemplate pound pattern dialed).thismatchlen = -1 := by
  rcases matchTemplate_spec pound pattern dialed with hmis | ⟨rest, hread⟩
  · exact hmis.thismatchlen
  · exact absurd h hread.thismatch

namespace Best

theorem step_of_line {pound : Bool} {line : UInt16} {rewritelen : ℕ} {dialed : CStr} {b : Best}
    {t : DialTemplate} (hline : matchLineNumber t.line line = false) :
    step pound line rewritelen dialed b t = b := by
  simp [step, hline]

theorem adopt_of_mismatch {rewritelen : ℕ} {dialed : CStr} {b : Best} {t : DialTemplate}
    {m : Matching} (hlen : m.thismatchlen = -1) (hty : m.thismatch = .noMatch) :
    ((b.adoptPartial t m).adoptFull rewritelen dialed t m).raiseMatchlen m =
      { b with givedialtone := b.givedialtone || m.pmatch.peek = ',' } := by
  have hfirst : b.betterPartial m = false := by
    simp only [betterPartial, hlen, Bool.or_eq_false_iff, decide_eq_false_iff_not, Bool.and_eq_false_iff]
    omega
  have hfull : b.betterFull m = false := by
    simp only [betterFull, hlen, hty, Bool.or_eq_false_iff, decide_eq_false_iff_not, Bool.and_eq_false_iff]
    refine ⟨⟨by omega, .inl (by omega)⟩, .inl (by decide)⟩
  have hraise : ∀ b' : Best, b'.raiseMatchlen m = b' := by
    intro b'
    unfold raiseMatchlen
    rw [if_neg (by omega)]
  rw [hraise, adoptPartial, hfirst, Bool.and_false]
  simp only [Bool.false_eq_true, if_false, adoptFull, hfull]
  split_ifs with hnil hcomma
  · have hnul : CStr.nul ≠ ',' := by decide
    simp [hnil, hnul]
  · simp [hcomma]
  · simp [hcomma]

/-- How good the best template so far is. -/
def rank (b : Best) : ℕ := 8 * b.partialmatchlen + b.partialmatchType.toNat

/-- A template that reads the dialed string is adopted when it is better than all before, or when it
matches the dialed string as long and better than the one that matches so far. -/
theorem adopt_of_read {rewritelen : ℕ} {dialed : CStr} {b : Best} {t : DialTemplate} {m : Matching}
    (hb : Kept b) (hm : Read m) (hty : m.thismatch ≠ .noMatch) :
    ((b.adoptPartial t m).adoptFull rewritelen dialed t m).raiseMatchlen m =
      if b.rank < m.rank then
        { result := if m.pmatch = [] then m.thismatch else .noMatch
          pbestmatch := some t
          bestmatchDialnow := m.dialnow
          bestCommaCount := m.commaCounter
          partialmatchType := m.thismatch
          partialmatch := true
          matchlen := m.thismatchlen.toNat
          partialmatchlen := m.thismatchlen.toNat
          givedialtone := b.givedialtone || m.pmatch.peek = ','
          rewrite := if m.pmatch = [] then rewriteText rewritelen dialed t m else b.rewrite }
      else if m.pmatch = [] ∧ m.thismatchlen.toNat = b.partialmatchlen ∧
          b.result.toNat < m.thismatch.toNat then
        { b with
          result := m.thismatch
          pbestmatch := some t
          bestmatchDialnow := m.dialnow
          rewrite := rewriteText rewritelen dialed t m }
      else { b with givedialtone := b.givedialtone || m.pmatch.peek = ',' } := by
  obtain ⟨len, hlen⟩ := Int.eq_ofNat_of_zero_le hm.thismatchlen
  have hended : (m.pinput = [] || m.dialnow) = true := by simpa using hm.ended
  have hpos := DialMatchAction.toNat_pos hty
  have hbound : ∀ a : DialMatchAction, a.toNat < 8 := by
    intro a
    cases a <;> decide
  have hmbound := hbound m.thismatch
  have hbbound := hbound b.partialmatchType
  have hraise : ∀ b' : Best, len ≤ b'.matchlen → b'.raiseMatchlen m = b' := by
    intro b' hle
    unfold raiseMatchlen
    rw [if_neg (by omega)]
  have hrank : b.rank < m.rank ↔ b.partialmatchlen < len ∨
      len = b.partialmatchlen ∧ b.partialmatchType.toNat < m.thismatch.toNat := by
    simp only [rank, Matching.rank, hlen, Int.toNat_natCast]
    omega
  have hfirst : b.betterPartial m = decide (b.rank < m.rank) := by
    rw [Bool.eq_iff_iff, decide_eq_true_eq, hrank]
    simp only [betterPartial, hlen, Bool.or_eq_true, Bool.and_eq_true, decide_eq_true_eq]
    omega
  have hnul : CStr.nul ≠ ',' := by decide
  have hmatchlen := hb.matchlen
  rw [adoptPartial, hended, hfirst, Bool.true_and]
  simp only [decide_eq_true_eq]
  by_cases hbetter : b.rank < m.rank
  · have hge : b.partialmatchlen ≤ len := by
      rcases hrank.mp hbetter with hlt | ⟨heq, -⟩ <;> omega
    rw [if_pos hbetter, if_pos hbetter, adoptFull]
    by_cases hnil : m.pmatch = []
    · have hfull : ∀ b' : Best, b'.matchlen = b.matchlen → b'.result = .noMatch → b'.betterFull m = true := by
        intro b' hl hr
        have htype : DialMatchAction.noMatch.toNat < m.thismatch.toNat := hpos
        simp only [betterFull, hl, hr, hlen, Bool.or_eq_true, Bool.and_eq_true, decide_eq_true_eq]
        omega
      rw [if_pos hnil, if_pos (by exact hfull _ rfl rfl), hraise _ (by simp [hlen])]
      simp [hnil, hnul]
    · rw [if_neg hnil]
      have hraise' : ∀ b' : Best, b'.matchlen = b.matchlen → b'.raiseMatchlen m = { b' with matchlen := len } := by
        intro b' hl
        unfold raiseMatchlen
        split_ifs with hlt
        · rw [hlen, Int.toNat_natCast]
        · have heq : b'.matchlen = len := by omega
          rw [← heq]
      by_cases hcomma : m.pmatch.peek = ','
      · rw [if_pos hcomma, hraise' _ (by rfl)]
        simp [hnil, hcomma, hlen]
      · rw [if_neg hcomma, hraise' _ (by rfl)]
        simp [hnil, hcomma, hlen]
  · rw [if_neg hbetter, if_neg hbetter, adoptFull]
    have hle : len ≤ b.matchlen := by
      by_contra hlt
      exact hbetter (hrank.mpr (.inl (by omega)))
    by_cases hnil : m.pmatch = []
    · -- a wildcard match is not taken for want of any: something has been read before
      have hpart : b.partialmatch = true := by
        by_contra hstart
        obtain ⟨hzero, hno⟩ := hb.start (by simpa using hstart)
        refine hbetter (hrank.mpr ?_)
        have hnum : DialMatchAction.noMatch.toNat = 0 := rfl
        rw [hzero, hno, hnum]
        omega
      have hfull : b.betterFull m = true ↔
          m.thismatchlen.toNat = b.partialmatchlen ∧ b.result.toNat < m.thismatch.toNat := by
        simp only [betterFull, hlen, hpart, Bool.or_eq_true, Bool.and_eq_true, decide_eq_true_eq, Int.toNat_natCast]
        simp only [Bool.true_eq_false, and_false, or_false]
        omega
      rw [if_pos hnil]
      by_cases htake : b.betterFull m = true
      · have htake' := hfull.mp htake
        rw [if_pos htake, if_pos ⟨hnil, htake'⟩, hraise _ (by simp [hlen])]
        simp [htake'.1, hmatchlen]
      · rw [if_neg htake, if_neg (fun h => htake (hfull.mpr h.2)), hraise _ hle]
        simp [hnil, hnul]
    · have hno : ¬ (m.pmatch = [] ∧ m.thismatchlen.toNat = b.partialmatchlen ∧
          b.result.toNat < m.thismatch.toNat) := fun h => hnil h.1
      rw [if_neg hnil, if_neg hno]
      by_cases hcomma : m.pmatch.peek = ','
      · rw [if_pos hcomma, hraise _ (by exact hle)]
        simp [hcomma]
      · rw [if_neg hcomma, hraise _ hle]
        simp [hcomma]

end Best

/-! ## One template more -/

theorem argmax_concat_elim {α : Type} {f : α → ℕ} {a : α} {l : List α} (ha : 0 < f a) :
    (l ++ [a]).argmax f = if (l.argmax f).elim 0 f < f a then some a else l.argmax f := by
  rw [List.argmax_concat]
  cases l.argmax f with
  | none => simp [ha]
  | some b => rfl

section

variable {pound : Bool} {line : UInt16} {dialed : CStr} {plan : List DialTemplate} {t : DialTemplate}

theorem readers_concat_of_not (h : (matchLineNumber t.line line && t.reads pound dialed) = false) :
    readers pound line dialed (plan ++ [t]) = readers pound line dialed plan := by
  simp [readers, List.filter_append, h]

theorem readers_concat (h : (matchLineNumber t.line line && t.reads pound dialed) = true) :
    readers pound line dialed (plan ++ [t]) = readers pound line dialed plan ++ [t] := by
  simp only [readers, List.filter_append, List.filter_cons, h, if_true, List.filter_nil]

theorem rank_pos (h : t.reads pound dialed = true) : 0 < t.rank pound dialed := by
  have hpos := DialMatchAction.toNat_pos (by simpa [DialTemplate.reads] using h)
  simp only [DialTemplate.rank, Matching.rank]
  omega

theorem rank_le_of_mem {r : DialTemplate} (hr : r ∈ readers pound line dialed plan) :
    r.rank pound dialed ≤ (partialBest pound line dialed plan).elim 0 (·.rank pound dialed) := by
  cases hbest : partialBest pound line dialed plan with
  | none =>
    rw [partialBest, List.argmax_eq_none] at hbest
    simp [hbest] at hr
  | some best => exact List.le_of_mem_argmax hr hbest

theorem partialBest_concat (h : (matchLineNumber t.line line && t.reads pound dialed) = true) :
    partialBest pound line dialed (plan ++ [t]) =
      if (partialBest pound line dialed plan).elim 0 (·.rank pound dialed) < t.rank pound dialed then
        some t
      else partialBest pound line dialed plan := by
  have hpos := rank_pos (Bool.and_eq_true_iff.mp h).2
  rw [partialBest, readers_concat h, argmax_concat_elim hpos, ← partialBest]

theorem fullBest_concat_of_lt (h : (matchLineNumber t.line line && t.reads pound dialed) = true)
    (hlt : (partialBest pound line dialed plan).elim 0 (·.rank pound dialed) < t.rank pound dialed) :
    fullBest pound line dialed (plan ++ [t]) = if t.isFull pound dialed then some t else none := by
  have hdrop : (readers pound line dialed plan ++ [t]).dropWhile
      (fun r => r.rank pound dialed < t.rank pound dialed) = [t] := by
    rw [List.dropWhile_append_of_pos]
    · simp
    · intro r hr
      simpa using Nat.lt_of_le_of_lt (rank_le_of_mem hr) hlt
  rw [fullBest, partialBest_concat h, if_pos hlt, Option.bind_some, readers_concat h, candidates, hdrop]
  cases hfull : t.isFull pound dialed <;> simp [hfull]

/-- A template that is not better is a candidate when it matches as many exact characters. -/
theorem fullBest_concat_of_not_lt (h : (matchLineNumber t.line line && t.reads pound dialed) = true)
    (hlt : ¬ (partialBest pound line dialed plan).elim 0 (·.rank pound dialed) < t.rank pound dialed) :
    fullBest pound line dialed (plan ++ [t]) =
      if t.isFull pound dialed = true ∧
          t.matchlen pound dialed = (partialBest pound line dialed plan).elim 0 (·.matchlen pound dialed) ∧
          (fullBest pound line dialed plan).elim 0 (fun r => (r.matchType pound dialed).toNat) <
            (t.matchType pound dialed).toNat then
        some t
      else fullBest pound line dialed plan := by
  have hpos := rank_pos (Bool.and_eq_true_iff.mp h).2
  have htype : 0 < (t.matchType pound dialed).toNat := DialMatchAction.toNat_pos
      (by simpa [DialTemplate.reads, DialTemplate.matchType] using (Bool.and_eq_true_iff.mp h).2)
  rw [fullBest, partialBest_concat h, if_neg hlt, readers_concat h]
  cases hbest : partialBest pound line dialed plan with
  | none => simp [hbest, hpos] at hlt
  | some best =>
    rw [hbest] at hlt
    have hmem : best ∈ readers pound line dialed plan := List.argmax_mem hbest
    have hdrop : (readers pound line dialed plan ++ [t]).dropWhile
          (fun r => r.rank pound dialed < best.rank pound dialed) =
        (readers pound line dialed plan).dropWhile (fun r => r.rank pound dialed < best.rank pound dialed) ++ [t] := by
      rw [List.dropWhile_append, if_neg]
      intro hempty
      rw [List.isEmpty_iff, List.dropWhile_eq_nil_iff] at hempty
      simpa using hempty best hmem
    rw [fullBest, hbest]
    simp only [Option.bind_some, Option.elim_some, candidates, hdrop, List.filter_append]
    by_cases hcand : t.isFull pound dialed = true ∧ t.matchlen pound dialed = best.matchlen pound dialed
    · have hfilter : [t].filter (fun t => t.isFull pound dialed &&
          t.matchlen pound dialed = best.matchlen pound dialed) = [t] := by simp [hcand]
      rw [hfilter, argmax_concat_elim (f := fun r : DialTemplate => (r.matchType pound dialed).toNat) htype]
      simp only [hcand, true_and]
    · have hfilter : [t].filter (fun t => t.isFull pound dialed &&
          t.matchlen pound dialed = best.matchlen pound dialed) = [] := by
        simpa using hcand
      rw [hfilter, List.append_nil]
      exact (if_neg fun hand => hcand ⟨hand.1, hand.2.1⟩).symm

end

/-! ## The pass -/

/-- What is kept after the templates of a plan. -/
structure Selected (pound : Bool) (line : UInt16) (rewritelen : ℕ) (dialed : CStr)
    (plan : List DialTemplate) (b : Best) : Prop where
  kept : Kept b
  dialnow : b.bestmatchDialnow = true → pound = true ∧ '#' ∈ dialed ∧ b.partialmatch = true
  givedialtone : b.givedialtone = true ↔
    ∃ t ∈ plan, matchLineNumber t.line line = true ∧ t.asksForTone pound dialed = true
  pbestmatch : b.pbestmatch = chosen pound line dialed plan
  partialmatch : b.partialmatch = (partialBest pound line dialed plan).isSome
  partialmatchlen :
    b.partialmatchlen = (partialBest pound line dialed plan).elim 0 (·.matchlen pound dialed)
  partialmatchType : b.partialmatchType =
    (partialBest pound line dialed plan).elim .noMatch (·.matchType pound dialed)
  commas : b.bestCommaCount =
    (partialBest pound line dialed plan).elim 0 (·.commas pound dialed)
  result : b.result = (fullBest pound line dialed plan).elim .noMatch (·.matchType pound dialed)
  rewrite : ∀ t ∈ fullBest pound line dialed plan,
    b.rewrite = rewriteText rewritelen dialed t (matchTemplate pound t.pattern dialed)
  unmatched : (∀ t ∈ readers pound line dialed plan, t.isFull pound dialed = false) →
    b.rewrite = (addbytes { room := rewritelen } dialed).written

theorem selected_nil (pound : Bool) (line : UInt16) (rewritelen : ℕ) (dialed : CStr) :
    Selected pound line rewritelen dialed [] { rewrite := (addbytes { room := rewritelen } dialed).written } where
  kept := ⟨rfl, le_rfl, fun _ => ⟨rfl, rfl⟩⟩
  dialnow := by simp
  givedialtone := by simp
  pbestmatch := rfl
  partialmatch := rfl
  partialmatchlen := rfl
  partialmatchType := rfl
  commas := rfl
  result := rfl
  rewrite := by simp [fullBest, partialBest, readers]
  unmatched := fun _ => rfl

variable {line : UInt16} {rewritelen : ℕ} {plan : List DialTemplate}

theorem Selected.of_readers_eq {t : DialTemplate} {b : Best} {tone : Bool}
    (h : Selected pound line rewritelen dialed plan b)
    (hreaders : (matchLineNumber t.line line && t.reads pound dialed) = false)
    (htone : tone = true ↔ b.givedialtone = true ∨
      (matchLineNumber t.line line = true ∧ t.asksForTone pound dialed = true)) :
    Selected pound line rewritelen dialed (plan ++ [t]) { b with givedialtone := tone } := by
  have hsame := @readers_concat_of_not pound line dialed plan t hreaders
  have hfirst : partialBest pound line dialed (plan ++ [t]) = partialBest pound line dialed plan := by
    rw [partialBest, hsame, partialBest]
  have hfull : fullBest pound line dialed (plan ++ [t]) = fullBest pound line dialed plan := by
    rw [fullBest, hsame, hfirst, fullBest]
  refine ⟨⟨h.kept.matchlen, h.kept.result, h.kept.start⟩, h.dialnow, ?_, ?_, ?_, ?_, ?_, ?_, ?_, ?_, ?_⟩
  · rw [htone, h.givedialtone]
    simp [or_and_right, exists_or]
  · rw [chosen, hfirst, hfull]
    exact h.pbestmatch
  · rw [hfirst]
    exact h.partialmatch
  · rw [hfirst]
    exact h.partialmatchlen
  · rw [hfirst]
    exact h.partialmatchType
  · rw [hfirst]
    exact h.commas
  · rw [hfull]
    exact h.result
  · rw [hfull]
    exact h.rewrite
  · rw [hsame]
    exact h.unmatched

theorem Selected.rank_eq {b : Best} (h : Selected pound line rewritelen dialed plan b) :
    b.rank = (partialBest pound line dialed plan).elim 0 (·.rank pound dialed) := by
  rw [Best.rank, h.partialmatchlen, h.partialmatchType]
  cases partialBest pound line dialed plan <;> rfl

theorem Selected.step_of_reads {t : DialTemplate} {b : Best}
    (h : Selected pound line rewritelen dialed plan b) (hline : matchLineNumber t.line line = true)
    (hreads : t.reads pound dialed = true) :
    Selected pound line rewritelen dialed (plan ++ [t]) (Best.step pound line rewritelen dialed b t) := by
  have hty : (matchTemplate pound t.pattern dialed).thismatch ≠ .noMatch := by
    simpa [DialTemplate.reads] using hreads
  have hcount : (matchLineNumber t.line line && t.reads pound dialed) = true := by
    rw [hline, hreads]
    rfl
  have htone : ∀ c : Bool, (b.givedialtone || c) = true ↔
      (∃ t ∈ plan, matchLineNumber t.line line = true ∧ t.asksForTone pound dialed = true) ∨ c = true := by
    intro c
    rw [Bool.or_eq_true, h.givedialtone]
  have hall : (∀ r ∈ readers pound line dialed (plan ++ [t]), r.isFull pound dialed = false) →
      (∀ r ∈ readers pound line dialed plan, r.isFull pound dialed = false) ∧ t.isFull pound dialed = false := by
    rw [readers_concat hcount]
    exact fun hfull => ⟨fun r hr => hfull r (by simp [hr]), hfull t (by simp)⟩
  rw [Best.step, if_pos hline]
  simp only
  have hrank : (matchTemplate pound t.pattern dialed).rank = t.rank pound dialed := rfl
  rw [Best.adopt_of_read h.kept (read_of_reads hty) hty, h.rank_eq, hrank]
  have hfirst := @partialBest_concat pound line dialed plan t hcount
  by_cases hlt : (partialBest pound line dialed plan).elim 0 (·.rank pound dialed) < t.rank pound dialed
  · have hfull := fullBest_concat_of_lt hcount hlt
    rw [if_pos hlt] at hfirst
    rw [if_pos hlt]
    by_cases hnil : (matchTemplate pound t.pattern dialed).pmatch = []
    · have hisFull : t.isFull pound dialed = true := by simpa [DialTemplate.isFull] using hnil
      rw [if_pos hisFull] at hfull
      rw [if_pos hnil, if_pos hnil]
      refine ⟨⟨rfl, le_rfl, by simp⟩, fun hnow => ?_, ?_, ?_, ?_, ?_, ?_, ?_, ?_, ?_, ?_⟩
      · exact ⟨(dialnow_matchTemplate hnow).1, (dialnow_matchTemplate hnow).2, rfl⟩
      · simp [htone, hline, DialTemplate.asksForTone, or_and_right, exists_or]
      · rw [chosen, hfull]
        rfl
      · rw [hfirst]
        rfl
      · rw [hfirst]
        rfl
      · rw [hfirst]
        rfl
      · rw [hfirst]
        rfl
      · rw [hfull]
        rfl
      · rw [hfull]
        simp
      · intro hno
        rw [(hall hno).2] at hisFull
        simp at hisFull
    · have hisFull : t.isFull pound dialed = false := by simpa [DialTemplate.isFull] using hnil
      rw [hisFull, if_neg (by simp)] at hfull
      rw [if_neg hnil, if_neg hnil]
      refine ⟨⟨rfl, Nat.zero_le _, by simp⟩, fun hnow => ?_, ?_, ?_, ?_, ?_, ?_, ?_, ?_, ?_, ?_⟩
      · exact ⟨(dialnow_matchTemplate hnow).1, (dialnow_matchTemplate hnow).2, rfl⟩
      · simp [htone, hline, DialTemplate.asksForTone, or_and_right, exists_or]
      · rw [chosen, hfull, hfirst]
        rfl
      · rw [hfirst]
        rfl
      · rw [hfirst]
        rfl
      · rw [hfirst]
        rfl
      · rw [hfirst]
        rfl
      · rw [hfull]
        rfl
      · rw [hfull]
        simp
      · exact fun hno => h.unmatched (hall hno).1
  · have hfull := fullBest_concat_of_not_lt hcount hlt
    rw [if_neg hlt] at hfirst
    rw [if_neg hlt]
    have hresult : b.result.toNat =
        (fullBest pound line dialed plan).elim 0 (fun r => (r.matchType pound dialed).toNat) := by
      rw [h.result]
      cases fullBest pound line dialed plan <;> rfl
    rw [← hresult, ← h.partialmatchlen] at hfull
    by_cases htake : (matchTemplate pound t.pattern dialed).pmatch = [] ∧
        (matchTemplate pound t.pattern dialed).thismatchlen.toNat = b.partialmatchlen ∧
        b.result.toNat < (matchTemplate pound t.pattern dialed).thismatch.toNat
    · have hisFull : t.isFull pound dialed = true := by simpa [DialTemplate.isFull] using htake.1
      rw [if_pos ⟨hisFull, htake.2⟩] at hfull
      rw [if_pos htake]
      have hsome : (partialBest pound line dialed plan).isSome = true := by
        by_contra hnone
        rw [Option.not_isSome_iff_eq_none] at hnone
        rw [hnone] at hlt
        exact hlt (rank_pos hreads)
      have hle : (matchTemplate pound t.pattern dialed).thismatch.toNat ≤ b.partialmatchType.toNat := by
        have hrank' := Nat.le_of_not_lt hlt
        rw [← h.rank_eq, ← hrank, Best.rank, Matching.rank, htake.2.1] at hrank'
        omega
      refine ⟨⟨h.kept.matchlen, hle, h.kept.start⟩, fun hnow => ?_, ?_, ?_, ?_, ?_, ?_, ?_, ?_, ?_,
        ?_⟩
      · exact ⟨(dialnow_matchTemplate hnow).1, (dialnow_matchTemplate hnow).2, h.partialmatch.trans hsome⟩
      · have hnul : CStr.nul ≠ ',' := by decide
        have hno : t.asksForTone pound dialed = false := by
          simp [DialTemplate.asksForTone, htake.1, hnul]
        simp [h.givedialtone, hno, or_and_right, exists_or]
      · rw [chosen, hfull]
        rfl
      · rw [hfirst]
        exact h.partialmatch
      · rw [hfirst]
        exact h.partialmatchlen
      · rw [hfirst]
        exact h.partialmatchType
      · rw [hfirst]
        exact h.commas
      · rw [hfull]
        rfl
      · rw [hfull]
        simp
      · intro hno
        rw [(hall hno).2] at hisFull
        simp at hisFull
    · rw [if_neg htake]
      rw [if_neg (fun hand => htake ⟨by simpa [DialTemplate.isFull] using hand.1, hand.2⟩)] at hfull
      refine ⟨⟨h.kept.matchlen, h.kept.result, h.kept.start⟩, h.dialnow, ?_, ?_, ?_, ?_, ?_, ?_, ?_, ?_, ?_⟩
      · simp [htone, hline, DialTemplate.asksForTone, or_and_right, exists_or]
      · rw [chosen, hfull, hfirst]
        exact h.pbestmatch
      · rw [hfirst]
        exact h.partialmatch
      · rw [hfirst]
        exact h.partialmatchlen
      · rw [hfirst]
        exact h.partialmatchType
      · rw [hfirst]
        exact h.commas
      · rw [hfull]
        exact h.result
      · rw [hfull]
        exact h.rewrite
      · exact fun hno => h.unmatched (hall hno).1

/-- **What the pass keeps.** One template more. -/
theorem Selected.step {b : Best} (h : Selected pound line rewritelen dialed plan b) (t : DialTemplate) :
    Selected pound line rewritelen dialed (plan ++ [t]) (Best.step pound line rewritelen dialed b t) := by
  cases hline : matchLineNumber t.line line with
  | false =>
    rw [Best.step_of_line hline]
    exact h.of_readers_eq (by simp [hline]) (by simp [hline])
  | true =>
    cases hreads : t.reads pound dialed with
    | true => exact h.step_of_reads hline hreads
    | false =>
      have hty : (matchTemplate pound t.pattern dialed).thismatch = .noMatch := by
        simpa [DialTemplate.reads] using hreads
      rw [Best.step, if_pos hline]
      simp only
      rw [Best.adopt_of_mismatch (thismatchlen_of_not_reads hty) hty]
      exact h.of_readers_eq (by simp [hreads]) (by simp [hline, DialTemplate.asksForTone])

/-- **What the pass ends with.** The best templates of the plan. -/
theorem selected_foldl (pound : Bool) (line : UInt16) (rewritelen : ℕ) (dialed : CStr) (plan : List DialTemplate) :
    Selected pound line rewritelen dialed plan (plan.foldl (Best.step pound line rewritelen dialed)
        { rewrite := (addbytes { room := rewritelen } dialed).written }) := by
  induction plan using List.reverseRecOn with
  | nil => exact selected_nil pound line rewritelen dialed
  | append_singleton plan t ih =>
    rw [List.foldl_concat]
    exact ih.step t

end Dialplan
