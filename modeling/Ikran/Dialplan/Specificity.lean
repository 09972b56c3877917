import Ikran.Dialplan.Coherence

/-!
# The most specific template

Among the templates of a line that match the dialed string, one is more specific the more characters
it matches exactly, and then the better its match type is. A template that reads the dialed string
and has some of its pattern left over takes part in the choice as well.
-/

namespace Dialplan

section

variable (pound : Bool) (plan : List DialTemplate) (line : UInt16) (dialed : CStr)

/-- The template matches less characters exactly, or as many with a match type that is not better. -/
def AtMostAsSpecific (r t : DialTemplate) : Prop :=
  r.matchlen pound dialed < t.matchlen pound dialed ∨
    r.matchlen pound dialed = t.matchlen pound dialed ∧
      (r.matchType pound dialed).toNat ≤ (t.matchType pound dialed).toNat

/-- The template is for the line, and reads the dialed string with some of its pattern left over. -/
def PartlyMatchesOn (t : DialTemplate) : Prop :=
  t ∈ plan ∧ matchLineNumber t.line line = true ∧
    ∃ rest n, rest ≠ [] ∧ Reads pound t.pattern dialed rest n

/-- The template matches the dialed string, and none that does is more specific. -/
structure MostSpecific (t : DialTemplate) : Prop where
  matchesOn : MatchesOn pound plan line dialed t
  best : ∀ r, MatchesOn pound plan line dialed r → AtMostAsSpecific pound dialed r t

/-- The pass over the templates ends with this one, and the parts of the answer are its own. -/
structure Chooses (t : DialTemplate) : Prop where
  pbestmatch : ∀ rewritelen, (plan.foldl (Best.step pound line rewritelen dialed)
    { rewrite := (addbytes { room := rewritelen } dialed).written }).pbestmatch = some t
  answer : ∀ timeout rewritelen,
    let a := matchDialTemplate pound plan line timeout rewritelen dialed
    a.result = t.matchType pound dialed ∧ a.timeout = t.timeout ∧
      a.routeMode = some t.routeMode ∧
      a.rewrite = rewriteText rewritelen dialed t (matchTemplate pound t.pattern dialed)

/-- No template is chosen as a match. -/
def ChoosesNone : Prop :=
  ∀ timeout rewritelen,
    (matchDialTemplate pound plan line timeout rewritelen dialed).result = .noMatch

end

section

variable {pound : Bool} {plan : List DialTemplate} {line : UInt16} {dialed : CStr}
  {r t : DialTemplate}

theorem toNat_matchType_lt : (t.matchType pound dialed).toNat < 8 := by
  cases t.matchType pound dialed <;> decide

theorem atMostAsSpecific_iff : AtMostAsSpecific pound dialed r t ↔ r.rank pound dialed ≤ t.rank pound dialed := by
  have hr := @toNat_matchType_lt pound dialed r
  have ht := @toNat_matchType_lt pound dialed t
  have hrank : ∀ s : DialTemplate,
      s.rank pound dialed = 8 * s.matchlen pound dialed + (s.matchType pound dialed).toNat :=
    fun _ => rfl
  rw [AtMostAsSpecific, hrank, hrank]
  omega

theorem matchesOn_iff_reader : MatchesOn pound plan line dialed t ↔
      t ∈ readers pound line dialed plan ∧ t.isFull pound dialed = true := by
  rw [MatchesOn, ← fullyMatches_iff, readers, List.mem_filter]
  simp only [Bool.and_eq_true, DialTemplate.reads, DialTemplate.isFull, decide_eq_true_eq]
  tauto

theorem partlyMatchesOn_of_reader (h : t ∈ readers pound line dialed plan)
    (hfull : t.isFull pound dialed = false) : PartlyMatchesOn pound plan line dialed t := by
  rw [readers, List.mem_filter] at h
  obtain ⟨hmem, hline⟩ := h
  simp only [Bool.and_eq_true, DialTemplate.reads, decide_eq_true_eq] at hline
  rcases matchTemplate_spec pound t.pattern dialed with hmis | ⟨rest, hread⟩
  · exact absurd hmis.thismatch hline.2
  · refine ⟨hmem, hline.1, rest, _, ?_, readsFrom_start_iff.mp ((hread.reads rest _).mpr ⟨rfl, rfl⟩)⟩
    rintro rfl
    rcases hread.pmatch with heq | heq <;>
      simp [DialTemplate.isFull, heq, skipEscape] at hfull

theorem reader_of_partlyMatchesOn (h : PartlyMatchesOn pound plan line dialed t) :
    t ∈ readers pound line dialed plan := by
  obtain ⟨hmem, hline, rest, n, -, hreads⟩ := h
  rw [readers, List.mem_filter]
  refine ⟨hmem, ?_⟩
  simp only [hline, Bool.true_and, DialTemplate.reads, decide_eq_true_eq]
  rcases matchTemplate_spec pound t.pattern dialed with hmis | ⟨rest', hread⟩
  · exact absurd (readsFrom_start_iff.mpr hreads) (hmis.reads rest n)
  · exact hread.thismatch

theorem matchesOn_perm {plan' : List DialTemplate} (h : plan.Perm plan') :
    MatchesOn pound plan line dialed t ↔ MatchesOn pound plan' line dialed t := by
  rw [MatchesOn, MatchesOn, h.mem_iff]

theorem partlyMatchesOn_perm {plan' : List DialTemplate} (h : plan.Perm plan') :
    PartlyMatchesOn pound plan line dialed t ↔ PartlyMatchesOn pound plan' line dialed t := by
  rw [PartlyMatchesOn, PartlyMatchesOn, h.mem_iff]

/-! ## The best match -/

theorem exists_partialBest (h : t ∈ readers pound line dialed plan) :
    ∃ best ∈ readers pound line dialed plan, partialBest pound line dialed plan = some best ∧
      ∀ r ∈ readers pound line dialed plan, r.rank pound dialed ≤ best.rank pound dialed := by
  cases hbest : partialBest pound line dialed plan with
  | none =>
    rw [partialBest, List.argmax_eq_none] at hbest
    rw [hbest] at h
    cases h
  | some best =>
    exact ⟨best, List.argmax_mem hbest, rfl, fun r hr => List.le_of_mem_argmax hr hbest⟩

theorem mem_candidates {best : DialTemplate} (ht : t ∈ readers pound line dialed plan)
    (hfull : t.isFull pound dialed = true) (hrank : t.rank pound dialed = best.rank pound dialed) :
    t ∈ candidates pound dialed best (readers pound line dialed plan) := by
  have hlen : t.matchlen pound dialed = best.matchlen pound dialed := by
    have hle := atMostAsSpecific_iff.mpr hrank.le
    have hge := atMostAsSpecific_iff.mpr hrank.ge
    rw [AtMostAsSpecific] at hle hge
    omega
  rw [candidates, List.mem_filter]
  refine ⟨?_, by rw [hfull, hlen]; simp⟩
  -- what is dropped in front of the best reader is below it
  rcases List.mem_append.mp ((List.takeWhile_append_dropWhile).symm ▸ ht :
    t ∈ (readers pound line dialed plan).takeWhile (fun r => r.rank pound dialed < best.rank pound dialed) ++
      (readers pound line dialed plan).dropWhile
        (fun r => r.rank pound dialed < best.rank pound dialed)) with hfront | hbehind
  · have hlt := List.mem_takeWhile_imp hfront
    rw [decide_eq_true_eq, hrank] at hlt
    exact absurd hlt (lt_irrefl _)
  · exact hbehind

/-- When no template that matches partly is above all that match, the best match is a most specific
template. -/
theorem mostSpecific_of_fullBest (hmatch : ∃ r, MatchesOn pound plan line dialed r)
    (hpartly : ∀ p, PartlyMatchesOn pound plan line dialed p →
      ∃ r, MatchesOn pound plan line dialed r ∧ AtMostAsSpecific pound dialed p r) :
    ∃ t, fullBest pound line dialed plan = some t ∧ MostSpecific pound plan line dialed t := by
  obtain ⟨r, hr⟩ := hmatch
  obtain ⟨best, hmem, hbest, htop⟩ := exists_partialBest (matchesOn_iff_reader.mp hr).1
  -- some matching template is as good as the best reader
  obtain ⟨f, hf, hrank⟩ : ∃ f, MatchesOn pound plan line dialed f ∧ f.rank pound dialed = best.rank pound dialed := by
    by_cases hfull : best.isFull pound dialed = true
    · exact ⟨best, matchesOn_iff_reader.mpr ⟨hmem, hfull⟩, rfl⟩
    · obtain ⟨f, hf, hle⟩ := hpartly best (partlyMatchesOn_of_reader hmem (Bool.eq_false_iff.mpr hfull))
      have hreader := (matchesOn_iff_reader.mp hf).1
      exact ⟨f, hf, le_antisymm (htop f hreader) (atMostAsSpecific_iff.mp hle)⟩
  obtain ⟨hreader, hisFull⟩ := matchesOn_iff_reader.mp hf
  have hcand := mem_candidates hreader hisFull hrank
  cases hfullBest : fullBest pound line dialed plan with
  | none =>
    rw [fullBest, hbest, Option.bind_some, List.argmax_eq_none] at hfullBest
    rw [hfullBest] at hcand
    cases hcand
  | some t =>
    refine ⟨t, rfl, (matchesOn_of_fullBest hfullBest).1, fun r hr => ?_⟩
    rw [fullBest, hbest, Option.bind_some] at hfullBest
    have htype := List.le_of_mem_argmax hcand hfullBest
    have hlen : ∀ s ∈ candidates pound dialed best (readers pound line dialed plan),
        s.matchlen pound dialed = best.matchlen pound dialed := by
      intro s hs
      rw [candidates, List.mem_filter] at hs
      simpa using (Bool.and_eq_true_iff.mp hs.2).2
    have hle : f.rank pound dialed ≤ t.rank pound dialed := atMostAsSpecific_iff.mp (Or.inr
        ⟨(hlen f hcand).trans (hlen t (List.argmax_mem hfullBest)).symm, htype⟩)
    rw [atMostAsSpecific_iff]
    calc r.rank pound dialed ≤ best.rank pound dialed := htop r (matchesOn_iff_reader.mp hr).1
      _ = f.rank pound dialed := hrank.symm
      _ ≤ t.rank pound dialed := hle

theorem fullBest_eq_none_of_partly {p : DialTemplate} (hp : PartlyMatchesOn pound plan line dialed p)
    (hlong : ∀ r, MatchesOn pound plan line dialed r → r.matchlen pound dialed < p.matchlen pound dialed) :
    fullBest pound line dialed plan = none := by
  obtain ⟨best, hmem, hbest, htop⟩ := exists_partialBest (reader_of_partlyMatchesOn hp)
  have hge : p.matchlen pound dialed ≤ best.matchlen pound dialed := by
    have hle := atMostAsSpecific_iff.mpr (htop p (reader_of_partlyMatchesOn hp))
    rw [AtMostAsSpecific] at hle
    omega
  cases hfullBest : fullBest pound line dialed plan with
  | none => rfl
  | some t =>
    have hmatch := (matchesOn_of_fullBest hfullBest).1
    rw [fullBest, hbest, Option.bind_some] at hfullBest
    have hcand := List.argmax_mem hfullBest
    rw [candidates, List.mem_filter] at hcand
    have hlen : t.matchlen pound dialed = best.matchlen pound dialed := by
      simpa using (Bool.and_eq_true_iff.mp hcand.2).2
    have hlt := hlong t hmatch
    omega

/-! ## The answer -/

theorem asksForTone_eq_false (hcomma : ',' ∉ t.pattern) : t.asksForTone pound dialed = false := by
  have hsuffix : (matchTemplate pound t.pattern dialed).pmatch <:+ t.pattern := by
    refine matchLoop_invariant pound (P := fun m => m.pmatch <:+ t.pattern)
      ?_ ?_ ?_ ?_ dialed.length _ (List.suffix_refl _)
    · intro m hm
      unfold Matching.skipCommas
      split_ifs
      · exact (List.dropWhile_suffix _).trans hm
      · exact hm
    · exact fun m c s _ hm => (List.drop_suffix _ _).trans ((List.tail_suffix _).trans hm)
    · exact fun m c s _ hm => (List.tail_suffix _).trans hm
    · intro m c s _ hm
      have hskip : skipEscape m.pmatch <:+ t.pattern := by
        unfold skipEscape
        split_ifs
        · exact (List.tail_suffix _).trans hm
        · exact hm
      unfold Matching.matchLiteral
      split_ifs
      · exact hskip
      · exact hskip
      · exact (List.tail_suffix _).trans hskip
  rw [DialTemplate.asksForTone, decide_eq_false_iff_not]
  intro hpeek
  cases hm : (matchTemplate pound t.pattern dialed).pmatch with
  | nil =>
    rw [hm] at hpeek
    exact absurd hpeek (by decide)
  | cons c p =>
    rw [hm] at hpeek hsuffix
    exact hcomma (hpeek ▸ hsuffix.subset List.mem_cons_self)

theorem not_toneDue (hcomma : ∀ t ∈ plan, ',' ∉ t.pattern) : ¬ ToneDue pound plan line dialed := by
  rintro ⟨⟨t, ht, -, hasks⟩, -⟩
  rw [asksForTone_eq_false (hcomma t ht)] at hasks
  cases hasks

theorem chooses_of_fullBest (hcomma : ∀ t ∈ plan, ',' ∉ t.pattern)
    (h : fullBest pound line dialed plan = some t) : Chooses pound plan line dialed t := by
  refine ⟨fun rewritelen => ?_, fun timeout rewritelen => ?_⟩
  · rw [(selected_foldl pound line rewritelen dialed plan).pbestmatch, chosen, h]
    rfl
  · exact (matchDialTemplate_spec pound plan line timeout rewritelen dialed).matched (not_toneDue hcomma) t h

theorem choosesNone_of_fullBest (hcomma : ∀ t ∈ plan, ',' ∉ t.pattern) (hdialed : '#' ∉ dialed)
    (h : fullBest pound line dialed plan = none) : ChoosesNone pound plan line dialed := by
  intro timeout rewritelen
  have hlast : dialed.getLast? ≠ some '#' := fun heq => hdialed (List.mem_of_getLast? heq)
  unfold matchDialTemplate
  by_cases hplan : plan = []
  · simp [hplan, hdialed]
  · rw [if_neg hplan]
    have hsel := selected_foldl pound line rewritelen dialed plan
    generalize plan.foldl _ _ = b at hsel
    have hresult : b.result = .noMatch := by
      rw [hsel.result, h]
      rfl
    have hnow : b.bestmatchDialnow = false := by
      by_contra hne
      exact hdialed (hsel.dialnow (by simpa using hne)).2.1
    have htone : b.givedialtone = false := by
      by_contra hne
      obtain ⟨t, ht, -, hasks⟩ := hsel.givedialtone.mp (by simpa using hne)
      rw [asksForTone_eq_false (hcomma t ht)] at hasks
      cases hasks
    simp only [Best.answer, hnow, htone, hlast, hresult, Bool.false_and, Bool.false_eq_true,
      if_false, false_and, reduceCtorEq, or_self]
    split_ifs <;> rfl

/-- **Most specific template wins.** A dialed string without a terminator is matched by some template
of the line. When none that matches it partly is more specific than all that match, a most specific
one is chosen, and in any other order of the templates the same one if there is no second one that
is as specific. When some template that matches partly has more exact characters than all that
match, none is chosen, in any order. -/
theorem mostSpecific_chosen (hcomma : ∀ t ∈ plan, ',' ∉ t.pattern) (hdialed : '#' ∉ dialed)
    (hmatch : ∃ r, MatchesOn pound plan line dialed r) :
    ((∀ p, PartlyMatchesOn pound plan line dialed p →
        ∃ r, MatchesOn pound plan line dialed r ∧ AtMostAsSpecific pound dialed p r) →
      ∃ t, MostSpecific pound plan line dialed t ∧ Chooses pound plan line dialed t ∧
        ((∀ r, MostSpecific pound plan line dialed r → r = t) →
          ∀ plan', plan.Perm plan' → Chooses pound plan' line dialed t)) ∧
    ((∃ p, PartlyMatchesOn pound plan line dialed p ∧ ∀ r, MatchesOn pound plan line dialed r →
        r.matchlen pound dialed < p.matchlen pound dialed) →
      ∀ plan', plan.Perm plan' → ChoosesNone pound plan' line dialed) := by
  refine ⟨fun hpartly => ?_, fun ⟨p, hp, hlong⟩ plan' hperm => ?_⟩
  · obtain ⟨t, hfullBest, hspecific⟩ := mostSpecific_of_fullBest hmatch hpartly
    refine ⟨t, hspecific, chooses_of_fullBest hcomma hfullBest, fun hunique plan' hperm => ?_⟩
    have hcomma' : ∀ r ∈ plan', ',' ∉ r.pattern := fun r hr => hcomma r (hperm.mem_iff.mpr hr)
    have hmatch' : ∃ r, MatchesOn pound plan' line dialed r :=
      hmatch.imp fun r hr => (matchesOn_perm hperm).mp hr
    obtain ⟨t', hfullBest', hspecific'⟩ := mostSpecific_of_fullBest hmatch' fun p hp => by
      obtain ⟨r, hr, hle⟩ := hpartly p ((partlyMatchesOn_perm hperm).mpr hp)
      exact ⟨r, (matchesOn_perm hperm).mp hr, hle⟩
    have hsame : t' = t := hunique t' ⟨(matchesOn_perm hperm).mpr hspecific'.matchesOn,
      fun r hr => hspecific'.best r ((matchesOn_perm hperm).mp hr)⟩
    exact hsame ▸ chooses_of_fullBest hcomma' hfullBest'
  · have hcomma' : ∀ r ∈ plan', ',' ∉ r.pattern := fun r hr => hcomma r (hperm.mem_iff.mpr hr)
    exact choosesNone_of_fullBest hcomma' hdialed (fullBest_eq_none_of_partly
      ((partlyMatchesOn_perm hperm).mp hp) fun r hr => hlong r ((matchesOn_perm hperm).mpr hr))

end

/-- A rule for any number behind a nine, and one for two digits around it. -/
def ninePlan : List DialTemplate := [{ pattern := "9*" }, { pattern := "9.11", timeout := 2 }]

/-- Both rules match `9011`, and the second one is chosen in any order. -/
theorem mostSpecific_chosen_ninePlan :
    ∃ t, MostSpecific true ninePlan 1 "9011" t ∧ Chooses true ninePlan 1 "9011" t := by
  have hall : ∀ r ∈ ninePlan, MatchesOn true ninePlan 1 "9011" r := by
    intro r hr
    refine matchesOn_iff_reader.mpr ?_
    rw [ninePlan, List.mem_cons, List.mem_singleton] at hr
    rcases hr with rfl | rfl <;> exact ⟨by decide, by decide⟩
  have hsome : ∃ r, MatchesOn true ninePlan 1 "9011" r := ⟨_, hall _ List.mem_cons_self⟩
  obtain ⟨t, hspecific, hchooses, -⟩ := (mostSpecific_chosen (by decide) (by decide) hsome).1
    fun p hp => ⟨p, hall p hp.1, Or.inr ⟨rfl, le_rfl⟩⟩
  exact ⟨t, hspecific, hchooses⟩

/-- A rule for `9.11`, and one that wants something behind `9011`. -/
def longerPlan : List DialTemplate := [{ pattern := "9.11" }, { pattern := "9011*" }]

/-- The first rule matches `9011`, but it is not chosen: the second one reads one more exact character. -/
theorem not_chosen_longerPlan :
    (∀ t ∈ longerPlan, ',' ∉ t.pattern) ∧ '#' ∉ "9011".toList ∧
      (∃ t, MatchesOn true longerPlan 1 "9011" t) ∧
      ¬ ∃ t, MostSpecific true longerPlan 1 "9011" t ∧ Chooses true longerPlan 1 "9011" t := by
  refine ⟨by decide, by decide, ⟨{ pattern := "9.11" }, ?_⟩, ?_⟩
  · exact matchesOn_iff_reader.mpr ⟨by decide, by decide⟩
  · rintro ⟨t, hspecific, hchooses⟩
    have hno : (matchDialTemplate true longerPlan 1 0 100 "9011").result = .noMatch := by decide
    have hresult := (hchooses.answer 0 100).1
    rw [hno] at hresult
    have hmem := hspecific.matchesOn.1
    rw [longerPlan, List.mem_cons, List.mem_singleton] at hmem
    rcases hmem with rfl | rfl <;> exact absurd hresult (by decide)

end Dialplan
