import Ikran.Dialplan.Selection
import Mathlib.Data.List.TakeDrop

/-!
# The parts of an answer

An answer of `MatchDialTemplate` has a result, a timeout, a route mode, a rewrite string and a tone.
-/

namespace Dialplan

section

variable (pound : Bool) (plan : List DialTemplate) (line : UInt16) (rewritelen : ℕ) (dialed : CStr)

/-- The template is for the line, and its pattern reads the whole dialed string. -/
def MatchesOn (t : DialTemplate) : Prop :=
  t ∈ plan ∧ matchLineNumber t.line line = true ∧ ∃ n, Reads pound t.pattern dialed [] n

/-- The template is for the line, and what its pattern has left behind the dialed string starts with the
comma with the given number. -/
def StopsAtComma (t : DialTemplate) (comma : ℕ) : Prop :=
  t ∈ plan ∧ matchLineNumber t.line line = true ∧
    ∃ rest, Reads pound t.pattern dialed (',' :: rest) comma

/-- The parts of the answer belong together: those of a match are those of one template that matches,
without such a template the rewrite string is the dialed string, and a tone is the one that a template
defines for the comma it stops at. -/
structure Coherent (a : Answer) : Prop where
  matched : a.result.IsMatch →
    ∃ t, MatchesOn pound plan line dialed t ∧ a.timeout = t.timeout ∧
      a.routeMode = some t.routeMode ∧
      a.rewrite = rewriteText rewritelen dialed t (matchTemplate pound t.pattern dialed)
  unmatched : (¬ ∃ t, MatchesOn pound plan line dialed t) → a.rewrite = dialed
  tone : a.result = .giveTone →
    ∃ t comma, StopsAtComma pound plan line dialed t comma ∧ a.tone = some (t.toneAt comma)

/-- The rewrite buffer has room for the dialed string, or some template matches. -/
def RewriteFits : Prop :=
  dialed.length ≤ rewritelen - 1 ∨ ∃ t, MatchesOn pound plan line dialed t

/-- A template of the line stops at a comma character, and none matches the dialed string without a
star. -/
def ToneDue : Prop :=
  (∃ t ∈ plan, matchLineNumber t.line line = true ∧ t.asksForTone pound dialed = true) ∧
    ∀ t ∈ fullBest pound line dialed plan, t.matchType pound dialed = .wildPattern

/-- The tone of the template that the pass ends with, for the number of commas that the first best one
has skipped. -/
def chosenTone : Tone :=
  (chosen pound line dialed plan).elim defaultTone fun t =>
    t.toneAt ((partialBest pound line dialed plan).elim 0 (·.commas pound dialed))

/-- When a tone is due, some template stops at a comma and defines that tone for it. -/
def ToneMeant : Prop :=
  ToneDue pound plan line dialed →
    ∃ t comma, StopsAtComma pound plan line dialed t comma ∧
      chosenTone pound plan line dialed = t.toneAt comma

end

/-! ## The answer -/

variable {pound : Bool} {dialed : CStr}

theorem matchesOn_of_fullBest {plan : List DialTemplate} {line : UInt16}
    {t : DialTemplate} (h : t ∈ fullBest pound line dialed plan) :
    MatchesOn pound plan line dialed t ∧ (t.matchType pound dialed).IsMatch := by
  rw [fullBest, Option.mem_def, Option.bind_eq_some_iff] at h
  obtain ⟨best, -, h⟩ := h
  have hmem := List.argmax_mem h
  rw [candidates, List.mem_filter] at hmem
  obtain ⟨hdrop, hfull⟩ := hmem
  simp only [Bool.and_eq_true, DialTemplate.isFull, decide_eq_true_eq] at hfull
  have hreader := (List.dropWhile_suffix _).subset hdrop
  rw [readers, List.mem_filter] at hreader
  obtain ⟨hplan, hline⟩ := hreader
  simp only [Bool.and_eq_true, DialTemplate.reads, decide_eq_true_eq] at hline
  exact ⟨⟨hplan, hline.1, (fullyMatches_iff pound t.pattern dialed).mp ⟨hfull.1, hline.2⟩⟩, isMatch_of_reads hline.2⟩

structure AnswerSpec (pound : Bool) (plan : List DialTemplate) (line : UInt16) (rewritelen : ℕ)
    (dialed : CStr) (a : Answer) : Prop where
  toneDue : ToneDue pound plan line dialed →
    a.result = .giveTone ∧ a.tone = some (chosenTone pound plan line dialed)
  matched : ¬ ToneDue pound plan line dialed → ∀ t ∈ fullBest pound line dialed plan,
    a.result = t.matchType pound dialed ∧ a.timeout = t.timeout ∧ a.routeMode = some t.routeMode ∧
      a.rewrite = rewriteText rewritelen dialed t (matchTemplate pound t.pattern dialed)
  unmatched : ¬ ToneDue pound plan line dialed → fullBest pound line dialed plan = none →
    a.result = .noMatch ∨ a.result = .immediately
  rewrite : (¬ ∃ t, MatchesOn pound plan line dialed t) →
    a.rewrite = (addbytes { room := rewritelen } dialed).written

theorem answer_spec {plan : List DialTemplate} {line : UInt16} {rewritelen : ℕ}
    {b : Best} (timeout : ℤ) (h : Selected pound line rewritelen dialed plan b) :
    AnswerSpec pound plan line rewritelen dialed (b.answer pound timeout dialed) := by
  have hnow : (b.bestmatchDialnow && !(pound && '#' ∈ dialed && b.partialmatch)) = false := by
    cases hdial : b.bestmatchDialnow with
    | false => rfl
    | true =>
      obtain ⟨hpound, hterm, hpart⟩ := h.dialnow hdial
      simp [hpound, hterm, hpart]
  have hnone : fullBest pound line dialed plan = none → b.result = .noMatch := by
    intro hbest
    rw [h.result, hbest]
    rfl
  have hsome : ∀ t ∈ fullBest pound line dialed plan, b.result = t.matchType pound dialed ∧ b.pbestmatch = some t := by
    intro t ht
    rw [h.result, h.pbestmatch, chosen, Option.mem_def.mp ht]
    exact ⟨rfl, rfl⟩
  -- a tone is due exactly when the flag survives the switch on the result
  have htone : (b.givedialtone && !(b.result = .fullPattern || b.result = .fullMatch)) = true ↔
      ToneDue pound plan line dialed := by
    rw [ToneDue, Bool.and_eq_true, h.givedialtone]
    refine and_congr_right fun _ => ?_
    simp only [Bool.not_eq_true', Bool.or_eq_false_iff, decide_eq_false_iff_not]
    cases hbest : fullBest pound line dialed plan with
    | none => simp [hnone hbest]
    | some t =>
      have htype := (matchesOn_of_fullBest hbest).2
      rw [(hsome t hbest).1]
      simp only [Option.mem_def, Option.some.injEq, forall_eq']
      rcases htype with htype | htype | htype <;> simp [htype]
  have hrewrite : (¬ ∃ t, MatchesOn pound plan line dialed t) →
      b.rewrite = (addbytes { room := rewritelen } dialed).written := by
    intro hno
    refine h.unmatched fun t ht => ?_
    by_contra hfull
    rw [readers, List.mem_filter] at ht
    simp only [Bool.and_eq_true, DialTemplate.reads, decide_eq_true_eq] at ht
    refine hno ⟨t, ht.1, ht.2.1, (fullyMatches_iff pound t.pattern dialed).mp ⟨?_, ht.2.2⟩⟩
    simpa [DialTemplate.isFull] using hfull
  have hmatched : ∀ t ∈ fullBest pound line dialed plan,
      b.result = .fullPattern ∨ b.result = .fullMatch ∨ b.result = .wildPattern := by
    intro t ht
    rw [(hsome t ht).1]
    rcases (matchesOn_of_fullBest ht).2 with htype | htype | htype <;> simp [htype]
  have htonetext : (b.pbestmatch.elim defaultTone fun t =>
      t.tones.getD b.bestCommaCount defaultTone) = chosenTone pound plan line dialed := by
    rw [h.pbestmatch, h.commas]
    rfl
  unfold Best.answer
  simp only [hnow, Bool.false_eq_true, if_false]
  by_cases hdue : ToneDue pound plan line dialed
  · simp only [htone.mpr hdue, if_true]
    refine ⟨fun _ => ⟨rfl, by rw [htonetext]⟩, fun hno => absurd hdue hno,
      fun hno => absurd hdue hno, fun hno => ?_⟩
    rw [← hrewrite hno]
    split_ifs <;> rfl
  · rw [if_neg fun hflag => hdue (htone.mp hflag)]
    refine ⟨fun hyes => absurd hyes hdue, fun _ t ht => ?_, fun _ hbest => ?_, fun hno => ?_⟩
    · rw [if_pos (hmatched t ht)]
      obtain ⟨hresult, hpbest⟩ := hsome t ht
      exact ⟨hresult, by simp [hpbest], by simp [hpbest], h.rewrite t ht⟩
    · rw [hnone hbest]
      split_ifs <;> simp_all
    · rw [← hrewrite hno]
      split_ifs <;> rfl

/-- **What `MatchDialTemplate` answers.** -/
theorem matchDialTemplate_spec (pound : Bool) (plan : List DialTemplate) (line : UInt16)
    (timeout : ℤ) (rewritelen : ℕ) (dialed : CStr) :
    AnswerSpec pound plan line rewritelen dialed (matchDialTemplate pound plan line timeout rewritelen dialed) := by
  unfold matchDialTemplate
  by_cases hplan : plan = []
  · subst hplan
    have hdue : ¬ ToneDue pound [] line dialed := by
      rintro ⟨⟨t, ht, -⟩, -⟩
      simp at ht
    simp only [if_true]
    refine ⟨fun hyes => absurd hyes hdue, fun _ t ht => ?_, fun _ _ => ?_, fun _ => ?_⟩
    · exact absurd (matchesOn_of_fullBest ht).1.1 (by simp)
    · split_ifs <;> simp
    · split_ifs <;> rfl
  · rw [if_neg hplan]
    exact answer_spec timeout (selected_foldl pound line rewritelen dialed plan)

/-! ## When the parts belong together -/

theorem written_addbytes_iff (rewritelen : ℕ) (dialed : CStr) :
    (addbytes { room := rewritelen } dialed).written = dialed ↔ dialed.length ≤ rewritelen - 1 := by
  simp only [addbytes, List.nil_append, List.take_eq_self_iff]
  split_ifs with hle
  · rfl
  · simp only [le_refl, true_iff]
    omega

/-- **When the parts of an answer belong together.** They do exactly when the rewrite buffer has room for
the dialed string or some template matches, and when the tone of the template that the pass ends with is
the tone of a template that stops at a comma. -/
theorem coherent_iff (pound : Bool) (plan : List DialTemplate) (line : UInt16) (timeout : ℤ)
    (rewritelen : ℕ) (dialed : CStr) :
    Coherent pound plan line rewritelen dialed
        (matchDialTemplate pound plan line timeout rewritelen dialed) ↔
      RewriteFits pound plan line rewritelen dialed ∧ ToneMeant pound plan line dialed := by
  have hspec := matchDialTemplate_spec pound plan line timeout rewritelen dialed
  generalize matchDialTemplate pound plan line timeout rewritelen dialed = a at hspec
  have hfits : ((¬ ∃ t, MatchesOn pound plan line dialed t) → a.rewrite = dialed) ↔
      RewriteFits pound plan line rewritelen dialed := by
    rw [RewriteFits]
    constructor
    · intro hsame
      by_cases hmatch : ∃ t, MatchesOn pound plan line dialed t
      · exact .inr hmatch
      · have hdialed := hsame hmatch
        rw [hspec.rewrite hmatch, written_addbytes_iff] at hdialed
        exact .inl hdialed
    · rintro (hlen | hmatch) hno
      · rw [hspec.rewrite hno, written_addbytes_iff]
        exact hlen
      · exact absurd hmatch hno
  constructor
  · intro h
    refine ⟨hfits.mp h.unmatched, fun hdue => ?_⟩
    obtain ⟨hresult, htone⟩ := hspec.toneDue hdue
    obtain ⟨t, comma, hstops, hsame⟩ := h.tone hresult
    rw [htone, Option.some.injEq] at hsame
    exact ⟨t, comma, hstops, hsame⟩
  · rintro ⟨hrewrite, hmeant⟩
    by_cases hdue : ToneDue pound plan line dialed
    · obtain ⟨hresult, htone⟩ := hspec.toneDue hdue
      refine ⟨fun hmatch => ?_, hfits.mpr hrewrite, fun _ => ?_⟩
      · rw [hresult] at hmatch
        simp [DialMatchAction.IsMatch] at hmatch
      · obtain ⟨t, comma, hstops, hsame⟩ := hmeant hdue
        exact ⟨t, comma, hstops, by rw [htone, hsame]⟩
    · cases hbest : fullBest pound line dialed plan with
      | some t =>
        obtain ⟨hresult, htimeout, hroute, htext⟩ := hspec.matched hdue t hbest
        obtain ⟨hon, htype⟩ := matchesOn_of_fullBest hbest
        refine ⟨fun _ => ⟨t, hon, htimeout, hroute, htext⟩, hfits.mpr hrewrite, fun hgive => ?_⟩
        rw [hresult] at hgive
        rw [hgive] at htype
        simp [DialMatchAction.IsMatch] at htype
      | none =>
        have hresult := hspec.unmatched hdue hbest
        refine ⟨fun hmatch => ?_, hfits.mpr hrewrite, fun hgive => ?_⟩
        · rcases hresult with hresult | hresult <;> rw [hresult] at hmatch <;>
            simp [DialMatchAction.IsMatch] at hmatch
        · rcases hresult with hresult | hresult <;> rw [hresult] at hgive <;> simp at hgive

theorem matchTemplate_of_reads {pattern rest : CStr} {n : ℕ} (h : Reads pound pattern dialed rest n) :
    ((matchTemplate pound pattern dialed).pmatch = rest ∨
        (matchTemplate pound pattern dialed).pmatch = skipEscape rest) ∧
      n = (matchTemplate pound pattern dialed).commaCounter := by
  rcases matchTemplate_spec pound pattern dialed with hmis | ⟨rest', hread⟩
  · exact absurd (readsFrom_start_iff.mpr h) (hmis.reads rest n)
  · obtain ⟨rfl, hn⟩ := (hread.reads rest n).mp (readsFrom_start_iff.mpr h)
    exact ⟨hread.pmatch, hn⟩

/-- A rule for four digits, and one with a tone behind the first digit. -/
def tonePlan : List DialTemplate :=
  [{ pattern := "9..." }, { pattern := "9,1", tones := [.zip] }]

/-- Behind `9` the tone of the first template is given, which defines none and stops at no comma. -/
theorem not_coherent_tonePlan :
    ¬ Coherent true tonePlan 1 100 "9" (matchDialTemplate true tonePlan 1 0 100 "9") := by
  intro h
  obtain ⟨t, comma, ⟨hmem, -, rest, hreads⟩, htone⟩ := h.tone (by decide)
  obtain ⟨hrest, hcomma⟩ := matchTemplate_of_reads hreads
  rw [tonePlan, List.mem_cons, List.mem_singleton] at hmem
  rcases hmem with rfl | rfl
  · have hpeek : (matchTemplate true "9..." "9").pmatch.peek = ',' := by
      rcases hrest with hrest | hrest <;> exact congrArg CStr.peek hrest
    exact absurd hpeek (by decide)
  · subst hcomma
    exact absurd htone (by decide)

/-! ## Which templates match -/

/-- A plan of one template of the line answers a match exactly when it matches. -/
theorem isMatch_singleton_iff {t : DialTemplate} {line : UInt16}
    (hline : matchLineNumber t.line line = true) (timeout : ℤ) (rewritelen : ℕ) :
    (matchDialTemplate pound [t] line timeout rewritelen dialed).result.IsMatch ↔
      ∃ n, Reads pound t.pattern dialed [] n := by
  have hspec := matchDialTemplate_spec pound [t] line timeout rewritelen dialed
  generalize matchDialTemplate pound [t] line timeout rewritelen dialed = a at hspec
  have hfull : (∃ n, Reads pound t.pattern dialed [] n) ↔
      t.reads pound dialed = true ∧ t.isFull pound dialed = true := by
    rw [← fullyMatches_iff]
    simp [DialTemplate.reads, DialTemplate.isFull, and_comm]
  rw [hfull]
  constructor
  · intro hmatch
    cases hbest : fullBest pound line dialed [t] with
    | none =>
      by_cases hdue : ToneDue pound [t] line dialed
      · rw [(hspec.toneDue hdue).1] at hmatch
        simp [DialMatchAction.IsMatch] at hmatch
      · rcases hspec.unmatched hdue hbest with hresult | hresult <;> rw [hresult] at hmatch <;>
          simp [DialMatchAction.IsMatch] at hmatch
    | some r =>
      obtain ⟨hmem, -, hreads⟩ := (matchesOn_of_fullBest hbest).1
      obtain rfl := List.mem_singleton.mp hmem
      exact hfull.mp hreads
  · rintro ⟨hreads, hisFull⟩
    have hpos := rank_pos hreads
    have hbest : fullBest pound line dialed [t] = some t := by
      have hconcat := @fullBest_concat_of_lt pound line dialed [] t (by rw [hline, hreads]; rfl)
        (by simpa [partialBest, readers] using hpos)
      rw [List.nil_append, if_pos hisFull] at hconcat
      exact hconcat
    have hdue : ¬ ToneDue pound [t] line dialed := by
      rintro ⟨⟨r, hr, -, hcomma⟩, -⟩
      obtain rfl := List.mem_singleton.mp hr
      have hnil : (matchTemplate pound r.pattern dialed).pmatch = [] := by
        simpa [DialTemplate.isFull] using hisFull
      simp only [DialTemplate.asksForTone, hnil, decide_eq_true_eq] at hcomma
      exact absurd hcomma (by decide)
    rw [(hspec.matched hdue t hbest).1]
    exact (matchesOn_of_fullBest hbest).2

end Dialplan
