import Ikran.Dialplan.Coherence
import Ikran.Dialplan.PlanEntries
import Mathlib.Data.List.Forall2

/-!
# From the text of a dial plan to its answers

What `MatchDialTemplate` answers with the list that `ParseDialTemplate` has read.
-/

namespace Dialplan

open CStr

/-- The answer is that of an entry with the attributes: it is for the line, its pattern reads the whole dialed string,
and the timeout and the route mode are its own. -/
structure AnswersFor (line : UInt16) (pound : Bool) (dialed : CStr) (g : Given) (a : Answer) : Prop where
  line : (g.value .line).elim 0 atoi = line.toNat ∨ (g.value .line).elim 0 atoi = 0
  pattern : ∃ n, Reads pound ((g.value .matchKey).getD []) dialed [] n
  timeout : a.timeout = (g.value .timeout).elim dialTimeout atoi
  routeMode : a.routeMode = (g.value .route).elim (some .default) routeModeNamed

/-- **A match is that of an entry.** When the entries of a text leave no trace unless they are read, an answer that a
template matches is that of an entry that was read without an error. -/
theorem answersFor_entry {available : CStr → Bool} {s : CStr} {ok : Bool} {plan : DialPlan}
    (h : ∀ c ∈ entryTexts s, EntryCondition (available c) c)
    (hplan : parseDialTemplate available (some s) = some (ok, plan)) {pound : Bool} {line : UInt16} {timeout : ℤ}
    {rewritelen : ℕ} {dialed : CStr}
    (hmatch : (matchDialTemplate pound plan.basetemplate line timeout rewritelen dialed).result.IsMatch) :
    ∃ c ∈ entryTexts s, readsEntry c = true ∧ ∃ g r rest, Attributes c g r ∧ Closes r rest ∧
      AnswersFor line pound dialed g (matchDialTemplate pound plan.basetemplate line timeout rewritelen dialed) := by
  obtain ⟨ok', plan', hplan', -, hlist⟩ := (cleanRun_iff available s).mpr h
  obtain ⟨-, rfl⟩ := Prod.mk.inj (Option.some.inj (hplan'.symm.trans hplan))
  have hspec := matchDialTemplate_spec pound plan'.basetemplate line timeout rewritelen dialed
  generalize matchDialTemplate pound plan'.basetemplate line timeout rewritelen dialed = a at hmatch hspec
  have hdue : ¬ToneDue pound plan'.basetemplate line dialed := fun hdue => by
    rw [(hspec.toneDue hdue).1] at hmatch
    simp [DialMatchAction.IsMatch] at hmatch
  cases hbest : fullBest pound line dialed plan'.basetemplate with
  | none => rcases hspec.unmatched hdue hbest with hno | hno <;> simp [hno, DialMatchAction.IsMatch] at hmatch
  | some t =>
    obtain ⟨-, htimeout, hroute, -⟩ := hspec.matched hdue t hbest
    obtain ⟨⟨hmem, hline, hreads⟩, -⟩ := matchesOn_of_fullBest hbest
    -- the entry that the template was made of
    obtain ⟨i, hi, rfl⟩ := List.getElem_of_mem hmem
    obtain ⟨g, r, rest, hattrs, hcloses, hcarries⟩ := hlist.get (hlist.length_eq ▸ hi) hi
    obtain ⟨hc, hread⟩ := List.mem_filter.mp (List.get_mem _ ⟨i, hlist.length_eq ▸ hi⟩)
    refine ⟨_, hc, hread, g, r, rest, hattrs, hcloses, ?_, hcarries.pattern ▸ hreads, htimeout.trans hcarries.timeout,
      hroute.trans hcarries.routeMode⟩
    rw [← hcarries.line]
    rcases Bool.or_eq_true_iff.mp hline with heq | heq
    · exact .inl (congrArg (fun n : UInt16 => (n.toNat : ℤ)) (of_decide_eq_true heq))
    · exact .inr (congrArg (fun n : UInt16 => (n.toNat : ℤ)) (of_decide_eq_true heq))

/-- A plan with the pattern `9`. -/
def ninePattern : CStr := "<DIALTEMPLATE><TEMPLATE MATCH=\"9\"/>"

/-- What is answered for `9` is that of the entry. -/
theorem answersFor_ninePattern : ∃ g, AnswersFor 1 true ['9'] g
    (matchDialTemplate true [{ pattern := ['9'], timeout := 10 }] 1 0 5 ['9']) := by
  have hclean : Clean true " MATCH=\"9\"/>".toList :=
    ⟨_, rfl, fun before => .inl ⟨rfl, { pattern := ['9'], timeout := 10 }, _, _, .attr rfl rfl rfl rfl (.done _),
      .empty rfl, ⟨rfl, rfl, rfl, rfl, rfl, rfl, rfl⟩, rfl⟩⟩
  have htexts : entryTexts ninePattern = [" MATCH=\"9\"/>".toList] := by decide +kernel
  obtain ⟨-, -, -, g, -, -, -, -, hanswers⟩ := @answersFor_entry (fun _ => true) ninePattern _ _
    (htexts ▸ List.forall_mem_singleton.mpr ((clean_iff _ _).mp hclean)) rfl true 1 0 5 ['9'] (.inr (.inr rfl))
  exact ⟨g, hanswers⟩

end Dialplan
