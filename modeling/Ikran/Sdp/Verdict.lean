import Ikran.Sdp.TokenSpec

/-!
# The verdict of a parse

The lines `sdp_parse` goes over, and how its result comes about: the loop keeps the first error it
meets, with one exception at the first line.
-/

namespace Sdp

open CStr Line

/-! ## Lines of a run -/

/-- A line of the description: its token, its text, and the state in which the loop meets it. -/
structure Visit where
  tok : Token
  text : CStr
  before : ParseState

/-- The lines the loop goes over. -/
def visits (conf : Conf) : List CStr → ParseState → List Visit
  | [], _ => []
  | s :: lines, σ =>
    match recognise s with
    | none => []
    | some tok =>
      if !σ.firstLine && tok == .v then []
      else ⟨tok, s, σ⟩ :: visits conf lines (lineStep conf tok s σ)

def parseVisits (conf : Conf) (d : Desc) (st : Stats) (buf : CStr) (len : UInt16) : List Visit :=
  visits conf (lineStarts len.toNat buf) (parseStart d st)

namespace Visit

/-- The line is parsed: no error has ended the parse before it, and it may stand where it does. -/
def Parsed (v : Visit) : Prop :=
  v.before.parseDone = false ∧ isMisplaced v.tok v.before.curLevel = false

instance (v : Visit) : Decidable v.Parsed := inferInstanceAs (Decidable (_ ∧ _))

def checked (conf : Conf) (v : Visit) : ParseState := v.before.checkOrder conf v.tok

/-- The outcome of the parse function of the line. -/
def lineResult (conf : Conf) (v : Visit) : SdpResult :=
  (parseToken conf v.tok (v.checked conf).curLevel (v.text.drop 2) (v.checked conf).desc
    (v.checked conf).stats).1

theorem lineResult_known {conf : Conf} (v : Visit) : Known (v.lineResult conf) := parseToken_known conf v.tok _ _ _ _

/-- The line does not end the parse: no line before it did, and unless it is misplaced it is parsed
with success. -/
def Fine (conf : Conf) (v : Visit) : Prop :=
  v.before.parseDone = false ∧
    (isMisplaced v.tok v.before.curLevel = false → v.lineResult conf = .success)

def after (conf : Conf) (v : Visit) : ParseState := lineStep conf v.tok v.text v.before

theorem after_of_not_parsed (conf : Conf) {v : Visit} (h : ¬v.Parsed) :
    v.after conf = v.before ∨ v.after conf = v.before.countOrder := by
  unfold after lineStep
  unfold Parsed at h
  split_ifs with hdone hmisplaced
  · exact .inl rfl
  · exact .inr rfl
  · simp_all

theorem after_of_parsed (conf : Conf) {v : Visit} (h : v.Parsed) :
    v.after conf = (v.checked conf).parseLine conf v.tok (v.text.drop 2) := by
  simp [after, lineStep, checked, h.1, h.2]

theorem after_parseDone {conf : Conf} {v : Visit} (h : v.Parsed)
    (herror : v.lineResult conf ≠ .success) : (v.after conf).parseDone = true := by
  have hresult : (v.lineResult conf != .success) = true := by simpa using herror
  rw [after_of_parsed conf h]
  simp only [ParseState.parseLine, Bool.or_eq_true]
  exact .inr hresult

end Visit

/-- The loop goes from the first state over these lines to the last state. -/
inductive Run (conf : Conf) : ParseState → List Visit → ParseState → Prop
  | nil (σ : ParseState) : Run conf σ [] σ
  | cons {v : Visit} {σ' : ParseState} {vs : List Visit}
      (hgo : v.before.firstLine = true ∨ v.tok ≠ .v) (h : Run conf (v.after conf) vs σ') :
      Run conf v.before (v :: vs) σ'

variable {conf : Conf} {σ σ' : ParseState}

theorem Run.eq_of_nil (h : Run conf σ [] σ') : σ' = σ := by
  cases h
  rfl

variable {vs : List Visit} {v : Visit}

theorem Run.cons_iff : Run conf v.before (v :: vs) σ' ↔
      (v.before.firstLine = true ∨ v.tok ≠ .v) ∧ Run conf (v.after conf) vs σ' := by
  refine ⟨fun h => ?_, fun ⟨hgo, h⟩ => .cons hgo h⟩
  generalize hσ : v.before = σ at h
  cases h with
  | cons hgo h => exact ⟨hσ ▸ hgo, h⟩

theorem visits_run (conf : Conf) (lines : List CStr) (next : CStr) (σ : ParseState) :
    Run conf σ (visits conf lines σ) (parseLoop conf lines next σ).state := by
  induction lines generalizing next σ with
  | nil => exact .nil σ
  | cons s lines ih =>
    unfold visits parseLoop
    cases htok : recognise s with
    | none => exact .nil σ
    | some tok =>
      cases hv : !σ.firstLine && tok == .v with
      | true => simpa only [hv, if_true] using .nil σ
      | false =>
        simp only [hv, Bool.false_eq_true, if_false]
        refine .cons (v := ⟨tok, s, σ⟩) ?_ (ih (nextLine s) _)
        cases hfirst : σ.firstLine with
        | true => exact .inl rfl
        | false => exact .inr (by simpa [hfirst] using hv)

/-! ## Errors are kept -/

/-- Behind its first line, the loop is done exactly when it has met an error. -/
structure ParseState.Settled (σ : ParseState) : Prop where
  firstLine : σ.firstLine = false
  parseDone : σ.parseDone = (σ.result != .success)

theorem checkOrder_of_settled (conf : Conf) (tok : Token) (h : σ.Settled) :
    (σ.checkOrder conf tok).result = σ.result ∧ (σ.checkOrder conf tok).firstLine = false ∧
      (σ.checkOrder conf tok).parseDone = σ.parseDone := by
  unfold ParseState.checkOrder
  simp only [h.firstLine, Bool.false_eq_true, if_false]
  split_ifs
  · exact ⟨rfl, h.firstLine, rfl⟩
  · exact ⟨rfl, h.firstLine, rfl⟩

theorem Visit.after_of_settled (conf : Conf) (h : v.before.Settled) :
    (v.after conf).Settled ∧ (v.Parsed → (v.after conf).result = v.lineResult conf) ∧
      (¬v.Parsed → (v.after conf).result = v.before.result) := by
  by_cases hparsed : v.Parsed
  · obtain ⟨-, hfirst, hdone⟩ := checkOrder_of_settled conf v.tok h
    rw [after_of_parsed conf hparsed]
    refine ⟨⟨hfirst, ?_⟩, fun _ => rfl, fun hnot => absurd hparsed hnot⟩
    have hnone : (v.checked conf).parseDone = false := hdone.trans hparsed.1
    simp [ParseState.parseLine, hnone]
  · rcases after_of_not_parsed conf hparsed with heq | heq
    · rw [heq]
      exact ⟨h, fun hp => absurd hp hparsed, fun _ => rfl⟩
    · rw [heq]
      exact ⟨⟨h.firstLine, h.parseDone⟩, fun hp => absurd hp hparsed, fun _ => rfl⟩

theorem Run.result_of_settled (h : Run conf σ vs σ') (hσ : σ.Settled) :
    σ'.Settled ∧ (σ.parseDone = true → σ'.result = σ.result) ∧ (∀ v ∈ vs, v.before.Settled) ∧
      (∀ v ∈ vs, v.Parsed → v.lineResult conf ≠ .success → σ'.result = v.lineResult conf) ∧
      (∀ v ∈ vs, σ'.result = .success → v.before.parseDone = false) := by
  induction h with
  | nil σ => exact ⟨hσ, fun _ => rfl, by simp, by simp, by simp⟩
  | @cons v σ' vs hgo h ih =>
    obtain ⟨hafter, hparsed, hskipped⟩ := Visit.after_of_settled conf hσ
    obtain ⟨hσ', hkeep, hsettled, herr, hsucc⟩ := ih hafter
    have hdone : v.before.parseDone = true → σ'.result = v.before.result := by
      intro hdone
      have hnot : ¬v.Parsed := fun hp => by simp [hp.1] at hdone
      have hdone' : (v.after conf).parseDone = true := by
        rw [hafter.parseDone, hskipped hnot, ← hσ.parseDone, hdone]
      exact (hkeep hdone').trans (hskipped hnot)
    refine ⟨hσ', hdone, ?_, ?_, ?_⟩
    · exact List.forall_mem_cons.mpr ⟨hσ, hsettled⟩
    · refine List.forall_mem_cons.mpr ⟨fun hp herror => ?_, herr⟩
      have hdone' : (v.after conf).parseDone = true := by
        rw [hafter.parseDone, hparsed hp]
        simpa using herror
      exact (hkeep hdone').trans (hparsed hp)
    · refine List.forall_mem_cons.mpr ⟨fun hok => ?_, hsucc⟩
      by_contra hne
      have htrue : v.before.parseDone = true := by simpa using hne
      have hresult := hdone htrue
      rw [hσ.parseDone, ← hresult, hok] at htrue
      simp at htrue

theorem Run.eq_of_parseDone (h : Run conf σ vs σ') (hdone : σ.parseDone = true) : σ' = σ := by
  induction h with
  | nil σ => rfl
  | @cons v σ' vs hgo h ih =>
    have hafter : v.after conf = v.before := by simp [Visit.after, lineStep, hdone]
    rw [hafter] at ih
    exact ih hdone

theorem Run.known (h : Run conf σ vs σ') (hσ : Known σ.result) : Known σ'.result := by
  induction h with
  | nil σ => exact hσ
  | @cons v σ' vs hgo h ih =>
    refine ih ?_
    by_cases hparsed : v.Parsed
    · rw [Visit.after_of_parsed conf hparsed]
      exact v.lineResult_known
    · rcases Visit.after_of_not_parsed conf hparsed with heq | heq
      · rwa [heq]
      · rwa [heq]

/-! ## The first line -/

theorem validateSdp_eq (conf : Conf) (d : Desc) : validateSdp conf d = .success ∨ validateSdp conf d = .failure := by
  unfold validateSdp
  split_ifs <;> simp

theorem checkOrder_of_firstLine (conf : Conf) (tok : Token) (h : σ.firstLine = true) :
    (σ.checkOrder conf tok).firstLine = false ∧ (tok ≠ .v ∧ conf.versionReqd = true →
        (σ.checkOrder conf tok).result = .invalidTokenOrdering ∧ (σ.checkOrder conf tok).parseDone = true) ∧
      (¬(tok ≠ .v ∧ conf.versionReqd = true) → (σ.checkOrder conf tok).result = σ.result ∧
          (σ.checkOrder conf tok).parseDone = σ.parseDone) := by
  unfold ParseState.checkOrder
  simp only [h, if_true]
  split_ifs with hmissing
  · exact ⟨rfl, fun _ => ⟨rfl, rfl⟩, fun hnot => absurd hmissing hnot⟩
  · exact ⟨rfl, fun hyes => absurd hyes hmissing, fun _ => ⟨rfl, rfl⟩⟩

variable {d : Desc} {st : Stats} {buf : CStr} {len : UInt16}

theorem parse_result_of_error (hσ : (parseLoop conf (lineStarts len.toNat buf) buf (parseStart d st)).state = σ)
    (hfirst : σ.firstLine = false) (herror : σ.result ≠ .success) :
    (parse conf d st buf len).result = σ.result := by
  simp [parse, finish, hσ, hfirst, herror]

theorem parse_result_of_success (hσ : (parseLoop conf (lineStarts len.toNat buf) buf (parseStart d st)).state = σ)
    (hfirst : σ.firstLine = false) (hok : σ.result = .success) :
    (parse conf d st buf len).desc = σ.desc ∧ ((parse conf d st buf len).result = validateSdp conf σ.desc ∨
        validateSdp conf σ.desc = .success ∧ (parse conf d st buf len).result = .unrecognizedToken) := by
  simp only [parse, finish, hσ, hfirst, hok, if_true, Bool.false_eq_true, if_false, true_and]
  split_ifs with h
  · exact .inr ⟨h.1, rfl⟩
  · exact .inl rfl

/-- A description starts without the version line that is required. The error is overwritten with
the outcome of its first line. -/
def Overwrites (conf : Conf) (d : Desc) (st : Stats) (buf : CStr) (len : UInt16) : Prop :=
  conf.versionReqd = true ∧ ∃ v ∈ (parseVisits conf d st buf len).head?,
    v.tok ≠ .v ∧ v.lineResult conf ≠ .invalidTokenOrdering

/-- The verdict of a parse is sound, and keeps every error. -/
structure VerdictSound (conf : Conf) (d : Desc) (st : Stats) (buf : CStr) (len : UInt16) : Prop where
  version : (parse conf d st buf len).result = .success ∨
      (parse conf d st buf len).result = .unrecognizedToken →
    conf.versionReqd = true → (parseVisits conf d st buf len).head?.map Visit.tok = some .v
  lines : (parse conf d st buf len).result = .success ∨
      (parse conf d st buf len).result = .unrecognizedToken →
    ∀ v ∈ parseVisits conf d st buf len, v.Fine conf
  valid : (parse conf d st buf len).result = .success ∨
      (parse conf d st buf len).result = .unrecognizedToken →
    validateSdp conf (parse conf d st buf len).desc = .success
  order_kept : ∀ v ∈ parseVisits conf d st buf len, v.Parsed →
    (v.checked conf).result ≠ .success → (parse conf d st buf len).result = (v.checked conf).result
  line_kept : ∀ v ∈ parseVisits conf d st buf len, v.Parsed →
    v.lineResult conf ≠ .success → (parse conf d st buf len).result = v.lineResult conf

/-- Once the first line has been handled as it should, the verdict is sound. -/
theorem verdictSound_of_settled (hvisits : parseVisits conf d st buf len = v :: vs)
    (hσ : (parseLoop conf (lineStarts len.toNat buf) buf (parseStart d st)).state = σ)
    (hrest : Run conf (v.after conf) vs σ) (hknown : Known σ.result)
    (hsettled : (v.after conf).Settled) (hparsed : v.Parsed)
    (hresult : (v.after conf).result = v.lineResult conf)
    (horder : (v.checked conf).result ≠ .success → (v.checked conf).result = v.lineResult conf)
    (hversion : v.lineResult conf = .success → conf.versionReqd = true → v.tok = .v) :
    VerdictSound conf d st buf len := by
  obtain ⟨hσs, hkeep, hbefore, hline, hok⟩ := hrest.result_of_settled hsettled
  -- the outcome of the first line is kept as well
  have hfirst : v.lineResult conf ≠ .success → σ.result = v.lineResult conf := by
    intro herror
    rw [← hresult] at herror ⊢
    exact hkeep (by simpa [hsettled.parseDone] using herror)
  have hverdict : σ.result ≠ .success → (parse conf d st buf len).result = σ.result :=
    parse_result_of_error hσ hσs.firstLine
  have hsuccess : (parse conf d st buf len).result = .success ∨
      (parse conf d st buf len).result = .unrecognizedToken → σ.result = .success := by
    intro hres
    by_contra herror
    rw [hverdict herror] at hres
    exact hres.elim herror hknown
  refine ⟨fun hres hreqd => ?_, fun hres => ?_, fun hres => ?_, ?_, ?_⟩
  · have hsucc : v.lineResult conf = .success := by
      by_contra herror
      exact herror ((hfirst herror).symm.trans (hsuccess hres))
    rw [hvisits, List.head?_cons, Option.map_some, hversion hsucc hreqd]
  · rw [hvisits, List.forall_mem_cons]
    refine ⟨⟨hparsed.1, fun _ => ?_⟩, fun w hw => ?_⟩
    · by_contra herror
      exact herror ((hfirst herror).symm.trans (hsuccess hres))
    · have hdone := hok w hw (hsuccess hres)
      refine ⟨hdone, fun hplaced => ?_⟩
      by_contra herror
      exact herror ((hline w hw ⟨hdone, hplaced⟩ herror).symm.trans (hsuccess hres))
  · obtain ⟨hdesc, hvalid⟩ := parse_result_of_success hσ hσs.firstLine (hsuccess hres)
    rw [hdesc]
    rcases hvalid with hvalid | hvalid
    · rw [hvalid] at hres
      exact hres.resolve_right fun h => by rcases validateSdp_eq conf σ.desc with h' | h' <;> simp_all
    · exact hvalid.1
  · rw [hvisits, List.forall_mem_cons]
    refine ⟨fun _ herror => ?_, fun w hw hp herror => ?_⟩
    · have hfirst' : σ.result = v.lineResult conf := hfirst (horder herror ▸ herror)
      rw [horder herror, ← hfirst']
      exact hverdict (by rw [hfirst', ← horder herror]; exact herror)
    · -- a later line is parsed only while there is no error
      have hclean := (checkOrder_of_settled conf w.tok (hbefore w hw)).1
      have hdone := (hbefore w hw).parseDone
      rw [hp.1] at hdone
      exact absurd (hclean.trans (by simpa using hdone.symm)) herror
  · rw [hvisits, List.forall_mem_cons]
    refine ⟨fun _ herror => ?_, fun w hw hp herror => ?_⟩
    · rw [← hfirst herror]
      exact hverdict (hfirst herror ▸ herror)
    · rw [← hline w hw hp herror]
      exact hverdict (hline w hw hp herror ▸ herror)

theorem first_visit (hvisits : parseVisits conf d st buf len = v :: vs) :
    v.before = parseStart d st ∧ v.Parsed ∧ (v.after conf).firstLine = false ∧
      (v.after conf).result = v.lineResult conf ∧ Run conf (v.after conf) vs
        (parseLoop conf (lineStarts len.toNat buf) buf (parseStart d st)).state := by
  have hrun := visits_run conf (lineStarts len.toNat buf) buf (parseStart d st)
  rw [← parseVisits, hvisits] at hrun
  generalize hσ₀ : parseStart d st = σ₀ at hrun
  cases hrun with
  | cons hgo hrest =>
    have hparsed : v.Parsed := by
      rw [Visit.Parsed, ← hσ₀]
      exact ⟨rfl, rfl⟩
    have hfirst := (checkOrder_of_firstLine conf v.tok (show v.before.firstLine = true by rw [← hσ₀]; rfl)).1
    have hafter := Visit.after_of_parsed conf hparsed
    refine ⟨rfl, hparsed, ?_, ?_, hrest⟩
    · rw [hafter]
      exact hfirst
    · rw [hafter]
      rfl

theorem first_visit_of_missing (hvisits : parseVisits conf d st buf len = v :: vs)
    (hmissing : v.tok ≠ .v ∧ conf.versionReqd = true) :
    (v.checked conf).result = .invalidTokenOrdering ∧ (v.after conf).parseDone = true := by
  obtain ⟨hbefore, hparsed, -⟩ := first_visit hvisits
  obtain ⟨hresult, hdone⟩ := (checkOrder_of_firstLine conf v.tok
    (show v.before.firstLine = true by rw [hbefore]; rfl)).2.1 hmissing
  refine ⟨hresult, ?_⟩
  rw [Visit.after_of_parsed conf hparsed]
  simp [ParseState.parseLine, Visit.checked, hdone]

theorem verdictSound_of_version (hvisits : parseVisits conf d st buf len = v :: vs)
    (hversion : ¬(v.tok ≠ .v ∧ conf.versionReqd = true)) : VerdictSound conf d st buf len := by
  obtain ⟨hbefore, hparsed, hfirst, hresult, hrest⟩ := first_visit hvisits
  obtain ⟨hcheckedResult, hcheckedDone⟩ := (checkOrder_of_firstLine conf v.tok
    (show v.before.firstLine = true by rw [hbefore]; rfl)).2.2 hversion
  have hknown : Known (v.after conf).result := by
    rw [hresult]
    exact v.lineResult_known
  refine verdictSound_of_settled hvisits rfl hrest (hrest.known hknown) ⟨hfirst, ?_⟩ hparsed hresult
    (fun herror => ?_) (fun _ hreqd => ?_)
  · rw [Visit.after_of_parsed conf hparsed]
    simp [ParseState.parseLine, Visit.checked, hcheckedDone, hparsed.1]
  · refine absurd (hcheckedResult.trans ?_) herror
    rw [hbefore]
    rfl
  · by_contra htok
    exact hversion ⟨htok, hreqd⟩

theorem parse_result_of_nil (hvisits : parseVisits conf d st buf len = []) :
    (parse conf d st buf len).result = .notSdpDescription := by
  have hrun := visits_run conf (lineStarts len.toNat buf) buf (parseStart d st)
  rw [← parseVisits, hvisits] at hrun
  have hfirst : (parseLoop conf (lineStarts len.toNat buf) buf (parseStart d st)).state.firstLine = true := by
    rw [hrun.eq_of_nil]
    rfl
  simp [parse, finish, hfirst]

/-- The verdict of a parse is sound, and keeps every error, unless the description starts without the
version line that is required, and its first line is parsed with another outcome. -/
theorem parse_verdict_iff (conf : Conf) (d : Desc) (st : Stats) (buf : CStr) (len : UInt16) :
    VerdictSound conf d st buf len ↔ ¬Overwrites conf d st buf len := by
  cases hvisits : parseVisits conf d st buf len with
  | nil =>
    have hverdict := parse_result_of_nil hvisits
    refine iff_of_true ?_ ?_
    · constructor <;> simp [hvisits, hverdict]
    · rintro ⟨-, v, hv, -⟩
      simp [hvisits] at hv
  | cons v vs =>
    by_cases hmissing : v.tok ≠ .v ∧ conf.versionReqd = true
    · obtain ⟨-, hparsed, hfirst, hresult, hrest⟩ := first_visit hvisits
      obtain ⟨hchecked, hdone⟩ := first_visit_of_missing hvisits hmissing
      have hoverwrites : Overwrites conf d st buf len ↔
          v.lineResult conf ≠ .invalidTokenOrdering := by
        simp [Overwrites, hvisits, hmissing]
      rw [hoverwrites, not_not, ← hresult]
      constructor
      · -- the run goes on with the outcome of the first line
        intro hsound
        have hverdict := hsound.order_kept v (by simp [hvisits]) hparsed (by rw [hchecked]; nofun)
        rw [hchecked] at hverdict
        have hσ := hrest.eq_of_parseDone hdone
        by_cases hok : (v.after conf).result = .success
        · exfalso
          obtain ⟨-, hvalid⟩ := parse_result_of_success hσ hfirst hok
          rw [hverdict] at hvalid
          rcases validateSdp_eq conf (v.after conf).desc with h | h <;> simp [h] at hvalid
        · rw [← hverdict]
          exact (parse_result_of_error hσ hfirst hok).symm
      · intro hsame
        have hknown : Known (v.after conf).result := by
          rw [hsame]
          nofun
        refine verdictSound_of_settled hvisits rfl hrest (hrest.known hknown)
          ⟨hfirst, by rw [hdone, hsame]; rfl⟩ hparsed hresult (fun _ => ?_) (fun hok => ?_)
        · rw [hchecked, ← hresult, hsame]
        · rw [← hresult, hsame] at hok
          cases hok
    · refine iff_of_true (verdictSound_of_version hvisits hmissing) ?_
      rintro ⟨hreqd, w, hw, htok, -⟩
      obtain rfl : v = w := by simpa [hvisits] using hw
      exact hmissing ⟨htok, hreqd⟩

/-- Two lines without a version. -/
def unversionedText : CStr := "s=x\r\na=sendrecv\r\n"

/-- The text is accepted although the version is required, and its second line is not parsed. -/
theorem not_verdictSound_unversionedText :
    (parse versionRequired {} {} unversionedText 17).result = .success ∧
      (parseVisits versionRequired {} {} unversionedText 17).map
        (fun v => (v.tok, v.before.parseDone)) = [(.s, false), (.a, true)] ∧
      ¬VerdictSound versionRequired {} {} unversionedText 17 := by
  have hresult : (parse versionRequired {} {} unversionedText 17).result = .success := by
    decide
  refine ⟨hresult, by decide, fun h => ?_⟩
  have hhead := h.version (.inl hresult) rfl
  revert hhead
  decide

end Sdp
