import Ikran.Dialplan.Template
import Mathlib.Data.List.TakeWhile

/-!
# The language of a pattern

What a pattern says about a dialed string, apart from the loop that reads it.
-/

namespace Dialplan

/-- The language of a pattern when a star is any non-empty string and a comma the empty one. -/
inductive Documented : CStr → CStr → Prop
  | nil : Documented [] []
  | comma {p s} (h : Documented p s) : Documented (',' :: p) s
  | dot {p c s} (hc : isDialedDigit false c) (h : Documented p s) : Documented ('.' :: p) (c :: s)
  | star {p run s} (hrun : run ≠ []) (h : Documented p s) : Documented ('*' :: p) (run ++ s)
  | escape {p c s} (h : Documented p s) : Documented ('\\' :: c :: p) (c :: s)
  | literal {p c s} (hc : c ∉ [',', '.', '*']) (hesc : c = '\\' → p = []) (h : Documented p s) :
      Documented (c :: p) (c :: s)

/-- The language of a pattern as it is matched: a star takes one character, and then all up to the first
one that is the next pattern character, and a comma is empty in front of a further character. -/
inductive Hungry : CStr → CStr → Prop
  | nil : Hungry [] []
  | comma {p c s} (h : Hungry p (c :: s)) : Hungry (',' :: p) (c :: s)
  | dot {p c s} (hc : isDialedDigit false c) (h : Hungry p s) : Hungry ('.' :: p) (c :: s)
  | star {p c run s} (hrun : ∀ d ∈ run, starStop p ≠ some d)
      (hs : ∀ d ∈ s.head?, starStop p = some d) (h : Hungry p s) :
      Hungry ('*' :: p) (c :: (run ++ s))
  | escape {p c s} (h : Hungry p s) : Hungry ('\\' :: c :: p) (c :: s)
  | literal {p c s} (hc : c ∉ [',', '*']) (hesc : c = '\\' → p = []) (h : Hungry p s) :
      Hungry (c :: p) (c :: s)

/-- The pattern reads the dialed string, up to its terminator, and then has the given rest left. The
number is how often commas were skipped on the way. -/
inductive Reads (pound : Bool) : CStr → CStr → CStr → ℕ → Prop
  | done (p) : Reads pound p [] p 0
  | comma {p c s r n} (h : Reads pound (p.dropWhile (· = ',')) (c :: s) r n) :
      Reads pound (',' :: p) (c :: s) r (n + 1)
  | dot {p c s r n} (hc : isDialedDigit pound c) (h : Reads pound p s r n) :
      Reads pound ('.' :: p) (c :: s) r n
  | star {p c run s r n} (hc : (c = '#' && pound) = false) (hrun : ∀ d ∈ run, starTakes pound p d)
      (hs : ∀ d ∈ s.head?, starTakes pound p d = false) (h : Reads pound p s r n) :
      Reads pound ('*' :: p) (c :: (run ++ s)) r n
  | starPound {p s r n} (hpound : pound = true) (h : Reads pound p s r n) :
      Reads pound ('*' :: p) ('#' :: s) r n
  | escape {p c s r n} (h : Reads pound p s r n) : Reads pound ('\\' :: c :: p) (c :: s) r n
  | literal {p c s r n} (hc : c ∉ [',', '*']) (hesc : c = '\\' → p = [])
      (h : Reads pound p s r n) : Reads pound (c :: p) (c :: s) r n
  | terminator {p s} (hpound : pound = true) (hp : p.peek ∉ [',', '*'])
      (hlit : (skipEscape p).head? ≠ some '#') : Reads pound p ('#' :: s) p 0

/-! ## The rule for each pattern character -/

variable {pound : Bool} {p r : CStr} {n : ℕ}

theorem reads_nil_iff : Reads pound p [] r n ↔ r = p ∧ n = 0 := by
  constructor
  · intro h
    cases h
    exact ⟨rfl, rfl⟩
  · rintro ⟨rfl, rfl⟩
    exact .done _

variable {s : CStr} {c : Char}

theorem reads_comma_iff : Reads pound (',' :: p) (c :: s) r n ↔
      ∃ k, n = k + 1 ∧ Reads pound (p.dropWhile (· = ',')) (c :: s) r k := by
  constructor
  · intro h
    cases h with
    | comma h => exact ⟨_, rfl, h⟩
    | literal hc => simp at hc
    | terminator _ hp => simp at hp
  · rintro ⟨k, rfl, h⟩
    exact .comma h

theorem reads_dot_iff (hc : isDialedDigit pound c) : Reads pound ('.' :: p) (c :: s) r n ↔ Reads pound p s r n := by
  constructor
  · intro h
    cases h with
    | dot _ h => exact h
    | literal => exact absurd hc (by cases pound <;> decide)
    | terminator hpound => subst hpound; exact absurd hc (by decide)
  · exact .dot hc

theorem reads_star_iff : Reads pound ('*' :: p) (c :: s) r n ↔ Reads pound p (s.drop (starRun pound p c s)) r n := by
  unfold starRun
  constructor
  · intro h
    cases h with
    | star hc hrun hs h =>
      rename_i run s
      have htake : (run ++ s).takeWhile (starTakes pound p) = run := by
        rw [List.takeWhile_append_of_pos hrun]
        cases s with
        | nil => simp
        | cons d s => simp [hs d rfl]
      rw [if_neg (by simp [hc]), htake, List.drop_left]
      exact h
    | starPound hpound h => simpa [hpound] using h
    | literal hc => simp at hc
    | terminator _ hp => simp at hp
  · intro h
    split_ifs at h with hc
    · simp only [Bool.and_eq_true, decide_eq_true_eq] at hc
      obtain ⟨rfl, hpound⟩ := hc
      exact .starPound hpound h
    · have hsplit := List.takeWhile_append_dropWhile (p := starTakes pound p) (l := s)
      have hdrop : s.drop (s.takeWhile (starTakes pound p)).length = s.dropWhile (starTakes pound p) := by
        calc s.drop (s.takeWhile (starTakes pound p)).length
          _ = (s.takeWhile (starTakes pound p) ++ s.dropWhile (starTakes pound p)).drop
                (s.takeWhile (starTakes pound p)).length := by rw [hsplit]
          _ = s.dropWhile (starTakes pound p) := List.drop_left
      rw [hdrop] at h
      rw [← hsplit]
      refine .star (by simpa using hc) (fun d hd => List.mem_takeWhile_imp hd) (fun d hd => ?_) h
      have hhead := List.head?_dropWhile_not (starTakes pound p) s
      rw [Option.mem_def.mp hd] at hhead
      exact hhead

/-- Any other character takes itself, once it is no escape character, or ends at the terminator. -/
theorem reads_literal_iff
    (hcomma : p.peek ≠ ',') (hdot : ¬ (p.peek = '.' ∧ isDialedDigit pound c)) (hstar : p.peek ≠ '*') :
    Reads pound p (c :: s) r n ↔ ((skipEscape p).head? = some c ∧ Reads pound (skipEscape p).tail s r n) ∨
        ((skipEscape p).head? ≠ some c ∧ c = '#' ∧ pound = true ∧ r = p ∧ n = 0) := by
  constructor
  · intro h
    cases h with
    | comma => simp at hcomma
    | dot hc => simp [hc] at hdot
    | star | starPound => simp at hstar
    | escape h => exact .inl ⟨by simp [skipEscape], by simpa [skipEscape] using h⟩
    | literal hc hesc h =>
      rename_i p
      have hskip : skipEscape (c :: p) = c :: p := by
        unfold skipEscape
        rw [if_neg]
        rintro ⟨hpeek, htail⟩
        exact htail (hesc hpeek)
      rw [hskip]
      exact .inl ⟨rfl, h⟩
    | terminator hpound _ hlit => exact .inr ⟨hlit, rfl, hpound, rfl, rfl⟩
  · rintro (⟨hhead, h⟩ | ⟨hhead, rfl, hpound, rfl, rfl⟩)
    · unfold skipEscape at hhead h
      split_ifs at hhead h with hesc
      · obtain ⟨hpeek, htail⟩ := hesc
        rcases p with _ | ⟨e, _ | ⟨d, p⟩⟩
        · simp at htail
        · simp at htail
        · obtain rfl : e = '\\' := hpeek
          obtain rfl : d = c := by simpa using hhead
          exact .escape h
      · rcases p with _ | ⟨d, p⟩
        · simp at hhead
        · obtain rfl : d = c := by simpa using hhead
          refine .literal (by simpa using ⟨hcomma, hstar⟩) (fun hd => ?_) h
          by_contra hne
          exact hesc ⟨hd, hne⟩
    · exact .terminator hpound (by simpa using ⟨hcomma, hstar⟩) hhead

theorem reads_dotRun_iff (s p : CStr) :
    Reads pound (p.drop (dotRun s p)) (s.drop (dotRun s p)) r n ↔ Reads pound p s r n := by
  fun_induction dotRun s p with
  | case1 c s p hc ih =>
    rw [reads_dot_iff (by simp [isDialedDigit, hc]), List.drop_succ_cons, List.drop_succ_cons]
    exact ih
  | case2 => rfl
  | case3 => rfl

/-! ## The loop -/

/-- The pattern that is left reads the input that is left, and then as many commas have been counted. -/
def ReadsFrom (pound : Bool) (m : Matching) (rest : CStr) (commas : ℕ) : Prop :=
  ∃ n, commas = m.commaCounter + n ∧ Reads pound m.pmatch m.pinput rest n

theorem readsFrom_skipCommas {m : Matching} (hinput : m.pinput ≠ []) {rest : CStr}
    {commas : ℕ} : ReadsFrom pound m.skipCommas rest commas ↔ ReadsFrom pound m rest commas := by
  obtain ⟨c, s, hcs⟩ := List.exists_cons_of_ne_nil hinput
  rcases m with ⟨pinput, pmatch, len, ty, subs, counter, dialnow⟩
  simp only at hcs
  subst hcs
  unfold Matching.skipCommas ReadsFrom
  split_ifs with hpeek
  · rcases pmatch with _ | ⟨d, p⟩
    · exact absurd (show CStr.nul = ',' from hpeek) (by decide)
    · obtain rfl : d = ',' := hpeek
      simp only [reads_comma_iff, List.dropWhile_cons, decide_true, if_true]
      constructor
      · rintro ⟨n, rfl, h⟩
        exact ⟨n + 1, by omega, n, rfl, h⟩
      · rintro ⟨_, rfl, n, rfl, h⟩
        exact ⟨n, by omega, h⟩
  · rfl

theorem peek_skipCommas (m : Matching) : m.skipCommas.pmatch.peek ≠ ',' := by
  unfold Matching.skipCommas
  split_ifs with hpeek
  · intro hcomma
    have hhead := List.head?_dropWhile_not (· = ',') m.pmatch
    cases hdrop : m.pmatch.dropWhile (· = ',') with
    | nil =>
      rw [hdrop] at hcomma
      exact absurd (show CStr.nul = ',' from hcomma) (by decide)
    | cons d p =>
      simp only [hdrop, CStr.peek_cons] at hcomma
      simp [hdrop, hcomma] at hhead
  · exact hpeek

@[simp]
theorem pinput_skipCommas (m : Matching) : m.skipCommas.pinput = m.pinput := by
  unfold Matching.skipCommas
  split_ifs <;> rfl

@[simp]
theorem thismatch_skipCommas (m : Matching) : m.skipCommas.thismatch = m.thismatch := by
  unfold Matching.skipCommas
  split_ifs <;> rfl

@[simp]
theorem thismatchlen_skipCommas (m : Matching) : m.skipCommas.thismatchlen = m.thismatchlen := by
  unfold Matching.skipCommas
  split_ifs <;> rfl

/-- A mismatch: nothing reads the dialed string. -/
structure Mismatched (pound : Bool) (m r : Matching) : Prop where
  thismatch : r.thismatch = .noMatch
  thismatchlen : r.thismatchlen = -1
  reads : ∀ rest commas, ¬ ReadsFrom pound m rest commas

/-- The dialed string has been read, with the given rest of the pattern left. -/
structure ReadTo (pound : Bool) (m r : Matching) (rest : CStr) : Prop where
  thismatch : r.thismatch ≠ .noMatch
  thismatchlen : m.thismatchlen ≤ r.thismatchlen
  ended : r.pinput = [] ∨ r.dialnow = true
  pmatch : r.pmatch = rest ∨ r.pmatch = skipEscape rest
  reads : ∀ rest' commas, ReadsFrom pound m rest' commas ↔ rest' = rest ∧ commas = r.commaCounter

/-- **What the loop over the dialed string does.** Either the pattern does not read the dialed string, or
it reads it in one way, and the loop ends with what is left of the pattern. -/
theorem matchLoop_spec (pound : Bool) (fuel : ℕ) (m : Matching) (hfuel : m.pinput.length ≤ fuel)
    (hm : m.thismatch ≠ .noMatch) :
    Mismatched pound m (matchLoop pound fuel m) ∨ ∃ rest, ReadTo pound m (matchLoop pound fuel m) rest := by
  induction fuel generalizing m with
  | zero =>
    have hnil : m.pinput = [] := List.length_eq_zero_iff.mp (Nat.le_zero.mp hfuel)
    refine .inr ⟨m.pmatch, hm, Int.le_refl _, .inl hnil, .inl rfl, fun rest' commas => ?_⟩
    simp [ReadsFrom, hnil, reads_nil_iff, and_comm, matchLoop]
  | succ fuel ih =>
    rw [matchLoop]
    split
    · rename_i hnil
      refine .inr ⟨m.pmatch, hm, Int.le_refl _, .inl hnil, .inl rfl, fun rest' commas => ?_⟩
      simp [ReadsFrom, hnil, reads_nil_iff, and_comm]
    · rename_i c s hcs
      -- a step that keeps the ways to read the rest hands the outcome of the loop on
      have hstep : ∀ m' : Matching, m'.pinput.length ≤ fuel → m'.thismatch ≠ .noMatch →
          m.thismatchlen ≤ m'.thismatchlen →
          (∀ rest commas, ReadsFrom pound m' rest commas ↔ ReadsFrom pound m rest commas) →
          Mismatched pound m (matchLoop pound fuel m') ∨ ∃ rest, ReadTo pound m (matchLoop pound fuel m') rest := by
        intro m' hlen hty hmlen hreads
        rcases ih m' hlen hty with hmis | ⟨rest, hread⟩
        · exact .inl ⟨hmis.thismatch, hmis.thismatchlen, fun rest commas h =>
            hmis.reads rest commas ((hreads rest commas).mpr h)⟩
        · exact .inr ⟨rest, hread.thismatch, Int.le_trans hmlen hread.thismatchlen, hread.ended,
            hread.pmatch, fun rest' commas => (hreads rest' commas).symm.trans
              (hread.reads rest' commas)⟩
      have hskip : ∀ rest commas, ReadsFrom pound m.skipCommas rest commas ↔ ReadsFrom pound m rest commas :=
        fun rest commas => readsFrom_skipCommas (by simp [hcs])
      have hlen : s.length ≤ fuel := by
        simp only [hcs, List.length_cons] at hfuel
        omega
      have hcomma := peek_skipCommas m
      have hcs' : m.skipCommas.pinput = c :: s := by rw [pinput_skipCommas, hcs]
      split_ifs with hdot hstar
      · have hpat := CStr.cons_tail_of_peek hdot.1 (by decide)
        refine hstep _ ?_ (by simp [Matching.matchDot]) (by simp [Matching.matchDot])
          fun rest commas => ?_
        · simp only [Matching.matchDot, List.length_drop]
          omega
        · rw [← hskip, ReadsFrom, ReadsFrom, hcs']
          simp only [Matching.matchDot, reads_dotRun_iff]
          rw [hpat]
          simp only [List.tail_cons, reads_dot_iff hdot.2]
      · have hpat := CStr.cons_tail_of_peek hstar (by decide)
        refine hstep _ ?_ (by simp [Matching.matchStar]) (by simp [Matching.matchStar])
          fun rest commas => ?_
        · simp only [Matching.matchStar, List.length_drop]
          omega
        · rw [← hskip, ReadsFrom, ReadsFrom, hcs']
          simp only [Matching.matchStar]
          rw [hpat]
          simp only [List.tail_cons, reads_star_iff]
      · have hlit : ∀ rest commas, ReadsFrom pound m rest commas ↔ ∃ n, commas = m.skipCommas.commaCounter + n ∧
              (((skipEscape m.skipCommas.pmatch).head? = some c ∧
                  Reads pound (skipEscape m.skipCommas.pmatch).tail s rest n) ∨
                ((skipEscape m.skipCommas.pmatch).head? ≠ some c ∧ c = '#' ∧ pound = true ∧
                  rest = m.skipCommas.pmatch ∧ n = 0)) := by
          intro rest commas
          rw [← hskip, ReadsFrom, hcs']
          simp only [reads_literal_iff hcomma hdot hstar]
        unfold Matching.matchLiteral
        split_ifs with hne hpound
        · simp only [Bool.and_eq_true, decide_eq_true_eq] at hpound
          refine .inr ⟨m.skipCommas.pmatch, by simpa using hm, by simp, .inr rfl, .inr rfl,
            fun rest commas => ?_⟩
          rw [hlit]
          constructor
          · rintro ⟨n, rfl, ⟨hhead, -⟩ | ⟨-, -, -, rfl, rfl⟩⟩
            · exact absurd hhead hne
            · exact ⟨rfl, rfl⟩
          · rintro ⟨rfl, rfl⟩
            exact ⟨0, rfl, .inr ⟨hne, hpound.1, hpound.2, rfl, rfl⟩⟩
        · refine .inl ⟨rfl, rfl, fun rest commas h => ?_⟩
          obtain ⟨n, -, ⟨hhead, -⟩ | ⟨-, hc, hp, -⟩⟩ := (hlit rest commas).mp h
          · exact hne hhead
          · exact hpound (by simp [hc, hp])
        · refine hstep _ hlen (by simpa using hm) (by simp only [thismatchlen_skipCommas]; omega) fun rest commas => ?_
          rw [hlit, ReadsFrom]
          constructor
          · rintro ⟨n, hn, h⟩
            exact ⟨n, hn, .inl ⟨not_not.mp hne, h⟩⟩
          · rintro ⟨n, hn, ⟨-, h⟩ | ⟨hhead, -⟩⟩
            · exact ⟨n, hn, h⟩
            · exact absurd (not_not.mp hne) hhead

theorem skipEscape_eq_nil_iff : skipEscape p = [] ↔ p = [] := by
  unfold skipEscape
  split_ifs with hesc
  · constructor
    · exact fun h => absurd h hesc.2
    · rintro rfl
      exact absurd rfl hesc.2
  · rfl

/-- **What one pattern says about a dialed string.** It does not read it, or it reads it in one way. -/
theorem matchTemplate_spec (pound : Bool) (pattern dialed : CStr) :
    Mismatched pound { pinput := dialed, pmatch := pattern } (matchTemplate pound pattern dialed) ∨
      ∃ rest, ReadTo pound { pinput := dialed, pmatch := pattern } (matchTemplate pound pattern dialed) rest :=
  matchLoop_spec pound dialed.length _ le_rfl (by simp)

variable {dialed pattern : CStr}

theorem readsFrom_start_iff {rest : CStr} : ReadsFrom pound { pinput := dialed, pmatch := pattern } rest n ↔
      Reads pound pattern dialed rest n := by
  simp [ReadsFrom]

theorem fullyMatches_iff (pound : Bool) (pattern dialed : CStr) : ((matchTemplate pound pattern dialed).pmatch = [] ∧
        (matchTemplate pound pattern dialed).thismatch ≠ .noMatch) ↔
      ∃ n, Reads pound pattern dialed [] n := by
  rcases matchTemplate_spec pound pattern dialed with hmis | ⟨rest, hread⟩
  · constructor
    · rintro ⟨-, hne⟩
      exact absurd hmis.thismatch hne
    · rintro ⟨n, h⟩
      exact absurd (readsFrom_start_iff.mpr h) (hmis.reads [] n)
  · have hrest : (matchTemplate pound pattern dialed).pmatch = [] ↔ rest = [] := by
      rcases hread.pmatch with heq | heq <;> rw [heq]
      exact skipEscape_eq_nil_iff
    rw [hrest]
    constructor
    · rintro ⟨rfl, -⟩
      exact ⟨_, readsFrom_start_iff.mp ((hread.reads [] _).mpr ⟨rfl, rfl⟩)⟩
    · rintro ⟨n, h⟩
      exact ⟨((hread.reads [] n).mp (readsFrom_start_iff.mpr h)).1.symm, hread.thismatch⟩

/-! ## Dialed strings without a terminator -/

theorem hungry_of_dropWhile (h : Hungry (p.dropWhile (· = ',')) (c :: s)) : Hungry p (c :: s) := by
  induction p with
  | nil => exact h
  | cons d p ih =>
    rw [List.dropWhile_cons] at h
    split_ifs at h with hd
    · obtain rfl : d = ',' := by simpa using hd
      exact .comma (ih h)
    · exact h

theorem reads_dropWhile (h : Reads pound p (c :: s) r n) : ∃ k, Reads pound (p.dropWhile (· = ',')) (c :: s) r k := by
  cases p with
  | nil => exact ⟨n, h⟩
  | cons d p =>
    rw [List.dropWhile_cons]
    split_ifs with hd
    · obtain rfl : d = ',' := by simpa using hd
      obtain ⟨k, -, hk⟩ := reads_comma_iff.mp h
      exact ⟨k, hk⟩
    · exact ⟨n, h⟩

theorem isDialedDigit_of_ne (hc : c ≠ '#') : isDialedDigit pound c = isDialedDigit false c := by
  simp [isDialedDigit, hc]

theorem starTakes_of_ne (hc : c ≠ '#') : starTakes pound p c = decide (starStop p ≠ some c) := by
  simp [starTakes, hc]

theorem hungry_of_reads (h : Reads pound p s r n) (hs : '#' ∉ s) (hr : r = []) : Hungry p s := by
  induction h with
  | done p => exact hr ▸ .nil
  | comma _ ih => exact .comma (hungry_of_dropWhile (ih hs hr))
  | dot hc _ ih =>
    simp only [List.mem_cons, not_or] at hs
    exact .dot (isDialedDigit_of_ne (Ne.symm hs.1) ▸ hc) (ih hs.2 hr)
  | @star p c run s r n hc hrun hhead _ ih =>
    simp only [List.mem_cons, List.mem_append, not_or] at hs
    refine .star (fun d hd => ?_) (fun d hd => ?_) (ih hs.2.2 hr)
    · have hne : d ≠ '#' := fun heq => hs.2.1 (heq ▸ hd)
      simpa [starTakes_of_ne hne] using hrun d hd
    · have hne : d ≠ '#' := fun heq => hs.2.2 (heq ▸ List.mem_of_mem_head? hd)
      simpa [starTakes_of_ne hne] using hhead d hd
  | starPound => simp at hs
  | escape _ ih => exact .escape (ih (by simp_all) hr)
  | literal hc hesc _ ih => exact .literal hc hesc (ih (by simp_all) hr)
  | terminator => simp at hs

theorem reads_of_hungry (h : Hungry p s) (hs : '#' ∉ s) : ∃ n, Reads pound p s [] n := by
  induction h with
  | nil => exact ⟨0, .done []⟩
  | comma _ ih =>
    obtain ⟨n, hn⟩ := ih hs
    obtain ⟨k, hk⟩ := reads_dropWhile hn
    exact ⟨k + 1, .comma hk⟩
  | dot hc _ ih =>
    simp only [List.mem_cons, not_or] at hs
    obtain ⟨n, hn⟩ := ih hs.2
    refine ⟨n, .dot ?_ hn⟩
    rw [isDialedDigit_of_ne (Ne.symm hs.1)]
    exact hc
  | @star p c run s hrun hhead _ ih =>
    simp only [List.mem_cons, List.mem_append, not_or] at hs
    obtain ⟨n, hn⟩ := ih hs.2.2
    refine ⟨n, .star (by simp [Ne.symm hs.1]) (fun d hd => ?_) (fun d hd => ?_) hn⟩
    · have hne : d ≠ '#' := fun heq => hs.2.1 (heq ▸ hd)
      simpa [starTakes_of_ne hne] using hrun d hd
    · have hne : d ≠ '#' := fun heq => hs.2.2 (heq ▸ List.mem_of_mem_head? hd)
      simpa [starTakes_of_ne hne] using hhead d hd
  | escape _ ih =>
    obtain ⟨n, hn⟩ := ih (by simp_all)
    exact ⟨n, .escape hn⟩
  | literal hc hesc _ ih =>
    obtain ⟨n, hn⟩ := ih (by simp_all)
    exact ⟨n, .literal hc hesc hn⟩

/-! ## Templates that are matched -/

def DialMatchAction.IsMatch (a : DialMatchAction) : Prop :=
  a = .wildPattern ∨ a = .fullPattern ∨ a = .fullMatch

theorem matchLoop_invariant (pound : Bool) {P : Matching → Prop} (hskip : ∀ m, P m → P m.skipCommas)
    (hdot : ∀ m c s, m.pinput = c :: s → P m → P (m.matchDot s))
    (hstar : ∀ m c s, m.pinput = c :: s → P m → P (m.matchStar pound c s))
    (hliteral : ∀ m c s, m.pinput = c :: s → P m → (m.matchLiteral pound c s).elim P P)
    (fuel : ℕ) (m : Matching) (hm : P m) : P (matchLoop pound fuel m) := by
  induction fuel generalizing m with
  | zero => exact hm
  | succ fuel ih =>
    rw [matchLoop]
    split
    · exact hm
    · rename_i c s hcs
      have hcs' : m.skipCommas.pinput = c :: s := by rw [pinput_skipCommas, hcs]
      split_ifs
      · exact ih _ (hdot _ _ _ hcs' (hskip m hm))
      · exact ih _ (hstar _ _ _ hcs' (hskip m hm))
      · have hnext := hliteral _ _ _ hcs' (hskip m hm)
        split <;> rename_i heq <;> rw [heq] at hnext
        · exact hnext
        · exact ih _ hnext

theorem dialnow_matchTemplate
    (h : (matchTemplate pound pattern dialed).dialnow = true) : pound = true ∧ '#' ∈ dialed := by
  have hloop := matchLoop_invariant pound
    (P := fun m => m.pinput ⊆ dialed ∧ (m.dialnow = true → pound = true ∧ '#' ∈ dialed))
    ?_ ?_ ?_ ?_ dialed.length { pinput := dialed, pmatch := pattern }
    ⟨fun _ hd => hd, by simp⟩
  · exact hloop.2 h
  · rintro m hm
    unfold Matching.skipCommas
    split_ifs <;> exact hm
  · rintro m c s hcs ⟨hinput, hnow⟩
    exact ⟨fun d hd => hinput (hcs ▸ List.mem_cons_of_mem c (List.mem_of_mem_drop hd)), hnow⟩
  · rintro m c s hcs ⟨hinput, hnow⟩
    refine ⟨fun d hd => hinput (hcs ▸ List.mem_cons_of_mem c (List.mem_of_mem_drop hd)), ?_⟩
    simp only [Matching.matchStar, Bool.or_eq_true, Bool.and_eq_true, decide_eq_true_eq]
    rintro (hbefore | ⟨rfl, hpound⟩)
    · exact hnow hbefore
    · exact ⟨hpound, hinput (hcs ▸ List.mem_cons_self)⟩
  · rintro m c s hcs ⟨hinput, hnow⟩
    unfold Matching.matchLiteral
    split_ifs with hne hpound
    · simp only [Bool.and_eq_true, decide_eq_true_eq] at hpound
      exact ⟨hinput, fun _ => ⟨hpound.2, hinput (hcs ▸ hpound.1 ▸ List.mem_cons_self)⟩⟩
    · exact ⟨hinput, hnow⟩
    · exact ⟨fun d hd => hinput (hcs ▸ List.mem_cons_of_mem c hd), hnow⟩

theorem isMatch_of_reads (h : (matchTemplate pound pattern dialed).thismatch ≠ .noMatch) :
    (matchTemplate pound pattern dialed).thismatch.IsMatch := by
  have hloop := matchLoop_invariant pound (P := fun m => m.thismatch = .noMatch ∨ m.thismatch.IsMatch)
    ?_ ?_ ?_ ?_ dialed.length { pinput := dialed, pmatch := pattern }
    (by simp [DialMatchAction.IsMatch])
  · exact hloop.resolve_left h
  · intro m hm
    rw [thismatch_skipCommas]
    exact hm
  · intro m c s _ _
    simp [Matching.matchDot, DialMatchAction.IsMatch]
  · intro m c s _ _
    simp [Matching.matchStar, DialMatchAction.IsMatch]
  · intro m c s _ hm
    unfold Matching.matchLiteral
    split_ifs
    · exact hm
    · exact .inl rfl
    · exact hm

/-- The pass takes the template as its best match: its pattern is used up, and it is better than the
templates before it. -/
def TakenAsMatch (pound : Bool) (dialed : CStr) (b : Best) (t : DialTemplate) : Prop :=
  (matchTemplate pound t.pattern dialed).pmatch = [] ∧
    b.betterFull (matchTemplate pound t.pattern dialed)

theorem thismatch_ne_of_betterFull {b : Best} (h : b.betterFull (matchTemplate pound pattern dialed)) :
    (matchTemplate pound pattern dialed).thismatch ≠ .noMatch := by
  intro hno
  rcases matchTemplate_spec pound pattern dialed with hmis | ⟨rest, hread⟩
  · simp only [Best.betterFull, hmis.thismatch, hmis.thismatchlen] at h
    simp [DialMatchAction.toNat] at h
    omega
  · exact hread.thismatch hno

theorem takenAsMatch_iff (hdialed : '#' ∉ dialed) (b : Best) (t : DialTemplate) : TakenAsMatch pound dialed b t ↔
      Hungry t.pattern dialed ∧ b.betterFull (matchTemplate pound t.pattern dialed) := by
  have hfull := fullyMatches_iff pound t.pattern dialed
  have hlang : (∃ n, Reads pound t.pattern dialed [] n) ↔ Hungry t.pattern dialed :=
    ⟨fun ⟨_, h⟩ => hungry_of_reads h hdialed rfl, fun h => reads_of_hungry h hdialed⟩
  rw [hlang] at hfull
  constructor
  · rintro ⟨hpmatch, hbetter⟩
    exact ⟨hfull.mp ⟨hpmatch, thismatch_ne_of_betterFull hbetter⟩, hbetter⟩
  · rintro ⟨hlang, hbetter⟩
    exact ⟨(hfull.mpr hlang).1, hbetter⟩

end Dialplan
