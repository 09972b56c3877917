import Ikran.Sip.TokenParams

/-!
# Parameters a parser does not know

What a parameter under an unknown name does to the ones around it: a name alone is passed over, except at the end of a
list, and the value of an unknown parameter ends the reading.
-/

namespace Sip

open CStr

/-- Parameters, with a semicolon between any two. -/
def paramsText (ps : List ParamItem) : CStr := List.intercalate [';'] (ps.map fun p => p.front ++ p.body)

/-- What stands behind the first parameter of a list. -/
def restText (ps : List ParamItem) : CStr := if ps = [] then [] else ';' :: paramsText ps

theorem itemTail_restText (ps : List ParamItem) : ItemTail (restText ps) := by
  rw [restText]
  split_ifs
  · exact .inl rfl
  · exact .inr ⟨_, rfl⟩

theorem paramsText_cons (p : ParamItem) (ps : List ParamItem) :
    paramsText (p :: ps) = p.front ++ (p.body ++ restText ps) := by
  cases ps <;> simp [paramsText, restText, List.intercalate]

theorem ParamItem.exists_body (p : ParamItem) : ∃ (c : Char) (s : CStr), p.body = c :: s ∧ isSipTokenChar c = true := by
  obtain ⟨c, name, hname⟩ := List.exists_cons_of_ne_nil p.name_ne_nil
  refine ⟨c, name ++ (p.valueText ++ p.behind), ?_, p.name_token c (hname ▸ List.mem_cons_self)⟩
  rw [ParamItem.body, hname, List.cons_append]

theorem skipLws_front (p : ParamItem) (s : CStr) : skipLws (p.front ++ (p.body ++ s)) = p.body ++ s := by
  refine skipLws_append p.front_blank ?_
  obtain ⟨c, rest, hbody, hc⟩ := p.exists_body
  rw [hbody, List.cons_append, peek_cons]
  exact isLws_of_isSipTokenChar hc

theorem ParamItem.isSipTokenChar_peek_front (p : ParamItem) (hfront : p.front ≠ []) (s : CStr) :
    isSipTokenChar (peek ((p.front ++ s).dropWhile (· = ';'))) = false := by
  obtain ⟨c, front, hcons⟩ := List.exists_cons_of_ne_nil hfront
  rw [hcons]
  rcases isLws_cases (p.front_blank c (hcons ▸ List.mem_cons_self)) with rfl | rfl <;> rfl

theorem length_le_paramsText (ps : List ParamItem) : ps.length ≤ (paramsText ps).length := by
  induction ps with
  | nil => exact Nat.zero_le _
  | cons p ps ih =>
    obtain ⟨c, s, hbody, -⟩ := p.exists_body
    have hrest : ps.length ≤ (restText ps).length := by
      rw [restText]
      split_ifs with hps
      · rw [hps]
        exact le_refl _
      · exact ih.trans (Nat.le_succ _)
    simp only [paramsText_cons, hbody, List.length_append, List.length_cons]
    omega

/-! ## The loop on a list -/

section

variable {σ : Type} (take : σ → CStr → Option (CStr → σ))

/-- The loop on a list whose first parameter has no blanks in front. -/
def readItems : List ParamItem → σ → Bool × σ
  | [], st => (false, st)
  | p :: ps, st =>
    match take st p.name with
    | some set => if ps = [] then (true, set p.keptText) else readItems ps (set p.keptText)
    | none => if p.value.isSome then (false, st) else readItems ps st

/-- A list is read when nothing stands in front of its first parameter. -/
def readList (ps : List ParamItem) (st : σ) : Bool × σ :=
  if ps.head?.elim [] ParamItem.front = [] then readItems take ps st else (false, st)

theorem paramLoop_of_name_nil (fuel : ℕ) {params : CStr}
    (hname : isSipTokenChar (peek (params.dropWhile (· = ';'))) = false) (st : σ) :
    paramLoop take fuel params st = (false, st) := by
  cases fuel with
  | zero => rfl
  | succ fuel =>
    rw [paramLoop]
    simp only [skipSipToken_of_peek hname, textUpTo, Option.elim_some, Nat.sub_self, List.take_zero, if_true]

theorem paramLoop_restText (ps : List ParamItem) : ∀ (fuel : ℕ) (p : ParamItem) (st : σ), ps.length < fuel →
    paramLoop take fuel (p.body ++ restText ps) st = readItems take (p :: ps) st := by
  induction ps with
  | nil =>
    intro fuel p st hfuel
    obtain ⟨fuel, rfl⟩ := Nat.exists_eq_add_one_of_ne_zero (Nat.ne_of_gt hfuel)
    have hend : restText [] = [] := rfl
    rw [paramLoop_body take fuel p (itemTail_restText []), readItems, hend]
    cases take st p.name with
    | some set => rfl
    | none => rfl
  | cons q ps ih =>
    intro fuel p st hfuel
    obtain ⟨fuel, rfl⟩ := Nat.exists_eq_add_one_of_ne_zero (Nat.ne_of_gt (Nat.zero_lt_of_lt hfuel))
    have hrest : restText (q :: ps) = ';' :: paramsText (q :: ps) := rfl
    have hnext : ∀ last (st : σ), paramNext take fuel (restText (q :: ps)) last st = readItems take (q :: ps) st := by
      intro last st
      rw [paramNext, hrest, peek_cons, if_pos rfl, List.tail_cons, paramsText_cons, skipLws_front]
      exact ih fuel q st (by simpa using hfuel)
    rw [paramLoop_body take fuel p (itemTail_restText (q :: ps)), readItems]
    cases take st p.name with
    | none => simp only [hnext]
    | some set => simp only [hnext, List.cons_ne_nil, if_false]

/-- **What is read of a list as it is written**: its parameters one after the other, up to one that is not known and
has a value. -/
theorem paramLoop_paramsText (k fuel : ℕ) (ps : List ParamItem) (st : σ) (hfuel : ps.length < fuel) :
    paramLoop take fuel (List.replicate k ';' ++ paramsText ps) st = readList take ps st := by
  have hsemis : ∀ s : CStr, (List.replicate k ';' ++ s).dropWhile (· = ';') = s.dropWhile (· = ';') := fun s =>
    List.dropWhile_append_of_pos fun c hc => by rw [List.eq_of_mem_replicate hc]; rfl
  cases ps with
  | nil =>
    rw [readList, List.head?_nil, Option.elim_none, if_pos rfl]
    exact paramLoop_of_name_nil take fuel (by rw [hsemis]; decide) st
  | cons p ps =>
    rw [readList, List.head?_cons, Option.elim_some, paramsText_cons]
    by_cases hfront : p.front = []
    · rw [if_pos hfront, hfront, List.nil_append]
      -- the loop skips the semicolons itself
      have hstart : paramLoop take fuel (List.replicate k ';' ++ (p.body ++ restText ps)) st =
          paramLoop take fuel (p.body ++ restText ps) st := by
        cases fuel with
        | zero => rfl
        | succ fuel => rw [paramLoop, paramLoop, hsemis]
      rw [hstart]
      exact paramLoop_restText take ps fuel p st (Nat.lt_of_succ_lt hfuel)
    · rw [if_neg hfront]
      refine paramLoop_of_name_nil take fuel ?_ st
      rw [hsemis]
      exact p.isSipTokenChar_peek_front hfront _

/-! ## What is read in front of a place and behind it -/

/-- The values behind some parameters, when the loop passes them all. -/
def passItems : List ParamItem → σ → Option σ
  | [], st => some st
  | p :: ps, st =>
    match take st p.name with
    | some set => passItems ps (set p.keptText)
    | none => if p.value.isSome then none else passItems ps st

/-- The values of some parameters, up to one that is not known and has a value. -/
def valuesOf : List ParamItem → σ → σ
  | [], st => st
  | p :: ps, st =>
    match take st p.name with
    | some set => valuesOf ps (set p.keptText)
    | none => if p.value.isSome then st else valuesOf ps st

/-- The last parameter is known, and the ones in front are passed. -/
def EndsKnown (ps : List ParamItem) (st : σ) : Prop :=
  ∃ (init : List ParamItem) (p : ParamItem) (st' : σ),
    ps = init ++ [p] ∧ passItems take init st = some st' ∧ (take st' p.name).isSome

def leading (ps : List ParamItem) : CStr := ps.head?.elim [] ParamItem.front

theorem readList_eq (ps : List ParamItem) (st : σ) :
    readList take ps st = if leading ps = [] then readItems take ps st else (false, st) := rfl

theorem readItems_cons_of_none {p : ParamItem} {st : σ} (hp : take st p.name = none) (ps : List ParamItem) :
    readItems take (p :: ps) st = if p.value.isSome then (false, st) else readItems take ps st := by
  rw [readItems, hp]

theorem readItems_append (front : List ParamItem) (st : σ) : ∃ stopped, ∀ xs, passItems take front st = none ∨ xs ≠ [] →
      readItems take (front ++ xs) st = (passItems take front st).elim stopped (readItems take xs) := by
  induction front generalizing st with
  | nil => exact ⟨(false, st), fun _ _ => rfl⟩
  | cons p front ih =>
    cases htake : take st p.name with
    | some set =>
      obtain ⟨stopped, h⟩ := ih (set p.keptText)
      refine ⟨stopped, fun xs hxs => ?_⟩
      simp only [passItems, htake] at hxs ⊢
      -- the loop has not stopped yet, or there are others: this parameter is not the last
      have hne : front ++ xs ≠ [] := fun hnil => by
        obtain ⟨rfl, rfl⟩ := List.append_eq_nil_iff.mp hnil
        exact hxs.elim nofun fun hno => hno rfl
      simp only [List.cons_append, readItems, htake, if_neg hne]
      exact h xs hxs
    | none =>
      obtain ⟨stopped, h⟩ := ih st
      by_cases hvalue : p.value.isSome
      · refine ⟨(false, st), fun xs _ => ?_⟩
        simp only [List.cons_append, readItems, passItems, htake, if_pos hvalue, Option.elim_none]
      · refine ⟨stopped, fun xs hxs => ?_⟩
        simp only [passItems, htake, if_neg hvalue] at hxs ⊢
        simp only [List.cons_append, readItems, htake, if_neg hvalue]
        exact h xs hxs

variable {front : List ParamItem}

theorem readItems_append_of_stop {st : σ} (hstop : passItems take front st = none)
    (xs ys : List ParamItem) : readItems take (front ++ xs) st = readItems take (front ++ ys) st := by
  obtain ⟨stopped, h⟩ := readItems_append take front st
  rw [h xs (.inl hstop), h ys (.inl hstop), hstop, Option.elim_none, Option.elim_none]

theorem readItems_append_of_pass {st st' : σ} (hpass : passItems take front st = some st')
    {xs : List ParamItem} (hxs : xs ≠ []) : readItems take (front ++ xs) st = readItems take xs st' := by
  obtain ⟨stopped, h⟩ := readItems_append take front st
  rw [h xs (.inr hxs), hpass, Option.elim_some]

theorem readItems_snd (ps : List ParamItem) (st : σ) : (readItems take ps st).2 = valuesOf take ps st := by
  induction ps generalizing st with
  | nil => rfl
  | cons p ps ih =>
    rw [readItems, valuesOf]
    cases take st p.name with
    | some set =>
      by_cases hps : ps = []
      · subst hps
        rfl
      · simp only [if_neg hps]
        exact ih _
    | none =>
      by_cases hvalue : p.value.isSome
      · simp only [if_pos hvalue]
      · simp only [if_neg hvalue]
        exact ih _

theorem valuesOf_of_pass {st st' : σ} (hpass : passItems take front st = some st') : valuesOf take front st = st' := by
  induction front generalizing st with
  | nil =>
    cases hpass
    rfl
  | cons p front ih =>
    rw [passItems] at hpass
    rw [valuesOf]
    cases htake : take st p.name with
    | some set =>
      rw [htake] at hpass
      exact ih hpass
    | none =>
      rw [htake] at hpass
      by_cases hvalue : p.value.isSome
      · rw [if_pos hvalue] at hpass
        cases hpass
      · rw [if_neg hvalue] at hpass
        simp only [if_neg hvalue]
        exact ih hpass

theorem readItems_fst_iff (ps : List ParamItem) (st : σ) : (readItems take ps st).1 = true ↔ EndsKnown take ps st := by
  constructor
  · intro h
    induction ps generalizing st with
    | nil => cases h
    | cons p ps ih =>
      rw [readItems] at h
      cases htake : take st p.name with
      | some set =>
        rw [htake] at h
        by_cases hps : ps = []
        · exact ⟨[], p, st, by rw [hps, List.nil_append], rfl, by rw [htake]; rfl⟩
        · simp only [if_neg hps] at h
          obtain ⟨init, q, st', rfl, hpass, hq⟩ := ih _ h
          exact ⟨p :: init, q, st', rfl, by rw [passItems, htake]; exact hpass, hq⟩
      | none =>
        rw [htake] at h
        by_cases hvalue : p.value.isSome
        · simp only [if_pos hvalue] at h
          cases h
        · simp only [if_neg hvalue] at h
          obtain ⟨init, q, st', rfl, hpass, hq⟩ := ih _ h
          exact ⟨p :: init, q, st', rfl, by rw [passItems, htake]; simpa only [if_neg hvalue] using hpass, hq⟩
  · rintro ⟨init, p, st', rfl, hpass, hp⟩
    obtain ⟨set, hset⟩ := Option.isSome_iff_exists.mp hp
    rw [readItems_append_of_pass take hpass (List.cons_ne_nil p []), readItems, hset]
    rfl

/-! ## A parameter that is inserted -/

/-- A parameter that is inserted changes no value and refuses no list, for a reader of lists. -/
def Undisturbed (read : List ParamItem → σ → Bool × σ) (front : List ParamItem) (u : ParamItem)
    (back : List ParamItem) (st : σ) : Prop :=
  (read (front ++ u :: back) st).2 = (read (front ++ back) st).2 ∧
    ((read (front ++ back) st).1 = true → (read (front ++ u :: back) st).1 = true)

/-- Reading stops in front of a place, or a name alone has another parameter behind it, or the list is refused
anyhow and the parameters behind the place give nothing new. -/
def Passed (front : List ParamItem) (u : ParamItem) (back : List ParamItem) (st : σ) : Prop :=
  leading front ≠ [] ∨ passItems take front st = none ∨
    (u.value = none ∧ back ≠ [] ∧ (front = [] → u.front = [] ∧ leading back = [])) ∨
      ∃ st', passItems take front st = some st' ∧ (leading (front ++ back) = [] → ¬ EndsKnown take (front ++ back) st) ∧
        (valuesOf take back st' = st' ∨ front = [] ∧ leading back ≠ [] ∧ (u.front ≠ [] ∨ u.value ≠ none))

theorem leading_append (hne : front ≠ []) (xs : List ParamItem) : leading (front ++ xs) = leading front := by
  cases front with
  | nil => exact absurd rfl hne
  | cons p front => rfl

section

variable {take} {front : List ParamItem} {u : ParamItem} {st st' : σ}

theorem readList_insert (hu : ∀ st, take st u.name = none) (hlead : leading front = [])
    (hpass : passItems take front st = some st') (back : List ParamItem) :
    readList take (front ++ u :: back) st =
      if (front = [] ∧ u.front ≠ []) ∨ u.value ≠ none then (false, st') else readItems take back st' := by
  have hitems : readItems take (front ++ u :: back) st =
      if u.value ≠ none then (false, st') else readItems take back st' := by
    rw [readItems_append_of_pass take hpass (List.cons_ne_nil u back), readItems_cons_of_none take (hu st')]
    simp only [Option.isSome_iff_ne_none]
  rw [readList_eq, hitems]
  by_cases hfront : front = []
  · subst hfront
    cases hpass
    have hfirst : leading ([] ++ u :: back) = u.front := rfl
    rw [hfirst]
    by_cases hblank : u.front = []
    · simp only [hblank, if_true, ne_eq, not_true_eq_false, and_false, false_or]
    · rw [if_neg hblank, if_pos (.inl ⟨rfl, hblank⟩)]
  · rw [leading_append hfront, if_pos hlead]
    simp only [hfront, false_and, false_or]

theorem readList_append (hlead : leading front = []) (hpass : passItems take front st = some st')
    {back : List ParamItem} (hback : back ≠ []) :
    readList take (front ++ back) st =
      if front = [] ∧ leading back ≠ [] then (false, st') else readItems take back st' := by
  rw [readList_eq, readItems_append_of_pass take hpass hback]
  by_cases hfront : front = []
  · subst hfront
    cases hpass
    rw [List.nil_append]
    by_cases hblank : leading back = []
    · rw [if_pos hblank, if_neg fun h => h.2 hblank]
    · rw [if_neg hblank, if_pos ⟨rfl, hblank⟩]
  · rw [leading_append hfront, if_pos hlead, if_neg fun h => hfront h.1]

/-- **A list is undisturbed exactly when** its reading stops in front of the parameter, or the parameter is a name
alone with another one behind it, or the list is refused anyhow and gives nothing new behind the place. -/
theorem undisturbed_iff_passed (hu : ∀ st, take st u.name = none) (back : List ParamItem) :
    Undisturbed (readList take) front u back st ↔ Passed take front u back st := by
  by_cases hlead : leading front = []
  swap
  · -- blanks in front of the first parameter: nothing is read
    have hfront : front ≠ [] := by
      rintro rfl
      exact hlead rfl
    have hnothing : ∀ xs, readList take (front ++ xs) st = (false, st) := fun xs => by
      rw [readList_eq, leading_append hfront, if_neg hlead]
    refine iff_of_true ?_ (.inl hlead)
    rw [Undisturbed, hnothing, hnothing]
    exact ⟨rfl, id⟩
  cases hpass : passItems take front st with
  | none =>
    have hfront : front ≠ [] := by
      rintro rfl
      cases hpass
    have hsame : readList take (front ++ u :: back) st = readList take (front ++ back) st := by
      rw [readList_eq, readList_eq, leading_append hfront, leading_append hfront,
        readItems_append_of_stop take hpass (u :: back) back]
    refine iff_of_true ?_ (.inr (.inl hpass))
    rw [Undisturbed, hsame]
    exact ⟨rfl, id⟩
  | some st' =>
    have hinsert := readList_insert hu hlead hpass back
    have haccept : (readList take (front ++ back) st).1 = true ↔
        leading (front ++ back) = [] ∧ EndsKnown take (front ++ back) st := by
      rw [readList_eq, ← readItems_fst_iff]
      by_cases h : leading (front ++ back) = []
      · rw [if_pos h, and_iff_right h]
      · rw [if_neg h]
        exact iff_of_false Bool.false_ne_true fun hboth => h hboth.1
    have hvalues : (readList take (front ++ back) st).2 =
        if front = [] ∧ leading back ≠ [] then st' else valuesOf take back st' := by
      by_cases hback : back = []
      · subst hback
        rw [List.append_nil, readList_eq, if_pos hlead, readItems_snd, valuesOf_of_pass take hpass]
        exact (ite_self _).symm
      · rw [readList_append hlead hpass hback]
        split_ifs
        · rfl
        · exact readItems_snd take back st'
    rw [Undisturbed, Passed, hinsert, hvalues, haccept]
    simp only [hlead, ne_eq, not_true_eq_false, false_or, reduceCtorEq, hpass, Option.some.injEq, exists_eq_left']
    by_cases hread : (front = [] ∧ u.front ≠ []) ∨ u.value ≠ none
    · -- reading ends at the parameter
      simp only [if_pos hread, Bool.false_eq_true, imp_false, not_and]
      by_cases hblank : front = [] ∧ leading back ≠ []
      · simp only [if_pos hblank]
        grind
      · simp only [if_neg hblank]
        grind
    · simp only [if_neg hread, readItems_snd]
      push Not at hread
      by_cases hblank : front = [] ∧ leading back ≠ []
      · -- the list has not been read, and now it is
        have hrefused : leading (front ++ back) ≠ [] := by
          rw [hblank.1]
          exact hblank.2
        simp only [if_pos hblank]
        grind
      · simp only [if_neg hblank, true_and]
        by_cases hback : back = []
        · subst hback
          have hnone : (readItems take [] st').1 = false := rfl
          have hsame : valuesOf take [] st' = st' := rfl
          simp only [hnone, hsame]
          grind
        · have haccept' : (readItems take back st').1 = true ↔
              leading (front ++ back) = [] ∧ EndsKnown take (front ++ back) st := by
            rw [← haccept, readList_append hlead hpass hback, if_neg hblank]
          refine iff_of_true haccept'.mpr (.inl ⟨hread.2, hback, fun hfront => ⟨hread.1 hfront, ?_⟩⟩)
          by_contra hno
          exact hblank ⟨hfront, hno⟩

end

end

/-! ## The loop of a Join header -/

def joinText (callId : CStr) (ps : List ParamItem) : CStr := callId ++ restText ps

/-- The loop of a Join header on a list. The flag says that blanks in front of the first parameter are not skipped. -/
def joinItems : Bool → List ParamItem → JoinInfo → Option (Option JoinInfo)
  | _, [], _ => some none
  | glued, p :: ps, join =>
    if glued = true ∧ p.front ≠ [] then some none
    else if strcaseEq p.name "from-tag" ∧ join.fromTag = none then
      match p.value with
      | none => none
      | some v =>
        if ps = [] then some (some { join with fromTag := some v.text })
        else joinItems false ps { join with fromTag := some v.text }
    else if strcaseEq p.name "to-tag" ∧ join.toTag = none then
      match p.value with
      | none => none
      | some v =>
        if p.behind ≠ [] ∨ ps = [] then some (some { join with toTag := some v.text })
        else joinItems false ps { join with toTag := some v.text }
    else if p.value.isSome then some none
    else joinItems true ps join

/-- The flag and the tags behind some parameters, when the loop passes them all. -/
def joinPass : Bool → List ParamItem → JoinInfo → Option (Bool × JoinInfo)
  | glued, [], join => some (glued, join)
  | glued, p :: ps, join =>
    if glued = true ∧ p.front ≠ [] then none
    else if strcaseEq p.name "from-tag" ∧ join.fromTag = none then
      match p.value with
      | none => none
      | some v => joinPass false ps { join with fromTag := some v.text }
    else if strcaseEq p.name "to-tag" ∧ join.toTag = none then
      match p.value with
      | none => none
      | some v => if p.behind ≠ [] then none else joinPass false ps { join with toTag := some v.text }
    else if p.value.isSome then none
    else joinPass true ps join

theorem joinLoop_semi (fuel : ℕ) (s : CStr) (join : JoinInfo) :
    joinLoop fuel (';' :: s) join = joinLoop fuel s join := by
  cases fuel with
  | zero => rfl
  | succ fuel => rw [joinLoop, joinLoop, List.dropWhile_cons_of_pos rfl]

theorem joinLoop_of_name_nil (fuel : ℕ) {params : CStr}
    (hname : isSipTokenChar (peek (params.dropWhile (· = ';'))) = false) (join : JoinInfo) :
    joinLoop fuel params join = some none := by
  cases fuel with
  | zero => rfl
  | succ fuel =>
    rw [joinLoop]
    simp only [skipSipToken_of_peek hname, textUpTo, Option.elim_some, Nat.sub_self, List.take_zero, if_true]

theorem joinLoop_paramsText (fuel : ℕ) (p : ParamItem) (ps : List ParamItem) (join : JoinInfo) :
    joinLoop fuel (paramsText (p :: ps)) join =
      if p.front ≠ [] then some none else joinLoop fuel (p.body ++ restText ps) join := by
  rw [paramsText_cons]
  by_cases hfront : p.front = []
  · rw [if_neg (not_not.mpr hfront), hfront, List.nil_append]
  · rw [if_pos hfront]
    exact joinLoop_of_name_nil fuel (p.isSipTokenChar_peek_front hfront _) join

theorem joinLoop_next (fuel : ℕ) (q : ParamItem) (ps : List ParamItem) (join : JoinInfo) :
    joinLoop fuel (skipLws (restText (q :: ps)).tail) join = joinLoop fuel (q.body ++ restText ps) join := by
  have hrest : restText (q :: ps) = ';' :: paramsText (q :: ps) := rfl
  rw [hrest, List.tail_cons, paramsText_cons, skipLws_front]

theorem joinLoop_body (fuel : ℕ) (p : ParamItem) (ps : List ParamItem) (join : JoinInfo) :
    joinLoop (fuel + 1) (p.body ++ restText ps) join =
      if strcaseEq p.name "from-tag" ∧ join.fromTag = none then
        match p.value with
        | none => none
        | some v =>
          if ps = [] then some (some { join with fromTag := some v.text })
          else joinLoop fuel (skipLws (restText ps).tail) { join with fromTag := some v.text }
      else if strcaseEq p.name "to-tag" ∧ join.toTag = none then
        match p.value with
        | none => none
        | some v =>
          if p.behind ≠ [] ∨ ps = [] then some (some { join with toTag := some v.text })
          else joinLoop fuel (skipLws (restText ps).tail) { join with toTag := some v.text }
      else if p.value.isSome then some none
      else joinLoop fuel (restText ps) join := by
  obtain ⟨hsemi, hskip, hname⟩ := skipSipToken_body p (itemTail_restText ps)
  have hpeek : (restText ps).peek = ';' ↔ ps ≠ [] := by
    rw [restText]
    split_ifs with hps
    · exact iff_of_false (by decide) (not_not.mpr hps)
    · exact iff_of_true rfl hps
  rw [joinLoop]
  simp only [hsemi, hskip, hname, if_neg p.name_ne_nil, p.parseGenericParam_behind (itemTail_restText ps)]
  by_cases hfrom : strcaseEq p.name "from-tag" ∧ join.fromTag = none
  · simp only [if_pos hfrom]
    cases p.value with
    | none => rfl
    | some v =>
      simp only [Option.elim_some, textUpTo_append, skipLws_tail p.behind_blank (itemTail_restText ps), hpeek]
      by_cases hps : ps = []
      · rw [if_neg (not_not.mpr hps), if_pos hps]
      · rw [if_pos hps, if_neg hps]
  · simp only [if_neg hfrom]
    by_cases hto : strcaseEq p.name "to-tag" ∧ join.toTag = none
    · simp only [if_pos hto]
      cases p.value with
      | none => rfl
      | some v =>
        simp only [Option.elim_some, textUpTo_append]
        by_cases hbehind : p.behind = []
        · simp only [hbehind, List.nil_append, hpeek, ne_eq, not_true_eq_false, false_or]
          by_cases hps : ps = []
          · rw [if_neg (not_not.mpr hps), if_pos hps]
          · rw [if_pos hps, if_neg hps]
        · -- the blanks behind the tag end the loop
          obtain ⟨c, s, hcons⟩ := List.exists_cons_of_ne_nil hbehind
          have hblank : peek (p.behind ++ restText ps) ≠ ';' := by
            rw [hcons, List.cons_append, peek_cons]
            rintro rfl
            exact absurd (p.behind_blank ';' (hcons ▸ List.mem_cons_self)) (by decide)
          rw [if_neg hblank, if_pos (.inl hbehind)]
    · simp only [if_neg hto, ParamItem.valueText]
      cases p.value with
      | none =>
        simp only [Option.elim_none, List.nil_append, skipLws_tail p.behind_blank (itemTail_restText ps),
          Option.isSome_none, Bool.false_eq_true, if_false]
      | some v =>
        simp only [Option.elim_some, ParamItem.skipLws_value, Option.isSome_some, if_true]
        exact joinLoop_of_name_nil fuel rfl join

theorem joinLoop_restText (ps : List ParamItem) : ∀ (fuel : ℕ) (p : ParamItem) (join : JoinInfo), ps.length < fuel →
    joinLoop fuel (p.body ++ restText ps) join = joinItems false (p :: ps) join := by
  induction ps with
  | nil =>
    intro fuel p join hfuel
    obtain ⟨fuel, rfl⟩ := Nat.exists_eq_add_one_of_ne_zero (Nat.ne_of_gt hfuel)
    have hend : joinLoop fuel (restText []) join = some none := joinLoop_of_name_nil fuel rfl join
    rw [joinLoop_body, joinItems, hend]
    simp only [Bool.false_eq_true, false_and, if_false, if_true, or_true, joinItems]
  | cons q ps ih =>
    intro fuel p join hfuel
    obtain ⟨fuel, rfl⟩ := Nat.exists_eq_add_one_of_ne_zero (Nat.ne_of_gt (Nat.zero_lt_of_lt hfuel))
    have hlength : ps.length < fuel := by simpa using hfuel
    have hskipped : ∀ join, joinLoop fuel (skipLws (restText (q :: ps)).tail) join = joinItems false (q :: ps) join :=
      fun join => by rw [joinLoop_next, ih fuel q join hlength]
    have hglued : joinLoop fuel (restText (q :: ps)) join = joinItems true (q :: ps) join := by
      have hrest : restText (q :: ps) = ';' :: paramsText (q :: ps) := rfl
      rw [hrest, joinLoop_semi, joinLoop_paramsText, joinItems]
      simp only [true_and]
      by_cases hfront : q.front = []
      · rw [if_neg (not_not.mpr hfront), if_neg (not_not.mpr hfront), ih fuel q join hlength, joinItems]
        simp only [Bool.false_eq_true, false_and, if_false]
      · rw [if_pos hfront, if_pos hfront]
    rw [joinLoop_body, joinItems]
    simp only [Bool.false_eq_true, false_and, if_false, hskipped, hglued]

structure JoinCallId where
  text : CStr
  no_end : ∀ c ∈ text, c ≠ nul ∧ c ≠ ';'

theorem strpbrk_joinText (callId : JoinCallId) (ps : List ParamItem) :
    strpbrk (joinText callId.text ps) ";" = if ps = [] then none else some (restText ps) := by
  have hpass : ∀ c ∈ callId.text, c ≠ nul ∧ c ∉ (";".toList : CStr) := by simpa using callId.no_end
  refine (strpbrk_append hpass ?_).trans ?_
  · rcases itemTail_restText ps with h | ⟨s, h⟩
    · exact .inl h
    · rw [h, peek_cons]
      exact .inr (by decide)
  · rw [restText]
    by_cases hps : ps = []
    · rw [if_pos hps, if_pos rfl, if_pos hps]
    · rw [if_neg hps, if_neg (List.cons_ne_nil _ _), if_neg hps]

/-- **What is read of a Join header as it is written**: its parameters one after the other, where the blanks behind
an unknown one are not skipped. -/
theorem sippmhParseJoinHeader_joinText (callId : JoinCallId) (ps : List ParamItem) :
    sippmhParseJoinHeader (joinText callId.text ps) =
      if ps = [] then some (some { callId := callId.text }) else joinItems true ps { callId := callId.text } := by
  rw [sippmhParseJoinHeader, strpbrk_joinText]
  cases ps with
  | nil => rw [if_pos rfl, if_pos rfl, joinText, restText, if_pos rfl, List.append_nil]
  | cons p ps =>
    have hrest : restText (p :: ps) = ';' :: paramsText (p :: ps) := rfl
    have hlength : ps.length < (restText (p :: ps)).length + 1 := by
      have := length_le_paramsText (p :: ps)
      rw [hrest, List.length_cons]
      rw [List.length_cons] at this
      omega
    rw [if_neg (List.cons_ne_nil p ps), if_neg (List.cons_ne_nil p ps)]
    simp only [joinText, textUpTo_append]
    generalize hfuel : (restText (p :: ps)).length + 1 = fuel at hlength ⊢
    rw [hrest, joinLoop_semi, joinLoop_paramsText, joinLoop_restText ps fuel p _ hlength, joinItems, joinItems]
    simp only [Bool.false_eq_true, false_and, if_false, true_and]

/-! ## A parameter that is inserted into a Join header -/

variable {front : List ParamItem}

theorem joinItems_append_of_stop {glued : Bool} {join : JoinInfo}
    (hstop : joinPass glued front join = none) (xs ys : List ParamItem) :
    joinItems glued (front ++ xs) join = joinItems glued (front ++ ys) join := by
  induction front generalizing glued join with
  | nil => cases hstop
  | cons p front ih =>
    -- while the loop goes on, there is another parameter in front of the place
    have hne : ∀ {glued join}, joinPass glued front join = none → ∀ xs : List ParamItem, front ++ xs ≠ [] := by
      intro glued join hstop xs h
      rw [(List.append_eq_nil_iff.mp h).1] at hstop
      cases hstop
    rw [joinPass] at hstop
    rw [List.cons_append, List.cons_append, joinItems, joinItems]
    by_cases hblank : glued = true ∧ p.front ≠ []
    · rw [if_pos hblank, if_pos hblank]
    rw [if_neg hblank] at hstop
    rw [if_neg hblank, if_neg hblank]
    by_cases hfrom : strcaseEq p.name "from-tag" ∧ join.fromTag = none
    · rw [if_pos hfrom] at hstop
      rw [if_pos hfrom, if_pos hfrom]
      cases hvalue : p.value with
      | none => rfl
      | some v =>
        rw [hvalue] at hstop
        simp only [if_neg (hne hstop _)]
        exact ih hstop
    rw [if_neg hfrom] at hstop
    rw [if_neg hfrom, if_neg hfrom]
    by_cases hto : strcaseEq p.name "to-tag" ∧ join.toTag = none
    · rw [if_pos hto] at hstop
      rw [if_pos hto, if_pos hto]
      cases hvalue : p.value with
      | none => rfl
      | some v =>
        simp only [hvalue] at hstop ⊢
        by_cases hbehind : p.behind = []
        · rw [if_neg (not_not.mpr hbehind)] at hstop
          simp only [hbehind, hne hstop, ne_eq, not_true_eq_false, or_self, if_false]
          exact ih hstop
        · rw [if_pos (.inl hbehind), if_pos (.inl hbehind)]
    rw [if_neg hto] at hstop
    rw [if_neg hto, if_neg hto]
    by_cases hvalue : p.value.isSome
    · rw [if_pos hvalue, if_pos hvalue]
    · rw [if_neg hvalue] at hstop
      rw [if_neg hvalue, if_neg hvalue]
      exact ih hstop

theorem joinItems_append_of_pass {glued glued' : Bool} {join join' : JoinInfo}
    (hpass : joinPass glued front join = some (glued', join')) {xs : List ParamItem} (hxs : xs ≠ []) :
    joinItems glued (front ++ xs) join = joinItems glued' xs join' := by
  induction front generalizing glued join with
  | nil =>
    cases hpass
    rfl
  | cons p front ih =>
    have hne : front ++ xs ≠ [] := fun h => hxs (List.append_eq_nil_iff.mp h).2
    rw [joinPass] at hpass
    rw [List.cons_append, joinItems]
    by_cases hblank : glued = true ∧ p.front ≠ []
    · rw [if_pos hblank] at hpass
      cases hpass
    rw [if_neg hblank] at hpass
    rw [if_neg hblank]
    by_cases hfrom : strcaseEq p.name "from-tag" ∧ join.fromTag = none
    · rw [if_pos hfrom] at hpass
      rw [if_pos hfrom]
      cases hvalue : p.value with
      | none =>
        rw [hvalue] at hpass
        cases hpass
      | some v =>
        rw [hvalue] at hpass
        simp only [if_neg hne]
        exact ih hpass
    rw [if_neg hfrom] at hpass
    rw [if_neg hfrom]
    by_cases hto : strcaseEq p.name "to-tag" ∧ join.toTag = none
    · rw [if_pos hto] at hpass
      rw [if_pos hto]
      cases hvalue : p.value with
      | none =>
        rw [hvalue] at hpass
        cases hpass
      | some v =>
        simp only [hvalue] at hpass ⊢
        by_cases hbehind : p.behind = []
        · rw [if_neg (not_not.mpr hbehind)] at hpass
          simp only [hbehind, hne, ne_eq, not_true_eq_false, or_self, if_false]
          exact ih hpass
        · rw [if_pos hbehind] at hpass
          cases hpass
    rw [if_neg hto] at hpass
    rw [if_neg hto]
    by_cases hvalue : p.value.isSome
    · rw [if_pos hvalue] at hpass
      cases hpass
    · rw [if_neg hvalue] at hpass
      rw [if_neg hvalue]
      exact ih hpass

theorem joinItems_of_leading {back : List ParamItem} (hlead : leading back = []) (glued : Bool) (join : JoinInfo) :
    joinItems glued back join = joinItems true back join := by
  cases back with
  | nil => rfl
  | cons q back =>
    have hfront : ∀ glued : Bool, ¬(glued = true ∧ q.front ≠ []) := fun glued h => h.2 hlead
    rw [joinItems, joinItems, if_neg (hfront glued), if_neg (hfront true)]

theorem joinItems_cons_unknown {u : ParamItem} (hfrom : strcaseEq u.name "from-tag" = false)
    (hto : strcaseEq u.name "to-tag" = false) (glued : Bool) (back : List ParamItem) (join : JoinInfo) :
    joinItems glued (u :: back) join =
      if (glued = true ∧ u.front ≠ []) ∨ u.value ≠ none then some none else joinItems true back join := by
  have hsome : u.value.isSome = true ↔ u.value ≠ none := Option.isSome_iff_ne_none
  rw [joinItems]
  simp only [hfrom, hto, Bool.false_eq_true, false_and, if_false, hsome]
  by_cases hblank : glued = true ∧ u.front ≠ []
  · rw [if_pos hblank, if_pos (.inl hblank)]
  · simp only [hblank, if_false, false_or]

/-- The parameters a Join header has behind its identifier are read up to the place, or the parameter is a name alone
with another one behind it, and no blanks stand where they are not skipped. -/
def JoinPassed (callId : JoinCallId) (front : List ParamItem) (u : ParamItem) (back : List ParamItem) : Prop :=
  ∀ (glued : Bool) (join : JoinInfo), joinPass true front { callId := callId.text } = some (glued, join) →
    u.value = none ∧ (glued = true → u.front = []) ∧ back ≠ [] ∧ leading back = []

/-- **A Join header that is accepted is read as before exactly when** the loop ends in front of the parameter, or the
parameter is a name alone with another one behind it and no blanks stand where they are not skipped. -/
theorem joinHeader_insert_iff {callId : JoinCallId} {back : List ParamItem} {u : ParamItem} {j : JoinInfo}
    (hfrom : strcaseEq u.name "from-tag" = false) (hto : strcaseEq u.name "to-tag" = false)
    (haccepted : sippmhParseJoinHeader (joinText callId.text (front ++ back)) = some (some j)) :
    sippmhParseJoinHeader (joinText callId.text (front ++ u :: back)) = some (some j) ↔
      JoinPassed callId front u back := by
  have hne : front ++ u :: back ≠ [] := fun h => List.cons_ne_nil u back (List.append_eq_nil_iff.mp h).2
  rw [sippmhParseJoinHeader_joinText, if_neg hne, JoinPassed]
  rw [sippmhParseJoinHeader_joinText] at haccepted
  cases hpass : joinPass true front { callId := callId.text } with
  | none =>
    have hfront : front ≠ [] := by
      rintro rfl
      cases hpass
    rw [if_neg fun h => hfront (List.append_eq_nil_iff.mp h).1] at haccepted
    rw [joinItems_append_of_stop hpass (u :: back) back]
    exact iff_of_true haccepted nofun
  | some passed =>
    obtain ⟨glued, join⟩ := passed
    rw [joinItems_append_of_pass hpass (List.cons_ne_nil u back), joinItems_cons_unknown hfrom hto]
    constructor
    · intro h glued' join' heq
      cases heq
      by_cases hends : (glued = true ∧ u.front ≠ []) ∨ u.value ≠ none
      · rw [if_pos hends] at h
        cases h
      rw [if_neg hends] at h
      push Not at hends
      cases back with
      | nil => cases h
      | cons q back =>
        refine ⟨hends.2, hends.1, List.cons_ne_nil q back, ?_⟩
        by_contra hlead
        rw [joinItems, if_pos ⟨rfl, hlead⟩] at h
        cases h
    · intro h
      obtain ⟨hvalue, hblank, hback, hlead⟩ := h glued join rfl
      have hreads : ¬((glued = true ∧ u.front ≠ []) ∨ u.value ≠ none) := by
        rintro (⟨hglued, hfront⟩ | hno)
        · exact hfront (hblank hglued)
        · exact hno hvalue
      rw [if_neg fun h => hback (List.append_eq_nil_iff.mp h).2, joinItems_append_of_pass hpass hback,
        joinItems_of_leading hlead] at haccepted
      rw [if_neg hreads]
      exact haccepted

/-! ## The three parsers -/

/-- A parameter whose name is not among the ones a parser knows. -/
structure UnknownParam (known : List CStr) where
  item : ParamItem
  unknown : ∀ name ∈ known, strcaseEq item.name name = false

/-- The parameters of a Remote-Party-ID header that are known. -/
def rpidNames : List CStr := ["screen", "party", "id-type", "privacy", "np"]

/-- The parameters of a KPML event that are known. -/
def kpmlNames : List CStr := ["call-id", "from-tag", "to-tag"]

/-- The parameters of a Join header that are known. -/
def joinNames : List CStr := ["from-tag", "to-tag"]

/-- An unknown parameter in a Remote-Party-ID header is ignored. -/
def RpidIgnores (k : ℕ) (front : List ParamItem) (u : UnknownParam rpidNames) (back : List ParamItem)
    (rpid : RemotePartyId) : Prop :=
  Undisturbed (fun ps => sippmhParseRemotePartyIdParams (List.replicate k ';' ++ paramsText ps)) front u.item back rpid

/-- An unknown parameter in the identifier of a KPML event is ignored. -/
def KpmlIgnores (k : ℕ) (front : List ParamItem) (u : UnknownParam kpmlNames) (back : List ParamItem)
    (ids : KpmlEventId) : Prop :=
  Undisturbed (fun ps => sippmhParseKpmlEventIdParams (List.replicate k ';' ++ paramsText ps)) front u.item back ids

/-- An unknown parameter in a Join header is ignored. -/
def JoinIgnores (callId : JoinCallId) (front : List ParamItem) (u : UnknownParam joinNames) (back : List ParamItem) :
    Prop :=
  ∀ j, sippmhParseJoinHeader (joinText callId.text (front ++ back)) = some (some j) →
    sippmhParseJoinHeader (joinText callId.text (front ++ u.item :: back)) = some (some j)

def JoinAccepted (callId : JoinCallId) (ps : List ParamItem) : Prop :=
  ∃ j, sippmhParseJoinHeader (joinText callId.text ps) = some (some j)

theorem length_lt_fuel (k : ℕ) (ps : List ParamItem) :
    ps.length < (List.replicate k ';' ++ paramsText ps).length + 1 := by
  rw [List.length_append]
  exact Nat.lt_succ_of_le ((length_le_paramsText ps).trans (Nat.le_add_left _ _))

theorem RemotePartyId.take_unknown (u : UnknownParam rpidNames) (rpid : RemotePartyId) :
    rpid.take u.item.name = none := by
  obtain ⟨hscreen, hparty, hidType, hprivacy, hnp⟩ :
      strcaseEq u.item.name "screen" = false ∧ strcaseEq u.item.name "party" = false ∧
        strcaseEq u.item.name "id-type" = false ∧ strcaseEq u.item.name "privacy" = false ∧
          strcaseEq u.item.name "np" = false := by
    simpa [rpidNames] using u.unknown
  simp only [RemotePartyId.take, hscreen, hparty, hidType, hprivacy, hnp, Bool.false_eq_true, false_and, if_false]

theorem KpmlEventId.take_unknown (u : UnknownParam kpmlNames) (ids : KpmlEventId) : ids.take u.item.name = none := by
  obtain ⟨hcall, hfrom, hto⟩ : strcaseEq u.item.name "call-id" = false ∧
      strcaseEq u.item.name "from-tag" = false ∧ strcaseEq u.item.name "to-tag" = false := by
    simpa [kpmlNames] using u.unknown
  simp only [KpmlEventId.take, hcall, hfrom, hto, Bool.false_eq_true, if_false]

/-- **When an unknown parameter is ignored.** In a Remote-Party-ID header and in the identifier of a KPML event: when
the reading has ended in front of it, when it is a name alone with another parameter behind it, or when the list is
refused anyhow and gives nothing new behind the place. In a Join header that is accepted: when the reading has ended in
front of it, or when it is a name alone with another parameter behind it and no blanks around it. -/
theorem unknownParams_iff (k : ℕ) (front back : List ParamItem) (rpid : RemotePartyId) (ids : KpmlEventId)
    (callId : JoinCallId) (u : UnknownParam rpidNames) (v : UnknownParam kpmlNames) (w : UnknownParam joinNames) :
    (RpidIgnores k front u back rpid ↔ Passed RemotePartyId.take front u.item back rpid) ∧
      (KpmlIgnores k front v back ids ↔ Passed KpmlEventId.take front v.item back ids) ∧
      (JoinIgnores callId front w back ↔
        (JoinAccepted callId (front ++ back) → JoinPassed callId front w.item back)) := by
  refine ⟨?_, ?_, ?_⟩
  · rw [← undisturbed_iff_passed (RemotePartyId.take_unknown u)]
    simp only [RpidIgnores, Undisturbed, sippmhParseRemotePartyIdParams,
      paramLoop_paramsText RemotePartyId.take k _ _ _ (length_lt_fuel k _)]
  · rw [← undisturbed_iff_passed (KpmlEventId.take_unknown v)]
    simp only [KpmlIgnores, Undisturbed, sippmhParseKpmlEventIdParams,
      paramLoop_paramsText KpmlEventId.take k _ _ _ (length_lt_fuel k _)]
  · have hfrom : strcaseEq w.item.name "from-tag" = false := w.unknown _ List.mem_cons_self
    have hto : strcaseEq w.item.name "to-tag" = false := w.unknown _ (List.mem_cons_of_mem _ List.mem_cons_self)
    constructor
    · rintro h ⟨j, hj⟩
      exact (joinHeader_insert_iff hfrom hto hj).mp (h j hj)
    · intro h j hj
      exact (joinHeader_insert_iff hfrom hto hj).mpr (h ⟨j, hj⟩)

/-- The parameter `party=calling`. -/
def partyCalling : ParamItem where
  front := []
  name := "party"
  value := some
    { beforeEqual := [], afterEqual := [], text := "calling", beforeEqual_blank := nofun, afterEqual_blank := nofun,
      isValueText := .inl (by decide) }
  behind := []
  front_blank := nofun
  name_ne_nil := by decide
  name_token := by decide
  behind_blank := nofun

/-- The parameter `foo=bar`. -/
def fooBar : UnknownParam rpidNames where
  item :=
    { front := []
      name := "foo"
      value := some
        { beforeEqual := [], afterEqual := [], text := "bar", beforeEqual_blank := nofun, afterEqual_blank := nofun,
          isValueText := .inl (by decide) }
      behind := []
      front_blank := nofun
      name_ne_nil := by decide
      name_token := by decide
      behind_blank := nofun }
  unknown := by decide

/-- The party is lost behind `foo=bar`: `;foo=bar;party=calling` gives no party, and `;party=calling` does. -/
theorem not_unknownIgnored : ¬ ∀ (k : ℕ) (front : List ParamItem) (u : UnknownParam rpidNames) (back : List ParamItem)
    (rpid : RemotePartyId), RpidIgnores k front u back rpid := by
  intro h
  have hvalues := (h 1 [] fooBar [partyCalling] {}).1
  exact absurd hvalues (by decide)

end Sip
