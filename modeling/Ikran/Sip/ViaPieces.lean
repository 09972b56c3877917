import Ikran.Sip.NumericFields

/-!
# Pieces of a Via header

The parameters of a Via header are read piece by piece: a piece ends at the next semicolon, also inside a quoted
string, and the first comma ends the entry. What a piece begins with decides which parameter it is.
-/

namespace Sip

open CStr

/-- A text between separators. -/
def IsPiece (piece : CStr) : Prop := ∀ c ∈ piece, c ≠ nul ∧ c ∉ (";,".toList : CStr)

/-- What follows a piece: nothing, or a separator. -/
def PieceTail (tail : CStr) : Prop := tail = [] ∨ ∃ c t, tail = c :: t ∧ (c = ';' ∨ c = ',')

variable {tail : CStr}

theorem strpbrk_piece {piece : CStr} (hpiece : IsPiece piece) (htail : PieceTail tail) :
    strpbrk (piece ++ tail) ";," = if tail = [] then none else some tail := by
  refine strpbrk_append hpiece ?_
  rcases htail with rfl | ⟨c, t, rfl, hc⟩
  · exact .inl rfl
  · rw [peek_cons]
    rcases hc with rfl | rfl <;> exact .inr (by decide)

theorem skipLws_piece (piece : CStr) (htail : PieceTail tail) : skipLws (piece ++ tail) = skipLws piece ++ tail := by
  have hstop : skipLws tail = tail := by
    rcases htail with rfl | ⟨c, t, rfl, rfl | rfl⟩ <;> rfl
  rw [skipLws, List.dropWhile_append]
  split_ifs with hend
  · have hnil : skipLws piece = [] := List.isEmpty_iff.mp hend
    rw [hnil]
    exact hstop
  · rfl

theorem IsPiece.of_suffix {piece s : CStr} (hpiece : IsPiece piece) (hs : s <:+ piece) : IsPiece s :=
  fun c hc => hpiece c (hs.subset hc)

theorem strncaseEq_piece (piece : CStr) {name : CStr} (htail : PieceTail tail)
    (hname : ∀ c ∈ name, c ≠ nul ∧ c.toUpper ≠ ';' ∧ c.toUpper ≠ ',') :
    strncaseEq (piece ++ tail) name name.length = strncaseEq piece name name.length := by
  refine strncaseEq_append_of_peek (fun hmem => (hname nul hmem).1 rfl) fun hmem => ?_
  obtain ⟨c, hc, hpeek⟩ := List.mem_map.mp hmem
  obtain ⟨hnul, hsemi, hcomma⟩ := hname c hc
  rcases htail with rfl | ⟨d, t, rfl, rfl | rfl⟩
  · exact hnul (eq_nul_of_toUpper_eq hpeek)
  · exact hsemi hpeek
  · exact hcomma hpeek

/-! ## The parameter that a piece is -/

theorem viaParamName_piece (piece : CStr) (htail : PieceTail tail) : viaParamName (piece ++ tail) =
      ((viaParamName piece).1, (viaParamName piece).2.1, (viaParamName piece).2.2 ++ tail) := by
  have hdrop : ∀ (name : CStr) (n : ℕ), name.length = n → (∀ c ∈ name, c.toUpper ≠ nul) →
      strncaseEq piece name n = true → (piece ++ tail).drop n = piece.drop n ++ tail := by
    rintro name _ rfl hname heq
    exact List.drop_append_of_le_length (length_le_of_strncaseEq hname heq)
  have hhidden : strncaseEq (piece ++ tail) "hidden" 6 = strncaseEq piece "hidden" 6 :=
    strncaseEq_piece piece htail (by decide)
  have httl : strncaseEq (piece ++ tail) "ttl" 3 = strncaseEq piece "ttl" 3 := strncaseEq_piece piece htail (by decide)
  have hmaddr : strncaseEq (piece ++ tail) "maddr" 5 = strncaseEq piece "maddr" 5 :=
    strncaseEq_piece piece htail (by decide)
  have hreceived : strncaseEq (piece ++ tail) "received" 8 = strncaseEq piece "received" 8 :=
    strncaseEq_piece piece htail (by decide)
  have hbranch : strncaseEq (piece ++ tail) "branch" 6 = strncaseEq piece "branch" 6 :=
    strncaseEq_piece piece htail (by decide)
  simp only [viaParamName, hhidden, httl, hmaddr, hreceived, hbranch]
  split_ifs with h1 h2 h3 h4 h5
  · rw [hdrop "hidden" 6 rfl (by decide) h1]
  · rw [hdrop "ttl" 3 rfl (by decide) h2]
  · rw [hdrop "maddr" 5 rfl (by decide) h3]
  · rw [hdrop "received" 8 rfl (by decide) h4]
  · rw [hdrop "branch" 6 rfl (by decide) h5]
  · rfl

theorem viaParamName_suffix (piece : CStr) : (viaParamName piece).2.2 <:+ piece := by
  rw [viaParamName]
  split_ifs
  all_goals first
    | exact List.drop_suffix _ _
    | exact List.suffix_refl _

theorem viaParamValue_piece {rest : CStr} (hrest : IsPiece rest) (htail : PieceTail tail) :
    (viaParamValue (rest ++ tail)).1 = (viaParamValue rest).1 ∧
      strpbrk (viaParamValue (rest ++ tail)).2 ";," = if tail = [] then none else some tail := by
  have hskip := skipLws_piece rest htail
  have hsuffix : IsPiece (skipLws rest) := hrest.of_suffix (List.dropWhile_suffix _)
  rw [viaParamValue, viaParamValue, hskip]
  cases hcons : skipLws rest with
  | nil =>
    have hpeek : peek tail ≠ '=' := by
      rcases htail with rfl | ⟨c, t, rfl, rfl | rfl⟩
      · decide
      · rw [peek_cons]
        decide
      · rw [peek_cons]
        decide
    rw [List.nil_append, if_neg hpeek, if_neg (by decide)]
    exact ⟨rfl, @strpbrk_piece _ [] (fun c hc => nomatch hc) htail⟩
  | cons c s =>
    rw [hcons] at hsuffix
    rw [List.cons_append, peek_cons, peek_cons, List.tail_cons, List.tail_cons]
    have hs : IsPiece s := hsuffix.of_suffix (List.suffix_cons c s)
    by_cases hequal : c = '='
    · rw [if_pos hequal, if_pos hequal, skipLws_piece s htail]
      have hvalue : IsPiece (skipLws s) := hs.of_suffix (List.dropWhile_suffix _)
      refine ⟨?_, strpbrk_piece hvalue htail⟩
      rw [strpbrk_piece hvalue htail, strpbrk_of_forall hvalue, textUpTo_strpbrk_append]
      rfl
    · rw [if_neg hequal, if_neg hequal, ← List.cons_append]
      exact ⟨rfl, strpbrk_piece hsuffix htail⟩

def pieceName (piece : CStr) : Option ViaParam := (viaParamName (skipLws piece)).2.1

/-- The value that a piece gives to its parameter. -/
def pieceValue (piece : CStr) : Option CStr :=
  (viaParamValue (viaParamName (skipLws piece)).2.2).1.map trimRight

def pieceStep (v : SipVia) (piece : CStr) : Option SipVia :=
  let v := if (viaParamName (skipLws piece)).1 then { v with isHidden := true } else v
  match pieceName piece with
  | none => some v
  | some p => if (v.param p).isSome then none else some ((pieceValue piece).elim v (v.setParam p))

/-- What follows a piece in the loop over parameters. -/
def afterPiece (fuel : ℕ) (str : CStr) (v : SipVia) : Option SipVia :=
  match strpbrk str ";," with
  | none => some v
  | some str =>
    if str.peek = ',' then some { v with moreVia := some (skipLws str.tail) } else parseViaParams fuel str.tail v

/-- **The first piece is read, and then the others** behind a semicolon, or the next entry behind a comma. -/
theorem parseViaParams_piece {piece : CStr} (hpiece : IsPiece piece) (htail : PieceTail tail) (fuel : ℕ) (v : SipVia) :
    parseViaParams (fuel + 1) (piece ++ tail) v = (pieceStep v piece).bind fun v =>
      if tail = [] then some v
      else if tail.peek = ',' then some { v with moreVia := some (skipLws tail.tail) }
      else parseViaParams fuel tail.tail v := by
  have hskipped : IsPiece (skipLws piece) := hpiece.of_suffix (List.dropWhile_suffix _)
  have hrest := hskipped.of_suffix (viaParamName_suffix (skipLws piece))
  rw [parseViaParams.eq_def]
  dsimp only
  rw [skipLws_piece piece htail, viaParamName_piece (skipLws piece) htail]
  dsimp only
  obtain ⟨hvalue, hsearch⟩ := viaParamValue_piece hrest htail
  rw [pieceStep, pieceName, pieceValue]
  generalize (if (viaParamName (skipLws piece)).1 = true then { v with isHidden := true } else v) = v'
  have hnext : ∀ (str : CStr) (v : SipVia), strpbrk str ";," = (if tail = [] then none else some tail) →
      afterPiece fuel str v =
        if tail = [] then some v
        else if tail.peek = ',' then some { v with moreVia := some (skipLws tail.tail) }
        else parseViaParams fuel tail.tail v := by
    intro str v hstr
    rw [afterPiece, hstr]
    by_cases hnil : tail = []
    · rw [if_pos hnil, if_pos hnil]
    · rw [if_neg hnil, if_neg hnil]
  cases (viaParamName (skipLws piece)).2.1 with
  | none => exact hnext _ v' (strpbrk_piece hrest htail)
  | some p =>
    dsimp only
    by_cases hset : (v'.param p).isSome
    · rw [if_pos hset, if_pos hset]
      rfl
    · rw [if_neg hset, if_neg hset, Option.bind_some]
      rw [← hvalue]
      generalize viaParamValue ((viaParamName (skipLws piece)).2.2 ++ tail) = read at hsearch
      obtain ⟨value, str⟩ := read
      cases value with
      | none => exact hnext str v' hsearch
      | some value => exact hnext str (v'.setParam p (trimRight value)) hsearch

/-! ## Pieces one after the other -/

/-- Pieces with semicolons between them. -/
def piecesText (pieces : List CStr) : CStr := List.intercalate [';'] pieces

/-- The entry behind the pieces, if there is a comma. -/
def withMore (tail : CStr) (v : SipVia) : SipVia :=
  if tail = [] then v else { v with moreVia := some (skipLws tail.tail) }

/-- **The parameters are read piece by piece**, up to the end or to a comma. -/
theorem parseViaParams_pieces (htail : tail = [] ∨ ∃ t, tail = ',' :: t) (pieces : List CStr) :
    ∀ (fuel : ℕ) (v : SipVia), pieces ≠ [] → (∀ piece ∈ pieces, IsPiece piece) → pieces.length ≤ fuel →
      parseViaParams fuel (piecesText pieces ++ tail) v = (pieces.foldlM pieceStep v).map (withMore tail) := by
  induction pieces with
  | nil => exact fun _ _ hne => absurd rfl hne
  | cons piece pieces ih =>
    intro fuel v _ hpieces hfuel
    obtain ⟨fuel, rfl⟩ := Nat.exists_eq_add_one_of_ne_zero (Nat.ne_of_gt (Nat.lt_of_lt_of_le (Nat.succ_pos _) hfuel))
    have hpiece := hpieces piece List.mem_cons_self
    rw [List.foldlM_cons]
    cases pieces with
    | nil =>
      have htext : piecesText [piece] = piece := by simp [piecesText]
      have hend : PieceTail tail := by
        rcases htail with rfl | ⟨t, rfl⟩
        · exact .inl rfl
        · exact .inr ⟨',', t, rfl, .inr rfl⟩
      rw [htext, parseViaParams_piece hpiece hend]
      cases pieceStep v piece with
      | none => rfl
      | some v' =>
        rcases htail with rfl | ⟨t, rfl⟩
        · rfl
        · rfl
    | cons next pieces =>
      have htext : piecesText (piece :: next :: pieces) ++ tail =
          piece ++ ';' :: (piecesText (next :: pieces) ++ tail) := by
        simp [piecesText, List.intercalate_cons_cons]
      have hend : PieceTail (';' :: (piecesText (next :: pieces) ++ tail)) := .inr ⟨';', _, rfl, .inl rfl⟩
      rw [htext, parseViaParams_piece hpiece hend]
      cases pieceStep v piece with
      | none => rfl
      | some v' =>
        have hrest := ih fuel v' (List.cons_ne_nil _ _) (fun p hp => hpieces p (List.mem_cons_of_mem _ hp))
          (Nat.le_of_succ_le_succ hfuel)
        exact hrest

/-- The value that a piece gives to a parameter. -/
def pieceSets (p : ViaParam) (piece : CStr) : Option CStr := if pieceName piece = some p then pieceValue piece else none

/-- No piece is taken for a parameter that an earlier one has set. -/
def NoRepeat (pieces : List CStr) : Prop :=
  pieces.Pairwise fun x y => ∀ p, (pieceSets p x).isSome → pieceName y ≠ some p

theorem param_setParam (v : SipVia) (p q : ViaParam) (value : CStr) :
    (v.setParam p value).param q = if p = q then some value else v.param q := by
  cases p <;> cases q <;> rfl

theorem pieceStep_eq (v : SipVia) (piece : CStr) :
    ((pieceStep v piece).isSome ↔ ∀ p, pieceName piece = some p → v.param p = none) ∧
      ∀ v', pieceStep v piece = some v' →
        v'.moreVia = v.moreVia ∧ ∀ p, v'.param p = (v.param p).or (pieceSets p piece) := by
  have hhidden : ∀ (hidden : Bool) (p : ViaParam),
      (if hidden then { v with isHidden := true } else v : SipVia).param p = v.param p := by
    intro hidden p
    cases hidden <;> cases p <;> rfl
  have hmore : ∀ hidden : Bool, (if hidden then { v with isHidden := true } else v : SipVia).moreVia = v.moreVia := by
    intro hidden
    cases hidden <;> rfl
  rw [pieceStep]
  cases hname : pieceName piece with
  | none =>
    refine ⟨by simp, ?_⟩
    rintro v' h
    obtain rfl := Option.some.inj h
    refine ⟨hmore _, fun p => ?_⟩
    rw [hhidden, pieceSets, hname, if_neg (by simp), Option.or_none]
  | some p =>
    dsimp only
    rw [hhidden]
    cases hparam : v.param p with
    | some value =>
      refine ⟨?_, ?_⟩
      · simp [hparam]
      · intro v' h
        simp at h
    | none =>
      refine ⟨by simp [hparam], ?_⟩
      intro v' h
      rw [if_neg (by simp)] at h
      obtain rfl := Option.some.inj h
      cases hvalue : pieceValue piece with
      | none =>
        refine ⟨hmore _, fun q => ?_⟩
        rw [Option.elim_none, hhidden, pieceSets, hvalue, ite_self, Option.or_none]
      | some value =>
        rw [Option.elim_some]
        refine ⟨?_, fun q => ?_⟩
        · refine Eq.trans ?_ (hmore (viaParamName (skipLws piece)).1)
          cases p <;> rfl
        · rw [param_setParam, hhidden, pieceSets, hname, hvalue]
          by_cases hq : p = q
          · rw [if_pos hq, if_pos (congrArg some hq), ← hq, hparam, Option.none_or]
          · rw [if_neg hq, if_neg fun h => hq (Option.some.inj h), Option.or_none]

/-- **When the pieces are accepted**: no piece is taken for a parameter that has been set. -/
theorem foldlM_pieceStep_isSome_iff (pieces : List CStr) (v : SipVia) : (pieces.foldlM pieceStep v).isSome ↔
      NoRepeat pieces ∧ ∀ piece ∈ pieces, ∀ p, pieceName piece = some p → v.param p = none := by
  induction pieces generalizing v with
  | nil => exact iff_of_true rfl ⟨.nil, nofun⟩
  | cons x xs ih =>
    obtain ⟨hstep, hparam⟩ := pieceStep_eq v x
    rw [List.foldlM_cons, NoRepeat, List.pairwise_cons, List.forall_mem_cons, ← hstep]
    cases hx : pieceStep v x with
    | none => exact iff_of_false (by simp) fun h => by simp at h
    | some v' =>
      obtain ⟨-, hset⟩ := hparam v' hx
      have hrest := ih v'
      rw [NoRepeat] at hrest
      simp only [Option.bind_eq_bind, Option.bind_some, Option.isSome_some, true_and, hrest, hset,
        Option.or_eq_none_iff]
      constructor
      · rintro ⟨hpairs, hfree⟩
        refine ⟨⟨fun y hy p hsets hname => ?_, hpairs⟩, fun y hy p hname => (hfree y hy p hname).1⟩
        rw [(hfree y hy p hname).2] at hsets
        cases hsets
      · rintro ⟨⟨hfirst, hpairs⟩, hfree⟩
        refine ⟨hpairs, fun y hy p hname => ⟨hfree y hy p hname, ?_⟩⟩
        exact Option.not_isSome_iff_eq_none.mp fun hsets => hfirst y hy p hsets hname

/-- **What the pieces give**: the value of the first piece that sets a parameter. -/
theorem param_of_foldlM (pieces : List CStr) (v : SipVia) {v' : SipVia} (h : pieces.foldlM pieceStep v = some v') :
    v'.moreVia = v.moreVia ∧ ∀ p, v'.param p = (v.param p).or (pieces.findSome? (pieceSets p)) := by
  induction pieces generalizing v with
  | nil =>
    obtain rfl := Option.some.inj h
    exact ⟨rfl, fun p => by rw [List.findSome?_nil, Option.or_none]⟩
  | cons x xs ih =>
    rw [List.foldlM_cons] at h
    cases hx : pieceStep v x with
    | none =>
      rw [hx] at h
      cases h
    | some v₁ =>
      rw [hx] at h
      obtain ⟨hmore, hset⟩ := (pieceStep_eq v x).2 v₁ hx
      obtain ⟨hmore', hset'⟩ := ih v₁ h
      refine ⟨hmore'.trans hmore, fun p => ?_⟩
      rw [hset', hset, List.findSome?_cons, Option.or_assoc]
      cases pieceSets p x with
      | none => rw [Option.none_or]
      | some value => rfl

end Sip
