import Ikran.Sip.Scanners

/-!
# Comparison of URL strings

What `sippmh_cmpURLStrings` finds out about two strings in which every percent sign has its two digits. The loop ends
with the first string, and it compares the terminator of the second one like any other character.
-/

namespace Sip

open CStr

/-! ## Decoding -/

def hexValue (c : Char) : Option ℕ :=
  if '0' ≤ c ∧ c ≤ '9' then some (c.toNat - '0'.toNat)
  else if 'a' ≤ c ∧ c ≤ 'f' then some (c.toNat - 'a'.toNat + 10)
  else if 'A' ≤ c ∧ c ≤ 'F' then some (c.toNat - 'A'.toNat + 10)
  else none

/-- Every percent sign is followed by two hexadecimal digits. -/
inductive WellEscaped : CStr → Prop
  | nil : WellEscaped []
  | plain {c : Char} {s : CStr} (hc : c ≠ '%') (h : WellEscaped s) : WellEscaped (c :: s)
  | escape {high low : Char} {s : CStr} (hhigh : (hexValue high).isSome) (hlow : (hexValue low).isSome)
      (h : WellEscaped s) : WellEscaped ('%' :: high :: low :: s)

/-- The characters of a string, by their values. -/
def decoded : CStr → List ℕ
  | [] => []
  | '%' :: high :: low :: s => ((hexValue high).getD 0 * 16 + (hexValue low).getD 0) :: decoded s
  | c :: s => c.toNat :: decoded s

/-- The value that is compared for a character. -/
def fold (ignoreCase : Bool) (v : ℕ) : ℕ := if ignoreCase then toupper v else v

def folded (ignoreCase : Bool) (s : CStr) : List ℕ := (decoded s).map (fold ignoreCase)

theorem decoded_cons {c : Char} (hc : c ≠ '%') (s : CStr) : decoded (c :: s) = c.toNat :: decoded s := by
  rw [decoded]
  rintro high low t rfl
  exact absurd rfl hc

theorem sippmhHtoi_eq {c : Char} (h : (hexValue c).isSome) : sippmhHtoi c = (hexValue c).getD 0 := by
  rw [hexValue] at h ⊢
  have hdigit : c.isDigit = true ↔ '0' ≤ c ∧ c ≤ '9' := by
    simp [Char.isDigit, Char.le_def, UInt32.le_iff_toNat_le]
  have hlower : c.isLower = true ↔ 'a' ≤ c ∧ c ≤ 'z' := by
    delta Char.isLower
    simp [Char.le_def, UInt32.le_iff_toNat_le]
  have hupper : c.isUpper = true ↔ 'A' ≤ c ∧ c ≤ 'Z' := by
    delta Char.isUpper
    simp [Char.le_def, UInt32.le_iff_toNat_le]
  rw [sippmhHtoi]
  simp only [hdigit, hlower, hupper]
  -- the letters behind `f` are none
  have hvalues : 'A'.toNat = 65 ∧ 'F'.toNat = 70 ∧ 'Z'.toNat = 90 ∧ 'a'.toNat = 97 ∧ 'f'.toNat = 102 ∧
      'z'.toNat = 122 ∧ '0'.toNat = 48 ∧ '9'.toNat = 57 := by decide
  simp only [Char.le_def, UInt32.le_iff_toNat_le] at h ⊢
  simp only [show ∀ d : Char, d.val.toNat = d.toNat from fun _ => rfl, hvalues] at h ⊢
  split_ifs at h ⊢ <;> first | (simp only [Option.getD_some]; omega) | omega | simp_all

theorem exists_unit {s : CStr} (h : WellEscaped s) (hne : s ≠ []) :
    ∃ v w rest, unitAt (some s) = some (v, w) ∧ Ptr.add (some s) w = some rest ∧ decoded s = v :: decoded rest ∧
      WellEscaped rest ∧ rest <:+ s ∧ rest.length < s.length := by
  cases h with
  | nil => exact absurd rfl hne
  | @plain c s hc h =>
    refine ⟨c.toNat, 1, s, ?_, ?_, decoded_cons hc s, h, List.suffix_cons c s, Nat.lt_succ_self _⟩
    · rw [unitAt, Ptr.load_some, Option.bind_some, peek_cons, if_neg hc]
    · exact Ptr.add_cons_succ c s 0
  | @escape high low s hhigh hlow h =>
    refine ⟨_, 3, s, ?_, ?_, rfl, h, ⟨['%', high, low], rfl⟩, ?_⟩
    · rw [← sippmhHtoi_eq hhigh, ← sippmhHtoi_eq hlow]
      rfl
    · rfl
    · simp only [List.length_cons]
      omega

theorem folded_nil (ignoreCase : Bool) : folded ignoreCase [] = [] := rfl

/-! ## The loop -/

variable {ignoreCase : Bool} {v₁ v₂ : ℕ}

theorem sameValue_iff : sameValue ignoreCase v₁ v₂ = true ↔ fold ignoreCase v₁ = fold ignoreCase v₂ := by
  cases ignoreCase <;> simp [sameValue, fold]

theorem valueDiff_eq_zero_iff : valueDiff ignoreCase v₁ v₂ = 0 ↔ sameValue ignoreCase v₁ v₂ = true := by
  cases ignoreCase <;> simp [valueDiff, sameValue] <;> omega

theorem fold_eq_zero_iff {v : ℕ} : fold ignoreCase v = 0 ↔ v = 0 := by
  cases ignoreCase with
  | false => exact Iff.rfl
  | true =>
    rw [fold, if_pos rfl, toupper]
    split_ifs <;> omega

theorem cmpLoop_step {fuel : ℕ} {s : CStr} {us₂ : Ptr} {v w v' w' : ℕ} (hs : s.peek ≠ nul)
    (hunit : unitAt (some s) = some (v, w)) (hunit' : unitAt us₂ = some (v', w')) :
    cmpLoop ignoreCase (fuel + 1) (some s) us₂ v₁ v₂ =
      if sameValue ignoreCase v v' then cmpLoop ignoreCase fuel (Ptr.add (some s) w) (Ptr.add us₂ w') v v'
      else some (valueDiff ignoreCase v v') := by
  rw [cmpLoop, Ptr.load_some, Option.bind_some, if_neg hs, hunit, hunit']
  rfl

theorem cmpLoop_beyond (fuel : ℕ) {s : CStr} (hs : WellEscaped s) (hnul : nul ∉ s)
    (hv : sameValue ignoreCase v₁ v₂ = true) :
    cmpLoop ignoreCase fuel (some s) none v₁ v₂ = none ∨ cmpLoop ignoreCase fuel (some s) none v₁ v₂ = some 0 := by
  have hzero := valueDiff_eq_zero_iff.mpr hv
  cases fuel with
  | zero => exact .inr (by rw [cmpLoop, hzero])
  | succ fuel =>
    rw [cmpLoop, Ptr.load_some, Option.bind_some]
    split_ifs with hend
    · exact .inr (by rw [hzero])
    · have hne : s ≠ [] := by
        rintro rfl
        exact hend rfl
      obtain ⟨v, w, rest, hunit, -⟩ := exists_unit hs hne
      rw [hunit]
      exact .inl rfl

/-- **What the loop finds.** The first string is a prefix of the second one, and the result is zero; or it goes on
behind the second one with a NUL, and the code reads behind that or ends with zero; or the result is not zero. By
induction on the characters. -/
theorem cmpLoop_cases (fuel : ℕ) {s t : CStr} (hs : WellEscaped s) (ht : WellEscaped t)
    (hnul : nul ∉ s) (hfuel : s.length < fuel) (hv : sameValue ignoreCase v₁ v₂ = true) :
    (folded ignoreCase s <+: folded ignoreCase t ∧ cmpLoop ignoreCase fuel (some s) (some t) v₁ v₂ = some 0) ∨
      (folded ignoreCase t ++ [0] <+: folded ignoreCase s ∧ (cmpLoop ignoreCase fuel (some s) (some t) v₁ v₂ = none ∨
          cmpLoop ignoreCase fuel (some s) (some t) v₁ v₂ = some 0)) ∨
      (¬folded ignoreCase s <+: folded ignoreCase t ∧ ¬folded ignoreCase t ++ [0] <+: folded ignoreCase s ∧
        ∃ r, cmpLoop ignoreCase fuel (some s) (some t) v₁ v₂ = some r ∧ r ≠ 0) := by
  induction fuel generalizing s t v₁ v₂ with
  | zero => cases hfuel
  | succ fuel ih =>
    by_cases hne : s = []
    · subst hne
      rw [cmpLoop, Ptr.load_some, Option.bind_some, peek_nil, if_pos rfl, valueDiff_eq_zero_iff.mpr hv]
      exact .inl ⟨List.nil_prefix, rfl⟩
    obtain ⟨v, w, rest, hunit, hadd, hdecoded, hrest, hsuffix, hlt⟩ := exists_unit hs hne
    have hpeek : s.peek ≠ nul := by
      obtain ⟨c, u, rfl⟩ := List.exists_cons_of_ne_nil hne
      exact fun heq => hnul (heq ▸ List.mem_cons_self)
    have hnul' : nul ∉ rest := fun hmem => hnul (hsuffix.subset hmem)
    have hfolded : folded ignoreCase s = fold ignoreCase v :: folded ignoreCase rest := by
      rw [folded, hdecoded]
      rfl
    rw [hfolded]
    by_cases htne : t = []
    · -- the second string is over, and its terminator is compared
      subst htne
      have hend : unitAt (some []) = some (0, 1) := rfl
      rw [cmpLoop_step hpeek hunit hend, hadd, folded_nil, List.nil_append]
      have hzero : fold ignoreCase 0 = 0 := fold_eq_zero_iff.mpr rfl
      split_ifs with hsame
      · have hv0 := sameValue_iff.mp hsame
        rw [hzero] at hv0
        rw [hv0]
        exact .inr (.inl ⟨List.prefix_append [0] _, cmpLoop_beyond fuel hrest hnul' hsame⟩)
      · have hv0 : fold ignoreCase v ≠ 0 := fun h => hsame (sameValue_iff.mpr (h.trans hzero.symm))
        refine .inr (.inr ⟨by simp, fun hpre => ?_, _, rfl, fun h => hsame (valueDiff_eq_zero_iff.mp h)⟩)
        exact hv0 (List.cons_prefix_cons.mp hpre).1.symm
    · obtain ⟨v', w', rest', hunit', hadd', hdecoded', hrest', -, -⟩ := exists_unit ht htne
      have hfolded' : folded ignoreCase t = fold ignoreCase v' :: folded ignoreCase rest' := by
        rw [folded, hdecoded']
        rfl
      rw [cmpLoop_step hpeek hunit hunit', hadd, hadd', hfolded', List.cons_append, List.cons_prefix_cons,
        List.cons_prefix_cons]
      split_ifs with hsame
      · have heq := sameValue_iff.mp hsame
        rcases ih hrest hrest' hnul' (by omega) hsame with ⟨hpre, h⟩ | ⟨hpre, h⟩ | ⟨hpre, hpre', h⟩
        · exact .inl ⟨⟨heq, hpre⟩, h⟩
        · exact .inr (.inl ⟨⟨heq.symm, hpre⟩, h⟩)
        · exact .inr (.inr ⟨fun hp => hpre hp.2, fun hp => hpre' hp.2, h⟩)
      · have hneq := fun h => hsame (sameValue_iff.mpr h)
        exact .inr (.inr ⟨fun hp => hneq hp.1, fun hp => hneq hp.1.symm, _, rfl,
          fun h => hsame (valueDiff_eq_zero_iff.mp h)⟩)

/-- **When the comparison is that of the decoded strings.** The first one must not be a proper prefix of the second
one, nor go on behind it with a NUL. -/
theorem cmpURLStrings_iff {s₁ s₂ : CStr} (h₁ : WellEscaped s₁) (h₂ : WellEscaped s₂) (hnul : nul ∉ s₁)
    (ignoreCase : Bool) :
    (∃ r, sippmhCmpURLStrings s₁ s₂ ignoreCase = some r ∧
        (r = 0 ↔ folded ignoreCase s₁ = folded ignoreCase s₂)) ↔
      (folded ignoreCase s₁ <+: folded ignoreCase s₂ → folded ignoreCase s₁ = folded ignoreCase s₂) ∧
        ¬folded ignoreCase s₂ ++ [0] <+: folded ignoreCase s₁ := by
  have hlonger : folded ignoreCase s₂ ++ [0] <+: folded ignoreCase s₁ →
      folded ignoreCase s₁ ≠ folded ignoreCase s₂ := fun hpre heq => by
    have hlength := hpre.length_le
    rw [heq, List.length_append, List.length_singleton] at hlength
    omega
  have hstart : sameValue ignoreCase 0 0 = true := sameValue_iff.mpr rfl
  rw [sippmhCmpURLStrings]
  rcases cmpLoop_cases (s₁.length + 1) h₁ h₂ hnul (Nat.lt_succ_self _) hstart with
    ⟨hpre, h⟩ | ⟨hpre, h⟩ | ⟨hpre, hpre', r, h, hr⟩
  · rw [h]
    refine ⟨?_, fun heq => ⟨0, rfl, iff_of_true rfl (heq.1 hpre)⟩⟩
    rintro ⟨r, hr, hiff⟩
    have heq := hiff.mp (Option.some_inj.mp hr).symm
    exact ⟨fun _ => heq, fun hpre' => hlonger hpre' heq⟩
  · refine iff_of_false ?_ fun hno => hno.2 hpre
    rintro ⟨r, hr, hiff⟩
    rcases h with h | h
    · cases h.symm.trans hr
    · exact hlonger hpre (hiff.mp (Option.some_inj.mp (h.symm.trans hr)).symm)
  · rw [h]
    refine iff_of_true ⟨r, rfl, iff_of_false hr fun heq => hpre (heq ▸ List.prefix_rfl)⟩
      ⟨fun hp => absurd hp hpre, hpre'⟩

/-- A user and a longer one are different. -/
theorem cmpURLStrings_bob : ∃ r, sippmhCmpURLStrings "bob" "%41lice" true = some r ∧
    (r = 0 ↔ folded true "bob" = folded true "%41lice") :=
  (cmpURLStrings_iff (.plain (by decide) (.plain (by decide) (.plain (by decide) .nil)))
    (.escape (by decide) (by decide) (.plain (by decide) (.plain (by decide) (.plain (by decide)
      (.plain (by decide) .nil))))) (by decide) true).mpr (by decide)

/-- A tag is equal to a longer one, in one order of the two. -/
theorem not_cmpURLStrings :
    WellEscaped "ab" ∧ WellEscaped "abc" ∧ sippmhCmpURLStrings "ab" "abc" false = some 0 ∧
      sippmhCmpURLStrings "abc" "ab" false ≠ some 0 ∧ folded false "ab" ≠ folded false "abc" :=
  ⟨.plain (by decide) (.plain (by decide) .nil),
    .plain (by decide) (.plain (by decide) (.plain (by decide) .nil)), by decide, by decide, by decide⟩

/-! ## Escaped texts -/

theorem hexEscape_digits : (List.range 128).all (fun n => decide (n < 16) || (match hexEscape (Char.ofNat n) with
      | ['%', high, low] => (hexValue high).isSome && (hexValue low).isSome && decoded ['%', high, low] == [n]
      | _ => false)) = true := by
  decide

theorem decoded_textOf {s : CStr} (h : ∀ c ∈ s, IsNarrow c) :
    WellEscaped (textOf s) ∧ decoded (textOf s) = s.map Char.toNat := by
  induction s with
  | nil => exact ⟨.nil, rfl⟩
  | cons c s ih =>
    obtain ⟨hc, hs⟩ := List.forall_mem_cons.mp h
    obtain ⟨hescaped, hdecoded⟩ := ih hs
    change WellEscaped ((writeOf 0 c).text ++ textOf s) ∧
      decoded ((writeOf 0 c).text ++ textOf s) = c.toNat :: s.map Char.toNat
    rw [writeOf]
    split_ifs with hplain
    · have hne : c ≠ '%' := by
        rintro rfl
        exact absurd hplain (by decide)
      exact ⟨.plain hne hescaped, (decoded_cons hne _).trans (congrArg _ hdecoded)⟩
    · obtain ⟨hge, hlt⟩ := hc.resolve_left hplain
      have hdigits := List.all_eq_true.mp hexEscape_digits c.toNat (List.mem_range.mpr hlt)
      rw [Bool.or_eq_true, decide_eq_true_eq, Char.ofNat_toNat] at hdigits
      replace hdigits := hdigits.resolve_left (by omega)
      split at hdigits
      · rename_i high low htext
        simp only [Bool.and_eq_true, beq_iff_eq] at hdigits
        dsimp only
        rw [htext]
        exact ⟨.escape hdigits.1.1 hdigits.1.2 hescaped, List.cons_eq_cons.mpr ⟨(List.cons.inj hdigits.2).1, hdecoded⟩⟩
      · cases hdigits

/-- **Escaped texts are compared like those that they stand for**: the result is zero exactly when the first one is a
beginning of the second one. -/
theorem cmpURLStrings_textOf {s t : CStr} (hs : ∀ c ∈ s, IsNarrow c) (ht : ∀ c ∈ t, IsNarrow c) (ignoreCase : Bool) :
    ∃ r, sippmhCmpURLStrings (textOf s) (textOf t) ignoreCase = some r ∧
      (r = 0 ↔ s.map (fold ignoreCase ·.toNat) <+: t.map (fold ignoreCase ·.toNat)) := by
  have hnarrow : ∀ c ∈ s, c ≠ nul := by
    rintro c hc rfl
    rcases hs nul hc with hplain | hge
    · exact absurd hplain (by decide)
    · exact absurd hge (by decide)
  have hnul : nul ∉ textOf s := fun hmem => by
    obtain ⟨c, hc, hmem⟩ := List.mem_flatMap.mp hmem
    by_cases hplain : isPlain userUnResCharList c = true
    · rw [writeOf, if_pos hplain] at hmem
      exact hnarrow c hc (List.mem_singleton.mp hmem).symm
    · have hlt := ((hs c hc).resolve_left hplain).2
      exact nul_notMem_text (hnarrow c hc) (by omega) 0 hmem
  obtain ⟨hescaped, hdecoded⟩ := decoded_textOf hs
  obtain ⟨hescaped', hdecoded'⟩ := decoded_textOf ht
  have hcases := cmpLoop_cases ((textOf s).length + 1) hescaped hescaped' hnul (Nat.lt_succ_self _)
    (@sameValue_iff ignoreCase 0 0 |>.mpr rfl)
  simp only [folded, hdecoded, hdecoded', List.map_map] at hcases
  rcases hcases with ⟨hpre, h⟩ | ⟨hpre, -⟩ | ⟨hno, -, r, h, hr⟩
  · exact ⟨0, h, iff_of_true rfl hpre⟩
  · obtain ⟨c, hc, hzero⟩ := List.mem_map.mp (hpre.subset (List.mem_append_right _ (List.mem_singleton_self 0)))
    exact absurd (Char.toNat_inj.mp (fold_eq_zero_iff.mp hzero : c.toNat = nul.toNat)) (hnarrow c hc)
  · exact ⟨r, h, iff_of_false hr hno⟩

/-- A text with a blank is a beginning of a longer one. -/
theorem cmpURLStrings_textOf_blank : ∃ r, sippmhCmpURLStrings "a%20b" "A%20B%5e" true = some r ∧
    (r = 0 ↔ "a b".toList.map (fold true ·.toNat) <+: "A B^".toList.map (fold true ·.toNat)) :=
  @cmpURLStrings_textOf ['a', ' ', 'b'] ['A', ' ', 'B', '^'] (by unfold IsNarrow; decide)
    (by unfold IsNarrow; decide) true

end Sip
