import Ikran.Sdp.Sections

/-!
# Attaching attributes to capabilities

A capability parameter belongs to the capability line in front of it. The parser finds that
capability by the number of capability lines it has seen, of both kinds and at all levels, while
`sdp_find_attr` counts the capabilities of one kind at one level.
-/

namespace Sdp

open CStr Line

/-! ## The nearest capability -/

/-- The kind of the last capability of a list. -/
def lastCap : List LevelAttr → Option CapType
  | [] => none
  | .plain _ :: l => lastCap l
  | .cap t _ :: l => (lastCap l).or (some t)

/-- Attach an attribute to the last capability of a list. -/
def attachLast (a : Attr) : List LevelAttr → List LevelAttr
  | [] => []
  | b :: l => if (lastCap l).isSome then b :: attachLast a l else attach a b :: l

/-- The number of capabilities of one kind in a list. -/
def capCount (t : CapType) : List LevelAttr → ℕ
  | [] => 0
  | .plain _ :: l => capCount t l
  | .cap t' _ :: l => capCount t l + if t' = t then 1 else 0

def capsCount : List LevelAttr → ℕ
  | [] => 0
  | .plain _ :: l => capsCount l
  | .cap _ _ :: l => capsCount l + 1

/-- The attributes of a level behind a line, and the kind of the nearest capability line; `none` when
there is none or it is not valid. -/
def attachLine (l : List LevelAttr) (nearest : Option CapType) :
    AttrLine → List LevelAttr × Option CapType
  | .plain (some a) => (l ++ [.plain a], nearest)
  | .cap t (some capP) => (l ++ [.cap t capP], some t)
  | .cap _ none => (l, none)
  | .cpar t (some a) => if nearest = some t then (attachLast a l, nearest) else (l, nearest)
  | .plain none | .cpar _ none | .other => (l, nearest)

/-- The line is a media line that is not refused. -/
def Visit.opensLevel (conf : Conf) (v : Visit) : Bool := v.tok == .m && (v.media conf).isSome

/-- The attributes of the levels from a line on, where the first level has the attributes `l` so far.
-/
def capSections (conf : Conf) : List LevelAttr → Option CapType → List Visit → List (List LevelAttr)
  | l, _, [] => [l]
  | l, nearest, v :: vs =>
    if v.opensLevel conf then l :: capSections conf [] none vs
    else
      capSections conf (attachLine l nearest (v.attrLine conf)).1
        (attachLine l nearest (v.attrLine conf)).2 vs

def AttrLine.isCap : AttrLine → Bool
  | .cap _ (some _) => true
  | _ => false

/-- Wherever an attribute has to be attached, the number of valid capability lines so far, of both
kinds and at all levels, is the number of capabilities of its kind at its level: all of them were of
this kind and at this level. There have been `k` such lines so far. -/
def CapsCounted (conf : Conf) : ℕ → List LevelAttr → Option CapType → List Visit → Prop
  | _, _, _, [] => True
  | k, l, nearest, v :: vs =>
    if v.opensLevel conf then CapsCounted conf k [] none vs
    else
      (∀ t a, v.attrLine conf = .cpar t (some a) → nearest = some t → k = capCount t l) ∧
        CapsCounted conf (k + if (v.attrLine conf).isCap then 1 else 0)
          (attachLine l nearest (v.attrLine conf)).1 (attachLine l nearest (v.attrLine conf)).2 vs

/-! ## Finding a capability -/

variable {l : List LevelAttr}

theorem findAttrIdx_of_lt {t : CapType} {inst : ℕ} (h : capCount t l < inst) : findAttrIdx (.cap t) inst l = none := by
  induction l generalizing inst with
  | nil => cases inst <;> rfl
  | cons b l ih =>
    obtain ⟨inst, rfl⟩ := Nat.exists_eq_succ_of_ne_zero (Nat.ne_zero_of_lt h)
    cases b with
    | plain a =>
      have htail := @ih (inst + 1) h
      simp [findAttrIdx, LevelAttr.type, htail]
    | cap t' c =>
      rw [capCount] at h
      by_cases ht : t' = t
      · rw [if_pos ht] at h
        have htail := @ih inst (by omega)
        have hne : inst ≠ 0 := by omega
        simp [findAttrIdx, LevelAttr.type, ht, htail, hne]
      · rw [if_neg ht] at h
        have htail := @ih (inst + 1) (by omega)
        simp [findAttrIdx, LevelAttr.type, ht, htail]

theorem capCount_pos {t : CapType} (h : lastCap l = some t) : 0 < capCount t l := by
  induction l with
  | nil => cases h
  | cons b l ih =>
    cases b with
    | plain a => exact ih h
    | cap t' c =>
      rw [lastCap, Option.or_eq_some_iff] at h
      rw [capCount]
      rcases h with h | ⟨-, h⟩
      · have hpos := ih h
        omega
      · rw [if_pos (Option.some.inj h)]
        omega

theorem capsCount_eq_zero (h : lastCap l = none) : capsCount l = 0 := by
  induction l with
  | nil => rfl
  | cons b l ih =>
    cases b with
    | plain a => exact ih h
    | cap t' c => simp [lastCap] at h

theorem capCount_le_capsCount (t : CapType) (l : List LevelAttr) : capCount t l ≤ capsCount l := by
  induction l with
  | nil => exact le_rfl
  | cons b l ih =>
    cases b with
    | plain a => exact ih
    | cap t' c =>
      rw [capCount, capsCount]
      split_ifs <;> omega

theorem capCount_add_capCount_le {t t' : CapType} (h : t ≠ t') (l : List LevelAttr) :
    capCount t l + capCount t' l ≤ capsCount l := by
  induction l with
  | nil => exact le_rfl
  | cons b l ih =>
    cases b with
    | plain a => exact ih
    | cap t'' c =>
      rw [capCount, capCount, capsCount]
      by_cases ht : t'' = t
      · rw [if_pos ht, if_neg (by rw [ht]; exact h)]
        omega
      · rw [if_neg ht]
        split_ifs <;> omega

/-- The last capability is found under the number of capabilities of its kind. -/
theorem findAttrIdx_last {t : CapType} (h : lastCap l = some t) (a : Attr) :
    ∃ i, findAttrIdx (.cap t) (capCount t l) l = some i ∧ l.modify i (attach a) = attachLast a l := by
  induction l with
  | nil => cases h
  | cons b l ih =>
    cases hl : lastCap l with
    | some t' =>
      have htail : lastCap l = some t := by
        rw [hl]
        cases b <;> simpa [lastCap, hl] using h
      obtain ⟨i, hi, hmodify⟩ := ih htail
      obtain ⟨n, hn⟩ := Nat.exists_eq_succ_of_ne_zero (Nat.ne_zero_of_lt (capCount_pos htail))
      refine ⟨i + 1, ?_, by simp [attachLast, hl, hmodify]⟩
      rw [hn] at hi
      cases b with
      | plain c => simp [capCount, hn, findAttrIdx, LevelAttr.type, hi]
      | cap t'' c =>
        by_cases ht : t'' = t
        · simp [capCount, hn, findAttrIdx, LevelAttr.type, ht, hi]
        · simp [capCount, hn, findAttrIdx, LevelAttr.type, ht, hi]
    | none =>
      cases b with
      | plain c => simp [lastCap, hl] at h
      | cap t' c =>
        obtain rfl : t' = t := by simpa [lastCap, hl] using h
        have hzero : capCount t' l = 0 := by
          have hle := capCount_le_capsCount t' l
          rw [capsCount_eq_zero hl] at hle
          omega
        refine ⟨0, ?_, by simp [attachLast, hl]⟩
        simp [capCount, hzero, findAttrIdx, LevelAttr.type]

theorem counts_attachLast (a : Attr) (l : List LevelAttr) :
    lastCap (attachLast a l) = lastCap l ∧ capsCount (attachLast a l) = capsCount l ∧
      ∀ t, capCount t (attachLast a l) = capCount t l := by
  induction l with
  | nil => exact ⟨rfl, rfl, fun _ => rfl⟩
  | cons b l ih =>
    obtain ⟨hlast, hcaps, hcap⟩ := ih
    unfold attachLast
    split_ifs with hl
    · cases b <;> simp [lastCap, capsCount, capCount, hlast, hcaps, hcap]
    · cases b <;> simp [attach, lastCap, capsCount, capCount]

theorem counts_append (l : List LevelAttr) (b : LevelAttr) :
    lastCap (l ++ [b]) = (match b with | .plain _ => lastCap l | .cap t _ => some t) ∧
      capsCount (l ++ [b]) = capsCount l + (match b with | .plain _ => 0 | .cap _ _ => 1) := by
  induction l with
  | nil => cases b <;> exact ⟨rfl, rfl⟩
  | cons c l ih =>
    obtain ⟨hlast, hcaps⟩ := ih
    cases c with
    | plain c => cases b <;> simp_all [lastCap, capsCount]
    | cap t c =>
      cases b with
      | plain b => simp_all [lastCap, capsCount]
      | cap t' b => simp_all [lastCap, capsCount]

theorem attachLast_ne {t : CapType} (h : lastCap l = some t) (a : Attr) : attachLast a l ≠ l := by
  induction l with
  | nil => cases h
  | cons b l ih =>
    unfold attachLast
    split_ifs with hl
    · have htail : lastCap l = some t := by
        cases b with
        | plain c => exact h
        | cap t' c =>
          obtain ⟨t'', ht⟩ := Option.isSome_iff_exists.mp hl
          simpa [lastCap, ht] using h
      simpa using ih htail
    · cases b with
      | plain c => simp [lastCap] at h; simp [h] at hl
      | cap t' c =>
        intro heq
        have hattrs := congrArg (fun l => l.head?) heq
        simp only [attach, List.head?_cons, Option.some.injEq, LevelAttr.cap.injEq, true_and] at hattrs
        have hlength := congrArg (fun c : Cap => c.attrs.length) hattrs
        simp at hlength

/-! ## One line -/

/-- What the capability counters of the parser say about the attributes of the last level, when `k`
valid capability lines have been parsed. -/
structure CapInv (d : Desc) (k : ℕ) (l : List LevelAttr) (nearest : Option CapType) : Prop where
  lastCapInst : d.lastCapInst.toNat = k
  caps : capsCount l ≤ k
  nearest_some : ∀ t, nearest = some t → d.capValid = true ∧ lastCap l = some t
  nearest_none : nearest = none → d.capValid = true → capsCount l = 0 ∧ 0 < k

namespace CapInv

variable {d : Desc} {k : ℕ} {l : List LevelAttr} {nearest : Option CapType}

theorem findCap_eq_none (h : CapInv d k l nearest) (hl : d.attrsOf d.lastLevel = some l)
    {t : CapType} (hnear : nearest ≠ some t) : findCap t d = none := by
  unfold findCap findAttr
  split_ifs with hvalid
  · rw [hl, Option.bind_some, h.lastCapInst]
    refine findAttrIdx_of_lt ?_
    have hcaps := h.caps
    cases hn : nearest with
    | none =>
      obtain ⟨hzero, hpos⟩ := h.nearest_none hn hvalid
      have hle := capCount_le_capsCount t l
      omega
    | some t' =>
      have hpos := capCount_pos (h.nearest_some t' hn).2
      have hne : t ≠ t' := by
        rintro rfl
        exact hnear hn
      have hle := capCount_add_capCount_le hne l
      omega
  · rfl

/-- A parameter that belongs to a capability of its kind finds it when the counts agree, and finds
none otherwise. -/
theorem findCap_eq (h : CapInv d k l nearest) (hl : d.attrsOf d.lastLevel = some l) {t : CapType}
    (hnear : nearest = some t) : findCap t d = findAttrIdx (.cap t) k l := by
  obtain ⟨hvalid, -⟩ := h.nearest_some t hnear
  rw [findCap, if_pos hvalid, findAttr, hl, Option.bind_some, h.lastCapInst]

/-- An attribute line does what it should exactly when the counts agree. -/
theorem effect_eq_iff (h : CapInv d k l nearest) (hl : d.attrsOf d.lastLevel = some l) (x : AttrLine) :
    d.effect x l = (attachLine l nearest x).1 ↔ ∀ t a, x = .cpar t (some a) → nearest = some t → k = capCount t l := by
  cases x with
  | plain a => cases a <;> simp [Desc.effect, attachLine, AttrLine.produced]
  | cap t capP => cases capP <;> simp [Desc.effect, attachLine, AttrLine.produced]
  | other => simp [Desc.effect, attachLine, AttrLine.produced]
  | cpar t a =>
    cases a with
    | none => simp [Desc.effect, attachLine, AttrLine.produced]
    | some a =>
      simp only [Desc.effect, attachLine]
      by_cases hnear : nearest = some t
      · have hlast := (h.nearest_some t hnear).2
        rw [h.findCap_eq hl hnear, if_pos hnear]
        by_cases hk : k = capCount t l
        · obtain ⟨i, hi, hmodify⟩ := findAttrIdx_last hlast a
          rw [hk, hi]
          refine iff_of_true hmodify ?_
          rintro t' a' heq -
          obtain ⟨rfl, -⟩ := AttrLine.cpar.inj heq
          rfl
        · have hle := capCount_le_capsCount t l
          have hcaps := h.caps
          rw [findAttrIdx_of_lt (by omega)]
          exact iff_of_false (attachLast_ne hlast a).symm fun hall => hk (hall t a rfl hnear)
      · rw [h.findCap_eq_none hl hnear, if_neg hnear]
        refine iff_of_true rfl ?_
        rintro t' a' heq hnear'
        obtain ⟨rfl, -⟩ := AttrLine.cpar.inj heq
        exact absurd hnear' hnear

theorem afterAttr (h : CapInv d k l nearest) (hroom : k + 1 < 2 ^ 16) (level : Level) (x : AttrLine) :
    CapInv (d.afterAttr level x) (k + if x.isCap then 1 else 0) (attachLine l nearest x).1
      (attachLine l nearest x).2 := by
  have hupdate : ∀ (d : Desc) level f, (d.updateAttrs level f).capValid = d.capValid ∧
      (d.updateAttrs level f).lastCapInst = d.lastCapInst := by
    intro d level f
    cases level <;> exact ⟨rfl, rfl⟩
  cases x with
  | plain a =>
    cases a with
    | none => exact h
    | some a =>
      obtain ⟨hvalid, hinst⟩ := hupdate d level (· ++ [.plain a])
      obtain ⟨hlast, hcaps⟩ := counts_append l (.plain a)
      refine ⟨?_, hcaps ▸ h.caps, ?_, ?_⟩
      · rw [Desc.afterAttr, hinst]
        exact h.lastCapInst
      · rw [Desc.afterAttr, hvalid, attachLine, hlast]
        exact h.nearest_some
      · rw [Desc.afterAttr, hvalid, attachLine, hcaps]
        exact h.nearest_none
  | cap t capP =>
    cases capP with
    | none => exact ⟨h.lastCapInst, h.caps, by rintro _ ⟨⟩, fun _ hvalid => by cases hvalid⟩
    | some capP =>
      obtain ⟨hvalid, hinst⟩ := hupdate { d with capValid := true, lastCapInst := d.lastCapInst + 1 }
        level (· ++ [.cap t capP])
      obtain ⟨hlast, hcaps⟩ := counts_append l (.cap t capP)
      have hk := h.lastCapInst
      have hle := h.caps
      refine ⟨?_, ?_, ?_, by rintro ⟨⟩⟩
      · rw [Desc.afterAttr, hinst, UInt16.toNat_add, hk]
        exact Nat.mod_eq_of_lt hroom
      · simp only [attachLine, hcaps, AttrLine.isCap, if_true]
        omega
      · rintro t' ht
        rw [Desc.afterAttr, hvalid, attachLine, hlast]
        exact ⟨rfl, ht⟩
  | cpar t a =>
    cases a with
    | none => exact h
    | some a =>
      have hdesc : (d.afterAttr level (.cpar t (some a))).capValid = d.capValid ∧
          (d.afterAttr level (.cpar t (some a))).lastCapInst = d.lastCapInst := by
        simp only [Desc.afterAttr]
        cases findCap t d with
        | none => exact ⟨rfl, rfl⟩
        | some i => exact hupdate d d.lastLevel _
      obtain ⟨hvalid, hinst⟩ := hdesc
      obtain ⟨hlast, hcaps, -⟩ := counts_attachLast a l
      by_cases hnear : nearest = some t
      · have hline : attachLine l nearest (.cpar t (some a)) = (attachLast a l, nearest) := if_pos hnear
        rw [hline]
        refine ⟨by rw [hinst]; exact h.lastCapInst, hcaps ▸ h.caps, ?_, ?_⟩
        · rw [hvalid, hlast]
          exact h.nearest_some
        · rw [hvalid, hcaps]
          exact h.nearest_none
      · have hline : attachLine l nearest (.cpar t (some a)) = (l, nearest) := if_neg hnear
        rw [hline]
        refine ⟨by rw [hinst]; exact h.lastCapInst, h.caps, ?_, ?_⟩
        · rw [hvalid]
          exact h.nearest_some
        · rw [hvalid]
          exact h.nearest_none
  | other => exact h

theorem nextLevel (h : CapInv d k l nearest) {d' : Desc} (hvalid : d'.capValid = d.capValid)
    (hinst : d'.lastCapInst = d.lastCapInst) : CapInv d' k [] none := by
  refine ⟨by rw [hinst]; exact h.lastCapInst, Nat.zero_le k, nofun, fun _ hv => ⟨rfl, ?_⟩⟩
  rw [hvalid] at hv
  cases hn : nearest with
  | none => exact (h.nearest_none hn hv).2
  | some t =>
    have hpos := capCount_pos (h.nearest_some t hn).2
    have hle := capCount_le_capsCount t l
    have hcaps := h.caps
    omega

end CapInv

/-! ## Runs -/

/-- Behind every line of a run the attributes are attached as they should be, exactly when the counts
agree wherever an attribute has to be attached. -/
theorem Run.attached_iff {conf : Conf} {σ σ' : ParseState} {vs : List Visit} (h : Run conf σ vs σ')
    (hsync : σ.parseDone = false → σ.Synced) {k : ℕ}
    (hroom : σ.desc.mca.length + vs.length < 2 ^ 16) (hroom' : k + vs.length < 2 ^ 16)
    {init : List (List LevelAttr)} {nearest : Option CapType}
    (hlevels : σ.desc.levels = init ++ [l]) (hinv : CapInv σ.desc k l nearest) :
    (∀ ws σ'', ws <+: vs → Run conf σ ws σ'' →
        σ''.desc.levels = init ++ capSections conf l nearest (ws.filter Visit.Parsed)) ↔
      CapsCounted conf k l nearest (vs.filter Visit.Parsed) := by
  induction h generalizing k init l nearest with
  | nil σ =>
    refine iff_of_true (fun ws σ'' hws hrun => ?_) trivial
    rw [List.prefix_nil.mp hws] at hrun ⊢
    rw [hrun.eq_of_nil]
    exact hlevels
  | @cons v σ' vs hgo h ih =>
    rw [List.length_cons] at hroom hroom'
    -- the state before the line is as it should be
    have hfront : ∀ P : List Visit → ParseState → Prop, P [] v.before →
        ((∀ ws σ'', ws <+: v :: vs → Run conf v.before ws σ'' → P ws σ'') ↔
          ∀ ws σ'', ws <+: vs → Run conf (v.after conf) ws σ'' → P (v :: ws) σ'') := by
      intro P hnil
      constructor
      · intro hall ws σ'' hws hrun
        exact hall (v :: ws) σ'' (List.cons_prefix_cons.mpr ⟨rfl, hws⟩) (Run.cons hgo hrun)
      · intro hall ws σ'' hws hrun
        cases ws with
        | nil =>
          rw [hrun.eq_of_nil]
          exact hnil
        | cons w ws =>
          obtain ⟨rfl, hws'⟩ := List.cons_prefix_cons.mp hws
          exact hall ws σ'' hws' (Run.cons_iff.mp hrun).2
    rw [hfront (fun ws σ'' => σ''.desc.levels =
      init ++ capSections conf l nearest (ws.filter Visit.Parsed)) hlevels]
    by_cases hparsed : v.Parsed
    · obtain ⟨hstep, hsynced⟩ := Visit.step (hsync hparsed.1) (by omega) hparsed
      have hsync' : (v.after conf).parseDone = false → (v.after conf).Synced := by
        intro hdone
        refine hsynced ?_
        by_contra herror
        rw [Visit.after_parseDone hparsed herror] at hdone
        cases hdone
      simp only [List.filter_cons, hparsed, decide_true, if_true]
      cases hstep with
      | media htok m hm hdesc =>
        have hopens : v.opensLevel conf = true := by simp [Visit.opensLevel, htok, hm]
        have hlevels' : (v.after conf).desc.levels = (init ++ [l]) ++ [[]] := by
          rw [← hlevels, hdesc]
          simp [Desc.levels, mediaOf_attrs hm]
        have hlength : (v.after conf).desc.mca.length = v.before.desc.mca.length + 1 := by
          rw [hdesc, List.length_append, List.length_singleton]
        have hinv' : CapInv (v.after conf).desc k [] none := by
          rw [hdesc]
          exact hinv.nextLevel rfl rfl
        have hrest := ih hsync' (by omega) (by omega) hlevels' hinv'
        simpa [capSections, CapsCounted, hopens] using hrest
      | refused htok hm hdesc =>
        have hopens : v.opensLevel conf = false := by simp [Visit.opensLevel, hm]
        have hline : v.attrLine conf = .other := by simp [Visit.attrLine, htok]
        rw [← hdesc] at hlevels hinv hroom
        have hrest := ih hsync' (by omega) (by omega) hlevels hinv
        simpa [capSections, CapsCounted, hopens, hline, attachLine, AttrLine.isCap] using hrest
      | attr htok hdesc =>
        have hopens : v.opensLevel conf = false := by simp [Visit.opensLevel, htok]
        obtain ⟨init', last, hlevels₀, hlast, hlevels₁, hheaders₁, hcount₁⟩ :=
          afterAttr_levels (hsync hparsed.1).counted (v.attrLine conf)
        obtain ⟨rfl, hsingle⟩ := List.append_inj' (hlevels.symm.trans hlevels₀) rfl
        obtain rfl : l = last := by simpa using hsingle
        rw [← hdesc] at hlevels₁ hheaders₁
        have heffect := hinv.effect_eq_iff hlast (v.attrLine conf)
        simp only [capSections, CapsCounted, hopens, Bool.false_eq_true, if_false]
        by_cases hcond : ∀ t a, v.attrLine conf = .cpar t (some a) → nearest = some t → k = capCount t l
        · rw [heffect.mpr hcond] at hlevels₁
          have hinv' := hinv.afterAttr (by omega) v.before.desc.lastLevel (v.attrLine conf)
          rw [← hdesc] at hinv'
          have hlength : (v.after conf).desc.mca.length = v.before.desc.mca.length := by
            have hlen := congrArg List.length hheaders₁
            simpa [Desc.headers] using hlen
          rw [and_iff_right hcond]
          refine ih hsync' (by omega) ?_ hlevels₁ hinv'
          split_ifs <;> omega
        · -- the attribute is lost at once
          refine iff_of_false (fun hall => ?_) (fun hcounted => hcond hcounted.1)
          have hnow := hall [] (v.after conf) List.nil_prefix (.nil _)
          rw [hlevels₁, List.append_cancel_left_eq] at hnow
          exact hcond (heffect.mp (by simpa [capSections] using hnow))
      | other hm ha hsame =>
        have hopens : v.opensLevel conf = false := by simp [Visit.opensLevel, hm]
        have hline : v.attrLine conf = .other := by simp [Visit.attrLine, ha]
        rw [← hsame.levels] at hlevels
        have hlength := hsame.length_mca
        have hinv' : CapInv (v.after conf).desc k l nearest :=
          ⟨by rw [hsame.lastCapInst]; exact hinv.lastCapInst, hinv.caps,
            by rw [hsame.capValid]; exact hinv.nearest_some,
            by rw [hsame.capValid]; exact hinv.nearest_none⟩
        have hrest := ih hsync' (by omega) (by omega) hlevels hinv'
        simpa [capSections, CapsCounted, hopens, hline, attachLine, AttrLine.isCap] using hrest
    · -- a line that is not parsed changes nothing
      have hsame : (v.after conf).desc = v.before.desc ∧
          ((v.after conf).parseDone = false → (v.after conf).Synced) := by
        rcases Visit.after_of_not_parsed conf hparsed with heq | heq
        · rw [heq]
          exact ⟨rfl, hsync⟩
        · rw [heq]
          exact ⟨rfl, fun hdone => ⟨(hsync hdone).counted, (hsync hdone).curLevel⟩⟩
      obtain ⟨hdesc, hsync'⟩ := hsame
      rw [← hdesc] at hlevels hinv hroom
      have hrest := ih hsync' (by omega) (by omega) hlevels hinv
      simpa [List.filter_cons, hparsed] using hrest

/-- Behind every line of a fresh description, every capability parameter whose nearest capability line
is a valid one of its kind is attached to that capability, and to no other, exactly when wherever that
happens all valid capability lines so far were of the same kind and at the same level. -/
theorem parse_attached_iff (conf : Conf) (st : Stats) (buf : CStr) (len : UInt16) :
    (∀ ws σ, ws <+: parseVisits conf {} st buf len → Run conf (parseStart {} st) ws σ →
        σ.desc.levels = capSections conf [] none (ws.filter Visit.Parsed)) ↔
      CapsCounted conf 0 [] none ((parseVisits conf {} st buf len).filter Visit.Parsed) := by
  have hrun := visits_run conf (lineStarts len.toNat buf) buf (parseStart {} st)
  have hlength := length_parseVisits_le conf {} st buf len
  have hlt := len.toNat_lt
  have hnil : (parseStart {} st).desc.mca.length = 0 := rfl
  have hinv : CapInv (parseStart {} st).desc 0 [] none := ⟨rfl, le_rfl, nofun, nofun⟩
  exact hrun.attached_iff (fun _ => (parseStart_synced st).1)
    (by rw [← parseVisits]; omega) (by rw [← parseVisits]; omega) (show _ = [] ++ [[]] from rfl) hinv

def LevelAttr.attached : LevelAttr → List Attr
  | .plain _ => []
  | .cap _ capP => capP.attrs

/-- A message with a capability at the session level, and one at a media level with a parameter. -/
def twoCapsText : CStr :=
  "v=0\r\no=- 1 1 IN IP4 h\r\nc=IN IP4 h\r\nt=0 0\r\na=X-cap: 1 audio RTP/AVP 0\r\n".toList ++
    "m=audio 1 RTP/AVP 0\r\na=X-cap: 2 audio RTP/AVP 18\r\na=X-cpar: a=sendrecv\r\n".toList

/-- The parameter is lost: the parser looks for the second capability of the media level. -/
theorem not_attached_twoCapsText :
    (parse sipSdpInit {} {} twoCapsText 142).result = .success ∧
      (parse sipSdpInit {} {} twoCapsText 142).desc.levels.map (·.map LevelAttr.attached) =
        [[[]], [[]]] ∧
      (capSections sipSdpInit [] none
          ((parseVisits sipSdpInit {} {} twoCapsText 142).filter Visit.Parsed)).map
        (·.map LevelAttr.attached) = [[[]], [[.direction .sendrecv]]] := by
  refine ⟨by decide, by decide, by decide⟩

end Sdp
