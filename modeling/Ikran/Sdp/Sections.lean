import Ikran.Sdp.Verdict

/-!
# The sections of a description

The media lines cut the lines of a description into sections. The loop of `sdp_parse` counts levels,
the description counts media lines, and the attributes are appended to the list of the level. While
the lines are parsed with success, the lists are what the lines of the sections produce.
-/

namespace Sdp

open CStr Line

namespace Desc

/-- The number of media lines is counted. -/
def Counted (d : Desc) : Prop := d.mcaCount.toNat = d.mca.length

theorem modify_length_append {α : Type} (f : α → α) (as : List α) (a : α) :
    (as ++ [a]).modify as.length f = as ++ [f a] := by
  induction as with
  | nil => rfl
  | cons b as ih => simp [ih]

theorem levels_lastLevel {d : Desc} (h : d.Counted) :
    ∃ init last, d.levels = init ++ [last] ∧ d.attrsOf d.lastLevel = some last ∧
      ∀ f, (d.updateAttrs d.lastLevel f).levels = init ++ [f last] ∧
        (d.updateAttrs d.lastLevel f).headers = d.headers := by
  unfold Counted at h
  rcases List.eq_nil_or_concat d.mca with hmca | ⟨ms, m, hmca⟩
  · have hzero : d.mcaCount = 0 := by
      rw [← UInt16.toNat_inj, h, hmca]
      rfl
    have hlevel : d.lastLevel = .session := if_pos hzero
    refine ⟨[], d.sessAttrs, by simp [levels, hmca], by rw [hlevel]; rfl, fun f => ?_⟩
    rw [hlevel]
    exact ⟨by simp [updateAttrs, levels, hmca], rfl⟩
  · rw [List.concat_eq_append] at hmca
    have hcount : d.mcaCount.toNat = ms.length + 1 := by rw [h, hmca]; simp
    have hne : d.mcaCount ≠ 0 := by
      intro hzero
      rw [hzero] at hcount
      simp at hcount
    have hlevel : d.lastLevel = .media (ms.length + 1) := by rw [lastLevel, if_neg hne, hcount]
    refine ⟨d.sessAttrs :: ms.map Mca.attrs, m.attrs, by simp [levels, hmca], ?_, fun f => ?_⟩
    · simp [hlevel, attrsOf, findMediaLevel, hcount, hmca]
    · rw [hlevel]
      simp [updateAttrs, updateMedia, levels, headers, modify_length_append, hmca, Mca.header]

end Desc

/-! ## Attribute lines -/

/-- A capability without the attributes attached to it. -/
def LevelAttr.bare : LevelAttr → LevelAttr
  | .plain a => .plain a
  | .cap t capP => .cap t { capP with attrs := [] }

/-- What an attribute line says: its kind, and the value of its parse function if that succeeds. -/
inductive AttrLine
  | plain (a : Option Attr)
  | cap (t : CapType) (capP : Option Cap)
  | cpar (t : CapType) (a : Option Attr)
  | other

/-- What the text behind `a=` says. -/
def readAttr (conf : Conf) (s : CStr) (n : UInt32) : AttrLine :=
  match attrName.run s n with
  | (.ok (some tmp), s, n) =>
    match findName AttrType.all AttrType.name tmp with
    | some (.plain t) => .plain (parsePlain conf t s n).1.toOption
    | some (.cap t) => .cap t (outcomeOf capLine s n).1.toOption
    | some (.cpar t) => .cpar t (cparAttr conf s n).1.toOption
    | none => .other
  | _ => .other

/-- The attribute a line produces: its type is recognised, it is no capability parameter, and its
parse function succeeds. -/
def AttrLine.produced : AttrLine → Option LevelAttr
  | plain a => a.map .plain
  | cap t capP => capP.map (.cap t)
  | cpar _ _ | other => none

/-- The description behind an attribute line. -/
def Desc.afterAttr (d : Desc) (level : Level) : AttrLine → Desc
  | .plain (some a) => d.updateAttrs level (· ++ [.plain a])
  | .cap t (some capP) =>
    ({ d with capValid := true, lastCapInst := d.lastCapInst + 1 } : Desc).updateAttrs level
      (· ++ [.cap t capP])
  | .cap _ none => { d with capValid := false }
  | .cpar t (some a) =>
    match findCap t d with
    | some i => d.updateAttrs d.lastLevel (·.modify i (attach a))
    | none => d
  | .plain none | .cpar _ none | .other => d

theorem parseAttribute_desc (conf : Conf) {level : Level} (s : CStr) {d : Desc} (n : UInt32)
    (hlevel : d.hasLevel level = true) :
    (parseAttribute conf level s d n).2.1 = d.afterAttr level (readAttr conf s n) := by
  unfold parseAttribute readAttr
  rw [if_pos hlevel]
  rcases attrName.run s n with ⟨e | tmp, s, n⟩
  · rfl
  · cases tmp with
    | none => rfl
    | some tmp =>
      dsimp only
      cases findName AttrType.all AttrType.name tmp with
      | none => rfl
      | some type =>
        cases type with
        | plain t =>
          dsimp only
          rcases parsePlain conf t s n with ⟨e | a, n⟩ <;> rfl
        | cap t =>
          dsimp only [parseAttrCap]
          rcases outcomeOf capLine s n with ⟨e | capP, n⟩ <;> rfl
        | cpar t =>
          dsimp only [parseAttrCpar]
          cases hcap : findCap t d with
          | none =>
            rcases cparAttr conf s n with ⟨e | a, n⟩ <;> simp [Desc.afterAttr, hcap, Except.toOption]
          | some i =>
            dsimp only
            rcases cparAttr conf s n with ⟨e | a, n⟩ <;> simp [Desc.afterAttr, hcap, Except.toOption]

/-! ## Steps -/

namespace Visit

/-- What the line says, if it is an attribute line. -/
def attrLine (conf : Conf) (v : Visit) : AttrLine :=
  if v.tok = .a then readAttr conf (v.text.drop 2) v.before.stats.numInvalidParam else .other

/-- The medium of the line, if it is a media line. -/
def media (conf : Conf) (v : Visit) : Option Media :=
  mediaOf conf v.before.desc.mcaCount.toNat (v.text.drop 2)

/-- The line is a media line. -/
def isMedia (v : Visit) : Bool := v.tok == .m

end Visit

/-- The level of the loop is that of the last media line, and the media lines are counted. -/
structure ParseState.Synced (σ : ParseState) : Prop where
  counted : σ.desc.Counted
  curLevel : σ.curLevel = σ.desc.lastLevel

theorem ensures_capLine : capLine.Ensures (fun capP => capP.attrs = []) (fun _ => True) := by
  have htoken : ∀ delim, (getNextStrTok delim).Ensures (fun _ => True) (fun _ => True) :=
    fun _ => LineParser.Ensures.token _ _
  have hor : ∀ {α : Type} (o : Option α), (orInvalid o).Ensures (fun _ => True) (fun _ => True) := by
    intro α o
    cases o with
    | none => exact LineParser.Ensures.count.bind fun _ _ => LineParser.Ensures.fail trivial
    | some a => exact LineParser.Ensures.pure trivial
  have hnum : (getNextNum "/ \t").Ensures (fun _ => True) (fun _ => True) := by
    refine LineParser.Ensures.bind (P := fun _ => True) ?_ fun _ _ => LineParser.Ensures.pure trivial
    refine (htoken _).bind fun o _ => ?_
    cases o <;> exact LineParser.Ensures.pure trivial
  have hinvalid : (invalidParameter : Parser Cap).Ensures (fun capP => capP.attrs = [])
      (fun _ => True) :=
    LineParser.Ensures.count.bind fun _ _ => LineParser.Ensures.fail trivial
  unfold capLine
  refine hnum.bind fun _ _ => (hor _).bind fun _ _ => (htoken _).bind fun _ _ =>
    (hor _).bind fun _ _ => (hor _).bind fun media _ => (htoken _).bind fun _ _ =>
    (hor _).bind fun _ _ => (hor _).bind fun transport _ => ?_
  split_ifs
  · exact hinvalid
  · refine LineParser.Ensures.bind (P := fun _ => True)
      ((LineParser.Ensures.tokens _ _).bind fun _ _ => LineParser.Ensures.pure trivial) fun ps _ => ?_
    cases ps with
    | nil => exact hinvalid
    | cons p ps => exact LineParser.Ensures.pure rfl

variable {conf : Conf}

theorem attrs_of_readAttr_cap {s : CStr} {n : UInt32} {t : CapType} {capP : Cap}
    (h : readAttr conf s n = .cap t (some capP)) : capP.attrs = [] := by
  unfold readAttr at h
  split at h
  · rename_i tmp s' n' _
    split at h
    · cases h
    · rename_i t' _
      obtain ⟨-, hcap⟩ := AttrLine.cap.inj h
      refine (ensures_capLine s' n').1 capP ?_
      unfold outcomeOf at hcap
      cases hrun : (capLine.run s' n').1 with
      | error e => simp [hrun, Except.toOption] at hcap
      | ok c => simpa [hrun, Except.toOption] using hcap
    · cases h
    · cases h
  · cases h

theorem bare_of_mem_produced {s : CStr} {n : UInt32} {a : LevelAttr}
    (ha : (readAttr conf s n).produced = some a) : a.bare = a := by
  cases hx : readAttr conf s n with
  | plain b =>
    rw [hx] at ha
    obtain ⟨b, -, rfl⟩ := Option.map_eq_some_iff.mp ha
    rfl
  | cap t capP =>
    rw [hx] at ha
    obtain ⟨capP, rfl, rfl⟩ := Option.map_eq_some_iff.mp ha
    simp [LevelAttr.bare, ← attrs_of_readAttr_cap hx]
  | cpar t b =>
    rw [hx] at ha
    cases ha
  | other =>
    rw [hx] at ha
    cases ha

/-- What an attribute line does to the attributes of the last level. -/
def Desc.effect (d : Desc) (x : AttrLine) (last : List LevelAttr) : List LevelAttr :=
  match x with
  | .cpar t (some a) =>
    match findCap t d with
    | some i => last.modify i (attach a)
    | none => last
  | x => last ++ x.produced.toList

theorem afterAttr_levels {d : Desc} (h : d.Counted) (x : AttrLine) :
    ∃ init last, d.levels = init ++ [last] ∧ d.attrsOf d.lastLevel = some last ∧
      (d.afterAttr d.lastLevel x).levels = init ++ [d.effect x last] ∧
      (d.afterAttr d.lastLevel x).headers = d.headers ∧
      (d.afterAttr d.lastLevel x).mcaCount = d.mcaCount := by
  obtain ⟨init, last, hlevels, hlast, hupdate⟩ := Desc.levels_lastLevel h
  have hcount : ∀ (d' : Desc) level f, (d'.updateAttrs level f).mcaCount = d'.mcaCount := by
    intro d' level f
    cases level <;> rfl
  refine ⟨init, last, hlevels, hlast, ?_⟩
  have hnone : init ++ [last ++ (none : Option LevelAttr).toList] = d.levels := by
    rw [hlevels, Option.toList_none, List.append_nil]
  cases x with
  | plain a =>
    cases a with
    | none => exact ⟨hnone.symm, rfl, rfl⟩
    | some a => exact ⟨(hupdate _).1, (hupdate _).2, hcount ..⟩
  | cap t capP =>
    cases capP with
    | none => exact ⟨hnone.symm, rfl, rfl⟩
    | some capP =>
      obtain ⟨init', last', hlevels', -, hupdate'⟩ := Desc.levels_lastLevel
        (d := { d with capValid := true, lastCapInst := d.lastCapInst + 1 }) h
      obtain ⟨rfl, hsingle⟩ := List.append_inj' (hlevels.symm.trans hlevels') rfl
      obtain rfl : last = last' := by simpa using hsingle
      exact ⟨(hupdate' _).1, (hupdate' _).2, hcount ..⟩
  | cpar t a =>
    cases a with
    | none => exact ⟨hnone.symm, rfl, rfl⟩
    | some a =>
      simp only [Desc.afterAttr, Desc.effect]
      cases findCap t d with
      | none => exact ⟨hlevels, rfl, rfl⟩
      | some i => exact ⟨(hupdate _).1, (hupdate _).2, hcount ..⟩
  | other => exact ⟨hnone.symm, rfl, rfl⟩

theorem checkOrder_desc (conf : Conf) (tok : Token) (σ : ParseState) :
    (σ.checkOrder conf tok).desc = σ.desc ∧ (σ.checkOrder conf tok).curLevel = σ.curLevel ∧
      (σ.checkOrder conf tok).stats.numInvalidParam = σ.stats.numInvalidParam := by
  unfold ParseState.checkOrder
  split_ifs <;> exact ⟨rfl, rfl, rfl⟩

theorem lastLevel_next {d d' : Desc} (h : d.Counted) (hroom : d.mca.length + 1 < 2 ^ 16)
    (hcount : d'.mcaCount = d.mcaCount + 1) : d'.lastLevel = d.lastLevel.next := by
  have hadd : (d.mcaCount + 1).toNat = d.mcaCount.toNat + 1 := by
    rw [UInt16.toNat_add]
    exact Nat.mod_eq_of_lt (by rw [h]; exact hroom)
  have hne : d.mcaCount + 1 ≠ 0 := by
    intro hzero
    rw [hzero] at hadd
    simp at hadd
  rw [Desc.lastLevel, Desc.lastLevel, hcount, if_neg hne, hadd]
  by_cases hzero : d.mcaCount = 0
  · rw [if_pos hzero, hzero]
    rfl
  · rw [if_neg hzero]
    rfl

theorem lastLevel_congr {d d' : Desc} (h : d'.mcaCount = d.mcaCount) : d'.lastLevel = d.lastLevel := by
  rw [Desc.lastLevel, Desc.lastLevel, h]

namespace Visit

/-- What a line does that is parsed. -/
inductive Step (conf : Conf) (v : Visit) : Prop
  | media (htok : v.tok = .m) (m : Media) (hm : v.media conf = some m)
      (hdesc : (v.after conf).desc =
        { v.before.desc with
          mca := v.before.desc.mca ++ [m], mcaCount := v.before.desc.mcaCount + 1 })
  | refused (htok : v.tok = .m) (hm : v.media conf = none)
      (hdesc : (v.after conf).desc = v.before.desc)
  | attr (htok : v.tok = .a)
      (hdesc : (v.after conf).desc =
        v.before.desc.afterAttr v.before.desc.lastLevel (v.attrLine conf))
  | other (hm : v.tok ≠ .m) (ha : v.tok ≠ .a)
      (hsame : v.before.desc.SameSections (v.after conf).desc)

theorem after_desc (conf : Conf) {v : Visit} (hparsed : v.Parsed) : (v.lineResult conf, (v.after conf).desc) =
      ((parseToken conf v.tok v.before.curLevel (v.text.drop 2) v.before.desc (v.checked conf).stats).1,
        (parseToken conf v.tok v.before.curLevel (v.text.drop 2) v.before.desc (v.checked conf).stats).2.1) := by
  obtain ⟨hdesc, hlevel, -⟩ := checkOrder_desc conf v.tok v.before
  rw [after_of_parsed conf hparsed]
  simp only [ParseState.parseLine, lineResult, checked, hdesc, hlevel]

theorem after_curLevel (conf : Conf) {v : Visit} (hparsed : v.Parsed) : (v.after conf).curLevel =
      if v.tok = .m then v.before.curLevel.next else v.before.curLevel := by
  rw [after_of_parsed conf hparsed]
  simp only [ParseState.parseLine, checked, (checkOrder_desc conf v.tok v.before).2.1]

/-- A line that is parsed does what its token says, and with success the level stays that of the last
media line. -/
theorem step {conf : Conf} {v : Visit} (hsync : v.before.Synced)
    (hroom : v.before.desc.mca.length + 1 < 2 ^ 16) (hparsed : v.Parsed) :
    v.Step conf ∧ (v.lineResult conf = .success → (v.after conf).Synced) := by
  have hafter := after_desc conf hparsed
  have hlevel := after_curLevel conf hparsed
  by_cases hm : v.tok = .m
  · rw [hm, parseToken_media] at hafter
    rw [if_pos hm] at hlevel
    cases hof : mediaOf conf v.before.desc.mcaCount.toNat (v.text.drop 2) with
    | none =>
      simp only [hof, Prod.mk.injEq] at hafter
      exact ⟨.refused hm hof hafter.2, fun hok => by rw [hafter.1] at hok; cases hok⟩
    | some m =>
      simp only [hof, Prod.mk.injEq] at hafter
      refine ⟨.media hm m hof hafter.2, fun _ => ⟨?_, ?_⟩⟩
      · have hcounted := hsync.counted
        unfold Desc.Counted at hcounted ⊢
        rw [hafter.2, UInt16.toNat_add, List.length_append, hcounted]
        exact Nat.mod_eq_of_lt hroom
      · rw [hlevel, hsync.curLevel]
        exact (lastLevel_next hsync.counted hroom (by rw [hafter.2])).symm
  · rw [if_neg hm] at hlevel
    by_cases ha : v.tok = .a
    · have hhas : v.before.desc.hasLevel v.before.curLevel = true := by
        obtain ⟨_, _, _, hlast, -⟩ := Desc.levels_lastLevel hsync.counted
        rw [Desc.hasLevel, hsync.curLevel, hlast]
        rfl
      have hattr := parseAttribute_desc conf (v.text.drop 2) v.before.stats.numInvalidParam hhas
      have hafterAttr : (v.after conf).desc = v.before.desc.afterAttr v.before.desc.lastLevel (v.attrLine conf) := by
        rw [(Prod.mk.inj hafter).2, attrLine, if_pos ha, ← hsync.curLevel, ← hattr, ha,
          ← (checkOrder_desc conf v.tok v.before).2.2]
        rfl
      obtain ⟨_, _, _, _, _, hheaders, hmca⟩ := afterAttr_levels hsync.counted (v.attrLine conf)
      rw [← hafterAttr] at hheaders hmca
      refine ⟨.attr ha hafterAttr, fun _ => ⟨?_, ?_⟩⟩
      · have hlength := congrArg List.length hheaders
        simp only [Desc.headers, List.length_map] at hlength
        rw [Desc.Counted, hmca, hlength]
        exact hsync.counted
      · rw [hlevel, hsync.curLevel, lastLevel_congr hmca]
    · have hsame := (parseToken_other conf hm ha v.before.curLevel (v.text.drop 2)
        v.before.desc (v.checked conf).stats).2
      rw [← hafter] at hsame
      refine ⟨.other hm ha hsame, fun _ => ⟨?_, ?_⟩⟩
      · rw [Desc.Counted, hsame.mcaCount, hsame.length_mca]
        exact hsync.counted
      · rw [hlevel, hsync.curLevel, lastLevel_congr hsame.mcaCount]

/-- A line that does not end the parse keeps the level that of the last media line. A misplaced one
does nothing; the others are parsed, and a media line among them is not refused. -/
theorem step_of_fine {conf : Conf} {v : Visit} (hsync : v.before.Synced)
    (hroom : v.before.desc.mca.length + 1 < 2 ^ 16) (hfine : v.Fine conf) :
    (v.after conf).Synced ∧ v.Step conf ∧ (v.tok = .m → (v.media conf).isSome) := by
  by_cases hmisplaced : isMisplaced v.tok v.before.curLevel = true
  · have hafter : v.after conf = v.before.countOrder := by
      simp [after, lineStep, hfine.1, hmisplaced]
    have htok : v.tok ∉ Token.atMedia := by
      intro hmem
      simp [isMisplaced, hmem] at hmisplaced
    have hm : v.tok ≠ .m := fun hm => htok (by rw [hm]; decide)
    have ha : v.tok ≠ .a := fun ha => htok (by rw [ha]; decide)
    rw [hafter]
    exact ⟨⟨hsync.counted, hsync.curLevel⟩, .other hm ha (by rw [hafter]; exact .refl _),
      fun h => absurd h hm⟩
  · have hparsed : v.Parsed := ⟨hfine.1, by simpa using hmisplaced⟩
    have hok := hfine.2 hparsed.2
    obtain ⟨hstep, hsync'⟩ := step hsync hroom hparsed
    refine ⟨hsync' hok, hstep, fun hm => ?_⟩
    have hafter := after_desc conf hparsed
    rw [hm, parseToken_media] at hafter
    rw [media]
    cases hof : mediaOf conf v.before.desc.mcaCount.toNat (v.text.drop 2) with
    | none =>
      rw [hof, hok] at hafter
      simp at hafter
    | some m => rfl

end Visit

/-! ## Runs -/

namespace Visit

/-- What the attribute lines between the media lines produce, the session first. -/
def sections (conf : Conf) (vs : List Visit) : List (List LevelAttr) :=
  (vs.splitOnP isMedia).map (·.filterMap fun v => (v.attrLine conf).produced)

/-- The media lines, as they were parsed. -/
def mediaHeaders (conf : Conf) (vs : List Visit) : List (Option Media) :=
  (vs.filter isMedia).map fun v => (v.media conf).map Mca.header

theorem sections_cons_media {conf : Conf} {v : Visit} (h : v.tok = .m) (vs : List Visit) :
    sections conf (v :: vs) = [] :: sections conf vs := by
  simp [sections, List.splitOnP_cons_eq_if_modifyHead, isMedia, h]

theorem sections_cons_other {conf : Conf} {v : Visit} (h : v.tok ≠ .m) (vs : List Visit) : sections conf (v :: vs) =
      (sections conf vs).modifyHead ((v.attrLine conf).produced.toList ++ ·) := by
  have hmedia : v.isMedia = false := by simpa [isMedia] using h
  simp only [sections, List.splitOnP_cons_eq_if_modifyHead, hmedia, Bool.false_eq_true, if_false]
  cases vs.splitOnP isMedia with
  | nil => rfl
  | cons s ss => cases h : (v.attrLine conf).produced <;> simp [h]

theorem sections_ne_nil (conf : Conf) (vs : List Visit) : sections conf vs ≠ [] := by
  simp [sections]

end Visit

/-- The attributes of all levels, without those attached to capabilities. -/
def Desc.bareLevels (d : Desc) : List (List LevelAttr) := d.levels.map (·.map LevelAttr.bare)

theorem bare_attach (a : Attr) (b : LevelAttr) : (attach a b).bare = b.bare := by
  cases b <;> rfl

/-- An attribute line adds what it produces to the bare attributes of the last level. -/
theorem map_bare_effect (conf : Conf) (v : Visit) (d : Desc) (last : List LevelAttr) :
    (d.effect (v.attrLine conf) last).map LevelAttr.bare =
      last.map LevelAttr.bare ++ (v.attrLine conf).produced.toList := by
  have happend : (last ++ (v.attrLine conf).produced.toList).map LevelAttr.bare =
      last.map LevelAttr.bare ++ (v.attrLine conf).produced.toList := by
    rw [List.map_append]
    congr 1
    cases ha : (v.attrLine conf).produced with
    | none => rfl
    | some a =>
      have hbare : a.bare = a := by
        unfold Visit.attrLine at ha
        split_ifs at ha
        · exact bare_of_mem_produced ha
        · cases ha
      simp [hbare]
  unfold Desc.effect
  split
  · rename_i t a hx
    have hproduced : (v.attrLine conf).produced = none := by rw [hx]; rfl
    rw [hproduced, Option.toList_none, List.append_nil]
    split
    · rename_i i _
      have hmodify : ∀ (i : ℕ) (l : List LevelAttr),
          (l.modify i (attach a)).map LevelAttr.bare = l.map LevelAttr.bare := by
        intro i l
        induction l generalizing i with
        | nil => cases i <;> rfl
        | cons b l ih => cases i <;> simp [bare_attach, ih]
      exact hmodify i last
    · rfl
  · exact happend

/-- While no line ends the parse, the levels of the description are the sections of the lines. -/
theorem Run.sections {σ σ' : ParseState} {vs : List Visit} (h : Run conf σ vs σ')
    (hsync : σ.Synced) (hroom : σ.desc.mca.length + vs.length < 2 ^ 16)
    (hfine : ∀ v ∈ vs, v.Fine conf) {init : List (List LevelAttr)} {last : List LevelAttr}
    (hlevels : σ.desc.bareLevels = init ++ [last]) :
    σ'.Synced ∧ σ'.desc.bareLevels = init ++ (Visit.sections conf vs).modifyHead (last ++ ·) ∧
      σ'.desc.headers.map some = σ.desc.headers.map some ++ Visit.mediaHeaders conf vs := by
  induction h generalizing init last with
  | nil σ => exact ⟨hsync, by simpa [Visit.sections] using hlevels, by simp [Visit.mediaHeaders]⟩
  | @cons v σ' vs hgo h ih =>
    rw [List.length_cons] at hroom
    rw [List.forall_mem_cons] at hfine
    obtain ⟨hsync', hstep, hsome⟩ := Visit.step_of_fine hsync (by omega) hfine.1
    cases hstep with
    | refused htok hm hdesc =>
      have hm' := hsome htok
      simp [hm] at hm'
    | media htok m hm hdesc =>
      have hattrs := mediaOf_attrs hm
      have hlevels' : (v.after conf).desc.bareLevels = (init ++ [last]) ++ [[]] := by
        rw [← hlevels, hdesc]
        simp [Desc.bareLevels, Desc.levels, hattrs]
      have hlength : (v.after conf).desc.mca.length = v.before.desc.mca.length + 1 := by
        rw [hdesc, List.length_append, List.length_singleton]
      obtain ⟨hσ', hall, hheaders⟩ := ih hsync' (by omega) hfine.2 hlevels'
      refine ⟨hσ', ?_, ?_⟩
      · rw [hall, Visit.sections_cons_media htok]
        cases Visit.sections conf vs <;> simp
      · rw [hheaders, hdesc]
        simp [Visit.mediaHeaders, Visit.isMedia, htok, Desc.headers, hm]
    | attr htok hdesc =>
      have hm : v.tok ≠ .m := by rw [htok]; rintro ⟨⟩
      obtain ⟨init', last', hlevels₀, -, hlevels₁, hheaders₁, hcount₁⟩ :=
        afterAttr_levels hsync.counted (v.attrLine conf)
      rw [← hdesc] at hlevels₁ hheaders₁
      have hsplit : init = init'.map (·.map LevelAttr.bare) ∧ last = last'.map LevelAttr.bare := by
        have heq : init ++ [last] = init'.map (·.map LevelAttr.bare) ++ [last'.map LevelAttr.bare] := by
          rw [← hlevels, Desc.bareLevels, hlevels₀]
          simp
        obtain ⟨hinit, hlast⟩ := List.append_inj' heq rfl
        exact ⟨hinit, by simpa using hlast⟩
      obtain ⟨rfl, rfl⟩ := hsplit
      have hlevels' : (v.after conf).desc.bareLevels = init'.map (·.map LevelAttr.bare) ++
          [last'.map LevelAttr.bare ++ (v.attrLine conf).produced.toList] := by
        rw [Desc.bareLevels, hlevels₁, List.map_append, List.map_singleton, map_bare_effect]
      have hlength : (v.after conf).desc.mca.length = v.before.desc.mca.length := by
        have hlen := congrArg List.length hheaders₁
        simpa [Desc.headers] using hlen
      obtain ⟨hσ', hall, hheaders⟩ := ih hsync' (by omega) hfine.2 hlevels'
      refine ⟨hσ', ?_, ?_⟩
      · rw [hall, Visit.sections_cons_other hm]
        cases Visit.sections conf vs <;> simp
      · rw [hheaders, hheaders₁]
        simp [Visit.mediaHeaders, Visit.isMedia, htok]
    | other hm ha hsame =>
      have hnone : (v.attrLine conf).produced = none := by simp [Visit.attrLine, ha, AttrLine.produced]
      have hlevels' : (v.after conf).desc.bareLevels = init ++ [last] := by
        rw [← hlevels, Desc.bareLevels, Desc.bareLevels, hsame.levels]
      have hlength := hsame.length_mca
      obtain ⟨hσ', hall, hheaders⟩ := ih hsync' (by omega) hfine.2 hlevels'
      refine ⟨hσ', ?_, ?_⟩
      · rw [hall, Visit.sections_cons_other hm, hnone]
        cases Visit.sections conf vs <;> simp
      · rw [hheaders, hsame.headers]
        simp [Visit.mediaHeaders, Visit.isMedia, hm]

/-! ## Accepted descriptions -/

/-- The line behind the first `k` has an unknown token. -/
def unknownAt (lines : List CStr) (k : ℕ) : Bool :=
  match lines[k]? with
  | some s => recognise s == none && peek s.tail == '='
  | none => false

theorem parseLoop_unrecToken (conf : Conf) (lines : List CStr) (next : CStr) (σ : ParseState) :
    (parseLoop conf lines next σ).unrecToken = unknownAt lines (visits conf lines σ).length := by
  induction lines generalizing next σ with
  | nil => rfl
  | cons s lines ih =>
    unfold visits parseLoop
    cases htok : recognise s with
    | none => simp [unknownAt, htok]
    | some tok =>
      cases hv : !σ.firstLine && tok == .v with
      | true => simp [unknownAt, htok, hv]
      | false => simpa [unknownAt, hv] using ih (nextLine s) _

theorem length_parseVisits_le (conf : Conf) (d : Desc) (st : Stats) (buf : CStr) (len : UInt16) :
    (parseVisits conf d st buf len).length ≤ len.toNat := by
  refine le_trans ?_ (length_lineStarts_le len.toNat buf)
  unfold parseVisits
  generalize parseStart d st = σ
  induction lineStarts len.toNat buf generalizing σ with
  | nil => simp [visits]
  | cons s lines ih =>
    unfold visits
    split
    · simp
    · split_ifs
      · simp
      · simpa using ih _

/-- The sections of a fresh description are those of the text. -/
structure Sectioned (conf : Conf) (st : Stats) (buf : CStr) (len : UInt16) : Prop where
  counted : (parse conf {} st buf len).desc.Counted
  length : (parse conf {} st buf len).desc.mca.length =
    ((parseVisits conf {} st buf len).filter Visit.isMedia).length
  headers : (parse conf {} st buf len).desc.headers.map some =
    Visit.mediaHeaders conf (parseVisits conf {} st buf len)
  attrs : (parse conf {} st buf len).desc.bareLevels =
    Visit.sections conf (parseVisits conf {} st buf len)

/-- A description that starts without the version that is required is accepted for its first line,
and a later line of it is lost. -/
def LosesLines (conf : Conf) (st : Stats) (buf : CStr) (len : UInt16) : Prop :=
  conf.versionReqd = true ∧ ∃ v vs, parseVisits conf {} st buf len = v :: vs ∧ v.tok ≠ .v ∧
    v.lineResult conf = .success ∧ validateSdp conf (v.after conf).desc = .success ∧
    unknownAt (lineStarts len.toNat buf) (vs.length + 1) = false ∧
    ∃ w ∈ vs, w.tok = .m ∨ ((w.attrLine conf).produced).isSome

namespace Visit

theorem sections_eq_nil_iff (conf : Conf) (vs : List Visit) : sections conf vs = [[]] ↔
      ∀ w ∈ vs, ¬(w.tok = .m ∨ ((w.attrLine conf).produced).isSome) := by
  induction vs with
  | nil => simp [sections]
  | cons v vs ih =>
    rw [List.forall_mem_cons, ← ih]
    by_cases hm : v.tok = .m
    · rw [sections_cons_media hm]
      simp [hm, sections_ne_nil]
    · rw [sections_cons_other hm]
      cases hs : sections conf vs with
      | nil => exact absurd hs (sections_ne_nil conf vs)
      | cons s ss =>
        simp only [List.modifyHead_cons, List.cons.injEq, List.append_eq_nil_iff,
          Option.toList_eq_nil_iff, hm, false_or, Option.not_isSome_iff_eq_none, and_assoc]

theorem sections_cons_eq_iff (conf : Conf) (v : Visit) (vs : List Visit) :
    sections conf [v] = sections conf (v :: vs) ↔ sections conf vs = [[]] := by
  have hnil : sections conf [] = [[]] := rfl
  by_cases hm : v.tok = .m
  · rw [sections_cons_media hm, sections_cons_media hm, hnil, List.cons_inj_right]
    exact eq_comm
  · rw [sections_cons_other hm, sections_cons_other hm, hnil]
    cases hs : sections conf vs with
    | nil => exact absurd hs (sections_ne_nil conf vs)
    | cons s ss => simp [eq_comm]

end Visit

theorem parseStart_synced (st : Stats) : (parseStart {} st).Synced ∧ (parseStart {} st).desc.bareLevels = [] ++ [[]] :=
  ⟨⟨rfl, rfl⟩, rfl⟩

theorem sections_of_run {st : Stats} {len : UInt16} {vs : List Visit} {σ : ParseState}
    (hrun : Run conf (parseStart {} st) vs σ) (hlength : vs.length ≤ len.toNat)
    (hfine : ∀ v ∈ vs, v.Fine conf) :
    σ.desc.Counted ∧ σ.desc.bareLevels = Visit.sections conf vs ∧
      σ.desc.headers.map some = Visit.mediaHeaders conf vs := by
  obtain ⟨hsync, hlevels⟩ := parseStart_synced st
  have hlt := len.toNat_lt
  have hroom : (parseStart {} st).desc.mca.length + vs.length < 2 ^ 16 := by
    have hnil : (parseStart {} st).desc.mca.length = 0 := rfl
    omega
  obtain ⟨hsync', hall, hheaders⟩ := hrun.sections hsync hroom hfine hlevels
  refine ⟨hsync'.counted, ?_, hheaders⟩
  rw [hall, List.nil_append]
  cases Visit.sections conf vs <;> simp

/-- A fresh description is sectioned when its lines up to some line are, and the others add nothing.
-/
theorem sectioned_of_run {st : Stats} {buf : CStr} {len : UInt16} {vs : List Visit}
    {σ : ParseState} (hrun : Run conf (parseStart {} st) vs σ) (hlength : vs.length ≤ len.toNat)
    (hfine : ∀ v ∈ vs, v.Fine conf) (hdesc : (parse conf {} st buf len).desc = σ.desc)
    (hsections : Visit.sections conf vs = Visit.sections conf (parseVisits conf {} st buf len))
    (hmedia : vs.filter Visit.isMedia = (parseVisits conf {} st buf len).filter Visit.isMedia) :
    Sectioned conf st buf len := by
  obtain ⟨hcounted, hall, hheaders⟩ := sections_of_run hrun hlength hfine
  rw [Visit.mediaHeaders, hmedia] at hheaders
  refine ⟨hdesc ▸ hcounted, ?_, ?_, ?_⟩
  · have hlen := congrArg List.length hheaders
    rw [hdesc]
    simpa [Desc.headers] using hlen
  · rw [hdesc, hheaders, Visit.mediaHeaders]
  · rw [hdesc, hall, hsections]

/-- The levels of an accepted description are the sections of its text, unless the description
starts without the version that is required, is accepted for its first line, and loses a later one.
-/
theorem parse_sectioned_iff (conf : Conf) (st : Stats) (buf : CStr) (len : UInt16) :
    ((parse conf {} st buf len).result = .success → Sectioned conf st buf len) ↔
      ¬LosesLines conf st buf len := by
  have hlength := length_parseVisits_le conf {} st buf len
  cases hvisits : parseVisits conf {} st buf len with
  | nil =>
    refine iff_of_true ?_ ?_
    · rw [parse_result_of_nil hvisits]
      nofun
    · rintro ⟨-, v, vs, hcons, -⟩
      simp [hvisits] at hcons
  | cons v vs =>
    obtain ⟨hbefore, hparsed, hfirst, hresult, hrest⟩ := first_visit hvisits
    rw [hvisits] at hlength
    by_cases hmissing : v.tok ≠ .v ∧ conf.versionReqd = true
    · -- the run stops behind the first line
      obtain ⟨-, hdone⟩ := first_visit_of_missing hvisits hmissing
      have hσ := hrest.eq_of_parseDone hdone
      have hunrec := parseLoop_unrecToken conf (lineStarts len.toNat buf) buf (parseStart {} st)
      rw [← parseVisits, hvisits, List.length_cons] at hunrec
      have haccepted : (parse conf {} st buf len).result = .success ↔
          v.lineResult conf = .success ∧ validateSdp conf (v.after conf).desc = .success ∧
            unknownAt (lineStarts len.toNat buf) (vs.length + 1) = false := by
        simp only [parse, finish, hσ, hfirst, Bool.false_eq_true, if_false, hresult, hunrec]
        split_ifs <;> simp_all
      have hloses : LosesLines conf st buf len ↔
          (parse conf {} st buf len).result = .success ∧ Visit.sections conf vs ≠ [[]] := by
        rw [haccepted, ne_eq, Visit.sections_eq_nil_iff]
        simp only [LosesLines, hvisits, List.cons.injEq, hmissing.2, true_and]
        constructor
        · rintro ⟨_, _, ⟨rfl, rfl⟩, -, hok, hvalid, hknown, w, hw, hlost⟩
          exact ⟨⟨hok, hvalid, hknown⟩, fun hquiet => hquiet w hw hlost⟩
        · rintro ⟨⟨hok, hvalid, hknown⟩, hlost⟩
          push Not at hlost
          obtain ⟨w, hw, hlost⟩ := hlost
          exact ⟨v, vs, ⟨rfl, rfl⟩, hmissing.1, hok, hvalid, hknown, w, hw, hlost⟩
      rw [hloses, not_and, not_not]
      refine forall_congr' fun hsuccess => ?_
      have hrun : Run conf (parseStart {} st) [v] (v.after conf) := by
        rw [← hbefore]
        exact .cons (.inl (by rw [hbefore]; rfl)) (.nil _)
      have hfine : ∀ w ∈ [v], w.Fine conf := by
        rintro w hw
        obtain rfl : w = v := by simpa using hw
        exact ⟨hparsed.1, fun _ => (haccepted.mp hsuccess).1⟩
      have hdesc : (parse conf {} st buf len).desc = (v.after conf).desc := by
        simp [parse, finish, hσ, hfirst]
      have hshort : [v].length ≤ len.toNat := by
        rw [List.length_cons] at hlength
        rw [List.length_singleton]
        omega
      rw [← Visit.sections_cons_eq_iff conf v vs]
      constructor
      · intro hsectioned
        rw [← (sections_of_run hrun hshort hfine).2.1, ← hdesc, hsectioned.attrs, hvisits]
      · intro hquiet
        have hnone := (Visit.sections_eq_nil_iff conf vs).mp
          ((Visit.sections_cons_eq_iff conf v vs).mp hquiet)
        have hfilter : vs.filter Visit.isMedia = [] := by
          rw [List.filter_eq_nil_iff]
          intro w hw hmedia
          exact hnone w hw (.inl (by simpa [Visit.isMedia] using hmedia))
        refine sectioned_of_run hrun hshort hfine hdesc (by rw [hvisits]; exact hquiet) ?_
        rw [hvisits, List.filter_cons, List.filter_cons, hfilter, List.filter_nil]
    · refine iff_of_true (fun hsuccess => ?_) ?_
      · have hsound := verdictSound_of_version hvisits hmissing
        have hrun := visits_run conf (lineStarts len.toNat buf) buf (parseStart {} st)
        rw [← parseVisits, hvisits] at hrun
        refine sectioned_of_run hrun hlength ?_ ?_ (by rw [hvisits]) (by rw [hvisits])
        · rw [← hvisits]
          exact hsound.lines (.inl hsuccess)
        · simp only [parse, finish]
          split_ifs <;> rfl
      · rintro ⟨hreqd, w, ws, hcons, htok, -⟩
        rw [hvisits] at hcons
        obtain ⟨rfl, rfl⟩ := List.cons.inj hcons
        exact hmissing ⟨htok, hreqd⟩

/-- The direction line behind the session name is lost, although the description is accepted. -/
theorem not_sectioned_unversionedText :
    (parse versionRequired {} {} unversionedText 17).result = .success ∧
      (parse versionRequired {} {} unversionedText 17).desc.bareLevels = [[]] ∧
      Visit.sections versionRequired (parseVisits versionRequired {} {} unversionedText 17) =
        [[.plain (.direction .sendrecv)]] ∧
      ¬Sectioned versionRequired {} unversionedText 17 := by
  have hlevels : (parse versionRequired {} {} unversionedText 17).desc.bareLevels = [[]] := by
    decide
  have hsections : Visit.sections versionRequired
      (parseVisits versionRequired {} {} unversionedText 17) =
        [[.plain (.direction .sendrecv)]] := by
    decide
  refine ⟨by decide, hlevels, hsections, fun h => ?_⟩
  have hattrs := h.attrs
  rw [hlevels, hsections] at hattrs
  simp at hattrs

end Sdp
