import Ikran.Sdp.BuildAttr
import Ikran.Sdp.History
import Ikran.Sdp.Reads

/-!
# Round trips of attribute lines

An attribute that was parsed is printed by its build function, and the printed line is parsed again.
This file has what the round trips of all attributes share: the printed line starts with the name of
the attribute, so that reading it back is a matter of the value behind the name.
-/

namespace Sdp

open CStr Line

/-- The line that the build function of an attribute prints. -/
def emitted (a : Attr) : CStr := (buildAttr a).texts.flatten

/-- The printed line of an attribute, in front of any text `u`, is accepted again at a level of a
description, no error is counted, and the attribute it adds is the one that was printed. -/
structure RoundTrips (conf : Conf) (level : Level) (d : Desc) (n : UInt32) (u : CStr) (a : Attr) :
    Prop where
  built : (buildAttr a).result = .success
  token : "a=".toList <+: emitted a
  read : parseAttribute conf level ((emitted a).drop 2 ++ u) d n =
    (.success, d.updateAttrs level (· ++ [.plain a]), n)

theorem attr_readsBack : AttrType.all.all (fun x =>
    decide (findName AttrType.all AttrType.name x.name = some x) && isWord ": \t" maxStringLen x.name) = true := by
  decide

theorem plain_mem_all (t : PlainType) : AttrType.plain t ∈ AttrType.all := by
  cases t with
  | simpleString t => cases t <;> decide
  | simpleU32 t => cases t <;> decide
  | simpleBool t => cases t <;> decide
  | direction t => cases t <;> decide
  | qos t => cases t <;> decide
  | transportMap t => cases t <;> decide
  | stream t => cases t <;> decide
  | srtp t => cases t <;> decide
  | _ => decide

theorem findName_plain (t : PlainType) : findName AttrType.all AttrType.name t.name = some (.plain t) := by
  have h := List.all_eq_true.mp attr_readsBack _ (plain_mem_all t)
  rw [Bool.and_eq_true, decide_eq_true_eq] at h
  exact h.1

theorem isWord_plain (t : PlainType) : isWord ": \t" maxStringLen t.name = true := by
  have h := List.all_eq_true.mp attr_readsBack _ (plain_mem_all t)
  rw [Bool.and_eq_true] at h
  exact h.2

theorem run_attrName_colon (t : PlainType) (v : CStr) (n : UInt32) :
    attrName.run (t.name ++ ':' :: v) n = (.ok (some t.name), v, n) := by
  have htok : Line.token ": \t" maxStringLen (t.name ++ ':' :: v) = (some t.name, ':' :: v) :=
    token_word (isWord_plain t) (Or.inr (List.mem_cons_self))
  simp only [attrName, LineParser.run_bind, run_getNextStrTok, htok, LineParser.run_skip, LineParser.run_pure]
  rfl

theorem run_attrName_eol (t : PlainType) {v : CStr} (hv : atEol v) (n : UInt32) :
    attrName.run (t.name ++ v) n = (.ok (some t.name), v, n) := by
  have htok : Line.token ": \t" maxStringLen (t.name ++ v) = (some t.name, v) := token_word (isWord_plain t) (Or.inl hv)
  have hskip : ¬ (v.peek = ':' ∧ isEol ':' = false) := by
    rintro ⟨hpeek, -⟩
    rw [atEol, hpeek] at hv
    cases hv
  simp only [attrName, LineParser.run_bind, run_getNextStrTok, htok, LineParser.run_skip,
    LineParser.run_pure, if_neg hskip]

/-! ## The value -/

/-- A line whose name has been read adds the attribute when the parse function accepts the value
without an error, and only then. -/
theorem parseAttribute_eq_iff {conf : Conf} {level : Level} {d : Desc} (hlevel : d.hasLevel level)
    {s v : CStr} {n : UInt32} {a : Attr} {t : PlainType}
    (hname : attrName.run s n = (.ok (some t.name), v, n)) :
    parseAttribute conf level s d n = (.success, d.updateAttrs level (· ++ [.plain a]), n) ↔
      parsePlain conf t v n = (.ok a, n) := by
  obtain ⟨attrs, hattrs⟩ := Option.isSome_iff_exists.mp hlevel
  simp only [parseAttribute, hlevel, if_true, hname, findName_plain]
  rcases hparse : parsePlain conf t v n with ⟨e | b, k⟩
  · simp only [Prod.mk.injEq, true_and, reduceCtorEq, false_and, iff_false, not_and]
    intro heq
    have hne : d.updateAttrs level (· ++ [.plain a]) ≠ d := by
      refine updateAttrs_ne hattrs fun happend => ?_
      have hlen := congrArg List.length happend
      simp at hlen
    exact absurd heq.symm hne
  · simp only [Prod.mk.injEq, true_and, Except.ok.injEq]
    refine and_congr_left fun _ => ⟨fun heq => ?_, fun hab => by rw [hab]⟩
    -- the attribute that was added is the last of its level
    have hlast := congrArg (·.attrsOf level) heq
    simp only [attrsOf_updateAttrs, hattrs, Option.map_some, Option.some.injEq] at hlast
    exact LevelAttr.plain.inj (List.cons.inj (List.append_cancel_left hlast)).1

variable {conf : Conf} {level : Level} {d : Desc} {n : UInt32} {u : CStr} {a : Attr}
  {p : Parser Attr}

theorem roundTrips_iff_run (hlevel : d.hasLevel level) (hp : lineParser conf a.type = some p)
    (hbuilt : (buildAttr a).result = .success) {v : CStr}
    (hv : emitted a = fmt ["a=", a.type.name, ":", v]) :
    RoundTrips conf level d n u a ↔ outcomeOf p (v ++ u) n = (.ok a, n) := by
  have hdrop : (emitted a).drop 2 ++ u = a.type.name ++ ':' :: (v ++ u) := by
    rw [hv]
    simp [fmt]
  have hname : attrName.run ((emitted a).drop 2 ++ u) n = (.ok (some a.type.name), v ++ u, n) :=
    hdrop ▸ run_attrName_colon a.type (v ++ u) n
  have hread : parseAttribute conf level ((emitted a).drop 2 ++ u) d n = _ ↔ _ :=
    parseAttribute_eq_iff hlevel (a := a) hname
  have hplain : parsePlain conf a.type (v ++ u) n = outcomeOf p (v ++ u) n := by
    simp only [parsePlain, hp]
  rw [hplain] at hread
  refine ⟨fun h => hread.mp h.read, fun h => ⟨hbuilt, ?_, hread.mpr h⟩⟩
  rw [hv]
  exact List.prefix_append _ _

/-- The printed line of the attribute has the name, a colon, and a value with these words. -/
def Prints (a : Attr) (ws : List CStr) : Prop :=
  (buildAttr a).result = .success ∧
    ∃ v, emitted a = fmt ["a=", a.type.name, ":", v] ∧ ∀ u, words (v ++ u) = ws

theorem roundTrips_iff_reads (hlevel : d.hasLevel level) (hp : lineParser conf a.type = some p)
    {P : List CStr → Attr → Prop} (hP : Reads p P) {ws : List CStr} (hprints : Prints a ws) :
    RoundTrips conf level d n u a ↔ P ws a := by
  obtain ⟨hbuilt, v, hv, hwords⟩ := hprints
  rw [roundTrips_iff_run hlevel hp hbuilt hv, hP, hwords]
  exact and_iff_left rfl

theorem prints_spaced (hbuilt : (buildAttr a).result = .success) {w : CStr} {ws : List CStr}
    (hws : ∀ v ∈ w :: ws, isWord blanks maxStringLen v = true)
    (hv : emitted a = fmt ["a=", a.type.name, ":", w, spaced ' ' ws, crlf]) : Prints a (w :: ws) := by
  refine ⟨hbuilt, w ++ (spaced ' ' ws ++ crlf), by rw [hv]; simp [fmt], fun u => ?_⟩
  have happend : w ++ (spaced ' ' ws ++ crlf) ++ u = w ++ (spaced ' ' ws ++ (crlf ++ u)) := by
    simp only [List.append_assoc]
  rw [happend]
  exact tokens_word_spaced (by decide) (by decide) (by decide) hws rfl

theorem reads_of_parsePlain {t : PlainType} (hp : lineParser conf t = some p)
    {P : List CStr → Attr → Prop} (hP : Reads p P) {body : CStr}
    (h : (parsePlain conf t body n).1 = .ok a) : P (words body) a := by
  simp only [parsePlain, hp] at h
  exact ((hP body n a (outcomeOf p body n).2).mp (Prod.ext h rfl)).1

end Sdp
