import Ikran.Sdp.RoundTrip

/-!
# Round trips of structured attributes

For each list-valued or structured attribute: what its parse function accepts, as a relation on the
words of the line, and when the line that its build function prints is read back. Only a few values
are not: an interval zero is printed without the blank in front of it, a group identifier zero is
not printed, a subnet prefix is printed with its low 16 bits, and a status type that was not
recognised is printed as a sentence.
-/

namespace Sdp

open CStr Line

variable {conf : Conf} {level : Level} {d : Desc} {m n : UInt32} {u body : CStr} {a : Attr}

/-! ## Quality of service -/

theorem qosStrength_readsBack : readsBack QosStrength.all QosStrength.name = true := by
  decide

theorem qosDir_readsBack : readsBack QosDir.all QosDir.name = true := by decide

theorem qosStatusType_readsBack : readsBack QosStatusType.all QosStatusType.name = true := by
  decide

theorem qosLineType_readsBack : readsBack QosLineType.all QosLineType.name = true := by
  decide

/-- The last word of a quality of service line. -/
def confirmOf : Option CStr → Option Bool
  | none => some false
  | some w => if nameEq w "confirm" then some true else none

theorem reads_qos (t : QosAttr) : Reads (parseAttrQos t) fun ws a =>
    ∃ w ws' strength, ws = w :: ws' ∧ findName QosStrength.all QosStrength.name w = some strength ∧
    ∃ w' ws'' direction, ws' = w' :: ws'' ∧ findName QosDir.all QosDir.name w' = some direction ∧
    ∃ confirm, confirmOf ws''.head? = some confirm ∧
      a = .qos t { strength, direction, confirm, statusType := .«local» } := by
  refine Reads.named fun strength => Reads.named fun direction => ?_
  refine Reads.optWord (P := fun o _ (a : Attr) => ∃ confirm, confirmOf o = some confirm ∧
      a = .qos t { strength, direction, confirm, statusType := .«local» }) fun o => ?_
  cases o with
  | none => exact (Reads.pure _).congr fun ws a => by simp [confirmOf]
  | some w =>
    refine (Reads.ite (Reads.pure _) Reads.invalid).congr fun ws a => ?_
    simp only [confirmOf]
    split_ifs <;> simp

theorem roundTrips_qos {t : QosAttr} (hlevel : d.hasLevel level)
    (h : (parsePlain conf (.qos t) body m).1 = .ok a) : RoundTrips conf level d n u a := by
  obtain ⟨w, ws, strength, -, hstrength, w', ws', direction, -, hdirection, confirm, -, rfl⟩ :=
    reads_of_parsePlain rfl (reads_qos t) h
  have hstrength := mem_of_findName hstrength
  have hdirection := mem_of_findName hdirection
  have hws : ∀ v ∈ strength.name :: direction.name :: (if confirm then ["confirm".toList] else []),
      isWord blanks maxStringLen v = true := by
    intro v hv
    rcases List.mem_cons.mp hv with rfl | hv
    · exact isWord_name qosStrength_readsBack hstrength
    rcases List.mem_cons.mp hv with rfl | hv
    · exact isWord_name qosDir_readsBack hdirection
    cases confirm with
    | false => cases hv
    | true =>
      obtain rfl := List.mem_singleton.mp hv
      decide
  refine (roundTrips_iff_reads hlevel rfl (reads_qos t) (prints_spaced rfl hws ?_)).mpr ?_
  · cases confirm <;> simp [emitted, buildAttr, fmt, Attr.type, crlf]
  · refine ⟨_, _, strength, rfl, findName_name qosStrength_readsBack hstrength, _, _, direction,
      rfl, findName_name qosDir_readsBack hdirection, confirm, ?_, rfl⟩
    cases confirm <;> rfl

theorem reads_rtr : Reads parseAttrRtr fun ws a =>
    ∃ confirm, confirmOf ws.head? = some confirm ∧ a = .rtr confirm := by
  refine Reads.optWord (P := fun o _ (a : Attr) => ∃ confirm, confirmOf o = some confirm ∧
      a = .rtr confirm) fun o => ?_
  cases o with
  | none => exact (Reads.pure _).congr fun ws a => by simp [confirmOf]
  | some w =>
    refine (Reads.ite (Reads.pure _) Reads.invalid).congr fun ws a => ?_
    simp only [confirmOf]
    split_ifs <;> simp

theorem roundTrips_rtr (hlevel : d.hasLevel level) (h : (parsePlain conf .rtr body m).1 = .ok a) :
    RoundTrips conf level d n u a := by
  obtain ⟨confirm, -, rfl⟩ := reads_of_parsePlain rfl reads_rtr h
  cases confirm with
  | true =>
    have hprints : Prints (.rtr true) ["confirm"] := by
      have hwords : ∀ v ∈ ["confirm".toList], isWord blanks maxStringLen v = true := by
        decide
      exact prints_spaced rfl hwords rfl
    exact (roundTrips_iff_reads hlevel rfl reads_rtr hprints).mpr ⟨true, rfl, rfl⟩
  | false =>
    have hname := run_attrName_eol .rtr (v := crlf ++ u) rfl n
    have hread : parsePlain conf .rtr (crlf ++ u) n = (.ok (.rtr false), n) :=
      (reads_rtr (crlf ++ u) n (.rtr false) n).mpr ⟨⟨false, rfl, rfl⟩, rfl⟩
    exact ⟨rfl, ⟨_, rfl⟩, (parseAttribute_eq_iff hlevel hname).mpr hread⟩

/-! ## Preconditions -/

section Preconditions

variable {α : Type} {P : List CStr → α → Prop}

theorem reads_parseQosLineType {f : QosLineType → Parser α} (hf : Reads (f .qos) P) :
    Reads (parseQosLineType >>= f) fun ws a =>
      ∃ w ws', ws = w :: ws' ∧ findName QosLineType.all QosLineType.name w = some .qos ∧ P ws' a := by
  rw [parseQosLineType, LineParser.bind_assoc]
  simp only [LineParser.bind_assoc]
  refine Reads.word fun w => ?_
  rcases findName QosLineType.all QosLineType.name w with _ | _ | _
  · exact Reads.invalid.congr fun ws a => by simp
  · exact hf.congr fun ws a => by simp
  · exact Reads.invalid.congr fun ws a => by simp

theorem reads_parseQosStatusType {f : QosStatusType → Parser α}
    {Q : QosStatusType → List CStr → α → Prop} (hf : ∀ status, Reads (f status) (Q status)) :
    Reads (parseQosStatusType >>= f) fun ws a =>
      ∃ w ws', ws = w :: ws' ∧ Q ((findName QosStatusType.all QosStatusType.name w).getD .unknown) ws' a := by
  rw [parseQosStatusType, LineParser.bind_assoc]
  simp only [LineParser.bind_assoc]
  exact Reads.word fun w => hf _

theorem reads_parseQosDir {f : QosDir → Parser α} {Q : QosDir → List CStr → α → Prop}
    (hf : ∀ direction, Reads (f direction) (Q direction)) :
    Reads (parseQosDir >>= f) fun ws a =>
      ∃ w ws' direction, ws = w :: ws' ∧ findName QosDir.all QosDir.name w = some direction ∧ Q direction ws' a := by
  rw [parseQosDir, LineParser.bind_assoc]
  simp only [LineParser.bind_assoc]
  exact Reads.named hf

end Preconditions

/-- The status type that a word names, `unknown` for all other words. -/
def statusOf (w : CStr) : QosStatusType :=
  (findName QosStatusType.all QosStatusType.name w).getD .unknown

def NamesStatus (w : Option CStr) : Prop :=
  ∃ v status, w = some v ∧ findName QosStatusType.all QosStatusType.name v = some status

/-- The words of an `a=curr` or `a=conf` line with this value. -/
def CurrWords (mk : Curr → Attr) (ws : List CStr) (a : Attr) : Prop :=
  ∃ w ws₁, ws = w :: ws₁ ∧ findName QosLineType.all QosLineType.name w = some .qos ∧
  ∃ w' ws₂, ws₁ = w' :: ws₂ ∧
  ∃ w'' ws₃ direction, ws₂ = w'' :: ws₃ ∧ findName QosDir.all QosDir.name w'' = some direction ∧
    a = mk { type := .qos, statusType := statusOf w', direction }

theorem reads_curr : Reads parseAttrCurr (CurrWords .curr) :=
  reads_parseQosLineType (reads_parseQosStatusType fun _ => reads_parseQosDir fun _ => Reads.pure _)

theorem reads_conf : Reads parseAttrConf (CurrWords .conf) :=
  reads_parseQosLineType (reads_parseQosStatusType fun _ => reads_parseQosDir fun _ => Reads.pure _)

variable {w : CStr}

theorem statusOf_mem {status : QosStatusType} (h : findName QosStatusType.all QosStatusType.name w = some status) :
    statusOf w = status ∧ status ∈ QosStatusType.all :=
  ⟨by rw [statusOf, h, Option.getD_some], mem_of_findName h⟩

theorem unknown_name : QosStatusType.name .unknown = "Invalid".toList ++ spaced ' ' ["qos", "status", "type"] := by
  decide

/-- An `a=curr` or `a=conf` line is read back exactly when its status type was recognised. -/
theorem roundTrips_currWords {mk : Curr → Attr} {p : Parser Attr}
    (hp : ∀ v, lineParser conf (mk v).type = some p) (hP : Reads p (CurrWords mk))
    (hbuilt : ∀ v, (buildAttr (mk v)).result = .success)
    (hemit : ∀ v, emitted (mk v) = fmt ["a=", (mk v).type.name, ":", v.type.name, " ",
      v.statusType.name, " ", v.direction.name, crlf])
    (hlevel : d.hasLevel level) (h : CurrWords mk (words body) a) :
    RoundTrips conf level d n u a ↔ NamesStatus (words body)[1]? := by
  obtain ⟨w, ws₁, hws, -, w', ws₂, rfl, w'', ws₃, direction, rfl, hdirection, rfl⟩ := h
  have hdirection := mem_of_findName hdirection
  have hword : isWord blanks maxStringLen direction.name = true := isWord_name qosDir_readsBack hdirection
  rw [hws]
  cases hstatus : findName QosStatusType.all QosStatusType.name w' with
  | some status =>
    obtain ⟨hof, hmem⟩ := statusOf_mem hstatus
    rw [hof]
    have hwords : ∀ v ∈ [QosLineType.qos.name, status.name, direction.name], isWord blanks maxStringLen v = true := by
      intro v hv
      simp only [List.mem_cons, List.not_mem_nil, or_false] at hv
      rcases hv with rfl | rfl | rfl
      · exact isWord_name qosLineType_readsBack (by decide)
      · exact isWord_name qosStatusType_readsBack hmem
      · exact hword
    refine iff_of_true ((roundTrips_iff_reads hlevel (hp _) hP
      (prints_spaced (hbuilt _) hwords ?_)).mpr ?_) ⟨w', status, rfl, hstatus⟩
    · rw [hemit]
      simp [fmt]
    · refine ⟨_, _, rfl, by decide, _, _, rfl, _, _, direction, rfl,
        findName_name qosDir_readsBack hdirection, ?_⟩
      rw [statusOf, findName_name qosStatusType_readsBack hmem, Option.getD_some]
  | none =>
    have hof : statusOf w' = .unknown := by rw [statusOf, hstatus, Option.getD_none]
    rw [hof]
    have hwords : ∀ v ∈ [QosLineType.qos.name, "Invalid".toList, "qos".toList, "status".toList,
        "type".toList, direction.name], isWord blanks maxStringLen v = true := by
      intro v hv
      simp only [List.mem_cons, List.not_mem_nil, or_false] at hv
      rcases hv with rfl | rfl | rfl | rfl | rfl | rfl
      · exact isWord_name qosLineType_readsBack (by decide)
      · decide
      · decide
      · decide
      · decide
      · exact hword
    refine iff_of_false (fun hround => ?_) ?_
    · -- the third word of the sentence stands where the direction is expected
      have hread := (roundTrips_iff_reads hlevel (hp _) hP
        (prints_spaced (hbuilt _) hwords (by rw [hemit, unknown_name]; simp [fmt]))).mp hround
      obtain ⟨_, _, hws₁, -, _, _, hws₂, v, _, dir, hws₃, hdir, -⟩ := hread
      obtain ⟨-, rfl⟩ := List.cons.inj hws₁
      obtain ⟨-, rfl⟩ := List.cons.inj hws₂
      obtain ⟨rfl, -⟩ := List.cons.inj hws₃
      cases hdir
    · rintro ⟨v, status, hv, hsome⟩
      simp only [List.getElem?_cons_succ, List.getElem?_cons_zero, Option.some.injEq] at hv
      rw [← hv, hstatus] at hsome
      cases hsome

theorem reads_des : Reads parseAttrDes fun ws a =>
    ∃ w ws₁, ws = w :: ws₁ ∧ findName QosLineType.all QosLineType.name w = some .qos ∧
    ∃ w' ws₂ strength, ws₁ = w' :: ws₂ ∧ findName QosStrength.all QosStrength.name w' = some strength ∧
    ∃ w'' ws₃, ws₂ = w'' :: ws₃ ∧
    ∃ w₃ ws₄ direction, ws₃ = w₃ :: ws₄ ∧ findName QosDir.all QosDir.name w₃ = some direction ∧
      a = .des { type := .qos, strength, statusType := statusOf w'', direction } :=
  reads_parseQosLineType (Reads.named fun _ =>
    reads_parseQosStatusType fun _ => reads_parseQosDir fun _ => Reads.pure _)

/-- An `a=des` line is read back exactly when its status type was recognised. -/
theorem roundTrips_des (hlevel : d.hasLevel level) (h : (parsePlain conf .des body m).1 = .ok a) :
    RoundTrips conf level d n u a ↔ NamesStatus (words body)[2]? := by
  obtain ⟨w, ws₁, hws, -, w', ws₂, strength, rfl, hstrength, w'', ws₃, rfl, w₃, ws₄, direction, rfl,
    hdirection, rfl⟩ := reads_of_parsePlain rfl reads_des h
  have hstrength := mem_of_findName hstrength
  have hdirection := mem_of_findName hdirection
  have hword : isWord blanks maxStringLen direction.name = true := isWord_name qosDir_readsBack hdirection
  rw [hws]
  cases hstatus : findName QosStatusType.all QosStatusType.name w'' with
  | some status =>
    obtain ⟨hof, hmem⟩ := statusOf_mem hstatus
    rw [hof]
    have hwords : ∀ v ∈ [QosLineType.qos.name, strength.name, status.name, direction.name],
        isWord blanks maxStringLen v = true := by
      intro v hv
      simp only [List.mem_cons, List.not_mem_nil, or_false] at hv
      rcases hv with rfl | rfl | rfl | rfl
      · exact isWord_name qosLineType_readsBack (by decide)
      · exact isWord_name qosStrength_readsBack hstrength
      · exact isWord_name qosStatusType_readsBack hmem
      · exact hword
    refine iff_of_true ((roundTrips_iff_reads hlevel rfl reads_des
      (prints_spaced rfl hwords ?_)).mpr ?_) ⟨w'', status, rfl, hstatus⟩
    · simp [emitted, buildAttr, fmt, Attr.type]
    · refine ⟨_, _, rfl, by decide, _, _, strength, rfl,
        findName_name qosStrength_readsBack hstrength, _, _, rfl, _, _, direction, rfl,
        findName_name qosDir_readsBack hdirection, ?_⟩
      rw [statusOf, findName_name qosStatusType_readsBack hmem, Option.getD_some]
  | none =>
    have hof : statusOf w'' = .unknown := by rw [statusOf, hstatus, Option.getD_none]
    rw [hof]
    have hwords : ∀ v ∈ [QosLineType.qos.name, strength.name, "Invalid".toList, "qos".toList,
        "status".toList, "type".toList, direction.name],
        isWord blanks maxStringLen v = true := by
      intro v hv
      simp only [List.mem_cons, List.not_mem_nil, or_false] at hv
      rcases hv with rfl | rfl | rfl | rfl | rfl | rfl | rfl
      · exact isWord_name qosLineType_readsBack (by decide)
      · exact isWord_name qosStrength_readsBack hstrength
      · decide
      · decide
      · decide
      · decide
      · exact hword
    refine iff_of_false (fun hround => ?_) ?_
    · have hread := (roundTrips_iff_reads hlevel rfl reads_des (prints_spaced rfl hwords
        (by simp [emitted, buildAttr, fmt, Attr.type, unknown_name]))).mp hround
      obtain ⟨_, _, hws₁, -, _, _, _, hws₂, -, _, _, hws₃, v, _, dir, hws₄, hdir, -⟩ := hread
      obtain ⟨-, rfl⟩ := List.cons.inj hws₁
      obtain ⟨-, rfl⟩ := List.cons.inj hws₂
      obtain ⟨-, rfl⟩ := List.cons.inj hws₃
      obtain ⟨rfl, -⟩ := List.cons.inj hws₄
      cases hdir
    · rintro ⟨v, status, hv, hsome⟩
      simp only [List.getElem?_cons_succ, List.getElem?_cons_zero, Option.some.injEq] at hv
      rw [← hv, hstatus] at hsome
      cases hsome

/-! ## Silence suppression -/

theorem silencesuppPref_readsBack : readsBack SilencesuppPref.all SilencesuppPref.name = true := by
  decide

/-- The word that turns silence suppression on or off. -/
def enabledOf (w : CStr) : Option Bool :=
  if nameEq w "on" then some true
  else if nameEq w "off" then some false
  else if nameEq w "-" then some false
  else none

theorem reads_silencesupp : Reads parseAttrSilencesupp fun ws a =>
    ∃ w ws₁ enabled, ws = w :: ws₁ ∧ enabledOf w = some enabled ∧
    ∃ w₁ ws₂ timer, ws₁ = w₁ :: ws₂ ∧ numOrNull w₁ = some timer ∧
    ∃ w₂ ws₃ pref, ws₂ = w₂ :: ws₃ ∧ findName SilencesuppPref.all SilencesuppPref.name w₂ = some pref ∧
    ∃ w₃ ws₄ siduse, ws₃ = w₃ :: ws₄ ∧ findName SilencesuppSiduse.all SilencesuppSiduse.name w₃ = some siduse ∧
    ∃ w₄ ws₅ fxnslevel, ws₄ = w₄ :: ws₅ ∧ numOrNull w₄ = some fxnslevel ∧ a = .silencesupp
        { enabled, timerNull := timer.2, timer := timer.1.toUInt16, pref, siduse,
          fxnslevelNull := fxnslevel.2, fxnslevel := fxnslevel.1.toUInt8 } :=
  Reads.named fun _ => Reads.value (run_getNextNumTokOrNull blanks) fun _ =>
    Reads.named fun _ => Reads.named fun _ =>
      Reads.value (run_getNextNumTokOrNull blanks) fun _ => Reads.pure _

theorem siduse_eq_null (hw : isWord blanks maxStringLen w = true) {siduse : SilencesuppSiduse}
    (h : findName SilencesuppSiduse.all SilencesuppSiduse.name w = some siduse) :
    siduse = .null := by
  have hmem := mem_of_findName h
  have hname := nameEq_of_findName h
  simp only [SilencesuppSiduse.all, List.mem_cons, List.not_mem_nil, or_false] at hmem
  rcases hmem with rfl | rfl | rfl | rfl
  · exact absurd (by decide) (blank_notMem_of_nameEq (forall_of_all (by decide)) hw hname)
  · exact absurd (by decide) (blank_notMem_of_nameEq (forall_of_all (by decide)) hw hname)
  · exact absurd (by decide) (blank_notMem_of_nameEq (forall_of_all (by decide)) hw hname)
  · rfl

/-- The text of a number that may be null. -/
def nullText (null : Bool) (v : ℕ) : CStr := if null then "-" else decimal v

theorem isWord_nullText (null : Bool) {v : ℕ} (hv : v < 10 ^ 80) :
    isWord blanks maxStringLen (nullText null v) = true := by
  cases null with
  | true =>
    change isWord blanks maxStringLen "-".toList = true
    decide
  | false => exact isWord_decimal (by decide) hv

theorem peek_decimal_ne (n : ℕ) : peek (decimal n) ≠ '-' := by
  obtain ⟨c, s, hs⟩ := List.exists_cons_of_ne_nil (decimal_ne_nil n)
  have hdigit : c.isDigit = true := isDigit_of_mem_decimal (by rw [hs]; exact List.mem_cons_self)
  rw [hs, peek_cons]
  rintro rfl
  cases hdigit

theorem numOrNull_decimal (n : ℕ) : numOrNull (decimal n) = some (UInt32.ofNat n, false) := by
  rw [numOrNull, if_neg (peek_decimal_ne n), numVal_decimal, if_pos rfl]

theorem numOrNull_eq {v : UInt32 × Bool} (h : numOrNull w = some v) : v.2 = true → v.1 = 0 := by
  intro hnull
  rw [numOrNull] at h
  split_ifs at h
  · rw [← Option.some.inj h]
  · rw [← Option.some.inj h] at hnull
    cases hnull

theorem numOrNull_nullText {v : UInt32 × Bool} (hv : v.2 = true → v.1 = 0) {k : ℕ}
    (hk : v.2 = true → k = 0) : numOrNull (nullText v.2 k) = some (UInt32.ofNat k, v.2) := by
  obtain ⟨v, null⟩ := v
  cases null with
  | true =>
    rw [hk rfl]
    rfl
  | false => exact numOrNull_decimal k

theorem emitted_silencesupp {v : Silencesupp} (hv : v.siduse = .null) :
    emitted (.silencesupp v) = fmt ["a=", PlainType.silencesupp.name, ":",
      if v.enabled then "on" else "off", spaced ' ' [nullText v.timerNull v.timer.toNat,
        v.pref.name, "-", nullText v.fxnslevelNull v.fxnslevel.toNat], crlf] := by
  have hnull : SilencesuppSiduse.null.name = "-".toList := rfl
  have htexts : ∀ name on timerText levelText : CStr,
      [fmt ["a=", name, ":", on, " "], timerText, fmt [" ", v.pref.name, " ", v.siduse.name, " "],
        levelText, crlf].flatten =
      fmt ["a=", name, ":", on, spaced ' ' [timerText, v.pref.name, "-", levelText], crlf] := by
    intro name on timerText levelText
    rw [hv, hnull]
    simp [fmt]
  exact htexts PlainType.silencesupp.name (if v.enabled then "on" else "off")
    (nullText v.timerNull v.timer.toNat) (nullText v.fxnslevelNull v.fxnslevel.toNat)

/-- An `a=silenceSupp` line is read back. -/
theorem roundTrips_silencesupp (hlevel : d.hasLevel level)
    (h : (parsePlain conf .silencesupp body m).1 = .ok a) : RoundTrips conf level d n u a := by
  obtain ⟨w, ws₁, enabled, hws, -, w₁, ws₂, timer, rfl, htimer, w₂, ws₃, pref, rfl, hpref, w₃, ws₄,
    siduse, rfl, hsiduse, w₄, ws₅, level', rfl, hlevel', rfl⟩ :=
    reads_of_parsePlain rfl reads_silencesupp h
  have hpref := mem_of_findName hpref
  obtain rfl : siduse = .null := by
    refine siduse_eq_null (isWord_of_mem_tokens (by decide) (s := body) ?_) hsiduse
    change w₃ ∈ words body
    simp [hws]
  have htimer := numOrNull_eq htimer
  have hlevel' := numOrNull_eq hlevel'
  have hwords : ∀ v ∈ [if enabled then "on".toList else "off",
      nullText timer.2 timer.1.toUInt16.toNat, pref.name, "-",
      nullText level'.2 level'.1.toUInt8.toNat],
      isWord blanks maxStringLen v = true := by
    intro v hv
    simp only [List.mem_cons, List.not_mem_nil, or_false] at hv
    rcases hv with rfl | rfl | rfl | rfl | rfl
    · cases enabled <;> decide
    · exact isWord_nullText _ (Nat.lt_of_lt_of_le (UInt16.toNat_lt _) (by decide))
    · exact isWord_name silencesuppPref_readsBack hpref
    · decide
    · exact isWord_nullText _ (Nat.lt_of_lt_of_le (UInt8.toNat_lt _) (by decide))
  refine (roundTrips_iff_reads hlevel rfl reads_silencesupp (prints_spaced rfl hwords ?_)).mpr ?_
  · exact emitted_silencesupp rfl
  · refine ⟨_, _, enabled, rfl, by cases enabled <;> decide, _, _, _, rfl,
      numOrNull_nullText htimer fun hnull => by rw [htimer hnull]; rfl, _, _, pref, rfl,
      findName_name silencesuppPref_readsBack hpref, _, _, .null, rfl, by decide, _, _, _, rfl,
      numOrNull_nullText hlevel' fun hnull => by rw [hlevel' hnull]; rfl, ?_⟩
    rw [toUInt16_ofNat_toNat, toUInt8_ofNat_toNat]

/-! ## Payload mappings -/

def mapDelims : CStr := "/ \t"

theorem isWord_encname {t : MapAttr} {s : CStr} {k : UInt32}
    (h : outcomeOf (parseAttrTransportMap t) s n = (.ok a, k)) :
    ∃ v : TransportMap, a = .transportMap t v ∧ isWord mapDelims maxStringLen v.encname = true := by
  obtain ⟨payloadNum, -, h⟩ := outcomeOf_num_iff.mp h
  obtain ⟨encname, s', htok, h⟩ := outcomeOf_word_iff.mp h
  have hword : isWord mapDelims maxStringLen encname = true := isWord_of_token (by decide) htok
  have h := outcomeOf_getNextNum.symm.trans h
  generalize Line.token "/ \t" maxStringLen s' = r at h
  have hpeek : ∀ f : Char → Parser Attr,
      outcomeOf (LineParser.peek >>= f) r.2 n = outcomeOf (f r.2.peek) r.2 n := fun _ => rfl
  rw [hpeek] at h
  split_ifs at h
  · obtain ⟨numChan, -, h⟩ := outcomeOf_num_iff.mp h
    exact ⟨_, (Except.ok.inj (Prod.mk.inj h).1).symm, hword⟩
  · exact ⟨_, (Except.ok.inj (Prod.mk.inj h).1).symm, hword⟩

/-- The text behind the clock rate: without a number of channels there is one. -/
def channelsText (numChan : UInt16) : CStr :=
  if numChan = 1 then crlf else '/' :: (decimal numChan.toNat ++ crlf)

theorem outcomeOf_transportMap {t : MapAttr} {v : TransportMap}
    (hword : isWord mapDelims maxStringLen v.encname = true) :
    outcomeOf (parseAttrTransportMap t) (decimal v.payloadNum.toNat ++ ' ' :: (v.encname ++ '/' ::
      (decimal v.clockrate.toNat ++ (channelsText v.numChan ++ u)))) n =
      (.ok (.transportMap t v), n) := by
  have hnum : ∀ {k : ℕ}, k < 10 ^ 80 → isWord mapDelims maxStringLen (decimal k) = true :=
    fun hk => isWord_decimal (by decide) hk
  have hpayload := token_word (r := ' ' :: (v.encname ++ '/' :: (decimal v.clockrate.toNat ++
    (channelsText v.numChan ++ u)))) (isWord_decimal_toNat v.payloadNum) (Or.inr List.mem_cons_self)
  have hencname := token_word (r := '/' :: (decimal v.clockrate.toNat ++
    (channelsText v.numChan ++ u))) hword (Or.inr List.mem_cons_self)
  have hends : atEol (channelsText v.numChan ++ u) ∨ (channelsText v.numChan ++ u).peek ∈ mapDelims := by
    rw [channelsText]
    split_ifs
    · exact Or.inl rfl
    · exact Or.inr List.mem_cons_self
  have hclock := token_word (r := channelsText v.numChan ++ u)
    (hnum (Nat.lt_of_lt_of_le v.clockrate.toNat_lt (by decide))) hends
  refine outcomeOf_getNextNum.trans ?_
  rw [hpayload, Option.bind_some, numOf_decimal]
  refine outcomeOf_orInvalid_iff.mpr ⟨_, rfl, outcomeOf_word_iff.mpr
    ⟨v.encname, _, (token_delim (by decide) (by decide) _).trans hencname, ?_⟩⟩
  refine outcomeOf_getNextNum.trans ?_
  have hskip : Line.token mapDelims maxStringLen ('/' :: (decimal v.clockrate.toNat ++
      (channelsText v.numChan ++ u))) = _ := (token_delim (by decide) (by decide) _).trans hclock
  rw [mapDelims] at hskip
  rw [hskip, Option.bind_some, numOf_decimal]
  have hpeek : ∀ (f : Char → Parser Attr) (s : CStr),
      outcomeOf (LineParser.peek >>= f) s n = outcomeOf (f s.peek) s n := fun _ _ => rfl
  refine (hpeek _ _).trans ?_
  obtain ⟨payloadNum, encname, clockrate, numChan⟩ := v
  simp only [toUInt16_ofNat_toNat, Option.getD_some, UInt32.ofNat_toNat]
  by_cases hchan : numChan = 1
  · have htext : channelsText numChan = crlf := if_pos hchan
    simp only [htext]
    rw [hchan]
    rfl
  · have htext : channelsText numChan = '/' :: (decimal numChan.toNat ++ crlf) := if_neg hchan
    have hchannels : Line.token mapDelims maxStringLen ('/' :: (decimal numChan.toNat ++ crlf ++ u)) =
        (some (decimal numChan.toNat), crlf ++ u) := by
      rw [List.append_assoc]
      exact (token_delim (by decide) (by decide) _).trans (token_word
        (hnum (Nat.lt_of_lt_of_le numChan.toNat_lt (by decide))) (Or.inl rfl))
    rw [mapDelims] at hchannels
    simp only [htext, List.cons_append, peek_cons, if_true]
    refine outcomeOf_getNextNum.trans ?_
    rw [hchannels, Option.bind_some, numOf_decimal]
    refine outcomeOf_orInvalid_iff.mpr ⟨_, rfl, ?_⟩
    rw [toUInt16_ofNat_toNat]
    rfl

theorem roundTrips_transportMap {t : MapAttr} (hlevel : d.hasLevel level)
    (h : (parsePlain conf (.transportMap t) body m).1 = .ok a) :
    RoundTrips conf level d n u a := by
  have haccept : outcomeOf (parseAttrTransportMap t) body m =
      (.ok a, (outcomeOf (parseAttrTransportMap t) body m).2) := Prod.ext h rfl
  obtain ⟨v, rfl, hword⟩ := isWord_encname haccept
  have hv : emitted (.transportMap t v) = fmt ["a=", (PlainType.transportMap t).name, ":",
      decimal v.payloadNum.toNat ++ ' ' :: (v.encname ++ '/' :: (decimal v.clockrate.toNat ++
        channelsText v.numChan))] := by
    have htext : ∀ name payload clock channel : CStr, [fmt [fmt ["a=", name], ":", payload, " ", v.encname, "/", clock],
          if v.numChan = 1 then crlf else fmt ["/", channel, crlf]].flatten =
        fmt ["a=", name, ":", payload ++ ' ' :: (v.encname ++ '/' :: (clock ++
          if v.numChan = 1 then crlf else '/' :: (channel ++ crlf)))] := by
      intro name payload clock channel
      split_ifs <;> simp [fmt]
    exact htext _ (decimal v.payloadNum.toNat) (decimal v.clockrate.toNat) (decimal v.numChan.toNat)
  refine (roundTrips_iff_run hlevel rfl rfl hv).mpr ?_
  have hrun := outcomeOf_transportMap (t := t) (n := n) (u := u) hword
  simp only [List.append_assoc, List.cons_append] at hrun ⊢
  exact hrun

/-! ## Number lists -/

/-- The numbers at the front of some words. -/
def numbersOf (k : ℕ) (ws : List CStr) : List UInt16 := (valuesUpTo numOf k ws).map UInt32.toUInt16

variable {l : List UInt16}

theorem numbersOf_decimal {k : ℕ} (hl : l.length ≤ k) : numbersOf k (l.map fun v => decimal v.toNat) = l := by
  refine valuesUpTo_map (fun v _ => ?_) hl
  rw [numOf_decimal, Option.map_some, toUInt16_ofNat_toNat]

theorem length_numbersOf_le (k : ℕ) (ws : List CStr) : (numbersOf k ws).length ≤ k := by
  rw [numbersOf, List.length_map]
  exact length_valuesUpTo_le.1

theorem reads_parseNums {f : List UInt16 → Parser Attr} {P : List UInt16 → Attr → Prop}
    (hf : ∀ l, Reads (f l) fun _ => P l) (k : ℕ) :
    Reads (parseNums k >>= f) fun ws a => P (numbersOf k ws) a := by
  refine Reads.values (run_getNextNum blanks) rfl (fun k => ?_) hf k
  rw [parseNums]
  refine congrArg _ (funext fun o => ?_)
  cases o <;> rfl

theorem reads_pcCodec : Reads parseAttrPcCodec fun ws a =>
    numbersOf maxPayloadTypes ws ≠ [] ∧ a = .pcCodec (numbersOf maxPayloadTypes ws) := by
  refine reads_parseNums (P := fun l (a : Attr) => l ≠ [] ∧ a = .pcCodec l) (fun l => ?_) _
  cases l with
  | nil => exact Reads.invalid.congr fun ws a => by simp
  | cons v l => exact (Reads.pure _).congr fun ws a => by simp

theorem roundTrips_pcCodec (hlevel : d.hasLevel level)
    (h : (parsePlain conf .pcCodec body m).1 = .ok a) : RoundTrips conf level d n u a := by
  obtain ⟨hne, ha⟩ := reads_of_parsePlain rfl reads_pcCodec h
  have hlen := length_numbersOf_le maxPayloadTypes (words body)
  generalize numbersOf maxPayloadTypes (words body) = l at hne ha hlen
  subst ha
  have hwords : ∀ w ∈ l.map (fun v => decimal v.toNat), isWord blanks maxStringLen w = true := by
    intro w hw
    obtain ⟨v, -, rfl⟩ := List.mem_map.mp hw
    exact isWord_decimal_toNat v
  have hprints : Prints (.pcCodec l) (l.map fun v => decimal v.toNat) := by
    refine ⟨rfl, ' ' :: ((l.map fun v => decimal v.toNat).flatMap (· ++ [' ']) ++ crlf), ?_,
      fun u => ?_⟩
    · simp [emitted, buildAttr, fmt, Attr.type, List.flatMap_def, Function.comp_def]
    · rw [List.cons_append, List.append_assoc]
      exact (tokens_delim (by decide) (by decide) (by decide) _).trans
        (tokens_trailing (by decide) (by decide) (by decide) hwords rfl)
  refine (roundTrips_iff_reads hlevel rfl reads_pcCodec hprints).mpr ?_
  rw [numbersOf_decimal hlen]
  exact ⟨hne, rfl⟩

theorem reads_group : Reads parseAttrGroup fun ws a =>
    ∃ w ws', ws = w :: ws' ∧
      a = .group
        { groupAttr := (findName GroupAttr.all GroupAttr.name w).getD .unsupported
          groupIds := numbersOf maxGroupStreamId ws' } :=
  Reads.word fun w => reads_parseNums
    (P := fun l (a : Attr) => a = .group
      { groupAttr := (findName GroupAttr.all GroupAttr.name w).getD .unsupported, groupIds := l })
    (fun _ => Reads.pure _) _

theorem group_readsBack (w : CStr) : isWord blanks maxStringLen
        ((findName GroupAttr.all GroupAttr.name w).getD .unsupported).name = true ∧
      (findName GroupAttr.all GroupAttr.name
        ((findName GroupAttr.all GroupAttr.name w).getD .unsupported).name).getD .unsupported =
        (findName GroupAttr.all GroupAttr.name w).getD .unsupported := by
  generalize (findName GroupAttr.all GroupAttr.name w).getD .unsupported = g
  revert g
  have hall : ∀ g : GroupAttr, g ∈ [GroupAttr.fid, .ls, .anat, .unsupported] := by
    intro g
    cases g <;> decide
  have hcheck : ∀ g ∈ [GroupAttr.fid, .ls, .anat, .unsupported], isWord blanks maxStringLen g.name = true ∧
        (findName GroupAttr.all GroupAttr.name g.name).getD .unsupported = g := by
    decide
  exact fun g => hcheck g (hall g)

/-- An `a=group` line is read back exactly when no identifier is zero. -/
theorem roundTrips_group (hlevel : d.hasLevel level)
    (h : (parsePlain conf .group body m).1 = .ok a) :
    RoundTrips conf level d n u a ↔ ∀ v ∈ numbersOf maxGroupStreamId (words body).tail, v ≠ 0 := by
  obtain ⟨w, ws, hws, rfl⟩ := reads_of_parsePlain rfl reads_group h
  obtain ⟨hword, hname⟩ := group_readsBack w
  rw [hws, List.tail_cons]
  have hlen := length_numbersOf_le maxGroupStreamId ws
  generalize numbersOf maxGroupStreamId ws = l at hlen ⊢
  generalize (findName GroupAttr.all GroupAttr.name w).getD .unsupported = g at hword hname ⊢
  have hlen' : (l.filter (0 < ·)).length ≤ maxGroupStreamId :=
    Nat.le_trans (List.length_filter_le _ _) hlen
  have hwords : ∀ v ∈ g.name :: (l.filter (0 < ·)).map (fun v => decimal v.toNat),
      isWord blanks maxStringLen v = true := by
    intro v hv
    rcases List.mem_cons.mp hv with rfl | hv
    · exact hword
    · obtain ⟨v, -, rfl⟩ := List.mem_map.mp hv
      exact isWord_decimal_toNat v
  have hprints : Prints (.group { groupAttr := g, groupIds := l }) _ := prints_spaced rfl hwords (by
    simp [emitted, buildAttr, fmt, Attr.type, spaced, List.flatMap_def, Function.comp_def])
  rw [roundTrips_iff_reads hlevel rfl reads_group hprints]
  constructor
  · rintro ⟨w', ws', hcons, heq⟩ v hv rfl
    obtain ⟨-, rfl⟩ := List.cons.inj hcons
    rw [numbersOf_decimal hlen'] at heq
    have hfilter : l = l.filter (0 < ·) := congrArg Group.groupIds (Attr.group.inj heq)
    rw [hfilter] at hv
    exact absurd (List.mem_filter.mp hv).2 (by decide)
  · intro hne
    have hfilter : l.filter (0 < ·) = l := by
      refine List.filter_eq_self.mpr fun v hv => ?_
      simpa [UInt16.pos_iff_ne_zero] using hne v hv
    refine ⟨_, _, rfl, ?_⟩
    rw [hname, hfilter, numbersOf_decimal hlen]

/-! ## Packetization intervals -/

/-- The intervals at the front of some words; a word that starts with a hyphen is the interval 0. -/
def intervalsOf (k : ℕ) (ws : List CStr) : List UInt16 :=
  (valuesUpTo numOrNull k ws).map fun v => v.1.toUInt16

theorem reads_mptime : Reads parseAttrMptime fun ws a =>
    intervalsOf maxPayloadTypes ws ≠ [] ∧ a = .mptime (intervalsOf maxPayloadTypes ws) := by
  refine Reads.values (P := fun l (a : Attr) => l ≠ [] ∧ a = .mptime l)
    (run_getNextNumTokOrNull blanks) rfl (fun k => ?_) (fun l => ?_) _
  · rw [parseIntervals]
    refine congrArg _ (funext fun o => ?_)
    rcases o with _ | ⟨v, null⟩ <;> rfl
  · cases l with
    | nil => exact Reads.invalid.congr fun ws a => by simp
    | cons v l => exact (Reads.pure _).congr fun ws a => by simp

def intervalText (v : UInt16) : CStr := if v = 0 then "-" else decimal v.toNat

theorem isWord_intervalText (v : UInt16) :
    isWord blanks maxStringLen (intervalText v) = true ∧ (intervalText v).length ≤ 5 := by
  rw [intervalText]
  split_ifs
  · decide
  · exact ⟨isWord_decimal_toNat v, length_decimal_le (by decide) (Nat.lt_of_lt_of_le v.toNat_lt (by decide))⟩

theorem intervalsOf_text {k : ℕ} (hl : l.length ≤ k) : intervalsOf k (l.map intervalText) = l := by
  refine valuesUpTo_map (fun v _ => ?_) hl
  rw [intervalText]
  split_ifs with hv
  · rw [hv]
    rfl
  · rw [numOrNull_decimal, Option.map_some, toUInt16_ofNat_toNat]

theorem mptimeTexts_of_ne (hl : ∀ v ∈ l, v ≠ 0) : (mptimeTexts false l).flatten = spaced ' ' (l.map intervalText) := by
  induction l with
  | nil => rfl
  | cons v l ih =>
    obtain ⟨hv, hl⟩ := List.forall_mem_cons.mp hl
    simp [mptimeTexts, intervalText, hv, ih hl]

/-- A zero is glued to the word in front of it, so that there are no more words than the intervals
other than zero. -/
theorem length_words_mptime (hw : isWord blanks maxStringLen w = true)
    (hl : l.length ≤ 60) (hlen : w.length + l.length ≤ maxStringLen) {r : CStr}
    (hr : atEol r) :
    (words (w ++ ((mptimeTexts false l).flatten ++ r))).length ≤ 1 + (l.filter (· ≠ 0)).length := by
  induction l generalizing w with
  | nil =>
    have hone : words (w ++ r) = w :: tokens blanks maxStringLen r := tokens_word (by decide) hw (Or.inl hr)
    rw [tokens_eol hr] at hone
    simp [mptimeTexts, hone]
  | cons v l ih =>
    rw [List.length_cons] at hl hlen
    by_cases hv : v = 0
    · have hglued : isWord blanks maxStringLen (w ++ ['-']) = true := by
        obtain ⟨-, -, hplain⟩ := isWord_iff.mp hw
        refine isWord_iff.mpr ⟨by simp, by rw [List.length_append]; simp; omega, fun c hc => ?_⟩
        rcases List.mem_append.mp hc with hc | hc
        · exact hplain c hc
        · obtain rfl := List.mem_singleton.mp hc
          decide
      have hrec := ih hglued (by omega) (by rw [List.length_append]; simp; omega)
      rw [List.append_assoc] at hrec
      simpa [mptimeTexts, hv] using hrec
    · obtain ⟨hword, hfive⟩ := isWord_intervalText v
      have hrec := ih hword (by omega) (by simp only [maxStringLen]; omega)
      have hfirst : words (w ++ ' ' :: (intervalText v ++
            ((mptimeTexts false l).flatten ++ r))) = w :: tokens blanks maxStringLen _ :=
        tokens_word (by decide) hw (Or.inr List.mem_cons_self)
      rw [tokens_delim (by decide) (by decide) (by decide)] at hfirst
      have htext : (mptimeTexts false (v :: l)).flatten = ' ' :: (intervalText v ++ (mptimeTexts false l).flatten) := by
        simp [mptimeTexts, intervalText, hv]
      have hfilter : ((v :: l).filter (· ≠ 0)).length = (l.filter (· ≠ 0)).length + 1 := by
        rw [List.filter_cons_of_pos (by simpa using hv), List.length_cons]
      rw [htext, List.cons_append, List.append_assoc, hfirst, List.length_cons, hfilter]
      rw [words] at hrec
      omega

/-- An `a=mptime` line is read back exactly when no interval but the first is zero. -/
theorem roundTrips_mptime (hlevel : d.hasLevel level) (h : (parsePlain conf .mptime body m).1 = .ok a) :
    RoundTrips conf level d n u a ↔ ∀ v ∈ (intervalsOf maxPayloadTypes (words body)).tail, v ≠ 0 := by
  obtain ⟨hne, ha⟩ := reads_of_parsePlain rfl reads_mptime h
  have hlen : (intervalsOf maxPayloadTypes (words body)).length ≤ maxPayloadTypes := by
    rw [intervalsOf, List.length_map]
    exact length_valuesUpTo_le.1
  generalize intervalsOf maxPayloadTypes (words body) = l at hne ha hlen ⊢
  subst ha
  obtain ⟨v, l, rfl⟩ := List.exists_cons_of_ne_nil hne
  rw [List.length_cons, maxPayloadTypes] at hlen
  obtain ⟨hword, hfive⟩ := isWord_intervalText v
  have hv : emitted (.mptime (v :: l)) = fmt ["a=", PlainType.mptime.name, ":",
      intervalText v ++ ((mptimeTexts false l).flatten ++ crlf)] := by
    have htext : ∀ name first : CStr,
        (fmt [fmt ["a=", name], ":"] :: (first :: mptimeTexts false l) ++ [crlf]).flatten =
        fmt ["a=", name, ":", first ++ ((mptimeTexts false l).flatten ++ crlf)] := by
      intro name first
      simp [fmt]
    exact htext _ (intervalText v)
  have hread : RoundTrips conf level d n u (.mptime (v :: l)) ↔ _ := roundTrips_iff_run hlevel rfl rfl hv
  rw [hread, reads_mptime, List.append_assoc, List.append_assoc, List.tail_cons]
  constructor
  · rintro ⟨⟨-, heq⟩, -⟩ x hx rfl
    have hcount := length_words_mptime (l := l) hword (by omega)
      (by rw [maxStringLen]; omega) (r := crlf ++ u) rfl
    have hvalues := congrArg List.length (Attr.mptime.inj heq)
    rw [intervalsOf, List.length_map, List.length_cons] at hvalues
    have hless : (l.filter (· ≠ 0)).length < l.length := by
      refine List.length_filter_lt_length_iff_exists.mpr ⟨0, hx, by decide⟩
    have hle : (valuesUpTo numOrNull maxPayloadTypes
        (words (intervalText v ++ ((mptimeTexts false l).flatten ++ (crlf ++ u))))).length ≤ _ :=
      length_valuesUpTo_le.2
    omega
  · intro htail
    rw [mptimeTexts_of_ne htail]
    have hwords : ∀ w ∈ intervalText v :: l.map intervalText, isWord blanks maxStringLen w = true := by
      intro w hw
      obtain ⟨x, -, rfl⟩ := List.mem_map.mp (show w ∈ (v :: l).map intervalText from hw)
      exact (isWord_intervalText x).1
    have hall : words (intervalText v ++ (spaced ' ' (l.map intervalText) ++ (crlf ++ u))) =
        (v :: l).map intervalText :=
      tokens_word_spaced (by decide) (by decide) (by decide) hwords rfl
    have hback : intervalsOf maxPayloadTypes ((v :: l).map intervalText) = v :: l :=
      intervalsOf_text (by rw [List.length_cons, maxPayloadTypes]; omega)
    rw [hall]
    exact ⟨⟨by rw [hback]; exact hne, by rw [hback]⟩, rfl⟩

/-! ## Addresses -/

theorem nettype_readsBack : readsBack Nettype.all Nettype.name = true := by decide

theorem addrtype_readsBack : readsBack Addrtype.all Addrtype.name = true := by decide

theorem findNettype_name {nettype : Nettype} (h : findNettype conf w = some nettype) :
    isWord blanks maxStringLen nettype.name = true ∧ findNettype conf nettype.name = some nettype := by
  obtain ⟨hfind, hsupported⟩ := Option.filter_eq_some_iff.mp h
  have hmem := mem_of_findName hfind
  refine ⟨isWord_name nettype_readsBack hmem, ?_⟩
  rw [findNettype, findName_name nettype_readsBack hmem]
  exact Option.filter_eq_some_iff.mpr ⟨rfl, hsupported⟩

theorem findAddrtype_name {addrtype : Addrtype} (h : findAddrtype conf w = some addrtype) :
    isWord blanks maxStringLen addrtype.name = true ∧ findAddrtype conf addrtype.name = some addrtype := by
  obtain ⟨hfind, hsupported⟩ := Option.filter_eq_some_iff.mp h
  have hmem := mem_of_findName hfind
  refine ⟨isWord_name addrtype_readsBack hmem, ?_⟩
  rw [findAddrtype, findName_name addrtype_readsBack hmem]
  exact Option.filter_eq_some_iff.mpr ⟨rfl, hsupported⟩

/-- The address type of a source filter: a star stands for a domain name. -/
def filterAddrtype (conf : Conf) (w : CStr) : Option Addrtype :=
  (findAddrtype conf w).or (if peek w = '*' then some .fqdn else none)

theorem filterAddrtype_name {addrtype : Addrtype} (h : filterAddrtype conf w = some addrtype) :
    isWord blanks maxStringLen addrtype.name = true ∧ filterAddrtype conf addrtype.name = some addrtype := by
  rw [filterAddrtype] at h
  cases hfind : findAddrtype conf w with
  | some t =>
    rw [hfind, Option.some_or] at h
    obtain rfl := Option.some.inj h
    obtain ⟨hword, hback⟩ := findAddrtype_name hfind
    exact ⟨hword, by rw [filterAddrtype, hback, Option.some_or]⟩
  | none =>
    rw [hfind, Option.none_or] at h
    split_ifs at h
    obtain rfl := Option.some.inj h
    have hnone : findName Addrtype.all Addrtype.name Addrtype.fqdn.name = none := by decide
    refine ⟨by decide, ?_⟩
    rw [filterAddrtype, findAddrtype, hnone, Option.filter_none, Option.none_or]
    rfl

theorem srcFilterMode_readsBack : readsBack SrcFilterMode.all SrcFilterMode.name = true := by
  decide

theorem reads_sourceFilter : Reads (parseAttrSourceFilter conf) fun ws a =>
    ∃ w ws₁ mode, ws = w :: ws₁ ∧ findName SrcFilterMode.all SrcFilterMode.name w = some mode ∧
    ∃ w₁ ws₂ nettype, ws₁ = w₁ :: ws₂ ∧ findNettype conf w₁ = some nettype ∧
    ∃ w₂ ws₃ addrtype, ws₂ = w₂ :: ws₃ ∧ filterAddrtype conf w₂ = some addrtype ∧
    ∃ destAddr ws₄, ws₃ = destAddr :: ws₄ ∧
    ∃ src ws₅, ws₄ = src :: ws₅ ∧ a = .sourceFilter { mode, nettype, addrtype, destAddr, srcList := [src] } := by
  refine Reads.named fun mode => Reads.named fun nettype => Reads.named fun addrtype =>
    Reads.word fun destAddr => ?_
  -- one source is read at most
  have hone : parseStrs maxSrcAddrList = getNextStrTok blanks >>= fun o =>
      match o with
      | none => pure []
      | some s => pure [s] := by
    rw [maxSrcAddrList, parseStrs]
    refine congrArg _ (funext fun o => ?_)
    cases o <;> rfl
  rw [hone, LineParser.bind_assoc]
  refine (Reads.optWord (P := fun o _ (a : Attr) => ∃ src, o = some src ∧
      a = .sourceFilter { mode, nettype, addrtype, destAddr, srcList := [src] })
    fun o => ?_).congr fun ws a => ?_
  · cases o with
    | none => exact Reads.invalid.congr fun ws a => by simp
    | some src => exact (Reads.pure _).congr fun ws a => by simp
  · cases ws with
    | nil => simp
    | cons src ws => simp

theorem roundTrips_sourceFilter (hlevel : d.hasLevel level)
    (h : (parsePlain conf .sourceFilter body m).1 = .ok a) : RoundTrips conf level d n u a := by
  obtain ⟨w, ws₁, mode, hws, hmode, w₁, ws₂, nettype, rfl, hnettype, w₂, ws₃, addrtype, rfl,
    haddrtype, destAddr, ws₄, rfl, src, ws₅, rfl, rfl⟩ :=
    reads_of_parsePlain rfl reads_sourceFilter h
  have hmode := mem_of_findName hmode
  obtain ⟨hnetword, hnettype⟩ := findNettype_name hnettype
  obtain ⟨haddrword, haddrtype⟩ := filterAddrtype_name haddrtype
  have hmem : ∀ v, v ∈ words body → isWord blanks maxStringLen v = true :=
    fun v hv => isWord_of_mem_tokens (by decide) hv
  have hwords : ∀ v ∈ [mode.name, nettype.name, addrtype.name, destAddr, src], isWord blanks maxStringLen v = true := by
    intro v hv
    simp only [List.mem_cons, List.not_mem_nil, or_false] at hv
    rcases hv with rfl | rfl | rfl | rfl | rfl
    · exact isWord_name srcFilterMode_readsBack hmode
    · exact hnetword
    · exact haddrword
    · exact hmem _ (by simp [hws])
    · exact hmem _ (by simp [hws])
  refine (roundTrips_iff_reads hlevel rfl reads_sourceFilter (prints_spaced rfl hwords ?_)).mpr ?_
  · simp [emitted, buildAttr, fmt, Attr.type]
  · exact ⟨_, _, mode, rfl, findName_name srcFilterMode_readsBack hmode, _, _, nettype, rfl,
      hnettype, _, _, addrtype, rfl, haddrtype, destAddr, _, rfl, src, _, rfl, rfl⟩

/-- The address and the prefix length in the third word of a subnet. Without a slash there is no
prefix length. -/
def subnetOf (w : CStr) : Option (CStr × UInt32) :=
  if peek (findChar "/" w) = '/' then
    let num := (numTokAt blanks (findChar "/" w).tail).1
    if num.2 then some (beforeChar "/" w, num.1) else none
  else some (w, invalidValue)

theorem reads_subnet : Reads (parseAttrSubnet conf) fun ws a =>
    ∃ w ws₁ nettype, ws = w :: ws₁ ∧ findNettype conf w = some nettype ∧
    ∃ w₁ ws₂ addrtype, ws₁ = w₁ :: ws₂ ∧ findAddrtype conf w₁ = some addrtype ∧
    ∃ w₂ ws₃, ws₂ = w₂ :: ws₃ ∧
    ∃ addr, subnetOf w₂ = some addr ∧ a = .subnet { nettype, addrtype, addr := addr.1, prefixLen := addr.2 } := by
  refine Reads.named fun nettype => Reads.named fun addrtype => Reads.word fun addr => ?_
  refine (Reads.ite (Reads.orInvalid fun _ _ => Reads.pure _) (Reads.pure _)).congr fun ws a => ?_
  rw [subnetOf]
  split_ifs with hslash hnum
  · simp only [hnum, if_true, Option.some.injEq, exists_eq_left']
  · simp [hnum, -String.reduceToList]
  · simp

/-- The prefix length in the third word of a subnet can be printed: it has 16 bits, or it is the
value that stands for no prefix length, behind an address. -/
def PrefixFits (w : CStr) : Prop :=
  ∀ addr, subnetOf w = some addr → addr.2.toNat < 65536 ∨ addr.2 = invalidValue ∧ addr.1 ≠ []

variable {addr : CStr}

theorem split_slash (hplain : ∀ c ∈ addr, c ≠ nul ∧ c ≠ '/') (s : CStr) :
    findChar "/" (addr ++ '/' :: s) = '/' :: s ∧ beforeChar "/" (addr ++ '/' :: s) = addr := by
  induction addr with
  | nil => exact ⟨by simp [findChar], by simp [beforeChar]⟩
  | cons c addr ih =>
    obtain ⟨⟨hnul, hslash⟩, hplain⟩ := List.forall_mem_cons.mp hplain
    obtain ⟨hfind, hbefore⟩ := ih hplain
    have hc : ¬ (c = nul ∨ c ∈ "/".toList) := by simp [hnul, hslash]
    exact ⟨by rw [List.cons_append, findChar, if_neg hc, hfind],
      by rw [List.cons_append, beforeChar, if_neg hc, hbefore]⟩

theorem no_slash (hplain : ∀ c ∈ addr, c ≠ nul ∧ c ≠ '/') : findChar "/" addr = [] := by
  induction addr with
  | nil => rfl
  | cons c addr ih =>
    obtain ⟨⟨hnul, hslash⟩, hplain⟩ := List.forall_mem_cons.mp hplain
    have hc : ¬ (c = nul ∨ c ∈ "/".toList) := by simp [hnul, hslash]
    rw [findChar, if_neg hc, ih hplain]

theorem slash_cases (hw : nul ∉ w) : (∀ c ∈ w, c ≠ nul ∧ c ≠ '/') ∨
      ∃ addr s, w = addr ++ '/' :: s ∧ ∀ c ∈ addr, c ≠ nul ∧ c ≠ '/' := by
  induction w with
  | nil => exact Or.inl fun c hc => nomatch hc
  | cons c w ih =>
    rw [List.mem_cons, not_or] at hw
    by_cases hc : c = '/'
    · exact Or.inr ⟨[], w, by rw [hc]; rfl, fun c hc => nomatch hc⟩
    · have hplain : c ≠ nul ∧ c ≠ '/' := ⟨fun h => hw.1 h.symm, hc⟩
      rcases ih hw.2 with hall | ⟨addr, s, rfl, hall⟩
      · exact Or.inl (List.forall_mem_cons.mpr ⟨hplain, hall⟩)
      · exact Or.inr ⟨c :: addr, s, rfl, List.forall_mem_cons.mpr ⟨hplain, hall⟩⟩

theorem subnetOf_plain (hplain : ∀ c ∈ w, c ≠ nul ∧ c ≠ '/') : subnetOf w = some (w, invalidValue) := by
  have hpeek : ¬ peek (findChar "/" w) = '/' := by
    rw [no_slash hplain]
    decide
  rw [subnetOf, if_neg hpeek]

theorem subnetOf_slash {s : CStr} (hplain : ∀ c ∈ addr, c ≠ nul ∧ c ≠ '/') (hs : isWord blanks maxStringLen s = true) :
    subnetOf (addr ++ '/' :: s) = (numOf s).map fun v => (addr, v) := by
  obtain ⟨hfind, hbefore⟩ := split_slash hplain s
  have hnum : numTokAt blanks s = (numVal s, []) := by
    have htok : Line.token blanks maxStringLen s = (some s, []) := by
      have happend := token_word hs (r := []) (Or.inl rfl)
      rwa [List.append_nil] at happend
    rw [numTokAt, htok]
  rw [subnetOf, hfind, hbefore, if_pos (show peek ('/' :: s) = '/' from rfl), List.tail_cons, hnum, numOf]
  dsimp only
  split_ifs <;> rfl

theorem subnetOf_eq_some (hw : isWord blanks maxStringLen w = true) {v : UInt32} (h : subnetOf w = some (addr, v)) :
    (∀ c ∈ addr, c ≠ nul ∧ c ≠ '/') ∧ (∀ c ∈ addr, isEol c = false ∧ c ∉ blanks) ∧ addr.length ≤ maxStringLen ∧
      (v ≠ invalidValue → addr.length + 1 + (decimal v.toUInt16.toNat).length ≤ maxStringLen) := by
  obtain ⟨hne, hlen, hclean⟩ := isWord_iff.mp hw
  have hnul : nul ∉ w := by
    intro hmem
    have heol := (hclean nul hmem).1
    cases heol
  rcases slash_cases hnul with hplain | ⟨addr', s, rfl, hplain⟩
  · rw [subnetOf_plain hplain] at h
    obtain ⟨rfl, rfl⟩ := Prod.mk.inj (Option.some.inj h)
    exact ⟨hplain, hclean, hlen, fun hv => absurd rfl hv⟩
  · have haddr : ∀ c ∈ addr', isEol c = false ∧ c ∉ blanks := fun c hc => hclean c (List.mem_append_left _ hc)
    rw [List.length_append, List.length_cons] at hlen
    cases s with
    | nil =>
      -- a slash at the end of the word has no number behind it
      obtain ⟨hfind, -⟩ := split_slash hplain []
      rw [subnetOf, hfind] at h
      cases h
    | cons c s =>
      have hs : isWord blanks maxStringLen (c :: s) = true := isWord_iff.mpr ⟨List.cons_ne_nil c s, by omega,
          fun x hx => hclean x (List.mem_append_right _ (List.mem_cons_of_mem _ hx))⟩
      rw [List.length_cons] at hlen
      rw [subnetOf_slash hplain hs, numOf] at h
      split_ifs at h with hnum
      case neg => cases h
      obtain ⟨rfl, rfl⟩ := Prod.mk.inj (Option.some.inj h)
      have hdigits : ∀ x ∈ c :: s, x.isDigit = true := List.all_eq_true.mp hnum
      have hval : (numVal (c :: s)).1.toUInt16.toNat < 10 ^ (c :: s).length := by
        have hlt := digitsVal_lt hdigits
        rw [numVal, List.takeWhile_eq_self_iff.mpr hdigits, UInt32.toNat_toUInt16, UInt32.toNat_ofNat']
        omega
      have hdec := length_decimal_le (Nat.succ_pos _) hval
      exact ⟨hplain, haddr, by omega, fun _ => by omega⟩

/-- An `a=subnet` line is read back exactly when its prefix length can be printed. -/
theorem roundTrips_subnet (hlevel : d.hasLevel level) (h : (parsePlain conf .subnet body m).1 = .ok a) :
    RoundTrips conf level d n u a ↔ ∀ w ∈ (words body)[2]?, PrefixFits w := by
  obtain ⟨w, ws₁, nettype, hws, hnettype, w₁, ws₂, addrtype, rfl, haddrtype, w₂, ws₃, rfl,
    ⟨addr, v⟩, hsubnet, rfl⟩ := reads_of_parsePlain rfl reads_subnet h
  obtain ⟨hnetword, hnettype⟩ := findNettype_name hnettype
  obtain ⟨haddrword, haddrtype⟩ := findAddrtype_name haddrtype
  have hw₂ : isWord blanks maxStringLen w₂ = true :=
    isWord_of_mem_tokens (by decide) (s := body) (by change w₂ ∈ words body; simp [hws])
  obtain ⟨hplain, hclean, hlen, hroom⟩ := subnetOf_eq_some hw₂ hsubnet
  have hfits : (∀ w ∈ (words body)[2]?, PrefixFits w) ↔ (v.toNat < 65536 ∨ v = invalidValue ∧ addr ≠ []) := by
    rw [hws]
    simp [PrefixFits, hsubnet]
  rw [hfits]
  have haddr : ∀ c ∈ addr, isEol c = false ∧ c ∉ blanks := hclean
  by_cases hv : v = invalidValue
  · -- the prefix length is left out
    subst hv
    have hemit : emitted (.subnet { nettype, addrtype, addr, prefixLen := invalidValue }) =
        fmt ["a=", PlainType.subnet.name, ":", nettype.name, " ", addrtype.name, " ", addr, crlf] := by
      simp [emitted, buildAttr, fmt, Attr.type]
    have hlarge : ¬ invalidValue.toNat < 65536 := by decide
    by_cases hne : addr = []
    · subst hne
      refine iff_of_false (fun hround => ?_) (by simp [hlarge])
      -- without its address the line has two words
      have hprints : Prints (.subnet { nettype, addrtype, addr := [], prefixLen := invalidValue })
          [nettype.name, addrtype.name] := by
        refine ⟨rfl, nettype.name ++ (' ' :: (addrtype.name ++ ' ' :: crlf)), ?_, fun u => ?_⟩
        · rw [hemit]
          simp [fmt, Attr.type]
        · have hsecond : words (addrtype.name ++ ' ' :: (crlf ++ u)) = [addrtype.name] :=
            (tokens_word (by decide) haddrword (Or.inr List.mem_cons_self)).trans
              (congrArg _ ((tokens_delim (by decide) (by decide) (by decide) _).trans
                (tokens_eol rfl)))
          have hfirst : words (nettype.name ++ ' ' :: (addrtype.name ++ ' ' :: (crlf ++ u))) =
              nettype.name :: words (addrtype.name ++ ' ' :: (crlf ++ u)) :=
            (tokens_word (by decide) hnetword (Or.inr List.mem_cons_self)).trans
              (congrArg _ (tokens_delim (by decide) (by decide) (by decide) _))
          simpa [hsecond] using hfirst
      obtain ⟨_, _, _, hcons, -, _, _, _, hcons', -, _, _, hcons'', -⟩ :=
        (roundTrips_iff_reads hlevel rfl reads_subnet hprints).mp hround
      obtain ⟨-, rfl⟩ := List.cons.inj hcons
      obtain ⟨-, rfl⟩ := List.cons.inj hcons'
      cases hcons''
    · refine iff_of_true ?_ (Or.inr ⟨rfl, hne⟩)
      have hwords : ∀ v ∈ [nettype.name, addrtype.name, addr], isWord blanks maxStringLen v = true := by
        intro v hv
        simp only [List.mem_cons, List.not_mem_nil, or_false] at hv
        rcases hv with rfl | rfl | rfl
        · exact hnetword
        · exact haddrword
        · exact isWord_iff.mpr ⟨hne, hlen, haddr⟩
      refine (roundTrips_iff_reads hlevel rfl reads_subnet (prints_spaced rfl hwords ?_)).mpr ?_
      · rw [hemit]
        simp [fmt, Attr.type]
      · exact ⟨_, _, nettype, rfl, hnettype, _, _, addrtype, rfl, haddrtype, _, _, rfl, _, subnetOf_plain hplain, rfl⟩
  · -- the low 16 bits of the prefix length are printed
    have hdigits : isWord blanks maxStringLen (decimal v.toUInt16.toNat) = true := isWord_decimal_toNat v.toUInt16
    have hword : isWord blanks maxStringLen (addr ++ '/' :: decimal v.toUInt16.toNat) = true := by
      have hroom := hroom hv
      refine isWord_iff.mpr ⟨by simp, by rw [List.length_append, List.length_cons]; omega,
        fun c hc => ?_⟩
      rcases List.mem_append.mp hc with hc | hc
      · exact haddr c hc
      · rcases List.mem_cons.mp hc with rfl | hc
        · decide
        · exact (isWord_iff.mp hdigits).2.2 c hc
    have hwords : ∀ w ∈ [nettype.name, addrtype.name, addr ++ '/' :: decimal v.toUInt16.toNat],
        isWord blanks maxStringLen w = true := by
      intro w hw
      simp only [List.mem_cons, List.not_mem_nil, or_false] at hw
      rcases hw with rfl | rfl | rfl
      · exact hnetword
      · exact haddrword
      · exact hword
    have hemit : emitted (.subnet { nettype, addrtype, addr, prefixLen := v }) =
        fmt ["a=", PlainType.subnet.name, ":", nettype.name,
          spaced ' ' [addrtype.name, addr ++ '/' :: decimal v.toUInt16.toNat], crlf] := by
      have htext : ∀ name digits : CStr, ([fmt [fmt ["a=", name], ":", nettype.name, " ", addrtype.name, " ", addr]] ++
            (if v = invalidValue then [] else [fmt ["/", digits]]) ++ [crlf]).flatten =
          fmt ["a=", name, ":", nettype.name, spaced ' ' [addrtype.name, addr ++ '/' :: digits], crlf] := by
        intro name digits
        rw [if_neg hv]
        simp [fmt]
      exact htext _ (decimal v.toUInt16.toNat)
    rw [roundTrips_iff_reads hlevel rfl reads_subnet (prints_spaced rfl hwords hemit)]
    have hback : subnetOf (addr ++ '/' :: decimal v.toUInt16.toNat) = some (addr, UInt32.ofNat v.toUInt16.toNat) := by
      rw [subnetOf_slash hplain hdigits, numOf_decimal, Option.map_some]
    have hsame : UInt32.ofNat v.toUInt16.toNat = v ↔ v.toNat < 65536 := by
      rw [← UInt32.toNat_inj, UInt32.toNat_ofNat', UInt32.toNat_toUInt16]
      have hvlt := v.toNat_lt
      omega
    constructor
    · rintro ⟨_, _, _, hcons, -, _, _, _, hcons', -, _, _, hcons'', _, hsome, heq⟩
      obtain ⟨-, rfl⟩ := List.cons.inj hcons
      obtain ⟨-, rfl⟩ := List.cons.inj hcons'
      obtain ⟨rfl, -⟩ := List.cons.inj hcons''
      rw [hback] at hsome
      obtain rfl := Option.some.inj hsome
      exact Or.inl (hsame.mp (congrArg Subnet.prefixLen (Attr.subnet.inj heq)).symm)
    · rintro (hfit | ⟨hinvalid, -⟩)
      · exact ⟨_, _, nettype, rfl, hnettype, _, _, addrtype, rfl, haddrtype, _, _, rfl, _, hback,
          by rw [hsame.mpr hfit]⟩
      · exact absurd hinvalid hv

/-! ## All of them -/

/-- The list-valued and structured attributes. -/
def PlainType.structured : PlainType → Bool
  | .transportMap _ | .mptime | .group | .pcCodec | .sourceFilter | .subnet | .silencesupp | .qos _
  | .curr | .des | .conf | .rtr => true
  | _ => false

/-- What the words of a line have to be for its attribute to be printed as it was read: the
intervals of `a=mptime` behind the first and the identifiers of `a=group` are not zero in their 16
bits, the prefix length of `a=subnet` can be printed, and the status type of `a=curr`, `a=des` and
`a=conf` is one of the table. -/
def Reprints (t : PlainType) (body : CStr) : Prop :=
  match t with
  | .mptime => ∀ v ∈ (intervalsOf maxPayloadTypes (words body)).tail, v ≠ 0
  | .group => ∀ v ∈ numbersOf maxGroupStreamId (words body).tail, v ≠ 0
  | .subnet => ∀ w ∈ (words body)[2]?, PrefixFits w
  | .curr | .conf => NamesStatus (words body)[1]?
  | .des => NamesStatus (words body)[2]?
  | _ => True

end Sdp
