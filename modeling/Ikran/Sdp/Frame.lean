import Ikran.Sdp.Sections

/-!
# What a line is parsed from

The parse function of a line depends on the line, the options and the description. The exceptions
are the values of two plain attributes, `a=fmtp` and `a=direction`, on an `a=` line of their own or
in a capability parameter. Whatever holds of these values carries over to the line.
-/

namespace Sdp

open CStr Line

/-! ## Attribute lines -/

/-- The parser of the value in a line with this attribute name. -/
def plainBehind (d : Desc) (tmp : CStr) : Parser PlainType :=
  match findName AttrType.all AttrType.name tmp with
  | some (.plain t) => return t
  | some (.cpar t) => if (findCap t d).isSome then cparLine else invalidParameter
  | _ => invalidParameter

/-- An attribute line up to the value of its plain attribute, which stands there directly or as the
parameter of a capability. -/
def plainLine (d : Desc) : Parser PlainType := do
  match ← attrName with
  | some tmp => plainBehind d tmp
  | none => invalidParameter

/-- Two parse functions that started with the counts `n` and `n'` return the same, and have counted
the same number of errors. -/
structure AttrOutcome.Agree {α : Type} (n n' : UInt32) (r r' : AttrOutcome α) : Prop where
  outcome : r.1 = r'.1
  errors : r.2 - n = r'.2 - n'

variable {n n' : UInt32}

theorem AttrOutcome.Agree.exists_eq {α : Type} {r r' : AttrOutcome α}
    (h : r.Agree n n' r') : ∃ o k k', r = (o, k) ∧ r' = (o, k') ∧ k - n = k' - n' :=
  ⟨r.1, r.2, r'.2, rfl, by rw [h.outcome], h.errors⟩

variable {s s' : CStr}

theorem outcomeOf_agree {α : Type} (p : Parser α) (n n' : UInt32)
    (h : SameLine s s') : (outcomeOf p s n).Agree n n' (outcomeOf p s' n') :=
  ⟨p.outcome_eq n n' h, p.count_eq n n' h⟩

/-- The values of the plain attributes on two lines are parsed alike. -/
def PlainAgrees (conf : Conf) (d : Desc) (s s' : CStr) (n n' : UInt32) : Prop :=
  ∀ t, ((plainLine d).run s n).1 = .ok t →
    (parsePlain conf t ((plainLine d).run s n).2.1 ((plainLine d).run s n).2.2).Agree
      ((plainLine d).run s n).2.2 ((plainLine d).run s' n').2.2
      (parsePlain conf t ((plainLine d).run s' n').2.1 ((plainLine d).run s' n').2.2)

/-- The plain attribute is one of the two whose value is parsed from more than its line. -/
def PlainType.isOpen (t : PlainType) : Bool := t == .fmtp || t == .comediadir

theorem plainAgrees_of_isolated {conf : Conf} {d : Desc}
    (h : SameLine s s') (hopen : ∀ t, ((plainLine d).run s n).1 = .ok t → t.isOpen = true →
      (parsePlain conf t ((plainLine d).run s n).2.1 ((plainLine d).run s n).2.2).Agree
        ((plainLine d).run s n).2.2 ((plainLine d).run s' n').2.2
        (parsePlain conf t ((plainLine d).run s' n').2.1 ((plainLine d).run s' n').2.2)) :
    PlainAgrees conf d s s' n n' := by
  intro t ht
  cases hclosed : t.isOpen with
  | true => exact hopen t ht hclosed
  | false =>
    obtain ⟨hf, hc⟩ : t ≠ .fmtp ∧ t ≠ .comediadir := by simpa [PlainType.isOpen] using hclosed
    obtain ⟨hout, herr⟩ := parsePlain_isolated conf hf hc _ _  (((plainLine d).isolated n n' h).advance.sameLine h)
    exact ⟨hout, herr⟩

/-- What two lines do: the result, the description, and the number of errors. -/
structure LineAgrees (n n' : UInt32) (r r' : SdpResult × Desc × UInt32) : Prop where
  result : r.1 = r'.1
  desc : r.2.1 = r'.2.1
  errors : r.2.2 - n = r'.2.2 - n'

theorem offset_trans {m k m' k' : UInt32} (h : m - n = m' - n') (h' : k - m = k' - m') : k - n = k' - n' := by
  grind

theorem cparAttr_agree {conf : Conf} (h : SameLine s s') (hvalue : ∀ t, (cparLine.run s n).1 = .ok t →
      (parsePlain conf t (cparLine.run s n).2.1 (cparLine.run s n).2.2).Agree
        (cparLine.run s n).2.2 (cparLine.run s' n').2.2
        (parsePlain conf t (cparLine.run s' n').2.1 (cparLine.run s' n').2.2)) :
    (cparAttr conf s n).Agree n n' (cparAttr conf s' n') := by
  obtain ⟨hout, -, herr⟩ := cparLine.isolated n n' h
  unfold cparAttr
  rcases hs : cparLine.run s n with ⟨o, u, m⟩
  rcases hs' : cparLine.run s' n' with ⟨o', u', m'⟩
  rw [hs, hs'] at hout herr hvalue
  obtain rfl : o = o' := hout
  cases o with
  | error e => exact ⟨rfl, herr⟩
  | ok t =>
    obtain ⟨hvalue, herrors⟩ := hvalue t rfl
    exact ⟨hvalue, offset_trans herr herrors⟩

theorem parseAttribute_agrees {conf : Conf} {d : Desc} (level : Level) (h : SameLine s s')
    (hplain : d.hasLevel level = true → PlainAgrees conf d s s' n n') :
    LineAgrees n n' (parseAttribute conf level s d n) (parseAttribute conf level s' d n') := by
  unfold parseAttribute
  cases hlevel : d.hasLevel level with
  | false => exact ⟨rfl, rfl, by simp⟩
  | true =>
    simp only [if_true]
    replace hplain := hplain hlevel
    obtain ⟨hout, hmove, herr⟩ := attrName.isolated n n' h
    have hrest := hmove.sameLine h
    have hrun : ∀ s n, (plainLine d).run s n = attrName.run.bind (fun o => (match o with
          | some tmp => plainBehind d tmp
          | none => invalidParameter).run) s n := fun _ _ => rfl
    unfold PlainAgrees at hplain
    simp only [hrun, Scan.bind] at hplain
    rcases hs : attrName.run s n with ⟨o, u, m⟩
    rcases hs' : attrName.run s' n' with ⟨o', u', m'⟩
    rw [hs, hs'] at hout hrest herr hplain
    obtain rfl : o = o' := hout
    dsimp only at hrest herr
    have hcount : m + 1 - n = m' + 1 - n' := by grind
    rcases o with e | _ | tmp
    · exact ⟨rfl, rfl, hcount⟩
    · exact ⟨rfl, rfl, hcount⟩
    · dsimp only [plainBehind] at hplain ⊢
      cases htype : findName AttrType.all AttrType.name tmp with
      | none => exact ⟨rfl, rfl, herr⟩
      | some type =>
        rw [htype] at hplain
        cases type with
        | plain t =>
          obtain ⟨o, k, k', hp, hp', herrors⟩ := (hplain t rfl).exists_eq
          dsimp only [Pure.pure] at hp hp' ⊢
          rw [hp, hp']
          cases o <;> exact ⟨rfl, rfl, offset_trans herr herrors⟩
        | cap t =>
          obtain ⟨o, k, k', hp, hp', herrors⟩ := (outcomeOf_agree capLine m m' hrest).exists_eq
          dsimp only [parseAttrCap]
          rw [hp, hp']
          cases o <;> exact ⟨rfl, rfl, offset_trans herr herrors⟩
        | cpar t =>
          dsimp only [parseAttrCpar] at hplain ⊢
          cases hcap : findCap t d with
          | none => exact ⟨rfl, rfl, hcount⟩
          | some i =>
            rw [hcap] at hplain
            obtain ⟨o, k, k', hp, hp', herrors⟩ := (cparAttr_agree hrest hplain).exists_eq
            dsimp only
            rw [hp, hp']
            cases o <;> exact ⟨rfl, rfl, offset_trans herr herrors⟩

/-- What two lines with the same token do: the result, the description, the counts. -/
structure TokenAgrees (st st' : Stats) (r r' : SdpResult × Desc × Stats) : Prop where
  result : r.1 = r'.1
  desc : r.2.1 = r'.2.1
  errors : r.2.2.numInvalidParam - st.numInvalidParam = r'.2.2.numInvalidParam - st'.numInvalidParam
  stats : st = st' → r.2.2 = r'.2.2

theorem parseToken_agrees (conf : Conf) (tok : Token) (level : Level) (d : Desc) (st st' : Stats) (h : SameLine s s')
    (hplain : tok = .a → d.hasLevel level = true → PlainAgrees conf d s s' st.numInvalidParam st'.numInvalidParam) :
    TokenAgrees st st' (parseToken conf tok level s d st) (parseToken conf tok level s' d st') := by
  unfold parseToken
  have hsame : ∀ {m m' n n' : UInt32}, m - n = m' - n' → n = n' → m = m' := by
    grind
  cases hline : tokenLine conf tok level d with
  | none =>
    have htok : tok = .a := by cases tok <;> first | rfl | cases hline
    obtain ⟨hres, hdesc, herr⟩ := parseAttribute_agrees level h (hplain htok)
    refine ⟨hres, hdesc, herr, ?_⟩
    rintro rfl
    exact congrArg (fun n => { st with numInvalidParam := n }) (hsame herr rfl)
  | some p =>
    obtain ⟨o, k, k', hp, hp', herrors⟩ := (outcomeOf_agree p st.numInvalidParam st'.numInvalidParam h).exists_eq
    dsimp only
    rw [hp, hp']
    cases o with
    | error e =>
      refine ⟨rfl, rfl, herrors, ?_⟩
      rintro rfl
      rw [hsame herrors rfl]
    | ok a =>
      refine ⟨rfl, rfl, herrors, ?_⟩
      rintro rfl
      rw [hsame herrors rfl]

theorem Visit.after_desc_of_attr (conf : Conf) {v : Visit} (hparsed : v.Parsed) (htok : v.tok = .a) :
    (v.after conf).desc = (parseAttribute conf v.before.curLevel (v.text.drop 2) v.before.desc
      v.before.stats.numInvalidParam).2.1 := by
  have hafter := congrArg Prod.snd (after_desc conf hparsed)
  have hcount : (v.checked conf).stats.numInvalidParam = v.before.stats.numInvalidParam :=
    (checkOrder_desc conf v.tok v.before).2.2
  rw [htok] at hafter
  simpa only [parseToken, tokenLine, hcount] using hafter

end Sdp
