import Ikran.Sdp.Copy
import Ikran.Sdp.Render

/-!
# What a copy says

The lines of a copy compared with those of the original. The condition `Desc.Copied` lists the
values that `sdp_copy` replaces by zero although a build function prints them.
-/

namespace Sdp

open CStr BoundedPrint

/-! ## Attributes -/

/-- Nothing that the line of an attribute shows is lost in its copy. -/
def Attr.Copied : Attr → Prop
  | .simpleU32 .sqn v | .simpleU32 .framerate v => v = 0
  | .mptime intervals => intervals = []
  | .transportMap .sprtmap v =>
    v.payloadNum = 0 ∧ v.clockrate = 0 ∧
      (v.encname = [] ∧ v.numChan = 0 ∨ v.encname = "/0" ∧ v.numChan = 1)
  | .fmtp f =>
    match f.fmtpFormat with
    | .mode => f.mode = 0
    | .codecInfo => f.levelAsymmetryAllowed = 0
    | .nte | .unknownType => True
  | _ => True

theorem attrText_simpleU32_iff (t : U32Attr) (v : UInt32) :
    attrText (.simpleU32 t 0) = attrText (.simpleU32 t v) ↔ v = 0 := by
  simp only [attrText, buildAttr, Attr.type, fmt, List.flatten_cons, List.flatten_nil,
    List.append_nil, List.append_assoc, List.append_cancel_left_eq]
  rw [decimal_append_inj (by decide) (by decide), and_iff_left rfl, eq_comm]
  exact UInt32.toNat_inj (b := 0)

theorem attrText_mptime_iff (intervals : List UInt16) :
    attrText (.mptime []) = attrText (.mptime intervals) ↔ intervals = [] := by
  refine ⟨fun h => ?_, fun h => by rw [h]⟩
  cases intervals with
  | nil => rfl
  | cons v vs =>
    exfalso
    have hlen := congrArg List.length h
    have hdec := List.length_pos_of_ne_nil (decimal_ne_nil v.toNat)
    by_cases hv : v = 0
    · simp [attrText, buildAttr, Attr.type, mptimeTexts, fmt, hv] at hlen
      omega
    · simp [attrText, buildAttr, Attr.type, mptimeTexts, fmt, hv] at hlen
      omega

theorem mapText_eq_iff (encname : CStr) (clockrate numChan : ℕ) :
    "/0/0\r\n".toList = encname ++ '/' :: (decimal clockrate ++
        if numChan = 1 then crlf else '/' :: (decimal numChan ++ crlf)) ↔
      clockrate = 0 ∧ (encname = [] ∧ numChan = 0 ∨ encname = "/0" ∧ numChan = 1) := by
  by_cases hchan : numChan = 1
  · have hzero : "/0/0\r\n".toList = ("/0".toList ++ '/' :: decimal 0) ++ crlf := by decide
    have hright : encname ++ '/' :: (decimal clockrate ++ crlf) =
        (encname ++ '/' :: decimal clockrate) ++ crlf := by simp
    rw [if_pos hchan, hzero, hright, List.append_cancel_right_eq, append_decimal_inj (by decide)]
    simp only [hchan, one_ne_zero, and_false, false_or, and_true]
    rw [and_comm, eq_comm, eq_comm (a := encname)]
  · have hzero : "/0/0\r\n".toList = (([] ++ '/' :: decimal 0) ++ '/' :: decimal 0) ++ crlf := by
      decide
    have hright : encname ++ '/' :: (decimal clockrate ++ '/' :: (decimal numChan ++ crlf)) =
        ((encname ++ '/' :: decimal clockrate) ++ '/' :: decimal numChan) ++ crlf := by simp
    rw [if_neg hchan, hzero, hright, List.append_cancel_right_eq, append_decimal_inj (by decide),
      append_decimal_inj (by decide)]
    simp only [hchan, and_false, or_false]
    constructor
    · rintro ⟨⟨henc, hclock⟩, hzero⟩
      exact ⟨hclock.symm, henc.symm, hzero.symm⟩
    · rintro ⟨hclock, henc, hzero⟩
      exact ⟨⟨henc.symm, hclock.symm⟩, hzero.symm⟩

theorem attrText_sprtmap_iff (v : TransportMap) :
    attrText (copyAttrFields (.transportMap .sprtmap v)) = attrText (.transportMap .sprtmap v) ↔
      (Attr.transportMap .sprtmap v).Copied := by
  have htext : ∀ v : TransportMap, attrText (.transportMap .sprtmap v) =
      "a=sprtmap:".toList ++ (decimal v.payloadNum.toNat ++ ' ' :: (v.encname ++ '/' :: (decimal v.clockrate.toNat ++
          if v.numChan.toNat = 1 then crlf else '/' :: (decimal v.numChan.toNat ++ crlf)))) := by
    intro v
    have hchan : v.numChan.toNat = 1 ↔ v.numChan = 1 := UInt16.toNat_inj (b := 1)
    simp only [attrText, buildAttr, Attr.type, hchan, fmt, List.flatten_cons, List.flatten_nil,
      List.append_nil, List.append_assoc]
    rfl
  rw [htext v, copyAttrFields, htext, List.append_cancel_left_eq, decimal_append_inj rfl rfl, List.cons_inj_right]
  have hmap := mapText_eq_iff v.encname v.clockrate.toNat v.numChan.toNat
  have hzero : ∀ a : UInt16, a.toNat = 0 ↔ a = 0 := fun a => UInt16.toNat_inj (b := 0)
  have hone : v.numChan.toNat = 1 ↔ v.numChan = 1 := UInt16.toNat_inj (b := 1)
  have hclock : v.clockrate.toNat = 0 ↔ v.clockrate = 0 := UInt32.toNat_inj (b := 0)
  rw [Attr.Copied, ← hzero v.payloadNum, ← hzero v.numChan, ← hone, ← hclock, ← hmap]
  exact and_congr_left' eq_comm

/-! ## Format parameters -/

theorem text_copyFmtp (f : Fmtp) {p : FmtpParam} (hp : p ≠ .levelAsymmetryAllowed) :
    FmtpParam.text (copyFmtp f) p = FmtpParam.text f p := by
  cases p with
  | levelAsymmetryAllowed => exact absurd rfl hp
  | _ => rfl

/-- The parameters printed in front of `level-asymmetry-allowed`. -/
def paramsBefore : List FmtpParam :=
  FmtpParam.printOrder.takeWhile (· ≠ .levelAsymmetryAllowed)

/-- The parameters printed behind `level-asymmetry-allowed`. -/
def paramsBehind : List FmtpParam :=
  (FmtpParam.printOrder.dropWhile (· ≠ .levelAsymmetryAllowed)).tail

theorem fmtpParams_eq (f : Fmtp) : fmtpParams f = paramsBefore.filterMap (FmtpParam.text f) ++
      ((FmtpParam.text f .levelAsymmetryAllowed).toList ++ paramsBehind.filterMap (FmtpParam.text f)) := by
  have horder : FmtpParam.printOrder = paramsBefore ++ [.levelAsymmetryAllowed] ++ paramsBehind := by
    decide
  rw [fmtpParams, horder, List.filterMap_append, List.filterMap_append, List.append_assoc]
  congr 2

theorem fmtpParams_copyFmtp (f : Fmtp) : fmtpParams (copyFmtp f) = paramsBefore.filterMap (FmtpParam.text f) ++
      ("level-asymmetry-allowed=0".toList :: paramsBehind.filterMap (FmtpParam.text f)) := by
  rw [fmtpParams_eq]
  have hcongr : ∀ l : List FmtpParam, .levelAsymmetryAllowed ∉ l →
      l.filterMap (FmtpParam.text (copyFmtp f)) = l.filterMap (FmtpParam.text f) := by
    intro l hl
    refine List.filterMap_congr fun p hp => text_copyFmtp f ?_
    rintro rfl
    exact hl hp
  have htext : FmtpParam.text (copyFmtp f) .levelAsymmetryAllowed = some "level-asymmetry-allowed=0".toList := by
    have hzero : (copyFmtp f).levelAsymmetryAllowed = 0 := rfl
    simp only [FmtpParam.text, FmtpParam.printed, hzero]
    decide
  rw [hcongr _ (by decide), hcongr _ (by decide), htext]
  rfl

theorem separate_flatten_inj {l l' : List CStr} (hlen : l.map List.length = l'.map List.length)
    (h : (separate l).flatten = (separate l').flatten) : l = l' := by
  have hsep : separate l = separate l' := by
    rw [List.eq_iff_flatten_eq]
    refine ⟨h, ?_⟩
    cases l <;> cases l' <;> simp_all [separate]
    have hmap := congrArg (List.map (· + 1)) hlen.2
    simpa [Function.comp_def] using hmap
  cases l <;> cases l' <;> simp_all [separate]
  have hinj : Function.Injective fun t : CStr => ';' :: t := fun s t hst => by simpa using hst
  exact List.map_injective_iff.mpr hinj hsep.2

theorem length_separate_flatten (l : List CStr) : (separate l).flatten.length = l.flatten.length + (l.length - 1) := by
  cases l with
  | nil => rfl
  | cons t ts =>
    have hts : ((ts.map (';' :: ·)).map List.length).sum = (ts.map List.length).sum + ts.length := by
      induction ts with
      | nil => rfl
      | cons u us ih =>
        simp only [List.map_cons, List.sum_cons, List.length_cons] at ih ⊢
        omega
    simp only [separate, List.flatten_cons, List.length_append, List.length_flatten, hts, List.length_cons]
    omega

/-- The codec parameters of a copy read the same when the asymmetry is zero. -/
theorem separate_copyFmtp_iff (f : Fmtp) :
    (separate (fmtpParams (copyFmtp f))).flatten = (separate (fmtpParams f)).flatten ↔ f.levelAsymmetryAllowed = 0 := by
  rw [fmtpParams_copyFmtp, fmtpParams_eq f]
  by_cases hle : f.levelAsymmetryAllowed ≤ 1
  · have hcases : f.levelAsymmetryAllowed = 0 ∨ f.levelAsymmetryAllowed = 1 := by
      rw [UInt16.le_iff_toNat_le] at hle
      rw [← UInt16.toNat_inj, ← UInt16.toNat_inj]
      simp at hle ⊢
      omega
    rcases hcases with hzero | hone
    · have htext : FmtpParam.text f .levelAsymmetryAllowed = some "level-asymmetry-allowed=0".toList := by
        simp only [FmtpParam.text, FmtpParam.printed, hzero]
        decide
      rw [htext, hzero]
      exact iff_of_true rfl rfl
    · have htext : FmtpParam.text f .levelAsymmetryAllowed = some "level-asymmetry-allowed=1".toList := by
        simp only [FmtpParam.text, FmtpParam.printed, hone]
        decide
      rw [htext, hone]
      refine iff_of_false (fun h => ?_) (by decide)
      have hlen : "level-asymmetry-allowed=0".toList.length = "level-asymmetry-allowed=1".toList.length := by decide
      have hlists := List.append_cancel_left
        (separate_flatten_inj (by simp only [List.map_append, List.map_cons, hlen]; rfl) h)
      have hhead := (List.cons.inj hlists).1
      revert hhead
      decide
  · have hnone : FmtpParam.text f .levelAsymmetryAllowed = none := by
      simp [FmtpParam.text, FmtpParam.printed, FmtpParam.number, hle]
    refine iff_of_false (fun h => ?_) (fun h => hle (by rw [h]; decide))
    have hlen := congrArg List.length h
    have hpos : 0 < "level-asymmetry-allowed=0".toList.length := by decide
    rw [length_separate_flatten, length_separate_flatten, hnone] at hlen
    simp only [Option.toList_none, List.nil_append, List.flatten_append, List.flatten_cons,
      List.length_append, List.length_cons] at hlen
    omega

theorem attrText_fmtp_iff (f : Fmtp) : attrText (.fmtp (copyFmtp f)) = attrText (.fmtp f) ↔ (Attr.fmtp f).Copied := by
  have hevents : ∀ range is, eventTexts (copyFmtp f) range is = eventTexts f range is := by
    intro range is
    induction is generalizing range with
    | nil => rfl
    | cons i is ih =>
      have hbit : (copyFmtp f).hasEvent i = f.hasEvent i := rfl
      have hmax : (copyFmtp f).maxval = f.maxval := rfl
      have hrange : ∀ min max, eventRange (copyFmtp f) min max = eventRange f min max := fun _ _ => rfl
      simp only [eventTexts, hbit, hmax, hrange, ih]
  have hfields : (copyFmtp f).fmtpFormat = f.fmtpFormat ∧
      (copyFmtp f).payloadNum = f.payloadNum ∧ (copyFmtp f).maxval = f.maxval ∧
      (copyFmtp f).mode = 0 := ⟨rfl, rfl, rfl, rfl⟩
  obtain ⟨hformat, hpayload, hmax, hmode⟩ := hfields
  simp only [attrText, buildAttr, fmtpTexts, hformat, hpayload, hmax, hevents, Attr.Copied,
    List.flatten_append, List.append_assoc, List.append_cancel_left_eq]
  rw [List.append_cancel_right_eq]
  cases f.fmtpFormat with
  | mode =>
    simp only [fmt, List.flatten_cons, List.flatten_nil, List.append_nil, List.append_cancel_left_eq, hmode]
    have hinj := decimal_append_inj (m := (0 : UInt32).toNat) (n := f.mode.toNat) (s := []) (t := []) rfl rfl
    rw [List.append_nil, List.append_nil, and_iff_left rfl, UInt32.toNat_inj] at hinj
    exact hinj.trans eq_comm
  | codecInfo => exact separate_copyFmtp_iff f
  | nte => simp
  | unknownType => simp

theorem attrText_copyAttrFields_iff (a : Attr) : attrText (copyAttrFields a) = attrText a ↔ a.Copied := by
  cases a with
  | simpleU32 t v =>
    cases t with
    | sqn => exact attrText_simpleU32_iff .sqn v
    | framerate => exact attrText_simpleU32_iff .framerate v
    | _ => exact iff_of_true rfl trivial
  | transportMap t v =>
    cases t with
    | sprtmap => exact attrText_sprtmap_iff v
    | _ => exact iff_of_true rfl trivial
  | mptime intervals => exact attrText_mptime_iff intervals
  | fmtp f => exact attrText_fmtp_iff f
  | srtp t c =>
    cases t with
    | _ => exact iff_of_true rfl trivial
  | _ => exact iff_of_true rfl trivial

/-! ## Lines -/

/-- The lines of an attribute, with the capability number `n`. -/
def levelAttrLines (n : UInt16) : LevelAttr → List CStr
  | .plain a => [attrText a]
  | .cap t cap =>
    if !cap.validCap then []
    else (capTexts t n cap).flatten ::
      if cap.transport.isAal2 then [] else cap.attrs.map (cparText t)

/-- The attribute lines of a level, from the capability number `n` on. -/
def attrLines : UInt16 → List LevelAttr → List CStr
  | _, [] => []
  | n, a :: attrs => levelAttrLines n a ++ attrLines (nextCapNum n a) attrs

/-- The lines of a token at a level, one for each attribute, and the result of building them. -/
def tokenLines (conf : Conf) (roap : Option CStr) (d : Desc) (tok : Token) (level : Level) :
    SdpResult × List CStr :=
  if tok = .a then
    match d.attrsOf level with
    | none => (.failure, [])
    | some attrs => (.success, attrLines 1 attrs)
  else
    ((buildLine conf roap d tok level).result, [(buildLine conf roap d tok level).texts.flatten])

/-- The lines of several tokens, up to the first that cannot be built. -/
def callLines (conf : Conf) (roap : Option CStr) (d : Desc) :
    List (Token × Level) → SdpResult × List CStr
  | [] => (.success, [])
  | (tok, level) :: calls =>
    let r := tokenLines conf roap d tok level
    if r.1 = .success then
      ((callLines conf roap d calls).1, r.2 ++ (callLines conf roap d calls).2)
    else r

/-- The lines of a description, up to the first that cannot be built. -/
def descLines (conf : Conf) (roap : Option CStr) (d : Desc) : SdpResult × List CStr :=
  callLines conf roap d (buildOrder d)

theorem renderAttrs_eq_attrLines (n : UInt16) (attrs : List LevelAttr) :
    renderAttrs n attrs = (attrLines n attrs).flatten := by
  induction attrs generalizing n with
  | nil => rfl
  | cons a attrs ih =>
    rw [renderAttrs, attrLines, List.flatten_append, ← ih]
    congr 1
    cases a with
    | plain a => simp [levelAttrText, levelAttrLines]
    | cap t cap =>
      simp only [levelAttrText, levelAttrLines]
      split_ifs <;> simp [List.flatMap]

theorem render_eq_descLines (conf : Conf) (roap : Option CStr) (d : Desc) :
    render conf roap d = ((descLines conf roap d).1, (descLines conf roap d).2.flatten) := by
  have htoken : ∀ tok level, renderToken conf roap d tok level =
      ((tokenLines conf roap d tok level).1, (tokenLines conf roap d tok level).2.flatten) := by
    intro tok level
    unfold renderToken tokenLines
    by_cases htok : tok = .a
    · simp only [htok, if_true]
      cases d.attrsOf level with
      | none => rfl
      | some attrs => simp [renderAttrs_eq_attrLines]
    · simp [htok]
  unfold render descLines
  generalize buildOrder d = calls
  induction calls with
  | nil => rfl
  | cons call calls ih =>
    simp only [renderCalls, callLines, htoken, ih]
    split_ifs <;> simp

theorem callLines_append (conf : Conf) (roap : Option CStr) (d : Desc) (calls calls' : List (Token × Level)) :
    callLines conf roap d (calls ++ calls') =
      if (callLines conf roap d calls).1 = .success then
        ((callLines conf roap d calls').1, (callLines conf roap d calls).2 ++ (callLines conf roap d calls').2)
      else callLines conf roap d calls := by
  induction calls with
  | nil => simp [callLines]
  | cons call calls ih =>
    simp only [List.cons_append, callLines, ih]
    split_ifs <;> simp_all

/-! ## Copied lines -/

/-- Nothing that the lines of an attribute show is lost in its copy. -/
def LevelAttr.Copied : LevelAttr → Prop
  | .plain a => a.Copied
  | .cap _ capP =>
    capP.validCap →
      (capP.transport.isAal2 → capP.profiles = []) ∧
      (capP.transport.isAal2 = false → ∀ a ∈ capP.attrs, a.Copied)

/-- The media line can be built. -/
def Mca.isBuilt (m : Media) : Bool := (buildMca m).result == .success

/-- Nothing that the lines of a media level show is lost in its copy. -/
def Mca.Copied (m : Media) : Prop :=
  (m.transport.isAal2 → ∀ p ∈ m.profiles.drop maxProfiles, p.profile = .rtpavp) ∧
    ∀ a ∈ m.attrs, a.Copied

/-- Nothing that the lines of a description show is lost in its copy. Lines behind a media line that
cannot be built do not matter. -/
def Desc.Copied (d : Desc) : Prop :=
  (∀ a ∈ d.sessAttrs, a.Copied) ∧ ∀ m ∈ d.mca.takeWhile Mca.isBuilt, m.Copied

theorem profileTexts_nil_iff (profiles : List Profile) :
    (profileTexts []).flatten = (profileTexts profiles).flatten ↔ profiles = [] := by
  refine ⟨fun h => ?_, fun h => by rw [h]⟩
  cases profiles with
  | nil => rfl
  | cons p ps =>
    exfalso
    have hlen := congrArg List.length h
    have hname : 0 < p.profile.name.length := by cases p.profile <;> decide
    simp [profileTexts] at hlen
    omega

theorem nextCapNum_copyAttr (n : UInt16) (a : LevelAttr) : nextCapNum n (copyAttr a) = nextCapNum n a := by
  cases a <;> rfl

theorem length_levelAttrLines_copyAttr (n : UInt16) (a : LevelAttr) :
    (levelAttrLines n (copyAttr a)).length = (levelAttrLines n a).length := by
  cases a with
  | plain a => rfl
  | cap t cap =>
    have hfields : (copyCap cap).validCap = cap.validCap ∧ (copyCap cap).transport = cap.transport := ⟨rfl, rfl⟩
    simp only [copyAttr, levelAttrLines, hfields]
    split_ifs <;> simp [copyCap]

theorem map_cparText_copy_iff (t : CapType) (attrs : List Attr) :
    (attrs.map copyAttrFields).map (cparText t) = attrs.map (cparText t) ↔ ∀ a ∈ attrs, a.Copied := by
  rw [List.map_map, List.map_inj_left]
  refine forall₂_congr fun a _ => ?_
  rw [Function.comp_apply, cparText, cparText, List.append_cancel_left_eq]
  exact attrText_copyAttrFields_iff a

theorem levelAttrLines_copyAttr_iff (n : UInt16) (a : LevelAttr) :
    levelAttrLines n (copyAttr a) = levelAttrLines n a ↔ a.Copied := by
  cases a with
  | plain a =>
    rw [copyAttr, levelAttrLines, levelAttrLines, List.singleton_inj]
    exact attrText_copyAttrFields_iff a
  | cap t cap =>
    have hfields : (copyCap cap).validCap = cap.validCap ∧
      (copyCap cap).transport = cap.transport ∧ (copyCap cap).media = cap.media ∧
      (copyCap cap).payloads = cap.payloads ∧ (copyCap cap).profiles = [] ∧
      (copyCap cap).attrs = cap.attrs.map copyAttrFields := ⟨rfl, rfl, rfl, rfl, rfl, rfl⟩
    obtain ⟨hvalid, htransport, hmedia, hpayloads, hprofiles, hattrs⟩ := hfields
    simp only [copyAttr, levelAttrLines, LevelAttr.Copied, hvalid, htransport, capTexts,
      formatTexts, hmedia, hpayloads, hprofiles, hattrs]
    cases hv : cap.validCap with
    | false => simp
    | true =>
      cases haal : cap.transport.isAal2 with
      | true => simpa using profileTexts_nil_iff cap.profiles
      | false => simpa using map_cparText_copy_iff t cap.attrs

theorem attrLines_copyAllAttrs_iff (n : UInt16) (attrs : List LevelAttr) :
    attrLines n (copyAllAttrs attrs) = attrLines n attrs ↔ ∀ a ∈ attrs, a.Copied := by
  induction attrs generalizing n with
  | nil => simp [copyAllAttrs, attrLines]
  | cons a attrs ih =>
    have hcopy : copyAllAttrs (a :: attrs) = copyAttr a :: copyAllAttrs attrs := rfl
    rw [hcopy, attrLines, attrLines, nextCapNum_copyAttr, List.forall_mem_cons,
      ← levelAttrLines_copyAttr_iff n a, ← ih (nextCapNum n a)]
    refine ⟨fun h => List.append_inj h (length_levelAttrLines_copyAttr n a), ?_⟩
    rintro ⟨hhead, htail⟩
    rw [hhead, htail]

theorem length_attrLines_copyAllAttrs (n : UInt16) (attrs : List LevelAttr) :
    (attrLines n (copyAllAttrs attrs)).length = (attrLines n attrs).length := by
  induction attrs generalizing n with
  | nil => rfl
  | cons a attrs ih =>
    have hcopy : copyAllAttrs (a :: attrs) = copyAttr a :: copyAllAttrs attrs := rfl
    rw [hcopy, attrLines, attrLines, nextCapNum_copyAttr, List.length_append, List.length_append,
      length_levelAttrLines_copyAttr, ih]

/-! ## Copied media lines -/

theorem takeWhile_append_space (s t : CStr) : (s ++ ' ' :: t).takeWhile (· ≠ ' ') = s.takeWhile (· ≠ ' ') := by
  induction s with
  | nil => rfl
  | cons c s ih =>
    by_cases hc : c = ' '
    · simp [hc]
    · simp [hc] at ih ⊢
      exact ih

/-- The payloads of a profile, each behind a space, and a space. -/
def profilePayloads (p : Profile) : CStr :=
  (p.payloads.map (fun v => fmt [" ", decimal v.toNat]) ++ [[' ']]).flatten

theorem profileTexts_flatten (profiles : List Profile) : (profileTexts profiles).flatten =
      profiles.flatMap (fun p => p.profile.name ++ profilePayloads p) ++ ['\n'] := by
  rw [profileTexts, List.flatten_append]
  congr 1
  induction profiles with
  | nil => rfl
  | cons p ps ih => simpa [profilePayloads] using ih

theorem profilePayloads_eq_cons (p : Profile) : ∃ rest, profilePayloads p = ' ' :: rest := by
  unfold profilePayloads
  cases p.payloads with
  | nil => exact ⟨[], rfl⟩
  | cons v vs => exact ⟨_, rfl⟩

theorem profileTexts_copyProfiles_iff (profiles : List Profile) :
    (profileTexts (copyProfiles profiles)).flatten = (profileTexts profiles).flatten ↔
      ∀ p ∈ profiles.drop maxProfiles, p.profile = .rtpavp := by
  rw [profileTexts_flatten, profileTexts_flatten, List.append_cancel_right_eq]
  conv_lhs => rhs; rw [← List.take_append_drop maxProfiles profiles]
  rw [copyProfiles, List.flatMap_append, List.flatMap_append, List.append_cancel_left_eq]
  induction profiles.drop maxProfiles with
  | nil => simp
  | cons p ps ih =>
    obtain ⟨rest, hrest⟩ := profilePayloads_eq_cons p
    have hcopy : profilePayloads { p with profile := .rtpavp } = ' ' :: rest := hrest
    rw [List.forall_mem_cons, ← ih]
    simp only [List.map_cons, List.flatMap_cons, hcopy, hrest, List.append_assoc, List.cons_append]
    constructor
    · intro h
      have hword := congrArg (List.takeWhile (· ≠ ' ')) h
      rw [takeWhile_append_space, takeWhile_append_space] at hword
      have hprofile : p.profile = .rtpavp := by
        revert hword
        cases p.profile <;> decide
      rw [hprofile] at h
      exact ⟨hprofile, by simpa using h⟩
    · rintro ⟨hprofile, htail⟩
      rw [hprofile, htail]

/-- A copied media line can be built like the original, and reads the same when nothing it shows is
lost. -/
theorem buildMca_copyMedia (m : Media) : (buildMca (copyMedia m)).result = (buildMca m).result ∧
      ((buildMca (copyMedia m)).texts.flatten = (buildMca m).texts.flatten ↔ (m.isBuilt → m.transport.isAal2 →
          ∀ p ∈ m.profiles.drop maxProfiles, p.profile = .rtpavp)) := by
  have hfields : (copyMedia m).media = m.media ∧ (copyMedia m).portFormat = m.portFormat ∧
      (copyMedia m).transport = m.transport ∧ mediaPort (copyMedia m) = mediaPort m ∧
      (copyMedia m).payloads = m.payloads ∧
      (copyMedia m).profiles = copyProfiles m.profiles := ⟨rfl, rfl, rfl, rfl, rfl, rfl⟩
  obtain ⟨hmedia, hformat, htransport, hport, hpayloads, hprofiles⟩ := hfields
  simp only [Mca.isBuilt, buildMca, hmedia, hformat, htransport, hport, formatTexts, hpayloads, hprofiles]
  split_ifs with hvalid haal
  · simp
  · cases mediaPort m with
    | none => simp
    | some port =>
      simpa [haal] using profileTexts_copyProfiles_iff m.profiles
  · cases mediaPort m with
    | none => simp
    | some port => simp [haal]

def levelLines (roap : Option CStr) (m : Media) : List CStr :=
  [(buildMca m).texts.flatten, [], (connTexts roap m.conn).flatten, (bwTexts m.bw).flatten,
    (encryptTexts m.encrypt).flatten] ++ attrLines 1 m.attrs

/-- The lines of the media levels, up to the first that cannot be built. -/
def mediaLines (roap : Option CStr) : List Media → SdpResult × List CStr
  | [] => (.success, [])
  | m :: ms =>
    if m.isBuilt then ((mediaLines roap ms).1, levelLines roap m ++ (mediaLines roap ms).2)
    else ((buildMca m).result, [(buildMca m).texts.flatten])

theorem levelLines_copyMedia_iff (roap : Option CStr) {m : Media} (hm : m.isBuilt) :
    levelLines roap (copyMedia m) = levelLines roap m ↔ m.Copied := by
  have hline := (buildMca_copyMedia m).2
  rw [Mca.Copied, ← attrLines_copyAllAttrs_iff 1 m.attrs]
  simp only [hm, forall_const] at hline
  rw [← hline, levelLines, levelLines]
  simp [copyMedia]

theorem mediaLines_copyMedia_iff (roap : Option CStr) (ms : List Media) :
    mediaLines roap (ms.map copyMedia) = mediaLines roap ms ↔ ∀ m ∈ ms.takeWhile Mca.isBuilt, m.Copied := by
  induction ms with
  | nil => simp
  | cons m ms ih =>
    obtain ⟨hresult, hline⟩ := buildMca_copyMedia m
    have hbuilt : (copyMedia m).isBuilt = m.isBuilt := by simp only [Mca.isBuilt, hresult]
    simp only [List.map_cons, mediaLines, hbuilt, List.takeWhile_cons]
    cases hm : m.isBuilt with
    | false => simpa [hm, hresult] using hline
    | true =>
      have hlevel := levelLines_copyMedia_iff roap hm
      have hlength : (levelLines roap (copyMedia m)).length = (levelLines roap m).length := by
        simp [levelLines, copyMedia, length_attrLines_copyAllAttrs]
      simp only [if_true, List.forall_mem_cons, ← hlevel, ← ih, Prod.mk.injEq]
      constructor
      · rintro ⟨hres, hlines⟩
        obtain ⟨hhead, htail⟩ := List.append_inj hlines hlength
        exact ⟨hhead, Prod.ext hres htail⟩
      · rintro ⟨hhead, htail⟩
        rw [hhead, htail]
        exact ⟨rfl, rfl⟩

/-! ## Copied descriptions -/

variable {d : Desc}

theorem callLines_level (conf : Conf) (roap : Option CStr) {n : ℕ} {m : Media} (hm : d.findMediaLevel n = some m) :
    callLines conf roap d (mediaTokens.map (·, .media n)) =
      if m.isBuilt then (.success, levelLines roap m)
      else ((buildMca m).result, [(buildMca m).texts.flatten]) := by
  have hbuilt : m.isBuilt = true ↔ (buildMca m).result = .success := by simp [Mca.isBuilt]
  simp only [mediaTokens, List.map_cons, List.map_nil, callLines, tokenLines, buildLine, buildMedia,
    atLevel, LevelField.get, Desc.attrsOf, hm, Option.map_some, connField, bwField, encryptField,
    hbuilt]
  split_ifs <;> simp_all [levelLines]

theorem findMediaLevel_eq (hcount : d.mcaCount.toNat = d.mca.length) {k : ℕ}
    {m : Media} (hm : d.mca[k]? = some m) : d.findMediaLevel (k + 1) = some m := by
  have hk : k < d.mca.length := (List.getElem?_eq_some_iff.mp hm).1
  rw [Desc.findMediaLevel, if_pos (by omega), Nat.add_sub_cancel, hm]

theorem callLines_mediaLines (conf : Conf) (roap : Option CStr)
    (hcount : d.mcaCount.toNat = d.mca.length) (ms : List Media) (k : ℕ)
    (hms : d.mca.drop k = ms) :
    callLines conf roap d ((List.range' k ms.length).flatMap fun i =>
        mediaTokens.map (·, .media (i + 1))) = mediaLines roap ms := by
  induction ms generalizing k with
  | nil => rfl
  | cons m ms ih =>
    have hm : d.mca[k]? = some m := by
      rw [← List.head?_drop, hms, List.head?_cons]
    have hdrop : d.mca.drop (k + 1) = ms := by
      rw [← List.tail_drop, hms, List.tail_cons]
    have htail := ih (k + 1) hdrop
    rw [List.length_cons, List.range'_succ, List.flatMap_cons, callLines_append, htail,
      callLines_level conf roap (findMediaLevel_eq hcount hm), mediaLines]
    cases hbuilt : m.isBuilt with
    | true => simp
    | false =>
      have hresult : (buildMca m).result ≠ .success := by simpa [Mca.isBuilt] using hbuilt
      simp [hresult]

/-- The tokens that are built at the session level in front of the attributes. -/
def sessionLineTokens : List Token := [.v, .o, .s, .i, .u, .e, .p, .c, .b, .t, .r, .z, .k]

/-- The lines of the session in front of its attributes. -/
def sessionLines (conf : Conf) (roap : Option CStr) (d : Desc) : SdpResult × List CStr :=
  callLines conf roap d (sessionLineTokens.map (·, .session))

theorem descLines_eq (conf : Conf) (roap : Option CStr) (hcount : d.mcaCount.toNat = d.mca.length) :
    descLines conf roap d =
      if (sessionLines conf roap d).1 = .success then
        ((mediaLines roap d.mca).1, (sessionLines conf roap d).2 ++
            (attrLines 1 d.sessAttrs ++ (mediaLines roap d.mca).2))
      else sessionLines conf roap d := by
  have hsession : sessionTokens.map (·, Level.session) =
      sessionLineTokens.map (·, Level.session) ++ [(.a, .session)] := rfl
  have hmedia := callLines_mediaLines conf roap hcount d.mca 0 rfl
  have hattrs : callLines conf roap d [(.a, .session)] = (.success, attrLines 1 d.sessAttrs) := by
    simp [callLines, tokenLines, Desc.attrsOf]
  rw [← List.range_eq_range', ← hcount] at hmedia
  rw [descLines, buildOrder, hsession, List.append_assoc, callLines_append, callLines_append, hmedia, hattrs]
  rfl

theorem copy_eq_some (hcount : d.mcaCount.toNat = d.mca.length) :
    ∃ d', copy d = some d' ∧ d'.mcaCount.toNat = d'.mca.length ∧
      d'.sessAttrs = copyAllAttrs d.sessAttrs ∧ d'.mca = d.mca.map copyMedia ∧
      ∀ conf roap, sessionLines conf roap d' = sessionLines conf roap d := by
  refine ⟨_, if_neg (by omega), ?_, rfl, rfl, fun _ _ => rfl⟩
  have hlt := d.mcaCount.toNat_lt
  rw [List.length_map]
  exact UInt16.toNat_ofNat_of_lt' (by rw [← hcount]; exact hlt)

theorem sessionLines_nothingRequired (d : Desc) : (sessionLines nothingRequired none d).1 = .success := by
  have hmissing : ∀ texts, (missing false texts).result = .success := fun _ => rfl
  have hversion : (buildVersion nothingRequired d).result = .success := by
    unfold buildVersion
    split_ifs <;> rfl
  have howner : (buildOwner nothingRequired d).result = .success := by
    unfold buildOwner
    split_ifs <;> rfl
  have hsessname : (buildSessname nothingRequired d).result = .success := by
    unfold buildSessname
    split_ifs <;> rfl
  have htimespec : (buildTimespec nothingRequired d).result = .success := by
    unfold buildTimespec
    split <;> rfl
  simp [sessionLines, sessionLineTokens, callLines, tokenLines, buildLine, atLevel, LevelField.get,
    hversion, howner, hsessname, htimespec]

/-- The copy of a description has the same lines, whatever the options, exactly when nothing they
show is lost. A build of the copy then succeeds when that of the original does, with the same text.
-/
theorem copy_lines_iff (d : Desc) (hcount : d.mcaCount.toNat = d.mca.length) :
    ∃ d', copy d = some d' ∧
      ((∀ conf roap, descLines conf roap d' = descLines conf roap d) ↔ d.Copied) ∧
      (d.Copied → ∀ conf roap st len m,
        ((build conf roap d' st len).result = .success ↔
          (build conf roap d st len).result = .success) ∧
        ((build conf roap d st len).result = .success →
          readMem ((build conf roap d' st len).out.memory m) (build conf roap d' st len).out.cur =
            readMem ((build conf roap d st len).out.memory m)
              (build conf roap d st len).out.cur)) := by
  obtain ⟨d', hcopy, hcount', hattrs, hmca, hsession⟩ := copy_eq_some hcount
  have hlines : (∀ conf roap, descLines conf roap d' = descLines conf roap d) ↔ d.Copied := by
    rw [Desc.Copied, ← attrLines_copyAllAttrs_iff 1 d.sessAttrs, ← mediaLines_copyMedia_iff none,
      ← hattrs, ← hmca]
    constructor
    · intro h
      have hd := h nothingRequired none
      rw [descLines_eq _ _ hcount', descLines_eq _ _ hcount, hsession,
        if_pos (sessionLines_nothingRequired d), if_pos (sessionLines_nothingRequired d),
        Prod.mk.injEq, List.append_cancel_left_eq] at hd
      obtain ⟨hresult, hrest⟩ := hd
      obtain ⟨hhead, htail⟩ := List.append_inj hrest
        (by rw [hattrs, length_attrLines_copyAllAttrs])
      exact ⟨hhead, Prod.ext hresult htail⟩
    · rintro ⟨hhead, htail⟩ conf roap
      have hmedia : mediaLines roap d'.mca = mediaLines roap d.mca := by
        rw [hmca] at htail ⊢
        exact (mediaLines_copyMedia_iff roap d.mca).mpr
          ((mediaLines_copyMedia_iff none d.mca).mp htail)
      rw [descLines_eq _ _ hcount', descLines_eq _ _ hcount, hsession, hhead, hmedia]
  refine ⟨d', hcopy, hlines, fun hcopied conf roap st len m => ?_⟩
  have hrender : render conf roap d' = render conf roap d := by
    rw [render_eq_descLines, render_eq_descLines, hlines.mpr hcopied]
  have hsuccess : (build conf roap d' st len).result = .success ↔
      (build conf roap d st len).result = .success := by
    rw [build_success_iff, build_success_iff, hrender]
  refine ⟨hsuccess, fun hresult => ?_⟩
  rw [read_build conf roap d st len hresult,
    read_build conf roap d' st len (hsuccess.mpr hresult), hrender]

/-- The lines `sip_sdp_init` requires are copied. -/
theorem copy_lines_iff_requiredDesc :
    ∃ d', copy requiredDesc = some d' ∧
      ((∀ conf roap, descLines conf roap d' = descLines conf roap requiredDesc) ↔
        requiredDesc.Copied) ∧
      (requiredDesc.Copied → ∀ conf roap st len m,
        ((build conf roap d' st len).result = .success ↔
          (build conf roap requiredDesc st len).result = .success) ∧
        ((build conf roap requiredDesc st len).result = .success →
          readMem ((build conf roap d' st len).out.memory m) (build conf roap d' st len).out.cur =
            readMem ((build conf roap requiredDesc st len).out.memory m)
              (build conf roap requiredDesc st len).out.cur)) :=
  copy_lines_iff requiredDesc rfl

/-- A message whose only attribute is an interval list. -/
def mptimeText : CStr := "v=0\r\no=- 1 1 IN IP4 h\r\nt=0 0\r\na=mptime:10\r\n"

/-- The interval is lost in the copy of the parsed message: its line becomes `a=mptime:`. -/
theorem copy_loses_mptime :
    (parse sipSdpInit {} {} mptimeText 43).result = .success ∧
      ∃ d', copy (parse sipSdpInit {} {} mptimeText 43).desc = some d' ∧
        render sipSdpInit none d' ≠
          render sipSdpInit none (parse sipSdpInit {} {} mptimeText 43).desc := by
  have hcount : (parse sipSdpInit {} {} mptimeText 43).desc.mca = [] := by decide
  refine ⟨by decide, _, if_neg (by simp [hcount]), by decide⟩

end Sdp
