import Ikran.Sdp.Parse

/-!
# What a line can do to a description

One specification for each parse function of the token table: which parts of the description it
leaves alone, and which results it can have. Media and attribute lines add to the sections of the
description; all other lines leave them as they are.
-/

namespace Sdp

open CStr Line LineParser

/-- The fields that only the media line itself writes. -/
def Mca.header (m : Media) : Media :=
  { m with conn := {}, bw := [], encrypt := { encryptType := .invalid }, sessinfoFound := false,
           attrs := [] }

namespace Desc

/-- The attribute lists of all levels, the session first. -/
def levels (d : Desc) : List (List LevelAttr) := d.sessAttrs :: d.mca.map Mca.attrs

/-- The media lines as they were parsed. -/
def headers (d : Desc) : List Media := d.mca.map Mca.header

/-- The media lines, the attributes and the capability counters of two descriptions are the same. -/
structure SameSections (d d' : Desc) : Prop where
  levels : d'.levels = d.levels
  headers : d'.headers = d.headers
  mcaCount : d'.mcaCount = d.mcaCount
  capValid : d'.capValid = d.capValid
  lastCapInst : d'.lastCapInst = d.lastCapInst

namespace SameSections

theorem refl (d : Desc) : SameSections d d := ⟨rfl, rfl, rfl, rfl, rfl⟩

theorem length_mca {d d' : Desc} (h : SameSections d d') : d'.mca.length = d.mca.length := by
  have hlen := congrArg List.length h.headers
  simpa [Desc.headers] using hlen

theorem updateMedia {f : Media → Media} (hheader : ∀ m, (f m).header = m.header)
    (hattrs : ∀ m, (f m).attrs = m.attrs) (d : Desc) (n : ℕ) :
    SameSections d (d.updateMedia n f) := by
  have hmodify : ∀ {β : Type} (g : Media → β), (∀ m, g (f m) = g m) →
      ∀ (k : ℕ) (ms : List Media), (ms.modify k f).map g = ms.map g := by
    intro β g hg k ms
    induction ms generalizing k with
    | nil => cases k <;> rfl
    | cons m ms ih => cases k <;> simp [hg, ih]
  exact ⟨congrArg (d.sessAttrs :: ·) (hmodify Mca.attrs hattrs _ _), hmodify Mca.header hheader _ _, rfl, rfl, rfl⟩

end SameSections

end Desc

/-! ## Lines that are neither media nor attribute lines -/

/-- The result is not the verdict on unknown tokens. -/
def Known (result : SdpResult) : Prop := result ≠ .unrecognizedToken

/-- The error a parser of a line can end with. -/
def Refusal (e : SdpResult) : Prop := e = .invalidParameter

/-- What a line has to leave alone that is neither a media nor an attribute line. -/
def KeepsSections (d : Desc) (r : SdpResult × Desc) : Prop := Known r.1 ∧ d.SameSections r.2

theorem ensures_parsed {α : Type} {P : SdpResult × α → Prop} {a : α} (h : P (.success, a)) :
    (parsed a).Ensures P Refusal :=
  Ensures.pure h

theorem ensures_refuse {α : Type} {P : SdpResult × α → Prop} {a : α}
    (h : P (.invalidParameter, a)) : (refuse a).Ensures P Refusal :=
  Ensures.count.bind fun _ _ => Ensures.pure h

theorem ensures_getNextNumTok (delim : CStr) : (getNextNumTok delim).Ensures (fun _ => True) Refusal := by
  refine (Ensures.token delim maxStringLen).bind fun o _ => ?_
  cases o with
  | none => exact Ensures.pure trivial
  | some tok => exact Ensures.pure trivial

theorem ensures_getNextNum (delim : CStr) : (getNextNum delim).Ensures (fun _ => True) Refusal :=
  (ensures_getNextNumTok delim).bind fun _ _ => Ensures.pure trivial

theorem ensures_parseVersion (d : Desc) : (parseVersion d).Ensures (KeepsSections d) Refusal := by
  refine (ensures_getNextNumTok blanks).bind fun v _ => ?_
  have hkeep : d.SameSections { d with version := v.1.toUInt16.toUInt32 } := ⟨rfl, rfl, rfl, rfl, rfl⟩
  dsimp only
  split_ifs
  · exact ensures_parsed ⟨nofun, hkeep⟩
  · exact ensures_refuse ⟨nofun, hkeep⟩

theorem ensures_parseOwner (conf : Conf) (d : Desc) : (parseOwner conf d).Ensures (KeepsSections d) Refusal := by
  have hrefuse : ∀ d', d.SameSections d' → (refuse d').Ensures (KeepsSections d) Refusal :=
    fun d' h => ensures_refuse ⟨nofun, h⟩
  have hsame : ∀ name id version nt at' addr, d.SameSections { d with
      ownerName := name, ownerSessid := id, ownerVersion := version, ownerNetworkType := nt,
      ownerAddrType := at', ownerAddr := addr } := fun _ _ _ _ _ _ => ⟨rfl, rfl, rfl, rfl, rfl⟩
  unfold parseOwner getNextStrTok
  refine (Ensures.token _ _).bind fun o _ => ?_
  cases o with
  | none => exact hrefuse _ (.refl d)
  | some name =>
  refine (Ensures.token _ _).bind fun o _ => ?_
  cases o with
  | none => exact hrefuse _ (hsame ..)
  | some id =>
  dsimp only
  split_ifs
  · exact hrefuse _ (hsame ..)
  refine (Ensures.token _ _).bind fun o _ => ?_
  cases o with
  | none => exact hrefuse _ (hsame ..)
  | some version =>
  dsimp only
  split_ifs
  · exact hrefuse _ (hsame ..)
  refine (Ensures.token _ _).bind fun o _ => ?_
  cases o with
  | none => exact hrefuse _ (hsame ..)
  | some nettype =>
  dsimp only
  split_ifs
  · exact hrefuse _ (hsame ..)
  refine (Ensures.token _ _).bind fun o _ => ?_
  cases o with
  | none => exact hrefuse _ (hsame ..)
  | some addrtype =>
  dsimp only
  split_ifs
  · exact hrefuse _ (hsame ..)
  refine (Ensures.token _ _).bind fun o _ => ?_
  cases o with
  | none => exact hrefuse _ (hsame ..)
  | some addr => exact ensures_parsed ⟨nofun, hsame ..⟩

theorem ensures_parseSessname (d : Desc) : (parseSessname d).Ensures (KeepsSections d) Refusal :=
  (Ensures.rest maxStringLen).bind fun _ _ => ensures_parsed ⟨nofun, ⟨rfl, rfl, rfl, rfl, rfl⟩⟩

theorem ensures_parseTimespec (d : Desc) : (parseTimespec d).Ensures (KeepsSections d) Refusal := by
  have htime : parseTime.Ensures (fun _ => True) Refusal :=
    (Ensures.token _ _).bind fun _ _ => Ensures.pure trivial
  have hrefuse : (refuse d).Ensures (KeepsSections d) Refusal := ensures_refuse ⟨nofun, .refl d⟩
  refine htime.bind fun o _ => ?_
  cases o with
  | none => exact hrefuse
  | some startTime =>
  refine htime.bind fun o _ => ?_
  cases o with
  | none => exact hrefuse
  | some stopTime => exact ensures_parsed ⟨nofun, ⟨rfl, rfl, rfl, rfl, rfl⟩⟩

/-- A field of a level does not belong to the sections. -/
structure LevelField.KeepsSections {α : Type} (fld : LevelField α) : Prop where
  toDesc : ∀ a (d : Desc), d.SameSections (fld.toDesc a d)
  header : ∀ a m, (fld.toMedia a m).header = m.header
  attrs : ∀ a m, (fld.toMedia a m).attrs = m.attrs

theorem ensures_levelField {α : Type} {fld : LevelField α} (hfld : fld.KeepsSections)
    {p : α → Parser (SdpResult × α)} (hp : ∀ a, (p a).Ensures (fun r => Known r.1) Refusal)
    (level : Level) (d : Desc) : (fld.parse p level d).Ensures (KeepsSections d) Refusal := by
  have hset : ∀ a, d.SameSections (fld.set a d level) := by
    intro a
    cases level with
    | session => exact hfld.toDesc a d
    | media n => exact .updateMedia (hfld.header a) (hfld.attrs a) d n
  unfold LevelField.parse
  cases fld.get d level with
  | none => exact Ensures.pure ⟨nofun, .refl d⟩
  | some a => exact (hp a).bind fun r hr => Ensures.pure ⟨hr, hset r.2⟩

/-- A line that starts with a token; without the token it is refused. -/
theorem ensures_connection (conf : Conf) (level : Level) (d : Desc) :
    (parseConnection conf level d).Ensures (KeepsSections d) Refusal := by
  refine ensures_levelField ⟨fun _ _ => ⟨rfl, rfl, rfl, rfl, rfl⟩, fun _ _ => rfl, fun _ _ => rfl⟩ (fun c => ?_) level d
  have hrefuse : ∀ c : Conn, (refuse c).Ensures (fun r => Known r.1) Refusal :=
    fun c => ensures_refuse (P := fun r => Known r.1) nofun
  have hparsed : ∀ c : Conn, (parsed c).Ensures (fun r => Known r.1) Refusal :=
    fun c => ensures_parsed (P := fun r => Known r.1) nofun
  have hmulticast : ∀ slash c, (parseMulticast slash c).Ensures (fun r => Known r.1) Refusal := by
    intro slash c
    unfold parseMulticast
    split
    · exact hrefuse c
    · dsimp only
      split_ifs
      · exact hrefuse _
      · exact hrefuse _
      · exact hparsed _
  split_ifs
  · unfold parseConn getNextStrTok
    refine (Ensures.token _ _).bind fun o _ => ?_
    cases o with
    | none => exact hrefuse c
    | some nettype =>
    refine (Ensures.token _ _).bind fun o _ => ?_
    cases o with
    | none =>
      dsimp only
      split_ifs
      · exact hparsed _
      · exact hrefuse _
    | some addrtype =>
    refine (Ensures.token _ _).bind fun o _ => ?_
    cases o with
    | none => exact hrefuse _
    | some addr =>
      dsimp only
      split_ifs
      · exact hmulticast _ _
      · exact hrefuse _
      · exact hparsed _
  · exact Ensures.pure (P := fun r : SdpResult × Conn => Known r.1) nofun

theorem ensures_parseBandwidth (level : Level) (d : Desc) :
    (parseBandwidth level d).Ensures (KeepsSections d) Refusal := by
  refine ensures_levelField
    ⟨fun _ _ => ⟨rfl, rfl, rfl, rfl, rfl⟩, fun _ _ => rfl, fun _ _ => rfl⟩ (fun bw => ?_) level d
  have hval : parseBwVal.Ensures (fun _ => True) Refusal := by
    refine Ensures.peek.bind fun c _ => ?_
    split_ifs
    · exact (Ensures.skip _).bind fun _ _ => ensures_getNextNum blanks
    · exact Ensures.pure trivial
  have hbw : parseBw.Ensures (fun _ => True) Refusal := by
    unfold parseBw getNextStrTok
    refine (Ensures.token _ _).bind fun o _ => ?_
    cases o with
    | none => exact Ensures.pure trivial
    | some tmp =>
      dsimp only
      cases findName BwModifier.all BwModifier.name tmp with
      | none => exact Ensures.pure trivial
      | some bwModifier =>
        refine hval.bind fun o _ => ?_
        cases o with
        | none => exact Ensures.pure trivial
        | some bwVal => exact Ensures.pure trivial
  refine hbw.bind fun o _ => ?_
  cases o with
  | none => exact ensures_refuse (P := fun r => Known r.1) nofun
  | some b => exact ensures_parsed (P := fun r => Known r.1) nofun

theorem ensures_parseEncryption (level : Level) (d : Desc) :
    (parseEncryption level d).Ensures (KeepsSections d) Refusal := by
  refine ensures_levelField ⟨fun _ _ => ⟨rfl, rfl, rfl, rfl, rfl⟩, fun _ _ => rfl, fun _ _ => rfl⟩ (fun e => ?_) level d
  have hrefuse : ∀ e : Encryptspec, (refuse e).Ensures (fun r => Known r.1) Refusal :=
    fun e => ensures_refuse (P := fun r => Known r.1) nofun
  have hparsed : ∀ e : Encryptspec, (parsed e).Ensures (fun r => Known r.1) Refusal :=
    fun e => ensures_parsed (P := fun r => Known r.1) nofun
  unfold parseEncrypt getNextStrTok
  refine (Ensures.token _ _).bind fun o _ => ?_
  cases o with
  | none => exact hrefuse _
  | some tmp =>
  refine (Ensures.skip _).bind fun _ _ => ?_
  dsimp only
  split
  · exact hparsed _
  · refine (Ensures.token _ _).bind fun o _ => ?_
    cases o with
    | none =>
      dsimp only
      split_ifs
      · exact hrefuse _
      · exact hparsed _
    | some key => exact hparsed _

theorem ensures_parseSessinfo (level : Level) (d : Desc) : (parseSessinfo level d).Ensures (KeepsSections d) Refusal :=
  ensures_levelField ⟨fun _ _ => ⟨rfl, rfl, rfl, rfl, rfl⟩, fun _ _ => rfl, fun _ _ => rfl⟩
    (fun _ => ensures_parsed (P := fun r => Known r.1) nofun) level d

variable {conf : Conf}

theorem ensures_tokenLine {tok : Token} {level : Level} {d : Desc}
    (hm : tok ≠ .m) {p : Parser (SdpResult × Desc)} (hp : tokenLine conf tok level d = some p) :
    p.Ensures (KeepsSections d) Refusal := by
  have hkeep : ∀ d', d.SameSections d' → (parsed d').Ensures (KeepsSections d) Refusal :=
    fun d' h => ensures_parsed ⟨nofun, h⟩
  cases tok with
  | a => simp [tokenLine] at hp
  | m => exact absurd rfl hm
  | _ =>
    obtain rfl := Option.some.inj hp
    first
      | exact ensures_parseVersion d
      | exact ensures_parseOwner conf d
      | exact ensures_parseSessname d
      | exact ensures_parseSessinfo level d
      | exact ensures_connection conf level d
      | exact ensures_parseBandwidth level d
      | exact ensures_parseTimespec d
      | exact ensures_parseEncryption level d
      | exact hkeep _ ⟨rfl, rfl, rfl, rfl, rfl⟩

theorem parseToken_of_tokenLine {tok : Token} {level : Level} {d : Desc}
    {p : Parser (SdpResult × Desc)} (hp : tokenLine conf tok level d = some p) (s : CStr)
    (st : Stats) :
    ((parseToken conf tok level s d st).1, (parseToken conf tok level s d st).2.1) =
      match (p.run s st.numInvalidParam).1 with
      | .ok r => r
      | .error e => (e, d) := by
  simp only [parseToken, hp, outcomeOf]
  rcases (p.run s st.numInvalidParam).1 with e | r <;> rfl

/-- Lines that are neither media nor attribute lines leave the sections of the description and the
capability counters as they are. -/
theorem parseToken_other (conf : Conf) {tok : Token} (hm : tok ≠ .m) (ha : tok ≠ .a)
    (level : Level) (s : CStr) (d : Desc) (st : Stats) :
    KeepsSections d ((parseToken conf tok level s d st).1, (parseToken conf tok level s d st).2.1) := by
  have hsome : (tokenLine conf tok level d).isSome := by
    cases tok with
    | a => exact absurd rfl ha
    | _ => rfl
  obtain ⟨p, hp⟩ := Option.isSome_iff_exists.mp hsome
  have hspec := ensures_tokenLine hm hp s st.numInvalidParam
  rw [parseToken_of_tokenLine hp]
  cases hrun : (p.run s st.numInvalidParam).1 with
  | ok r => exact hspec.1 r hrun
  | error e => exact ⟨by rw [Known, hspec.2 e hrun]; nofun, .refl d⟩

/-! ## Media lines -/

theorem applyPort_attrs {m m' : Media} {num : List UInt32}
    (h : applyPort conf m num = some m') : m'.attrs = m.attrs := by
  unfold applyPort at h
  split at h
  case h_5 => cases h
  all_goals split_ifs at h <;> cases h <;> rfl

theorem ensures_parseMca (conf : Conf) (stale : CStr) :
    (parseMca conf stale).Ensures (fun o => ∀ m, o = some m → m.attrs = []) Refusal := by
  have hnone : (pure none : Parser (Option Media)).Ensures
      (fun o => ∀ m, o = some m → m.attrs = []) Refusal := Ensures.pure (by simp)
  unfold parseMca getNextStrTok
  refine (Ensures.token _ _).bind fun o _ => ?_
  cases o with
  | none => exact hnone
  | some media =>
  refine (Ensures.token _ _).bind fun o _ => ?_
  cases o with
  | none => exact hnone
  | some port =>
  refine (Ensures.token _ _).bind fun o _ => ?_
  cases o with
  | none => exact hnone
  | some transport =>
  dsimp only
  split
  · rename_i m hm
    have hattrs : m.attrs = [] := applyPort_attrs hm
    have hprofiles : ∀ t, (parseMultipleProfilePayloadTypes t).Ensures (fun _ => True) Refusal :=
      fun t => (Ensures.tokens _ _).bind fun _ _ => Ensures.pure trivial
    have hpayloads : ∀ media t, (parsePayloadTypes media t).Ensures (fun _ => True) Refusal :=
      fun media t => (Ensures.tokens _ _).bind fun _ _ => Ensures.pure trivial
    split_ifs
    · exact (hprofiles _).bind fun profiles _ => Ensures.pure (by simpa using hattrs)
    · exact (hpayloads _ _).bind fun payloads _ => Ensures.pure (by simpa using hattrs)
  · exact hnone

/-- The media line that a text stands for, as the one behind `k` media lines. -/
def mediaOf (conf : Conf) (k : ℕ) (s : CStr) : Option Media :=
  match ((parseMca conf (conf.stackBytes k)).run s 0).1 with
  | .ok o => o
  | .error _ => none

theorem mediaOf_attrs {k : ℕ} {s : CStr} {m : Media} (h : mediaOf conf k s = some m) : m.attrs = [] := by
  unfold mediaOf at h
  split at h
  · exact (ensures_parseMca conf _ s 0).1 _ ‹_› m h
  · cases h

/-- A media line that stands for a medium is parsed and appended to the list; another one is refused
and changes nothing. -/
theorem parseToken_media (conf : Conf) (level : Level) (s : CStr) (d : Desc) (st : Stats) :
    ((parseToken conf .m level s d st).1, (parseToken conf .m level s d st).2.1) =
      match mediaOf conf d.mcaCount.toNat s with
      | some m => (.success, { d with mca := d.mca ++ [m], mcaCount := d.mcaCount + 1 })
      | none => (.invalidParameter, d) := by
  have htoken : tokenLine conf .m level d = some (parseMedia conf d) := rfl
  have hrun : ∀ n, (parseMedia conf d).run s n = (parseMca conf (conf.stackBytes d.mcaCount.toNat)).run.bind
        (fun o => match o with
          | some m => (parsed { d with mca := d.mca ++ [m], mcaCount := d.mcaCount + 1 }).run
          | none => (refuse d).run) s n := by
    intro n
    change Scan.bind _ _ s n = _
    congr 1
    funext o
    cases o <;> rfl
  have herror := (ensures_parseMca conf (conf.stackBytes d.mcaCount.toNat) s st.numInvalidParam).2
  have houtcome := (parseMca conf (conf.stackBytes d.mcaCount.toNat)).outcome_eq 0 st.numInvalidParam (SameLine.refl s)
  rw [parseToken_of_tokenLine htoken, hrun, mediaOf, houtcome, Scan.bind]
  rcases hmca : (parseMca conf (conf.stackBytes d.mcaCount.toNat)).run s st.numInvalidParam with
    ⟨o, t, k⟩
  rw [hmca] at herror
  cases o with
  | error e =>
    rw [herror e rfl]
  | ok o =>
    cases o with
    | none => rfl
    | some m => rfl

theorem parseAttribute_result (conf : Conf) (level : Level) (s : CStr) (d : Desc) (n : UInt32) :
    Known (parseAttribute conf level s d n).1 := by
  unfold parseAttribute
  repeat' split
  all_goals nofun

theorem parseToken_known (conf : Conf) (tok : Token) (level : Level) (s : CStr) (d : Desc)
    (st : Stats) : Known (parseToken conf tok level s d st).1 := by
  by_cases hm : tok = .m
  · subst hm
    have hmedia := congrArg Prod.fst (parseToken_media conf level s d st)
    rw [hmedia]
    split <;> nofun
  · by_cases ha : tok = .a
    · subst ha
      exact parseAttribute_result conf level s d st.numInvalidParam
    · exact (parseToken_other conf hm ha level s d st).1

end Sdp
