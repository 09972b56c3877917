import Ikran.Sdp.Build

/-!
# The text of a description

What a description says, without a buffer: the lines of its tokens one after the other, up to the
first that cannot be built. `sdp_build` is then compared with it: whatever the size of the buffer,
the texts it asks `snprintf` to print are a beginning of this text, and no call is given less room
than there is.
-/

namespace Sdp

open CStr BoundedPrint

/-- The line of a plain attribute. -/
def attrText (a : Attr) : CStr := (buildAttr a).texts.flatten

/-- The line of a capability parameter. -/
def cparText (t : CapType) (a : Attr) : CStr := cparStart t ++ attrText a

/-- The lines of an attribute, with the capability number `n`. -/
def levelAttrText (n : UInt16) : LevelAttr → CStr
  | .plain a => attrText a
  | .cap t cap =>
    if !cap.validCap then []
    else (capTexts t n cap).flatten ++
      if cap.transport.isAal2 then [] else cap.attrs.flatMap (cparText t)

/-- The capability number behind an attribute. -/
def nextCapNum (n : UInt16) : LevelAttr → UInt16
  | .plain _ => n
  | .cap _ cap =>
    if !cap.validCap || cap.transport.isAal2 then n else n + UInt16.ofNat cap.payloads.length

/-- The attribute lines of a level, from the capability number `n` on. -/
def renderAttrs : UInt16 → List LevelAttr → CStr
  | _, [] => []
  | n, a :: attrs => levelAttrText n a ++ renderAttrs (nextCapNum n a) attrs

/-- The lines of a token at a level, and the result of building them. -/
def renderToken (conf : Conf) (roap : Option CStr) (d : Desc) (tok : Token) (level : Level) :
    SdpResult × CStr :=
  if tok = .a then
    match d.attrsOf level with
    | none => (.failure, [])
    | some attrs => (.success, renderAttrs 1 attrs)
  else ((buildLine conf roap d tok level).result, (buildLine conf roap d tok level).texts.flatten)

/-- The lines of several tokens, up to the first that cannot be built. -/
def renderCalls (conf : Conf) (roap : Option CStr) (d : Desc) :
    List (Token × Level) → SdpResult × CStr
  | [] => (.success, [])
  | (tok, level) :: calls =>
    let r := renderToken conf roap d tok level
    if r.1 = .success then
      ((renderCalls conf roap d calls).1, r.2 ++ (renderCalls conf roap d calls).2)
    else r

/-- The text of a description: the session lines in token order, then the lines of each media level.
-/
def render (conf : Conf) (roap : Option CStr) (d : Desc) : SdpResult × CStr :=
  renderCalls conf roap d (buildOrder d)

/-! ## The build functions print the rendering -/

theorem buildCpar_extends (t : CapType) (endp : ℕ) (attrs : List Attr) (o : Out) :
    Extends o (buildCpar t endp attrs o) (attrs.flatMap (cparText t)) := by
  induction attrs generalizing o with
  | nil => exact Extends.refl o
  | cons a attrs ih =>
    have hstart := Extends.snprintf endp (cparStart t) o
    have hline := Extends.print ((o.snprintf endp (cparStart t)).cur +
      room16 endp (o.snprintf endp (cparStart t)).cur) (buildAttr a).texts
      (o.snprintf endp (cparStart t))
    exact (hstart.trans hline).trans (ih _)

theorem buildCap_extends (t : CapType) (cap : Cap) (len : ℕ) (σ : AttrState) :
    Extends σ.out (buildCap t cap len σ).out (levelAttrText σ.curCapNum (.cap t cap)) := by
  unfold buildCap levelAttrText
  by_cases hvalid : cap.validCap = true
  · simp only [hvalid, Bool.not_true, Bool.false_eq_true, if_false]
    have hline := Extends.print (σ.out.cur + len) (capTexts t σ.curCapNum cap) σ.out
    by_cases haal : cap.transport.isAal2 = true
    · simpa only [haal, if_true, List.append_nil] using hline
    · simp only [haal]
      exact hline.trans (buildCpar_extends t _ cap.attrs _)
  · simpa only [hvalid, Bool.not_false, if_true] using Extends.refl σ.out

theorem buildLevelAttr_extends (len : ℕ) (σ : AttrState) (a : LevelAttr) :
    Extends σ.out (buildLevelAttr len σ a).out (levelAttrText σ.curCapNum a) := by
  cases a with
  | plain a => exact Extends.print _ _ _
  | cap t cap => exact buildCap_extends t cap len σ

theorem buildLevelAttr_curCapNum (len : ℕ) (σ : AttrState) (a : LevelAttr) :
    (buildLevelAttr len σ a).curCapNum = nextCapNum σ.curCapNum a := by
  cases a with
  | plain a => rfl
  | cap t cap =>
    by_cases hvalid : cap.validCap = true <;> by_cases haal : cap.transport.isAal2 = true <;>
      simp [buildLevelAttr, buildCap, nextCapNum, hvalid, haal]

theorem buildAttrs_extends (endp : ℕ) (attrs : List LevelAttr) (σ : AttrState) :
    Extends σ.out (buildAttrs endp attrs σ).out (renderAttrs σ.curCapNum attrs) := by
  induction attrs generalizing σ with
  | nil => exact Extends.refl σ.out
  | cons a attrs ih =>
    have hhead := buildLevelAttr_extends (room16 endp σ.out.cur) σ a
    have htail := ih (buildLevelAttr (room16 endp σ.out.cur) σ a)
    rw [buildLevelAttr_curCapNum] at htail
    exact hhead.trans htail

theorem buildToken_spec (conf : Conf) (roap : Option CStr) (d : Desc) (tok : Token) (level : Level)
    (len : ℕ) (o : Out) :
    (buildToken conf roap d tok level len o).1 = (renderToken conf roap d tok level).1 ∧
      Extends o (buildToken conf roap d tok level len o).2.2 (renderToken conf roap d tok level).2 := by
  unfold buildToken renderToken
  by_cases htok : tok = .a
  · simp only [htok, if_true, buildAttribute]
    cases hattrs : d.attrsOf level with
    | none => exact ⟨rfl, Extends.refl o⟩
    | some attrs => exact ⟨rfl, buildAttrs_extends _ attrs { out := o }⟩
  · simp only [htok, if_false, true_and]
    exact Extends.print _ _ _

/-- The loop of `sdp_build` prints a beginning of the rendering. When the cursor does not reach the
end of the buffer it prints all of it, and has its result. -/
theorem buildLoop_spec (conf : Conf) (roap : Option CStr) (d : Desc) (endp : ℕ)
    (calls : List (Token × Level)) (n : UInt32) (o : Out) :
    ∃ text, Extends o (buildLoop conf roap d endp calls .success n o).2.2 text ∧
      text <+: (renderCalls conf roap d calls).2 ∧
      ((buildLoop conf roap d endp calls .success n o).2.2.cur < endp →
        (buildLoop conf roap d endp calls .success n o).1 = (renderCalls conf roap d calls).1 ∧
          text = (renderCalls conf roap d calls).2) := by
  induction calls generalizing n o with
  | nil =>
    refine ⟨[], Extends.refl o, List.nil_prefix, ?_⟩
    intro _
    exact ⟨rfl, rfl⟩
  | cons call calls ih =>
    obtain ⟨tok, level⟩ := call
    by_cases hroom : o.cur < endp
    · obtain ⟨hresult, hext⟩ := buildToken_spec conf roap d tok level (room16 endp o.cur) o
      simp only [buildLoop, renderCalls, hroom, and_self, if_true]
      rw [hresult]
      by_cases hok : (renderToken conf roap d tok level).1 = .success
      · rw [if_pos hok, hok]
        obtain ⟨text, htail, htextpre, hall⟩ := ih (n + (buildToken conf roap d tok level (room16 endp o.cur) o).2.1)
            (buildToken conf roap d tok level (room16 endp o.cur) o).2.2
        refine ⟨_, hext.trans htail, List.prefix_append_right_inj _ |>.mpr htextpre, ?_⟩
        intro hcur
        obtain ⟨hres, htext⟩ := hall hcur
        exact ⟨hres, by rw [htext]⟩
      · -- the first line that cannot be built ends the loop
        rw [if_neg hok]
        have hstop : buildLoop conf roap d endp calls (renderToken conf roap d tok level).1
            (n + (buildToken conf roap d tok level (room16 endp o.cur) o).2.1)
            (buildToken conf roap d tok level (room16 endp o.cur) o).2.2 =
            ((renderToken conf roap d tok level).1, n + (buildToken conf roap d tok level (room16 endp o.cur) o).2.1,
              (buildToken conf roap d tok level (room16 endp o.cur) o).2.2) := by
          cases calls with
          | nil => rfl
          | cons call calls => simp [buildLoop, hok]
        rw [hstop]
        exact ⟨_, hext, List.prefix_rfl, fun _ => ⟨rfl, rfl⟩⟩
    · refine ⟨[], ?_, List.nil_prefix, ?_⟩
      · simpa [buildLoop, hroom] using Extends.refl o
      · intro hcur
        simp [buildLoop, hroom] at hcur

/-! ## No call has less room than there is -/

variable {endp : ℕ}

theorem buildCpar_generous {len : ℕ} (t : CapType) (attrs : List Attr) (o : Out)
    (hlt : endp - o.cur < 2 ^ 16) (hend : len ≤ endp ∨ len ≤ o.cur) :
    Added (Call.Generous len) o (buildCpar t endp attrs o) := by
  induction attrs generalizing o with
  | nil => exact Added.refl o
  | cons a attrs ih =>
    have hstart : Added (Call.Generous len) o (o.print endp [cparStart t]) := Added.print_generous hend _
    have hcur : o.cur ≤ (o.snprintf endp (cparStart t)).cur := (Extends.snprintf _ _ o).cur_le
    have hroom := endp_le_add_room16 endp (o.snprintf endp (cparStart t)).cur (by omega)
    have hline : Added (Call.Generous len) (o.snprintf endp (cparStart t)) _ :=
      @Added.print_generous ((o.snprintf endp (cparStart t)).cur +
        room16 endp (o.snprintf endp (cparStart t)).cur) len _ (by omega) (buildAttr a).texts
    have hcur' := (Extends.print ((o.snprintf endp (cparStart t)).cur +
      room16 endp (o.snprintf endp (cparStart t)).cur) (buildAttr a).texts
      (o.snprintf endp (cparStart t))).cur_le
    exact (hstart.trans hline).trans (ih _ (by omega) (by omega))

theorem buildLevelAttr_generous {len room : ℕ} (σ : AttrState) (a : LevelAttr)
    (hlt : room < 2 ^ 16) (hend : len ≤ σ.out.cur + room ∨ len ≤ σ.out.cur) :
    Added (Call.Generous len) σ.out (buildLevelAttr room σ a).out := by
  cases a with
  | plain a => exact Added.print_generous hend _
  | cap t cap =>
    simp only [buildLevelAttr, buildCap]
    by_cases hvalid : cap.validCap = true
    · simp only [hvalid, Bool.not_true, Bool.false_eq_true, if_false]
      have hline : Added (Call.Generous len) σ.out _ := Added.print_generous hend (capTexts t σ.curCapNum cap)
      by_cases haal : cap.transport.isAal2 = true
      · simpa only [haal, if_true] using hline
      · simp only [haal]
        have hcur := (Extends.print (σ.out.cur + room) (capTexts t σ.curCapNum cap) σ.out).cur_le
        exact hline.trans (buildCpar_generous t cap.attrs _ (by omega) (by omega))
    · simpa only [hvalid, Bool.not_false, if_true] using Added.refl σ.out

theorem buildAttrs_generous (attrs : List LevelAttr) (σ : AttrState) (hlt : endp - σ.out.cur < 2 ^ 16) :
    Added (Call.Generous endp) σ.out (buildAttrs endp attrs σ).out := by
  induction attrs generalizing σ with
  | nil => exact Added.refl σ.out
  | cons a attrs ih =>
    have hhead := buildLevelAttr_generous σ a (room16_lt endp σ.out.cur) (endp_le_add_room16 _ _ hlt)
    have hcur := (buildLevelAttr_extends (room16 endp σ.out.cur) σ a).cur_le
    exact hhead.trans (ih _ (by omega))

theorem buildToken_generous (conf : Conf) (roap : Option CStr) (d : Desc) (tok : Token)
    (level : Level) {o : Out} (hlt : endp < 2 ^ 16) (hcur : o.cur < endp) :
    Added (Call.Generous endp) o (buildToken conf roap d tok level (room16 endp o.cur) o).2.2 := by
  have hroom : room16 endp o.cur = endp - o.cur := room16_of_le (by omega) (by omega)
  have hend : o.cur + (endp - o.cur) = endp := by omega
  unfold buildToken
  by_cases htok : tok = .a
  · simp only [htok, if_true, buildAttribute, hroom, hend]
    cases hattrs : d.attrsOf level with
    | none => exact Added.refl o
    | some attrs => exact buildAttrs_generous attrs { out := o } (by simpa using by omega)
  · simp only [htok, if_false, hroom, hend]
    exact Added.print_generous (.inl le_rfl) _

theorem buildLoop_generous (conf : Conf) (roap : Option CStr) (d : Desc)
    (hlt : endp < 2 ^ 16) (calls : List (Token × Level)) (result : SdpResult) (n : UInt32)
    (o : Out) :
    Added (Call.Generous endp) o (buildLoop conf roap d endp calls result n o).2.2 := by
  induction calls generalizing result n o with
  | nil => exact Added.refl o
  | cons call calls ih =>
    obtain ⟨tok, level⟩ := call
    by_cases hgo : result = .success ∧ o.cur < endp
    · simp only [buildLoop, hgo, and_self, if_true]
      exact (buildToken_generous conf roap d tok level hlt hgo.2).trans (ih _ _ _)
    · simpa only [buildLoop, hgo, if_false] using Added.refl o

theorem build_out (conf : Conf) (roap : Option CStr) (d : Desc) (st : Stats) (len : UInt16) :
    (build conf roap d st len).out = (buildLoop conf roap d len.toNat (buildOrder d) .success 0 Out.start).2.2 := rfl

theorem build_result_eq_success_iff (conf : Conf) (roap : Option CStr) (d : Desc) (st : Stats) (len : UInt16) :
    (build conf roap d st len).result = .success ↔
      (buildLoop conf roap d len.toNat (buildOrder d) .success 0 Out.start).1 = .success ∧
        (build conf roap d st len).out.cur + 1 < len.toNat := by
  simp only [build]
  generalize buildLoop conf roap d len.toNat (buildOrder d) .success 0 Out.start = r
  by_cases hresult : r.1 = .success
  · simp [hresult]
  · simp [hresult]

theorem build_generous (conf : Conf) (roap : Option CStr) (d : Desc) (st : Stats) (len : UInt16) :
    ∀ c ∈ (build conf roap d st len).out.calls, c.Generous len.toNat := by
  rw [build_out]
  exact (buildLoop_generous conf roap d len.toNat_lt _ _ _ _).forall_mem (by simp [Out.start])

theorem build_success_iff (conf : Conf) (roap : Option CStr) (d : Desc) (st : Stats) (len : UInt16) :
    (build conf roap d st len).result = .success ↔
      (render conf roap d).1 = .success ∧ (render conf roap d).2.length + 1 < len.toNat := by
  obtain ⟨text, hext, htextpre, hall⟩ := buildLoop_spec conf roap d len.toNat (buildOrder d) 0 Out.start
  rw [← build_out conf roap d st len] at hext hall
  have hcur := hext.cur_eq
  simp only [Out.start, Nat.zero_add] at hcur
  rw [build_result_eq_success_iff]
  constructor
  · rintro ⟨hresult, hlen⟩
    obtain ⟨hres, rfl⟩ := hall (by omega)
    exact ⟨hres.symm.trans hresult, hcur ▸ hlen⟩
  · rintro ⟨hresult, hlen⟩
    have hle : text.length ≤ (render conf roap d).2.length := htextpre.length_le
    obtain ⟨hres, -⟩ := hall (by omega)
    exact ⟨hres.trans hresult, by omega⟩

theorem read_build (conf : Conf) (roap : Option CStr) (d : Desc) (st : Stats) (len : UInt16)
    (hresult : (build conf roap d st len).result = .success) (m : ℕ → Char) :
    readMem ((build conf roap d st len).out.memory m) (build conf roap d st len).out.cur = (render conf roap d).2 := by
  obtain ⟨text, hext, -, hall⟩ := buildLoop_spec conf roap d len.toNat (buildOrder d) 0 Out.start
  rw [← build_out conf roap d st len] at hext hall
  have hcur := ((build_result_eq_success_iff conf roap d st len).mp hresult).2
  obtain ⟨-, rfl⟩ := hall (by omega)
  exact hext.read_memory (build_generous conf roap d st len) (by omega) m

/-- The lines `sip_sdp_init` requires, and a direction. -/
def requiredDesc : Desc where
  ownerName := "-"
  ownerSessid := "1"
  ownerVersion := "1"
  ownerNetworkType := .internet
  ownerAddrType := .ip4
  ownerAddr := "h"
  timespecs := [{ startTime := "0", stopTime := "0" }]
  sessAttrs := [.plain (.direction .sendrecv)]

end Sdp
