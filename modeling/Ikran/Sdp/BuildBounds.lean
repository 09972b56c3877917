import Ikran.Sdp.Render

/-!
# The bounds of the builder

`sdp_build` recomputes the room left in the buffer before every attribute, as a pointer difference
cast to 16 bits, and hands a capability's parameters the room there was before the capability line.
This file says exactly when all the bounds it computes are right.
-/

namespace Sdp

open CStr BoundedPrint

/-- A line may start at `pos`: the difference to the end of the buffer survives the cast. Behind the
end that is so at multiples of 65536 bytes only. -/
def Placed (endp pos : ℕ) : Prop := pos ≤ endp ∨ (pos - endp) % 2 ^ 16 = 0

instance (endp pos : ℕ) : Decidable (Placed endp pos) := inferInstanceAs (Decidable (_ ∨ _))

/-- The parameters of a capability that starts without room, when `k` bytes have been printed behind
its line. Each starts with the text of its own that stands in front of the attribute. -/
def CparsFit (t : CapType) : ℕ → List Attr → Prop
  | _, [] => True
  | k, a :: attrs =>
    ((buildAttr a).texts = [] ∨ (k + (cparStart t).length) % 2 ^ 16 = 0) ∧
      CparsFit t (k + (cparText t a).length) attrs

/-- An attribute at `pos` gets its room right: it prints nothing, or is placed well. A capability
with parameters must start without room in the buffer, because the parameters are given the room it
started with. -/
def AttrFits (endp pos : ℕ) : LevelAttr → Prop
  | .plain a => (buildAttr a).texts = [] ∨ Placed endp pos
  | .cap t cap =>
    cap.validCap = false ∨
      Placed endp pos ∧
        (cap.transport.isAal2 ∨ cap.attrs = [] ∨ endp ≤ pos ∧ CparsFit t 0 cap.attrs)

/-- The attributes of a level, the first of which starts at `pos` with the capability number `n`. -/
def AttrsFit (endp : ℕ) : ℕ → UInt16 → List LevelAttr → Prop
  | _, _, [] => True
  | pos, n, a :: attrs =>
    AttrFits endp pos a ∧ AttrsFit endp (pos + (levelAttrText n a).length) (nextCapNum n a) attrs

/-- The lines of several tokens, the first of which starts at `pos`. Lines that the loop of
`sdp_build` does not come to do not matter. -/
def CallsFit (conf : Conf) (roap : Option CStr) (d : Desc) (endp : ℕ) :
    ℕ → List (Token × Level) → Prop
  | _, [] => True
  | pos, (tok, level) :: calls =>
    pos < endp →
      (tok = .a → ∀ attrs ∈ d.attrsOf level, AttrsFit endp pos 1 attrs) ∧
      ((renderToken conf roap d tok level).1 = .success →
        CallsFit conf roap d endp (pos + (renderToken conf roap d tok level).2.length) calls)

/-! ## The calls are within their room -/

/-- All calls made so far are within the room of a buffer of `len` bytes. -/
def Bounded (len : ℕ) (o : Out) : Prop := ∀ c ∈ o.calls, c.Within len

variable {endp : ℕ}

theorem bounded_print_iff {len : ℕ} {texts : List CStr} {o : Out} : Bounded len (o.print endp texts) ↔
      Bounded len o ∧ (texts = [] ∨ endp ≤ len ∨ endp ≤ o.cur) := by
  unfold Bounded
  rw [o.print_calls, List.forall_mem_append, printCalls_within_iff]

theorem bounded_print_room16_iff {texts : List CStr} {o : Out} (hlt : endp < 2 ^ 16) :
    Bounded endp (o.print (o.cur + room16 endp o.cur) texts) ↔ Bounded endp o ∧ (texts = [] ∨ Placed endp o.cur) := by
  have hroom := add_room16_le_iff endp o.cur (by omega)
  rw [bounded_print_iff]
  have hzero : o.cur + room16 endp o.cur ≤ o.cur ↔ room16 endp o.cur = 0 := by omega
  rw [hzero, hroom]
  rfl

theorem bounded_buildCpar_iff {len base : ℕ} (t : CapType) (attrs : List Attr) (o : Out)
    (hlen : len ≤ base) (hbase : base ≤ o.cur) :
    Bounded len (buildCpar t base attrs o) ↔ Bounded len o ∧ CparsFit t (o.cur - base) attrs := by
  induction attrs generalizing o with
  | nil => simp [buildCpar, CparsFit]
  | cons a attrs ih =>
    set o₁ := o.snprintf base (cparStart t) with ho₁
    set o₂ := o₁.print (o₁.cur + room16 base o₁.cur) (buildAttr a).texts with ho₂
    have hcur₁ : o₁.cur = o.cur + (cparStart t).length := rfl
    have hcur₂ : o₂.cur = o₁.cur + (attrText a).length := (Extends.print _ _ o₁).cur_eq
    have hstart : Bounded len o₁ ↔ Bounded len o := by
      have h := @bounded_print_iff base len [cparStart t] o
      simpa [hbase] using h
    have hline : Bounded len o₂ ↔ Bounded len o₁ ∧
        ((buildAttr a).texts = [] ∨ (o.cur - base + (cparStart t).length) % 2 ^ 16 = 0) := by
      rw [ho₂, bounded_print_iff]
      have hle : o₁.cur + room16 base o₁.cur ≤ len ∨ o₁.cur + room16 base o₁.cur ≤ o₁.cur ↔
          (o.cur - base + (cparStart t).length) % 2 ^ 16 = 0 := by
        have hpos : 0 < (cparStart t).length := by cases t <;> decide
        have hiff := add_room16_le_iff base o₁.cur (by omega)
        omega
      rw [hle]
    have hrec : buildCpar t base (a :: attrs) o = buildCpar t base attrs o₂ := rfl
    rw [hrec, ih o₂ (by omega), hline, hstart, CparsFit]
    have hpos : o₂.cur - base = o.cur - base + (cparText t a).length := by
      simp only [cparText, List.length_append]
      omega
    rw [hpos, and_assoc]

theorem not_bounded_buildCpar {len : ℕ} (t : CapType) {attrs : List Attr} {o : Out}
    (hne : attrs ≠ []) (hlen : len < endp) (hcur : o.cur < endp) :
    ¬Bounded len (buildCpar t endp attrs o) := by
  obtain ⟨a, attrs, rfl⟩ := List.exists_cons_of_ne_nil hne
  have hmono : ∀ attrs (o : Out), Bounded len (buildCpar t endp attrs o) → Bounded len o := by
    intro attrs
    induction attrs with
    | nil => exact fun o h => h
    | cons a attrs ih =>
      intro o h
      have h₂ := (bounded_print_iff.mp (ih _ h)).1
      exact (@bounded_print_iff endp _ [cparStart t] _).mp h₂ |>.1
  intro h
  have h₂ := (bounded_print_iff.mp (hmono attrs _ h)).1
  have h₁ := ((@bounded_print_iff endp _ [cparStart t] _).mp h₂).2
  simp only [reduceCtorEq, false_or] at h₁
  omega

theorem capTexts_length_pos (t : CapType) (n : UInt16) (cap : Cap) :
    capTexts t n cap ≠ [] ∧ 0 < (capTexts t n cap).flatten.length := by
  refine ⟨by simp [capTexts], ?_⟩
  simp only [capTexts, fmt, List.cons_append, List.flatten_cons, List.length_append]
  have htag : 0 < "a=".toList.length := by decide
  omega

theorem bounded_buildCap_iff (t : CapType) (cap : Cap) (σ : AttrState) (hlt : endp < 2 ^ 16) :
    Bounded endp (buildCap t cap (room16 endp σ.out.cur) σ).out ↔
      Bounded endp σ.out ∧ AttrFits endp σ.out.cur (.cap t cap) := by
  unfold buildCap AttrFits
  obtain ⟨hne, hpos⟩ := capTexts_length_pos t σ.curCapNum cap
  have hline := @bounded_print_room16_iff _ (capTexts t σ.curCapNum cap) σ.out hlt
  have hcur := (Extends.print (σ.out.cur + room16 endp σ.out.cur) (capTexts t σ.curCapNum cap) σ.out).cur_eq
  simp only [hne, false_or] at hline
  cases hvalid : cap.validCap with
  | false => simp [hvalid]
  | true =>
    cases haal : cap.transport.isAal2 with
    | true => simpa [hvalid, haal] using hline
    | false =>
      simp only [hvalid, haal, Bool.not_true, Bool.false_eq_true, if_false, false_or, reduceCtorEq]
      set o₁ := σ.out.print (σ.out.cur + room16 endp σ.out.cur) (capTexts t σ.curCapNum cap) with ho₁
      by_cases hattrs : cap.attrs = []
      · simpa [hattrs, buildCpar] using hline
      · by_cases hpast : endp ≤ σ.out.cur
        · -- no room at the start: the parameters are given none either
          by_cases hplaced : Placed endp σ.out.cur
          · have hzero : room16 endp σ.out.cur = 0 := by
              have hiff := add_room16_le_iff endp σ.out.cur (by omega)
              unfold Placed at hplaced
              omega
            rw [hzero, Nat.add_zero, bounded_buildCpar_iff t cap.attrs o₁ (by omega) le_rfl, hline]
            simp [hplaced, hattrs, hpast]
          · have hnot : ¬Bounded endp o₁ := fun h => hplaced (hline.mp h).2
            refine iff_of_false (fun h => ?_) (fun h => hplaced h.2.1)
            by_cases hreach : o₁.cur < o₁.cur + room16 endp σ.out.cur
            · exact not_bounded_buildCpar t hattrs (by omega) hreach h
            · have hzero : o₁.cur + room16 endp σ.out.cur = o₁.cur := by omega
              rw [hzero, bounded_buildCpar_iff t cap.attrs o₁ (by omega) le_rfl] at h
              exact hnot h.1
        · -- room at the start: it is too much behind the capability line
          have hroom : room16 endp σ.out.cur = endp - σ.out.cur := room16_of_le (by omega) (by omega)
          have hnot := @not_bounded_buildCpar (o₁.cur + room16 endp σ.out.cur) endp t _ o₁ hattrs (by omega) (by omega)
          simp [hnot, hattrs, hpast]

theorem bounded_buildLevelAttr_iff (a : LevelAttr) (σ : AttrState) (hlt : endp < 2 ^ 16) :
    Bounded endp (buildLevelAttr (room16 endp σ.out.cur) σ a).out ↔ Bounded endp σ.out ∧ AttrFits endp σ.out.cur a := by
  cases a with
  | plain a => exact bounded_print_room16_iff hlt
  | cap t cap => exact bounded_buildCap_iff t cap σ hlt

theorem bounded_buildAttrs_iff (attrs : List LevelAttr) (σ : AttrState) (hlt : endp < 2 ^ 16) :
    Bounded endp (buildAttrs endp attrs σ).out ↔ Bounded endp σ.out ∧ AttrsFit endp σ.out.cur σ.curCapNum attrs := by
  induction attrs generalizing σ with
  | nil => simp [buildAttrs, AttrsFit]
  | cons a attrs ih =>
    have hhead := bounded_buildLevelAttr_iff a σ hlt
    have hcur := (buildLevelAttr_extends (room16 endp σ.out.cur) σ a).cur_eq
    have hrec : buildAttrs endp (a :: attrs) σ =
        buildAttrs endp attrs (buildLevelAttr (room16 endp σ.out.cur) σ a) := rfl
    rw [hrec, ih, hhead, hcur, buildLevelAttr_curCapNum, AttrsFit, and_assoc]

/-- A token that is built inside the buffer keeps the calls within their room, unless it is a list of
attributes that does not fit. -/
theorem bounded_buildToken_iff (conf : Conf) (roap : Option CStr) (d : Desc) (tok : Token)
    (level : Level) {o : Out} (hlt : endp < 2 ^ 16) (hcur : o.cur < endp) :
    Bounded endp (buildToken conf roap d tok level (room16 endp o.cur) o).2.2 ↔
      Bounded endp o ∧ (tok = .a → ∀ attrs ∈ d.attrsOf level, AttrsFit endp o.cur 1 attrs) := by
  have hroom : room16 endp o.cur = endp - o.cur := room16_of_le (by omega) (by omega)
  have hend : o.cur + (endp - o.cur) = endp := by omega
  unfold buildToken
  by_cases htok : tok = .a
  · simp only [htok, if_true, buildAttribute, hroom, hend, forall_const]
    cases hattrs : d.attrsOf level with
    | none => simp
    | some attrs => simpa using bounded_buildAttrs_iff attrs { out := o } hlt
  · simp [htok, hroom, hend, bounded_print_iff]

theorem bounded_buildLoop_iff (conf : Conf) (roap : Option CStr) (d : Desc)
    (hlt : endp < 2 ^ 16) (calls : List (Token × Level)) (n : UInt32) (o : Out) :
    Bounded endp (buildLoop conf roap d endp calls .success n o).2.2 ↔
      Bounded endp o ∧ CallsFit conf roap d endp o.cur calls := by
  induction calls generalizing n o with
  | nil => simp [buildLoop, CallsFit]
  | cons call calls ih =>
    obtain ⟨tok, level⟩ := call
    by_cases hroom : o.cur < endp
    · obtain ⟨hresult, hext⟩ := buildToken_spec conf roap d tok level (room16 endp o.cur) o
      have htoken := bounded_buildToken_iff conf roap d tok level hlt hroom
      simp only [buildLoop, CallsFit, hroom, and_self, if_true, forall_const]
      rw [hresult]
      by_cases hok : (renderToken conf roap d tok level).1 = .success
      · rw [hok, ih, htoken, hext.cur_eq, and_assoc]
        simp
      · have hstop : ∀ m o', (buildLoop conf roap d endp calls (renderToken conf roap d tok level).1
            m o').2.2 = o' := by
          intro m o'
          cases calls with
          | nil => rfl
          | cons call calls => simp [buildLoop, hok]
        rw [hstop, htoken]
        simp [hok]
    · simp [buildLoop, CallsFit, hroom]

/-- Every `snprintf` call of `sdp_build` has a size argument of at most the room really left, and so
stores nothing behind the buffer, exactly when the lines of the description fit: no attribute line
starts behind the end of the buffer, but for multiples of 65536 bytes, and no capability line with
parameters starts in front of it. -/
theorem build_within_iff (conf : Conf) (roap : Option CStr) (d : Desc) (st : Stats)
    (len : UInt16) :
    (∀ c ∈ (build conf roap d st len).out.calls,
        c.Within len.toNat ∧ ∀ i, c.Touches i → i < len.toNat) ↔
      CallsFit conf roap d len.toNat 0 (buildOrder d) := by
  have hstart : Bounded len.toNat Out.start := by simp [Bounded, Out.start]
  have hloop := bounded_buildLoop_iff conf roap d len.toNat_lt (buildOrder d) 0 Out.start
  rw [← build_out conf roap d st len] at hloop
  have hiff : Bounded len.toNat (build conf roap d st len).out ↔
      CallsFit conf roap d len.toNat 0 (buildOrder d) :=
    hloop.trans (and_iff_right hstart)
  rw [← hiff]
  refine ⟨fun h c hc => (h c hc).1, fun h c hc => ⟨h c hc, ?_⟩⟩
  intro i hi
  exact (h c hc).lt_of_touches hi

/-- Into 36 bytes the version, owner and time lines fit, and the direction line does not. The next
line starts behind the end, is offered 65530 bytes, and is stored behind the buffer. -/
theorem not_build_within_two_directions :
    ∃ c ∈ (build sipSdpInit none
        { requiredDesc with sessAttrs := List.replicate 2 (.plain (.direction .sendrecv)) }
        {} 36).out.calls,
      ¬c.Within 36 ∧ c.Touches 42 := by
  exact ⟨⟨42, 65530, "a=sendrecv\r\n"⟩, by decide, by decide, by decide⟩

end Sdp
