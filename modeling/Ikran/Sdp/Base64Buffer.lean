import Ikran.Sdp.Base64Decode

/-!
# What `base64_decode` reads, and what it accepts

The first padding character may be followed by one other byte, which is looked up in a table of 128 values without
a check of its top bit; so is the byte behind a character that fills the destination. And the end of the text is
judged by the number of bytes that are finished: a character that begins a group of its own is dropped.
-/

namespace Base64.Buffer

variable {beyond : UInt8 → UInt8} {size i : ℕ} {d d' : Decoder} {vs rest text : List UInt8} {v c : UInt8}

/-- Text that the loop does not simply decode: its first byte is not white space, nor a character that there is
room for. -/
def Stops (size k : ℕ) : List UInt8 → Prop
  | [] => True
  | c :: _ => isSpace c = false ∧ ∀ v, sextet c = some v → ¬Fits size (k + 1)

theorem exists_stop (text : List UInt8) (hfits : Fits size vs.length) :
    ∃ front tail, text = front ++ tail ∧ Plain front ∧ Fits size (vs ++ values front).length ∧
      Stops size (vs ++ values front).length tail := by
  induction text generalizing vs with
  | nil => exact ⟨[], [], rfl, fun _ hc => (nomatch hc), by simpa [values] using hfits, trivial⟩
  | cons c text ih =>
    have hcons : ∀ {front : List UInt8}, (sextet c).isSome ∨ isSpace c → Plain front → Plain (c :: front) :=
      fun hc hfront => List.forall_mem_cons.mpr ⟨hc, hfront⟩
    cases hc : sextet c with
    | none =>
      cases hspace : isSpace c with
      | true =>
        obtain ⟨front, tail, rfl, hplain, hroom, hstop⟩ := ih hfits
        have hvalues : values (c :: front) = values front := List.filterMap_cons_none hc
        exact ⟨c :: front, tail, rfl, hcons (.inr hspace) hplain, hvalues ▸ hroom, hvalues ▸ hstop⟩
      | false =>
        refine ⟨[], c :: text, rfl, fun _ hc => (nomatch hc), by simpa [values] using hfits, hspace, fun v hv => ?_⟩
        exact (nomatch hc.symm.trans hv)
    | some v =>
      by_cases hnext : Fits size (vs.length + 1)
      · have hone : Fits size (vs ++ [v]).length := by rwa [List.length_append, List.length_singleton]
        obtain ⟨front, tail, rfl, hplain, hroom, hstop⟩ := ih hone
        have hvalues : values (c :: front) = v :: values front := List.filterMap_cons_some hc
        rw [← List.append_cons, ← hvalues] at hroom hstop
        exact ⟨c :: front, tail, rfl, hcons (.inl (by rw [hc]; rfl)) hplain, hroom, hstop⟩
      · refine ⟨[], c :: text, rfl, fun _ hc => (nomatch hc), by simpa [values] using hfits, ?_, fun _ _ => ?_⟩
        · rcases toRaw_cases id (lt_of_sextet hc) with h | h | h | ⟨w, -, h, -⟩
          · exact h.2.1
          · exact (nomatch hc.symm.trans h.1)
          · exact h.2.1
          · exact h
        · simpa [values] using hnext

/-! ## Accesses -/

/-- Every access is in its bounds. -/
def IndexSafe (beyond : UInt8 → UInt8) (size : ℕ) (dest : ℕ → UInt8) (src : List UInt8) (srcBytes : ℕ) :
    Prop :=
  ∀ a ∈ (decode beyond size dest src srcBytes).accesses, a.Within srcBytes size

/-- A byte that is no ASCII character stands behind the first padding character, or behind the character that fills
the destination, or behind that and a padding character. -/
def Exposed (size : ℕ) (text : List UInt8) : Prop :=
  ∃ front, Plain front ∧ Fits size (values front).length ∧ ∃ b rest, 128 ≤ b ∧
    (text = front ++ equals :: b :: rest ∨
      ∃ c v, sextet c = some v ∧ Fills size (values front).length v ∧
        (text = front ++ c :: b :: rest ∨ text = front ++ c :: equals :: b :: rest))

variable {a : Access}

theorem mem_finish {k : ℕ} : a ∈ (d.finish k).accesses ↔ a ∈ d.accesses := by
  rw [Decoder.finish]
  split_ifs <;> rfl

theorem mem_fail {r : Result} : a ∈ (d.fail r).accesses ↔ a ∈ d.accesses := Iff.rfl

theorem mem_read {as : List Access} : a ∈ (d.read as).accesses ↔ a ∈ d.accesses ∨ a ∈ as := List.mem_append

theorem mem_decodePadding : a ∈ (decodePadding beyond i d rest).accesses ↔
    a ∈ d.accesses ∨ ∃ b ∈ rest.head?, a = .src (i + 1) ∨ a = .table b.toNat := by
  cases rest with
  | nil => simp [decodePadding, mem_finish]
  | cons b rest =>
    simp only [decodePadding, List.head?_cons, Option.mem_def, Option.some.injEq, exists_eq_left']
    split_ifs <;> simp [mem_finish, mem_fail, mem_read]

theorem mem_lookAhead {bits : UInt8} : a ∈ (lookAhead beyond i bits d rest).1.accesses ↔
    a ∈ d.accesses ∨ bits = 0 ∧ ∃ b ∈ rest.head?, a = .src (i + 1) ∨ a = .table b.toNat := by
  cases rest with
  | nil => simp [lookAhead]
  | cons b rest =>
    by_cases hbits : bits = 0 <;> simp [lookAhead, hbits, mem_read]

theorem lookAhead_eq_true {bits : UInt8} (h : lookAhead beyond i bits d rest = (d', true)) :
    bits = 0 ∧ ∃ b rest', rest = b :: rest' ∧ toRaw beyond b = padding ∧
      d' = d.read [.src (i + 1), .table b.toNat] := by
  cases rest with
  | nil => exact (nomatch h)
  | cons b rest =>
    rw [lookAhead] at h
    split_ifs at h with hbits
    · exact (nomatch h)
    · obtain ⟨rfl, hraw⟩ := Prod.mk.inj h
      exact ⟨not_not.mp hbits, b, rest, rfl, of_decide_eq_true hraw, rfl⟩

theorem eq_equals (hlt : c < 128) (hraw : toRaw beyond c = padding) : c = equals := by
  rcases toRaw_cases beyond hlt with h | h | h | ⟨v, h⟩
  · exact absurd (h.2.2.2.symm.trans hraw) (by decide)
  · exact absurd (h.2.2.2.symm.trans hraw) (by decide)
  · exact h.2.2.1
  · exact absurd h.2.2.2.2 (h.2.2.2.1.symm.trans hraw ▸ by decide)

/-- The byte that is looked up is no ASCII character, at the end of the text that is decoded. -/
def TailExposed (size k : ℕ) (text : List UInt8) : Prop :=
  ∃ b rest, 128 ≤ b ∧ (text = equals :: b :: rest ∨
    ∃ c v, sextet c = some v ∧ Fills size k v ∧ (text = c :: b :: rest ∨ text = c :: equals :: b :: rest))

theorem within_table {b : UInt8} {n : ℕ} : Access.Within n size (.table b.toNat) ↔ ¬128 ≤ b := by
  rw [UInt8.not_le, UInt8.lt_iff_toNat_lt]
  rfl

theorem within_next {n : ℕ} (hlt : ∀ b ∈ rest.head?, ¬128 ≤ b) (hn : i + 1 + rest.length ≤ n)
    (h : ∃ b ∈ rest.head?, a = .src (i + 1) ∨ a = .table b.toNat) : a.Within n size := by
  obtain ⟨b, hb, rfl | rfl⟩ := h
  · have hpos : 0 < rest.length := List.length_pos_of_mem (List.mem_of_mem_head? hb)
    rw [Access.Within]
    omega
  · exact within_table.mpr (hlt b hb)

/-- Where the loop stops, every access is in its bounds if no other byte is looked up. -/
theorem within_of_not_tailExposed (h : d.Used vs) (hfits : Fits size vs.length) (hstop : Stops size vs.length text)
    (hexposed : ¬TailExposed size vs.length text)
    (ha : a ∈ (decodeFrom beyond size i d text).accesses) : a ∈ d.accesses ∨ a.Within (i + text.length) size := by
  cases text with
  | nil => exact .inl (mem_finish.mp ha)
  | cons c rest =>
    have hlen : i + (c :: rest).length = i + 1 + rest.length := by
      rw [List.length_cons]
      omega
    have hsrc : Access.Within (i + (c :: rest).length) size (.src i) := by
      rw [Access.Within]
      omega
    by_cases hc : 128 ≤ c
    · rw [decodeFrom_beyond hc, mem_fail, mem_read, List.mem_singleton] at ha
      rcases ha with ha | rfl
      · exact .inl ha
      · exact .inr hsrc
    have htable : Access.Within (i + (c :: rest).length) size (.table c.toNat) := within_table.mpr hc
    -- what is read in front of the handling of the character
    have hread : ∀ {P : Prop}, (a ∈ ((d.read [.src i]).read [.table c.toNat]).accesses ∨ P) →
        a ∈ d.accesses ∨ a.Within (i + (c :: rest).length) size ∨ P := by
      intro P hmem
      rw [mem_read, mem_read, List.mem_singleton, List.mem_singleton] at hmem
      rcases hmem with ((hmem | rfl) | rfl) | hP
      · exact .inl hmem
      · exact .inr (.inl hsrc)
      · exact .inr (.inl htable)
      · exact .inr (.inr hP)
    cases hsextet : sextet c with
    | none =>
      by_cases heq : c = equals
      · subst heq
        have hnext : ∀ b ∈ rest.head?, ¬128 ≤ b := fun b hb hge => hexposed
          ⟨b, rest.tail, hge, .inl (by rw [List.cons_head?_tail hb])⟩
        rw [decodeFrom_equals, mem_decodePadding] at ha
        exact (hread ha).imp_right fun hor => hor.elim id (within_next hnext (Nat.le_of_eq hlen.symm))
      · rw [decodeFrom_invalid (UInt8.not_le.mp hc) hsextet hstop.1 heq, mem_fail] at ha
        exact (hread (P := False) (.inl ha)).imp_right fun hor => hor.resolve_right id
    | some v =>
      have hused : ((d.read [.src i]).read [.table c.toNat]).Used vs := (h.read _).read _
      rw [decodeFrom_sextet hsextet] at ha
      rcases store_of_not_fits beyond i v rest hused hfits (hstop.2 v hsextet) with
        ⟨-, hstore⟩ | ⟨x, hmod, hsize, hj, -, hstore⟩
      · rw [hstore, mem_fail] at ha
        exact (hread (P := False) (.inl ha)).imp_right fun hor => hor.resolve_right id
      · -- the destination is full, and the next byte is looked at
        generalize hbitsdef : (if vs.length % 4 = 1 then v &&& 0x0F else v &&& 0x03) = bits at hstore
        have hfills : bits = 0 → Fills size vs.length v := by
          rintro rfl
          refine ⟨hmod.imp (fun h1 => ⟨h1, ?_⟩) fun h2 => ⟨h2, ?_⟩, hsize⟩
          · rwa [if_pos h1] at hbitsdef
          · rwa [if_neg (by omega)] at hbitsdef
        have hfill : a ∈ (((d.read [.src i]).read [.table c.toNat]).fill x).accesses →
            a ∈ d.accesses ∨ a.Within (i + (c :: rest).length) size := by
          intro hmem
          rcases List.mem_append.mp hmem with hmem | hmem
          · exact (hread (P := False) (.inl hmem)).imp_right fun hor => hor.resolve_right id
          · rw [List.mem_singleton] at hmem
            exact .inr (hmem ▸ hj)
        cases hla : lookAhead beyond i bits (((d.read [.src i]).read [.table c.toNat]).fill x) rest with
        | mk d' stored =>
          have hmem' : a ∈ d'.accesses → a ∈ d.accesses ∨ a.Within (i + (c :: rest).length) size := by
            intro hmem
            have heq : d' = (lookAhead beyond i bits (((d.read [.src i]).read [.table c.toNat]).fill x) rest).1 := by
              rw [hla]
            rw [heq, mem_lookAhead] at hmem
            rcases hmem with hmem | ⟨hbits, hnext⟩
            · exact hfill hmem
            · refine .inr (within_next (fun b hb hge => ?_) (Nat.le_of_eq hlen.symm) hnext)
              exact hexposed ⟨b, rest.tail, hge, .inr ⟨c, v, hsextet, hfills hbits,
                .inl (by rw [List.cons_head?_tail hb])⟩⟩
          rw [hstore, hla] at ha
          cases stored with
          | false => exact hmem' (mem_fail.mp ha)
          | true =>
            obtain ⟨hbits, b, rest', rfl, hraw, -⟩ := lookAhead_eq_true hla
            have hb : ¬128 ≤ b := fun hge => hexposed
              ⟨b, rest', hge, .inr ⟨c, v, hsextet, hfills hbits, .inl rfl⟩⟩
            obtain rfl := eq_equals (UInt8.not_le.mp hb) hraw
            have hlen' : i + (c :: equals :: rest').length = i + 1 + 1 + rest'.length := by
              rw [List.length_cons, List.length_cons]
              omega
            simp only at ha
            rw [decodeFrom_equals, mem_decodePadding, mem_read, mem_read, List.mem_singleton, List.mem_singleton] at ha
            rcases ha with ((ha | rfl) | rfl) | hnext
            · exact hmem' ha
            · refine .inr ?_
              rw [Access.Within]
              omega
            · exact .inr (by decide : (61 : ℕ) < 128)
            · refine .inr (within_next (fun b hb hge => ?_) (Nat.le_of_eq hlen'.symm) hnext)
              exact hexposed ⟨b, rest'.tail, hge, .inr ⟨c, v, hsextet, hfills hbits,
                .inr (by rw [List.cons_head?_tail hb])⟩⟩

theorem mem_of_tailExposed (beyond : UInt8 → UInt8) (i : ℕ) (h : d.Used vs) (hfits : Fits size vs.length)
    (hexposed : TailExposed size vs.length text) :
    ∃ b : UInt8, 128 ≤ b ∧ .table b.toNat ∈ (decodeFrom beyond size i d text).accesses := by
  obtain ⟨b, rest, hb, rfl | ⟨c, v, hsextet, hfills, htext⟩⟩ := hexposed
  · refine ⟨b, hb, ?_⟩
    rw [decodeFrom_equals, mem_decodePadding]
    exact .inr ⟨b, rfl, .inr rfl⟩
  · have hnext : ¬Fits size (vs.length + 1) := by
      obtain ⟨hmod, hsize⟩ := hfills
      rw [Fits]
      omega
    have hused : ((d.read [.src i]).read [.table c.toNat]).Used vs := (h.read _).read _
    have hbits : (if vs.length % 4 = 1 then v &&& 0x0F else v &&& 0x03) = 0 := by
      rcases hfills.1 with ⟨h1, hzero⟩ | ⟨h2, hzero⟩
      · rw [if_pos h1, hzero]
      · rw [if_neg (by omega), hzero]
    -- the destination is full, and no bits are left
    have hstored : ∀ b' rest', ∃ x, store beyond size i v ((d.read [.src i]).read [.table c.toNat]) (b' :: rest') =
        ((((d.read [.src i]).read [.table c.toNat]).fill x).read [.src (i + 1), .table b'.toNat],
          decide (toRaw beyond b' = padding)) := by
      intro b' rest'
      rcases store_of_not_fits beyond i v (b' :: rest') hused hfits hnext with
        ⟨hzero, -⟩ | ⟨x, -, -, -, -, hstore⟩
      · rcases hfills.1 with ⟨h1, -⟩ | ⟨h2, -⟩ <;> omega
      · refine ⟨x, ?_⟩
        rw [hstore, hbits, lookAhead, if_neg (by simp)]
    refine ⟨b, hb, ?_⟩
    rcases htext with rfl | rfl
    · obtain ⟨x, hstore⟩ := hstored b rest
      rw [decodeFrom_sextet hsextet, hstore]
      have hlooked : .table b.toNat ∈
          ((((d.read [.src i]).read [.table c.toNat]).fill x).read [.src (i + 1), .table b.toNat]).accesses :=
        mem_read.mpr (.inr (List.mem_cons_of_mem _ List.mem_cons_self))
      cases hraw : decide (toRaw beyond b = padding) with
      | false => exact mem_fail.mpr hlooked
      | true =>
        simp only
        rw [decodeFrom_beyond hb, mem_fail, mem_read]
        exact .inl hlooked
    · obtain ⟨x, hstore⟩ := hstored equals (b :: rest)
      rw [decodeFrom_sextet hsextet, hstore, show toRaw beyond equals = padding from rfl, decide_eq_true rfl]
      simp only
      rw [decodeFrom_equals, mem_decodePadding]
      exact .inr ⟨b, rfl, .inr rfl⟩

/-- **Every access of `base64_decode` is in its bounds** exactly when no byte that is no ASCII character stands where
one is looked up without a check: behind the first padding character, and behind a character that fills the
destination. -/
theorem indexSafe_iff (beyond : UInt8 → UInt8) (size : ℕ) (dest : ℕ → UInt8) (src : List UInt8) (srcBytes : ℕ)
    (hsrc : srcBytes ≤ src.length) :
    IndexSafe beyond size dest src srcBytes ↔ ¬Exposed size (src.take srcBytes) := by
  have hlen : (src.take srcBytes).length = srcBytes := List.length_take_of_le hsrc
  have hused : ({ dest } : Decoder).Used [] := ⟨rfl, rfl, fun hne => absurd rfl hne⟩
  constructor
  · rintro hsafe ⟨front, hplain, hfits, b, rest, hb, htext⟩
    obtain ⟨tail, heq, htail⟩ : ∃ tail, src.take srcBytes = front ++ tail ∧
        TailExposed size (values front).length tail := by
      rcases htext with htext | ⟨c, v, hsextet, hfills, htext | htext⟩
      · exact ⟨_, htext, b, rest, hb, .inl rfl⟩
      · exact ⟨_, htext, b, rest, hb, .inr ⟨c, v, hsextet, hfills, .inl rfl⟩⟩
      · exact ⟨_, htext, b, rest, hb, .inr ⟨c, v, hsextet, hfills, .inr rfl⟩⟩
    obtain ⟨d', hrun, hused', -⟩ := decodeFrom_append beyond 0 front tail hplain hused hfits
    obtain ⟨b, hb, hmem⟩ := mem_of_tailExposed beyond (0 + front.length) hused' hfits htail
    have hwithin := hsafe (.table b.toNat)
    rw [decode, heq, hrun] at hwithin
    exact within_table.mp (hwithin hmem) hb
  · intro hexposed a ha
    have hempty : Fits size ([] : List UInt8).length := by simp [Fits]
    obtain ⟨front, tail, heq, hplain, hfits, hstop⟩ := exists_stop (src.take srcBytes) hempty
    rw [List.nil_append] at hfits hstop
    obtain ⟨d', hrun, hused', as, hacc, has⟩ :=
      decodeFrom_append beyond 0 front tail hplain hused hfits
    have htail : ¬TailExposed size (values front).length tail := by
      rintro ⟨b, rest, hb, rfl | ⟨c, v, hsextet, hfills, rfl | rfl⟩⟩
      · exact hexposed ⟨front, hplain, hfits, b, rest, hb, .inl heq⟩
      · exact hexposed ⟨front, hplain, hfits, b, rest, hb, .inr ⟨c, v, hsextet, hfills, .inl heq⟩⟩
      · exact hexposed ⟨front, hplain, hfits, b, rest, hb, .inr ⟨c, v, hsextet, hfills, .inr heq⟩⟩
    have hlen' : 0 + front.length + tail.length = srcBytes := by
      rw [← hlen, heq, List.length_append]
      omega
    rw [decode, heq, hrun] at ha
    rw [List.nil_append] at hused'
    rcases within_of_not_tailExposed hused' hfits hstop htail ha with ha | ha
    · rw [hacc, List.mem_append] at ha
      have hwithin := has a (ha.resolve_left List.not_mem_nil)
      cases a with
      | src n =>
        rw [Access.Within] at hwithin ⊢
        omega
      | table n | dest n => exact hwithin
    · exact hlen' ▸ ha

/-- The text of a key, in full groups. -/
def keyText : List UInt8 := [65, 81, 73, 68]

theorem indexSafe_keyText : IndexSafe id 3 (fun _ => 0) keyText 4 := by
  refine (indexSafe_iff id 3 (fun _ => 0) keyText 4 (by decide)).mpr ?_
  rintro ⟨front, -, -, b, rest, hb, htext⟩
  have hall : ∀ b ∈ keyText.take 4, ¬128 ≤ b := by decide +kernel
  rcases htext with htext | ⟨c, v, -, -, htext | htext⟩ <;>
    exact hall b (by rw [htext]; simp) hb

/-- A byte behind the first padding character is looked up behind the table. -/
theorem not_indexSafe : ¬∀ (beyond : UInt8 → UInt8) (size : ℕ) (dest : ℕ → UInt8) (src : List UInt8)
    (srcBytes : ℕ), srcBytes ≤ src.length → IndexSafe beyond size dest src srcBytes := by
  intro h
  have hsafe := h id 3 (fun _ => 0) [equals, 128] 2 (by decide)
  have hmem : Access.table 128 ∈ (decode id 3 (fun _ => 0) [equals, 128] 2).accesses := by decide
  exact absurd (hsafe _ hmem) (by decide : ¬128 < 128)

/-! ## What is accepted -/

/-- What is accepted into a destination that is large enough is Base64, and is decoded to what it stands for. -/
def AcceptsBase64 (text : List UInt8) : Prop :=
  ∀ (beyond : UInt8 → UInt8) (size : ℕ) (dest : ℕ → UInt8), (3 * text.length + 3) / 4 ≤ size →
    (decode beyond size dest text text.length).result = .success →
    Denotes (text.filter fun c => !isSpace c) (decode beyond size dest text text.length).bytes

/-- A character of the alphabet begins a group at the end of the text, where there is no padding. -/
def Truncated (text : List UInt8) : Prop :=
  Plain text ∧ (values text).length % 4 = 1

/-- A byte that is no ASCII character stands for the second padding character. -/
def BadlyPadded (text : List UInt8) : Prop :=
  ∃ front b, text = front ++ [equals, b] ∧ Plain front ∧ (values front).length % 4 = 2 ∧ 128 ≤ b

theorem values_filter (text : List UInt8) : values (text.filter fun c => !isSpace c) = values text := by
  induction text with
  | nil => rfl
  | cons c text ih =>
    cases hspace : isSpace c with
    | true =>
      have hnone : sextet c = none := by
        rcases toRaw_cases id (lt_of_isSpace hspace) with h | h | h | ⟨v, -, h, -⟩
        · exact h.1
        · exact h.1
        · exact h.1
        · exact absurd (hspace.symm.trans h) (by decide)
      rw [List.filter_cons_of_neg (by simp [hspace]), ih, values, values, List.filterMap_cons_none hnone]
    | false =>
      rw [List.filter_cons_of_pos (by simp [hspace])]
      cases hc : sextet c with
      | none => rw [values, values, List.filterMap_cons_none hc, List.filterMap_cons_none hc, ← values, ih, values]
      | some v => rw [values, values, List.filterMap_cons_some hc, List.filterMap_cons_some hc, ← values, ih, values]

theorem Denotes.length_values {bytes : List UInt8} (h : Denotes text bytes) :
    (values text).length % 4 ≠ 1 ∧ ∀ c ∈ text, c < 128 := by
  have heq : equals < 128 := by decide
  induction h with
  | nil => exact ⟨by decide, fun _ hc => absurd hc List.not_mem_nil⟩
  | group ha hb hc hd _ ih =>
    refine ⟨?_, ?_⟩
    · rw [values, List.filterMap_cons_some ha, List.filterMap_cons_some hb, List.filterMap_cons_some hc,
        List.filterMap_cons_some hd, ← values]
      simp only [List.length_cons]
      omega
    · simpa [lt_of_sextet ha, lt_of_sextet hb, lt_of_sextet hc, lt_of_sextet hd] using ih.2
  | padded ha hb hc =>
    refine ⟨?_, by simp [lt_of_sextet ha, lt_of_sextet hb, lt_of_sextet hc, heq]⟩
    simp [values, ha, hb, hc, show sextet equals = none from rfl]
  | paddedTwice ha hb =>
    refine ⟨?_, by simp [lt_of_sextet ha, lt_of_sextet hb, heq]⟩
    simp [values, ha, hb, show sextet equals = none from rfl]

/-- Characters of the alphabet with the padding that they need stand for the bytes that are finished. -/
theorem denotes_of_length (cs pad : List UInt8) (hall : ∀ c ∈ cs, (sextet c).isSome)
    (hpad : cs.length % 4 = 0 ∧ pad = [] ∨ cs.length % 4 = 2 ∧ pad = [equals, equals] ∨
      cs.length % 4 = 3 ∧ pad = [equals]) : Denotes (cs ++ pad) (bytesOf (values cs)) := by
  match cs with
  | [] =>
    rcases hpad with ⟨-, rfl⟩ | ⟨h, -⟩ | ⟨h, -⟩
    · exact .nil
    · exact absurd h (by decide)
    · exact absurd h (by decide)
  | [a] => simp at hpad
  | [a, b] =>
    obtain ⟨va, ha⟩ := Option.isSome_iff_exists.mp (hall a (by simp))
    obtain ⟨vb, hb⟩ := Option.isSome_iff_exists.mp (hall b (by simp))
    have hvalues : values [a, b] = [va, vb] := by simp [values, ha, hb]
    rcases hpad with ⟨h, -⟩ | ⟨-, rfl⟩ | ⟨h, -⟩
    · exact absurd h (by simp)
    · exact hvalues ▸ .paddedTwice ha hb
    · exact absurd h (by simp)
  | [a, b, c] =>
    obtain ⟨va, ha⟩ := Option.isSome_iff_exists.mp (hall a (by simp))
    obtain ⟨vb, hb⟩ := Option.isSome_iff_exists.mp (hall b (by simp))
    obtain ⟨vc, hc⟩ := Option.isSome_iff_exists.mp (hall c (by simp))
    have hvalues : values [a, b, c] = [va, vb, vc] := by simp [values, ha, hb, hc]
    rcases hpad with ⟨h, -⟩ | ⟨h, -⟩ | ⟨-, rfl⟩
    · exact absurd h (by simp)
    · exact absurd h (by simp)
    · exact hvalues ▸ .padded ha hb hc
  | a :: b :: c :: d :: cs =>
    obtain ⟨va, ha⟩ := Option.isSome_iff_exists.mp (hall a (by simp))
    obtain ⟨vb, hb⟩ := Option.isSome_iff_exists.mp (hall b (by simp))
    obtain ⟨vc, hc⟩ := Option.isSome_iff_exists.mp (hall c (by simp))
    obtain ⟨vd, hd⟩ := Option.isSome_iff_exists.mp (hall d (by simp))
    have hvalues : values (a :: b :: c :: d :: cs) = va :: vb :: vc :: vd :: values cs := by
      simp [values, ha, hb, hc, hd]
    rw [hvalues]
    refine .group ha hb hc hd (denotes_of_length cs pad (fun c' hc' => hall c' (by simp [hc'])) ?_)
    simp only [List.length_cons] at hpad
    exact hpad.imp (fun h => ⟨by omega, h.2⟩) (Or.imp (fun h => ⟨by omega, h.2⟩) fun h => ⟨by omega, h.2⟩)

theorem finish_success {k : ℕ} (h : (d.finish k).result = .success) :
    (d.j + k) % 3 = 0 ∧ (d.finish k).bytes = (List.range d.j).map d.dest := by
  rw [Decoder.finish] at h ⊢
  split_ifs at h ⊢ with hmod
  · exact (nomatch h)
  · exact ⟨not_not.mp hmod, rfl⟩

theorem finish_of_mod {k : ℕ} (h : (d.j + k) % 3 = 0) :
    (d.finish k).result = .success ∧ (d.finish k).bytes = (List.range d.j).map d.dest := by
  rw [Decoder.finish, if_neg (not_not.mpr h)]
  exact ⟨rfl, rfl⟩

theorem denotes_of_plain {front pad : List UInt8} (hplain : Plain front)
    (hpad : (values front).length % 4 = 0 ∧ pad = [] ∨ (values front).length % 4 = 2 ∧ pad = [equals, equals] ∨
      (values front).length % 4 = 3 ∧ pad = [equals]) :
    Denotes ((front ++ pad).filter fun c => !isSpace c) (bytesOf (values front)) := by
  have hall : ∀ c ∈ front.filter fun c => !isSpace c, (sextet c).isSome := by
    intro c hc
    rw [List.mem_filter] at hc
    exact (hplain c hc.1).resolve_right (by simpa using hc.2)
  have hlen : ∀ cs : List UInt8, (∀ c ∈ cs, (sextet c).isSome) → (values cs).length = cs.length := by
    intro cs
    induction cs with
    | nil => exact fun _ => rfl
    | cons c cs ih =>
      intro hcs
      obtain ⟨v, hv⟩ := Option.isSome_iff_exists.mp (hcs c List.mem_cons_self)
      rw [values, List.filterMap_cons_some hv, ← values, List.length_cons, List.length_cons,
        ih fun c' hc' => hcs c' (List.mem_cons_of_mem _ hc')]
  have hfilter : pad.filter (fun c => !isSpace c) = pad := by
    rcases hpad with ⟨-, rfl⟩ | ⟨-, rfl⟩ | ⟨-, rfl⟩ <;> rfl
  rw [List.filter_append, hfilter, ← values_filter front]
  refine denotes_of_length _ pad hall ?_
  rwa [← hlen _ hall, values_filter]

theorem length_values_le (text : List UInt8) : (values text).length ≤ text.length := List.length_filterMap_le ..

/-- **Only Base64 is accepted, and decoded to what it stands for**, exactly when no character begins a group at the end
of the text, and no byte that is no ASCII character stands for the second padding character. -/
theorem acceptsBase64_iff (text : List UInt8) : AcceptsBase64 text ↔ ¬Truncated text ∧ ¬BadlyPadded text := by
  have hused : ∀ dest, ({ dest } : Decoder).Used [] := fun _ => ⟨rfl, rfl, fun hne => absurd rfl hne⟩
  constructor
  · intro h
    constructor
    · rintro ⟨hplain, hone⟩
      have hfits : Fits ((3 * text.length + 3) / 4) (values text).length :=
        Nat.div_le_div_right (by have := length_values_le text; omega)
      obtain ⟨d', hrun, hused', -⟩ := decodeFrom_append id 0 text [] hplain (hused fun _ => 0) hfits
      have hsuccess := h id _ (fun _ => 0) le_rfl
      rw [decode, List.take_length] at hsuccess
      rw [List.append_nil] at hrun
      rw [hrun] at hsuccess
      have hj := hused'.j
      rw [List.nil_append] at hj
      have hdenotes := hsuccess (finish_of_mod (by omega)).1
      refine hdenotes.length_values.1 ?_
      rw [values_filter]
      exact hone
    · rintro ⟨front, b, rfl, hplain, htwo, hb⟩
      have hfits : Fits ((3 * (front ++ [equals, b]).length + 3) / 4) (values front).length := by
        have hle := length_values_le front
        rw [List.length_append]
        exact Nat.div_le_div_right (by omega)
      -- what stands behind the table is the mark of a padding character
      obtain ⟨d', hrun, hused', -⟩ :=
        decodeFrom_append (fun _ => padding) 0 front [equals, b] hplain (hused fun _ => 0) hfits
      have hsuccess := h (fun _ => padding) _ (fun _ => 0) le_rfl
      rw [decode, List.take_length, hrun, decodeFrom_equals, decodePadding] at hsuccess
      have hraw : toRaw (fun _ => padding) b = padding := if_neg (UInt8.not_lt.mpr hb)
      rw [if_neg (not_not.mpr hraw), if_neg (not_not.mpr rfl)] at hsuccess
      have hj := hused'.j
      rw [List.nil_append] at hj
      have hdenotes := hsuccess (finish_of_mod (by
        have : ((((d'.read [.src (0 + front.length)]).read [.table 61]).read
          [.src (0 + front.length + 1), .table b.toNat])).j = d'.j := rfl
        omega)).1
      have hspace : isSpace b = false := by
        by_contra hspace
        exact absurd (lt_of_isSpace (Bool.not_eq_false _ ▸ hspace)) (UInt8.not_lt.mpr hb)
      refine UInt8.not_lt.mpr hb (hdenotes.length_values.2 b ?_)
      simp [hspace]
  · rintro ⟨htruncated, hpadded⟩ beyond size dest hsize hsuccess
    have hempty : Fits size ([] : List UInt8).length := by simp [Fits]
    obtain ⟨front, tail, rfl, hplain, hfits, hstop⟩ := exists_stop text hempty
    obtain ⟨d', hrun, hused', -⟩ := decodeFrom_append beyond 0 front tail hplain (hused dest) hfits
    rw [List.nil_append] at hused' hstop
    have hj := hused'.j
    rw [decode, List.take_length, hrun] at hsuccess ⊢
    cases tail with
    | nil =>
      obtain ⟨hmod, hbytes⟩ := finish_success hsuccess
      rw [List.append_nil] at htruncated
      have hfour : (values front).length % 4 = 0 := by
        have hone : (values front).length % 4 ≠ 1 := fun hone => htruncated ⟨hplain, hone⟩
        omega
      have hdenotes := denotes_of_plain hplain (.inl ⟨hfour, rfl⟩)
      rw [← hused'.bytes, ← hbytes] at hdenotes
      exact hdenotes
    | cons c rest =>
      by_cases hc : 128 ≤ c
      · rw [decodeFrom_beyond hc] at hsuccess
        cases hsuccess
      cases hsextet : sextet c with
      | some v =>
        -- there is room for every character
        refine absurd ?_ (hstop.2 v hsextet)
        have hle := length_values_le front
        rw [List.length_append, List.length_cons] at hsize
        exact le_trans (Nat.div_le_div_right (by omega)) hsize
      | none =>
        by_cases heq : c = equals
        · subst heq
          rw [decodeFrom_equals] at hsuccess ⊢
          obtain _ | ⟨b, _ | ⟨b', rest⟩⟩ := rest
          · obtain ⟨hmod, hbytes⟩ := finish_success hsuccess
            have hthree : (values front).length % 4 = 3 := by
              have : ((d'.read [.src (0 + front.length)]).read [.table 61]).j = d'.j := rfl
              omega
            have hdenotes := denotes_of_plain hplain (.inr (.inr ⟨hthree, rfl⟩))
            rw [← hused'.bytes] at hdenotes
            exact hbytes.symm ▸ hdenotes
          · rw [decodePadding] at hsuccess ⊢
            by_cases hraw : toRaw beyond b = padding
            · rw [if_neg (not_not.mpr hraw), if_neg (not_not.mpr rfl)] at hsuccess ⊢
              obtain ⟨hmod, hbytes⟩ := finish_success hsuccess
              have htwo : (values front).length % 4 = 2 := by
                have : ((((d'.read [.src (0 + front.length)]).read [.table 61]).read
                  [.src (0 + front.length + 1), .table b.toNat])).j = d'.j := rfl
                omega
              have hb : ¬128 ≤ b := fun hge => hpadded ⟨front, b, rfl, hplain, htwo, hge⟩
              obtain rfl := eq_equals (UInt8.not_le.mp hb) hraw
              have hdenotes := denotes_of_plain hplain (.inr (.inl ⟨htwo, rfl⟩))
              rw [← hused'.bytes] at hdenotes
              exact hbytes.symm ▸ hdenotes
            · rw [if_pos hraw] at hsuccess
              cases hsuccess
          · rw [decodePadding] at hsuccess
            by_cases hraw : toRaw beyond b ≠ padding
            · rw [if_pos hraw] at hsuccess
              cases hsuccess
            · rw [if_neg hraw, if_pos (List.cons_ne_nil _ _)] at hsuccess
              cases hsuccess
        · rw [decodeFrom_invalid (UInt8.not_le.mp hc) hsextet hstop.1 heq] at hsuccess
          cases hsuccess

/-- A single character is accepted, and stands for nothing. -/
theorem not_acceptsBase64 : ¬∀ text, AcceptsBase64 text := by
  intro h
  have hdenotes := h [65] id 3 (fun _ => 0) (by decide) (by decide)
  exact hdenotes.length_values.1 (by decide)

end Base64.Buffer
