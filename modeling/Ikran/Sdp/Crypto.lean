import Ikran.Sdp.RoundTrip

/-!
# Round trip of security descriptions

An `a=crypto` line passes its key through base 64, and its lifetime and key identifier through a
classifier with small buffers. What is kept of an accepted line is printed in one of four forms, and
read back exactly when the tag is printed as the number it is and the suite has a key.
-/

namespace Sdp

open CStr Line

variable {conf : Conf} {level : Level} {d : Desc} {m n k : UInt32} {u body : CStr} {a : Attr}

/-! ## What is accepted -/

/-- The crypto context behind a key parameter, when it is accepted. -/
def keyParam (str : CStr) (c : SrtpContext) : Option SrtpContext :=
  if strncaseEq str "inline:" 7 then
    match tokens "|" maxStringLen (str.drop 7) with
    | [] => none
    | key :: params =>
      (storeMasterKey key c).bind
        fun c => params.foldlM (fun c buf => storeSdescriptionsMkiOrLifetime buf c) c
  else none

variable {c : SrtpContext}

theorem outcomeOf_keyParam_iff {str s : CStr} {f : SrtpContext → Parser Attr} :
    outcomeOf (parseSdescriptionsKeyParam str c >>= f) s n = (.ok a, k) ↔
      ∃ c', keyParam str c = some c' ∧ outcomeOf (f c') s n = (.ok a, k) := by
  rw [parseSdescriptionsKeyParam, keyParam]
  split_ifs
  · cases tokens "|" maxStringLen (str.drop 7) with
    | nil => simp [outcomeOf]
    | cons key params =>
      dsimp only
      cases (storeMasterKey key c).bind
          fun c => params.foldlM (fun c buf => storeSdescriptionsMkiOrLifetime buf c) c with
      | none => simp [outcomeOf]
      | some c' => simp [outcomeOf]
  · simp [outcomeOf]

def suiteOf (w : CStr) : Option CryptoSuite := findName CryptoSuite.all CryptoSuite.name w

/-- The context in front of the key parameter. -/
def startContext (tag : UInt32) (suite : CryptoSuite) : SrtpContext :=
  { selectionFlags := encryptAuthenticateMask, tag, suite
    masterKeySizeBytes := suite.keySizeBytes, masterSaltSizeBytes := suite.saltSizeBytes }

/-- What is kept of the text behind the key parameter. -/
def sessionParametersOf (s : CStr) : Option CStr :=
  let tmp := (takeToken [] maxStringLen s).1
  if tmp ≠ [] ∧ tmp.length < maxStringLen then some tmp else none

theorem outcomeOf_sdescriptions_iff {s : CStr} : outcomeOf parseAttrSdescriptions s n = (.ok a, k) ↔
      ∃ tag, (Line.token blanks maxStringLen s).1.bind numOf = some tag ∧
      ∃ w t, Line.token blanks maxStringLen (Line.token blanks maxStringLen s).2 = (some w, t) ∧
      ∃ suite, suiteOf w = some suite ∧
      ∃ str t', Line.token blanks maxStringLen t = (some str, t') ∧
      ∃ c, keyParam str (startContext tag suite) = some c ∧
        a = .srtp .sdescriptions { c with sessionParameters := sessionParametersOf t' } ∧ k = n := by
  refine outcomeOf_num_iff.trans (exists_congr fun tag => and_congr_right fun _ => ?_)
  refine outcomeOf_word_iff.trans ?_
  refine exists_congr fun w => exists_congr fun t => and_congr_right fun _ => ?_
  rw [suiteOf, findName]
  cases CryptoSuite.all.find? fun s => nameEq w s.name with
  | none => simp [outcomeOf]
  | some suite =>
    simp only [Option.some.injEq, exists_eq_left']
    refine outcomeOf_word_iff.trans ?_
    refine exists_congr fun str => exists_congr fun t' => and_congr_right fun _ => ?_
    refine outcomeOf_keyParam_iff.trans (exists_congr fun c => and_congr_right fun _ => ?_)
    have hrest : ∀ f : CStr → Parser Attr, outcomeOf (LineParser.rest maxStringLen >>= f) t' n =
        outcomeOf (f (takeToken [] maxStringLen t').1) (takeToken [] maxStringLen t').2 n :=
      fun _ => rfl
    rw [hrest, outcomeOf, LineParser.run_pure, Prod.mk.injEq, Except.ok.injEq, eq_comm, eq_comm (a := n)]
    rfl

/-! ## What is kept -/

namespace SrtpContext

def keyed (raw : List UInt8) (c : SrtpContext) : SrtpContext :=
  { c with
    masterKey := raw.take c.masterKeySizeBytes.toNat ++ c.masterKey.drop c.masterKeySizeBytes.toNat
    masterSalt := (raw.drop c.masterKeySizeBytes.toNat).take c.masterSaltSizeBytes.toNat ++
      c.masterSalt.drop c.masterSaltSizeBytes.toNat
    selectionFlags := c.selectionFlags ||| masterKeySaltMask }

/-- The context with a lifetime and a key identifier. -/
def withParams (c : SrtpContext) (lifetime mki : CStr) (size : UInt16) : SrtpContext :=
  { c with masterKeyLifetime := lifetime, mki, mkiSizeBytes := size }

end SrtpContext

/-- A lifetime that can be kept: none, or one that is valid and fits its field. -/
def LifetimeKept (lifetime : CStr) : Prop :=
  lifetime = [] ∨ verifySdescriptionsLifetime lifetime = true ∧ lifetime.length ≤ 15

/-- A key identifier that can be kept: none, or up to three digits with a length. -/
def MkiKept (mki : CStr) (size : UInt16) : Prop :=
  mki = [] ∧ size = 0 ∨
    mki ≠ [] ∧ mki.length ≤ 3 ∧ (∀ c ∈ mki, c.isDigit = true) ∧ 1 ≤ size.toNat ∧ size.toNat ≤ 128

variable {buf : CStr}

theorem verifySdescriptionsLifetime_iff : verifySdescriptionsLifetime buf = true ↔
      ∃ front s, buf = front ++ s ∧ (front = [] ∨ front = ['2', '^']) ∧ s ≠ [] ∧ ∀ c ∈ s, c.isDigit = true := by
  constructor
  · intro h
    rw [verifySdescriptionsLifetime.eq_def] at h
    split at h
    · rename_i s
      rw [Bool.and_eq_true, bne_iff_ne, List.all_eq_true] at h
      exact ⟨['2', '^'], s, rfl, Or.inr rfl, h.1, h.2⟩
    · rw [Bool.and_eq_true, bne_iff_ne, List.all_eq_true] at h
      exact ⟨[], buf, rfl, Or.inl rfl, h.1, h.2⟩
  · rintro ⟨front, s, rfl, hfront, hne, hdigits⟩
    have hs : (s != [] && s.all Char.isDigit) = true := by
      rw [Bool.and_eq_true, bne_iff_ne, List.all_eq_true]
      exact ⟨hne, hdigits⟩
    rcases hfront with rfl | rfl
    · rw [List.nil_append, verifySdescriptionsLifetime.eq_def]
      split
      · -- a circumflex is no digit
        have hcirc := hdigits '^' (by simp)
        cases hcirc
      · exact hs
    · exact hs

theorem verifySdescriptionsLifetime_take (h : verifySdescriptionsLifetime buf = true) :
    verifySdescriptionsLifetime (buf.take 15) = true := by
  obtain ⟨front, s, rfl, hfront, hne, hdigits⟩ := verifySdescriptionsLifetime_iff.mp h
  have htake : ∀ k, ∀ c ∈ s.take k, c.isDigit = true := fun k c hc => hdigits c (List.mem_of_mem_take hc)
  have hnonempty : ∀ k, s.take (k + 1) ≠ [] := by
    intro k
    obtain ⟨c, s, rfl⟩ := List.exists_cons_of_ne_nil hne
    simp
  refine verifySdescriptionsLifetime_iff.mpr ?_
  rcases hfront with rfl | rfl
  · exact ⟨[], s.take 15, rfl, Or.inl rfl, hnonempty 14, htake 15⟩
  · exact ⟨['2', '^'], s.take 13, rfl, Or.inr rfl, hnonempty 12, htake 13⟩

theorem plain_of_lifetime (h : verifySdescriptionsLifetime buf = true) :
    buf ≠ [] ∧ ∀ c ∈ buf, c.isDigit = true ∨ c = '^' := by
  obtain ⟨front, s, rfl, hfront, hne, hdigits⟩ := verifySdescriptionsLifetime_iff.mp h
  refine ⟨fun hnil => hne (List.append_eq_nil_iff.mp hnil).2, fun c hc => ?_⟩
  rcases List.mem_append.mp hc with hc | hc
  · rcases hfront with rfl | rfl
    · cases hc
    · rcases List.mem_cons.mp hc with rfl | hc
      · exact Or.inl (by decide)
      · exact Or.inr (List.mem_singleton.mp hc)
  · exact Or.inl (hdigits c hc)

variable {mki : CStr} {size : UInt16}

theorem mkiKept_of_verify (h : verifySdescriptionsMki buf = some (mki, size)) : MkiKept mki size := by
  rw [verifySdescriptionsMki] at h
  split_ifs at h with hcond
  · obtain ⟨hpeek, hlen, -, -, -, -, hpos, hle⟩ := hcond
    obtain ⟨rfl, rfl⟩ := Prod.mk.inj (Option.some.inj h)
    refine Or.inr ⟨?_, hlen, fun c hc => List.mem_takeWhile_imp hc, ?_, ?_⟩
    · cases buf with
      | nil => cases hpeek
      | cons c buf =>
        rw [peek_cons] at hpeek
        simp [hpeek]
    · rw [UInt16.toNat_ofNat']
      omega
    · rw [UInt16.toNat_ofNat']
      omega

theorem verify_mki (hne : mki ≠ []) (hlen : mki.length ≤ 3)
    (hdigits : ∀ c ∈ mki, c.isDigit = true) (hpos : 1 ≤ size.toNat) (hle : size.toNat ≤ 128) :
    verifySdescriptionsMki (mki ++ ':' :: decimal size.toNat) = some (mki, size) := by
  have hall : ∀ c ∈ decimal size.toNat, c.isDigit = true := fun c hc => isDigit_of_mem_decimal hc
  have htake : (mki ++ ':' :: decimal size.toNat).takeWhile Char.isDigit = mki := by
    rw [List.takeWhile_append_of_pos hdigits, List.takeWhile_cons_of_neg (by decide),
      List.append_nil]
  have hdrop : (mki ++ ':' :: decimal size.toNat).dropWhile Char.isDigit = ':' :: decimal size.toNat := by
    rw [List.dropWhile_append_of_pos hdigits, List.dropWhile_cons_of_neg (by decide)]
  have hpeek : (peek (mki ++ ':' :: decimal size.toNat)).isDigit = true := by
    obtain ⟨c, mki, rfl⟩ := List.exists_cons_of_ne_nil hne
    exact hdigits c List.mem_cons_self
  have hthree : (decimal size.toNat).length ≤ 3 := length_decimal_le (by decide) (by omega)
  rw [verifySdescriptionsMki]
  simp only [htake, hdrop, List.tail_cons, digitsVal_decimal]
  rw [if_pos ⟨hpeek, hlen, rfl, decimal_ne_nil _, hthree, List.all_eq_true.mpr hall, by omega, hle⟩,
    UInt16.ofNat_toNat]

/-- The context has the key of `raw` and kept parameters. -/
def HasKept (base c : SrtpContext) : Prop :=
  ∃ lifetime mki size, c = base.withParams lifetime mki size ∧ LifetimeKept lifetime ∧
    MkiKept mki size

variable {base : SrtpContext}

theorem HasKept.store {c' : SrtpContext} (h : HasKept base c)
    (hstore : storeSdescriptionsMkiOrLifetime buf c = some c') : HasKept base c' := by
  obtain ⟨lifetime, mki, size, rfl, hlifetime, hmki⟩ := h
  rw [storeSdescriptionsMkiOrLifetime] at hstore
  split_ifs at hstore with hcolon hverify
  · obtain ⟨⟨mki', size'⟩, hverify, rfl⟩ := Option.map_eq_some_iff.mp hstore
    exact ⟨lifetime, mki', size', rfl, hlifetime, mkiKept_of_verify hverify⟩
  · obtain rfl := Option.some.inj hstore
    refine ⟨buf.take 15, mki, size, rfl, Or.inr ⟨verifySdescriptionsLifetime_take hverify, ?_⟩, hmki⟩
    rw [List.length_take]
    exact Nat.min_le_left _ _

theorem HasKept.foldlM {c' : SrtpContext} (h : HasKept base c) {params : List CStr}
    (hfold : params.foldlM (fun c buf => storeSdescriptionsMkiOrLifetime buf c) c = some c') :
    HasKept base c' := by
  induction params generalizing c with
  | nil => exact Option.some.inj hfold ▸ h
  | cons buf params ih =>
    rw [List.foldlM_cons] at hfold
    obtain ⟨c₁, hstore, hfold⟩ := Option.bind_eq_some_iff.mp hfold
    exact ih (h.store hstore) hfold

theorem storeMasterKey_iff {c' : SrtpContext} : storeMasterKey buf c = some c' ↔ ∃ raw, Base64.decode buf = some raw ∧
        raw.length = c.masterKeySizeBytes.toNat + c.masterSaltSizeBytes.toNat ∧ c' = c.keyed raw := by
  rw [storeMasterKey, Option.bind_eq_bind]
  constructor
  · intro h
    obtain ⟨raw, hraw, h⟩ := Option.bind_eq_some_iff.mp h
    dsimp only at h
    split_ifs at h with hlen
    exact ⟨raw, hraw, hlen, (Option.some.inj h).symm⟩
  · rintro ⟨raw, hraw, hlen, rfl⟩
    rw [hraw, Option.bind_some]
    exact if_pos hlen

variable {suite : CryptoSuite}

theorem keyParam_hasKept {str : CStr} {tag : UInt32} (h : keyParam str (startContext tag suite) = some c) :
    ∃ raw, raw.length = suite.keySizeBytes.toNat + suite.saltSizeBytes.toNat ∧
      HasKept ((startContext tag suite).keyed raw) c := by
  rw [keyParam] at h
  split_ifs at h
  · cases htokens : tokens "|" maxStringLen (str.drop 7) with
    | nil =>
      rw [htokens] at h
      cases h
    | cons key params =>
      rw [htokens] at h
      obtain ⟨c₁, hkey, hfold⟩ := Option.bind_eq_some_iff.mp h
      obtain ⟨raw, -, hlen, rfl⟩ := storeMasterKey_iff.mp hkey
      refine ⟨raw, hlen, HasKept.foldlM ?_ hfold⟩
      exact ⟨[], [], 0, rfl, Or.inl rfl, Or.inl ⟨rfl, rfl⟩⟩

/-! ## What is printed -/

/-- The printed parameters behind the key. -/
def paramTexts (lifetime mki : CStr) (size : UInt16) : List CStr :=
  (if lifetime = [] then [] else [lifetime]) ++
    if mki = [] then [] else [mki ++ ':' :: decimal size.toNat]

/-- The printed key parameter. -/
def keyText (data lifetime mki : CStr) (size : UInt16) : CStr :=
  "inline:" ++ (data ++ spaced '|' (paramTexts lifetime mki size))

theorem plain_of_isDigit {c : Char} (h : c.isDigit = true ∨ c = '^' ∨ c = ':') :
    isEol c = false ∧ c ∉ "|".toList ∧ c ∉ blanks := by
  have hne : ∀ e : Char, e.isDigit = false → e ≠ '^' → e ≠ ':' → c ≠ e := by
    rintro e hdigit hcirc hcolon rfl
    rcases h with h | h | h
    · rw [hdigit] at h
      cases h
    · exact hcirc h
    · exact hcolon h
  have hpipe := hne '|' (by decide) (by decide) (by decide)
  have hblank := hne ' ' (by decide) (by decide) (by decide)
  have htab := hne '\t' (by decide) (by decide) (by decide)
  have hnul := hne nul (by decide) (by decide) (by decide)
  have hlf := hne '\n' (by decide) (by decide) (by decide)
  have hcr := hne '\r' (by decide) (by decide) (by decide)
  have hblanks : blanks = [' ', '\t'] := by decide
  exact ⟨by simp [isEol, hnul, hlf, hcr], by simp [hpipe], by simp [hblanks, hblank, htab]⟩

variable {lifetime : CStr}

/-- The printed parameters have digits, circumflexes and colons only, and are short. -/
theorem paramTexts_plain (hlifetime : LifetimeKept lifetime) (hmki : MkiKept mki size) :
    (spaced '|' (paramTexts lifetime mki size)).length ≤ 24 ∧
      ∀ w ∈ paramTexts lifetime mki size, w ≠ [] ∧ w.length ≤ 15 ∧ ∀ c ∈ w, c.isDigit = true ∨ c = '^' ∨ c = ':' := by
  have hfirst : ∀ w ∈ (if lifetime = [] then [] else [lifetime]), w ≠ [] ∧ w.length ≤ 15 ∧
      ∀ c ∈ w, c.isDigit = true ∨ c = '^' ∨ c = ':' := by
    intro w hw
    split_ifs at hw with hnil
    · cases hw
    · obtain rfl := List.mem_singleton.mp hw
      rcases hlifetime with rfl | ⟨hverify, hlen⟩
      · exact absurd rfl hnil
      · refine ⟨hnil, hlen, fun c hc => ?_⟩
        rcases (plain_of_lifetime hverify).2 c hc with hdigit | rfl
        · exact Or.inl hdigit
        · exact Or.inr (Or.inl rfl)
  have hsecond : ∀ w ∈ (if mki = [] then [] else [mki ++ ':' :: decimal size.toNat]),
      w ≠ [] ∧ w.length ≤ 7 ∧ ∀ c ∈ w, c.isDigit = true ∨ c = '^' ∨ c = ':' := by
    intro w hw
    split_ifs at hw with hnil
    · cases hw
    · obtain rfl := List.mem_singleton.mp hw
      rcases hmki with ⟨rfl, -⟩ | ⟨hne, hlen, hdigits, -, hle⟩
      · exact absurd rfl hnil
      · have hthree : (decimal size.toNat).length ≤ 3 := length_decimal_le (by decide) (by omega)
        refine ⟨by simp, by rw [List.length_append, List.length_cons]; omega, fun c hc => ?_⟩
        rcases List.mem_append.mp hc with hc | hc
        · exact Or.inl (hdigits c hc)
        · rcases List.mem_cons.mp hc with rfl | hc
          · exact Or.inr (Or.inr rfl)
          · exact Or.inl (isDigit_of_mem_decimal hc)
  constructor
  · have hlen : ∀ ws : List CStr, ∀ k, ws.length ≤ 1 → (∀ w ∈ ws, w.length ≤ k) → (spaced '|' ws).length ≤ k + 1 := by
      intro ws k hone hall
      rcases ws with _ | ⟨w, _ | ⟨v, ws⟩⟩
      · exact Nat.zero_le _
      · have hw := hall w List.mem_cons_self
        simp only [spaced_cons, spaced_nil, List.append_nil, List.length_cons]
        omega
      · simp at hone
    have hone := hlen _ 15 (by split_ifs <;> simp) fun w hw => (hfirst w hw).2.1
    have htwo := hlen _ 7 (by split_ifs <;> simp) fun w hw => (hsecond w hw).2.1
    have hsplit : spaced '|' (paramTexts lifetime mki size) = _ ++ _ := List.flatMap_append
    rw [hsplit, List.length_append]
    exact Nat.add_le_add hone htwo
  · intro w hw
    rcases List.mem_append.mp hw with hw | hw
    · exact hfirst w hw
    · obtain ⟨hne, hlen, hplain⟩ := hsecond w hw
      exact ⟨hne, by omega, hplain⟩

theorem foldlM_paramTexts (hlifetime : LifetimeKept lifetime) (hmki : MkiKept mki size) :
    (paramTexts lifetime mki size).foldlM (fun c buf => storeSdescriptionsMkiOrLifetime buf c)
      (base.withParams [] [] 0) = some (base.withParams lifetime mki size) := by
  have hfirst : (if lifetime = [] then [] else [lifetime]).foldlM
      (fun c buf => storeSdescriptionsMkiOrLifetime buf c) (base.withParams [] [] 0) =
      some (base.withParams lifetime [] 0) := by
    rcases hlifetime with rfl | ⟨hverify, hlen⟩
    · rfl
    · obtain ⟨hne, hplain⟩ := plain_of_lifetime hverify
      have hcolon : ':' ∉ lifetime := by
        intro hmem
        rcases hplain ':' hmem with h | h <;> cases h
      rw [if_neg hne, List.foldlM_cons, storeSdescriptionsMkiOrLifetime, if_neg hcolon,
        if_pos hverify, List.take_of_length_le hlen]
      rfl
  have hsecond : (if mki = [] then [] else [mki ++ ':' :: decimal size.toNat]).foldlM
      (fun c buf => storeSdescriptionsMkiOrLifetime buf c) (base.withParams lifetime [] 0) =
      some (base.withParams lifetime mki size) := by
    rcases hmki with ⟨rfl, rfl⟩ | ⟨hne, hlen, hdigits, hpos, hle⟩
    · rfl
    · rw [if_neg hne, List.foldlM_cons, storeSdescriptionsMkiOrLifetime, if_pos (by simp),
        verify_mki hne hlen hdigits hpos hle]
      rfl
  rw [paramTexts, List.foldlM_append, hfirst]
  exact hsecond

theorem keySize_cases (suite : CryptoSuite) :
    suite = .unknown ∧ suite.keySizeBytes.toNat + suite.saltSizeBytes.toNat = 3 * 0 ∨
      suite ≠ .unknown ∧ suite.keySizeBytes.toNat + suite.saltSizeBytes.toNat = 3 * 10 := by
  cases suite with
  | unknown => exact Or.inl ⟨rfl, rfl⟩
  | _ => exact Or.inr ⟨nofun, rfl⟩

variable {raw : List UInt8}

theorem take_keyed (tag : UInt32) (hraw : raw.length = suite.keySizeBytes.toNat + suite.saltSizeBytes.toNat) :
    ((startContext tag suite).keyed raw).masterKey.take suite.keySizeBytes.toNat ++
      ((startContext tag suite).keyed raw).masterSalt.take suite.saltSizeBytes.toNat = raw := by
  have hkey : (raw.take suite.keySizeBytes.toNat).length = suite.keySizeBytes.toNat := by
    rw [List.length_take]
    omega
  have hsalt : ((raw.drop suite.keySizeBytes.toNat).take suite.saltSizeBytes.toNat).length =
      suite.saltSizeBytes.toNat := by
    rw [List.length_take, List.length_drop]
    omega
  have hall : (raw.drop suite.keySizeBytes.toNat).take suite.saltSizeBytes.toNat = raw.drop suite.keySizeBytes.toNat :=
    List.take_of_length_le (by rw [List.length_drop]; omega)
  simp only [SrtpContext.keyed, startContext]
  rw [List.take_left' hkey, List.take_left' hsalt, hall, List.take_append_drop]

theorem encoded_keyed (tag : UInt32) (hraw : raw.length = suite.keySizeBytes.toNat + suite.saltSizeBytes.toNat)
    (lifetime mki : CStr) (size : UInt16) :
    (((startContext tag suite).keyed raw).withParams lifetime mki size).encoded = some (Base64.groups raw) := by
  have htake := take_keyed tag hraw
  have hencode : Base64.encode maxBase64StringLen raw = some (Base64.groups raw) := by
    rcases keySize_cases suite with ⟨-, hsize⟩ | ⟨-, hsize⟩
    · exact Base64.encodeFrom_groups 0 (hraw.trans hsize) (by decide) (by decide)
    · exact Base64.encodeFrom_groups 10 (hraw.trans hsize) (by decide) (by decide)
  exact (congrArg (Base64.encode maxBase64StringLen) htake).trans hencode

theorem emitted_crypto (tag : UInt32) (hraw : raw.length = suite.keySizeBytes.toNat + suite.saltSizeBytes.toNat)
    (lifetime mki : CStr) (size : UInt16) :
    (buildAttr (.srtp .sdescriptions
        (((startContext tag suite).keyed raw).withParams lifetime mki size))).result = .success ∧
      emitted (.srtp .sdescriptions (((startContext tag suite).keyed raw).withParams lifetime mki size)) =
        fmt ["a=", (PlainType.srtp .sdescriptions).name, ":", decimalInt tag.toInt32.toInt ++
          ' ' :: (suite.name ++ ' ' :: (keyText (Base64.groups raw) lifetime mki size ++ crlf))] := by
  have hencoded := encoded_keyed tag hraw lifetime mki size
  have htext : ∀ (name tagText data : CStr) (digits : CStr),
      [fmt ["a=", name, ":", tagText, " ", suite.name, " inline:", data,
        if lifetime = [] then "" else '|' :: lifetime,
        if mki = [] then "" else fmt ["|", mki, ":", digits], crlf]].flatten =
      fmt ["a=", name, ":", tagText ++ ' ' :: (suite.name ++ ' ' :: ("inline:" ++ (data ++
        spaced '|' ((if lifetime = [] then [] else [lifetime]) ++
          if mki = [] then [] else [mki ++ ':' :: digits])) ++ crlf))] := by
    intro name tagText data digits
    split_ifs <;> simp [fmt]
  constructor
  · simp only [buildAttr, buildAttrSdescriptions, hencoded]
  · simp only [emitted, buildAttr, buildAttrSdescriptions, hencoded]
    exact htext _ _ (Base64.groups raw) (decimal size.toNat)

/-! ## Reading back -/

theorem tokens_keyText {data : CStr} (hdata : data = [] ∨
      isWord "|" maxStringLen data = true) (hlifetime : LifetimeKept lifetime)
    (hmki : MkiKept mki size) :
    strncaseEq (keyText data lifetime mki size) "inline:" 7 = true ∧
      tokens "|" maxStringLen ((keyText data lifetime mki size).drop 7) =
        (if data = [] then [] else [data]) ++ paramTexts lifetime mki size := by
  have hplain := (paramTexts_plain hlifetime hmki).2
  have hwords : ∀ w ∈ paramTexts lifetime mki size, isWord "|" maxStringLen w = true := by
    intro w hw
    obtain ⟨hne, hlen, hchars⟩ := hplain w hw
    refine isWord_iff.mpr ⟨hne, by rw [maxStringLen]; omega, fun c hc => ?_⟩
    obtain ⟨heol, hpipe, -⟩ := plain_of_isDigit (hchars c hc)
    exact ⟨heol, hpipe⟩
  have hdrop : (keyText data lifetime mki size).drop 7 = data ++ (spaced '|' (paramTexts lifetime mki size) ++ []) := by
    rw [List.append_nil]
    rfl
  have hkeyword : ∀ x : CStr, strncaseEq ("inline:".toList ++ x) "inline:" 7 = true := by
    intro x
    simp [strncaseEq]
  refine ⟨hkeyword _, ?_⟩
  rw [hdrop]
  rcases hdata with rfl | hdata
  · rw [List.nil_append, if_pos rfl, List.nil_append]
    exact tokens_spaced (by decide) (by decide) (by decide) hwords rfl
  · have hne := (isWord_iff.mp hdata).1
    rw [if_neg hne]
    exact tokens_word_spaced (by decide) (by decide) (by decide)
      (List.forall_mem_cons.mpr ⟨hdata, hwords⟩) rfl

theorem isWord_groups (hraw : raw.length = 3 * 10) : isWord "|" maxStringLen (Base64.groups raw) = true ∧
      ∀ c ∈ Base64.groups raw, isEol c = false ∧ c ∉ blanks := by
  have hlen := Base64.length_groups 10 hraw
  have hcheck : Base64.rawToBase64Table.all (fun c =>
      decide (isEol c = false ∧ c ∉ "|".toList ∧ c ∉ blanks)) = true := by
    decide
  have htable : ∀ c ∈ Base64.rawToBase64Table, isEol c = false ∧ c ∉ "|".toList ∧ c ∉ blanks :=
    fun c hc => of_decide_eq_true (List.all_eq_true.mp hcheck c hc)
  have hsubset := Base64.groups_subset 10 hraw
  refine ⟨isWord_iff.mpr ⟨?_, by rw [hlen]; decide, fun c hc => ?_⟩, fun c hc => ?_⟩
  · intro hnil
    rw [hnil] at hlen
    cases hlen
  · obtain ⟨heol, hpipe, -⟩ := htable c (hsubset c hc)
    exact ⟨heol, hpipe⟩
  · obtain ⟨heol, -, hblanks⟩ := htable c (hsubset c hc)
    exact ⟨heol, hblanks⟩

theorem length_keyText (data lifetime mki : CStr) (size : UInt16) : (keyText data lifetime mki size).length =
      7 + data.length + (spaced '|' (paramTexts lifetime mki size)).length := by
  have hseven : "inline:".toList.length = 7 := by decide
  have hall : ∀ head params : CStr, head.length = 7 →
      (head ++ (data ++ params)).length = 7 + data.length + params.length := by
    intro head params hhead
    rw [List.length_append, List.length_append, hhead, Nat.add_assoc]
  exact hall _ _ hseven

theorem isWord_keyText (hraw : raw.length = suite.keySizeBytes.toNat + suite.saltSizeBytes.toNat)
    (hlifetime : LifetimeKept lifetime)
    (hmki : MkiKept mki size) :
    isWord blanks maxStringLen (keyText (Base64.groups raw) lifetime mki size) = true := by
  obtain ⟨hlen, hplain⟩ := paramTexts_plain hlifetime hmki
  have hdata : (Base64.groups raw).length ≤ 40 ∧ ∀ c ∈ Base64.groups raw, isEol c = false ∧ c ∉ blanks := by
    rcases keySize_cases suite with ⟨-, hsize⟩ | ⟨-, hsize⟩
    · obtain rfl := List.eq_nil_of_length_eq_zero (hraw.trans hsize)
      exact ⟨Nat.zero_le _, fun c hc => nomatch hc⟩
    · have hforty := Base64.length_groups 10 (hraw.trans hsize)
      exact ⟨by omega, (isWord_groups (hraw.trans hsize)).2⟩
  have hkeyword : ∀ c ∈ "inline:".toList, isEol c = false ∧ c ∉ blanks := by
    have hcheck : "inline:".toList.all (fun c => decide (isEol c = false ∧ c ∉ blanks)) = true := by
      decide
    exact fun c hc => of_decide_eq_true (List.all_eq_true.mp hcheck c hc)
  have hparams : ∀ c ∈ spaced '|' (paramTexts lifetime mki size), isEol c = false ∧ c ∉ blanks := by
    intro c hc
    obtain ⟨w, hw, hc⟩ := List.mem_flatMap.mp hc
    rcases List.mem_cons.mp hc with rfl | hc
    · decide
    · obtain ⟨heol, -, hblanks⟩ := plain_of_isDigit ((hplain w hw).2.2 c hc)
      exact ⟨heol, hblanks⟩
  have hlength := length_keyText (Base64.groups raw) lifetime mki size
  have hshort := hdata.1
  refine isWord_iff.mpr ⟨fun hnil => ?_, ?_, fun c hc => ?_⟩
  · rw [hnil, List.length_nil] at hlength
    omega
  · rw [maxStringLen]
    omega
  · rcases List.mem_append.mp hc with hc | hc
    · exact hkeyword c hc
    · rcases List.mem_append.mp hc with hc | hc
      · exact hdata.2 c hc
      · exact hparams c hc

theorem keyParam_keyText {tag : UInt32} (hsuite : suite ≠ .unknown)
    (hraw : raw.length = suite.keySizeBytes.toNat + suite.saltSizeBytes.toNat)
    (hlifetime : LifetimeKept lifetime)
    (hmki : MkiKept mki size) :
    keyParam (keyText (Base64.groups raw) lifetime mki size) (startContext tag suite) =
      some (((startContext tag suite).keyed raw).withParams lifetime mki size) := by
  obtain ⟨rfl, -⟩ | ⟨-, hsize⟩ := keySize_cases suite
  · exact absurd rfl hsuite
  have hword := (isWord_groups (hraw.trans hsize)).1
  have hne := (isWord_iff.mp hword).1
  obtain ⟨hkeyword, htokens⟩ := tokens_keyText (Or.inr hword) hlifetime hmki
  rw [if_neg hne] at htokens
  have hkey : storeMasterKey (Base64.groups raw) (startContext tag suite) = some ((startContext tag suite).keyed raw) :=
    storeMasterKey_iff.mpr ⟨raw, Base64.decode_groups 10 (hraw.trans hsize), hraw, rfl⟩
  rw [keyParam, if_pos hkeyword, htokens]
  dsimp only [List.cons_append, List.nil_append]
  rw [hkey, Option.bind_some]
  exact @foldlM_paramTexts _ _ ((startContext tag suite).keyed raw) _ hlifetime hmki

/-- Without a key, the first of the printed parameters is taken for it, and is lost. -/
theorem keyParam_noKey {tag : UInt32} (hlifetime : LifetimeKept lifetime) (hmki : MkiKept mki size) :
    keyParam (keyText [] lifetime mki size) (startContext tag suite) ≠ some (base.withParams lifetime mki size) := by
  obtain ⟨hkeyword, htokens⟩ := tokens_keyText (Or.inl rfl) hlifetime hmki
  rw [if_pos rfl, List.nil_append, paramTexts] at htokens
  rw [keyParam, if_pos hkeyword, htokens]
  by_cases hl : lifetime = []
  · by_cases hm : mki = []
    · rw [if_pos hl, if_pos hm]
      exact nofun
    · rw [if_pos hl, if_neg hm]
      intro heq
      obtain ⟨c₁, hkey, hfold⟩ := Option.bind_eq_some_iff.mp heq
      obtain ⟨raw, -, -, rfl⟩ := storeMasterKey_iff.mp hkey
      exact hm (congrArg SrtpContext.mki (Option.some.inj hfold)).symm
  · rw [if_neg hl]
    intro heq
    obtain ⟨c₁, hkey, hfold⟩ := Option.bind_eq_some_iff.mp heq
    obtain ⟨raw, -, -, rfl⟩ := storeMasterKey_iff.mp hkey
    have hlost : ∀ c', ((if mki = [] then [] else [mki ++ ':' :: decimal size.toNat]).foldlM
        (fun c buf => storeSdescriptionsMkiOrLifetime buf c) ((startContext tag suite).keyed raw) =
          some c') → c'.masterKeyLifetime = [] := by
      intro c' hfold
      split_ifs at hfold with hm
      · rw [← Option.some.inj hfold]
        rfl
      · rw [List.foldlM_cons, storeSdescriptionsMkiOrLifetime, if_pos (by simp)] at hfold
        obtain ⟨c₂, hstore, hend⟩ := Option.bind_eq_some_iff.mp hfold
        obtain ⟨_, _, hc₂⟩ := Option.map_eq_some_iff.mp hstore
        rw [← Option.some.inj hend, ← hc₂]
        rfl
    exact hl (hlost _ hfold)

theorem decimalInt_tag (tag : UInt32) : tag.toNat < 2 ^ 31 ∧ decimalInt tag.toInt32.toInt = decimal tag.toNat ∨
      2 ^ 31 ≤ tag.toNat ∧ ∃ k, k < 2 ^ 32 ∧ decimalInt tag.toInt32.toInt = '-' :: decimal k := by
  have hlt := tag.toNat_lt
  have hint : tag.toInt32.toInt =
      if 2 * tag.toNat < 2 ^ 32 then (tag.toNat : ℤ) else (tag.toNat : ℤ) - (2 ^ 32 : ℕ) :=
    BitVec.toInt_eq_toNat_cond tag.toBitVec
  by_cases hsmall : tag.toNat < 2 ^ 31
  · refine Or.inl ⟨hsmall, ?_⟩
    rw [hint, if_pos (by omega)]
    rfl
  · obtain ⟨k, hk⟩ : ∃ k : ℕ, tag.toNat + (k + 1) = 2 ^ 32 := ⟨2 ^ 32 - tag.toNat - 1, by omega⟩
    refine Or.inr ⟨by omega, k + 1, by omega, ?_⟩
    have hneg : (tag.toNat : ℤ) - (2 ^ 32 : ℕ) = Int.negSucc k := by
      rw [Int.negSucc_eq]
      omega
    rw [hint, if_neg (by omega), hneg]
    rfl

/-- What the words of an `a=crypto` line have to be for its attribute to be printed as it was read:
the tag is below 2^31, and the suite is not the unknown one. -/
def CryptoReprints (body : CStr) : Prop :=
  (∀ tag, (words body)[0]?.bind numOf = some tag → tag.toNat < 2 ^ 31) ∧
    (words body)[1]?.bind suiteOf ≠ some .unknown

theorem suite_readsBack : readsBack CryptoSuite.all CryptoSuite.name = true := by decide

/-- **Round trip of security descriptions.** A line that is accepted without session parameters is
printed so that it is accepted again, at any level and in front of any text, with the same tag, suite,
key, salt, lifetime and key identifier, exactly when its tag and its suite are as above. -/
theorem crypto_roundTrips_iff {c : SrtpContext} (hlevel : d.hasLevel level)
    (h : (parsePlain conf (.srtp .sdescriptions) body m).1 = .ok (.srtp .sdescriptions c))
    (hsession : c.sessionParameters = none) :
    RoundTrips conf level d n u (.srtp .sdescriptions c) ↔ CryptoReprints body := by
  have haccept : outcomeOf parseAttrSdescriptions body m =
      (.ok (.srtp .sdescriptions c), (outcomeOf parseAttrSdescriptions body m).2) := Prod.ext h rfl
  obtain ⟨tag, htag, w, t, htok, suite, hsuite, str, t', htok', c₀, hkey, ha, -⟩ :=
    outcomeOf_sdescriptions_iff.mp haccept
  obtain ⟨raw, hraw, lifetime, mki, size, rfl, hlifetime, hmki⟩ := keyParam_hasKept hkey
  -- without session parameters, the attribute is what was read from the key parameter
  obtain rfl : c = ((startContext tag suite).keyed raw).withParams lifetime mki size := by
    obtain ⟨-, rfl⟩ := Attr.srtp.inj ha
    have hnone : sessionParametersOf t' = none := hsession
    rw [hnone]
    rfl
  have hmem : suite ∈ CryptoSuite.all := mem_of_findName hsuite
  have hwords : (words body)[0]?.bind numOf = some tag ∧
      (words body)[1]?.bind suiteOf = some suite := by
    rcases hfirst : Line.token blanks maxStringLen body with ⟨_ | w₀, t₀⟩
    · rw [hfirst] at htag
      cases htag
    · rw [hfirst] at htag htok
      have hcons : words body = w₀ :: w :: words t :=
        (tokens_of_token (by decide) hfirst).trans
          (congrArg (w₀ :: ·) (tokens_of_token (by decide) htok))
      rw [hcons]
      exact ⟨htag, hsuite⟩
  have hreprints : CryptoReprints body ↔ tag.toNat < 2 ^ 31 ∧ suite ≠ .unknown := by
    rw [CryptoReprints, hwords.1, hwords.2]
    simp
  obtain ⟨hbuilt, hemit⟩ := emitted_crypto tag hraw lifetime mki size
  rw [hreprints, roundTrips_iff_run hlevel rfl hbuilt hemit]
  have hline : decimalInt tag.toInt32.toInt ++ ' ' :: (suite.name ++
        ' ' :: (keyText (Base64.groups raw) lifetime mki size ++ crlf)) ++ u =
      decimalInt tag.toInt32.toInt ++ ' ' :: (suite.name ++
        ' ' :: (keyText (Base64.groups raw) lifetime mki size ++ (crlf ++ u))) := by
    simp only [List.append_assoc, List.cons_append]
  rw [hline]
  rcases decimalInt_tag tag with ⟨hsmall, htext⟩ | ⟨hlarge, k, hk, htext⟩
  · rw [htext]
    have htagWord : isWord blanks maxStringLen (decimal tag.toNat) = true :=
      isWord_decimal (by decide) (Nat.lt_of_lt_of_le tag.toNat_lt (by decide))
    have htagTok := token_word (r := ' ' :: (suite.name ++
        ' ' :: (keyText (Base64.groups raw) lifetime mki size ++ (crlf ++ u)))) htagWord
      (Or.inr List.mem_cons_self)
    have hsuiteTok := (token_delim (c := ' ') (by decide) (by decide) _).trans (token_word
      (r := ' ' :: (keyText (Base64.groups raw) lifetime mki size ++ (crlf ++ u)))
      (isWord_name suite_readsBack hmem) (Or.inr List.mem_cons_self))
    have hkeyTok := (token_delim (c := ' ') (by decide) (by decide) _).trans (token_word (r := crlf ++ u)
      (isWord_keyText hraw hlifetime hmki) (Or.inl rfl))
    have hsome : suiteOf suite.name = some suite := findName_name suite_readsBack hmem
    rw [outcomeOf_sdescriptions_iff, htagTok]
    constructor
    · rintro ⟨tag', htag', w', t₁, htok₁, suite', hsuite', str', t₂, htok₂, c', hkey', ha', -⟩
      refine ⟨hsmall, fun hunknown => ?_⟩
      -- the words of the printed line are known
      rw [hsuiteTok] at htok₁
      obtain ⟨-, rfl⟩ := Prod.mk.inj htok₁
      rw [hkeyTok] at htok₂
      obtain ⟨hstr, rfl⟩ := Prod.mk.inj htok₂
      obtain rfl := Option.some.inj hstr
      obtain ⟨raw', -, lifetime', mki', size', rfl, -, -⟩ := keyParam_hasKept hkey'
      obtain ⟨-, hc⟩ := Attr.srtp.inj ha'
      subst hunknown
      obtain rfl := List.eq_nil_of_length_eq_zero hraw
      refine @keyParam_noKey _ _ ((startContext tag .unknown).keyed []) suite' _ tag' hlifetime hmki
        (hkey'.trans (congrArg some ?_))
      exact hc.symm
    · rintro ⟨-, hknown⟩
      refine ⟨tag, ?_, suite.name, _, hsuiteTok, suite, hsome, _, _, hkeyTok, _,
        keyParam_keyText hknown hraw hlifetime hmki, rfl, rfl⟩
      rw [Option.bind_some, numOf_decimal, UInt32.ofNat_toNat]
  · refine iff_of_false (fun hround => ?_) (by omega)
    have hword : isWord blanks maxStringLen ('-' :: decimal k) = true := by
      have hten : (decimal k).length ≤ 10 := length_decimal_le (by decide) (by omega)
      obtain ⟨-, -, hplain⟩ := isWord_iff.mp
        (show isWord blanks maxStringLen (decimal k) = true from
          isWord_decimal (by decide) (by omega))
      refine isWord_iff.mpr ⟨List.cons_ne_nil _ _, by rw [List.length_cons, maxStringLen]; omega, ?_⟩
      exact List.forall_mem_cons.mpr ⟨by decide, hplain⟩
    rw [htext, outcomeOf_sdescriptions_iff, token_word hword (Or.inr List.mem_cons_self)] at hround
    obtain ⟨tag', htag', -⟩ := hround
    cases htag'

/-- A key of zeroes, with a lifetime and a key identifier, is printed and read back. -/
theorem crypto_roundTrips_zeroes :
    RoundTrips nothingRequired .session {} 0 [] (.srtp .sdescriptions
      (((startContext 1 .aesCm128HmacSha1_80).keyed (List.replicate 30 0)).withParams "2^20" "1" 4)) := by
  have haccept : (parsePlain nothingRequired (.srtp .sdescriptions)
      "1 AES_CM_128_HMAC_SHA1_80 inline:AAAAAAAAAAAAAAAAAAAAAAAAAAAAAAAAAAAAAAAA|2^20|1:4\r\n" 0).1 =
      .ok (.srtp .sdescriptions (((startContext 1 .aesCm128HmacSha1_80).keyed
        (List.replicate 30 0)).withParams "2^20" "1" 4)) := by
    decide
  refine (crypto_roundTrips_iff rfl haccept rfl).mpr ⟨?_, by decide⟩
  have htag : (words
      "1 AES_CM_128_HMAC_SHA1_80 inline:AAAAAAAAAAAAAAAAAAAAAAAAAAAAAAAAAAAAAAAA|2^20|1:4\r\n")[0]?.bind
        numOf = some 1 := by
    decide
  intro tag h
  rw [htag] at h
  obtain rfl := Option.some.inj h
  decide

/-- A tag above 2^31 is printed as a negative number, which is refused. -/
theorem not_roundTrips_negativeTag :
    (parsePlain nothingRequired (.srtp .sdescriptions)
        "4294967295 AES_CM_128_HMAC_SHA1_80 inline:AAAAAAAAAAAAAAAAAAAAAAAAAAAAAAAAAAAAAAAA\r\n" 0).1 =
      .ok (.srtp .sdescriptions
        ((startContext 4294967295 .aesCm128HmacSha1_80).keyed (List.replicate 30 0))) ∧
    ¬ RoundTrips nothingRequired .session {} 0 [] (.srtp .sdescriptions
      ((startContext 4294967295 .aesCm128HmacSha1_80).keyed (List.replicate 30 0))) := by
  refine ⟨by decide, fun hround => ?_⟩
  -- the refused line is counted as an error
  have hcount := congrArg (fun r => r.2.2) hround.read
  revert hcount
  decide

end Sdp
