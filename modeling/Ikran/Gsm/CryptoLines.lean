import Ikran.Gsm.Srtp
import Ikran.Sdp.Addressing
import Mathlib.Data.List.Induction

/-!
# The crypto attributes of a media line

The search of `gsm_sdp_crypto.c` for a crypto attribute, over the attribute list of a media line. An attribute is
read in two stages: its number gives its type and instance, and the instance is looked up for each field. The
fields other than the tag are taken from an attribute of the old version with the same instance, if there is one.
-/

namespace Gsm

namespace Srtp

open Sdp (AttrNode AttrType SrtpAttr SrtpContext invalidValue findInst attrTypeAt ofType)

/-- The attributes of a media line that was parsed. The length of the text has 16 bits, and an attribute takes
three of its bytes or more. -/
structure AttrLine where
  attrs : List AttrNode
  parsed : 3 * attrs.length < 2 ^ 16

namespace AttrLine

variable (l : AttrLine) (m : Media)

/-- The type field of an attribute with a key. -/
def srtpType (t : SrtpAttr) : AttrType := .plain (.srtp t)

def srtpValue (n : AttrNode) : Option SrtpContext :=
  match n.value with
  | .plain (.srtp _ c) => some c
  | _ => none

/-- What `sdp_find_attr` finds for an instance. -/
def findSrtp (t : SrtpAttr) (inst : UInt16) : Option SrtpContext :=
  (findInst AttrNode.type (srtpType t) inst 0 l.attrs).bind srtpValue

/-- What the getters see of an instance. -/
def lineAt (inst : UInt16) : RemoteLine :=
  { transport := .rtpsavp, addr := .invalid, direction := .inactive, localDirection := .inactive
    srtpContexts := (l.findSrtp .srtpContext inst).toList
    sdescriptions := (l.findSrtp .sdescriptions inst).toList }

/-- The loop over all attributes: the instances of the crypto attributes. -/
def cryptoInsts : List UInt16 :=
  (List.range' 1 (UInt16.ofNat l.attrs.length).toNat).filterMap fun attr =>
    match attrTypeAt AttrNode.type (UInt16.ofNat attr) 0 (fun _ => 0) l.attrs with
    | some (attrType, inst) => if attrType = srtpType .sdescriptions then some inst else none
    | none => none

def gsmsdpSelectOfferCrypto : Option UInt16 :=
  l.cryptoInsts.find? fun inst => (l.lineAt inst).acceptable 0

def gsmsdpCheckAnswerCryptoParam : Option UInt16 :=
  match l.cryptoInsts with
  | [inst] => (m.gsmsdpCheckAnswerCryptoParam (l.lineAt inst)).map fun _ => inst
  | _ => none

def contexts (t : SrtpAttr) : List SrtpContext :=
  (ofType AttrNode.type (srtpType t) l.attrs).filterMap srtpValue

def cryptos : List SrtpContext := l.contexts .sdescriptions

/-- The size of a window as a session parameter, from 64 on. -/
def IsWindowSize (parms : CStr) : Prop :=
  ∃ n, 64 ≤ n ∧ n < 100 ∧ parms = "WSH=".toList ++ CStr.decimal n

/-- A crypto attribute that can be taken. -/
structure Meets (c : SrtpContext) : Prop where
  suite : c.suite = .aesCm128HmacSha1_32
  tag : c.tag ≠ invalidValue
  key : c.masterKeySizeBytes = 16
  salt : c.masterSaltSizeBytes = 14
  mki : c.mkiSizeBytes = 0
  parms : ∀ parms ∈ c.sessionParameters, IsWindowSize parms

/-- An offer is selected when there is an attribute that can be taken, and then it is the first one. -/
structure SelectsRight : Prop where
  found : l.gsmsdpSelectOfferCrypto.isSome ↔ ∃ c ∈ l.cryptos, Meets c
  first : ∀ inst ∈ l.gsmsdpSelectOfferCrypto, ∃ i c, inst = UInt16.ofNat (i + 1) ∧ l.cryptos[i]? = some c ∧
    Meets c ∧ ∀ j < i, ∀ c ∈ l.cryptos[j]?, ¬ Meets c

/-- What was offered last, or is agreed on. -/
def offered : UInt32 × AlgorithmId :=
  if m.localCrypto.tag ≠ invalidValue then (m.localCrypto.tag, m.localCrypto.algorithmId)
  else (m.negotiatedCrypto.tag, m.negotiatedCrypto.algorithmId)

/-- An answer is accepted when its only crypto attribute can be taken and is the one that was offered. -/
def AnswerRight : Prop :=
  (l.gsmsdpCheckAnswerCryptoParam m).isSome ↔ ∃ c, l.cryptos = [c] ∧ Meets c ∧ c.tag = (offered m).1 ∧
    c.suite = gsmsdpAlgorithmIdToCryptoSuite (offered m).2

/-- The fields that are looked at are those of a supported attribute, whose session parameters are none or six
characters that end in a number from 64 on. -/
structure Lenient (c : SrtpContext) : Prop where
  suite : c.suite = .aesCm128HmacSha1_32
  key : c.masterKeySizeBytes = 16
  salt : c.masterSaltSizeBytes = 14
  mki : c.mkiSizeBytes = 0
  parms : ∀ parms ∈ c.sessionParameters, parms.length = 6 ∧ 64 ≤ CStr.atoi (parms.drop 4)

/-- The attribute of the old version with the same instance, or else the crypto attribute, is lenient. -/
def Passes (i : ℕ) : Prop :=
  ∃ c, ((l.contexts .srtpContext)[i]? <|> l.cryptos[i]?) = some c ∧ Lenient c

/-- The first crypto attribute that can be taken or passes with its tag does both. -/
def FirstAgrees : Prop :=
  ∀ i c, l.cryptos[i]? = some c →
    (∀ j < i, ∀ c ∈ l.cryptos[j]?, ¬ Meets c ∧ ¬ (c.tag ≠ invalidValue ∧ l.Passes j)) →
      (Meets c ↔ c.tag ≠ invalidValue ∧ l.Passes i)

/-- The crypto attribute of an answer with the tag and the algorithm that were offered can be taken when it
passes, and the other way round. -/
def AnswerAgrees : Prop :=
  ∀ c, l.cryptos = [c] → c.tag = (offered m).1 → (offered m).2 = .aes128Counter → (Meets c ↔ l.Passes 0)

/-! ## Instances -/

variable {l m}

theorem map_contexts (t : SrtpAttr) :
    (l.contexts t).map some = (ofType AttrNode.type (srtpType t) l.attrs).map srtpValue := by
  have hall : ∀ n ∈ ofType AttrNode.type (srtpType t) l.attrs, ∃ c, srtpValue n = some c := by
    intro n hn
    have htype := (List.mem_filter.mp hn).2
    rw [decide_eq_true_eq, AttrNode.type] at htype
    rw [srtpValue]
    cases hv : n.value with
    | plain a =>
      rw [hv] at htype
      cases a <;> simp_all [srtpType, Sdp.NodeValue.type, Sdp.Attr.type]
    | cap | cpar => simp [hv, srtpType, Sdp.NodeValue.type] at htype
  rw [contexts]
  generalize ofType AttrNode.type (srtpType t) l.attrs = ns at hall ⊢
  induction ns with
  | nil => rfl
  | cons n ns ih =>
    obtain ⟨c, hc⟩ := hall n List.mem_cons_self
    rw [List.filterMap_cons_some hc, List.map_cons, List.map_cons, hc,
      ih fun n hn => hall n (List.mem_cons_of_mem _ hn)]

variable {i : ℕ}

theorem findSrtp_ofNat (t : SrtpAttr) (hi : i < l.attrs.length) :
    l.findSrtp t (UInt16.ofNat (i + 1)) = (l.contexts t)[i]? := by
  have hparsed := l.parsed
  have hnum : (UInt16.ofNat (i + 1)).toNat = i + 1 := UInt16.toNat_ofNat_of_lt' (by simp only [UInt16.size]; omega)
  rw [findSrtp, Sdp.findInst_eq (UInt16.le_iff_toNat_le.mpr (by rw [hnum]; exact Nat.succ_pos i)) (by omega), hnum]
  have hget := congrArg (·[i]?) (map_contexts (l := l) t)
  simp only [List.getElem?_map] at hget
  rw [Nat.add_sub_cancel]
  show (ofType AttrNode.type (srtpType t) l.attrs)[i]?.bind srtpValue = _
  cases hn : (ofType AttrNode.type (srtpType t) l.attrs)[i]? with
  | none => cases hc : (l.contexts t)[i]? <;> simp_all
  | some n => cases hc : (l.contexts t)[i]? <;> simp_all

theorem filterMap_instances (attrType : AttrType) (ns : List AttrNode) :
    ((List.range' 1 ns.length).filterMap fun p => (ns[p - 1]?).bind fun n =>
      if n.type = attrType then some (ofType AttrNode.type n.type (ns.take p)).length else none) =
        List.range' 1 (ofType AttrNode.type attrType ns).length := by
  induction ns using List.reverseRecOn with
  | nil => rfl
  | append_singleton ns n ih =>
    have hfront : ∀ p ∈ List.range' 1 ns.length, (ns ++ [n])[p - 1]? = ns[p - 1]? ∧ (ns ++ [n]).take p = ns.take p := by
      intro p hp
      rw [List.mem_range'_1] at hp
      exact ⟨List.getElem?_append_left (by omega), List.take_append_of_le_length (by omega)⟩
    rw [List.length_append, List.length_singleton, List.range'_concat, List.filterMap_append,
      List.filterMap_congr (fun p hp => by rw [(hfront p hp).1, (hfront p hp).2]), ih, Sdp.ofType_append]
    by_cases h : n.type = attrType
    · have hall : (ns ++ [n]).take (1 + ns.length) = ns ++ [n] := List.take_of_length_le (by simp [Nat.add_comm])
      simp [h, ofType, hall, List.range'_concat]
      omega
    · simp [h, ofType]

theorem cryptoInsts_eq : l.cryptoInsts = (List.range' 1 l.cryptos.length).map UInt16.ofNat := by
  have hparsed := l.parsed
  have hlen : l.cryptos.length = (ofType AttrNode.type (srtpType .sdescriptions) l.attrs).length := by
    simpa [cryptos] using congrArg List.length (map_contexts (l := l) .sdescriptions)
  have hcount : (UInt16.ofNat l.attrs.length).toNat = l.attrs.length :=
    UInt16.toNat_ofNat_of_lt' (by simp only [UInt16.size]; omega)
  rw [cryptoInsts, hcount, hlen, ← filterMap_instances, List.map_filterMap]
  refine List.filterMap_congr fun p hp => ?_
  rw [List.mem_range'_1] at hp
  obtain ⟨n, hn⟩ : ∃ n, l.attrs[p - 1]? = some n := ⟨_, List.getElem?_eq_getElem (by omega)⟩
  have hnum : (UInt16.ofNat p).toNat = p := UInt16.toNat_ofNat_of_lt' (by simp only [UInt16.size]; omega)
  obtain ⟨k, hk, hinst⟩ := @Sdp.attrTypeAt_eq_some _ AttrNode.type l.attrs 0 (UInt16.ofNat p) (fun _ => 0) n
    (UInt16.lt_iff_toNat_lt.mpr (by rw [hnum]; exact hp.1)) (by rw [hnum]; exact hn)
  rw [hk, hn, hinst, hnum]
  by_cases h : n.type = srtpType .sdescriptions <;> simp [h]

variable {c : SrtpContext}

theorem lineAt_eq (hc : l.cryptos[i]? = some c) : l.lineAt (UInt16.ofNat (i + 1)) =
      { transport := .rtpsavp, addr := .invalid, direction := .inactive, localDirection := .inactive
        srtpContexts := ((l.contexts .srtpContext)[i]?).toList, sdescriptions := [c] } := by
  have hlen : (l.contexts .sdescriptions).length ≤ l.attrs.length :=
    (List.length_filterMap_le _ _).trans (Sdp.length_ofType_le _ _ _)
  have hi : i < l.attrs.length := (List.getElem?_eq_some_iff.mp hc).1.trans_le hlen
  have hc' : (l.contexts .sdescriptions)[i]? = some c := hc
  rw [lineAt, findSrtp_ofNat _ hi, findSrtp_ofNat _ hi, hc']
  rfl

theorem check_iff (hc : l.cryptos[i]? = some c) :
    (l.lineAt (UInt16.ofNat (i + 1))).gsmsdpCheckCommonCryptoParam 0 = true ↔ l.Passes i := by
  rw [lineAt_eq hc, Passes, hc]
  have hlenient (c : SrtpContext) : Lenient c ↔ (gsmsdpIsValidKeySize c.suite c.masterKeySizeBytes ∧
      gsmsdpIsValidSaltSize c.suite c.masterSaltSizeBytes) ∧ c.mkiSizeBytes = 0 ∧
        gsmsdpIsSupportedSessionParm c.sessionParameters := by
    have hsix {parms : CStr} (h : parms.length = 6) : parms ≠ "WSH=".toList := fun heq => by
      rw [heq] at h
      exact absurd h (by decide)
    constructor
    · rintro ⟨hsuite, hkey, hsalt, hmki, hparms⟩
      refine ⟨?_, hmki, ?_⟩
      · rw [hsuite, hkey, hsalt]
        decide
      · cases hp : c.sessionParameters with
        | none => rfl
        | some parms =>
          obtain ⟨hlen, hsize⟩ := hparms parms hp
          simpa [gsmsdpIsSupportedSessionParm, hlen, hsize] using hsix hlen
    · rintro ⟨⟨hkey, hsalt⟩, hmki, hparms⟩
      have hsuite : c.suite = .aesCm128HmacSha1_32 := by
        cases hs : c.suite <;> simp_all [gsmsdpIsValidKeySize]
      simp only [gsmsdpIsValidKeySize, gsmsdpIsValidSaltSize, hsuite, Bool.and_eq_true, decide_eq_true_eq] at hkey hsalt
      refine ⟨hsuite, UInt8.toNat_inj.mp hkey.2, UInt8.toNat_inj.mp hsalt.2, hmki, fun parms hp => ?_⟩
      rw [Option.mem_def.mp hp] at hparms
      simp only [gsmsdpIsSupportedSessionParm, Bool.and_eq_true, decide_eq_true_eq] at hparms
      exact ⟨hparms.1.2, hparms.2⟩
  cases (l.contexts .srtpContext)[i]? <;>
    simp [RemoteLine.gsmsdpCheckCommonCryptoParam, RemoteLine.gsmsdpGetKeyFromSdp, RemoteLine.context, hlenient]

theorem suite_of_passes (hc : l.cryptos[i]? = some c) (h : l.Passes i) :
    (l.lineAt (UInt16.ofNat (i + 1))).suite 0 = .aesCm128HmacSha1_32 := by
  obtain ⟨c', hc', hlenient⟩ := h
  rw [lineAt_eq hc]
  rw [hc] at hc'
  cases hold : (l.contexts .srtpContext)[i]? <;> simp_all [RemoteLine.suite, RemoteLine.context, hlenient.suite]

theorem acceptable_iff (hc : l.cryptos[i]? = some c) :
    (l.lineAt (UInt16.ofNat (i + 1))).acceptable 0 = true ↔ c.tag ≠ invalidValue ∧ l.Passes i := by
  have hsuite (h : l.Passes i) : gsmsdpIsSupportedCryptoSuite ((l.lineAt (UInt16.ofNat (i + 1))).suite 0) = true := by
    rw [suite_of_passes hc h]
    rfl
  rw [RemoteLine.acceptable, Bool.and_eq_true, Bool.and_eq_true, check_iff hc, decide_eq_true_eq]
  have htag : (l.lineAt (UInt16.ofNat (i + 1))).tag 0 = c.tag := by
    rw [lineAt_eq hc]
    rfl
  rw [htag]
  exact ⟨fun h => ⟨h.1.2, h.2⟩, fun h => ⟨⟨hsuite h.2, h.1⟩, h.2⟩⟩

/-! ## The selection -/

theorem select_spec : (∃ i c, l.gsmsdpSelectOfferCrypto = some (UInt16.ofNat (i + 1)) ∧ l.cryptos[i]? = some c ∧
        (c.tag ≠ invalidValue ∧ l.Passes i) ∧ ∀ j < i, ∀ c ∈ l.cryptos[j]?, ¬ (c.tag ≠ invalidValue ∧ l.Passes j)) ∨
      l.gsmsdpSelectOfferCrypto = none ∧ ∀ j c, l.cryptos[j]? = some c → ¬ (c.tag ≠ invalidValue ∧ l.Passes j) := by
  rw [gsmsdpSelectOfferCrypto, cryptoInsts_eq, List.find?_map]
  cases hfind : (List.range' 1 l.cryptos.length).find? ((fun inst => (l.lineAt inst).acceptable 0) ∘ UInt16.ofNat) with
  | some p =>
    obtain ⟨hacc, hmem, hbefore⟩ := List.find?_range'_eq_some.mp hfind
    rw [List.mem_range'_1] at hmem
    obtain ⟨i, rfl⟩ : ∃ i, p = i + 1 := ⟨p - 1, by omega⟩
    obtain ⟨c, hc⟩ : ∃ c, l.cryptos[i]? = some c := ⟨_, List.getElem?_eq_getElem (by omega)⟩
    refine Or.inl ⟨i, c, rfl, hc, (acceptable_iff hc).mp hacc, fun j hj c' hc' hpass => ?_⟩
    have hnot := hbefore (j + 1) (by omega) (by omega)
    rw [Function.comp_apply, (acceptable_iff hc').mpr hpass] at hnot
    exact Bool.noConfusion hnot
  | none =>
    refine Or.inr ⟨rfl, fun j c hc hpass => ?_⟩
    have hlt := (List.getElem?_eq_some_iff.mp hc).1
    have hnot := List.find?_eq_none.mp hfind (j + 1) (List.mem_range'_1.mpr (by omega))
    exact hnot ((acceptable_iff hc).mpr hpass)

theorem FirstAgrees.not_meets (h : l.FirstAgrees) {n : ℕ}
    (hnone : ∀ j < n, ∀ c ∈ l.cryptos[j]?, ¬ (c.tag ≠ invalidValue ∧ l.Passes j)) :
    ∀ j < n, ∀ c ∈ l.cryptos[j]?, ¬ Meets c := by
  intro j
  induction j using Nat.strong_induction_on with
  | _ j ih =>
    intro hj c hc hmeets
    exact hnone j hj c hc ((h j c hc fun k hk c' hc' =>
      ⟨ih k hk (hk.trans hj) c' hc', hnone k (hk.trans hj) c' hc'⟩).mp hmeets)

/-- What is selected is right exactly when the first attribute of either kind is of both kinds. -/
theorem selectsRight_iff : l.SelectsRight ↔ l.FirstAgrees := by
  obtain ⟨i, c, hsel, hc, hpass, hbefore⟩ | ⟨hsel, hnone⟩ := select_spec (l := l)
  · have hbound {i : ℕ} {c : SrtpContext} (hc : l.cryptos[i]? = some c) : (UInt16.ofNat (i + 1)).toNat = i + 1 := by
      have hparsed := l.parsed
      have hlt : i < (l.contexts .sdescriptions).length := (List.getElem?_eq_some_iff.mp hc).1
      have hlen : (l.contexts .sdescriptions).length ≤ l.attrs.length :=
        (List.length_filterMap_le _ _).trans (Sdp.length_ofType_le _ _ _)
      exact UInt16.toNat_ofNat_of_lt' (by simp only [UInt16.size]; omega)
    constructor
    · rintro ⟨-, hfirst⟩ j c' hc' hneither
      obtain ⟨i', c'', hinst, hc'', hmeets, hearlier⟩ := hfirst _ hsel
      obtain rfl : i = i' := by
        have hnum := congrArg UInt16.toNat hinst
        rw [hbound hc, hbound hc''] at hnum
        omega
      rw [hc] at hc''
      obtain rfl := Option.some.inj hc''
      rcases lt_trichotomy j i with hlt | rfl | hlt
      · exact iff_of_false (hearlier j hlt c' hc') (hbefore j hlt c' hc')
      · rw [hc] at hc'
        obtain rfl := Option.some.inj hc'
        exact iff_of_true hmeets hpass
      · exact absurd hmeets (hneither i hlt c hc).1
    · intro hagree
      have hearlier := hagree.not_meets hbefore
      have hmeets := (hagree i c hc fun j hj c' hc' => ⟨hearlier j hj c' hc', hbefore j hj c' hc'⟩).mpr hpass
      refine ⟨?_, fun inst hinst => ?_⟩
      · rw [hsel]
        exact iff_of_true rfl ⟨c, List.mem_of_getElem? hc, hmeets⟩
      · rw [hsel] at hinst
        exact ⟨i, c, (Option.some.inj hinst).symm, hc, hmeets, hearlier⟩
  · constructor
    · rintro ⟨hfound, -⟩ j c hc -
      rw [hsel] at hfound
      have hno : ¬ ∃ c ∈ l.cryptos, Meets c := fun h => Bool.noConfusion (hfound.mpr h)
      exact iff_of_false (fun hmeets => hno ⟨c, List.mem_of_getElem? hc, hmeets⟩) (hnone j c hc)
    · intro hagree
      refine ⟨?_, fun inst hinst => by rw [hsel] at hinst; exact nomatch hinst⟩
      rw [hsel]
      refine iff_of_false Bool.false_ne_true fun ⟨c, hc, hmeets⟩ => ?_
      obtain ⟨j, hj⟩ := List.mem_iff_getElem?.mp hc
      exact hagree.not_meets (n := j + 1) (fun k _ => hnone k) j j.lt_succ_self c hj hmeets

theorem answerRight_iff : l.AnswerRight m ↔ l.AnswerAgrees m := by
  rw [AnswerRight, gsmsdpCheckAnswerCryptoParam, cryptoInsts_eq, AnswerAgrees]
  rcases hcryptos : l.cryptos with - | ⟨c, - | ⟨c', cs⟩⟩
  · simp
  · have hc : l.cryptos[0]? = some c := by rw [hcryptos]; rfl
    have hcheck : (l.lineAt (UInt16.ofNat 1)).gsmsdpCheckCommonCryptoParam 0 = true ↔ l.Passes 0 := check_iff hc
    have hsuite : l.Passes 0 →
        gsmsdpCryptoSuiteToAlgorithmId ((l.lineAt (UInt16.ofNat 1)).suite 0) = .aes128Counter := by
      rintro hpass
      rw [suite_of_passes hc hpass]
      rfl
    have hline : (l.lineAt (UInt16.ofNat 1)).sdescriptions = [c] ∧ (l.lineAt (UInt16.ofNat 1)).tag 0 = c.tag := by
      rw [lineAt_eq hc]
      exact ⟨rfl, rfl⟩
    have haccept : (m.gsmsdpCheckAnswerCryptoParam (l.lineAt (UInt16.ofNat 1))).isSome = true ↔
        c.tag = (offered m).1 ∧ (offered m).2 = .aes128Counter ∧ l.Passes 0 := by
      have htag : (if m.gsmsdpLocalOfferSrtp then m.localCrypto.tag else m.negotiatedCrypto.tag) = (offered m).1 := by
        rw [Media.gsmsdpLocalOfferSrtp, offered]
        split_ifs <;> simp_all
      have halg : (if m.gsmsdpLocalOfferSrtp then m.localCrypto.algorithmId else m.negotiatedCrypto.algorithmId) =
          (offered m).2 := by
        rw [Media.gsmsdpLocalOfferSrtp, offered]
        split_ifs <;> simp_all
      rw [Media.gsmsdpCheckAnswerCryptoParam, if_pos (by rw [hline.1]; rfl)]
      dsimp only
      rw [htag, halg, hline.2]
      split_ifs with h
      · have hpass := hcheck.mp h.2.2
        exact iff_of_true rfl ⟨h.1, h.2.1.symm.trans (hsuite hpass), hpass⟩
      · exact iff_of_false Bool.false_ne_true fun h' =>
          h ⟨h'.1, (hsuite h'.2.2).trans h'.2.1.symm, hcheck.mpr h'.2.2⟩
    have hmeets : (∃ c', [c] = [c'] ∧ Meets c' ∧ c'.tag = (offered m).1 ∧
        c'.suite = gsmsdpAlgorithmIdToCryptoSuite (offered m).2) ↔
          c.tag = (offered m).1 ∧ (offered m).2 = .aes128Counter ∧ Meets c := by
      constructor
      · rintro ⟨c', heq, hmeets, htag, hsuite⟩
        obtain rfl : c = c' := by simpa using heq
        refine ⟨htag, ?_, hmeets⟩
        rw [hmeets.suite] at hsuite
        cases halg : (offered m).2 <;> simp_all [gsmsdpAlgorithmIdToCryptoSuite]
      · rintro ⟨htag, halg, hmeets⟩
        exact ⟨c, rfl, hmeets, htag, hmeets.suite.trans (by rw [halg]; rfl)⟩
    rw [hmeets]
    simp only [List.length_singleton, List.range'_one, List.map_singleton, Option.isSome_map, haccept,
      List.cons.injEq, and_true, forall_eq']
    tauto
  · simp [List.range'_succ]

/-- **When the right crypto attributes are taken.** -/
theorem selection_right_iff (l : AttrLine) (m : Media) :
    l.SelectsRight ∧ l.AnswerRight m ↔ l.FirstAgrees ∧ l.AnswerAgrees m :=
  and_congr selectsRight_iff answerRight_iff

/-- A key that is accepted, with session parameters. -/
def lineWith (parms : CStr) : AttrLine where
  attrs := [⟨0, .plain (.srtp .sdescriptions
    { tag := 1, suite := .aesCm128HmacSha1_32, masterKeySizeBytes := 16, masterSaltSizeBytes := 14
      sessionParameters := some parms })⟩]
  parsed := by
    rw [List.length_singleton]
    decide

/-- Session parameters of six characters that end in a number are taken for a window size. -/
theorem not_selectsRight : ¬ (lineWith "KDR=64".toList).SelectsRight := by
  rintro ⟨hfound, -⟩
  have hsel : (lineWith "KDR=64".toList).gsmsdpSelectOfferCrypto.isSome = true := by decide
  obtain ⟨c, hc, hmeets⟩ := hfound.mp hsel
  have hparms : c.sessionParameters = some "KDR=64".toList := by
    obtain rfl := List.mem_singleton.mp hc
    rfl
  obtain ⟨n, -, -, heq⟩ := hmeets.parms _ hparms
  exact absurd (congrArg List.head? heq) (by simp)

end AttrLine

end Srtp

end Gsm
