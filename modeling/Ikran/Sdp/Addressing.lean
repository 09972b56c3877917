import Ikran.Sdp.AttrAccess
import Mathlib.Data.List.NodupEquivFin

/-!
# Addressing the attributes of a description

An attribute is addressed by its level, the number of its capability, its type and its instance. The
functions that add, delete, count and look up attributes walk over the lists each on its own, with counters
of 16 bits. They agree as long as no list is longer than such a counter can tell.
-/

namespace Sdp

/-! ## Loops over a list -/

section Loops

variable {α β : Type} {type : α → AttrType} {attrType : AttrType}

def ofType (type : α → AttrType) (attrType : AttrType) (l : List α) : List α :=
  l.filter fun a => type a = attrType

theorem ofType_cons (a : α) (l : List α) : ofType type attrType (a :: l) =
      if type a = attrType then a :: ofType type attrType l else ofType type attrType l := by
  simp [ofType, List.filter_cons]

theorem ofType_append (l m : List α) :
    ofType type attrType (l ++ m) = ofType type attrType l ++ ofType type attrType m :=
  List.filter_append l m

theorem length_ofType_le (type : α → AttrType) (attrType : AttrType) (l : List α) :
    (ofType type attrType l).length ≤ l.length :=
  List.length_filter_le _ l

theorem toNat_add_one {n : UInt16} (h : n.toNat < 2 ^ 16 - 1) : (n + 1).toNat = n.toNat + 1 := by
  rw [UInt16.toNat_add]
  have hone : (1 : UInt16).toNat = 1 := rfl
  rw [hone]
  omega

variable {l : List α} {c instNum : UInt16}

theorem findInst_eq_some {a : α} (hc : c < instNum)
    (ha : (ofType type attrType l)[instNum.toNat - c.toNat - 1]? = some a) :
    findInst type attrType instNum c l = some a := by
  have hbound := instNum.toNat_lt
  induction l generalizing c with
  | nil => simp [ofType] at ha
  | cons b l ih =>
    rw [ofType_cons] at ha
    rw [UInt16.lt_iff_toNat_lt] at hc
    rw [findInst]
    by_cases hb : type b = attrType
    · rw [if_pos hb] at ha ⊢
      have hnext : (c + 1).toNat = c.toNat + 1 := toNat_add_one (by omega)
      by_cases hinst : c + 1 = instNum
      · have hzero : instNum.toNat - c.toNat - 1 = 0 := by
          rw [← hinst, hnext]
          omega
        rw [if_pos hinst]
        rw [hzero, List.getElem?_cons_zero] at ha
        exact ha
      · rw [if_neg hinst]
        have hne : c.toNat + 1 ≠ instNum.toNat := fun heq => hinst (UInt16.toNat_inj.mp (hnext.trans heq))
        refine ih (UInt16.lt_iff_toNat_lt.mpr (by omega)) ?_
        have hsucc : instNum.toNat - c.toNat - 1 = instNum.toNat - (c + 1).toNat - 1 + 1 := by omega
        rw [hsucc, List.getElem?_cons_succ] at ha
        exact ha
    · rw [if_neg hb] at ha ⊢
      exact ih (UInt16.lt_iff_toNat_lt.mpr hc) ha

theorem findInst_eq_none (hroom : c.toNat + l.length < 2 ^ 16)
    (hnum : instNum ≤ c ∨ (ofType type attrType l).length ≤ instNum.toNat - c.toNat - 1) :
    findInst type attrType instNum c l = none := by
  induction l generalizing c with
  | nil => rfl
  | cons b l ih =>
    rw [ofType_cons, UInt16.le_iff_toNat_le] at hnum
    rw [List.length_cons] at hroom
    rw [findInst]
    by_cases hb : type b = attrType
    · have hnext : (c + 1).toNat = c.toNat + 1 := toNat_add_one (by omega)
      rw [if_pos hb, List.length_cons] at hnum
      have hinst : c + 1 ≠ instNum := by
        rintro rfl
        omega
      rw [if_pos hb, if_neg hinst]
      refine ih (by omega) ?_
      rw [UInt16.le_iff_toNat_le]
      have hne : c.toNat + 1 ≠ instNum.toNat := fun heq => hinst (UInt16.toNat_inj.mp (hnext.trans heq))
      omega
    · rw [if_neg hb] at hnum ⊢
      exact ih (by omega) (by rwa [UInt16.le_iff_toNat_le])

theorem findInst_eq (hnum : 1 ≤ instNum) (hroom : l.length < 2 ^ 16) :
    findInst type attrType instNum 0 l = (ofType type attrType l)[instNum.toNat - 1]? := by
  have hzero : (0 : UInt16).toNat = 0 := rfl
  have hone : (1 : UInt16).toNat = 1 := rfl
  have hpos : 1 ≤ instNum.toNat := by
    rw [← hone]
    exact UInt16.le_iff_toNat_le.mp hnum
  cases ha : (ofType type attrType l)[instNum.toNat - 1]? with
  | some a =>
    refine findInst_eq_some (UInt16.lt_iff_toNat_lt.mpr (by omega)) ?_
    rw [hzero, Nat.sub_zero]
    exact ha
  | none =>
    refine findInst_eq_none (by omega) (Or.inr ?_)
    rw [hzero, Nat.sub_zero]
    exact List.getElem?_eq_none_iff.mp ha

theorem toNat_countInst (l : List α) :
    (countInst type attrType l).toNat = (ofType type attrType l).length % 2 ^ 16 := by
  have hfold : ∀ (l : List α) (n : UInt16),
      (l.foldl (fun n a => if type a = attrType then n + 1 else n) n).toNat =
        (n.toNat + (ofType type attrType l).length) % 2 ^ 16 := by
    intro l
    induction l with
    | nil =>
      intro n
      have hbound := n.toNat_lt
      simp only [List.foldl_nil, ofType, List.filter_nil, List.length_nil]
      omega
    | cons a l ih =>
      intro n
      rw [List.foldl_cons, ih, ofType_cons]
      by_cases ha : type a = attrType
      · rw [if_pos ha, if_pos ha, UInt16.toNat_add, List.length_cons]
        have hone : (1 : UInt16).toNat = 1 := rfl
        rw [hone]
        omega
      · rw [if_neg ha, if_neg ha]
  have hzero : (0 : UInt16).toNat = 0 := rfl
  rw [countInst, hfold, hzero, Nat.zero_add]

/-- The type of an attribute and its instance are found: none of the numbers up to it wraps. By induction on
the list. -/
theorem attrTypeAt_eq_some {attrNum : UInt16} {count : AttrType → UInt16} {a : α}
    (hc : c < attrNum) (ha : l[attrNum.toNat - c.toNat - 1]? = some a) :
    ∃ k : UInt16, attrTypeAt type attrNum c count l = some (type a, k) ∧ k = count (type a) +
        UInt16.ofNat (ofType type (type a) (l.take (attrNum.toNat - c.toNat))).length := by
  have hbound := attrNum.toNat_lt
  induction l generalizing c count with
  | nil => simp at ha
  | cons b l ih =>
    rw [UInt16.lt_iff_toNat_lt] at hc
    have hnext : (c + 1).toNat = c.toNat + 1 := toNat_add_one (by omega)
    rw [attrTypeAt]
    by_cases hnum : c + 1 = attrNum
    · have hone : attrNum.toNat - c.toNat = 1 := by
        rw [← hnum, hnext]
        omega
      rw [hone] at ha ⊢
      have hab : b = a := by simpa using ha
      subst hab
      refine ⟨_, if_pos hnum, ?_⟩
      rw [Function.update_self]
      simp [ofType]
    · have hne : c.toNat + 1 ≠ attrNum.toNat := fun heq => hnum (UInt16.toNat_inj.mp (hnext.trans heq))
      have hsucc : attrNum.toNat - c.toNat = attrNum.toNat - (c + 1).toNat + 1 := by omega
      have hsucc' : attrNum.toNat - c.toNat - 1 = attrNum.toNat - (c + 1).toNat - 1 + 1 := by omega
      rw [hsucc', List.getElem?_cons_succ] at ha
      obtain ⟨k, hk, hcount⟩ := @ih (c + 1) (Function.update count (type b) (count (type b) + 1))
        (UInt16.lt_iff_toNat_lt.mpr (by omega)) ha
      refine ⟨k, by rw [if_neg hnum]; exact hk, ?_⟩
      rw [hcount, hsucc, List.take_succ_cons, ofType_cons]
      by_cases hb : type b = type a
      · rw [if_pos hb, hb, Function.update_self, List.length_cons]
        apply UInt16.toNat_inj.mp
        simp only [UInt16.toNat_add, UInt16.toNat_ofNat']
        have hone : (1 : UInt16).toNat = 1 := rfl
        rw [hone]
        omega
      · rw [if_neg hb, Function.update_of_ne (fun heq => hb heq.symm)]

theorem attrTypeAt_eq_none {attrNum : UInt16} {count : AttrType → UInt16}
    (hroom : c.toNat + l.length < 2 ^ 16) (hc : c < attrNum) (hlen : l.length ≤ attrNum.toNat - c.toNat - 1) :
    attrTypeAt type attrNum c count l = none := by
  induction l generalizing c count with
  | nil => rfl
  | cons b l ih =>
    rw [UInt16.lt_iff_toNat_lt] at hc
    rw [List.length_cons] at hroom hlen
    have hnext : (c + 1).toNat = c.toNat + 1 := toNat_add_one (by omega)
    have hnum : c + 1 ≠ attrNum := by
      rintro rfl
      omega
    rw [attrTypeAt, if_neg hnum]
    exact ih (by omega) (UInt16.lt_iff_toNat_lt.mpr (by omega)) (by omega)

theorem getElem?_ofType {i : ℕ} {a : α} (ha : l[i]? = some a) : 0 < (ofType type (type a) (l.take (i + 1))).length ∧
      (ofType type (type a) l)[(ofType type (type a) (l.take (i + 1))).length - 1]? = some a := by
  induction l generalizing i with
  | nil => simp at ha
  | cons b l ih =>
    cases i with
    | zero =>
      have hab : b = a := by simpa using ha
      subst hab
      simp [ofType]
    | succ i =>
      rw [List.getElem?_cons_succ] at ha
      obtain ⟨hpos, hget⟩ := ih ha
      rw [List.take_succ_cons, ofType_cons, ofType_cons]
      by_cases hb : type b = type a
      · rw [if_pos hb, if_pos hb, List.length_cons]
        refine ⟨Nat.succ_pos _, ?_⟩
        rw [Nat.add_sub_cancel, ← Nat.sub_add_cancel hpos, List.getElem?_cons_succ]
        exact hget
      · rw [if_neg hb, if_neg hb]
        exact ⟨hpos, hget⟩

theorem findInst_map {type' : β → AttrType} {f : α → β} (hf : ∀ a, type' (f a) = type a) (instNum c : UInt16)
    (l : List α) : findInst type' attrType instNum c (l.map f) = (findInst type attrType instNum c l).map f := by
  induction l generalizing c with
  | nil => rfl
  | cons a l ih =>
    rw [List.map_cons, findInst, findInst, hf]
    by_cases ha : type a = attrType
    · by_cases hnum : c + 1 = instNum
      · rw [if_pos ha, if_pos ha, if_pos hnum, if_pos hnum]
        rfl
      · rw [if_pos ha, if_pos ha, if_neg hnum, if_neg hnum, ih]
    · rw [if_neg ha, if_neg ha, ih]

theorem mem_of_findInst {a : α} (h : findInst type attrType instNum c l = some a) : a ∈ l := by
  induction l generalizing c with
  | nil => cases h
  | cons b l ih =>
    rw [findInst] at h
    split_ifs at h
    · obtain rfl := Option.some.inj h
      exact List.mem_cons_self
    · exact List.mem_cons_of_mem _ (ih h)
    · exact List.mem_cons_of_mem _ (ih h)

theorem countInst_map {type' : β → AttrType} {f : α → β} (hf : ∀ a, type' (f a) = type a) (l : List α) :
    countInst type' attrType (l.map f) = countInst type attrType l := by
  simp only [countInst, List.foldl_map, hf]

theorem countInst_types (l : List AttrNode) (t : AttrType) :
    countInst Prod.snd t (l.map fun n => (n.ptr, n.type)) = countInst AttrNode.type t l :=
  countInst_map (fun _ => rfl) l

theorem countInst_capTypes (l : List (Node Attr)) (t : AttrType) :
    countInst Prod.snd t (l.map fun n => (n.ptr, capAttrType n)) = countInst capAttrType t l :=
  countInst_map (fun _ => rfl) l

theorem index_eq_of_nodup {l : List (ℕ × AttrType)} (hnodup : (l.map Prod.fst).Nodup) {i j : ℕ}
    (hi : i < l.length) (hj : j < l.length) (h : l[i].1 = l[j].1) : i = j := by
  have hlen : i < (l.map Prod.fst).length := by rwa [List.length_map]
  refine (List.getElem?_inj hlen hnodup).mp ?_
  rw [List.getElem?_map, List.getElem?_map, List.getElem?_eq_getElem hi, List.getElem?_eq_getElem hj]
  exact congrArg some h

theorem sublist_of_eraseInst {m : List α} (h : eraseInst type attrType instNum c l = some m) : m.Sublist l := by
  induction l generalizing c m with
  | nil => cases h
  | cons a l ih =>
    rw [eraseInst] at h
    split_ifs at h with ha hnum
    · obtain rfl := Option.some.inj h
      exact List.sublist_cons_self a l
    · obtain ⟨m, hm, rfl⟩ := Option.map_eq_some_iff.mp h
      exact (ih hm).cons_cons a
    · obtain ⟨m, hm, rfl⟩ := Option.map_eq_some_iff.mp h
      exact (ih hm).cons_cons a

end Loops

/-! ## The lookups of one list -/

namespace AttrDesc

/-- The address of the attribute that `sdp_find_attr` returns. -/
def address (d : AttrDesc) (level : Level) (capNum : UInt8) (attrType : AttrType) (instNum : UInt16) :
    Option ℕ :=
  (d.findAttr level capNum attrType instNum).map Node.ptr

/-- The lookups agree: the instances from 1 to their number are found, in the order of the list, and each
attribute is given once by its type and the instance that finds it. -/
structure Coherent (d : AttrDesc) (level : Level) (capNum : UInt8) : Prop where
  found : ∀ t k, (d.findAttr level capNum t k).isSome = true ↔
    1 ≤ k ∧ k ≤ (d.attrNumInstances level capNum t).2
  ordered : ∀ l, d.findAttrList level capNum = .ok l → ∀ t k k' p p', k < k' →
    d.address level capNum t k = some p → d.address level capNum t k' = some p' →
    ∃ i j : ℕ, i < j ∧ (l.map Prod.fst)[i]? = some p ∧ (l.map Prod.fst)[j]? = some p' ∧ p ≠ p'
  enumerated : ∀ l, d.findAttrList level capNum = .ok l → ∀ p ∈ l.map Prod.fst,
    ∃! n : UInt16, ∃ t k, d.getAttrType level capNum n = (.success, some (t, k)) ∧
      d.address level capNum t k = some p

/-- The list has no more attributes than a counter of 16 bits can tell. -/
def Roomy (d : AttrDesc) (level : Level) (capNum : UInt8) : Prop :=
  ∀ l, d.findAttrList level capNum = .ok l → l.length < 2 ^ 16

variable {d : AttrDesc} {level : Level} {capNum : UInt8}

/-- An attribute is looked up in the list of its addresses and types. -/
theorem address_of_ok {l : List (ℕ × AttrType)}
    (hl : d.findAttrList level capNum = .ok l) {k : UInt16} (hk : 1 ≤ k) (t : AttrType) :
    d.address level capNum t k = (findInst Prod.snd t k 0 l).map Prod.fst := by
  have hlt : ¬ k < 1 := UInt16.not_lt.mpr hk
  rw [address, findAttr, if_neg hlt]
  unfold findAttrList at hl
  by_cases hcap : capNum = 0
  · rw [if_pos hcap] at hl ⊢
    cases hattrs : d.levelAttrs level with
    | none =>
      rw [hattrs] at hl
      cases hl
    | some m =>
      rw [hattrs] at hl
      obtain rfl := Except.ok.inj hl
      have hmap : findInst Prod.snd t k 0 (m.map fun n => (n.ptr, n.type)) =
          (findInst AttrNode.type t k 0 m).map fun n => (n.ptr, n.type) := findInst_map (fun _ => rfl) k 0 m
      rw [hmap, Option.map_map, Option.bind_some]
      rfl
  · rw [if_neg hcap] at hl ⊢
    cases hattrs : d.capAttrs level capNum with
    | none =>
      rw [hattrs] at hl
      cases hl
    | some m =>
      rw [hattrs] at hl
      obtain rfl := Except.ok.inj hl
      have hmap : findInst Prod.snd t k 0 (m.map fun n => (n.ptr, capAttrType n)) =
          (findInst capAttrType t k 0 m).map fun n => (n.ptr, capAttrType n) := findInst_map (fun _ => rfl) k 0 m
      rw [hmap, Option.map_map, Option.bind_some, Option.map_map]
      rfl

theorem findAttr_of_error {rc : SdpResult} (hl : d.findAttrList level capNum = .error rc) (t : AttrType) (k : UInt16) :
    d.findAttr level capNum t k = none := by
  unfold findAttrList at hl
  unfold findAttr
  by_cases hk : k < 1
  · rw [if_pos hk]
  · rw [if_neg hk]
    by_cases hcap : capNum = 0
    · rw [if_pos hcap] at hl ⊢
      cases hattrs : d.levelAttrs level with
      | none => rfl
      | some m =>
        rw [hattrs] at hl
        cases hl
    · rw [if_neg hcap] at hl ⊢
      cases hattrs : d.capAttrs level capNum with
      | none => rfl
      | some m =>
        rw [hattrs] at hl
        cases hl

theorem address_zero (d : AttrDesc) (level : Level) (capNum : UInt8) (t : AttrType) {k : UInt16}
    (hk : ¬ 1 ≤ k) : d.address level capNum t k = none := by
  rw [address, findAttr, if_pos (UInt16.not_le.mp hk)]
  rfl

theorem coherent_of_error {rc : SdpResult}
    (hl : d.findAttrList level capNum = .error rc) : d.Coherent level capNum where
  found t k := by
    have hnum : (d.attrNumInstances level capNum t).2 = 0 := by rw [attrNumInstances, hl]
    rw [findAttr_of_error hl, hnum]
    refine iff_of_false (by simp) fun ⟨hk, hzero⟩ => ?_
    have hle := UInt16.le_iff_toNat_le.mp (UInt16.le_trans hk hzero)
    exact absurd hle (by decide)
  ordered l hok := by
    rw [hl] at hok
    cases hok
  enumerated l hok := by
    rw [hl] at hok
    cases hok

/-- The attribute with a number, among those that a counter of 16 bits can tell, is enumerated with a type
and an instance that find it. -/
theorem exists_getAttrType {l : List (ℕ × AttrType)}
    (hl : d.findAttrList level capNum = .ok l) {n : UInt16} (hn : 1 ≤ n) {a : ℕ × AttrType}
    (ha : l[n.toNat - 1]? = some a) :
    ∃ k, d.getAttrType level capNum n = (.success, some (a.2, k)) ∧ d.address level capNum a.2 k = some a.1 := by
  have hzero : (0 : UInt16).toNat = 0 := rfl
  have hone : (1 : UInt16).toNat = 1 := rfl
  have hbound := n.toNat_lt
  have hpos : 1 ≤ n.toNat := by
    rw [← hone]
    exact UInt16.le_iff_toNat_le.mp hn
  have hlt : 0 < n := UInt16.lt_iff_toNat_lt.mpr (by omega)
  obtain ⟨k, hget, hk⟩ := @attrTypeAt_eq_some _ Prod.snd l 0 n (fun _ => 0) a hlt
    (by rw [hzero, Nat.sub_zero]; exact ha)
  obtain ⟨hkpos, hfind⟩ := @getElem?_ofType _ Prod.snd l _ a ha
  have hsub : n.toNat - 1 + 1 = n.toNat := by omega
  rw [hzero, Nat.sub_zero] at hk
  rw [hsub] at hkpos hfind
  have hlen := length_ofType_le Prod.snd a.2 (l.take n.toNat)
  rw [List.length_take] at hlen
  have hktoNat : k.toNat = (ofType Prod.snd a.2 (l.take n.toNat)).length := by
    rw [hk, UInt16.toNat_add, UInt16.toNat_ofNat', hzero]
    omega
  have hkone : 1 ≤ k := UInt16.le_iff_toNat_le.mpr (by omega)
  refine ⟨k, ?_, ?_⟩
  · rw [getAttrType, if_neg (UInt16.not_lt.mpr hn), hl]
    dsimp only
    rw [hget]
  · rw [address_of_ok hl hkone, findInst_eq_some (UInt16.lt_iff_toNat_lt.mpr (by omega))
      (by rw [hzero, Nat.sub_zero, hktoNat]; exact hfind)]
    rfl

/-- **When the lookups of a list agree.** The list has at most 65535 attributes. The instances of a longer
list, or its attributes, are counted modulo `2 ^ 16`, and its last attributes are not enumerated. -/
theorem coherent_iff_roomy {l : List (ℕ × AttrType)}
    (hl : d.findAttrList level capNum = .ok l) (hnodup : (l.map Prod.fst).Nodup) :
    d.Coherent level capNum ↔ l.length < 2 ^ 16 := by
  have hzero : (0 : UInt16).toNat = 0 := rfl
  have hone : (1 : UInt16).toNat = 1 := rfl
  constructor
  · intro h
    by_contra hlong
    -- the attribute behind those that the counter can tell is not enumerated
    have hlast : 65535 < l.length := by omega
    obtain ⟨n, ⟨t, k, hget, haddress⟩, -⟩ := h.enumerated l hl (l[65535]).1
      (List.mem_map_of_mem (List.getElem_mem hlast))
    have hbound := n.toNat_lt
    by_cases hn : 1 ≤ n
    · have hi : n.toNat - 1 < l.length := by omega
      obtain ⟨k', hget', haddress'⟩ := exists_getAttrType hl hn (List.getElem?_eq_getElem hi)
      rw [hget'] at hget
      obtain ⟨rfl, rfl⟩ : l[n.toNat - 1].2 = t ∧ k' = k := by simpa using hget
      rw [haddress'] at haddress
      have hindex := index_eq_of_nodup hnodup hi hlast (Option.some.inj haddress)
      omega
    · rw [getAttrType, if_pos (UInt16.not_le.mp hn)] at hget
      cases hget
  · intro hroom
    have hfind : ∀ t k, 1 ≤ k → d.address level capNum t k = ((ofType Prod.snd t l)[k.toNat - 1]?).map Prod.fst := by
      intro t k hk
      rw [address_of_ok hl hk, findInst_eq hk hroom]
    refine ⟨fun t k => ?_, fun l' hl' t k k' p p' hkk hp hp' => ?_, fun l' hl' p hp => ?_⟩
    · have hnum : (d.attrNumInstances level capNum t).2 = countInst Prod.snd t l := by
        rw [attrNumInstances, hl]
      have hcount : (countInst Prod.snd t l).toNat = (ofType Prod.snd t l).length := by
        have hle := length_ofType_le Prod.snd t l
        rw [toNat_countInst, Nat.mod_eq_of_lt (by omega)]
      have hsome : (d.findAttr level capNum t k).isSome = (d.address level capNum t k).isSome := by
        rw [address, Option.isSome_map]
      rw [hsome, hnum]
      by_cases hk : 1 ≤ k
      · have hkpos : 1 ≤ k.toNat := by
          rw [← hone]
          exact UInt16.le_iff_toNat_le.mp hk
        have hget : ((ofType Prod.snd t l)[k.toNat - 1]?).isSome = true ↔
            k.toNat - 1 < (ofType Prod.snd t l).length := by simp
        rw [hfind t k hk, Option.isSome_map, hget]
        simp only [hk, true_and, UInt16.le_iff_toNat_le, hcount]
        omega
      · rw [address_zero _ _ _ _ hk]
        simp [hk]
    · rw [hl] at hl'
      obtain rfl := Except.ok.inj hl'
      have hk : 1 ≤ k := by
        by_contra hk
        rw [address_zero _ _ _ _ hk] at hp
        cases hp
      have hlt := UInt16.lt_iff_toNat_lt.mp hkk
      have hkpos := UInt16.le_iff_toNat_le.mp hk
      have hk' : 1 ≤ k' := UInt16.le_iff_toNat_le.mpr (by omega)
      rw [hfind t k hk] at hp
      rw [hfind t k' hk'] at hp'
      -- the attributes of a type stand in the order of the list
      have hsub : ((ofType Prod.snd t l).map Prod.fst).Sublist (l.map Prod.fst) := List.filter_sublist.map Prod.fst
      rw [← List.getElem?_map] at hp hp'
      obtain ⟨f, hf⟩ := List.sublist_iff_exists_orderEmbedding_getElem?_eq.mp hsub
      have hij : f (k.toNat - 1) < f (k'.toNat - 1) := f.strictMono (by omega)
      rw [hf] at hp hp'
      refine ⟨f (k.toNat - 1), f (k'.toNat - 1), hij, hp, hp', ?_⟩
      rintro rfl
      obtain ⟨hi, hpi⟩ := List.getElem?_eq_some_iff.mp hp
      obtain ⟨hj, hpj⟩ := List.getElem?_eq_some_iff.mp hp'
      have hindex := (List.Nodup.getElem_inj_iff hnodup).mp (hpi.trans hpj.symm)
      omega
    · rw [hl] at hl'
      obtain rfl := Except.ok.inj hl'
      obtain ⟨a, ha, rfl⟩ := List.mem_map.mp hp
      obtain ⟨i, hi, rfl⟩ := List.getElem_of_mem ha
      have htoNat : (UInt16.ofNat (i + 1)).toNat = i + 1 := by
        rw [UInt16.toNat_ofNat']
        omega
      refine ⟨UInt16.ofNat (i + 1), ?_, ?_⟩
      · obtain ⟨k, hget, haddress⟩ := exists_getAttrType hl (UInt16.le_iff_toNat_le.mpr (by rw [htoNat, hone]; omega))
          (a := l[i]) (by rw [htoNat, Nat.add_sub_cancel]; exact List.getElem?_eq_getElem hi)
        exact ⟨_, k, hget, haddress⟩
      · rintro n ⟨t, k, hget, haddress⟩
        have hbound := n.toNat_lt
        by_cases hn : 1 ≤ n
        · have hnpos := UInt16.le_iff_toNat_le.mp hn
          rw [hone] at hnpos
          by_cases hlen : n.toNat - 1 < l.length
          · obtain ⟨k', hget', haddress'⟩ := exists_getAttrType hl hn (List.getElem?_eq_getElem hlen)
            rw [hget'] at hget
            obtain ⟨rfl, rfl⟩ : l[n.toNat - 1].2 = t ∧ k' = k := by simpa using hget
            rw [haddress'] at haddress
            have hindex := index_eq_of_nodup hnodup hlen hi (Option.some.inj haddress)
            apply UInt16.toNat_inj.mp
            rw [htoNat]
            omega
          · rw [getAttrType, if_neg (UInt16.not_lt.mpr hn), hl] at hget
            dsimp only at hget
            rw [attrTypeAt_eq_none (by omega) (UInt16.lt_iff_toNat_lt.mpr (by omega)) (by omega)] at hget
            cases hget
        · rw [getAttrType, if_pos (UInt16.not_le.mp hn)] at hget
          cases hget

end AttrDesc

/-! ## Capabilities behind a change -/

variable {l : List AttrNode} {capNum : UInt8} {i : ℕ}

theorem exists_cap_of_capIndex {c : UInt8}
    (h : capIndex capNum c l = some i) : ∃ ptr t set, l[i]? = some { ptr, value := .cap t set } := by
  induction l generalizing c i with
  | nil => cases h
  | cons n l ih =>
    have hrest : ∀ c', (capIndex capNum c' l).map (· + 1) = some i →
        ∃ ptr t set, (n :: l)[i]? = some { ptr, value := .cap t set } := by
      intro c' hmap
      obtain ⟨j, hj, rfl⟩ := Option.map_eq_some_iff.mp hmap
      rw [List.getElem?_cons_succ]
      exact ih hj
    rw [capIndex] at h
    split at h
    · rename_i t set hvalue
      split_ifs at h with hle
      · obtain rfl := Option.some.inj h
        exact ⟨n.ptr, t, set, by rw [List.getElem?_cons_zero, ← hvalue]⟩
      · exact hrest _ h
    · exact hrest _ h

theorem capIndex_concat {c : UInt8} {n : AttrNode} (hc : c < capNum)
    (hn : payloadCount n = 0) : capIndex capNum c (l ++ [n]) = capIndex capNum c l := by
  induction l generalizing c with
  | nil =>
    rcases hvalue : n.value with a | ⟨t, set⟩ | t
    · simp [capIndex, hvalue]
    · have hpayloads : set.numPayloads = 0 := by
        rw [payloadCount, hvalue] at hn
        exact UInt16.toNat_inj.mp hn
      simp [capIndex, hvalue, hpayloads, hc]
    · simp [capIndex, hvalue]
  | cons m l ih =>
    rw [List.cons_append, capIndex, capIndex]
    split
    · rename_i t set hvalue
      split_ifs with hle
      · rfl
      · rw [ih (UInt8.not_le.mp hle)]
    · rw [ih hc]

variable {f : List (Node Attr) → List (Node Attr)}

theorem capIndex_modifyCapAttrs {c : UInt8}
    : capIndex capNum c (AttrDesc.modifyCapAttrs f i l) = capIndex capNum c l := by
  induction l generalizing c i with
  | nil => rw [AttrDesc.modifyCapAttrs, List.modify_nil]
  | cons n l ih =>
    cases i with
    | zero =>
      rw [AttrDesc.modifyCapAttrs, List.modify_zero_cons, capIndex, capIndex]
      rcases n with ⟨ptr, a | ⟨t, set⟩ | t⟩ <;> rfl
    | succ i =>
      have htail := @ih
      simp only [AttrDesc.modifyCapAttrs] at htail
      rw [AttrDesc.modifyCapAttrs, List.modify_succ_cons, capIndex, capIndex]
      split
      · rw [htail]
      · rw [htail]

theorem map_modifyCapAttrs {β : Type} {g : AttrNode → β}
    (hg : ∀ ptr t c c', g { ptr, value := .cap t c } = g { ptr, value := .cap t c' }) (i : ℕ)
    (l : List AttrNode) : (AttrDesc.modifyCapAttrs f i l).map g = l.map g := by
  induction l generalizing i with
  | nil => rw [AttrDesc.modifyCapAttrs, List.modify_nil]
  | cons n l ih =>
    cases i with
    | zero =>
      rw [AttrDesc.modifyCapAttrs, List.modify_zero_cons, List.map_cons, List.map_cons]
      rcases n with ⟨ptr, a | ⟨t, set⟩ | t⟩
      · rfl
      · exact congrArg (· :: l.map g) (hg _ _ _ _)
      · rfl
    | succ i =>
      have htail := ih i
      simp only [AttrDesc.modifyCapAttrs] at htail
      rw [AttrDesc.modifyCapAttrs, List.modify_succ_cons, List.map_cons, List.map_cons, htail]

theorem capAttrsAt_modifyCapAttrs
    {ptr : ℕ} {t : CapType} {set : CapSet} (hi : l[i]? = some { ptr, value := .cap t set }) (j : ℕ) :
    AttrDesc.capAttrsAt (AttrDesc.modifyCapAttrs f i l) j =
      if j = i then f (AttrDesc.capAttrsAt l i) else AttrDesc.capAttrsAt l j := by
  unfold AttrDesc.capAttrsAt AttrDesc.modifyCapAttrs
  rcases eq_or_ne j i with rfl | hne
  · rw [if_pos rfl, List.getElem?_modify, hi]
    simp
  · rw [if_neg hne, List.getElem?_modify]
    simp [Ne.symm hne]

theorem capAttrsAt_concat (hi : i < l.length) (n : AttrNode) :
    AttrDesc.capAttrsAt (l ++ [n]) i = AttrDesc.capAttrsAt l i := by
  unfold AttrDesc.capAttrsAt
  rw [List.getElem?_append_left hi]

namespace AttrDesc

theorem levelAttrs_modifyLevel {d : AttrDesc} {level : Level} {l : List AttrNode}
    (hl : d.levelAttrs level = some l) (f : List AttrNode → List AttrNode) (level' : Level) :
    (d.modifyLevel f level).levelAttrs level' =
      if level' = level then some (f l) else d.levelAttrs level' := by
  cases level with
  | session =>
    obtain rfl := Option.some.inj hl
    cases level' with
    | session => rfl
    | media m => rfl
  | media n =>
    rw [levelAttrs] at hl
    split_ifs at hl with hn
    cases level' with
    | session => rfl
    | media m =>
      simp only [modifyLevel, levelAttrs, Level.media.injEq]
      by_cases hm : 1 ≤ m
      · rw [if_pos hm, List.getElem?_modify]
        rcases eq_or_ne m n with rfl | hne
        · rw [if_pos rfl, hl]
          simp
        · have hindex : n - 1 ≠ m - 1 := by omega
          simp [hne, hindex, hm]
      · have hne : m ≠ n := by omega
        simp [hm, hne]

theorem findAttrList_of_levelAttrs {d : AttrDesc} {level : Level} {l : List AttrNode}
    (hl : d.levelAttrs level = some l) (capNum : UInt8) :
    d.findAttrList level capNum =
      if capNum = 0 then .ok (l.map fun n => (n.ptr, n.type))
      else
        match capIndex capNum 0 l with
        | none => .error .invalidCapability
        | some i => .ok ((capAttrsAt l i).map fun n => (n.ptr, capAttrType n)) := by
  rw [findAttrList, capAttrs, findCapability, hl]
  split_ifs with hcap
  · rfl
  · rw [Option.bind_some, Option.getD_some]
    cases capIndex capNum 0 l <;> rfl

end AttrDesc

/-! ## An attribute at the end of a list -/

/-- Both numbers name the same list of a level: that of the level, or that of one capability. -/
def SameCap (d : AttrDesc) (level : Level) (capNum capNum' : UInt8) : Prop :=
  capNum = 0 ∧ capNum' = 0 ∨
    capNum ≠ 0 ∧ capNum' ≠ 0 ∧ d.findCapability level capNum' = d.findCapability level capNum

/-- An attribute with the next address is put to the end of a list, and all other lists are as they were. -/
structure Appended (s s' : DescState) (sdp : ℕ) (level : Level) (capNum : UInt8)
    (l : List (ℕ × AttrType)) (t : AttrType) : Prop where
  before : (s.descs sdp).findAttrList level capNum = .ok l
  same : ∀ capNum', SameCap (s.descs sdp) level capNum capNum' →
    (s.descs sdp).findAttrList level capNum' = .ok l ∧
      (s'.descs sdp).findAttrList level capNum' = .ok (l ++ [(s.next, t)])
  other : ∀ sdp' level' capNum',
    ¬ (sdp' = sdp ∧ level' = level ∧ SameCap (s.descs sdp) level capNum capNum') →
      (s'.descs sdp').findAttrList level' capNum' = (s.descs sdp').findAttrList level' capNum'

theorem DescState.descs_append (s : DescState) (sdp : ℕ) (level : Level) (v : NodeValue) :
    (s.append sdp level v).descs = Function.update s.descs sdp
      ((s.descs sdp).modifyLevel (fun l => l ++ [{ ptr := s.next, value := v }]) level) := rfl

theorem DescState.descs_appendCap (s : DescState) (sdp : ℕ) (level : Level) (i : ℕ) (a : Attr) :
    (s.appendCap sdp level i a).descs = Function.update s.descs sdp ((s.descs sdp).modifyLevel
        (AttrDesc.modifyCapAttrs (fun l => l ++ [{ ptr := s.next, value := a }]) i) level) := rfl

variable {level : Level}

theorem AttrDesc.findAttrList_modifyLevel_of_ne {d : AttrDesc} {level' : Level}
    (hl : d.levelAttrs level = some l) (h : level' ≠ level) (f : List AttrNode → List AttrNode)
    (capNum : UInt8) : (d.modifyLevel f level).findAttrList level' capNum = d.findAttrList level' capNum := by
  have hattrs := AttrDesc.levelAttrs_modifyLevel hl f level'
  rw [if_neg h] at hattrs
  unfold AttrDesc.findAttrList AttrDesc.capAttrs AttrDesc.findCapability
  rw [hattrs]

variable {s : DescState}

theorem appended_append {sdp : ℕ} (hl : (s.descs sdp).levelAttrs level = some l) {v : NodeValue}
    (hv : payloadCount { ptr := s.next, value := v } = 0) :
    Appended s (s.append sdp level v) sdp level 0 (l.map fun n => (n.ptr, n.type)) v.type := by
  have hdesc : (s.append sdp level v).descs sdp =
      (s.descs sdp).modifyLevel (fun l => l ++ [{ ptr := s.next, value := v }]) level := by
    rw [DescState.descs_append, Function.update_self]
  have hself := AttrDesc.levelAttrs_modifyLevel hl (fun l => l ++ [{ ptr := s.next, value := v }]) level
  rw [if_pos rfl] at hself
  refine ⟨?_, fun capNum' hsame => ?_, fun sdp' level' capNum' hother => ?_⟩
  · rw [AttrDesc.findAttrList_of_levelAttrs hl, if_pos rfl]
  · rcases hsame with ⟨-, rfl⟩ | ⟨hne, -⟩
    · rw [hdesc, AttrDesc.findAttrList_of_levelAttrs hl, AttrDesc.findAttrList_of_levelAttrs hself,
        if_pos rfl, if_pos rfl, List.map_append, List.map_singleton]
      exact ⟨rfl, rfl⟩
    · exact absurd rfl hne
  · rcases eq_or_ne sdp' sdp with rfl | hsdp
    swap
    · rw [DescState.descs_append, Function.update_of_ne hsdp]
    rw [hdesc]
    rcases eq_or_ne level' level with rfl | hlevel
    swap
    · exact AttrDesc.findAttrList_modifyLevel_of_ne hl hlevel _ _
    have hcap : capNum' ≠ 0 := fun hzero => hother ⟨rfl, rfl, Or.inl ⟨rfl, hzero⟩⟩
    have hlt : 0 < capNum' := UInt8.pos_iff_ne_zero.mpr hcap
    rw [AttrDesc.findAttrList_of_levelAttrs hl, AttrDesc.findAttrList_of_levelAttrs hself, if_neg hcap,
      if_neg hcap, capIndex_concat hlt hv]
    cases hindex : capIndex capNum' 0 l with
    | none => rfl
    | some i =>
      obtain ⟨ptr, t, set, hi⟩ := exists_cap_of_capIndex hindex
      obtain ⟨hlen, -⟩ := List.getElem?_eq_some_iff.mp hi
      dsimp only
      rw [capAttrsAt_concat hlen]

theorem appended_appendCap {sdp : ℕ}
    (hcap : capNum ≠ 0) (hi : (s.descs sdp).findCapability level capNum = some i) (a : Attr) :
    Appended s (s.appendCap sdp level i a) sdp level capNum
      ((AttrDesc.capAttrsAt (((s.descs sdp).levelAttrs level).getD []) i).map fun n => (n.ptr, capAttrType n))
      (.plain a.type) := by
  obtain ⟨l, hl, hindex⟩ := Option.bind_eq_some_iff.mp hi
  obtain ⟨ptr, t, set, hget⟩ := exists_cap_of_capIndex hindex
  rw [hl, Option.getD_some]
  have hdesc : (s.appendCap sdp level i a).descs sdp = (s.descs sdp).modifyLevel
        (AttrDesc.modifyCapAttrs (fun l => l ++ [{ ptr := s.next, value := a }]) i) level := by
    rw [DescState.descs_appendCap, Function.update_self]
  have hself := AttrDesc.levelAttrs_modifyLevel hl
    (AttrDesc.modifyCapAttrs (fun l => l ++ [{ ptr := s.next, value := a }]) i) level
  rw [if_pos rfl] at hself
  have hfind : ∀ capNum', (s.descs sdp).findCapability level capNum' = capIndex capNum' 0 l := by
    intro capNum'
    rw [AttrDesc.findCapability, hl, Option.bind_some]
  refine ⟨?_, fun capNum' hsame => ?_, fun sdp' level' capNum' hother => ?_⟩
  · rw [AttrDesc.findAttrList_of_levelAttrs hl, if_neg hcap, hindex]
  · rcases hsame with ⟨hzero, -⟩ | ⟨-, hcap', hsame⟩
    · exact absurd hzero hcap
    · rw [hfind, hfind, hindex] at hsame
      rw [hdesc, AttrDesc.findAttrList_of_levelAttrs hl, AttrDesc.findAttrList_of_levelAttrs hself,
        if_neg hcap', if_neg hcap', capIndex_modifyCapAttrs, hsame]
      dsimp only
      rw [capAttrsAt_modifyCapAttrs hget, if_pos rfl, List.map_append, List.map_singleton]
      exact ⟨rfl, rfl⟩
  · rcases eq_or_ne sdp' sdp with rfl | hsdp
    swap
    · rw [DescState.descs_appendCap, Function.update_of_ne hsdp]
    rw [hdesc]
    rcases eq_or_ne level' level with rfl | hlevel
    swap
    · exact AttrDesc.findAttrList_modifyLevel_of_ne hl hlevel _ _
    rw [AttrDesc.findAttrList_of_levelAttrs hl, AttrDesc.findAttrList_of_levelAttrs hself]
    by_cases hcap' : capNum' = 0
    · rw [if_pos hcap', if_pos hcap', map_modifyCapAttrs fun _ _ _ _ => rfl]
    · rw [if_neg hcap', if_neg hcap', capIndex_modifyCapAttrs]
      cases hindex' : capIndex capNum' 0 l with
      | none => rfl
      | some j =>
        have hne : j ≠ i := by
          rintro rfl
          refine hother ⟨rfl, rfl, Or.inr ⟨hcap, hcap', ?_⟩⟩
          rw [hfind, hfind, hindex, hindex']
        dsimp only
        rw [capAttrsAt_modifyCapAttrs hget, if_neg hne]

/-- A list with one more attribute: the new attribute has the next instance of its type, and the other
instances are found as before. -/
theorem ofType_concat_getElem? {l : List (ℕ × AttrType)} {p : ℕ} {t t' : AttrType}
    (h : ¬ (t' = t ∧ i = (ofType Prod.snd t l).length)) :
    (ofType Prod.snd t' (l ++ [(p, t)]))[i]? = (ofType Prod.snd t' l)[i]? := by
  rw [ofType_append, ofType_cons]
  by_cases ht : t = t'
  · subst ht
    rw [if_pos rfl]
    rcases Nat.lt_trichotomy i (ofType Prod.snd t l).length with hlt | heq | hgt
    · exact List.getElem?_append_left hlt
    · exact absurd ⟨rfl, heq⟩ h
    · have hlen : (ofType Prod.snd t l ++ (p, t) :: ofType Prod.snd t []).length =
          (ofType Prod.snd t l).length + 1 := by simp [ofType]
      rw [List.getElem?_eq_none (by omega), List.getElem?_eq_none (by omega)]
  · rw [if_neg ht]
    simp [ofType]

/-! ## Attributes that are added -/

/-- What a successful `sdp_add_new_attr` does to the addresses: the instance that it returns addresses the
new attribute, which no address gave before, and all other addresses are unchanged. -/
def DescState.AddedRight (s : DescState) (sdp : ℕ) (level : Level) (capNum : UInt8) (t : AttrType)
    (allocated : Bool) : Prop :=
  (s.addNewAttr sdp level capNum t allocated).1 = .success →
    ((s.addNewAttr sdp level capNum t allocated).2.2.descs sdp).address level capNum t
        (s.addNewAttr sdp level capNum t allocated).2.1 = some s.next ∧
      (∀ sdp' level' capNum' t' k', (s.descs sdp').address level' capNum' t' k' ≠ some s.next) ∧
      ∀ sdp' level' capNum' t' k',
        ¬ (sdp' = sdp ∧ level' = level ∧ SameCap (s.descs sdp) level capNum capNum' ∧ t' = t ∧
          k' = (s.addNewAttr sdp level capNum t allocated).2.1) →
        ((s.addNewAttr sdp level capNum t allocated).2.2.descs sdp').address level' capNum' t' k' =
          (s.descs sdp').address level' capNum' t' k'

/-- The attributes of a list have addresses of their own, below the next free one, and so have those of each
capability set. -/
structure ListDistinct (l : List AttrNode) (next : ℕ) : Prop where
  nodup : (l.map Node.ptr).Nodup
  lt : ∀ n ∈ l, n.ptr < next
  nodupCap : ∀ n ∈ l, ∀ t c, n.value = .cap t c → (c.attrs.map Node.ptr).Nodup
  ltCap : ∀ n ∈ l, ∀ t c, n.value = .cap t c → ∀ a ∈ c.attrs, a.ptr < next

/-- The attributes of each list have addresses of their own. -/
def DescState.Distinct (s : DescState) : Prop :=
  ∀ sdp level l, (s.descs sdp).levelAttrs level = some l → ListDistinct l s.next

theorem ListDistinct.mono {m n : ℕ} (h : ListDistinct l m) (hmn : m ≤ n) : ListDistinct l n where
  nodup := h.nodup
  lt a ha := Nat.lt_of_lt_of_le (h.lt a ha) hmn
  nodupCap := h.nodupCap
  ltCap a ha t c hc b hb := Nat.lt_of_lt_of_le (h.ltCap a ha t c hc b hb) hmn

variable {next : ℕ}

theorem ListDistinct.sublist {m : List AttrNode} (h : ListDistinct l next) (hm : m.Sublist l) :
    ListDistinct m next where
  nodup := h.nodup.sublist (hm.map Node.ptr)
  lt a ha := h.lt a (hm.subset ha)
  nodupCap a ha := h.nodupCap a (hm.subset ha)
  ltCap a ha := h.ltCap a (hm.subset ha)

theorem ListDistinct.concat (h : ListDistinct l next) {v : NodeValue} (hv : ∀ t c, v = .cap t c → c.attrs = []) :
    ListDistinct (l ++ [{ ptr := next, value := v }]) (next + 1) := by
  have hmono := h.mono (Nat.le_succ next)
  refine ⟨?_, fun a ha => ?_, fun a ha t c hc => ?_, fun a ha t c hc b hb => ?_⟩
  · rw [List.map_append, List.map_singleton]
    refine List.Nodup.append h.nodup (List.nodup_singleton _) ?_
    intro p hp hnext
    obtain ⟨a, ha, rfl⟩ := List.mem_map.mp hp
    have hlt := h.lt a ha
    have heq : a.ptr = next := List.mem_singleton.mp hnext
    omega
  · rcases List.mem_append.mp ha with ha | ha
    · exact hmono.lt a ha
    · obtain rfl := List.mem_singleton.mp ha
      exact Nat.lt_succ_self next
  · rcases List.mem_append.mp ha with ha | ha
    · exact h.nodupCap a ha t c hc
    · obtain rfl := List.mem_singleton.mp ha
      rw [hv t c hc]
      exact List.nodup_nil
  · rcases List.mem_append.mp ha with ha | ha
    · exact hmono.ltCap a ha t c hc b hb
    · obtain rfl := List.mem_singleton.mp ha
      rw [hv t c hc] at hb
      cases hb

theorem ListDistinct.modifyCapAttrs {next' : ℕ} (h : ListDistinct l next) (hnext : next ≤ next')
    (hf : ∀ m : List (Node Attr), (m.map Node.ptr).Nodup → (∀ a ∈ m, a.ptr < next) →
      ((f m).map Node.ptr).Nodup ∧ ∀ a ∈ f m, a.ptr < next') :
    ListDistinct (AttrDesc.modifyCapAttrs f i l) next' := by
  have hmono := h.mono hnext
  -- an attribute of the list is one of before, or one with changed attributes
  have hmem : ∀ a ∈ AttrDesc.modifyCapAttrs f i l, a ∈ l ∨ ∃ b ∈ l, a.ptr = b.ptr ∧
      ∃ t c, b.value = .cap t c ∧ a.value = .cap t { c with attrs := f c.attrs } := by
    intro a ha
    obtain ⟨j, hj⟩ := List.getElem?_of_mem ha
    rw [AttrDesc.modifyCapAttrs, List.getElem?_modify] at hj
    obtain ⟨b, hb, hab⟩ := Option.map_eq_some_iff.mp hj
    have hbl := List.mem_of_getElem? hb
    split_ifs at hab
    · rcases hvalue : b.value with p | ⟨t, c⟩ | t
      · rw [hvalue] at hab
        exact Or.inl (hab ▸ hbl)
      · rw [hvalue] at hab
        subst hab
        exact Or.inr ⟨b, hbl, rfl, t, c, hvalue, rfl⟩
      · rw [hvalue] at hab
        exact Or.inl (hab ▸ hbl)
    · exact Or.inl (hab ▸ hbl)
  refine ⟨?_, fun a ha => ?_, fun a ha t c hc => ?_, fun a ha t c hc => ?_⟩
  · rw [map_modifyCapAttrs fun _ _ _ _ => rfl]
    exact h.nodup
  · rcases hmem a ha with ha | ⟨b, hb, hptr, -⟩
    · exact hmono.lt a ha
    · rw [hptr]
      exact hmono.lt b hb
  · rcases hmem a ha with ha | ⟨b, hb, -, t', c', hb', ha'⟩
    · exact h.nodupCap a ha t c hc
    · obtain ⟨rfl, rfl⟩ := NodeValue.cap.inj (ha'.symm.trans hc)
      exact (hf c'.attrs (h.nodupCap b hb _ _ hb') (h.ltCap b hb _ _ hb')).1
  · rcases hmem a ha with ha | ⟨b, hb, -, t', c', hb', ha'⟩
    · exact hmono.ltCap a ha t c hc
    · obtain ⟨rfl, rfl⟩ := NodeValue.cap.inj (ha'.symm.trans hc)
      exact (hf c'.attrs (h.nodupCap b hb _ _ hb') (h.ltCap b hb _ _ hb')).2

theorem ListDistinct.capAttrsAt (h : ListDistinct l next) (i : ℕ) :
    ((AttrDesc.capAttrsAt l i).map Node.ptr).Nodup ∧ ∀ a ∈ AttrDesc.capAttrsAt l i, a.ptr < next := by
  unfold AttrDesc.capAttrsAt
  cases hi : l[i]? with
  | none => simp
  | some n =>
    have hn := List.mem_of_getElem? hi
    rw [Option.map_some]
    split
    · rename_i t c hvalue
      have hvalue := Option.some.inj hvalue
      exact ⟨h.nodupCap n hn t c hvalue, h.ltCap n hn t c hvalue⟩
    · simp

/-- The addresses that are looked up are distinct, and below the next free one. -/
theorem DescState.Distinct.findAttrList (h : s.Distinct) {sdp : ℕ}
    {l : List (ℕ × AttrType)} (hl : (s.descs sdp).findAttrList level capNum = .ok l) :
    (l.map Prod.fst).Nodup ∧ ∀ p ∈ l.map Prod.fst, p < s.next := by
  cases hattrs : (s.descs sdp).levelAttrs level with
  | none =>
    unfold AttrDesc.findAttrList AttrDesc.capAttrs AttrDesc.findCapability at hl
    rw [hattrs] at hl
    split_ifs at hl
    cases hl
  | some m =>
    have hm := h sdp level m hattrs
    rw [AttrDesc.findAttrList_of_levelAttrs hattrs] at hl
    split_ifs at hl
    · obtain rfl := Except.ok.inj hl
      have hfst : (m.map fun n => (n.ptr, n.type)).map Prod.fst = m.map Node.ptr := by simp
      rw [hfst]
      refine ⟨hm.nodup, fun p hp => ?_⟩
      obtain ⟨n, hn, rfl⟩ := List.mem_map.mp hp
      exact hm.lt n hn
    · cases hindex : capIndex capNum 0 m with
      | none =>
        rw [hindex] at hl
        cases hl
      | some i =>
        rw [hindex] at hl
        obtain rfl := Except.ok.inj hl
        obtain ⟨hnodup, hlt⟩ := hm.capAttrsAt i
        have hfst : ((AttrDesc.capAttrsAt m i).map fun n => (n.ptr, capAttrType n)).map Prod.fst =
            (AttrDesc.capAttrsAt m i).map Node.ptr := by simp
        rw [hfst]
        refine ⟨hnodup, fun p hp => ?_⟩
        obtain ⟨n, hn, rfl⟩ := List.mem_map.mp hp
        exact hlt n hn

theorem AttrDesc.address_congr {d d' : AttrDesc}
    (h : d'.findAttrList level capNum = d.findAttrList level capNum) (t : AttrType) (k : UInt16) :
    d'.address level capNum t k = d.address level capNum t k := by
  by_cases hk : 1 ≤ k
  · cases hl : d.findAttrList level capNum with
    | error rc =>
      rw [hl] at h
      rw [AttrDesc.address, AttrDesc.address, AttrDesc.findAttr_of_error hl, AttrDesc.findAttr_of_error h]
    | ok l =>
      rw [hl] at h
      rw [AttrDesc.address_of_ok hl hk, AttrDesc.address_of_ok h hk]
  · rw [AttrDesc.address_zero _ _ _ _ hk, AttrDesc.address_zero _ _ _ _ hk]

theorem DescState.Distinct.address_ne (h : s.Distinct) (sdp : ℕ) (level : Level)
    (capNum : UInt8) (t : AttrType) (k : UInt16) : (s.descs sdp).address level capNum t k ≠ some s.next := by
  by_cases hk : 1 ≤ k
  · cases hl : (s.descs sdp).findAttrList level capNum with
    | error rc =>
      rw [AttrDesc.address, AttrDesc.findAttr_of_error hl]
      exact nofun
    | ok l =>
      rw [AttrDesc.address_of_ok hl hk]
      intro hsome
      obtain ⟨a, ha, hptr⟩ := Option.map_eq_some_iff.mp hsome
      have hlt := (h.findAttrList hl).2 a.1 (List.mem_map_of_mem (mem_of_findInst ha))
      omega
  · rw [AttrDesc.address_zero _ _ _ _ hk]
    exact nofun

/-- The new attribute has the instance that is counted, and the other addresses are unchanged. -/
theorem Appended.addresses {s' : DescState} {sdp : ℕ}
    {l : List (ℕ × AttrType)} {t : AttrType} (h : Appended s s' sdp level capNum l t)
    (hroom : l.length + 1 < 2 ^ 16) :
    (s'.descs sdp).address level capNum t (countInst Prod.snd t l + 1) = some s.next ∧ ∀ sdp' level' capNum' t' k',
        ¬ (sdp' = sdp ∧ level' = level ∧ SameCap (s.descs sdp) level capNum capNum' ∧ t' = t ∧
          k' = countInst Prod.snd t l + 1) →
        (s'.descs sdp').address level' capNum' t' k' = (s.descs sdp').address level' capNum' t' k' := by
  have hone : (1 : UInt16).toNat = 1 := rfl
  have hle := length_ofType_le Prod.snd t l
  have hcount : (countInst Prod.snd t l).toNat = (ofType Prod.snd t l).length := by
    rw [toNat_countInst, Nat.mod_eq_of_lt (by omega)]
  have hinst : (countInst Prod.snd t l + 1).toNat = (ofType Prod.snd t l).length + 1 := by
    rw [toNat_add_one (by omega), hcount]
  have hroom' : (l ++ [(s.next, t)]).length < 2 ^ 16 := by simpa using hroom
  have hself : SameCap (s.descs sdp) level capNum capNum := by
    rcases eq_or_ne capNum 0 with hzero | hne
    · exact Or.inl ⟨hzero, hzero⟩
    · exact Or.inr ⟨hne, hne, rfl⟩
  constructor
  · have hk : 1 ≤ countInst Prod.snd t l + 1 := UInt16.le_iff_toNat_le.mpr (by omega)
    rw [AttrDesc.address_of_ok (h.same capNum hself).2 hk, findInst_eq hk hroom', hinst, Nat.add_sub_cancel,
      ofType_append]
    simp [ofType]
  · intro sdp' level' capNum' t' k' hother
    by_cases hsame : sdp' = sdp ∧ level' = level ∧ SameCap (s.descs sdp) level capNum capNum'
    swap
    · exact AttrDesc.address_congr (h.other sdp' level' capNum' hsame) t' k'
    obtain ⟨rfl, rfl, hcap⟩ := hsame
    obtain ⟨hl, hl'⟩ := h.same capNum' hcap
    by_cases hk : 1 ≤ k'
    · have hkpos := UInt16.le_iff_toNat_le.mp hk
      rw [AttrDesc.address_of_ok hl' hk, AttrDesc.address_of_ok hl hk, findInst_eq hk hroom',
        findInst_eq hk (by omega), ofType_concat_getElem?]
      rintro ⟨rfl, hindex⟩
      refine hother ⟨rfl, rfl, hcap, rfl, UInt16.toNat_inj.mp ?_⟩
      rw [hinst]
      omega
    · rw [AttrDesc.address_zero _ _ _ _ hk, AttrDesc.address_zero _ _ _ _ hk]

inductive AttrOp
  | add (sdp : ℕ) (level : Level) (capNum : UInt8) (attrType : AttrType) (allocated : Bool)
  | copy (srcSdp dstSdp : ℕ) (srcLevel dstLevel : Level) (srcCapNum dstCapNum : UInt8)
      (srcAttrType : AttrType) (srcInstNum : UInt16) (allocated : Bool)
  | delete (sdp : ℕ) (level : Level) (capNum : UInt8) (attrType : AttrType) (instNum : UInt16)
  | deleteAll (sdp : ℕ) (level : Level) (capNum : UInt8)

namespace DescState

def step (s : DescState) : AttrOp → DescState
  | .add sdp level capNum attrType allocated => (s.addNewAttr sdp level capNum attrType allocated).2.2
  | .copy srcSdp dstSdp srcLevel dstLevel srcCapNum dstCapNum srcAttrType srcInstNum allocated =>
    (s.copyAttr srcSdp dstSdp srcLevel dstLevel srcCapNum dstCapNum srcAttrType srcInstNum allocated).2
  | .delete sdp level capNum attrType instNum => (s.deleteAttr sdp level capNum attrType instNum).2
  | .deleteAll sdp level capNum => (s.deleteAllAttrs sdp level capNum).2

/-- The lookups of every list agree. -/
def Coherent (s : DescState) : Prop := ∀ sdp level capNum, (s.descs sdp).Coherent level capNum

/-- No list has more attributes than a counter of 16 bits can tell. -/
def Roomy (s : DescState) : Prop := ∀ sdp level capNum, (s.descs sdp).Roomy level capNum

/-- An operation that adds an attribute does what it should to the addresses. -/
def OpRight (s : DescState) : AttrOp → Prop
  | .add sdp level capNum attrType allocated => s.AddedRight sdp level capNum attrType allocated
  | _ => True

theorem Distinct.coherent_iff_roomy {s : DescState} (h : s.Distinct) : s.Coherent ↔ s.Roomy := by
  constructor
  · intro hcoherent sdp level capNum l hl
    exact (AttrDesc.coherent_iff_roomy hl (h.findAttrList hl).1).mp (hcoherent sdp level capNum)
  · intro hroomy sdp level capNum
    cases hl : (s.descs sdp).findAttrList level capNum with
    | error rc => exact AttrDesc.coherent_of_error hl
    | ok l => exact (AttrDesc.coherent_iff_roomy hl (h.findAttrList hl).1).mpr (hroomy sdp level capNum l hl)

/-! ## What an operation does -/

/-- An operation changes at most the attributes of one level, whose addresses stay distinct. -/
inductive Moves (s : DescState) : DescState → Prop
  | refl : Moves s s
  | level {sdp : ℕ} {level : Level} {l : List AttrNode} (f : List AttrNode → List AttrNode) (next : ℕ)
      (hl : (s.descs sdp).levelAttrs level = some l) (hnext : s.next ≤ next)
      (hf : ListDistinct l s.next → ListDistinct (f l) next) :
      Moves s { descs := Function.update s.descs sdp ((s.descs sdp).modifyLevel f level), next }

theorem distinct_empty (next : ℕ) : Distinct { descs := fun _ => {}, next } := by
  intro sdp level l hl
  have hnil : l = [] := by
    cases level with
    | session => exact (Option.some.inj hl).symm
    | media n => simp [AttrDesc.levelAttrs] at hl
  subst hnil
  exact ⟨List.nodup_nil, fun a ha => absurd ha List.not_mem_nil, fun a ha => absurd ha List.not_mem_nil,
    fun a ha => absurd ha List.not_mem_nil⟩

theorem Moves.distinct {s s' : DescState} (h : s.Moves s') (hs : s.Distinct) : s'.Distinct := by
  cases h with
  | refl => exact hs
  | @level sdp level l f next hl hnext hf =>
    intro sdp' level' l' hl'
    rcases eq_or_ne sdp' sdp with rfl | hne
    · dsimp only at hl'
      rw [Function.update_self, AttrDesc.levelAttrs_modifyLevel hl] at hl'
      split_ifs at hl'
      · obtain rfl := Option.some.inj hl'
        exact hf (hs sdp' level l hl)
      · exact (hs sdp' level' l' hl').mono hnext
    · dsimp only at hl'
      rw [Function.update_of_ne hne] at hl'
      exact (hs sdp' level' l' hl').mono hnext

end DescState

namespace DescState

variable {s : DescState} {level : Level}

theorem Moves.append {sdp : ℕ} {l : List AttrNode}
    (hl : (s.descs sdp).levelAttrs level = some l) {v : NodeValue} (hv : ∀ t c, v = .cap t c → c.attrs = []) :
    s.Moves (s.append sdp level v) :=
  .level _ (s.next + 1) hl (Nat.le_succ _) fun h => h.concat hv

theorem Moves.appendCap {sdp : ℕ} {capNum : UInt8} {i : ℕ}
    (hi : (s.descs sdp).findCapability level capNum = some i) (a : Attr) :
    s.Moves (s.appendCap sdp level i a) := by
  obtain ⟨l, hl, -⟩ := Option.bind_eq_some_iff.mp hi
  refine .level _ (s.next + 1) hl (Nat.le_succ _) fun h => h.modifyCapAttrs (Nat.le_succ _) ?_
  intro m hnodup hlt
  constructor
  · rw [List.map_append, List.map_singleton]
    refine hnodup.append (List.nodup_singleton _) fun p hp hnext => ?_
    obtain ⟨b, hb, rfl⟩ := List.mem_map.mp hp
    have hltb := hlt b hb
    have heq : b.ptr = s.next := List.mem_singleton.mp hnext
    omega
  · intro b hb
    rcases List.mem_append.mp hb with hb | hb
    · exact Nat.lt_succ_of_lt (hlt b hb)
    · obtain rfl := List.mem_singleton.mp hb
      exact Nat.lt_succ_self _

theorem Moves.shrink {sdp : ℕ} {l m : List AttrNode} (hl : (s.descs sdp).levelAttrs level = some l) (hm : m.Sublist l) :
    s.Moves (s.modifyDesc sdp fun d => d.modifyLevel (fun _ => m) level) :=
  .level _ s.next hl le_rfl fun h => h.sublist hm

theorem Moves.shrinkCap {sdp : ℕ} {capNum : UInt8} {i : ℕ}
    (hi : (s.descs sdp).findCapability level capNum = some i) {m : List (Node Attr)}
    (hm : m.Sublist (AttrDesc.capAttrsAt (((s.descs sdp).levelAttrs level).getD []) i)) :
    s.Moves (s.modifyDesc sdp fun d => d.modifyLevel (AttrDesc.modifyCapAttrs (fun _ => m) i) level) := by
  obtain ⟨l, hl, -⟩ := Option.bind_eq_some_iff.mp hi
  rw [hl, Option.getD_some] at hm
  refine .level _ s.next hl le_rfl fun h => h.modifyCapAttrs le_rfl fun _ _ _ => ?_
  obtain ⟨hnodup, hlt⟩ := h.capAttrsAt i
  exact ⟨hnodup.sublist (hm.map Node.ptr), fun a ha => hlt a (hm.subset ha)⟩

theorem attrs_newValue {t : AttrType} (t' : CapType) (c : CapSet) (h : newValue t = .cap t' c) : c.attrs = [] := by
  cases t with
  | cap t =>
    obtain ⟨-, rfl⟩ := NodeValue.cap.inj h
    rfl
  | plain t => cases h
  | cpar t => cases h

theorem payloadCount_newValue (p : ℕ) (t : AttrType) : payloadCount { ptr := p, value := newValue t } = 0 := by
  cases t <;> rfl

theorem type_newValue (t : AttrType) : (newValue t).type = t := by
  cases t with
  | plain t => cases t <;> rfl
  | cap t => rfl
  | cpar t => rfl

/-- `sdp_add_new_attr` is refused and changes nothing, or puts an attribute to the end of a list and returns
the instance that it counts. -/
theorem addNewAttr_cases (s : DescState) (sdp : ℕ) (level : Level) (capNum : UInt8) (t : AttrType) (allocated : Bool) :
    (s.addNewAttr sdp level capNum t allocated).1 ≠ .success ∧ (s.addNewAttr sdp level capNum t allocated).2.2 = s ∨
      s.Moves (s.addNewAttr sdp level capNum t allocated).2.2 ∧
        ∃ l, Appended s (s.addNewAttr sdp level capNum t allocated).2.2 sdp level capNum l t ∧
          (s.addNewAttr sdp level capNum t allocated).2.1 = countInst Prod.snd t l + 1 := by
  unfold addNewAttr
  by_cases hbarred : capNum ≠ 0 ∧ isBarredFromCap t = true
  · rw [if_pos hbarred]
    exact Or.inl ⟨nofun, rfl⟩
  by_cases hmedia : level = .session ∧ isMediaOnly t = true
  · rw [if_neg hbarred, if_pos hmedia]
    exact Or.inl ⟨nofun, rfl⟩
  by_cases halloc : allocated = false
  · rw [if_neg hbarred, if_neg hmedia, if_pos halloc]
    exact Or.inl ⟨nofun, rfl⟩
  rw [if_neg hbarred, if_neg hmedia, if_neg halloc]
  by_cases hcap : capNum = 0
  · rw [if_pos hcap]
    cases hl : (s.descs sdp).levelAttrs level with
    | none => exact Or.inl ⟨nofun, rfl⟩
    | some l =>
      refine Or.inr ⟨.append hl attrs_newValue, l.map fun n => (n.ptr, n.type), ?_, ?_⟩
      · have happended := appended_append hl (payloadCount_newValue s.next t)
        rw [type_newValue] at happended
        exact hcap ▸ happended
      · exact congrArg (· + 1) (countInst_types l t).symm
  · rw [if_neg hcap]
    cases hi : (s.descs sdp).findCapability level capNum with
    | none => exact Or.inl ⟨nofun, rfl⟩
    | some i =>
      cases t with
      | cap t => exact Or.inl ⟨nofun, rfl⟩
      | cpar t => exact Or.inl ⟨nofun, rfl⟩
      | plain t =>
        refine Or.inr ⟨.appendCap hi _, (AttrDesc.capAttrsAt (((s.descs sdp).levelAttrs level).getD []) i).map
          fun n => (n.ptr, capAttrType n), ?_, ?_⟩
        · have happended := appended_appendCap hcap hi (newAttr t)
          have htype : (newAttr t).type = t := by
            have hvalue := type_newValue (.plain t)
            exact AttrType.plain.inj hvalue
          rw [htype] at happended
          exact happended
        · exact congrArg (· + 1) (countInst_capTypes _ (.plain t)).symm

theorem moves_step (s : DescState) (op : AttrOp) : s.Moves (s.step op) := by
  cases op with
  | add sdp level capNum t allocated =>
    rcases s.addNewAttr_cases sdp level capNum t allocated with ⟨-, heq⟩ | ⟨hmoves, -⟩
    · rw [step, heq]
      exact .refl
    · exact hmoves
  | copy srcSdp dstSdp srcLevel dstLevel srcCapNum dstCapNum t inst allocated =>
    change s.Moves (s.copyAttr srcSdp dstSdp srcLevel dstLevel srcCapNum dstCapNum t inst allocated).2
    unfold copyAttr
    by_cases hboth : srcCapNum = 0 ∧ dstCapNum ≠ 0 ∨ srcCapNum ≠ 0 ∧ dstCapNum = 0
    · rw [if_pos hboth]
      exact .refl
    rw [if_neg hboth]
    cases t with
    | cap t => exact .refl
    | cpar t => exact .refl
    | plain t =>
      dsimp only
      split
      · rename_i a hsrc
        by_cases halloc : allocated = false
        · rw [if_pos halloc]
          exact .refl
        rw [if_neg halloc]
        by_cases hcap : srcCapNum = 0
        · rw [if_pos hcap]
          cases hl : (s.descs dstSdp).levelAttrs dstLevel with
          | none => exact .refl
          | some l => exact .append hl nofun
        · rw [if_neg hcap]
          cases hi : (s.descs dstSdp).findCapability dstLevel dstCapNum with
          | none => exact .refl
          | some i => exact .appendCap hi _
      · exact .refl
  | delete sdp level capNum t inst =>
    change s.Moves (s.deleteAttr sdp level capNum t inst).2
    unfold deleteAttr
    by_cases hcap : capNum = 0
    · rw [if_pos hcap]
      cases herase : ((s.descs sdp).levelAttrs level).bind (eraseInst AttrNode.type t inst 0) with
      | none => exact .refl
      | some m =>
        obtain ⟨l, hl, hm⟩ := Option.bind_eq_some_iff.mp herase
        exact .shrink hl (sublist_of_eraseInst hm)
    · rw [if_neg hcap]
      cases hi : (s.descs sdp).findCapability level capNum with
      | none => exact .refl
      | some i =>
        dsimp only
        split
        · exact .refl
        · rename_i m hm
          exact .shrinkCap hi (sublist_of_eraseInst hm)
  | deleteAll sdp level capNum =>
    change s.Moves (s.deleteAllAttrs sdp level capNum).2
    unfold deleteAllAttrs
    by_cases hcap : capNum = 0
    · rw [if_pos hcap]
      cases hl : (s.descs sdp).levelAttrs level with
      | none => exact .refl
      | some l => exact .shrink hl (List.nil_sublist l)
    · rw [if_neg hcap]
      cases hi : (s.descs sdp).findCapability level capNum with
      | none => exact .refl
      | some i => exact .shrinkCap hi (List.nil_sublist _)

theorem Distinct.opRight (h : s.Distinct) {op : AttrOp} (hroomy : (s.step op).Roomy) : s.OpRight op := by
  cases op with
  | add sdp level capNum t allocated =>
    intro hsuccess
    rcases s.addNewAttr_cases sdp level capNum t allocated with ⟨hrefused, -⟩ | ⟨-, l, happended, hinst⟩
    · exact absurd hsuccess hrefused
    · have hself : SameCap (s.descs sdp) level capNum capNum := by
        rcases eq_or_ne capNum 0 with hzero | hne
        · exact Or.inl ⟨hzero, hzero⟩
        · exact Or.inr ⟨hne, hne, rfl⟩
      have hroom := hroomy sdp level capNum _ (happended.same capNum hself).2
      rw [List.length_append, List.length_singleton] at hroom
      obtain ⟨hnew, hother⟩ := happended.addresses hroom
      rw [hinst]
      exact ⟨hnew, h.address_ne, hother⟩
  | copy | delete | deleteAll => trivial

end DescState

/-- Every state of a run is coherent, and every attribute is added right. -/
def CoherentThroughout (s : DescState) : List AttrOp → Prop
  | [] => s.Coherent
  | op :: ops => s.Coherent ∧ s.OpRight op ∧ CoherentThroughout (s.step op) ops

/-- In no state of a run a list has more than 65535 attributes. -/
def RoomyThroughout (s : DescState) : List AttrOp → Prop
  | [] => s.Roomy
  | op :: ops => s.Roomy ∧ RoomyThroughout (s.step op) ops

theorem RoomyThroughout.head {ops : List AttrOp} (h : RoomyThroughout s ops) : s.Roomy := by
  cases ops with
  | nil => exact h
  | cons op ops => exact h.1

/-- **When all states of a run are coherent.** In no state a list has more than 65535 attributes. By induction
on the operations; each of them keeps the addresses distinct. -/
theorem coherent_throughout_iff {s : DescState} (hs : s.Distinct) (ops : List AttrOp) :
    CoherentThroughout s ops ↔ RoomyThroughout s ops := by
  induction ops generalizing s with
  | nil => exact hs.coherent_iff_roomy
  | cons op ops ih =>
    have hrest := ih ((s.moves_step op).distinct hs)
    constructor
    · rintro ⟨hcoherent, -, hthroughout⟩
      exact ⟨hs.coherent_iff_roomy.mp hcoherent, hrest.mp hthroughout⟩
    · rintro ⟨hroomy, hthroughout⟩
      exact ⟨hs.coherent_iff_roomy.mpr hroomy, hs.opRight hthroughout.head, hrest.mpr hthroughout⟩

/-- Attributes of two types are added and deleted, and their lookups stay coherent. -/
theorem coherent_throughout_two :
    CoherentThroughout { descs := fun _ => {}, next := 0 }
        [.add 0 .session 0 (.plain .rtr) true, .add 0 .session 0 (.plain .fmtp) true,
          .delete 0 .session 0 (.plain .rtr) 1] ↔
      RoomyThroughout { descs := fun _ => {}, next := 0 }
        [.add 0 .session 0 (.plain .rtr) true, .add 0 .session 0 (.plain .fmtp) true,
          .delete 0 .session 0 (.plain .rtr) 1] :=
  coherent_throughout_iff (DescState.distinct_empty 0) _

def DescState.run (s : DescState) (ops : List AttrOp) : DescState := ops.foldl DescState.step s

theorem DescState.Distinct.run (h : s.Distinct) (ops : List AttrOp) : (s.run ops).Distinct := by
  induction ops generalizing s with
  | nil => exact h
  | cons op ops ih => exact ih ((s.moves_step op).distinct h)

theorem CoherentThroughout.run {ops : List AttrOp} (h : CoherentThroughout s ops) : (s.run ops).Coherent := by
  induction ops generalizing s with
  | nil => exact h
  | cons op ops ih => exact ih h.2.2

/-- A line `a=rtr` at the session level. -/
def addRtr : AttrOp := .add 0 .session 0 (.plain .rtr) true

theorem length_sessAttrs_addRtr (s : DescState) :
    ((s.step addRtr).descs 0).sessAttrs.length = (s.descs 0).sessAttrs.length + 1 := by
  change ((s.append 0 .session (newValue (.plain .rtr))).descs 0).sessAttrs.length = _
  rw [DescState.descs_append, Function.update_self]
  exact List.length_append

theorem length_sessAttrs_run (s : DescState) (n : ℕ) :
    ((s.run (List.replicate n addRtr)).descs 0).sessAttrs.length = (s.descs 0).sessAttrs.length + n := by
  induction n generalizing s with
  | zero => rfl
  | succ n ih =>
    rw [List.replicate_succ]
    have hrest := ih (s.step addRtr)
    rw [length_sessAttrs_addRtr] at hrest
    change ((((s.step addRtr).run (List.replicate n addRtr)).descs 0).sessAttrs).length = _
    omega

/-- When 65536 attributes are added to a description, they are counted as none. -/
theorem not_coherent_throughout :
    ¬ CoherentThroughout { descs := fun _ => {}, next := 0 } (List.replicate 65536 addRtr) := by
  intro h
  have hcoherent := h.run
  have hdistinct := (DescState.distinct_empty 0).run (List.replicate 65536 addRtr)
  have hroomy := hdistinct.coherent_iff_roomy.mp hcoherent 0 .session 0 _ rfl
  rw [List.length_map, length_sessAttrs_run] at hroomy
  exact absurd hroomy (by decide)

end Sdp
