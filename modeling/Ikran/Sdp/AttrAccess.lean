import Ikran.Sdp.Copy

/-!
# Access to the attributes of a description

The functions of `sdp_attr_access.c` that add, copy, delete and look up attributes. An attribute has an
address, so that two lookups can be told to give the same attribute. Of a capability set the functions
read the number of payloads and the list of its attributes.

A type is asked for that `sdp_attr_e` names. The handles that `sdp_verify_sdp_ptr` refuses are left out,
and so are the statistics.
-/

namespace Sdp

open CStr

/-- Something at an address. -/
structure Node (α : Type) where
  ptr : ℕ
  value : α
  deriving DecidableEq

/-- What is read of the `sdp_mca_t` of a capability set. -/
structure CapSet where
  numPayloads : UInt16
  attrs : List (Node Attr)
  deriving DecidableEq

/-- The value of an attribute. Nothing is read of an `X-cpar` or `cpar` attribute that stands for itself. -/
inductive NodeValue
  | plain (a : Attr)
  | cap (t : CapType) (c : CapSet)
  | cpar (t : CapType)
  deriving DecidableEq

def NodeValue.type : NodeValue → AttrType
  | plain a => .plain a.type
  | cap t _ => .cap t
  | cpar t => .cpar t

/-- `sdp_attr_t`. -/
abbrev AttrNode := Node NodeValue

def AttrNode.type (n : AttrNode) : AttrType := n.value.type

/-- The type field of an attribute of a capability set. -/
def capAttrType (n : Node Attr) : AttrType := .plain n.value.type

/-- An attribute of a capability set, as a pointer to it is returned. -/
def toAttrNode (n : Node Attr) : AttrNode := { ptr := n.ptr, value := .plain n.value }

structure AttrDesc where
  sessAttrs : List AttrNode := []
  media : List (List AttrNode) := []

/-! ## Copying the fields -/

/-- The switch of `sdp_copy_attr`. The types without a case keep the zeroes of the new attribute. -/
def copyAttrValue : Attr → Attr
  | .simpleU32 .sqn _ => .simpleU32 .sqn 0
  | .simpleU32 .framerate _ => .simpleU32 .framerate 0
  | .rtr _ => .rtr false
  | .transportMap .sprtmap _ =>
    .transportMap .sprtmap { payloadNum := 0, encname := [], clockrate := 0, numChan := 0 }
  | .qos t v =>
    .qos t { strength := v.strength, direction := v.direction, confirm := v.confirm,
             statusType := .«local» }
  -- the field `sqcif` is taken from `qcif`
  | .fmtp v => .fmtp { copyFmtp v with sqcif := v.qcif }
  | .comediadir v => .comediadir (copyComediadir v)
  | .srtp .srtpContext c => .srtp .srtpContext { c with tag := 0 }
  | a => a

/-- Both copiers give the same attribute. -/
def Attr.CopiersAgree : Attr → Prop
  | .fmtp v => v.sqcif = v.qcif
  | .mptime intervals => intervals = []
  | .rtr confirm => confirm = false
  | _ => True

theorem copyFmtp_sqcif_iff (v : Fmtp) : { copyFmtp v with sqcif := v.qcif } = copyFmtp v ↔ v.sqcif = v.qcif := by
  constructor
  · intro h
    exact (congrArg Fmtp.sqcif h).symm
  · intro h
    rw [← h]
    rfl

/-- **When the two attribute copiers agree.** `sdp_copy_attr` takes `sqcif` of format parameters from
`qcif` and has no case for `rtr`; `sdp_copy_attr_fields` has none for `mptime`. -/
theorem copiers_agree_iff (a : Attr) : copyAttrValue a = copyAttrFields a ↔ a.CopiersAgree := by
  cases a with
  | fmtp v =>
    simp only [copyAttrValue, copyAttrFields, Attr.CopiersAgree, Attr.fmtp.injEq]
    exact copyFmtp_sqcif_iff v
  | mptime intervals => simp [copyAttrValue, copyAttrFields, Attr.CopiersAgree]
  | rtr confirm =>
    simp only [copyAttrValue, copyAttrFields, Attr.CopiersAgree, Attr.rtr.injEq]
    exact eq_comm
  | simpleU32 t v => cases t <;> exact iff_of_true rfl trivial
  | transportMap t v => cases t <;> exact iff_of_true rfl trivial
  | srtp t v => cases t <;> exact iff_of_true rfl trivial
  | simpleString | simpleBool | direction | qos | stream | curr | des | conf | subnet | t38Ratemgmt
    | t38Udpec | pcCodec | comediadir | silencesupp | group | sourceFilter | rtcpUnicast
    | maxprate => exact iff_of_true rfl trivial

/-- Format parameters with a picture size, packet times and a confirmation are copied differently. -/
theorem copiers_not_agree :
    copyAttrValue (.fmtp { qcif := 1 }) ≠ copyAttrFields (.fmtp { qcif := 1 }) ∧
      copyAttrValue (.mptime [20]) ≠ copyAttrFields (.mptime [20]) ∧
      copyAttrValue (.rtr true) ≠ copyAttrFields (.rtr true) := by
  decide

/-! ## Lookups -/

/-- The loop of `sdp_find_capability`: the place of the capability. The number of the capabilities so far
is a byte. -/
def capIndex (capNum : UInt8) : UInt8 → List AttrNode → Option ℕ
  | _, [] => none
  | curCapNum, n :: l =>
    match n.value with
    | .cap _ c =>
      if capNum ≤ curCapNum + c.numPayloads.toUInt8 then some 0
      else (capIndex capNum (curCapNum + c.numPayloads.toUInt8) l).map (· + 1)
    | _ => (capIndex capNum curCapNum l).map (· + 1)

/-- The loop that looks for an instance of a type. -/
def findInst {α : Type} (type : α → AttrType) (attrType : AttrType) (instNum : UInt16) :
    UInt16 → List α → Option α
  | _, [] => none
  | attrCount, a :: l =>
    if type a = attrType then
      if attrCount + 1 = instNum then some a else findInst type attrType instNum (attrCount + 1) l
    else findInst type attrType instNum attrCount l

/-- The list without an instance of a type. -/
def eraseInst {α : Type} (type : α → AttrType) (attrType : AttrType) (instNum : UInt16) :
    UInt16 → List α → Option (List α)
  | _, [] => none
  | attrCount, a :: l =>
    if type a = attrType then
      if attrCount + 1 = instNum then some l
      else (eraseInst type attrType instNum (attrCount + 1) l).map (a :: ·)
    else (eraseInst type attrType instNum attrCount l).map (a :: ·)

def countInst {α : Type} (type : α → AttrType) (attrType : AttrType) (l : List α) : UInt16 :=
  l.foldl (fun n a => if type a = attrType then n + 1 else n) 0

/-- The loop of `sdp_get_attr_type`: the type of the attribute with the number, and its instance. -/
def attrTypeAt {α : Type} (type : α → AttrType) (attrNum : UInt16) :
    UInt16 → (AttrType → UInt16) → List α → Option (AttrType × UInt16)
  | _, _, [] => none
  | attrTotalCount, attrCount, a :: l =>
    let attrCount := Function.update attrCount (type a) (attrCount (type a) + 1)
    if attrTotalCount + 1 = attrNum then some (type a, attrCount (type a))
    else attrTypeAt type attrNum (attrTotalCount + 1) attrCount l

namespace AttrDesc

/-- The attributes of a level; there are none when `sdp_find_media_level` finds no media line. -/
def levelAttrs (d : AttrDesc) : Level → Option (List AttrNode)
  | .session => some d.sessAttrs
  | .media n => if 1 ≤ n then d.media[n - 1]? else none

def modifyLevel (d : AttrDesc) (f : List AttrNode → List AttrNode) : Level → AttrDesc
  | .session => { d with sessAttrs := f d.sessAttrs }
  | .media n => { d with media := d.media.modify (n - 1) f }

/-- `sdp_find_capability`: the place of the capability in the attributes of its level. -/
def findCapability (d : AttrDesc) (level : Level) (capNum : UInt8) : Option ℕ :=
  (d.levelAttrs level).bind (capIndex capNum 0)

/-- The attributes of the capability set at a place of a list. -/
def capAttrsAt (l : List AttrNode) (i : ℕ) : List (Node Attr) :=
  match l[i]?.map Node.value with
  | some (.cap _ c) => c.attrs
  | _ => []

/-- Update the attributes of the capability set at a place of a list. -/
def modifyCapAttrs (f : List (Node Attr) → List (Node Attr)) (i : ℕ) (l : List AttrNode) : List AttrNode :=
  l.modify i fun n =>
    match n.value with
    | .cap t c => { n with value := .cap t { c with attrs := f c.attrs } }
    | _ => n

/-- The attributes of a capability, which `sdp_find_capability` finds. -/
def capAttrs (d : AttrDesc) (level : Level) (capNum : UInt8) : Option (List (Node Attr)) :=
  (d.findCapability level capNum).map (capAttrsAt ((d.levelAttrs level).getD []))

/-- `sdp_find_attr_list`: the addresses and the types of the attributes, or the error. -/
def findAttrList (d : AttrDesc) (level : Level) (capNum : UInt8) : Except SdpResult (List (ℕ × AttrType)) :=
  if capNum = 0 then
    match d.levelAttrs level with
    | none => .error .invalidParameter
    | some l => .ok (l.map fun n => (n.ptr, n.type))
  else
    match d.capAttrs level capNum with
    | none => .error .invalidCapability
    | some l => .ok (l.map fun n => (n.ptr, capAttrType n))

/-- `sdp_find_attr`. -/
def findAttr (d : AttrDesc) (level : Level) (capNum : UInt8) (attrType : AttrType) (instNum : UInt16) :
    Option AttrNode :=
  if instNum < 1 then none
  else if capNum = 0 then (d.levelAttrs level).bind (findInst AttrNode.type attrType instNum 0)
  else ((d.capAttrs level capNum).bind (findInst capAttrType attrType instNum 0)).map toAttrNode

/-- `sdp_attr_num_instances`: the result, and the number. -/
def attrNumInstances (d : AttrDesc) (level : Level) (capNum : UInt8) (attrType : AttrType) :
    SdpResult × UInt16 :=
  match d.findAttrList level capNum with
  | .error rc => (rc, 0)
  | .ok l => (.success, countInst Prod.snd attrType l)

/-- `sdp_get_attr_type`: the result, and the type and the instance, which are `SDP_ATTR_INVALID` and zero
where there is no attribute. -/
def getAttrType (d : AttrDesc) (level : Level) (capNum : UInt8) (attrNum : UInt16) :
    SdpResult × Option (AttrType × UInt16) :=
  if attrNum < 1 then (.invalidParameter, none)
  else
    match d.findAttrList level capNum with
    | .error rc => (rc, none)
    | .ok l => (.success, attrTypeAt Prod.snd attrNum 0 (fun _ => 0) l)

end AttrDesc

/-! ## Changes -/

/-- The format parameters of a new attribute. -/
def newFmtp : Fmtp :=
  { fmtpFormat := .unknownType, packetizationMode := 0xff, levelAsymmetryAllowed := 2, profile := -2, level := -2,
    parameterAdd := true }

/-- The value that `sdp_add_new_attr` gives an attribute. The memory is zeroed. -/
def newAttr : PlainType → Attr
  | .simpleString t => .simpleString t []
  | .simpleU32 t => .simpleU32 t 0
  | .simpleBool t => .simpleBool t false
  | .direction t => .direction t
  | .qos t => .qos t { strength := .opt, direction := .send, confirm := false, statusType := .«local» }
  | .transportMap t => .transportMap t { payloadNum := 0, encname := [], clockrate := 0, numChan := 1 }
  | .stream t => .stream t []
  | .srtp t => .srtp t {}
  | .fmtp => .fmtp newFmtp
  | .curr => .curr { type := .qos, statusType := .«local», direction := .send }
  | .des => .des { type := .qos, strength := .opt, statusType := .«local», direction := .send }
  | .conf => .conf { type := .qos, statusType := .«local», direction := .send }
  | .subnet => .subnet { nettype := .internet, addrtype := .ip4, addr := [], prefixLen := 0 }
  | .t38Ratemgmt => .t38Ratemgmt .localTcf
  | .t38Udpec => .t38Udpec .redundancy
  | .pcCodec => .pcCodec []
  | .comediadir =>
    .comediadir { role := .passive, connInfoPresent := false,
                  connInfo := { nettype := .internet, addrtype := .ip4 }, srcPort := 0 }
  | .rtr => .rtr false
  | .silencesupp =>
    .silencesupp { enabled := false, timerNull := false, timer := 0, pref := .standard, siduse := .nosid,
                   fxnslevelNull := false, fxnslevel := 0 }
  | .mptime => .mptime []
  | .group => .group { groupAttr := .fid, groupIds := [] }
  | .sourceFilter =>
    .sourceFilter { mode := .incl, nettype := .internet, addrtype := .ip4, destAddr := [], srcList := [] }
  | .rtcpUnicast => .rtcpUnicast .reflection
  | .maxprate => .maxprate []

/-- The value of a new attribute of any type. A capability set has no payloads yet. -/
def newValue : AttrType → NodeValue
  | .plain t => .plain (newAttr t)
  | .cap t => .cap t { numPayloads := 0, attrs := [] }
  | .cpar t => .cpar t

/-- The types that cannot be parameters of a capability, when an attribute is added. -/
def isBarredFromCap : AttrType → Bool
  | .cap _ | .cpar _ => true
  | .plain t => t = .simpleU32 .xSqn || t = .simpleU32 .sqn

/-- The types that are only valid under a media line. -/
def isMediaOnly (t : AttrType) : Bool := t = .plain (.simpleU32 .rtcp) || t = .plain (.simpleString .label)

/-- The descriptions by their handles, and the next free address. -/
structure DescState where
  descs : ℕ → AttrDesc
  next : ℕ

namespace DescState

def modifyDesc (s : DescState) (sdp : ℕ) (f : AttrDesc → AttrDesc) : DescState :=
  { s with descs := Function.update s.descs sdp (f (s.descs sdp)) }

/-- The state with one more attribute at the end of a level. -/
def append (s : DescState) (sdp : ℕ) (level : Level) (v : NodeValue) : DescState :=
  { (s.modifyDesc sdp fun d => d.modifyLevel (fun l => l ++ [{ ptr := s.next, value := v }]) level) with
    next := s.next + 1 }

/-- The state with one more attribute at the end of a capability set. -/
def appendCap (s : DescState) (sdp : ℕ) (level : Level) (i : ℕ) (a : Attr) : DescState :=
  { (s.modifyDesc sdp fun d =>
      d.modifyLevel (AttrDesc.modifyCapAttrs (fun l => l ++ [{ ptr := s.next, value := a }]) i) level) with
    next := s.next + 1 }

/-- `sdp_add_new_attr`: the result, the instance of the new attribute, and the state. The last argument
tells whether the memory is allocated. -/
def addNewAttr (s : DescState) (sdp : ℕ) (level : Level) (capNum : UInt8) (attrType : AttrType)
    (allocated : Bool) : SdpResult × UInt16 × DescState :=
  if capNum ≠ 0 ∧ isBarredFromCap attrType = true then (.invalidParameter, 0, s)
  else if level = .session ∧ isMediaOnly attrType = true then (.invalidMediaLevel, 0, s)
  else if allocated = false then (.noResource, 0, s)
  else if capNum = 0 then
    match (s.descs sdp).levelAttrs level with
    | none => (.invalidParameter, 0, s)
    | some l => (.success, countInst AttrNode.type attrType l + 1, s.append sdp level (newValue attrType))
  else
    match (s.descs sdp).findCapability level capNum, attrType with
    | some i, .plain t =>
      let l := AttrDesc.capAttrsAt (((s.descs sdp).levelAttrs level).getD []) i
      (.success, countInst capAttrType attrType l + 1, s.appendCap sdp level i (newAttr t))
    | _, _ => (.invalidParameter, 0, s)

/-- `sdp_copy_attr`. -/
def copyAttr (s : DescState) (srcSdp dstSdp : ℕ) (srcLevel dstLevel : Level) (srcCapNum dstCapNum : UInt8)
    (srcAttrType : AttrType) (srcInstNum : UInt16) (allocated : Bool) : SdpResult × DescState :=
  if srcCapNum = 0 ∧ dstCapNum ≠ 0 ∨ srcCapNum ≠ 0 ∧ dstCapNum = 0 then (.invalidParameter, s)
  else
    match srcAttrType with
    | .cap _ | .cpar _ => (.invalidParameter, s)
    | .plain _ =>
      match ((s.descs srcSdp).findAttr srcLevel srcCapNum srcAttrType srcInstNum).map Node.value with
      | some (.plain a) =>
        if allocated = false then (.noResource, s)
        else if srcCapNum = 0 then
          match (s.descs dstSdp).levelAttrs dstLevel with
          | none => (.invalidParameter, s)
          | some _ => (.success, s.append dstSdp dstLevel (.plain (copyAttrValue a)))
        else
          match (s.descs dstSdp).findCapability dstLevel dstCapNum with
          | none => (.invalidParameter, s)
          | some i => (.success, s.appendCap dstSdp dstLevel i (copyAttrValue a))
      | _ => (.invalidParameter, s)

/-- `sdp_delete_attr`. -/
def deleteAttr (s : DescState) (sdp : ℕ) (level : Level) (capNum : UInt8) (attrType : AttrType)
    (instNum : UInt16) : SdpResult × DescState :=
  if capNum = 0 then
    match ((s.descs sdp).levelAttrs level).bind (eraseInst AttrNode.type attrType instNum 0) with
    | none => (.invalidParameter, s)
    | some l => (.success, s.modifyDesc sdp fun d => d.modifyLevel (fun _ => l) level)
  else
    match (s.descs sdp).findCapability level capNum with
    | none => (.invalidParameter, s)
    | some i =>
      let l := AttrDesc.capAttrsAt (((s.descs sdp).levelAttrs level).getD []) i
      match eraseInst capAttrType attrType instNum 0 l with
      | none => (.invalidParameter, s)
      | some l =>
        (.success, s.modifyDesc sdp fun d => d.modifyLevel (AttrDesc.modifyCapAttrs (fun _ => l) i) level)

/-- `sdp_delete_all_attrs`. -/
def deleteAllAttrs (s : DescState) (sdp : ℕ) (level : Level) (capNum : UInt8) : SdpResult × DescState :=
  if capNum = 0 then
    match (s.descs sdp).levelAttrs level with
    | none => (.invalidParameter, s)
    | some _ => (.success, s.modifyDesc sdp fun d => d.modifyLevel (fun _ => []) level)
  else
    match (s.descs sdp).findCapability level capNum with
    | none => (.invalidParameter, s)
    | some i =>
      (.success, s.modifyDesc sdp fun d => d.modifyLevel (AttrDesc.modifyCapAttrs (fun _ => []) i) level)

end DescState

/-! ## Capabilities by their number -/

/-- The number of the payloads of an attribute that is a capability set. -/
def payloadCount (n : AttrNode) : ℕ :=
  match n.value with
  | .cap _ c => c.numPayloads.toNat
  | _ => 0

/-- The number of the capabilities of a list. -/
def capTotal (l : List AttrNode) : ℕ := (l.map payloadCount).sum

/-- The capability with the number is found: it is the attribute whose payloads reach the number, and there
is none when all payloads together do not. -/
def CapFoundRight (l : List AttrNode) (capNum : UInt8) (found : Option ℕ) : Prop :=
  (∀ front n back, l = front ++ n :: back → capTotal front < capNum.toNat →
    capNum.toNat ≤ capTotal (front ++ [n]) → found = some front.length) ∧
    (capTotal l < capNum.toNat → found = none)

/-- The capability that a number falls to is reached before the count wraps. -/
def CapReached (l : List AttrNode) (capNum : UInt8) : Prop :=
  ∀ front n back, l = front ++ n :: back → capTotal front < capNum.toNat →
    capNum.toNat ≤ capTotal (front ++ [n]) → capTotal (front ++ [n]) < 2 ^ 8

@[simp]
theorem capTotal_concat (l : List AttrNode) (n : AttrNode) : capTotal (l ++ [n]) = capTotal l + payloadCount n := by
  simp [capTotal]

@[simp]
theorem capTotal_cons (n : AttrNode) (l : List AttrNode) : capTotal (n :: l) = payloadCount n + capTotal l := by
  simp [capTotal]

variable {capNum : UInt8}

theorem capIndex_cons {total : ℕ} {n : AttrNode} {l : List AttrNode} (htotal : total < capNum.toNat) :
    capIndex capNum (UInt8.ofNat total) (n :: l) =
      if capNum.toNat ≤ (total + payloadCount n) % 2 ^ 8 then some 0
      else (capIndex capNum (UInt8.ofNat (total + payloadCount n)) l).map (· + 1) := by
  have hbound := capNum.toNat_lt
  have hmod : total % 2 ^ 8 = total := Nat.mod_eq_of_lt (by omega)
  rcases hvalue : n.value with a | ⟨t, c⟩ | t
  · have hzero : payloadCount n = 0 := by rw [payloadCount, hvalue]
    rw [hzero, Nat.add_zero, hmod, if_neg (by omega), capIndex, hvalue]
  · have hcount : payloadCount n = c.numPayloads.toNat := by rw [payloadCount, hvalue]
    have hsum : UInt8.ofNat total + c.numPayloads.toUInt8 = UInt8.ofNat (total + c.numPayloads.toNat) := by
      apply UInt8.toNat_inj.mp
      simp
    rw [capIndex, hvalue]
    dsimp only
    rw [hsum, hcount]
    have hle : capNum ≤ UInt8.ofNat (total + c.numPayloads.toNat) ↔
        capNum.toNat ≤ (total + c.numPayloads.toNat) % 2 ^ 8 := by
      rw [UInt8.le_iff_toNat_le]
      simp
    simp only [hle]
  · have hzero : payloadCount n = 0 := by rw [payloadCount, hvalue]
    rw [hzero, Nat.add_zero, hmod, if_neg (by omega), capIndex, hvalue]

theorem capIndex_append {total : ℕ} {front rest : List AttrNode} (h : total + capTotal front < capNum.toNat) :
    capIndex capNum (UInt8.ofNat total) (front ++ rest) =
      (capIndex capNum (UInt8.ofNat (total + capTotal front)) rest).map (· + front.length) := by
  induction front generalizing total with
  | nil => simp [capTotal]
  | cons n front ih =>
    rw [capTotal_cons] at h
    have hbound := capNum.toNat_lt
    have hmod : (total + payloadCount n) % 2 ^ 8 = total + payloadCount n := Nat.mod_eq_of_lt (by omega)
    rw [List.cons_append, capIndex_cons (by omega), hmod, if_neg (by omega), ih (by omega), capTotal_cons,
      Nat.add_assoc, Option.map_map]
    rfl

theorem capIndex_eq_none {l : List AttrNode} (h : capTotal l < capNum.toNat) : capIndex capNum 0 l = none := by
  have hnone := @capIndex_append capNum 0 l [] (by omega)
  rw [List.append_nil] at hnone
  exact hnone

theorem capIndex_eq_some_iff {front back : List AttrNode} {n : AttrNode}
    (hfront : capTotal front < capNum.toNat) (hn : capNum.toNat ≤ capTotal (front ++ [n]))
    (hcount : payloadCount n ≤ maxPayloadTypes) :
    capIndex capNum 0 (front ++ n :: back) = some front.length ↔ capTotal (front ++ [n]) < 2 ^ 8 := by
  have hbound := capNum.toNat_lt
  have hmax : maxPayloadTypes = 23 := rfl
  rw [capTotal_concat] at hn ⊢
  have happend := @capIndex_append capNum 0 front (n :: back) (by omega)
  rw [Nat.zero_add, capIndex_cons hfront] at happend
  have hzero : UInt8.ofNat 0 = 0 := rfl
  rw [hzero] at happend
  rw [happend]
  by_cases hwrap : capTotal front + payloadCount n < 2 ^ 8
  · rw [Nat.mod_eq_of_lt hwrap, if_pos hn, Option.map_some, Nat.zero_add]
    exact iff_of_true rfl hwrap
  · -- the count is small again, and the attribute is passed
    have hmod : (capTotal front + payloadCount n) % 2 ^ 8 = capTotal front + payloadCount n - 2 ^ 8 := by
      rw [Nat.mod_eq_sub_mod (by omega), Nat.mod_eq_of_lt (by omega)]
    rw [hmod, if_neg (by omega)]
    refine iff_of_false (fun h => ?_) hwrap
    rw [Option.map_map] at h
    obtain ⟨j, -, hj⟩ := Option.map_eq_some_iff.mp h
    simp only [Function.comp_apply] at hj
    omega

/-- **When a capability is found by its number.** The count of the capabilities is a byte: the capability
that the number falls to is found when all payloads up to it, its own included, are at most 255. -/
theorem findCapability_right_iff {d : AttrDesc} {level : Level} {l : List AttrNode}
    (hl : d.levelAttrs level = some l) (hcounts : ∀ n ∈ l, payloadCount n ≤ maxPayloadTypes)
    (capNum : UInt8) : CapFoundRight l capNum (d.findCapability level capNum) ↔ CapReached l capNum := by
  have hfind : d.findCapability level capNum = capIndex capNum 0 l := by
    rw [AttrDesc.findCapability, hl, Option.bind_some]
  rw [hfind]
  constructor
  · rintro ⟨hfound, -⟩ front n back rfl hfront hn
    exact (capIndex_eq_some_iff hfront hn (hcounts n (by simp))).mp (hfound front n back rfl hfront hn)
  · intro h
    refine ⟨fun front n back hsplit hfront hn => ?_, capIndex_eq_none⟩
    subst hsplit
    exact (capIndex_eq_some_iff hfront hn (hcounts n (by simp))).mpr (h front n back rfl hfront hn)

/-- A capability set with a number of payloads. -/
def exampleCap (numPayloads : UInt16) : AttrNode :=
  { ptr := 0, value := .cap .xCap { numPayloads, attrs := [] } }

/-- Of four capability sets the last one has the numbers 7 and 8. -/
theorem findCapability_right_four :
    CapFoundRight [exampleCap 4, exampleCap 1, exampleCap 1, exampleCap 2] 7
        (AttrDesc.findCapability
          { sessAttrs := [exampleCap 4, exampleCap 1, exampleCap 1, exampleCap 2] } .session 7) ↔
      CapReached [exampleCap 4, exampleCap 1, exampleCap 1, exampleCap 2] 7 :=
  findCapability_right_iff rfl (by decide) 7

/-- Of twelve capability sets with 23 payloads each, the last one is not found by the number 254. -/
theorem not_findCapability_right :
    ¬ CapFoundRight (List.replicate 12 (exampleCap 23)) 254
        (AttrDesc.findCapability { sessAttrs := List.replicate 12 (exampleCap 23) } .session 254) := by
  intro h
  have hfound := h.1 (List.replicate 11 (exampleCap 23)) (exampleCap 23) [] (by decide) (by decide) (by decide)
  exact absurd hfound (by decide)

end Sdp
