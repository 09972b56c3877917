import Ikran.Sdp.Types

/-!
# Copying a description

`sdp_copy` with `sdp_copy_all_attrs` and `sdp_copy_attr_fields`. Allocation is assumed to succeed.
Whatever is not copied has the value of zeroed memory.
-/

namespace Sdp

open CStr

/-- The `a=fmtp` case of `sdp_copy_attr_fields`. -/
def copyFmtp (src : Fmtp) : Fmtp where
  payloadNum := src.payloadNum
  maxval := src.maxval
  bitrate := src.bitrate
  annexa := src.annexa
  annexb := src.annexb
  qcif := src.qcif
  cif := src.cif
  sqcif := src.sqcif
  cif4 := src.cif4
  cif16 := src.cif16
  maxbr := src.maxbr
  customX := src.customX
  customY := src.customY
  customMpi := src.customMpi
  parWidth := src.parWidth
  parHeight := src.parHeight
  cpcf := src.cpcf
  bpp := src.bpp
  hrd := src.hrd
  profile := src.profile
  level := src.level
  isInterlace := src.isInterlace
  profileLevelId := src.profileLevelId
  parameterSets := src.parameterSets
  deintBufReq := src.deintBufReq
  maxDonDiff := src.maxDonDiff
  initBufTime := src.initBufTime
  packetizationMode := src.packetizationMode
  deintBufReqFlag := src.deintBufReqFlag
  initBufTimeFlag := src.initBufTimeFlag
  maxRcmdNaluSizeFlag := src.maxRcmdNaluSizeFlag
  deintBufCapFlag := src.deintBufCapFlag
  maxMbps := src.maxMbps
  maxFs := src.maxFs
  maxCpb := src.maxCpb
  maxDpb := src.maxDpb
  maxBr := src.maxBr
  redundantPicCap := src.redundantPicCap
  deintBufCap := src.deintBufCap
  maxRcmdNaluSize := src.maxRcmdNaluSize
  interleavingDepth := src.interleavingDepth
  parameterAdd := src.parameterAdd
  annexD := src.annexD
  annexF := src.annexF
  annexI := src.annexI
  annexJ := src.annexJ
  annexT := src.annexT
  annexKVal := src.annexKVal
  annexNVal := src.annexNVal
  annexPValPictureResize := src.annexPValPictureResize
  annexPValWarp := src.annexPValWarp
  annexbRequired := src.annexbRequired
  annexaRequired := src.annexaRequired
  fmtpFormat := src.fmtpFormat
  bmap := src.bmap

/-- The `a=direction` case of `sdp_copy_attr_fields`. The connection is copied when its network type
is not zero, which `SDP_NT_INTERNET` is. -/
def copyComediadir (src : Comediadir) : Comediadir where
  role := src.role
  connInfoPresent := src.connInfo.nettype != .internet
  connInfo :=
    if src.connInfo.nettype = .internet then { nettype := .internet, addrtype := .ip4 }
    else
      { nettype := src.connInfo.nettype, addrtype := src.connInfo.addrtype,
        connAddr := src.connInfo.connAddr }
  srcPort := if src.connInfo.nettype = .internet then 0 else src.srcPort

/-- `sdp_copy_attr_fields`. The types without a case keep the zeroes of the new attribute. -/
def copyAttrFields : Attr → Attr
  | .simpleU32 .sqn _ => .simpleU32 .sqn 0
  | .simpleU32 .framerate _ => .simpleU32 .framerate 0
  | .mptime _ => .mptime []
  | .transportMap .sprtmap _ =>
    .transportMap .sprtmap { payloadNum := 0, encname := [], clockrate := 0, numChan := 0 }
  | .qos t v =>
    .qos t { strength := v.strength, direction := v.direction, confirm := v.confirm,
             statusType := .«local» }
  | .fmtp v => .fmtp (copyFmtp v)
  | .comediadir v => .comediadir (copyComediadir v)
  | .srtp .srtpContext c => .srtp .srtpContext { c with tag := 0 }
  | a => a

/-- The capability of a new attribute: profiles, bandwidth and encryption are not copied. -/
def copyCap (src : Cap) : Cap where
  media := src.media
  conn :=
    { nettype := src.conn.nettype, addrtype := src.conn.addrtype, connAddr := src.conn.connAddr }
  transport := src.transport
  portFormat := src.portFormat
  port := src.port
  numPorts := src.numPorts
  vpi := src.vpi
  vci := src.vci
  vcci := src.vcci
  cid := src.cid
  payloads := src.payloads
  encrypt := { encryptType := .clear }
  attrs := src.attrs.map copyAttrFields

/-- One attribute of `sdp_copy_all_attrs`. -/
def copyAttr : LevelAttr → LevelAttr
  | .plain a => .plain (copyAttrFields a)
  | .cap t cap => .cap t (copyCap cap)

/-- `sdp_copy_all_attrs`. -/
def copyAllAttrs (attrs : List LevelAttr) : List LevelAttr := attrs.map copyAttr

/-- The profiles of a media line. Only the entries that have a payload list are copied; the last one
keeps the value zero, which is `SDP_TRANSPORT_RTPAVP`. -/
def copyProfiles (profiles : List Profile) : List Profile :=
  profiles.take maxProfiles ++
    (profiles.drop maxProfiles).map fun p => { p with profile := .rtpavp }

def copyMedia (src : Media) : Media :=
  { src with profiles := copyProfiles src.profiles, attrs := copyAllAttrs src.attrs }

/-- `sdp_copy`; `none` is `NULL`, for a description with more media lines than it counts. -/
def copy (d : Desc) : Option Desc :=
  if d.mcaCount.toNat < d.mca.length then none
  else
    some
      { d with
        sessAttrs := copyAllAttrs d.sessAttrs
        capValid := false
        lastCapInst := 0
        mcaCount := UInt16.ofNat d.mca.length
        mca := d.mca.map copyMedia }

end Sdp
