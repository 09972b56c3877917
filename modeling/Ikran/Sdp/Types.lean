import Ikran.Sdp.Enums

/-!
# Data model of an SDP description

The structures of `sdp_private.h`. Fixed-width fields keep their width; an `int` that holds the bits
of a parsed `u32` (ports, bandwidth values) is a `UInt32`, with the constants `-1` and `-2` as
`chooseParam` and `invalidValue`. Linked lists are lists.

An attribute of the C union is one constructor per group of types that share a member, so that the
member read always belongs to the type. A capability set (`X-cap`, `cdsc`) holds an `sdp_mca_t`
whose attribute list contains plain attributes only: `sdp_parse_attr_cpar` refuses to nest them.
-/

namespace Sdp

open CStr

/-- `SDP_MAX_STRING_LEN`. -/
def maxStringLen : ℕ := 80

/-- `SDP_MAX_PAYLOAD_TYPES`. -/
def maxPayloadTypes : ℕ := 23

/-- `SDP_MAX_PROFILES`. -/
def maxProfiles : ℕ := 3

/-- `SDP_MAX_GROUP_STREAM_ID`. -/
def maxGroupStreamId : ℕ := 10

/-- `SDP_MAX_SRC_ADDR_LIST`. -/
def maxSrcAddrList : ℕ := 1

/-- `SDP_CHOOSE_PARAM`, which is `-1`. -/
def chooseParam : UInt32 := 0xFFFFFFFF

/-- `SDP_INVALID_VALUE`, which is `-2`. -/
def invalidValue : UInt32 := 0xFFFFFFFE

/-- `sdp_conn_t`: a `c=` line. -/
structure Conn where
  nettype : Nettype := .invalid
  addrtype : Addrtype := .invalid
  connAddr : CStr := []
  isMulticast : Bool := false
  ttl : UInt16 := 0
  numOfAddresses : UInt16 := 0
  deriving DecidableEq

/-- `sdp_timespec_t`: a `t=` line. -/
structure Timespec where
  startTime : CStr
  stopTime : CStr
  deriving DecidableEq

/-- `sdp_encryptspec_t`: a `k=` line. -/
structure Encryptspec where
  encryptType : EncryptType
  encryptKey : CStr := []
  deriving DecidableEq

/-- `sdp_bw_data_t`: a `b=` line. -/
structure BwData where
  bwModifier : BwModifier
  bwVal : UInt32
  deriving DecidableEq

/-- An entry of `payload_indicator` and `payload_type`. -/
structure Payload where
  indicator : PayloadInd
  type : UInt16
  deriving DecidableEq

/-- A profile of `sdp_media_profiles_t` with its payload list. The `profile` array has one entry
more than the payload arrays; the payload list of that entry stays empty. -/
structure Profile where
  profile : Transport
  payloads : List UInt16 := []
  deriving DecidableEq

/-! ## Attribute values -/

scoped instance neZero256 : NeZero 256 := ⟨by decide⟩

/-- `sdp_fmtp_t`. -/
structure Fmtp where
  payloadNum : UInt16 := 0
  /-- The largest named event; the bitmap has 256 bits. -/
  maxval : Fin 256 := 0
  /-- The named events, 32 to a word. -/
  bmap : Vector UInt32 8 := Vector.replicate 8 0
  fmtpFormat : FmtpFormat := .nte
  annexbRequired : Bool := false
  annexaRequired : Bool := false
  annexa : Bool := false
  annexb : Bool := false
  bitrate : UInt32 := 0
  mode : UInt32 := 0
  qcif : UInt16 := 0
  cif : UInt16 := 0
  maxbr : UInt16 := 0
  sqcif : UInt16 := 0
  cif4 : UInt16 := 0
  cif16 : UInt16 := 0
  customX : UInt16 := 0
  customY : UInt16 := 0
  customMpi : UInt16 := 0
  parWidth : UInt16 := 0
  parHeight : UInt16 := 0
  cpcf : UInt16 := 0
  bpp : UInt16 := 0
  hrd : UInt16 := 0
  profile : Int16 := 0
  level : Int16 := 0
  isInterlace : Bool := false
  profileLevelId : CStr := []
  parameterSets : CStr := []
  packetizationMode : UInt16 := 0
  levelAsymmetryAllowed : UInt16 := 0
  interleavingDepth : UInt16 := 0
  deintBufReq : UInt32 := 0
  maxDonDiff : UInt32 := 0
  initBufTime : UInt32 := 0
  maxMbps : UInt32 := 0
  maxFs : UInt32 := 0
  maxCpb : UInt32 := 0
  maxDpb : UInt32 := 0
  maxBr : UInt32 := 0
  redundantPicCap : Bool := false
  deintBufCap : UInt32 := 0
  maxRcmdNaluSize : UInt32 := 0
  parameterAdd : Bool := false
  annexD : Bool := false
  annexF : Bool := false
  annexI : Bool := false
  annexJ : Bool := false
  annexT : Bool := false
  annexKVal : UInt16 := 0
  annexNVal : UInt16 := 0
  annexPValPictureResize : UInt16 := 0
  annexPValWarp : UInt16 := 0
  /-- `SDP_DEINT_BUF_REQ_FLAG` of `flag`. -/
  deintBufReqFlag : Bool := false
  /-- `SDP_INIT_BUF_TIME_FLAG` of `flag`. -/
  initBufTimeFlag : Bool := false
  /-- `SDP_MAX_RCMD_NALU_SIZE_FLAG` of `flag`. -/
  maxRcmdNaluSizeFlag : Bool := false
  /-- `SDP_DEINT_BUF_CAP_FLAG` of `flag`. -/
  deintBufCapFlag : Bool := false
  deriving DecidableEq

/-- `sdp_qos_t`. -/
structure Qos where
  strength : QosStrength
  direction : QosDir
  confirm : Bool
  statusType : QosStatusType
  deriving DecidableEq

/-- `sdp_curr_t` and `sdp_conf_t`, which have the same fields. -/
structure Curr where
  type : QosLineType
  statusType : QosStatusType
  direction : QosDir
  deriving DecidableEq

/-- `sdp_des_t`. -/
structure Des where
  type : QosLineType
  strength : QosStrength
  statusType : QosStatusType
  direction : QosDir
  deriving DecidableEq

/-- `sdp_transport_map_t`. -/
structure TransportMap where
  payloadNum : UInt16
  encname : CStr
  clockrate : UInt32
  numChan : UInt16
  deriving DecidableEq

/-- `sdp_subnet_t`. -/
structure Subnet where
  nettype : Nettype
  addrtype : Addrtype
  addr : CStr
  prefixLen : UInt32
  deriving DecidableEq

/-- `sdp_comediadir_t`. -/
structure Comediadir where
  role : MediadirRole
  connInfoPresent : Bool
  connInfo : Conn
  srcPort : UInt32
  deriving DecidableEq

/-- `sdp_silencesupp_t`. -/
structure Silencesupp where
  enabled : Bool
  timerNull : Bool
  timer : UInt16
  pref : SilencesuppPref
  siduse : SilencesuppSiduse
  fxnslevelNull : Bool
  fxnslevel : UInt8
  deriving DecidableEq

/-- The part of `sdp_stream_data_t` an `a=group` line uses. -/
structure Group where
  groupAttr : GroupAttr
  groupIds : List UInt16
  deriving DecidableEq

/-- `sdp_source_filter_t`. -/
structure SourceFilter where
  mode : SrcFilterMode
  nettype : Nettype
  addrtype : Addrtype
  destAddr : CStr
  srcList : List CStr
  deriving DecidableEq

/-- `sdp_srtp_crypto_context_t`, without the fields its comments call unused. -/
structure SrtpContext where
  tag : UInt32 := 0
  /-- The bits of `selection_flags`. -/
  selectionFlags : UInt64 := 0
  suite : CryptoSuite := .unknown
  masterKey : List UInt8 := List.replicate 16 0
  masterSalt : List UInt8 := List.replicate 14 0
  masterKeySizeBytes : UInt8 := 0
  masterSaltSizeBytes : UInt8 := 0
  masterKeyLifetime : CStr := []
  mki : CStr := []
  mkiSizeBytes : UInt16 := 0
  /-- `NULL` when no session parameters were given. -/
  sessionParameters : Option CStr := none
  deriving DecidableEq

/-- The attributes that are not part of capability sets, with the union member of their type. -/
inductive Attr
  | simpleString (t : StringAttr) (stringVal : CStr)
  | simpleU32 (t : U32Attr) (u32Val : UInt32)
  | simpleBool (t : BoolAttr) (booleanVal : Bool)
  | direction (t : DirectionAttr)
  | qos (t : QosAttr) (v : Qos)
  | transportMap (t : MapAttr) (v : TransportMap)
  | stream (t : StreamAttr) (v : CStr)
  | srtp (t : SrtpAttr) (v : SrtpContext)
  | fmtp (v : Fmtp)
  | curr (v : Curr)
  | des (v : Des)
  | conf (v : Curr)
  | subnet (v : Subnet)
  | t38Ratemgmt (v : T38Ratemgmt)
  | t38Udpec (v : T38Udpec)
  | pcCodec (payloadTypes : List UInt16)
  | comediadir (v : Comediadir)
  | rtr (confirm : Bool)
  | silencesupp (v : Silencesupp)
  | mptime (intervals : List UInt16)
  | group (v : Group)
  | sourceFilter (v : SourceFilter)
  | rtcpUnicast (v : RtcpUnicastMode)
  | maxprate (stringVal : CStr)
  deriving DecidableEq

def Attr.type : Attr → PlainType
  | simpleString t _ => .simpleString t
  | simpleU32 t _ => .simpleU32 t
  | simpleBool t _ => .simpleBool t
  | direction t => .direction t
  | qos t _ => .qos t
  | transportMap t _ => .transportMap t
  | stream t _ => .stream t
  | srtp t _ => .srtp t
  | fmtp _ => .fmtp
  | curr _ => .curr
  | des _ => .des
  | conf _ => .conf
  | subnet _ => .subnet
  | t38Ratemgmt _ => .t38Ratemgmt
  | t38Udpec _ => .t38Udpec
  | pcCodec _ => .pcCodec
  | comediadir _ => .comediadir
  | rtr _ => .rtr
  | silencesupp _ => .silencesupp
  | mptime _ => .mptime
  | group _ => .group
  | sourceFilter _ => .sourceFilter
  | rtcpUnicast _ => .rtcpUnicast
  | maxprate _ => .maxprate

/-! ## Levels -/

/-- `sdp_mca_t`: a media line, or a capability set, with attributes of type `α`. The defaults are
those of `sdp_alloc_mca`. -/
structure Mca (α : Type) where
  media : MediaType := .invalid
  conn : Conn := {}
  transport : Transport := .invalid
  portFormat : PortFormat := .numOnly
  port : UInt32 := invalidValue
  numPorts : UInt32 := invalidValue
  vpi : UInt32 := invalidValue
  vci : UInt32 := 0
  vcci : UInt32 := invalidValue
  cid : UInt32 := invalidValue
  payloads : List Payload := []
  /-- `media_profiles_p`, empty while it is `NULL`. -/
  profiles : List Profile := []
  sessinfoFound : Bool := false
  encrypt : Encryptspec := { encryptType := .invalid }
  bw : List BwData := []
  attrs : List α := []
  deriving DecidableEq

abbrev Cap := Mca Attr

/-- An attribute of the session or of a media level. The capability of a list entry is never `NULL`:
an attribute whose capability cannot be parsed or allocated is not put into a list. -/
inductive LevelAttr
  | plain (a : Attr)
  | cap (t : CapType) (capP : Cap)
  deriving DecidableEq

def LevelAttr.type : LevelAttr → AttrType
  | plain a => .plain a.type
  | cap t _ => .cap t

abbrev Media := Mca LevelAttr

/-- `sdp_t`, with the initial values of `sdp_init_description`. The fields `cur_cap_num` and
`last_cap_type` are set anew by every build before they are read; they are variables of the build. -/
structure Desc where
  version : UInt32 := 0
  ownerName : CStr := []
  ownerSessid : CStr := []
  ownerVersion : CStr := []
  ownerNetworkType : Nettype := .invalid
  ownerAddrType : Addrtype := .invalid
  ownerAddr : CStr := []
  sessname : CStr := []
  sessinfoFound : Bool := false
  uriFound : Bool := false
  defaultConn : Conn := {}
  timespecs : List Timespec := []
  encrypt : Encryptspec := { encryptType := .clear }
  bw : List BwData := []
  sessAttrs : List LevelAttr := []
  capValid : Bool := false
  lastCapInst : UInt16 := 0
  mcaCount : UInt16 := 0
  mca : List Media := []

/-! ## Configuration -/

/-- The options of `sdp_conf_options_t` that parsing and building read. -/
structure Conf where
  versionReqd : Bool
  ownerReqd : Bool
  sessionNameReqd : Bool
  timespecReqd : Bool
  nettypeSupported : Nettype → Bool
  addrtypeSupported : Addrtype → Bool
  /-- `allow_choose[SDP_CHOOSE_PORTNUM]`. -/
  allowChoosePortnum : Bool
  /-- No option: the bytes that the stack holds behind the port token while the media line with the
  given index is parsed. A `$` at the end of the token makes the parser read them. -/
  stackBytes : ℕ → CStr := fun _ => []

/-- The statistics counts of `sdp_conf_options_t`. -/
structure Stats where
  numBuilds : UInt32 := 0
  numParses : UInt32 := 0
  numNotSdpDesc : UInt32 := 0
  numInvalidTokenOrder : UInt32 := 0
  numInvalidParam : UInt32 := 0
  numNoResource : UInt32 := 0

/-- The options `sdp_init_config` sets. -/
def initConfig : Conf where
  versionReqd := true
  ownerReqd := true
  sessionNameReqd := true
  timespecReqd := true
  nettypeSupported := fun _ => false
  addrtypeSupported := fun _ => false
  allowChoosePortnum := false

/-- The options `sip_sdp_init` sets for the descriptions of SIP messages. -/
def sipSdpInit : Conf :=
  { initConfig with
    sessionNameReqd := false
    nettypeSupported := fun t => t == .internet
    addrtypeSupported := fun t => t == .ip4 || t == .ip6 }

/-- The options under which no session line is required. -/
def nothingRequired : Conf :=
  { sipSdpInit with versionReqd := false, ownerReqd := false, timespecReqd := false }

/-- The options under which only the version line is required. -/
def versionRequired : Conf := { nothingRequired with versionReqd := true }

/-- A level of a description: `SDP_SESSION_LEVEL` or the number of a media line, from 1 on. -/
inductive Level
  | session
  | media (n : ℕ)
  deriving DecidableEq

namespace Desc

/-- `sdp_find_media_level`: the media line with the given number. -/
def findMediaLevel (d : Desc) (n : ℕ) : Option Media :=
  if 1 ≤ n ∧ n ≤ d.mcaCount.toNat then d.mca[n - 1]? else none

/-- Update the media line with the given number. -/
def updateMedia (d : Desc) (n : ℕ) (f : Media → Media) : Desc :=
  { d with mca := d.mca.modify (n - 1) f }

end Desc

end Sdp
