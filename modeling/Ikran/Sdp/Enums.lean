import Ikran.Lib.CString

/-!
# Enumerations and name tables of the SDP library

The enumerations of `sdp.h` and `ccsdp.h`, and for each one that is spelled out in a description the
name table of `sdp_main.c`. A table is given by the list `all` of its entries, in the order of the
source, and their `name`s; the values behind the end of a table (`…_UNSUPPORTED`, `…_INVALID`) have
the name the `sdp_get_…_name` functions return for them.
-/

namespace Sdp

open CStr

/-- `sdp_result_e`. -/
inductive SdpResult
  | success | failure | invalidSdpPtr | notSdpDescription | invalidTokenOrdering | invalidParameter
  | invalidMediaLevel | invalidCapability | noResource | unrecognizedToken | nullBufPtr
  | potentialSdpOverflow
  deriving DecidableEq, Inhabited

/-- `cpr_strncasecmp (tok, name, sizeof (name)) == 0`. The size counts the terminator, so that the
whole token is compared. -/
def nameEq (tok name : CStr) : Bool := strncaseEq tok name (name.length + 1)

/-- The entry of a name table that a token names. The names of a table differ, so that it makes no
difference which loops of the source stop at the first match. -/
def findName {α : Type} (all : List α) (name : α → CStr) (tok : CStr) : Option α :=
  all.find? fun x => nameEq tok (name x)

/-- `SDP_UNSUPPORTED`. -/
def unsupportedName : CStr := "Unsupported"

/-! ## Session and media lines -/

/-- `sdp_nettype_e`. -/
inductive Nettype
  | internet | atm | fr | «local» | unsupported | invalid
  deriving DecidableEq

namespace Nettype

/-- `sdp_nettype[]`. -/
def all : List Nettype := [internet, atm, fr, «local»]

/-- `sdp_get_network_name`. -/
def name : Nettype → CStr
  | internet => "IN"
  | atm => "ATM"
  | fr => "FR"
  | «local» => "LOCAL"
  | unsupported => unsupportedName
  | invalid => "Invalid network type"

/-- The type is below `SDP_MAX_NETWORK_TYPES`. -/
def valid (t : Nettype) : Bool := t ∈ all

end Nettype

/-- `sdp_addrtype_e`. -/
inductive Addrtype
  | ip4 | ip6 | nsap | epn | e164 | gwid | unsupported | fqdn | invalid
  deriving DecidableEq

namespace Addrtype

/-- `sdp_addrtype[]`. -/
def all : List Addrtype := [ip4, ip6, nsap, epn, e164, gwid]

/-- `sdp_get_address_name`. -/
def name : Addrtype → CStr
  | ip4 => "IP4"
  | ip6 => "IP6"
  | nsap => "NSAP"
  | epn => "EPN"
  | e164 => "E164"
  | gwid => "GWID"
  | unsupported => unsupportedName
  | fqdn => "*"
  | invalid => "Invalid address type"

/-- The type is below `SDP_MAX_ADDR_TYPES`. -/
def valid (t : Addrtype) : Bool := t ∈ all

end Addrtype

/-- `sdp_media_e`. -/
inductive MediaType
  | audio | video | application | data | control | nasRadius | nasTacacs | nasDiameter | nasL2tp
  | nasLogin | nasNone | text | image | unsupported | invalid
  deriving DecidableEq

namespace MediaType

/-- `sdp_media[]`. -/
def all : List MediaType :=
  [audio, video, application, data, control, nasRadius, nasTacacs, nasDiameter, nasL2tp, nasLogin,
    nasNone, text, image]

/-- `sdp_get_media_name`. The last two names of the table stand in the opposite order of the
enumeration: `SDP_MEDIA_TEXT` is spelled `image` and `SDP_MEDIA_IMAGE` is spelled `text`. -/
def name : MediaType → CStr
  | audio => "audio"
  | video => "video"
  | application => "application"
  | data => "data"
  | control => "control"
  | nasRadius => "nas/radius"
  | nasTacacs => "nas/tacacs"
  | nasDiameter => "nas/diameter"
  | nasL2tp => "nas/l2tp"
  | nasLogin => "nas/login"
  | nasNone => "nas/none"
  | text => "image"
  | image => "text"
  | unsupported => unsupportedName
  | invalid => "Invalid media type"

/-- The type is below `SDP_MAX_MEDIA_TYPES`. -/
def valid (t : MediaType) : Bool := t ∈ all

end MediaType

/-- `sdp_transport_e`. -/
inductive Transport
  | rtpavp | udp | udptl | ces10 | «local» | aal2Itu | aal2Atmf | aal2Custom | aal1avp | udpsprt
  | rtpsavp | tcp | unsupported | invalid
  deriving DecidableEq

namespace Transport

/-- `sdp_transport[]`. -/
def all : List Transport :=
  [rtpavp, udp, udptl, ces10, «local», aal2Itu, aal2Atmf, aal2Custom, aal1avp, udpsprt, rtpsavp,
    tcp]

/-- `sdp_get_transport_name`. -/
def name : Transport → CStr
  | rtpavp => "RTP/AVP"
  | udp => "udp"
  | udptl => "udptl"
  | ces10 => "ces10"
  | «local» => "LOCAL"
  | aal2Itu => "AAL2/ITU"
  | aal2Atmf => "AAL2/ATMF"
  | aal2Custom => "AAL2/custom"
  | aal1avp => "AAL1/AVP"
  | udpsprt => "udpsprt"
  | rtpsavp => "RTP/SAVP"
  | tcp => "tcp"
  | unsupported => unsupportedName
  | invalid => "Invalid transport type"

/-- The type is below `SDP_MAX_TRANSPORT_TYPES`. -/
def valid (t : Transport) : Bool := t ∈ all

/-- The AAL2 transports, whose media lines carry several profiles. -/
def aal2 : List Transport := [aal2Itu, aal2Atmf, aal2Custom]

/-- The transport is one of the AAL2 formats. -/
def isAal2 (t : Transport) : Bool := t ∈ aal2

end Transport

/-- `sdp_encrypt_type_e`. -/
inductive EncryptType
  | clear | base64 | uri | prompt | unsupported | invalid
  deriving DecidableEq

namespace EncryptType

/-- `sdp_encrypt[]`. -/
def all : List EncryptType := [clear, base64, uri, prompt]

/-- `sdp_get_encrypt_name`. -/
def name : EncryptType → CStr
  | clear => "clear"
  | base64 => "base64"
  | uri => "uri"
  | prompt => "prompt"
  | unsupported => unsupportedName
  | invalid => "Invalid encryption type"

/-- The type is below `SDP_MAX_ENCRYPT_TYPES`. -/
def valid (t : EncryptType) : Bool := t ∈ all

end EncryptType

/-- `sdp_payload_e`: the payload types that have a name. -/
inductive StringPayload
  | t38 | xtmr | t120
  deriving DecidableEq

namespace StringPayload

/-- `sdp_payload[]`. -/
def all : List StringPayload := [t38, xtmr, t120]

/-- The names of `sdp_payload[]`. -/
def name : StringPayload → CStr
  | t38 => "t38"
  | xtmr => "X-tmr"
  | t120 => "T120"

/-- The value of the enumeration constant. -/
def toU16 : StringPayload → UInt16
  | t38 => 0
  | xtmr => 1
  | t120 => 2

end StringPayload

/-- `sdp_get_payload_name`, for any value of the payload type field. -/
def getPayloadName (v : UInt16) : CStr :=
  if v = 4 then unsupportedName
  else match StringPayload.all[v.toNat]? with
    | some p => p.name
    | none => "Invalid payload type"

/-- `sdp_payload_ind_e`. -/
inductive PayloadInd
  | numeric | enum
  deriving DecidableEq

/-- `sdp_port_format_e`. -/
inductive PortFormat
  | numOnly | numCount | vpiVci | vcci | numVpiVci | vcciCid | numVpiVciCid | invalid
  deriving DecidableEq

/-- `sdp_bw_modifier_e`. -/
inductive BwModifier
  | as | ct | tias | unsupported | invalid
  deriving DecidableEq

namespace BwModifier

/-- `sdp_bw_modifier_val[]`. -/
def all : List BwModifier := [as, ct, tias]

/-- `sdp_get_bw_modifier_name`. -/
def name : BwModifier → CStr
  | as => "AS"
  | ct => "CT"
  | tias => "TIAS"
  | unsupported => unsupportedName
  | invalid => "Invalid bw modifier type"

end BwModifier

/-! ## Attribute values -/

/-- `sdp_fmtp_format_type_e`. -/
inductive FmtpFormat
  | nte | codecInfo | mode | unknownType
  deriving DecidableEq

/-- `sdp_t38_ratemgmt_e`. -/
inductive T38Ratemgmt
  | localTcf | transferredTcf | unknownRate
  deriving DecidableEq

/-- `sdp_t38_rate[]`. -/
def T38Ratemgmt.all : List T38Ratemgmt := [localTcf, transferredTcf, unknownRate]

/-- `sdp_get_t38_ratemgmt_name`. -/
def T38Ratemgmt.name : T38Ratemgmt → CStr
  | localTcf => "localTCF"
  | transferredTcf => "transferredTCF"
  | unknownRate => "unknown"

/-- `sdp_t38_udpec_e`. -/
inductive T38Udpec
  | redundancy | fec | unknown
  deriving DecidableEq

/-- `sdp_t38_udpec[]`. -/
def T38Udpec.all : List T38Udpec := [redundancy, fec, unknown]

/-- `sdp_get_t38_udpec_name`. -/
def T38Udpec.name : T38Udpec → CStr
  | redundancy => "t38UDPRedundancy"
  | fec => "t38UDPFEC"
  | unknown => "unknown"

/-- `sdp_qos_strength_e`. -/
inductive QosStrength
  | opt | mand | succ | fail | none | unknown
  deriving DecidableEq

/-- `sdp_qos_strength[]`. -/
def QosStrength.all : List QosStrength := [opt, mand, succ, fail, none]

/-- `sdp_get_qos_strength_name`. -/
def QosStrength.name : QosStrength → CStr
  | opt => "optional"
  | mand => "mandatory"
  | succ => "success"
  | fail => "failure"
  | none => "none"
  | unknown => "Invalid qos strength"

/-- `sdp_qos_dir_e`. -/
inductive QosDir
  | send | recv | sendrecv | none | unknown
  deriving DecidableEq

/-- `sdp_qos_direction[]`. -/
def QosDir.all : List QosDir := [send, recv, sendrecv, none]

/-- `sdp_get_qos_direction_name`. -/
def QosDir.name : QosDir → CStr
  | send => "send"
  | recv => "recv"
  | sendrecv => "sendrecv"
  | none => "none"
  | unknown => "Invalid qos direction"

/-- `sdp_qos_status_types_e`. -/
inductive QosStatusType
  | «local» | remote | e2e | unknown
  deriving DecidableEq

/-- `sdp_qos_status_type[]`. -/
def QosStatusType.all : List QosStatusType := [«local», remote, e2e]

/-- `sdp_get_qos_status_type_name`. -/
def QosStatusType.name : QosStatusType → CStr
  | «local» => "local"
  | remote => "remote"
  | e2e => "e2e"
  | unknown => "Invalid qos status type"

/-- `sdp_curr_type_e`, `sdp_des_type_e` and `sdp_conf_type_e`, which have the same two values. -/
inductive QosLineType
  | qos | unknown
  deriving DecidableEq

/-- `sdp_curr_type[]`, `sdp_des_type[]` and `sdp_conf_type[]`. -/
def QosLineType.all : List QosLineType := [qos, unknown]

/-- `sdp_get_curr_type_name`, `sdp_get_des_type_name` and `sdp_get_conf_type_name`. -/
def QosLineType.name : QosLineType → CStr
  | qos => "qos"
  | unknown => "unknown"

/-- `sdp_silencesupp_pref_e`. -/
inductive SilencesuppPref
  | standard | custom | null | unknown
  deriving DecidableEq

/-- `sdp_silencesupp_pref[]`. -/
def SilencesuppPref.all : List SilencesuppPref := [standard, custom, null]

/-- `sdp_get_silencesupp_pref_name`. -/
def SilencesuppPref.name : SilencesuppPref → CStr
  | standard => "standard"
  | custom => "custom"
  | null => "-"
  | unknown => "Invalid silencesupp pref"

/-- `sdp_silencesupp_siduse_e`. -/
inductive SilencesuppSiduse
  | nosid | fixed | sampled | null | unknown
  deriving DecidableEq

/-- `sdp_silencesupp_siduse[]`. -/
def SilencesuppSiduse.all : List SilencesuppSiduse := [nosid, fixed, sampled, null]

/-- `sdp_get_silencesupp_siduse_name`. -/
def SilencesuppSiduse.name : SilencesuppSiduse → CStr
  | nosid => "No SID"
  | fixed => "Fixed Noise"
  | sampled => "Sampled Noise"
  | null => "-"
  | unknown => "Invalid silencesupp siduse"

/-- `sdp_mediadir_role_e`. -/
inductive MediadirRole
  | passive | active | both | reuse | unknown | unsupported | invalid
  deriving DecidableEq

namespace MediadirRole

/-- `sdp_mediadir_role[]`. -/
def all : List MediadirRole := [passive, active, both, reuse, unknown]

/-- The names of `sdp_mediadir_role[]`, which a description is parsed with. -/
def tableName : MediadirRole → CStr
  | passive => "passive"
  | active => "active"
  | both => "both"
  | reuse => "reuse"
  | _ => "unknown"

/-- `sdp_get_mediadir_role_name`. It has no name for the role `unknown` of the table. -/
def name : MediadirRole → CStr
  | passive => "passive"
  | active => "active"
  | both => "both"
  | reuse => "reuse"
  | _ => "Invalid media direction role"

end MediadirRole

/-- `sdp_group_attr_e`. -/
inductive GroupAttr
  | fid | ls | anat | unsupported
  deriving DecidableEq

/-- `sdp_group_attr_val[]`. -/
def GroupAttr.all : List GroupAttr := [fid, ls, anat]

/-- `sdp_get_group_attr_name`. -/
def GroupAttr.name : GroupAttr → CStr
  | fid => "FID"
  | ls => "LS"
  | anat => "ANAT"
  | unsupported => unsupportedName

/-- `sdp_src_filter_mode_e`. -/
inductive SrcFilterMode
  | incl | excl | notPresent
  deriving DecidableEq

/-- `sdp_src_filter_mode_val[]`. -/
def SrcFilterMode.all : List SrcFilterMode := [incl, excl]

/-- `sdp_get_src_filter_mode_name`. -/
def SrcFilterMode.name : SrcFilterMode → CStr
  | incl => "incl"
  | excl => "excl"
  | notPresent => "Invalid source filter mode"

/-- `sdp_rtcp_unicast_mode_e`. -/
inductive RtcpUnicastMode
  | reflection | rsi | notPresent
  deriving DecidableEq

/-- `sdp_rtcp_unicast_mode_val[]`. -/
def RtcpUnicastMode.all : List RtcpUnicastMode := [reflection, rsi]

/-- `sdp_get_rtcp_unicast_mode_name`. -/
def RtcpUnicastMode.name : RtcpUnicastMode → CStr
  | reflection => "reflection"
  | rsi => "rsi"
  | notPresent => "Invalid rtcp unicast mode"

/-- `sdp_srtp_crypto_suite_t`. -/
inductive CryptoSuite
  | unknown | aesCm128HmacSha1_32 | aesCm128HmacSha1_80 | f8_128HmacSha1_80
  deriving DecidableEq

namespace CryptoSuite

/-- `sdp_srtp_crypto_suite_array[]`. -/
def all : List CryptoSuite :=
  [unknown, aesCm128HmacSha1_32, aesCm128HmacSha1_80, f8_128HmacSha1_80]

/-- The names of `sdp_srtp_crypto_suite_array[]` and of `sdp_srtp_context_crypto_suite[]`. -/
def name : CryptoSuite → CStr
  | unknown => "UNKNOWN_CRYPTO_SUITE"
  | aesCm128HmacSha1_32 => "AES_CM_128_HMAC_SHA1_32"
  | aesCm128HmacSha1_80 => "AES_CM_128_HMAC_SHA1_80"
  | f8_128HmacSha1_80 => "F8_128_HMAC_SHA1_80"

/-- The master key size of the suite in bytes. -/
def keySizeBytes : CryptoSuite → UInt8
  | unknown => 0
  | _ => 16

/-- The master salt size of the suite in bytes. -/
def saltSizeBytes : CryptoSuite → UInt8
  | unknown => 0
  | _ => 14

end CryptoSuite

/-! ## Attribute types -/

/-- The types whose value is one string. -/
inductive StringAttr
  | bearer | called | connType | dialed | dialing | framing | label
  deriving DecidableEq

/-- The types whose value is one number. -/
inductive U32Attr
  | eecid | ptime | t38Version | t38Maxbitrate | t38Maxbuffer | t38Maxdgram | xSqn
  | tc1PayloadBytes | tc1WindowSize | tc2PayloadBytes | tc2WindowSize | rtcp | mid | sqn | framerate
  deriving DecidableEq

/-- The types whose value is one boolean. -/
inductive BoolAttr
  | t38Fillbitremoval | t38Transcodingmmr | t38Transcodingjbig | tmrgwxid
  deriving DecidableEq

/-- The media flow directions. -/
inductive DirectionAttr
  | inactive | recvonly | sendonly | sendrecv
  deriving DecidableEq

/-- The quality of service types. -/
inductive QosAttr
  | qos | secure | xPcQos | xQos
  deriving DecidableEq

inductive MapAttr
  | rtpmap | sprtmap
  deriving DecidableEq

inductive StreamAttr
  | xSidin | xSidout | xConfid
  deriving DecidableEq

/-- The two versions of security descriptions. -/
inductive SrtpAttr
  | srtpContext | sdescriptions
  deriving DecidableEq

/-- The two kinds of capability sets. Each has its own parameter attribute: `X-cap` is followed by
`X-cpar` and `cdsc` by `cpar`. -/
inductive CapType
  | xCap | cdsc
  deriving DecidableEq

/-- The attribute types that are not part of capability sets. -/
inductive PlainType
  | simpleString (t : StringAttr)
  | simpleU32 (t : U32Attr)
  | simpleBool (t : BoolAttr)
  | direction (t : DirectionAttr)
  | qos (t : QosAttr)
  | transportMap (t : MapAttr)
  | stream (t : StreamAttr)
  | srtp (t : SrtpAttr)
  | fmtp | curr | des | conf | subnet | t38Ratemgmt | t38Udpec | pcCodec | comediadir | rtr
  | silencesupp | mptime | group | sourceFilter | rtcpUnicast | maxprate
  deriving DecidableEq

/-- `sdp_attr_e`: a plain type, a capability set or a parameter of a capability set. -/
inductive AttrType
  | plain (t : PlainType)
  | cap (t : CapType)
  | cpar (t : CapType)
  deriving DecidableEq

/-- The name column of `sdp_attr[]`. -/
def PlainType.name : PlainType → CStr
  | simpleString .bearer => "bearer"
  | simpleString .called => "called"
  | simpleString .connType => "connection_type"
  | simpleString .dialed => "dialed"
  | simpleString .dialing => "dialing"
  | comediadir => "direction"
  | simpleU32 .eecid => "eecid"
  | fmtp => "fmtp"
  | simpleString .framing => "framing"
  | direction .inactive => "inactive"
  | simpleU32 .ptime => "ptime"
  | qos .qos => "qos"
  | curr => "curr"
  | des => "des"
  | conf => "conf"
  | direction .recvonly => "recvonly"
  | transportMap .rtpmap => "rtpmap"
  | qos .secure => "secure"
  | direction .sendonly => "sendonly"
  | direction .sendrecv => "sendrecv"
  | subnet => "subnet"
  | simpleU32 .t38Version => "T38FaxVersion"
  | simpleU32 .t38Maxbitrate => "T38MaxBitRate"
  | simpleBool .t38Fillbitremoval => "T38FaxFillBitRemoval"
  | simpleBool .t38Transcodingmmr => "T38FaxTranscodingMMR"
  | simpleBool .t38Transcodingjbig => "T38FaxTranscodingJBIG"
  | t38Ratemgmt => "T38FaxRateManagement"
  | simpleU32 .t38Maxbuffer => "T38FaxMaxBuffer"
  | simpleU32 .t38Maxdgram => "T38FaxMaxDatagram"
  | t38Udpec => "T38FaxUdpEC"
  | pcCodec => "X-pc-codec"
  | qos .xPcQos => "X-pc-qos"
  | qos .xQos => "X-qos"
  | simpleU32 .xSqn => "X-sqn"
  | simpleBool .tmrgwxid => "TMRGwXid"
  | simpleU32 .tc1PayloadBytes => "TC1PayloadBytes"
  | simpleU32 .tc1WindowSize => "TC1WindowSize"
  | simpleU32 .tc2PayloadBytes => "TC2PayloadBytes"
  | simpleU32 .tc2WindowSize => "TC2WindowSize"
  | simpleU32 .rtcp => "rtcp"
  | rtr => "rtr"
  | silencesupp => "silenceSupp"
  | srtp .srtpContext => "X-crypto"
  | mptime => "mptime"
  | stream .xSidin => "X-sidin"
  | stream .xSidout => "X-sidout"
  | stream .xConfid => "X-confid"
  | group => "group"
  | simpleU32 .mid => "mid"
  | sourceFilter => "source-filter"
  | rtcpUnicast => "rtcp-unicast"
  | maxprate => "maxprate"
  | simpleU32 .sqn => "sqn"
  | transportMap .sprtmap => "sprtmap"
  | srtp .sdescriptions => "crypto"
  | simpleString .label => "label"
  | simpleU32 .framerate => "framerate"

namespace AttrType

/-- `sdp_get_attr_name`. -/
def name : AttrType → CStr
  | plain t => t.name
  | cap .xCap => "X-cap"
  | cap .cdsc => "cdsc"
  | cpar .xCap => "X-cpar"
  | cpar .cdsc => "cpar"

/-- `sdp_attr[]`, in the order of `sdp_attr_e`. The constructors stand for the function columns of
the table. -/
def all : List AttrType :=
  [plain (.simpleString .bearer), plain (.simpleString .called), plain (.simpleString .connType),
    plain (.simpleString .dialed), plain (.simpleString .dialing), plain .comediadir,
    plain (.simpleU32 .eecid), plain .fmtp, plain (.simpleString .framing),
    plain (.direction .inactive), plain (.simpleU32 .ptime), plain (.qos .qos), plain .curr,
    plain .des, plain .conf, plain (.direction .recvonly), plain (.transportMap .rtpmap),
    plain (.qos .secure), plain (.direction .sendonly), plain (.direction .sendrecv),
    plain .subnet, plain (.simpleU32 .t38Version), plain (.simpleU32 .t38Maxbitrate),
    plain (.simpleBool .t38Fillbitremoval), plain (.simpleBool .t38Transcodingmmr),
    plain (.simpleBool .t38Transcodingjbig), plain .t38Ratemgmt, plain (.simpleU32 .t38Maxbuffer),
    plain (.simpleU32 .t38Maxdgram), plain .t38Udpec, cap .xCap, cpar .xCap, plain .pcCodec,
    plain (.qos .xPcQos), plain (.qos .xQos), plain (.simpleU32 .xSqn),
    plain (.simpleBool .tmrgwxid), plain (.simpleU32 .tc1PayloadBytes),
    plain (.simpleU32 .tc1WindowSize), plain (.simpleU32 .tc2PayloadBytes),
    plain (.simpleU32 .tc2WindowSize), plain (.simpleU32 .rtcp), plain .rtr, plain .silencesupp,
    plain (.srtp .srtpContext), plain .mptime, plain (.stream .xSidin), plain (.stream .xSidout),
    plain (.stream .xConfid), plain .group, plain (.simpleU32 .mid), plain .sourceFilter,
    plain .rtcpUnicast, plain .maxprate, plain (.simpleU32 .sqn), cap .cdsc, cpar .cdsc,
    plain (.transportMap .sprtmap), plain (.srtp .sdescriptions), plain (.simpleString .label),
    plain (.simpleU32 .framerate)]

end AttrType

end Sdp
