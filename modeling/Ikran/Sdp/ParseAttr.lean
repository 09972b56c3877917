import Ikran.Sdp.Base64
import Ikran.Sdp.Utils

/-!
# Parsing attribute values

The parse functions of `sdp_attr.c` that read nothing but their own line and, of the shared state,
only count errors: all but those of `a=fmtp`, `a=direction` and of the capability attributes.
Their type says so.
-/

namespace Sdp

open CStr Line

/-- The delimiters of most tokens: blank and tab. -/
def blanks : CStr := " \t"

/-- `sdp_parse_attr_simple_string`. -/
def parseAttrSimpleString (t : StringAttr) : Parser Attr := do
  let s ← orInvalid (← getNextStrTok blanks)
  return .simpleString t s

/-- `sdp_parse_attr_simple_u32`. -/
def parseAttrSimpleU32 (t : U32Attr) : Parser Attr := do
  let v ← orInvalid (← getNextNum blanks)
  return .simpleU32 t v

/-- `sdp_parse_attr_simple_bool`. -/
def parseAttrSimpleBool (t : BoolAttr) : Parser Attr := do
  let v ← orInvalid (← getNextNum blanks)
  return .simpleBool t (v != 0)

/-- `sdp_parse_attr_maxprate`. -/
def parseAttrMaxprate : Parser Attr := do
  let s ← orInvalid (← getNextStrTok blanks)
  if validateMaxprate s then return .maxprate s
  else invalidParameter

/-- `sdp_parse_attr_direction`: there is nothing to parse. -/
def parseAttrDirection (t : DirectionAttr) : Parser Attr := return .direction t

/-- `sdp_parse_attr_qos`. -/
def parseAttrQos (t : QosAttr) : Parser Attr := do
  let tmp ← orInvalid (← getNextStrTok blanks)
  let strength ← orInvalid (findName QosStrength.all QosStrength.name tmp)
  let tmp ← orInvalid (← getNextStrTok blanks)
  let direction ← orInvalid (findName QosDir.all QosDir.name tmp)
  let confirm ← match ← getNextStrTok blanks with
    | none => pure false
    | some tmp => if nameEq tmp "confirm" then pure true else invalidParameter
  return .qos t { strength, direction, confirm, statusType := .«local» }

/-- The first token of a `curr`, `des` or `conf` line, which has to be `qos`. -/
def parseQosLineType : Parser QosLineType := do
  let tmp ← orInvalid (← getNextStrTok blanks)
  match findName QosLineType.all QosLineType.name tmp with
  | some .qos => return .qos
  | _ => invalidParameter

/-- The status type of a `curr`, `des` or `conf` line. An unrecognised one is accepted. -/
def parseQosStatusType : Parser QosStatusType := do
  let tmp ← orInvalid (← getNextStrTok blanks)
  return (findName QosStatusType.all QosStatusType.name tmp).getD .unknown

/-- The direction of a `curr`, `des` or `conf` line. -/
def parseQosDir : Parser QosDir := do
  let tmp ← orInvalid (← getNextStrTok blanks)
  orInvalid (findName QosDir.all QosDir.name tmp)

/-- `sdp_parse_attr_curr`. -/
def parseAttrCurr : Parser Attr := do
  let type ← parseQosLineType
  let statusType ← parseQosStatusType
  let direction ← parseQosDir
  return .curr { type, statusType, direction }

/-- `sdp_parse_attr_des`. -/
def parseAttrDes : Parser Attr := do
  let type ← parseQosLineType
  let tmp ← orInvalid (← getNextStrTok blanks)
  let strength ← orInvalid (findName QosStrength.all QosStrength.name tmp)
  let statusType ← parseQosStatusType
  let direction ← parseQosDir
  return .des { type, strength, statusType, direction }

/-- `sdp_parse_attr_conf`. -/
def parseAttrConf : Parser Attr := do
  let type ← parseQosLineType
  let statusType ← parseQosStatusType
  let direction ← parseQosDir
  return .conf { type, statusType, direction }

/-- `sdp_parse_attr_transport_map`. -/
def parseAttrTransportMap (t : MapAttr) : Parser Attr := do
  let payloadNum ← orInvalid (← getNextNum blanks)
  let encname ← orInvalid (← getNextStrTok "/ \t")
  -- without a clock rate 8000 is assumed
  let clockrate := (← getNextNum "/ \t").getD 8000
  let numChan ←
    if (← LineParser.peek) = '/' then
      pure (← orInvalid (← getNextNum "/ \t")).toUInt16
    else pure 1
  return .transportMap t { payloadNum := payloadNum.toUInt16, encname, clockrate, numChan }

/-- The network type a token names, if it is supported. -/
def findNettype (conf : Conf) (tmp : CStr) : Option Nettype :=
  (findName Nettype.all Nettype.name tmp).filter conf.nettypeSupported

/-- The address type a token names, if it is supported. -/
def findAddrtype (conf : Conf) (tmp : CStr) : Option Addrtype :=
  (findName Addrtype.all Addrtype.name tmp).filter conf.addrtypeSupported

/-- `sdp_parse_attr_subnet`. -/
def parseAttrSubnet (conf : Conf) : Parser Attr := do
  let tmp ← orInvalid (← getNextStrTok blanks)
  let nettype ← orInvalid (findNettype conf tmp)
  let tmp ← orInvalid (← getNextStrTok blanks)
  let addrtype ← orInvalid (findAddrtype conf tmp)
  let addr ← orInvalid (← getNextStrTok blanks)
  let slash := findChar "/" addr
  if peek slash = '/' then
    let num := (numTokAt blanks slash.tail).1
    let prefixLen ← orInvalid (if num.2 then some num.1 else none)
    return .subnet { nettype, addrtype, addr := beforeChar "/" addr, prefixLen }
  else
    return .subnet { nettype, addrtype, addr, prefixLen := invalidValue }

/-- `sdp_parse_attr_t38_ratemgmt`. -/
def parseAttrT38Ratemgmt : Parser Attr := do
  let tmp ← orInvalid (← getNextStrTok blanks)
  return .t38Ratemgmt ((findName T38Ratemgmt.all T38Ratemgmt.name tmp).getD .unknownRate)

/-- `sdp_parse_attr_t38_udpec`. -/
def parseAttrT38Udpec : Parser Attr := do
  let tmp ← orInvalid (← getNextStrTok blanks)
  return .t38Udpec ((findName T38Udpec.all T38Udpec.name tmp).getD .unknown)

/-- Read numbers until one is missing or `n` have been read. -/
def parseNums : ℕ → Parser (List UInt16)
  | 0 => return []
  | n + 1 => do
    match ← getNextNum blanks with
    | none => return []
    | some v => return v.toUInt16 :: (← parseNums n)

/-- `sdp_parse_attr_pc_codec`. -/
def parseAttrPcCodec : Parser Attr := do
  match ← parseNums maxPayloadTypes with
  | [] => invalidParameter
  | payloadTypes => return .pcCodec payloadTypes

/-- `sdp_parse_attr_rtr`. -/
def parseAttrRtr : Parser Attr := do
  match ← getNextStrTok blanks with
  | none => return .rtr false
  | some tmp => if nameEq tmp "confirm" then return .rtr true else invalidParameter

/-- `sdp_parse_attr_silencesupp`. -/
def parseAttrSilencesupp : Parser Attr := do
  let tmp ← orInvalid (← getNextStrTok blanks)
  let enabled ← orInvalid
    (if nameEq tmp "on" then some true
      else if nameEq tmp "off" then some false
      else if nameEq tmp "-" then some false
      else none)
  let (timer, timerNull) ← orInvalid (← getNextNumTokOrNull blanks)
  let tmp ← orInvalid (← getNextStrTok blanks)
  let pref ← orInvalid (findName SilencesuppPref.all SilencesuppPref.name tmp)
  let tmp ← orInvalid (← getNextStrTok blanks)
  let siduse ← orInvalid (findName SilencesuppSiduse.all SilencesuppSiduse.name tmp)
  let (fxnslevel, fxnslevelNull) ← orInvalid (← getNextNumTokOrNull blanks)
  return .silencesupp
    { enabled, timerNull, timer := timer.toUInt16, pref, siduse, fxnslevelNull,
      fxnslevel := fxnslevel.toUInt8 }

/-- Read numbers or hyphens, which count as zero, until one is missing or `n` have been read. -/
def parseIntervals : ℕ → Parser (List UInt16)
  | 0 => return []
  | n + 1 => do
    match ← getNextNumTokOrNull blanks with
    | none => return []
    | some (v, _) => return v.toUInt16 :: (← parseIntervals n)

/-- `sdp_parse_attr_mptime`. -/
def parseAttrMptime : Parser Attr := do
  match ← parseIntervals maxPayloadTypes with
  | [] => invalidParameter
  | intervals => return .mptime intervals

/-- What `sdp_parse_attr_x_sidin`, `sdp_parse_attr_x_sidout` and `sdp_parse_attr_x_confid` do. -/
def parseAttrStream (t : StreamAttr) : Parser Attr := do
  let s ← orInvalid (← getNextStrTok blanks)
  return .stream t s

/-- `sdp_parse_attr_x_sidin`. -/
def parseAttrXSidin : Parser Attr := parseAttrStream .xSidin

/-- `sdp_parse_attr_x_sidout`. -/
def parseAttrXSidout : Parser Attr := parseAttrStream .xSidout

/-- `sdp_parse_attr_x_confid`. -/
def parseAttrXConfid : Parser Attr := parseAttrStream .xConfid

/-- `sdp_parse_attr_group`. -/
def parseAttrGroup : Parser Attr := do
  let tmp ← orInvalid (← getNextStrTok blanks)
  let groupAttr := (findName GroupAttr.all GroupAttr.name tmp).getD .unsupported
  let groupIds ← parseNums maxGroupStreamId
  return .group { groupAttr, groupIds }

/-- Read strings until one is missing or `n` have been read. -/
def parseStrs : ℕ → Parser (List CStr)
  | 0 => return []
  | n + 1 => do
    match ← getNextStrTok blanks with
    | none => return []
    | some s => return s :: (← parseStrs n)

/-- `sdp_parse_attr_source_filter`. -/
def parseAttrSourceFilter (conf : Conf) : Parser Attr := do
  let tmp ← orInvalid (← getNextStrTok blanks)
  let mode ← orInvalid (findName SrcFilterMode.all SrcFilterMode.name tmp)
  let tmp ← orInvalid (← getNextStrTok blanks)
  let nettype ← orInvalid (findNettype conf tmp)
  let tmp ← orInvalid (← getNextStrTok blanks)
  let addrtype ← orInvalid
    ((findAddrtype conf tmp).or (if peek tmp = '*' then some .fqdn else none))
  let destAddr ← orInvalid (← getNextStrTok blanks)
  match ← parseStrs maxSrcAddrList with
  | [] => invalidParameter
  | srcList => return .sourceFilter { mode, nettype, addrtype, destAddr, srcList }

/-- `sdp_parse_attr_rtcp_unicast`. -/
def parseAttrRtcpUnicast : Parser Attr := do
  let tmp ← orInvalid (← getNextStrTok blanks)
  let mode ← orInvalid (findName RtcpUnicastMode.all RtcpUnicastMode.name tmp)
  return .rtcpUnicast mode

/-! ## Security descriptions -/

/-- `SDP_SRTP_CONTEXT_SET_ENCRYPT_AUTHENTICATE`. -/
def encryptAuthenticateMask : UInt64 := 0x00000007

/-- `SDP_SRTP_CONTEXT_SET_MASTER_KEY` and `SDP_SRTP_CONTEXT_SET_MASTER_SALT`. -/
def masterKeySaltMask : UInt64 := 0xC0000000

def storeSdescriptionsMkiOrLifetime (buf : CStr) (c : SrtpContext) : Option SrtpContext :=
  if ':' ∈ buf then
    (verifySdescriptionsMki buf).map fun (mki, mkiSizeBytes) => { c with mki, mkiSizeBytes }
  else if verifySdescriptionsLifetime buf then
    some { c with masterKeyLifetime := buf.take 15 }
  else none

/-- The decoded key and salt of a key parameter, when they have the sizes the suite asks for. -/
def storeMasterKey (buf : CStr) (c : SrtpContext) : Option SrtpContext := do
  let raw ← Base64.decode buf
  let keySize := c.masterKeySizeBytes.toNat
  let saltSize := c.masterSaltSizeBytes.toNat
  if raw.length = keySize + saltSize then
    some { c with
      masterKey := raw.take keySize ++ c.masterKey.drop keySize
      masterSalt := (raw.drop keySize).take saltSize ++ c.masterSalt.drop saltSize
      selectionFlags := c.selectionFlags ||| masterKeySaltMask }
  else none

/-- `sdp_parse_sdescriptions_key_param`. Its failures count an error only when the keyword or the
key is missing. -/
def parseSdescriptionsKeyParam (str : CStr) (c : SrtpContext) : Parser SrtpContext :=
  if strncaseEq str "inline:" 7 then
    match tokens "|" maxStringLen (str.drop 7) with
    | [] => invalidParameter
    | key :: params =>
      match (storeMasterKey key c).bind
          fun c => params.foldlM (fun c buf => storeSdescriptionsMkiOrLifetime buf c) c with
      | some c => pure c
      | none => LineParser.fail .invalidParameter
  else invalidParameter

/-- `sdp_parse_attr_srtp`. -/
def parseAttrSrtp (vtype : SrtpAttr) : Parser Attr := do
  let c : SrtpContext := { selectionFlags := encryptAuthenticateMask }
  let tag ← match vtype with
    | .sdescriptions => orInvalid (← getNextNum blanks)
    | .srtpContext => pure 0
  let tmp ← orInvalid (← getNextStrTok blanks)
  -- an unknown suite is refused without counting an error
  let suite ← match CryptoSuite.all.find? fun s => nameEq tmp s.name with
    | some suite => pure suite
    | none => LineParser.fail .invalidParameter
  let c := { c with
    tag, suite
    masterKeySizeBytes := suite.keySizeBytes, masterSaltSizeBytes := suite.saltSizeBytes }
  let tmp ← orInvalid (← getNextStrTok blanks)
  let c ← parseSdescriptionsKeyParam tmp c
  -- what is left of the line is kept, unless it fills the buffer
  let tmp ← LineParser.rest maxStringLen
  let sessionParameters := if tmp ≠ [] ∧ tmp.length < maxStringLen then some tmp else none
  return .srtp vtype { c with sessionParameters }

/-- `sdp_parse_attr_sdescriptions`. -/
def parseAttrSdescriptions : Parser Attr := parseAttrSrtp .sdescriptions

/-- `sdp_parse_attr_srtpcontext`. -/
def parseAttrSrtpcontext : Parser Attr := parseAttrSrtp .srtpContext

/-- What a token of a payload list stands for on a line with this media type and transport; `none`
is skipped with a warning. -/
def payloadOf (media : MediaType) (transport : Transport) (tok : CStr) : Option Payload :=
  if (numVal tok).2 then
    if media = .image ∧ transport = .udptl then none
    else some ⟨.numeric, (numVal tok).1.toUInt16⟩
  else
    match findName StringPayload.all StringPayload.name tok with
    | none => none
    | some p =>
      if (media = .image ∧ transport = .udptl ∧ p = .t38) ∨
          (media = .application ∧ transport = .udp ∧ p = .xtmr) ∨
          (media = .application ∧ transport = .tcp ∧ p = .t120) then
        some ⟨.enum, p.toU16⟩
      else none

/-- The first `n` payloads among the tokens. -/
def collectPayloads (media : MediaType) (transport : Transport) : ℕ → List CStr → List Payload
  | 0, _ => []
  | _ + 1, [] => []
  | n + 1, tok :: toks =>
    match payloadOf media transport tok with
    | some p => p :: collectPayloads media transport n toks
    | none => collectPayloads media transport (n + 1) toks

/-- `sdp_parse_payload_types`. -/
def parsePayloadTypes (media : MediaType) (transport : Transport) : Parser (List Payload) := do
  return collectPayloads media transport maxPayloadTypes (← LineParser.tokens blanks maxStringLen)

/-- Add a payload to the last profile, unless its list is full or the token is not numeric. The
fourth profile has no payload list. -/
def addProfilePayload (tok : CStr) : List Profile → List Profile
  | [] => []
  | [p] =>
    if p.payloads.length < maxPayloadTypes ∧ (numVal tok).2 then
      [{ p with payloads := p.payloads ++ [(numVal tok).1.toUInt16] }]
    else [p]
  | p :: ps => p :: addProfilePayload tok ps

/-- One token of an AAL2 payload list: a further profile, or a payload of the last one. -/
def profileStep (ps : List Profile) (tok : CStr) : List Profile :=
  if ps.length ≤ maxProfiles then
    match findName Transport.aal2 Transport.name tok with
    | some t => ps ++ [{ profile := t }]
    | none => addProfilePayload tok ps
  else ps

/-- `sdp_parse_multiple_profile_payload_types`. -/
def parseMultipleProfilePayloadTypes (transport : Transport) : Parser (List Profile) := do
  return (← LineParser.tokens blanks maxStringLen).foldl profileStep [{ profile := transport }]

end Sdp
