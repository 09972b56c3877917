import Ikran.Sdp.Types

/-!
# Keys of a media stream

The handling of the keys of one media stream in `gsm_sdp_crypto.c`, with what `gsm_sdp.c` does around it.
The keys of a stream are exchanged in its media line of the two descriptions. What we offer is kept in
`local_crypto`, whose tag is valid while the offer waits for its answer. What is agreed on is kept in
`negotiated_crypto`.

Everything else that is negotiated for the line is an argument, with the direction that comes out of it.
The length of a key is the length of its list. The local line is always inserted. A line whose port is zero
is not in use, and counts as none.
-/

namespace Gsm

namespace Srtp

open Sdp (CryptoSuite DirectionAttr SrtpContext Transport invalidValue)

/-! ## Keys -/

/-- The algorithms (`vcm_crypto_algorithmID`). -/
inductive AlgorithmId
  | noEncryption
  | aes128Counter
  | invalid
  deriving DecidableEq

/-- A key with its salt (`vcm_crypto_key_t`). -/
structure CryptoKey where
  key : List UInt8 := []
  salt : List UInt8 := []
  deriving DecidableEq

/-- `VCM_SRTP_MAX_KEY_SIZE`. -/
def maxKeySize : ℕ := 16

/-- `VCM_SRTP_MAX_SALT_SIZE`. -/
def maxSaltSize : ℕ := 14

/-- `VCM_AES_128_COUNTER_KEY_SIZE`. -/
def aes128CounterKeySize : ℕ := 16

/-- `VCM_AES_128_COUNTER_SALT_SIZE`. -/
def aes128CounterSaltSize : ℕ := 14

/-- The random bytes that one generation of a key takes. -/
abbrev Random := Vector UInt8 30

/-- A key is made of random bytes (`gsmsdp_generate_key`). -/
def gsmsdpGenerateKey (algorithmId : AlgorithmId) (random : Random) : CryptoKey :=
  let keyLen := if algorithmId = .aes128Counter then aes128CounterKeySize else maxKeySize
  let saltLen := if algorithmId = .aes128Counter then aes128CounterSaltSize else maxSaltSize
  { key := random.toList.take keyLen, salt := (random.toList.drop keyLen).take saltLen }

def gsmsdpIsSupportedCryptoSuite : CryptoSuite → Bool
  | .aesCm128HmacSha1_32 => true
  | _ => false

def gsmsdpCryptoSuiteToAlgorithmId : CryptoSuite → AlgorithmId
  | .aesCm128HmacSha1_32 => .aes128Counter
  | _ => .invalid

def gsmsdpAlgorithmIdToCryptoSuite : AlgorithmId → CryptoSuite
  | .aes128Counter => .aesCm128HmacSha1_32
  | _ => .unknown

def gsmsdpIsValidKeySize (suite : CryptoSuite) (size : UInt8) : Bool :=
  size.toNat ≤ maxKeySize &&
    match suite with
    | .aesCm128HmacSha1_32 => size.toNat = aes128CounterKeySize
    | _ => false

def gsmsdpIsValidSaltSize (suite : CryptoSuite) (size : UInt8) : Bool :=
  size.toNat ≤ maxSaltSize &&
    match suite with
    | .aesCm128HmacSha1_32 => size.toNat = aes128CounterSaltSize
    | _ => false

/-- The session parameters are none or a window size of two digits, from 64 on
(`gsmsdp_is_supported_session_parm`). -/
def gsmsdpIsSupportedSessionParm : Option CStr → Bool
  | none => true
  | some parms =>
    -- the text is only compared for being different from the name alone
    parms ≠ "WSH=".toList && parms.length = 6 && 64 ≤ CStr.atoi (parms.drop 4)

/-- What we offer (`fsmdef_crypto_param_t`). -/
structure CryptoParam where
  tag : UInt32 := invalidValue
  algorithmId : AlgorithmId := .noEncryption
  key : CryptoKey := {}

/-- What is agreed on (`fsmdef_negotiated_crypto_t`). -/
structure NegotiatedCrypto where
  tag : UInt32 := invalidValue
  algorithmId : AlgorithmId := .noEncryption
  txKey : CryptoKey := {}
  rxKey : CryptoKey := {}
  /-- `FSMDEF_CRYPTO_TX_CHANGE`. -/
  txChange : Bool := false
  /-- `FSMDEF_CRYPTO_RX_CHANGE`. -/
  rxChange : Bool := false

/-- The keys that a media entry holds. -/
structure MediaCrypto where
  localCrypto : CryptoParam := {}
  negotiatedCrypto : NegotiatedCrypto := {}

/-- An address (`cpr_ip_addr_t`). -/
inductive IpAddr
  | invalid
  | ipv4 (address : UInt32)
  | ipv6 (address : Vector UInt8 16)
  deriving DecidableEq

/-- Two addresses are taken to be the same (`util_compare_ip`). -/
def utilCompareIp : IpAddr → IpAddr → Bool
  | .ipv4 a, .ipv4 b => a = b
  -- the result of the comparison of the bytes, which is zero for the same bytes
  | .ipv6 a, .ipv6 b => a ≠ b
  | _, _ => false

/-- A media entry (`fsmdef_media_t`): what the handling of the keys reads. -/
structure Media extends MediaCrypto where
  transport : Transport := .invalid
  direction : DirectionAttr := .inactive
  destAddr : IpAddr := .invalid
  /-- The address before (`previous_sdp.dest_addr`). -/
  previousDestAddr : IpAddr := .invalid
  /-- `FSM_MEDIA_F_SUPPORT_SECURITY`. -/
  supportSecurity : Bool := false

/-- A new entry of a record (`gsmsdp_init_media`), which keeps the keys that were in the record. -/
def gsmsdpInitMedia (record : MediaCrypto) : Media :=
  { record with }

/-! ## Media lines -/

/-- A crypto attribute of the local description. -/
structure CryptoAttr where
  tag : UInt32
  suite : CryptoSuite
  key : CryptoKey

/-- The media line of the stream in the local description. -/
structure LocalLine where
  transport : Transport := .invalid
  crypto : List CryptoAttr := []

/-- The media line of the stream in the description of the other side, with how it is taken. -/
structure RemoteLine where
  transport : Transport
  /-- The attributes of the old version (`SDP_ATTR_SRTP_CONTEXT`), by their instance numbers. -/
  srtpContexts : List SrtpContext := []
  /-- The crypto attributes (`SDP_ATTR_SDESCRIPTIONS`), by their instance numbers. -/
  sdescriptions : List SrtpContext := []
  addr : IpAddr
  direction : DirectionAttr
  localDirection : DirectionAttr
  multicast : Bool := false
  accepted : Bool := true

/-- The key and the salt of a crypto attribute. -/
def keyOf (c : SrtpContext) : CryptoKey :=
  { key := c.masterKey.take c.masterKeySizeBytes.toNat
    salt := c.masterSalt.take c.masterSaltSizeBytes.toNat }

namespace RemoteLine

variable (r : RemoteLine) (inst : ℕ)

/-- The attribute that the fields of an instance are read from: the getters look for the old version
first. -/
def context : Option SrtpContext :=
  r.srtpContexts[inst]? <|> r.sdescriptions[inst]?

/-- `sdp_attr_get_sdescriptions_tag`, which looks for the new version only. -/
def tag : UInt32 :=
  (r.sdescriptions[inst]?).elim invalidValue SrtpContext.tag

/-- `sdp_attr_get_sdescriptions_crypto_suite`. -/
def suite : CryptoSuite :=
  (r.context inst).elim .unknown SrtpContext.suite

/-- The key of an instance, when it is valid (`gsmsdp_get_key_from_sdp`). -/
def gsmsdpGetKeyFromSdp : Option CryptoKey :=
  match r.context inst with
  | none => none
  | some c =>
    if gsmsdpIsValidKeySize c.suite c.masterKeySizeBytes ∧
        gsmsdpIsValidSaltSize c.suite c.masterSaltSizeBytes then
      some (keyOf c)
    else none

def gsmsdpCheckCommonCryptoParam : Bool :=
  (r.gsmsdpGetKeyFromSdp inst).isSome &&
    match r.context inst with
    | none => false
    | some c => c.mkiSizeBytes = 0 && gsmsdpIsSupportedSessionParm c.sessionParameters

/-- The instance of an offer can be taken. -/
def acceptable : Bool :=
  gsmsdpIsSupportedCryptoSuite (r.suite inst) && r.tag inst ≠ invalidValue &&
    r.gsmsdpCheckCommonCryptoParam inst

/-- The first crypto attribute of an offer that can be taken (`gsmsdp_select_offer_crypto`). -/
def gsmsdpSelectOfferCrypto : Option ℕ :=
  (List.range r.sdescriptions.length).find? r.acceptable

end RemoteLine

/-! ## Negotiation -/

structure Config where
  /-- The signalling is encrypted (`sip_regmgr_get_sec_level`). -/
  encrypted : Bool
  /-- `sip_regmgr_srtp_fallback_enabled`. -/
  srtpFallback : Bool
  /-- The line is registered with a call manager (`REG_MODE_CCM`). -/
  ccm : Bool

namespace Media

variable (cfg : Config) (m : Media) (r : RemoteLine)

/-- We have offered keys and wait for the answer (`gsmsdp_local_offer_srtp`). -/
def gsmsdpLocalOfferSrtp : Bool :=
  m.localCrypto.tag ≠ invalidValue

def gsmsdpClearLocalOfferSrtp : Media :=
  { m with localCrypto.tag := invalidValue }

def gsmsdpCheckAnswerCryptoParam : Option ℕ :=
  if r.sdescriptions.length = 1 then
    let offeredTag := if m.gsmsdpLocalOfferSrtp then m.localCrypto.tag else m.negotiatedCrypto.tag
    let algorithmId :=
      if m.gsmsdpLocalOfferSrtp then m.localCrypto.algorithmId else m.negotiatedCrypto.algorithmId
    if r.tag 0 = offeredTag ∧ gsmsdpCryptoSuiteToAlgorithmId (r.suite 0) = algorithmId ∧
        r.gsmsdpCheckCommonCryptoParam 0 then
      some 0
    else none
  else none

/-- The transport of an offer, with the instance of its crypto attribute
(`gsmsdp_negotiate_offer_crypto`). -/
def gsmsdpNegotiateOfferCrypto : Transport × ℕ :=
  match r.transport with
  | .rtpavp => (.rtpavp, 0)
  | .rtpsavp =>
    match if cfg.encrypted ∧ m.supportSecurity then r.gsmsdpSelectOfferCrypto else none with
    | some inst => (.rtpsavp, inst)
    | none => (if cfg.srtpFallback then .rtpavp else .invalid, 0)
  | _ => (.invalid, 0)

/-- The transport of an answer, with the instance of its crypto attribute
(`gsmsdp_negotiate_answer_crypto`). -/
def gsmsdpNegotiateAnswerCrypto (localTransport : Transport) : Transport × ℕ :=
  match r.transport with
  | .rtpavp => (if localTransport ≠ .rtpsavp ∨ cfg.srtpFallback then .rtpavp else .invalid, 0)
  | .rtpsavp =>
    match if localTransport = .rtpsavp then m.gsmsdpCheckAnswerCryptoParam r else none with
    | some inst => (.rtpsavp, inst)
    | none => (.invalid, 0)
  | _ => (.invalid, 0)

def gsmsdpNegotiateMediaTransport (offer : Bool) (localTransport : Transport) : Transport × ℕ :=
  if offer then m.gsmsdpNegotiateOfferCrypto cfg r
  else m.gsmsdpNegotiateAnswerCrypto cfg r localTransport

/-- What is agreed on is kept (`gsmsdp_update_negotiated_transport`). -/
def gsmsdpUpdateNegotiatedTransport (inst : ℕ) (transport : Transport) : Media :=
  let n := m.negotiatedCrypto
  let changed := m.transport ≠ .invalid ∧ transport ≠ m.transport
  if transport ≠ .rtpsavp then
    -- the tag of our offer stays valid
    { m with
      transport
      negotiatedCrypto.txChange := changed
      negotiatedCrypto.rxChange := changed }
  else
    let algorithmId := gsmsdpCryptoSuiteToAlgorithmId (r.suite inst)
    let rxKey := (r.gsmsdpGetKeyFromSdp inst).getD {}
    { m with
      transport
      negotiatedCrypto :=
        { tag := r.tag inst
          algorithmId
          txKey := n.txKey
          rxKey
          txChange := changed ∨ algorithmId ≠ n.algorithmId
          rxChange := changed ∨ algorithmId ≠ n.algorithmId ∨ rxKey ≠ n.rxKey } }

/-- A key is generated and kept for sending. -/
def generateTxKey (random : Random) : Media :=
  { m with
    negotiatedCrypto.txKey := gsmsdpGenerateKey m.negotiatedCrypto.algorithmId random
    negotiatedCrypto.txChange := true }

/-- The key that we have offered is kept for sending. -/
def useOfferedKey : Media :=
  { m with negotiatedCrypto.txKey := m.localCrypto.key }

/-- The key for sending is chosen, with the number of keys that are generated
(`gsmsdp_update_crypto_transmit_key`). -/
def gsmsdpUpdateCryptoTransmitKey (random : Random) (offer initialOffer : Bool)
    (direction : DirectionAttr) : Media × ℕ :=
  if m.transport ≠ .rtpsavp then (m, 0)
  else if initialOffer then ((m.generateTxKey random).gsmsdpClearLocalOfferSrtp, 1)
  else if offer then
    if utilCompareIp m.previousDestAddr m.destAddr = false ∧ m.destAddr ≠ .invalid then
      if m.gsmsdpLocalOfferSrtp then (m.useOfferedKey.gsmsdpClearLocalOfferSrtp, 0)
      else ((m.generateTxKey random).gsmsdpClearLocalOfferSrtp, 1)
    else if m.direction = .inactive ∧ direction ≠ .inactive then
      -- the key that we have offered is not looked at
      if m.gsmsdpLocalOfferSrtp then (m.gsmsdpClearLocalOfferSrtp, 0)
      else ((m.generateTxKey random).gsmsdpClearLocalOfferSrtp, 1)
    else if m.negotiatedCrypto.txKey.key = [] then
      if m.gsmsdpLocalOfferSrtp then (m.useOfferedKey.gsmsdpClearLocalOfferSrtp, 0)
      else ((m.generateTxKey random).gsmsdpClearLocalOfferSrtp, 1)
    else (m.gsmsdpClearLocalOfferSrtp, 0)
  else
    let changed := m.localCrypto.key ≠ m.negotiatedCrypto.txKey
    let txChange := changed ∨ m.negotiatedCrypto.txChange
    ({ m.useOfferedKey with negotiatedCrypto.txChange := txChange }.gsmsdpClearLocalOfferSrtp, 0)

def gsmsdpInitCryptoContext : Media :=
  { m with toMediaCrypto := {} }

/-- The entry is prepared for a full offer (`gsmsdp_init_sdp_media_transport`). -/
def gsmsdpInitSdpMediaTransport : Media :=
  { m.gsmsdpInitCryptoContext with
    transport := if cfg.encrypted ∧ m.supportSecurity then .rtpsavp else .rtpavp }

/-- The entry is prepared for hold or resume (`gsmsdp_reset_sdp_media_transport`). -/
def gsmsdpResetSdpMediaTransport (hold : Bool) : Media :=
  if hold then m else if cfg.ccm then m.gsmsdpInitSdpMediaTransport cfg else m

def gsmsdpAddSingleCryptoAttr (tag : UInt32) (algorithmId : AlgorithmId) (key : CryptoKey) :
    CryptoAttr :=
  { tag, suite := gsmsdpAlgorithmIdToCryptoSuite algorithmId, key }

/-- A key is generated and offered (`gsmsdp_add_all_crypto_lines`). -/
def gsmsdpAddAllCryptoLines (random : Random) : Media × CryptoAttr :=
  let key := gsmsdpGenerateKey .aes128Counter random
  ({ m with localCrypto := { tag := 1, algorithmId := .aes128Counter, key } },
    gsmsdpAddSingleCryptoAttr 1 .aes128Counter key)

/-- The transport and the crypto attributes of a line that has just been inserted, with the number of
keys that are generated (`gsmsdp_update_local_sdp_media_transport`). The keys that are agreed on are
offered again, also with all formats. -/
def gsmsdpUpdateLocalSdpMediaTransport (random : Random) : Media × LocalLine × ℕ :=
  if m.transport ≠ .rtpsavp then (m, { transport := m.transport }, 0)
  else if m.negotiatedCrypto.tag = invalidValue then
    let (m, attr) := m.gsmsdpAddAllCryptoLines random
    (m, { transport := m.transport, crypto := [attr] }, 1)
  else
    let attr := gsmsdpAddSingleCryptoAttr m.negotiatedCrypto.tag m.negotiatedCrypto.algorithmId
      m.negotiatedCrypto.txKey
    (m, { transport := m.transport, crypto := [attr] }, 0)

/-- Receiving, or sending, can start (`gsmsdp_is_crypto_ready`). -/
def gsmsdpIsCryptoReady (rx : Bool) : Bool :=
  m.transport = .rtpavp ||
    (if rx then m.negotiatedCrypto.rxKey.key ≠ [] else m.negotiatedCrypto.txKey.key ≠ [])

/-- The key that is used for sending (`FSM_NEGOTIATED_CRYPTO_TX_KEY`), once sending can start. -/
def usedKey : Option CryptoKey :=
  if m.transport = .rtpsavp ∧ m.gsmsdpIsCryptoReady false then some m.negotiatedCrypto.txKey
  else none

end Media

/-! ## Calls -/

structure Call where
  media : Option Media := none
  localLine : Option LocalLine := none
  sent : Option LocalLine := none
  selected : Option SrtpContext := none
  completed : Bool := false
  drawn : ℕ := 0

/-- What happens to the stream. -/
inductive Op
  /-- The stream is offered in a new line, as in the first description of a call of ours, also when it
  answers a call without a description. -/
  | offer (supportSecurity : Bool) (direction : DirectionAttr)
  | hold (direction : DirectionAttr)
  | resume (direction : DirectionAttr)
  | reoffer
  /-- The other side offers. The capability of a new entry may support security. -/
  | remoteOffer (r : RemoteLine) (supportSecurity : Bool)
  | remoteAnswer (r : RemoteLine)
  | remove

namespace Call

variable (cfg : Config) (random : ℕ → Random) (record : MediaCrypto) (s : Call)

/-- The line is built and sent as an offer. -/
def offerLine (m : Media) (direction : DirectionAttr) : Call :=
  let (m, line, n) := m.gsmsdpUpdateLocalSdpMediaTransport (random s.drawn)
  { s with
    media := some { m with direction }
    localLine := some line
    sent := some line
    completed := false
    drawn := s.drawn + n }

/-- The stream is offered in a new line (`gsmsdp_add_media_line`). -/
def gsmsdpAddMediaLine (supportSecurity : Bool) (direction : DirectionAttr) : Call :=
  match s.media with
  | some _ => s
  | none =>
    s.offerLine random
      (({ gsmsdpInitMedia record with supportSecurity }).gsmsdpInitSdpMediaTransport cfg) direction

/-- The line is offered again with all formats (`gsmsdp_reset_local_sdp_media`). -/
def gsmsdpResetLocalSdpMedia (hold : Bool) (direction : DirectionAttr) : Call :=
  match s.media with
  | none => { s with sent := s.localLine, completed := false }
  | some m => s.offerLine random (m.gsmsdpResetSdpMediaTransport cfg hold) direction

/-- The line is rejected and its entry removed. Our answer to an offer says so. -/
def rejectLine (offer : Bool) : Call :=
  { s with
    media := none
    localLine := none
    sent := if offer then none else s.sent
    completed := true }

/-- The key for sending is chosen, and the line is built when the other side has offered or the address is a
multicast address (`gsmsdp_update_local_sdp`, `gsmsdp_update_local_sdp_for_multicast`). -/
def gsmsdpUpdateLocalSdp (r : RemoteLine) (offer initialOffer : Bool) (m : Media) : Call :=
  let (m, n) := m.gsmsdpUpdateCryptoTransmitKey (random s.drawn) offer initialOffer r.direction
  if offer ∨ r.multicast then
    let (m, line, n') := m.gsmsdpUpdateLocalSdpMediaTransport (random (s.drawn + n))
    { s with
      media := some { m with direction := r.localDirection }
      localLine := some line
      -- the line is built for a multicast answer too, but not sent
      sent := if offer then some line else s.sent
      completed := true
      drawn := s.drawn + n + n' }
  else
    { s with
      media := some { m with direction := r.localDirection }
      completed := true
      drawn := s.drawn + n }

/-- A line of the other side is taken for an entry (`gsmsdp_negotiate_media_lines`). -/
def negotiateLine (r : RemoteLine) (offer newMedia : Bool) (m : Media) : Call :=
  let m := { m with previousDestAddr := m.destAddr, destAddr := r.addr }
  let localTransport := s.localLine.elim .invalid LocalLine.transport
  let (transport, inst) := m.gsmsdpNegotiateMediaTransport cfg r offer localTransport
  if transport = .invalid ∨ r.accepted = false then s.rejectLine offer
  else
    { s with selected := r.sdescriptions[inst]? }.gsmsdpUpdateLocalSdp random r offer newMedia
      (m.gsmsdpUpdateNegotiatedTransport r inst transport)

/-- The other side offers (`gsmsdp_negotiate_offer_sdp`), and we answer. A line that is not accepted
gets no entry. -/
def gsmsdpNegotiateOfferSdp (r : RemoteLine) (supportSecurity : Bool) : Call :=
  match s.media with
  | some m => s.negotiateLine cfg random r true false m
  | none => s.negotiateLine cfg random r true true { gsmsdpInitMedia record with supportSecurity }

/-- The other side answers (`gsmsdp_negotiate_answer_sdp`). An answer adds no entry. -/
def gsmsdpNegotiateAnswerSdp (r : RemoteLine) : Call :=
  match s.media with
  | some m => s.negotiateLine cfg random r false false m
  | none => s.rejectLine false

/-- Something happens to the stream. A new entry takes the record. -/
def step : Op → Call
  | .offer supportSecurity direction => s.gsmsdpAddMediaLine cfg random record supportSecurity direction
  | .hold direction =>
    -- the descriptions are freed when the call is held (`fsm_hold_local`)
    { s.gsmsdpResetLocalSdpMedia cfg random true direction with localLine := none }
  | .resume direction => s.gsmsdpResetLocalSdpMedia cfg random false direction
  | .reoffer => { s with sent := s.localLine, completed := false }
  | .remoteOffer r supportSecurity => s.gsmsdpNegotiateOfferSdp cfg random record r supportSecurity
  | .remoteAnswer r => s.gsmsdpNegotiateAnswerSdp cfg random r
  | .remove => { s with media := none, localLine := none }

/-- What has become of the stream. The k-th of the operations takes the k-th record for a new entry. -/
def run (records : ℕ → MediaCrypto) : Call → List Op → Call
  | s, [] => s
  | s, op :: ops => run (fun k => records (k + 1)) (s.step cfg random (records 0) op) ops

end Call

end Srtp

end Gsm
