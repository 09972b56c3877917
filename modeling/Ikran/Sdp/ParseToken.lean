import Ikran.Sdp.ParseAttribute

/-!
# Parsing token lines

The parse functions of `sdp_token.c`, one for each token character but `a`. They are `LineParser`s
over the part of the description that they write. What a refused line has written before it was
refused stays written, so that the value comes with the result instead of only on success.
-/

namespace Sdp

open CStr Line

/-- The line was parsed. -/
def parsed {α : Type} (a : α) : Parser (SdpResult × α) := return (.success, a)

/-- Count an invalid parameter and refuse the line. -/
def refuse {α : Type} (a : α) : Parser (SdpResult × α) := do
  LineParser.count
  return (.invalidParameter, a)

/-- `sdp_parse_version`. -/
def parseVersion (d : Desc) : Parser (SdpResult × Desc) := do
  let (v, ok) ← getNextNumTok blanks
  let d := { d with version := v.toUInt16.toUInt32 }
  if ok ∧ d.version = 0 then parsed d else refuse d

/-- `sdp_parse_owner`. -/
def parseOwner (conf : Conf) (d : Desc) : Parser (SdpResult × Desc) := do
  let some ownerName ← getNextStrTok blanks | refuse d
  let d := { d with ownerName }
  let some ownerSessid ← getNextStrTok blanks | refuse d
  let d := { d with ownerSessid }
  if !(numVal ownerSessid).2 then refuse d
  else
    let some ownerVersion ← getNextStrTok blanks | refuse d
    let d := { d with ownerVersion }
    if !(numVal ownerVersion).2 then refuse d
    else
      let some tmp ← getNextStrTok blanks | refuse d
      let d := { d with ownerNetworkType := (findNettype conf tmp).getD .unsupported }
      if d.ownerNetworkType = .unsupported then refuse d
      else
        let some tmp ← getNextStrTok blanks | refuse d
        let d := { d with ownerAddrType := (findAddrtype conf tmp).getD .unsupported }
        if d.ownerAddrType = .unsupported ∧ d.ownerNetworkType ≠ .atm then refuse d
        else
          let some ownerAddr ← getNextStrTok blanks | refuse d
          parsed { d with ownerAddr }

/-- `sdp_parse_sessname`. -/
def parseSessname (d : Desc) : Parser (SdpResult × Desc) := do
  let sessname ← LineParser.rest maxStringLen
  parsed { d with sessname }

/-- A time of `sdp_parse_timespec`, which has to be numeric although it is kept as a string. -/
def parseTime : Parser (Option CStr) := do
  let tok ← getNextStrTok blanks
  return tok.filter fun tok => (numVal tok).2

/-- `sdp_parse_timespec`. -/
def parseTimespec (d : Desc) : Parser (SdpResult × Desc) := do
  let some startTime ← parseTime | refuse d
  let some stopTime ← parseTime | refuse d
  parsed { d with timespecs := d.timespecs ++ [{ startTime, stopTime }] }

/-! ## Lines of any level -/

/-- A part of a description that stands at the session and at every media level. -/
structure LevelField (α : Type) where
  ofDesc : Desc → α
  toDesc : α → Desc → Desc
  ofMedia : Media → α
  toMedia : α → Media → Media

namespace LevelField

variable {α : Type}

def get (fld : LevelField α) (d : Desc) : Level → Option α
  | .session => some (fld.ofDesc d)
  | .media n => (d.findMediaLevel n).map fld.ofMedia

/-- Write the value at a level. -/
def set (fld : LevelField α) (a : α) (d : Desc) : Level → Desc
  | .session => fld.toDesc a d
  | .media n => d.updateMedia n (fld.toMedia a)

/-- Parse a line into the value at a level. -/
def parse (fld : LevelField α) (p : α → Parser (SdpResult × α)) (level : Level) (d : Desc) :
    Parser (SdpResult × Desc) :=
  match fld.get d level with
  | none => return (.failure, d)
  | some a => do
    let (result, a) ← p a
    return (result, fld.set a d level)

end LevelField

/-- `default_conn` and `conn`. -/
def connField : LevelField Conn where
  ofDesc := Desc.defaultConn
  toDesc c d := { d with defaultConn := c }
  ofMedia := Mca.conn
  toMedia c m := { m with conn := c }

/-- `bw`. -/
def bwField : LevelField (List BwData) where
  ofDesc := Desc.bw
  toDesc b d := { d with bw := b }
  ofMedia := Mca.bw
  toMedia b m := { m with bw := b }

/-- `encrypt`. -/
def encryptField : LevelField Encryptspec where
  ofDesc := Desc.encrypt
  toDesc e d := { d with encrypt := e }
  ofMedia := Mca.encrypt
  toMedia e m := { m with encrypt := e }

/-- `sessinfo_found`. -/
def sessinfoField : LevelField Bool where
  ofDesc := Desc.sessinfoFound
  toDesc b d := { d with sessinfoFound := b }
  ofMedia := Mca.sessinfoFound
  toMedia b m := { m with sessinfoFound := b }

/-- The first number of the address is that of a multicast group. -/
def isMulticastAddr (addr : CStr) : Bool :=
  224 ≤ atoi (addr.take 3) && atoi (addr.take 3) ≤ 239

/-- The part behind the slash of a multicast address: the time to live, and a number of addresses,
which is refused whatever it is. -/
def parseMulticast (slash : CStr) (c : Conn) : Parser (SdpResult × Conn) :=
  match token ['/'] maxStringLen slash.tail with
  | (none, _) => refuse c
  | (some tmp, rest) =>
    let c := { c with ttl := UInt16.ofInt (atoi tmp) }
    if 255 < c.ttl then refuse c
    else if peek (findChar ['/'] rest) ≠ nul then
      refuse { c with numOfAddresses := UInt16.ofInt (atoi (findChar ['/'] rest).tail) }
    else parsed c

/-- `sdp_parse_connection`, on a level that has no connection yet. -/
def parseConn (conf : Conf) (c : Conn) : Parser (SdpResult × Conn) := do
  let some tmp ← getNextStrTok blanks | refuse c
  let c := { c with nettype := (findNettype conf tmp).getD .unsupported }
  match ← getNextStrTok blanks with
  | none => if c.nettype = .atm then parsed c else refuse c
  | some tmp =>
    let c := { c with addrtype := (findAddrtype conf tmp).getD .unsupported }
    let some connAddr ← getNextStrTok blanks | refuse c
    let c := { c with connAddr, isMulticast := c.isMulticast || isMulticastAddr connAddr }
    let slash := findChar ['/'] connAddr
    if c.addrtype ≠ .epn ∧ peek slash ≠ nul then
      if c.isMulticast then parseMulticast slash c else refuse c
    else parsed c

/-- `sdp_parse_connection`. A second connection at the same level is refused. -/
def parseConnection (conf : Conf) : Level → Desc → Parser (SdpResult × Desc) :=
  connField.parse fun c =>
    if c.nettype = .invalid then parseConn conf c else return (.invalidTokenOrdering, c)

/-- The value of a `b=` line. Without a colon it is zero. -/
def parseBwVal : Parser (Option UInt32) := do
  if (← LineParser.peek) = ':' then
    LineParser.skip ':'
    getNextNum blanks
  else return some 0

/-- One `b=` line. -/
def parseBw : Parser (Option BwData) := do
  let some tmp ← getNextStrTok [':'] | return none
  let some bwModifier := findName BwModifier.all BwModifier.name tmp | return none
  let some bwVal ← parseBwVal | return none
  return some { bwModifier, bwVal }

/-- `sdp_parse_bandwidth`. -/
def parseBandwidth : Level → Desc → Parser (SdpResult × Desc) :=
  bwField.parse fun bw => do
    match ← parseBw with
    | some b => parsed (bw ++ [b])
    | none => refuse bw

/-- `sdp_parse_encryption`. A type that is not recognised is kept as unsupported, and then needs no
key. -/
def parseEncrypt (e : Encryptspec) : Parser (SdpResult × Encryptspec) := do
  let e := { e with encryptKey := [] }
  let some tmp ← getNextStrTok [':'] | refuse e
  let e := { e with encryptType := (findName EncryptType.all EncryptType.name tmp).getD .unsupported }
  LineParser.skip ':'
  if e.encryptType = .prompt then parsed e
  else
    match ← getNextStrTok blanks with
    | some encryptKey => parsed { e with encryptKey }
    | none => if e.encryptType.valid then refuse e else parsed e

/-- `sdp_parse_encryption`. -/
def parseEncryption : Level → Desc → Parser (SdpResult × Desc) := encryptField.parse parseEncrypt

/-- `sdp_parse_sessinfo`. -/
def parseSessinfo : Level → Desc → Parser (SdpResult × Desc) := sessinfoField.parse fun _ => parsed true

/-! ## Media lines -/

/-- `SDP_MAX_PORT_PARAMS`. -/
def maxPortParams : ℕ := 4

/-- The port parameters of a copied port token, up to the first that is neither a number nor `$`. -/
def portParams : ℕ → CStr → List UInt32
  | 0, _ => []
  | n + 1, s =>
    match chooseTokAt "/ \t" s with
    | (true, s) => chooseParam :: portParams n s
    | (false, s) =>
      match numTokAt "/ \t" s with
      | ((v, true), s) => v :: portParams n s
      | ((_, false), _) => []

namespace Transport

/-- The transports whose port is a plain port number. -/
def hasPlainPort (t : Transport) : Bool :=
  t ∈ [rtpavp, rtpsavp, udp, tcp, udptl, udpsprt, «local»]

/-- The transports whose port may have a number of ports behind it. -/
def hasPortCount (t : Transport) : Bool := t ∈ [rtpavp, rtpsavp, udp, «local»]

end Transport

/-- Check the port parameters against the transport, and store them. -/
def applyPort (conf : Conf) (m : Media) : List UInt32 → Option Media
  | [a] =>
    if m.transport.hasPlainPort then
      if conf.allowChoosePortnum ∨ a ≠ chooseParam then
        some { m with port := a, portFormat := .numOnly }
      else none
    else if m.transport = .aal1avp then
      if a ≠ chooseParam then some { m with vcci := a, portFormat := .vcci } else none
    else if m.transport.isAal2 then some { m with port := a, portFormat := .numOnly }
    else none
  | [a, b] =>
    if m.transport.hasPortCount then
      if a ≠ chooseParam ∧ b ≠ chooseParam then
        some { m with port := a, numPorts := b, portFormat := .numCount }
      else none
    else if m.transport = .udptl then
      if a ≠ chooseParam ∧ b = 1 then
        some { m with port := a, numPorts := 1, portFormat := .numCount }
      else none
    else if m.transport = .ces10 then
      if a ≠ chooseParam ∧ b ≠ chooseParam then
        some { m with vpi := a, vci := b, portFormat := .vpiVci }
      else none
    else if m.transport.isAal2 then
      if (a ≠ chooseParam ∧ b ≠ chooseParam) ∨ (a = chooseParam ∧ b = chooseParam) then
        some { m with vcci := a, cid := b, portFormat := .vcciCid }
      else none
    else none
  | [a, b, c] =>
    if m.transport = .aal1avp ∧ a ≠ chooseParam ∧ b ≠ chooseParam ∧ c ≠ chooseParam then
      some { m with port := a, vpi := b, vci := c, portFormat := .numVpiVci }
    else none
  | [a, b, c, e] =>
    if m.transport.isAal2 ∧ a ≠ chooseParam ∧ b ≠ chooseParam ∧ c ≠ chooseParam ∧
        e ≠ chooseParam then
      some { m with port := a, vpi := b, vci := c, cid := e, portFormat := .numVpiVciCid }
    else none
  | _ => none

/-- The line of a medium. The port is processed only when the transport is known. -/
def parseMca (conf : Conf) (stale : CStr) : Parser (Option Media) := do
  let some tmp ← getNextStrTok blanks | return none
  let media := (findName MediaType.all MediaType.name tmp).getD .unsupported
  let some port ← getNextStrTok blanks | return none
  let num := portParams maxPortParams (port ++ nul :: stale)
  let some tmp ← getNextStrTok blanks | return none
  let transport := (findName Transport.all Transport.name tmp).getD .unsupported
  let some m := applyPort conf { media, transport } num | return none
  if transport.isAal2 then
    return some { m with profiles := ← parseMultipleProfilePayloadTypes transport }
  else
    return some { m with payloads := ← parsePayloadTypes media transport }

/-- `sdp_parse_media`. -/
def parseMedia (conf : Conf) (d : Desc) : Parser (SdpResult × Desc) := do
  match ← parseMca conf (conf.stackBytes d.mcaCount.toNat) with
  | some m => parsed { d with mca := d.mca ++ [m], mcaCount := d.mcaCount + 1 }
  | none => refuse d

/-! ## The token table -/

/-- `sdp_token_e`. -/
inductive Token
  | v | o | s | i | u | e | p | c | b | t | r | z | k | a | m
  deriving DecidableEq

namespace Token

/-- `sdp_token[]`. -/
def all : List Token := [v, o, s, i, u, e, p, c, b, t, r, z, k, a, m]

/-- The name column of `sdp_token[]`. -/
def name : Token → CStr
  | v => "v="
  | o => "o="
  | s => "s="
  | i => "i="
  | u => "u="
  | e => "e="
  | p => "p="
  | c => "c="
  | b => "b="
  | t => "t="
  | r => "r="
  | z => "z="
  | k => "k="
  | a => "a="
  | m => "m="

/-- The position in the table. -/
def ord (tok : Token) : ℕ := all.idxOf tok

/-- The tokens that may stand behind a media line. -/
def atMedia : List Token := [i, c, b, k, a, m]

end Token

/-- The lines of which another copy is counted as an error of the token order. -/
def isRepeated (tok : Token) (level : Level) (d : Desc) : Bool :=
  match tok with
  | .o => d.ownerName != []
  | .s => d.sessname != []
  | .i => sessinfoField.get d level == some true
  | .u => d.uriFound
  | .c => ((connField.get d level).map Conn.nettype).any (· != .invalid)
  | _ => false

/-- The parse functions of `sdp_token[]` that stay on their line. Those of `e=`, `p=`, `r=` and `z=`
look at nothing. -/
def tokenLine (conf : Conf) (tok : Token) (level : Level) (d : Desc) : Option (Parser (SdpResult × Desc)) :=
  match tok with
  | .v => some (parseVersion d)
  | .o => some (parseOwner conf d)
  | .s => some (parseSessname d)
  | .i => some (parseSessinfo level d)
  | .u => some (parsed { d with uriFound := true })
  | .e | .p | .r | .z => some (parsed d)
  | .c => some (parseConnection conf level d)
  | .b => some (parseBandwidth level d)
  | .t => some (parseTimespec d)
  | .k => some (parseEncryption level d)
  | .m => some (parseMedia conf d)
  | .a => none

/-- The parse function of a token, on the text behind it. -/
def parseToken (conf : Conf) (tok : Token) (level : Level) (s : CStr) (d : Desc) (st : Stats) :
    SdpResult × Desc × Stats :=
  match tokenLine conf tok level d with
  | none =>
    let (result, d, n) := parseAttribute conf level s d st.numInvalidParam
    (result, d, { st with numInvalidParam := n })
  | some p =>
    let order := st.numInvalidTokenOrder + if isRepeated tok level d then 1 else 0
    match outcomeOf p s st.numInvalidParam with
    | (.ok (result, d), n) =>
      (result, d, { st with numInvalidParam := n, numInvalidTokenOrder := order })
    | (.error result, n) =>
      (result, d, { st with numInvalidParam := n, numInvalidTokenOrder := order })

end Sdp
