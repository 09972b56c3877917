import Ikran.Sdp.BuildAttr
import Ikran.Sdp.Parse

/-!
# Building a description

`sdp_build` and the build functions of the token lines. The functions that compute the room left in
the buffer thread the output state; the others are given by the texts they print.
-/

namespace Sdp

open CStr BoundedPrint

/-! ## Token lines -/

/-- A line that is missing is an error when the application requires it. -/
def missing (reqd : Bool) (texts : List CStr) : Built :=
  if reqd then { texts, result := .invalidParameter, errors := 1 } else { texts }

/-- `sdp_build_version`. -/
def buildVersion (conf : Conf) (d : Desc) : Built :=
  if d.version = invalidValue then missing conf.versionReqd []
  else { texts := [fmt ["v=", decimal d.version.toUInt16.toNat, crlf]] }

/-- `sdp_build_owner`. -/
def buildOwner (conf : Conf) (d : Desc) : Built :=
  let start : List CStr := ["o=", d.ownerName, " ", d.ownerSessid, " ", d.ownerVersion, " ",
    d.ownerNetworkType.name]
  if d.ownerName = [] ∨ !d.ownerNetworkType.valid ∨ !d.ownerAddrType.valid ∨ d.ownerAddr = [] then
    missing conf.ownerReqd
      (if d.ownerNetworkType = .atm ∧ d.ownerAddrType = .invalid then
        [fmt (start ++ [" - -\r\n".toList])] else [])
  else
    { texts := [fmt (start ++ [[' '], d.ownerAddrType.name, [' '], d.ownerAddr, crlf])] }

/-- `sdp_build_sessname`. -/
def buildSessname (conf : Conf) (d : Desc) : Built :=
  if d.sessname = [] then missing conf.sessionNameReqd []
  else { texts := [fmt ["s=", d.sessname, crlf]] }

/-- `sdp_build_timespec`. Only the first `t=` line is printed. -/
def buildTimespec (conf : Conf) (d : Desc) : Built :=
  match d.timespecs with
  | [] => missing conf.timespecReqd []
  | t :: _ => { texts := [fmt ["t=", t.startTime, " ", t.stopTime, crlf]] }

/-- The line of a connection. In ROAP proxy mode `roap` is the address that is offered instead of
the one of the description. -/
def connTexts (roap : Option CStr) (c : Conn) : List CStr :=
  if c.nettype = .atm ∧ c.addrtype = .invalid then [fmt ["c=", c.nettype.name, crlf]]
  else if !c.nettype.valid ∨ !c.addrtype.valid ∨ c.connAddr = [] then []
  else if c.isMulticast then
    if 1 < c.numOfAddresses then
      [fmt ["c=", c.nettype.name, " ", c.addrtype.name, " ", c.connAddr, "/", decimal c.ttl.toNat,
        "/", decimal c.numOfAddresses.toNat, crlf]]
    else
      [fmt ["c=", c.nettype.name, " ", c.addrtype.name, " ", c.connAddr, "/", decimal c.ttl.toNat,
        crlf]]
  else
    [fmt ["c=", c.nettype.name, " ", c.addrtype.name, " ", roap.getD c.connAddr, crlf]]

/-- The lines of a bandwidth list. -/
def bwTexts (bw : List BwData) : List CStr :=
  bw.map fun b => fmt ["b=", b.bwModifier.name, ":", decimalInt b.bwVal.toInt32.toInt, crlf]

/-- The line of an encryption specification. -/
def encryptTexts (e : Encryptspec) : List CStr :=
  if !e.encryptType.valid ∨ (e.encryptType ≠ .prompt ∧ e.encryptKey = []) then []
  else
    [fmt ["k=", e.encryptType.name],
      if e.encryptType = .prompt then crlf else fmt [":", e.encryptKey, crlf]]

/-- Build what stands at a level. -/
def atLevel {α : Type} (fld : LevelField α) (d : Desc) (level : Level) (texts : α → List CStr) :
    Built :=
  match fld.get d level with
  | none => { result := .failure }
  | some a => { texts := texts a }

/-- The texts of a number of ports, and the like: `%u/%u `, of the low 16 bits. -/
def portTexts (nums : List UInt32) : CStr :=
  List.intercalate ['/'] (nums.map fun v => decimal v.toUInt16.toNat) ++ [' ']

/-- The port of a media line; `none` when only one of two choose parameters is set. -/
def mediaPort (m : Media) : Option (List CStr) :=
  match m.portFormat with
  | .numOnly => some [if m.port = chooseParam then "$ " else portTexts [m.port]]
  | .numCount => some [portTexts [m.port, m.numPorts]]
  | .vpiVci => some [portTexts [m.vpi, m.vci]]
  | .vcci => some [portTexts [m.vcci]]
  | .numVpiVci => some [portTexts [m.port, m.vpi, m.vci]]
  | .vcciCid =>
    if m.vcci = chooseParam ∧ m.cid = chooseParam then some ["$/$ "]
    else if m.vcci = chooseParam ∨ m.cid = chooseParam then none
    else some [portTexts [m.vcci, m.cid]]
  | .numVpiVciCid => some [portTexts [m.port, m.vpi, m.vci, m.cid]]
  | .invalid => some []

/-- The profiles of an AAL2 line, up to the line feed that ends it. -/
def profileTexts (profiles : List Profile) : List CStr :=
  (profiles.flatMap fun p =>
    p.profile.name :: p.payloads.map (fun v => fmt [" ", decimal v.toNat]) ++ [[' ']]) ++ [['\n']]

/-- The transport and the payloads of a line, and its end. -/
def payloadTexts (transport : Transport) (payloads : List Payload) : List CStr :=
  transport.name ::
    payloads.map (fun p => match p.indicator with
      | .enum => fmt [" ", getPayloadName p.type]
      | .numeric => fmt [" ", decimal p.type.toNat]) ++ [crlf]

/-- What stands behind the port of a media line, or behind the media type of a capability. -/
def formatTexts {α : Type} (m : Mca α) : List CStr :=
  if m.transport.isAal2 then profileTexts m.profiles else payloadTexts m.transport m.payloads

/-- `sdp_build_media` on a media line. -/
def buildMca (m : Media) : Built :=
  if !m.media.valid ∨ m.portFormat = .invalid ∨ !m.transport.valid then
    { result := .invalidParameter, errors := 1 }
  else
    let start : CStr := fmt ["m=", m.media.name, " "]
    match mediaPort m with
    | none => { texts := [start], result := .invalidParameter, errors := 1 }
    | some port => { texts := start :: port ++ formatTexts m }

/-- `sdp_build_media`. -/
def buildMedia (d : Desc) : Level → Built
  | .session => { result := .failure }
  | .media n =>
    match d.findMediaLevel n with
    | none => { result := .failure }
    | some m => buildMca m

/-- The build functions of `sdp_token[]`, but that of `a=`. Those of `i=`, `u=`, `e=`, `p=`, `r=` and
`z=` print nothing. -/
def buildLine (conf : Conf) (roap : Option CStr) (d : Desc) (tok : Token) (level : Level) : Built :=
  match tok with
  | .v => buildVersion conf d
  | .o => buildOwner conf d
  | .s => buildSessname conf d
  | .c => atLevel connField d level (connTexts roap)
  | .b => atLevel bwField d level bwTexts
  | .t => buildTimespec conf d
  | .k => atLevel encryptField d level encryptTexts
  | .m => buildMedia d level
  | .i | .u | .e | .p | .r | .z | .a => {}

/-! ## Attribute lines -/

/-- What the loop over the attributes of a level keeps: the output, `cur_cap_num`, and the number of
invalid parameters it has counted. -/
structure AttrState where
  out : Out
  curCapNum : UInt16 := 1
  errors : UInt32 := 0

/-- The capability can be built. -/
def Mca.validCap (cap : Cap) : Bool := cap.media.valid && cap.transport.valid

def capTexts (t : CapType) (capNum : UInt16) (cap : Cap) : List CStr :=
  [fmt ["a=", (AttrType.cap t).name, ": ", decimal capNum.toNat, " "], fmt [cap.media.name, " "]] ++
    formatTexts cap

def cparStart (t : CapType) : CStr := fmt ["a=", (AttrType.cpar t).name, ": "]

/-- `sdp_build_attr_cpar`, up to the end `endp`. -/
def buildCpar (t : CapType) (endp : ℕ) (attrs : List Attr) (o : Out) : Out :=
  attrs.foldl
    (fun o a =>
      let o := o.snprintf endp (cparStart t)
      o.print (o.cur + room16 endp o.cur) (buildAttr a).texts) o

/-- `sdp_build_attr_cap` with the room `len`. The parameters are given the room there was before the
capability line. -/
def buildCap (t : CapType) (cap : Cap) (len : ℕ) (σ : AttrState) : AttrState :=
  if !cap.validCap then { σ with errors := σ.errors + 1 }
  else
    let o := σ.out.print (σ.out.cur + len) (capTexts t σ.curCapNum cap)
    if cap.transport.isAal2 then { σ with out := o }
    else
      { σ with
        out := buildCpar t (o.cur + len) cap.attrs o
        curCapNum := σ.curCapNum + UInt16.ofNat cap.payloads.length }

/-- The build function of an attribute with the room `len`. -/
def buildLevelAttr (len : ℕ) (σ : AttrState) : LevelAttr → AttrState
  | .plain a =>
    { σ with
      out := σ.out.print (σ.out.cur + len) (buildAttr a).texts
      errors := σ.errors + (buildAttr a).errors }
  | .cap t cap => buildCap t cap len σ

/-- The loop of `sdp_build_attribute` up to the end `endp`. -/
def buildAttrs (endp : ℕ) (attrs : List LevelAttr) (σ : AttrState) : AttrState :=
  attrs.foldl (fun σ a => buildLevelAttr (room16 endp σ.out.cur) σ a) σ

/-- `sdp_build_attribute`: the result, the errors and the output. -/
def buildAttribute (d : Desc) (level : Level) (len : ℕ) (o : Out) : SdpResult × UInt32 × Out :=
  match d.attrsOf level with
  | none => (.failure, 0, o)
  | some attrs =>
    let σ := buildAttrs (o.cur + len) attrs { out := o }
    (.success, σ.errors, σ.out)

/-- The build function of a token with the room `len`. -/
def buildToken (conf : Conf) (roap : Option CStr) (d : Desc) (tok : Token) (level : Level)
    (len : ℕ) (o : Out) : SdpResult × UInt32 × Out :=
  if tok = .a then buildAttribute d level len o
  else
    let b := buildLine conf roap d tok level
    (b.result, b.errors, o.print (o.cur + len) b.texts)

/-- The tokens that are built at the session level. -/
def sessionTokens : List Token := [.v, .o, .s, .i, .u, .e, .p, .c, .b, .t, .r, .z, .k, .a]

/-- The tokens that are built at a media level. -/
def mediaTokens : List Token := [.m, .i, .c, .b, .k, .a]

/-- The calls of build functions, in their order. -/
def buildOrder (d : Desc) : List (Token × Level) :=
  sessionTokens.map (·, .session) ++
    (List.range d.mcaCount.toNat).flatMap fun i => mediaTokens.map (·, .media (i + 1))

/-- The nested loops of `sdp_build`. They make the same test before every call. -/
def buildLoop (conf : Conf) (roap : Option CStr) (d : Desc) (endp : ℕ) :
    List (Token × Level) → SdpResult → UInt32 → Out → SdpResult × UInt32 × Out
  | [], result, n, o => (result, n, o)
  | (tok, level) :: calls, result, n, o =>
    if result = .success ∧ o.cur < endp then
      let (result, e, o) := buildToken conf roap d tok level (room16 endp o.cur) o
      buildLoop conf roap d endp calls result (n + e) o
    else (result, n, o)

/-- What `sdp_build` returns and leaves behind; the returned pointer is `out.cur`. -/
structure BuildResult where
  result : SdpResult
  stats : Stats
  out : Out

/-- `sdp_build` into a buffer of `len` bytes. -/
def build (conf : Conf) (roap : Option CStr) (d : Desc) (st : Stats) (len : UInt16) : BuildResult :=
  let endp := len.toNat
  let (result, n, o) := buildLoop conf roap d endp (buildOrder d) .success 0 Out.start
  let result := if result = .success ∧ endp ≤ o.cur + 1 then .potentialSdpOverflow else result
  ⟨result, { st with numBuilds := st.numBuilds + 1, numInvalidParam := st.numInvalidParam + n }, o⟩

end Sdp
