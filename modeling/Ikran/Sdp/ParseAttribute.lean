import Ikran.Sdp.ParseFmtp

/-!
# Parsing attribute lines

`sdp_parse_attribute` with the parse functions that use more than their own line: `a=direction`
reads the shared error count back, a capability attribute moves the capability counters of the
description, and its parameters are attached to a capability found through these counters.
-/

namespace Sdp

open CStr Line

/-- What a parse function returns for an attribute, and the error count. -/
abbrev AttrOutcome (α : Type) := Except SdpResult α × UInt32

def outcomeOf {α : Type} (p : Parser α) (s : CStr) (n : UInt32) : AttrOutcome α :=
  ((p.run s n).1, (p.run s n).2.2)

/-- The `tmp` buffer after a token was looked for: a missing token leaves it alone. -/
def nextTmp (tmp : CStr) : Parser CStr := do
  match ← getNextStrTok blanks with
  | some tok => return tok
  | none =>
    LineParser.count
    return tmp

def parseRole : Parser MediadirRole := do
  let tmp ← orInvalid (← getNextStrTok ": \t")
  orInvalid (findName MediadirRole.all MediadirRole.tableName tmp)

/-- The connection information behind the role, with `tmp` for its network type: the connection and
the port. Missing and unsupported parts are counted, and passed over. -/
def comediadirConn (conf : Conf) (tmp : CStr) : Parser (Conn × UInt32) := do
  -- the match flag is left set by the role, so that the first network type counts as named
  let nettype := (findNettype conf tmp).getD
    (if conf.nettypeSupported .internet then .internet else .unsupported)
  LineParser.countIf (nettype = .unsupported)
  let tmp ← nextTmp tmp
  let addrtype := (findAddrtype conf tmp).getD .unsupported
  LineParser.countIf (addrtype = .unsupported)
  let connAddr ← nextTmp []
  let (srcPort, ok) ← getNextNumTok blanks
  LineParser.countIf (ok = false)
  return ({ nettype, addrtype, connAddr }, srcPort)

/-- Everything `sdp_parse_attr_comediadir` reads from its line, and whether it goes on to its last
check. The connection has the address type zero of fresh memory until one is read. -/
def comediadirLine (conf : Conf) : Parser (Comediadir × Bool) := do
  let role ← parseRole
  let v : Comediadir :=
    { role, connInfoPresent := false, connInfo := { nettype := .invalid, addrtype := .ip4 },
      srcPort := 0 }
  if role = .passive then return (v, false)
  else
    match ← getNextStrTok blanks with
    | none =>
      LineParser.count
      return (v, false)
    | some tmp =>
      let (connInfo, srcPort) ← comediadirConn conf tmp
      return ({ v with connInfo, srcPort }, true)

/-- `sdp_parse_attr_comediadir`. Its last check looks at the errors counted so far, by whatever line
of whatever message. -/
def parseAttrComediadir (conf : Conf) (s : CStr) (n : UInt32) : AttrOutcome Attr :=
  match outcomeOf (comediadirLine conf) s n with
  | (.ok (v, lastCheck), n) =>
    if lastCheck ∧ 0 < n then (.error .invalidParameter, n) else (.ok (.comediadir v), n)
  | (.error e, n) => (.error e, n)

/-- The parse functions of `sdp_attr[]` that stay on their line. -/
def lineParser (conf : Conf) : PlainType → Option (Parser Attr)
  | .simpleString t => some (parseAttrSimpleString t)
  | .simpleU32 t => some (parseAttrSimpleU32 t)
  | .simpleBool t => some (parseAttrSimpleBool t)
  | .direction t => some (parseAttrDirection t)
  | .qos t => some (parseAttrQos t)
  | .transportMap t => some (parseAttrTransportMap t)
  | .stream .xSidin => some parseAttrXSidin
  | .stream .xSidout => some parseAttrXSidout
  | .stream .xConfid => some parseAttrXConfid
  | .srtp .srtpContext => some parseAttrSrtpcontext
  | .srtp .sdescriptions => some parseAttrSdescriptions
  | .curr => some parseAttrCurr
  | .des => some parseAttrDes
  | .conf => some parseAttrConf
  | .subnet => some (parseAttrSubnet conf)
  | .t38Ratemgmt => some parseAttrT38Ratemgmt
  | .t38Udpec => some parseAttrT38Udpec
  | .pcCodec => some parseAttrPcCodec
  | .rtr => some parseAttrRtr
  | .silencesupp => some parseAttrSilencesupp
  | .mptime => some parseAttrMptime
  | .group => some parseAttrGroup
  | .sourceFilter => some (parseAttrSourceFilter conf)
  | .rtcpUnicast => some parseAttrRtcpUnicast
  | .maxprate => some parseAttrMaxprate
  | .fmtp | .comediadir => none

/-- The parse function of a plain attribute type. -/
def parsePlain (conf : Conf) (t : PlainType) (s : CStr) (n : UInt32) : AttrOutcome Attr :=
  match lineParser conf t with
  | some p => outcomeOf p s n
  | none => if t = .fmtp then parseAttrFmtp s n else parseAttrComediadir conf s n

theorem parsePlain_isolated (conf : Conf) {t : PlainType} (hf : t ≠ .fmtp) (hc : t ≠ .comediadir)
    {s s' : CStr} (n n' : UInt32) (h : SameLine s s') :
    (parsePlain conf t s n).1 = (parsePlain conf t s' n').1 ∧
      (parsePlain conf t s n).2 - n = (parsePlain conf t s' n').2 - n' := by
  have hsome : (lineParser conf t).isSome := by
    cases t with
    | stream u => cases u <;> rfl
    | srtp u => cases u <;> rfl
    | fmtp => exact absurd rfl hf
    | comediadir => exact absurd rfl hc
    | _ => rfl
  obtain ⟨p, hp⟩ := Option.isSome_iff_exists.mp hsome
  simp only [parsePlain, hp, outcomeOf]
  exact ⟨p.outcome_eq n n' h, p.count_eq n n' h⟩

/-! ## Capability attributes -/

/-- The name behind `a=`, or behind the `a=` of a capability parameter, and the text of the value.
-/
def attrName : Parser (Option CStr) := do
  let tmp ← getNextStrTok ": \t"
  LineParser.skip ':'
  return tmp

/-- The line of a capability. Its number has to be there but is not kept. -/
def capLine : Parser Cap := do
  let _ ← orInvalid (← getNextNum "/ \t")
  let tmp ← orInvalid (← getNextStrTok blanks)
  let media ← orInvalid (findName MediaType.all MediaType.name tmp)
  let tmp ← orInvalid (← getNextStrTok blanks)
  let transport ← orInvalid (findName Transport.all Transport.name tmp)
  if transport.isAal2 then invalidParameter
  else
    match ← parsePayloadTypes media transport with
    | [] => invalidParameter
    | payloads => return { media, transport, payloads }

/-- `sdp_parse_attr_cap`. -/
def parseAttrCap (s : CStr) (d : Desc) (n : UInt32) : Except SdpResult Cap × Desc × UInt32 :=
  match outcomeOf capLine s n with
  | (.ok cap, n) => (.ok cap, { d with capValid := true, lastCapInst := d.lastCapInst + 1 }, n)
  | (.error e, n) => (.error e, { d with capValid := false }, n)

/-- The position of an attribute in its list, by type and instance number, counted from 1. -/
def findAttrIdx (type : AttrType) (inst : ℕ) (attrs : List LevelAttr) : Option ℕ :=
  match attrs, inst with
  | _, 0 => none
  | [], _ + 1 => none
  | a :: attrs, inst + 1 =>
    if a.type = type then
      if inst = 0 then some 0 else (findAttrIdx type inst attrs).map (· + 1)
    else (findAttrIdx type (inst + 1) attrs).map (· + 1)

namespace Desc

def attrsOf (d : Desc) : Level → Option (List LevelAttr)
  | .session => some d.sessAttrs
  | .media n => (d.findMediaLevel n).map Mca.attrs

def updateAttrs (d : Desc) (level : Level) (f : List LevelAttr → List LevelAttr) : Desc :=
  match level with
  | .session => { d with sessAttrs := f d.sessAttrs }
  | .media n => d.updateMedia n fun m => { m with attrs := f m.attrs }

/-- The level `sdp_parse_attr_cpar` looks at: the last media line, or the session. -/
def lastLevel (d : Desc) : Level := if d.mcaCount = 0 then .session else .media d.mcaCount.toNat

end Desc

/-- `sdp_find_attr` outside of capabilities: the position of the attribute at a level. -/
def findAttr (d : Desc) (level : Level) (type : AttrType) (inst : UInt16) : Option ℕ :=
  (d.attrsOf level).bind (findAttrIdx type inst.toNat)

def attach (a : Attr) : LevelAttr → LevelAttr
  | .cap t cap => .cap t { cap with attrs := cap.attrs ++ [a] }
  | b => b

/-- The position of the capability that the parameters on the next `X-cpar` or `cpar` line belong
to. -/
def findCap (t : CapType) (d : Desc) : Option ℕ :=
  if d.capValid then findAttr d d.lastLevel (.cap t) d.lastCapInst else none

/-- The attribute types that must not stand in a capability. -/
def refusedInCap : AttrType → Bool
  | .plain (.simpleU32 .xSqn) | .plain (.simpleU32 .sqn) | .cap _ | .cpar _ => true
  | _ => false

/-- The line of a capability parameter up to the value of the attribute in it. -/
def cparLine : Parser PlainType := do
  let tmp ← orInvalid (← getNextStrTok "= \t")
  if tmp = ['a'] then
    LineParser.skip '='
    let tmp ← orInvalid (← attrName)
    match findName AttrType.all AttrType.name tmp with
    | some (.plain t) => if refusedInCap (.plain t) then invalidParameter else return t
    | _ => invalidParameter
  else invalidParameter

def cparAttr (conf : Conf) (s : CStr) (n : UInt32) : AttrOutcome Attr :=
  match cparLine.run s n with
  | (.ok t, s, n) => parsePlain conf t s n
  | (.error e, _, n) => (.error e, n)

/-- `sdp_parse_attr_cpar`. The check that the kinds of the capability and of its parameter agree is
left out: the capability is looked up by its kind. -/
def parseAttrCpar (conf : Conf) (t : CapType) (s : CStr) (d : Desc) (n : UInt32) :
    SdpResult × Desc × UInt32 :=
  match findCap t d with
  | none => (.invalidParameter, d, n + 1)
  | some i =>
    match cparAttr conf s n with
    | (.ok a, n) => (.success, d.updateAttrs d.lastLevel (·.modify i (attach a)), n)
    | (.error e, n) => (e, d, n)

def Desc.hasLevel (d : Desc) (level : Level) : Bool := (d.attrsOf level).isSome

/-- `sdp_parse_attribute`. An attribute that is not recognised, or whose parse function fails, is
left out, and the line counts as parsed. -/
def parseAttribute (conf : Conf) (level : Level) (s : CStr) (d : Desc) (n : UInt32) :
    SdpResult × Desc × UInt32 :=
  if d.hasLevel level then
    match attrName.run s n with
    | (.ok (some tmp), s, n) =>
      match findName AttrType.all AttrType.name tmp with
      | none => (.success, d, n)
      | some (.plain t) =>
        match parsePlain conf t s n with
        | (.ok a, n) => (.success, d.updateAttrs level (· ++ [.plain a]), n)
        | (.error _, n) => (.success, d, n)
      | some (.cap t) =>
        match parseAttrCap s d n with
        | (.ok cap, d, n) => (.success, d.updateAttrs level (· ++ [.cap t cap]), n)
        | (.error _, d, n) => (.success, d, n)
      | some (.cpar t) =>
        let (_, d, n) := parseAttrCpar conf t s d n
        (.success, d, n)
    | (_, _, n) => (.invalidParameter, d, n + 1)
  else (.failure, d, n)

end Sdp
