import Ikran.Lib.BoundedPrint
import Ikran.Sdp.ParseFmtp

/-!
# Building attribute values

The build functions of `sdp_attr.c` for plain attributes. Such a function makes a number of
`snprintf` calls up to one end of the buffer; it is given here by the texts of these calls.
-/

namespace Sdp

open CStr

/-- The texts a build function prints, one for each call, its result, and the number of invalid
parameters it counts. -/
structure Built where
  texts : List CStr := []
  result : SdpResult := .success
  errors : UInt32 := 0

/-! ## Format parameters -/

namespace FmtpParam

def printOrder : List FmtpParam :=
  [bitrate, annexa, annexb, qcif, cif, maxbr, sqcif, cif4, cif16, custom, par, cpcf, bpp, hrd,
    profile, level, interlace, annexD, annexF, annexI, annexJ, annexT, annexK, annexN, annexP,
    profileLevelId, parameterSets, packetizationMode, levelAsymmetryAllowed, interleavingDepth,
    deintBufReq, maxDonDiff, initBufTime, maxMbps, maxFs, maxCpb, maxDpb, maxBr, redundantPicCap,
    deintBufCap, maxRcmdNaluSize, parameterAdd]

/-- Print a number when the condition holds. -/
def number (cond : Prop) [Decidable cond] (n : ℕ) : Option CStr :=
  if cond then some ('=' :: decimal n) else none

def flag (b : Bool) : Option CStr := if b then some [] else none

/-- Print `yes` or `no`. -/
def yesOrNo (b : Bool) : CStr := if b then "=yes" else "=no"

/-- What stands behind the name of a parameter; `none` when the parameter is not printed. Both
numbers of `PAR` are the width. -/
def printed (p : FmtpParam) (f : Fmtp) : Option CStr :=
  match p with
  | bitrate => number (0 < f.bitrate) f.bitrate.toNat
  | annexa => if f.annexaRequired then some (yesOrNo f.annexa) else none
  | annexb => if f.annexbRequired then some (yesOrNo f.annexb) else none
  | qcif => number (0 < f.qcif) f.qcif.toNat
  | cif => number (0 < f.cif) f.cif.toNat
  | maxbr => number (0 < f.maxbr) f.maxbr.toNat
  | sqcif => number (0 < f.sqcif) f.sqcif.toNat
  | cif4 => number (0 < f.cif4) f.cif4.toNat
  | cif16 => number (0 < f.cif16) f.cif16.toNat
  | custom =>
    if 0 < f.customX ∧ 0 < f.customY ∧ 0 < f.customMpi then
      some (fmt ["=", decimal f.customX.toNat, ",", decimal f.customY.toNat, ",",
        decimal f.customMpi.toNat])
    else none
  | par =>
    if 0 < f.parHeight ∧ 0 < f.parWidth then
      some (fmt ["=", decimal f.parWidth.toNat, ":", decimal f.parWidth.toNat])
    else none
  | cpcf => number (0 < f.cpcf) f.cpcf.toNat
  | bpp => number (0 < f.bpp) f.bpp.toNat
  | hrd => number (0 < f.hrd) f.hrd.toNat
  | profile => number (0 ≤ f.profile) f.profile.toInt.toNat
  | level => number (0 ≤ f.level) f.level.toInt.toNat
  | interlace => flag f.isInterlace
  | annexD => flag f.annexD
  | annexF => flag f.annexF
  | annexI => flag f.annexI
  | annexJ => flag f.annexJ
  | annexT => flag f.annexT
  | annexK => number (0 < f.annexKVal) f.annexKVal.toNat
  | annexN => number (0 < f.annexNVal) f.annexNVal.toNat
  | annexP =>
    if 0 < f.annexPValPictureResize ∧ 0 < f.annexPValWarp then
      some (fmt ["=", decimal f.annexPValPictureResize.toNat, ",", decimal f.annexPValWarp.toNat])
    else none
  | profileLevelId => if f.profileLevelId = [] then none else some ('=' :: f.profileLevelId)
  | parameterSets => if f.parameterSets = [] then none else some ('=' :: f.parameterSets)
  | packetizationMode => number (f.packetizationMode < 2) f.packetizationMode.toNat
  | levelAsymmetryAllowed => number (f.levelAsymmetryAllowed ≤ 1) f.levelAsymmetryAllowed.toNat
  | interleavingDepth => number (0 < f.interleavingDepth) f.interleavingDepth.toNat
  | deintBufReq => number f.deintBufReqFlag f.deintBufReq.toNat
  | maxDonDiff => number (0 < f.maxDonDiff) f.maxDonDiff.toNat
  | initBufTime => number f.initBufTimeFlag f.initBufTime.toNat
  | maxMbps => number (0 < f.maxMbps) f.maxMbps.toNat
  | maxFs => number (0 < f.maxFs) f.maxFs.toNat
  | maxCpb => number (0 < f.maxCpb) f.maxCpb.toNat
  | maxDpb => number (0 < f.maxDpb) f.maxDpb.toNat
  | maxBr => number (0 < f.maxBr) f.maxBr.toNat
  | redundantPicCap => number f.redundantPicCap 1
  | deintBufCap => number f.deintBufCapFlag f.deintBufCap.toNat
  | maxRcmdNaluSize => number f.maxRcmdNaluSizeFlag f.maxRcmdNaluSize.toNat
  | parameterAdd => number (f.parameterAdd = false) 0
  | mode => none

def text (f : Fmtp) (p : FmtpParam) : Option CStr := (p.printed f).map (p.name ++ ·)

end FmtpParam

/-- A semicolon in front of every text but the first. -/
def separate : List CStr → List CStr
  | [] => []
  | t :: ts => t :: ts.map (';' :: ·)

def fmtpParams (f : Fmtp) : List CStr := FmtpParam.printOrder.filterMap (FmtpParam.text f)

/-- The bit of a named event. -/
def Fmtp.hasEvent (f : Fmtp) (i : ℕ) : Bool :=
  f.bmap[i / 32]! &&& ((1 : UInt32) <<< UInt32.ofNat (i % 32)) != 0

/-- The texts of a range of named events. -/
def eventRange (f : Fmtp) (min max : ℕ) : List CStr :=
  decimal min :: ((if min = max then [] else [fmt ["-", decimal max]]) ++
    if max = f.maxval then [] else [[',']])

/-- The loop over the named events, in a range that is still open. The source skips words of the
bitmap without events; nothing is printed for them here either. -/
def eventTexts (f : Fmtp) : Option (ℕ × ℕ) → List ℕ → List CStr
  | _, [] => []
  | range, i :: is =>
    if f.hasEvent i then
      let min := (range.map Prod.fst).getD i
      if i = f.maxval then eventRange f min i ++ eventTexts f none is
      else eventTexts f (some (min, i)) is
    else
      match range with
      | some (min, max) => eventRange f min max ++ eventTexts f none is
      | none => eventTexts f none is

/-- The texts of an `a=fmtp` line: `sdp_build_attr_fmtp`. -/
def fmtpTexts (f : Fmtp) : List CStr :=
  [fmt ["a=", PlainType.fmtp.name, ":", decimal f.payloadNum.toNat, " "]] ++
    (match f.fmtpFormat with
      | .mode => [fmt [FmtpParam.mode.name, "=", decimal f.mode.toNat]]
      | .codecInfo => separate (fmtpParams f)
      | .nte | .unknownType => []) ++
    eventTexts f none (List.range (f.maxval + 1)) ++ [crlf]

/-! ## The other attributes -/

/-- The size of the buffer keys are encoded into. -/
def maxBase64StringLen : ℕ := 60

/-- The key and salt of a crypto context, base 64 encoded. -/
def SrtpContext.encoded (c : SrtpContext) : Option CStr :=
  Base64.encode maxBase64StringLen
    (c.masterKey.take c.masterKeySizeBytes.toNat ++ c.masterSalt.take c.masterSaltSizeBytes.toNat)

/-- `sdp_build_attr_srtpcontext`. -/
def buildAttrSrtpcontext (c : SrtpContext) : Built :=
  match c.encoded with
  | none => { result := .invalidParameter }
  | some data =>
    { texts := [fmt ["a=", (PlainType.srtp .srtpContext).name, ":", c.suite.name, " inline:", data,
        "||\r\n"]] }

/-- `sdp_build_attr_sdescriptions`. Lifetime and MKI are printed if they were set. -/
def buildAttrSdescriptions (c : SrtpContext) : Built :=
  match c.encoded with
  | none => { result := .invalidParameter }
  | some data =>
    { texts := [fmt ["a=", (PlainType.srtp .sdescriptions).name, ":",
        decimalInt c.tag.toInt32.toInt, " ", c.suite.name, " inline:", data,
        if c.masterKeyLifetime = [] then "" else '|' :: c.masterKeyLifetime,
        if c.mki = [] then "" else fmt ["|", c.mki, ":", decimal c.mkiSizeBytes.toNat], crlf]] }

/-- The texts of an interval list: zeros are hyphens. -/
def mptimeTexts : Bool → List UInt16 → List CStr
  | _, [] => []
  | first, v :: vs =>
    (if v = 0 then "-" else if first then decimal v.toNat else ' ' :: decimal v.toNat) ::
      mptimeTexts false vs

/-- `sdp_build_attr_silencesupp`. -/
def silencesuppTexts (v : Silencesupp) : List CStr :=
  [fmt ["a=", PlainType.silencesupp.name, ":", if v.enabled then "on" else "off", " "],
    if v.timerNull then "-" else decimal v.timer.toNat,
    fmt [" ", v.pref.name, " ", v.siduse.name, " "],
    if v.fxnslevelNull then "-" else decimal v.fxnslevel.toNat,
    crlf]

/-- The build function of a plain attribute. -/
def buildAttr (a : Attr) : Built :=
  let start : CStr := fmt ["a=", a.type.name]
  match a with
  | .simpleString _ s => { texts := [fmt [start, ":", s, crlf]] }
  | .simpleU32 _ v => { texts := [fmt [start, ":", decimal v.toNat, crlf]] }
  | .simpleBool _ b => { texts := [fmt [start, ":"], if b then "1\r\n" else "0\r\n"] }
  | .maxprate s => { texts := [fmt [start, ":", s, crlf]] }
  | .direction _ => { texts := [fmt [start, crlf]] }
  | .qos _ v =>
    { texts := [fmt [start, ":", v.strength.name, " ", v.direction.name],
        if v.confirm then " confirm\r\n" else crlf] }
  | .curr v =>
    { texts := [fmt [start, ":", v.type.name, " ", v.statusType.name, " ", v.direction.name],
        crlf] }
  | .des v =>
    { texts := [fmt [start, ":", v.type.name, " ", v.strength.name, " ", v.statusType.name, " ",
        v.direction.name], crlf] }
  | .conf v =>
    { texts := [fmt [start, ":", v.type.name, " ", v.statusType.name, " ", v.direction.name],
        crlf] }
  | .transportMap _ v =>
    { texts := [fmt [start, ":", decimal v.payloadNum.toNat, " ", v.encname, "/",
        decimal v.clockrate.toNat],
        if v.numChan = 1 then crlf else fmt ["/", decimal v.numChan.toNat, crlf]] }
  | .subnet v =>
    { texts := [fmt [start, ":", v.nettype.name, " ", v.addrtype.name, " ", v.addr]] ++
        (if v.prefixLen = invalidValue then []
          else [fmt ["/", decimal v.prefixLen.toUInt16.toNat]]) ++ [crlf] }
  | .t38Ratemgmt v => { texts := [fmt [start, ":", v.name, crlf]] }
  | .t38Udpec v => { texts := [fmt [start, ":", v.name, crlf]] }
  | .pcCodec payloadTypes =>
    { texts := fmt [start, ": "] :: payloadTypes.map (fun v => fmt [decimal v.toNat, " "]) ++
        [crlf] }
  | .rtr confirm =>
    { texts := [if confirm then fmt [start, ":", "confirm", crlf] else fmt [start, crlf]] }
  | .comediadir v => { texts := [fmt [start, ":", v.role.name], crlf] }
  | .silencesupp v => { texts := silencesuppTexts v }
  | .srtp .srtpContext c => buildAttrSrtpcontext c
  | .srtp .sdescriptions c => buildAttrSdescriptions c
  | .mptime intervals => { texts := fmt [start, ":"] :: mptimeTexts true intervals ++ [crlf] }
  | .stream .xConfid s => { texts := if s = [] then [] else [fmt [start, ":", s, crlf]] }
  | .stream _ s => { texts := [fmt [start, ":", s, crlf]] }
  | .group v =>
    { texts := fmt [start, ":", v.groupAttr.name] ::
        (v.groupIds.filter (0 < ·)).map (fun v => fmt [" ", decimal v.toNat]) ++ [crlf] }
  | .sourceFilter v =>
    { texts := fmt [start, ":", v.mode.name, " ", v.nettype.name, " ", v.addrtype.name, " ",
        v.destAddr] :: v.srcList.map (fun s => fmt [" ", s]) ++ [crlf] }
  | .rtcpUnicast v =>
    if v = .notPresent then { result := .invalidParameter }
    else { texts := [fmt [start, ":", v.name, crlf]] }
  | .fmtp f => { texts := fmtpTexts f }

end Sdp
