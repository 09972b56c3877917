import Ikran.Sdp.ParseAttr

/-!
# Parsing format parameters

`sdp_parse_attr_fmtp`. Unlike the other attribute parsers it walks a copy of the whole rest of the
message with a pointer of its own, which it moves over one character behind every parameter without
asking which. It is therefore not a `LineParser`.

The copy ends at the first terminator. What the source would read behind that terminator is outside
its memory and reads as a terminator here.
-/

namespace Sdp

open CStr Line

/-- `sdp_fmtp_codec_param[]`. -/
inductive FmtpParam
  | annexa | annexb | bitrate | qcif | cif | maxbr | sqcif | cif4 | cif16 | custom | par | cpcf
  | bpp | hrd | profile | level | interlace | profileLevelId | parameterSets | packetizationMode
  | interleavingDepth | deintBufReq | maxDonDiff | initBufTime | maxMbps | maxFs | maxCpb | maxDpb
  | maxBr | redundantPicCap | deintBufCap | maxRcmdNaluSize | parameterAdd | annexD | annexF
  | annexI | annexJ | annexT | annexK | annexN | annexP | mode | levelAsymmetryAllowed
  deriving DecidableEq

namespace FmtpParam

/-- The name column of `sdp_fmtp_codec_param[]`. -/
def name : FmtpParam → CStr
  | annexa => "annexa"
  | annexb => "annexb"
  | bitrate => "bitrate"
  | qcif => "QCIF"
  | cif => "CIF"
  | maxbr => "MAXBR"
  | sqcif => "SQCIF"
  | cif4 => "CIF4"
  | cif16 => "CIF16"
  | custom => "CUSTOM"
  | par => "PAR"
  | cpcf => "CPCF"
  | bpp => "BPP"
  | hrd => "HRD"
  | profile => "PROFILE"
  | level => "LEVEL"
  | interlace => "INTERLACE"
  | profileLevelId => "profile-level-id"
  | parameterSets => "sprop-parameter-sets"
  | packetizationMode => "packetization-mode"
  | interleavingDepth => "sprop-interleaving-depth"
  | deintBufReq => "sprop-deint-buf-req"
  | maxDonDiff => "sprop-max-don-diff"
  | initBufTime => "sprop-init-buf-time"
  | maxMbps => "max-mbps"
  | maxFs => "max-fs"
  | maxCpb => "max-cpb"
  | maxDpb => "max-dpb"
  | maxBr => "max-br"
  | redundantPicCap => "redundant-pic-cap"
  | deintBufCap => "deint-buf-cap"
  | maxRcmdNaluSize => "max-rcmd-nalu-size"
  | parameterAdd => "parameter-add"
  | annexD => "D"
  | annexF => "F"
  | annexI => "I"
  | annexJ => "J"
  | annexT => "T"
  | annexK => "K"
  | annexN => "N"
  | annexP => "P"
  | mode => "mode"
  | levelAsymmetryAllowed => "level-asymmetry-allowed"

/-- The parameters of the first chain of comparisons, in its order. All of them have a value. -/
def firstChain : List FmtpParam :=
  [annexb, annexa, bitrate, mode, qcif, cif, maxbr, sqcif, cif4, cif16, custom, par, cpcf, bpp, hrd,
    profile, level]

/-- The parameters of the second chain of comparisons, in its order. -/
def secondChain : List FmtpParam :=
  [interlace, profileLevelId, parameterSets, packetizationMode, interleavingDepth, deintBufReq,
    maxDonDiff, initBufTime, maxMbps, maxFs, maxCpb, maxDpb, maxBr, redundantPicCap, deintBufCap,
    maxRcmdNaluSize, parameterAdd, annexD, annexF, annexI, annexJ, annexT, annexK, annexN, annexP,
    levelAsymmetryAllowed]

/-- The parameters of the second chain that have no value. -/
def isFlag (p : FmtpParam) : Bool :=
  p ∈ [interlace, annexD, annexF, annexI, annexJ, annexT]

end FmtpParam

/-! ## Values -/

/-- The attribute with a codec parameter set, and whether the parameter counts as found. -/
abbrev Applied := Option (Fmtp × Bool)

/-- A codec parameter with a valid value. -/
def codecInfo (f : Fmtp) : Applied := some ({ f with fmtpFormat := .codecInfo }, true)

/-- A parameter whose value is out of range and is passed over. -/
def passOver (f : Fmtp) : Applied := some (f, false)

/-- The value of `annexa` and `annexb`. -/
def yesNo (tok : CStr) : Option Bool :=
  if nameEq tok "yes" then some true
  else if nameEq tok "no" then some false
  else none

/-- `atoi` into a `u16` that has to differ from zero. -/
def positive16 (tok : CStr) : Option UInt16 :=
  if UInt16.ofInt (atoi tok) = 0 then none else some (UInt16.ofInt (atoi tok))

/-- `atoi` into a `u32` that has to differ from zero. -/
def positive32 (tok : CStr) : Option UInt32 :=
  if UInt32.ofInt (atoi tok) = 0 then none else some (UInt32.ofInt (atoi tok))

/-- The picture intervals: `SDP_MIN_CIF_VALUE` to `SDP_MAX_CIF_VALUE`. -/
def cifValue (tok : CStr) : Option UInt16 :=
  (positive16 tok).filter fun v => v ≤ 32

/-- `atoi` into a `short` between 0 and `max`. -/
def boundedShort (max : Int16) (tok : CStr) : Option Int16 :=
  let v := Int16.ofInt (atoi tok)
  if 0 ≤ v ∧ v ≤ max then some v else none

/-- The `CUSTOM` value. A part that is missing keeps its earlier value. -/
def applyCustom (tok : CStr) (f : Fmtp) : Applied :=
  let parts := (strtokAll "," tok).map fun t => UInt16.ofInt (atoi t)
  let f := { f with
    customX := parts.getD 0 f.customX
    customY := parts.getD 1 f.customY
    customMpi := parts.getD 2 f.customMpi }
  if f.customX = 0 ∨ f.customY = 0 ∨ f.customMpi = 0 then none else codecInfo f

/-- The `PAR` value. The height is the last of the parts behind the first colon. -/
def applyPar (tok : CStr) (f : Fmtp) : Applied :=
  let f := match strtok ":" tok with
    | none => f
    | some (width, rest) => { f with
        parWidth := UInt16.ofInt (atoi width)
        parHeight := ((strtokAll "," rest).map fun t => UInt16.ofInt (atoi t)).getLastD f.parHeight }
  if f.parWidth = 0 ∨ f.parHeight = 0 then none else codecInfo f

/-- The `CPCF` value, up to its decimal point. -/
def applyCpcf (tok : CStr) (f : Fmtp) : Applied :=
  let f := match strtok "." tok with
    | none => f
    | some (part, _) => { f with cpcf := UInt16.ofInt (atoi part) }
  if f.cpcf = 0 then none else codecInfo f

/-- The `P` value. -/
def applyAnnexP (tok : CStr) (f : Fmtp) : Applied :=
  let parts := (strtokAll "," tok).map fun t => UInt16.ofInt (atoi t)
  codecInfo { f with
    annexPValPictureResize := parts.getD 0 0
    annexPValWarp := parts.getD 1 0 }

/-- The effect of a parameter with the value `tok`, the text behind the equals sign. A parameter
without value ignores it. The result is `none` when the value is refused. -/
def FmtpParam.apply (p : FmtpParam) (tok : CStr) (f : Fmtp) : Applied :=
  match p with
  | annexa => (yesNo tok).bind fun v => codecInfo { f with annexaRequired := true, annexa := v }
  | annexb => (yesNo tok).bind fun v => codecInfo { f with annexbRequired := true, annexb := v }
  | bitrate => (positive32 tok).bind fun v => codecInfo { f with bitrate := v }
  | mode => some ({ f with fmtpFormat := .mode, mode := UInt32.ofInt (atoi tok) }, true)
  | qcif => (cifValue tok).bind fun v => codecInfo { f with qcif := v }
  | cif => (cifValue tok).bind fun v => codecInfo { f with cif := v }
  | maxbr => (positive16 tok).bind fun v => codecInfo { f with maxbr := v }
  | sqcif => (cifValue tok).bind fun v => codecInfo { f with sqcif := v }
  | cif4 => (cifValue tok).bind fun v => codecInfo { f with cif4 := v }
  | cif16 => (cifValue tok).bind fun v => codecInfo { f with cif16 := v }
  | custom => applyCustom tok f
  | par => applyPar tok f
  | cpcf => applyCpcf tok f
  | bpp => (positive16 tok).bind fun v => codecInfo { f with bpp := v }
  | hrd => (positive16 tok).bind fun v => codecInfo { f with hrd := v }
  | profile => (boundedShort 10 tok).bind fun v => codecInfo { f with profile := v }
  | level => (boundedShort 100 tok).bind fun v => codecInfo { f with level := v }
  | interlace => codecInfo { f with isInterlace := true }
  | profileLevelId => codecInfo { f with profileLevelId := tok }
  | parameterSets => codecInfo { f with parameterSets := tok }
  | packetizationMode =>
    match boundedShort 2 tok with
    | some v => codecInfo { f with packetizationMode := v.toUInt16 }
    | none => passOver f
  | interleavingDepth => (positive16 tok).bind fun v => codecInfo { f with interleavingDepth := v }
  | deintBufReq =>
    match checkrange tok with
    | some v => codecInfo { f with deintBufReq := UInt32.ofNat v, deintBufReqFlag := true }
    | none => passOver f
  | maxDonDiff => (positive32 tok).bind fun v => codecInfo { f with maxDonDiff := v }
  | initBufTime =>
    match checkrange tok with
    | some v => codecInfo { f with initBufTime := UInt32.ofNat v, initBufTimeFlag := true }
    | none => passOver f
  | maxMbps => (positive32 tok).bind fun v => codecInfo { f with maxMbps := v }
  | maxFs => (positive32 tok).bind fun v => codecInfo { f with maxFs := v }
  | maxCpb => (positive32 tok).bind fun v => codecInfo { f with maxCpb := v }
  | maxDpb => (positive32 tok).bind fun v => codecInfo { f with maxDpb := v }
  | maxBr => (positive32 tok).bind fun v => codecInfo { f with maxBr := v }
  | redundantPicCap =>
    codecInfo { f with redundantPicCap := UInt16.ofInt (atoi tok) == 1 }
  | deintBufCap =>
    match checkrange tok with
    | some v => codecInfo { f with deintBufCap := UInt32.ofNat v, deintBufCapFlag := true }
    | none => passOver f
  | maxRcmdNaluSize =>
    match checkrange tok with
    | some v => codecInfo { f with maxRcmdNaluSize := UInt32.ofNat v, maxRcmdNaluSizeFlag := true }
    | none => passOver f
  | parameterAdd =>
    -- found even when the value is out of range
    match boundedShort 1 tok with
    | some v => codecInfo { f with parameterAdd := v == 1 }
    | none => some (f, true)
  | annexD => codecInfo { f with annexD := true }
  | annexF => codecInfo { f with annexF := true }
  | annexI => codecInfo { f with annexI := true }
  | annexJ => codecInfo { f with annexJ := true }
  | annexT => codecInfo { f with annexT := true }
  | annexK => (positive16 tok).bind fun v => codecInfo { f with annexKVal := v }
  | annexN => (positive16 tok).bind fun v => codecInfo { f with annexNVal := v }
  | annexP => applyAnnexP tok f
  | levelAsymmetryAllowed =>
    let v := atoi tok
    if 0 ≤ v ∧ v ≤ 1 then codecInfo { f with levelAsymmetryAllowed := UInt16.ofInt v }
    else passOver f

/-! ## The loop over the parameters -/

/-- The value token behind a parameter name, from its equals sign on. -/
def fmtpValue : Parser CStr := do
  match ← getNextStrTok "; \t" with
  | some tmp => return tmp
  | none => orInvalid (← getNextStrTok blanks)

/-- What is left of the buffer `tmp` when `strtok` has cut the value behind its first character. -/
def cutValue (p : FmtpParam) (tmp : CStr) : CStr :=
  match p with
  | .custom => tmp.take 1 ++ strtokCut "," tmp.tail
  | .par => tmp.take 1 ++ strtokCut ":" tmp.tail
  | .cpcf => tmp.take 1 ++ strtokCut "." tmp.tail
  | _ => tmp

/-- The first chain of comparisons: the contents of `tmp` after it, and the effect on the attribute.
-/
def fmtpFirst (tmp : CStr) (f : Fmtp) : Parser (CStr × Fmtp × Bool) :=
  match findName FmtpParam.firstChain FmtpParam.name tmp with
  | none => return (tmp, f, false)
  | some p => do
    let tmp ← fmtpValue
    let (f, found) ← orInvalid (p.apply tmp.tail f)
    return (cutValue p tmp, f, found)

/-- The annexes that are recognised by their letters in the last token of a line. -/
def applyAnnexes (tmp : CStr) (f : Fmtp) : Fmtp :=
  { f with
    annexD := f.annexD || 'D' ∈ tmp
    annexF := f.annexF || 'F' ∈ tmp
    annexI := f.annexI || 'I' ∈ tmp
    annexJ := f.annexJ || 'J' ∈ tmp
    annexT := f.annexT || 'T' ∈ tmp }

/-- The second chain of comparisons: the effect on the attribute, and whether the loop is done. It
follows the first chain without an `else` and looks at what that left in `tmp`. -/
def fmtpSecond (tmp : CStr) (f : Fmtp) : Parser (Fmtp × Bool × Bool) :=
  match findName FmtpParam.secondChain FmtpParam.name tmp with
  | some p => do
    let tmp ← if p.isFlag then pure [] else fmtpValue
    let (f, found) ← orInvalid (p.apply tmp.tail f)
    return (f, found, false)
  | none => do
    if (← LineParser.peek) = '\n' then return (applyAnnexes tmp f, false, true)
    else return (f, false, false)

/-- One round of the loop: the effect of a parameter on the attribute, whether codec information was
found, and whether the loop is done. -/
def fmtpParam (f : Fmtp) : Parser (Option (Fmtp × Bool × Bool)) := do
  match ← getNextStrTok "= \t" with
  | none => return none
  | some tmp =>
    let (tmp, f, found₁) ← fmtpFirst tmp f
    let (f, found₂, done) ← fmtpSecond tmp f
    return some (f, found₁ || found₂, done)

/-- The loop over the parameters, with the fuel for `fuel` tokens: the attribute and whether codec
information was found, and the error count. -/
def fmtpLoop : ℕ → CStr → UInt32 → Fmtp → Bool → Except SdpResult (Fmtp × Bool) × UInt32
  | 0, _, n, f, found => (.ok (f, found), n)
  | fuel + 1, s, n, f, found =>
    match (fmtpParam f).run s n with
    | (.error e, _, n) => (.error e, n)
    | (.ok none, _, n) => (.ok (f, found), n)
    | (.ok (some (f, found', done)), s, n) =>
      -- the pointer moves over the character behind the parameter, even over an end of line
      if done then (.ok (f, found || found'), n) else fmtpLoop fuel s.tail n f (found || found')

/-- Set the bit of one named event. -/
def setEvent (f : Fmtp) (i : ℕ) : Fmtp :=
  { f with bmap := f.bmap.set! (i / 32) (f.bmap[i / 32]! ||| ((1 : UInt32) <<< UInt32.ofNat (i % 32))) }

/-- One token of the event list: a number or a range. -/
def applyEvents (tmp : CStr) (f : Fmtp) : Option Fmtp :=
  let ((low, ok), rest) := numTokAt "- \t" tmp
  let (high, ok') := if peek rest = '-' then (numTokAt "- \t" rest).1 else (low, true)
  if ok && ok' then
    let low := low.toUInt8
    let high := high.toUInt8
    let f := (List.range' low.toNat (high.toNat + 1 - low.toNat)).foldl setEvent f
    some (if f.maxval < high.toFin then { f with maxval := high.toFin } else f)
  else none

/-- The loop over the named events, with the fuel for `fuel` tokens. -/
def fmtpEvents : ℕ → CStr → Fmtp → Option Fmtp
  | 0, _, f => some f
  | fuel + 1, s, f =>
    match token ", \t" maxStringLen s with
    | (none, _) => some { f with fmtpFormat := .nte }
    | (some tmp, s) => (applyEvents tmp { f with fmtpFormat := .nte }).bind (fmtpEvents fuel s)

/-- The attribute before its parameters are read: packetization mode and level asymmetry have their
defaults. -/
def fmtpInit (payloadNum : UInt16) : Fmtp :=
  { payloadNum, fmtpFormat := .unknownType, parameterAdd := true, packetizationMode := 0,
    levelAsymmetryAllowed := 1 }

/-- Some senders separate the parameters with slashes. They are replaced up to the first line feed.
-/
def replaceSlashes (s : CStr) : CStr :=
  (s.takeWhile (· != '\n')).map (fun c => if c = '/' then ';' else c) ++ s.dropWhile (· != '\n')

/-- The named events of a line without codec information. -/
def parseFmtpEvents (f : Fmtp) (s : CStr) : Option Fmtp :=
  -- the events are looked for from the line feed on, where the slashes ended
  (fmtpEvents (s.length + 1) (s.dropWhile (· != '\n')) f).filter fun f => f.maxval != 0

/-- The parameters of a line, from the text behind its payload number. -/
def parseFmtpParams (f : Fmtp) (s : CStr) (n : UInt32) : Except SdpResult Fmtp × UInt32 :=
  match fmtpLoop (s.length + 1) (replaceSlashes s) n f false with
  | (.error e, n) => (.error e, n)
  | (.ok (f, true), n) => (.ok f, n)
  | (.ok (f, false), n) =>
    match parseFmtpEvents f s with
    | some f => (.ok f, n)
    | none => (.error .invalidParameter, n + 1)

/-- `sdp_parse_attr_fmtp`: the outcome and the error count. -/
def parseAttrFmtp (s : CStr) (n : UInt32) : Except SdpResult Attr × UInt32 :=
  match (getNextNum blanks).run s n with
  | (.ok (some num), s, n) =>
    let dup := s.takeWhile (· != nul)
    if dup = [] then (.error .failure, n)
    else
      match parseFmtpParams (fmtpInit num.toUInt16) dup n with
      | (.ok f, n) => (.ok (.fmtp f), n)
      | (.error e, n) => (.error e, n)
  | (_, _, n) => (.error .invalidParameter, n + 1)

end Sdp
