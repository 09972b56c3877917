import Mathlib.Algebra.BigOperators.Group.List.Basic
import Mathlib.Data.List.Induction
import Ikran.Httpish.Framing

/-!
# Writing a message

`httpish_msg_add_body` and `httpish_msg_write`, over the write stream of `pmhutils.c`. The headers of a
part are put together in a buffer of 200 bytes, and the length of a message with several parts is
computed before the parts are written.
-/

namespace Httpish

/-- `pmhWstream_t` on a buffer of the caller, which does not grow. -/
structure Wstream where
  buff : CStr
  totalBytes : ℤ

/-- `pmhutils_wstream_create_with_buf`. -/
def wstreamCreateWithBuf (nbytes : ℕ) : Option Wstream :=
  if nbytes = 0 then none else some ⟨[], (nbytes : ℤ).bmod (2 ^ 32)⟩

/-- `pmhutils_wstream_write_bytes`. -/
def wstreamWriteBytes (ws : Wstream) (inbuf : CStr) : Option Wstream :=
  if ws.totalBytes < ws.buff.length + inbuf.length then none
  else some { ws with buff := ws.buff ++ inbuf }

/-- `pmhutils_wstream_write_byte`. -/
def wstreamWriteByte (ws : Wstream) (c : Char) : Option Wstream := wstreamWriteBytes ws [c]

def sanityLineSize : ℕ := 3072

/-- `pmhutils_wstream_write_line`. -/
def wstreamWriteLine (ws : Wstream) (line : CStr) : Option Wstream :=
  if sanityLineSize < line.length then none
  else do
    let ws ← wstreamWriteBytes ws line
    let ws ← wstreamWriteByte ws '\r'
    wstreamWriteByte ws '\n'

/-- The arguments of `httpish_msg_add_body`. -/
structure Body where
  body : CStr
  contentType : CStr
  msgDisposition : ContentDisp
  required : Bool
  contentId : Option CStr

/-- `httpish_msg_add_body`. -/
def HttpishMsg.addBody (msg : HttpishMsg) (b : Body) : HStatus × HttpishMsg :=
  if b.body = [] then (.failure, msg)
  else if msg.numBodyParts = maxBodyParts then (.failure, msg)
  else
    (.success, { msg with
      mesgBody := Function.update msg.mesgBody msg.numBodyParts
        { msg.mesgBody msg.numBodyParts with
          msgContentType := some b.contentType
          msgBody := some b.body
          msgContentTypeValue := getContentTypeValue b.contentType
          msgContentDisp := b.msgDisposition
          msgRequiredHandling := b.required
          msgLength := b.body.length
          msgContentId := b.contentId }
      numBodyParts := msg.numBodyParts + 1 })

/-- A message with the start line and the header lines, to which the bodies are added. -/
def msgOf (start : CStr) (lines : List CStr) (bodies : List Body) : HttpishMsg :=
  bodies.foldl (fun msg b => (msg.addBody b).2) { mesgLine := some start, headers := lines }

def tmpBodyBufSize : ℕ := 200

/-- `snprintf` into the buffer. -/
def snprintfBuf (s : CStr) : CStr := s.take (tmpBodyBufSize - 1)

/-- `strncat` with the room that is left in the buffer. -/
def strncatBuf (buf s : CStr) : CStr := buf ++ s.take (tmpBodyBufSize - buf.length - 1)

/-- The texts of the dispositions. All the others are written as a session. -/
def dispositionText : ContentDisp → CStr
  | .render => "render"
  | .session => "session"
  | .icon => "icon"
  | .alert => "alert"
  | .precondition => "precondition"
  | .unknown => "session"

/-- The content type of a part, which `httpish_msg_add_body` always sets. -/
def MsgBody.typeText (p : MsgBody) : CStr := p.msgContentType.getD []

/-- The text of the handling parameter, with the end of the line. -/
def handlingText (required : Bool) : CStr :=
  if required then ";handling=required\r\n" else ";handling=optional\r\n"

/-- The headers of a part, as they are put together in the buffer. -/
def partHeader (p : MsgBody) : CStr :=
  let buf := snprintfBuf (CStr.fmt ["Content-Type: ", p.typeText, "\r\n"])
  let buf := strncatBuf buf "Content-Disposition: "
  let buf := strncatBuf buf (dispositionText p.msgContentDisp)
  let buf := strncatBuf buf (handlingText p.msgRequiredHandling)
  let buf := match p.msgContentId with
    | none => buf
    | some contentId =>
      let buf := strncatBuf buf "Content-Id: "
      let buf := strncatBuf buf contentId
      strncatBuf buf "\r\n"
  strncatBuf buf "\r\n"

def uniqueBoundary : CStr := "uniqueBoundary"

/-- `sizeof` of a string constant, with its terminator. -/
def sizeofText (s : CStr) : ℕ := s.length + 1

/-- The size that the length has for a content type with a known value. -/
def knownTypeSize : ContentType → Option ℕ
  | .sdp => some (sizeofText "application/sdp" + 1)
  | .sipfrag => some (sizeofText "message/sipfrag" + 1)
  | .dialog => some (sizeofText "application/dialog-info+xml" + 1)
  | .kpmlRequest => some (sizeofText "application/kpml-request+xml" + 1)
  | .kpmlResponse => some (sizeofText "application/kpml-response+xml" + 1)
  | .remoteccRequest => some (sizeofText "application/x-cisco-remotecc-request+xml" + 1)
  | .remoteccResponse => some (sizeofText "application/x-cisco-remotecc-response+xml" + 1)
  | .cti => some (sizeofText "application/x-cisco-cti+xml" + 1)
  | .cmxml => some (sizeofText "application/x-cisco-remotecc-cm+xml" + 1)
  | .textPlain => some (sizeofText "text/plain" + 1)
  | .presence => some (sizeofText "application/pidf+xml" + 1)
  | _ => none

def boundarySize : ℕ := ("\r\n--\r\n" : CStr).length + uniqueBoundary.length

/-- What the loop adds to the length for one part. -/
def partLength (p : MsgBody) : ℕ :=
  boundarySize + p.msgLength +
    (sizeofText headerContentType + 1) +
    (knownTypeSize p.msgContentTypeValue).getD (p.typeText.length + 2) +
    (sizeofText headerContentDisp + 1) + (sizeofText (dispositionText p.msgContentDisp) - 1) +
    (sizeofText ";handling=" - 1) +
    (if p.msgRequiredHandling then sizeofText "required" + 1 else sizeofText "optional" + 1) +
    match p.msgContentId with
    | none => 0
    | some contentId => sizeofText headerContentId + 1 + contentId.length + 2

/-- The length that is computed for several parts. -/
def multipartLength (msg : HttpishMsg) : ℕ :=
  (List.range msg.numBodyParts).foldl (fun total i => total + partLength (msg.mesgBody i)) 0 +
    (2 + boundarySize + 2)

/-! ## The writer -/

/-- The number in the header `Content-Length` that is written, or `0` without one. -/
def announcedLength (msg : HttpishMsg) : ℕ :=
  if msg.numBodyParts = 0 then 0
  else if 1 < msg.numBodyParts then multipartLength msg
  else (msg.mesgBody 0).msgLength

/-- The header `Content-Length`. -/
def contentLengthLine (msg : HttpishMsg) : CStr :=
  CStr.fmt [headerContentLength, ": ", CStr.decimal (announcedLength msg), "\r\n"]

/-- The header `Content-Type` of several parts. -/
def multipartTypeLine : CStr :=
  CStr.fmt [headerContentType, ": multipart/mixed; boundary=", uniqueBoundary, "\r\n"]

/-- The header `Mime-Version`. -/
def mimeVersionLine : CStr := "Mime-Version: 1.0\r\n"

/-- The delimiter in front of a part. -/
def boundaryLine : CStr := CStr.fmt ["\r\n--", uniqueBoundary, "\r\n"]

/-- The delimiter behind the last part. -/
def closingLine : CStr := CStr.fmt ["\r\n--", uniqueBoundary, "--\r\n"]

/-- The delimiter in front of a part that is not the first. -/
def writeDelimiter (i : ℕ) (ws : Wstream) : Option Wstream :=
  if 0 < i then wstreamWriteBytes ws boundaryLine else some ws

def writePart (msg : HttpishMsg) (ws : Wstream) (i : ℕ) : Option Wstream := do
  let ws ← writeDelimiter i ws
  let ws ← wstreamWriteBytes ws (partHeader (msg.mesgBody i))
  wstreamWriteBytes ws (((msg.mesgBody i).msgBody.getD []).take (msg.mesgBody i).msgLength)

/-- The headers in front of the parts, with the first delimiter when there are several. -/
def writeBodyHeaders (msg : HttpishMsg) (ws : Wstream) : Option Wstream :=
  if 1 < msg.numBodyParts then do
    let ws ← wstreamWriteBytes ws multipartTypeLine
    let ws ← wstreamWriteBytes ws mimeVersionLine
    let ws ← wstreamWriteBytes ws (contentLengthLine msg)
    wstreamWriteBytes ws boundaryLine
  else wstreamWriteBytes ws (contentLengthLine msg)

/-- The delimiter behind the last of several parts. -/
def writeClosing (msg : HttpishMsg) (ws : Wstream) : Option Wstream :=
  if 1 < msg.numBodyParts then wstreamWriteBytes ws closingLine else some ws

/-- What is written behind the header lines of the message. -/
def writeBodies (msg : HttpishMsg) (ws : Wstream) : Option Wstream :=
  if 0 < msg.numBodyParts then do
    let ws ← writeBodyHeaders msg ws
    let ws ← (List.range msg.numBodyParts).foldlM (writePart msg) ws
    writeClosing msg ws
  else do
    let ws ← wstreamWriteByte ws '\r'
    wstreamWriteByte ws '\n'

def httpishMsgToWstream (ws : Wstream) (msg : HttpishMsg) : Option Wstream := do
  let ws ← msg.mesgLine.bind (wstreamWriteLine ws)
  let ws ← msg.headers.foldlM wstreamWriteLine ws
  writeBodies msg ws

/-- `httpish_msg_write`: the bytes in the buffer, unless it fails. -/
def httpishMsgWrite (msg : HttpishMsg) (nbytes : ℕ) : Option CStr := do
  let ws ← wstreamCreateWithBuf nbytes
  let ws ← httpishMsgToWstream ws msg
  return ws.buff

/-! ## The text that is written -/

/-- A writer appends the text when it succeeds. -/
def Appends (write : Wstream → Option Wstream) (s : CStr) : Prop :=
  ∀ ws ws', write ws = some ws' → ws'.buff = ws.buff ++ s

theorem appends_writeBytes (s : CStr) : Appends (wstreamWriteBytes · s) s := by
  intro ws ws' h
  simp only [wstreamWriteBytes] at h
  split_ifs at h
  obtain rfl := Option.some.inj h
  rfl

theorem appends_some : Appends some [] := by
  intro ws ws' h
  obtain rfl := Option.some.inj h
  rw [List.append_nil]

theorem Appends.bind {write write' : Wstream → Option Wstream} {s t : CStr} (h : Appends write s)
    (h' : Appends write' t) : Appends (fun ws => (write ws).bind write') (s ++ t) := by
  intro ws ws'' hbind
  obtain ⟨ws', hws', hws''⟩ := Option.bind_eq_some_iff.mp hbind
  rw [h' ws' ws'' hws'', h ws ws' hws', List.append_assoc]

theorem Appends.ite {c : Prop} [Decidable c] {write write' : Wstream → Option Wstream} {s t : CStr}
    (h : c → Appends write s) (h' : ¬ c → Appends write' t) :
    Appends (fun ws => if c then write ws else write' ws) (if c then s else t) := by
  by_cases hc : c
  · simpa only [if_pos hc] using h hc
  · simpa only [if_neg hc] using h' hc

theorem Appends.foldlM {ι : Type} {write : Wstream → ι → Option Wstream} {text : ι → CStr}
    (h : ∀ i, Appends (write · i) (text i)) (l : List ι) :
    Appends (fun ws => l.foldlM write ws) (l.flatMap text) := by
  induction l with
  | nil => exact appends_some
  | cons i l ih =>
    rw [List.flatMap_cons]
    simp only [List.foldlM_cons]
    exact (h i).bind ih

theorem appends_writeLine (l : CStr) : Appends (wstreamWriteLine · l) (l ++ CStr.crlf) := by
  intro ws ws' h
  simp only [wstreamWriteLine] at h
  split_ifs at h
  have happend := ((appends_writeBytes l).bind ((appends_writeBytes ['\r']).bind (appends_writeBytes ['\n'])))
  exact happend ws ws' h

/-- The text of a part, with the delimiter in front of it. -/
def partText (msg : HttpishMsg) (i : ℕ) : CStr :=
  (if 0 < i then boundaryLine else []) ++ (partHeader (msg.mesgBody i) ++
    ((msg.mesgBody i).msgBody.getD []).take (msg.mesgBody i).msgLength)

theorem appends_writePart (msg : HttpishMsg) (i : ℕ) : Appends (writePart msg · i) (partText msg i) := by
  have hdelimiter : Appends (writeDelimiter i) (if 0 < i then boundaryLine else []) :=
    Appends.ite (fun _ => appends_writeBytes boundaryLine) (fun _ => appends_some)
  exact hdelimiter.bind ((appends_writeBytes _).bind (appends_writeBytes _))

def partsText (msg : HttpishMsg) : CStr := (List.range msg.numBodyParts).flatMap (partText msg)

theorem appends_writeBodyHeaders (msg : HttpishMsg) :
    Appends (writeBodyHeaders msg) (if 1 < msg.numBodyParts then
      multipartTypeLine ++ (mimeVersionLine ++ (contentLengthLine msg ++ boundaryLine))
      else contentLengthLine msg) := by
  refine Appends.ite (fun _ => ?_) (fun _ => appends_writeBytes (contentLengthLine msg))
  exact (appends_writeBytes multipartTypeLine).bind ((appends_writeBytes mimeVersionLine).bind
    ((appends_writeBytes (contentLengthLine msg)).bind (appends_writeBytes boundaryLine)))

theorem appends_writeBodies (msg : HttpishMsg) :
    Appends (writeBodies msg) (if 0 < msg.numBodyParts then
      (if 1 < msg.numBodyParts then
        multipartTypeLine ++ (mimeVersionLine ++ (contentLengthLine msg ++ boundaryLine))
        else contentLengthLine msg) ++
        (partsText msg ++ if 1 < msg.numBodyParts then closingLine else [])
      else CStr.crlf) := by
  refine Appends.ite (fun _ => ?_) (fun _ => ?_)
  · refine (appends_writeBodyHeaders msg).bind ?_
    refine (Appends.foldlM (appends_writePart msg) (List.range msg.numBodyParts)).bind ?_
    exact Appends.ite (fun _ => appends_writeBytes closingLine) (fun _ => appends_some)
  · exact (appends_writeBytes ['\r']).bind (appends_writeBytes ['\n'])

def lineTexts (msg : HttpishMsg) : CStr := linesText (msg.mesgLine.getD [] :: msg.headers)

/-- The headers, up to the first byte that the announced length is to count. -/
def headText (msg : HttpishMsg) : CStr :=
  lineTexts msg ++
    if msg.numBodyParts = 0 then CStr.crlf
    else if 1 < msg.numBodyParts then
      multipartTypeLine ++ (mimeVersionLine ++ (contentLengthLine msg ++ CStr.crlf))
    else contentLengthLine msg ++ partHeader (msg.mesgBody 0)

/-- The bytes that the announced length is to count. -/
def countedText (msg : HttpishMsg) : CStr :=
  if msg.numBodyParts = 0 then []
  else if 1 < msg.numBodyParts then boundaryLine.drop 2 ++ (partsText msg ++ closingLine)
  else ((msg.mesgBody 0).msgBody.getD []).take (msg.mesgBody 0).msgLength

variable {msg : HttpishMsg}

/-- **The text that is written: the headers, and the bytes that are to be counted.** -/
theorem httpishMsgWrite_text {nbytes : ℕ} {out : CStr}
    (h : httpishMsgWrite msg nbytes = some out) : out = headText msg ++ countedText msg := by
  obtain ⟨ws, hws, h⟩ := Option.bind_eq_some_iff.mp h
  obtain ⟨ws', hws', h⟩ := Option.bind_eq_some_iff.mp h
  obtain rfl := Option.some.inj h
  have hbuff : ws.buff = [] := by
    simp only [wstreamCreateWithBuf] at hws
    split_ifs at hws
    obtain rfl := Option.some.inj hws
    rfl
  -- the start line is there
  obtain ⟨ws₁, hline, hrest⟩ := Option.bind_eq_some_iff.mp hws'
  obtain ⟨start, hstart, hline⟩ := Option.bind_eq_some_iff.mp hline
  have hwrite := (Appends.foldlM appends_writeLine msg.headers).bind (appends_writeBodies msg)
  have hlines : lineTexts msg = start ++ CStr.crlf ++ msg.headers.flatMap (· ++ CStr.crlf) := by
    rw [lineTexts, hstart]
    rfl
  rw [hwrite ws₁ ws' hrest, appends_writeLine start ws ws₁ hline, hbuff, headText, countedText, hlines]
  have hdelimiter : boundaryLine = CStr.crlf ++ boundaryLine.drop 2 := rfl
  rcases Nat.lt_trichotomy msg.numBodyParts 1 with hn | hn | hn
  · have hzero : msg.numBodyParts = 0 := by omega
    simp [hzero]
  · simp [hn, partText, partsText]
  · have hne : msg.numBodyParts ≠ 0 := by omega
    have hpos : 0 < msg.numBodyParts := by omega
    simp only [if_pos hpos, if_pos hn, if_neg hne, List.nil_append, List.append_assoc]
    nth_rewrite 1 [hdelimiter]
    simp only [List.append_assoc]

/-! ## Parts that were added -/

/-- The part is what `httpish_msg_add_body` makes of the body. -/
structure PartOf (b : Body) (p : MsgBody) : Prop where
  body_ne_nil : b.body ≠ []
  msgContentType : p.msgContentType = some b.contentType
  msgContentTypeValue : p.msgContentTypeValue = getContentTypeValue b.contentType
  msgBody : p.msgBody = some b.body
  msgContentDisp : p.msgContentDisp = b.msgDisposition
  msgRequiredHandling : p.msgRequiredHandling = b.required
  msgLength : p.msgLength = b.body.length
  msgContentId : p.msgContentId = b.contentId

/-- The parts of the message are those of the bodies. -/
structure HoldsBodies (msg : HttpishMsg) (bodies : List Body) : Prop where
  numBodyParts : msg.numBodyParts = bodies.length
  part : ∀ i b, bodies[i]? = some b → PartOf b (msg.mesgBody i)

variable {bodies : List Body}

theorem HoldsBodies.addBody (h : HoldsBodies msg bodies)
    {b : Body} (hb : b.body ≠ []) (hroom : bodies.length ≠ maxBodyParts) :
    HoldsBodies (msg.addBody b).2 (bodies ++ [b]) := by
  rw [HttpishMsg.addBody, if_neg hb, if_neg (h.numBodyParts ▸ hroom)]
  refine ⟨by simp [h.numBodyParts], fun i b' hi => ?_⟩
  have hlt : i < (bodies ++ [b]).length := (List.getElem?_eq_some_iff.mp hi).1
  rw [List.length_append, List.length_singleton] at hlt
  by_cases hlast : i = bodies.length
  · subst hlast
    rw [List.getElem?_append_right le_rfl, Nat.sub_self] at hi
    obtain rfl := Option.some.inj hi
    simp only [h.numBodyParts, Function.update_self]
    exact ⟨hb, rfl, rfl, rfl, rfl, rfl, rfl, rfl⟩
  · rw [List.getElem?_append_left (by omega)] at hi
    simp only [h.numBodyParts, Function.update_of_ne hlast]
    exact h.part i b' hi

theorem addBody_of_not {b : Body} (h : b.body = [] ∨ msg.numBodyParts = maxBodyParts) : (msg.addBody b).2 = msg := by
  rw [HttpishMsg.addBody]
  split_ifs with hb hroom
  · rfl
  · rfl
  · exact absurd h (not_or.mpr ⟨hb, hroom⟩)

theorem exists_holdsBodies (start : CStr) (lines : List CStr) (bodies : List Body) :
    ∃ added, HoldsBodies (msgOf start lines bodies) added := by
  have hrun : ∀ (msg : HttpishMsg) (taken : List Body), HoldsBodies msg taken →
      ∃ added, HoldsBodies (bodies.foldl (fun msg b => (msg.addBody b).2) msg) added := by
    induction bodies with
    | nil => exact fun msg taken h => ⟨taken, h⟩
    | cons b bodies ih =>
      intro msg taken h
      rw [List.foldl_cons]
      by_cases hb : b.body = [] ∨ msg.numBodyParts = maxBodyParts
      · rw [addBody_of_not hb]
        exact ih msg taken h
      · obtain ⟨hne, hroom⟩ := not_or.mp hb
        exact ih _ _ (h.addBody hne (h.numBodyParts ▸ hroom))
  exact hrun _ [] ⟨rfl, fun i b hi => absurd hi (by simp)⟩

theorem holdsBodies_msgOf (start : CStr) (lines : List CStr)
    (hne : ∀ b ∈ bodies, b.body ≠ []) (hmax : bodies.length ≤ maxBodyParts) :
    HoldsBodies (msgOf start lines bodies) bodies := by
  -- the induction is on the bodies in the order in which they are added
  induction bodies using List.reverseRecOn with
  | nil => exact ⟨rfl, fun i b hi => absurd hi (by simp)⟩
  | append_singleton bodies b ih =>
    rw [List.length_append, List.length_singleton] at hmax
    have hinit := ih (fun b hb => hne b (List.mem_append_left _ hb)) (by omega)
    rw [msgOf, List.foldl_append]
    exact hinit.addBody (hne b (List.mem_append_right _ (List.mem_singleton_self b))) (by omega)

def HttpishMsg.parts (msg : HttpishMsg) : List MsgBody :=
  (List.range msg.numBodyParts).map msg.mesgBody

theorem HoldsBodies.exists_partOf (h : HoldsBodies msg bodies)
    {p : MsgBody} (hp : p ∈ msg.parts) : ∃ b, PartOf b p := by
  obtain ⟨i, hi, rfl⟩ := List.mem_map.mp hp
  rw [List.mem_range, h.numBodyParts] at hi
  exact ⟨bodies[i], h.part i _ (List.getElem?_eq_getElem hi)⟩

/-- The headers of a part, without the bound of the buffer. -/
def headerText (p : MsgBody) : CStr :=
  CStr.fmt ["Content-Type: ", p.typeText, "\r\n"] ++ "Content-Disposition: ".toList ++
    dispositionText p.msgContentDisp ++ handlingText p.msgRequiredHandling ++
    (match p.msgContentId with
    | none => []
    | some contentId => "Content-Id: ".toList ++ contentId ++ "\r\n".toList) ++ "\r\n".toList

theorem strncatBuf_snprintfBuf (s t : CStr) : strncatBuf (snprintfBuf s) t = snprintfBuf (s ++ t) := by
  rw [strncatBuf, snprintfBuf, snprintfBuf, List.take_append, List.length_take]
  congr 2
  omega

/-- **The headers of a part are cut to the size of the buffer.** -/
theorem partHeader_eq (p : MsgBody) : partHeader p = (headerText p).take (tmpBodyBufSize - 1) := by
  cases hid : p.msgContentId <;>
    simp only [partHeader, headerText, hid, strncatBuf_snprintfBuf, List.append_nil, ← List.append_assoc] <;> rfl

/-- How many bytes of the headers do not fit into the buffer. -/
def lostBytes (p : MsgBody) : ℕ := (headerText p).length - (tmpBodyBufSize - 1)

theorem length_partHeader (p : MsgBody) : (partHeader p).length + lostBytes p = (headerText p).length := by
  rw [partHeader_eq, List.length_take, lostBytes]
  omega

def partLines (p : MsgBody) : List CStr :=
  [CStr.fmt ["Content-Type: ", p.typeText],
    CStr.fmt ["Content-Disposition: ", dispositionText p.msgContentDisp, ";handling=",
      if p.msgRequiredHandling then "required" else "optional"]] ++
    (p.msgContentId.toList.map fun contentId => CStr.fmt ["Content-Id: ", contentId])

theorem headerText_eq (p : MsgBody) : headerText p = linesText (partLines p) ++ CStr.crlf := by
  have hhandling : handlingText p.msgRequiredHandling = ";handling=".toList ++
      ((if p.msgRequiredHandling then "required" else "optional" : CStr) ++ CStr.crlf) := by
    cases p.msgRequiredHandling <;> rfl
  have hcrlf : ("\r\n" : String).toList = CStr.crlf := rfl
  rw [headerText, hhandling]
  cases hid : p.msgContentId <;>
    simp [partLines, linesText, CStr.fmt, hcrlf, hid, -String.reduceToList]

/-! ## Counting -/

/-- How much longer the content type is than the text of its value. -/
def typeBlanks (p : MsgBody) : ℕ :=
  match knownTypeSize p.msgContentTypeValue with
  | none => 0
  | some size => p.typeText.length + 2 - size

theorem knownTypeSize_contentTypes : contentTypes.all (fun entry =>
      (knownTypeSize entry.2).all (· = entry.1.length + 2) && entry.1.all fun c => c.toUpper != CStr.nul) = true := by
  decide

theorem knownTypeSize_le {contentType : CStr} {size : ℕ}
    (h : knownTypeSize (getContentTypeValue contentType) = some size) :
    size ≤ contentType.length + 2 := by
  rw [getContentTypeValue] at h
  split at h
  case h_1 entry hfind =>
    have hentry := List.all_eq_true.mp knownTypeSize_contentTypes entry (List.mem_of_find?_eq_some hfind)
    have hmatch := List.find?_some hfind
    simp only [h, Option.all_some, Bool.and_eq_true, decide_eq_true_eq, httpishStrncaseEq,
      List.all_eq_true, bne_iff_ne] at hentry hmatch
    have hle := CStr.length_le_of_strncaseEq hentry.2 hmatch.1
    omega
  case h_2 => exact absurd h (by simp [knownTypeSize])

theorem partLength_add {b : Body} {p : MsgBody} (h : PartOf b p) :
    partLength p + typeBlanks p = 18 + (p.msgLength + (headerText p).length) := by
  have htype : p.typeText = b.contentType := by rw [MsgBody.typeText, h.msgContentType, Option.getD_some]
  have hsize : (knownTypeSize p.msgContentTypeValue).getD (p.typeText.length + 2) + typeBlanks p =
      p.typeText.length + 2 := by
    rw [typeBlanks]
    cases hknown : knownTypeSize p.msgContentTypeValue with
    | none => rfl
    | some size =>
      rw [h.msgContentTypeValue] at hknown
      have hle := knownTypeSize_le hknown
      simp only [Option.getD_some, htype]
      omega
  have hheader : (headerText p).length = 14 + p.typeText.length + 2 + 21 +
      (dispositionText p.msgContentDisp).length + 20 +
      (match p.msgContentId with
      | none => 0
      | some contentId => 12 + contentId.length + 2) + 2 := by
    have hhandling : (handlingText p.msgRequiredHandling).length = 20 := by
      cases p.msgRequiredHandling <;> rfl
    have htypeLine : (CStr.fmt ["Content-Type: ", p.typeText, "\r\n"]).length = 14 + p.typeText.length + 2 := by
      rw [CStr.fmt, List.length_flatten]
      change 14 + (p.typeText.length + 2) = _
      omega
    simp only [headerText, List.length_append, hhandling, htypeLine]
    cases hid : p.msgContentId with
    | none => rfl
    | some contentId =>
      simp only [List.length_append]
      rfl
  have hpart : partLength p = 20 + p.msgLength + 14 +
      (knownTypeSize p.msgContentTypeValue).getD (p.typeText.length + 2) + 21 +
      (dispositionText p.msgContentDisp).length + 10 + 10 +
      (match p.msgContentId with
      | none => 0
      | some contentId => 14 + contentId.length) := by
    have hhandling : (if p.msgRequiredHandling then sizeofText "required" + 1
        else sizeofText "optional" + 1) = 10 := by
      cases p.msgRequiredHandling <;> rfl
    have hdisposition : sizeofText (dispositionText p.msgContentDisp) - 1 =
        (dispositionText p.msgContentDisp).length := rfl
    have hconst : boundarySize = 20 ∧ sizeofText headerContentType + 1 = 14 ∧
        sizeofText headerContentDisp + 1 = 21 ∧ sizeofText ";handling=" - 1 = 10 ∧
        sizeofText headerContentId + 1 = 12 := by decide
    obtain ⟨hboundary, htypeSize, hdispSize, hhandlingSize, hidSize⟩ := hconst
    rw [partLength, hhandling, hdisposition, hboundary, htypeSize, hdispSize, hhandlingSize]
    cases hid : p.msgContentId with
    | none => rfl
    | some contentId =>
      simp only [hidSize]
      omega
  rw [hpart, hheader]
  cases p.msgContentId <;> simp only <;> omega

/-- The sum of a number over the parts. -/
def HttpishMsg.sumParts (msg : HttpishMsg) (size : MsgBody → ℕ) : ℕ := (msg.parts.map size).sum

theorem sumParts_congr {size size' : MsgBody → ℕ}
    (h : ∀ p ∈ msg.parts, size p = size' p) : msg.sumParts size = msg.sumParts size' := by
  rw [HttpishMsg.sumParts, HttpishMsg.sumParts, List.map_congr_left h]

theorem sumParts_add (msg : HttpishMsg) (size size' : MsgBody → ℕ) :
    msg.sumParts (fun p => size p + size' p) = msg.sumParts size + msg.sumParts size' :=
  List.sum_map_add

theorem sumParts_const (msg : HttpishMsg) (k : ℕ) : msg.sumParts (fun _ => k) = k * msg.numBodyParts := by
  rw [HttpishMsg.sumParts, HttpishMsg.parts, List.map_map]
  change ((List.range msg.numBodyParts).map fun _ => k).sum = _
  rw [List.map_const', List.sum_replicate, List.length_range]
  exact Nat.mul_comm _ _

theorem multipartLength_eq (msg : HttpishMsg) : multipartLength msg = msg.sumParts partLength + 24 := by
  have hloop : ∀ (l : List ℕ) (total : ℕ), l.foldl (fun total i => total + partLength (msg.mesgBody i)) total =
        total + (l.map fun i => partLength (msg.mesgBody i)).sum := by
    intro l
    induction l with
    | nil => exact fun total => rfl
    | cons i l ih =>
      intro total
      rw [List.foldl_cons, ih, List.map_cons, List.sum_cons, Nat.add_assoc]
  rw [multipartLength, hloop, HttpishMsg.sumParts, HttpishMsg.parts, List.map_map, Nat.zero_add]
  rfl

theorem HoldsBodies.multipartLength_add (h : HoldsBodies msg bodies) : multipartLength msg + msg.sumParts typeBlanks =
      18 * msg.numBodyParts + msg.sumParts (fun p => p.msgLength + (headerText p).length) + 24 := by
  have hsum : msg.sumParts (fun p => partLength p + typeBlanks p) =
      msg.sumParts (fun p => 18 + (p.msgLength + (headerText p).length)) := by
    apply sumParts_congr
    intro p hp
    obtain ⟨b, hb⟩ := h.exists_partOf hp
    exact partLength_add hb
  rw [sumParts_add, sumParts_add, sumParts_const] at hsum
  rw [multipartLength_eq]
  omega

theorem PartOf.take_body {b : Body} {p : MsgBody} (h : PartOf b p) : (p.msgBody.getD []).take p.msgLength = b.body := by
  rw [h.msgBody, h.msgLength, Option.getD_some, List.take_length]

/-- The text of the parts, with a delimiter that the first does not have. -/
theorem HoldsBodies.length_partsText (h : HoldsBodies msg bodies) (hpos : 0 < msg.numBodyParts) :
    (partsText msg).length + 20 + msg.sumParts lostBytes =
      20 * msg.numBodyParts + msg.sumParts (fun p => p.msgLength + (headerText p).length) := by
  -- the induction is on the number of parts that have been written
  have hrun : ∀ n ≤ msg.numBodyParts,
      ((List.range n).flatMap (partText msg)).length + (if 0 < n then 20 else 0) +
        (((List.range n).map msg.mesgBody).map lostBytes).sum =
      20 * n + (((List.range n).map msg.mesgBody).map fun p => p.msgLength + (headerText p).length).sum := by
    intro n hn
    induction n with
    | zero => simp
    | succ n ih =>
      have hprev := ih (by omega)
      have hmem : msg.mesgBody n ∈ msg.parts := List.mem_map.mpr ⟨n, List.mem_range.mpr (by omega), rfl⟩
      obtain ⟨b, hb⟩ := h.exists_partOf hmem
      have hheader := length_partHeader (msg.mesgBody n)
      have hbound : boundaryLine.length = 20 := rfl
      have hpart : (partText msg n).length = (if 0 < n then 20 else 0) +
          ((partHeader (msg.mesgBody n)).length + (msg.mesgBody n).msgLength) := by
        have hdelimiter : (if 0 < n then boundaryLine else []).length = if 0 < n then 20 else 0 := by
          split_ifs
          · exact hbound
          · rfl
        rw [partText, hb.take_body, hb.msgLength, List.length_append, List.length_append, hdelimiter]
      simp only [List.range_succ, List.flatMap_append, List.map_append, List.length_append,
        List.sum_append, List.flatMap_cons, List.flatMap_nil, List.map_cons, List.map_nil,
        List.sum_cons, List.sum_nil, List.append_nil, hpart] at hprev ⊢
      rw [if_pos (Nat.succ_pos n)]
      omega
  have hall := hrun msg.numBodyParts le_rfl
  rw [if_pos hpos] at hall
  exact hall

/-! ## When the length is true -/

def behindEmptyLine (s : CStr) : Option CStr :=
  (CStr.strstr (CStr.crlf ++ CStr.crlf) s).map (List.drop 4)

/-- The announced length is that of the bytes behind the first empty line. -/
def LengthTrue (out : CStr) (msg : HttpishMsg) : Prop :=
  (behindEmptyLine out).map List.length = some (announcedLength msg)

/-- The headers have no empty line but at their end, and for several parts the constants of the computed
length make up for each other: the sum is too small by two for every part and by the blanks behind
content types, and too large by four and by what the buffer cuts off. Bytes of the headers behind an
empty line inside them count as well. -/
def LengthFits (msg : HttpishMsg) : Prop :=
  if 1 < msg.numBodyParts then
    2 * msg.numBodyParts + msg.sumParts typeBlanks + ((behindEmptyLine (headText msg)).getD []).length =
      4 + msg.sumParts lostBytes
  else behindEmptyLine (headText msg) = some []

theorem behindEmptyLine_append {s u : CStr} (h : behindEmptyLine s = some u) (t : CStr) :
    behindEmptyLine (s ++ t) = some (u ++ t) := by
  obtain ⟨v, hv, rfl⟩ := Option.map_eq_some_iff.mp h
  obtain ⟨w, rfl⟩ := (CStr.strstr_spec hv).1
  rw [behindEmptyLine, CStr.strstr_append hv t]
  rfl

theorem length_behindEmptyLine_iff (s t : CStr) :
    (behindEmptyLine (s ++ t)).map List.length = some t.length ↔ behindEmptyLine s = some [] := by
  constructor
  · intro h
    obtain ⟨v, hv, hlen⟩ := Option.map_eq_some_iff.mp h
    obtain ⟨u, hu, rfl⟩ := Option.map_eq_some_iff.mp hv
    have hle := (CStr.strstr_spec hu).1.length_le
    have hfour : (CStr.crlf ++ CStr.crlf).length = 4 := rfl
    rw [List.length_drop] at hlen
    have hfirst := CStr.strstr_eq_of_length_eq hu (by omega)
    rw [behindEmptyLine, hfirst]
    rfl
  · intro h
    rw [behindEmptyLine_append h t, List.nil_append]
    rfl

theorem exists_behindEmptyLine (hn : 1 < msg.numBodyParts) : ∃ u, behindEmptyLine (headText msg) = some u := by
  have hend : CStr.crlf ++ CStr.crlf <:+ headText msg := by
    rw [headText, if_neg (by omega), if_pos hn]
    refine List.suffix_append_of_suffix (List.suffix_append_of_suffix (List.suffix_append_of_suffix ?_))
    rw [contentLengthLine, CStr.fmt]
    simp only [List.flatten_cons, List.flatten_nil, List.append_assoc, List.append_nil]
    exact List.suffix_append_of_suffix (List.suffix_append_of_suffix
      (List.suffix_append_of_suffix (List.suffix_refl _)))
  obtain ⟨u, hu, -⟩ := CStr.exists_strstr (List.prefix_refl _) hend
  exact ⟨u.drop 4, by rw [behindEmptyLine, hu, Option.map_some]⟩

/-- **When the written length is true.** For no part and for one part, the first empty line has to be the
end of the headers. For several parts, the computed sum has to come out right. -/
theorem lengthTrue_iff {start : CStr} {lines : List CStr} {bodies : List Body} {nbytes : ℕ} {out : CStr}
    (h : httpishMsgWrite (msgOf start lines bodies) nbytes = some out) :
    LengthTrue out (msgOf start lines bodies) ↔ LengthFits (msgOf start lines bodies) := by
  obtain ⟨added, hadded⟩ := exists_holdsBodies start lines bodies
  obtain hout := httpishMsgWrite_text h
  generalize msgOf start lines bodies = msg at hadded hout
  rw [LengthTrue, LengthFits, hout]
  rcases Nat.lt_trichotomy msg.numBodyParts 1 with hn | hn | hn
  · -- nothing is announced and nothing is counted
    have hzero : msg.numBodyParts = 0 := by omega
    have hcounted : countedText msg = [] := if_pos hzero
    rw [if_neg (by omega), announcedLength, if_pos hzero, hcounted]
    exact length_behindEmptyLine_iff (headText msg) []
  · -- the length of the part is announced
    have hmem : msg.mesgBody 0 ∈ msg.parts :=
      List.mem_map.mpr ⟨0, List.mem_range.mpr (by omega), rfl⟩
    obtain ⟨b, hb⟩ := hadded.exists_partOf hmem
    have hcounted : countedText msg = b.body := by
      rw [countedText, if_neg (by omega), if_neg (by omega), hb.take_body]
    rw [if_neg (by omega), announcedLength, if_neg (by omega), if_neg (by omega), hcounted, hb.msgLength]
    exact length_behindEmptyLine_iff (headText msg) b.body
  · -- the computed sum is announced
    obtain ⟨u, hu⟩ := exists_behindEmptyLine hn
    have hparts := hadded.length_partsText (by omega)
    have hsum := hadded.multipartLength_add
    have hcounted : (countedText msg).length = (partsText msg).length + 40 := by
      have hdelimiter : (boundaryLine.drop 2).length = 18 := rfl
      have hclosing : closingLine.length = 22 := rfl
      rw [countedText, if_neg (by omega), if_pos hn, List.length_append, List.length_append]
      omega
    rw [if_pos hn, announcedLength, if_neg (by omega), if_pos hn, behindEmptyLine_append hu, hu,
      Option.map_some, Option.some.injEq, Option.getD_some, List.length_append]
    constructor <;> intro hlen <;> omega

/-! ## Usual messages -/

/-- A line that can be told from the others. -/
def IsLine (l : CStr) : Prop := l ≠ [] ∧ IsPlain l

theorem lines_msgOf (start : CStr) (lines : List CStr) (bodies : List Body) :
    (msgOf start lines bodies).mesgLine = some start ∧ (msgOf start lines bodies).headers = lines := by
  have hrun : ∀ msg : HttpishMsg, (bodies.foldl (fun msg b => (msg.addBody b).2) msg).mesgLine =
      msg.mesgLine ∧ (bodies.foldl (fun msg b => (msg.addBody b).2) msg).headers = msg.headers := by
    induction bodies with
    | nil => exact fun msg => ⟨rfl, rfl⟩
    | cons b bodies ih =>
      intro msg
      have hstep : (msg.addBody b).2.mesgLine = msg.mesgLine ∧ (msg.addBody b).2.headers = msg.headers := by
        rw [HttpishMsg.addBody]
        split_ifs <;> exact ⟨rfl, rfl⟩
      obtain ⟨hline, hheaders⟩ := ih (msg.addBody b).2
      exact ⟨hline.trans hstep.1, hheaders.trans hstep.2⟩
  exact hrun _

theorem IsPlain.append {l l' : CStr} (h : IsPlain l) (h' : IsPlain l') : IsPlain (l ++ l') := by
  intro c hc
  rcases List.mem_append.mp hc with hc | hc
  · exact h c hc
  · exact h' c hc

theorem isPlain_decimal (n : ℕ) : IsPlain (CStr.decimal n) := by
  intro c hc
  have hdigit := CStr.isDigit_of_mem_decimal hc
  refine ⟨?_, ?_, ?_⟩ <;> rintro rfl <;> exact absurd hdigit (by decide)

/-- The line of the header `Content-Length`. -/
def contentLengthText (msg : HttpishMsg) : CStr :=
  "Content-Length: ".toList ++ CStr.decimal (announcedLength msg)

theorem contentLengthLine_eq (msg : HttpishMsg) : contentLengthLine msg = linesText [contentLengthText msg] := by
  have hcrlf : ("\r\n" : String).toList = CStr.crlf := rfl
  have hname : headerContentLength ++ ": ".toList = "Content-Length: ".toList := by decide
  unfold contentLengthLine contentLengthText
  generalize CStr.decimal (announcedLength msg) = digits
  rw [← hname, hcrlf]
  simp only [linesText, CStr.fmt, List.flatten_cons, List.flatten_nil, List.flatMap_cons,
    List.flatMap_nil, List.append_assoc, List.append_nil]

theorem isLine_contentLengthText (msg : HttpishMsg) : IsLine (contentLengthText msg) := by
  have hname : IsPlain "Content-Length: ".toList := by decide
  exact ⟨List.cons_ne_nil _ _, hname.append (isPlain_decimal _)⟩

/-- The line of the header `Content-Type` for several parts. -/
def multipartTypeText : CStr := "Content-Type: multipart/mixed; boundary=uniqueBoundary"

/-- The line of the header `Mime-Version`. -/
def mimeVersionText : CStr := "Mime-Version: 1.0"

/-- The lines of the headers for several parts. -/
def multipartLines (msg : HttpishMsg) : List CStr :=
  [multipartTypeText, mimeVersionText, contentLengthText msg]

theorem isLine_multipartLines (msg : HttpishMsg) : ∀ l ∈ multipartLines msg, IsLine l := by
  intro l hl
  simp only [multipartLines, List.mem_cons, List.not_mem_nil, or_false] at hl
  rcases hl with rfl | rfl | rfl
  · exact ⟨by decide, by decide⟩
  · exact ⟨by decide, by decide⟩
  · exact isLine_contentLengthText msg

theorem headText_of_several (hn : 1 < msg.numBodyParts) :
    headText msg = linesText (msg.mesgLine.getD [] :: (msg.headers ++ multipartLines msg)) ++ CStr.crlf := by
  have htype : multipartTypeLine = linesText [multipartTypeText] := by decide
  have hmime : mimeVersionLine = linesText [mimeVersionText] := by decide
  rw [headText, if_neg (by omega), if_pos hn, htype, hmime, contentLengthLine_eq, lineTexts,
    multipartLines]
  simp only [linesText, List.flatMap_cons, List.flatMap_append, List.flatMap_nil, List.append_assoc, List.append_nil]

def textBody (body : CStr) : Body := ⟨body, "text/plain", .session, true, none⟩

/-- A message with as many text parts as the list has texts. -/
def textMsg (bodies : List CStr) : HttpishMsg :=
  msgOf "NOTIFY sip:a@b SIP/2.0" ["To: b"] (bodies.map textBody)

/-- Whether the length is true can be decided. -/
instance (out : CStr) (msg : HttpishMsg) : Decidable (LengthTrue out msg) :=
  inferInstanceAs (Decidable (_ = _))

/-- Whether the length comes out right can be decided. -/
instance (msg : HttpishMsg) : Decidable (LengthFits msg) := by
  unfold LengthFits
  infer_instance

/-- The length of one part is true. -/
theorem lengthTrue_onePart :
    ∃ out, httpishMsgWrite (textMsg ["hello"]) 4096 = some out ∧ LengthTrue out (textMsg ["hello"]) := by
  have hsome : (httpishMsgWrite (textMsg ["hello"]) 4096).isSome = true := by decide +kernel
  obtain ⟨out, h⟩ := Option.isSome_iff_exists.mp hsome
  have hfits : LengthFits (textMsg ["hello"]) := by decide +kernel
  exact ⟨out, h, (lengthTrue_iff h).mpr hfits⟩

/-- With three parts the computed length is too small by two. -/
theorem not_lengthTrue_threeParts :
    ∃ out, httpishMsgWrite (textMsg ["a", "b", "c"]) 4096 = some out ∧
      ¬ LengthTrue out (textMsg ["a", "b", "c"]) := by
  have hsome : ∃ out ∈ httpishMsgWrite (textMsg ["a", "b", "c"]) 4096,
      (behindEmptyLine out).map List.length ≠ some (announcedLength (textMsg ["a", "b", "c"])) := by
    decide +kernel
  exact hsome

/-! ## Read back -/

/-- A body that can be told from its headers, and that is not several parts. -/
structure Body.Readable (b : Body) : Prop where
  ne_nil : b.body ≠ []
  nulFree : NulFree b.body
  not_blank : isBlank b.body.peek = false
  length_lt : b.body.length < 2 ^ 31
  type : IsHeaderLine b.contentType
  single : startsWith b.contentType multipartMixed = false
  contentId : ∀ contentId ∈ b.contentId, IsPlain contentId

/-- The message with one part, as it is written. -/
def onePart (start : CStr) (lines : List CStr) (b : Body) : Message :=
  let msg := msgOf start lines [b]
  ⟨start, lines ++ contentLengthText msg :: partLines (msg.mesgBody 0), b.body⟩

theorem cachedHeader_of_name {l name : CStr} (h : headerNameVal l = some name) :
    cachedHeader l = cachedHeaders.find? (·.matches name) := by
  rw [cachedHeader, h]
  rfl

theorem headerValues_inner {h : CachedHeader} {front inner back : List CStr}
    (hother : ∀ l ∈ front ++ back, cachedHeader l ≠ some h) :
    headerValues h (front ++ (inner ++ back)) = headerValues h inner := by
  have hnil : ∀ l' : List CStr, (∀ l ∈ l', cachedHeader l ≠ some h) →
      l'.filter (fun l => cachedHeader l = some h) = [] := fun l' hl' =>
    List.filter_eq_nil_iff.mpr (by simpa using hl')
  obtain ⟨hfront, hback⟩ := List.forall_mem_append.mp hother
  rw [headerValues, List.filter_append, List.filter_append, hnil front hfront, hnil back hback, List.nil_append,
    List.append_nil]
  rfl

theorem dropWhile_isBlank {s : CStr} (h : isBlank s.peek = false) : s.dropWhile isBlank = s := by
  cases s with
  | nil => rfl
  | cons c s => exact List.dropWhile_cons_of_neg (by simpa using h)

theorem isBlank_peek_decimal (n : ℕ) : isBlank (CStr.decimal n).peek = false := by
  obtain ⟨c, s, hs⟩ := List.exists_cons_of_ne_nil (CStr.decimal_ne_nil n)
  have hc := CStr.isDigit_of_mem_decimal (hs ▸ List.mem_cons_self : c ∈ CStr.decimal n)
  rw [hs, CStr.peek_cons, Bool.eq_false_iff]
  intro hblank
  rcases (by simpa [isBlank] using hblank : c = ' ' ∨ c = '\t') with rfl | rfl <;> exact absurd hc (by decide)

/-- The lines behind the content type of a part. -/
theorem isHeaderLine_tail_partLines {p : MsgBody} (hid : ∀ contentId ∈ p.msgContentId, IsPlain contentId) :
    ∀ l ∈ (partLines p).tail, IsHeaderLine l ∧ cachedHeader l = none := by
  refine List.forall_mem_cons.mpr ⟨⟨⟨List.cons_ne_nil _ _, ?_, rfl⟩, ?_⟩, List.forall_mem_map.mpr fun contentId h => ?_⟩
  · cases p.msgContentDisp <;> cases p.msgRequiredHandling <;> decide
  · exact (@cachedHeader_of_name _ "Content-Disposition".toList rfl).trans (by decide)
  · have hname : IsPlain "Content-Id: ".toList := by decide
    have hplain := hname.append (hid _ (Option.mem_toList.mp h))
    refine ⟨⟨List.cons_ne_nil _ _, by simpa [CStr.fmt] using hplain, rfl⟩, ?_⟩
    exact (@cachedHeader_of_name _ "Content-Id".toList rfl).trans (by decide)

end Httpish
