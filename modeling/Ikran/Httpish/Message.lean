import Ikran.Httpish.Stream

/-!
# Parsing a message

The message structure of `httpish.c`, and `httpish_msg_process_network_msg`, which fills it from the
bytes of a packet. Lines, values and bodies are copied by the code, so that they are texts of their own
here.
-/

namespace Httpish

/-! ## Messages -/

/-- The values of `SIP_CONTENT_DISPOSITION`. -/
inductive ContentDisp
  | unknown | render | session | icon | alert | precondition

/-- The values of `SIP_CONTENT_TYPE`. -/
inductive ContentType
  | unknown | sdp | sip | sipfrag | dialog | mwi | kpmlRequest | kpmlResponse | remoteccRequest
  | remoteccResponse | cti | cmxml | multipartMixed | multipartAlternative | textPlain | presence
  | configapp

/-- The values of `SIP_CONTENT_ENCODING`. -/
inductive ContentEnc
  | identity | unknown

/-- `msgBody_t`, as `httpish_msg_create` sets it up. -/
structure MsgBody where
  msgContentDisp : ContentDisp := .session
  msgRequiredHandling : Bool := true
  msgContentTypeValue : ContentType := .unknown
  msgContentType : Option CStr := none
  msgBody : Option CStr := none
  msgLength : ℕ := 0
  msgContentId : Option CStr := none
  msgContentEnc : ContentEnc := .identity

/-- The indices of `sip_cached_headers`. -/
inductive CachedHeader
  | «from» | to | via | callId | cseq | contact | contentLength | contentType | recordRoute | require
  | route | supported
  deriving DecidableEq

/-- `httpish_cache_t`: a header line with its value. -/
structure HttpishCache where
  hdrStart : CStr
  valStart : CStr

/-- `httpishMsg_t`, as `httpish_msg_create` sets it up. -/
structure HttpishMsg where
  mesgLine : Option CStr := none
  headers : List CStr := []
  mesgBody : ℕ → MsgBody := fun _ => {}
  rawBody : Option CStr := none
  contentLength : ℤ := 0
  numBodyParts : ℕ := 0
  isComplete : Bool := false
  headersRead : Bool := false
  hdrCache : CachedHeader → Option HttpishCache := fun _ => none

/-- `HTTPISH_MAX_BODY_PARTS`. -/
def maxBodyParts : ℕ := 6

/-- `hStatus_t`. -/
inductive HStatus
  | success | failure
  deriving DecidableEq

/-! ## Headers -/

/-- `HTTPISH_HEADER_CONTENT_LENGTH`. -/
def headerContentLength : CStr := "Content-Length"

/-- `HTTPISH_HEADER_CONTENT_TYPE`. -/
def headerContentType : CStr := "Content-Type"

/-- `HTTPISH_HEADER_CONTENT_ENCODING`. -/
def headerContentEncoding : CStr := "Content-Encoding"

/-- `HTTPISH_HEADER_CONTENT_ID`. -/
def headerContentId : CStr := "Content-Id"

/-- `SIP_HEADER_CONTENT_DISP`. -/
def headerContentDisp : CStr := "Content-Disposition"

/-- `sip_cached_headers`: the name of a header, and its compact form. -/
def sipCachedHeaders : CachedHeader → CStr × Option CStr
  | .from => ("From", some "f")
  | .to => ("To", some "t")
  | .via => ("Via", some "v")
  | .callId => ("Call-ID", some "i")
  | .cseq => ("CSeq", none)
  | .contact => ("Contact", some "m")
  | .contentLength => (headerContentLength, some "l")
  | .contentType => (headerContentType, some "c")
  | .recordRoute => ("Record-Route", none)
  | .require => ("Require", none)
  | .route => ("Route", none)
  | .supported => ("Supported", some "k")

/-- The order of the table. -/
def cachedHeaders : List CachedHeader :=
  [.from, .to, .via, .callId, .cseq, .contact, .contentLength, .contentType, .recordRoute, .require,
    .route, .supported]

/-- `HTTPISH_HEADER_NAME_SIZE`. -/
def headerNameSize : ℕ := 256

def isNameChar (c : Char) : Bool := 32 < c.toNat && c.toNat < 127 && c != ':'

/-- `httpish_header_name_val`: the name in front of the colon, unless the line has none. -/
def headerNameVal (line : CStr) : Option CStr :=
  let line := line.dropWhile isBlank
  let name := (line.takeWhile isNameChar).take headerNameSize
  let rest := line.drop name.length
  if name.length < headerNameSize ∧ CStr.peek (rest.dropWhile isBlank) = ':' then some name else none

/-- The name is that of the header, or its compact form. -/
def CachedHeader.matches (h : CachedHeader) (name : CStr) : Bool :=
  CStr.strcaseEq name (sipCachedHeaders h).1 ||
    (sipCachedHeaders h).2.any fun compact => CStr.strcaseEq name compact

/-- The cached header that a line is. -/
def cachedHeader (line : CStr) : Option CachedHeader :=
  (headerNameVal line).bind fun name => cachedHeaders.find? fun h => h.matches name

/-- The text behind the colon and the blanks that follow it. -/
def headerValue (line : CStr) : CStr := (line.dropWhile (· != ':')).tail.dropWhile isBlank

/-- An entry of the cache with one more line of its header. -/
def HttpishCache.append (entry : Option HttpishCache) (line : CStr) : HttpishCache :=
  match entry with
  | none => ⟨line, headerValue line⟩
  | some e => ⟨e.hdrStart ++ ',' :: headerValue line, e.valStart ++ ',' :: headerValue line⟩

/-- What is done with a header line: `httpish_cache_header_val`, and the list of headers for the lines
that it does not take. -/
def HttpishMsg.addHeader (hmsg : HttpishMsg) (line : CStr) : HttpishMsg :=
  match cachedHeader line with
  | none => { hmsg with headers := hmsg.headers ++ [line] }
  | some h =>
    -- a cached header without a value is dropped
    if headerValue line = [] then hmsg
    else { hmsg with
      hdrCache := Function.update hmsg.hdrCache h (some (HttpishCache.append (hmsg.hdrCache h) line)) }

/-- `httpish_msg_get_cached_header_val`. -/
def HttpishMsg.cachedHeaderVal (hmsg : HttpishMsg) (h : CachedHeader) : Option CStr :=
  (hmsg.hdrCache h).map HttpishCache.valStart

/-- `get_content_length`, with `-1` for a missing or invalid value. -/
def HttpishMsg.getContentLength (hmsg : HttpishMsg) : ℤ :=
  match hmsg.cachedHeaderVal .contentLength with
  | none => -1
  | some val => if val.all Char.isDigit && val != [] then CStr.atoi val else -1

/-- The loop of `httpish_msg_get_header_val` for a header without a compact form. -/
def getHeaderVal (hname : CStr) : List CStr → Option CStr
  | [] => none
  | line :: lines =>
    match headerNameVal line with
    | none => none
    | some name =>
      if CStr.strcaseEq name hname then
        let val := (line.dropWhile (· != ':')).tail.dropWhile (· = ' ')
        if val = [] then none else some val
      else getHeaderVal hname lines

/-- The zero test of `httpish_strncasecmp` for the length of the second text: blanks may follow it. -/
def httpishStrncaseEq (s t : CStr) : Bool :=
  CStr.strncaseEq s t t.length && (s.drop t.length).all isBlank

/-- The content types in the order of the tests. -/
def contentTypes : List (CStr × ContentType) :=
  [("application/sdp", .sdp), ("message/sipfrag", .sipfrag), ("text/plain", .textPlain),
    ("application/sip", .sip), ("application/simple-message-summary", .mwi),
    ("multipart/mixed", .multipartMixed), ("multipart/alternative", .multipartAlternative),
    ("application/dialog-info+xml", .dialog), ("application/kpml-request+xml", .kpmlRequest),
    ("application/kpml-response+xml", .kpmlResponse),
    ("application/x-cisco-remotecc-request+xml", .remoteccRequest),
    ("application/x-cisco-config+xml", .configapp),
    ("application/x-cisco-remotecc-response+xml", .remoteccResponse),
    ("application/pidf+xml", .presence), ("application/x-cisco-remotecc-cm+xml", .cmxml),
    ("application/x-cisco-cti+xml", .cti)]

def getContentTypeValue (contentType : CStr) : ContentType :=
  match contentTypes.find? fun entry => httpishStrncaseEq contentType entry.1 with
  | some entry => entry.2
  | none => .unknown

/-! ## Multipart bodies -/

/-- The line starts with the header, up to case. -/
def startsWith (line header : CStr) : Bool := CStr.strncaseEq line header header.length

/-- The text behind a header name, the character behind it and the spaces that follow. -/
def valueBehind (line header : CStr) : CStr := (line.drop (header.length + 1)).dropWhile (· = ' ')

/-- The disposition in a line, and the text from the parameters on. -/
def readDisposition (line : CStr) : ContentDisp × CStr :=
  let disp := valueBehind line headerContentDisp
  if startsWith disp "session" then (.session, disp.drop 7) else (.unknown, line.dropWhile (· != ';'))

/-- The handling parameter, if it is there. -/
def readHandling (params : CStr) : Option Bool :=
  if CStr.peek params = ';' ∧ startsWith params.tail "handling" then
    if startsWith (params.tail.drop 9) "required" then some true
    else if startsWith (params.tail.drop 9) "optional" then some false
    else none
  else none

/-- What is done with a header line of a part. -/
def MsgBody.addLine (part : MsgBody) (line : CStr) : MsgBody :=
  if startsWith line headerContentType then
    let contentType := valueBehind line headerContentType
    { part with
      msgContentTypeValue := getContentTypeValue contentType
      msgContentType := some contentType }
  else if startsWith line headerContentId then
    { part with msgContentId := some (valueBehind line headerContentId) }
  else if startsWith line headerContentDisp then
    { part with
      msgContentDisp := (readDisposition line).1
      msgRequiredHandling := (readHandling (readDisposition line).2).getD part.msgRequiredHandling }
  else if startsWith line headerContentEncoding then
    let contentEnc := valueBehind line headerContentEncoding
    { part with msgContentEnc := if CStr.strcaseEq contentEnc "identity" then .identity else .unknown }
  else part

/-- The bytes that are left are the body of the part. -/
def MsgBody.setBody (part : MsgBody) (rs : Rstream) : MsgBody :=
  { part with
    -- the length is unsigned
    msgLength := (((rs.nbytes : ℤ) - rs.bytesRead) % 2 ^ 32).toNat
    msgBody := (rstreamReadBytes rs (rs.nbytes - rs.bytesRead)).1.or part.msgBody }

/-- The loop of `msg_process_one_body`, with the fuel for `fuel` lines. -/
def oneBodyLoop : ℕ → Rstream → MsgBody → MsgBody
  | 0, _, part => part
  | fuel + 1, rs, part =>
    match rstreamReadLine rs with
    | (none, _) => part
    | (some [], rs') => part.setBody rs'
    | (some line, rs') => oneBodyLoop fuel rs' (part.addLine line)

def isBreak (c : Char) : Bool := c = '\r' || c = '\n'

/-- `msg_process_one_body` for the text from `msg_start` on, where `msg_end` is `size` bytes behind it. -/
def msgProcessOneBody (hmsg : HttpishMsg) (msgStart : CStr) (size : ℕ) (part : ℕ) : HttpishMsg :=
  let start := msgStart.dropWhile isBreak
  let nbytes := size - (msgStart.length - start.length)
  match rstreamCreate start nbytes with
  | none => hmsg
  | some rs =>
    { hmsg with
      mesgBody := Function.update hmsg.mesgBody part (oneBodyLoop nbytes rs (hmsg.mesgBody part)) }

def msgDelimitSize : ℕ := 80

/-- The characters behind which the boundary does not go on. -/
def endsBoundary (c : Char) : Bool := isBreak c || c = ';'

/-- The loop of `msg_process_multiple_bodies`, with the fuel for the parts that there is room for. -/
def multipleBodiesLoop (msgDelimit : CStr) : ℕ → HttpishMsg → CStr → ℕ → HttpishMsg × ℕ
  | 0, hmsg, _, bodyPart => (hmsg, bodyPart)
  | fuel + 1, hmsg, rawBody, bodyPart =>
    match CStr.strstr msgDelimit rawBody with
    | none => (hmsg, bodyPart)
    | some found =>
      let msgStart := found.drop (msgDelimit.length + 1)
      match CStr.strstr msgDelimit msgStart with
      | none => (hmsg, bodyPart)
      | some msgEnd =>
        let hmsg := msgProcessOneBody hmsg msgStart (msgStart.length - msgEnd.length - 1) bodyPart
        if CStr.peek (msgEnd.drop msgDelimit.length) = '-' then (hmsg, bodyPart + 1)
        else multipleBodiesLoop msgDelimit fuel hmsg msgEnd (bodyPart + 1)

/-- `msg_process_multiple_bodies`: the message, and the number of its parts. -/
def msgProcessMultipleBodies (hmsg : HttpishMsg) (boundary rawBody : CStr) : HttpishMsg × ℕ :=
  let tag := boundary.takeWhile fun c => !endsBoundary c
  if msgDelimitSize ≤ tag.length + 1 then (hmsg, 0)
  else multipleBodiesLoop ("--" ++ tag) maxBodyParts hmsg rawBody 0

/-! ## The parser -/

/-- The loop that reads the message line, with the fuel for `fuel` lines. -/
def readMesgLine : ℕ → Rstream → Option CStr × Rstream
  | 0, rs => (none, rs)
  | fuel + 1, rs =>
    match rstreamReadLine rs with
    | (none, rs') => (none, rs')
    | (some [], rs') => readMesgLine fuel rs'
    | (some mline, rs') => (some mline, rs')

/-- The loop that reads the headers, with the fuel for `fuel` lines. -/
def readHeaders : ℕ → HttpishMsg → Rstream → HttpishMsg × Rstream
  | 0, hmsg, rs => (hmsg, rs)
  | fuel + 1, hmsg, rs =>
    match rstreamReadLine rs with
    | (none, rs') => (hmsg, rs')
    | (some [], rs') => ({ hmsg with headersRead := true }, rs')
    | (some line, rs') => readHeaders fuel (hmsg.addHeader line) rs'

/-- The type of a body that has several parts. -/
def multipartMixed : CStr := "multipart/mixed"

/-- The body is parsed as the content type says. -/
def HttpishMsg.setBody (hmsg : HttpishMsg) (contentType rawBody : CStr) : HttpishMsg :=
  if startsWith contentType multipartMixed then
    match contentType.dropWhile (· != '=') with
    | [] => { hmsg with rawBody := some rawBody }
    | _ :: boundary =>
      let (hmsg, numBodies) := msgProcessMultipleBodies hmsg boundary rawBody
      { hmsg with
        numBodyParts := if numBodies = 0 then hmsg.numBodyParts else numBodies
        rawBody := some rawBody }
  else
    { hmsg with
      mesgBody := Function.update hmsg.mesgBody 0
        { hmsg.mesgBody 0 with
          msgBody := some rawBody
          msgContentId :=
            (getHeaderVal headerContentId hmsg.headers).or (hmsg.mesgBody 0).msgContentId
          msgContentTypeValue := getContentTypeValue contentType
          msgContentType := some contentType
          msgContentDisp := .session
          msgRequiredHandling := true
          msgLength := hmsg.contentLength.toNat }
      numBodyParts := 1
      rawBody := some rawBody }

/-- The rest of `httpish_msg_process_network_msg` when the headers have been read. The numbers are the
value of `*nbytes` on entry and on return. -/
def processBody (hmsg : HttpishMsg) (rs : Rstream) (nbytes : ℕ) : HStatus × HttpishMsg × ℕ :=
  let bytesRemaining := rs.nbytes - rs.bytesRead
  -- a missing or bad length stands for what is left
  let length := if hmsg.getContentLength = -1 then (bytesRemaining : ℤ) else hmsg.getContentLength
  if (bytesRemaining : ℤ) < length then
    let hmsg := { hmsg with contentLength := bytesRemaining, isComplete := false }
    if 0 < bytesRemaining then
      match rstreamReadBytes rs bytesRemaining with
      | (none, _) => (.failure, hmsg, nbytes)
      | (some _, rs') => (.success, hmsg, rs'.bytesRead)
    else (.success, hmsg, rs.bytesRead)
  else
    let hmsg := { hmsg with contentLength := length, isComplete := true }
    if 0 < length then
      match rstreamReadBytes rs length.toNat with
      | (none, _) => (.failure, hmsg, nbytes)
      | (some rawBody, rs') =>
        match hmsg.cachedHeaderVal .contentType with
        | none => (.success, { hmsg with isComplete := false, contentLength := -1 }, nbytes)
        | some contentType => (.success, hmsg.setBody contentType rawBody, rs'.bytesRead)
    else (.success, hmsg, rs.bytesRead)

/-- What is returned when a line could not be read. -/
def lineStatus (rs : Rstream) : HStatus := if rs.eof then .success else .failure

/-- `httpish_msg_process_network_msg`: the status, the message, and the value of `*nbytes` on return. -/
def msgProcessNetworkMsg (hmsg : HttpishMsg) (nmsg : CStr) (nbytes : ℕ) :
    HStatus × HttpishMsg × ℕ :=
  match rstreamCreate nmsg nbytes with
  | none => (.failure, hmsg, nbytes)
  | some rs =>
    if hmsg.isComplete then (.success, hmsg, 0)
    else
      let (mesgLine, rs) :=
        if hmsg.mesgLine.isSome then (hmsg.mesgLine, rs) else readMesgLine nbytes rs
      if mesgLine.isNone then (lineStatus rs, hmsg, rs.bytesRead)
      else
        let hmsg := { hmsg with mesgLine := mesgLine }
        let (hmsg, rs) := if hmsg.headersRead then (hmsg, rs) else readHeaders nbytes hmsg rs
        if hmsg.headersRead then processBody hmsg rs nbytes else (lineStatus rs, hmsg, rs.bytesRead)

end Httpish
