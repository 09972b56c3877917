import Ikran.Sip.Scanners

/-!
# SIP URLs

The parser of SIP URLs, of `ccsip_pmh.c`. The code cuts the tokens out of its copy of the text in place:
a token ends where the first terminator is written behind its start. The model keeps the characters of a
token up to that place.

The parser of `tel` URLs is a parameter, and so is the check for an IPv6 address, `cpr_inet_pton`.
-/

namespace Sip

open CStr

inductive ParseErr
  | noMemory | syntaxErr | unexpectedEos | invalidTtlVal
  deriving DecidableEq

inductive Transport
  | unspecified | udp | tcp | tls | sctp

/-- `sipUrl_t`. -/
structure SipUrl where
  user : Option CStr := none
  password : Option CStr := none
  host : CStr := []
  maddr : Option CStr := none
  method : Option CStr := none
  port : UInt16 := 0
  portPresent : Bool := false
  transport : Transport := .unspecified
  isPhone : Bool := false
  ttlVal : ℕ := 0
  headers : List (CStr × CStr) := []
  lrFlag : Bool := false
  isIpv6 : Bool := false

inductive UrlSchema
  | sip | tel | cid | unknown
  deriving DecidableEq

/-- `genUrl_t` of a SIP URL. -/
structure GenUrl where
  schema : UrlSchema
  sips : Bool := false
  phoneContext : Option CStr := none
  /-- The places of `other_params` that are taken. -/
  otherParams : List CStr := []
  sipUrl : SipUrl := {}

/-! ## Parameters -/

/-- The characters that `SKIP_SIP_TOKEN` skips. -/
def isSipTokenChar (c : Char) : Bool := c.isAlphanum || c ∈ "-.!%*_+`':~@".toList

def skipSipToken (s : CStr) : CStr := s.dropWhile isSipTokenChar

def sipMaxOtherParamLength : ℕ := 256

def sipMaxLocations : ℕ := 6

/-- The text behind a quoted string, up to a quote that is not behind a backslash. The first argument is
the character in front. -/
def skipQuoted : Char → CStr → CStr
  | _, [] => []
  | before, c :: s => if c = '"' ∧ before ≠ '\\' then s else skipQuoted c s

/-- `parse_other_param`: the parameter, if it is stored, and the text behind it. -/
def parseOtherParam (inpStr : CStr) : Option (Option CStr × CStr) :=
  let tokenString := skipLws inpStr
  let inpStr := skipSipToken tokenString
  if inpStr.peek = ',' ∨ inpStr.peek = nul ∨ inpStr.peek = ';' then
    let token := textUpTo tokenString (some inpStr)
    some (if strcaseEq token "lr" then some token else none, inpStr)
  else if inpStr.peek = '=' then
    let inpStr :=
      if CStr.peek inpStr.tail = '"' then skipQuoted '"' inpStr.tail.tail
      else inpStr.tail.dropWhile (· ≠ ';')
    some (some ((textUpTo tokenString (some inpStr)).take (sipMaxOtherParamLength - 1)), inpStr)
  else none

/-- The characters of a value that is cut behind the parameter. -/
def upToSemicolon (s : CStr) : CStr := s.takeWhile (· ≠ ';')

/-- The value of `transport=`. -/
def parseTransport (s : CStr) (g : GenUrl) : Except ParseErr (GenUrl × CStr) :=
  let set (t : Transport) : GenUrl := { g with sipUrl := { g.sipUrl with transport := t } }
  if strncaseEq s "tcp" 3 then .ok (set .tcp, s.drop 3)
  else if strncaseEq s "tls" 3 then .ok (set .tls, s.drop 3)
  else if strncaseEq s "sctp" 4 then .ok (set .sctp, s.drop 4)
  else if strncaseEq s "udp" 3 then .ok (set .udp, s.drop 3)
  else
    let s := skipLws (skipSipToken s)
    if s.peek ≠ ';' ∧ s.peek ≠ nul then .error .syntaxErr else .ok (g, s)

/-- The value of `user=`. -/
def parseUserParam (s : CStr) (g : GenUrl) : Except ParseErr (GenUrl × CStr) :=
  if strncaseEq s "phone" 5 then
    .ok ({ g with sipUrl := { g.sipUrl with isPhone := true } }, s.drop 5)
  else if strncaseEq s "ip" 2 then .ok (g, s.drop 2)
  else .error .syntaxErr

/-- The value of `method=`. -/
def parseMethodParam (s : CStr) (g : GenUrl) : Except ParseErr (GenUrl × CStr) :=
  if s.peek.isAlpha = false then .error .unexpectedEos
  else
    .ok ({ g with sipUrl := { g.sipUrl with method := some (upToSemicolon s) } },
      s.dropWhile Char.isAlpha)

def maxTtlVal : ℕ := 255

/-- The value of `ttl=`. -/
def parseTtlParam (s : CStr) (g : GenUrl) : Except ParseErr (GenUrl × CStr) :=
  let digits := s.takeWhile Char.isDigit
  if 3 < digits.length then .error .syntaxErr
  else if s.peek.isDigit = false then .error .unexpectedEos
  else if maxTtlVal < (atoi digits).toNat then .error .invalidTtlVal
  else
    .ok ({ g with sipUrl := { g.sipUrl with ttlVal := (atoi digits).toNat } },
      s.dropWhile Char.isDigit)

/-- The characters of the value of `maddr=`. -/
def isMaddrChar (c : Char) : Bool := c.isAlphanum || c = '.' || c = '-'

/-- The value of `maddr=`. -/
def parseMaddrParam (s : CStr) (g : GenUrl) : Except ParseErr (GenUrl × CStr) :=
  if isMaddrChar s.peek = false then .error .unexpectedEos
  else
    .ok ({ g with sipUrl := { g.sipUrl with maddr := some (upToSemicolon s) } },
      s.dropWhile isMaddrChar)

/-- The value of `phone-context=`, which a space may end. -/
def parsePhoneContextParam (s : CStr) (g : GenUrl) : Except ParseErr (GenUrl × CStr) :=
  if s.peek.isAlpha = false then .error .syntaxErr
  else
    let rest : CStr := s.dropWhile Char.isAlpha
    .ok ({ g with phoneContext := some (s.takeWhile Char.isAlpha) },
      if isSpace rest.peek then rest.tail else rest)

/-- A parameter that is not known, which is stored in the first free place. -/
def storeOtherParam (s : CStr) (g : GenUrl) : Except ParseErr (GenUrl × CStr) :=
  match parseOtherParam s with
  | none => .error .syntaxErr
  | some (none, rest) => .ok (g, rest)
  | some (some param, rest) =>
    .ok (if g.otherParams.length = sipMaxLocations then g
      else { g with otherParams := g.otherParams ++ [param] }, rest)

/-- One parameter: the URL with its value, and the text behind it. -/
def parseUrlParam (s : CStr) (g : GenUrl) : Except ParseErr (GenUrl × CStr) :=
  if strncaseEq s "transport=" 10 then parseTransport (skipLws (s.drop 10)) g
  else if strncaseEq s "user=" 5 then parseUserParam (skipLws (s.drop 5)) g
  else if strncaseEq s "method=" 7 then parseMethodParam (skipLws (s.drop 7)) g
  else if strncaseEq s "ttl=" 4 then parseTtlParam (skipLws (s.drop 4)) g
  else if strncaseEq s "maddr=" 6 then parseMaddrParam (skipLws (s.drop 6)) g
  else if strncaseEq s "phone-context=" 14 then parsePhoneContextParam (skipLws (s.drop 14)) g
  else if strncaseEq s "lr" 2 then
    .ok ({ g with sipUrl := { g.sipUrl with lrFlag := true } }, s.dropWhile (· ≠ ';'))
  else storeOtherParam s g

/-- The loop of `parseUrlParams`, with the fuel for as many parameters. -/
def parseUrlParamsLoop : ℕ → CStr → GenUrl → Except ParseErr GenUrl
  | 0, _, g => .ok g
  | fuel + 1, s, g => do
    let (g, s) ← parseUrlParam s g
    let s := skipLws s
    if s.peek = nul then .ok g
    else if s.peek ≠ ';' then .error .syntaxErr
    else
      let s := skipLws s.tail
      if s.peek = nul then .error .unexpectedEos else parseUrlParamsLoop fuel s g

def parseUrlParams (urlParam : CStr) (g : GenUrl) : Except ParseErr GenUrl :=
  let s := skipLws urlParam
  if s.peek = nul then .error .unexpectedEos else parseUrlParamsLoop s.length s g

/-- The attribute and the value of a header. -/
def splitHeader (s : CStr) : Except ParseErr (CStr × CStr) :=
  if '=' ∈ s then .ok (s.takeWhile (· ≠ '='), (s.dropWhile (· ≠ '=')).tail) else .error .syntaxErr

/-- `url_add_headers_to_list`. The number of the headers is a signed byte. -/
def urlAddHeadersToList (urlStrp : CStr) (g : GenUrl) : Except ParseErr GenUrl := do
  let numHead : ℤ := ((urlStrp.count '&' + 1 : ℕ) : ℤ).bmod (2 ^ 8)
  if numHead < 0 then .error .noMemory
  else
    let pieces :=
      match strtok "&?" urlStrp with
      | none => []
      | some (piece, rest) => piece :: strtokAll "&" rest
    let headers ← (pieces.take numHead.toNat).mapM splitHeader
    .ok { g with sipUrl := { g.sipUrl with headers := headers } }

/-! ## Tokens -/

/-- The loop over `temp_url`: an at sign follows, so that the present character belongs to the user. -/
def parsingUserPart : CStr → Bool
  | [] => false
  | c :: s => if c = '@' then true else if c = '?' then false else parsingUserPart s

/-- The variables of the loop of `parseSipUrl`. -/
structure UrlScan where
  tokens : List CStr := []
  token : CStr := []
  cut : Bool := false
  separators : List Char := []
  ipv6Addr : Bool := false

/-- The tokens that are counted, with the separators behind them, the character that ended the loop, and
the text behind it. -/
structure UrlTokens where
  tokens : List CStr
  separators : List Char
  ipv6Addr : Bool
  ch : Char
  rest : CStr

namespace UrlScan

/-- A terminator is written. -/
def close (st : UrlScan) : UrlScan := { st with cut := true }

/-- The characters are part of the present token, unless it is cut. -/
def put (st : UrlScan) (s : CStr) : UrlScan := if st.cut then st else { st with token := st.token ++ s }

/-- The next token starts behind a separator. -/
def next (st : UrlScan) (separator : Char) (ipv6Addr : Bool) : UrlScan where
  tokens := st.tokens ++ [st.token]
  separators := st.separators ++ [separator]
  ipv6Addr := ipv6Addr

def finish (st : UrlScan) (ch : Char) (rest : CStr) : UrlTokens where
  tokens := st.tokens ++ [st.token]
  separators := st.separators
  ipv6Addr := st.ipv6Addr
  ch := ch
  rest := rest

/-- The text ends behind a separator, and the last token is not counted. -/
def finishEmpty (st : UrlScan) : UrlTokens where
  tokens := st.tokens
  separators := st.separators
  ipv6Addr := st.ipv6Addr
  ch := nul
  rest := []

end UrlScan

/-- The loop of `parseSipUrl`, with the fuel for as many characters. -/
def scanUrl : ℕ → CStr → UrlScan → Except ParseErr UrlTokens
  | 0, _, _ => .error .syntaxErr
  | fuel + 1, urlMain, st =>
    if (urlMain.peek = nul ∨ urlMain.peek = ';' ∨ urlMain.peek = '?') ∧
        parsingUserPart urlMain = false then
      .ok (st.finish urlMain.peek urlMain.tail)
    else if urlMain.peek = ':' ∧ st.ipv6Addr = false ∨ urlMain.peek = '@' ∨
        isLws urlMain.peek = true then
      let (urlMain, st) : CStr × UrlScan :=
        if isLws urlMain.peek then (skipLws urlMain.tail, st.close) else (urlMain, st)
      if urlMain.peek = ':' ∨ urlMain.peek = '@' then
        if st.separators.length = 3 then .error .syntaxErr
        else
          let separator := urlMain.peek
          let urlMain := skipLws urlMain.tail
          let (urlMain, ipv6Addr) : CStr × Bool :=
            if urlMain.peek = '[' then (urlMain.tail, true) else (urlMain, st.ipv6Addr)
          let st := st.next separator ipv6Addr
          if urlMain.peek = nul then .ok st.finishEmpty else scanUrl fuel urlMain st
      else scanUrl fuel urlMain st
    else if urlMain.peek = ']' ∧ st.ipv6Addr = true then scanUrl fuel urlMain.tail st.close
    else scanUrl fuel urlMain.tail (st.put [urlMain.peek])

/-! ## The parsers -/

def sipWellKnownPort : UInt16 := 5060

/-- The port that is read from a token, and whether it is present. -/
def readPort (s : CStr) : UInt16 × Bool :=
  let (n, endptr) := strtol s
  if endptr.peek = nul then (UInt16.ofInt n, true) else (0, false)

def SipUrl.withPort (u : SipUrl) (s : CStr) : SipUrl :=
  { u with port := (readPort s).1, portPresent := (readPort s).2 }

/-- The part of `parseSipUrl` that tells the tokens apart by their number. -/
def assignTokens (t : UrlTokens) : Except ParseErr SipUrl :=
  let url : SipUrl := { port := sipWellKnownPort }
  match t.tokens, t.separators with
  | [host], _ => .ok { url with host := host }
  | [a, b], separator :: _ =>
    if separator = '@' then .ok { url with user := some a, host := b, isIpv6 := t.ipv6Addr }
    else .ok ({ url with host := a }.withPort b)
  | [a, b, c], separator :: separator' :: _ =>
    if separator = separator' then .error .syntaxErr
    else if separator = '@' then .ok ({ url with user := some a, host := b }.withPort c)
    else .ok { url with user := some a, password := some b, host := c }
  | [a, b, c, d], separators =>
    if separators = [':', '@', ':'] then
      .ok ({ url with user := some a, password := some b, host := c }.withPort d)
    else .error .syntaxErr
  -- there are no other numbers of tokens
  | _, _ => .ok url

section

variable (inetPton6 : CStr → Bool)

def parseSipUrl (urlStart : CStr) (g : GenUrl) : Except ParseErr GenUrl := do
  let urlMain := skipLws urlStart
  let t ← scanUrl (urlMain.length + 1) urlMain {}
  let url ← assignTokens t
  let url := { url with host := trimIpv6Host url.host }
  if url.port = 0 then .error .syntaxErr
  else if sipSPIValidateIpAddrName inetPton6 url.host = false then .error .syntaxErr
  else
    let g := { g with sipUrl := url }
    if t.ch = ';' then parseUrlParams t.rest g
    else if t.ch = '?' then urlAddHeadersToList t.rest g
    else .ok g

/-- The schema at the start of a URL, and the length of its name. -/
def urlSchema (url : CStr) : UrlSchema × Bool × ℕ :=
  if strncaseEq url "sips" 4 then (.sip, true, 4)
  else if strncaseEq url "sip" 3 then (.sip, false, 3)
  else if strncaseEq url "tel" 3 then (.tel, false, 3)
  else if strncaseEq url "cid" 3 then (.cid, false, 3)
  else (.unknown, false, 0)

variable {TelUrl : Type} (parseTelUrl : CStr → Option TelUrl)

def sippmhParseUrl (url : CStr) : Option (GenUrl ⊕ TelUrl) :=
  let urlMain := skipLws url
  let (schema, sips, skipValue) := urlSchema urlMain
  let urlMain : CStr := urlMain.drop skipValue
  if urlMain.peek ≠ ':' then none
  else
    match schema with
    | .cid | .sip =>
      match parseSipUrl inetPton6 urlMain.tail { schema := schema, sips := sips } with
      | .ok g =>
        some (.inl (if g.sipUrl.port = 0 then
          { g with sipUrl := { g.sipUrl with port := sipWellKnownPort, portPresent := false } } else g))
      | .error _ => none
    | .tel => (parseTelUrl urlMain.tail).map .inr
    | .unknown => none

end

end Sip
