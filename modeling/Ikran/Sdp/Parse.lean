import Ikran.Sdp.ParseToken

/-!
# Parsing a description

`sdp_parse`: the loop over the lines of a buffer. A pointer into the buffer is the text from there
on; the text may go on behind the end of the buffer.
-/

namespace Sdp

open CStr Line

/-- The tests of `sdp_connection_valid` on one connection. -/
def Conn.valid (c : Conn) : Bool :=
  (c.nettype == .atm && c.addrtype == .invalid) ||
    (c.nettype.valid && c.addrtype.valid && c.connAddr != [])

/-- `sdp_connection_valid`. -/
def connectionValid (d : Desc) (level : Level) : Bool :=
  ((connField.get d level).map Conn.valid).getD false

/-- `sdp_owner_valid`. -/
def ownerValid (d : Desc) : Bool :=
  d.ownerName != [] && d.ownerNetworkType != .invalid && d.ownerAddrType != .invalid &&
    d.ownerAddr != []

/-- `sdp_session_name_valid`. -/
def sessionNameValid (d : Desc) : Bool := d.sessname != []

/-- `sdp_timespec_valid`. The comparisons of its string fields with the terminator compare
addresses, and never hold. -/
def timespecValid (d : Desc) : Bool := d.timespecs != []

/-- `sdp_validate_sdp`. -/
def validateSdp (conf : Conf) (d : Desc) : SdpResult :=
  if !connectionValid d .session &&
      !(List.range d.mcaCount.toNat).all fun i => connectionValid d (.media (i + 1)) then .failure
  else if !ownerValid d && conf.ownerReqd then .failure
  else if !sessionNameValid d && conf.sessionNameReqd then .failure
  else if !timespecValid d && conf.timespecReqd then .failure
  else .success

/-! ## The loop -/

/-- The local variables of `sdp_parse`, with the description and the counts it writes. -/
structure ParseState where
  desc : Desc
  stats : Stats
  curLevel : Level := .session
  /-- `last_token`, as a position in `sdp_token[]`. -/
  lastToken : ℕ := Token.v.ord
  result : SdpResult := .success
  parseDone : Bool := false
  firstLine : Bool := true

def recognise (s : CStr) : Option Token := Token.all.find? fun tok => strncmpEq s tok.name 2

/-- The level behind a media line. -/
def Level.next : Level → Level
  | .session => .media 1
  | .media n => .media (n + 1)

namespace ParseState

/-- Count an error of the token order. -/
def countOrder (σ : ParseState) : ParseState :=
  { σ with stats := { σ.stats with numInvalidTokenOrder := σ.stats.numInvalidTokenOrder + 1 } }

/-- Verify the token ordering. A description that does not start with its version is refused, but
the line is parsed all the same. -/
def checkOrder (conf : Conf) (tok : Token) (σ : ParseState) : ParseState :=
  if σ.firstLine then
    if tok ≠ .v ∧ conf.versionReqd then
      { σ.countOrder with result := .invalidTokenOrdering, parseDone := true, firstLine := false }
    else { σ with lastToken := tok.ord, firstLine := false }
  else if tok.ord < σ.lastToken then σ.countOrder
  else σ

/-- Parse the text behind the token. Behind a media line the token ordering starts again at `i=`. -/
def parseLine (conf : Conf) (tok : Token) (s : CStr) (σ : ParseState) : ParseState :=
  let (result, desc, stats) := parseToken conf tok σ.curLevel s σ.desc σ.stats
  { σ with
    desc, stats, result
    lastToken := if tok = .m then Token.i.ord - 1 else tok.ord
    curLevel := if tok = .m then σ.curLevel.next else σ.curLevel
    parseDone := σ.parseDone || result != .success }

end ParseState

/-- The token must not stand where it does. -/
def isMisplaced (tok : Token) (level : Level) : Bool :=
  level != .session && tok ∉ Token.atMedia

/-- What the loop does with a line that starts with a token. Once the parse is done, it only looks
for the end of the description. -/
def lineStep (conf : Conf) (tok : Token) (s : CStr) (σ : ParseState) : ParseState :=
  if σ.parseDone then σ
  else if isMisplaced tok σ.curLevel then σ.countOrder
  else (σ.checkOrder conf tok).parseLine conf tok (s.drop 2)

/-- How the loop ends: the state, whether the line it stopped at has an unknown token, and the text
behind the last line of the description. -/
structure LoopEnd where
  state : ParseState
  unrecToken : Bool
  next : CStr

/-- The loop over the lines that end inside the buffer, with the text `next` behind the line before.
It stops at a line without a token, and at the version line of another description. -/
def parseLoop (conf : Conf) : List CStr → CStr → ParseState → LoopEnd
  | [], next, σ => ⟨σ, false, next⟩
  | s :: lines, next, σ =>
    match recognise s with
    | none => ⟨σ, peek s.tail == '=', next⟩
    | some tok =>
      if !σ.firstLine && tok == .v then ⟨σ, false, next⟩
      else parseLoop conf lines (nextLine s) (lineStep conf tok s σ)

/-- What `sdp_parse` returns and leaves behind. -/
structure ParseResult where
  result : SdpResult
  desc : Desc
  stats : Stats
  bufp : CStr

/-- The state before the first line. -/
def parseStart (d : Desc) (st : Stats) : ParseState where
  desc := { d with capValid := false, lastCapInst := 0 }
  stats := { st with numParses := st.numParses + 1 }

/-- The end of `sdp_parse`. -/
def finish (conf : Conf) (buf : CStr) (e : LoopEnd) : ParseResult :=
  let σ := e.state
  if σ.firstLine then
    ⟨.notSdpDescription, σ.desc, { σ.stats with numNotSdpDesc := σ.stats.numNotSdpDesc + 1 }, buf⟩
  else
    let result := if σ.result = .success then validateSdp conf σ.desc else σ.result
    let result := if result = .success ∧ e.unrecToken then .unrecognizedToken else result
    ⟨result, σ.desc, σ.stats, e.next⟩

/-- `sdp_parse`: parse the description at the start of a buffer of `len` bytes. -/
def parse (conf : Conf) (d : Desc) (st : Stats) (buf : CStr) (len : UInt16) : ParseResult :=
  finish conf buf (parseLoop conf (lineStarts len.toNat buf) buf (parseStart d st))

end Sdp
