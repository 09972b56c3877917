import Ikran.Lib.Compact
import Ikran.Sip.RelDev

/-!
# Transaction blocks of a call

A call control block has two tables of outstanding requests, one for the requests it has sent and one
for those it has received. Some routines tell a free block by its CSeq number, which is then
`CCSIP_START_CSEQ`, others tell the block they look for by its method. A request that is received is
checked first, and stored in a free block when it passes.
-/

namespace Sip

open CStr

def maxReqOutstanding : ℕ := 3

/-- `CCSIP_START_CSEQ`. -/
def startCseq : UInt32 := 100

/-- `sipTransaction_t`. -/
structure Transaction where
  /-- The union `u`: the Via branch of a sent request, the Via header of a received one. -/
  u : CStr := []
  sipViaSentby : CStr := []
  cseqMethod : SipMethod := .invalid
  cseqNumber : UInt32 := startCseq
  deriving DecidableEq

abbrev Table := Fin maxReqOutstanding → Transaction

def getLastRequestTrxIndex (t : Table) : Option (Fin maxReqOutstanding) :=
  Compact.last fun k => (t k).cseqNumber != startCseq

def getNextRequestTrxIndex (t : Table) : Option (Fin maxReqOutstanding) :=
  Pool.first fun k => (t k).cseqNumber == startCseq

def getMethodRequestTrxIndex (t : Table) (method : SipMethod) : Option (Fin maxReqOutstanding) :=
  Pool.first fun k => (t k).cseqMethod == method

/-- `clean_method_request_trx`: the blocks behind the first one with the method are copied one place
to the front, and the last one is initialised. -/
def cleanMethodRequestTrx (t : Table) (method : SipMethod) : Table :=
  Compact.removeFirst {} (fun x => x.cseqMethod == method) t

/-- The fields of `ccsipCCB_t` that the transactions and the checks of requests read and write. -/
structure Ccb where
  /-- `flags & INCOMING`: the other side made the call. -/
  incoming : Bool := false
  sentRequest : Table := fun _ => {}
  recvRequest : Table := fun _ => {}
  lastUsedCseq : UInt32 := startCseq
  lastRecvRequestCseq : UInt32 := 0
  lastRecvRequestCseqMethod : SipMethod := .invalid
  lastRecvInviteCseq : UInt32 := 0
  lastRequest : Option ℕ := none
  reqURI : CStr := []
  sipCallID : CStr := []

namespace Ccb

def table (ccb : Ccb) (sent : Bool) : Table := if sent then ccb.sentRequest else ccb.recvRequest

def cleanMethodRequestTrx (ccb : Ccb) (method : SipMethod) (sent : Bool) : Ccb :=
  if sent then { ccb with sentRequest := Sip.cleanMethodRequestTrx ccb.sentRequest method }
  else { ccb with recvRequest := Sip.cleanMethodRequestTrx ccb.recvRequest method }

/-- Write number and method of a request into a block of the sent ones. -/
def setSent (ccb : Ccb) (k : Fin maxReqOutstanding) (number : UInt32) (method : SipMethod) : Ccb :=
  let block := { ccb.sentRequest k with cseqNumber := number, cseqMethod := method }
  { ccb with sentRequest := Function.update ccb.sentRequest k block }

/-- `allocateTrx`: whether it succeeds, and the block after it. A CANCEL has the number of the request
that was sent last, an ACK needs no block. -/
def allocateTrx (ccb : Ccb) (method : SipMethod) : Bool × Ccb :=
  if method = .cancel then
    match getLastRequestTrxIndex ccb.sentRequest with
    | none => (false, ccb)
    | some last =>
      match getNextRequestTrxIndex ccb.sentRequest with
      | none => (false, ccb)
      | some new => (true, ccb.setSent new (ccb.sentRequest last).cseqNumber .cancel)
  else if method ≠ .ack then
    match getNextRequestTrxIndex ccb.sentRequest with
    | none => (false, ccb)
    | some new =>
      let ccb := { ccb with lastUsedCseq := ccb.lastUsedCseq + 1 }
      (true, ccb.setSent new ccb.lastUsedCseq method)
  else (true, ccb)

end Ccb

/-! ## Received requests -/

/-- `sippmh_get_method_code`. -/
def getMethodCode (method : CStr) : SipMethod :=
  if method = "INVITE" then .invite
  else if method = "BYE" then .bye
  else if method = "ACK" then .ack
  else if method = "PRACK" then .prack
  else if method = "COMET" then .comet
  else if method = "OPTIONS" then .options
  else if method = "CANCEL" then .cancel
  else if method = "NOTIFY" then .notify
  else if method = "REFER" then .refer
  else if method = "SUBSCRIBE" then .subscribe
  else if method = "REGISTER" then .register
  else if method = "UPDATE" then .update
  else if method = "INFO" then .info
  else if method = "PUBLISH" then .publish
  else if method = "MESSAGE" then .message
  else .unknown

/-- `sipCseq_t`. -/
structure Cseq where
  number : UInt32
  method : SipMethod
  deriving DecidableEq

/-- `sippmh_parse_cseq`. -/
def parseCseq (cseq : CStr) : Option Cseq :=
  if ',' ∈ cseq then none
  else
    match strtok " " cseq with
    | none => none
    | some (number, rest) =>
      let number := UInt32.ofNat (strtoul number).1
      if 2 ^ 31 ≤ number then none
      else
        match strtok " " rest with
        | none => none
        | some (method, _) => some ⟨number, getMethodCode method⟩

/-- A received request, as far as the checks look at it. What the parsers of its other headers say is
part of it. -/
structure Request where
  id : ℕ := 0
  callId : Option CStr := none
  cseq : Option CStr := none
  via : Option CStr := none
  /-- Whether `sippmh_parse_via` accepts the Via header. -/
  viaParses : Bool := true
  sipRequestUri : Bool := true
  /-- Whether `sippmh_parse_from_or_to` accepts the From header. -/
  fromParses : Bool := true
  /-- Whether `sippmh_parse_from_or_to` accepts the To header. -/
  toParses : Bool := true
  contentLength : ℤ := 0
  rawBody : Option CStr := none

def Request.parsedCseq (request : Request) : Option Cseq := request.cseq.bind parseCseq

/-- A request that is refused: the returned number and the phrase of the warning, whose code is
`SIP_WARN_MISC`. -/
structure StoreError where
  code : ℤ
  phrase : CStr
  deriving DecidableEq

namespace StoreError

def callIdAbsent : StoreError := ⟨-1, "Bad Request - 'Callid absent'"⟩
def viaOrCseq : StoreError := ⟨-1, "Bad Request - 'Malformed/Missing VIA OR CSEQ'"⟩
def reqLine : StoreError := ⟨-1, "Bad Request - 'Malformed/Missing REQUEST LINE'"⟩
def fromUrl : StoreError := ⟨-1, "Bad Request - 'Malformed/Missing FROM: field'"⟩
def toUrl : StoreError := ⟨-1, "Bad Request - 'Malformed/Missing TO: field'"⟩
def contentLength : StoreError := ⟨-1, "Bad Request - 'Content length Error'"⟩
def cseqField : StoreError := ⟨-1, "Bad Request - 'Error in Cseq field'"⟩
def tooManyTransactions : StoreError := ⟨-2, "Too many Transactions"⟩

end StoreError

/-- The checks of the headers, with the CSeq that was parsed. -/
def Request.checkHeaders (request : Request) : Except StoreError Cseq :=
  if request.callId = none then .error .callIdAbsent
  else
    match request.parsedCseq with
    | none => .error .viaOrCseq
    | some cseq =>
      if !request.sipRequestUri then .error .reqLine
      else if !request.fromParses then .error .fromUrl
      else if !request.toParses then .error .toUrl
      else if request.via = none ∨ !request.viaParses then .error .viaOrCseq
      else .ok cseq

/-- The content length of an INVITE is the length of its body. -/
def Request.contentLengthOk (request : Request) : Bool :=
  match request.rawBody with
  | some body => request.contentLength == body.length
  | none => request.contentLength == 0

namespace Ccb

/-- The checks that depend on the method. An INVITE that passes them is remembered. -/
def checkMethod (ccb : Ccb) (request : Request) (cseq : Cseq) (method : SipMethod) (midcall : Bool) :
    Except StoreError Ccb :=
  match method with
  | .invite =>
    if !request.contentLengthOk then .error .contentLength
    else if midcall && (ccb.lastRecvRequestCseqMethod == .invite ||
        ccb.lastRecvRequestCseqMethod == .ack) && cseq.number ≤ ccb.lastRecvInviteCseq then
      .error .cseqField
    else .ok { ccb with lastRecvInviteCseq := cseq.number }
  | .bye =>
    if ccb.incoming && cseq.number ≤ ccb.lastRecvInviteCseq then .error .cseqField else .ok ccb
  | .cancel | .ack =>
    if cseq.number ≠ ccb.lastRecvInviteCseq then .error .cseqField else .ok ccb
  | _ => .ok ccb

/-- Store a request in a block of the received ones. -/
def storeRequest (ccb : Ccb) (request : Request) (cseq : Cseq) (k : Fin maxReqOutstanding) : Ccb :=
  let block := { ccb.recvRequest k with
    cseqNumber := cseq.number
    cseqMethod := cseq.method
    u := request.via.getD (ccb.recvRequest k).u }
  { ccb with
    lastRequest := some request.id
    lastRecvRequestCseq := cseq.number
    lastRecvRequestCseqMethod := cseq.method
    recvRequest := Function.update ccb.recvRequest k block }

/-- `sip_sm_request_check_and_store`: the error, if any, and the block after it. The number of an INVITE
is remembered before a block is looked for. -/
def checkAndStore (ccb : Ccb) (request : Request) (method : SipMethod) (midcall : Bool) :
    Option StoreError × Ccb :=
  match request.checkHeaders with
  | .error e => (some e, ccb)
  | .ok cseq =>
    match ccb.checkMethod request cseq method midcall with
    | .error e => (some e, ccb)
    | .ok ccb =>
      match getNextRequestTrxIndex ccb.recvRequest with
      | none => (some .tooManyTransactions, ccb)
      | some k => (none, ccb.storeRequest request cseq k)

end Ccb

end Sip
