import Ikran.Httpish.Write
import Ikran.Lib.RingBuffer
import Ikran.Sip.Scanners

/-!
# Reliable delivery

The list of recent messages of `ccsip_reldev.c`, by which the stack tells that a message has been received
before, and finds the message that it answered with. The list is a ring: a message is stored over the
oldest one.

The tag of a message, which the code parses out of its To header, and the bytes that a failed write leaves
in the buffer are parameters.
-/

namespace Sip

open CStr Httpish

/-! ## Tags -/

/-- The loops of `strcasecmp_ignorewhitespace` behind the leading blanks: the words are compared, and only
blanks may be behind them. -/
def cmpWords : CStr → CStr → Bool
  | p :: ps, q :: qs =>
    if isLws p || isLws q then (p :: ps).all isLws && (q :: qs).all isLws
    else p.toUpper = q.toUpper && cmpWords ps qs
  | ps, qs => ps.all isLws && qs.all isLws

/-- `strcasecmp_ignorewhitespace`, which is true for texts that it takes for equal. -/
def strcasecmpIgnorewhitespace (cs ct : CStr) : Bool :=
  strcaseEq cs ct || cmpWords (skipLws cs) (skipLws ct)

/-- The first word of a text, which starts with no blank. -/
def firstWord (s : CStr) : CStr := s.takeWhile (!isLws ·)

/-- The text, which starts with no blank, is one word and blanks. -/
def IsOneWord (s : CStr) : Prop := ∀ c ∈ s.dropWhile (!isLws ·), isLws c

instance (s : CStr) : Decidable (IsOneWord s) := inferInstanceAs (Decidable (∀ _ ∈ _, _))

/-- What is compared of a tag, with no case: of a text that is one word, the word. -/
def tagWord (s : CStr) : Bool × CStr :=
  if IsOneWord (skipLws s) then (true, (firstWord (skipLws s)).map Char.toUpper)
  else (false, s.map Char.toUpper)

theorem isLws_toUpper (c : Char) : isLws c.toUpper = isLws c := by
  rcases toUpper_cases c with h | ⟨hnum, hge, hle⟩
  · rw [h]
  · have hno : ∀ d : Char, 65 ≤ d.toNat → isLws d = false := by
      intro d hd
      simp only [isLws, Bool.or_eq_false_iff, decide_eq_false_iff_not]
      constructor <;> rintro rfl <;> exact absurd hd (by decide)
    rw [hno c (by omega), hno c.toUpper (by omega)]

theorem isOneWord_cons_of_isLws {c : Char} {s : CStr} (hc : isLws c = true) :
    IsOneWord (c :: s) ↔ (c :: s).all isLws = true := by
  rw [IsOneWord, List.dropWhile_cons_of_neg (by simp [hc]), List.all_eq_true]

theorem isOneWord_cons_of_not {c : Char} {s : CStr} (hc : isLws c = false) : IsOneWord (c :: s) ↔ IsOneWord s := by
  rw [IsOneWord, List.dropWhile_cons_of_pos (by simp [hc]), IsOneWord]

/-- The comparison of words, on any texts. By induction on the loop. -/
theorem cmpWords_iff (s t : CStr) : cmpWords s t = true ↔
      IsOneWord s ∧ IsOneWord t ∧ (firstWord s).map Char.toUpper = (firstWord t).map Char.toUpper := by
  have hblank : ∀ {c : Char} {s : CStr}, isLws c = true → firstWord (c :: s) = [] := fun hc =>
    List.takeWhile_cons_of_neg (by simp [hc])
  have hword : ∀ {c : Char} {s : CStr}, isLws c = false → firstWord (c :: s) = c :: firstWord s :=
    fun hc => List.takeWhile_cons_of_pos (by simp [hc])
  induction s generalizing t with
  | nil =>
    cases t with
    | nil => simp [cmpWords, IsOneWord, firstWord]
    | cons q qs =>
      cases hq : isLws q with
      | true => simp [cmpWords, IsOneWord, firstWord, hq]
      | false => simp [cmpWords, hq, firstWord]
  | cons p ps ih =>
    cases t with
    | nil =>
      cases hp : isLws p with
      | true => simp [cmpWords, IsOneWord, firstWord, hp]
      | false => simp [cmpWords, hp, firstWord]
    | cons q qs =>
      cases hp : isLws p with
      | true =>
        cases hq : isLws q with
        | true =>
          simp [cmpWords, isOneWord_cons_of_isLws hp, isOneWord_cons_of_isLws hq, hblank hp, hblank hq, hp, hq]
        | false => simp [cmpWords, hblank hp, hword hq, hp, hq]
      | false =>
        cases hq : isLws q with
        | true => simp [cmpWords, hword hp, hblank hq, hp, hq]
        | false =>
          simp only [cmpWords, hp, hq, Bool.or_self, Bool.false_eq_true, if_false, Bool.and_eq_true,
            decide_eq_true_eq, ih, isOneWord_cons_of_not hp, isOneWord_cons_of_not hq, hword hp,
            hword hq, List.map_cons, List.cons.injEq]
          exact ⟨fun ⟨h, hs, ht, hw⟩ => ⟨hs, ht, h, hw⟩, fun ⟨hs, ht, h, hw⟩ => ⟨h, hs, ht, hw⟩⟩

theorem skipLws_map_toUpper (s : CStr) : (skipLws s).map Char.toUpper = skipLws (s.map Char.toUpper) := by
  rw [skipLws, skipLws, List.dropWhile_map]
  simp only [Function.comp_def, isLws_toUpper]

theorem isOneWord_map_toUpper (s : CStr) : IsOneWord (s.map Char.toUpper) ↔ IsOneWord s := by
  rw [IsOneWord, List.dropWhile_map, IsOneWord]
  simp only [Function.comp_def, isLws_toUpper, List.forall_mem_map]

theorem firstWord_map_toUpper (s : CStr) : firstWord (s.map Char.toUpper) = (firstWord s).map Char.toUpper := by
  rw [firstWord, List.takeWhile_map, firstWord]
  simp only [Function.comp_def, isLws_toUpper]

theorem tagWord_eq_of_toUpper {s t : CStr} (h : s.map Char.toUpper = t.map Char.toUpper) : tagWord s = tagWord t := by
  have hskip : (skipLws s).map Char.toUpper = (skipLws t).map Char.toUpper := by
    rw [skipLws_map_toUpper, skipLws_map_toUpper, h]
  have hone : IsOneWord (skipLws s) ↔ IsOneWord (skipLws t) := by
    rw [← isOneWord_map_toUpper, hskip, isOneWord_map_toUpper]
  have hword : (firstWord (skipLws s)).map Char.toUpper = (firstWord (skipLws t)).map Char.toUpper := by
    rw [← firstWord_map_toUpper, hskip, firstWord_map_toUpper]
  simp only [tagWord, hone, hword, h]

/-- **The comparison of tags compares the words up to case.** -/
theorem strcasecmpIgnorewhitespace_iff (s t : CStr) :
    strcasecmpIgnorewhitespace s t = true ↔ tagWord s = tagWord t := by
  rw [strcasecmpIgnorewhitespace, Bool.or_eq_true, cmpWords_iff, strcaseEq, beq_iff_eq]
  constructor
  · rintro (h | ⟨hs, ht, hword⟩)
    · exact tagWord_eq_of_toUpper h
    · rw [tagWord, tagWord, if_pos hs, if_pos ht, hword]
  · intro h
    unfold tagWord at h
    split_ifs at h with hs ht ht
    · exact .inr ⟨hs, ht, (Prod.mk.inj h).2⟩
    · exact absurd (Prod.mk.inj h).1 (by decide)
    · exact absurd (Prod.mk.inj h).1 (by decide)
    · exact .inl (Prod.mk.inj h).2

/-! ## The records -/

/-- `sipMethod_t`. -/
inductive SipMethod
  | invalid | register | options | invite | bye | cancel | prack | comet | notify | refer | ack | message
  | subscribe | publish | update | response | info | unknown
  deriving DecidableEq

/-- `cpr_ip_addr_t`. -/
inductive IpAddr
  | invalid
  | ip4 (addr : BitVec 32)
  | ip6 (addr : BitVec 128)

/-- `sipRelDevCoupledMessage_t`. -/
structure CoupledMessage where
  messageBuf : CStr := []
  messageBufLen : ℕ := 0
  destIpaddr : IpAddr := .invalid
  destPort : UInt16 := 0

/-- `sipRelDevMessageRecord_t`. -/
structure Record where
  isRequest : Bool := false
  callId : CStr := []
  cseqNumber : UInt32 := 0
  cseqMethod : SipMethod := .invalid
  tag : CStr := []
  fromUser : CStr := []
  fromHost : CStr := []
  toUser : CStr := []
  responseCode : Int32 := 0
  coupledMessage : CoupledMessage := {}
  validCoupledMessage : Bool := false

/-- The arguments of `sipRelDevCoupledMessageStore`. -/
structure CoupleCall where
  coupledMessage : HttpishMsg
  callId : CStr
  cseqNumber : UInt32
  cseqMethod : SipMethod
  isRequest : Bool
  responseCode : Int32
  destIpaddr : IpAddr
  destPort : UInt16
  ignoreTag : Bool

/-- The arguments of `sipRelDevMessagesClear`. -/
structure ClearCall where
  callId : CStr
  fromUser : CStr
  fromHost : CStr
  toUser : CStr

/-- The parts of the stack that the list depends on. -/
structure Stack where
  /-- `sipGetMessageToTag`. -/
  toTag : HttpishMsg → CStr
  /-- The bytes that `sippmh_write` leaves in the buffer when it fails. -/
  unfinished : HttpishMsg → CStr

/-- The test of `sipRelDevMessageIsDuplicate`. -/
def Record.Matches (m r : Record) : Prop :=
  m.callId = r.callId ∧ m.cseqNumber = r.cseqNumber ∧ m.cseqMethod = r.cseqMethod ∧
    strcasecmpIgnorewhitespace m.tag r.tag = true ∧ m.fromUser = r.fromUser ∧
    m.fromHost = r.fromHost ∧ m.toUser = r.toUser ∧
    (m.isRequest = true ∨ m.responseCode = r.responseCode)

instance (m r : Record) : Decidable (m.Matches r) := inferInstanceAs (Decidable (_ ∧ _))

/-- The test of `sipRelDevCoupledMessageStore`. -/
def CoupleCall.Selects (stack : Stack) (c : CoupleCall) (r : Record) : Prop :=
  c.callId = r.callId ∧ c.cseqNumber = r.cseqNumber ∧ c.cseqMethod = r.cseqMethod ∧
    (c.ignoreTag = true ∨ strcasecmpIgnorewhitespace (stack.toTag c.coupledMessage) r.tag = true) ∧
    (c.isRequest = false ∨ c.isRequest = true ∧ r.responseCode = c.responseCode)

instance (stack : Stack) (c : CoupleCall) (r : Record) : Decidable (c.Selects stack r) :=
  inferInstanceAs (Decidable (_ ∧ _))

/-- The test of `sipRelDevMessagesClear`. -/
def ClearCall.covers (d : ClearCall) (r : Record) : Bool :=
  d.callId = r.callId ∧ d.fromUser = r.fromUser ∧ d.fromHost = r.fromHost ∧ d.toUser = r.toUser

/-! ## The list -/

abbrev sipRrlistLength : ℕ := 51

instance : NeZero sipRrlistLength := ⟨by decide⟩

def sipUdpMessageSize : ℕ := 3072

/-- `gSIPRRList`, with the counter of `sipRelDevMessageStore`. -/
structure RelDev where
  list : Fin sipRrlistLength → Record := fun _ => {}
  counter : ℕ := 0

namespace RelDev

def sipRelDevMessageStore (r : Record) (s : RelDev) : RelDev :=
  let counter := if sipRrlistLength - 1 < s.counter then 0 else s.counter
  { list := Function.update s.list (Fin.ofNat sipRrlistLength counter)
      { r with validCoupledMessage := false }
    counter := counter + 1 }

/-- `sipRelDevMessageIsDuplicate`: the index, if the message is a duplicate. -/
def sipRelDevMessageIsDuplicate (m : Record) (s : RelDev) : Option (Fin sipRrlistLength) :=
  Fin.find? fun i => decide (m.Matches (s.list i))

/-- The bytes of a buffer whose first bytes are overwritten. -/
def overwrite (bytes buf : CStr) : CStr := bytes ++ buf.drop bytes.length

def setCoupled (s : RelDev) (i : Fin sipRrlistLength) (cm : CoupledMessage) (valid : Bool) : RelDev :=
  { s with
    list := Function.update s.list i
      { s.list i with coupledMessage := cm, validCoupledMessage := valid } }

/-- The part of `sipRelDevCoupledMessageStore` behind the search. -/
def coupleAt (stack : Stack) (c : CoupleCall) (i : Fin sipRrlistLength) (s : RelDev) :
    Option (Fin sipRrlistLength) × RelDev :=
  let cm := (s.list i).coupledMessage
  let valid := (s.list i).validCoupledMessage
  let buf := overwrite [nul] cm.messageBuf
  match httpishMsgWrite c.coupledMessage sipUdpMessageSize with
  | none =>
    (none, s.setCoupled i
      { cm with messageBuf := overwrite (stack.unfinished c.coupledMessage) buf } valid)
  | some text =>
    let buf := overwrite text buf
    if buf.peek = nul ∨ text.length = 0 then
      (none, s.setCoupled i { cm with messageBuf := buf } valid)
    else
      (some i, s.setCoupled i
        { messageBuf := buf
          messageBufLen := text.length
          destIpaddr := c.destIpaddr
          destPort := c.destPort } true)

/-- `sipRelDevCoupledMessageStore`: the index, if a message was stored. -/
def sipRelDevCoupledMessageStore (stack : Stack) (c : CoupleCall) (s : RelDev) :
    Option (Fin sipRrlistLength) × RelDev :=
  match Fin.find? fun i => decide (c.Selects stack (s.list i)) with
  | none => (none, s)
  | some i => coupleAt stack c i s

/-- `sipRelDevGetStoredCoupledMessage`: the bytes that are copied to the buffer. -/
def sipRelDevGetStoredCoupledMessage (idx : ℤ) (destBufSize : ℕ) (s : RelDev) : CStr :=
  if idx < 0 ∨ sipRrlistLength ≤ idx then []
  else
    let record := s.list (Fin.ofNat sipRrlistLength idx.toNat)
    if record.validCoupledMessage = false then []
    else if destBufSize < record.coupledMessage.messageBufLen ∨
        record.coupledMessage.messageBufLen = 0 then []
    else record.coupledMessage.messageBuf.take record.coupledMessage.messageBufLen

def sipRelDevMessagesClear (d : ClearCall) (s : RelDev) : RelDev :=
  { s with list := fun i => if d.covers (s.list i) then {} else s.list i }

def sipRelDevAllMessagesClear (s : RelDev) : RelDev := { s with list := fun _ => {} }

/-- A call of one of the functions that change the list. -/
inductive Op
  | store (r : Record)
  | couple (c : CoupleCall)
  | clear (d : ClearCall)
  | clearAll

/-- What a call does to the list. -/
def step (stack : Stack) (s : RelDev) : Op → RelDev
  | .store r => sipRelDevMessageStore r s
  | .couple c => (sipRelDevCoupledMessageStore stack c s).2
  | .clear d => sipRelDevMessagesClear d s
  | .clearAll => sipRelDevAllMessagesClear s

/-- The list after some calls. -/
def run (stack : Stack) (ops : List Op) : RelDev := ops.foldl (step stack) {}

/-- The message that a call couples with a record, if it does. -/
def coupling (stack : Stack) (s : RelDev) : Op → Option (CoupleCall × CStr)
  | .couple c =>
    if (sipRelDevCoupledMessageStore stack c s).1.isSome then
      (httpishMsgWrite c.coupledMessage sipUdpMessageSize).map (c, ·)
    else none
  | _ => none

/-- The messages that the calls couple with records, in order. -/
def couplings (stack : Stack) : RelDev → List Op → List (CoupleCall × CStr)
  | _, [] => []
  | s, op :: ops => (coupling stack s op).toList ++ couplings stack (step stack s op) ops

/-- The message that was last coupled with a transaction. -/
def lastCoupled (stack : Stack) (ops : List Op) (r : Record) : Option CStr :=
  (((couplings stack {} ops).filter fun c => decide (c.1.Selects stack r)).getLast?).map (·.2)

/-- What a call means for the records that the list holds. -/
def Op.event : Op → Option (RingBuffer.Event Record)
  | .store r => some (.push r)
  | .couple _ => none
  | .clear d => some (.drop d.covers)
  | .clearAll => some (.drop fun _ => true)

/-- What the calls mean for the records that the list holds. -/
def events (ops : List Op) : List (RingBuffer.Event Record) := ops.filterMap Op.event

/-- The record was stored, was not cleared since, and is among the last ones that were stored. -/
def Held (ops : List Op) (r : Record) : Prop := RingBuffer.Held sipRrlistLength (events ops) r

/-! ## Transactions -/

end RelDev

/-- The same call-id, CSeq, tag, users and host. -/
structure Record.SameIds (m r : Record) : Prop where
  callId : m.callId = r.callId
  cseqNumber : m.cseqNumber = r.cseqNumber
  cseqMethod : m.cseqMethod = r.cseqMethod
  tag : tagWord m.tag = tagWord r.tag
  fromUser : m.fromUser = r.fromUser
  fromHost : m.fromHost = r.fromHost
  toUser : m.toUser = r.toUser

/-- The same message: a request with the same identifiers, or a response with the same ones and the same
response code. -/
structure Record.SameMessage (m r : Record) : Prop where
  isRequest : m.isRequest = r.isRequest
  ids : m.SameIds r
  responseCode : m.isRequest = false → m.responseCode = r.responseCode

/-- The same direction, identifiers and response code. -/
structure Record.SameTransaction (r r' : Record) : Prop where
  isRequest : r.isRequest = r'.isRequest
  ids : r.SameIds r'
  responseCode : r.responseCode = r'.responseCode

namespace RelDev

/-- The answer for a message is right: it is a duplicate exactly when the same message is held, and what
is found for it was last coupled with that transaction. -/
def Detects (stack : Stack) (ops : List Op) (m : Record) : Prop :=
  ((sipRelDevMessageIsDuplicate m (run stack ops)).isSome = true ↔
    ∃ r, Held ops r ∧ m.SameMessage r) ∧
  ∀ i destBufSize, sipRelDevMessageIsDuplicate m (run stack ops) = some i →
    sipRelDevGetStoredCoupledMessage i destBufSize (run stack ops) ≠ [] →
    ∃ r, Held ops r ∧ m.SameMessage r ∧
      lastCoupled stack ops r =
        some (sipRelDevGetStoredCoupledMessage i destBufSize (run stack ops))

/-- A record is held at a place of the list. -/
def Occupied (ops : List Op) (i : Fin sipRrlistLength) : Prop :=
  ∃ t r, RingBuffer.HeldAt sipRrlistLength (events ops) t r ∧ t % sipRrlistLength = i

/-- The message cannot be written, or its text is empty. -/
def Unwritten (c : CoupleCall) : Prop :=
  ∀ text, httpishMsgWrite c.coupledMessage sipUdpMessageSize = some text → text.peek = nul

/-- A call of `sipRelDevCoupledMessageStore` that the code can cope with: the records that it selects are
held, and belong to one transaction, and a message that cannot be written meets no message that is coupled
already. -/
structure CallOk (stack : Stack) (ops : List Op) (c : CoupleCall) : Prop where
  occupied : ∀ i, c.Selects stack ((run stack ops).list i) → Occupied ops i
  sameTransaction : ∀ i j, c.Selects stack ((run stack ops).list i) →
    c.Selects stack ((run stack ops).list j) →
    ((run stack ops).list i).SameTransaction ((run stack ops).list j)
  written : ∀ i, c.Selects stack ((run stack ops).list i) →
    (∀ j < i, ¬ c.Selects stack ((run stack ops).list j)) →
    ((run stack ops).list i).validCoupledMessage = true → ¬ Unwritten c

/-- All calls are of that kind. -/
def RunOk (stack : Stack) (ops : List Op) : Prop :=
  ∀ before c after, ops = before ++ .couple c :: after → CallOk stack before c

/-- A message that the code can cope with: at or in front of each record that it matches, there is one
that is held and has its direction. -/
def QueryOk (stack : Stack) (ops : List Op) (m : Record) : Prop :=
  ∀ i, m.Matches ((run stack ops).list i) →
    ∃ j ≤ i, m.Matches ((run stack ops).list j) ∧ Occupied ops j ∧
      ((run stack ops).list j).isRequest = m.isRequest

end RelDev

end Sip
