import Ikran.Lib.CString

/-!
# Dial templates

The dial plan matcher of `dialplan.c`. One pass over the templates of a line keeps the best template so
far, the text of its rewrite string, and whether a dial tone is due.

The pointers into the pattern and the dialed string are their suffixes. Callers may pass NULL for an
output parameter; here all of them are returned, and one that is not written is `none`. The room of
the rewrite buffer is at least 1.
-/

namespace Dialplan

/-! ## Templates -/

inductive DialMatchAction
  | noMatch | giveTone | wildPattern | fullPattern | fullMatch | immediately
  deriving DecidableEq

namespace DialMatchAction

/-- The value of the enumeration constant. -/
def toNat : DialMatchAction → ℕ
  | noMatch => 0
  | giveTone => 1
  | wildPattern => 2
  | fullPattern => 3
  | fullMatch => 4
  | immediately => 5

theorem toNat_pos {a : DialMatchAction} (h : a ≠ noMatch) : 0 < a.toNat := by
  cases a <;> simp_all [toNat]

end DialMatchAction

inductive UserMode
  | unspec | phone | ip
  deriving DecidableEq

inductive RouteMode
  | default | emergency | fqdn
  deriving DecidableEq

/-- `vcm_tones_t`. -/
inductive Tone
  | insideDialTone | outsideDialTone | lineBusyTone | alertingTone | busyVerifyTone | stutterTone
  | msgWaitingTone | reorderTone | callWaitingTone | callWaiting2Tone | callWaiting3Tone
  | callWaiting4Tone | holdTone | confirmationTone | permanentSignalTone | reminderRingTone | noTone
  | zipZip | zip | beepBonk | recorderWarningTone | recorderDetectedTone | monitorWarningTone
  | secureWarningTone | nonsecureWarningTone
  deriving DecidableEq

/-- `VCM_DEFAULT_TONE`. -/
def defaultTone : Tone := .outsideDialTone

def maxTones : ℕ := 3

/-- `MAX_SUBTITUTIONS`. -/
def maxSubstitutions : ℕ := 5

def dialTimeout : ℤ := 10

theorem tones_le_nil : ([] : List Tone).length ≤ maxTones := Nat.zero_le _

/-- `struct DialTemplate`, with the `tones_defined` first entries of its `tone` array. -/
structure DialTemplate where
  pattern : CStr
  line : UInt16 := 0
  rewrite : CStr := []
  timeout : ℤ := 0
  userMode : UserMode := .unspec
  routeMode : RouteMode := .default
  tones : List Tone := []
  tones_le : tones.length ≤ maxTones := by first | exact tones_le_nil | decide
  deriving DecidableEq

def isDialedDigit (pound : Bool) (input : Char) : Bool :=
  input.isDigit || input = '*' || input = '+' || (input = '#' && !pound)

def matchLineNumber (templateLine line : UInt16) : Bool := templateLine = line || templateLine = 0

/-! ## Reading the dialed string with one pattern -/

/-- The variables of the loop over the dialed string. A substitution is where it starts, and its length. -/
structure Matching where
  pinput : CStr
  pmatch : CStr
  thismatchlen : ℤ := 0
  thismatch : DialMatchAction := .fullMatch
  subs : List (CStr × ℕ) := []
  commaCounter : ℕ := 0
  dialnow : Bool := false

namespace Matching

/-- The dial tone characters are skipped, and counted as one. -/
def skipCommas (m : Matching) : Matching :=
  if m.pmatch.peek = ',' then
    { m with pmatch := m.pmatch.dropWhile (· = ','), commaCounter := m.commaCounter + 1 }
  else m

/-- The substitutions, when one starts at the input and `n` further characters belong to the last one. -/
def capture (m : Matching) (n : ℕ) : List (CStr × ℕ) :=
  let subs := if m.subs.length < maxSubstitutions then m.subs ++ [(m.pinput, 1)] else m.subs
  subs.modify (subs.length - 1) fun (start, len) => (start, len + n)

end Matching

/-- How many further digits of the input a row of dots takes. -/
def dotRun : CStr → CStr → ℕ
  | c :: s, '.' :: p => if c.isDigit then dotRun s p + 1 else 0
  | _, _ => 0

/-- The pattern character that a star in front of the pattern runs up to. -/
def starStop (p : CStr) : Option Char := if p.peek = '\\' then p.tail.head? else p.head?

def starTakes (pound : Bool) (p : CStr) (c : Char) : Bool := starStop p ≠ some c && !(c = '#' && pound)

/-- How many further characters of the input a star takes, whose first one is `c`. -/
def starRun (pound : Bool) (p : CStr) (c : Char) (s : CStr) : ℕ :=
  if c = '#' && pound then 0 else (s.takeWhile (starTakes pound p)).length

/-- The pattern behind an escape character, unless that is its last character. -/
def skipEscape (p : CStr) : CStr := if p.peek = '\\' ∧ p.tail ≠ [] then p.tail else p

namespace Matching

/-- A dot takes a digit, and the dots behind it more of them. -/
def matchDot (m : Matching) (s : CStr) : Matching :=
  { m with
    subs := m.capture (dotRun s m.pmatch.tail)
    thismatch := .fullPattern
    pinput := s.drop (dotRun s m.pmatch.tail)
    pmatch := m.pmatch.tail.drop (dotRun s m.pmatch.tail) }

/-- A star takes all characters up to the one behind it in the pattern. -/
def matchStar (pound : Bool) (m : Matching) (c : Char) (s : CStr) : Matching :=
  { m with
    subs := m.capture (starRun pound m.pmatch.tail c s)
    thismatch := .wildPattern
    pinput := s.drop (starRun pound m.pmatch.tail c s)
    pmatch := m.pmatch.tail
    dialnow := m.dialnow || (c = '#' && pound) }

/-- Any other character takes itself. The loop ends at a different character, which is a mismatch unless
it terminates the dialed string. -/
def matchLiteral (pound : Bool) (m : Matching) (c : Char) (s : CStr) : Matching ⊕ Matching :=
  if (skipEscape m.pmatch).head? ≠ some c then
    if c = '#' && pound then .inl { m with pmatch := skipEscape m.pmatch, dialnow := true }
    else
      .inl { m with pmatch := skipEscape m.pmatch, thismatchlen := -1, thismatch := .noMatch }
  else
    .inr
      { m with
        pmatch := (skipEscape m.pmatch).tail, pinput := s, thismatchlen := m.thismatchlen + 1 }

end Matching

/-- The loop over the dialed string, with the fuel for `fuel` pattern characters. -/
def matchLoop (pound : Bool) : ℕ → Matching → Matching
  | 0, m => m
  | fuel + 1, m =>
    match m.pinput with
    | [] => m
    | c :: s =>
      if m.skipCommas.pmatch.peek = '.' ∧ isDialedDigit pound c then
        matchLoop pound fuel (m.skipCommas.matchDot s)
      else if m.skipCommas.pmatch.peek = '*' then
        matchLoop pound fuel (m.skipCommas.matchStar pound c s)
      else
        match m.skipCommas.matchLiteral pound c s with
        | .inl m => m
        | .inr m => matchLoop pound fuel m

/-- The dialed string is read with a pattern. -/
def matchTemplate (pound : Bool) (pattern dialed : CStr) : Matching :=
  matchLoop pound dialed.length { pinput := dialed, pmatch := pattern }

/-- The rewrite buffer: what has been written, and the room that is counted. -/
structure Output where
  written : CStr := []
  room : ℕ

/-- `addbytes`. What is written is added to the room. -/
def addbytes (o : Output) (input : CStr) : Output where
  written := o.written ++ input.take (if o.room ≤ input.length then o.room - 1 else input.length)
  room := o.room + if o.room ≤ input.length then o.room - 1 else input.length

/-- The next character for a dot: its position, how many are left of its substitution, and the
substitutions behind. -/
def nextDot (cur : CStr) : ℕ → List (CStr × ℕ) → CStr × ℕ × List (CStr × ℕ)
  | 0, (start, len) :: subs => nextDot start len subs
  | dotsleft, subs => (cur, dotsleft, subs)

/-- The loop over the rewrite string of a template, with the state of the dots. -/
def rewriteLoop (dialed : CStr) (subs : List (CStr × ℕ)) :
    CStr → CStr × ℕ × List (CStr × ℕ) → Output → Output
  | [], _, o => o
  | ['%'], _, o => o
  | '%' :: d :: prewrite, dots, o =>
    if d = 's' ∨ d = '0' then rewriteLoop dialed subs prewrite dots (addbytes o dialed)
    else if '1' ≤ d ∧ d.toNat - '1'.toNat < subs.length then
      let sub := subs.getD (d.toNat - '1'.toNat) ([], 0)
      rewriteLoop dialed subs prewrite dots (addbytes o (sub.1.take sub.2))
    else rewriteLoop dialed subs prewrite dots (addbytes o [d])
  | '.' :: prewrite, (cur, dotsleft, left), o =>
    match nextDot cur dotsleft left with
    | (cur, 0, left) => rewriteLoop dialed subs prewrite (cur, 0, left) o
    | (cur, dotsleft + 1, left) =>
      rewriteLoop dialed subs prewrite (cur.tail, dotsleft, left) (addbytes o (cur.take 1))
  | c :: prewrite, dots, o => rewriteLoop dialed subs prewrite dots (addbytes o [c])

/-- The user mode is put behind what was written, in front of a closing bracket. -/
def addUser (user : CStr) (o : Output) : Output :=
  if o.written.getLast? = some '>' then
    addbytes { written := o.written.dropLast, room := o.room - 1 } (user ++ ['>'])
  else addbytes o user

/-- The text that is put into the rewrite buffer for a template. -/
def rewriteText (rewritelen : ℕ) (dialed : CStr) (t : DialTemplate) (m : Matching) : CStr :=
  let o := match t.rewrite with
    | [] => addbytes { room := rewritelen } dialed
    | prewrite => rewriteLoop dialed m.subs prewrite ([], 0, m.subs) { room := rewritelen }
  match t.userMode with
  | .phone => (addUser ";user=phone" o).written
  | .ip => (addUser ";user=ip" o).written
  | .unspec => o.written

/-! ## The pass over the templates -/

/-- What is kept between the templates. -/
structure Best where
  result : DialMatchAction := .noMatch
  pbestmatch : Option DialTemplate := none
  bestmatchDialnow : Bool := false
  bestCommaCount : ℕ := 0
  partialmatchType : DialMatchAction := .noMatch
  partialmatch : Bool := false
  matchlen : ℕ := 0
  partialmatchlen : ℕ := 0
  givedialtone : Bool := false
  rewrite : CStr

namespace Best

/-- The template has read the dialed string better than those before. -/
def betterPartial (b : Best) (m : Matching) : Bool :=
  m.thismatchlen > b.partialmatchlen ||
    (m.thismatchlen = b.partialmatchlen && m.thismatch.toNat > b.partialmatchType.toNat)

/-- The template matches the dialed string better than those before. -/
def betterFull (b : Best) (m : Matching) : Bool :=
  m.thismatchlen > b.matchlen ||
    (m.thismatchlen = b.matchlen && m.thismatch.toNat > b.result.toNat) ||
    (m.thismatch = .wildPattern && (b.result = .noMatch && b.partialmatch = false))

/-- A template that has read the dialed string is adopted. -/
def adoptPartial (b : Best) (t : DialTemplate) (m : Matching) : Best :=
  if (m.pinput = [] || m.dialnow) && b.betterPartial m then
    { b with
      partialmatchType := m.thismatch
      partialmatchlen := m.thismatchlen.toNat
      pbestmatch := some t
      partialmatch := true
      bestmatchDialnow := m.dialnow
      bestCommaCount := m.commaCounter
      result := .noMatch }
  else b

/-- A template whose pattern is used up is adopted, and one in front of a comma asks for a tone. -/
def adoptFull (rewritelen : ℕ) (dialed : CStr) (b : Best) (t : DialTemplate) (m : Matching) : Best :=
  if m.pmatch = [] then
    if b.betterFull m then
      { b with
        pbestmatch := some t
        bestmatchDialnow := m.dialnow
        matchlen := m.thismatchlen.toNat
        result := m.thismatch
        rewrite := rewriteText rewritelen dialed t m }
    else b
  else if m.pmatch.peek = ',' then { b with givedialtone := true }
  else b

/-- The longest match is remembered. -/
def raiseMatchlen (b : Best) (m : Matching) : Best :=
  if m.thismatchlen > b.matchlen then { b with matchlen := m.thismatchlen.toNat } else b

def step (pound : Bool) (line : UInt16) (rewritelen : ℕ) (dialed : CStr) (b : Best)
    (t : DialTemplate) : Best :=
  if matchLineNumber t.line line then
    let m := matchTemplate pound t.pattern dialed
    ((b.adoptPartial t m).adoptFull rewritelen dialed t m).raiseMatchlen m
  else b

end Best

structure Answer where
  result : DialMatchAction
  timeout : ℤ
  rewrite : CStr
  routeMode : Option RouteMode := none
  tone : Option Tone := none

/-- The answer after the pass. -/
def Best.answer (pound : Bool) (timeout : ℤ) (dialed : CStr) (b : Best) : Answer :=
  let givedialtone := b.givedialtone && !(b.result = .fullPattern || b.result = .fullMatch)
  let answer : Answer :=
    if b.result = .fullPattern ∨ b.result = .fullMatch ∨ b.result = .wildPattern then
      { result := b.result, rewrite := b.rewrite
        timeout := b.pbestmatch.elim timeout (·.timeout)
        routeMode := b.pbestmatch.map (·.routeMode) }
    else if b.partialmatch then
      { result := b.result, rewrite := b.rewrite
        timeout := if timeout = 0 then dialTimeout else timeout }
    else if dialed.getLast? = some '#' ∧ pound then
      { result := .immediately, rewrite := b.rewrite, timeout }
    else { result := b.result, rewrite := b.rewrite, timeout }
  let answer : Answer :=
    if b.bestmatchDialnow && !(pound && '#' ∈ dialed && b.partialmatch) then
      { answer with result := .immediately, timeout := 0 }
    else answer
  if givedialtone then
    { answer with
      result := .giveTone
      tone := some (b.pbestmatch.elim defaultTone fun t => t.tones.getD b.bestCommaCount defaultTone) }
  else answer

/-- `MatchDialTemplate`, for the templates of the dial plan and with the current value of the timeout. -/
def matchDialTemplate (pound : Bool) (plan : List DialTemplate) (line : UInt16) (timeout : ℤ)
    (rewritelen : ℕ) (dialed : CStr) : Answer :=
  let rewrite := (addbytes { room := rewritelen } dialed).written
  if plan = [] then
    if '#' ∈ dialed ∧ pound then { result := .immediately, timeout, rewrite }
    else { result := .noMatch, timeout, rewrite }
  else (plan.foldl (Best.step pound line rewritelen dialed) { rewrite }).answer pound timeout dialed

end Dialplan
