import Ikran.Lib.LineParser
import Ikran.Sdp.Types

/-!
# Tokenizers of the SDP library

The functions of `sdp_utils.c` that the parsers of a line are written with. On the text of a message
they are `LineParser`s. On a token that was copied out of the message they are plain functions.
-/

namespace Sdp

open CStr Line

abbrev Parser := LineParser SdpResult

/-- Count an invalid parameter and fail. -/
def invalidParameter {α : Type} : Parser α := do
  LineParser.count
  LineParser.fail .invalidParameter

/-- Fail with `SDP_INVALID_PARAMETER` when a part of the line is missing or not recognised. -/
def orInvalid {α : Type} : Option α → Parser α
  | some a => pure a
  | none => invalidParameter

/-- `sdp_getnextstrtok`. -/
def getNextStrTok (delim : CStr) : Parser (Option CStr) := LineParser.token delim maxStringLen

@[simp] theorem run_invalidParameter {α : Type} (s : CStr) (n : UInt32) :
    (invalidParameter : Parser α).run s n = (.error .invalidParameter, s, n + 1) := rfl

@[simp] theorem run_orInvalid_some {α : Type} (a : α) (s : CStr) (n : UInt32) :
    (orInvalid (some a)).run s n = (.ok a, s, n) := rfl

@[simp] theorem run_orInvalid_none {α : Type} (s : CStr) (n : UInt32) :
    (orInvalid (none : Option α)).run s n = (.error .invalidParameter, s, n + 1) := rfl

@[simp] theorem run_getNextStrTok (delim s : CStr) (n : UInt32) : (getNextStrTok delim).run s n =
      (.ok (token delim maxStringLen s).1, (token delim maxStringLen s).2, n) := rfl

/-- The numeric value of a token, up to the first character that is no digit, and whether the whole
token was numeric. The value wraps at 32 bits. -/
def numVal (tok : CStr) : UInt32 × Bool :=
  (UInt32.ofNat (digitsVal (tok.takeWhile Char.isDigit)), tok.all Char.isDigit)

/-- `sdp_getnextnumtok`: the value and whether the result is `SDP_SUCCESS`. -/
def getNextNumTok (delim : CStr) : Parser (UInt32 × Bool) := do
  match ← getNextStrTok delim with
  | none => return (0, false)
  | some tok => return numVal tok

/-- `sdp_getnextnumtok` for callers that use the value only on success. -/
def getNextNum (delim : CStr) : Parser (Option UInt32) := do
  let (v, ok) ← getNextNumTok delim
  return if ok then some v else none

/-- `sdp_getnextnumtok_or_null`: the value and the null indicator, on success. -/
def getNextNumTokOrNull (delim : CStr) : Parser (Option (UInt32 × Bool)) := do
  match ← getNextStrTok delim with
  | none => return none
  | some tok =>
    if peek tok = '-' then return some (0, true)
    else if (numVal tok).2 then return some ((numVal tok).1, false)
    else return none

/-- `sdp_getnextnumtok` on a copied token: the value, whether it succeeded, and `str_end`. -/
def numTokAt (delim s : CStr) : (UInt32 × Bool) × CStr :=
  match token delim maxStringLen s with
  | (none, t) => ((0, false), t)
  | (some tok, t) => (numVal tok, t)

/-- `sdp_getchoosetok` on a copied token: whether the token is `$`, and `str_end`. Behind a `$` the
pointer moves over the delimiter as well, even when that is the terminator. -/
def chooseTokAt (delim s : CStr) : Bool × CStr :=
  let t := skipDelims delim s
  if atEol t then (false, t)
  else if peek t = '$' ∧ (atEol t.tail ∨ peek t.tail ∈ delim) then (true, t.tail.tail)
  else (false, t)

/-- `sdp_validate_maxprate`. -/
def validateMaxprate (s : CStr) : Bool :=
  let t := s.dropWhile Char.isDigit
  let t := if peek t = '.' then t.tail.dropWhile Char.isDigit else t
  peek s != nul && peek t == nul

/-- `verify_sdescriptions_mki`: the value and the length of a syntactically correct MKI. -/
def verifySdescriptionsMki (buf : CStr) : Option (CStr × UInt16) :=
  let value := buf.takeWhile Char.isDigit
  let rest := buf.dropWhile Char.isDigit
  let len := rest.tail
  if (peek buf).isDigit ∧ value.length ≤ 3 ∧ peek rest = ':' ∧ len ≠ [] ∧ len.length ≤ 3 ∧
      len.all Char.isDigit ∧ 0 < digitsVal len ∧ digitsVal len ≤ 128 then
    some (value, UInt16.ofNat (digitsVal len))
  else none

/-- `verify_sdescriptions_lifetime`: `["2^"] 1*DIGIT`. -/
def verifySdescriptionsLifetime (buf : CStr) : Bool :=
  match buf with
  | '2' :: '^' :: s => s != [] && s.all Char.isDigit
  | s => s != [] && s.all Char.isDigit

/-- `sdp_checkrange`: the value when the number is in range. A text behind the number turns the
range check off. -/
def checkrange (num : CStr) : Option ℕ :=
  let (v, rest) := strtoul num
  if peek num = nul ∨ peek num = '-' then none
  else if peek rest = nul ∧ (4294967295 < v ∨ v = 4294967295 ∧ num ≠ "4294967295".toList) then none
  else some v

end Sdp
