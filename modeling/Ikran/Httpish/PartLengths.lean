import Ikran.Httpish.Multipart

/-!
# Lengths of body parts

The length that is recorded for a part of a multipart body. The stream of a part is for the bytes in front of its end
delimiter without the last one, but the line reader looks for a line break wherever it is: a header line may go over
the delimiter, and the empty line may take the byte that is left out, which makes the length wrap around.
-/

namespace Httpish

/-! ## The stream behind a part -/

/-- The loop of `msg_process_one_body`, with the stream that it leaves. -/
def oneBodyRun : ℕ → Rstream → MsgBody → MsgBody × Rstream
  | 0, rs, part => (part, rs)
  | fuel + 1, rs, part =>
    match rstreamReadLine rs with
    | (none, rs') => (part, rs')
    | (some [], rs') => (part.setBody rs', (rstreamReadBytes rs' (rs'.nbytes - rs'.bytesRead)).2)
    | (some line, rs') => oneBodyRun fuel rs' (part.addLine line)

theorem oneBodyRun_fst (fuel : ℕ) (rs : Rstream) (part : MsgBody) :
    (oneBodyRun fuel rs part).1 = oneBodyLoop fuel rs part := by
  induction fuel generalizing rs part with
  | zero => rfl
  | succ fuel ih =>
    rw [oneBodyRun, oneBodyLoop]
    rcases rstreamReadLine rs with ⟨_ | _ | ⟨c, line⟩, rs'⟩
    · rfl
    · rfl
    · exact ih rs' _

theorem bytesRead_le_readBytes (rs : Rstream) (n : ℕ) : rs.bytesRead ≤ (rstreamReadBytes rs n).2.bytesRead := by
  rw [rstreamReadBytes]
  split_ifs
  · exact le_refl _
  · exact le_refl _
  · exact le_refl _
  · exact Nat.le_add_right _ _

theorem bytesRead_le_oneBodyRun (fuel : ℕ) (rs : Rstream) (part : MsgBody) :
    rs.bytesRead ≤ (oneBodyRun fuel rs part).2.bytesRead := by
  induction fuel generalizing rs part with
  | zero => exact le_refl _
  | succ fuel ih =>
    have hline := (bytesRead_le_readLine rs).2
    rw [oneBodyRun]
    revert hline
    rcases rstreamReadLine rs with ⟨_ | _ | ⟨c, line⟩, rs'⟩ <;> intro hline
    · exact hline
    · exact Nat.le_trans hline (bytesRead_le_readBytes rs' _)
    · exact Nat.le_trans hline (ih rs' _)

theorem lineLoop_of_none {fuel : ℕ} {s : CStr} (hnul : NulFree s) (hfuel : s.length ≤ fuel)
    (h : (lineLoop fuel s).1 = none) : (lineLoop fuel s).2 = s.length := by
  induction fuel generalizing s with
  | zero =>
    obtain rfl := List.length_eq_zero_iff.mp (Nat.le_zero.mp hfuel)
    rfl
  | succ fuel ih =>
    have hbreak := lineBreak_le s
    have hlen : (s.drop (lineBreak s)).length = s.length - lineBreak s := List.length_drop
    rw [lineLoop] at h ⊢
    by_cases hend : lineBreak s ≠ 0 ∧ isBlank (CStr.peek (s.drop (lineBreak s))) = false
    · rw [if_pos hend] at h
      cases h
    rw [if_neg hend] at h ⊢
    have hfree := hnul.drop (lineBreak s)
    cases hdrop : s.drop (lineBreak s) with
    | nil =>
      rw [hdrop, List.length_nil] at hlen
      change lineBreak s = s.length
      omega
    | cons c t =>
      rw [hdrop] at h hfree hlen
      rw [List.length_cons] at hlen
      have htail : NulFree t := fun hmem => hfree (List.mem_cons_of_mem c hmem)
      by_cases hpeek : CStr.peek t = CStr.nul
      · rw [htail.peek_eq_nul.mp hpeek, List.length_nil] at hlen
        simp only [if_pos hpeek]
        omega
      · simp only [if_neg hpeek] at h ⊢
        rw [ih htail (by omega) (Option.map_eq_none_iff.mp h)]
        omega

/-! ## The lines of a part -/

/-- The lines of a part, from a text on, end in front of the end delimiter, which is `room` bytes away, and an empty
line ends at least one byte in front of it. -/
inductive HeadersFit : CStr → ℕ → Prop
  | done {s : CStr} {room : ℕ} : room ≤ 1 → HeadersFit s room
  | line {s line : CStr} {n room : ℕ} : lineLoop s.length s = (some line, n) → line ≠ [] → n ≤ room →
    HeadersFit (s.drop n) (room - n) → HeadersFit s room
  | empty {s : CStr} {n room : ℕ} : lineLoop s.length s = (some [], n) → n < room → HeadersFit s room

/-- How many bytes the body of a part has. -/
def MsgBody.size (part : MsgBody) : ℕ := part.msgBody.elim 0 List.length

theorem addLine_body (part : MsgBody) (line : CStr) :
    (part.addLine line).msgBody = part.msgBody ∧ (part.addLine line).msgLength = part.msgLength := by
  rw [MsgBody.addLine]
  split_ifs <;> exact ⟨rfl, rfl⟩

/-- The bytes behind the empty line are the body, unless the empty line ends behind the bytes of the stream: then there
is no body, and the length wraps around. -/
theorem setBody_true_iff {rs : Rstream} {part : MsgBody} (hroom : rs.nbytes ≤ rs.buff.length)
    (hsize : rs.nbytes < 2 ^ 32) (heof : rs.eof = decide (rs.nbytes ≤ rs.bytesRead)) (hbody : part.msgBody = none) :
    (part.setBody rs).msgLength = (part.setBody rs).size ∧
        (rstreamReadBytes rs (rs.nbytes - rs.bytesRead)).2.bytesRead ≤ rs.nbytes + 1 ↔
      rs.bytesRead ≤ rs.nbytes := by
  rw [MsgBody.setBody, MsgBody.size, hbody, Option.or_none, rstreamReadBytes, heof]
  by_cases hend : rs.nbytes ≤ rs.bytesRead
  · rw [decide_eq_true hend, if_pos rfl]
    change (((rs.nbytes : ℤ) - rs.bytesRead) % 2 ^ 32).toNat = 0 ∧ rs.bytesRead ≤ rs.nbytes + 1 ↔ _
    constructor
    · rintro ⟨hwrap, hover⟩
      by_contra hlt
      -- only the byte in front of the delimiter is left
      have hone : rs.bytesRead = rs.nbytes + 1 := by omega
      rw [hone] at hwrap
      omega
    · intro h
      have hall : rs.bytesRead = rs.nbytes := by omega
      rw [hall, Int.sub_self]
      exact ⟨rfl, Nat.le_succ _⟩
  · rw [decide_eq_false hend, if_neg Bool.false_ne_true, if_neg hend, if_neg (lt_irrefl _)]
    refine iff_of_true ⟨?_, ?_⟩ (by omega)
    · have htake : (rs.loc.take (rs.nbytes - rs.bytesRead)).length = rs.nbytes - rs.bytesRead := by
        rw [List.length_take, Rstream.loc, List.length_drop]
        omega
      change (((rs.nbytes : ℤ) - rs.bytesRead) % 2 ^ 32).toNat = (rs.loc.take (rs.nbytes - rs.bytesRead)).length
      omega
    · change rs.bytesRead + (rs.nbytes - rs.bytesRead) ≤ rs.nbytes + 1
      omega

/-- **The length of a part is true, and no byte from its end delimiter on is read, exactly when** its lines end in
front of it. -/
theorem oneBodyRun_true_iff (fuel : ℕ) {rs : Rstream} {part : MsgBody} (hnul : NulFree rs.buff)
    (hroom : rs.nbytes + 2 ≤ rs.buff.length) (hnbytes : rs.nbytes < 2 ^ 32) (hfuel : rs.nbytes - rs.bytesRead ≤ fuel)
    (hread : rs.bytesRead ≤ rs.nbytes + 1) (heof : rs.eof = decide (rs.nbytes ≤ rs.bytesRead))
    (hlength : part.msgLength = 0) (hbody : part.msgBody = none) :
    (oneBodyRun fuel rs part).1.msgLength = (oneBodyRun fuel rs part).1.size ∧
        (oneBodyRun fuel rs part).2.bytesRead ≤ rs.nbytes + 1 ↔
      HeadersFit rs.loc (rs.nbytes + 1 - rs.bytesRead) := by
  have hsize : part.msgLength = part.size := by rw [hlength, MsgBody.size, hbody, Option.elim_none]
  induction fuel generalizing rs part with
  | zero => exact iff_of_true ⟨hsize, hread⟩ (.done (by omega))
  | succ fuel ih =>
    by_cases hend : rs.nbytes ≤ rs.bytesRead
    · -- the stream has ended
      have hnone : rstreamReadLine rs = (none, rs) := by
        rw [rstreamReadLine, heof, decide_eq_true hend, if_pos rfl]
      rw [oneBodyRun, hnone]
      exact iff_of_true ⟨hsize, hread⟩ (.done (by omega))
    have hloc : rs.loc.length = rs.buff.length - rs.bytesRead := List.length_drop
    rw [oneBodyRun, rstreamReadLine, heof, decide_eq_false hend, if_neg Bool.false_ne_true, if_neg hend]
    cases hline : lineLoop rs.loc.length rs.loc with
    | mk found n =>
      rcases found with _ | _ | ⟨c, line⟩
      · -- no line break is left in the buffer, and the reader has gone over the delimiter
        have hn : n = rs.loc.length := by
          have := lineLoop_of_none (hnul.drop rs.bytesRead) le_rfl (by rw [← Rstream.loc, hline])
          rw [← Rstream.loc, hline] at this
          exact this
        refine iff_of_false (fun h => ?_) fun h => ?_
        · have hover : rs.bytesRead + n ≤ rs.nbytes + 1 := h.2
          omega
        · cases h with
          | done hdone => omega
          | line hother => cases hline.symm.trans hother
          | empty hother => cases hline.symm.trans hother
      · -- an empty line, and the body behind it
        have hset := @setBody_true_iff ⟨rs.buff, rs.nbytes, rs.bytesRead + n, decide (rs.nbytes ≤ rs.bytesRead + n)⟩ _
          (Nat.le_of_add_right_le hroom) hnbytes rfl hbody
        refine hset.trans ⟨fun hle => .empty hline (by change rs.bytesRead + n ≤ rs.nbytes at hle; omega), fun h => ?_⟩
        cases h with
        | done hdone => omega
        | line hother hne =>
          cases hline.symm.trans hother
          exact absurd rfl hne
        | empty hother hlt =>
          cases hline.symm.trans hother
          change rs.bytesRead + n ≤ rs.nbytes
          omega
      · by_cases hover : rs.bytesRead + n ≤ rs.nbytes + 1
        · have hpos : 0 < n := by
            have := @lineLoop_pos rs.loc rs.loc.length (c :: line) (by rw [hline])
            rw [hline] at this
            exact this
          obtain ⟨hbody', hlength'⟩ := addLine_body part (c :: line)
          have hrest := @ih ⟨rs.buff, rs.nbytes, rs.bytesRead + n, decide (rs.nbytes ≤ rs.bytesRead + n)⟩
            (part.addLine (c :: line)) hnul hroom hnbytes (by change rs.nbytes - (rs.bytesRead + n) ≤ fuel; omega)
            hover rfl (hlength'.trans hlength) (hbody'.trans hbody)
            (by rw [hlength', hlength, MsgBody.size, hbody', hbody, Option.elim_none])
          have hdrop : rs.loc.drop n = rs.buff.drop (rs.bytesRead + n) := List.drop_drop
          have hleft : rs.nbytes + 1 - rs.bytesRead - n = rs.nbytes + 1 - (rs.bytesRead + n) := by omega
          refine hrest.trans ⟨fun h => ?_, fun h => ?_⟩
          · refine .line hline (List.cons_ne_nil c line) (by omega) ?_
            rw [hdrop, hleft]
            exact h
          · cases h with
            | done hdone => omega
            | line hother hne hle h =>
              cases hline.symm.trans hother
              rw [hdrop, hleft] at h
              exact h
            | empty hother => cases hline.symm.trans hother
        · -- the line goes over the delimiter
          refine iff_of_false (fun h => ?_) fun h => ?_
          · have hgrown := bytesRead_le_oneBodyRun fuel
              ⟨rs.buff, rs.nbytes, rs.bytesRead + n, decide (rs.nbytes ≤ rs.bytesRead + n)⟩ (part.addLine (c :: line))
            exact hover (Nat.le_trans hgrown h.2)
          · cases h with
            | done hdone => omega
            | line hother hne hle =>
              cases hline.symm.trans hother
              omega
            | empty hother => cases hline.symm.trans hother

/-! ## The parts of a body -/

/-- Where a part is: the text from the place behind its first delimiter on, and the text from its end delimiter on. -/
structure PartPlace where
  msgStart : CStr
  msgEnd : CStr

namespace PartPlace

variable (place : PartPlace)

/-- The text from the first line of a part on. -/
def start : CStr := place.msgStart.dropWhile isBreak

/-- The bytes of a part from its first line on, up to its end delimiter. -/
def room : ℕ := place.start.length - place.msgEnd.length

/-- The bytes between the delimiters of a part, without the one behind the first. -/
def distance : ℕ := place.msgStart.length - place.msgEnd.length

/-- The stream of a part has the bytes in front of its end delimiter, but for the last. -/
def stream : Option Rstream := rstreamCreate place.start (place.room - 1)

/-- How many bytes are read for a part. -/
def bytesRead : ℕ := place.stream.elim 0 fun rs => (oneBodyRun (place.room - 1) rs {}).2.bytesRead

/-- The length of a part is that of its body and no more than there is between the delimiters, and no byte from its
end delimiter on is read. -/
structure TrueLength (part : MsgBody) : Prop where
  size : part.msgLength = part.size
  le_distance : part.msgLength ≤ place.distance
  bytesRead_le : place.bytesRead ≤ place.room

end PartPlace

/-- The parts that the loop comes to, with the fuel for as many. -/
def partPlaces (msgDelimit : CStr) : ℕ → CStr → List PartPlace
  | 0, _ => []
  | fuel + 1, rawBody =>
    match CStr.strstr msgDelimit rawBody with
    | none => []
    | some found =>
      let msgStart := found.drop (msgDelimit.length + 1)
      match CStr.strstr msgDelimit msgStart with
      | none => []
      | some msgEnd =>
        ⟨msgStart, msgEnd⟩ ::
          if CStr.peek (msgEnd.drop msgDelimit.length) = '-' then [] else partPlaces msgDelimit fuel msgEnd

def bodyPlaces (boundary rawBody : CStr) : List PartPlace :=
  let tag := boundary.takeWhile fun c => !endsBoundary c
  if msgDelimitSize ≤ tag.length + 1 then [] else partPlaces ("--" ++ tag) maxBodyParts rawBody

/-- The body of a message, whose length is that of an `int32_t`. -/
structure RawBody where
  text : CStr
  nulFree : NulFree text
  length_lt : text.length < 2 ^ 31

/-- A message without bodies, as `httpish_msg_create` sets it up. -/
def HttpishMsg.unread (hmsg : HttpishMsg) : HttpishMsg := { hmsg with mesgBody := fun _ => {} }

/-- There are as many parts as there is room for, and the length of each is true. -/
def TrueLengths (hmsg : HttpishMsg) (boundary : CStr) (rawBody : RawBody) : Prop :=
  (msgProcessMultipleBodies hmsg.unread boundary rawBody.text).2 ≤ maxBodyParts ∧
    ∀ i < (msgProcessMultipleBodies hmsg.unread boundary rawBody.text).2,
      ∃ place, (bodyPlaces boundary rawBody.text)[i]? = some place ∧
        place.TrueLength ((msgProcessMultipleBodies hmsg.unread boundary rawBody.text).1.mesgBody i)

def PartPlace.read (place : PartPlace) (part : MsgBody) : MsgBody :=
  place.stream.elim part fun rs => oneBodyLoop (place.room - 1) rs part

theorem mesgBody_msgProcessOneBody (hmsg : HttpishMsg) (place : PartPlace) (i : ℕ) :
    (msgProcessOneBody hmsg place.msgStart (place.msgStart.length - place.msgEnd.length - 1) i).mesgBody i =
      place.read (hmsg.mesgBody i) := by
  have hle : place.start.length ≤ place.msgStart.length := (List.dropWhile_suffix _).length_le
  have hnbytes : place.msgStart.length - place.msgEnd.length - 1 - (place.msgStart.length - place.start.length) =
      place.room - 1 := by
    rw [PartPlace.room]
    omega
  have hstream : rstreamCreate (place.msgStart.dropWhile isBreak) (place.room - 1) = place.stream := rfl
  simp only [PartPlace.start] at hnbytes
  simp only [msgProcessOneBody, hnbytes, hstream, PartPlace.read]
  cases place.stream with
  | none => rfl
  | some rs => exact Function.update_self _ _ _

theorem multipleBodiesLoop_snd (msgDelimit : CStr) (fuel : ℕ) (hmsg : HttpishMsg) (rawBody : CStr) (bodyPart : ℕ) :
    (multipleBodiesLoop msgDelimit fuel hmsg rawBody bodyPart).2 =
      bodyPart + (partPlaces msgDelimit fuel rawBody).length := by
  induction fuel generalizing hmsg rawBody bodyPart with
  | zero => rfl
  | succ fuel ih =>
    rw [multipleBodiesLoop, partPlaces]
    cases CStr.strstr msgDelimit rawBody with
    | none => rfl
    | some found =>
      dsimp only
      cases CStr.strstr msgDelimit (found.drop (msgDelimit.length + 1)) with
      | none => rfl
      | some msgEnd =>
        dsimp only
        split_ifs
        · rfl
        · rw [ih, List.length_cons]
          omega

variable {place : PartPlace}

theorem mesgBody_multipleBodiesLoop_add (msgDelimit : CStr) (fuel : ℕ) (hmsg : HttpishMsg) (rawBody : CStr)
    (bodyPart : ℕ) {i : ℕ} (h : (partPlaces msgDelimit fuel rawBody)[i]? = some place) :
    (multipleBodiesLoop msgDelimit fuel hmsg rawBody bodyPart).1.mesgBody (bodyPart + i) =
      place.read (hmsg.mesgBody (bodyPart + i)) := by
  induction fuel generalizing hmsg rawBody bodyPart i with
  | zero => cases h
  | succ fuel ih =>
    rw [partPlaces] at h
    rw [multipleBodiesLoop]
    cases hfound : CStr.strstr msgDelimit rawBody with
    | none =>
      rw [hfound] at h
      cases h
    | some found =>
      simp only [hfound] at h ⊢
      cases hend : CStr.strstr msgDelimit (found.drop (msgDelimit.length + 1)) with
      | none =>
        rw [hend] at h
        cases h
      | some msgEnd =>
        simp only [hend] at h ⊢
        have hone := mesgBody_msgProcessOneBody hmsg ⟨found.drop (msgDelimit.length + 1), msgEnd⟩ bodyPart
        cases i with
        | zero =>
          obtain rfl : _ = place := Option.some.inj h
          simp only [Nat.add_zero]
          split_ifs
          · exact hone
          · have hlt : bodyPart < bodyPart + 1 := Nat.lt_succ_self bodyPart
            rw [mesgBody_multipleBodiesLoop _ _ _ _ hlt]
            exact hone
        | succ i =>
          rw [List.getElem?_cons_succ] at h
          split_ifs at h ⊢ with hlast
          · cases h
          · have hplace : bodyPart + (i + 1) = bodyPart + 1 + i := by omega
            rw [hplace, ih _ _ _ h, mesgBody_processOneBody _ _ _ (by omega)]

theorem suffix_dropWhile_isBreak {u s : CStr} (h : u <:+ s) (hu : u.dropWhile isBreak = u) :
    u <:+ s.dropWhile isBreak := by
  obtain ⟨front, rfl⟩ := h
  rw [List.dropWhile_append]
  split_ifs
  · simp only [hu, List.suffix_refl]
  · exact List.suffix_append _ _

/-- The places are in the text: the end delimiter is behind the first line, and no text has a terminator. -/
theorem place_of_mem {tag : CStr} {fuel : ℕ} {rawBody : CStr} (hnul : NulFree rawBody)
    (h : place ∈ partPlaces ('-' :: '-' :: tag) fuel rawBody) :
    NulFree place.start ∧ place.start.length ≤ rawBody.length ∧ place.room + 2 ≤ place.start.length := by
  induction fuel generalizing rawBody with
  | zero => cases h
  | succ fuel ih =>
    rw [partPlaces] at h
    cases hfound : CStr.strstr ('-' :: '-' :: tag) rawBody with
    | none =>
      rw [hfound] at h
      cases h
    | some found =>
      simp only [hfound] at h
      cases hend : CStr.strstr ('-' :: '-' :: tag) (found.drop (('-' :: '-' :: tag).length + 1)) with
      | none =>
        rw [hend] at h
        cases h
      | some msgEnd =>
        simp only [hend] at h
        obtain ⟨-, hsuffix⟩ := CStr.strstr_spec hfound
        obtain ⟨⟨s, rfl⟩, hendSuffix⟩ := CStr.strstr_spec hend
        have hstart : found.drop (('-' :: '-' :: tag).length + 1) <:+ rawBody := (List.drop_suffix _ _).trans hsuffix
        rcases List.mem_cons.mp h with rfl | h
        · -- the delimiter starts with no line break
          have hinside := suffix_dropWhile_isBreak hendSuffix rfl
          have hrest := (List.dropWhile_suffix isBreak).trans hstart
          refine ⟨fun hmem => hnul (hrest.subset hmem), hrest.length_le, ?_⟩
          have hle := hinside.length_le
          have hlength : 2 ≤ ('-' :: '-' :: tag ++ s).length := by
            simp only [List.cons_append, List.length_cons]
            omega
          simp only [PartPlace.room, PartPlace.start]
          omega
        · split_ifs at h
          · cases h
          · have hraw : ('-' :: '-' :: tag) ++ s <:+ rawBody := hendSuffix.trans hstart
            obtain ⟨hfree, hle, hroom⟩ := ih (fun hmem => hnul (hraw.subset hmem)) h
            exact ⟨hfree, hle.trans hraw.length_le, hroom⟩

theorem length_partPlaces_le (msgDelimit : CStr) (fuel : ℕ) (rawBody : CStr) :
    (partPlaces msgDelimit fuel rawBody).length ≤ fuel := by
  induction fuel generalizing rawBody with
  | zero => exact le_refl _
  | succ fuel ih =>
    rw [partPlaces]
    cases CStr.strstr msgDelimit rawBody with
    | none => exact Nat.zero_le _
    | some found =>
      dsimp only
      cases CStr.strstr msgDelimit (found.drop (msgDelimit.length + 1)) with
      | none => exact Nat.zero_le _
      | some msgEnd =>
        dsimp only
        rw [List.length_cons]
        split_ifs
        · exact Nat.succ_le_succ (Nat.zero_le _)
        · exact Nat.succ_le_succ (ih msgEnd)

theorem msgLength_le_of_true {fuel : ℕ} {rs : Rstream} {part : MsgBody} (hbody : part.msgBody = none)
    (hsize : (oneBodyLoop fuel rs part).msgLength = (oneBodyLoop fuel rs part).size) (hstart : rs.bytesRead = 0) :
    (oneBodyLoop fuel rs part).msgLength ≤ rs.nbytes := by
  have hline : LineStart rs.buff rs.bytesRead := by
    rw [hstart]
    exact fun q hq => absurd hq (by omega)
  rw [hsize, MsgBody.size]
  rcases oneBodyLoop_msgBody fuel part hline with hnone | ⟨p, r, -, -, -, hsome⟩
  · rw [hnone, hbody]
    exact Nat.zero_le _
  · rw [hsome, Option.elim_some, List.length_take]
    omega

/-- **The length of a part is true exactly when** its lines end in front of its end delimiter. -/
theorem PartPlace.trueLength_iff (hnul : NulFree place.start)
    (hlength : place.start.length < 2 ^ 31) (hroom : place.room + 2 ≤ place.start.length) :
    place.TrueLength (place.read {}) ↔ HeadersFit place.start place.room := by
  have hdistance : place.room ≤ place.distance := by
    have hle : place.start.length ≤ place.msgStart.length := (List.dropWhile_suffix _).length_le
    rw [PartPlace.room, PartPlace.distance]
    omega
  by_cases hsmall : place.room ≤ 1
  · -- no stream is made
    have hstream : place.stream = none := by
      rw [PartPlace.stream, rstreamCreate, if_pos (by omega)]
    refine iff_of_true ⟨?_, ?_, ?_⟩ (.done hsmall)
    · rw [PartPlace.read, hstream]
      rfl
    · rw [PartPlace.read, hstream]
      exact Nat.zero_le _
    · rw [PartPlace.bytesRead, hstream]
      exact Nat.zero_le _
  · have hstream : place.stream = some ⟨place.start, place.room - 1, 0, false⟩ := by
      rw [PartPlace.stream, rstreamCreate, if_neg (by omega)]
    have heof : false = decide (place.room - 1 ≤ 0) := (decide_eq_false (by omega)).symm
    have hone := @oneBodyRun_true_iff (place.room - 1) ⟨place.start, place.room - 1, 0, false⟩ {}
      hnul (by change place.room - 1 + 2 ≤ place.start.length; omega) (by change place.room - 1 < 2 ^ 32; omega)
      (by change place.room - 1 - 0 ≤ place.room - 1; omega) (Nat.zero_le _) heof rfl rfl
    rw [oneBodyRun_fst] at hone
    have hread : place.read {} = oneBodyLoop (place.room - 1) ⟨place.start, place.room - 1, 0, false⟩ {} := by
      rw [PartPlace.read, hstream, Option.elim_some]
    have hbytes : place.bytesRead =
        (oneBodyRun (place.room - 1) ⟨place.start, place.room - 1, 0, false⟩ {}).2.bytesRead := by
      rw [PartPlace.bytesRead, hstream, Option.elim_some]
    have hend : place.room - 1 + 1 = place.room := by omega
    simp only [Rstream.loc, List.drop_zero, Nat.sub_zero, hend] at hone
    rw [← hone]
    constructor
    · intro h
      exact ⟨hread ▸ h.size, hbytes ▸ h.bytesRead_le⟩
    · rintro ⟨hsize, hle⟩
      refine ⟨hread ▸ hsize, ?_, hbytes ▸ hle⟩
      rw [hread]
      have := msgLength_le_of_true rfl hsize rfl
      change _ ≤ place.room - 1 at this
      omega

theorem msgProcessMultipleBodies_places (hmsg : HttpishMsg) (boundary rawBody : CStr) :
    (msgProcessMultipleBodies hmsg boundary rawBody).2 = (bodyPlaces boundary rawBody).length ∧
      ∀ (i : ℕ) (place : PartPlace), (bodyPlaces boundary rawBody)[i]? = some place →
        (msgProcessMultipleBodies hmsg boundary rawBody).1.mesgBody i = place.read (hmsg.mesgBody i) := by
  simp only [msgProcessMultipleBodies, bodyPlaces]
  split_ifs
  · exact ⟨rfl, fun i place h => by cases h⟩
  · refine ⟨by rw [multipleBodiesLoop_snd, Nat.zero_add], fun i place h => ?_⟩
    have hpart := mesgBody_multipleBodiesLoop_add _ _ hmsg rawBody 0 h
    rw [Nat.zero_add] at hpart
    exact hpart

/-- A part that is a header and an empty line. -/
def emptyPart : RawBody where
  text := "--b\r\nContent-Type: text/plain\r\n\r\n--b--"
  nulFree := by decide
  length_lt := by decide

end Httpish
