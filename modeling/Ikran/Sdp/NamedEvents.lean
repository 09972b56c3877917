import Ikran.Lib.Runs
import Ikran.Sdp.BuildAttr
import Ikran.Sdp.Reads

/-!
# Named telephone events

A format parameter line for telephone events lists event numbers and ranges of them. The attribute
holds them in a bitmap of 256 bits, with the largest event beside it.

The builder walks the bitmap with a mask that it shifts by one bit for each event and starts anew
for each word. It prints the maximal intervals of the events. The parser looks for codec parameters
first. Where it finds none, it goes back for the events, to a pointer that an earlier loop has moved
to the end of the line. No event list is ever read.
-/

namespace Sdp

open CStr Line Runs

/-- `SDP_NE_BITS_PER_WORD`. -/
def neBitsPerWord : ℕ := 32

/-- `SDP_NE_BIT_0`. -/
def neBit0 : UInt32 := 1

/-- The variables of the loop over the named events. -/
structure EventLoop where
  eventId : ℕ := 0
  mapword : ℕ := 0
  mask : UInt32 := neBit0
  /-- An octet, like `max`. -/
  min : ℕ := 0
  max : ℕ := 0
  rangeStart : Bool := false
  rangeEnd : Bool := false

namespace EventLoop

def next (st : EventLoop) : EventLoop :=
  { st with eventId := st.eventId + 1, mapword := (st.eventId + 1) / neBitsPerWord }

/-- The range with the event under the mask: `range_end` is set by the last event of all, and by a
gap behind a range. -/
def take (f : Fmtp) (st : EventLoop) : EventLoop :=
  if f.bmap[st.mapword]! &&& st.mask != 0 then
    let st := if st.rangeStart then { st with max := st.eventId % 256 }
      else { st with rangeStart := true, min := st.eventId % 256, max := st.eventId % 256 }
    { st with rangeEnd := st.max == f.maxval }
  else { st with rangeEnd := st.rangeStart }

/-- Print a range that has ended. -/
def print (f : Fmtp) (st : EventLoop) : List CStr × EventLoop :=
  if st.rangeEnd then
    (eventRange f st.min st.max, { st with rangeStart := false, rangeEnd := false })
  else ([], st)

/-- The body of the loop. A word without events is skipped at its first event, unless a range is
open. -/
def body (f : Fmtp) (st : EventLoop) : List CStr × EventLoop :=
  if st.eventId % neBitsPerWord ≠ 0 then (take f { st with mask := st.mask <<< 1 }).print f
  else if !st.rangeStart && !st.rangeEnd && f.bmap[st.mapword]! == 0 then
    ([], { st with mask := neBit0, eventId := st.eventId + (neBitsPerWord - 1) })
  else (take f { st with mask := neBit0 }).print f

end EventLoop

/-- The loop over the named events in `sdp_build_attr_fmtp`, with the fuel for `fuel` rounds. -/
def eventLoop (f : Fmtp) : ℕ → EventLoop → List CStr
  | 0, _ => []
  | fuel + 1, st =>
    if st.eventId ≤ f.maxval then (st.body f).1 ++ eventLoop f fuel (st.body f).2.next
    else []

/-! ## What the loop prints -/

namespace EventLoop

/-- The state of the loop in front of an event, with the range that is open. The mask has yet to be
shifted to the event. -/
structure At (st : EventLoop) (k : ℕ) (run : Option (ℕ × ℕ)) : Prop where
  eventId : st.eventId = k
  mapword : st.mapword = k / neBitsPerWord
  mask : k % neBitsPerWord ≠ 0 →
    st.mask <<< 1 = (1 : UInt32) <<< UInt32.ofNat (k % neBitsPerWord)
  rangeEnd : st.rangeEnd = false
  run : run = if st.rangeStart then some (st.min, st.max) else none

theorem at_zero : ({} : EventLoop).At 0 none := ⟨rfl, rfl, nofun, rfl, rfl⟩

theorem mask_shift (k : ℕ) (h : (k + 1) % neBitsPerWord ≠ 0) :
    ((1 : UInt32) <<< UInt32.ofNat (k % neBitsPerWord)) <<< 1 =
      (1 : UInt32) <<< UInt32.ofNat ((k + 1) % neBitsPerWord) := by
  have hall : ∀ j : Fin 31, ((1 : UInt32) <<< UInt32.ofNat j) <<< 1 = (1 : UInt32) <<< UInt32.ofNat (j + 1) := by decide
  simp only [neBitsPerWord] at h ⊢
  have hsucc : (k + 1) % 32 = k % 32 + 1 := by omega
  rw [hsucc]
  exact hall ⟨k % 32, by omega⟩

/-- One event that is not skipped: what is printed is what `eventTexts` prints for it. -/
theorem exists_at_next {f : Fmtp} {st : EventLoop} {k : ℕ} {run : Option (ℕ × ℕ)} (h : st.At k run)
    (hk : k ≤ f.maxval) {mask : UInt32}
    (hmask : mask = (1 : UInt32) <<< UInt32.ofNat (k % neBitsPerWord)) :
    ∃ run', ((take f { st with mask := mask }).print f).2.next.At (k + 1) run' ∧
      ∀ is, ((take f { st with mask := mask }).print f).1 ++ eventTexts f run' is = eventTexts f run (k :: is) := by
  obtain ⟨rfl, hword, -, hend, hrun⟩ := h
  have hbit : (f.bmap[st.mapword]! &&& mask != 0) = f.hasEvent st.eventId := by
    rw [hword, hmask]
    rfl
  have hsmall : st.eventId % 256 = st.eventId := by
    have hlt := f.maxval.isLt
    omega
  -- after the event the mask is the one of this event, whatever became of the range
  have hnext : ∀ min max start run', run' = (if start then some (min, max) else none) →
      (EventLoop.mk st.eventId st.mapword mask min max start false).next.At (st.eventId + 1) run' :=
    fun min max start run' hrun' =>
      ⟨rfl, rfl, fun hne => hmask ▸ mask_shift st.eventId hne, rfl, hrun'⟩
  simp only [take, hbit, hsmall, eventTexts, hrun]
  by_cases hp : f.hasEvent st.eventId = true
  · by_cases hlast : st.eventId = f.maxval
    · rw [hlast] at hp hnext
      refine ⟨none, ?_, fun is => ?_⟩
      · cases hstart : st.rangeStart <;>
          simpa [hp, hlast, hstart, print] using hnext _ _ false none rfl
      · cases st.rangeStart <;> simp [hp, hlast, print]
    · have hne : (st.eventId == (f.maxval : ℕ)) = false := beq_eq_false_iff_ne.mpr hlast
      refine ⟨some ((run.map Prod.fst).getD st.eventId, st.eventId), ?_, fun is => ?_⟩
      · cases hstart : st.rangeStart <;>
          simpa [hp, hne, hstart, print, hrun] using hnext _ _ true _ rfl
      · cases hstart : st.rangeStart <;> simp [hp, hlast, hstart, print, hrun]
  · refine ⟨none, ?_, fun is => ?_⟩
    · cases hstart : st.rangeStart <;>
        simpa [hp, hstart, print] using hnext _ _ false none rfl
    · cases st.rangeStart <;> simp [hp, print]

theorem At.skip {st : EventLoop} {k : ℕ} {run : Option (ℕ × ℕ)} (h : st.At k run)
    (hk : k % neBitsPerWord = 0) (hstart : st.rangeStart = false) :
    ({ st with mask := neBit0, eventId := st.eventId + (neBitsPerWord - 1) } : EventLoop).next.At
      (k + neBitsPerWord) none := by
  obtain ⟨rfl, -, -, hend, -⟩ := h
  refine ⟨rfl, rfl, fun hne => ?_, hend, ?_⟩
  · exact absurd (by rw [Nat.add_mod_right, hk]) hne
  · simp [next, hstart]

end EventLoop

variable {f : Fmtp}

theorem eventTexts_none_append {is : List ℕ} (his : ∀ i ∈ is, f.hasEvent i = false)
    (is' : List ℕ) : eventTexts f none (is ++ is') = eventTexts f none is' := by
  induction is with
  | nil => rfl
  | cons i is ih =>
    have hi := his i List.mem_cons_self
    have hrest := ih fun j hj => his j (List.mem_cons_of_mem i hj)
    simpa [eventTexts, hi] using hrest

theorem hasEvent_of_word_eq_zero {i : ℕ} (h : f.bmap[i / 32]! = 0) : f.hasEvent i = false := by
  simp [Fmtp.hasEvent, h]

theorem eventTexts_skip {k n : ℕ} (hk : k % neBitsPerWord = 0) (hzero : f.bmap[k / neBitsPerWord]! = 0) :
    eventTexts f none (List.range' k (n - k)) =
      eventTexts f none (List.range' (k + neBitsPerWord) (n - (k + neBitsPerWord))) := by
  simp only [neBitsPerWord] at hk hzero ⊢
  have hsplit : List.range' k (n - k) = List.range' k (min 32 (n - k)) ++ List.range' (k + 32) (n - (k + 32)) := by
    by_cases hn : n - k ≤ 32
    · have hlast : n - (k + 32) = 0 := by omega
      simp [hlast, hn]
    · have hmin : min 32 (n - k) = 32 := by omega
      have hlen : n - k = 32 + (n - (k + 32)) := by omega
      rw [hmin, hlen, ← List.range'_append_1]
  rw [hsplit]
  refine eventTexts_none_append (fun i hi => hasEvent_of_word_eq_zero ?_) _
  obtain ⟨hlow, hhigh⟩ := List.mem_range'_1.mp hi
  have hi32 : i / 32 = k / 32 := by omega
  rw [hi32, hzero]

/-- The loop prints what `eventTexts` prints, from any event on. -/
theorem eventLoop_eq_of_at (fuel : ℕ) {st : EventLoop} {k : ℕ} {run : Option (ℕ × ℕ)}
    (h : st.At k run) (hfuel : f.maxval + 1 - k ≤ fuel) :
    eventLoop f fuel st = eventTexts f run (List.range' k (f.maxval + 1 - k)) := by
  induction fuel using Nat.strong_induction_on generalizing st k run with
  | h fuel ih =>
  cases fuel with
  | zero =>
    rw [Nat.le_zero.mp hfuel]
    simp [eventLoop, eventTexts]
  | succ fuel =>
    rw [eventLoop]
    by_cases hk : k ≤ f.maxval
    · have hlen : f.maxval + 1 - k = (f.maxval + 1 - (k + 1)) + 1 := by omega
      -- an event that is not skipped, with its own bit as the mask
      have hevent : ∀ mask, mask = (1 : UInt32) <<< UInt32.ofNat (k % neBitsPerWord) →
          ((EventLoop.take f { st with mask := mask }).print f).1 ++
              eventLoop f fuel ((EventLoop.take f { st with mask := mask }).print f).2.next =
            eventTexts f run (List.range' k (f.maxval + 1 - k)) := by
        intro mask hmask
        obtain ⟨run', hat, htexts⟩ := EventLoop.exists_at_next h hk hmask
        rw [ih fuel (Nat.lt_succ_self fuel) hat (by omega), htexts, hlen, List.range'_succ]
      rw [if_pos (h.eventId ▸ hk), EventLoop.body]
      by_cases hword : k % neBitsPerWord ≠ 0
      · rw [if_pos (h.eventId ▸ hword)]
        exact hevent _ (h.mask hword)
      · rw [if_neg (h.eventId ▸ hword)]
        by_cases hskip : (!st.rangeStart && !st.rangeEnd && f.bmap[st.mapword]! == 0) = true
        · -- the word has no events, and no range is open that it would close
          rw [if_pos hskip]
          simp only [Bool.and_eq_true, Bool.not_eq_true', beq_iff_eq] at hskip
          obtain ⟨⟨hstart, -⟩, hzero⟩ := hskip
          obtain rfl : run = none := by simpa [hstart] using h.run
          exact (ih fuel (Nat.lt_succ_self fuel) (h.skip (not_not.mp hword) hstart)
            (by simp only [neBitsPerWord]; omega)).trans
            (eventTexts_skip (not_not.mp hword) (h.mapword ▸ hzero)).symm
        · rw [if_neg hskip]
          exact hevent _ (by rw [not_not.mp hword]; rfl)
    · rw [if_neg (h.eventId ▸ hk), Nat.sub_eq_zero_of_le (by omega)]
      simp [eventTexts]

theorem eventLoop_eq (f : Fmtp) : eventLoop f (f.maxval + 1) {} = eventTexts f none (List.range (f.maxval + 1)) := by
  rw [List.range_eq_range']
  exact eventLoop_eq_of_at _ EventLoop.at_zero (by omega)

/-! ## What the list denotes -/

def rangeText (r : ℕ × ℕ) : CStr :=
  if r.1 = r.2 then decimal r.1 else decimal r.1 ++ '-' :: decimal r.2

/-- The event list of a line, as the loop of the builder prints it. -/
def eventList (f : Fmtp) : CStr := (eventLoop f (f.maxval + 1) {}).flatten

/-- The attribute holds the named events `S`, and `maxval` is the largest of them. -/
structure Fmtp.HoldsEvents (f : Fmtp) (S : Set ℕ) : Prop where
  format : f.fmtpFormat = .nte
  events : ∀ i ≤ 255, f.hasEvent i = true ↔ i ∈ S
  bounded : ∀ i ∈ S, i ≤ 255
  greatest : IsGreatest S f.maxval
  positive : 0 < f.maxval

/-- The printed list denotes `S`: it consists of the maximal ranges of `S` in ascending order,
separated by commas. -/
def Fmtp.Denotes (f : Fmtp) (S : Set ℕ) : Prop :=
  ∃ rs, IsRuns S rs ∧ eventList f = List.intercalate [','] (rs.map rangeText)

theorem eventTexts_eq_scan (f : Fmtp) (run : Option (ℕ × ℕ)) (is : List ℕ) : eventTexts f run is =
      (scan f.hasEvent f.maxval run is).flatMap fun r => eventRange f r.1 r.2 := by
  induction is generalizing run with
  | nil => simp [eventTexts, scan]
  | cons i is ih =>
    rw [scan]
    by_cases hp : f.hasEvent i = true
    · by_cases hm : i = f.maxval
      · simp [eventTexts, hm ▸ hp, hm, ih]
      · simp [eventTexts, hp, hm, ih]
    · cases run with
      | none => simp [eventTexts, hp, ih]
      | some r => simp [eventTexts, hp, ih]

theorem flatten_eventRange (f : Fmtp) (r : ℕ × ℕ) :
    (eventRange f r.1 r.2).flatten = rangeText r ++ if r.2 = f.maxval then [] else [','] := by
  unfold eventRange rangeText fmt
  split_ifs <;> simp [*]

/-- The last of the maximal ranges, and no other, ends with the last event. The commas therefore
stand between the ranges. -/
theorem flatten_ranges {S : Set ℕ} {rs : List (ℕ × ℕ)} (hrs : IsRuns S rs)
    (hbound : ∀ i ∈ S, i ≤ f.maxval) (hmax : rs ≠ [] → (f.maxval : ℕ) ∈ S) :
    (rs.flatMap fun r => eventRange f r.1 r.2).flatten =
      List.intercalate [','] (rs.map rangeText) := by
  induction rs generalizing S with
  | nil => rfl
  | cons r rs ih =>
    have hrest := ih hrs.tail (fun i hi => hbound i hi.1)
    rw [List.flatMap_cons, List.flatten_append, flatten_eventRange]
    cases rs with
    | nil =>
      obtain ⟨r', hr', hmem⟩ := (hrs.covers _).mp (hmax nofun)
      obtain rfl := List.mem_singleton.mp hr'
      have hlast : r'.2 = f.maxval := Nat.le_antisymm (hbound _ (hrs.snd_mem hr')) hmem.2
      simp [hlast, List.intercalate]
    | cons r' rs =>
      have hgap := List.rel_of_pairwise_cons hrs.gaps List.mem_cons_self
      have hne := hrs.nonempty r' (List.mem_cons_of_mem r List.mem_cons_self)
      have hr' := hbound _ (hrs.snd_mem (List.mem_cons_of_mem r List.mem_cons_self))
      have hinner : r.2 ≠ f.maxval := by omega
      rw [hrest fun _ => ⟨hmax nofun, by omega⟩, if_neg hinner]
      simp [List.intercalate]

theorem Fmtp.HoldsEvents.denotes {S : Set ℕ} (h : f.HoldsEvents S) : f.Denotes S := by
  have hmem : ∀ i, i ∈ S ↔ i ≤ f.maxval ∧ f.hasEvent i = true := by
    intro i
    constructor
    · intro hi
      exact ⟨h.greatest.2 hi, (h.events i (h.bounded i hi)).mpr hi⟩
    · rintro ⟨hle, hi⟩
      exact (h.events i (hle.trans (Nat.le_of_lt_succ f.maxval.isLt))).mp hi
  have hruns := (isRuns_scan f.hasEvent f.maxval).congr hmem
  refine ⟨_, hruns, ?_⟩
  rw [eventList, eventLoop_eq, eventTexts_eq_scan]
  exact flatten_ranges hruns (fun i hi => h.greatest.2 hi) fun _ => h.greatest.1

/-! ## The parser on an event list -/

def isEventChar (c : Char) : Bool := c.isDigit || c == ',' || c == '-'

theorem val_le_of_isEventChar {c : Char} (hc : isEventChar c = true) : c.val ≤ 57 := by
  simp only [isEventChar, Bool.or_eq_true, beq_iff_eq] at hc
  rcases hc with (hdigit | rfl) | rfl
  · simp only [Char.isDigit, Bool.and_eq_true, decide_eq_true_eq] at hdigit
    exact hdigit.2
  · decide
  · decide

theorem scan_isEventChar {c : Char} (hc : isEventChar c = true) : isEol c = false ∧ c ∉ ("= \t" : CStr) := by
  have hne : ∀ d, isEventChar d = false → c ≠ d := by
    rintro d hd rfl
    rw [hc] at hd
    cases hd
  constructor
  · simp [isEol, hne nul (by decide), hne '\n' (by decide), hne '\r' (by decide)]
  · intro hmem
    rcases List.mem_cons.mp hmem with rfl | hmem
    · cases hc
    rcases List.mem_cons.mp hmem with rfl | hmem
    · cases hc
    rcases List.mem_cons.mp hmem with rfl | hmem
    · cases hc
    cases hmem

theorem isAlpha_toUpper_isEventChar {c : Char} (hc : isEventChar c = true) : c.toUpper.isAlpha = false := by
  have hle := val_le_of_isEventChar hc
  have hA : ¬ (65 : UInt32) ≤ c.val := by grind
  have ha : ¬ (97 : UInt32) ≤ c.val := by grind
  have hupper : c.toUpper = c := dif_neg fun h => ha h.1
  rw [hupper]
  delta Char.isAlpha Char.isUpper Char.isLower
  simp [hA, ha]

theorem FmtpParam.isAlpha_peek_name (p : FmtpParam) : p.name.peek.toUpper.isAlpha = true := by
  cases p <;> rfl

theorem findName_events {tok : CStr} (hne : tok ≠ []) (htok : ∀ c ∈ tok, isEventChar c = true)
    (all : List FmtpParam) : findName all FmtpParam.name tok = none := by
  obtain ⟨c, tok', rfl⟩ := List.exists_cons_of_ne_nil hne
  refine List.find?_eq_none.mpr fun p _ => ?_
  have hdiff : (c.toUpper == p.name.peek.toUpper) = false := by
    refine beq_eq_false_iff_ne.mpr fun heq => ?_
    have hletter := p.isAlpha_peek_name
    rw [← heq, isAlpha_toUpper_isEventChar (htok c List.mem_cons_self)] at hletter
    cases hletter
  simp [nameEq, strncaseEq, hdiff]

theorem run_fmtpParam_events {body rest : CStr} (hne : body ≠ [])
    (hbody : ∀ c ∈ body, isEventChar c = true) (f : Fmtp) (n : UInt32) :
    (fmtpParam f).run (body ++ (crlf ++ rest)) n =
      (.ok (some (f, false, false)), body.drop maxStringLen ++ (crlf ++ rest), n) := by
  have htok := @token_text _ _ maxStringLen _ hne (fun c hc => scan_isEventChar (hbody c hc))
    (show atEol (crlf ++ rest) = true from rfl)
  have hword : body.take maxStringLen ≠ [] := by
    simpa [List.take_eq_nil_iff, maxStringLen] using hne
  have hchars : ∀ c ∈ body.take maxStringLen, isEventChar c = true := fun c hc => hbody c (List.mem_of_mem_take hc)
  have hpeek : peek (body.drop maxStringLen ++ (crlf ++ rest)) ≠ '\n' := by
    intro heq
    cases hdrop : body.drop maxStringLen with
    | nil =>
      rw [hdrop] at heq
      cases heq
    | cons c s =>
      rw [hdrop] at heq
      have hc := hbody c (List.mem_of_mem_drop (hdrop ▸ List.mem_cons_self))
      rw [show c = '\n' from heq] at hc
      cases hc
  simp only [fmtpParam, LineParser.run_bind, run_getNextStrTok, htok, fmtpFirst,
    findName_events hword hchars, fmtpSecond, LineParser.run_pure, LineParser.run_peek]
  rw [if_neg hpeek]
  rfl

theorem fmtpLoop_eol {s : CStr} (hs : atEol s) (fuel : ℕ) (f : Fmtp) (n : UInt32) (found : Bool) :
    fmtpLoop fuel s n f found = (.ok (f, found), n) := by
  cases fuel with
  | zero => rfl
  | succ fuel =>
    have hrun : (fmtpParam f).run s n = (.ok none, s, n) := by
      simp only [fmtpParam, LineParser.run_bind, run_getNextStrTok, token_eol hs]
      rfl
    rw [fmtpLoop, hrun]

/-- The loop over the parameters finds no codec information in an event list. A list that is longer
than a token is taken in several tokens, with one character lost between them. -/
theorem fmtpLoop_events (fuel : ℕ) {body rest : CStr} (hbody : ∀ c ∈ body, isEventChar c = true)
    (f : Fmtp) (n : UInt32) (found : Bool) :
    fmtpLoop fuel (body ++ (crlf ++ rest)) n f found = (.ok (f, found), n) := by
  induction fuel generalizing body with
  | zero => rfl
  | succ fuel ih =>
    by_cases hne : body = []
    · rw [hne]
      exact fmtpLoop_eol rfl _ f n found
    · rw [fmtpLoop, run_fmtpParam_events hne hbody]
      simp only [Bool.or_false, Bool.false_eq_true, if_false]
      cases hdrop : body.drop maxStringLen with
      | nil => exact fmtpLoop_eol rfl fuel f n found
      | cons c s =>
        have hs : ∀ d ∈ s, isEventChar d = true := fun d hd =>
          hbody d (List.mem_of_mem_drop (hdrop ▸ List.mem_cons_of_mem c hd))
        exact ih hs

theorem fmtpLoop_blank (s : CStr) (fuel : ℕ) (f : Fmtp) (n : UInt32) (found : Bool) :
    fmtpLoop (fuel + 1) (' ' :: s) n f found = fmtpLoop (fuel + 1) s n f found := by
  have htok : token "= \t" maxStringLen (' ' :: s) = token "= \t" maxStringLen s := token_delim rfl (by decide) s
  have hrun : (fmtpParam f).run (' ' :: s) n = (fmtpParam f).run s n := by
    simp only [fmtpParam, LineParser.run_bind, run_getNextStrTok, htok]
  rw [fmtpLoop, fmtpLoop, hrun]

theorem isEventChar_of_mem_eventList {c : Char} (hc : c ∈ eventList f) : isEventChar c = true := by
  have hdecimal : ∀ n, ∀ c ∈ decimal n, isEventChar c = true := fun n c hc => by
    simp [isEventChar, isDigit_of_mem_decimal hc]
  rw [eventList, eventLoop_eq, eventTexts_eq_scan] at hc
  obtain ⟨text, htext, hc⟩ := List.mem_flatten.mp hc
  obtain ⟨r, -, hr⟩ := List.mem_flatMap.mp htext
  have hc : c ∈ (eventRange f r.1 r.2).flatten := List.mem_flatten.mpr ⟨text, hr, hc⟩
  rw [flatten_eventRange, List.mem_append] at hc
  rcases hc with hc | hc
  · unfold rangeText at hc
    split_ifs at hc
    · exact hdecimal _ c hc
    · rcases List.mem_append.mp hc with hc | hc
      · exact hdecimal _ c hc
      · rcases List.mem_cons.mp hc with rfl | hc
        · rfl
        · exact hdecimal _ c hc
  · split_ifs at hc
    · cases hc
    · obtain rfl := List.mem_singleton.mp hc
      rfl

/-! ## The emitted line -/

/-- The line of the attribute, from behind the colon of its name on. This is the text that
`sdp_parse_attr_fmtp` is given. -/
def fmtpArg (f : Fmtp) : CStr := (fmtpTexts f).flatten.drop ("a=fmtp:" : CStr).length

/-- Parsing the emitted line, whatever follows it in the message, gives the same events. -/
def Fmtp.ReadsBack (f : Fmtp) (rest : CStr) (n : UInt32) : Prop :=
  ∃ g n', parseAttrFmtp (fmtpArg f ++ rest) n = (.ok (.fmtp g), n') ∧
    g.bmap = f.bmap ∧ g.maxval = f.maxval

theorem fmtpArg_eq (hformat : f.fmtpFormat = .nte) (rest : CStr) : fmtpArg f ++ rest =
      decimal f.payloadNum.toNat ++ ' ' :: (eventList f ++ (crlf ++ rest)) := by
  have hname : ∀ num : CStr, fmt ["a=", PlainType.fmtp.name, ":", num, " "] =
      ("a=fmtp:" : CStr) ++ (num ++ [' ']) := fun _ => rfl
  have hlist : eventList f = (eventTexts f none (List.range (f.maxval + 1))).flatten := by
    rw [eventList, eventLoop_eq]
  rw [fmtpArg, fmtpTexts, hformat, hname, hlist]
  generalize eventTexts f none (List.range (f.maxval + 1)) = texts
  generalize decimal f.payloadNum.toNat = num
  simp only [List.append_nil, List.flatten_append, List.flatten_cons, List.flatten_nil,
    List.append_assoc, List.drop_left]
  rfl

theorem replaceSlashes_events {body : CStr} (hbody : ∀ c ∈ body, isEventChar c = true) (rest : CStr) :
    replaceSlashes (' ' :: (body ++ (crlf ++ rest))) = ' ' :: (body ++ (crlf ++ rest)) ∧
      (' ' :: (body ++ (crlf ++ rest))).dropWhile (· != '\n') = '\n' :: rest := by
  have hline : ∀ c ∈ ' ' :: (body ++ ['\r']), (c != '\n') = true ∧ c ≠ '/' := by
    intro c hc
    rcases List.mem_cons.mp hc with rfl | hc
    · decide
    rcases List.mem_append.mp hc with hc | hc
    · have hevent := hbody c hc
      constructor
      · refine bne_iff_ne.mpr ?_
        rintro rfl
        cases hevent
      · rintro rfl
        cases hevent
    · obtain rfl := List.mem_singleton.mp hc
      decide
  have hsplit : ' ' :: (body ++ (crlf ++ rest)) = (' ' :: (body ++ ['\r'])) ++ '\n' :: rest := by
    simp [crlf]
  have htake : (' ' :: (body ++ (crlf ++ rest))).takeWhile (· != '\n') = ' ' :: (body ++ ['\r']) := by
    rw [hsplit, List.takeWhile_append_of_pos fun c hc => (hline c hc).1]
    simp
  have hdrop : (' ' :: (body ++ (crlf ++ rest))).dropWhile (· != '\n') = '\n' :: rest := by
    rw [hsplit, List.dropWhile_append_of_pos fun c hc => (hline c hc).1]
    simp
  have hmap : (' ' :: (body ++ ['\r'])).map (fun c => if c = '/' then ';' else c) =
      ' ' :: (body ++ ['\r']) :=
    (List.map_congr_left fun c hc => if_neg (hline c hc).2).trans (List.map_id _)
  refine ⟨?_, hdrop⟩
  rw [replaceSlashes, htake, hdrop, hmap, hsplit]

theorem run_getNextNum_payloadNum (v : UInt16) (s : CStr) (n : UInt32) :
    (getNextNum blanks).run (decimal v.toNat ++ ' ' :: s) n = (.ok (some (UInt32.ofNat v.toNat)), ' ' :: s, n) := by
  have htok : token blanks maxStringLen (decimal v.toNat ++ ' ' :: s) = _ :=
    token_word (isWord_decimal_toNat v) (Or.inr (show ' ' ∈ blanks by decide))
  have hnum : numOf (decimal v.toNat) = some (UInt32.ofNat v.toNat) := by
    rw [numOf, numVal_decimal]
    rfl
  rw [run_getNextNum, htok]
  exact congrArg (fun o => (Except.ok o, ' ' :: s, n)) hnum

/-- **Every event list is refused.** -/
theorem parseAttrFmtp_events (hformat : f.fmtpFormat = .nte) (rest : CStr) (n : UInt32) :
    parseAttrFmtp (fmtpArg f ++ rest) n = (.error .invalidParameter, n + 1) := by
  have hchars : ∀ c ∈ eventList f, isEventChar c = true := fun c hc => isEventChar_of_mem_eventList hc
  rw [fmtpArg_eq hformat]
  generalize eventList f = body at hchars
  -- no terminator stands in front of the end of the line
  have hdup : (' ' :: (body ++ (crlf ++ rest))).takeWhile (· != nul) =
      ' ' :: (body ++ (crlf ++ rest.takeWhile (· != nul))) := by
    have hplain : ∀ c ∈ ' ' :: (body ++ crlf), (c != nul) = true := by
      intro c hc
      rcases List.mem_cons.mp hc with rfl | hc
      · rfl
      rcases List.mem_append.mp hc with hc | hc
      · have heol := (scan_isEventChar (hchars c hc)).1
        refine bne_iff_ne.mpr ?_
        rintro rfl
        cases heol
      · rcases List.mem_cons.mp hc with rfl | hc
        · rfl
        · obtain rfl := List.mem_singleton.mp hc
          rfl
    have hsplit : (_ ++ rest).takeWhile _ = _ ++ rest.takeWhile _ := List.takeWhile_append_of_pos hplain
    simpa using hsplit
  generalize rest.takeWhile (· != nul) = rest' at hdup
  obtain ⟨hslash, hline⟩ := replaceSlashes_events hchars rest'
  have hparams : parseFmtpParams (fmtpInit (UInt32.ofNat f.payloadNum.toNat).toUInt16)
      (' ' :: (body ++ (crlf ++ rest'))) n = (.error .invalidParameter, n + 1) := by
    rw [parseFmtpParams, hslash, fmtpLoop_blank, fmtpLoop_events _ hchars]
    -- the events are looked for behind the list
    simp only [parseFmtpEvents, hline]
    rfl
  rw [parseAttrFmtp, run_getNextNum_payloadNum]
  simp only [hdup, hparams]
  rfl

/-- **The printed list denotes the events, and no printed list is read back.** The loop that
replaces slashes leaves its pointer at the end of the line, and the events are looked for from
there. -/
theorem events_printed_not_read {f : Fmtp} {S : Set ℕ} (h : f.HoldsEvents S) :
    f.Denotes S ∧ ∀ rest n, ¬ f.ReadsBack rest n := by
  refine ⟨h.denotes, fun rest n => ?_⟩
  rintro ⟨g, n', hparse, -, -⟩
  rw [parseAttrFmtp_events h.format] at hparse
  cases hparse

/-- The events 0 to 15 for payload type 101. -/
def fifteenEvents : Fmtp :=
  { payloadNum := 101, maxval := 15, bmap := #v[0xFFFF, 0, 0, 0, 0, 0, 0, 0] }

theorem holdsEvents_fifteenEvents : fifteenEvents.HoldsEvents (Set.Iic 15) where
  format := rfl
  events := by
    have hall : ∀ i ≤ 255, fifteenEvents.hasEvent i = true ↔ i ≤ 15 := by decide +kernel
    exact hall
  bounded := fun i hi => le_trans hi (by decide)
  greatest := ⟨show (15 : ℕ) ≤ 15 from le_rfl, fun i hi => hi⟩
  positive := by decide

/-- The events 0 to 15 are printed as one range, and the line is refused. -/
theorem events_printed_not_read_fifteen :
    fifteenEvents.Denotes (Set.Iic 15) ∧ ∀ rest n, ¬ fifteenEvents.ReadsBack rest n :=
  events_printed_not_read holdsEvents_fifteenEvents

/-- `a=fmtp:101 0-15` does not come back. -/
theorem not_readsBack_fifteenEvents :
    fifteenEvents.HoldsEvents (Set.Iic 15) ∧ fmtpArg fifteenEvents = "101 0-15\r\n" ∧
      parseAttrFmtp (fmtpArg fifteenEvents) 0 = (.error .invalidParameter, 1) ∧
      ¬ fifteenEvents.ReadsBack [] 0 := by
  have hparse : parseAttrFmtp (fmtpArg fifteenEvents) 0 = (.error .invalidParameter, 1) := by
    decide +kernel
  refine ⟨holdsEvents_fifteenEvents, by decide +kernel, hparse, ?_⟩
  rintro ⟨g, n', hg, -, -⟩
  rw [List.append_nil, hparse] at hg
  cases hg

end Sdp
