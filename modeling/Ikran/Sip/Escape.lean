import Ikran.Lib.Pointer

/-!
# Escaped characters in URLs

The conversion of characters to `%hh` and back, of `ccsip_pmh.c`. The output buffer is the sequence
of what is written to it. The pointer to the next output character is always as far behind the start
of the buffer as bytes have been counted, so that the count stands for both.

A `char` is signed.
-/

namespace Sip

open CStr

/-- What is written at once: an assigned character, or a text of `sprintf` with a terminator. -/
structure Write where
  offset : ℕ
  text : CStr
  terminated : Bool := false

namespace Write

def bytes (w : Write) : CStr := w.text ++ if w.terminated then [nul] else []

def byteAt (w : Write) (i : ℕ) : Option Char := if w.offset ≤ i then w.bytes[i - w.offset]? else none

end Write

/-- The byte at an offset of the buffer, after all the writes. -/
def byteAt : List Write → ℕ → Option Char
  | [], _ => none
  | w :: ws, i => (byteAt ws i).or (w.byteAt i)

/-- The text that the writes produce one behind the other. -/
def produced (ws : List Write) : CStr := ws.flatMap (·.text)

def userUnResCharList : CStr := ";=~*_+'()$/.-!&,?"

/-- The value of a `char` as an `int`. -/
def charVal (c : Char) : ℤ := if c.toNat < 128 then c.toNat else c.toNat - 256

/-- What `sprintf` prints for `"%c%x"`. -/
def hexEscape (c : Char) : CStr := '%' :: Nat.toDigits 16 (charVal c % 2 ^ 32).toNat

def isPlain (excludeCharTbl : CStr) (c : Char) : Bool :=
  ('A' ≤ c && c ≤ 'Z') || ('a' ≤ c && c ≤ 'z') || ('0' ≤ c && c ≤ '9') || c ∈ excludeCharTbl

/-- The loop of `sippmh_escapeChars_util` over the characters that are left: the writes, and
`copy_count`. -/
def escapeLoop (excludeCharTbl : CStr) (outputStrSize additionalByte : ℕ) :
    ℕ → CStr → List Write → ℕ → List Write × ℕ
  | 0, _, ws, copyCount => (ws, copyCount)
  | left + 1, inputStr, ws, copyCount =>
    if isPlain excludeCharTbl inputStr.peek then
      if outputStrSize < copyCount + 1 + additionalByte then (ws, copyCount)
      else
        escapeLoop excludeCharTbl outputStrSize additionalByte left inputStr.tail
          (ws ++ [{ offset := copyCount, text := [inputStr.peek] }]) (copyCount + 1)
    else if outputStrSize < copyCount + 3 + additionalByte then (ws, copyCount)
    else
      escapeLoop excludeCharTbl outputStrSize additionalByte left inputStr.tail
        (ws ++ [{ offset := copyCount, text := hexEscape inputStr.peek, terminated := true }])
        (copyCount + 3)

/-- `sippmh_escapeChars_util`: the writes to the output buffer, and the result. -/
def sippmhEscapeCharsUtil (inputStr : CStr) (inputStrLen : ℕ) (excludeCharTbl : CStr)
    (outputStrSize : ℕ) (nullTerminate : Bool) : List Write × ℕ :=
  let (ws, copyCount) :=
    escapeLoop excludeCharTbl outputStrSize nullTerminate.toNat inputStrLen inputStr [] 0
  if nullTerminate then (ws ++ [{ offset := copyCount, text := [nul] }], copyCount + 1)
  else (ws, copyCount)

def sippmhConvertURLCharToEscChar (inputStr : CStr) (inputStrLen outputStrSize : ℕ)
    (nullTerminate : Bool) : List Write × ℕ :=
  sippmhEscapeCharsUtil inputStr inputStrLen userUnResCharList outputStrSize nullTerminate

def sippmhHtoi (c : Char) : ℕ :=
  if c.isDigit then c.toNat - '0'.toNat
  else if c.isUpper then 9 + (c.toNat - 'A'.toNat + 1)
  else if c.isLower then 9 + (c.toNat - 'a'.toNat + 1)
  else 0

/-- `toascii`, as a character. -/
def toascii (value : ℕ) : Char := Char.ofNat (value % 128)

/-- The loop of `sippmh_convertEscCharToChar`, with the fuel for as many characters. There is no
result when it reads behind the terminator of the input. -/
def unescapeLoop (inputStrLen : ℕ) : ℕ → ℕ → Ptr → CStr → Option CStr
  | 0, _, _, out => some out
  | fuel + 1, charCnt, inputStr, out =>
    if charCnt < inputStrLen then
      inputStr.load.bind fun c =>
        if c = '%' then
          (inputStr.add 1).load.bind fun high =>
            (inputStr.add 2).load.bind fun low =>
              unescapeLoop inputStrLen fuel (charCnt + 3) (inputStr.add 3)
                (out ++ [toascii (sippmhHtoi high * 16 + sippmhHtoi low)])
        else unescapeLoop inputStrLen fuel (charCnt + 1) (inputStr.add 1) (out ++ [c])
    else some out

/-- `sippmh_convertEscCharToChar`: what is written in front of the terminator. -/
def sippmhConvertEscCharToChar (inputStr : CStr) (inputStrLen : ℕ) : Option CStr :=
  unescapeLoop inputStrLen inputStrLen 0 (some inputStr) []

/-! ## What is written -/

/-- The bytes that are counted for a character. -/
def width (c : Char) : ℕ := if isPlain userUnResCharList c then 1 else 3

/-- The bytes that are counted for a text. -/
def escapedLength (s : CStr) : ℕ := (s.map width).sum

def writeOf (n : ℕ) (c : Char) : Write :=
  if isPlain userUnResCharList c then { offset := n, text := [c] }
  else { offset := n, text := hexEscape c, terminated := true }

def writesOf : ℕ → CStr → List Write
  | _, [] => []
  | n, c :: s => writeOf n c :: writesOf (n + width c) s

/-- What is written behind a text. -/
def terminator (n : ℕ) : Bool → List Write
  | true => [{ offset := n, text := [nul] }]
  | false => []

def textOf (s : CStr) : CStr := s.flatMap fun c => (writeOf 0 c).text

@[simp] theorem escapedLength_nil : escapedLength [] = 0 := rfl

@[simp] theorem escapedLength_cons (c : Char) (s : CStr) : escapedLength (c :: s) = width c + escapedLength s := rfl

theorem escapedLength_append (s t : CStr) : escapedLength (s ++ t) = escapedLength s + escapedLength t := by
  simp [escapedLength]

@[simp] theorem offset_writeOf (n : ℕ) (c : Char) : (writeOf n c).offset = n := by
  unfold writeOf
  split_ifs <;> rfl

theorem text_writeOf (n : ℕ) (c : Char) : (writeOf n c).text = (writeOf 0 c).text := by
  unfold writeOf
  split_ifs <;> rfl

theorem writesOf_append (n : ℕ) (s t : CStr) :
    writesOf n (s ++ t) = writesOf n s ++ writesOf (n + escapedLength s) t := by
  induction s generalizing n with
  | nil => rfl
  | cons c s ih => simp [writesOf, ih, Nat.add_assoc]

theorem produced_writesOf (n : ℕ) (s : CStr) : produced (writesOf n s) = textOf s := by
  induction s generalizing n with
  | nil => rfl
  | cons c s ih =>
    have hrest := ih (n + width c)
    simp only [produced, writesOf, List.flatMap_cons, textOf] at hrest ⊢
    rw [hrest, text_writeOf]

variable {p : CStr} {w : Write}

theorem mem_writesOf {n : ℕ} (h : w ∈ writesOf n p) : ∃ q c, q ++ [c] <+: p ∧ w = writeOf (n + escapedLength q) c := by
  induction p generalizing n with
  | nil => cases h
  | cons c p ih =>
    rcases List.mem_cons.mp h with rfl | h
    · exact ⟨[], c, ⟨p, rfl⟩, rfl⟩
    · obtain ⟨q, d, hq, rfl⟩ := ih h
      exact ⟨c :: q, d, (List.prefix_cons_inj c).mpr hq, by rw [escapedLength_cons, Nat.add_assoc]⟩

/-- The loop writes for the longest front of the text that there is room for. -/
theorem escapeLoop_eq (size additional : ℕ) (s : CStr) (ws : List Write) (n : ℕ) : ∃ p, p <+: s ∧
      escapeLoop userUnResCharList size additional s.length s ws n = (ws ++ writesOf n p, n + escapedLength p) ∧
      (p = [] ∨ n + escapedLength p + additional ≤ size) ∧
      ∀ q, q <+: s → n + escapedLength q + additional ≤ size → q <+: p := by
  induction s generalizing ws n with
  | nil =>
    refine ⟨[], List.prefix_refl _, ?_, Or.inl rfl, fun q hq _ => hq⟩
    rw [List.length_nil, escapeLoop, writesOf, List.append_nil]
    rfl
  | cons c s ih =>
    by_cases hroom : size < n + width c + additional
    · -- the loop ends at a character that there is no room for
      refine ⟨[], List.nil_prefix, ?_, Or.inl rfl, fun q hq hfits => ?_⟩
      · rw [width] at hroom
        rw [List.length_cons, escapeLoop, peek_cons, writesOf, List.append_nil]
        split_ifs at hroom ⊢ <;> rfl
      · rcases List.prefix_cons_iff.mp hq with rfl | ⟨q, rfl, -⟩
        · exact List.prefix_refl _
        · rw [escapedLength_cons] at hfits
          omega
    · obtain ⟨p, hp, hloop, hend, hmax⟩ := ih (ws ++ [writeOf n c]) (n + width c)
      refine ⟨c :: p, (List.prefix_cons_inj c).mpr hp, ?_, Or.inr ?_, fun q hq hfits => ?_⟩
      · rw [writesOf, escapedLength_cons, ← Nat.add_assoc, List.append_cons, ← hloop]
        rw [width] at hroom ⊢
        rw [List.length_cons, escapeLoop, peek_cons, List.tail_cons, writeOf]
        split_ifs at hroom ⊢ <;> rfl
      · rw [escapedLength_cons]
        rcases hend with rfl | hend
        · rw [escapedLength_nil]
          omega
        · omega
      · rcases List.prefix_cons_iff.mp hq with rfl | ⟨q, rfl, hq'⟩
        · exact List.nil_prefix
        · rw [escapedLength_cons] at hfits
          exact (List.prefix_cons_inj c).mpr (hmax q hq' (by omega))

/-- The conversion writes for the longest front of the text that there is room for, and then the
terminator. -/
theorem convertURLCharToEscChar_eq (s : CStr) (size : ℕ) (nullTerminate : Bool) : ∃ p, p <+: s ∧
      sippmhConvertURLCharToEscChar s s.length size nullTerminate =
        (writesOf 0 p ++ terminator (escapedLength p) nullTerminate, escapedLength p + nullTerminate.toNat) ∧
      (p = [] ∨ escapedLength p + nullTerminate.toNat ≤ size) ∧
      ∀ q, q <+: s → escapedLength q + nullTerminate.toNat ≤ size → q <+: p := by
  obtain ⟨p, hp, hloop, hend, hmax⟩ := escapeLoop_eq size nullTerminate.toNat s [] 0
  rw [Nat.zero_add, List.nil_append] at hloop
  simp only [Nat.zero_add] at hend hmax
  refine ⟨p, hp, ?_, hend, hmax⟩
  rw [sippmhConvertURLCharToEscChar, sippmhEscapeCharsUtil, hloop]
  cases nullTerminate with
  | true => rfl
  | false => simp [terminator]

/-! ## When the escapes have three characters -/

/-- The character is written as it is, or is printed with two digits. -/
def IsNarrow (c : Char) : Prop := isPlain userUnResCharList c = true ∨ 16 ≤ c.toNat ∧ c.toNat < 128

theorem hexEscape_table : (List.range 128).all (fun n => decide (n < 16) || (match hexEscape (Char.ofNat n) with
      | ['%', high, low] => toascii (sippmhHtoi high * 16 + sippmhHtoi low) == Char.ofNat n
      | _ => false)) = true := by
  decide

variable {c : Char}

theorem exists_hexEscape (hge : 16 ≤ c.toNat) (hlt : c.toNat < 128) : ∃ high low, hexEscape c = ['%', high, low] ∧
      toascii (sippmhHtoi high * 16 + sippmhHtoi low) = c := by
  have h := List.all_eq_true.mp hexEscape_table c.toNat (List.mem_range.mpr hlt)
  rw [Bool.or_eq_true, decide_eq_true_eq, Char.ofNat_toNat] at h
  replace h := h.resolve_left (by omega)
  split at h
  · rename_i high low htext
    exact ⟨high, low, htext, beq_iff_eq.mp h⟩
  · cases h

theorem length_text_of_isNarrow (h : IsNarrow c) (n : ℕ) : (writeOf n c).text.length = width c := by
  unfold writeOf width
  split_ifs with hplain
  · rfl
  · obtain ⟨hge, hlt⟩ := h.resolve_left hplain
    obtain ⟨high, low, htext, -⟩ := exists_hexEscape hge hlt
    rw [htext]
    rfl

theorem hexEscape_low_table : (List.range 16).all (fun n => decide ((hexEscape (Char.ofNat n)).length = 2)) = true := by
  decide

theorem hexEscape_high_table : (List.range 128).all (fun n => decide ((hexEscape (Char.ofNat (128 + n))).length = 9)) =
      true := by
  decide

theorem length_hexEscape (hbyte : c.toNat < 256) : c.toNat < 16 ∧ (hexEscape c).length = 2 ∨
      16 ≤ c.toNat ∧ c.toNat < 128 ∧ (hexEscape c).length = 3 ∨
      128 ≤ c.toNat ∧ (hexEscape c).length = 9 := by
  by_cases hlow : c.toNat < 16
  · have h := List.all_eq_true.mp hexEscape_low_table c.toNat (List.mem_range.mpr hlow)
    rw [decide_eq_true_eq, Char.ofNat_toNat] at h
    exact Or.inl ⟨hlow, h⟩
  · by_cases hhigh : c.toNat < 128
    · obtain ⟨high, low, htext, -⟩ := exists_hexEscape (by omega) hhigh
      exact Or.inr (Or.inl ⟨by omega, hhigh, by rw [htext]; rfl⟩)
    · have h := List.all_eq_true.mp hexEscape_high_table (c.toNat - 128) (List.mem_range.mpr (by omega))
      have hsum : 128 + (c.toNat - 128) = c.toNat := by omega
      rw [decide_eq_true_eq, hsum, Char.ofNat_toNat] at h
      exact Or.inr (Or.inr ⟨by omega, h⟩)

theorem hexEscape_nul_table : (List.range 256).all (fun n => decide (nul ∉ hexEscape (Char.ofNat n))) = true := by
  decide +kernel

theorem nul_notMem_text (hc : c ≠ nul) (hbyte : c.toNat < 256) (n : ℕ) : nul ∉ (writeOf n c).text := by
  unfold writeOf
  split_ifs
  · simpa using hc.symm
  · have h := List.all_eq_true.mp hexEscape_nul_table c.toNat (List.mem_range.mpr hbyte)
    rwa [decide_eq_true_eq, Char.ofNat_toNat] at h

/-! ## The bytes of the buffer -/

theorem Write.byteAt_of_lt {i : ℕ} (h : i < w.offset) : w.byteAt i = none := if_neg (Nat.not_le.mpr h)

theorem byteAt_append (ws vs : List Write) (i : ℕ) : byteAt (ws ++ vs) i = (byteAt vs i).or (byteAt ws i) := by
  induction ws with
  | nil => simp [byteAt]
  | cons w ws ih => rw [List.cons_append, byteAt, ih, byteAt, Option.or_assoc]

theorem byteAt_eq_none {ws : List Write} {i : ℕ} (h : ∀ w ∈ ws, i < w.offset) : byteAt ws i = none := by
  induction ws with
  | nil => rfl
  | cons w ws ih =>
    obtain ⟨hw, hws⟩ := List.forall_mem_cons.mp h
    rw [byteAt, ih hws, Write.byteAt_of_lt hw]
    rfl

theorem le_offset_of_mem {n : ℕ} {s : CStr} (h : w ∈ writesOf n s) : n ≤ w.offset := by
  induction s generalizing n with
  | nil => cases h
  | cons c s ih =>
    rcases List.mem_cons.mp h with rfl | h
    · rw [offset_writeOf]
    · exact Nat.le_trans (Nat.le_add_right _ _) (ih h)

theorem offset_of_mem_terminator {n : ℕ} {nullTerminate : Bool}
    (h : w ∈ terminator n nullTerminate) : w.offset = n := by
  cases nullTerminate with
  | false => cases h
  | true =>
    obtain rfl := List.mem_singleton.mp h
    rfl

theorem byteAt_terminator (ws : List Write) (n : ℕ) : byteAt (ws ++ terminator n true) n = some nul := by
  simp [byteAt_append, terminator, byteAt, Write.byteAt, Write.bytes]

theorem Write.byteAt_add {k : ℕ} : w.byteAt (w.offset + k) = w.bytes[k]? := by
  rw [Write.byteAt, if_pos (Nat.le_add_right _ _), Nat.add_sub_cancel_left]

theorem byteAt_of_split {q t : CStr} (hp : p = q ++ c :: t) (nullTerminate : Bool)
    {k : ℕ} (hk : k < width c) (hbyte : (writeOf (escapedLength q) c).bytes[k]?.isSome) :
    byteAt (writesOf 0 p ++ terminator (escapedLength p) nullTerminate) (escapedLength q + k) =
      (writeOf (escapedLength q) c).bytes[k]? := by
  have hlength : escapedLength p = escapedLength q + (width c + escapedLength t) := by
    rw [hp, escapedLength_append, escapedLength_cons]
  have hbehind : byteAt (writesOf (escapedLength q + width c) t ++
      terminator (escapedLength p) nullTerminate) (escapedLength q + k) = none := by
    refine byteAt_eq_none fun w hw => ?_
    rcases List.mem_append.mp hw with hw | hw
    · have hle := le_offset_of_mem hw
      omega
    · rw [offset_of_mem_terminator hw]
      omega
  have hwrite : (writeOf (escapedLength q) c).byteAt (escapedLength q + k) =
      (writeOf (escapedLength q) c).bytes[k]? := by
    rw [← Write.byteAt_add, offset_writeOf]
  obtain ⟨d, hd⟩ := Option.isSome_iff_exists.mp hbyte
  have hsplit : writesOf 0 p ++ terminator (escapedLength p) nullTerminate =
      writesOf 0 q ++ (writeOf (escapedLength q) c ::
        (writesOf (escapedLength q + width c) t ++ terminator (escapedLength p) nullTerminate)) := by
    have hwrites : writesOf 0 p =
        writesOf 0 q ++ (writeOf (escapedLength q) c :: writesOf (escapedLength q + width c) t) := by
      rw [hp, writesOf_append, Nat.zero_add, writesOf]
    rw [hwrites, List.append_assoc, List.cons_append]
  rw [hsplit, byteAt_append, byteAt, hbehind, Option.none_or, hwrite, hd]
  rfl

theorem length_textOf (h : ∀ c ∈ p, IsNarrow c) : (textOf p).length = escapedLength p := by
  induction p with
  | nil => rfl
  | cons c p ih =>
    obtain ⟨hc, hp⟩ := List.forall_mem_cons.mp h
    rw [textOf, List.flatMap_cons, List.length_append, length_text_of_isNarrow hc, escapedLength_cons]
    exact congrArg (width c + ·) (ih hp)

/-- The buffer holds what was produced, when the widths are those that are counted. -/
theorem byteAt_writesOf (h : ∀ c ∈ p, IsNarrow c) (n i : ℕ) (hi : i < escapedLength p) :
    byteAt (writesOf n p) (n + i) = (textOf p)[i]? := by
  induction p generalizing n i with
  | nil => cases hi
  | cons c p ih =>
    obtain ⟨hc, hp⟩ := List.forall_mem_cons.mp h
    have hlen := length_text_of_isNarrow hc n
    have htext : textOf (c :: p) = (writeOf n c).text ++ textOf p := by
      rw [text_writeOf]
      rfl
    rw [escapedLength_cons] at hi
    rw [writesOf, byteAt, htext]
    by_cases hlt : i < width c
    · have hbehind : byteAt (writesOf (n + width c) p) (n + i) = none := byteAt_eq_none fun w hw => by
          have hle := le_offset_of_mem hw
          omega
      have hwrite : (writeOf n c).byteAt (n + i) = (writeOf n c).bytes[i]? := by
        rw [← Write.byteAt_add, offset_writeOf]
      rw [hbehind, Option.none_or, hwrite, Write.bytes, List.getElem?_append_left (by omega),
        List.getElem?_append_left (by omega)]
    · have hrest := ih hp (n + width c) (i - width c) (by omega)
      have hindex : n + width c + (i - width c) = n + i := by omega
      have hsome : ((textOf p)[i - width c]?).isSome := by
        rw [List.getElem?_eq_getElem (by rw [length_textOf hp]; omega)]
        rfl
      rw [hindex] at hrest
      rw [hrest, List.getElem?_append_right (by omega), hlen]
      obtain ⟨d, hd⟩ := Option.isSome_iff_exists.mp hsome
      rw [hd]
      rfl

theorem unescapeLoop_textOf (h : ∀ c ∈ p, IsNarrow c) {len fuel charCnt : ℕ} (out : CStr)
    (hlen : charCnt + (textOf p).length = len) (hfuel : (textOf p).length ≤ fuel) :
    unescapeLoop len fuel charCnt (some (textOf p)) out = some (out ++ p) := by
  induction p generalizing fuel charCnt out with
  | nil =>
    rw [List.append_nil]
    cases fuel with
    | zero => rfl
    | succ fuel =>
      have hend : ¬ charCnt < len := by
        rw [← hlen]
        exact Nat.lt_irrefl _
      rw [unescapeLoop, if_neg hend]
  | cons c p ih =>
    obtain ⟨hc, hp⟩ := List.forall_mem_cons.mp h
    have hsplit : out ++ c :: p = out ++ [c] ++ p := (List.append_cons out c p)
    rw [hsplit]
    by_cases hplain : isPlain userUnResCharList c = true
    · have htext : textOf (c :: p) = c :: textOf p := by
        rw [textOf, List.flatMap_cons, writeOf, if_pos hplain]
        rfl
      have hpercent : c ≠ '%' := by
        rintro rfl
        revert hplain
        decide
      rw [htext, List.length_cons] at hlen hfuel
      obtain ⟨fuel, rfl⟩ := Nat.exists_eq_succ_of_ne_zero (Nat.ne_zero_of_lt hfuel)
      rw [htext, unescapeLoop, if_pos (by omega), Ptr.load_some, Option.bind_some, peek_cons,
        if_neg hpercent, Ptr.add_cons_succ, Ptr.add_zero]
      exact ih hp _ (by omega) (by omega)
    · obtain ⟨high, low, hescape, hvalue⟩ := exists_hexEscape (hc.resolve_left hplain).1 (hc.resolve_left hplain).2
      have htext : textOf (c :: p) = '%' :: high :: low :: textOf p := by
        rw [textOf, List.flatMap_cons, writeOf, if_neg hplain, hescape]
        rfl
      rw [htext, List.length_cons, List.length_cons, List.length_cons] at hlen hfuel
      obtain ⟨fuel, rfl⟩ := Nat.exists_eq_succ_of_ne_zero (Nat.ne_zero_of_lt hfuel)
      rw [htext, unescapeLoop, if_pos (by omega)]
      simp only [Ptr.load_some, Option.bind_some, peek_cons, if_true, Ptr.add_cons_succ, Ptr.add_zero]
      rw [hvalue]
      exact ih hp _ (by omega) (by omega)

/-! ## When the conversion is reversible -/

section

variable (s : CStr) (outputStrSize : ℕ) (nullTerminate : Bool)

/-- Nothing is written behind the end of the output buffer, the result is the number of bytes that were
produced, which the buffer holds, and when the buffer is large enough for the whole text, the
produced text is converted back to it. -/
structure Reversible : Prop where
  within : ∀ w ∈ (sippmhConvertURLCharToEscChar s s.length outputStrSize nullTerminate).1,
    w.offset + w.bytes.length ≤ outputStrSize
  stored :
    (List.range (sippmhConvertURLCharToEscChar s s.length outputStrSize nullTerminate).2).map
        (byteAt (sippmhConvertURLCharToEscChar s s.length outputStrSize nullTerminate).1) =
      (produced (sippmhConvertURLCharToEscChar s s.length outputStrSize nullTerminate).1).map some
  decoded : escapedLength s + nullTerminate.toNat ≤ outputStrSize →
    let text := (produced (sippmhConvertURLCharToEscChar s s.length outputStrSize nullTerminate).1).take
      ((sippmhConvertURLCharToEscChar s s.length outputStrSize nullTerminate).2 -
        nullTerminate.toNat)
    sippmhConvertEscCharToChar text text.length = some s

/-- There is room for a terminator that is asked for. A character that there is room for stays as it is,
or is one from 16 to 127, and there is room for the terminator that is printed behind its escape. -/
def Escapable : Prop :=
  (nullTerminate = true → 0 < outputStrSize) ∧
    ∀ q c, q ++ [c] <+: s → escapedLength (q ++ [c]) + nullTerminate.toNat ≤ outputStrSize →
      isPlain userUnResCharList c = true ∨
        16 ≤ c.toNat ∧ c.toNat < 128 ∧ escapedLength (q ++ [c]) < outputStrSize

end

variable {s : CStr} {outputStrSize : ℕ} {nullTerminate : Bool}

theorem produced_terminator (p : CStr) (n : ℕ) : produced (writesOf 0 p ++ terminator n nullTerminate) =
      textOf p ++ List.replicate nullTerminate.toNat nul := by
  have happend : produced (writesOf 0 p ++ terminator n nullTerminate) =
      produced (writesOf 0 p) ++ produced (terminator n nullTerminate) := List.flatMap_append
  rw [happend, produced_writesOf]
  cases nullTerminate <;> rfl

theorem nul_notMem_textOf (hp : ∀ c ∈ p, c ≠ nul ∧ c.toNat < 256) : nul ∉ textOf p := by
  intro hmem
  obtain ⟨c, hc, hnul⟩ := List.mem_flatMap.mp hmem
  exact nul_notMem_text (hp c hc).1 (hp c hc).2 0 hnul

/-- When no escape has one digit only, a character is printed with no less bytes than are counted, and
with as many when it is narrow. -/
theorem width_le_length_text (hbyte : c.toNat < 256) (hc : isPlain userUnResCharList c = true ∨ 16 ≤ c.toNat) :
    width c ≤ (writeOf 0 c).text.length ∧ ((writeOf 0 c).text.length = width c → IsNarrow c) := by
  unfold width writeOf
  split_ifs with hplain
  · exact ⟨le_rfl, fun _ => Or.inl hplain⟩
  · have hge := hc.resolve_left hplain
    rcases length_hexEscape hbyte with ⟨hlow, -⟩ | ⟨-, hlt, hlen⟩ | ⟨-, hlen⟩
    · omega
    · exact ⟨Nat.le_of_eq hlen.symm, fun _ => Or.inr ⟨hge, hlt⟩⟩
    · refine ⟨by rw [hlen]; decide, fun heq => ?_⟩
      rw [hlen] at heq
      cases heq

/-- When as many bytes are produced as are counted, and no escape has one digit only, all characters
are narrow. -/
theorem isNarrow_of_length (hbyte : ∀ c ∈ p, c.toNat < 256)
    (hp : ∀ c ∈ p, isPlain userUnResCharList c = true ∨ 16 ≤ c.toNat) :
    escapedLength p ≤ (textOf p).length ∧ ((textOf p).length = escapedLength p → ∀ c ∈ p, IsNarrow c) := by
  induction p with
  | nil => exact ⟨le_rfl, fun _ => List.forall_mem_nil _⟩
  | cons c p ih =>
    obtain ⟨hc, hp⟩ := List.forall_mem_cons.mp hp
    obtain ⟨hcbyte, hbyte⟩ := List.forall_mem_cons.mp hbyte
    obtain ⟨hle, hnarrow⟩ := ih hbyte hp
    obtain ⟨hcle, hcnarrow⟩ := width_le_length_text hcbyte hc
    have hlen : (textOf (c :: p)).length = (writeOf 0 c).text.length + (textOf p).length := List.length_append
    rw [escapedLength_cons, hlen]
    refine ⟨by omega, fun heq => ?_⟩
    exact List.forall_mem_cons.mpr ⟨hcnarrow (by omega), hnarrow (by omega)⟩

/-- The buffer holds what was produced exactly when all characters that were written are narrow. -/
theorem stored_iff (hp : ∀ c ∈ p, c ≠ nul ∧ c.toNat < 256) : (List.range (escapedLength p + nullTerminate.toNat)).map
        (byteAt (writesOf 0 p ++ terminator (escapedLength p) nullTerminate)) =
      (produced (writesOf 0 p ++ terminator (escapedLength p) nullTerminate)).map some ↔
    ∀ c ∈ p, IsNarrow c := by
  rw [produced_terminator]
  constructor
  · intro hstored
    have hlen : (textOf p).length = escapedLength p := by
      have hlen := congrArg List.length hstored
      simp only [List.length_map, List.length_range, List.length_append, List.length_replicate] at hlen
      omega
    -- behind the one digit of an escape there is its terminator
    refine (isNarrow_of_length (fun c hc => (hp c hc).2) fun c hc => ?_).2 hlen
    by_contra hwide
    rw [not_or, Nat.not_le] at hwide
    obtain ⟨q, t, hsplit⟩ := List.append_of_mem hc
    have htwo : (hexEscape c).length = 2 := by
      rcases length_hexEscape (hp c hc).2 with ⟨-, hlen⟩ | ⟨hge, -, -⟩ | ⟨hge, -⟩
      · exact hlen
      · omega
      · omega
    have hwidth : width c = 3 := if_neg hwide.1
    have hbytes : (writeOf (escapedLength q) c).bytes[2]? = some nul := by
      have hbehind : (hexEscape c ++ [nul])[2]? = some nul := by
        rw [List.getElem?_append_right (by omega), htwo]
        rfl
      rw [writeOf, if_neg hwide.1]
      exact hbehind
    have hat := byteAt_of_split hsplit nullTerminate (k := 2) (by omega) (by rw [hbytes]; rfl)
    rw [hbytes] at hat
    have hlt : escapedLength q + 2 < escapedLength p := by
      rw [hsplit, escapedLength_append, escapedLength_cons]
      omega
    have hindex := congrArg (·[escapedLength q + 2]?) hstored
    simp only [List.getElem?_map, List.getElem?_range (Nat.lt_add_right _ hlt), Option.map_some,
      hat, List.getElem?_append_left (hlen.symm ▸ hlt)] at hindex
    obtain ⟨d, hd, hnul⟩ := Option.map_eq_some_iff.mp hindex.symm
    obtain rfl := Option.some.inj hnul
    exact nul_notMem_textOf hp (List.mem_of_getElem? hd)
  · intro hnarrow
    have hlen := length_textOf hnarrow
    refine List.ext_getElem? fun i => ?_
    rw [List.getElem?_map, List.getElem?_map]
    by_cases hlt : i < escapedLength p
    · have hat := byteAt_writesOf hnarrow 0 i hlt
      rw [Nat.zero_add] at hat
      have hnone : byteAt (terminator (escapedLength p) nullTerminate) i = none :=
        byteAt_eq_none fun w hw => by rwa [offset_of_mem_terminator hw]
      rw [List.getElem?_range (Nat.lt_add_right _ hlt), List.getElem?_append_left (by omega),
        Option.map_some, byteAt_append, hnone, Option.none_or, hat]
      obtain ⟨d, hd⟩ : ∃ d, (textOf p)[i]? = some d := ⟨_, List.getElem?_eq_getElem (by omega)⟩
      rw [hd]
      rfl
    · rw [List.getElem?_append_right (by omega), hlen]
      cases nullTerminate with
      | false =>
        have hbehind : (List.range (escapedLength p + Bool.toNat false))[i]? = none :=
          List.getElem?_eq_none (by rw [List.length_range]; exact Nat.not_lt.mp hlt)
        rw [hbehind]
        rfl
      | true =>
        by_cases heq : i = escapedLength p
        · have hat := byteAt_terminator (writesOf 0 p) (escapedLength p)
          have hlast : escapedLength p < escapedLength p + Bool.toNat true := by
            rw [Bool.toNat_true]
            omega
          rw [heq, List.getElem?_range hlast, Option.map_some, hat, Nat.sub_self]
          rfl
        · have hbehind : (List.range (escapedLength p + Bool.toNat true))[i]? = none := by
            refine List.getElem?_eq_none ?_
            rw [List.length_range, Bool.toNat_true]
            omega
          have hone : (List.replicate (Bool.toNat true) nul)[i - escapedLength p]? = none := by
            refine List.getElem?_eq_none ?_
            rw [List.length_replicate, Bool.toNat_true]
            omega
          rw [hbehind, hone]
          rfl

/-- **When the escaping of URLs is reversible.** Whatever bytes are converted into a buffer of any
size, nothing is written behind its end, the result is the number of bytes that were produced, and
they are converted back, exactly when the text is escapable. -/
theorem reversible_iff (hs : ∀ c ∈ s, c ≠ nul ∧ c.toNat < 256) :
    Reversible s outputStrSize nullTerminate ↔ Escapable s outputStrSize nullTerminate := by
  obtain ⟨p, hp, heq, hend, hmax⟩ := convertURLCharToEscChar_eq s outputStrSize nullTerminate
  have hpbyte : ∀ c ∈ p, c ≠ nul ∧ c.toNat < 256 := fun c hc => hs c (hp.subset hc)
  -- the escape of a narrow character, and the terminator behind it
  have hescape : ∀ q c, q ++ [c] <+: p → isPlain userUnResCharList c = false →
      writeOf (escapedLength q) c ∈ writesOf 0 p ∧
        escapedLength (q ++ [c]) = escapedLength q + 3 := by
    rintro q c ⟨t, rfl⟩ hplain
    constructor
    · rw [List.append_assoc, writesOf_append, Nat.zero_add]
      exact List.mem_append_right _ List.mem_cons_self
    · rw [escapedLength_append, escapedLength_cons, escapedLength_nil, width, hplain]
      rfl
  constructor
  · rintro ⟨hwithin, hstored, -⟩
    rw [heq] at hwithin hstored
    have hnarrow := (stored_iff hpbyte).mp hstored
    refine ⟨fun hnull => ?_, fun q c hq hfits => ?_⟩
    · subst hnull
      have hlast := hwithin _ (List.mem_append_right _ (List.mem_singleton_self _))
      exact Nat.lt_of_lt_of_le (Nat.succ_pos _) hlast
    · have hqp := hmax _ hq hfits
      by_cases hplain : isPlain userUnResCharList c = true
      · exact Or.inl hplain
      · have hc := (hnarrow c (hqp.subset (List.mem_append_right q (List.mem_singleton_self c)))
          ).resolve_left hplain
        obtain ⟨hmem, hwidth⟩ := hescape q c hqp (Bool.eq_false_iff.mpr hplain)
        have hle := hwithin _ (List.mem_append_left _ hmem)
        obtain ⟨high, low, htext, -⟩ := exists_hexEscape hc.1 hc.2
        rw [offset_writeOf, writeOf, if_neg hplain, Write.bytes, htext] at hle
        refine Or.inr ⟨hc.1, hc.2, ?_⟩
        rw [hwidth]
        exact hle
  · rintro ⟨hroom, hchars⟩
    have hfits : ∀ q c, q ++ [c] <+: p →
        escapedLength (q ++ [c]) + nullTerminate.toNat ≤ outputStrSize := by
      rintro q c ⟨t, rfl⟩
      have hle := hend.resolve_left (by simp)
      rw [escapedLength_append] at hle
      omega
    have hsplit : ∀ c ∈ p, ∃ q, q ++ [c] <+: p := by
      intro c hc
      obtain ⟨q, t, rfl⟩ := List.append_of_mem hc
      exact ⟨q, t, by simp⟩
    have hnarrow : ∀ c ∈ p, IsNarrow c := by
      intro c hc
      obtain ⟨q, hq⟩ := hsplit c hc
      exact (hchars q c (hq.trans hp) (hfits q c hq)).imp_right fun h => ⟨h.1, h.2.1⟩
    refine ⟨?_, ?_, fun hwhole => ?_⟩
    · rw [heq]
      intro w hw
      rcases List.mem_append.mp hw with hw | hw
      · obtain ⟨q, c, hq, rfl⟩ := mem_writesOf hw
        rw [Nat.zero_add, offset_writeOf]
        have hle := hfits q c hq
        by_cases hplain : isPlain userUnResCharList c = true
        · rw [escapedLength_append, escapedLength_cons, escapedLength_nil, width, if_pos hplain] at hle
          rw [writeOf, if_pos hplain]
          have hone : ([c] : CStr).length = 1 := rfl
          rw [Write.bytes]
          simp only [Bool.false_eq_true, if_false, List.append_nil, hone]
          omega
        · obtain ⟨hge, hlt, hbehind⟩ := (hchars q c (hq.trans hp) hle).resolve_left hplain
          obtain ⟨high, low, htext, -⟩ := exists_hexEscape hge hlt
          rw [(hescape q c hq (Bool.eq_false_iff.mpr hplain)).2] at hbehind
          rw [writeOf, if_neg hplain, Write.bytes, htext]
          exact hbehind
      · cases nullTerminate with
        | false => cases hw
        | true =>
          obtain rfl := List.mem_singleton.mp hw
          rcases hend with rfl | hend
          · exact hroom rfl
          · exact hend
    · rw [heq]
      exact (stored_iff hpbyte).mpr hnarrow
    · obtain rfl : p = s := hp.eq_of_length_le (hmax s (List.prefix_refl s) hwhole).length_le
      have htake : (textOf p ++ List.replicate nullTerminate.toNat nul).take (escapedLength p) =
          textOf p := by
        rw [← length_textOf hnarrow]
        exact List.take_left
      rw [heq]
      simp only [produced_terminator, Nat.add_sub_cancel, htake]
      rw [sippmhConvertEscCharToChar,
        unescapeLoop_textOf hnarrow [] (Nat.zero_add _) le_rfl, List.nil_append]

/-- A blank is escaped with two digits, and read back. -/
theorem reversible_blank : Reversible "a b" 6 true := by
  refine (reversible_iff (forall_of_all rfl)).mpr ⟨fun _ => by decide, fun q c hq hfits => ?_⟩
  have hall : ∀ c ∈ "a b".toList,
      isPlain userUnResCharList c = true ∨ 16 ≤ c.toNat ∧ c.toNat < 128 := forall_of_all rfl
  exact (hall c (hq.subset (List.mem_append_right q (List.mem_singleton_self c)))).imp_right
    fun h => ⟨h.1, h.2, hfits⟩

/-- The byte 233 is printed with eight digits, of which three characters are counted. -/
theorem not_reversible_high : ¬ Reversible [Char.ofNat 233] 100 true := by
  intro h
  have hstored := h.stored
  revert hstored
  decide

end Sip
