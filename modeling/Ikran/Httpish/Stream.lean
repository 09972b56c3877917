import Ikran.Lib.CString

/-!
# Reading lines and bytes of a packet

The read stream of `pmhutils.c`. A line ends with `\r`, `\n` or `\r\n`, unless a blank follows, which
continues it.

The buffer of a stream is the text up to the terminator. It may go on behind the bytes that the stream is
for; the line reader does not look at their number before it has come to the end of a line.
-/

namespace Httpish

/-! ## Streams -/

/-- `pmhRstream_t`. The pointer `loc` to the next byte is `bytesRead` bytes behind the start of the
buffer as long as `eof` is not set. -/
structure Rstream where
  buff : CStr
  nbytes : ℕ
  bytesRead : ℕ
  eof : Bool

/-- The text from the next byte on. -/
def Rstream.loc (rs : Rstream) : CStr := rs.buff.drop rs.bytesRead

/-- `pmhutils_rstream_create`. -/
def rstreamCreate (buf : CStr) (nbytes : ℕ) : Option Rstream :=
  if nbytes = 0 then none else some ⟨buf, nbytes, 0, false⟩

/-- `pmhutils_rstream_read_bytes`. -/
def rstreamReadBytes (rs : Rstream) (n : ℕ) : Option CStr × Rstream :=
  if rs.eof then (none, rs)
  else if rs.nbytes ≤ rs.bytesRead then (none, { rs with eof := true })
  else if rs.nbytes - rs.bytesRead < n then (none, rs)
  else (some (rs.loc.take n), { rs with bytesRead := rs.bytesRead + n })

/-- A blank, which continues a line. -/
def isBlank (c : Char) : Bool := c = ' ' || c = '\t'

/-- How many characters of a line break are at the pointer. -/
def lineBreak (s : CStr) : ℕ :=
  let cr := if s.peek = '\r' then 1 else 0
  let lf := if CStr.peek (s.drop cr) = '\n' then 1 else 0
  cr + lf

/-- The loop of `pmhutils_rstream_read_line` with the fuel for `fuel` characters: the line, unless the
buffer ends before, and how many bytes the loop goes over. -/
def lineLoop : ℕ → CStr → Option CStr × ℕ
  | 0, _ => (none, 0)
  | fuel + 1, s =>
    if lineBreak s ≠ 0 ∧ isBlank (CStr.peek (s.drop (lineBreak s))) = false then (some [], lineBreak s)
    else
      -- a line break in front of a blank is left out, and the blank is copied
      match s.drop (lineBreak s) with
      | [] => (none, lineBreak s)
      | c :: t =>
        if CStr.peek t = CStr.nul then (none, lineBreak s + 1)
        else ((lineLoop fuel t).1.map (c :: ·), lineBreak s + 1 + (lineLoop fuel t).2)

/-- `pmhutils_rstream_read_line`. -/
def rstreamReadLine (rs : Rstream) : Option CStr × Rstream :=
  if rs.eof then (none, rs)
  else if rs.nbytes ≤ rs.bytesRead then (none, { rs with eof := true })
  else
    match lineLoop rs.loc.length rs.loc with
    | (none, n) => (none, { rs with bytesRead := rs.bytesRead + n, eof := true })
    | (some line, n) =>
      (some line,
        { rs with bytesRead := rs.bytesRead + n, eof := decide (rs.nbytes ≤ rs.bytesRead + n) })

/-- A text without line breaks. -/
def IsPlain (l : CStr) : Prop := ∀ c ∈ l, c ≠ CStr.nul ∧ c ≠ '\r' ∧ c ≠ '\n'

/-- Whether a text is plain can be decided. -/
instance (l : CStr) : Decidable (IsPlain l) :=
  List.decidableBAll (fun c => c ≠ CStr.nul ∧ c ≠ '\r' ∧ c ≠ '\n') l

/-- A text without terminators inside. -/
def NulFree (s : CStr) : Prop := CStr.nul ∉ s

/-- Whether a text has terminators inside can be decided. -/
instance (s : CStr) : Decidable (NulFree s) := inferInstanceAs (Decidable (CStr.nul ∉ s))

theorem IsPlain.nulFree {l : CStr} (h : IsPlain l) : NulFree l := fun hmem => (h _ hmem).1 rfl

variable {s : CStr}

theorem NulFree.append {t : CStr} (hs : NulFree s) (ht : NulFree t) : NulFree (s ++ t) := by
  intro hmem
  rcases List.mem_append.mp hmem with hmem | hmem
  · exact hs hmem
  · exact ht hmem

theorem NulFree.drop (h : NulFree s) (n : ℕ) : NulFree (s.drop n) := fun hmem => h (List.mem_of_mem_drop hmem)

theorem NulFree.peek_eq_nul (h : NulFree s) : s.peek = CStr.nul ↔ s = [] := by
  cases s with
  | nil => simp
  | cons c s =>
    simp only [CStr.peek_cons, reduceCtorEq, iff_false]
    rintro rfl
    exact h List.mem_cons_self

/-! ## The line loop -/

theorem lineBreak_cons {c : Char} (hc : c ≠ '\r' ∧ c ≠ '\n') (s : CStr) : lineBreak (c :: s) = 0 := by
  simp [lineBreak, hc.1, hc.2]

theorem one_le_length_of_peek {c : Char} (hc : c ≠ CStr.nul) (h : s.peek = c) : 1 ≤ s.length := by
  cases s with
  | nil => exact absurd h.symm hc
  | cons d s => simp

theorem lineBreak_le (s : CStr) : lineBreak s ≤ s.length := by
  unfold lineBreak
  by_cases hcr : s.peek = '\r'
  · have hlen := one_le_length_of_peek (by decide) hcr
    simp only [if_pos hcr]
    split_ifs with hlf
    · have hlen' := one_le_length_of_peek (by decide) hlf
      rw [List.length_drop] at hlen'
      omega
    · omega
  · simp only [if_neg hcr, List.drop_zero]
    split_ifs with hlf
    · exact one_le_length_of_peek (by decide) hlf
    · exact Nat.zero_le _

theorem lineBreak_crlf (t : CStr) : lineBreak (CStr.crlf ++ t) = 2 := rfl

variable {fuel : ℕ}

theorem lineLoop_append {l : CStr} (hl : IsPlain l) (hs : lineBreak s ≠ 0)
    (hblank : isBlank (CStr.peek (s.drop (lineBreak s))) = false) (hfuel : l.length < fuel) :
    lineLoop fuel (l ++ s) = (some l, l.length + lineBreak s) := by
  induction l generalizing fuel with
  | nil =>
    obtain ⟨fuel, rfl⟩ := Nat.exists_eq_add_of_lt hfuel
    rw [List.nil_append, lineLoop, if_pos ⟨hs, hblank⟩, List.length_nil, Nat.zero_add]
  | cons c l ih =>
    obtain ⟨fuel, rfl⟩ := Nat.exists_eq_add_of_lt (Nat.lt_of_le_of_lt (Nat.zero_le _) hfuel)
    obtain ⟨-, hc⟩ := hl c List.mem_cons_self
    have hrest : IsPlain l := fun d hd => hl d (List.mem_cons_of_mem _ hd)
    have hpeek : CStr.peek (l ++ s) ≠ CStr.nul := by
      cases l with
      | nil =>
        rintro hnul
        refine hs ?_
        cases s with
        | nil => rfl
        | cons d s =>
          obtain rfl : d = CStr.nul := hnul
          exact lineBreak_cons (by decide) s
      | cons d l => exact (hrest d List.mem_cons_self).1
    have hrec := @ih (0 + fuel) hrest (by simp only [List.length_cons] at hfuel; omega)
    rw [List.cons_append, lineLoop, lineBreak_cons hc, if_neg (by simp), List.drop_zero]
    simp only [if_neg hpeek, hrec, Option.map_some, List.length_cons]
    congr 1
    omega

theorem lineLoop_plain {l : CStr} (hl : IsPlain l) (hfuel : l.length ≤ fuel) : lineLoop fuel l = (none, l.length) := by
  induction l generalizing fuel with
  | nil =>
    cases fuel with
    | zero => rfl
    | succ fuel => rfl
  | cons c l ih =>
    obtain ⟨fuel, rfl⟩ := Nat.exists_eq_add_of_lt (Nat.lt_of_lt_of_le (Nat.succ_pos _) hfuel)
    obtain ⟨-, hc⟩ := hl c List.mem_cons_self
    have hrest : IsPlain l := fun d hd => hl d (List.mem_cons_of_mem _ hd)
    have hrec := @ih (0 + fuel) hrest (by simp only [List.length_cons] at hfuel; omega)
    rw [lineLoop, lineBreak_cons hc, if_neg (by simp), List.drop_zero]
    simp only [hrec, List.length_cons, Option.map_none]
    split_ifs with hnul
    · rw [hrest.nulFree.peek_eq_nul.mp hnul, List.length_nil]
    · congr 1
      omega

theorem lineLoop_pos {line : CStr} (h : (lineLoop fuel s).1 = some line) : 0 < (lineLoop fuel s).2 := by
  cases fuel with
  | zero => exact absurd h (by simp [lineLoop])
  | succ fuel =>
    rw [lineLoop] at h ⊢
    split_ifs at h ⊢ with hline
    · exact Nat.pos_of_ne_zero hline.1
    · split at h
      · exact absurd h (by simp)
      · split_ifs at h ⊢ with hnul
        change 0 < lineBreak s + 1 + _
        omega

theorem lineLoop_fold {line : CStr} (hblank : isBlank (CStr.peek (s.drop (lineBreak s))) = true)
    (h : (lineLoop fuel s).1 = some line) : line ≠ [] ∧ lineBreak s < (lineLoop fuel s).2 := by
  cases fuel with
  | zero => exact absurd h (by simp [lineLoop])
  | succ fuel =>
    rw [lineLoop, if_neg (by rw [hblank]; simp)] at h ⊢
    split at h
    · exact absurd h (by simp)
    · rename_i c t hdrop
      split_ifs at h ⊢ with hnul
      obtain ⟨l, -, rfl⟩ := Option.map_eq_some_iff.mp h
      refine ⟨List.cons_ne_nil _ _, ?_⟩
      change lineBreak s < lineBreak s + 1 + _
      omega

end Httpish
