import Ikran.Lib.CString
import Mathlib.Data.List.GetD
import Mathlib.Data.List.Range
import Mathlib.Tactic.Ring

/-!
# Printing into a bounded buffer

A C printer advances a cursor by the untruncated length `snprintf` returns, and gives every call
the room between the cursor and the end of the buffer it believes in. The calls are recorded, so
that what they store, and where, is a function of the record.
-/

namespace BoundedPrint

open CStr

/-- One `snprintf (buf + off, size, …)` call whose untruncated output is `text`. -/
structure Call where
  off : ℕ
  size : ℕ
  text : CStr
  deriving DecidableEq

namespace Call

/-- The bytes stored: as much of the text as fits in front of the terminator. -/
def stored (c : Call) : CStr := if c.size = 0 then [] else c.text.take (c.size - 1) ++ [nul]

/-- The call stores a byte at offset `i`. -/
def Touches (c : Call) (i : ℕ) : Prop := c.off ≤ i ∧ i < c.off + c.stored.length

/-- The size argument is at most the room left in a buffer of `len` bytes. -/
def Within (len : ℕ) (c : Call) : Prop := c.size ≤ len - c.off

/-- The size argument is at least the room left in a buffer of `len` bytes. -/
def Generous (len : ℕ) (c : Call) : Prop := len - c.off ≤ c.size

instance (c : Call) (i : ℕ) : Decidable (c.Touches i) := inferInstanceAs (Decidable (_ ∧ _))

instance (len : ℕ) (c : Call) : Decidable (c.Within len) := inferInstanceAs (Decidable (_ ≤ _))

def store (c : Call) (m : ℕ → Char) : ℕ → Char := fun i =>
  if c.Touches i then c.stored.getD (i - c.off) nul else m i

theorem length_stored_le (c : Call) : c.stored.length ≤ c.size := by
  unfold stored
  split
  · simp
  · simp only [List.length_append, List.length_take, List.length_singleton]
    omega

theorem Within.lt_of_touches {len : ℕ} {c : Call} (h : c.Within len) {i : ℕ} (hi : c.Touches i) : i < len := by
  have hlen := c.length_stored_le
  unfold Within at h
  unfold Touches at hi
  omega

theorem stored_of_lt {c : Call} (h : c.text.length < c.size) : c.stored = c.text ++ [nul] := by
  have hsize : c.size ≠ 0 := by omega
  simp only [stored, hsize, if_false]
  rw [List.take_of_length_le (by omega)]

theorem store_of_lt {c : Call} {m : ℕ → Char} {i : ℕ} (h : i < c.off) : c.store m i = m i := by
  simp [store, Touches, Nat.not_le.mpr h]

end Call

/-- The output state: where the cursor is, and the calls made so far, the oldest first. -/
structure Out where
  cur : ℕ
  calls : List Call

/-- `(u16)(endbuf_p - ptr)`: the room left, or what the cast makes of a negative difference. -/
def room16 (endp cur : ℕ) : ℕ := (((endp : ℤ) - cur) % 2 ^ 16).toNat

variable {endp cur : ℕ}

theorem room16_of_le (h : cur ≤ endp) (hlt : endp - cur < 2 ^ 16) : room16 endp cur = endp - cur := by
  unfold room16
  omega

theorem room16_eq_zero_iff : room16 endp cur = 0 ↔ ((endp : ℤ) - cur) % 2 ^ 16 = 0 := by
  unfold room16
  omega

theorem le_room16 (h : endp - cur < 2 ^ 16) : endp - cur ≤ room16 endp cur := by
  unfold room16
  omega

/-- An end of buffer computed from a cast room is at or behind the real end, unless the cursor has
passed that already. -/
theorem endp_le_add_room16 (endp cur : ℕ) (h : endp - cur < 2 ^ 16) : endp ≤ cur + room16 endp cur ∨ endp ≤ cur := by
  have hroom := le_room16 h
  omega

theorem room16_lt (endp cur : ℕ) : room16 endp cur < 2 ^ 16 := by
  unfold room16
  omega

/-- An end of buffer computed from a cast room does not lie behind the real end exactly when the
cursor has not passed the real end, or has by a multiple of 65536. -/
theorem add_room16_le_iff (endp cur : ℕ) (h : endp - cur < 2 ^ 16) :
    cur + room16 endp cur ≤ endp ∨ room16 endp cur = 0 ↔ cur ≤ endp ∨ (cur - endp) % 2 ^ 16 = 0 := by
  by_cases hcur : cur ≤ endp
  · rw [room16_of_le hcur h]
    omega
  · rw [room16_eq_zero_iff]
    omega

namespace Out

/-- Nothing printed yet. -/
def start : Out := ⟨0, []⟩

/-- `*ptr += snprintf (*ptr, MAX ((endbuf_p - *ptr), 0), …)`. -/
def snprintf (endp : ℕ) (text : CStr) (o : Out) : Out :=
  ⟨o.cur + text.length, o.calls ++ [⟨o.cur, endp - o.cur, text⟩]⟩

/-- Print several texts up to the same end of buffer. -/
def print (endp : ℕ) (texts : List CStr) (o : Out) : Out :=
  texts.foldl (fun o text => o.snprintf endp text) o

/-- The memory after all calls, starting from `m`. -/
def memory (o : Out) (m : ℕ → Char) : ℕ → Char := o.calls.foldl (fun m c => c.store m) m

@[simp] theorem print_nil (endp : ℕ) (o : Out) : o.print endp [] = o := rfl

@[simp] theorem print_cons (endp : ℕ) (text : CStr) (texts : List CStr) (o : Out) :
    o.print endp (text :: texts) = (o.snprintf endp text).print endp texts := rfl

end Out

/-- The calls that print several texts, from the cursor `cur` on. -/
def printCalls (endp : ℕ) : List CStr → ℕ → List Call
  | [], _ => []
  | text :: texts, cur =>
    ⟨cur, endp - cur, text⟩ :: printCalls endp texts (cur + text.length)

theorem Out.print_calls (endp : ℕ) (texts : List CStr) (o : Out) :
    (o.print endp texts).calls = o.calls ++ printCalls endp texts o.cur := by
  induction texts generalizing o with
  | nil => simp [printCalls]
  | cons text texts ih =>
    rw [Out.print_cons, ih]
    simp [Out.snprintf, printCalls]

/-- The calls that print several texts up to `endp` have the room they ask for in a buffer of `len`
bytes exactly when nothing is printed, `endp` lies inside the buffer, or no room is asked for. -/
theorem printCalls_within_iff {len : ℕ} {texts : List CStr} :
    (∀ c ∈ printCalls endp texts cur, c.Within len) ↔ texts = [] ∨ endp ≤ len ∨ endp ≤ cur := by
  induction texts generalizing cur with
  | nil => simp [printCalls]
  | cons text texts ih =>
    have hhead : (⟨cur, endp - cur, text⟩ : Call).Within len ↔ endp ≤ len ∨ endp ≤ cur := by
      change endp - cur ≤ len - cur ↔ _
      omega
    rw [printCalls, List.forall_mem_cons, ih, hhead]
    simp only [reduceCtorEq, false_or, and_iff_left_iff_imp]
    intro h
    exact .inr (by omega)

/-- The calls that print several texts up to `endp` are generous in a buffer that ends at or before
`endp`, or before the cursor. -/
theorem printCalls_generous {len : ℕ} {texts : List CStr}
    (h : len ≤ endp ∨ len ≤ cur) : ∀ c ∈ printCalls endp texts cur, c.Generous len := by
  induction texts generalizing cur with
  | nil => simp [printCalls]
  | cons text texts ih =>
    simp only [printCalls, List.forall_mem_cons, Call.Generous]
    refine ⟨by omega, ih (by omega)⟩

/-- The first `n` bytes of the memory. -/
def readMem (m : ℕ → Char) (n : ℕ) : CStr := (List.range n).map m

/-- The calls start at offset `a`, each begins where the previous text ends, and the last text ends
at offset `b`. -/
inductive Chained : ℕ → List Call → ℕ → Prop
  | nil (a : ℕ) : Chained a [] a
  | cons {c : Call} {cs : List Call} {b : ℕ} (h : Chained (c.off + c.text.length) cs b) :
      Chained c.off (c :: cs) b

namespace Chained

variable {a b : ℕ} {cs : List Call}

theorem append {d : ℕ} {ds : List Call} (h : Chained a cs b) (h' : Chained b ds d) : Chained a (cs ++ ds) d := by
  induction h with
  | nil => exact h'
  | cons _ ih => exact .cons (ih h')

theorem end_eq (h : Chained a cs b) : b = a + (cs.flatMap Call.text).length := by
  induction h with
  | nil => simp
  | cons _ ih =>
    rw [ih]
    simp only [List.flatMap_cons, List.length_append]
    ring

theorem off_add_length_le (h : Chained a cs b) {c : Call} (hc : c ∈ cs) : c.off + c.text.length ≤ b := by
  induction h with
  | nil => simp at hc
  | cons h' ih =>
    rcases List.mem_cons.mp hc with rfl | hc
    · exact h'.end_eq ▸ Nat.le_add_right _ _
    · exact ih hc

theorem memory_of_lt (h : Chained a cs b) (m : ℕ → Char) {i : ℕ}
    (hi : i < a) : cs.foldl (fun m c => c.store m) m i = m i := by
  induction h generalizing m with
  | nil => rfl
  | @cons c cs b h' ih =>
    rw [List.foldl_cons, ih _ (by omega), Call.store_of_lt hi]

theorem memory_eq (h : Chained a cs b)
    (hfit : ∀ c ∈ cs, c.text.length < c.size) (m : ℕ → Char) {i : ℕ} (hi : a ≤ i) (hib : i < b) :
    cs.foldl (fun m c => c.store m) m i = (cs.flatMap Call.text).getD (i - a) nul := by
  induction h generalizing m with
  | nil => omega
  | @cons c cs b h' ih =>
    rw [List.foldl_cons, List.flatMap_cons]
    by_cases hc : i < c.off + c.text.length
    · have hsub : i - c.off < c.text.length := by omega
      have hstored := Call.stored_of_lt (hfit c (by simp))
      rw [h'.memory_of_lt _ hc, List.getD_append _ _ _ _ hsub, Call.store, if_pos, hstored,
        List.getD_append _ _ _ _ hsub]
      exact ⟨hi, by rw [hstored, List.length_append]; omega⟩
    · rw [ih (fun d hd => hfit d (by simp [hd])) _ (by omega) hib,
        List.getD_append_right _ _ _ _ (by omega)]
      congr 1
      omega

end Chained

/-- `o'` is reached from `o` by calls whose untruncated output is `text`. -/
structure Extends (o o' : Out) (text : CStr) : Prop where
  calls : ∃ new, o'.calls = o.calls ++ new ∧ Chained o.cur new o'.cur ∧
    new.flatMap Call.text = text

namespace Extends

theorem refl (o : Out) : Extends o o [] := ⟨[], by simp, .nil _, rfl⟩

theorem trans {o o' o'' : Out} {s t : CStr} (h : Extends o o' s) (h' : Extends o' o'' t) : Extends o o'' (s ++ t) := by
  obtain ⟨cs, hcs, hchain, rfl⟩ := h
  obtain ⟨ds, hds, hchain', rfl⟩ := h'
  exact ⟨cs ++ ds, by rw [hds, hcs, List.append_assoc], hchain.append hchain', by simp⟩

theorem snprintf (endp : ℕ) (text : CStr) (o : Out) : Extends o (o.snprintf endp text) text :=
  ⟨[⟨o.cur, endp - o.cur, text⟩], rfl, .cons (c := ⟨o.cur, _, text⟩) (.nil _), by simp⟩

theorem print (endp : ℕ) (texts : List CStr) (o : Out) : Extends o (o.print endp texts) texts.flatten := by
  induction texts generalizing o with
  | nil => exact refl o
  | cons text texts ih => exact (snprintf endp text o).trans (ih _)

theorem cur_eq {o o' : Out} {text : CStr} (h : Extends o o' text) : o'.cur = o.cur + text.length := by
  obtain ⟨cs, _, hchain, rfl⟩ := h
  exact hchain.end_eq

theorem cur_le {o o' : Out} {text : CStr} (h : Extends o o' text) : o.cur ≤ o'.cur := by
  rw [h.cur_eq]
  exact Nat.le_add_right _ _

/-- When every call is generous and the cursor ends inside the buffer, nothing was truncated: the
memory up to the cursor holds exactly the text. -/
theorem read_memory {o : Out} {text : CStr} {len : ℕ} (h : Extends Out.start o text)
    (hgen : ∀ c ∈ o.calls, c.Generous len) (hcur : o.cur < len) (m : ℕ → Char) :
    readMem (o.memory m) o.cur = text := by
  obtain ⟨cs, hcs, hchain, rfl⟩ := h
  simp only [Out.start, List.nil_append] at hcs hchain
  have hfit : ∀ c ∈ cs, c.text.length < c.size := by
    intro c hc
    have hend := hchain.off_add_length_le hc
    have hroom : len - c.off ≤ c.size := hgen c (hcs ▸ hc)
    omega
  apply List.ext_getElem
  · simpa [readMem] using hchain.end_eq
  · intro i hi hi'
    simp only [readMem, List.length_map, List.length_range] at hi
    simp only [readMem, List.getElem_map, List.getElem_range, Out.memory, hcs]
    rw [hchain.memory_eq hfit m (Nat.zero_le i) hi, Nat.sub_zero, List.getD_eq_getElem _ _ hi']

end Extends

/-- The calls `o'` adds to `o` all satisfy `p`. -/
def Added (p : Call → Prop) (o o' : Out) : Prop :=
  ∃ new, o'.calls = o.calls ++ new ∧ ∀ c ∈ new, p c

namespace Added

variable {p : Call → Prop}

theorem refl (o : Out) : Added p o o := ⟨[], by simp, by simp⟩

theorem trans {o o' o'' : Out} (h : Added p o o') (h' : Added p o' o'') : Added p o o'' := by
  obtain ⟨cs, hcs, hp⟩ := h
  obtain ⟨ds, hds, hq⟩ := h'
  refine ⟨cs ++ ds, by rw [hds, hcs, List.append_assoc], ?_⟩
  intro c hc
  rcases List.mem_append.mp hc with hc | hc
  · exact hp c hc
  · exact hq c hc

theorem snprintf {endp : ℕ} {text : CStr} {o : Out} (h : p ⟨o.cur, endp - o.cur, text⟩) :
    Added p o (o.snprintf endp text) :=
  ⟨[⟨o.cur, endp - o.cur, text⟩], rfl, by simpa using h⟩

theorem print_generous {endp len : ℕ} {o : Out} (h : len ≤ endp ∨ len ≤ o.cur)
    (texts : List CStr) : Added (Call.Generous len) o (o.print endp texts) :=
  ⟨printCalls endp texts o.cur, o.print_calls endp texts, printCalls_generous h⟩

theorem forall_mem {o o' : Out} (h : Added p o o') (ho : ∀ c ∈ o.calls, p c) : ∀ c ∈ o'.calls, p c := by
  obtain ⟨cs, hcs, hp⟩ := h
  intro c hc
  rw [hcs] at hc
  rcases List.mem_append.mp hc with hc | hc
  · exact ho c hc
  · exact hp c hc

end Added

end BoundedPrint
