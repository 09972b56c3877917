import Ikran.Lib.Line

/-!
# Parsers that stay on their line

A parser of one line of a message gets the whole rest of the message and a shared error counter. A
`LineParser` carries the proof that it cannot look past the end of its line and that it only ever
adds to the counter, so that every parser put together from these is isolated from the following
lines and from the errors counted before it.
-/

open CStr Line

/-- A scan over a text: outcome, pointer behind the part read, and error count. -/
abbrev Scan (ε α : Type) := CStr → UInt32 → Except ε α × CStr × UInt32

namespace Scan

variable {ε α β : Type}

/-- Two results of a scan, started at `s` and `t` with the counts `m` and `n`, agree in their outcome,
have moved over the same characters of the line, and have counted the same number of errors. -/
structure Agree (s t : CStr) (m n : UInt32) (r r' : Except ε α × CStr × UInt32) : Prop where
  outcome : r.1 = r'.1
  advance : Advance s t r.2.1 r'.2.1
  errors : r.2.2 - m = r'.2.2 - n

/-- The scan depends on the line under its pointer only, and does not read the error count. -/
def Isolated (p : Scan ε α) : Prop :=
  ∀ ⦃s t : CStr⦄ (m n : UInt32), SameLine s t → Agree s t m n (p s m) (p t n)

/-- Run `p`, then the scan its value selects; an error ends the scan. -/
def bind (p : Scan ε α) (f : α → Scan ε β) : Scan ε β := fun s n =>
  match p s n with
  | (.ok a, t, k) => f a t k
  | (.error e, t, k) => (.error e, t, k)

theorem Isolated.bind {p : Scan ε α} {f : α → Scan ε β} (hp : p.Isolated)
    (hf : ∀ a, (f a).Isolated) : (p.bind f).Isolated := by
  intro s t m n hst
  obtain ⟨hout, hmove, herr⟩ := hp m n hst
  unfold Scan.bind
  rcases hps : p s m with ⟨o, u, j⟩
  rcases hpt : p t n with ⟨o', v, k⟩
  rw [hps, hpt] at hout hmove herr
  obtain rfl : o = o' := hout
  cases o with
  | error e => exact ⟨rfl, hmove, herr⟩
  | ok a =>
    obtain ⟨hout', hmove', herr'⟩ := hf a j k (hmove.sameLine hst)
    refine ⟨hout', hmove.trans hmove', ?_⟩
    have hsplit : ∀ x y z : UInt32, x - z = (x - y) + (y - z) := by
      intro x y z
      grind
    rw [hsplit _ j m, hsplit _ k n, herr', herr]

end Scan

/-- A scan that stays on its line and only adds to the error count. -/
structure LineParser (ε α : Type) where
  run : Scan ε α
  isolated : run.Isolated

namespace LineParser

variable {ε α β : Type}

theorem agree_const (o : Except ε α) (s t : CStr) (m n : UInt32) : Scan.Agree s t m n (o, s, m) (o, t, n) :=
  ⟨rfl, .refl s t, by simp⟩

instance : Monad (LineParser ε) where
  pure a := ⟨fun s n => (.ok a, s, n), fun s t m n _ => agree_const _ s t m n⟩
  bind p f := ⟨p.run.bind fun a => (f a).run, p.isolated.bind fun a => (f a).isolated⟩

def fail (e : ε) : LineParser ε α :=
  ⟨fun s n => (.error e, s, n), fun s t m n _ => agree_const _ s t m n⟩

/-- Count one error and go on. -/
def count : LineParser ε Unit :=
  ⟨fun s n => (.ok (), s, n + 1), fun s t _ _ _ => ⟨rfl, .refl s t, by grind⟩⟩

/-- The next token of at most `max` characters, if the line has one. -/
def token (delim : CStr) (max : ℕ) : LineParser ε (Option CStr) :=
  ⟨fun s n => (.ok (Line.token delim max s).1, (Line.token delim max s).2, n),
    fun _ _ _ _ h => ⟨congrArg Except.ok (h.token delim max).1, (h.token delim max).2, by simp⟩⟩

/-- All remaining tokens of the line. The pointer is not moved. -/
def tokens (delim : CStr) (max : ℕ) : LineParser ε (List CStr) :=
  ⟨fun s n => (.ok (Line.tokens delim max s), s, n),
    fun s t _ _ h => ⟨congrArg Except.ok (h.tokens delim max), .refl s t, by simp⟩⟩

/-- Up to `max` of the remaining characters of the line. -/
def rest (max : ℕ) : LineParser ε CStr :=
  ⟨fun s n => (.ok (takeToken [] max s).1, (takeToken [] max s).2, n),
    fun _ _ _ _ h => ⟨congrArg Except.ok (h.takeToken [] max).1, (h.takeToken [] max).2, by simp⟩⟩

/-- The character under the pointer. -/
def peek : LineParser ε Char :=
  ⟨fun s n => (.ok s.peek, s, n),
    fun s t _ _ h => ⟨congrArg Except.ok h.peek_eq, .refl s t, by simp⟩⟩

/-- Step over `c` if it stands under the pointer. Ends of line are not stepped over. -/
def skip (c : Char) : LineParser ε Unit :=
  ⟨fun s n => (.ok (), if s.peek = c ∧ isEol c = false then s.tail else s, n), by
    intro s t m n h
    refine ⟨rfl, ?_, by simp⟩
    by_cases hc : s.peek = c ∧ isEol c = false
    · have hc' : t.peek = c ∧ isEol c = false := h.peek_eq ▸ hc
      simp only [if_pos hc, if_pos hc']
      cases h with
      | eol hpeek heol => simp [atEol, hc.1, hc.2] at heol
      | @cons d s t hd h => exact (Advance.refl s t).cons hd
    · have hc' : ¬(t.peek = c ∧ isEol c = false) := h.peek_eq ▸ hc
      simpa only [if_neg hc, if_neg hc'] using Advance.refl s t⟩

/-- Count one error if the condition holds, and go on. -/
def countIf (c : Prop) [Decidable c] : LineParser ε Unit := if c then count else pure ()

theorem outcome_eq (p : LineParser ε α) {s t : CStr} (m n : UInt32) (h : SameLine s t) :
    (p.run s m).1 = (p.run t n).1 :=
  (p.isolated m n h).outcome

theorem count_eq (p : LineParser ε α) {s t : CStr} (m n : UInt32) (h : SameLine s t) :
    (p.run s m).2.2 - m = (p.run t n).2.2 - n :=
  (p.isolated m n h).errors

theorem run_eq (p : LineParser ε α) (s : CStr) (n : UInt32) :
    p.run s n = ((p.run s 0).1, (p.run s 0).2.1, n + (p.run s 0).2.2) := by
  obtain ⟨hout, hmove, herr⟩ := p.isolated n 0 (SameLine.refl s)
  refine Prod.ext hout (Prod.ext (hmove.eq_of_eq rfl) ?_)
  change (p.run s n).2.2 = n + (p.run s 0).2.2
  grind

theorem run_line (p : LineParser ε α) (l : CStr) :
    ∃ pre l' o k, l = pre ++ l' ∧ ∀ u n, p.run (l ++ '\n' :: u) n = (o, l' ++ '\n' :: u, n + k) := by
  have hline : ∀ u n, Scan.Agree (l ++ '\n' :: u) (l ++ '\n' :: []) n 0 _ _ := fun u n =>
    p.isolated n 0 (SameLine.append_eol rfl l u [])
  obtain ⟨pre, l', hl, -, hstop⟩ := (hline [] 0).advance.exists_line
  refine ⟨pre, l', (p.run (l ++ '\n' :: []) 0).1, (p.run (l ++ '\n' :: []) 0).2.2, hl, fun u n => ?_⟩
  obtain ⟨hout, hmove, herr⟩ := hline u n
  obtain ⟨-, l₂, -, hs, ht⟩ := hmove.exists_line
  obtain rfl : l' = l₂ := List.append_cancel_right (hstop.symm.trans ht)
  refine Prod.ext hout (Prod.ext hs ?_)
  grind

@[simp] theorem run_bind (p : LineParser ε α) (f : α → LineParser ε β) (s : CStr) (n : UInt32) : (p >>= f).run s n =
      match p.run s n with
      | (.ok a, t, k) => (f a).run t k
      | (.error e, t, k) => (.error e, t, k) := rfl

@[simp] theorem run_pure (a : α) (s : CStr) (n : UInt32) : (pure a : LineParser ε α).run s n = (.ok a, s, n) := rfl

@[simp] theorem run_fail (e : ε) (s : CStr) (n : UInt32) : (fail e : LineParser ε α).run s n = (.error e, s, n) := rfl

@[simp] theorem run_count (s : CStr) (n : UInt32) : (count : LineParser ε Unit).run s n = (.ok (), s, n + 1) := rfl

@[simp] theorem run_token (delim : CStr) (max : ℕ) (s : CStr) (n : UInt32) :
    (token delim max : LineParser ε _).run s n = (.ok (Line.token delim max s).1, (Line.token delim max s).2, n) := rfl

@[simp] theorem run_tokens (delim : CStr) (max : ℕ) (s : CStr) (n : UInt32) :
    (tokens delim max : LineParser ε _).run s n = (.ok (Line.tokens delim max s), s, n) := rfl

@[simp] theorem run_rest (max : ℕ) (s : CStr) (n : UInt32) : (rest max : LineParser ε _).run s n =
      (.ok (takeToken [] max s).1, (takeToken [] max s).2, n) := rfl

@[simp] theorem run_peek (s : CStr) (n : UInt32) : (peek : LineParser ε _).run s n = (.ok s.peek, s, n) := rfl

@[simp] theorem run_skip (c : Char) (s : CStr) (n : UInt32) : (skip c : LineParser ε _).run s n =
      (.ok (), if s.peek = c ∧ isEol c = false then s.tail else s, n) := rfl

@[simp] theorem run_ite (c : Prop) [Decidable c] (p q : LineParser ε α) (s : CStr) (n : UInt32) :
    (if c then p else q).run s n = if c then p.run s n else q.run s n := by
  split_ifs <;> rfl

theorem ext_run {p q : LineParser ε α} (h : ∀ s n, p.run s n = q.run s n) : p = q := by
  obtain ⟨run, hrun⟩ := p
  obtain ⟨run', hrun'⟩ := q
  obtain rfl : run = run' := funext fun s => funext fun n => h s n
  rfl

theorem bind_assoc {γ : Type} (p : LineParser ε α) (f : α → LineParser ε β)
    (g : β → LineParser ε γ) : p >>= f >>= g = p >>= fun a => f a >>= g := by
  refine ext_run fun s n => ?_
  simp only [run_bind]
  rcases p.run s n with ⟨e | a, t, k⟩ <;> rfl

theorem pure_bind (a : α) (f : α → LineParser ε β) : pure a >>= f = f a := rfl

/-! ## Postconditions -/

/-- Every value the parser returns satisfies `P`, and every error satisfies `E`. -/
def Ensures (p : LineParser ε α) (P : α → Prop) (E : ε → Prop) : Prop :=
  ∀ s n, (∀ a, (p.run s n).1 = .ok a → P a) ∧ (∀ e, (p.run s n).1 = .error e → E e)

namespace Ensures

variable {P Q : α → Prop} {R : β → Prop} {E : ε → Prop}

theorem pure {a : α} (h : P a) : (Pure.pure a : LineParser ε α).Ensures P E := by
  intro s n
  refine ⟨fun b hb => ?_, fun e he => by simp [Pure.pure] at he⟩
  obtain rfl : a = b := by simpa [Pure.pure] using hb
  exact h

theorem fail {e : ε} (h : E e) : (LineParser.fail e : LineParser ε α).Ensures P E := by
  intro s n
  refine ⟨fun a ha => by simp [LineParser.fail] at ha, fun e' he => ?_⟩
  obtain rfl : e = e' := by simpa [LineParser.fail] using he
  exact h

theorem bind {p : LineParser ε α} {f : α → LineParser ε β} (hp : p.Ensures P E)
    (hf : ∀ a, P a → (f a).Ensures R E) : (p >>= f).Ensures R E := by
  intro s n
  have hrun : (p >>= f).run s n = p.run.bind (fun a => (f a).run) s n := rfl
  rw [hrun, Scan.bind]
  obtain ⟨hval, herr⟩ := hp s n
  rcases hps : p.run s n with ⟨o, t, k⟩
  rw [hps] at hval herr
  cases o with
  | error e => exact ⟨fun a ha => by simp at ha, fun e' he => herr e' (by simpa using he)⟩
  | ok a => exact hf a (hval a rfl) t k

theorem token (delim : CStr) (max : ℕ) : (LineParser.token delim max : LineParser ε _).Ensures (fun _ => True) E :=
  fun _ _ => ⟨fun _ _ => trivial, fun _ h => by simp [LineParser.token] at h⟩

theorem rest (max : ℕ) : (LineParser.rest max : LineParser ε _).Ensures (fun _ => True) E :=
  fun _ _ => ⟨fun _ _ => trivial, fun _ h => by simp [LineParser.rest] at h⟩

theorem tokens (delim : CStr) (max : ℕ) : (LineParser.tokens delim max : LineParser ε _).Ensures (fun _ => True) E :=
  fun _ _ => ⟨fun _ _ => trivial, fun _ h => by simp [LineParser.tokens] at h⟩

theorem peek : (LineParser.peek : LineParser ε _).Ensures (fun _ => True) E :=
  fun _ _ => ⟨fun _ _ => trivial, fun _ h => by simp [LineParser.peek] at h⟩

theorem skip (c : Char) : (LineParser.skip c : LineParser ε _).Ensures (fun _ => True) E :=
  fun _ _ => ⟨fun _ _ => trivial, fun _ h => by simp [LineParser.skip] at h⟩

theorem count : (LineParser.count : LineParser ε _).Ensures (fun _ => True) E :=
  fun _ _ => ⟨fun _ _ => trivial, fun _ h => by simp [LineParser.count] at h⟩

theorem countIf (c : Prop) [Decidable c] : (LineParser.countIf c : LineParser ε _).Ensures (fun _ => True) E := by
  unfold LineParser.countIf
  split_ifs
  · exact count
  · exact pure trivial

end Ensures

end LineParser
