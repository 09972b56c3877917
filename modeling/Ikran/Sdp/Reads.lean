import Ikran.Lib.Words
import Mathlib.Data.List.TakeWhile
import Ikran.Sdp.ParseAttribute

/-!
# What a line parser accepts, as a relation on words

Most parse functions of attributes see nothing of their line but its words. For each of these the
values it accepts are given here by a relation between the words of the line and the value. The same
relation then serves a line that was received and a line that was printed.
-/

namespace Sdp

open CStr Line

/-- The words of a line between blanks and tabs. -/
def words (s : CStr) : List CStr := tokens blanks maxStringLen s

/-- The parser accepts exactly what `P` says about the words of the line, and counts no error when it
accepts. -/
def Reads {α : Type} (p : Parser α) (P : List CStr → α → Prop) : Prop :=
  ∀ s n a k, outcomeOf p s n = (.ok a, k) ↔ P (words s) a ∧ k = n

namespace Reads

variable {α β : Type}

theorem congr {p : Parser α} {P Q : List CStr → α → Prop} (h : Reads p P) (hPQ : ∀ ws a, P ws a ↔ Q ws a) : Reads p Q :=
  fun s n a k => (h s n a k).trans (and_congr_left fun _ => hPQ (words s) a)

theorem pure (b : α) : Reads (Pure.pure b) fun _ a => a = b := by
  intro s n a k
  rw [outcomeOf, LineParser.run_pure, Prod.mk.injEq, Except.ok.injEq, eq_comm, eq_comm (a := n)]

theorem invalid : Reads (invalidParameter : Parser α) fun _ _ => False := by
  intro s n a k
  simp [outcomeOf]

theorem next {p : Parser β} {g : Option CStr → β} {f : β → Parser α} {P : Option CStr → List CStr → α → Prop}
    (hp : ∀ s n, p.run s n = (.ok (g (token blanks maxStringLen s).1), (token blanks maxStringLen s).2, n))
    (hf : ∀ o, Reads (f (g o)) (P o)) : Reads (p >>= f) fun ws a => P ws.head? ws.tail a := by
  intro s n a k
  have hrun : outcomeOf (p >>= f) s n =
      outcomeOf (f (g (token blanks maxStringLen s).1)) (token blanks maxStringLen s).2 n := by
    simp only [outcomeOf, LineParser.run_bind, hp s n]
  rw [hrun]
  rcases htok : token blanks maxStringLen s with ⟨_ | w, t⟩
  · have hnil : words s = [] := tokens_of_none (congrArg Prod.fst htok)
    -- without a token the pointer is at the end of the line
    have heol : words t = [] := by
      rw [token] at htok
      split_ifs at htok with h
      · obtain ⟨-, rfl⟩ := Prod.mk.inj htok
        exact tokens_eol h
      · cases htok
    rw [hf none t n a k, hnil, heol]
    rfl
  · have hcons : words s = w :: words t := tokens_of_token (by decide) htok
    rw [hf (some w) t n a k, hcons]
    rfl

theorem optWord {f : Option CStr → Parser α} {P : Option CStr → List CStr → α → Prop} (hf : ∀ o, Reads (f o) (P o)) :
    Reads (getNextStrTok blanks >>= f) fun ws a => P ws.head? ws.tail a :=
  next (fun _ _ => rfl) hf

theorem orInvalid {o : Option β} {f : β → Parser α} {P : β → List CStr → α → Prop}
    (hf : ∀ b, o = some b → Reads (f b) (P b)) :
    Reads (Sdp.orInvalid o >>= f) fun ws a => ∃ b, o = some b ∧ P b ws a := by
  intro s n a k
  cases o with
  | none => simp [outcomeOf]
  | some b =>
    have hrun : outcomeOf (Sdp.orInvalid (some b) >>= f) s n = outcomeOf (f b) s n := rfl
    rw [hrun, hf b rfl s n a k]
    simp

theorem word {f : CStr → Parser α} {P : CStr → List CStr → α → Prop} (hf : ∀ w, Reads (f w) (P w)) :
    Reads (getNextStrTok blanks >>= fun o => Sdp.orInvalid o >>= f) fun ws a =>
      ∃ w ws', ws = w :: ws' ∧ P w ws' a := by
  refine (optWord fun o => orInvalid fun w _ => hf w).congr fun ws a => ?_
  cases ws with
  | nil => simp
  | cons w ws => simp

theorem ite {c : Prop} [Decidable c] {p q : Parser α} {P Q : List CStr → α → Prop} (hp : Reads p P)
    (hq : Reads q Q) : Reads (if c then p else q) fun ws a => if c then P ws a else Q ws a := by
  split_ifs
  · exact hp
  · exact hq

end Reads

/-! ## Numbers -/

theorem numVal_decimal (n : ℕ) : numVal (decimal n) = (UInt32.ofNat n, true) := by
  have hall : ∀ c ∈ decimal n, c.isDigit = true := fun c hc => isDigit_of_mem_decimal hc
  have htake : (decimal n).takeWhile Char.isDigit = decimal n := List.takeWhile_eq_self_iff.mpr hall
  rw [numVal, htake, digitsVal_decimal, List.all_eq_true.mpr hall]

theorem toUInt16_ofNat_toNat (v : UInt16) : (UInt32.ofNat v.toNat).toUInt16 = v := by
  have hv := v.toNat_lt
  refine UInt16.toNat_inj.mp ?_
  rw [UInt32.toNat_toUInt16, UInt32.toNat_ofNat']
  omega

theorem toUInt8_ofNat_toNat (v : UInt8) : (UInt32.ofNat v.toNat).toUInt8 = v := by
  have hv := v.toNat_lt
  refine UInt8.toNat_inj.mp ?_
  rw [UInt32.toNat_toUInt8, UInt32.toNat_ofNat']
  omega

theorem isWord_decimal {delim : CStr} (hdelim : delim.all (fun c => !c.isDigit) = true) {n : ℕ}
    (hn : n < 10 ^ 80) : isWord delim maxStringLen (decimal n) = true := by
  refine isWord_iff.mpr ⟨decimal_ne_nil n, length_decimal_le (by decide) hn, fun c hc => ?_⟩
  have hdigit := isDigit_of_mem_decimal hc
  have hplain : ∀ d : Char, d.isDigit = false → c ≠ d := by
    rintro d hd rfl
    rw [hd] at hdigit
    cases hdigit
  constructor
  · simp [isEol, hplain nul rfl, hplain '\n' rfl, hplain '\r' rfl]
  · intro hmem
    have hnot := List.all_eq_true.mp hdelim c hmem
    simp [hdigit] at hnot

theorem isWord_decimal_toNat (v : UInt16) : isWord blanks maxStringLen (decimal v.toNat) = true :=
  isWord_decimal (by decide) (Nat.lt_of_lt_of_le v.toNat_lt (by decide))

def numOf (w : CStr) : Option UInt32 := if (numVal w).2 then some (numVal w).1 else none

/-- The value of a word that is a number or starts with a hyphen, and whether it is a hyphen. -/
def numOrNull (w : CStr) : Option (UInt32 × Bool) :=
  if peek w = '-' then some (0, true)
  else if (numVal w).2 then some ((numVal w).1, false)
  else none

theorem numOf_decimal (n : ℕ) : numOf (decimal n) = some (UInt32.ofNat n) := by
  rw [numOf, numVal_decimal, if_pos rfl]

/-- The values at the front of some words, at most `n` of them. -/
def valuesUpTo {β : Type} (value : CStr → Option β) : ℕ → List CStr → List β
  | 0, _ => []
  | _ + 1, [] => []
  | n + 1, w :: ws =>
    match value w with
    | none => []
    | some v => v :: valuesUpTo value n ws

section Values

variable {β : Type} {value : CStr → Option β} {n : ℕ} {ws : List CStr}

theorem length_valuesUpTo_le : (valuesUpTo value n ws).length ≤ n ∧ (valuesUpTo value n ws).length ≤ ws.length := by
  induction n generalizing ws with
  | zero => exact ⟨Nat.zero_le _, Nat.zero_le _⟩
  | succ n ih =>
    cases ws with
    | nil => exact ⟨Nat.zero_le _, Nat.zero_le _⟩
    | cons w ws =>
      obtain ⟨hn, hws⟩ := @ih ws
      rw [valuesUpTo]
      cases value w with
      | none => exact ⟨Nat.zero_le _, Nat.zero_le _⟩
      | some v => exact ⟨Nat.succ_le_succ hn, Nat.succ_le_succ hws⟩

theorem valuesUpTo_map {γ : Type} {h : β → γ} {text : γ → CStr} {l : List γ}
    (htext : ∀ v ∈ l, (value (text v)).map h = some v) (hl : l.length ≤ n) :
    (valuesUpTo value n (l.map text)).map h = l := by
  induction l generalizing n with
  | nil => cases n <;> rfl
  | cons v l ih =>
    obtain ⟨n, rfl⟩ := Nat.exists_eq_succ_of_ne_zero (Nat.ne_zero_of_lt hl)
    obtain ⟨b, hb, hv⟩ := Option.map_eq_some_iff.mp (htext v List.mem_cons_self)
    rw [List.map_cons, valuesUpTo, hb]
    have hrest := ih (fun v hv => htext v (List.mem_cons_of_mem _ hv)) (Nat.le_of_succ_le_succ hl)
    exact List.cons_eq_cons.mpr ⟨hv, hrest⟩

end Values

theorem run_getNextNum (delim s : CStr) (n : UInt32) : (getNextNum delim).run s n =
      (.ok ((token delim maxStringLen s).1.bind numOf), (token delim maxStringLen s).2, n) := by
  simp only [getNextNum, getNextNumTok, LineParser.run_bind, run_getNextStrTok]
  rcases token delim maxStringLen s with ⟨_ | w, t⟩ <;> rfl

theorem run_getNextNumTokOrNull (delim s : CStr) (n : UInt32) : (getNextNumTokOrNull delim).run s n =
      (.ok ((token delim maxStringLen s).1.bind numOrNull), (token delim maxStringLen s).2, n) := by
  simp only [getNextNumTokOrNull, LineParser.run_bind, run_getNextStrTok]
  rcases token delim maxStringLen s with ⟨_ | w, t⟩
  · rfl
  · simp only [Option.bind_some, numOrNull]
    split_ifs <;> rfl

namespace Reads

variable {α β : Type}

theorem value {p : Parser (Option β)} {g : CStr → Option β} {f : β → Parser α} {P : β → List CStr → α → Prop}
    (hp : ∀ s n, p.run s n = (.ok ((token blanks maxStringLen s).1.bind g), (token blanks maxStringLen s).2, n))
    (hf : ∀ b, Reads (f b) (P b)) :
    Reads (p >>= fun o => Sdp.orInvalid o >>= f) fun ws a =>
      ∃ w ws' b, ws = w :: ws' ∧ g w = some b ∧ P b ws' a := by
  refine (next (g := (·.bind g)) hp fun o => orInvalid fun b _ => hf b).congr fun ws a => ?_
  cases ws with
  | nil => simp
  | cons w ws => simp

theorem named {find : CStr → Option β} {f : β → Parser α} {P : β → List CStr → α → Prop} (hf : ∀ b, Reads (f b) (P b)) :
    Reads (getNextStrTok blanks >>= fun o => Sdp.orInvalid o >>= fun w => Sdp.orInvalid (find w) >>= f)
      fun ws a => ∃ w ws' b, ws = w :: ws' ∧ find w = some b ∧ P b ws' a := by
  refine (word fun w => orInvalid fun b _ => hf b).congr fun ws a => ?_
  constructor
  · rintro ⟨w, ws', hws, b, hb, hP⟩
    exact ⟨w, ws', b, hws, hb, hP⟩
  · rintro ⟨w, ws', b, hws, hb, hP⟩
    exact ⟨w, ws', hws, b, hb, hP⟩

theorem values {p : Parser (Option β)} {g : CStr → Option β} {q : ℕ → Parser (List UInt16)}
    {h : β → UInt16} {f : List UInt16 → Parser α} {P : List UInt16 → α → Prop}
    (hp : ∀ s n, p.run s n = (.ok ((token blanks maxStringLen s).1.bind g), (token blanks maxStringLen s).2, n))
    (hzero : q 0 = Pure.pure [])
    (hsucc : ∀ n, q (n + 1) = p >>= fun o =>
      match o with
      | none => Pure.pure []
      | some v => q n >>= fun l => Pure.pure (h v :: l))
    (hf : ∀ l, Reads (f l) fun _ => P l) (n : ℕ) :
    Reads (q n >>= f) fun ws a => P ((valuesUpTo g n ws).map h) a := by
  induction n generalizing f P with
  | zero =>
    rw [hzero, LineParser.pure_bind]
    exact hf []
  | succ n ih =>
    rw [hsucc, LineParser.bind_assoc]
    refine (next (g := (·.bind g)) (P := fun o ws a => match o.bind g with
        | none => P [] a
        | some v => P (h v :: (valuesUpTo g n ws).map h) a) hp fun o => ?_).congr fun ws a => ?_
    · cases o.bind g with
      | none =>
        rw [LineParser.pure_bind]
        exact hf []
      | some v =>
        rw [LineParser.bind_assoc]
        exact ih (P := fun l => P (h v :: l)) fun l => hf (h v :: l)
    · cases ws with
      | nil => rfl
      | cons w ws =>
        rw [valuesUpTo]
        cases hw : g w with
        | none => simp [hw]
        | some v => simp [hw]

end Reads

section Tokens

variable {α : Type} {delim s : CStr} {n k : UInt32} {a : α}

theorem outcomeOf_word_iff {f : CStr → Parser α} :
    outcomeOf (getNextStrTok delim >>= fun o => orInvalid o >>= f) s n = (.ok a, k) ↔
      ∃ w t, token delim maxStringLen s = (some w, t) ∧ outcomeOf (f w) t n = (.ok a, k) := by
  have hrun : outcomeOf (getNextStrTok delim >>= fun o => orInvalid o >>= f) s n =
      outcomeOf (orInvalid (token delim maxStringLen s).1 >>= f) (token delim maxStringLen s).2 n :=
    rfl
  rw [hrun]
  rcases token delim maxStringLen s with ⟨_ | w, t⟩
  · simp [outcomeOf]
  · constructor
    · exact fun h => ⟨w, t, rfl, h⟩
    · rintro ⟨w', t', htok, h⟩
      obtain ⟨hw, rfl⟩ := Prod.mk.inj htok
      rwa [← Option.some.inj hw] at h

theorem outcomeOf_getNextNum {f : Option UInt32 → Parser α} : outcomeOf (getNextNum delim >>= f) s n =
      outcomeOf (f ((token delim maxStringLen s).1.bind numOf)) (token delim maxStringLen s).2 n := by
  simp only [outcomeOf, LineParser.run_bind, run_getNextNum]

theorem outcomeOf_orInvalid_iff {β : Type} {o : Option β} {f : β → Parser α} :
    outcomeOf (orInvalid o >>= f) s n = (.ok a, k) ↔ ∃ b, o = some b ∧ outcomeOf (f b) s n = (.ok a, k) := by
  cases o with
  | none => simp [outcomeOf]
  | some b =>
    have hrun : outcomeOf (orInvalid (some b) >>= f) s n = outcomeOf (f b) s n := rfl
    rw [hrun]
    simp

theorem outcomeOf_num_iff {f : UInt32 → Parser α} :
    outcomeOf (getNextNum delim >>= fun o => orInvalid o >>= f) s n = (.ok a, k) ↔
      ∃ v, (token delim maxStringLen s).1.bind numOf = some v ∧
        outcomeOf (f v) (token delim maxStringLen s).2 n = (.ok a, k) := by
  rw [outcomeOf_getNextNum]
  exact outcomeOf_orInvalid_iff

end Tokens

theorem blank_notMem_of_nameEq {w name : CStr} (hname : ∀ c ∈ name, c.toUpper ≠ nul)
    (hw : isWord blanks maxStringLen w = true) (h : nameEq w name = true) : ' ' ∉ name := by
  intro hblank
  obtain ⟨d, hd, hupper⟩ := exists_toUpper_eq hname (Nat.le_succ _) h hblank
  have hd' : d = ' ' := by
    rcases toUpper_cases d with heq | ⟨hnum, hge, -⟩
    · exact heq ▸ hupper
    · rw [hupper] at hnum
      have hspace : (Char.toUpper ' ').toNat = 32 := rfl
      omega
  exact ((isWord_iff.mp hw).2.2 d hd).2 (by rw [hd']; decide)

section Tables

variable {α : Type} {all : List α} {name : α → CStr}

theorem mem_of_findName {w : CStr} {x : α} (h : findName all name w = some x) : x ∈ all := List.mem_of_find?_eq_some h

theorem nameEq_of_findName {w : CStr} {x : α} (h : findName all name w = some x) : nameEq w (name x) = true :=
  List.find?_some (p := fun x => nameEq w (name x)) h

variable [DecidableEq α]

/-- The names of the table are words that stand for their own entries. -/
def readsBack (all : List α) (name : α → CStr) : Bool :=
  all.all fun x => decide (findName all name (name x) = some x) && isWord blanks maxStringLen (name x)

theorem findName_name (h : readsBack all name = true) {x : α} (hx : x ∈ all) : findName all name (name x) = some x := by
  have hx := List.all_eq_true.mp h x hx
  rw [Bool.and_eq_true, decide_eq_true_eq] at hx
  exact hx.1

theorem isWord_name (h : readsBack all name = true) {x : α} (hx : x ∈ all) :
    isWord blanks maxStringLen (name x) = true := by
  have hx := List.all_eq_true.mp h x hx
  rw [Bool.and_eq_true] at hx
  exact hx.2

end Tables

end Sdp
