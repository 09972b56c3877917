import Ikran.Sdp.Crypto

/-!
# The syntax checks of values

`sdp_validate_maxprate`, and the loops of `verify_sdescriptions_lifetime` and `verify_sdescriptions_mki`, with the
grammars in the comments above them.
-/

namespace Sdp

open CStr

/-- The loop of `verify_sdescriptions_lifetime`, with the length check behind it. -/
def lifetimeLoop (buf : CStr) (tokenFound : Bool) : CStr → Bool
  | [] => !(tokenFound && buf.length ≤ 2)
  | c :: ptr =>
    if c = '^' then
      if tokenFound then false
      else if buf.peek ≠ '2' ∨ CStr.peek buf.tail ≠ '^' then false
      else lifetimeLoop buf true ptr
    else if !c.isDigit then false
    else lifetimeLoop buf tokenFound ptr

/-- `verify_sdescriptions_lifetime`. -/
def verifyLifetime (buf : CStr) : Bool := buf ≠ [] && lifetimeLoop buf false buf

/-- The loop up to the colon: `mkiValBuf`, and `ptr`. -/
def mkiValueLoop (mkiValBuf : CStr) : CStr → Option (CStr × CStr)
  | [] => some (mkiValBuf, [])
  | c :: ptr =>
    if c = ':' then some (mkiValBuf, ptr)
    else if c.isDigit ∧ mkiValBuf.length < 4 - 1 then mkiValueLoop (mkiValBuf ++ [c]) ptr
    else none

/-- The loop over the length: `mkiLenBuf`. -/
def mkiLenLoop (mkiLenBuf : CStr) : CStr → Option CStr
  | [] => some mkiLenBuf
  | c :: ptr => if c.isDigit ∧ mkiLenBuf.length < 3 then mkiLenLoop (mkiLenBuf ++ [c]) ptr else none

/-- `verify_sdescriptions_mki`: `mkiVal` and `mkiLen`. The copy has room for the value with its terminator. -/
def verifyMki (buf : CStr) : Option (CStr × UInt16) :=
  if !buf.peek.isDigit then none
  else
    match mkiValueLoop [] buf with
    | none => none
    | some (mkiValBuf, ptr) =>
      if ptr = [] then none
      else
        (mkiLenLoop [] ptr).bind fun mkiLenBuf =>
          let mkiLen := UInt16.ofInt (atoi mkiLenBuf)
          if 0 < mkiLen ∧ mkiLen ≤ 128 then some (mkiValBuf, mkiLen) else none

/-- `1*DIGIT`. -/
def IsDigitRun (s : CStr) : Prop := s ≠ [] ∧ ∀ c ∈ s, c.isDigit = true

/-- `1*DIGIT ["." 1*DIGIT]`. -/
def IsRate (s : CStr) : Prop := IsDigitRun s ∨ ∃ a b, IsDigitRun a ∧ IsDigitRun b ∧ s = a ++ '.' :: b

/-- `["2^"] 1*DIGIT`. -/
def IsLifetime (s : CStr) : Prop := IsDigitRun s ∨ ∃ digits, IsDigitRun digits ∧ s = '2' :: '^' :: digits

/-- `1*DIGIT ":" 1*3DIGIT`, with a length in `1..128` and a value that fits the buffer. -/
def IsMki (s value : CStr) (len : UInt16) : Prop :=
  ∃ length, s = value ++ ':' :: length ∧ IsDigitRun value ∧ value.length ≤ 3 ∧ IsDigitRun length ∧ length.length ≤ 3 ∧
    1 ≤ digitsVal length ∧ digitsVal length ≤ 128 ∧ len.toNat = digitsVal length

/-- Digits around a point, and none on one of its sides. -/
def EmptySide (s : CStr) : Prop :=
  ∃ a b, (∀ c ∈ a ++ b, c.isDigit = true) ∧ (a = [] ∨ b = []) ∧ s = a ++ '.' :: b

/-! ## The checks accept the grammars -/

variable {s : CStr}

theorem dropWhile_digits {a b : CStr} (ha : ∀ c ∈ a, c.isDigit = true) :
    (a ++ '.' :: b).dropWhile Char.isDigit = '.' :: b := by
  rw [List.dropWhile_append_of_pos ha]
  rfl

theorem validateMaxprate_iff (hs : nul ∉ s) : validateMaxprate s = true ↔ IsRate s ∨ EmptySide s := by
  have hpeek : ∀ {t : CStr}, (∀ c ∈ t, c ∈ s) → (t.peek = nul ↔ t = []) := fun {t} ht => by
    cases t with
    | nil => exact iff_of_true rfl rfl
    | cons c t => exact iff_of_false (fun h => hs (h ▸ ht c List.mem_cons_self)) (List.cons_ne_nil _ _)
  have hdrop : ∀ {t : CStr}, ∀ c ∈ t.dropWhile Char.isDigit, c ∈ t := fun c hc => List.dropWhile_subset _ hc
  rw [validateMaxprate, Bool.and_eq_true, bne_iff_ne, beq_iff_eq, Ne, hpeek fun _ => id]
  have hsplit := List.takeWhile_append_dropWhile (p := Char.isDigit) (l := s)
  have hfront : ∀ c ∈ s.takeWhile Char.isDigit, c.isDigit = true := fun c hc => List.mem_takeWhile_imp hc
  constructor
  · rintro ⟨hne, hend⟩
    by_cases hpoint : CStr.peek (s.dropWhile Char.isDigit) = '.'
    · rw [if_pos hpoint] at hend
      cases hrest : s.dropWhile Char.isDigit with
      | nil =>
        rw [hrest] at hpoint
        cases hpoint
      | cons c b =>
        rw [hrest, peek_cons] at hpoint
        subst hpoint
        rw [hrest, List.tail_cons, hpeek fun c hc => hdrop c (by rw [hrest]; exact List.mem_cons_of_mem _ (hdrop c hc)),
          List.dropWhile_eq_nil_iff] at hend
        rw [hrest] at hsplit
        by_cases hempty : s.takeWhile Char.isDigit = [] ∨ b = []
        · exact .inr ⟨_, b, List.forall_mem_append.mpr ⟨hfront, hend⟩, hempty, hsplit.symm⟩
        · rw [not_or] at hempty
          exact .inl (.inr ⟨_, b, ⟨hempty.1, hfront⟩, ⟨hempty.2, hend⟩, hsplit.symm⟩)
    · rw [if_neg hpoint, hpeek hdrop, List.dropWhile_eq_nil_iff] at hend
      exact .inl (.inl ⟨hne, hend⟩)
  · have haccept : ∀ a b : CStr, (∀ c ∈ a, c.isDigit = true) → (∀ c ∈ b, c.isDigit = true) → s = a ++ '.' :: b →
        ¬ s = [] ∧ CStr.peek (if CStr.peek (s.dropWhile Char.isDigit) = '.' then
          (s.dropWhile Char.isDigit).tail.dropWhile Char.isDigit else s.dropWhile Char.isDigit) = nul := by
      rintro a b ha hb rfl
      rw [dropWhile_digits ha, if_pos (peek_cons '.' b), List.tail_cons, List.dropWhile_eq_nil_iff.mpr hb]
      exact ⟨by simp, rfl⟩
    rintro ((⟨hne, hdigits⟩ | ⟨a, b, ha, hb, heq⟩) | ⟨a, b, hab, -, heq⟩)
    · rw [List.dropWhile_eq_nil_iff.mpr hdigits]
      exact ⟨hne, rfl⟩
    · exact haccept a b ha.2 hb.2 heq
    · rw [List.forall_mem_append] at hab
      exact haccept a b hab.1 hab.2 heq

theorem not_emptySide_of_isRate (h : IsRate s) : ¬ EmptySide s := by
  rintro ⟨a, b, hab, hempty, rfl⟩
  rw [List.forall_mem_append] at hab
  rcases h with ⟨-, hdigits⟩ | ⟨a', b', ha', hb', heq⟩
  · cases hdigits '.' (by simp)
  · have hdrop := congrArg (List.dropWhile Char.isDigit) heq
    rw [dropWhile_digits hab.1, dropWhile_digits ha'.2] at hdrop
    obtain ⟨-, rfl⟩ := List.cons.inj hdrop
    rw [List.append_left_inj] at heq
    subst heq
    exact hempty.elim ha'.1 hb'.1

theorem lifetimeLoop_true (buf ptr : CStr) : lifetimeLoop buf true ptr = (2 < buf.length && ptr.all Char.isDigit) := by
  induction ptr with
  | nil =>
    rw [lifetimeLoop, Bool.true_and, List.all_nil, Bool.and_true, ← decide_not, decide_eq_decide, not_le]
  | cons c ptr ih =>
    rw [lifetimeLoop, List.all_cons]
    by_cases hc : c = '^'
    · subst hc
      simp [show ('^').isDigit = false from rfl]
    · rw [if_neg hc]
      cases hdigit : c.isDigit with
      | false => simp
      | true => simpa using ih

/-- A circumflex is refused when it is not the second character, behind a two. -/
theorem lifetimeLoop_false {buf : CStr} (hbuf : ¬ (buf.peek = '2' ∧ CStr.peek buf.tail = '^')) (ptr : CStr) :
    lifetimeLoop buf false ptr = ptr.all Char.isDigit := by
  induction ptr with
  | nil => rfl
  | cons c ptr ih =>
    rw [lifetimeLoop, List.all_cons, ih]
    by_cases hc : c = '^'
    · subst hc
      rw [if_pos rfl, if_neg Bool.false_ne_true, if_pos (not_and_or.mp hbuf)]
      rfl
    · rw [if_neg hc]
      cases c.isDigit <;> rfl

theorem verifyLifetime_iff : verifyLifetime s = true ↔ IsLifetime s := by
  rw [verifyLifetime, Bool.and_eq_true, decide_eq_true_eq, IsLifetime]
  by_cases hbuf : s.peek = '2' ∧ CStr.peek s.tail = '^'
  · obtain ⟨digits, rfl⟩ : ∃ digits, s = '2' :: '^' :: digits := by
      obtain _ | ⟨c, _ | ⟨d, s⟩⟩ := s
      · exact absurd hbuf.1 (by decide)
      · cases hbuf.2
      · exact ⟨s, by rw [← hbuf.1, ← hbuf.2]; rfl⟩
    have hloop : lifetimeLoop ('2' :: '^' :: digits) false ('2' :: '^' :: digits) =
        lifetimeLoop ('2' :: '^' :: digits) true digits := rfl
    rw [hloop, lifetimeLoop_true, Bool.and_eq_true, decide_eq_true_eq, List.all_eq_true]
    constructor
    · rintro ⟨-, hlen, hdigits⟩
      exact .inr ⟨digits, ⟨fun hnil => by simp [hnil] at hlen, hdigits⟩, rfl⟩
    · rintro (⟨-, hdigits⟩ | ⟨digits', ⟨hne, hdigits⟩, heq⟩)
      · cases hdigits '^' (by simp)
      · obtain rfl := (List.cons.inj (List.cons.inj heq).2).2
        exact ⟨List.cons_ne_nil _ _, by have := List.length_pos_of_ne_nil hne; simp; omega, hdigits⟩
  · rw [lifetimeLoop_false hbuf, List.all_eq_true]
    refine (or_iff_left ?_).symm
    rintro ⟨digits, -, rfl⟩
    exact hbuf ⟨rfl, rfl⟩

theorem mkiValueLoop_eq {acc : CStr} (hacc : acc.length ≤ 3) : mkiValueLoop acc s =
    if acc.length + (s.takeWhile Char.isDigit).length ≤ 3 ∧
        (s.dropWhile Char.isDigit = [] ∨ CStr.peek (s.dropWhile Char.isDigit) = ':') then
      some (acc ++ s.takeWhile Char.isDigit, (s.dropWhile Char.isDigit).tail)
    else none := by
  induction s generalizing acc with
  | nil => simp [mkiValueLoop, hacc]
  | cons c s ih =>
    rw [mkiValueLoop]
    by_cases hcolon : c = ':'
    · subst hcolon
      simp [show (':').isDigit = false from rfl, hacc]
    · rw [if_neg hcolon]
      by_cases hdigit : c.isDigit = true
      · rw [List.takeWhile_cons_of_pos hdigit, List.dropWhile_cons_of_pos hdigit, List.length_cons]
        by_cases hroom : acc.length < 4 - 1
        · rw [if_pos ⟨hdigit, hroom⟩, ih (by simp; omega), List.length_append, List.length_singleton, Nat.add_assoc,
            Nat.add_comm 1, List.append_assoc]
          rfl
        · rw [if_neg fun h => hroom h.2, if_neg fun h => hroom (by omega)]
      · rw [if_neg fun h => hdigit h.1, List.dropWhile_cons_of_neg hdigit]
        simp [hcolon]

theorem mkiLenLoop_eq {acc : CStr} (hacc : acc.length ≤ 3) : mkiLenLoop acc s =
    if s.all Char.isDigit ∧ acc.length + s.length ≤ 3 then some (acc ++ s) else none := by
  induction s generalizing acc with
  | nil => simp [mkiLenLoop, hacc]
  | cons c s ih =>
    rw [mkiLenLoop, List.all_cons, List.length_cons]
    by_cases hdigit : c.isDigit = true ∧ acc.length < 3
    · rw [if_pos hdigit, ih (by simp; omega), hdigit.1, List.length_append, List.length_singleton, Nat.add_assoc,
        Nat.add_comm 1, List.append_assoc]
      rfl
    · rw [if_neg hdigit, if_neg fun h => hdigit ⟨(Bool.and_eq_true_iff.mp h.1).1, by omega⟩]

theorem mkiLen_iff {length : CStr} (hne : length ≠ []) (hdigits : ∀ c ∈ length, c.isDigit = true)
    (hlen : length.length ≤ 3) : UInt16.ofInt (atoi length) = UInt16.ofNat (digitsVal length) ∧
      (0 < UInt16.ofNat (digitsVal length) ∧ UInt16.ofNat (digitsVal length) ≤ 128 ↔
        0 < digitsVal length ∧ digitsVal length ≤ 128) := by
  have hlt : digitsVal length < 1000 := lt_of_lt_of_le (digitsVal_lt hdigits) (Nat.pow_le_pow_right (by decide) hlen)
  have hnat : (UInt16.ofNat (digitsVal length)).toNat = digitsVal length := by
    rw [UInt16.toNat_ofNat']
    omega
  have hint : UInt16.ofInt (digitsVal length : ℤ) = UInt16.ofNat (digitsVal length) := by
    refine UInt16.toNat_inj.mp ?_
    rw [UInt16.ofInt, hnat, UInt16.toNat_ofNat']
    omega
  rw [atoi_digits hne hdigits (by omega), hint, UInt16.lt_iff_toNat_lt, UInt16.le_iff_toNat_le, hnat]
  exact ⟨rfl, Iff.rfl⟩

theorem verifyMki_eq : verifyMki s = verifySdescriptionsMki s := by
  rw [verifyMki, verifySdescriptionsMki, @mkiValueLoop_eq s [] (Nat.zero_le 3)]
  generalize s.takeWhile Char.isDigit = value
  generalize s.dropWhile Char.isDigit = rest
  by_cases hpeek : s.peek.isDigit = true
  case neg => simp [hpeek]
  by_cases hvalue : value.length ≤ 3
  case neg => simp [hpeek, hvalue]
  obtain _ | ⟨c, length⟩ := rest
  · simp [hpeek, hvalue, show nul ≠ ':' by decide]
  by_cases hcolon : c = ':'
  case neg => simp [hpeek, hvalue, hcolon]
  subst hcolon
  by_cases hne : length = []
  · simp [hpeek, hvalue, hne]
  have hloop := @mkiLenLoop_eq length [] (Nat.zero_le 3)
  rw [List.length_nil, Nat.zero_add, List.nil_append] at hloop
  by_cases hlength : length.all Char.isDigit = true ∧ length.length ≤ 3
  · obtain ⟨hatoi, hrange⟩ := mkiLen_iff hne (List.all_eq_true.mp hlength.1) hlength.2
    rw [if_pos hlength] at hloop
    simp [hpeek, hvalue, hne, hloop, hlength, hatoi, hrange]
  · rw [if_neg hlength] at hloop
    rw [not_and_or] at hlength
    rcases hlength with h | h <;> simp [hpeek, hvalue, hne, hloop, h]

theorem verifyMki_iff {value : CStr} {len : UInt16} : verifyMki s = some (value, len) ↔ IsMki s value len := by
  rw [verifyMki_eq, verifySdescriptionsMki]
  constructor
  · intro h
    split_ifs at h with hcond
    obtain ⟨hpeek, hlen, hcolon, hne, hlength, hdigits, hpos, hle⟩ := hcond
    obtain ⟨rfl, rfl⟩ := Prod.mk.inj (Option.some.inj h)
    have hsplit := List.takeWhile_append_dropWhile (p := Char.isDigit) (l := s)
    have hvalue : s.takeWhile Char.isDigit ≠ [] := by
      cases s with
      | nil => exact absurd hpeek (by decide)
      | cons c s =>
        rw [peek_cons] at hpeek
        rw [List.takeWhile_cons_of_pos hpeek]
        exact List.cons_ne_nil _ _
    generalize s.dropWhile Char.isDigit = rest at *
    obtain _ | ⟨c, length⟩ := rest
    · exact absurd rfl hne
    · obtain rfl : c = ':' := hcolon
      change digitsVal length ≤ 128 at hle
      have hnat : (UInt16.ofNat (digitsVal length)).toNat = digitsVal length := by
        rw [UInt16.toNat_ofNat']
        omega
      exact ⟨length, hsplit.symm, ⟨hvalue, fun c hc => List.mem_takeWhile_imp hc⟩, hlen,
        ⟨hne, List.all_eq_true.mp hdigits⟩, hlength, hpos, hle, hnat⟩
  · rintro ⟨length, rfl, ⟨hne, hvalue⟩, hlen, ⟨hne', hdigits⟩, hlength, hpos, hle, hval⟩
    have htake : (value ++ ':' :: length).takeWhile Char.isDigit = value := by
      rw [List.takeWhile_append_of_pos hvalue]
      exact List.append_nil _
    have hdrop : (value ++ ':' :: length).dropWhile Char.isDigit = ':' :: length := by
      rw [List.dropWhile_append_of_pos hvalue]
      rfl
    have hpeek : (value ++ ':' :: length).peek.isDigit = true := by
      obtain ⟨c, rest, rfl⟩ := List.exists_cons_of_ne_nil hne
      exact hvalue c List.mem_cons_self
    rw [htake, hdrop, if_pos ⟨hpeek, hlen, rfl, hne', hlength, List.all_eq_true.mpr hdigits, hpos, hle⟩, List.tail_cons,
      ← hval, UInt16.ofNat_toNat]

/-- **The checks accept the documented grammars**, but for the packet rate, where a side of the point can be empty. -/
theorem validators_iff (hs : nul ∉ s) :
    ((validateMaxprate s = true ↔ IsRate s) ↔ ¬ EmptySide s) ∧ (verifyLifetime s = true ↔ IsLifetime s) ∧
      ∀ value len, verifyMki s = some (value, len) ↔ IsMki s value len := by
  refine ⟨?_, verifyLifetime_iff, fun _ _ => verifyMki_iff⟩
  rw [validateMaxprate_iff hs]
  constructor
  · exact fun h hempty => not_emptySide_of_isRate (h.mp (.inr hempty)) hempty
  · exact fun h => or_iff_left h

/-- Two numbers around a point. -/
theorem validators_decimal : ((validateMaxprate "29.97" = true ↔ IsRate "29.97") ↔ ¬ EmptySide "29.97") ∧
    (verifyLifetime "29.97" = true ↔ IsLifetime "29.97") ∧
      ∀ value len, verifyMki "29.97" = some (value, len) ↔ IsMki "29.97" value len :=
  validators_iff (by decide)

/-- A point alone is taken for a rate. -/
theorem not_isRate_point : ¬ (validateMaxprate "." = true ↔ IsRate ".") := by
  intro h
  exact not_emptySide_of_isRate (h.mp rfl) ⟨[], [], List.forall_mem_nil _, .inl rfl, rfl⟩

end Sdp
