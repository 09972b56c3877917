import Ikran.Lib.CString
import Mathlib.Order.Lattice

/-!
# Localised texts

`ccsnap_EscapeStrToLocaleStr` of `ccapi_snapshot.c`, which replaces the escape sequences of a text by phrases of
the platform. An escape character is followed by the index of a phrase.
-/

namespace Ccapp

open CStr

abbrev maxLocaleStringLen : ℕ := 1024

abbrev maxLocalePhraseLen : ℕ := 256

def oldCucmDictionaryEscapeTag : Char := '\x80'

def newCucmDictionaryEscapeTag : Char := '\x1e'

/-- The value of a `char`. -/
def charValue (c : Char) : ℤ :=
  if c.toNat < 128 then c.toNat else c.toNat - 256

/-- The index that an escape sequence names, with `CALL_CONTROL_PHRASE_OFFSET` for an old one. -/
def phraseIndex (tag c : Char) : ℤ :=
  if tag = oldCucmDictionaryEscapeTag then 100 + charValue c else charValue c

/-- `platGetPhraseText`: the phrase of an index, cut to fit a length with its terminator, unless it fails. -/
structure PhraseTable where
  text : ℤ → ℕ → Option CStr
  fits : ∀ index len phrase, text index len = some phrase → phrase.length ≤ len - 1

/-- A character, or an escape sequence with its index, if the text does not end in front of it. -/
inductive LocaleUnit
  | plain (char : Char)
  | phrase (tag : Char) (index : Option Char)

/-- What the turns of the loop read of the source. -/
def unitsOf : CStr → List LocaleUnit
  | [] => []
  | char :: s =>
    if char = oldCucmDictionaryEscapeTag ∨ char = newCucmDictionaryEscapeTag then
      match s with
      | [] => [.phrase char none]
      | index :: s => .phrase char (some index) :: unitsOf s
    else .plain char :: unitsOf s

/-- What goes wrong. -/
inductive LocaleFault
  | overread
  | overflow

/-- The collected text, with the phrase buffers that were allocated and released. -/
structure Collector where
  text : CStr := []
  allocated : ℕ := 0
  released : ℕ := 0

/-- `sstrncat` into the collected text, where a phrase buffer is in use that is released behind it. -/
def Collector.sstrncat (c : Collector) (s : CStr) (max : ℕ) : Except LocaleFault Collector :=
  let text := c.text ++ s.take (max - 1)
  if text.length < maxLocaleStringLen then .ok { c with text, released := c.released + 1 } else .error .overflow

variable (table : PhraseTable) (memory : ℕ → Bool) (len : ℕ)

/-- The loop over the source. It is given up when there is no memory for a phrase. -/
def localeLoop : List LocaleUnit → ℕ → Collector → Except LocaleFault (Collector × Bool)
  | [], _, c => .ok (c, true)
  | u :: us, remainingLength, c =>
    if 0 < remainingLength ∧ c.text.length < len - 1 then
      if memory c.allocated = false then .ok (c, false)
      else
        let c := { c with allocated := c.allocated + 1 }
        match u with
        | .plain char =>
          (c.sstrncat [char] 2).bind fun c => localeLoop us (remainingLength - 1) c
        -- the terminator is taken for the index, and the text goes on behind it
        | .phrase _ none => .error .overread
        | .phrase tag (some index) =>
          match table.text (phraseIndex tag index) (remainingLength - 1) with
          | none => localeLoop us remainingLength { c with released := c.released + 1 }
          | some phrase =>
            (c.sstrncat phrase remainingLength).bind fun c => localeLoop us (remainingLength - 1) c
    else .ok (c, true)

/-- The length as it is used, if it is positive. -/
def localeLength (source : CStr) (len : ℤ) : Option ℕ :=
  let len := if len = -1 then (source.length : ℤ) + maxLocalePhraseLen else len
  if len ≤ 0 then none else some (min len.toNat maxLocaleStringLen)

/-- `ccsnap_EscapeStrToLocaleStr`: the text that is returned, with the phrase buffers. There is none without
memory. -/
def ccsnapEscapeStrToLocaleStr (source : CStr) (len : ℤ) : Except LocaleFault (Option CStr × Collector) :=
  if source = [] then .ok (some [], {})
  else
    match localeLength source len with
    | none => .ok (some [], {})
    | some len =>
      (localeLoop table memory len (unitsOf source) len {}).map fun (c, complete) =>
        (if complete then some (c.text.take len) else none, c)

/-- The replacement is bounded: nothing is read or written behind its end, and all phrase buffers are released. -/
def Localised (source : CStr) (len : ℤ) : Prop :=
  ∃ text c, ccsnapEscapeStrToLocaleStr table memory source len = .ok (text, c) ∧ c.released = c.allocated

/-! ## The condition -/

/-- The remaining length and the number of collected characters behind a unit. -/
def afterUnit (p : ℕ × ℕ) : LocaleUnit → ℕ × ℕ
  | .plain _ => (p.1 - 1, p.2 + 1)
  | .phrase _ none => p
  | .phrase tag (some index) =>
    (table.text (phraseIndex tag index) (p.1 - 1)).elim p fun phrase => (p.1 - 1, p.2 + phrase.length)

/-- A unit can be taken: it is not cut off, and what is collected behind it fits. -/
def Takes (p : ℕ × ℕ) (u : LocaleUnit) : Prop :=
  (∀ tag, u ≠ .phrase tag none) ∧ (afterUnit table p u).2 < maxLocaleStringLen

/-- Every unit in front of which there is length, room and memory left can be taken. -/
def UnitsFit (us : List LocaleUnit) (p : ℕ × ℕ) (allocated : ℕ) : Prop :=
  ∀ front u back, us = front ++ u :: back →
    0 < (front.foldl (afterUnit table) p).1 → (front.foldl (afterUnit table) p).2 < len - 1 →
      (∀ k ≤ front.length, memory (allocated + k) = true) → Takes table (front.foldl (afterUnit table) p) u

variable {table memory len}

theorem foldl_afterUnit (us : List LocaleUnit) (p : ℕ × ℕ) :
    (us.foldl (afterUnit table) p).1 ≤ p.1 ∧ p.2 ≤ (us.foldl (afterUnit table) p).2 := by
  induction us generalizing p with
  | nil => exact ⟨le_rfl, le_rfl⟩
  | cons u us ih =>
    have hstep : (afterUnit table p u).1 ≤ p.1 ∧ p.2 ≤ (afterUnit table p u).2 := by
      rcases u with _ | ⟨tag, _ | index⟩
      · exact ⟨Nat.sub_le _ _, Nat.le_succ _⟩
      · exact ⟨le_rfl, le_rfl⟩
      · rw [afterUnit]
        cases table.text (phraseIndex tag index) (p.1 - 1) with
        | none => exact ⟨le_rfl, le_rfl⟩
        | some phrase => exact ⟨Nat.sub_le _ _, Nat.le_add_right _ _⟩
    exact ⟨(ih _).1.trans hstep.1, hstep.2.trans (ih _).2⟩

theorem unitsFit_cons {u : LocaleUnit} {us : List LocaleUnit} {p : ℕ × ℕ} {a : ℕ} :
    UnitsFit table memory len (u :: us) p a ↔ (0 < p.1 → p.2 < len - 1 → memory a = true →
      Takes table p u ∧ UnitsFit table memory len us (afterUnit table p u) (a + 1)) := by
  constructor
  · intro h hpos hlt hmem
    refine ⟨h [] u us rfl hpos hlt fun k hk => by rwa [Nat.le_zero.mp hk], fun front v back heq hpos hlt hall => ?_⟩
    refine h (u :: front) v back (by rw [heq]; rfl) hpos hlt fun k hk => ?_
    cases k with
    | zero => exact hmem
    | succ k =>
      rw [Nat.add_comm k, ← Nat.add_assoc]
      exact hall k (Nat.le_of_succ_le_succ hk)
  · rintro h (- | ⟨v, front⟩) w back heq hpos hlt hall
    · obtain ⟨rfl, rfl⟩ := List.cons.inj heq
      exact (h hpos hlt (hall 0 le_rfl)).1
    · obtain ⟨rfl, rfl⟩ := List.cons.inj heq
      have hbounds : ((u :: front).foldl (afterUnit table) p).1 ≤ p.1 ∧
          p.2 ≤ ((u :: front).foldl (afterUnit table) p).2 :=
        foldl_afterUnit (u :: front) p
      refine (h (hpos.trans_le hbounds.1) (hbounds.2.trans_lt hlt) (hall 0 (Nat.zero_le _))).2 front w back rfl hpos hlt
        fun k hk => ?_
      have hk' := hall (k + 1) (Nat.succ_le_succ hk)
      rwa [Nat.add_comm k, ← Nat.add_assoc] at hk'

/-- The loop ends without a fault exactly when its units fit, and then every phrase buffer is released. By
induction on the units. -/
theorem localeLoop_iff (hlen : len ≤ maxLocaleStringLen) (us : List LocaleUnit) (remainingLength : ℕ) (c : Collector) :
    (∃ c' complete, localeLoop table memory len us remainingLength c = .ok (c', complete) ∧
      c'.released + c.allocated = c'.allocated + c.released) ↔
        UnitsFit table memory len us (remainingLength, c.text.length) c.allocated := by
  induction us generalizing remainingLength c with
  | nil => exact iff_of_true ⟨c, true, rfl, Nat.add_comm _ _⟩ fun front u back heq => by simp at heq
  | cons u us ih =>
    -- behind a unit one more phrase buffer is allocated and released
    have hnext (c₁ : Collector) (halloc : c₁.allocated = c.allocated + 1) (hrel : c₁.released = c.released + 1)
        (rem : ℕ) : (∃ c' complete, localeLoop table memory len us rem c₁ = .ok (c', complete) ∧
          c'.released + c.allocated = c'.allocated + c.released) ↔
            UnitsFit table memory len us (rem, c₁.text.length) (c.allocated + 1) := by
      rw [← halloc, ← ih rem c₁]
      exact exists_congr fun c' => exists_congr fun _ => and_congr_right fun _ => by omega
    have hcat (s : CStr) (max rem : ℕ) (hs : s.length ≤ max - 1) :
        (∃ c' complete, ((Collector.sstrncat { c with allocated := c.allocated + 1 } s max).bind fun c =>
          localeLoop table memory len us rem c) = .ok (c', complete) ∧
            c'.released + c.allocated = c'.allocated + c.released) ↔
          c.text.length + s.length < maxLocaleStringLen ∧
            UnitsFit table memory len us (rem, c.text.length + s.length) (c.allocated + 1) := by
      rw [Collector.sstrncat, List.take_of_length_le hs, ← List.length_append]
      dsimp only
      by_cases hfit : (c.text ++ s).length < maxLocaleStringLen
      · rw [if_pos hfit, and_iff_right hfit]
        exact hnext _ rfl rfl rem
      · rw [if_neg hfit]
        exact iff_of_false (fun ⟨_, _, h, _⟩ => nomatch h) fun h => hfit h.1
    rw [unitsFit_cons, localeLoop]
    by_cases hgo : 0 < remainingLength ∧ c.text.length < len - 1
    · rw [if_pos hgo, forall_prop_of_true hgo.1, forall_prop_of_true hgo.2]
      cases hmem : memory c.allocated with
      | false =>
        rw [if_pos rfl]
        exact iff_of_true ⟨c, false, rfl, Nat.add_comm _ _⟩ nofun
      | true =>
        rw [if_neg (by decide), forall_prop_of_true rfl]
        rcases u with char | ⟨tag, _ | index⟩
        · refine (hcat [char] 2 _ le_rfl).trans (and_congr_left fun _ => ?_)
          exact (and_iff_right nofun).symm
        · exact iff_of_false (fun ⟨_, _, h, _⟩ => nomatch h) fun h => h.1.1 tag rfl
        · rw [Takes, afterUnit]
          dsimp only
          cases hphrase : table.text (phraseIndex tag index) (remainingLength - 1) with
          | none =>
            have hroom : c.text.length < maxLocaleStringLen := hgo.2.trans_le ((Nat.sub_le _ _).trans hlen)
            rw [and_iff_right ⟨nofun, hroom⟩]
            exact hnext _ rfl rfl _
          | some phrase =>
            have hfits := table.fits _ _ _ hphrase
            refine (hcat phrase _ _ (by omega)).trans (and_congr_left fun _ => ?_)
            exact (and_iff_right nofun).symm
    · rw [if_neg hgo]
      exact iff_of_true ⟨c, true, rfl, Nat.add_comm _ _⟩ fun hpos hlt => absurd ⟨hpos, hlt⟩ hgo

theorem localeLength_le {source : CStr} {l : ℤ} {n : ℕ} (h : localeLength source l = some n) :
    n ≤ maxLocaleStringLen := by
  rw [localeLength] at h
  generalize (if l = -1 then (source.length : ℤ) + maxLocalePhraseLen else l) = l' at h
  split_ifs at h
  exact Option.some.inj h ▸ min_le_right _ _

/-- **When the replacement is bounded.** Exactly when every unit in front of which there is length, room and memory
left is not cut off by the end of the source, and fits. -/
theorem localised_iff (table : PhraseTable) (memory : ℕ → Bool) (source : CStr) (len : ℤ) :
    Localised table memory source len ↔
      ∀ n, localeLength source len = some n → UnitsFit table memory n (unitsOf source) (n, 0) 0 := by
  rw [Localised, ccsnapEscapeStrToLocaleStr]
  by_cases hempty : source = []
  · rw [if_pos hempty, hempty]
    exact iff_of_true ⟨_, _, rfl, rfl⟩ fun n _ front u back heq => by simp [unitsOf] at heq
  rw [if_neg hempty]
  cases hn : localeLength source len with
  | none => exact iff_of_true ⟨_, _, rfl, rfl⟩ nofun
  | some n =>
    have hloop := @localeLoop_iff table memory n (localeLength_le hn) (unitsOf source) n {}
    rw [List.length_nil] at hloop
    dsimp only at hloop ⊢
    simp only [Option.some.injEq, forall_eq']
    rw [← hloop]
    constructor
    · rintro ⟨text, c, h, hreleased⟩
      cases hc : localeLoop table memory n (unitsOf source) n {} with
      | error fault =>
        rw [hc] at h
        exact nomatch h
      | ok r =>
        rw [hc] at h
        obtain ⟨-, rfl⟩ := Prod.mk.inj (Except.ok.inj h)
        exact ⟨r.1, r.2, rfl, hreleased⟩
    · rintro ⟨c, complete, h, hreleased⟩
      rw [h]
      exact ⟨_, c, rfl, hreleased⟩

/-- The escape character at the end of a text takes the terminator for its index. -/
theorem not_localised : ¬ Localised ⟨fun _ _ => some [], fun _ _ _ h => by cases h; exact Nat.zero_le _⟩
    (fun _ => true) [newCucmDictionaryEscapeTag] (-1) := by
  rintro ⟨text, c, h, -⟩
  exact nomatch (show Except.error LocaleFault.overread = Except.ok (text, c) from h)

end Ccapp
