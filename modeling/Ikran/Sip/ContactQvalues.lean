import Ikran.Sip.Contact
import Mathlib.Tactic.Linarith
import Mathlib.Tactic.Positivity
import Mathlib.Tactic.Ring

/-!
# q values

A q value is a number, but the reader compares texts. The texts follow the numbers: of two different numbers the
larger has the larger text. Texts of one number differ in the zeros behind, and a text that goes on with a comma is
larger than itself.
-/

namespace Sip

open CStr Insertion

/-- The number of digits behind a point. -/
def fraction : CStr → ℚ
  | [] => 0
  | c :: s => ((c.toNat - '0'.toNat : ℕ) + fraction s) / 10

/-- The number that a q value is; none for an empty text. -/
def qvalue : CStr → WithBot ℚ
  | [] => ⊥
  | c :: s => (((c.toNat - '0'.toNat : ℕ) + fraction s.tail : ℚ) : WithBot ℚ)

def IsDigits (s : CStr) : Prop := ∀ c ∈ s, c.isDigit = true

/-- What may stand behind a q value that is compared: nothing, or a comma. -/
def IsCommaTail (t : CStr) : Prop := t = [] ∨ ∃ m, t = ',' :: m

theorem toNat_of_isDigit {c : Char} (hc : c.isDigit = true) : 48 ≤ c.toNat ∧ c.toNat ≤ 57 := by
  simp only [Char.isDigit, Bool.and_eq_true, decide_eq_true_eq, ge_iff_le, UInt32.le_iff_toNat_le] at hc
  exact hc

theorem fraction_bounds {s : CStr} (hs : IsDigits s) : 0 ≤ fraction s ∧ fraction s < 1 := by
  induction s with
  | nil => exact ⟨le_rfl, by norm_num [fraction]⟩
  | cons c s ih =>
    obtain ⟨hnonneg, hlt⟩ := ih fun d hd => hs d (List.mem_cons_of_mem c hd)
    obtain ⟨-, hle⟩ := toNat_of_isDigit (hs c List.mem_cons_self)
    have hdigit : ((c.toNat - '0'.toNat : ℕ) : ℚ) ≤ 9 := by
      have hnine : c.toNat - '0'.toNat ≤ 9 := by
        have hzero : '0'.toNat = 48 := rfl
        omega
      exact_mod_cast hnine
    rw [fraction]
    constructor
    · positivity
    · rw [div_lt_one (by norm_num)]
      linarith

theorem lt_iff_toNat {c d : Char} (hc : c.isDigit = true) (hd : d.isDigit = true) :
    c < d ↔ c.toNat - '0'.toNat < d.toNat - '0'.toNat := by
  have hzero : '0'.toNat = 48 := rfl
  have hc := toNat_of_isDigit hc
  have hd := toNat_of_isDigit hd
  rw [Char.lt_def, UInt32.lt_iff_toNat_lt]
  change c.toNat < d.toNat ↔ _
  omega

theorem toNat_succ_le {c d : Char} (hc : c.isDigit = true) (hd : d.isDigit = true) (hne : c ≠ d)
    (hnot : ¬d.toNat - '0'.toNat < c.toNat - '0'.toNat) :
    ((c.toNat - '0'.toNat : ℕ) : ℚ) + 1 ≤ (d.toNat - '0'.toNat : ℕ) := by
  have hzero : '0'.toNat = 48 := rfl
  have hdiff : c.toNat ≠ d.toNat := fun hsame => hne (Char.ext (UInt32.toNat_inj.mp hsame))
  have hc48 := toNat_of_isDigit hc
  have hd48 := toNat_of_isDigit hd
  have hsucc : c.toNat - '0'.toNat + 1 ≤ d.toNat - '0'.toNat := by omega
  exact_mod_cast hsucc

/-- The comparison of digits follows the numbers, also with a comma behind the first text. -/
theorem strcmpGt_fraction {s t : CStr} (hs : IsDigits s) (ht : IsDigits t) {tail : CStr} (htail : IsCommaTail tail) :
    (fraction t < fraction s → strcmpGt (s ++ tail) t = true) ∧
      (strcmpGt (s ++ tail) t = true → fraction t ≤ fraction s) := by
  induction s generalizing t with
  | nil =>
    obtain ⟨hnonneg, -⟩ := fraction_bounds ht
    refine ⟨fun hlt => absurd hlt (not_lt.mpr hnonneg), fun h => ?_⟩
    rw [List.nil_append] at h
    cases t with
    | nil => exact le_rfl
    | cons d t =>
      -- a comma is below every digit
      rcases htail with rfl | ⟨m, rfl⟩
      · cases h
      · obtain ⟨hd, -⟩ := toNat_of_isDigit (ht d List.mem_cons_self)
        rw [strcmpGt] at h
        split_ifs at h with heq
        · rw [← heq] at hd
          exact absurd hd (by decide)
        · rw [decide_eq_true_eq, Char.lt_def, UInt32.lt_iff_toNat_lt] at h
          change d.toNat < 44 at h
          omega
  | cons c s ih =>
    have hc := hs c List.mem_cons_self
    have hs' : IsDigits s := fun d hd => hs d (List.mem_cons_of_mem c hd)
    obtain ⟨hsnonneg, hslt⟩ := fraction_bounds hs'
    cases t with
    | nil =>
      refine ⟨fun _ => rfl, fun _ => ?_⟩
      exact (fraction_bounds hs).1
    | cons d t =>
      have hd := ht d List.mem_cons_self
      have ht' : IsDigits t := fun e he => ht e (List.mem_cons_of_mem d he)
      obtain ⟨htnonneg, htlt⟩ := fraction_bounds ht'
      rw [List.cons_append, strcmpGt, fraction, fraction]
      by_cases heq : c = d
      · rw [if_pos heq, heq]
        obtain ⟨hlt, hle⟩ := ih hs' ht'
        refine ⟨fun h => hlt ?_, fun h => ?_⟩
        · rw [div_lt_div_iff_of_pos_right (by norm_num)] at h
          linarith
        · have hst := hle h
          rw [div_le_div_iff_of_pos_right (by norm_num)]
          linarith
      · rw [if_neg heq, decide_eq_true_eq, lt_iff_toNat hd hc]
        constructor
        · intro h
          rw [div_lt_div_iff_of_pos_right (by norm_num)] at h
          by_contra hnot
          have hsucc := toNat_succ_le hc hd heq hnot
          linarith
        · intro h
          have hcast : ((d.toNat - '0'.toNat : ℕ) : ℚ) + 1 ≤ (c.toNat - '0'.toNat : ℕ) := by exact_mod_cast h
          rw [div_le_div_iff_of_pos_right (by norm_num)]
          linarith

theorem IsQvalue.exists_eq {v : CStr} (hv : IsQvalue v) : ∃ c fractional, c.isDigit = true ∧ IsDigits fractional ∧
      (v = [c] ∧ fractional = [] ∨ fractional ≠ [] ∧ v = c :: '.' :: fractional) := by
  cases hv with
  | whole c hc =>
    refine ⟨c, [], ?_, List.forall_mem_nil _, .inl ⟨rfl, rfl⟩⟩
    rcases hc with rfl | rfl <;> rfl
  | zero digits hne hdigits => exact ⟨'0', digits, rfl, hdigits, .inr ⟨hne, rfl⟩⟩
  | one digits hne hdigits =>
    exact ⟨'1', digits, rfl, fun c hc => hdigits c hc ▸ rfl, .inr ⟨hne, rfl⟩⟩

theorem qvalue_eq {v fractional : CStr} {c : Char}
    (hv : v = [c] ∧ fractional = [] ∨ fractional ≠ [] ∧ v = c :: '.' :: fractional) :
    qvalue v = (((c.toNat - '0'.toNat : ℕ) + fraction fractional : ℚ) : WithBot ℚ) := by
  rcases hv with ⟨rfl, rfl⟩ | ⟨-, rfl⟩ <;> rfl

/-- **The comparison of q values follows the numbers**, also with a comma behind the first text. -/
theorem strcmpGt_qvalue {v w tail : CStr} (hv : IsQvalue v) (hw : IsQvalue w) (htail : IsCommaTail tail) :
    (qvalue w < qvalue v → strcmpGt (v ++ tail) w = true) ∧ (strcmpGt (v ++ tail) w = true → qvalue w ≤ qvalue v) := by
  obtain ⟨c, f, hc, hf, hv⟩ := hv.exists_eq
  obtain ⟨d, g, hd, hg, hw⟩ := hw.exists_eq
  obtain ⟨hfnonneg, hflt⟩ := fraction_bounds hf
  obtain ⟨hgnonneg, hglt⟩ := fraction_bounds hg
  rw [qvalue_eq hv, qvalue_eq hw, WithBot.coe_lt_coe, WithBot.coe_le_coe]
  obtain ⟨s, hvs⟩ : ∃ s, v = c :: s := by
    rcases hv with ⟨rfl, -⟩ | ⟨-, rfl⟩
    · exact ⟨[], rfl⟩
    · exact ⟨_, rfl⟩
  obtain ⟨t, hwt⟩ : ∃ t, w = d :: t := by
    rcases hw with ⟨rfl, -⟩ | ⟨-, rfl⟩
    · exact ⟨[], rfl⟩
    · exact ⟨_, rfl⟩
  by_cases heq : c = d
  · -- the first digits are equal, and those behind the point decide
    subst heq
    have hrest : (fraction g < fraction f → strcmpGt (s ++ tail) t = true) ∧
        (strcmpGt (s ++ tail) t = true → fraction g ≤ fraction f) := by
      rcases hv with ⟨rfl, rfl⟩ | ⟨hfne, rfl⟩
      · obtain rfl := (List.cons.inj hvs).2
        refine ⟨fun h => absurd h (not_lt.mpr hgnonneg), fun h => ?_⟩
        rcases hw with ⟨rfl, rfl⟩ | ⟨-, rfl⟩
        · exact le_rfl
        · obtain rfl := (List.cons.inj hwt).2
          -- neither nothing nor a comma is above a point
          rcases htail with rfl | ⟨m, rfl⟩
          · cases h
          · rw [List.nil_append, strcmpGt, if_neg (by decide)] at h
            exact absurd h (by decide)
      · obtain rfl := (List.cons.inj hvs).2
        rcases hw with ⟨rfl, rfl⟩ | ⟨-, rfl⟩
        · obtain rfl := (List.cons.inj hwt).2
          exact ⟨fun _ => rfl, fun _ => hfnonneg⟩
        · obtain rfl := (List.cons.inj hwt).2
          rw [List.cons_append, strcmpGt, if_pos rfl]
          exact strcmpGt_fraction hf hg htail
    rw [hvs, hwt, List.cons_append, strcmpGt, if_pos rfl, add_lt_add_iff_left, add_le_add_iff_left]
    exact hrest
  · rw [hvs, hwt, List.cons_append, strcmpGt, if_neg heq, decide_eq_true_eq, lt_iff_toNat hd hc]
    constructor
    · intro h
      by_contra hnot
      have hsucc := toNat_succ_le hc hd heq hnot
      linarith
    · intro h
      have hcast : ((d.toNat - '0'.toNat : ℕ) : ℚ) + 1 ≤ (c.toNat - '0'.toNat : ℕ) := by exact_mod_cast h
      linarith

/-! ## The locations -/

section

variable {TelUrl : Type}

/-- The q value of a location is empty, or has its form and goes on with a comma or nothing. -/
def ContactEntry.HasQval (e : ContactEntry TelUrl) : Prop :=
  e.params.qval.getD [] = [] ∨ ∃ v tail, IsQvalue v ∧ IsCommaTail tail ∧ e.params.qval = some (v ++ tail)

/-- The rank of a location: the number of its q value. -/
def ContactEntry.rank (e : ContactEntry TelUrl) : WithBot ℚ := qvalue (e.params.qval.getD [])

theorem upToComma_append {v tail : CStr} (hv : IsQvalue v) (htail : IsCommaTail tail) : upToComma (v ++ tail) = v := by
  have hpass : ∀ c ∈ v, decide (c ≠ ',') = true := by
    intro c hc
    rw [decide_eq_true_eq]
    rintro rfl
    exact hv.comma_not_mem hc
  rw [upToComma, List.takeWhile_append_of_pos hpass]
  rcases htail with rfl | ⟨m, rfl⟩
  · rw [List.takeWhile_nil, List.append_nil]
  · rw [List.takeWhile_cons_of_neg (by decide), List.append_nil]

theorem ContactEntry.HasQval.cases {e : ContactEntry TelUrl} (he : e.HasQval) :
    (e.params.qval.getD [] = [] ∧ e.cut.params.qval.getD [] = []) ∨
      ∃ v tail, IsQvalue v ∧ IsCommaTail tail ∧ e.params.qval.getD [] = v ++ tail ∧ e.cut.params.qval.getD [] = v := by
  rcases he with hnil | ⟨v, tail, hv, htail, hqval⟩
  · refine .inl ⟨hnil, ?_⟩
    rw [cut, ContactParams.cut]
    cases hqval : e.params.qval with
    | none => rfl
    | some q =>
      rw [hqval, Option.getD_some] at hnil
      rw [hnil]
      rfl
  · refine .inr ⟨v, tail, hv, htail, ?_, ?_⟩
    · rw [hqval, Option.getD_some]
    · rw [cut, ContactParams.cut, hqval]
      exact upToComma_append hv htail

theorem IsQvalue.bot_lt {v : CStr} (hv : IsQvalue v) : v ≠ [] := by
  cases hv <;> exact List.cons_ne_nil _ _

/-- **The comparison of locations respects their q values.** -/
theorem respects_higherItem {items : List (ContactEntry TelUrl)} (hitems : ∀ e ∈ items, e.HasQval) :
    Respects higherItem (fun e => e.cut.rank) items := by
  have hempty : ∀ w : CStr, strcmpGt [] w = false := fun _ => rfl
  refine ⟨fun x hx y hy hlt => ?_, fun x hx y hy habove => ?_⟩
  · rw [ContactEntry.rank, ContactEntry.rank] at hlt
    rw [higherItem, higherQval, show y.params.cut = y.cut.params from rfl]
    rcases (hitems x hx).cases with ⟨-, hcut⟩ | ⟨v, tail, hv, htail, hraw, hcut⟩
    · rw [hcut] at hlt
      exact absurd hlt not_lt_bot
    · rw [hcut] at hlt
      rw [hraw]
      rcases (hitems y hy).cases with ⟨-, hcut'⟩ | ⟨w, tail', hw, -, -, hcut'⟩
      · rw [hcut']
        obtain ⟨c, s, rfl⟩ := List.exists_cons_of_ne_nil hv.bot_lt
        rfl
      · rw [hcut'] at hlt ⊢
        exact (strcmpGt_qvalue hv hw htail).1 hlt
  · rw [higherItem, higherQval, show y.params.cut = y.cut.params from rfl] at habove
    rw [ContactEntry.rank, ContactEntry.rank]
    rcases (hitems x hx).cases with ⟨hraw, -⟩ | ⟨v, tail, hv, htail, hraw, hcut⟩
    · rw [hraw, hempty] at habove
      cases habove
    · rw [hraw] at habove
      rw [hcut]
      rcases (hitems y hy).cases with ⟨-, hcut'⟩ | ⟨w, tail', hw, -, -, hcut'⟩
      · rw [hcut']
        exact bot_le
      · rw [hcut'] at habove ⊢
        exact (strcmpGt_qvalue hv hw htail).2 habove

/-- The text behind the parameters of a location that is read is empty or begins with a comma. -/
theorem behind_of_mem_readingsLoop {inetPton6 : CStr → Bool} {parseTelUrl : CStr → Option TelUrl} {fuel : ℕ}
    {contact : CStr} {n : ℕ} {rs : List (ContactReading TelUrl)}
    (h : readingsLoop inetPton6 parseTelUrl fuel contact n = some rs) :
    ∀ r ∈ rs, ∀ text, r.text = some text →
      atComma (readContactParams text).2 = true ∨ atEnd (readContactParams text).2 = true := by
  refine readingsLoop_induction (motive := fun _ rs => ∀ r ∈ rs, ∀ text, r.text = some text →
    atComma (readContactParams text).2 = true ∨ atEnd (readContactParams text).2 = true)
    (fun _ r hr => by cases hr) (fun _ location r hr text htext => ?_)
    (fun _ location contact hbehind r hr text htext => ?_) (fun _ location contact rs hcomma _ ih r hr => ?_) h
  · obtain rfl := List.mem_singleton.mp hr
    cases htext
  · obtain rfl := List.mem_singleton.mp hr
    rwa [← behindReading_snd htext]
  · rcases List.mem_cons.mp hr with rfl | hr
    · exact fun text htext => .inl (by rwa [← behindReading_snd htext])
    · exact ih r hr

theorem hasQval_of_mem_contactItems {rs : List (ContactReading TelUrl)} (hrs : ∀ r ∈ rs, ∀ text, r.text = some text →
      atComma (readContactParams text).2 = true ∨ atEnd (readContactParams text).2 = true)
    (params : ContactParams) (n : ℕ) : ∀ e ∈ contactItems params n rs, e.HasQval := by
  induction rs generalizing params n with
  | nil =>
    intro e he
    cases he
  | cons r rs ih =>
    intro e he
    rcases List.mem_cons.mp he with rfl | he
    · rcases qval_paramsFrom r params with hnil | ⟨text, v, b, htext, hv, hb, hqval⟩
      · exact .inl hnil
      · refine .inr ⟨v, b, hv, ?_, hqval⟩
        rcases hb with rfl | hb
        · exact .inl rfl
        · rcases hrs r List.mem_cons_self text htext with hcomma | hend
          · rw [hb, atComma, Option.map_some, decide_eq_true_eq, Option.some_inj] at hcomma
            exact .inr ⟨b.tail, cons_tail_of_peek hcomma (by decide)⟩
          · rw [hb] at hend
            exact .inl (List.isEmpty_iff.mp hend)
    · exact ih (fun r' hr' => hrs r' (List.mem_cons_of_mem r hr')) _ _ e he

end

end Sip
