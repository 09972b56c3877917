import Mathlib.Data.List.FinRange

/-!
# Tables of fixed size

A table of blocks with a fixed number of places, searched from the front. A place is taken by writing
over it, and given back by writing the free block over it.
-/

namespace Pool

variable {n : ℕ}

def first (p : Fin n → Bool) : Option (Fin n) :=
  (List.finRange n).find? p

variable {p : Fin n → Bool} {i : Fin n}

theorem of_first (h : first p = some i) : p i = true := List.find?_some h

theorem first_eq_none_iff : first p = none ↔ ∀ i, p i = false := by
  simp [first]

theorem isSome_first_iff : (first p).isSome = true ↔ ∃ i, p i = true := by
  rw [← Option.not_isNone, Bool.not_eq_true', ← Bool.not_eq_true, Option.isNone_iff_eq_none, first_eq_none_iff]
  simp

theorem first_eq_some (h : first p = some i) : p i = true ∧ ∀ j < i, p j = false := by
  refine ⟨of_first h, fun j hj => ?_⟩
  obtain ⟨-, as, bs, hsplit, hall⟩ := List.find?_eq_some_iff_append.mp h
  -- the places in front of the one found are the smaller numbers
  have hsorted : (as ++ i :: bs).Pairwise (· < ·) := hsplit ▸ List.pairwise_lt_finRange n
  have hmem : j ∈ as ++ i :: bs := hsplit ▸ List.mem_finRange j
  rcases List.mem_append.mp hmem with has | hrest
  · simpa using hall j has
  · rcases List.mem_cons.mp hrest with rfl | hbs
    · exact absurd hj (lt_irrefl _)
    · have hlt := (List.pairwise_append.mp hsorted).2.1
      exact absurd ((List.pairwise_cons.mp hlt).1 j hbs) (not_lt.mpr hj.le)

variable {q : Fin n → Bool}

theorem first_congr (h : ∀ i, p i = q i) : first p = first q := by
  rw [funext h]

theorem first_eq_of_unique (hi : p i = true) (hunique : ∀ j, p j = true → j = i) : first p = some i := by
  obtain ⟨j, hj⟩ := Option.isSome_iff_exists.mp (isSome_first_iff.mpr ⟨i, hi⟩)
  rw [hj, hunique j (of_first hj)]

/-- How many places pass the test. -/
def count (p : Fin n → Bool) : ℕ :=
  (List.finRange n).countP p

theorem countP_eq_succ {α : Type*} {p q : α → Bool} {a : α} {l : List α} (hnodup : l.Nodup) (ha : a ∈ l)
    (hp : p a = false) (hq : q a = true) (hsame : ∀ b, b ≠ a → q b = p b) : l.countP q = l.countP p + 1 := by
  obtain ⟨front, back, rfl⟩ := List.append_of_mem ha
  have hmem : a ∉ front ++ back := (List.nodup_middle.mp hnodup).notMem
  have hrest : ∀ b ∈ front ++ back, q b = p b := fun b hb => hsame b fun heq => hmem (heq ▸ hb)
  have hfront : front.countP q = front.countP p :=
    List.countP_congr fun b hb => by rw [hrest b (List.mem_append_left _ hb)]
  have hback : back.countP q = back.countP p :=
    List.countP_congr fun b hb => by rw [hrest b (List.mem_append_right _ hb)]
  rw [List.countP_append, List.countP_append, List.countP_cons_of_pos hq, List.countP_cons_of_neg (by simp [hp]),
    hfront, hback]
  omega

theorem count_set (hp : p i = false) (hq : q i = true) (hsame : ∀ j, j ≠ i → q j = p j) : count q = count p + 1 :=
  countP_eq_succ (List.nodup_finRange n) (List.mem_finRange i) hp hq hsame

theorem count_clear (hp : p i = true) (hq : q i = false) (hsame : ∀ j, j ≠ i → q j = p j) : count q = count p - 1 := by
  rw [count_set hq hp fun j hj => (hsame j hj).symm]
  rfl

theorem count_eq_zero (hp : ∀ i, p i = false) : count p = 0 := List.countP_eq_zero.mpr fun i _ => by simp [hp i]

/-- The first live place of a list that passes the test, among the first `k` live ones. -/
def firstLiveIn (live p : Fin n → Bool) : List (Fin n) → ℕ → Option (Fin n)
  | [], _ => none
  | i :: is, k =>
    if k = 0 then none
    else if live i then if p i then some i else firstLiveIn live p is (k - 1)
    else firstLiveIn live p is k

/-- The first live place that passes the test, among the first `k` live ones. -/
def firstLive (live p : Fin n → Bool) (k : ℕ) : Option (Fin n) :=
  firstLiveIn live p (List.finRange n) k

variable {live : Fin n → Bool}

theorem firstLiveIn_eq_find {is : List (Fin n)} {k : ℕ} (h : is.countP live ≤ k) :
    firstLiveIn live p is k = is.find? fun i => live i && p i := by
  induction is generalizing k with
  | nil => rfl
  | cons i is ih =>
    rw [firstLiveIn, List.find?_cons]
    by_cases hlive : live i = true
    · rw [List.countP_cons_of_pos hlive] at h
      have hk : k ≠ 0 := by omega
      rw [if_neg hk, if_pos hlive, hlive, Bool.true_and, ih (by omega)]
      cases p i <;> rfl
    · rw [List.countP_cons_of_neg hlive] at h
      rw [Bool.not_eq_true] at hlive
      by_cases hk : k = 0
      · -- nothing behind is live
        subst hk
        have hnone : is.find? (fun i => live i && p i) = none :=
          List.find?_eq_none.mpr fun j hj => by
            simp [List.countP_eq_zero.mp (Nat.le_zero.mp h) j hj]
        simp [hlive, hnone]
      · simp [hlive, hk, ih h]

theorem firstLive_eq_first {k : ℕ} (h : count live ≤ k) : firstLive live p k = first fun i => live i && p i :=
  firstLiveIn_eq_find h

theorem of_firstLiveIn {is : List (Fin n)} {k : ℕ}
    (h : firstLiveIn live p is k = some i) : live i = true ∧ p i = true := by
  induction is generalizing k with
  | nil => exact (nomatch h)
  | cons j is ih =>
    rw [firstLiveIn] at h
    split_ifs at h with hk hlive hp
    · obtain rfl := Option.some.inj h
      exact ⟨hlive, hp⟩
    · exact ih h
    · exact ih h

theorem live_of_firstLive {k : ℕ} (h : firstLive live p k = some i) : live i = true := (of_firstLiveIn h).1

/-- The first number that passes the test, of as many as given from a number on. -/
def firstFrom (p : ℕ → Bool) : ℕ → ℕ → Option ℕ
  | 0, _ => none
  | n + 1, i => if p i then some i else firstFrom p n (i + 1)

theorem firstFrom_spec (p : ℕ → Bool) (n i : ℕ) :
    (∃ j, firstFrom p n i = some j ∧ i ≤ j ∧ j < i + n ∧ p j = true ∧ ∀ k, i ≤ k → k < j → p k = false) ∨
      firstFrom p n i = none ∧ ∀ k, i ≤ k → k < i + n → p k = false := by
  induction n generalizing i with
  | zero => exact Or.inr ⟨rfl, fun k hk hlt => absurd hlt hk.not_gt⟩
  | succ n ih =>
    rw [firstFrom]
    cases hi : p i with
    | true => exact Or.inl ⟨i, if_pos rfl, le_rfl, by omega, hi, fun k hk hlt => absurd hlt hk.not_gt⟩
    | false =>
      rw [if_neg Bool.false_ne_true]
      have hfirst {k : ℕ} (hk : i ≤ k) (h : i + 1 ≤ k → p k = false) : p k = false :=
        (Nat.eq_or_lt_of_le hk).elim (fun heq => heq ▸ hi) h
      obtain ⟨j, hj, hle, hlt, hp, hbefore⟩ | ⟨hnone, hall⟩ := ih (i + 1)
      · exact Or.inl ⟨j, hj, by omega, by omega, hp, fun k hk hkj => hfirst hk fun hk => hbefore k hk hkj⟩
      · exact Or.inr ⟨hnone, fun k hk hlt => hfirst hk fun hk => hall k hk (by omega)⟩

end Pool
