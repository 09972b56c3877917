import Mathlib.Data.List.Induction
import Mathlib.Data.List.TakeWhile
import Mathlib.Order.Lattice
import Mathlib.Data.List.Pairwise

/-!
# Insertion in order

Items are inserted one by one, each in front of the first one that it is above. When the comparison respects a rank,
the items come to stand by decreasing rank; those of the same rank keep their order exactly when none of them is above
an earlier one.
-/

namespace Insertion

variable {α β : Type*} [LinearOrder β] (above : α → α → Bool) (rank : α → β)

/-- An item is inserted in front of the first one that it is above. -/
def insertAbove (x : α) (l : List α) : List α := l.takeWhile (!above x ·) ++ x :: l.dropWhile (!above x ·)

/-- The items of a list are inserted one by one. -/
def insertAll (xs : List α) : List α := xs.foldl (fun l x => insertAbove above x l) []

/-- The comparison of the items of a list respects a rank: a higher item is above a lower one, and no item is above a
higher one. -/
structure Respects (xs : List α) : Prop where
  above_of_lt : ∀ x ∈ xs, ∀ y ∈ xs, rank y < rank x → above x y = true
  le_of_above : ∀ x ∈ xs, ∀ y ∈ xs, above x y = true → rank y ≤ rank x

/-- An item comes before another: it is higher, or it is as high and stands in front of it. -/
def Before (inFront : α → α → Prop) (x y : α) : Prop := rank y < rank x ∨ rank x = rank y ∧ inFront x y

variable {above rank}

theorem insertAbove_perm (x : α) (l : List α) : (insertAbove above x l).Perm (x :: l) := by
  have hsplit : l.takeWhile (!above x ·) ++ l.dropWhile (!above x ·) = l := List.takeWhile_append_dropWhile
  have hmiddle : (insertAbove above x l).Perm (x :: (l.takeWhile (!above x ·) ++ l.dropWhile (!above x ·))) :=
    List.perm_middle
  rwa [hsplit] at hmiddle

theorem sublist_insertAbove (x : α) (l : List α) : l.Sublist (insertAbove above x l) := by
  have hsplit : l.takeWhile (!above x ·) ++ l.dropWhile (!above x ·) = l := List.takeWhile_append_dropWhile
  have hsub : (l.takeWhile (!above x ·) ++ l.dropWhile (!above x ·)).Sublist (insertAbove above x l) :=
    (List.sublist_cons_self x _).append_left _
  rwa [hsplit] at hsub

theorem insertAll_concat (xs : List α) (x : α) :
    insertAll above (xs ++ [x]) = insertAbove above x (insertAll above xs) := by
  rw [insertAll, List.foldl_append]
  rfl

/-- **No item is lost or repeated.** -/
theorem insertAll_perm (xs : List α) : (insertAll above xs).Perm xs := by
  induction xs using List.reverseRecOn with
  | nil => exact .nil
  | append_singleton xs x ih =>
    rw [insertAll_concat]
    exact (insertAbove_perm x _).trans ((ih.cons x).trans (List.perm_append_singleton x xs).symm)

/-! ## Where it is inserted -/

variable {xs l : List α}

theorem rank_le_of_mem_takeWhile (h : Respects above rank xs) {x : α} (hx : x ∈ xs)
    (hl : ∀ y ∈ l, y ∈ xs) {y : α} (hy : y ∈ l.takeWhile (!above x ·)) : rank x ≤ rank y := by
  have hnot : above x y = false := by simpa using List.mem_takeWhile_imp hy
  refine not_lt.mp fun hlt => ?_
  rw [h.above_of_lt x hx y (hl y ((List.takeWhile_prefix _).subset hy)) hlt] at hnot
  cases hnot

theorem rank_le_of_mem_dropWhile (h : Respects above rank xs) {x : α} (hx : x ∈ xs)
    (hl : ∀ y ∈ l, y ∈ xs) (hsorted : l.Pairwise fun y z => rank z ≤ rank y) {y : α}
    (hy : y ∈ l.dropWhile (!above x ·)) :
    ∃ first ∈ l, above x first = true ∧ rank y ≤ rank first ∧ rank first ≤ rank x := by
  cases hdrop : l.dropWhile (!above x ·) with
  | nil =>
    rw [hdrop] at hy
    cases hy
  | cons first rest =>
    have hsub : (first :: rest).Sublist l := hdrop ▸ List.dropWhile_sublist _
    have hfirst : above x first = true := by
      have hhead := List.head?_dropWhile_not (!above x ·) l
      rw [hdrop] at hhead
      simpa using hhead
    have hmem : first ∈ l := hsub.subset List.mem_cons_self
    refine ⟨first, hmem, hfirst, ?_, h.le_of_above x hx first (hl first hmem) hfirst⟩
    rw [hdrop] at hy
    rcases List.mem_cons.mp hy with rfl | hy
    · exact le_rfl
    · exact List.rel_of_pairwise_cons (hsorted.sublist hsub) hy

/-- **A list by decreasing rank stays one.** -/
theorem sorted_insertAbove (h : Respects above rank xs) {x : α} (hx : x ∈ xs)
    (hl : ∀ y ∈ l, y ∈ xs) (hsorted : l.Pairwise fun y z => rank z ≤ rank y) :
    (insertAbove above x l).Pairwise fun y z => rank z ≤ rank y := by
  rw [insertAbove, List.pairwise_append, List.pairwise_cons]
  refine ⟨hsorted.sublist (List.takeWhile_sublist _), ⟨fun z hz => ?_, hsorted.sublist (List.dropWhile_sublist _)⟩,
    fun y hy z hz => ?_⟩
  · obtain ⟨first, -, -, hle, hfirst⟩ := rank_le_of_mem_dropWhile h hx hl hsorted hz
    exact hle.trans hfirst
  · have hyx := rank_le_of_mem_takeWhile h hx hl hy
    rcases List.mem_cons.mp hz with rfl | hz
    · exact hyx
    · obtain ⟨first, -, -, hle, hfirst⟩ := rank_le_of_mem_dropWhile h hx hl hsorted hz
      exact (hle.trans hfirst).trans hyx

theorem mem_of_mem_insertAll {ys : List α} {y : α} (hy : y ∈ insertAll above xs) : y ∈ xs ++ ys :=
  List.mem_append_left ys ((insertAll_perm xs).subset hy)

/-- **The items stand by decreasing rank.** -/
theorem sorted_insertAll (h : Respects above rank xs) : (insertAll above xs).Pairwise fun y z => rank z ≤ rank y := by
  induction xs using List.reverseRecOn with
  | nil => exact .nil
  | append_singleton xs x ih =>
    have hfront : Respects above rank xs :=
      ⟨fun a ha b hb => h.above_of_lt a (List.mem_append_left _ ha) b (List.mem_append_left _ hb),
        fun a ha b hb => h.le_of_above a (List.mem_append_left _ ha) b (List.mem_append_left _ hb)⟩
    rw [insertAll_concat]
    exact sorted_insertAbove h (List.mem_append_right xs List.mem_cons_self) (fun y hy => mem_of_mem_insertAll hy)
      (ih hfront)

/-! ## Items of the same rank -/

variable {inFront : α → α → Prop}

/-- An item that is inserted last comes behind those of its rank exactly when it is above none of them. -/
theorem ordered_insertAbove_iff (hasymm : ∀ x y, inFront x y → ¬inFront y x)
    (h : Respects above rank xs) {x : α} (hx : x ∈ xs) (hl : ∀ y ∈ l, y ∈ xs)
    (hsorted : l.Pairwise fun y z => rank z ≤ rank y) (hinFront : ∀ y ∈ l, inFront y x) :
    (insertAbove above x l).Pairwise (Before rank inFront) ↔
      l.Pairwise (Before rank inFront) ∧ ∀ y ∈ l, rank y = rank x → above x y = false := by
  constructor
  · intro hordered
    refine ⟨hordered.sublist (sublist_insertAbove x l), fun y hy hrank => ?_⟩
    by_contra habove
    rw [Bool.not_eq_false] at habove
    have hback : y ∈ l.dropWhile (!above x ·) := by
      have hmem : y ∈ l.takeWhile (!above x ·) ++ l.dropWhile (!above x ·) :=
        List.takeWhile_append_dropWhile (p := (!above x ·)) ▸ hy
      refine (List.mem_append.mp hmem).resolve_left fun hfront => ?_
      have hnot := List.mem_takeWhile_imp hfront
      rw [habove] at hnot
      cases hnot
    rw [insertAbove, List.pairwise_append, List.pairwise_cons] at hordered
    rcases hordered.2.1.1 y hback with hlt | ⟨-, hxy⟩
    · exact absurd hrank (ne_of_lt hlt)
    · exact hasymm x y hxy (hinFront y hy)
  · rintro ⟨hordered, hnone⟩
    rw [insertAbove, List.pairwise_append, List.pairwise_cons]
    have hbelow : ∀ z ∈ l.dropWhile (!above x ·), rank z < rank x := by
      intro z hz
      obtain ⟨first, hmem, habove, hle, hfirst⟩ := rank_le_of_mem_dropWhile h hx hl hsorted hz
      refine lt_of_le_of_lt hle (lt_of_le_of_ne hfirst fun heq => ?_)
      rw [hnone first hmem heq] at habove
      cases habove
    refine ⟨hordered.sublist (List.takeWhile_sublist _),
      ⟨fun z hz => .inl (hbelow z hz), hordered.sublist (List.dropWhile_sublist _)⟩, fun y hy z hz => ?_⟩
    have hyx := rank_le_of_mem_takeWhile h hx hl hy
    rcases List.mem_cons.mp hz with rfl | hz
    · rcases hyx.lt_or_eq with hlt | heq
      · exact .inl hlt
      · exact .inr ⟨heq.symm, hinFront y ((List.takeWhile_prefix _).subset hy)⟩
    · exact .inl ((hbelow z hz).trans_le hyx)

/-- **When items of the same rank keep their order**: when none of them is above an earlier one. -/
theorem ordered_insertAll_iff (hasymm : ∀ x y, inFront x y → ¬inFront y x)
    (h : Respects above rank xs) (hinFront : xs.Pairwise inFront) :
    (insertAll above xs).Pairwise (Before rank inFront) ↔
      xs.Pairwise fun y x => rank y = rank x → above x y = false := by
  induction xs using List.reverseRecOn with
  | nil => exact iff_of_true .nil .nil
  | append_singleton xs x ih =>
    have hfront : Respects above rank xs :=
      ⟨fun a ha b hb => h.above_of_lt a (List.mem_append_left _ ha) b (List.mem_append_left _ hb),
        fun a ha b hb => h.le_of_above a (List.mem_append_left _ ha) b (List.mem_append_left _ hb)⟩
    rw [List.pairwise_append] at hinFront ⊢
    obtain ⟨hxs, -, hlast⟩ := hinFront
    have hmem : ∀ y, y ∈ insertAll above xs ↔ y ∈ xs := fun y => (insertAll_perm xs).mem_iff
    rw [insertAll_concat, ordered_insertAbove_iff hasymm h (List.mem_append_right xs List.mem_cons_self)
        (fun y hy => mem_of_mem_insertAll hy) (sorted_insertAll hfront)
        fun y hy => hlast y ((hmem y).mp hy) x List.mem_cons_self, ih hfront hxs]
    simp [hmem]

end Insertion
