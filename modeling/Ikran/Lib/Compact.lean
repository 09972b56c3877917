import Ikran.Lib.Pool
import Mathlib.Data.List.Perm.Basic

/-!
# Queues in tables of fixed size

A queue that is kept in a table of a fixed number of places: its elements stand in the first places in
their order, and the places behind them hold one and the same free value. An element is added in the
first free place. Taking one out moves the elements behind it one place to the front.
-/

namespace Compact

variable {α : Type} {n : ℕ}

def last (p : Fin n → Bool) : Option (Fin n) :=
  (List.finRange n).reverse.find? p

/-- Take the element of a place out: the elements behind it move one place to the front. -/
def remove (e : α) (t : Fin n → α) (i : Fin n) : Fin n → α := fun k =>
  if k < i then t k else if h : k.val + 1 < n then t ⟨k.val + 1, h⟩ else e

/-- Take the first element that passes the test out. -/
def removeFirst (e : α) (p : α → Bool) (t : Fin n → α) : Fin n → α :=
  match Pool.first fun k => p (t k) with
  | some i => remove e t i
  | none => t

theorem last_eq_some {p : Fin n → Bool} {i : Fin n} (hi : p i = true)
    (hafter : ∀ j, i < j → p j = false) : last p = some i := by
  have hmem : i ∈ List.finRange n := List.mem_finRange i
  obtain ⟨front, back, hsplit⟩ := List.append_of_mem hmem
  have hsorted : (front ++ i :: back).Pairwise (· < ·) := hsplit ▸ List.pairwise_lt_finRange n
  have hback : ∀ j ∈ back, i < j := (List.pairwise_cons.mp (List.pairwise_append.mp hsorted).2.1).1
  refine List.find?_eq_some_iff_append.mpr ⟨hi, back.reverse, front.reverse, ?_, fun j hj => ?_⟩
  · rw [hsplit]
    simp
  · rw [hafter j (hback j (List.mem_reverse.mp hj))]
    rfl

theorem last_eq_none {p : Fin n → Bool} (h : ∀ i, p i = false) : last p = none :=
  List.find?_eq_none.mpr fun i _ => by simp [h i]

theorem first_eq_some_of {p : Fin n → Bool} {i : Fin n} (hi : p i = true)
    (hbefore : ∀ j < i, p j = false) : Pool.first p = some i := by
  obtain ⟨j, hj⟩ := Option.isSome_iff_exists.mp (Pool.isSome_first_iff.mpr ⟨i, hi⟩)
  obtain ⟨hpj, hfront⟩ := Pool.first_eq_some hj
  have hji : ¬ j < i := fun h => by simp [hbefore j h] at hpj
  have hij : ¬ i < j := fun h => by simp [hfront i h] at hi
  rw [hj, Fin.le_antisymm (not_lt.mp hij) (not_lt.mp hji)]

theorem ofFn_remove (e : α) (t : Fin n → α) (i : Fin n) :
    List.ofFn (remove e t i) = (List.ofFn t).eraseIdx i.val ++ [e] := by
  have hlen : ((List.ofFn t).eraseIdx i.val).length = n - 1 := by
    rw [List.length_eraseIdx_of_lt (by simp), List.length_ofFn]
  refine List.ext_getElem ?_ fun k hk _ => ?_
  · rw [List.length_append, hlen, List.length_ofFn, List.length_singleton]
    have hpos := i.pos
    omega
  · rw [List.length_ofFn] at hk
    rw [List.getElem_ofFn, List.getElem_append, remove]
    by_cases hlast : k + 1 < n
    · rw [dif_pos (show k < ((List.ofFn t).eraseIdx i.val).length by omega), List.getElem_eraseIdx,
        dif_pos hlast]
      by_cases hki : k < i.val
      · rw [if_pos (show (⟨k, hk⟩ : Fin n) < i from hki), dif_pos hki, List.getElem_ofFn]
      · rw [if_neg (show ¬ (⟨k, hk⟩ : Fin n) < i from hki), dif_neg hki, List.getElem_ofFn]
    · have hki : ¬ (⟨k, hk⟩ : Fin n) < i := fun h => by
        have hval : k < i.val := h
        omega
      rw [dif_neg (show ¬ k < ((List.ofFn t).eraseIdx i.val).length by omega), if_neg hki, dif_neg hlast]
      simp

variable {p : α → Bool}

theorem countP_remove {e : α} (he : p e = false) (t : Fin n → α) {i : Fin n}
    (hi : p (t i) = true) : (List.ofFn (remove e t i)).countP p + 1 = (List.ofFn t).countP p := by
  have hlt : i.val < (List.ofFn t).length := by simp
  have hperm := List.getElem_cons_eraseIdx_perm hlt
  rw [ofFn_remove, List.countP_append, ← hperm.countP_eq, List.countP_cons]
  simp [he, hi]

theorem countP_remove_le {e : α} (he : p e = false) (t : Fin n → α) (i : Fin n) :
    (List.ofFn (remove e t i)).countP p ≤ (List.ofFn t).countP p := by
  rw [ofFn_remove, List.countP_append, List.countP_singleton, he]
  exact (List.eraseIdx_sublist _ _).countP_le

theorem countP_removeFirst_le {q : α → Bool} {e : α} (he : q e = false) (t : Fin n → α) :
    (List.ofFn (removeFirst e p t)).countP q ≤ (List.ofFn t).countP q := by
  unfold removeFirst
  split
  · exact countP_remove_le he t _
  · exact le_rfl

theorem countP_update_le {a : α} (ha : p a = false) (t : Fin n → α) (i : Fin n) :
    (List.ofFn (Function.update t i a)).countP p ≤ (List.ofFn t).countP p := by
  have hset : List.ofFn (Function.update t i a) = (List.ofFn t).set i.val a := by
    refine List.ext_getElem (by simp) fun k hk _ => ?_
    rw [List.length_ofFn] at hk
    rw [List.getElem_ofFn, List.getElem_set, Function.update_apply]
    by_cases hki : i.val = k
    · rw [if_pos hki, if_pos (Fin.ext hki.symm)]
    · rw [if_neg hki, if_neg fun h => hki (congrArg Fin.val h).symm, List.getElem_ofFn]
  rw [hset, List.countP_set (by simp), ha]
  simp

/-! ## Queues -/

/-- The table holds the queue in its first places, and the free value behind it. -/
structure Represents (e : α) (t : Fin n → α) (q : List α) : Prop where
  length_le : q.length ≤ n
  get : ∀ k : Fin n, t k = q[k.val]?.getD e

namespace Represents

variable {e a : α} {t : Fin n → α} {q : List α} {p : α → Bool}

theorem nil : Represents e (fun _ : Fin n => e) [] := ⟨Nat.zero_le n, fun _ => rfl⟩

theorem get_of_lt (h : Represents e t q) (k : Fin n) (hk : k.val < q.length) : t k = q[k.val] := by
  rw [h.get k, List.getElem?_eq_getElem hk]
  rfl

theorem get_of_le (h : Represents e t q) (k : Fin n) (hk : q.length ≤ k.val) : t k = e := by
  rw [h.get k, List.getElem?_eq_none hk]
  rfl

theorem forall_lt {P : α → Prop} (h : Represents e t q) (hq : ∀ a ∈ q, P a) (k : Fin n)
    (hk : k.val < q.length) : P (t k) := by
  rw [h.get_of_lt k hk]
  exact hq _ (List.getElem_mem hk)

theorem first_free (h : Represents e t q) (he : p e = true) (hq : ∀ a ∈ q, p a = false) :
    (Pool.first fun k => p (t k)) = if hlt : q.length < n then some ⟨q.length, hlt⟩ else none := by
  split_ifs with hlt
  · refine first_eq_some_of ?_ fun j hj => h.forall_lt hq j hj
    rw [h.get_of_le ⟨q.length, hlt⟩ le_rfl, he]
  · exact Pool.first_eq_none_iff.mpr fun k => h.forall_lt hq k (by omega)

theorem last_used (h : Represents e t q) (he : p e = false) (hq : ∀ a ∈ q, p a = true) : (last fun k => p (t k)) =
      if hpos : 0 < q.length then
        some ⟨q.length - 1, Nat.lt_of_lt_of_le (Nat.sub_one_lt_of_lt hpos) h.length_le⟩
      else none := by
  split_ifs with hpos
  · refine last_eq_some (h.forall_lt hq _ (Nat.sub_one_lt_of_lt hpos)) fun j hj => ?_
    have hle : q.length ≤ j.val := by
      have hval : q.length - 1 < j.val := hj
      omega
    rw [h.get_of_le j hle, he]
  · refine last_eq_none fun k => ?_
    rw [h.get_of_le k (by omega), he]

theorem append (h : Represents e t q) (hlt : q.length < n) (a : α) :
    Represents e (Function.update t ⟨q.length, hlt⟩ a) (q ++ [a]) where
  length_le := by
    rw [List.length_append]
    exact hlt
  get := fun k => by
    by_cases hk : k = ⟨q.length, hlt⟩
    · subst hk
      simp
    · have hne : k.val ≠ q.length := fun heq => hk (Fin.ext heq)
      rw [Function.update_of_ne hk, h.get k]
      rcases Nat.lt_or_gt_of_ne hne with hlt' | hgt
      · rw [List.getElem?_append_left hlt']
      · rw [List.getElem?_eq_none (by omega), List.getElem?_eq_none (by simp; omega)]

theorem remove (h : Represents e t q) (i : Fin n) : Represents e (remove e t i) (q.eraseIdx i.val) where
  length_le := (List.length_eraseIdx_le q i.val).trans h.length_le
  get := fun k => by
    rw [List.getElem?_eraseIdx, Compact.remove]
    by_cases hk : k < i
    · rw [if_pos hk, if_pos (show k.val < i.val from hk), h.get k]
    · rw [if_neg hk, if_neg (show ¬ k.val < i.val from hk)]
      split_ifs with hnext
      · exact h.get ⟨k.val + 1, hnext⟩
      · have hlen := h.length_le
        rw [List.getElem?_eq_none (by omega)]
        rfl

theorem removeFirst (h : Represents e t q) (p : α → Bool) : Represents e (removeFirst e p t) (q.eraseP p) := by
  rw [List.eraseP_eq_eraseIdx, Compact.removeFirst]
  cases hfirst : Pool.first fun k => p (t k) with
  | none =>
    have hnone : q.findIdx? p = none := by
      refine List.findIdx?_eq_none_iff.mpr fun a ha => ?_
      obtain ⟨k, hk, rfl⟩ := List.getElem_of_mem ha
      have hplace := Pool.first_eq_none_iff.mp hfirst ⟨k, Nat.lt_of_lt_of_le hk h.length_le⟩
      rwa [h.get_of_lt _ hk] at hplace
    rw [hnone]
    exact h
  | some i =>
    obtain ⟨hi, hbefore⟩ := Pool.first_eq_some hfirst
    by_cases hlt : i.val < q.length
    · have hsome : q.findIdx? p = some i.val := by
        refine List.findIdx?_eq_some_iff_getElem.mpr ⟨hlt, ?_, fun j hj => ?_⟩
        · rwa [h.get_of_lt i hlt] at hi
        · have hplace := hbefore ⟨j, hj.trans i.isLt⟩ hj
          rw [h.get_of_lt _ (hj.trans hlt)] at hplace
          simpa using hplace
      rw [hsome]
      exact h.remove i
    · -- a free place passes the test, and moving free places changes nothing
      have hnone : q.findIdx? p = none := by
        refine List.findIdx?_eq_none_iff.mpr fun a ha => ?_
        obtain ⟨k, hk, rfl⟩ := List.getElem_of_mem ha
        have hplace := hbefore ⟨k, Nat.lt_of_lt_of_le hk h.length_le⟩ (show k < i.val by omega)
        rwa [h.get_of_lt _ hk] at hplace
      have hsame := h.remove i
      rw [List.eraseIdx_of_length_le (by omega)] at hsame
      rw [hnone]
      exact hsame

theorem find? (h : Represents e t q) (he : p e = false) : (Pool.first fun k => p (t k)).map t = q.find? p := by
  cases hfirst : Pool.first fun k => p (t k) with
  | none =>
    refine (List.find?_eq_none.mpr fun a ha => ?_).symm
    obtain ⟨k, hk, rfl⟩ := List.getElem_of_mem ha
    have hplace := Pool.first_eq_none_iff.mp hfirst ⟨k, Nat.lt_of_lt_of_le hk h.length_le⟩
    rw [h.get_of_lt _ hk] at hplace
    simpa using hplace
  | some i =>
    obtain ⟨hi, hbefore⟩ := Pool.first_eq_some hfirst
    have hlt : i.val < q.length := by
      by_contra hle
      rw [h.get_of_le i (by omega), he] at hi
      exact absurd hi (by simp)
    rw [h.get_of_lt i hlt] at hi
    rw [Option.map_some, h.get_of_lt i hlt]
    refine (List.find?_eq_some_iff_getElem.mpr ⟨hi, i.val, hlt, rfl, fun j hj => ?_⟩).symm
    have hplace := hbefore ⟨j, hj.trans i.isLt⟩ hj
    rw [h.get_of_lt _ (hj.trans hlt)] at hplace
    simpa using hplace

end Represents

end Compact
