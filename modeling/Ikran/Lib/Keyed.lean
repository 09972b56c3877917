import Mathlib.Data.List.Nodup

/-!
# Lists with keys

The elements of a list have keys, such as pointers. An element is replaced by one of the same key.
-/

namespace Keyed

variable {α β κ : Type*} {key : α → κ} {a a₀ b : α} {l : List α}

theorem eq_of_key_eq (hnodup : (l.map key).Nodup) (ha : a ∈ l) (hb : b ∈ l) (h : key a = key b) : a = b :=
  List.inj_on_of_nodup_map hnodup ha hb h

variable [DecidableEq κ]

variable (key) in
/-- The elements of the key of `a` are replaced by `a`. -/
def replace (a : α) (l : List α) : List α :=
  l.map fun b => if key b = key a then a else b

theorem mem_replace (h : b ∈ replace key a l) : b = a ∨ b ∈ l ∧ key b ≠ key a := by
  obtain ⟨c, hc, rfl⟩ := List.mem_map.1 h
  split_ifs with hkey
  · exact .inl rfl
  · exact .inr ⟨hc, hkey⟩

theorem mem_replace_self (h : a₀ ∈ l) (hkey : key a₀ = key a) : a ∈ replace key a l :=
  List.mem_map.2 ⟨a₀, h, if_pos hkey⟩

theorem map_replace (hnodup : (l.map key).Nodup) (h : a₀ ∈ l) (hkey : key a = key a₀) {f : α → β}
    (hf : f a = f a₀) : (replace key a l).map f = l.map f := by
  rw [replace, List.map_map]
  refine List.map_congr_left fun b hb => ?_
  by_cases heq : key b = key a
  · -- the keys are different
    have hba : b = a₀ := eq_of_key_eq hnodup hb h (heq.trans hkey)
    rw [Function.comp_apply, if_pos heq, hf, hba]
  · rw [Function.comp_apply, if_neg heq]

theorem map_key_replace (a : α) (l : List α) : (replace key a l).map key = l.map key := by
  rw [replace, List.map_map]
  refine List.map_congr_left fun b _ => ?_
  by_cases heq : key b = key a <;> simp [heq]

theorem replace_replace {a' : α} (h : key a = key a') (l : List α) :
    replace key a' (replace key a l) = replace key a' l := by
  rw [replace, replace, replace, List.map_map]
  refine List.map_congr_left fun b _ => ?_
  by_cases heq : key b = key a' <;> simp [heq, h]

theorem filter_replace {k : κ} (h : key a = k) (l : List α) :
    (replace key a l).filter (key · ≠ k) = l.filter (key · ≠ k) := by
  induction l with
  | nil => rfl
  | cons b l ih =>
    have ih' : (l.map fun b => if key b = key a then a else b).filter (key · ≠ k) =
        l.filter (key · ≠ k) := ih
    rw [replace, List.map_cons, List.filter_cons, List.filter_cons, ih']
    subst h
    by_cases heq : key b = key a <;> simp [heq]

theorem replace_append_cons {pre post : List α} (hnodup : ((pre ++ a₀ :: post).map key).Nodup)
    (hkey : key a = key a₀) : replace key a (pre ++ a₀ :: post) = pre ++ a :: post := by
  have hne : ∀ b ∈ pre ++ post, key b ≠ key a := by
    intro b hb heq
    have hperm : ((a₀ :: (pre ++ post)).map key).Nodup := (List.perm_middle.map key).nodup_iff.1 hnodup
    rw [List.map_cons, List.nodup_cons] at hperm
    exact hperm.1 (hkey ▸ heq ▸ List.mem_map_of_mem hb)
  have hid : ∀ l : List α, (∀ b ∈ l, key b ≠ key a) → replace key a l = l := fun l hl =>
    (List.map_congr_left fun b hb => if_neg (hl b hb)).trans (List.map_id l)
  have hpre := hid pre fun b hb => hne b (List.mem_append_left _ hb)
  have hpost := hid post fun b hb => hne b (List.mem_append_right _ hb)
  simp only [replace] at hpre hpost ⊢
  rw [List.map_append, List.map_cons, hpre, hpost, if_pos hkey.symm]

theorem find?_eq (hnodup : (l.map key).Nodup) (h : a ∈ l) {k : κ} (hkey : key a = k) :
    l.find? (key · = k) = some a := by
  cases hfind : l.find? (key · = k) with
  | none => simpa [hkey] using List.find?_eq_none.1 hfind a h
  | some b =>
    have hb : key b = k := by simpa using List.find?_some hfind
    rw [eq_of_key_eq hnodup (List.mem_of_find?_eq_some hfind) h (hb.trans hkey.symm)]

end Keyed
