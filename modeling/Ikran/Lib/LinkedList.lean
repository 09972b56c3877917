import Mathlib.Data.List.Nodup

/-!
# Linked lists

Nodes that know the next one, and a header that knows the first one and the last one. A list of nodes is
linked when the next pointers, from the head on, visit its elements in order and end.
-/

namespace LinkedList

variable {α : Type*} {next next' : α → Option α} {a b : α} {l m front back : List α} {p q : Option α}

/-- From one pointer to another the nodes of a list are visited. -/
def Path (next : α → Option α) : Option α → List α → Option α → Prop
  | p, [], q => p = q
  | p, a :: l, q => p = some a ∧ Path next (next a) l q

theorem path_append : Path next p (l ++ m) q ↔ ∃ r, Path next p l r ∧ Path next r m q := by
  induction l generalizing p with
  | nil =>
    constructor
    · intro h
      exact ⟨p, rfl, h⟩
    · rintro ⟨r, rfl, h⟩
      exact h
  | cons a l ih =>
    rw [List.cons_append, Path, ih]
    constructor
    · rintro ⟨hp, r, hl, hm⟩
      exact ⟨r, ⟨hp, hl⟩, hm⟩
    · rintro ⟨r, ⟨hp, hl⟩, hm⟩
      exact ⟨hp, r, hl, hm⟩

theorem path_concat : Path next p (l ++ [a]) q ↔ Path next p l (some a) ∧ next a = q := by
  rw [path_append]
  constructor
  · rintro ⟨r, hl, rfl, ha⟩
    exact ⟨hl, ha⟩
  · rintro ⟨hl, ha⟩
    exact ⟨some a, hl, rfl, ha⟩

theorem Path.congr (h : Path next p l q) (hsame : ∀ b ∈ l, next' b = next b) : Path next' p l q := by
  induction l generalizing p with
  | nil => exact h
  | cons a l ih =>
    obtain ⟨hp, hl⟩ := h
    refine ⟨hp, ?_⟩
    rw [hsame a List.mem_cons_self]
    exact ih hl fun b hb => hsame b (List.mem_cons_of_mem a hb)

theorem Path.eq_head? (h : Path next p l none) : p = l.head? := by
  cases l with
  | nil => exact h
  | cons a l => exact h.1

/-! ## Lists with a header -/

/-- The first node and the last one. -/
structure Header (α : Type*) where
  head : Option α
  tail : Option α

/-- The next pointers, from the head on, visit the list and end; the tail is its last node. -/
structure Linked (next : α → Option α) (h : Header α) (l : List α) : Prop where
  path : Path next h.head l none
  tail : h.tail = l.getLast?
  nodup : l.Nodup

namespace Linked

variable {h : Header α}

theorem congr (hl : Linked next h l) (hsame : ∀ b ∈ l, next' b = next b) : Linked next' h l :=
  ⟨hl.path.congr hsame, hl.tail, hl.nodup⟩

theorem head_eq (hl : Linked next h l) : h.head = l.head? := hl.path.eq_head?

theorem nil (next : α → Option α) : Linked next ⟨none, none⟩ [] := ⟨rfl, rfl, List.nodup_nil⟩

variable [DecidableEq α]

theorem linkHead (hl : Linked next h l) (ha : a ∉ l) :
    Linked (Function.update next a h.head) ⟨some a, some (h.tail.getD a)⟩ (a :: l) := by
  refine ⟨⟨rfl, ?_⟩, ?_, List.nodup_cons.mpr ⟨ha, hl.nodup⟩⟩
  · rw [Function.update_self]
    refine hl.path.congr fun b hb => Function.update_of_ne ?_ _ _
    rintro rfl
    exact ha hb
  · rw [hl.tail, List.getLast?_cons]

theorem linkTail (hl : Linked next h l) (ha : a ∉ l) :
    Linked (Function.update (h.tail.elim next fun b => Function.update next b (some a)) a none)
      ⟨some (h.head.getD a), some a⟩ (l ++ [a]) := by
  have hnodup : (l ++ [a]).Nodup := List.nodup_append_comm.mpr (List.nodup_cons.mpr ⟨ha, hl.nodup⟩)
  refine ⟨?_, List.getLast?_concat.symm, hnodup⟩
  rcases List.eq_nil_or_concat l with rfl | ⟨front, b, rfl⟩
  · have hhead : h.head = none := hl.path
    rw [hhead]
    exact ⟨rfl, Function.update_self ..⟩
  · rw [List.concat_eq_append] at hl ha ⊢
    obtain ⟨hpath, -⟩ := path_concat.mp hl.path
    have hhead : h.head = some (h.head.getD a) := by
      rw [hl.head_eq]
      cases front <;> rfl
    have hb : b ∉ front := by
      have hdisjoint := (List.nodup_append.mp hl.nodup).2.2
      intro hmem
      exact hdisjoint b hmem b (List.mem_singleton_self b) rfl
    rw [hl.tail, List.getLast?_concat, Option.elim_some]
    dsimp only
    rw [← hhead, path_concat, path_concat, Function.update_self]
    refine ⟨⟨hpath.congr fun c hc => ?_, ?_⟩, rfl⟩
    · have hca : c ≠ a := by
        rintro rfl
        exact ha (List.mem_append_left _ hc)
      have hcb : c ≠ b := by
        rintro rfl
        exact hb hc
      rw [Function.update_of_ne hca, Function.update_of_ne hcb]
    · have hba : b ≠ a := by
        rintro rfl
        exact ha (List.mem_append_right _ (List.mem_singleton_self b))
      rw [Function.update_of_ne hba, Function.update_self]

/-- A node is taken from its place. The node in front of it, or the head, gets its next pointer, and the tail
is the node in front when it was the last one. -/
theorem unlink (hl : Linked next h (front ++ a :: back)) :
    Linked (Function.update (front.getLast?.elim next fun b => Function.update next b (next a)) a none)
      ⟨if front = [] then next a else h.head,
        if h.tail = some a then (if front = [] then next a else front.getLast?) else h.tail⟩
      (front ++ back) := by
  obtain ⟨r, hfront, rfl, hback⟩ := path_append.mp hl.path
  have hnodup := hl.nodup
  have hperm : (front ++ a :: back).Perm (a :: (front ++ back)) := List.perm_middle
  obtain ⟨ha, hrest⟩ := List.nodup_cons.mp (hperm.nodup_iff.mp hnodup)
  have htail : h.tail = (a :: back).getLast? := by
    rw [hl.tail, List.getLast?_append_of_ne_nil _ (List.cons_ne_nil a back)]
  have hback_eq : next a = back.head? := hback.eq_head?
  have hback' : ∀ next' : α → Option α, (∀ b ∈ back, next' b = next b) → Path next' (next a) back none :=
    fun next' hsame => hback.congr hsame
  have hne : ∀ b ∈ front ++ back, b ≠ a := by
    rintro b hb rfl
    exact ha hb
  have htail' : (if h.tail = some a then (if front = [] then next a else front.getLast?) else h.tail) =
      (front ++ back).getLast? := by
    rw [htail]
    rcases List.eq_nil_or_concat back with rfl | ⟨back, c, rfl⟩
    · rw [hback_eq, if_pos List.getLast?_singleton, List.append_nil]
      split_ifs with hnil
      · rw [hnil]
        rfl
      · rfl
    · rw [List.concat_eq_append] at hne ⊢
      have hca : c ≠ a := hne c (by simp)
      rw [← List.cons_append, ← List.append_assoc, List.getLast?_concat, List.getLast?_concat,
        if_neg fun heq => hca (Option.some.inj heq)]
  refine ⟨?_, htail', hrest⟩
  rcases List.eq_nil_or_concat front with rfl | ⟨front, b, rfl⟩
  · refine hback' _ fun c hc => ?_
    rw [List.getLast?_nil, Option.elim_none, Function.update_of_ne (hne c (List.mem_append_right _ hc))]
  · rw [List.concat_eq_append] at hfront hne hrest ⊢
    rw [if_neg (by simp), List.getLast?_concat, Option.elim_some, path_append]
    obtain ⟨hpath, -⟩ := path_concat.mp hfront
    obtain ⟨hnodupFront, -, hdisjoint⟩ := List.nodup_append.mp hrest
    have hb : b ∉ front := fun hmem =>
      (List.nodup_append.mp hnodupFront).2.2 b hmem b (List.mem_singleton_self b) rfl
    have hba : b ≠ a := hne b (by simp)
    refine ⟨next a, path_concat.mpr ⟨hpath.congr fun c hc => ?_, ?_⟩, hback' _ fun c hc => ?_⟩
    · have hcb : c ≠ b := by
        rintro rfl
        exact hb hc
      rw [Function.update_of_ne (hne c (by simp [hc])), Function.update_of_ne hcb]
    · rw [Function.update_of_ne hba, Function.update_self]
    · have hcb : c ≠ b := by
        rintro rfl
        exact hdisjoint c (by simp) c hc rfl
      rw [Function.update_of_ne (hne c (List.mem_append_right _ hc)), Function.update_of_ne hcb]

end Linked

/-- The first node that passes a test, from a pointer on, and the node in front of it. There is no result when
more nodes are to be looked at than the fuel allows. -/
def search (hit : α → Prop) [DecidablePred hit] (next : α → Option α) :
    ℕ → Option α → Option α → Option (Option α × Option α)
  | _, prev, none => some (none, prev)
  | 0, _, some _ => none
  | fuel + 1, prev, some a => if hit a then some (some a, prev) else search hit next fuel (some a) (next a)

variable {hit : α → Prop} [DecidablePred hit] {fuel : ℕ} {prev : Option α}

theorem search_of_split (hp : Path next p (front ++ a :: back) none) (hfront : ∀ b ∈ front, ¬ hit b) (ha : hit a)
    (hfuel : front.length < fuel) : search hit next fuel prev p = some (some a, front.getLast?.or prev) := by
  induction front generalizing p prev fuel with
  | nil =>
    obtain ⟨rfl, -⟩ := hp
    obtain ⟨fuel, rfl⟩ := Nat.exists_eq_add_one.mpr hfuel
    exact if_pos ha
  | cons b front ih =>
    obtain ⟨rfl, hrest⟩ := hp
    obtain ⟨fuel, rfl⟩ := Nat.exists_eq_add_one.mpr (Nat.zero_lt_of_lt hfuel)
    rw [List.length_cons] at hfuel
    rw [search, if_neg (hfront b List.mem_cons_self),
      ih hrest (fun c hc => hfront c (List.mem_cons_of_mem b hc)) (by omega), List.getLast?_cons]
    cases front.getLast? <;> rfl

theorem search_of_forall (hp : Path next p l none) (hl : ∀ b ∈ l, ¬ hit b) (hfuel : l.length ≤ fuel) :
    search hit next fuel prev p = some (none, l.getLast?.or prev) := by
  induction l generalizing p prev fuel with
  | nil =>
    obtain rfl : p = none := hp
    cases fuel <;> rfl
  | cons b l ih =>
    obtain ⟨rfl, hrest⟩ := hp
    rw [List.length_cons] at hfuel
    obtain ⟨fuel, rfl⟩ := Nat.exists_eq_add_one.mpr (Nat.zero_lt_of_lt hfuel)
    rw [search, if_neg (hl b List.mem_cons_self),
      ih hrest (fun c hc => hl c (List.mem_cons_of_mem b hc)) (by omega), List.getLast?_cons]
    cases l.getLast? <;> rfl

end LinkedList
