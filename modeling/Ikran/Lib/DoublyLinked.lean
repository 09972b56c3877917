import Ikran.Lib.LinkedList

/-!
# Lists that are linked both ways

Lists whose nodes lead to the next one and back to the previous one, with what linking and unlinking do to them.
-/

namespace LinkedList

variable {α : Type*} {next next' : α → Option α} {a b : α} {l m front back : List α} {p q : Option α}

section Search

variable {hit : α → Prop} [DecidablePred hit] {fuel : ℕ} {prev : Option α}

theorem search_fst (hp : Path next p l none) (hfuel : l.length ≤ fuel) :
    (search hit next fuel prev p).bind Prod.fst = l.find? fun b => hit b := by
  induction l generalizing p prev fuel with
  | nil =>
    obtain rfl : p = none := hp
    cases fuel <;> rfl
  | cons b l ih =>
    obtain ⟨rfl, hrest⟩ := hp
    rw [List.length_cons] at hfuel
    obtain ⟨fuel, rfl⟩ := Nat.exists_eq_add_one.mpr (Nat.zero_lt_of_lt hfuel)
    rw [search]
    by_cases hb : hit b
    · rw [if_pos hb, List.find?_cons_of_pos (by simpa using hb)]
      rfl
    · rw [if_neg hb, List.find?_cons_of_neg (by simpa using hb)]
      exact ih hrest (by omega)

end Search

/-- The node that has no next one is the last. -/
theorem Path.find?_last [DecidableEq α] (h : Path next p (front ++ [b]) none) :
    ((front ++ [b]).find? fun c => next c = none) = some b := by
  induction front generalizing p with
  | nil => exact List.find?_cons_of_pos (decide_eq_true h.2)
  | cons c front ih =>
    obtain ⟨-, hrest⟩ := h
    refine (List.find?_cons_of_neg ?_).trans (ih hrest)
    rw [hrest.eq_head?]
    cases front <;> simp

/-- The previous pointers lead back over a list, to the node in front of it. -/
def Back (prev : α → Option α) : Option α → List α → Prop
  | _, [] => True
  | q, a :: l => prev a = q ∧ Back prev (some a) l

section Double

variable {prev prev' : α → Option α}

theorem back_append : Back prev q (l ++ m) ↔ Back prev q l ∧ Back prev (l.getLast?.or q) m := by
  induction l generalizing q with
  | nil => exact (and_iff_right trivial).symm
  | cons a l ih =>
    rw [List.cons_append, Back, Back, ih, and_assoc, List.getLast?_cons]
    cases l.getLast? <;> rfl

theorem Back.congr (h : Back prev q l) (hsame : ∀ b ∈ l, prev' b = prev b) : Back prev' q l := by
  induction l generalizing q with
  | nil => trivial
  | cons a l ih =>
    exact ⟨(hsame a List.mem_cons_self).trans h.1, ih h.2 fun b hb => hsame b (List.mem_cons_of_mem a hb)⟩

/-- What is changed outside of a list leaves its nodes. -/
theorem update_of_mem [DecidableEq α] {β : Type*} {f : α → β} {v : β} (hb : b ∈ l) (ha : a ∉ l) :
    Function.update f a v b = f b :=
  Function.update_of_ne (ne_of_mem_of_not_mem hb ha) _ _

/-- The next pointers visit a list and end, and the previous ones lead back to its head, which has none. -/
structure Double (next prev : α → Option α) (p : Option α) (l : List α) : Prop where
  path : Path next p l none
  back : Back prev none l
  nodup : l.Nodup

namespace Double

theorem congr (h : Double next prev p l) (hnext : ∀ b ∈ l, next' b = next b) (hprev : ∀ b ∈ l, prev' b = prev b) :
    Double next' prev' p l :=
  ⟨h.path.congr hnext, h.back.congr hprev, h.nodup⟩

variable [DecidableEq α]

theorem linkLast (h : Double next prev p (front ++ [b])) (ha : a ∉ front ++ [b]) :
    Double (Function.update (Function.update next b (some a)) a none) (Function.update prev a (some b)) p
      (front ++ [b] ++ [a]) := by
  have hb : b ∉ front := fun hb => (List.nodup_append.mp h.nodup).2.2 b hb b (List.mem_singleton_self b) rfl
  have hne : b ≠ a := fun hba => ha (by simp [hba])
  refine ⟨path_concat.mpr ⟨path_concat.mpr ⟨(path_concat.mp h.path).1.congr fun c hc => ?_, ?_⟩,
    Function.update_self ..⟩, back_append.mpr ⟨h.back.congr fun c hc => update_of_mem hc ha, ?_, trivial⟩,
    List.nodup_append_comm.mpr (List.nodup_cons.mpr ⟨ha, h.nodup⟩)⟩
  · rw [update_of_mem hc fun hmem => ha (List.mem_append_left _ hmem), update_of_mem hc hb]
  · rw [Function.update_of_ne hne, Function.update_self]
  · rw [Function.update_self, List.getLast?_concat]
    rfl

theorem unlinkHead (h : Double next prev p (a :: l)) :
    Double next ((next a).elim prev fun c => Function.update prev c none) (next a) l := by
  obtain ⟨⟨-, hpath⟩, ⟨-, hback⟩, hnodup⟩ := h
  rw [List.nodup_cons] at hnodup
  refine ⟨hpath, ?_, hnodup.2⟩
  rw [hpath.eq_head?]
  cases l with
  | nil => trivial
  | cons c l =>
    have hc := (List.nodup_cons.mp hnodup.2).1
    exact ⟨Function.update_self .., hback.2.congr fun d hd => update_of_mem hd hc⟩

theorem unlink (h : Double next prev p (front ++ b :: a :: back)) :
    Double (Function.update next b (next a)) ((next a).elim prev fun c => Function.update prev c (prev a)) p
      (front ++ b :: back) := by
  obtain ⟨hpath, hback, hnodup⟩ := h
  obtain ⟨r, hfront, rfl, hb, hrest⟩ := path_append.mp hpath
  obtain ⟨hbackFront, hbackB, hprevA, hbackRest⟩ := back_append.mp hback
  have hnodup' : (front ++ b :: back).Nodup :=
    hnodup.sublist ((List.sublist_cons_self a back).cons_cons b |>.append_left front)
  obtain ⟨-, hbnodup, hdisjoint⟩ := List.nodup_append.mp hnodup'
  have hbfront : b ∉ front := fun hmem => hdisjoint b hmem b List.mem_cons_self rfl
  have hbback := (List.nodup_cons.mp hbnodup).1
  refine ⟨path_append.mpr ⟨some b, hfront.congr fun c hc => update_of_mem hc hbfront, rfl, ?_⟩, ?_, hnodup'⟩
  · rw [Function.update_self]
    exact hrest.congr fun c hc => update_of_mem hc hbback
  · rw [hrest.eq_head?]
    cases back with
    | nil => exact back_append.mpr ⟨hbackFront, hbackB, trivial⟩
    | cons c back =>
      have hc : c ∉ front ++ [b] := fun hmem =>
        (List.nodup_append.mp (show (front ++ [b] ++ c :: back).Nodup by simpa using hnodup')).2.2 c hmem c
          List.mem_cons_self rfl
      have hcback := (List.nodup_cons.mp (List.nodup_cons.mp hbnodup).2).1
      refine back_append.mpr ⟨hbackFront.congr fun d hd => ?_, ?_, ?_, hbackRest.2.congr fun d hd => ?_⟩
      · exact update_of_mem hd fun hmem => hc (List.mem_append_left _ hmem)
      · exact (update_of_mem (by simp) hc).trans hbackB
      · exact (Function.update_self ..).trans hprevA
      · exact update_of_mem hd hcback

end Double

end Double

end LinkedList
