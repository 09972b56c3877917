import Mathlib.Algebra.GroupWithZero.Nat
import Mathlib.Data.Fin.Basic
import Mathlib.Data.List.Induction

/-!
# Ring buffers

A ring of cells over which entries are pushed one behind the other, each over the oldest one, and from
which entries are dropped by a test. Every entry carries its number, so that the cells tell which of
two entries is newer.
-/

namespace RingBuffer

variable {α : Type*} {N : ℕ}

/-- What happens to a ring of entries. -/
inductive Event (α : Type*)
  | push (a : α)
  | drop (covers : α → Bool)

/-! ## The entries of a history -/

def Event.isPush : Event α → Bool
  | .push _ => true
  | .drop _ => false

/-- How many entries are pushed. -/
def pushes (es : List (Event α)) : ℕ := es.countP Event.isPush

/-- The entry, the one with the given number, is among the last `N` that were pushed, and it was not
dropped since. -/
def HeldAt (N : ℕ) (es : List (Event α)) (t : ℕ) (a : α) : Prop :=
  ∃ before after, es = before ++ .push a :: after ∧ pushes before = t ∧ pushes after < N ∧
    ∀ covers, .drop covers ∈ after → covers a = false

/-- The entry is among the last `N` that were pushed, and it was not dropped since. -/
def Held (N : ℕ) (es : List (Event α)) (a : α) : Prop := ∃ t, HeldAt N es t a

@[simp]
theorem pushes_concat_push (es : List (Event α)) (a : α) : pushes (es ++ [.push a]) = pushes es + 1 := by
  simp [pushes, Event.isPush]

@[simp]
theorem pushes_concat_drop (es : List (Event α)) (covers : α → Bool) : pushes (es ++ [.drop covers]) = pushes es := by
  simp [pushes, Event.isPush]

variable {es : List (Event α)} {a : α}

theorem split_concat {before after : List (Event α)} {e : Event α} (h : es ++ [e] = before ++ .push a :: after) :
    (after = [] ∧ es = before ∧ e = .push a) ∨ ∃ after', after = after' ++ [e] ∧ es = before ++ .push a :: after' := by
  rcases List.eq_nil_or_concat after with rfl | ⟨after', e', rfl⟩
  · obtain ⟨hes, he⟩ := List.append_inj' h rfl
    exact .inl ⟨rfl, hes, List.singleton_inj.mp he⟩
  · rw [List.concat_eq_append, ← List.cons_append, ← List.append_assoc] at h
    obtain ⟨hes, he⟩ := List.append_inj' h rfl
    obtain rfl := List.singleton_inj.mp he
    exact .inr ⟨after', List.concat_eq_append, hes⟩

variable {t : ℕ}

theorem HeldAt.bounds (h : HeldAt N es t a) : t < pushes es ∧ pushes es ≤ t + N := by
  obtain ⟨before, after, rfl, rfl, hlt, -⟩ := h
  simp only [pushes, List.countP_append, List.countP_cons, Event.isPush, if_true] at hlt ⊢
  omega

theorem heldAt_push_iff {b : α} (hN : 0 < N) : HeldAt N (es ++ [.push b]) t a ↔
      (t = pushes es ∧ a = b) ∨ (HeldAt N es t a ∧ pushes es < t + N) := by
  constructor
  · rintro ⟨before, after, hes, rfl, hlt, hdrop⟩
    rcases split_concat hes with ⟨rfl, rfl, he⟩ | ⟨after, rfl, rfl⟩
    · exact .inl ⟨rfl, (Event.push.inj he).symm⟩
    · rw [pushes_concat_push] at hlt
      refine .inr ⟨⟨before, after, rfl, rfl, by omega, fun covers hc => ?_⟩, ?_⟩
      · exact hdrop covers (List.mem_append_left _ hc)
      · simp only [pushes, List.countP_append, List.countP_cons, Event.isPush, if_true] at hlt ⊢
        omega
  · rintro (⟨rfl, rfl⟩ | ⟨⟨before, after, rfl, rfl, hlt, hdrop⟩, hn⟩)
    · exact ⟨es, [], rfl, rfl, hN, fun _ hc => absurd hc List.not_mem_nil⟩
    · refine ⟨before, after ++ [.push b], by simp, rfl, ?_, fun covers hc => ?_⟩
      · simp only [pushes, List.countP_append, List.countP_cons, Event.isPush, if_true] at hn
        rw [pushes_concat_push]
        simp only [pushes]
        omega
      · rcases List.mem_append.mp hc with hc | hc
        · exact hdrop covers hc
        · exact absurd (List.mem_singleton.mp hc) (by simp)

theorem heldAt_drop_iff {covers : α → Bool} :
    HeldAt N (es ++ [.drop covers]) t a ↔ HeldAt N es t a ∧ covers a = false := by
  constructor
  · rintro ⟨before, after, hes, rfl, hlt, hdrop⟩
    rcases split_concat hes with ⟨-, -, he⟩ | ⟨after, rfl, rfl⟩
    · exact absurd he (by simp)
    · rw [pushes_concat_drop] at hlt
      exact ⟨⟨before, after, rfl, rfl, hlt, fun c hc => hdrop c (List.mem_append_left _ hc)⟩,
        hdrop covers (by simp)⟩
  · rintro ⟨⟨before, after, rfl, rfl, hlt, hdrop⟩, ha⟩
    refine ⟨before, after ++ [.drop covers], by simp, rfl, by rwa [pushes_concat_drop], fun c hc => ?_⟩
    rcases List.mem_append.mp hc with hc | hc
    · exact hdrop c hc
    · obtain rfl := Event.drop.inj (List.mem_singleton.mp hc)
      exact ha

/-! ## The cells -/

theorem mod_ne_of_lt {n : ℕ} (hlt : t < n) (hn : n < t + N) : t % N ≠ n % N := by
  intro h
  have hdvd : N ∣ n - t := Nat.dvd_of_mod_eq_zero (Nat.sub_mod_eq_zero_of_mod_eq h.symm)
  have hle := Nat.le_of_dvd (by omega) hdvd
  omega

/-- The cells of a ring, with the number of each entry, and how many entries were pushed. -/
structure Cells (N : ℕ) (α : Type*) where
  cell : Fin N → Option (ℕ × α)
  count : ℕ

/-- A ring without an entry. -/
def Cells.empty : Cells N α := ⟨fun _ => none, 0⟩

variable [NeZero N]

def Cells.step (c : Cells N α) : Event α → Cells N α
  | .push a =>
    { cell := Function.update c.cell (Fin.ofNat N c.count) (some (c.count, a)), count := c.count + 1 }
  | .drop covers => { c with cell := fun i => (c.cell i).filter fun e => !covers e.2 }

/-- The cells after a history. -/
def run (es : List (Event α)) : Cells N α := es.foldl Cells.step Cells.empty

theorem run_concat (es : List (Event α)) (e : Event α) : run (N := N) (es ++ [e]) = (run es).step e := by
  simp [run]

@[simp]
theorem count_run (es : List (Event α)) : (run (N := N) es).count = pushes es := by
  induction es using List.reverseRecOn with
  | nil => rfl
  | append_singleton es e ih =>
    rw [run_concat]
    cases e with
    | push a => rw [pushes_concat_push, ← ih]; rfl
    | drop covers => rw [pushes_concat_drop, ← ih]; rfl

variable {i : Fin N}

/-- **A cell holds an entry exactly when the history holds it at that place.** By induction on the
history. -/
theorem cell_run_iff : (run es).cell i = some (t, a) ↔ HeldAt N es t a ∧ t % N = i := by
  induction es using List.reverseRecOn with
  | nil =>
    refine ⟨fun h => absurd h (by simp [run, Cells.empty]), ?_⟩
    rintro ⟨⟨before, after, hes, -⟩, -⟩
    exact absurd hes (by simp)
  | append_singleton es e ih =>
    rw [run_concat]
    cases e with
    | push b =>
      simp only [Cells.step, count_run, heldAt_push_iff (Nat.pos_of_neZero N)]
      by_cases hi : i = Fin.ofNat N (pushes es)
      · -- The cell that is pushed over: the old entry is the one that is too old now.
        subst hi
        simp only [Function.update_self, Option.some.injEq, Prod.mk.injEq, Fin.val_ofNat]
        constructor
        · rintro ⟨rfl, rfl⟩
          exact ⟨.inl ⟨rfl, rfl⟩, rfl⟩
        · rintro ⟨⟨rfl, rfl⟩ | ⟨hheld, hn⟩, hmod⟩
          · exact ⟨rfl, rfl⟩
          · have hlt := hheld.bounds.1
            exact absurd hmod (mod_ne_of_lt hlt hn)
      · rw [Function.update_of_ne hi, ih]
        have hmod : (i : ℕ) ≠ pushes es % N := fun h => hi (Fin.ext (by simpa using h))
        constructor
        · rintro ⟨hheld, ht⟩
          have hb := hheld.bounds
          refine ⟨.inr ⟨hheld, ?_⟩, ht⟩
          rcases Nat.lt_or_ge (pushes es) (t + N) with h | h
          · exact h
          · exact absurd (by rw [← ht, Nat.le_antisymm hb.2 h, Nat.add_mod_right]) hmod
        · rintro ⟨⟨rfl, rfl⟩ | ⟨hheld, hn⟩, ht⟩
          · exact absurd ht.symm hmod
          · exact ⟨hheld, ht⟩
    | drop covers =>
      simp only [Cells.step, Option.filter_eq_some_iff, ih, heldAt_drop_iff, Bool.not_eq_true']
      tauto

theorem held_iff : Held N es a ↔ ∃ i t, (run (N := N) es).cell i = some (t, a) := by
  constructor
  · rintro ⟨t, h⟩
    exact ⟨⟨t % N, Nat.mod_lt _ (Nat.pos_of_neZero N)⟩, t, cell_run_iff.mpr ⟨h, rfl⟩⟩
  · rintro ⟨i, t, h⟩
    exact ⟨t, (cell_run_iff.mp h).1⟩

/-- The entry of the one cell is newer than that of the other one. -/
def Cells.Newer (c : Cells N α) (j i : Fin N) : Prop :=
  ∃ e e', c.cell j = some e ∧ c.cell i = some e' ∧ e'.1 < e.1

/-- The cell that the next push goes to. -/
def Cells.next (c : Cells N α) : Fin N := Fin.ofNat N c.count

theorem Cells.cell_push_of_ne {c : Cells N α} (hi : i ≠ c.next) : (c.step (.push a)).cell i = c.cell i :=
  Function.update_of_ne hi _ _

theorem Cells.cell_push_next (c : Cells N α) (a : α) : (c.step (.push a)).cell c.next = some (c.count, a) :=
  Function.update_self _ _ _

theorem Cells.Newer.ne_next {j : Fin N} (h : (run (N := N) es).Newer j i) : j ≠ (run (N := N) es).next := by
  rintro rfl
  obtain ⟨⟨t, a⟩, ⟨t', b⟩, hj, hi, hlt⟩ := h
  obtain ⟨hheld, hmod⟩ := cell_run_iff.mp hj
  obtain ⟨hheld', -⟩ := cell_run_iff.mp hi
  have hb := hheld.bounds
  have hb' := hheld'.bounds
  have hlt : t' < t := hlt
  rw [Cells.next, count_run, Fin.val_ofNat] at hmod
  exact mod_ne_of_lt hb.1 (by omega) hmod

theorem Cells.Newer.push {j : Fin N} (h : (run (N := N) es).Newer j i) (hi : i ≠ (run (N := N) es).next) :
    ((run es).step (.push a)).Newer j i := by
  have hj := h.ne_next
  obtain ⟨e, e', he, he', hlt⟩ := h
  exact ⟨e, e', by rwa [cell_push_of_ne hj], by rwa [cell_push_of_ne hi], hlt⟩

theorem Cells.newer_next (hi : i ≠ (run (N := N) es).next) {e : ℕ × α} (he : (run (N := N) es).cell i = some e) :
    ((run es).step (.push a)).Newer (run (N := N) es).next i := by
  refine ⟨_, e, cell_push_next _ a, by rwa [cell_push_of_ne hi], ?_⟩
  rw [count_run]
  exact (cell_run_iff.mp he).1.bounds.1

theorem Cells.Newer.drop {c : Cells N α} {covers : α → Bool} {j : Fin N} (h : c.Newer j i)
    (hj : ∀ e, c.cell j = some e → covers e.2 = false)
    (hi : ∀ e, c.cell i = some e → covers e.2 = false) : (c.step (.drop covers)).Newer j i := by
  obtain ⟨e, e', he, he', hlt⟩ := h
  refine ⟨e, e', ?_, ?_, hlt⟩
  · simp [Cells.step, he, hj e he]
  · simp [Cells.step, he', hi e' he']

end RingBuffer
