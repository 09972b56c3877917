import Mathlib.Data.Fin.Basic
import Mathlib.Data.List.Induction

/-!
# Circular queues

A queue in an array, between a head and a tail that go around. One cell stays empty, so that a full queue is
not taken for an empty one, and an entry that is pushed to a full queue takes the place of the oldest one.
-/

/-- A queue in an array of `N` cells, from the head up to the cell in front of the tail. -/
structure CircularQueue (α : Type*) (N : ℕ) where
  cells : Fin N → α
  head : Fin N
  tail : Fin N

namespace CircularQueue

variable {α : Type*} {N : ℕ}

/-- The cell behind a cell. -/
def next (i : Fin N) : Fin N := ⟨(i + 1) % N, Nat.mod_lt _ i.pos⟩

/-- The cell that is some steps behind another one. -/
def around (i : Fin N) (k : ℕ) : Fin N := ⟨(i + k) % N, Nat.mod_lt _ i.pos⟩

def length (q : CircularQueue α N) : ℕ := (q.tail + N - q.head) % N

/-- The entries, from the oldest to the newest. -/
def contents (q : CircularQueue α N) : List α := (List.range q.length).map fun k => q.cells (around q.head k)

/-- The oldest entry is taken. -/
def pop (q : CircularQueue α N) : CircularQueue α N := { q with head := next q.head }

/-- An entry is put behind the others. -/
def append (q : CircularQueue α N) (a : α) : CircularQueue α N :=
  { q with cells := Function.update q.cells q.tail a, tail := next q.tail }

/-- An entry is put behind the others, the oldest of which is dropped from a full queue. -/
def push (q : CircularQueue α N) (a : α) : CircularQueue α N :=
  if q.head = next q.tail then q.pop.append a else q.append a

/-- The last entries that a queue has room for. -/
def newest (N : ℕ) (l : List α) : List α := l.drop (l.length - (N - 1))

theorem val_next (i : Fin N) : (next i : ℕ) = if (i : ℕ) + 1 < N then (i : ℕ) + 1 else 0 := by
  have hi := i.isLt
  show ((i : ℕ) + 1) % N = _
  split_ifs with hlt
  · exact Nat.mod_eq_of_lt hlt
  · rw [show (i : ℕ) + 1 = N by omega, Nat.mod_self]

theorem val_around (i : Fin N) {k : ℕ} (hk : k < N) :
    (around i k : ℕ) = if (i : ℕ) + k < N then (i : ℕ) + k else (i : ℕ) + k - N := by
  have hi := i.isLt
  show ((i : ℕ) + k) % N = _
  split_ifs with hlt
  · exact Nat.mod_eq_of_lt hlt
  · rw [Nat.mod_eq_sub_mod (Nat.not_lt.mp hlt), Nat.mod_eq_of_lt (by omega)]

theorem length_eq (q : CircularQueue α N) :
    q.length = if (q.head : ℕ) ≤ q.tail then (q.tail : ℕ) - q.head else (q.tail : ℕ) + N - q.head := by
  have hhead := q.head.isLt
  have htail := q.tail.isLt
  rw [length]
  split_ifs with hle
  · rw [show (q.tail : ℕ) + N - q.head = (q.tail : ℕ) - q.head + N by omega, Nat.add_mod_right,
      Nat.mod_eq_of_lt (by omega)]
  · exact Nat.mod_eq_of_lt (by omega)

theorem length_lt (q : CircularQueue α N) : q.length < N := Nat.mod_lt _ q.head.pos

variable {q : CircularQueue α N}

theorem length_eq_zero_iff : q.length = 0 ↔ q.head = q.tail := by
  have hhead := q.head.isLt
  rw [length_eq, Fin.ext_iff]
  split_ifs <;> omega

theorem head_eq_next_iff : q.head = next q.tail ↔ q.length + 1 = N := by
  have hhead := q.head.isLt
  have htail := q.tail.isLt
  rw [length_eq, Fin.ext_iff, val_next]
  split_ifs <;> omega

@[simp]
theorem length_contents (q : CircularQueue α N) : q.contents.length = q.length := by
  rw [contents, List.length_map, List.length_range]

theorem contents_eq_nil_iff : q.contents = [] ↔ q.head = q.tail := by
  rw [← List.length_eq_zero_iff, length_contents, length_eq_zero_iff]

/-! ## The operations -/

theorem length_pop (h : q.head ≠ q.tail) : q.pop.length + 1 = q.length := by
  have hhead := q.head.isLt
  have htail := q.tail.isLt
  have hne : (q.head : ℕ) ≠ q.tail := fun heq => h (Fin.ext heq)
  have hnext := val_next q.head
  rw [length_eq, length_eq]
  show (if (next q.head : ℕ) ≤ q.tail then (q.tail : ℕ) - next q.head else (q.tail : ℕ) + N - next q.head) + 1 = _
  split_ifs at hnext ⊢ <;> omega

theorem contents_eq_cons (h : q.head ≠ q.tail) : q.contents = q.cells q.head :: q.pop.contents := by
  have hlength := length_pop h
  have hlt := q.length_lt
  have hhead : around q.head 0 = q.head := Fin.ext (Nat.mod_eq_of_lt q.head.isLt)
  rw [contents, ← hlength, List.range_succ_eq_map, List.map_cons, List.map_map, hhead]
  refine congrArg _ (List.map_congr_left fun k _ => congrArg q.cells (Fin.ext ?_))
  show ((q.head : ℕ) + (k + 1)) % N = (((q.head : ℕ) + 1) % N + k) % N
  rw [Nat.mod_add_mod, Nat.add_right_comm, Nat.add_assoc]

theorem contents_append (hroom : q.length + 1 < N) (a : α) : (q.append a).contents = q.contents ++ [a] := by
  have hhead := q.head.isLt
  have htail := q.tail.isLt
  have hlength := q.length_eq
  have hnext := val_next q.tail
  have hmore : (q.append a).length = q.length + 1 := by
    rw [length_eq]
    show (if (q.head : ℕ) ≤ next q.tail then (next q.tail : ℕ) - q.head else (next q.tail : ℕ) + N - q.head) = _
    split_ifs at hlength hnext ⊢ <;> omega
  rw [contents, hmore, List.range_succ, List.map_append, List.map_singleton]
  congr 1
  · refine List.map_congr_left fun k hk => ?_
    have hk := List.mem_range.mp hk
    -- the entries are in front of the tail
    have hne : around q.head k ≠ q.tail := fun heq => by
      have hval := congrArg Fin.val heq
      rw [val_around _ (by omega)] at hval
      split_ifs at hlength hval <;> omega
    show Function.update q.cells q.tail a (around q.head k) = _
    rw [Function.update_of_ne hne]
  · have hlast : around q.head q.length = q.tail := by
      refine Fin.ext ?_
      rw [val_around _ q.length_lt]
      split_ifs at hlength ⊢ <;> omega
    rw [show around (q.append a).head q.length = q.tail from hlast]
    exact congrArg (fun b => [b]) (Function.update_self ..)

/-- **A queue holds the newest entries.** -/
theorem contents_push (hN : 2 ≤ N) (q : CircularQueue α N) (a : α) :
    (q.push a).contents = newest N (q.contents ++ [a]) := by
  have hlt := q.length_lt
  rw [push, newest, List.length_append, length_contents, List.length_singleton]
  split_ifs with hfull
  · have hlength := head_eq_next_iff.mp hfull
    have hne : q.head ≠ q.tail := fun heq => by
      have hzero := length_eq_zero_iff.mpr heq
      omega
    have hpop := length_pop hne
    rw [contents_append (by omega), contents_eq_cons hne, show q.length + 1 - (N - 1) = 1 by omega]
    rfl
  · have hroom : ¬q.length + 1 = N := fun h => hfull (head_eq_next_iff.mpr h)
    rw [contents_append (by omega), show q.length + 1 - (N - 1) = 0 by omega, List.drop_zero]

theorem newest_of_length_lt {l : List α} (h : l.length < N) : newest N l = l := by
  rw [newest, show l.length - (N - 1) = 0 by omega, List.drop_zero]

theorem newest_newest_append (l l' : List α) : newest N (newest N l ++ l') = newest N (l ++ l') := by
  have hfront : newest N l ++ l' = (l ++ l').drop (l.length - (N - 1)) := by
    rw [newest, List.drop_append_of_le_length (Nat.sub_le _ _)]
  rw [hfront, newest, newest, List.drop_drop, List.length_drop, List.length_append]
  congr 1
  omega

end CircularQueue
