import Mathlib.Data.List.Basic

/-!
# Traces of a heap

The objects that a program allocates, reads and writes, and frees, are told by the effects of its steps. A
pointer is a number that is not used again, so that an object that is read after it was freed, or freed
twice, is seen.
-/

/-- What an effect does to an object. -/
inductive HeapOp
  | alloc (ptr : ℕ)
  | access (ptr : ℕ)
  | free (ptr : ℕ)

/-- Effects that may use an object. -/
class HeapEffect (ε : Type*) where
  heapOp : ε → Option HeapOp

namespace HeapTrace

open HeapEffect

variable {ε : Type*} [HeapEffect ε]

/-- The objects that are allocated and not freed, after an effect. -/
def live (l : List ℕ) : Option HeapOp → List ℕ
  | some (.alloc ptr) => ptr :: l
  | some (.free ptr) => l.filter (· ≠ ptr)
  | some (.access _) | none => l

/-- An effect uses an object that is allocated and not freed. -/
def Uses (l : List ℕ) : Option HeapOp → Prop
  | some (.access ptr) | some (.free ptr) => ptr ∈ l
  | some (.alloc _) | none => True

instance (l : List ℕ) : (op : Option HeapOp) → Decidable (Uses l op)
  | some (.access ptr) | some (.free ptr) => inferInstanceAs (Decidable (ptr ∈ l))
  | some (.alloc _) | none => .isTrue trivial

/-- The objects that are allocated and not freed, after a trace. -/
def alive (l : List ℕ) (tr : List ε) : List ℕ :=
  tr.foldl (fun l e => live l (heapOp e)) l

/-- Only objects that are allocated and not freed are used. -/
def Safe : List ℕ → List ε → Prop
  | _, [] => True
  | l, e :: tr => Uses l (heapOp e) ∧ Safe (live l (heapOp e)) tr

instance decidableSafe : (l : List ℕ) → (tr : List ε) → Decidable (Safe l tr)
  | _, [] => .isTrue trivial
  | l, e :: tr =>
    have := decidableSafe (live l (heapOp e)) tr
    inferInstanceAs (Decidable (Uses l (heapOp e) ∧ Safe (live l (heapOp e)) tr))

variable {l : List ℕ} {tr tr' : List ε}

@[simp]
theorem live_none (l : List ℕ) : live l none = l := rfl

@[simp]
theorem uses_none (l : List ℕ) : Uses l none := trivial

@[simp]
theorem alive_nil (l : List ℕ) : alive l ([] : List ε) = l := rfl

@[simp]
theorem alive_cons (l : List ℕ) (e : ε) (tr : List ε) : alive l (e :: tr) = alive (live l (heapOp e)) tr := rfl

@[simp]
theorem alive_append (l : List ℕ) (tr tr' : List ε) : alive l (tr ++ tr') = alive (alive l tr) tr' := List.foldl_append

@[simp]
theorem safe_append (l : List ℕ) (tr tr' : List ε) : Safe l (tr ++ tr') ↔ Safe l tr ∧ Safe (alive l tr) tr' := by
  induction tr generalizing l with
  | nil => simp [Safe]
  | cons e tr ih => simp [Safe, ih, and_assoc]

/-- An effect that leaves the objects, and uses only those that are allocated and not freed. -/
def QuietOp (l : List ℕ) : Option HeapOp → Prop
  | some (.access ptr) => ptr ∈ l
  | some (.alloc _) | some (.free _) => False
  | none => True

/-- A part of a trace that leaves the objects, and uses only those that are allocated and not freed. -/
def Quiet (l : List ℕ) (tr : List ε) : Prop :=
  ∀ e ∈ tr, QuietOp l (heapOp e)

theorem Quiet.append (h : Quiet l tr) (h' : Quiet l tr') : Quiet l (tr ++ tr') := List.forall_mem_append.2 ⟨h, h'⟩

theorem QuietOp.live_eq {op : Option HeapOp} (h : QuietOp l op) : live l op = l := by
  obtain _ | ptr | ptr | ptr := op
  · rfl
  · exact h.elim
  · rfl
  · exact h.elim

theorem QuietOp.uses {op : Option HeapOp} (h : QuietOp l op) : Uses l op := by
  obtain _ | ptr | ptr | ptr := op
  · trivial
  · exact h.elim
  · exact h
  · exact h.elim

theorem Quiet.alive (h : Quiet l tr) : alive l tr = l := by
  induction tr with
  | nil => rfl
  | cons e tr ih =>
    obtain ⟨he, htr⟩ := List.forall_mem_cons.1 h
    rw [alive_cons, he.live_eq]
    exact ih htr

theorem Quiet.safe (h : Quiet l tr) : Safe l tr := by
  induction tr with
  | nil => trivial
  | cons e tr ih =>
    obtain ⟨he, htr⟩ := List.forall_mem_cons.1 h
    refine ⟨he.uses, ?_⟩
    rw [he.live_eq]
    exact ih htr

end HeapTrace
