import Ikran.Lib.CString

/-!
# Pointers that may leave a C string

A pointer into a C string is the text from there on, up to the terminator. A pointer that was moved
behind the terminator is `none`, and reading through it fails.
-/

namespace CStr

/-- A pointer into a C string, or behind its terminator. -/
abbrev Ptr := Option CStr

namespace Ptr

/-- `p + n`. -/
def add (p : Ptr) (n : ℕ) : Ptr := p.bind fun s => if n ≤ s.length then some (s.drop n) else none

/-- `*p`, which can be read up to the terminator. -/
def load (p : Ptr) : Option Char := p.map peek

@[simp] theorem load_some (s : CStr) : load (some s) = some s.peek := rfl

@[simp] theorem load_none : load none = none := rfl

@[simp] theorem add_zero (p : Ptr) : p.add 0 = p := by
  cases p <;> rfl

@[simp] theorem add_none (n : ℕ) : add none n = none := rfl

theorem add_of_le {s : CStr} {n : ℕ} (h : n ≤ s.length) : add (some s) n = some (s.drop n) := if_pos h

theorem add_of_lt {s : CStr} {n : ℕ} (h : s.length < n) : add (some s) n = none := if_neg (Nat.not_le.mpr h)

@[simp] theorem add_cons_succ (c : Char) (s : CStr) (n : ℕ) : add (some (c :: s)) (n + 1) = add (some s) n := by
  simp [add]

@[simp] theorem add_nil_succ (n : ℕ) : add (some []) (n + 1) = none := rfl

end Ptr

end CStr
