import Mathlib.Data.List.Basic

/-!
# Frames on a stream

A stream that consists of frames, one behind the other, as a receiver sees it: of the bytes that have
arrived, the first ones are complete frames, and the rest is a part of the next frame.
-/

namespace Frames

variable {μ β : Type*} {text : μ → List β}

/-- A part of the next frame, which is not all of it. -/
def Part (text : μ → List β) : List μ → List β → Prop
  | [], rest => rest = []
  | m :: _, rest => rest <+: text m ∧ rest.length < (text m).length

/-- Of the frames `ms` the bytes `s` have arrived: the frames `done`, and the bytes `rest` of the next
one. -/
def Cut (text : μ → List β) (ms : List μ) (s : List β) (done : List μ) (rest : List β) : Prop :=
  s = done.flatMap text ++ rest ∧ ∃ todo, ms = done ++ todo ∧ Part text todo rest

variable {ms : List μ}

theorem part_nil (hms : ∀ m ∈ ms, text m ≠ []) : Part text ms [] := by
  cases ms with
  | nil => rfl
  | cons m ms => exact ⟨List.nil_prefix, List.length_pos_iff.mpr (hms m List.mem_cons_self)⟩

theorem cut_nil (hms : ∀ m ∈ ms, text m ≠ []) : Cut text ms [] [] [] := ⟨rfl, ms, rfl, part_nil hms⟩

theorem Cut.cons {done : List μ} {s rest : List β} (h : Cut text ms s done rest) (m : μ) :
    Cut text (m :: ms) (text m ++ s) (m :: done) rest := by
  obtain ⟨hs, todo, rfl, hrest⟩ := h
  refine ⟨?_, todo, rfl, hrest⟩
  rw [hs, List.flatMap_cons, List.append_assoc]

theorem Cut.append {done todo done' : List μ} {s rest t rest' : List β}
    (hs : s = done.flatMap text ++ rest) (hms : ms = done ++ todo)
    (h : Cut text todo (rest ++ t) done' rest') : Cut text ms (s ++ t) (done ++ done') rest' := by
  obtain ⟨ht, todo', rfl, hrest'⟩ := h
  refine ⟨?_, todo', ?_, hrest'⟩
  · rw [hs, List.append_assoc, ht, List.flatMap_append, List.append_assoc]
  · rw [hms, List.append_assoc]

theorem Cut.done_eq {done : List μ} {rest : List β} (h : Cut text ms (ms.flatMap text) done rest) : done = ms := by
  obtain ⟨hs, todo, rfl, hrest⟩ := h
  rw [List.flatMap_append, List.append_cancel_left_eq] at hs
  cases todo with
  | nil => rw [List.append_nil]
  | cons m todo =>
    have hlen := congrArg List.length hs
    rw [List.flatMap_cons, List.length_append] at hlen
    have hlt := hrest.2
    omega

end Frames
