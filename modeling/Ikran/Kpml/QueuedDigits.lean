import Ikran.Kpml.Quarantine
import Mathlib.Data.List.Find

/-!
# Digits of a record

A digit that is quarantined is put behind the others of its call. The digits of a record are passed on from the head
of its queue, as long as the record is there.
-/

namespace Kpml

open CStr

/-! ## Finding records -/

theorem KpmlList.key_of_find {l : KpmlList} {k : KpmlKey} {r : KpmlData} (h : l.find k = some r) : r.key = k := by
  simpa using List.find?_some h

theorem KpmlList.find_put (l : KpmlList) (r : KpmlData) (k : KpmlKey) :
    (l.put r).find k = if k = r.key then (l.find k).map fun _ => r else l.find k := by
  have hkey : ∀ b : KpmlData, (if b.key = r.key then r else b).key = b.key := by
    intro b
    split_ifs with hb
    · exact hb.symm
    · rfl
  have hfind : (l.put r).find k = (l.find k).map fun b => if b.key = r.key then r else b := by
    show (l.records.map fun b => if b.key = r.key then r else b).find? _ = _
    rw [List.find?_map, find]
    congr 1
    exact List.find?_congr fun b _ => by rw [Function.comp_apply, hkey]
  rw [hfind]
  split_ifs with hk
  · cases h : l.find k with
    | none => rfl
    | some b => rw [Option.map_some, Option.map_some, if_pos ((key_of_find h).trans hk)]
  · cases h : l.find k with
    | none => rfl
    | some b => rw [Option.map_some, if_neg fun hb => hk ((key_of_find h).symm.trans hb)]

theorem KpmlList.find_erase (l : KpmlList) (k k' : KpmlKey) :
    (l.erase k).find k' = if k' = k then none else l.find k' := by
  rw [find, erase, List.find?_filter]
  split_ifs with hk
  · refine List.find?_eq_none.mpr fun b _ => ?_
    simp [hk]
  · refine List.find?_congr fun b _ => ?_
    by_cases hb : b.key = k'
    · simp [hb, hk]
    · simp [hb]

theorem KpmlList.find_append (l : KpmlList) (r : KpmlData) (k : KpmlKey) :
    (l.append r).find k = if k = r.key then (l.find k).or (some r) else l.find k := by
  have hmem : r.key ∈ l.records.map KpmlData.key ↔ (l.find r.key).isSome := by
    rw [find, List.find?_isSome, List.mem_map]
    simp
  rw [append]
  split_ifs with hin hk hk
  · obtain ⟨b, hb⟩ := Option.isSome_iff_exists.mp (hmem.mp hin)
    rw [hk, hb]
    rfl
  · rfl
  · rw [find, List.find?_append, hk]
    congr 1
    simp
  · rw [find, List.find?_append, List.find?_cons_of_neg (by simpa using fun h => hk h.symm)]
    simp [find]

namespace State

variable {s : State} {k : KpmlKey} {r : KpmlData}

theorem key_of_find (h : s.find k = some r) : r.key = k := KpmlList.key_of_find h

theorem find_put (s : State) (r : KpmlData) (k : KpmlKey) :
    (s.put r).find k = if k = r.key then (s.find k).map fun _ => r else s.find k :=
  s.list.find_put r k

theorem find_erase (s : State) (k k' : KpmlKey) : (s.erase k).find k' = if k' = k then none else s.find k' :=
  s.list.find_erase k k'

theorem find_put_of_ne (h : r.key ≠ k) : (s.put r).find k = s.find k := by
  rw [find_put, if_neg h.symm]

variable {r₀ : KpmlData}

theorem find_put_self (h : s.find r.key = some r₀) : (s.put r).find r.key = some r := by
  rw [find_put, if_pos rfl, h]
  rfl

variable {k' : KpmlKey}

theorem find_erase_of_ne (h : k ≠ k') : (s.erase k).find k' = s.find k' := by
  rw [find_erase, if_neg h.symm]

theorem find_erase_self (s : State) (k : KpmlKey) : (s.erase k).find k = none := by
  rw [find_erase, if_pos rfl]

theorem find_appendNew_self {r : UInt32 → KpmlData} (h : s.find (r (s.gKpmlId + 1)).key = none) :
    (s.appendNew r).find (r (s.gKpmlId + 1)).key = some (r (s.gKpmlId + 1)) := by
  refine (s.list.find_append _ _).trans ?_
  rw [if_pos rfl]
  show (s.find _).or _ = _
  rw [h]
  rfl

theorem find_appendNew_of_ne {r : UInt32 → KpmlData} (h : (r (s.gKpmlId + 1)).key ≠ k) :
    (s.appendNew r).find k = s.find k := by
  refine (s.list.find_append _ _).trans ?_
  rw [if_neg h.symm]
  rfl

theorem find_modify_of_ne {f : KpmlData → KpmlData} (hf : ∀ r, (f r).key = r.key)
    (h : k ≠ k') : (s.modify k f).find k' = s.find k' := by
  rw [modify]
  cases hk : s.find k with
  | none => rfl
  | some r => exact find_put_of_ne (by rw [hf, key_of_find hk]; exact h)

theorem find_modify_self {f : KpmlData → KpmlData} (hf : ∀ r, (f r).key = r.key) :
    (s.modify k f).find k = (s.find k).map f := by
  rw [modify]
  cases hk : s.find k with
  | none => exact hk
  | some r =>
    have hkey : (f r).key = k := (hf r).trans (key_of_find hk)
    rw [Option.map_some, ← hkey]
    have hfound : s.find (f r).key = some r := by rw [hkey, hk]
    exact find_put_self hfound

variable {memory : Bool}

theorem find_ensure_of_ne (h : k ≠ k') : (s.ensure k memory).find k' = s.find k' := by
  rw [ensure]
  split_ifs
  · exact find_appendNew_of_ne h
  · rfl

theorem find_ensure_self (s : State) (k : KpmlKey) (memory : Bool) : (s.ensure k memory).find k =
      (s.find k).or (if memory then some { line := k.1, callId := k.2, kpmlId := s.gKpmlId + 1 } else none) := by
  rw [ensure]
  cases hk : s.find k with
  | some r =>
    rw [if_neg (by simp), hk]
    rfl
  | none =>
    cases memory with
    | false =>
      rw [if_neg (by simp), hk]
      rfl
    | true =>
      rw [if_pos ⟨rfl, rfl⟩]
      exact find_appendNew_self (r := fun id => { line := k.1, callId := k.2, kpmlId := id }) hk

/-! ## Matching a digit -/

/-- What a record keeps when a digit is matched. -/
structure Keeps (r r' : KpmlData) : Prop where
  key : r'.key = r.key
  queue : r'.queue = r.queue
  persistent : r'.persistent = r.persistent
  pendingSub : r'.pendingSub = r.pendingSub

theorem Keeps.refl (r : KpmlData) : Keeps r r := ⟨rfl, rfl, rfl, rfl⟩

theorem find_kpmlClearData_of_ne (h : r.key ≠ k) : (s.kpmlClearData r).find k = s.find k := by
  rw [kpmlClearData]
  split_ifs
  · exact find_erase_of_ne h
  · exact find_put_of_ne h
  · exact find_put_of_ne h

theorem find_kpmlClearData_self (h : s.find r.key = some r₀) :
    (r.persistent = kpmlOneShot ∧ (s.kpmlClearData r).find r.key = none) ∨
      ∃ r', (s.kpmlClearData r).find r.key = some r' ∧ Keeps r r' := by
  rw [kpmlClearData]
  split_ifs with hone
  · exact .inl ⟨hone, find_erase_self s r.key⟩
  · exact .inr ⟨_, find_put_self (r := { r with kpmlDialed := [] }) h, rfl, rfl, rfl, rfl⟩
  · exact .inr ⟨r, find_put_self h, .refl r⟩

theorem keeps_dialDigit (r : KpmlData) (digit : Char) : Keeps r { (dialDigit r digit).1 with kpmlDialed := [] } := by
  rw [dialDigit]
  split_ifs <;> exact ⟨rfl, rfl, rfl, rfl⟩

theorem kpmlUpdateDialedDigits_cases (s : State) (k : KpmlKey) (digit : Char) :
    (s.kpmlUpdateDialedDigits k digit).2 = s ∨ ∃ r r', s.find k = some r ∧ r.pendingSub = true ∧ Keeps r r' ∧
        ((s.kpmlUpdateDialedDigits k digit).2 = s.put r' ∨
          (s.kpmlUpdateDialedDigits k digit).2 = s.kpmlClearData r') := by
  rw [kpmlUpdateDialedDigits]
  by_cases hconfig : s.config = .none
  · exact .inl (by rw [if_pos hconfig])
  rw [if_neg hconfig]
  cases hk : s.find k with
  | none => exact .inl rfl
  | some r =>
    dsimp only
    by_cases hpending : r.pendingSub = false
    · exact .inl (by rw [if_pos hpending])
    by_cases hlength : maxDialstring - 1 ≤ r.kpmlDialed.length
    · exact .inl (by rw [if_neg hpending, if_pos hlength])
    rw [if_neg hpending, if_neg hlength]
    have hsub : r.pendingSub = true := by simpa using hpending
    by_cases hclear : digit = '\x82'
    · rw [if_pos hclear]
      exact .inr ⟨r, { r with kpmlDialed := [] }, rfl, hsub, ⟨rfl, rfl, rfl, rfl⟩, .inr rfl⟩
    · rw [if_neg hclear]
      refine .inr ⟨r, { (dialDigit r digit).1 with kpmlDialed := [] }, rfl, hsub, keeps_dialDigit r digit, ?_⟩
      match dialDigit r digit with
      | (r', .nomatch) => exact .inl rfl
      | (r', .fullpattern) => exact .inr rfl
      | (r', .immediately) => exact .inr rfl

theorem find_kpmlUpdateDialedDigits_of_ne (digit : Char) (h : k ≠ k') :
    (s.kpmlUpdateDialedDigits k digit).2.find k' = s.find k' := by
  rcases kpmlUpdateDialedDigits_cases s k digit with hsame | ⟨r, r', hr, -, hkeeps, hput | hclear⟩
  · rw [hsame]
  · rw [hput]
    exact find_put_of_ne (by rw [hkeeps.key, key_of_find hr]; exact h)
  · rw [hclear]
    exact find_kpmlClearData_of_ne (by rw [hkeeps.key, key_of_find hr]; exact h)

theorem find_kpmlUpdateDialedDigits_self (digit : Char) (hr : s.find k = some r) :
    (r.pendingSub = true ∧ r.persistent = kpmlOneShot ∧ (s.kpmlUpdateDialedDigits k digit).2.find k = none) ∨
      ∃ r', (s.kpmlUpdateDialedDigits k digit).2.find k = some r' ∧ Keeps r r' := by
  rcases kpmlUpdateDialedDigits_cases s k digit with hsame | ⟨r₀, r', hr₀, hpending, hkeeps, hstate⟩
  · rw [hsame]
    exact .inr ⟨r, hr, .refl r⟩
  · obtain rfl : r = r₀ := Option.some_inj.mp (hr.symm.trans hr₀)
    have hkey : r'.key = k := hkeeps.key.trans (key_of_find hr)
    have hfound : s.find r'.key = some r := by rw [hkey, hr]
    rcases hstate with hput | hclear
    · rw [hput, ← hkey]
      exact .inr ⟨r', find_put_self hfound, hkeeps⟩
    · rw [hclear, ← hkey]
      rcases find_kpmlClearData_self hfound with ⟨hone, hnone⟩ | ⟨r'', hr'', hkeeps'⟩
      · exact .inl ⟨hpending, hkeeps.persistent ▸ hone, hnone⟩
      · exact .inr ⟨r'', hr'', hkeeps'.key.trans hkeeps.key, hkeeps'.queue.trans hkeeps.queue,
          hkeeps'.persistent.trans hkeeps.persistent, hkeeps'.pendingSub.trans hkeeps.pendingSub⟩

/-! ## Passing digits on -/

/-- The state in which the loop goes on: the digit was matched, and the head of the queue is moved. -/
def afterDigit (s : State) (k : KpmlKey) (digit : Char) : State :=
  (s.kpmlUpdateDialedDigits k digit).2.modify k fun r => { r with queue := r.queue.pop }

theorem find_afterDigit_of_ne (digit : Char) (h : k ≠ k') : (s.afterDigit k digit).find k' = s.find k' := by
  have hpop : (s.afterDigit k digit).find k' = (s.kpmlUpdateDialedDigits k digit).2.find k' :=
    find_modify_of_ne (fun _ => rfl) h
  rw [hpop, find_kpmlUpdateDialedDigits_of_ne digit h]

theorem deliverLoop_succ (fuel : ℕ) (hr : s.find k = some r) (hne : r.queue.head ≠ r.queue.tail) :
    deliverLoop (fuel + 1) s k = { deliverLoop fuel (s.afterDigit k (r.queue.cells r.queue.head)) k with
        delivered := (k, r.queue.cells r.queue.head) ::
          (deliverLoop fuel (s.afterDigit k (r.queue.cells r.queue.head)) k).delivered } := by
  rw [deliverLoop, hr]
  dsimp only
  rw [if_neg hne]
  rfl

theorem deliverLoop_of_empty (fuel : ℕ) (h : ∀ r, s.find k = some r → r.queue.head = r.queue.tail) :
    (deliverLoop fuel s k).state = s ∧ (deliverLoop fuel s k).delivered = [] := by
  cases fuel with
  | zero => exact ⟨rfl, rfl⟩
  | succ fuel =>
    rw [deliverLoop]
    cases hr : s.find k with
    | none => exact ⟨rfl, rfl⟩
    | some r =>
      dsimp only
      rw [if_pos (h r hr)]
      exact ⟨rfl, rfl⟩

theorem find_deliverLoop_of_ne (h : k ≠ k') (fuel : ℕ) (s : State) :
    (deliverLoop fuel s k).state.find k' = s.find k' := by
  induction fuel generalizing s with
  | zero => rfl
  | succ fuel ih =>
    by_cases hempty : ∀ r, s.find k = some r → r.queue.head = r.queue.tail
    · rw [(deliverLoop_of_empty _ hempty).1]
    · push Not at hempty
      obtain ⟨r, hr, hne⟩ := hempty
      rw [deliverLoop_succ fuel hr hne]
      exact (ih _).trans (find_afterDigit_of_ne _ h)

/-- **The digits of a record are passed on in their order**, when its subscription is not for one digit. By induction
on the digits. -/
theorem deliverLoop_all (fuel : ℕ) (hr : s.find k = some r)
    (hpersistent : r.persistent ≠ kpmlOneShot) (hfuel : r.queue.length ≤ fuel) :
    ∃ r', (deliverLoop fuel s k).state.find k = some r' ∧ r'.queue.contents = [] ∧ r'.pendingSub = r.pendingSub ∧
      (deliverLoop fuel s k).delivered = r.queue.contents.map (Prod.mk k) ∧ (deliverLoop fuel s k).fault = false := by
  induction fuel generalizing s r with
  | zero =>
    have hnil : r.queue.contents = [] := by
      rw [← List.length_eq_zero_iff, CircularQueue.length_contents]
      exact Nat.le_zero.mp hfuel
    exact ⟨r, hr, hnil, rfl, by rw [hnil]; rfl, rfl⟩
  | succ fuel ih =>
    by_cases hempty : r.queue.head = r.queue.tail
    · have hnil := CircularQueue.contents_eq_nil_iff.mpr hempty
      rw [deliverLoop, hr]
      dsimp only
      rw [if_pos hempty, hnil]
      exact ⟨r, hr, hnil, rfl, rfl, rfl⟩
    · rcases find_kpmlUpdateDialedDigits_self (r.queue.cells r.queue.head) hr with
        ⟨-, hone, -⟩ | ⟨r₁, hr₁, hkeeps⟩
      · exact absurd hone hpersistent
      · have hafter : (s.afterDigit k (r.queue.cells r.queue.head)).find k =
            some { r₁ with queue := r₁.queue.pop } := by
          rw [afterDigit, find_modify_self (f := fun r => { r with queue := r.queue.pop }) (fun _ => rfl), hr₁]
          rfl
        have hlength := CircularQueue.length_pop hempty
        have hleft : r₁.queue.pop.length ≤ fuel := by
          rw [hkeeps.queue]
          omega
        obtain ⟨r', hr', hnil, hpending, hdelivered, hfault⟩ := ih hafter
          (by rw [hkeeps.persistent]; exact hpersistent) hleft
        rw [deliverLoop_succ fuel hr hempty, CircularQueue.contents_eq_cons hempty, List.map_cons]
        refine ⟨r', hr', hnil, hpending.trans hkeeps.pendingSub, ?_, hfault⟩
        rw [hdelivered, hkeeps.queue]

/-- The digits that are quarantined for a call. -/
def quarantined (s : State) (k : KpmlKey) : List Char := (s.find k).elim [] fun r => r.queue.contents

/-- There is a subscription for a call: `kpml_is_subscribed`. -/
def subscribed (s : State) (k : KpmlKey) : Bool := (s.find k).any fun r => r.pendingSub

theorem quarantined_of_find (h : s.find k = some r) : s.quarantined k = r.queue.contents := by
  rw [quarantined, h]
  rfl

theorem quarantined_of_find_none (h : s.find k = none) : s.quarantined k = [] := by
  rw [quarantined, h]
  rfl

theorem quarantined_congr {s' : State} (h : s'.find k = s.find k) : s'.quarantined k = s.quarantined k := by
  rw [quarantined, quarantined, h]

/-- Only digits of the record are passed on, and only those are left. By induction on the digits. -/
theorem deliverLoop_subset (k : KpmlKey) (fuel : ℕ) (s : State) :
    (∀ e ∈ (deliverLoop fuel s k).delivered, e.1 = k ∧ e.2 ∈ s.quarantined k) ∧
      (deliverLoop fuel s k).state.quarantined k ⊆ s.quarantined k := by
  induction fuel generalizing s with
  | zero => exact ⟨fun e he => absurd he List.not_mem_nil, List.Subset.refl _⟩
  | succ fuel ih =>
    by_cases hempty : ∀ r, s.find k = some r → r.queue.head = r.queue.tail
    · obtain ⟨hstate, hdelivered⟩ := deliverLoop_of_empty (fuel + 1) hempty
      rw [hstate, hdelivered]
      exact ⟨fun e he => absurd he List.not_mem_nil, List.Subset.refl _⟩
    · push Not at hempty
      obtain ⟨r, hr, hne⟩ := hempty
      have hcontents := CircularQueue.contents_eq_cons hne
      -- what is left behind the digit was behind it in the queue
      have hsub : (s.afterDigit k (r.queue.cells r.queue.head)).quarantined k ⊆ s.quarantined k := by
        rw [quarantined_of_find hr, hcontents, quarantined, afterDigit,
          find_modify_self (f := fun r => { r with queue := r.queue.pop }) (fun _ => rfl)]
        rcases find_kpmlUpdateDialedDigits_self (r.queue.cells r.queue.head) hr with
          ⟨-, -, hnone⟩ | ⟨r₁, hr₁, hkeeps⟩
        · rw [hnone]
          exact List.nil_subset _
        · rw [hr₁]
          show r₁.queue.pop.contents ⊆ _
          rw [hkeeps.queue]
          exact List.subset_cons_self _ _
      obtain ⟨hmem, hleft⟩ := ih (s.afterDigit k (r.queue.cells r.queue.head))
      rw [deliverLoop_succ fuel hr hne]
      refine ⟨List.forall_mem_cons.mpr ⟨⟨rfl, ?_⟩, fun e he => ⟨(hmem e he).1, hsub (hmem e he).2⟩⟩,
        List.Subset.trans hleft hsub⟩
      rw [quarantined_of_find hr, hcontents]
      exact List.mem_cons_self

theorem subscribed_of_find_none (h : s.find k = none) : s.subscribed k = false := by
  rw [subscribed, h]
  rfl

theorem subscribed_congr {s' : State} (h : s'.find k = s.find k) : s'.subscribed k = s.subscribed k := by
  rw [subscribed, subscribed, h]

theorem quarantined_erase_subset (s : State) (k k' : KpmlKey) : (s.erase k).quarantined k' ⊆ s.quarantined k' := by
  by_cases h : k = k'
  · rw [← h, quarantined_of_find_none (find_erase_self s k)]
    exact List.nil_subset _
  · rw [quarantined_congr (find_erase_of_ne h)]
    exact List.Subset.refl _

theorem quarantined_put (hr : s.find r.key = some r₀) (hqueue : r.queue = r₀.queue)
    (k : KpmlKey) : (s.put r).quarantined k = s.quarantined k := by
  by_cases h : r.key = k
  · rw [← h, quarantined_of_find (find_put_self hr), quarantined_of_find hr, hqueue]
  · exact quarantined_congr (find_put_of_ne h)

theorem quarantined_kpmlClearData_subset (hr : s.find r.key = some r₀)
    (hqueue : r.queue = r₀.queue) (k : KpmlKey) : (s.kpmlClearData r).quarantined k ⊆ s.quarantined k := by
  rw [kpmlClearData]
  split_ifs
  · exact quarantined_erase_subset s r.key k
  · rw [quarantined_put (r := { r with kpmlDialed := [] }) hr hqueue]
    exact List.Subset.refl _
  · rw [quarantined_put hr hqueue]
    exact List.Subset.refl _

theorem quarantined_kpmlUpdateDialedDigits_subset (s : State) (k : KpmlKey) (digit : Char) (k' : KpmlKey) :
    (s.kpmlUpdateDialedDigits k digit).2.quarantined k' ⊆ s.quarantined k' := by
  rcases kpmlUpdateDialedDigits_cases s k digit with hsame | ⟨r, r', hr, -, hkeeps, hstate⟩
  · rw [hsame]
    exact List.Subset.refl _
  · have hfound : s.find r'.key = some r := by rw [hkeeps.key, key_of_find hr, hr]
    rcases hstate with hput | hclear
    · rw [hput, quarantined_put hfound hkeeps.queue]
      exact List.Subset.refl _
    · rw [hclear]
      exact quarantined_kpmlClearData_subset hfound hkeeps.queue k'

theorem kpmlUpdateQuarantinedDigits_subset (s : State) (k : KpmlKey) :
    (∀ e ∈ (s.kpmlUpdateQuarantinedDigits k).delivered, e.1 = k ∧ e.2 ∈ s.quarantined k) ∧
      ∀ k', (s.kpmlUpdateQuarantinedDigits k).state.quarantined k' ⊆ s.quarantined k' := by
  obtain ⟨hmem, hleft⟩ := deliverLoop_subset k maxDialstring s
  refine ⟨hmem, fun k' => ?_⟩
  by_cases h : k = k'
  · exact h ▸ hleft
  · rw [kpmlUpdateQuarantinedDigits, quarantined_congr (find_deliverLoop_of_ne h maxDialstring s)]
    exact List.Subset.refl _

/-! ## Quarantining a digit -/

/-- A digit is quarantined: there is a record, or memory for one. -/
def stores (s : State) (k : KpmlKey) (memory : Bool) : Prop :=
  s.config ≠ .none ∧ ((s.find k).isSome ∨ memory = true)

theorem find_ensure_of_stores (h : s.stores k memory) :
    ∃ r, (s.ensure k memory).find k = some r ∧ r.queue.contents = s.quarantined k ∧ r.pendingSub = s.subscribed k := by
  rw [find_ensure_self, quarantined, subscribed]
  cases hk : s.find k with
  | some r => exact ⟨r, rfl, rfl, rfl⟩
  | none =>
    obtain hsome | rfl := h.2
    · rw [hk] at hsome
      cases hsome
    · exact ⟨_, rfl, CircularQueue.contents_eq_nil_iff.mpr rfl, rfl⟩

/-- **A digit that is quarantined is behind the others**, the oldest of which gives way to it. -/
theorem quarantined_kpmlQuarantineDigits (digit : Char) (h : s.stores k memory) :
    (s.kpmlQuarantineDigits k digit memory).quarantined k =
        CircularQueue.newest maxDialstring (s.quarantined k ++ [digit]) ∧
      (s.kpmlQuarantineDigits k digit memory).subscribed k = s.subscribed k := by
  obtain ⟨r, hr, hcontents, hpending⟩ := find_ensure_of_stores h
  have hfind : (s.kpmlQuarantineDigits k digit memory).find k = some { r with queue := r.queue.push digit } := by
    rw [kpmlQuarantineDigits, if_neg h.1,
      find_modify_self (f := fun r => { r with queue := r.queue.push digit }) (fun _ => rfl), hr]
    rfl
  rw [quarantined_of_find hfind, subscribed, hfind, ← hcontents, ← hpending]
  exact ⟨CircularQueue.contents_push (by decide) r.queue digit, rfl⟩

theorem kpmlQuarantineDigits_of_not_stores (digit : Char)
    (h : ¬s.stores k memory) : s.kpmlQuarantineDigits k digit memory = s := by
  rw [kpmlQuarantineDigits]
  by_cases hconfig : s.config = .none
  · rw [if_pos hconfig]
  · have hno : (s.find k).isSome = false ∧ memory = false := by
      rw [stores] at h
      push Not at h
      obtain ⟨hnone, hmemory⟩ := h hconfig
      exact ⟨by simpa using hnone, by simpa using hmemory⟩
    have hnone : s.find k = none := by simpa using hno.1
    have hensure : s.ensure k memory = s := by rw [ensure, if_neg (by simp [hno.2])]
    rw [if_neg hconfig, hensure, modify, hnone]

theorem find_kpmlQuarantineDigits_of_ne (digit : Char) (memory : Bool) (h : k ≠ k') :
    (s.kpmlQuarantineDigits k digit memory).find k' = s.find k' := by
  rw [kpmlQuarantineDigits]
  split_ifs
  · rfl
  · exact (find_modify_of_ne (f := fun r => { r with queue := r.queue.push digit }) (fun _ => rfl) h).trans
      (find_ensure_of_ne h)

theorem find_kpmlSetSubscriptionReject_of_ne (memory : Bool) (h : k ≠ k') :
    (s.kpmlSetSubscriptionReject k memory).find k' = s.find k' := by
  rw [kpmlSetSubscriptionReject]
  split_ifs
  · rfl
  · exact (find_modify_of_ne (f := fun r => { r with subReject := true }) (fun _ => rfl) h).trans (find_ensure_of_ne h)

theorem quarantined_kpmlSetSubscriptionReject (s : State) (k : KpmlKey) (memory : Bool) :
    (s.kpmlSetSubscriptionReject k memory).quarantined k = s.quarantined k ∧
      (s.kpmlSetSubscriptionReject k memory).subscribed k = s.subscribed k := by
  rw [kpmlSetSubscriptionReject]
  split_ifs
  · exact ⟨rfl, rfl⟩
  · rw [quarantined, subscribed, find_modify_self (f := fun r => { r with subReject := true }) (fun _ => rfl),
      find_ensure_self, quarantined, subscribed]
    cases s.find k with
    | some r => exact ⟨rfl, rfl⟩
    | none =>
      cases memory with
      | false => exact ⟨rfl, rfl⟩
      | true => exact ⟨CircularQueue.contents_eq_nil_iff.mpr rfl, rfl⟩

theorem kpmlUpdateDialedDigits_of_not_subscribed (digit : Char)
    (h : s.subscribed k = false) : (s.kpmlUpdateDialedDigits k digit).2 = s := by
  rcases kpmlUpdateDialedDigits_cases s k digit with hsame | ⟨r, r', hr, hpending, -⟩
  · exact hsame
  · rw [subscribed, hr] at h
    cases hpending.symm.trans h

end State

end Kpml
