import Ikran.Lib.Pool
import Mathlib.Data.Finset.Basic
import Mathlib.Data.List.GetD

/-!
# The resource manager

The element ids of `resource_manager.c`. A bit of a table of words tells whether an element is in use. A
function that reads or writes behind the allocated words has no result.
-/

namespace Rm

/-! ## The functions -/

/-- A word of the table, of `RM_NUM_ELEMENTS_PER_MAP` bits. -/
abbrev Word := BitVec 32

/-- `resource_manager_t`, with the allocated words. -/
structure ResourceManager where
  maxElement : ℤ
  maxIndex : ℕ
  table : List Word

/-- The calls with their arguments. -/
inductive Op
  | getFree
  | clear (element : ℤ)
  | set (element : ℤ)
  | isSet (element : ℤ)
  | clearAll

/-- What a call returns. -/
inductive Result
  | nothing
  | element (element : ℤ)
  | isSet (set : Bool)
  deriving DecidableEq

def write (table : List Word) (i : ℕ) (f : Word → Word) : Option (List Word) :=
  if i < table.length then some (table.modify i f) else none

/-- The inner loop of `rm_get_free_element`: the first bit that is not set. -/
def bitLoop (w : Word) : Option ℕ :=
  Pool.firstFrom (fun j => w &&& 1#32 <<< j = 0) 32 0

/-- The outer loop of `rm_get_free_element`, which skips the words whose bits are all set. -/
def wordLoop (table : List Word) : ℕ → ℕ → Option (Option ℕ)
  | 0, _ => some none
  | n + 1, i =>
    match table[i]? with
    | none => none
    | some w =>
      if w ≠ BitVec.allOnes 32 then
        match bitLoop w with
        | some j => some (some (i * 32 + j))
        | none => wordLoop table n (i + 1)
      else wordLoop table n (i + 1)

/-- A value of 16 bits is stored in an `int16_t`. -/
def toInt16 (n : ℕ) : ℤ :=
  if n < 32768 then n else n - 65536

namespace ResourceManager

variable (rm : ResourceManager)

def rmClearAllElements : Option ResourceManager :=
  ((List.range rm.maxIndex).foldlM (fun table i => write table i fun _ => 0) rm.table).map
    fun table => { rm with table }

def rmClearElement (element : ℤ) : Option ResourceManager :=
  if element < 0 ∨ element ≥ rm.maxElement then some rm
  else
    (write rm.table (element.toNat / 32)
      (· &&& ~~~(1#32 <<< (element.toNat % 32)))).map fun table => { rm with table }

def rmSetElement (element : ℤ) : Option ResourceManager :=
  if element < 0 ∨ element ≥ rm.maxElement then some rm
  else
    (write rm.table (element.toNat / 32)
      (· ||| 1#32 <<< (element.toNat % 32))).map fun table => { rm with table }

def rmIsElementSet (element : ℤ) : Option Bool :=
  if element < 0 ∨ element ≥ rm.maxElement then some false
  else
    (rm.table[element.toNat / 32]?).map
      fun w => w &&& 1#32 <<< (element.toNat % 32) ≠ 0

def rmGetFreeElement : Option (ResourceManager × ℤ) :=
  match wordLoop rm.table rm.maxIndex 0 with
  | none => none
  | some none => some (rm, -1)
  | some (some free) =>
    let element := toInt16 free
    (if element < rm.maxElement then rm.rmSetElement element else some rm).map
      fun rm => (rm, if element ≥ rm.maxElement then -1 else element)

def step : Op → Option (ResourceManager × Result)
  | .getFree => rm.rmGetFreeElement.map fun (rm, e) => (rm, .element e)
  | .clear e => (rm.rmClearElement e).map fun rm => (rm, .nothing)
  | .set e => (rm.rmSetElement e).map fun rm => (rm, .nothing)
  | .isSet e => (rm.rmIsElementSet e).map fun b => (rm, .isSet b)
  | .clearAll => rm.rmClearAllElements.map fun rm => (rm, .nothing)

def run : ResourceManager → List Op → Option (List Result)
  | _, [] => some []
  | rm, op :: ops =>
    match rm.step op with
    | none => none
    | some (rm, r) => (run rm ops).map (r :: ·)

end ResourceManager

/-- `rm_create`: the allocated memory holds anything. There are more words than are used. -/
def rmCreate (maxElement : ℕ) (memory : ℕ → Word) : Option ResourceManager :=
  let maxIndex := maxElement / 32 + 1
  ({ maxElement, maxIndex
     table := (List.range (maxIndex * 32 / 4)).map memory } :
    ResourceManager).rmClearAllElements

/-- The least number below a bound that is not in a set. -/
def leastFree (bound : ℕ) (s : Finset ℕ) : Option ℕ :=
  Pool.firstFrom (· ∉ s) bound 0

/-- The number that an element stands for. -/
def inRange (bound : ℕ) (element : ℤ) : Option ℕ :=
  if 0 ≤ element ∧ element < bound then some element.toNat else none

/-- The calls for a set of numbers below a bound. -/
def setStep (bound : ℕ) (s : Finset ℕ) : Op → Finset ℕ × Result
  | .getFree => (leastFree bound s).elim (s, .element (-1)) fun k => (insert k s, .element k)
  | .clear e => ((inRange bound e).elim s s.erase, .nothing)
  | .set e => ((inRange bound e).elim s fun k => insert k s, .nothing)
  | .isSet e => (s, .isSet ((inRange bound e).elim false fun k => k ∈ s))
  | .clearAll => (∅, .nothing)

def setRun (bound : ℕ) : Finset ℕ → List Op → List Result
  | _, [] => []
  | s, op :: ops => (setStep bound s op).2 :: setRun bound (setStep bound s op).1 ops

def bit (table : List Word) (k : ℕ) : Bool :=
  (table.getD (k / 32) 0).getLsbD (k % 32)

theorem bit_modify {table : List Word} {i : ℕ} (hi : i < table.length) (f : Word → Word) (k : ℕ) :
    bit (table.modify i f) k =
      if k / 32 = i then (f (table.getD i 0)).getLsbD (k % 32) else bit table k := by
  simp only [bit, List.getD_eq_getElem?_getD, List.getElem?_modify]
  by_cases h : i = k / 32
  · rw [if_pos h.symm, ← h, List.getElem?_eq_getElem hi]
    simp
  · rw [if_neg (Ne.symm h)]
    simp [h]

theorem getLsbD_mask {j k : ℕ} (hk : k < 32) : (1#32 <<< j).getLsbD k = decide (k = j) := by
  rw [BitVec.getLsbD_shiftLeft, BitVec.getLsbD_one]
  simp only [hk, decide_true, Bool.true_and, Nat.zero_lt_succ]
  rw [Bool.eq_iff_iff]
  simp only [Bool.and_eq_true, Bool.not_eq_true', decide_eq_false_iff_not, decide_eq_true_eq]
  omega

theorem and_mask_eq_zero_iff {w : Word} {j : ℕ} (hj : j < 32) : w &&& 1#32 <<< j = 0 ↔ w.getLsbD j = false := by
  constructor
  · intro h
    have hbit := congrArg (BitVec.getLsbD · j) h
    simpa [getLsbD_mask hj] using hbit
  · intro h
    apply BitVec.eq_of_getLsbD_eq
    intro i hi
    rw [BitVec.getLsbD_and, getLsbD_mask hi]
    by_cases hij : i = j
    · simp [hij, h]
    · simp [hij]

theorem eq_iff_div_mod {k e : ℕ} : k = e ↔ k / 32 = e / 32 ∧ k % 32 = e % 32 := by
  constructor
  · rintro rfl
    exact ⟨rfl, rfl⟩
  · rintro ⟨hdiv, hmod⟩
    rw [← Nat.div_add_mod k 32, hdiv, hmod, Nat.div_add_mod]

theorem wordLoop_spec {table : List Word} {n i e : ℕ} (hlen : i + n ≤ table.length) (hie : i * 32 ≤ e)
    (hen : e < (i + n) * 32) (hfree : bit table e = false)
    (hbefore : ∀ k, i * 32 ≤ k → k < e → bit table k = true) : wordLoop table n i = some (some e) := by
  induction n generalizing i with
  | zero => omega
  | succ n ih =>
    have hi : i < table.length := by omega
    have hword (k : ℕ) (hk : k < 32) : bit table (i * 32 + k) = table[i].getLsbD k := by
      rw [bit, show (i * 32 + k) / 32 = i by omega, show (i * 32 + k) % 32 = k by omega,
        List.getD_eq_getElem _ _ hi]
    rw [wordLoop, List.getElem?_eq_getElem hi]
    dsimp only
    by_cases hhere : e < (i + 1) * 32
    · obtain ⟨j, rfl⟩ : ∃ j, e = i * 32 + j := ⟨e - i * 32, by omega⟩
      have hj : j < 32 := by omega
      rw [hword j (by omega)] at hfree
      have hne : table[i] ≠ BitVec.allOnes 32 := by
        intro h
        rw [h, BitVec.getLsbD_allOnes, decide_eq_false_iff_not] at hfree
        omega
      rw [if_pos hne]
      have hclear {b : ℕ} (hb : b < 32) : decide (table[i] &&& 1#32 <<< b = 0) = !table[i].getLsbD b := by
        rw [Bool.eq_iff_iff, decide_eq_true_eq, and_mask_eq_zero_iff hb, Bool.not_eq_true']
      obtain ⟨b, hb, -, hlt, hb', hfirst⟩ | ⟨-, hall⟩ := Pool.firstFrom_spec (fun j => table[i] &&& 1#32 <<< j = 0) 32 0
      · rw [hclear (by omega), Bool.not_eq_true'] at hb'
        -- neither of the two bits is in front of the other one
        have hle : ¬ b < j := fun h => by
          have hset := hbefore (i * 32 + b) (by omega) (by omega)
          rw [hword b (by omega), hb'] at hset
          exact Bool.false_ne_true hset
        have hge : ¬ j < b := fun h => by
          have hset := hfirst j (Nat.zero_le j) h
          rw [hclear (by omega), hfree] at hset
          exact Bool.noConfusion hset
        rw [bitLoop, hb, show b = j by omega]
      · have hset := hall j (Nat.zero_le j) (by omega)
        rw [hclear (by omega), hfree] at hset
        exact Bool.noConfusion hset
    · have hfull : table[i] = BitVec.allOnes 32 := by
        apply BitVec.eq_of_getLsbD_eq
        intro k hk
        rw [← hword k hk, hbefore _ (by omega) (by omega), BitVec.getLsbD_allOnes, decide_eq_true hk]
      rw [if_neg (not_not.mpr hfull)]
      exact ih (by omega) (by omega) (by omega) fun k hk hlt => hbefore k (by omega) hlt

/-! ## The table represents a set -/

namespace ResourceManager

/-- The table of a resource manager represents a set of numbers below a bound. -/
structure Represents (bound : ℕ) (rm : ResourceManager) (s : Finset ℕ) : Prop where
  maxElement : rm.maxElement = bound
  maxIndex : rm.maxIndex = bound / 32 + 1
  allocated : rm.maxIndex ≤ rm.table.length
  below : ∀ k ∈ s, k < bound
  bits : ∀ k < rm.maxIndex * 32, bit rm.table k = decide (k ∈ s)

variable {bound : ℕ} {rm : ResourceManager} {s : Finset ℕ}

theorem Represents.inRange (h : Represents bound rm s) (e : ℤ) : (e < 0 ∨ e ≥ rm.maxElement) ∧ inRange bound e = none ∨
      ∃ k, k < bound ∧ e = k ∧ ¬ (e < 0 ∨ e ≥ rm.maxElement) ∧ Rm.inRange bound e = some k := by
  rw [Rm.inRange, h.maxElement]
  by_cases hin : 0 ≤ e ∧ e < bound
  · exact Or.inr ⟨e.toNat, by omega, by omega, by omega, if_pos hin⟩
  · exact Or.inl ⟨by omega, if_neg hin⟩

theorem Represents.write (h : Represents bound rm s) {k : ℕ} (hk : k < bound) {f : Word → Word} {t : Finset ℕ}
    (ht : ∀ x ∈ t, x < bound) (hother : ∀ x, x ≠ k → (x ∈ t ↔ x ∈ s))
    (hf : ∀ w : Word, ∀ j < 32, (f w).getLsbD j = if j = k % 32 then decide (k ∈ t) else w.getLsbD j) :
    ∃ rm', ((Rm.write rm.table (k / 32) f).map fun table => { rm with table }) = some rm' ∧
      Represents bound rm' t := by
  have hindex : k / 32 < rm.maxIndex := by
    rw [h.maxIndex]
    exact Nat.lt_succ_of_le (Nat.div_le_div_right hk.le)
  have hlt := hindex.trans_le h.allocated
  rw [Rm.write, if_pos hlt]
  refine ⟨_, rfl, ⟨h.maxElement, h.maxIndex, ?_, ht, fun x hx => ?_⟩⟩
  · rw [List.length_modify]
    exact h.allocated
  · have hold := h.bits x hx
    rw [bit_modify hlt]
    by_cases hword : x / 32 = k / 32
    · rw [if_pos hword, hf _ _ (Nat.mod_lt _ (by decide))]
      rw [bit, hword] at hold
      by_cases hx : x = k
      · rw [if_pos (hx ▸ rfl), hx]
      · rw [if_neg fun hmod => hx (eq_iff_div_mod.mpr ⟨hword, hmod⟩), hold, decide_eq_decide.mpr (hother x hx)]
    · rw [if_neg hword, hold, decide_eq_decide.mpr (hother x fun heq => hword (heq ▸ rfl))]

theorem Represents.set (h : Represents bound rm s) {k : ℕ} (hk : k < bound) :
    ∃ rm', rm.rmSetElement k = some rm' ∧ Represents bound rm' (insert k s) := by
  rw [rmSetElement, if_neg (by rw [h.maxElement]; omega), Int.toNat_natCast]
  refine h.write hk (t := insert k s) (fun x hx => ?_) (fun x hx => by simp [hx]) fun w j hj => ?_
  · rcases Finset.mem_insert.mp hx with rfl | hx
    · exact hk
    · exact h.below x hx
  · rw [BitVec.getLsbD_or, getLsbD_mask hj]
    by_cases hjk : j = k % 32 <;> simp [hjk]

theorem Represents.clear (h : Represents bound rm s) {k : ℕ} (hk : k < bound) :
    ∃ rm', rm.rmClearElement k = some rm' ∧ Represents bound rm' (s.erase k) := by
  rw [rmClearElement, if_neg (by rw [h.maxElement]; omega), Int.toNat_natCast]
  refine h.write hk (t := s.erase k) (fun x hx => h.below x (Finset.mem_of_mem_erase hx)) (fun x hx => by simp [hx])
    fun w j hj => ?_
  rw [BitVec.getLsbD_and, BitVec.getLsbD_not, getLsbD_mask hj]
  by_cases hjk : j = k % 32 <;> simp [hjk, hj]

theorem clearAll_spec {n : ℕ} {table : List Word} (hn : n ≤ table.length) :
    ∃ table', (List.range n).foldlM (fun table i => Rm.write table i fun _ => 0) table = some table' ∧
      table'.length = table.length ∧ ∀ k < n * 32, bit table' k = false := by
  induction n with
  | zero => exact ⟨table, rfl, rfl, fun k hk => by omega⟩
  | succ n ih =>
    obtain ⟨table', hfold, hlen, hbits⟩ := ih (by omega)
    refine ⟨table'.modify n fun _ => 0, ?_, by rw [List.length_modify, hlen], fun k hk => ?_⟩
    · rw [List.range_succ, List.foldlM_append, hfold]
      simp [Rm.write, show n < table'.length by omega]
    · rw [bit_modify (by omega)]
      by_cases hword : k / 32 = n
      · rw [if_pos hword, BitVec.ofNat_eq_ofNat, BitVec.getLsbD_zero]
      · rw [if_neg hword]
        exact hbits k (by omega)

theorem clearAll (hmax : rm.maxElement = bound) (hindex : rm.maxIndex = bound / 32 + 1)
    (halloc : rm.maxIndex ≤ rm.table.length) :
    ∃ rm', rm.rmClearAllElements = some rm' ∧ Represents bound rm' ∅ := by
  obtain ⟨table, hfold, hlen, hbits⟩ := clearAll_spec halloc
  rw [rmClearAllElements, hfold]
  exact ⟨_, rfl, hmax, hindex, hlen ▸ halloc, by simp, fun k hk => by simpa using hbits k hk⟩

theorem Represents.getFree (h : Represents bound rm s) (hbound : bound < 32768) :
    ∃ rm' r, rm.rmGetFreeElement = some (rm', r) ∧
      Represents bound rm' (setStep bound s .getFree).1 ∧ (setStep bound s .getFree).2 = .element r := by
  -- the bit behind the last element is never set
  have hsearch {e : ℕ} (he : e ≤ bound) (hfree : e ∉ s) (hbefore : ∀ k < e, k ∈ s) :
      wordLoop rm.table rm.maxIndex 0 = some (some e) := by
    have hlt : e < rm.maxIndex * 32 := by
      rw [h.maxIndex]
      omega
    refine wordLoop_spec (by rw [Nat.zero_add]; exact h.allocated) (by omega) (by rw [Nat.zero_add]; exact hlt) ?_
      fun k _ hk => ?_
    · rw [h.bits e hlt, decide_eq_false hfree]
    · rw [h.bits k (by omega), decide_eq_true (hbefore k hk)]
  have hint {e : ℕ} (he : e ≤ bound) : toInt16 e = e := if_pos (by omega)
  rw [rmGetFreeElement, setStep]
  obtain ⟨e, hleast, -, hlt, hfree, hbefore⟩ | ⟨hleast, hfull⟩ := Pool.firstFrom_spec (fun k => decide (k ∉ s)) bound 0
  · have hlt' : e < bound := by omega
    obtain ⟨rm', hset, hrep⟩ := h.set hlt'
    rw [hsearch hlt'.le (by simpa using hfree) fun k hk => by simpa using hbefore k (Nat.zero_le k) hk, leastFree,
      hleast]
    refine ⟨rm', e, ?_, hrep, rfl⟩
    have hmax : (e : ℤ) < rm.maxElement := by
      rw [h.maxElement]
      exact_mod_cast hlt'
    dsimp only
    rw [hint hlt'.le, if_pos hmax, hset, Option.map_some, hrep.maxElement, if_neg (by omega)]
  · have hnot : bound ∉ s := fun hmem => (h.below bound hmem).false
    rw [hsearch le_rfl hnot fun k hk => by simpa using hfull k (Nat.zero_le k) (by omega), leastFree, hleast]
    refine ⟨rm, -1, ?_, h, rfl⟩
    simp [hint le_rfl, h.maxElement]

/-- A call gives the result for the set, and keeps that the table represents it. -/
theorem Represents.step (h : Represents bound rm s) (hbound : bound < 32768) (op : Op) :
    ∃ rm', rm.step op = some (rm', (setStep bound s op).2) ∧ Represents bound rm' (setStep bound s op).1 := by
  cases op with
  | getFree =>
    obtain ⟨rm', r, hfree, hrep, hr⟩ := h.getFree hbound
    exact ⟨rm', by rw [ResourceManager.step, hfree, hr]; rfl, hrep⟩
  | clear e =>
    obtain ⟨hout, hnone⟩ | ⟨k, hk, rfl, hin, hsome⟩ := h.inRange e
    · exact ⟨rm, by rw [ResourceManager.step, rmClearElement, if_pos hout]; rfl, by rwa [setStep, hnone]⟩
    · obtain ⟨rm', hclear, hrep⟩ := h.clear hk
      exact ⟨rm', by rw [ResourceManager.step, hclear]; rfl, by rwa [setStep, hsome]⟩
  | set e =>
    obtain ⟨hout, hnone⟩ | ⟨k, hk, rfl, hin, hsome⟩ := h.inRange e
    · exact ⟨rm, by rw [ResourceManager.step, rmSetElement, if_pos hout]; rfl, by rwa [setStep, hnone]⟩
    · obtain ⟨rm', hset, hrep⟩ := h.set hk
      exact ⟨rm', by rw [ResourceManager.step, hset]; rfl, by rwa [setStep, hsome]⟩
  | isSet e =>
    refine ⟨rm, ?_, h⟩
    obtain ⟨hout, hnone⟩ | ⟨k, hk, rfl, hin, hsome⟩ := h.inRange e
    · rw [ResourceManager.step, rmIsElementSet, if_pos hout, setStep, hnone]
      rfl
    · have hlt : k < rm.maxIndex * 32 := by
        rw [h.maxIndex]
        omega
      have hbit := h.bits k hlt
      have hindex : k / 32 < rm.table.length := (Nat.div_lt_of_lt_mul (by rwa [Nat.mul_comm])).trans_le h.allocated
      rw [bit, List.getD_eq_getElem _ _ hindex] at hbit
      rw [ResourceManager.step, rmIsElementSet, if_neg hin, setStep, hsome, Int.toNat_natCast,
        List.getElem?_eq_getElem hindex]
      simp only [Option.map_some, Option.elim_some, ne_eq, and_mask_eq_zero_iff (Nat.mod_lt k (by decide : 32 > 0)),
        hbit]
      simp
  | clearAll =>
    obtain ⟨rm', hclear, hrep⟩ := clearAll h.maxElement h.maxIndex h.allocated
    exact ⟨rm', by rw [ResourceManager.step, hclear]; rfl, hrep⟩

theorem Represents.run (h : Represents bound rm s) (hbound : bound < 32768) (ops : List Op) :
    rm.run ops = some (setRun bound s ops) := by
  induction ops generalizing rm s with
  | nil => rfl
  | cons op ops ih =>
    obtain ⟨rm', hstep, hrep⟩ := h.step hbound op
    rw [ResourceManager.run, hstep]
    dsimp only
    rw [ih hrep]
    rfl

end ResourceManager

/-- **The resource manager is a finite set.** Every run has the results of a set of numbers below the number of
elements, so no word is read or written behind the allocated ones. -/
theorem run_rmCreate (maxElement : ℕ) (hmax : maxElement < 32768) (memory : ℕ → Word) (ops : List Op) :
    ((rmCreate maxElement memory).bind fun rm => rm.run ops) = some (setRun maxElement ∅ ops) := by
  obtain ⟨rm, hcreate, hrep⟩ := @ResourceManager.clearAll maxElement
    { maxElement, maxIndex := maxElement / 32 + 1
      table := (List.range ((maxElement / 32 + 1) * 32 / 4)).map memory }
    rfl rfl (by simp only [List.length_map, List.length_range]; omega)
  rw [rmCreate, hcreate]
  exact hrep.run hmax ops

/-- The least element of two is taken again after it is cleared, and then the set is full. -/
theorem run_rmCreate_two :
    (rmCreate 2 fun _ => 0).bind (·.run [.getFree, .getFree, .clear 0, .isSet 1, .getFree, .getFree]) =
      some [.element 0, .element 1, .nothing, .isSet true, .element 0, .element (-1)] :=
  (run_rmCreate 2 (by decide) (fun _ => 0) _).trans (by decide)

end Rm
