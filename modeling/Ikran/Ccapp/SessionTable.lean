import Ikran.Lib.DoublyLinked
import Ikran.Lib.Keyed
import Mathlib.Data.List.Find
import Mathlib.Data.List.Perm.Subperm
import Mathlib.Data.List.Range

/-!
# The table of sessions

`sessionHash.c`, which keeps records under session ids in chains. A block is known by its number among those that
were allocated.
-/

namespace Ccapp

open LinkedList

/-- `hashtable` with the fields of its blocks. -/
structure SessionTable (α : Type*) where
  hashtable : ℕ → Option ℕ
  next : ℕ → Option ℕ
  prev : ℕ → Option ℕ
  key : ℕ → UInt32
  data : ℕ → α
  allocated : ℕ

/-- `hashItr_t`, as `hashItrInit` leaves it. -/
structure HashItr where
  bucket : ℕ := 0
  node : Option ℕ := none

/-- `sessionHash`. -/
def sessionHash (key : UInt32) : ℕ := ((key + ((key &&& 0xFFFF0000) >>> 16)) % 67).toNat

namespace SessionTable

variable {α : Type*} (s : SessionTable α)

/-- The block of a chain that passes a test. -/
def find (hit : ℕ → Prop) [DecidablePred hit] (p : Option ℕ) : Option ℕ :=
  (search hit s.next s.allocated none p).bind Prod.fst

/-- `addhash`, unless there is no memory. -/
def addhash (key : UInt32) (data : α) (memory : Bool) : ℤ × SessionTable α :=
  if memory = false then (-1, s)
  else
    let newhash := s.allocated
    let hashval := sessionHash key
    let s := { s with
      key := Function.update s.key newhash key
      data := Function.update s.data newhash data
      allocated := s.allocated + 1 }
    (s.hashtable hashval).elim
      (0, { s with
        hashtable := Function.update s.hashtable hashval (some newhash)
        next := Function.update s.next newhash none
        prev := Function.update s.prev newhash none })
      fun head => (s.find (fun curHash => s.next curHash = none) (some head)).elim (0, s) fun curHash =>
        (0, { s with
          next := Function.update (Function.update s.next curHash (some newhash)) newhash none
          prev := Function.update s.prev newhash (some curHash) })

/-- `findhash`. -/
def findhash (key : UInt32) : Option α :=
  (s.find (fun curHash => s.key curHash = key) (s.hashtable (sessionHash key))).map s.data

/-- `delhash`. -/
def delhash (key : UInt32) : ℤ × SessionTable α :=
  let hashval := sessionHash key
  (s.hashtable hashval).elim (-1, s) fun head =>
    if s.key head = key then
      (0, { s with
        hashtable := Function.update s.hashtable hashval (s.next head)
        prev := (s.next head).elim s.prev fun next => Function.update s.prev next none })
    else
      (s.find (fun curHash => s.key curHash = key) (s.next head)).elim (-1, s) fun curHash =>
        (0, { s with
          next := (s.prev curHash).elim s.next fun prev => Function.update s.next prev (s.next curHash)
          prev := (s.next curHash).elim s.prev fun next => Function.update s.prev next (s.prev curHash) })

/-- The first bucket that has a block, from one on. -/
def firstFrom (bucket : ℕ) : Option (ℕ × ℕ) :=
  (List.range' bucket (67 - bucket)).findSome? fun i => (s.hashtable i).map fun node => (i, node)

/-- The search of an iteration from a bucket on. -/
def searchBuckets (bucket : ℕ) (node : Option ℕ) : Option α × HashItr :=
  (s.firstFrom bucket).elim (none, ⟨bucket, node⟩) fun r => (some (s.data r.2), ⟨r.1, some r.2⟩)

/-- `hashItrNext`, with the pointer it returns and the iteration it leaves. -/
def hashItrNext (itr : HashItr) : Option α × HashItr :=
  let bucket := if itr.node = none then itr.bucket else itr.bucket + 1
  (itr.node.bind s.next).elim (s.searchBuckets bucket itr.node) fun next =>
    (some (s.data next), { itr with node := some next })

/-- What an iteration returns, call by call. -/
def iterate : ℕ → HashItr → List (Option α)
  | 0, _ => []
  | n + 1, itr => (s.hashItrNext itr).1 :: iterate n (s.hashItrNext itr).2

/-- `ccpro_get_sessionId_by_callid`. -/
def ccproGetSessionIdByCallid (callId : UInt16) : UInt32 :=
  ((List.range 67).findSome? fun i =>
    s.find (fun curHash => s.key curHash &&& 0xffff = callId.toUInt32) (s.hashtable i)).elim 0 s.key

/-- The calls that change the table. -/
inductive Op (α : Type*)
  | add (key : UInt32) (data : α) (memory : Bool)
  | delete (key : UInt32)

/-- The table behind a call. -/
def apply : Op α → SessionTable α
  | .add key data memory => (s.addhash key data memory).2
  | .delete key => (s.delhash key).2

/-! ## The map -/

def Op.onMap (m : UInt32 → Option α) : Op α → UInt32 → Option α
  | add key data memory => if memory then Function.update m key (some data) else m
  | delete key => Function.update m key none

/-- Keys are added only when they are not present. -/
def Op.Fresh (m : UInt32 → Option α) : Op α → Prop
  | add key _ _ => m key = none
  | delete _ => True

/-- All calls of a run add such keys. -/
def AllFresh : (UInt32 → Option α) → List (Op α) → Prop
  | _, [] => True
  | m, op :: ops => op.Fresh m ∧ AllFresh (op.onMap m) ops

/-- The chains of a table, and the map they stand for. -/
structure Stores (chains : ℕ → List ℕ) (m : UInt32 → Option α) : Prop where
  double : ∀ i, Double s.next s.prev (s.hashtable i) (chains i)
  hash : ∀ i, ∀ a ∈ chains i, sessionHash (s.key a) = i
  lt : ∀ i, ∀ a ∈ chains i, a < s.allocated
  keys : ∀ i, ((chains i).map s.key).Nodup
  maps : ∀ key, m key = ((chains (sessionHash key)).find? fun a => s.key a = key).map s.data

variable {s} {chains : ℕ → List ℕ} {m : UInt32 → Option α}

theorem sessionHash_lt (key : UInt32) : sessionHash key < 67 := by
  rw [sessionHash, UInt32.toNat_mod]
  exact Nat.mod_lt _ (by decide)

namespace Stores

theorem length_le (h : s.Stores chains m) (i : ℕ) : (chains i).length ≤ s.allocated := by
  have hsub := List.subperm_of_subset (h.double i).nodup fun a ha => List.mem_range.mpr (h.lt i a ha)
  simpa using hsub.length_le

theorem find_eq (h : s.Stores chains m) (hit : ℕ → Prop) [DecidablePred hit] (i : ℕ) :
    s.find hit (s.hashtable i) = (chains i).find? fun a => hit a :=
  search_fst (h.double i).path (h.length_le i)

theorem findhash_eq (h : s.Stores chains m) (key : UInt32) : s.findhash key = m key := by
  rw [findhash, h.find_eq, h.maps]

/-- The block to come is in no chain. -/
theorem not_mem (h : s.Stores chains m) (i : ℕ) : s.allocated ∉ chains i := fun hmem => (h.lt i _ hmem).false

/-- The blocks of two buckets are different. -/
theorem not_mem_of_ne (h : s.Stores chains m) {i j a : ℕ} (hij : i ≠ j) (ha : a ∈ chains i) : a ∉ chains j :=
  fun hmem => hij ((h.hash i a ha).symm.trans (h.hash j a hmem))

/-- Adding a key links its block to the end of its chain. -/
theorem link (h : s.Stores chains m) {key : UInt32} (hkey : m key = none) (data : α) {s' : SessionTable α}
    (hkeys : s'.key = Function.update s.key s.allocated key) (hdata : s'.data = Function.update s.data s.allocated data)
    (halloc : s'.allocated = s.allocated + 1)
    (hdouble : ∀ i, Double s'.next s'.prev (s'.hashtable i)
      (Function.update chains (sessionHash key) (chains (sessionHash key) ++ [s.allocated]) i)) :
    s'.Stores (Function.update chains (sessionHash key) (chains (sessionHash key) ++ [s.allocated]))
      (Function.update m key (some data)) := by
  have hold : ∀ i, ∀ a ∈ chains i, s'.key a = s.key a := fun i a ha => by
    rw [hkeys, update_of_mem ha (h.not_mem i)]
  have hnew : s'.key s.allocated = key := by rw [hkeys, Function.update_self]
  have hmem : ∀ i a, a ∈ Function.update chains (sessionHash key) (chains (sessionHash key) ++ [s.allocated]) i →
      a ∈ chains i ∨ a = s.allocated ∧ i = sessionHash key := fun i a ha => by
    by_cases hi : i = sessionHash key
    · subst hi
      rw [Function.update_self] at ha
      simpa using ha
    · rw [Function.update_of_ne hi] at ha
      exact .inl ha
  have hmap : ∀ i, (chains i).map s'.key = (chains i).map s.key := fun i => List.map_congr_left (hold i)
  have hfind : ∀ i key', ((chains i).find? fun a => s'.key a = key').map s'.data =
      ((chains i).find? fun a => s.key a = key').map s.data := fun i key' => by
    rw [List.find?_congr fun a ha => by rw [hold i a ha]]
    refine Option.map_congr fun a ha => ?_
    rw [hdata, update_of_mem (List.mem_of_find?_eq_some ha) (h.not_mem i)]
  have hnone : key ∉ (chains (sessionHash key)).map s.key := fun hmem => by
    obtain ⟨a, ha, hak⟩ := List.mem_map.mp hmem
    have hfound := h.maps key
    rw [hkey, eq_comm, Option.map_eq_none_iff, List.find?_eq_none] at hfound
    exact hfound a ha (by simpa using hak)
  refine ⟨hdouble, fun i a ha => ?_, fun i a ha => ?_, fun i => ?_, fun key' => ?_⟩
  · rcases hmem i a ha with ha | ⟨rfl, rfl⟩
    · rw [hold i a ha, h.hash i a ha]
    · rw [hnew]
  · rw [halloc]
    rcases hmem i a ha with ha | ⟨rfl, -⟩
    · exact Nat.lt_succ_of_lt (h.lt i a ha)
    · exact Nat.lt_succ_self _
  · by_cases hi : i = sessionHash key
    · subst hi
      rw [Function.update_self, List.map_append, hmap, List.map_singleton, hnew]
      exact List.nodup_append_comm.mpr (List.nodup_cons.mpr ⟨hnone, h.keys _⟩)
    · rw [Function.update_of_ne hi, hmap]
      exact h.keys i
  · by_cases hk : key' = key
    · subst hk
      rw [Function.update_self, Function.update_self, List.find?_append, Option.map_or, hfind, ← h.maps, hkey]
      simp [hnew, hdata]
    · rw [Function.update_of_ne hk, h.maps]
      by_cases hi : sessionHash key' = sessionHash key
      · rw [hi, Function.update_self, List.find?_append, Option.map_or, hfind]
        have hother : s'.key s.allocated ≠ key' := by rw [hnew]; exact Ne.symm hk
        simp [hother]
      · rw [Function.update_of_ne hi, hfind]

theorem add (h : s.Stores chains m) {key : UInt32} (hkey : m key = none) (data : α) (memory : Bool) :
    ∃ chains', (s.addhash key data memory).2.Stores chains' ((Op.add key data memory).onMap m) := by
  cases memory with
  | false => exact ⟨chains, h⟩
  | true =>
    refine ⟨Function.update chains (sessionHash key) (chains (sessionHash key) ++ [s.allocated]), ?_⟩
    rw [addhash, if_neg (by decide), Op.onMap, if_pos rfl]
    dsimp only
    have hhead := (h.double (sessionHash key)).path.eq_head?
    cases hhash : s.hashtable (sessionHash key) with
    | none =>
      have hnil : chains (sessionHash key) = [] := List.head?_eq_none_iff.mp (hhead.symm.trans hhash)
      rw [Option.elim_none]
      refine h.link hkey data rfl rfl rfl fun i => ?_
      dsimp only
      by_cases hi : i = sessionHash key
      · subst hi
        rw [Function.update_self, Function.update_self, hnil]
        exact ⟨⟨rfl, Function.update_self ..⟩, ⟨Function.update_self .., trivial⟩, List.nodup_singleton _⟩
      · rw [Function.update_of_ne hi, Function.update_of_ne hi]
        exact (h.double i).congr (fun b hb => update_of_mem hb (h.not_mem i)) fun b hb =>
          update_of_mem hb (h.not_mem i)
    | some head =>
      obtain ⟨front, b, hsplit⟩ : ∃ front b, chains (sessionHash key) = front ++ [b] := by
        have hne : chains (sessionHash key) ≠ [] := fun hnil => by
          rw [hhash, hnil] at hhead
          cases hhead
        exact ⟨_, _, (List.dropLast_append_getLast hne).symm⟩
      have hpath := (h.double (sessionHash key)).path
      have hlength := h.length_le (sessionHash key)
      rw [hsplit] at hpath hlength
      rw [hhash] at hpath
      have hlast : (search (fun curHash => s.next curHash = none) s.next (s.allocated + 1) none (some head)).bind
          Prod.fst = some b :=
        (search_fst hpath (Nat.le_succ_of_le hlength)).trans hpath.find?_last
      simp only [find, Option.elim_some, hlast]
      refine h.link hkey data rfl rfl rfl fun i => ?_
      by_cases hi : i = sessionHash key
      · subst hi
        have hdouble := h.double (sessionHash key)
        have hnot := h.not_mem (sessionHash key)
        rw [hsplit] at hdouble hnot
        rw [Function.update_self, hsplit]
        exact hdouble.linkLast hnot
      · have hb : b ∉ chains i := fun hmem => h.not_mem_of_ne hi hmem (by rw [hsplit]; simp)
        rw [Function.update_of_ne hi]
        refine (h.double i).congr (fun c hc => ?_) fun c hc => update_of_mem hc (h.not_mem i)
        dsimp only
        rw [update_of_mem hc (h.not_mem i), update_of_mem hc hb]

/-- Deleting a key unlinks its block. -/
theorem unlink (h : s.Stores chains m) {key : UInt32} {a : ℕ} {front back : List ℕ}
    (hsplit : chains (sessionHash key) = front ++ a :: back) (hkey : s.key a = key) {s' : SessionTable α}
    (hkeys : s'.key = s.key) (hdata : s'.data = s.data) (halloc : s'.allocated = s.allocated)
    (hdouble : ∀ i, Double s'.next s'.prev (s'.hashtable i)
      (Function.update chains (sessionHash key) (front ++ back) i)) :
    s'.Stores (Function.update chains (sessionHash key) (front ++ back)) (Function.update m key none) := by
  have hsub : ∀ i, (Function.update chains (sessionHash key) (front ++ back) i).Sublist (chains i) := fun i => by
    by_cases hi : i = sessionHash key
    · subst hi
      rw [Function.update_self, hsplit]
      exact (List.sublist_cons_self a back).append_left front
    · rw [Function.update_of_ne hi]
  refine ⟨hdouble, fun i b hb => ?_, fun i b hb => ?_, fun i => ?_, fun key' => ?_⟩
  · rw [hkeys, h.hash i b ((hsub i).subset hb)]
  · rw [halloc]
    exact h.lt i b ((hsub i).subset hb)
  · rw [hkeys]
    exact (h.keys i).sublist ((hsub i).map s.key)
  · rw [hkeys, hdata]
    by_cases hk : key' = key
    · subst hk
      have hnodup := h.keys (sessionHash key')
      rw [hsplit, List.map_append, List.map_cons, List.nodup_middle, List.nodup_cons, ← List.map_append, hkey] at hnodup
      rw [Function.update_self, Function.update_self, eq_comm, Option.map_eq_none_iff, List.find?_eq_none]
      exact fun b hb hbk => hnodup.1 (List.mem_map.mpr ⟨b, hb, of_decide_eq_true hbk⟩)
    · rw [Function.update_of_ne hk, h.maps]
      by_cases hi : sessionHash key' = sessionHash key
      · rw [hi, Function.update_self, hsplit, List.find?_append, List.find?_append,
          List.find?_cons_of_neg (by simpa [hkey] using Ne.symm hk)]
      · rw [Function.update_of_ne hi]

/-- The node behind one of a chain is in the chain. -/
theorem next_mem (h : s.Stores chains m) {i a : ℕ} {front back : List ℕ} (hsplit : chains i = front ++ a :: back)
    {c : ℕ} (hc : s.next a = some c) : c ∈ chains i := by
  have hpath := (h.double i).path
  rw [hsplit] at hpath
  obtain ⟨_, -, -, hback⟩ := path_append.mp hpath
  have hhead := hback.eq_head?
  rw [hc] at hhead
  rw [hsplit]
  exact List.mem_append_right _ (List.mem_cons_of_mem a (List.mem_of_mem_head? hhead.symm))

/-- What is changed at the node behind one of a chain leaves the other chains. -/
theorem elim_next (h : s.Stores chains m) {i j a b : ℕ} {front back : List ℕ} (hsplit : chains i = front ++ a :: back)
    (hij : j ≠ i) (hb : b ∈ chains j) (v : Option ℕ) :
    (s.next a).elim s.prev (fun c => Function.update s.prev c v) b = s.prev b := by
  cases hc : s.next a with
  | none => rfl
  | some c => exact update_of_mem hb fun hmem => h.not_mem_of_ne hij hmem (h.next_mem hsplit hc)

theorem onMap_delete {key : UInt32} (hkey : m key = none) : (Op.delete key : Op α).onMap m = m :=
  Function.update_eq_self_iff.mpr hkey.symm

/-- A key is deleted if it is present, and only it. -/
theorem delete (h : s.Stores chains m) (key : UInt32) :
    (∃ chains', (s.delhash key).2.Stores chains' ((Op.delete key).onMap m)) ∧
      ((s.delhash key).1 = 0 ↔ (m key).isSome) := by
  have hmaps := h.maps key
  have hhead := (h.double (sessionHash key)).path.eq_head?
  rw [delhash]
  cases hhash : s.hashtable (sessionHash key) with
  | none =>
    rw [List.head?_eq_none_iff.mp (hhead.symm.trans hhash)] at hmaps
    exact ⟨⟨chains, by rwa [onMap_delete hmaps]⟩,
      iff_of_false (show ¬ (-1 : ℤ) = 0 by decide) (by rw [hmaps]; exact Bool.false_ne_true)⟩
  | some head =>
    obtain ⟨back, hsplit⟩ : ∃ back, chains (sessionHash key) = head :: back := by
      rw [hhash] at hhead
      exact List.head?_eq_some_iff.mp hhead.symm
    have hsplit₀ : chains (sessionHash key) = [] ++ head :: back := hsplit
    by_cases hkey : s.key head = key
    · rw [Option.elim_some, if_pos hkey]
      rw [hsplit, List.find?_cons_of_pos (by simpa using hkey)] at hmaps
      refine ⟨⟨Function.update chains (sessionHash key) back, ?_⟩, iff_of_true rfl (by rw [hmaps]; rfl)⟩
      refine h.unlink hsplit₀ hkey rfl rfl rfl fun i => ?_
      by_cases hi : i = sessionHash key
      · subst hi
        have hdouble := h.double (sessionHash key)
        rw [hsplit] at hdouble
        dsimp only
        rw [Function.update_self, Function.update_self]
        exact hdouble.unlinkHead
      · dsimp only
        rw [Function.update_of_ne hi, Function.update_of_ne hi]
        exact (h.double i).congr (fun _ _ => rfl) fun b hb => h.elim_next hsplit₀ hi hb none
    · rw [Option.elim_some, if_neg hkey]
      rw [hsplit, List.find?_cons_of_neg (by simpa using hkey)] at hmaps
      have hpath := (h.double (sessionHash key)).path
      have hlength := h.length_le (sessionHash key)
      rw [hsplit] at hpath hlength
      have hfind : s.find (fun curHash => s.key curHash = key) (s.next head) = back.find? fun a => s.key a = key :=
        search_fst hpath.2 (Nat.le_of_succ_le hlength)
      rw [hfind]
      cases hfound : back.find? fun a => s.key a = key with
      | none =>
        rw [hfound] at hmaps
        exact ⟨⟨chains, by rwa [onMap_delete hmaps]⟩,
          iff_of_false (show ¬ (-1 : ℤ) = 0 by decide) (by rw [hmaps]; exact Bool.false_ne_true)⟩
      | some b =>
        rw [hfound] at hmaps
        obtain ⟨hb, front, back', hback, -⟩ := List.find?_eq_some_iff_append.mp hfound
        -- the block in front of the one that is found
        obtain ⟨front', q, hq⟩ : ∃ front' q, head :: front = front' ++ [q] :=
          ⟨_, _, (List.dropLast_append_getLast (List.cons_ne_nil head front)).symm⟩
        have hsplit' : chains (sessionHash key) = front' ++ q :: b :: back' := by
          rw [hsplit, hback, ← List.cons_append, hq, List.append_assoc]
          rfl
        have hdouble := h.double (sessionHash key)
        rw [hsplit'] at hdouble
        have hprev : s.prev b = some q := (back_append.mp hdouble.back).2.2.1
        have hmem : q ∈ chains (sessionHash key) := by rw [hsplit']; simp
        have hsplit'' : chains (sessionHash key) = (front' ++ [q]) ++ b :: back' := by rw [hsplit']; simp
        refine ⟨⟨Function.update chains (sessionHash key) (front' ++ [q] ++ back'), ?_⟩,
          iff_of_true rfl (by rw [hmaps]; rfl)⟩
        rw [Option.elim_some, hprev]
        refine h.unlink hsplit'' (by simpa using hb) rfl rfl rfl fun i => ?_
        dsimp only
        by_cases hi : i = sessionHash key
        · subst hi
          rw [Function.update_self, List.append_assoc, ← hprev]
          exact hprev ▸ hdouble.unlink
        · rw [Function.update_of_ne hi]
          exact (h.double i).congr (fun c hc => update_of_mem hc fun hmem' => h.not_mem_of_ne hi hmem' hmem)
            fun c hc => h.elim_next hsplit'' hi hc (some q)

end Stores

/-! ## Iterating -/

def blocksFrom (chains : ℕ → List ℕ) (bucket : ℕ) : List ℕ := (List.range' bucket (67 - bucket)).flatMap chains

theorem blocksFrom_of_lt {bucket : ℕ} (hlt : bucket < 67) :
    blocksFrom chains bucket = chains bucket ++ blocksFrom chains (bucket + 1) := by
  rw [blocksFrom, show 67 - bucket = 67 - (bucket + 1) + 1 by omega, List.range'_succ, List.flatMap_cons]
  rfl

theorem blocksFrom_of_le {bucket : ℕ} (hle : 67 ≤ bucket) : blocksFrom chains bucket = [] := by
  rw [blocksFrom, Nat.sub_eq_zero_of_le hle]
  rfl

/-- The first bucket that has blocks is found. By induction on the buckets that are left. -/
theorem Stores.firstFrom_spec (h : s.Stores chains m) (k bucket : ℕ) (hk : 67 - bucket = k) :
    blocksFrom chains bucket = [] ∧ s.firstFrom bucket = none ∨ ∃ i a back, s.firstFrom bucket = some (i, a) ∧
      chains i = a :: back ∧ blocksFrom chains bucket = a :: (back ++ blocksFrom chains (i + 1)) := by
  induction k generalizing bucket with
  | zero =>
    refine .inl ⟨blocksFrom_of_le (Nat.sub_eq_zero_iff_le.mp hk), ?_⟩
    rw [firstFrom, hk]
    rfl
  | succ k ih =>
    have hlt : bucket < 67 := by omega
    have hhead := (h.double bucket).path.eq_head?
    have hfirst : s.firstFrom bucket =
        ((s.hashtable bucket).map fun node => (bucket, node)).or (s.firstFrom (bucket + 1)) := by
      rw [firstFrom, hk, List.range'_succ, List.findSome?_cons, firstFrom, show 67 - (bucket + 1) = k by omega]
      cases (s.hashtable bucket) <;> rfl
    rw [blocksFrom_of_lt hlt, hfirst, hhead]
    cases hchain : chains bucket with
    | nil => exact ih (bucket + 1) (by omega)
    | cons a back => exact .inr ⟨bucket, a, back, rfl, hchain, rfl⟩

/-- What an iteration has still to visit. -/
def At (s : SessionTable α) (chains : ℕ → List ℕ) (itr : HashItr) (rest : List ℕ) : Prop :=
  itr.node.elim (rest = blocksFrom chains itr.bucket) fun a =>
    ∃ back, Path s.next (s.next a) back none ∧ rest = back ++ blocksFrom chains (itr.bucket + 1)

/-- The next block is visited, if there is one. -/
theorem At.next {itr : HashItr} {rest : List ℕ} (hat : At s chains itr rest) (h : s.Stores chains m) :
    (s.hashItrNext itr).1 = rest.head?.map s.data ∧ At s chains (s.hashItrNext itr).2 rest.tail := by
  -- the search from a bucket on
  have hbucket : ∀ bucket node, (blocksFrom chains bucket = [] → At s chains ⟨bucket, node⟩ []) →
      ∀ r, r = s.searchBuckets bucket node →
      r.1 = (blocksFrom chains bucket).head?.map s.data ∧ At s chains r.2 (blocksFrom chains bucket).tail := by
    rintro bucket node hend r rfl
    rcases h.firstFrom_spec _ bucket rfl with ⟨hnil, hnone⟩ | ⟨i, a, back, hsome, hchain, hblocks⟩
    · rw [searchBuckets, hnone, hnil]
      exact ⟨rfl, hend hnil⟩
    · rw [searchBuckets, hsome, hblocks]
      have hpath := (h.double i).path
      rw [hchain] at hpath
      exact ⟨rfl, back, hpath.2, rfl⟩
  obtain ⟨bucket, _ | a⟩ := itr
  · obtain rfl : rest = blocksFrom chains bucket := hat
    exact hbucket bucket none (fun hnil => hnil.symm) _ rfl
  · obtain ⟨back, hpath, rfl⟩ := hat
    cases back with
    | nil =>
      have hnone : s.next a = none := hpath
      rw [hashItrNext, Option.bind_some, hnone]
      refine hbucket (bucket + 1) (some a) (fun hnil => ⟨[], hnone, ?_⟩) _ rfl
      by_cases hlt : bucket + 1 < 67
      · rw [blocksFrom_of_lt hlt, List.append_eq_nil_iff] at hnil
        exact hnil.2.symm
      · exact (blocksFrom_of_le (by dsimp only; omega)).symm
    | cons b back =>
      obtain ⟨hb, hrest⟩ := hpath
      rw [hashItrNext, Option.bind_some, hb]
      exact ⟨rfl, back, hrest, rfl⟩

/-- All that is to be visited is visited in order, and then nothing. -/
theorem At.iterate {itr : HashItr} {rest : List ℕ} (hat : At s chains itr rest) (h : s.Stores chains m) (n : ℕ) :
    s.iterate n itr = ((rest.map fun a => some (s.data a)) ++ List.replicate n none).take n := by
  induction n generalizing itr rest with
  | zero => rfl
  | succ n ih =>
    obtain ⟨hdata, hnext⟩ := hat.next h
    rw [SessionTable.iterate, hdata, ih hnext]
    cases rest with
    | nil => simp [List.replicate_succ]
    | cons a rest => simp [List.take_append, List.replicate_succ']

/-! ## Runs -/

theorem mem_blocksFrom {a : ℕ} : a ∈ blocksFrom chains 0 ↔ ∃ i < 67, a ∈ chains i := by
  simp [blocksFrom, List.mem_flatMap]

theorem Stores.eq_some_iff (h : s.Stores chains m) (key : UInt32) (d : α) :
    m key = some d ↔ ∃ a ∈ blocksFrom chains 0, s.key a = key ∧ s.data a = d := by
  rw [h.maps, Option.map_eq_some_iff]
  constructor
  · rintro ⟨a, hfound, hd⟩
    exact ⟨a, mem_blocksFrom.mpr ⟨_, sessionHash_lt key, List.mem_of_find?_eq_some hfound⟩,
      by simpa using List.find?_some hfound, hd⟩
  · rintro ⟨a, ha, hkey, hd⟩
    obtain ⟨i, -, ha⟩ := mem_blocksFrom.mp ha
    obtain rfl : sessionHash key = i := hkey ▸ h.hash i a ha
    exact ⟨a, Keyed.find?_eq (h.keys _) ha hkey, hd⟩

theorem Stores.keys_nodup (h : s.Stores chains m) : ((blocksFrom chains 0).map s.key).Nodup := by
  rw [blocksFrom, List.map_flatMap, List.nodup_flatMap]
  refine ⟨fun i _ => h.keys i, (List.nodup_range' ..).pairwise_of_forall_ne fun i _ j _ hij => ?_⟩
  intro key hi hj
  obtain ⟨a, ha, hka⟩ := List.mem_map.mp hi
  obtain ⟨b, hb, hkb⟩ := List.mem_map.mp hj
  exact hij ((h.hash i a ha).symm.trans ((congrArg sessionHash (hka.trans hkb.symm)).trans (h.hash j b hb)))

/-- The key that is found for a call id. -/
theorem Stores.callId_eq (h : s.Stores chains m) (callId : UInt16) : s.ccproGetSessionIdByCallid callId =
    ((blocksFrom chains 0).find? fun a => s.key a &&& 0xffff = callId.toUInt32).elim 0 s.key := by
  rw [ccproGetSessionIdByCallid, blocksFrom, List.find?_flatMap, List.range_eq_range']
  simp only [h.find_eq, Nat.sub_zero]

structure IsMap (s : SessionTable α) (m : UInt32 → Option α) : Prop where
  finds : ∀ key, s.findhash key = m key
  deletes : ∀ key, (s.delhash key).1 = 0 ↔ (m key).isSome
  removes : ∀ key key', (s.delhash key).2.findhash key' = if key' = key then none else m key'
  /-- Every record is visited once, and then nothing. -/
  iterates : ∃ records : List (UInt32 × α), (records.map Prod.fst).Nodup ∧
    (∀ key d, (key, d) ∈ records ↔ m key = some d) ∧
      ∀ n, s.iterate n {} = ((records.map fun r : UInt32 × α => some r.2) ++ List.replicate n none).take n
  callId : ∀ callId : UInt16, (∃ key, (m key).isSome ∧ key &&& 0xffff = callId.toUInt32) →
    (m (s.ccproGetSessionIdByCallid callId)).isSome ∧
      s.ccproGetSessionIdByCallid callId &&& 0xffff = callId.toUInt32
  noCallId : ∀ callId : UInt16, (¬ ∃ key, (m key).isSome ∧ key &&& 0xffff = callId.toUInt32) →
    s.ccproGetSessionIdByCallid callId = 0
  consistent : ∃ chains : ℕ → List ℕ, ∀ i, Double s.next s.prev (s.hashtable i) (chains i)

theorem Stores.isMap (h : s.Stores chains m) : IsMap s m := by
  refine ⟨h.findhash_eq, fun key => (h.delete key).2, fun key key' => ?_,
    ⟨(blocksFrom chains 0).map fun a => (s.key a, s.data a), ?_, fun key d => ?_, fun n => ?_⟩, fun callId hkey => ?_,
    fun callId hnone => ?_, chains, h.double⟩
  · obtain ⟨chains', hdelete⟩ := (h.delete key).1
    rw [hdelete.findhash_eq]
    exact Function.update_apply ..
  · rw [List.map_map]
    exact h.keys_nodup
  · rw [h.eq_some_iff, List.mem_map]
    simp only [Prod.mk.injEq]
  · have hat : At s chains {} (blocksFrom chains 0) := rfl
    rw [hat.iterate h, List.map_map]
    rfl
  · obtain ⟨key, hsome, hcall⟩ := hkey
    obtain ⟨d, hd⟩ := Option.isSome_iff_exists.mp hsome
    obtain ⟨a, ha, rfl, -⟩ := (h.eq_some_iff key d).mp hd
    obtain ⟨b, hb⟩ := Option.isSome_iff_exists.mp (List.find?_isSome
      (p := fun a => s.key a &&& 0xffff = callId.toUInt32) |>.mpr ⟨a, ha, decide_eq_true hcall⟩)
    rw [h.callId_eq, hb]
    have hstored := (h.eq_some_iff (s.key b) (s.data b)).mpr ⟨b, List.mem_of_find?_eq_some hb, rfl, rfl⟩
    exact ⟨Option.isSome_of_eq_some hstored, by simpa using List.find?_some hb⟩
  · rw [h.callId_eq]
    have hfind : (blocksFrom chains 0).find? (fun a => s.key a &&& 0xffff = callId.toUInt32) = none :=
      List.find?_eq_none.mpr fun a ha hcall => hnone ⟨s.key a, Option.isSome_of_eq_some
        ((h.eq_some_iff (s.key a) (s.data a)).mpr ⟨a, ha, rfl, rfl⟩), of_decide_eq_true hcall⟩
    rw [hfind]
    rfl

/-- The table before anything is added. -/
def empty [Inhabited α] : SessionTable α where
  hashtable _ := none
  next _ := none
  prev _ := none
  key _ := 0
  data _ := default
  allocated := 0

/-- Every call keeps the chains. By induction on the calls. -/
theorem Stores.run (h : s.Stores chains m) {ops : List (Op α)} (hfresh : AllFresh m ops) :
    ∃ chains', (ops.foldl apply s).Stores chains' (ops.foldl Op.onMap m) := by
  induction ops generalizing s chains m with
  | nil => exact ⟨chains, h⟩
  | cons op ops ih =>
    obtain ⟨hop, hops⟩ := hfresh
    cases op with
    | add key data memory =>
      obtain ⟨chains', hadd⟩ := h.add hop data memory
      exact ih hadd hops
    | delete key =>
      obtain ⟨chains', hdelete⟩ := (h.delete key).1
      exact ih hdelete hops

/-- **The session table is a map**, behind every run of calls that add keys which are not present. -/
theorem run_map [Inhabited α] (ops : List (Op α)) (hfresh : AllFresh (fun _ => none) ops) :
    IsMap (ops.foldl apply empty) (ops.foldl Op.onMap fun _ => none) := by
  have hempty : (empty : SessionTable α).Stores (fun _ => []) fun _ => none :=
    ⟨fun _ => ⟨rfl, trivial, List.nodup_nil⟩, fun _ _ ha => absurd ha List.not_mem_nil,
      fun _ _ ha => absurd ha List.not_mem_nil, fun _ => List.nodup_nil, fun _ => rfl⟩
  obtain ⟨chains, hrun⟩ := hempty.run hfresh
  exact hrun.isMap

/-- Two keys of one bucket. -/
theorem run_map_collide : IsMap ([Op.add 1 10 true, .add 68 20 true, .delete 1].foldl apply empty)
    ([Op.add 1 10 true, .add 68 20 true, .delete 1].foldl Op.onMap fun _ => none : UInt32 → Option ℕ) :=
  run_map _ ⟨rfl, rfl, trivial, trivial⟩

end SessionTable

end Ccapp
