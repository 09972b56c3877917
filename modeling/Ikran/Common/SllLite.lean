import Ikran.Lib.LinkedList
import Mathlib.Algebra.Group.Nat.Defs
import Mathlib.Order.Lattice

/-!
# Lists of nodes that the callers own

The lists of `sll_lite.c` link nodes of their callers. A node is on at most one list at a time. The lists
refine sequences, of which they count the elements with 16 bits.
-/

namespace SllLite

open LinkedList

/-- `sll_lite_return_e`. -/
inductive SllLiteReturn
  | success
  | invalidArgs
  | nodeNotFound
  | otherFailure
  deriving DecidableEq

/-- `sll_lite_list_t`. -/
structure SllLiteList where
  count : UInt16 := 0
  headP : Option ℕ := none
  tailP : Option ℕ := none

/-- The first node and the last one of a list. -/
def SllLiteList.header (l : SllLiteList) : Header ℕ := ⟨l.headP, l.tailP⟩

/-- The next pointers of the nodes by their addresses, and the lists by theirs. -/
structure Lists where
  nextP : ℕ → Option ℕ
  lists : ℕ → SllLiteList

namespace Lists

/-- The next pointer of a node is written. -/
def setNext (s : Lists) (node : ℕ) (next : Option ℕ) : Lists :=
  { s with nextP := Function.update s.nextP node next }

def setList (s : Lists) (list : ℕ) (l : SllLiteList) : Lists :=
  { s with lists := Function.update s.lists list l }

def sllLiteLinkHead (s : Lists) : Option ℕ → Option ℕ → SllLiteReturn × Lists
  | some list, some node =>
    let l := s.lists list
    match l.headP with
    | none =>
      (.success, (s.setList list { count := l.count + 1, headP := some node, tailP := some node }).setNext node none)
    | some head =>
      (.success, (s.setNext node (some head)).setList list { l with count := l.count + 1, headP := some node })
  | _, _ => (.invalidArgs, s)

def sllLiteLinkTail (s : Lists) : Option ℕ → Option ℕ → SllLiteReturn × Lists
  | some list, some node =>
    let l := s.lists list
    match l.tailP with
    | none =>
      (.success, (s.setList list { count := l.count + 1, headP := some node, tailP := some node }).setNext node none)
    | some tail =>
      (.success, ((s.setNext tail (some node)).setList list
        { l with count := l.count + 1, tailP := some node }).setNext node none)
  | _, _ => (.invalidArgs, s)

def sllLiteUnlinkHead (s : Lists) : Option ℕ → Option ℕ × Lists
  | none => (none, s)
  | some list =>
    let l := s.lists list
    match l.headP with
    | none => (none, s)
    | some node =>
      let head := s.nextP node
      (some node, (s.setList list
        { count := l.count - 1, headP := head, tailP := if l.tailP = some node then head else l.tailP }).setNext
          node none)

/-- `sll_lite_remove`. The loop looks at no more nodes than the fuel allows. -/
def sllLiteRemove (fuel : ℕ) (s : Lists) : Option ℕ → Option ℕ → Option (SllLiteReturn × Lists)
  | some list, some node =>
    let l := s.lists list
    (search (· = node) s.nextP fuel none l.headP).map fun
      | (none, _) => (.nodeNotFound, s)
      | (some this, none) =>
        -- the node to remove is the head
        let head := l.headP.bind s.nextP
        (.success, (s.setList list
          { count := l.count - 1, headP := head, tailP := if l.tailP = some this then head else l.tailP }).setNext
            node none)
      | (some this, some prev) =>
        (.success, ((s.setNext prev (s.nextP this)).setList list
          { l with count := l.count - 1, tailP := if l.tailP = some this then some prev else l.tailP }).setNext
            node none)
  | _, _ => some (.invalidArgs, s)

def sllLiteUnlinkTail (fuel : ℕ) (s : Lists) : Option ℕ → Option (Option ℕ × Lists)
  | none => some (none, s)
  | some list =>
    match (s.lists list).tailP with
    | none => some (none, s)
    | some node =>
      (s.sllLiteRemove fuel (some list) (some node)).map fun r =>
        if r.1 = .success then (some node, r.2) else (none, r.2)

end Lists

/-! ## Operations -/

inductive LiteOp
  | linkHead (list node : Option ℕ)
  | linkTail (list node : Option ℕ)
  | unlinkHead (list : Option ℕ)
  | unlinkTail (list : Option ℕ)
  | remove (list node : Option ℕ)

/-- What an operation returns. -/
inductive LiteResult
  | ret (rc : SllLiteReturn)
  | node (node : Option ℕ)

/-- What an operation returns, and the state behind it; there is none when the fuel is too little. -/
def Lists.step (fuel : ℕ) (s : Lists) : LiteOp → Option (LiteResult × Lists)
  | .linkHead list node => some ((s.sllLiteLinkHead list node).map .ret id)
  | .linkTail list node => some ((s.sllLiteLinkTail list node).map .ret id)
  | .unlinkHead list => some ((s.sllLiteUnlinkHead list).map .node id)
  | .unlinkTail list => (s.sllLiteUnlinkTail fuel list).map fun r => r.map .node id
  | .remove list node => (s.sllLiteRemove fuel list node).map fun r => r.map .ret id

def Lists.Steps (s : Lists) (op : LiteOp) (r : LiteResult) (s' : Lists) : Prop :=
  ∃ n, ∀ fuel ≥ n, s.step fuel op = some (r, s')

/-- What an operation does to sequences of nodes. -/
def dequeStep (d : ℕ → List ℕ) : LiteOp → LiteResult × (ℕ → List ℕ)
  | .linkHead (some i) (some node) => (.ret .success, Function.update d i (node :: d i))
  | .linkTail (some i) (some node) => (.ret .success, Function.update d i (d i ++ [node]))
  | .unlinkHead (some i) => (.node (d i).head?, Function.update d i (d i).tail)
  | .unlinkTail (some i) => (.node (d i).getLast?, Function.update d i (d i).dropLast)
  | .remove (some i) (some node) =>
    if node ∈ d i then (.ret .success, Function.update d i ((d i).erase node)) else (.ret .nodeNotFound, d)
  | .unlinkHead none | .unlinkTail none => (.node none, d)
  | .linkHead none _ | .linkHead _ none | .linkTail none _ | .linkTail _ none | .remove none _ | .remove _ none =>
    (.ret .invalidArgs, d)

/-- A node is linked only while it is on no list. -/
def LinksFree (d : ℕ → List ℕ) : LiteOp → Prop
  | .linkHead (some _) (some node) | .linkTail (some _) (some node) => ∀ i, node ∉ d i
  | _ => True

/-- The lists represent sequences: the next pointers, from the head on, visit the elements in order and end,
the tail is the last element, and the count is the length. -/
structure Lists.Represents (s : Lists) (d : ℕ → List ℕ) : Prop where
  path : ∀ i, Path s.nextP (s.lists i).headP (d i) none
  tail : ∀ i, (s.lists i).tailP = (d i).getLast?
  count : ∀ i, (s.lists i).count.toNat = (d i).length

/-- The lists are linked, and no node is on two of them. -/
structure Lists.Linked (s : Lists) (d : ℕ → List ℕ) : Prop where
  linked : ∀ i, LinkedList.Linked s.nextP (s.lists i).header (d i)
  count : ∀ i, (s.lists i).count = UInt16.ofNat (d i).length
  disjoint : ∀ i j, i ≠ j → List.Disjoint (d i) (d j)

namespace Lists

variable {s : Lists} {d : ℕ → List ℕ} {i node : ℕ}

theorem Linked.represents_iff (h : s.Linked d) : s.Represents d ↔ ∀ i, (d i).length < 2 ^ 16 := by
  constructor
  · intro hr i
    rw [← hr.count i]
    exact (s.lists i).count.toNat_lt
  · intro hshort
    refine ⟨fun i => (h.linked i).path, fun i => (h.linked i).tail, fun i => ?_⟩
    rw [h.count i, UInt16.toNat_ofNat', Nat.mod_eq_of_lt (hshort i)]

theorem Linked.update (h : s.Linked d) {next : ℕ → Option ℕ} {l : SllLiteList} {m : List ℕ}
    (hl : LinkedList.Linked next l.header m) (hcount : l.count = UInt16.ofNat m.length)
    (hsame : ∀ j, j ≠ i → ∀ b ∈ d j, next b = s.nextP b) (hm : ∀ b ∈ m, b ∈ d i ∨ ∀ j, b ∉ d j) :
    Linked { nextP := next, lists := Function.update s.lists i l } (Function.update d i m) := by
  have hother : ∀ j, j ≠ i → List.Disjoint m (d j) := by
    intro j hj b hb hbj
    rcases hm b hb with hbi | hfree
    · exact h.disjoint j i hj hbj hbi
    · exact hfree j hbj
  refine ⟨fun j => ?_, fun j => ?_, fun j k hjk => ?_⟩
  · dsimp only
    rcases eq_or_ne j i with rfl | hj
    · rw [Function.update_self, Function.update_self]
      exact hl
    · rw [Function.update_of_ne hj, Function.update_of_ne hj]
      exact (h.linked j).congr (hsame j hj)
  · dsimp only
    rcases eq_or_ne j i with rfl | hj
    · rw [Function.update_self, Function.update_self]
      exact hcount
    · rw [Function.update_of_ne hj, Function.update_of_ne hj]
      exact h.count j
  · rcases eq_or_ne j i with rfl | hj
    · rw [Function.update_self, Function.update_of_ne hjk.symm]
      exact hother k hjk.symm
    · rcases eq_or_ne k i with rfl | hk
      · rw [Function.update_self, Function.update_of_ne hj]
        exact fun b hb hbm => hother j hj hbm hb
      · rw [Function.update_of_ne hj, Function.update_of_ne hk]
        exact h.disjoint j k hjk

/-! ## What the functions do -/

theorem Linked.count_add_one (h : s.Linked d) {m : List ℕ} (hm : m.length = (d i).length + 1) :
    (s.lists i).count + 1 = UInt16.ofNat m.length := by
  rw [h.count i, hm, UInt16.ofNat_add]
  rfl

theorem Linked.count_sub_one (h : s.Linked d) {m : List ℕ} (hm : (d i).length = m.length + 1) :
    (s.lists i).count - 1 = UInt16.ofNat m.length := by
  have hone : UInt16.ofNat 1 = 1 := rfl
  rw [h.count i, hm, UInt16.ofNat_add, hone, UInt16.add_sub_cancel]

theorem ne_of_free (hfree : ∀ j, node ∉ d j) {j b : ℕ} (hb : b ∈ d j) : b ≠ node := by
  rintro rfl
  exact hfree j hb

theorem Linked.linkHead (h : s.Linked d) (hfree : ∀ j, node ∉ d j) :
    (s.sllLiteLinkHead (some i) (some node)).1 = .success ∧
      (s.sllLiteLinkHead (some i) (some node)).2.Linked (Function.update d i (node :: d i)) := by
  have hlinked := (h.linked i).linkHead (hfree i)
  have heq : s.sllLiteLinkHead (some i) (some node) = (.success,
      { nextP := Function.update s.nextP node (s.lists i).headP
        lists := Function.update s.lists i
          ⟨(s.lists i).count + 1, some node, some ((s.lists i).tailP.getD node)⟩ }) := by
    have hhead : (s.lists i).headP = (d i).head? := (h.linked i).head_eq
    have htail : (s.lists i).tailP = (d i).getLast? := (h.linked i).tail
    unfold sllLiteLinkHead
    dsimp only
    rw [hhead, htail]
    rcases List.eq_nil_or_concat (d i) with hnil | ⟨front, b, hb⟩
    · rw [hnil]
      rfl
    · rw [hb, List.concat_eq_append, List.getLast?_concat]
      cases front <;> rfl
  rw [heq]
  refine ⟨rfl, h.update hlinked (h.count_add_one rfl) (fun j _ b hb => ?_) fun b hb => ?_⟩
  · exact Function.update_of_ne (ne_of_free hfree hb) _ _
  · rcases List.mem_cons.mp hb with rfl | hb
    · exact Or.inr hfree
    · exact Or.inl hb

theorem Linked.linkTail (h : s.Linked d) (hfree : ∀ j, node ∉ d j) :
    (s.sllLiteLinkTail (some i) (some node)).1 = .success ∧
      (s.sllLiteLinkTail (some i) (some node)).2.Linked (Function.update d i (d i ++ [node])) := by
  have hlinked := (h.linked i).linkTail (hfree i)
  have htail : (s.lists i).tailP = (d i).getLast? := (h.linked i).tail
  have heq : s.sllLiteLinkTail (some i) (some node) = (.success,
      { nextP := Function.update
          ((s.lists i).tailP.elim s.nextP fun b => Function.update s.nextP b (some node)) node none
        lists := Function.update s.lists i
          ⟨(s.lists i).count + 1, some ((s.lists i).headP.getD node), some node⟩ }) := by
    have hhead : (s.lists i).headP = (d i).head? := (h.linked i).head_eq
    unfold sllLiteLinkTail
    dsimp only
    rw [hhead, htail]
    rcases List.eq_nil_or_concat (d i) with hnil | ⟨front, b, hb⟩
    · rw [hnil]
      rfl
    · rw [hb, List.concat_eq_append, List.getLast?_concat]
      have hsome : (front ++ [b]).head? = some ((front ++ [b]).head?.getD node) := by
        cases front <;> rfl
      rw [← hsome]
      rfl
  rw [heq]
  refine ⟨rfl, h.update hlinked (h.count_add_one (by simp)) (fun j hj b hb => ?_) fun b hb => ?_⟩
  · rw [Function.update_of_ne (ne_of_free hfree hb), htail]
    cases hlast : (d i).getLast? with
    | none => rfl
    | some c =>
      have hne : b ≠ c := by
        rintro rfl
        exact h.disjoint j i hj hb (List.mem_of_getLast? hlast)
      exact Function.update_of_ne hne _ _
  · rcases List.mem_append.mp hb with hb | hb
    · exact Or.inl hb
    · obtain rfl := List.mem_singleton.mp hb
      exact Or.inr hfree

/-- The state when a node is taken from a list; the node in front of it is given, when there is one. -/
def unlinked (s : Lists) (i node : ℕ) (prev : Option ℕ) : Lists where
  nextP := Function.update (prev.elim s.nextP fun b => Function.update s.nextP b (s.nextP node)) node none
  lists := Function.update s.lists i
    { count := (s.lists i).count - 1
      headP := if prev = none then s.nextP node else (s.lists i).headP
      tailP := if (s.lists i).tailP = some node then (if prev = none then s.nextP node else prev)
        else (s.lists i).tailP }

theorem Linked.unlinked (h : s.Linked d) {front back : List ℕ} (hd : d i = front ++ node :: back) :
    (s.unlinked i node front.getLast?).Linked (Function.update d i (front ++ back)) := by
  have hlinked := hd ▸ h.linked i
  have hunlinked := hlinked.unlink
  have hnil : (front.getLast? = none) = (front = []) := propext List.getLast?_eq_none_iff
  have hmem : node ∈ d i := by
    rw [hd]
    simp
  rw [Lists.unlinked]
  simp only [hnil]
  refine h.update hunlinked (h.count_sub_one ?_) (fun j hj b hb => ?_) fun b hb => Or.inl ?_
  · rw [hd, List.length_append, List.length_cons, List.length_append]
    rfl
  · have hne : b ≠ node := by
      rintro rfl
      exact h.disjoint j i hj hb hmem
    rw [Function.update_of_ne hne]
    cases hlast : front.getLast? with
    | none => rfl
    | some c =>
      have hc : c ∈ d i := by
        rw [hd]
        exact List.mem_append_left _ (List.mem_of_getLast? hlast)
      have hbc : b ≠ c := by
        rintro rfl
        exact h.disjoint j i hj hb hc
      exact Function.update_of_ne hbc _ _
  · rw [hd]
    rcases List.mem_append.mp hb with hb | hb
    · exact List.mem_append_left _ hb
    · exact List.mem_append_right _ (List.mem_cons_of_mem _ hb)

theorem Linked.unlinkHead (h : s.Linked d) : (s.sllLiteUnlinkHead (some i)).1 = (d i).head? ∧
      (s.sllLiteUnlinkHead (some i)).2.Linked (Function.update d i (d i).tail) := by
  have hhead : (s.lists i).headP = (d i).head? := (h.linked i).head_eq
  cases hd : d i with
  | nil =>
    rw [hd] at hhead
    have heq : s.sllLiteUnlinkHead (some i) = (none, s) := by
      unfold sllLiteUnlinkHead
      dsimp only
      rw [hhead]
      rfl
    rw [heq, List.tail_nil, ← hd, Function.update_eq_self]
    exact ⟨(congrArg List.head? hd).symm, h⟩
  | cons node back =>
    rw [hd] at hhead
    have heq : s.sllLiteUnlinkHead (some i) = (some node, s.unlinked i node none) := by
      unfold sllLiteUnlinkHead
      dsimp only
      rw [hhead]
      rfl
    rw [heq]
    exact ⟨rfl, @Linked.unlinked s d i node h [] back hd⟩

theorem Linked.remove_of_mem (h : s.Linked d) (hmem : node ∈ d i) :
    ∃ s', (∀ fuel ≥ (d i).length, s.sllLiteRemove fuel (some i) (some node) = some (.success, s')) ∧
      s'.Linked (Function.update d i ((d i).erase node)) := by
  obtain ⟨front, back, hd, hfront⟩ := List.eq_append_cons_of_mem hmem
  have herase : (d i).erase node = front ++ back := by
    rw [hd, List.erase_append_right _ hfront, List.erase_cons_head]
  have hhead : (s.lists i).headP = (d i).head? := (h.linked i).head_eq
  refine ⟨s.unlinked i node front.getLast?, fun fuel hfuel => ?_, herase ▸ h.unlinked hd⟩
  have hlen : front.length < fuel := by
    rw [hd, List.length_append, List.length_cons] at hfuel
    omega
  have hsearch : search (· = node) s.nextP fuel none (s.lists i).headP = some (some node, front.getLast?.or none) :=
    search_of_split (hd ▸ (h.linked i).path) (fun b hb heq => hfront (heq ▸ hb)) rfl hlen
  rw [Option.or_none] at hsearch
  unfold sllLiteRemove
  dsimp only
  rw [hsearch, Option.map_some]
  rcases List.eq_nil_or_concat front with rfl | ⟨front, b, rfl⟩
  · have hbind : (s.lists i).headP.bind s.nextP = s.nextP node := by
      rw [hhead, hd]
      rfl
    rw [List.getLast?_nil, hbind]
    rfl
  · rw [List.concat_eq_append, List.getLast?_concat]
    rfl

theorem Linked.remove_of_not_mem (h : s.Linked d) (hmem : node ∉ d i) {fuel : ℕ} (hfuel : (d i).length ≤ fuel) :
    s.sllLiteRemove fuel (some i) (some node) = some (.nodeNotFound, s) := by
  have hsearch := @search_of_forall _ _ _ _ (· = node) _ fuel none (h.linked i).path
    (fun b hb heq => hmem (heq ▸ hb)) hfuel
  have hhead : (s.lists i).header.head = (s.lists i).headP := rfl
  rw [hhead] at hsearch
  unfold sllLiteRemove
  dsimp only
  rw [hsearch]
  rfl

theorem Linked.unlinkTail (h : s.Linked d) :
    ∃ s', (∀ fuel ≥ (d i).length, s.sllLiteUnlinkTail fuel (some i) = some ((d i).getLast?, s')) ∧
      s'.Linked (Function.update d i (d i).dropLast) := by
  have htail : (s.lists i).tailP = (d i).getLast? := (h.linked i).tail
  rcases List.eq_nil_or_concat (d i) with hnil | ⟨front, node, hd⟩
  · refine ⟨s, fun fuel _ => ?_, ?_⟩
    · rw [hnil] at htail ⊢
      unfold sllLiteUnlinkTail
      dsimp only
      rw [htail]
      rfl
    · rw [hnil, List.dropLast_nil, ← hnil, Function.update_eq_self]
      exact h
  · rw [List.concat_eq_append] at hd
    have hmem : node ∈ d i := by
      rw [hd]
      simp
    have hfront : node ∉ front := by
      have hnodup := (h.linked i).nodup
      rw [hd, List.nodup_append] at hnodup
      exact fun hfront => hnodup.2.2 node hfront node (List.mem_singleton_self node) rfl
    have herase : (d i).erase node = (d i).dropLast := by
      rw [hd, List.erase_append_right _ hfront, List.erase_cons_head, List.append_nil, List.dropLast_concat]
    obtain ⟨s', hremove, hs'⟩ := h.remove_of_mem hmem
    refine ⟨s', fun fuel hfuel => ?_, herase ▸ hs'⟩
    have hfound := hremove fuel hfuel
    rw [hd, List.getLast?_concat] at htail ⊢
    unfold sllLiteUnlinkTail
    dsimp only
    rw [htail]
    dsimp only
    rw [hfound]
    rfl

/-- An operation ends, with the result that it has on the sequences, and the lists stay linked. One that finds
no node changes nothing. -/
theorem Linked.step (h : s.Linked d) {op : LiteOp} (hfree : LinksFree d op) :
    ∃ s', s.Steps op (dequeStep d op).1 s' ∧ s'.Linked (dequeStep d op).2 ∧
      ((dequeStep d op).1 = .ret .nodeNotFound → s' = s) := by
  cases op with
  | linkHead list node =>
    rcases list with _ | i
    · exact ⟨s, ⟨0, fun _ _ => rfl⟩, h, fun _ => rfl⟩
    rcases node with _ | node
    · exact ⟨s, ⟨0, fun _ _ => rfl⟩, h, fun _ => rfl⟩
    obtain ⟨hret, hlinked⟩ := h.linkHead (i := i) hfree
    refine ⟨_, ⟨0, fun _ _ => ?_⟩, hlinked, nofun⟩
    exact congrArg some (Prod.ext (congrArg LiteResult.ret hret) rfl)
  | linkTail list node =>
    rcases list with _ | i
    · exact ⟨s, ⟨0, fun _ _ => rfl⟩, h, fun _ => rfl⟩
    rcases node with _ | node
    · exact ⟨s, ⟨0, fun _ _ => rfl⟩, h, fun _ => rfl⟩
    obtain ⟨hret, hlinked⟩ := h.linkTail (i := i) hfree
    refine ⟨_, ⟨0, fun _ _ => ?_⟩, hlinked, nofun⟩
    exact congrArg some (Prod.ext (congrArg LiteResult.ret hret) rfl)
  | unlinkHead list =>
    rcases list with _ | i
    · exact ⟨s, ⟨0, fun _ _ => rfl⟩, h, fun _ => rfl⟩
    obtain ⟨hret, hlinked⟩ := h.unlinkHead (i := i)
    refine ⟨_, ⟨0, fun _ _ => ?_⟩, hlinked, nofun⟩
    exact congrArg some (Prod.ext (congrArg LiteResult.node hret) rfl)
  | unlinkTail list =>
    rcases list with _ | i
    · exact ⟨s, ⟨0, fun _ _ => rfl⟩, h, fun _ => rfl⟩
    obtain ⟨s', hs', hlinked⟩ := h.unlinkTail (i := i)
    refine ⟨s', ⟨(d i).length, fun fuel hfuel => ?_⟩, hlinked, nofun⟩
    rw [Lists.step, hs' fuel hfuel]
    rfl
  | remove list node =>
    rcases list with _ | i
    · exact ⟨s, ⟨0, fun _ _ => rfl⟩, h, fun _ => rfl⟩
    rcases node with _ | node
    · exact ⟨s, ⟨0, fun _ _ => rfl⟩, h, fun _ => rfl⟩
    by_cases hmem : node ∈ d i
    · obtain ⟨s', hs', hlinked⟩ := h.remove_of_mem hmem
      rw [dequeStep, if_pos hmem]
      refine ⟨s', ⟨(d i).length, fun fuel hfuel => ?_⟩, hlinked, nofun⟩
      rw [Lists.step, hs' fuel hfuel]
      rfl
    · rw [dequeStep, if_neg hmem]
      refine ⟨s, ⟨(d i).length, fun fuel hfuel => ?_⟩, h, fun _ => rfl⟩
      rw [Lists.step, h.remove_of_not_mem hmem hfuel]
      rfl

end Lists

/-- Every node of a run is linked only while it is on no list. -/
def LinksFreeThroughout (d : ℕ → List ℕ) : List LiteOp → Prop
  | [] => True
  | op :: ops => LinksFree d op ∧ LinksFreeThroughout (dequeStep d op).2 ops

/-- In every state of a run the lists represent the sequences; every operation ends with the result that it
has on the sequences, and one that finds no node changes nothing. -/
def RefinesThroughout (s : Lists) (d : ℕ → List ℕ) : List LiteOp → Prop
  | [] => s.Represents d
  | op :: ops => s.Represents d ∧ ∃ s', s.Steps op (dequeStep d op).1 s' ∧
    ((dequeStep d op).1 = .ret .nodeNotFound → s' = s) ∧ RefinesThroughout s' (dequeStep d op).2 ops

/-- In no state of a run a sequence has more than 65535 elements. -/
def ShortThroughout (d : ℕ → List ℕ) : List LiteOp → Prop
  | [] => ∀ i, (d i).length < 2 ^ 16
  | op :: ops => (∀ i, (d i).length < 2 ^ 16) ∧ ShortThroughout (dequeStep d op).2 ops

theorem Lists.Steps.unique {s s' t : Lists} {op : LiteOp} {r : LiteResult} (h : s.Steps op r s')
    (ht : s.Steps op r t) : s' = t := by
  obtain ⟨m, hm⟩ := h
  obtain ⟨n, hn⟩ := ht
  have heq := (hm (max m n) (le_max_left m n)).symm.trans (hn (max m n) (le_max_right m n))
  exact (Prod.mk.inj (Option.some.inj heq)).2

variable {d : ℕ → List ℕ} {ops : List LiteOp}

theorem Lists.Linked.refines_iff {s : Lists} (h : s.Linked d)
    (hfree : LinksFreeThroughout d ops) : RefinesThroughout s d ops ↔ ShortThroughout d ops := by
  induction ops generalizing s d with
  | nil => exact h.represents_iff
  | cons op ops ih =>
    obtain ⟨hop, hrest⟩ := hfree
    obtain ⟨s', hsteps, hlinked, hsame⟩ := h.step hop
    constructor
    · rintro ⟨hr, t, ht, -, hthroughout⟩
      obtain rfl := hsteps.unique ht
      exact ⟨h.represents_iff.mp hr, (ih hlinked hrest).mp hthroughout⟩
    · rintro ⟨hshort, hthroughout⟩
      exact ⟨h.represents_iff.mpr hshort, s', hsteps, hsame, (ih hlinked hrest).mpr hthroughout⟩

/-- Lists behind `sll_lite_init`. -/
def Lists.init (nextP : ℕ → Option ℕ) : Lists where
  nextP := nextP
  lists _ := {}

theorem Lists.linked_init (nextP : ℕ → Option ℕ) : (Lists.init nextP).Linked fun _ => [] :=
  ⟨fun _ => .nil nextP, fun _ => rfl, fun _ _ _ => List.disjoint_nil_left []⟩

/-! ## More nodes than a count can tell -/

/-- The sequences behind a run. -/
def dequeRun (d : ℕ → List ℕ) (ops : List LiteOp) : ℕ → List ℕ :=
  ops.foldl (fun d op => (dequeStep d op).2) d

theorem linksFreeThroughout_concat {op : LiteOp} :
    LinksFreeThroughout d (ops ++ [op]) ↔ LinksFreeThroughout d ops ∧ LinksFree (dequeRun d ops) op := by
  induction ops generalizing d with
  | nil => exact ⟨fun h => ⟨trivial, h.1⟩, fun h => ⟨h.2, trivial⟩⟩
  | cons op' ops ih =>
    rw [List.cons_append, LinksFreeThroughout, ih]
    exact ⟨fun h => ⟨⟨h.1, h.2.1⟩, h.2.2⟩, fun h => ⟨h.1.1, h.1.2, h.2⟩⟩

theorem ShortThroughout.run (h : ShortThroughout d ops) (i : ℕ) : (dequeRun d ops i).length < 2 ^ 16 := by
  induction ops generalizing d with
  | nil => exact h i
  | cons op ops ih => exact ih h.2

def linkNodes (n : ℕ) : List LiteOp := (List.range n).map fun node => .linkTail (some 0) (some node)

theorem dequeRun_linkNodes (n : ℕ) :
    dequeRun (fun _ => []) (linkNodes n) = Function.update (fun _ => []) 0 (List.range n) := by
  induction n with
  | zero => exact (Function.update_eq_self 0 _).symm
  | succ n ih =>
    have hsplit : linkNodes (n + 1) = linkNodes n ++ [.linkTail (some 0) (some n)] := by
      rw [linkNodes, List.range_succ, List.map_append]
      rfl
    rw [hsplit, dequeRun, List.foldl_append, List.range_succ]
    rw [dequeRun] at ih
    rw [ih, List.foldl_cons, List.foldl_nil, dequeStep, Function.update_self]
    exact Function.update_idem ..

theorem linksFree_linkNodes (n : ℕ) : LinksFreeThroughout (fun _ => []) (linkNodes n) := by
  induction n with
  | zero => trivial
  | succ n ih =>
    have hsplit : linkNodes (n + 1) = linkNodes n ++ [.linkTail (some 0) (some n)] := by
      rw [linkNodes, List.range_succ, List.map_append]
      rfl
    rw [hsplit, linksFreeThroughout_concat, dequeRun_linkNodes]
    refine ⟨ih, fun i => ?_⟩
    rcases eq_or_ne i 0 with rfl | hi
    · rw [Function.update_self]
      exact List.not_mem_range_self
    · rw [Function.update_of_ne hi]
      exact List.not_mem_nil

theorem not_refines_linkNodes (nextP : ℕ → Option ℕ) {n : ℕ} (hn : 2 ^ 16 ≤ n) :
    ¬ RefinesThroughout (.init nextP) (fun _ => []) (linkNodes n) := by
  intro h
  have hshort := ((Lists.linked_init nextP).refines_iff (linksFree_linkNodes n)).mp h
  have hlen := hshort.run 0
  rw [dequeRun_linkNodes, Function.update_self, List.length_range] at hlen
  omega

end SllLite
