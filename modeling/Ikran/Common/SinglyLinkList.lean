import Ikran.Common.SllLite

/-!
# Lists of data

The lists of `singly_link_list.c` make a node for the data of their callers, and find a node by its data.
They refine sequences, of which they count the elements with 32 bits.
-/

namespace Sll

open LinkedList

/-- `sll_return_e`. -/
inductive SllReturn
  | success
  | invalidArgs
  | mallocFailure
  | nodeNotFound
  | listNotEmpty
  | otherFailure

/-- `slink_list_node_t`. -/
structure SlinkNode where
  nextP : Option ℕ
  dataP : ℕ

/-- `slink_list_t`, without the function that `sll_find` calls. -/
structure SlinkList where
  firstP : Option ℕ := none
  lastP : Option ℕ := none
  count : UInt32 := 0

/-- The first node and the last one of a list. -/
def SlinkList.header (l : SlinkList) : Header ℕ := ⟨l.firstP, l.lastP⟩

/-- The nodes that are allocated, and the lists by their handles. -/
structure Lists where
  nodes : ℕ → Option SlinkNode
  lists : ℕ → SlinkList

namespace Lists

def next (s : Lists) (node : ℕ) : Option ℕ := (s.nodes node).bind SlinkNode.nextP

def data (s : Lists) (node : ℕ) : Option ℕ := (s.nodes node).map SlinkNode.dataP

/-- The next pointer of a node is written. -/
def setNext (s : Lists) (node : ℕ) (next : Option ℕ) : Lists :=
  { s with nodes := Function.update s.nodes node ((s.nodes node).map fun n => { n with nextP := next }) }

/-- A node is allocated, or freed. -/
def setNode (s : Lists) (node : ℕ) (n : Option SlinkNode) : Lists :=
  { s with nodes := Function.update s.nodes node n }

def setList (s : Lists) (list : ℕ) (l : SlinkList) : Lists :=
  { s with lists := Function.update s.lists list l }

/-- `sll_append`, with what `cpr_malloc` returns. -/
def sllAppend (s : Lists) (memory : Option ℕ) : Option ℕ → Option ℕ → SllReturn × Lists
  | some list, some data =>
    match memory with
    | none => (.mallocFailure, s)
    | some node =>
      let s := s.setNode node (some { nextP := none, dataP := data })
      let l := s.lists list
      match l.firstP, l.lastP with
      | some _, some last =>
        (.success, (s.setNext last (some node)).setList list { l with lastP := some node, count := l.count + 1 })
      | _, _ => (.success, s.setList list { firstP := some node, lastP := some node, count := l.count + 1 })
  | _, _ => (.invalidArgs, s)

/-- The loop that looks for the node with the data, which looks at no more nodes than the fuel allows. -/
def sllSearch (fuel : ℕ) (s : Lists) (l : SlinkList) (data : ℕ) : Option (Option ℕ × Option ℕ) :=
  search (fun node => s.data node = some data) s.next fuel none l.firstP

def sllRemove (fuel : ℕ) (s : Lists) : Option ℕ → Option ℕ → Option (SllReturn × Lists)
  | some list, some data =>
    let l := s.lists list
    (s.sllSearch fuel l data).map fun
      | (none, _) => (.nodeNotFound, s)
      | (some this, none) =>
        -- the node to remove is the first one
        let first := s.next this
        (.success, (s.setList list
          { firstP := first, lastP := if l.lastP = some this then first else l.lastP, count := l.count - 1 }).setNode
            this none)
      | (some this, some prev) =>
        (.success, ((s.setNext prev (s.next this)).setList list
          { l with lastP := if l.lastP = some this then some prev else l.lastP, count := l.count - 1 }).setNode
            this none)
  | _, _ => some (.invalidArgs, s)

def sllNext (fuel : ℕ) (s : Lists) : Option ℕ → Option ℕ → Option (Option ℕ)
  | none, _ => some none
  | some list, none => some ((s.lists list).firstP.bind s.data)
  | some list, some data =>
    (s.sllSearch fuel (s.lists list) data).map fun r => r.1.bind fun this => (s.next this).bind s.data

/-- An application asks for the next data until there is none, starting behind some data. -/
def sllIterate (fuel : ℕ) (s : Lists) (list : ℕ) : ℕ → Option ℕ → Option (List ℕ)
  | 0, _ => none
  | n + 1, data =>
    (s.sllNext fuel (some list) data).bind fun
      | none => some []
      | some data => (sllIterate fuel s list n (some data)).map (data :: ·)

end Lists

/-! ## Operations -/

/-- An operation on a list. What is appended comes with what `cpr_malloc` returns. -/
inductive SllOp
  | append (list data memory : Option ℕ)
  | remove (list data : Option ℕ)
  | next (list data : Option ℕ)

/-- What an operation returns. -/
inductive SllResult
  | ret (rc : SllReturn)
  | data (data : Option ℕ)

/-- What an operation returns, and the state behind it; there is none when the fuel is too little. -/
def Lists.step (fuel : ℕ) (s : Lists) : SllOp → Option (SllResult × Lists)
  | .append list data memory => some ((s.sllAppend memory list data).map .ret id)
  | .remove list data => (s.sllRemove fuel list data).map fun r => r.map .ret id
  | .next list data => (s.sllNext fuel list data).map fun r => (.data r, s)

def Lists.Steps (s : Lists) (op : SllOp) (r : SllResult) (s' : Lists) : Prop :=
  ∃ n, ∀ fuel ≥ n, s.step fuel op = some (r, s')

/-- The data behind some data, or the first one. -/
def nextData (l : List ℕ) : Option ℕ → Option ℕ
  | none => l.head?
  | some data => l[l.idxOf data + 1]?

/-- What an operation does to sequences of data, each with the address of its node. -/
def seqStep (d : ℕ → List (ℕ × ℕ)) : SllOp → SllResult × (ℕ → List (ℕ × ℕ))
  | .append (some i) (some data) (some node) => (.ret .success, Function.update d i (d i ++ [(node, data)]))
  | .append (some _) (some _) none => (.ret .mallocFailure, d)
  | .remove (some i) (some data) =>
    if data ∈ (d i).map Prod.snd then
      (.ret .success, Function.update d i ((d i).filter fun x => x.2 ≠ data))
    else (.ret .nodeNotFound, d)
  | .next (some i) data => (.data (nextData ((d i).map Prod.snd) data), d)
  | .next none _ => (.data none, d)
  | .append none _ _ | .append _ none _ | .remove none _ | .remove _ none => (.ret .invalidArgs, d)

/-- Data are appended to a list that does not have them, and the memory for the node is not in use. -/
def AppendsFree (d : ℕ → List (ℕ × ℕ)) : SllOp → Prop
  | .append (some i) (some data) (some node) =>
    data ∉ (d i).map Prod.snd ∧ ∀ j, node ∉ (d j).map Prod.fst
  | _ => True

/-- The lists represent sequences: the next pointers, from the first node on, visit the nodes of the elements
in order and end, the last node is that of the last element, the count is the length, and an application that
asks for the next data until there is none gets every element once, in order. -/
structure Lists.Represents (s : Lists) (d : ℕ → List (ℕ × ℕ)) : Prop where
  path : ∀ i, Path s.next (s.lists i).firstP ((d i).map Prod.fst) none
  data : ∀ i, ((d i).map Prod.fst).map s.data = ((d i).map Prod.snd).map some
  last : ∀ i, (s.lists i).lastP = ((d i).map Prod.fst).getLast?
  count : ∀ i, (s.lists i).count.toNat = (d i).length
  iterate : ∀ i, ∃ n, ∀ fuel ≥ n, s.sllIterate fuel i fuel none = some ((d i).map Prod.snd)

/-- The lists are linked, no node is on two of them, and no list has the same data twice. -/
structure Lists.Linked (s : Lists) (d : ℕ → List (ℕ × ℕ)) : Prop where
  linked : ∀ i, LinkedList.Linked s.next (s.lists i).header ((d i).map Prod.fst)
  data : ∀ i, ∀ x ∈ d i, s.data x.1 = some x.2
  nodup : ∀ i, ((d i).map Prod.snd).Nodup
  count : ∀ i, (s.lists i).count = UInt32.ofNat (d i).length
  disjoint : ∀ i j, i ≠ j → List.Disjoint ((d i).map Prod.fst) ((d j).map Prod.fst)

namespace Lists

variable {s : Lists} {d : ℕ → List (ℕ × ℕ)} {i node data : ℕ}

/-! ## Reads behind writes -/

theorem next_setNode (s : Lists) (node : ℕ) (n : Option SlinkNode) :
    (s.setNode node n).next = Function.update s.next node (n.bind SlinkNode.nextP) :=
  Function.comp_update (fun n : Option SlinkNode => n.bind SlinkNode.nextP) s.nodes node n

theorem data_setNode (s : Lists) (node : ℕ) (n : Option SlinkNode) :
    (s.setNode node n).data = Function.update s.data node (n.map SlinkNode.dataP) :=
  Function.comp_update (fun n : Option SlinkNode => n.map SlinkNode.dataP) s.nodes node n

theorem next_setNext {x : ℕ} (h : s.data node = some x) (v : Option ℕ) :
    (s.setNext node v).next = Function.update s.next node v := by
  obtain ⟨n, hn, -⟩ := Option.map_eq_some_iff.mp h
  have hwrite := s.next_setNode node ((s.nodes node).map fun n => { n with nextP := v })
  rw [hn] at hwrite
  rw [setNext, hn]
  exact hwrite

theorem data_setNext (s : Lists) (node : ℕ) (v : Option ℕ) : (s.setNext node v).data = s.data := by
  have hwrite := s.data_setNode node ((s.nodes node).map fun n => { n with nextP := v })
  rw [Option.map_map] at hwrite
  exact hwrite.trans (Function.update_eq_self node s.data)

variable {l : List (ℕ × ℕ)}

theorem mem_fst {x : ℕ × ℕ} (h : x ∈ l) : x.1 ∈ l.map Prod.fst := List.mem_map_of_mem h

/-- One list is changed, to a sequence of its nodes and of nodes that are on no list. -/
theorem Linked.update (h : s.Linked d) {t : Lists} {l : SlinkList} {m : List (ℕ × ℕ)}
    (hlists : t.lists = Function.update s.lists i l)
    (hl : LinkedList.Linked t.next l.header (m.map Prod.fst)) (hdata : ∀ x ∈ m, t.data x.1 = some x.2)
    (hnodup : (m.map Prod.snd).Nodup) (hcount : l.count = UInt32.ofNat m.length)
    (hsame : ∀ j, j ≠ i → ∀ b ∈ (d j).map Prod.fst, t.next b = s.next b ∧ t.data b = s.data b)
    (hm : ∀ b ∈ m.map Prod.fst, b ∈ (d i).map Prod.fst ∨ ∀ j, b ∉ (d j).map Prod.fst) :
    t.Linked (Function.update d i m) := by
  have hother : ∀ j, j ≠ i → List.Disjoint (m.map Prod.fst) ((d j).map Prod.fst) := by
    intro j hj b hb hbj
    rcases hm b hb with hbi | hfree
    · exact h.disjoint j i hj hbj hbi
    · exact hfree j hbj
  refine ⟨fun j => ?_, fun j => ?_, fun j => ?_, fun j => ?_, fun j k hjk => ?_⟩
  · rw [hlists]
    rcases eq_or_ne j i with rfl | hj
    · rw [Function.update_self, Function.update_self]
      exact hl
    · rw [Function.update_of_ne hj, Function.update_of_ne hj]
      exact (h.linked j).congr fun b hb => (hsame j hj b hb).1
  · rcases eq_or_ne j i with rfl | hj
    · rw [Function.update_self]
      exact hdata
    · rw [Function.update_of_ne hj]
      intro x hx
      rw [(hsame j hj x.1 (mem_fst hx)).2]
      exact h.data j x hx
  · rcases eq_or_ne j i with rfl | hj
    · rw [Function.update_self]
      exact hnodup
    · rw [Function.update_of_ne hj]
      exact h.nodup j
  · rw [hlists]
    rcases eq_or_ne j i with rfl | hj
    · rw [Function.update_self, Function.update_self]
      exact hcount
    · rw [Function.update_of_ne hj, Function.update_of_ne hj]
      exact h.count j
  · rcases eq_or_ne j i with rfl | hj
    · rw [Function.update_self, Function.update_of_ne hjk.symm]
      exact hother k hjk.symm
    · rcases eq_or_ne k i with rfl | hk
      · rw [Function.update_self, Function.update_of_ne hj]
        exact fun b hb hbm => hother j hj hbm hb
      · rw [Function.update_of_ne hj, Function.update_of_ne hk]
        exact h.disjoint j k hjk

/-! ## What the functions do -/

theorem ne_of_free (hfree : ∀ j, node ∉ (d j).map Prod.fst) {j b : ℕ} (hb : b ∈ (d j).map Prod.fst) : b ≠ node := by
  rintro rfl
  exact hfree j hb

/-- The state when data are appended: the last node, when there is one, gets the new one as its next. -/
def appended (s : Lists) (i node data : ℕ) : Lists :=
  let s' := s.setNode node (some { nextP := none, dataP := data })
  ((s.lists i).lastP.elim s' fun last => s'.setNext last (some node)).setList i
    { firstP := some ((s.lists i).firstP.getD node), lastP := some node, count := (s.lists i).count + 1 }

theorem lists_appended (s : Lists) (i node data : ℕ) : (s.appended i node data).lists = Function.update s.lists i
      { firstP := some ((s.lists i).firstP.getD node), lastP := some node, count := (s.lists i).count + 1 } := by
  unfold appended
  cases (s.lists i).lastP <;> rfl

theorem Linked.next_appended (h : s.Linked d) (hfree : ∀ j, node ∉ (d j).map Prod.fst) (data : ℕ) :
    (s.appended i node data).next =
        Function.update ((s.lists i).lastP.elim s.next fun b => Function.update s.next b (some node)) node none ∧
      (s.appended i node data).data = Function.update s.data node (some data) := by
  have hnew := s.next_setNode node (some { nextP := none, dataP := data })
  have hdata := s.data_setNode node (some { nextP := none, dataP := data })
  have hlast : (s.lists i).lastP = ((d i).map Prod.fst).getLast? := (h.linked i).tail
  unfold appended
  cases hlastP : (s.lists i).lastP with
  | none => exact ⟨hnew, hdata⟩
  | some last =>
    rw [hlastP] at hlast
    have hmem := List.mem_of_getLast? hlast.symm
    have hne : last ≠ node := ne_of_free hfree hmem
    obtain ⟨x, hx, rfl⟩ := List.mem_map.mp hmem
    have hlastData : (s.setNode node (some { nextP := none, dataP := data })).data x.1 = some x.2 := by
      rw [hdata, Function.update_of_ne hne]
      exact h.data i x hx
    refine ⟨(next_setNext hlastData (some node)).trans ?_, (data_setNext _ _ _).trans hdata⟩
    rw [hnew]
    exact Function.update_comm hne.symm _ _ _

theorem Linked.append (h : s.Linked d) (hdata : data ∉ (d i).map Prod.snd) (hfree : ∀ j, node ∉ (d j).map Prod.fst) :
    (s.sllAppend (some node) (some i) (some data)).1 = .success ∧
      (s.sllAppend (some node) (some i) (some data)).2.Linked (Function.update d i (d i ++ [(node, data)])) := by
  have hfirst : (s.lists i).firstP = ((d i).map Prod.fst).head? := (h.linked i).head_eq
  have hlast : (s.lists i).lastP = ((d i).map Prod.fst).getLast? := (h.linked i).tail
  have heq : s.sllAppend (some node) (some i) (some data) = (.success, s.appended i node data) := by
    have hlists : (s.setNode node (some { nextP := none, dataP := data })).lists = s.lists := rfl
    unfold sllAppend appended
    dsimp only
    rw [hlists, hfirst, hlast]
    rcases List.eq_nil_or_concat ((d i).map Prod.fst) with hnil | ⟨front, b, hb⟩
    · rw [hnil]
      rfl
    · rw [hb, List.concat_eq_append, List.getLast?_concat]
      cases front <;> rfl
  have hlinked := (h.linked i).linkTail (hfree i)
  obtain ⟨hnext, hdataOf⟩ := h.next_appended (i := i) hfree data
  rw [heq]
  refine ⟨rfl, h.update (s.lists_appended i node data) ?_ ?_ ?_ ?_ ?_ ?_⟩
  · rw [hnext, List.map_append]
    exact hlinked
  · intro x hx
    rw [hdataOf]
    rcases List.mem_append.mp hx with hx | hx
    · rw [Function.update_of_ne (ne_of_free hfree (mem_fst hx))]
      exact h.data i x hx
    · obtain rfl := List.mem_singleton.mp hx
      exact Function.update_self ..
  · rw [List.map_append]
    exact List.nodup_append_comm.mpr (List.nodup_cons.mpr ⟨hdata, h.nodup i⟩)
  · rw [h.count i, List.length_append, UInt32.ofNat_add]
    rfl
  · intro j hj b hb
    have hne := ne_of_free hfree hb
    rw [hnext, hdataOf, Function.update_of_ne hne, Function.update_of_ne hne, hlast]
    refine ⟨?_, rfl⟩
    cases hlast' : ((d i).map Prod.fst).getLast? with
    | none => rfl
    | some c =>
      have hbc : b ≠ c := by
        rintro rfl
        exact h.disjoint j i hj hb (List.mem_of_getLast? hlast')
      exact Function.update_of_ne hbc _ _
  · intro b hb
    rw [List.map_append] at hb
    rcases List.mem_append.mp hb with hb | hb
    · exact Or.inl hb
    · obtain rfl := List.mem_singleton.mp hb
      exact Or.inr hfree

/-- The state when a node is taken from a list and freed; the node in front of it is given, when there is
one. -/
def unlinked (s : Lists) (i node : ℕ) (prev : Option ℕ) : Lists :=
  let l := s.lists i
  ((prev.elim s fun b => s.setNext b (s.next node)).setList i
    { firstP := if prev = none then s.next node else l.firstP
      lastP := if l.lastP = some node then (if prev = none then s.next node else prev) else l.lastP
      count := l.count - 1 }).setNode node none

theorem lists_unlinked (s : Lists) (i node : ℕ) (prev : Option ℕ) :
    (s.unlinked i node prev).lists = Function.update s.lists i
      { firstP := if prev = none then s.next node else (s.lists i).firstP
        lastP := if (s.lists i).lastP = some node then (if prev = none then s.next node else prev)
          else (s.lists i).lastP
        count := (s.lists i).count - 1 } := by
  cases prev <;> rfl

theorem next_unlinked {prev : Option ℕ} (hprev : ∀ b, prev = some b → ∃ x, s.data b = some x) :
    (s.unlinked i node prev).next =
        Function.update (prev.elim s.next fun b => Function.update s.next b (s.next node)) node none ∧
      (s.unlinked i node prev).data = Function.update s.data node none := by
  have hnext := ((prev.elim s fun b => s.setNext b (s.next node)).setList i
    { firstP := if prev = none then s.next node else (s.lists i).firstP
      lastP := if (s.lists i).lastP = some node then (if prev = none then s.next node else prev)
        else (s.lists i).lastP
      count := (s.lists i).count - 1 }).next_setNode node none
  have hdata := ((prev.elim s fun b => s.setNext b (s.next node)).setList i
    { firstP := if prev = none then s.next node else (s.lists i).firstP
      lastP := if (s.lists i).lastP = some node then (if prev = none then s.next node else prev)
        else (s.lists i).lastP
      count := (s.lists i).count - 1 }).data_setNode node none
  cases prev with
  | none => exact ⟨hnext, hdata⟩
  | some b =>
    obtain ⟨x, hx⟩ := hprev b rfl
    have hfreed : ∀ {f g : ℕ → Option ℕ}, f = g → Function.update f node none = Function.update g node none :=
      fun heq => by rw [heq]
    exact ⟨hnext.trans (hfreed (next_setNext hx _)), hdata.trans (hfreed (data_setNext s b _))⟩

variable {front back : List (ℕ × ℕ)}

theorem Linked.unlinked (h : s.Linked d) (hd : d i = front ++ (node, data) :: back) :
    (s.unlinked i node (front.map Prod.fst).getLast?).Linked (Function.update d i (front ++ back)) := by
  have hfst : (d i).map Prod.fst = front.map Prod.fst ++ node :: back.map Prod.fst := by
    rw [hd, List.map_append]
    rfl
  have hsub : (front ++ back).Sublist (d i) := by
    rw [hd]
    exact (List.Sublist.refl front).append (List.sublist_cons_self _ back)
  have hunlinked := (hfst ▸ h.linked i).unlink
  have hnil : ((front.map Prod.fst).getLast? = none) = (front.map Prod.fst = []) := propext List.getLast?_eq_none_iff
  have hdataOf : ∀ b ∈ (d i).map Prod.fst, ∃ x, s.data b = some x := by
    intro b hb
    obtain ⟨x, hx, rfl⟩ := List.mem_map.mp hb
    exact ⟨x.2, h.data i x hx⟩
  have hnodup : ((front ++ back).map Prod.fst).Nodup ∧ node ∉ (front ++ back).map Prod.fst := by
    have hperm : (front.map Prod.fst ++ node :: back.map Prod.fst).Perm
        (node :: (front.map Prod.fst ++ back.map Prod.fst)) := List.perm_middle
    have hall := (h.linked i).nodup
    rw [hfst] at hall
    obtain ⟨hnode, hrest⟩ := List.nodup_cons.mp (hperm.nodup_iff.mp hall)
    rw [List.map_append]
    exact ⟨hrest, hnode⟩
  obtain ⟨hnext, hdata⟩ := @next_unlinked s i node (front.map Prod.fst).getLast? fun b hb => by
    refine hdataOf b ?_
    rw [hfst]
    exact List.mem_append_left _ (List.mem_of_getLast? hb)
  refine h.update (s.lists_unlinked i node _) ?_ (fun x hx => ?_) ?_ ?_ (fun j hj b hb => ?_) fun b hb => Or.inl ?_
  · rw [hnext, List.map_append]
    simp only [hnil]
    exact hunlinked
  · have hne : x.1 ≠ node := fun heq => hnodup.2 (heq ▸ mem_fst hx)
    rw [hdata, Function.update_of_ne hne]
    exact h.data i x (hsub.subset hx)
  · exact (h.nodup i).sublist (hsub.map Prod.snd)
  · have hone : UInt32.ofNat 1 = 1 := rfl
    have hlen : (d i).length = (front ++ back).length + 1 := by
      rw [hd, List.length_append, List.length_cons, List.length_append]
      rfl
    rw [h.count i, hlen, UInt32.ofNat_add, hone, UInt32.add_sub_cancel]
  · have hmem : node ∈ (d i).map Prod.fst := by
      rw [hfst]
      simp
    have hne : b ≠ node := by
      rintro rfl
      exact h.disjoint j i hj hb hmem
    rw [hnext, hdata, Function.update_of_ne hne, Function.update_of_ne hne]
    refine ⟨?_, rfl⟩
    cases hlast : (front.map Prod.fst).getLast? with
    | none => rfl
    | some c =>
      have hc : c ∈ (d i).map Prod.fst := by
        rw [hfst]
        exact List.mem_append_left _ (List.mem_of_getLast? hlast)
      have hbc : b ≠ c := by
        rintro rfl
        exact h.disjoint j i hj hb hc
      exact Function.update_of_ne hbc _ _
  · exact (hsub.map Prod.fst).subset hb

theorem Linked.not_data (h : s.Linked d) (hl : ∀ x ∈ l, x ∈ d i)
    (hdata : data ∉ l.map Prod.snd) : ∀ b ∈ l.map Prod.fst, ¬ s.data b = some data := by
  intro b hb heq
  obtain ⟨x, hx, rfl⟩ := List.mem_map.mp hb
  rw [h.data i x (hl x hx)] at heq
  exact hdata (Option.some.inj heq ▸ List.mem_map_of_mem hx)

variable {fuel : ℕ}

theorem Linked.search_of_mem (h : s.Linked d) (hd : d i = front ++ (node, data) :: back) (hfuel : (d i).length ≤ fuel) :
    s.sllSearch fuel (s.lists i) data = some (some node, (front.map Prod.fst).getLast?) := by
  have hsnd : (d i).map Prod.snd = front.map Prod.snd ++ data :: back.map Prod.snd := by
    rw [hd, List.map_append]
    rfl
  have hfst : (d i).map Prod.fst = front.map Prod.fst ++ node :: back.map Prod.fst := by
    rw [hd, List.map_append]
    rfl
  have hfront : data ∉ front.map Prod.snd := by
    have hnodup := h.nodup i
    rw [hsnd, List.nodup_append] at hnodup
    exact fun hmem => hnodup.2.2 data hmem data List.mem_cons_self rfl
  have hlen : (front.map Prod.fst).length < fuel := by
    rw [hd, List.length_append, List.length_cons] at hfuel
    rw [List.length_map]
    omega
  have hsearch : s.sllSearch fuel (s.lists i) data = some (some node, (front.map Prod.fst).getLast?.or none) :=
    search_of_split (hfst ▸ (h.linked i).path)
      (h.not_data (i := i) (fun x hx => by rw [hd]; exact List.mem_append_left _ hx) hfront)
      (h.data i (node, data) (by rw [hd]; simp)) hlen
  rwa [Option.or_none] at hsearch

theorem Linked.search_of_not_mem (h : s.Linked d) (hdata : data ∉ (d i).map Prod.snd)
    (hfuel : (d i).length ≤ fuel) : ∃ prev, s.sllSearch fuel (s.lists i) data = some (none, prev) := by
  refine ⟨_, search_of_forall (h.linked i).path (h.not_data (i := i) (fun x hx => hx) hdata) ?_⟩
  rw [List.length_map]
  exact hfuel

theorem exists_split (h : data ∈ l.map Prod.snd) : ∃ front node back, l = front ++ (node, data) :: back := by
  obtain ⟨x, hx, rfl⟩ := List.mem_map.mp h
  obtain ⟨front, back, hl⟩ := List.append_of_mem hx
  exact ⟨front, x.1, back, hl⟩

theorem filter_split (h : ((front ++ (node, data) :: back).map Prod.snd).Nodup) :
    (front ++ (node, data) :: back).filter (fun x => x.2 ≠ data) = front ++ back := by
  rw [List.map_append, List.map_cons] at h
  have hperm : (front.map Prod.snd ++ data :: back.map Prod.snd).Perm
      (data :: (front.map Prod.snd ++ back.map Prod.snd)) := List.perm_middle
  obtain ⟨hdata, -⟩ := List.nodup_cons.mp (hperm.nodup_iff.mp h)
  have hkeep : ∀ l : List (ℕ × ℕ), data ∉ l.map Prod.snd → l.filter (fun x => x.2 ≠ data) = l := by
    intro l hl
    refine List.filter_eq_self.mpr fun x hx => decide_eq_true ?_
    rintro rfl
    exact hl (List.mem_map_of_mem hx)
  rw [List.filter_append, List.filter_cons_of_neg (by simp),
    hkeep front fun hmem => hdata (List.mem_append_left _ hmem),
    hkeep back fun hmem => hdata (List.mem_append_right _ hmem)]

theorem Linked.remove_of_mem (h : s.Linked d) (hmem : data ∈ (d i).map Prod.snd) :
    ∃ s', (∀ fuel ≥ (d i).length, s.sllRemove fuel (some i) (some data) = some (.success, s')) ∧
      s'.Linked (Function.update d i ((d i).filter fun x => x.2 ≠ data)) := by
  obtain ⟨front, node, back, hd⟩ := exists_split hmem
  have hfilter : (d i).filter (fun x => x.2 ≠ data) = front ++ back := by
    rw [hd]
    exact filter_split (hd ▸ h.nodup i)
  refine ⟨s.unlinked i node (front.map Prod.fst).getLast?, fun fuel hfuel => ?_, hfilter ▸ h.unlinked hd⟩
  have hsearch := h.search_of_mem hd hfuel
  unfold sllRemove
  dsimp only
  rw [hsearch, Option.map_some]
  cases (front.map Prod.fst).getLast? <;> rfl

theorem Linked.remove_of_not_mem (h : s.Linked d) (hdata : data ∉ (d i).map Prod.snd)
    (hfuel : (d i).length ≤ fuel) : s.sllRemove fuel (some i) (some data) = some (.nodeNotFound, s) := by
  obtain ⟨prev, hsearch⟩ := h.search_of_not_mem hdata hfuel
  unfold sllRemove
  dsimp only
  rw [hsearch]
  rfl

theorem Linked.bind_data (h : s.Linked d) (hl : ∀ x ∈ l, x ∈ d i) :
    (l.map Prod.fst).head?.bind s.data = (l.map Prod.snd).head? := by
  cases l with
  | nil => rfl
  | cons x l => exact h.data i x (hl x List.mem_cons_self)

theorem nextData_split (h : ((front ++ (node, data) :: back).map Prod.snd).Nodup) :
    nextData ((front ++ (node, data) :: back).map Prod.snd) (some data) = (back.map Prod.snd).head? := by
  rw [List.map_append, List.map_cons] at h ⊢
  have hfront : data ∉ front.map Prod.snd :=
    fun hmem => (List.nodup_append.mp h).2.2 data hmem data List.mem_cons_self rfl
  have hindex : (front.map Prod.snd).length + 1 - (front.map Prod.snd).length = 0 + 1 := by omega
  rw [nextData, List.idxOf_append_of_notMem hfront, List.idxOf_cons_self, Nat.add_zero,
    List.getElem?_append_right (Nat.le_succ _), hindex, List.getElem?_cons_succ, List.head?_eq_getElem?]

theorem Linked.next_eq (h : s.Linked d) (x : Option ℕ) (hfuel : (d i).length ≤ fuel) :
    s.sllNext fuel (some i) x = some (nextData ((d i).map Prod.snd) x) := by
  cases x with
  | none =>
    have hhead : (s.lists i).firstP = ((d i).map Prod.fst).head? := (h.linked i).head_eq
    rw [sllNext, hhead, h.bind_data (i := i) fun x hx => hx]
    rfl
  | some data =>
    unfold sllNext
    dsimp only
    by_cases hmem : data ∈ (d i).map Prod.snd
    · obtain ⟨front, node, back, hd⟩ := exists_split hmem
      have hsub : ∀ x ∈ back, x ∈ d i := by
        intro x hx
        rw [hd]
        exact List.mem_append_right _ (List.mem_cons_of_mem _ hx)
      have hpath := (h.linked i).path
      rw [hd, List.map_append, path_append] at hpath
      obtain ⟨r, -, -, hback⟩ := hpath
      rw [h.search_of_mem hd hfuel, hd, nextData_split (hd ▸ h.nodup i), ← h.bind_data hsub, ← hback.eq_head?]
      rfl
    · obtain ⟨prev, hsearch⟩ := h.search_of_not_mem hmem hfuel
      rw [hsearch, nextData, List.idxOf_eq_length hmem, List.getElem?_eq_none (by omega)]
      rfl

theorem nextData_front (h : ((front ++ back).map Prod.snd).Nodup) :
    nextData ((front ++ back).map Prod.snd) (front.map Prod.snd).getLast? = (back.map Prod.snd).head? := by
  rcases List.eq_nil_or_concat front with rfl | ⟨front, x, rfl⟩
  · rfl
  · rw [List.concat_eq_append, List.append_assoc] at h ⊢
    have hlast : ((front ++ [x]).map Prod.snd).getLast? = some x.2 := by
      rw [List.map_append]
      exact List.getLast?_concat
    rw [hlast]
    exact nextData_split h

theorem Linked.iterate (h : s.Linked d) (hfuel : (d i).length ≤ fuel)
    (hd : d i = front ++ back) {n : ℕ} (hn : back.length < n) :
    s.sllIterate fuel i n (front.map Prod.snd).getLast? = some (back.map Prod.snd) := by
  induction back generalizing front n with
  | nil =>
    obtain ⟨n, rfl⟩ := Nat.exists_eq_add_one.mpr (Nat.zero_lt_of_lt hn)
    rw [sllIterate, h.next_eq _ hfuel, hd, nextData_front (hd ▸ h.nodup i)]
    rfl
  | cons x back ih =>
    obtain ⟨n, rfl⟩ := Nat.exists_eq_add_one.mpr (Nat.zero_lt_of_lt hn)
    rw [List.length_cons] at hn
    have hrest := @ih (front ++ [x]) (by rw [hd, List.append_assoc]; rfl) n (by omega)
    rw [List.map_append, List.map_singleton, List.getLast?_concat] at hrest
    rw [sllIterate, h.next_eq _ hfuel, hd, nextData_front (hd ▸ h.nodup i), List.map_cons, List.head?_cons,
      Option.bind_some]
    dsimp only
    rw [hrest]
    rfl

theorem Linked.represents_iff (h : s.Linked d) : s.Represents d ↔ ∀ i, (d i).length < 2 ^ 32 := by
  constructor
  · intro hr i
    rw [← hr.count i]
    exact (s.lists i).count.toNat_lt
  · intro hshort
    refine ⟨fun i => (h.linked i).path, fun i => ?_, fun i => (h.linked i).tail, fun i => ?_, fun i => ?_⟩
    · rw [List.map_map, List.map_map]
      exact List.map_congr_left (h.data i)
    · rw [h.count i, UInt32.toNat_ofNat', Nat.mod_eq_of_lt (hshort i)]
    · refine ⟨(d i).length + 1, fun fuel hfuel => ?_⟩
      exact h.iterate (by omega) (List.nil_append (d i)).symm (by omega)

/-- An operation ends, with the result that it has on the sequences, and the lists stay linked. One that finds
no data changes nothing. -/
theorem Linked.step (h : s.Linked d) {op : SllOp} (hfree : AppendsFree d op) :
    ∃ s', s.Steps op (seqStep d op).1 s' ∧ s'.Linked (seqStep d op).2 ∧
      ((seqStep d op).1 = .ret .nodeNotFound → s' = s) := by
  cases op with
  | append list data memory =>
    rcases list with _ | i
    · exact ⟨s, ⟨0, fun _ _ => rfl⟩, h, fun _ => rfl⟩
    rcases data with _ | data
    · exact ⟨s, ⟨0, fun _ _ => rfl⟩, h, fun _ => rfl⟩
    rcases memory with _ | node
    · exact ⟨s, ⟨0, fun _ _ => rfl⟩, h, fun _ => rfl⟩
    obtain ⟨hret, hlinked⟩ := h.append hfree.1 hfree.2
    refine ⟨_, ⟨0, fun _ _ => ?_⟩, hlinked, nofun⟩
    exact congrArg some (Prod.ext (congrArg SllResult.ret hret) rfl)
  | remove list data =>
    rcases list with _ | i
    · exact ⟨s, ⟨0, fun _ _ => rfl⟩, h, fun _ => rfl⟩
    rcases data with _ | data
    · exact ⟨s, ⟨0, fun _ _ => rfl⟩, h, fun _ => rfl⟩
    by_cases hmem : data ∈ (d i).map Prod.snd
    · obtain ⟨s', hs', hlinked⟩ := h.remove_of_mem hmem
      rw [seqStep, if_pos hmem]
      refine ⟨s', ⟨(d i).length, fun fuel hfuel => ?_⟩, hlinked, nofun⟩
      rw [Lists.step, hs' fuel hfuel]
      rfl
    · rw [seqStep, if_neg hmem]
      refine ⟨s, ⟨(d i).length, fun fuel hfuel => ?_⟩, h, fun _ => rfl⟩
      rw [Lists.step, h.remove_of_not_mem hmem hfuel]
      rfl
  | next list data =>
    rcases list with _ | i
    · exact ⟨s, ⟨0, fun _ _ => rfl⟩, h, fun _ => rfl⟩
    refine ⟨s, ⟨(d i).length, fun fuel hfuel => ?_⟩, h, fun _ => rfl⟩
    rw [Lists.step, h.next_eq data hfuel]
    rfl

end Lists

/-! ## Runs -/

/-- Every node of a run is made for data that the list does not have. -/
def AppendsFreeThroughout (d : ℕ → List (ℕ × ℕ)) : List SllOp → Prop
  | [] => True
  | op :: ops => AppendsFree d op ∧ AppendsFreeThroughout (seqStep d op).2 ops

/-- In every state of a run the lists represent the sequences; every operation ends with the result that it
has on the sequences, and one that finds no data changes nothing. -/
def RefinesThroughout (s : Lists) (d : ℕ → List (ℕ × ℕ)) : List SllOp → Prop
  | [] => s.Represents d
  | op :: ops => s.Represents d ∧ ∃ s', s.Steps op (seqStep d op).1 s' ∧
    ((seqStep d op).1 = .ret .nodeNotFound → s' = s) ∧ RefinesThroughout s' (seqStep d op).2 ops

/-- In no state of a run a sequence has more elements than a count of 32 bits can tell. -/
def ShortThroughout (d : ℕ → List (ℕ × ℕ)) : List SllOp → Prop
  | [] => ∀ i, (d i).length < 2 ^ 32
  | op :: ops => (∀ i, (d i).length < 2 ^ 32) ∧ ShortThroughout (seqStep d op).2 ops

theorem Lists.Steps.unique {s s' t : Lists} {op : SllOp} {r : SllResult} (h : s.Steps op r s')
    (ht : s.Steps op r t) : s' = t := by
  obtain ⟨m, hm⟩ := h
  obtain ⟨n, hn⟩ := ht
  have heq := (hm (max m n) (le_max_left m n)).symm.trans (hn (max m n) (le_max_right m n))
  exact (Prod.mk.inj (Option.some.inj heq)).2

theorem Lists.Linked.refines_iff {s : Lists} {d : ℕ → List (ℕ × ℕ)} (h : s.Linked d) {ops : List SllOp}
    (hfree : AppendsFreeThroughout d ops) : RefinesThroughout s d ops ↔ ShortThroughout d ops := by
  induction ops generalizing s d with
  | nil => exact h.represents_iff
  | cons op ops ih =>
    obtain ⟨hop, hrest⟩ := hfree
    obtain ⟨s', hsteps, hlinked, hsame⟩ := h.step hop
    constructor
    · rintro ⟨hr, t, ht, -, hthroughout⟩
      obtain rfl := hsteps.unique ht
      exact ⟨h.represents_iff.mp hr, (ih hlinked hrest).mp hthroughout⟩
    · rintro ⟨hshort, hthroughout⟩
      exact ⟨h.represents_iff.mpr hshort, s', hsteps, hsame, (ih hlinked hrest).mpr hthroughout⟩

/-- Lists behind `sll_create`, without nodes. -/
def Lists.init : Lists where
  nodes _ := none
  lists _ := {}

theorem Lists.linked_init : Lists.init.Linked fun _ => [] :=
  ⟨fun _ => .nil _, fun _ _ hx => absurd hx List.not_mem_nil, fun _ => List.nodup_nil, fun _ => rfl,
    fun _ _ _ => List.disjoint_nil_left []⟩

/-- **When the linked lists represent the sequences.** In no state of a run a list of nodes has more than
65535 elements, or a list of data more than its count of 32 bits can tell. -/
theorem linkedLists_refine_iff (nextP : ℕ → Option ℕ) (liteOps : List SllLite.LiteOp) (ops : List SllOp) :
    (SllLite.LinksFreeThroughout (fun _ => []) liteOps →
      (SllLite.RefinesThroughout (.init nextP) (fun _ => []) liteOps ↔
        SllLite.ShortThroughout (fun _ => []) liteOps)) ∧
    (AppendsFreeThroughout (fun _ => []) ops →
      (RefinesThroughout .init (fun _ => []) ops ↔ ShortThroughout (fun _ => []) ops)) :=
  ⟨fun hfree => (SllLite.Lists.linked_init nextP).refines_iff hfree,
    fun hfree => Lists.linked_init.refines_iff hfree⟩

/-- Two nodes are linked and one is removed; data are appended, removed, and asked for. -/
theorem linkedLists_refine_two :
    (SllLite.RefinesThroughout (.init fun _ => none) (fun _ => [])
        [.linkHead (some 0) (some 5), .linkTail (some 0) (some 6), .remove (some 0) (some 5)] ↔
      SllLite.ShortThroughout (fun _ => [])
        [.linkHead (some 0) (some 5), .linkTail (some 0) (some 6), .remove (some 0) (some 5)]) ∧
    (RefinesThroughout .init (fun _ => [])
        [.append (some 0) (some 7) (some 5), .remove (some 0) (some 7), .next (some 0) none] ↔
      ShortThroughout (fun _ => [])
        [.append (some 0) (some 7) (some 5), .remove (some 0) (some 7), .next (some 0) none]) := by
  refine ⟨(linkedLists_refine_iff _ _ []).1 ⟨fun _ => List.not_mem_nil, fun i => ?_, trivial, trivial⟩,
    (linkedLists_refine_iff (fun _ => none) [] _).2
      ⟨⟨List.not_mem_nil, fun _ => List.not_mem_nil⟩, trivial, trivial, trivial⟩⟩
  rcases eq_or_ne i 0 with rfl | hi
  · decide
  · rw [SllLite.dequeStep]
    dsimp only
    rw [Function.update_of_ne hi]
    exact List.not_mem_nil

/-- A list of 65536 nodes does not represent their sequence. -/
theorem not_linkedLists_refine :
    ¬ SllLite.RefinesThroughout (.init fun _ => none) (fun _ => []) (SllLite.linkNodes 65536) :=
  SllLite.not_refines_linkNodes _ le_rfl

end Sll
