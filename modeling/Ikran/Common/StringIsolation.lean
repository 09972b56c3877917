import Ikran.Common.StringLib
import Mathlib.Data.List.Perm.Basic
import Mathlib.Data.List.TakeWhile

/-!
# The strings of different holders

A reference that is held denotes a live block, and its text is changed only by its own holder. This holds as
long as no block has more references than its counter of 16 bits can tell, and as a string that is opened
when there is no memory is not written beyond what its holder may write.
-/

namespace Strlib

open CStr

/-! ## Bytes -/

theorem length_overlay {data bytes : CStr} {offset : ℕ} (h : offset + bytes.length ≤ data.length) :
    (overlay data offset bytes).length = data.length := by
  simp only [overlay, List.length_append, List.length_take, List.length_drop]
  omega

theorem overlay_end {data bytes : CStr} {offset : ℕ} (h : data.length ≤ offset + bytes.length) :
    overlay data offset bytes = data.take offset ++ bytes := by
  rw [overlay, List.drop_eq_nil_iff.mpr h, List.append_nil]

theorem getLast?_overlay {data bytes : CStr} {offset : ℕ} (h : offset + bytes.length ≤ data.length)
    (hdata : data.getLast? = some nul)
    (hbytes : offset + bytes.length = data.length → bytes ≠ [] → bytes.getLast? = some nul) :
    (overlay data offset bytes).getLast? = some nul := by
  rcases Nat.lt_or_ge (offset + bytes.length) data.length with hlt | hge
  · have hdrop : data.drop (offset + bytes.length) ≠ [] := by
      rw [Ne, List.drop_eq_nil_iff]
      omega
    rw [overlay, List.getLast?_append_of_ne_nil _ hdrop, List.getLast?_drop, if_neg (by omega)]
    exact hdata
  · have hend : offset + bytes.length = data.length := by omega
    rw [overlay_end hge]
    rcases eq_or_ne bytes [] with rfl | hne
    · rw [List.append_nil, List.take_of_length_le (by simpa using hge)]
      exact hdata
    · rw [List.getLast?_append_of_ne_nil _ hne]
      exact hbytes hend hne

theorem overlay_text_nul {data : CStr} (h : nul ∈ data) :
    overlay data (data.takeWhile (· ≠ nul)).length [nul] = data := by
  induction data with
  | nil => cases h
  | cons c data ih =>
    rcases eq_or_ne c nul with rfl | hc
    · simp [overlay]
    · have hmem : nul ∈ data := by
        rcases List.mem_cons.mp h with heq | hmem
        · exact absurd heq.symm hc
        · exact hmem
      have hrest := ih hmem
      simp only [overlay, List.length_singleton] at hrest ⊢
      rw [List.takeWhile_cons_of_pos (by simpa using hc), List.length_cons, List.take_succ_cons,
        Nat.add_right_comm, List.drop_succ_cons, List.cons_append, List.cons_append, hrest]

theorem StringBlock.length_text_lt (b : StringBlock) (h : b.data.getLast? = some nul) :
    b.text.length < b.data.length := by
  have hne : b.text ≠ b.data := by
    intro heq
    have hmem : nul ∈ b.text := heq ▸ List.mem_of_getLast? h
    have hpos := List.mem_takeWhile_imp hmem
    simp at hpos
  have hfront : b.text <+: b.data := List.takeWhile_prefix _
  exact lt_of_le_of_ne hfront.length_le fun hlen => hne (hfront.eq_of_length hlen)

namespace Mem

/-- The bytes of the block at an address. -/
def data (m : Mem) (p : ℕ) : Option CStr := (m.blocks p).map StringBlock.data

/-- The blocks with another one, or with none, at an address. -/
def setBlock (m : Mem) (p : ℕ) (x : Option StringBlock) : Mem :=
  { m with blocks := Function.update m.blocks p x }

@[simp]
theorem blocks_setBlock_self (m : Mem) (p : ℕ) (x : Option StringBlock) : (m.setBlock p x).blocks p = x :=
  Function.update_self ..

variable {p : ℕ}

theorem blocks_setBlock_of_ne (m : Mem) {q : ℕ} (h : q ≠ p) (x : Option StringBlock) :
    (m.setBlock p x).blocks q = m.blocks q :=
  Function.update_of_ne h _ _

theorem data_setBlock_of_ne (m : Mem) {q : ℕ} (h : q ≠ p) (x : Option StringBlock) :
    (m.setBlock p x).data q = m.data q :=
  congrArg (Option.map StringBlock.data) (m.blocks_setBlock_of_ne h x)

theorem data_setBlock {m : Mem} {b b' : StringBlock} (hb : m.blocks p = some b)
    (hdata : b'.data = b.data) (q : ℕ) : (m.setBlock p (some b')).data q = m.data q := by
  rcases eq_or_ne q p with rfl | hne
  · rw [data, blocks_setBlock_self, data, hb, Option.map_some, Option.map_some, hdata]
  · exact m.data_setBlock_of_ne hne _

theorem modifyBlock_eq {m : Mem} {b : StringBlock} (hb : m.blocks p = some b)
    (f : StringBlock → StringBlock) : m.modifyBlock p f = m.setBlock p (some (f b)) := by
  rw [modifyBlock, hb]
  rfl

theorem text_congr {m m' : Mem} (h : m'.data p = m.data p) : m'.text p = m.text p := by
  have htext : ∀ m : Mem, m.text p = ((m.data p).map fun d => d.takeWhile (· ≠ nul)).getD [] := by
    intro m
    rw [Mem.text, Mem.data, Option.map_map]
    rfl
  rw [htext, htext, h]

end Mem

/-! ## References that are counted -/

/-- A block as `strlib_malloc` makes it: signed, with a terminator at its end, and not longer than its bytes. -/
structure StringBlock.Whole (b : StringBlock) : Prop where
  signature : b.signature = stringSignature
  last : b.data.getLast? = some nul
  length : b.length.toNat < b.data.length
  small : b.data.length < 2 ^ 31

/-- One reference, to an address or to none. -/
def one (r : Option ℕ) (q : ℕ) : ℕ := if r = some q then 1 else 0

@[simp]
theorem one_self (p : ℕ) : one (some p) p = 1 := if_pos rfl

theorem one_of_ne {p q : ℕ} (h : p ≠ q) : one (some p) q = 0 := if_neg fun heq => h (Option.some.inj heq)

@[simp]
theorem one_none (q : ℕ) : one none q = 0 := if_neg nofun

/-- The blocks are whole, and each but the empty string counts its references, of which there is at least
one. -/
structure Mem.Counted (m : Mem) (n : ℕ → ℕ) : Prop where
  fault : m.fault = false
  held : ∀ p, 0 < n p → ∃ b, m.blocks p = some b
  empty : ∀ p, m.emptyStr = some p → ∃ b, m.blocks p = some b ∧ b.refcount = 0xffff
  whole : ∀ p b, m.blocks p = some b → b.Whole
  counted : ∀ p b, m.blocks p = some b → m.emptyStr ≠ some p → b.refcount.toNat = n p ∧ 0 < n p

namespace Mem.Counted

variable {m : Mem} {k n : ℕ → ℕ} {p : ℕ}

theorem isString (h : m.Counted n) (hp : 0 < n p) : m.strlibIsString (some p) = true := by
  obtain ⟨b, hb⟩ := h.held p hp
  rw [strlibIsString, hb]
  exact decide_eq_true (h.whole p b hb).signature

theorem withCalls (h : m.Counted n) (calls : ℕ) : ({ m with calls } : Mem).Counted n :=
  ⟨h.fault, h.held, h.empty, h.whole, h.counted⟩

variable {b : StringBlock}

theorem of_refcount_eq_one (h : m.Counted fun q => k q + one (some p) q)
    (hb : m.blocks p = some b) (hone : b.refcount = 1) : m.emptyStr ≠ some p ∧ k p = 0 := by
  have hempty : m.emptyStr ≠ some p := by
    intro heq
    obtain ⟨b', hb', hcount⟩ := h.empty p heq
    obtain rfl := Option.some.inj (hb.symm.trans hb')
    rw [hone] at hcount
    exact absurd hcount (by decide)
  have hcount := (h.counted p b hb hempty).1
  rw [hone, one_self] at hcount
  have h1 : (1 : UInt16).toNat = 1 := rfl
  exact ⟨hempty, by omega⟩

theorem update (h : m.Counted n) (hempty : m.emptyStr ≠ some p) {x : Option StringBlock} {n' : ℕ → ℕ}
    (hn : ∀ q, q ≠ p → n' q = n q) (hnone : x = none → n' p = 0)
    (hsome : ∀ b, x = some b → b.Whole ∧ b.refcount.toNat = n' p ∧ 0 < n' p) :
    (m.setBlock p x).Counted n' := by
  have hother : ∀ q, q ≠ p → (m.setBlock p x).blocks q = m.blocks q := fun q hq => m.blocks_setBlock_of_ne hq x
  have hself := m.blocks_setBlock_self p x
  refine ⟨h.fault, fun q hq => ?_, fun q hq => ?_, fun q b hb => ?_, fun q b hb hq => ?_⟩
  · rcases eq_or_ne q p with rfl | hne
    · cases x with
      | none =>
        rw [hnone rfl] at hq
        exact absurd hq (lt_irrefl 0)
      | some b => exact ⟨b, hself⟩
    · rw [hn q hne] at hq
      obtain ⟨b, hb⟩ := h.held q hq
      exact ⟨b, (hother q hne).trans hb⟩
  · have hne : q ≠ p := by
      rintro rfl
      exact hempty hq
    obtain ⟨b, hb, hcount⟩ := h.empty q hq
    exact ⟨b, (hother q hne).trans hb, hcount⟩
  · rcases eq_or_ne q p with rfl | hne
    · exact (hsome b (hself.symm.trans hb)).1
    · exact h.whole q b ((hother q hne).symm.trans hb)
  · rcases eq_or_ne q p with rfl | hne
    · exact (hsome b (hself.symm.trans hb)).2
    · rw [hn q hne]
      exact h.counted q b ((hother q hne).symm.trans hb) hq

theorem of_empty (h : m.Counted n) (hempty : m.emptyStr = some p) {n' : ℕ → ℕ}
    (hn : ∀ q, q ≠ p → n' q = n q) : m.Counted n' := by
  refine ⟨h.fault, fun q hq => ?_, h.empty, h.whole, fun q b hb hq => ?_⟩
  · rcases eq_or_ne q p with rfl | hne
    · obtain ⟨b, hb, -⟩ := h.empty q hempty
      exact ⟨b, hb⟩
    · rw [hn q hne] at hq
      exact h.held q hq
  · have hne : q ≠ p := by
      rintro rfl
      exact hq hempty
    rw [hn q hne]
    exact h.counted q b hb hq

theorem setEmpty (h : m.Counted n) (hempty : m.emptyStr = none) (hb : m.blocks p = some b) :
    ({ m.setBlock p (some { b with refcount := 0xffff }) with emptyStr := some p } : Mem).Counted n := by
  have hother : ∀ q, q ≠ p → (m.setBlock p (some { b with refcount := 0xffff })).blocks q = m.blocks q :=
    fun q hq => m.blocks_setBlock_of_ne hq _
  have hself := m.blocks_setBlock_self p (some { b with refcount := 0xffff })
  refine ⟨h.fault, fun q hq => ?_, fun q hq => ?_, fun q b' hb' => ?_, fun q b' hb' hq => ?_⟩
  · rcases eq_or_ne q p with rfl | hne
    · exact ⟨_, hself⟩
    · obtain ⟨b', hb'⟩ := h.held q hq
      exact ⟨b', (hother q hne).trans hb'⟩
  · obtain rfl := Option.some.inj hq
    exact ⟨_, hself, rfl⟩
  · rcases eq_or_ne q p with rfl | hne
    · obtain rfl := Option.some.inj (hself.symm.trans hb')
      have hwhole := h.whole q b hb
      exact ⟨hwhole.signature, hwhole.last, hwhole.length, hwhole.small⟩
    · exact h.whole q b' ((hother q hne).symm.trans hb')
  · have hne : q ≠ p := by
      rintro rfl
      exact hq rfl
    exact h.counted q b' ((hother q hne).symm.trans hb') (by rw [hempty]; nofun)

/-! ## What the functions do to the counts -/

theorem add_one_of_ne (k : ℕ → ℕ) {q : ℕ} (h : q ≠ p) : k q + one (some p) q = k q := by
  rw [one_of_ne h.symm, Nat.add_zero]

/-- A reference is given back. The blocks at other addresses are not touched. -/
theorem free (h : m.Counted fun q => k q + one (some p) q) :
    (m.strlibFree (some p)).Counted k ∧ (∀ q, 0 < k q → (m.strlibFree (some p)).data q = m.data q) ∧
      ∀ q, q ≠ p → (m.strlibFree (some p)).blocks q = m.blocks q := by
  have hheld : 0 < k p + one (some p) p := by
    rw [one_self]
    omega
  have hstring := h.isString hheld
  obtain ⟨b, hb⟩ := h.held p hheld
  have hsame : ∀ q, q ≠ p → k q = k q + one (some p) q := fun q hq => (add_one_of_ne k hq).symm
  by_cases hempty : some p = m.emptyStr
  · have heq : m.strlibFree (some p) = m := by
      rw [strlibFree, if_pos (Or.inr hempty)]
    rw [heq]
    exact ⟨h.of_empty hempty.symm hsame, fun q _ => rfl, fun q _ => rfl⟩
  obtain ⟨hcount, -⟩ := h.counted p b hb (fun heq => hempty heq.symm)
  rw [one_self] at hcount
  have h1 : (1 : UInt16).toNat = 1 := rfl
  have hle : (1 : UInt16) ≤ b.refcount := UInt16.le_iff_toNat_le.mpr (by omega)
  have hsub : (b.refcount - 1).toNat = k p := by
    rw [UInt16.toNat_sub_of_le _ _ hle]
    omega
  by_cases hzero : b.refcount - 1 = 0
  · -- the last reference
    have heq : m.strlibFree (some p) = m.setBlock p none := by
      rw [strlibFree, if_neg (by simp [hstring, hempty]), hb]
      exact if_pos hzero
    have hkp : k p = 0 := by
      rw [← hsub, hzero]
      rfl
    rw [heq]
    refine ⟨h.update (fun heq => hempty heq.symm) hsame (fun _ => hkp) nofun, fun q hq => ?_,
      fun q hq => m.blocks_setBlock_of_ne hq _⟩
    have hne : q ≠ p := by
      rintro rfl
      omega
    exact m.data_setBlock_of_ne hne _
  · have heq : m.strlibFree (some p) = m.setBlock p (some { b with refcount := b.refcount - 1 }) := by
      rw [strlibFree, if_neg (by simp [hstring, hempty]), hb]
      exact (if_neg hzero).trans (modifyBlock_eq hb _)
    have hkp : 0 < k p := by
      rw [← hsub]
      by_contra hnot
      exact hzero (UInt16.toNat_inj.mp (by rw [Nat.eq_zero_of_not_pos hnot]; rfl))
    have hwhole := h.whole p b hb
    rw [heq]
    refine ⟨h.update (fun heq => hempty heq.symm) hsame nofun fun b' hb' => ?_,
      fun q _ => data_setBlock hb (by rfl) q, fun q hq => m.blocks_setBlock_of_ne hq _⟩
    obtain rfl := Option.some.inj hb'
    exact ⟨⟨hwhole.signature, hwhole.last, hwhole.length, hwhole.small⟩, hsub, hkp⟩

theorem copy (h : m.Counted n) (hp : 0 < n p)
    (hroom : ∀ b, m.blocks p = some b → some p ≠ m.emptyStr → b.refcount < 0xffff) :
    (m.strlibCopy (some p)).1 = some p ∧ (m.strlibCopy (some p)).2.Counted (fun q => n q + one (some p) q) ∧
      ∀ q, (m.strlibCopy (some p)).2.data q = m.data q := by
  have hstring := h.isString hp
  obtain ⟨b, hb⟩ := h.held p hp
  have hsame : ∀ q, q ≠ p → n q + one (some p) q = n q := fun q hq => add_one_of_ne n hq
  by_cases hempty : some p = m.emptyStr
  · have heq : m.strlibCopy (some p) = (some p, m) := by
      rw [strlibCopy, if_neg (by simp [hstring]), hb]
      exact if_neg fun h => h.2 hempty
    rw [heq]
    exact ⟨rfl, h.of_empty hempty.symm hsame, fun q => rfl⟩
  · have hlt := hroom b hb hempty
    have heq : m.strlibCopy (some p) = (some p, m.setBlock p (some { b with refcount := b.refcount + 1 })) := by
      rw [strlibCopy, if_neg (by simp [hstring]), hb]
      exact (if_pos ⟨hlt, hempty⟩).trans (congrArg (some p, ·) (modifyBlock_eq hb _))
    have hcount := (h.counted p b hb (fun heq => hempty heq.symm)).1
    have hwhole := h.whole p b hb
    rw [heq]
    refine ⟨rfl, h.update (fun heq => hempty heq.symm) hsame nofun fun b' hb' => ?_,
      data_setBlock hb rfl⟩
    obtain rfl := Option.some.inj hb'
    refine ⟨⟨hwhole.signature, hwhole.last, hwhole.length, hwhole.small⟩, ?_, by rw [one_self]; omega⟩
    have hmax : (0xffff : UInt16).toNat = 65535 := rfl
    have h1 : (1 : UInt16).toNat = 1 := rfl
    have hbound := UInt16.lt_iff_toNat_lt.mp hlt
    rw [one_self, UInt16.toNat_add]
    omega

theorem write (h : m.Counted fun q => k q + one (some p) q) (hb : m.blocks p = some b)
    (hone : b.refcount = 1) {offset : ℕ} {bytes : CStr} (hfit : offset + bytes.length ≤ b.data.length)
    (hlast : offset + bytes.length = b.data.length → bytes ≠ [] → bytes.getLast? = some nul) :
    m.write p offset bytes = m.setBlock p (some { b with data := overlay b.data offset bytes }) ∧
      (m.write p offset bytes).Counted (fun q => k q + one (some p) q) ∧
      ∀ q, 0 < k q → (m.write p offset bytes).data q = m.data q := by
  obtain ⟨hempty, hzero⟩ := h.of_refcount_eq_one hb hone
  have heq : m.write p offset bytes = m.setBlock p (some { b with data := overlay b.data offset bytes }) := by
    rw [Mem.write, hb]
    exact (if_pos hfit).trans (modifyBlock_eq hb _)
  have hwhole := h.whole p b hb
  have hlen := length_overlay hfit
  refine ⟨heq, ?_, fun q hq => ?_⟩
  · rw [heq]
    refine h.update hempty (fun q _ => rfl) nofun fun b' hb' => ?_
    obtain rfl := Option.some.inj hb'
    refine ⟨⟨hwhole.signature, getLast?_overlay hfit hwhole.last hlast, ?_, ?_⟩, h.counted p b hb hempty⟩
    · rw [hlen]
      exact hwhole.length
    · rw [hlen]
      exact hwhole.small
  · have hne : q ≠ p := by
      rintro rfl
      omega
    rw [heq, m.data_setBlock_of_ne hne]

theorem write_text_nul (h : m.Counted n) (hb : m.blocks p = some b) : (m.write p (m.text p).length [nul]).Counted n ∧
      ∀ q, (m.write p (m.text p).length [nul]).data q = m.data q := by
  have hmem : nul ∈ b.data := List.mem_of_getLast? (h.whole p b hb).last
  have htext : m.text p = b.text := by
    rw [Mem.text, hb]
    rfl
  have hfit : b.text.length + [nul].length ≤ b.data.length := b.length_text_lt (h.whole p b hb).last
  have hblock : m.setBlock p (some b) = m := by
    rw [setBlock, ← hb, Function.update_eq_self]
  have heq : m.write p (m.text p).length [nul] = m := by
    rw [Mem.write, hb, htext]
    refine (if_pos hfit).trans ((modifyBlock_eq hb _).trans ?_)
    rw [StringBlock.text, overlay_text_nul hmem]
    exact hblock
  rw [heq]
  exact ⟨h, fun _ => rfl⟩

end Mem.Counted

/-! ## Functions that allocate -/

namespace Allocator

variable {a : Allocator} {str : CStr} {length : ℤ} {m : Mem} {k : ℕ → ℕ} {p : ℕ}

theorem of_allocate {q : ℕ} (h : a.allocate m str length = some q) :
    m.blocks q = none ∧ 0 ≤ mallocLength str length ∧ (mallocLength str length).toNat + 1 < 2 ^ 31 := by
  unfold allocate at h
  split_ifs at h with hsize
  obtain ⟨hpos, hlt⟩ := not_or.mp hsize
  have hheader : (sizeofStringBlock : ℤ) = 32 := rfl
  have hmax : intMax = 2147483647 := rfl
  rw [hheader, hmax] at hlt
  exact ⟨a.unused h, by omega, by omega⟩

theorem length_textCopied (call : ℕ) (str : CStr) (length : ℕ) :
    (overlay (a.rawBytes call (length + 1)) 0 (str.take length ++ [nul])).length = length + 1 := by
  have hraw : (a.rawBytes call (length + 1)).length = length + 1 := by simp [rawBytes]
  rw [length_overlay, hraw]
  rw [hraw, List.length_append, List.length_take, List.length_singleton]
  omega

theorem length_newBlock (call : ℕ) (str : CStr) (length : ℕ) :
    (a.newBlock call str length).data.length = length + 1 := by
  have htext := a.length_textCopied call str length
  rw [newBlock, length_overlay, htext]
  rw [htext, List.length_singleton]

theorem whole_newBlock (call : ℕ) (str : CStr) {length : ℕ} (h : length + 1 < 2 ^ 31) :
    (a.newBlock call str length).Whole := by
  have hlen := a.length_newBlock call str length
  refine ⟨rfl, ?_, ?_, by omega⟩
  · rw [newBlock, overlay_end (a.length_textCopied call str length).le, List.getLast?_concat]
  · rw [hlen]
    exact Nat.lt_succ_of_le ((UInt16.toNat_ofNat' (n := length)).trans_le (Nat.mod_le _ _))

/-- A string is made, when there is memory for it. The blocks that are in use stay. -/
theorem malloc_counted (h : m.Counted k) :
    (a.strlibMalloc m str length).2.Counted (fun q => k q + one (a.strlibMalloc m str length).1 q) ∧
      (∀ q, 0 < k q → (a.strlibMalloc m str length).2.data q = m.data q) ∧
      (a.strlibMalloc m str length).1 = a.allocate m str length ∧
      ∀ q, a.allocate m str length = some q → k q = 0 ∧ (a.strlibMalloc m str length).2.emptyStr ≠ some q ∧
        (a.strlibMalloc m str length).2.blocks q = some (a.newBlock m.calls str (mallocLength str length).toNat) := by
  unfold strlibMalloc
  cases hq : a.allocate m str length with
  | none =>
    have hnone : (fun q => k q + one none q) = k := by simp
    dsimp only
    rw [hnone]
    exact ⟨h.withCalls _, fun q _ => rfl, rfl, fun q hq => by cases hq⟩
  | some p =>
    obtain ⟨hunused, -, hsmall⟩ := of_allocate hq
    have hzero : k p = 0 := by
      by_contra hne
      obtain ⟨b, hb⟩ := h.held p (Nat.pos_of_ne_zero hne)
      rw [hunused] at hb
      cases hb
    have hempty : m.emptyStr ≠ some p := by
      intro heq
      obtain ⟨b, hb, -⟩ := h.empty p heq
      rw [hunused] at hb
      cases hb
    refine ⟨Mem.Counted.withCalls (m := m.setBlock p _) ?_ _, fun q hq => ?_, rfl, fun q hq => ?_⟩
    · refine h.update hempty (fun q hq => Mem.Counted.add_one_of_ne k hq) nofun fun b hb => ?_
      obtain rfl := Option.some.inj hb
      refine ⟨whole_newBlock _ _ hsmall, ?_, ?_⟩
      · rw [hzero, one_self]
        rfl
      · rw [one_self]
        omega
    · have hne : q ≠ p := by
        rintro rfl
        omega
      exact m.data_setBlock_of_ne hne _
    · obtain rfl := Option.some.inj hq
      exact ⟨hzero, hempty, Function.update_self ..⟩

variable {b : StringBlock}

theorem strlibOpen_eq (hstring : m.strlibIsString (some p) = true) (hb : m.blocks p = some b) (length : ℤ) :
    a.strlibOpen m (some p) length =
      if b.refcount = 1 ∧ length ≤ b.length.toNat then (some p, m)
      else
        match a.allocate m b.text length with
        | none => (some p, { m with calls := m.calls + 1 })
        | some q => (some q, (a.strlibMalloc m b.text length).2.strlibFree (some p)) := by
  unfold strlibOpen
  dsimp only
  rw [if_neg (by simp [hstring]), hb]
  refine if_congr Iff.rfl rfl ?_
  unfold strlibMalloc
  cases a.allocate m b.text length <;> rfl

/-- What `strlib_open` returns: the string itself, or a new one when the string is shared or too short and
there is memory. -/
theorem open_counted (h : m.Counted fun q => k q + one (some p) q) (hb : m.blocks p = some b) (length : ℤ) :
    ∃ q b', (a.strlibOpen m (some p) length).1 = some q ∧
      (a.strlibOpen m (some p) length).2.Counted (fun x => k x + one (some q) x) ∧
      (∀ x, 0 < k x → (a.strlibOpen m (some p) length).2.data x = m.data x) ∧
      (a.strlibOpen m (some p) length).2.blocks q = some b' ∧
      (b' = b ∧ q = p ∧ (b.refcount = 1 ∧ length ≤ b.length.toNat ∨ a.allocate m b.text length = none) ∨
        b'.refcount = 1 ∧ 0 ≤ mallocLength b.text length ∧
          b'.data.length = (mallocLength b.text length).toNat + 1) := by
  have hheld : 0 < k p + one (some p) p := by
    rw [one_self]
    omega
  have hstring := h.isString hheld
  rw [strlibOpen_eq hstring hb]
  by_cases hplace : b.refcount = 1 ∧ length ≤ b.length.toNat
  · rw [if_pos hplace]
    exact ⟨p, b, rfl, h, fun _ _ => rfl, hb, Or.inl ⟨rfl, rfl, Or.inl hplace⟩⟩
  rw [if_neg hplace]
  obtain ⟨hcounted, hdata, hfst, hnew⟩ := @malloc_counted a b.text length m _ h
  cases hq : a.allocate m b.text length with
  | none =>
    exact ⟨p, b, rfl, h.withCalls _, fun _ _ => rfl, hb, Or.inl ⟨rfl, rfl, Or.inr rfl⟩⟩
  | some q =>
    rw [hq] at hfst
    obtain ⟨hzero, -, hblock⟩ := hnew q hq
    obtain ⟨-, hpos, -⟩ := of_allocate hq
    have hne : q ≠ p := by
      rintro rfl
      omega
    rw [hfst] at hcounted
    have hfree : (a.strlibMalloc m b.text length).2.Counted (fun x => (k x + one (some q) x) + one (some p) x) := by
      have hcomm : (fun x => (k x + one (some q) x) + one (some p) x) =
          fun x => k x + one (some p) x + one (some q) x := by
        funext x
        omega
      rw [hcomm]
      exact hcounted
    obtain ⟨hfreed, hfreedData, hother⟩ := hfree.free
    refine ⟨q, _, rfl, hfreed, fun x hx => ?_, (hother q hne).trans hblock,
      Or.inr ⟨rfl, hpos, length_newBlock ..⟩⟩
    exact (hfreedData x (by omega)).trans (hdata x (by omega))

/-! ## References that are given -/

/-- A reference is given to a holder, beside those of the others, whose strings stay. -/
def Gives (k : ℕ → ℕ) (m : Mem) (r : Option ℕ × Mem) : Prop :=
  r.2.Counted (fun q => k q + one r.1 q) ∧ ∀ q, 0 < k q → r.2.data q = m.data q

theorem gives_none {m' : Mem} (h : m'.Counted k) (hdata : ∀ q, 0 < k q → m'.data q = m.data q) :
    Gives k m (none, m') := by
  refine ⟨?_, hdata⟩
  simpa using h

theorem gives_free (h : m.Counted fun q => k q + one (some p) q) : Gives k m (none, m.strlibFree (some p)) := by
  obtain ⟨hfreed, hdata, -⟩ := h.free
  exact gives_none hfreed hdata

theorem gives_malloc (h : m.Counted k) (str : CStr) (length : ℤ) : Gives k m (a.strlibMalloc m str length) := by
  obtain ⟨hcounted, hdata, -⟩ := @malloc_counted a str length m k h
  exact ⟨hcounted, hdata⟩

theorem gives_empty (h : m.Counted k) (hready : m.emptyStr.isSome = true ∨ (a.allocate m [] (-1)).isSome = true) :
    Gives k m (a.strlibEmpty m) := by
  unfold strlibEmpty
  cases hempty : m.emptyStr with
  | some p => exact ⟨h.of_empty hempty fun q hq => Mem.Counted.add_one_of_ne k hq, fun _ _ => rfl⟩
  | none =>
    rw [hempty] at hready
    obtain ⟨p, hp⟩ := Option.isSome_iff_exists.mp (hready.resolve_left (by decide))
    obtain ⟨hcounted, hdata, hfst, hnew⟩ := @malloc_counted a [] (-1) m k h
    obtain ⟨-, -, hblock⟩ := hnew p hp
    have hnone : (a.strlibMalloc m [] (-1)).2.emptyStr = none := by
      rw [strlibMalloc, hp]
      exact hempty
    rw [hp] at hfst
    generalize a.strlibMalloc m [] (-1) = r at hcounted hdata hfst hblock hnone ⊢
    obtain ⟨_, m'⟩ := r
    dsimp only at hfst
    subst hfst
    dsimp only at hcounted hdata hblock hnone ⊢
    rw [Mem.modifyBlock_eq hblock]
    refine ⟨hcounted.setEmpty hnone hblock, fun q hq => ?_⟩
    exact (Mem.data_setBlock hblock (by rfl) q).trans (hdata q hq)

theorem gives_update (h : m.Counted fun q => k q + one (some p) q) (source : Option CStr)
    (hready : source = none ∨ source = some [] → (m.strlibFree (some p)).emptyStr.isSome = true ∨
      (a.allocate (m.strlibFree (some p)) [] (-1)).isSome = true) :
    Gives k m (a.strlibUpdate m (some p) source) := by
  obtain ⟨hfreed, hfreedData, -⟩ := h.free
  have hempty : source = none ∨ source = some [] → Gives k m (a.strlibEmpty (m.strlibFree (some p))) := by
    intro hsource
    obtain ⟨hcounted, hdata⟩ := gives_empty hfreed (hready hsource)
    exact ⟨hcounted, fun q hq => (hdata q hq).trans (hfreedData q hq)⟩
  rcases source with _ | _ | ⟨c, s⟩
  · rw [strlibUpdate]
    exact hempty (Or.inl rfl)
  · rw [strlibUpdate]
    exact hempty (Or.inr rfl)
  · obtain ⟨hcounted, hdata⟩ := a.gives_malloc h (c :: s) (-1)
    rw [strlibUpdate]
    generalize a.strlibMalloc m (c :: s) (-1) = r at hcounted hdata ⊢
    obtain ⟨_ | q, m'⟩ := r
    · have hsame : m'.Counted fun q => k q + one (some p) q := by simpa using hcounted
      exact ⟨hsame, fun q hq => hdata q (Nat.add_pos_left hq _)⟩
    · have hcomm : (fun x => k x + one (some p) x + one (some q) x) =
          fun x => (k x + one (some q) x) + one (some p) x := by
        funext x
        omega
      rw [hcomm] at hcounted
      obtain ⟨hgiven, hgivenData, -⟩ := hcounted.free
      exact ⟨hgiven, fun x hx =>
        (hgivenData x (Nat.add_pos_left hx _)).trans (hdata x (Nat.add_pos_left hx _))⟩

/-- A string can be written: nobody else holds it and the bytes fit, or there is memory for another one. -/
def Writable (a : Allocator) (m : Mem) (p : ℕ) (length : ℤ) (Fits : StringBlock → Prop) : Prop :=
  ∀ b, m.blocks p = some b → b.refcount = 1 ∧ Fits b ∨ (a.allocate m b.text length).isSome = true

theorem open_writable (h : m.Counted fun q => k q + one (some p) q) {Fits : StringBlock → Prop}
    (hwritable : a.Writable m p length Fits)
    (hplace : ∀ b, m.blocks p = some b → length ≤ b.length.toNat → Fits b)
    (hnew : ∀ b b', m.blocks p = some b → 0 ≤ mallocLength b.text length →
      b'.data.length = (mallocLength b.text length).toNat + 1 → Fits b') :
    ∃ q b', (a.strlibOpen m (some p) length).1 = some q ∧
      (a.strlibOpen m (some p) length).2.Counted (fun x => k x + one (some q) x) ∧
      (∀ x, 0 < k x → (a.strlibOpen m (some p) length).2.data x = m.data x) ∧
      (a.strlibOpen m (some p) length).2.blocks q = some b' ∧ b'.refcount = 1 ∧ Fits b' := by
  have hheld : 0 < k p + one (some p) p := by
    rw [one_self]
    omega
  obtain ⟨b, hb⟩ := h.held p hheld
  obtain ⟨q, b', hfst, hcounted, hdata, hblock, hcases⟩ := a.open_counted h hb length
  refine ⟨q, b', hfst, hcounted, hdata, hblock, ?_⟩
  rcases hcases with ⟨rfl, rfl, ⟨hone, hle⟩ | hnone⟩ | ⟨hone, hpos, hlen⟩
  · exact ⟨hone, hplace b' hb hle⟩
  · rcases hwritable b' hb with ⟨hone, hfits⟩ | hsome
    · exact ⟨hone, hfits⟩
    · rw [hnone] at hsome
      cases hsome
  · exact ⟨hone, hnew b b' hb hpos hlen⟩

/-- The byte fits into a block, at whose end is a terminator. -/
def FitsByte (w : ℕ × Char) (b : StringBlock) : Prop :=
  w.1 < b.data.length ∧ (w.1 + 1 = b.data.length → w.2 = nul)

/-- Bytes are written to a string that nobody else holds. By induction on the bytes; each of them keeps the
length of the block. -/
theorem writeBytes_counted {bytes : List (ℕ × Char)} (h : m.Counted fun q => k q + one (some p) q)
    (hb : m.blocks p = some b) (hone : b.refcount = 1)
    (hfits : ∀ w ∈ bytes, FitsByte w b) :
    (m.writeBytes (some p) bytes).Counted (fun q => k q + one (some p) q) ∧
      ∀ q, 0 < k q → (m.writeBytes (some p) bytes).data q = m.data q := by
  induction bytes generalizing m b with
  | nil => exact ⟨h, fun _ _ => rfl⟩
  | cons w bytes ih =>
    obtain ⟨hlt, hend⟩ := hfits w List.mem_cons_self
    have hfit : w.1 + [w.2].length ≤ b.data.length := hlt
    obtain ⟨heq, hcounted, hdata⟩ := h.write hb hone hfit fun hlast _ => by rw [hend hlast]; rfl
    have hblock : (m.write p w.1 [w.2]).blocks p = some { b with data := overlay b.data w.1 [w.2] } := by
      rw [heq]
      exact m.blocks_setBlock_self p _
    obtain ⟨hrest, hrestData⟩ := ih hcounted hblock hone fun w' hw' => by
      have hw := hfits w' (List.mem_cons_of_mem _ hw')
      rwa [FitsByte, length_overlay hfit]
    exact ⟨hrest, fun q hq => (hrestData q hq).trans (hdata q hq)⟩

theorem gives_openWrite (h : m.Counted fun q => k q + one (some p) q) {bytes : List (ℕ × Char)}
    (hbytes : ∀ w ∈ bytes, (w.1 : ℤ) < length)
    (hwritable : bytes ≠ [] → a.Writable m p length fun b => ∀ w ∈ bytes, FitsByte w b) :
    Gives k m (a.openWrite m (some p) length bytes) := by
  unfold openWrite
  rcases eq_or_ne bytes [] with rfl | hne
  · have hheld : 0 < k p + one (some p) p := by
      rw [one_self]
      omega
    obtain ⟨b, hb⟩ := h.held p hheld
    obtain ⟨q, b', hfst, hcounted, hdata, -⟩ := a.open_counted h hb length
    rw [hfst]
    exact ⟨hcounted, hdata⟩
  · obtain ⟨q, b', hfst, hcounted, hdata, hblock, hone, hfits⟩ := open_writable h (hwritable hne)
      (fun b hb hle w hw => by
        have hlt := hbytes w hw
        have hlen := (h.whole p b hb).length
        exact ⟨by omega, fun hend => by omega⟩)
      (fun b b' _ hpos hlen w hw => by
        have hlt := hbytes w hw
        rw [mallocLength, if_neg (by omega)] at hlen
        exact ⟨by omega, fun hend => by omega⟩)
    rw [hfst]
    obtain ⟨hwritten, hwrittenData⟩ := writeBytes_counted hcounted hblock hone hfits
    exact ⟨hwritten, fun x hx => (hwrittenData x hx).trans (hdata x hx)⟩

theorem toInt_of_lt {n : ℕ} (h : n < 2 ^ 31) : toInt n = n := by
  have hbmod : ((n : ℤ).bmod (2 ^ 32)) = n := Int.bmod_eq_of_le (by omega) (by omega)
  exact hbmod

theorem gives_copyBehind {m' : Mem} {q : ℕ} (h : m'.Counted fun x => k x + one (some q) x)
    (hdata : ∀ x, 0 < k x → m'.data x = m.data x) (hb : m'.blocks q = some b)
    (hone : b.refcount = 1) {curlen : ℕ} {t : CStr} (hfit : curlen + t.length + 1 ≤ b.data.length) :
    Gives k m (copyBehind curlen t (some q, m')) := by
  have hlen : curlen + (t ++ [nul]).length ≤ b.data.length := by
    rw [List.length_append, List.length_singleton]
    omega
  obtain ⟨-, hwritten, hwrittenData⟩ := h.write hb hone hlen fun _ _ => List.getLast?_concat
  exact ⟨hwritten, fun x hx => (hwrittenData x hx).trans (hdata x hx)⟩

/-- `strlib_append` gives a reference, and the text is written to no other string. -/
theorem gives_append (h : m.Counted fun q => k q + one (some p) q) {t : CStr}
    (hwritable : t ≠ [] → (m.text p).length + t.length + 1 < 2 ^ 31 ∧
      a.Writable m p ((m.text p).length + t.length + 1 : ℕ) fun b => (m.text p).length + t.length + 1 ≤ b.data.length) :
    Gives k m (a.strlibAppend m (some p) t) := by
  have hheld : 0 < k p + one (some p) p := by
    rw [one_self]
    omega
  obtain ⟨b, hb⟩ := h.held p hheld
  have hwhole := h.whole p b hb
  have htext : m.text p = b.text := by
    rw [Mem.text, hb]
    rfl
  have hroom : b.text.length + 1 ≤ b.data.length := b.length_text_lt hwhole.last
  have hsmall : (m.text p).length + t.length + 1 < 2 ^ 31 := by
    rcases eq_or_ne t [] with rfl | hne
    · have hdata := hwhole.small
      rw [htext, List.length_nil]
      omega
    · exact (hwritable hne).1
  unfold strlibAppend
  dsimp only
  rw [toInt_of_lt hsmall]
  obtain ⟨q, b', hfst, hcounted, hdata, hblock, hcases⟩ := a.open_counted h hb ((m.text p).length + t.length + 1 : ℕ)
  generalize a.strlibOpen m (some p) ((m.text p).length + t.length + 1 : ℕ) = r at hfst hcounted hdata hblock ⊢
  obtain ⟨_, m'⟩ := r
  dsimp only at hfst
  subst hfst
  rcases hcases with ⟨rfl, rfl, ⟨hone, hle⟩ | hnone⟩ | ⟨hone, hpos, hlen⟩
  · -- the string is long enough
    have hshort := hwhole.length
    exact gives_copyBehind hcounted hdata hblock hone (by omega)
  · -- there is no memory
    rcases eq_or_ne t [] with rfl | hne
    · have hsame : m.text q = m'.text q := by
        rw [htext, Mem.text, hblock]
        rfl
      obtain ⟨hwritten, hwrittenData⟩ := Mem.Counted.write_text_nul hcounted hblock
      rw [hsame]
      exact ⟨hwritten, fun x hx => (hwrittenData x).trans (hdata x hx)⟩
    · rcases (hwritable hne).2 b' hb with ⟨hone, hfits⟩ | hsome
      · exact gives_copyBehind hcounted hdata hblock hone hfits
      · rw [hnone] at hsome
        cases hsome
  · -- the text is in a new block
    rw [mallocLength, if_neg (by omega)] at hlen
    exact gives_copyBehind hcounted hdata hblock hone (by omega)

end Allocator

/-! ## Holders -/

/-- There is the empty string, or memory for it. -/
def Mem.EmptyReady (a : Allocator) (m : Mem) : Prop :=
  m.emptyStr.isSome = true ∨ (a.allocate m [] (-1)).isSome = true

namespace Holders

variable {a : Allocator} {s : Holders} {i : ℕ} {p : ℕ}

/-- Every reference that is held denotes a live block with a terminator, and no byte was written outside of
the blocks. -/
def Live (s : Holders) : Prop :=
  s.mem.fault = false ∧ ∀ i p : ℕ, s.refs[i]? = some (some p) →
    ∃ b, s.mem.blocks p = some b ∧ b.signature = stringSignature ∧ nul ∈ b.data

/-- An operation keeps the references of the other holders, and their texts. -/
def Kept (a : Allocator) (s : Holders) (op : StrOp) : Prop :=
  ∀ j p : ℕ, s.refs[j]? = some (some p) → op.own ≠ some j →
    (s.step a op).refs[j]? = some (some p) ∧ (s.step a op).mem.text p = s.mem.text p

/-- What an operation must not meet: a count that is at its limit when a reference is copied, and no memory
when a string that is written is shared or too short, or when the empty string is needed. The bytes that are
written have at most the requested length. -/
def Safe (a : Allocator) (s : Holders) : StrOp → Prop
  | .malloc _ _ | .free _ => True
  | .empty => s.mem.EmptyReady a
  | .copy i => ∀ p, s.ref i = some p →
    ∀ b, s.mem.blocks p = some b → some p ≠ s.mem.emptyStr → b.refcount < 0xffff
  | .update i source => ∀ p, s.ref i = some p → source = none ∨ source = some [] →
    (s.mem.strlibFree (some p)).EmptyReady a
  | .append i t => ∀ p, s.ref i = some p → t ≠ [] →
    (s.mem.text p).length + t.length + 1 < 2 ^ 31 ∧
      a.Writable s.mem p ((s.mem.text p).length + t.length + 1 : ℕ)
        fun b => (s.mem.text p).length + t.length + 1 ≤ b.data.length
  | .openWrite i length bytes => (∀ w ∈ bytes, (w.1 : ℤ) < length) ∧
    ∀ p, s.ref i = some p → bytes ≠ [] →
      a.Writable s.mem p length fun b => ∀ w ∈ bytes, Allocator.FitsByte w b

def count (s : Holders) (q : ℕ) : ℕ := s.refs.count (some q)

/-- The references to an address that the other holders have. -/
def others (s : Holders) (i q : ℕ) : ℕ := (s.refs.eraseIdx i).count (some q)

/-- The counts of the blocks tell the references. -/
def Inv (s : Holders) : Prop := s.mem.Counted s.count

theorem ref_eq_some : s.ref i = some p ↔ s.refs[i]? = some (some p) := by
  rw [ref, Option.join_eq_some_iff]

theorem set_of_ref_eq_none (h : s.ref i = none) : s.refs.set i none = s.refs := by
  rcases Nat.lt_or_ge i s.refs.length with hlt | hge
  · rw [ref, List.getElem?_eq_getElem hlt, Option.join_some] at h
    have hself := List.set_getElem_self hlt
    rwa [h] at hself
  · exact List.set_eq_of_length_le hge

theorem replace_none (h : s.ref i = none) {t : Holders} (ht : t = s.replace i (none, s.mem)) : t = s := by
  rw [ht, replace, set_of_ref_eq_none h]

theorem count_cons_eq (x : Option ℕ) (l : List (Option ℕ)) (q : ℕ) :
    (x :: l).count (some q) = l.count (some q) + one x q := by
  rw [List.count_cons, one]
  by_cases hx : x = some q
  · simp [hx]
  · simp [hx]

theorem count_eq_others (h : s.ref i = some p) : s.count = fun q => s.others i q + one (some p) q := by
  funext q
  obtain ⟨hlt, hget⟩ := List.getElem?_eq_some_iff.mp (ref_eq_some.mp h)
  have hperm := List.getElem_cons_eraseIdx_perm hlt
  rw [count, others, ← hperm.count_eq, hget, count_cons_eq]

theorem count_replace (h : i < s.refs.length) (r : Option ℕ × Mem) :
    (s.replace i r).count = fun q => s.others i q + one r.1 q := by
  funext q
  rw [count, others, replace, (List.set_perm_cons_eraseIdx h r.1).count_eq, count_cons_eq]

theorem count_take (r : Option ℕ × Mem) : (s.take r).count = fun q => s.count q + one r.1 q := by
  funext q
  have hone := count_cons_eq r.1 [] q
  rw [List.count_nil, Nat.zero_add] at hone
  rw [count, count, take, List.count_append, hone]

theorem others_pos {j : ℕ} (h : s.refs[j]? = some (some p)) (hne : i ≠ j) : 0 < s.others i p := by
  rw [others, List.count_pos_iff, List.mem_iff_getElem?]
  rcases Nat.lt_or_gt_of_ne hne with hlt | hgt
  · refine ⟨j - 1, ?_⟩
    rw [List.getElem?_eraseIdx_of_ge (by omega), Nat.sub_add_cancel (by omega)]
    exact h
  · exact ⟨j, by rw [List.getElem?_eraseIdx_of_lt (by omega)]; exact h⟩

theorem count_pos (h : s.refs[i]? = some (some p)) : 0 < s.count p := List.count_pos_iff.mpr (List.mem_of_getElem? h)

theorem Inv.live (h : s.Inv) : s.Live := by
  refine ⟨h.fault, fun i p hp => ?_⟩
  obtain ⟨b, hb⟩ := h.held p (count_pos hp)
  have hwhole := h.whole p b hb
  exact ⟨b, hb, hwhole.signature, List.mem_of_getLast? hwhole.last⟩

/-- An operation keeps the counts, and the texts of the other holders. -/
def StepOk (a : Allocator) (s : Holders) (op : StrOp) : Prop := (s.step a op).Inv ∧ Kept a s op

variable {op : StrOp}

theorem stepOk_take {r : Option ℕ × Mem} (hstep : s.step a op = s.take r)
    (hgives : Allocator.Gives s.count s.mem r) : StepOk a s op := by
  obtain ⟨hcounted, hdata⟩ := hgives
  rw [StepOk, Kept, hstep]
  constructor
  · rw [Inv, count_take]
    exact hcounted
  · intro j p hj _
    obtain ⟨hlt, -⟩ := List.getElem?_eq_some_iff.mp hj
    refine ⟨?_, Mem.text_congr (hdata p (count_pos hj))⟩
    rw [take, List.getElem?_append_left hlt]
    exact hj

theorem stepOk_replace {r : Option ℕ × Mem} (hown : op.own = some i)
    (hstep : s.step a op = s.replace i r) (hp : s.ref i = some p)
    (hgives : Allocator.Gives (s.others i) s.mem r) : StepOk a s op := by
  obtain ⟨hcounted, hdata⟩ := hgives
  obtain ⟨hlt, -⟩ := List.getElem?_eq_some_iff.mp (ref_eq_some.mp hp)
  rw [StepOk, Kept, hstep]
  constructor
  · rw [Inv, count_replace hlt]
    exact hcounted
  · intro j q hj hne
    rw [hown] at hne
    have hij : i ≠ j := fun heq => hne (congrArg some heq)
    refine ⟨?_, Mem.text_congr (hdata q (others_pos hj hij))⟩
    rw [replace, List.getElem?_set_ne hij]
    exact hj

theorem stepOk_of_eq (h : s.Inv) (hstep : s.step a op = s) : StepOk a s op := by
  rw [StepOk, Kept, hstep]
  exact ⟨h, fun j p hj _ => ⟨hj, rfl⟩⟩

/-- A safe operation keeps the counts, and the texts of the other holders. -/
theorem Inv.step (h : s.Inv) (hsafe : s.Safe a op) : StepOk a s op := by
  have hheld : ∀ {i p}, s.ref i = some p → s.mem.Counted fun q => s.others i q + one (some p) q := by
    intro i p hp
    rw [← count_eq_others hp]
    exact h
  cases op with
  | malloc str length => exact stepOk_take rfl (Allocator.gives_malloc h str length)
  | empty => exact stepOk_take rfl (Allocator.gives_empty h hsafe)
  | copy i =>
    cases hp : s.ref i with
    | none =>
      refine stepOk_take (r := (none, s.mem)) ?_ (Allocator.gives_none h fun _ _ => rfl)
      rw [Holders.step, hp]
      rfl
    | some p =>
      obtain ⟨hfst, hcounted, hdata⟩ := Mem.Counted.copy h (count_pos (ref_eq_some.mp hp)) (hsafe p hp)
      refine stepOk_take (r := s.mem.strlibCopy (some p)) (by rw [Holders.step, hp]) ⟨?_, fun q _ => hdata q⟩
      rw [hfst]
      exact hcounted
  | update i source =>
    cases hp : s.ref i with
    | none => exact stepOk_of_eq h (replace_none hp (by rw [Holders.step, hp]; rfl))
    | some p =>
      exact stepOk_replace rfl (by rw [Holders.step, hp]) hp
        (Allocator.gives_update (hheld hp) source (hsafe p hp))
  | append i t =>
    cases hp : s.ref i with
    | none => exact stepOk_of_eq h (replace_none hp (by rw [Holders.step, hp]; rfl))
    | some p =>
      exact stepOk_replace rfl (by rw [Holders.step, hp]) hp (Allocator.gives_append (hheld hp) (hsafe p hp))
  | openWrite i length bytes =>
    cases hp : s.ref i with
    | none => exact stepOk_of_eq h (replace_none hp (by rw [Holders.step, hp]; rfl))
    | some p =>
      exact stepOk_replace rfl (by rw [Holders.step, hp]) hp
        (Allocator.gives_openWrite (hheld hp) hsafe.1 (hsafe.2 p hp))
  | free i =>
    cases hp : s.ref i with
    | none => exact stepOk_of_eq h (replace_none hp (by rw [Holders.step, hp]; rfl))
    | some p => exact stepOk_replace rfl (by rw [Holders.step, hp]) hp (Allocator.gives_free (hheld hp))

end Holders

theorem Holders.inv_init : Holders.init.Inv := ⟨rfl, fun _ hp => absurd hp (lt_irrefl 0), nofun, nofun, nofun⟩

/-- No operation of a run meets what it must not meet. -/
def SafeThroughout (a : Allocator) (s : Holders) : List StrOp → Prop
  | [] => True
  | op :: ops => s.Safe a op ∧ SafeThroughout a (s.step a op) ops

/-- In every state of a run the references denote live blocks, and every operation keeps the texts of the
other holders. -/
def IsolatedThroughout (a : Allocator) (s : Holders) : List StrOp → Prop
  | [] => s.Live
  | op :: ops => s.Live ∧ s.Kept a op ∧ IsolatedThroughout a (s.step a op) ops

theorem Holders.Inv.isolated {a : Allocator} {s : Holders} (h : s.Inv) {ops : List StrOp}
    (hsafe : SafeThroughout a s ops) : IsolatedThroughout a s ops := by
  induction ops generalizing s with
  | nil => exact h.live
  | cons op ops ih =>
    obtain ⟨hop, hrest⟩ := hsafe
    obtain ⟨hinv, hkept⟩ := h.step hop
    exact ⟨h.live, hkept, ih hinv hrest⟩

/-- **The strings of a run are isolated.** No reference is copied when its count is at the limit, and there is
memory when a string that is shared or too short is written. -/
theorem isolated_throughout (a : Allocator) (ops : List StrOp) (h : SafeThroughout a Holders.init ops) :
    IsolatedThroughout a Holders.init ops :=
  Holders.inv_init.isolated h

/-- Memory at the number of the call, as long as no more than `limit` calls were made. -/
def callAllocator (limit : ℕ) : Allocator where
  malloc blocks call _ := if call < limit ∧ blocks call = none then some call else none
  bytes _ _ := nul
  unused h := by
    split_ifs at h with hcall
    obtain rfl := Option.some.inj h
    exact hcall.2

/-- A string is made, copied, and freed by its first holder. -/
theorem isolated_throughout_copy :
    IsolatedThroughout (callAllocator 2) Holders.init [.malloc "ab".toList (-1), .copy 0, .free 0] := by
  refine isolated_throughout _ _ ⟨trivial, fun p hp b hb _ => ?_, trivial, trivial⟩
  obtain rfl : 0 = p := Option.some.inj hp
  have hone : b.refcount = 1 := by
    obtain rfl := Option.some.inj hb
    rfl
  rw [hone]
  decide

/-! ## More references than a count can tell -/

def Holders.run (a : Allocator) (s : Holders) (ops : List StrOp) : Holders := ops.foldl (Holders.step a) s

theorem Holders.run_append (a : Allocator) (s : Holders) (ops ops' : List StrOp) :
    s.run a (ops ++ ops') = (s.run a ops).run a ops' :=
  List.foldl_append

theorem Holders.run_singleton (a : Allocator) (s : Holders) (op : StrOp) : s.run a [op] = s.step a op := rfl

theorem IsolatedThroughout.run {a : Allocator} {s : Holders} {ops : List StrOp}
    (h : IsolatedThroughout a s ops) : (s.run a ops).Live := by
  induction ops generalizing s with
  | nil => exact h
  | cons op ops ih => exact ih h.2.2

/-- References to one block with a count. The first holders have given back theirs. -/
structure Shared (s : Holders) (freed held : ℕ) (count : UInt16) : Prop where
  refs : s.refs = List.replicate freed none ++ List.replicate held (some 0)
  empty : s.mem.emptyStr = none
  block : ∃ b, s.mem.blocks 0 = some b ∧ b.refcount = count ∧ b.signature = stringSignature

namespace Shared

variable (a : Allocator) {s : Holders} {freed held : ℕ} {count : UInt16}

theorem ref_eq (h : Shared s freed (held + 1) count) : s.ref freed = some 0 := by
  rw [Holders.ref_eq_some, h.refs, List.getElem?_append_right (by simp)]
  simp

theorem copy (h : Shared s 0 (held + 1) count) :
    Shared (s.step a (.copy 0)) 0 (held + 2) (if count < 0xffff then count + 1 else count) := by
  obtain ⟨b, hb, hcount, hsign⟩ := h.block
  have hstring : s.mem.strlibIsString (some 0) = true := by
    rw [Mem.strlibIsString, hb]
    exact decide_eq_true hsign
  have hcopy : s.mem.strlibCopy (some 0) =
      if count < 0xffff then (some 0, s.mem.setBlock 0 (some { b with refcount := b.refcount + 1 }))
      else (some 0, s.mem) := by
    rw [Mem.strlibCopy, if_neg (by simp [hstring]), hb, hcount, h.empty]
    refine if_congr (by simp [hcount]) ?_ rfl
    rw [Mem.modifyBlock_eq hb, hcount]
  have hrefs : s.refs ++ [some 0] = List.replicate 0 none ++ List.replicate (held + 2) (some 0) := by
    rw [h.refs, List.append_assoc, ← List.replicate_succ']
  rw [Holders.step, h.ref_eq, hcopy]
  by_cases hlt : count < 0xffff
  · rw [if_pos hlt, if_pos hlt]
    exact ⟨hrefs, h.empty, _, s.mem.blocks_setBlock_self 0 _, by rw [hcount], hsign⟩
  · rw [if_neg hlt, if_neg hlt]
    exact ⟨hrefs, h.empty, b, hb, hcount, hsign⟩

theorem refs_free (h : Shared s freed (held + 1) count) :
    s.refs.set freed none = List.replicate (freed + 1) none ++ List.replicate held (some 0) := by
  rw [h.refs, List.set_append_right _ _ (by simp), List.length_replicate, Nat.sub_self, List.replicate_succ,
    List.set_cons_zero, List.replicate_succ', List.append_assoc, List.singleton_append]

theorem free (h : Shared s freed (held + 1) count) (hcount : count - 1 ≠ 0) :
    Shared (s.step a (.free freed)) (freed + 1) held (count - 1) := by
  obtain ⟨b, hb, rfl, hsign⟩ := h.block
  have hstring : s.mem.strlibIsString (some 0) = true := by
    rw [Mem.strlibIsString, hb]
    exact decide_eq_true hsign
  have hfree : s.mem.strlibFree (some 0) = s.mem.setBlock 0 (some { b with refcount := b.refcount - 1 }) := by
    rw [Mem.strlibFree, if_neg (by simp [hstring, h.empty]), hb]
    exact (if_neg hcount).trans (Mem.modifyBlock_eq hb _)
  rw [Holders.step, h.ref_eq, hfree]
  exact ⟨h.refs_free, h.empty, _, s.mem.blocks_setBlock_self 0 _, rfl, hsign⟩

theorem free_last (h : Shared s freed (held + 1) 1) : (s.step a (.free freed)).mem.blocks 0 = none ∧
      (s.step a (.free freed)).refs = List.replicate (freed + 1) none ++ List.replicate held (some 0) := by
  obtain ⟨b, hb, hcount, hsign⟩ := h.block
  have hstring : s.mem.strlibIsString (some 0) = true := by
    rw [Mem.strlibIsString, hb]
    exact decide_eq_true hsign
  have hfree : s.mem.strlibFree (some 0) = s.mem.setBlock 0 none := by
    rw [Mem.strlibFree, if_neg (by simp [hstring, h.empty]), hb]
    refine if_pos ?_
    rw [hcount]
    rfl
  rw [Holders.step, h.ref_eq, hfree]
  exact ⟨s.mem.blocks_setBlock_self 0 none, h.refs_free⟩

theorem copies (h : Shared s 0 (held + 1) count) (n : ℕ) :
    ∃ c, Shared (s.run a (List.replicate n (.copy 0))) 0 (held + n + 1) c ∧ c.toNat = min (count.toNat + n) 65535 := by
  have hmax : (0xffff : UInt16).toNat = 65535 := rfl
  have h1 : (1 : UInt16).toNat = 1 := rfl
  induction n with
  | zero =>
    have hbound := count.toNat_lt
    exact ⟨count, h, by omega⟩
  | succ n ih =>
    obtain ⟨c, hc, hcount⟩ := ih
    rw [List.replicate_succ', Holders.run_append, Holders.run_singleton]
    refine ⟨_, hc.copy a, ?_⟩
    by_cases hlt : c < 0xffff
    · rw [if_pos hlt, UInt16.toNat_add]
      have hbound := UInt16.lt_iff_toNat_lt.mp hlt
      omega
    · rw [if_neg hlt, hcount]
      rw [UInt16.not_lt, UInt16.le_iff_toNat_le] at hlt
      omega

theorem frees {total : ℕ} (h : Shared s 0 total count) {n : ℕ} (hn : n < count.toNat) (htotal : n ≤ total) :
    ∃ c, Shared (s.run a ((List.range n).map .free)) n (total - n) c ∧ c.toNat = count.toNat - n := by
  have h1 : (1 : UInt16).toNat = 1 := rfl
  induction n with
  | zero => exact ⟨count, h, rfl⟩
  | succ n ih =>
    obtain ⟨c, hc, hcount⟩ := ih (by omega) (by omega)
    have hle : (1 : UInt16) ≤ c := UInt16.le_iff_toNat_le.mpr (by omega)
    have hsub : (c - 1).toNat = c.toNat - 1 := UInt16.toNat_sub_of_le _ _ hle
    have hne : c - 1 ≠ 0 := by
      intro hzero
      have htoNat := congrArg UInt16.toNat hzero
      rw [hsub] at htoNat
      have h0 : (0 : UInt16).toNat = 0 := rfl
      omega
    rw [List.range_succ, List.map_append, Holders.run_append, List.map_singleton, Holders.run_singleton]
    have hheld : total - n = total - (n + 1) + 1 := by omega
    rw [hheld] at hc
    exact ⟨c - 1, hc.free a hne, by omega⟩

theorem getElem?_held (freed : ℕ) :
    (List.replicate freed none ++ List.replicate 1 (some 0))[freed]? = some (some 0) := by
  rw [List.getElem?_append_right (by simp)]
  simp

end Shared

/-- A string is made and copied 65535 times; its first 65535 holders give back their references. -/
def tooManyCopies : List StrOp :=
  [.malloc "a".toList (-1)] ++ List.replicate 65535 (.copy 0) ++ (List.range 65534).map .free ++ [.free 65534]

theorem not_isolated_tooManyCopies : ¬ IsolatedThroughout (callAllocator 1) Holders.init tooManyCopies := by
  intro h
  have hlive := h.run
  rw [tooManyCopies, Holders.run_append, Holders.run_append, Holders.run_append, Holders.run_singleton,
    Holders.run_singleton] at hlive
  have hmade : Shared (Holders.init.step (callAllocator 1) (.malloc "a".toList (-1))) 0 1 1 :=
    ⟨rfl, rfl, _, rfl, rfl, rfl⟩
  obtain ⟨c, hcopied, hc⟩ := hmade.copies (callAllocator 1) 65535
  have h1 : (1 : UInt16).toNat = 1 := rfl
  have hcount : c.toNat = 65535 := by omega
  obtain ⟨c', hfreed, hc'⟩ := hcopied.frees (callAllocator 1) (by omega : 65534 < c.toNat) (by omega)
  have hone : c' = 1 := UInt16.toNat_inj.mp (by omega)
  rw [hone] at hfreed
  obtain ⟨hgone, hrefs⟩ := hfreed.free_last (callAllocator 1)
  obtain ⟨-, hheld⟩ := hlive
  obtain ⟨b, hb, -⟩ := hheld 65535 0 ((congrArg (·[65535]?) hrefs).trans (Shared.getElem?_held 65535))
  rw [hgone] at hb
  cases hb

/-- A string with two holders, one of which writes to it. -/
def sharedWrite : List StrOp := [.malloc "ab".toList (-1), .copy 0, .openWrite 0 2 [(0, 'x')]]

theorem not_isolated_sharedWrite : ¬ IsolatedThroughout (callAllocator 1) Holders.init sharedWrite := by
  rintro ⟨-, -, -, -, -, hkept, -⟩
  obtain ⟨-, htext⟩ := hkept 1 0 rfl (by decide)
  exact absurd htext (by decide)

/-- Strings are not isolated when one has more references than its count can tell, or when there is no memory
for a string that is written. -/
theorem not_isolated_throughout :
    ¬ IsolatedThroughout (callAllocator 1) Holders.init tooManyCopies ∧
      ¬ IsolatedThroughout (callAllocator 1) Holders.init sharedWrite :=
  ⟨not_isolated_tooManyCopies, not_isolated_sharedWrite⟩

end Strlib
