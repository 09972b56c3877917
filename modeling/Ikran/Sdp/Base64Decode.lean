import Ikran.Sdp.Base64

/-!
# Decoding Base64 into a buffer

`base64_decode` of `sdp_base64.c` as it is, with the destination that it writes to, the look-ahead where the
destination ends, and the table that it indexes with a byte of the source. What stands behind the table is
arbitrary.
-/

namespace Base64.Buffer

/-! ## The decoder -/

/-- `base64_result_t` -/
inductive Result
  | success
  | bufferOverrun
  | badData
  | badPadding
  | badBlockSize
  deriving DecidableEq

/-- A read of the table or of the source, or an access to the destination. -/
inductive Access
  | table (index : ℕ)
  | src (index : ℕ)
  | dest (index : ℕ)
  deriving DecidableEq

def invalidChar : UInt8 := 0xFF

def whiteSpace : UInt8 := 0xFE

def padding : UInt8 := 0xFD

def base64ToRawTable : List UInt8 := [
  0xFF, 0xFF, 0xFF, 0xFF, 0xFF, 0xFF, 0xFF, 0xFF, 0xFF, 0xFE,
  0xFE, 0xFF, 0xFF, 0xFE, 0xFF, 0xFF, 0xFF, 0xFF, 0xFF, 0xFF,
  0xFF, 0xFF, 0xFF, 0xFF, 0xFF, 0xFF, 0xFF, 0xFF, 0xFF, 0xFF,
  0xFF, 0xFF, 0xFE, 0xFF, 0xFF, 0xFF, 0xFF, 0xFF, 0xFF, 0xFF,
  0xFF, 0xFF, 0xFF,   62, 0xFF, 0xFF, 0xFF,   63,   52,   53,
    54,   55,   56,   57,   58,   59,   60,   61, 0xFF, 0xFF,
  0xFF, 0xFD, 0xFF, 0xFF, 0xFF,    0,    1,    2,    3,    4,
     5,    6,    7,    8,    9,   10,   11,   12,   13,   14,
    15,   16,   17,   18,   19,   20,   21,   22,   23,   24,
    25, 0xFF, 0xFF, 0xFF, 0xFF, 0xFF, 0xFF,   26,   27,   28,
    29,   30,   31,   32,   33,   34,   35,   36,   37,   38,
    39,   40,   41,   42,   43,   44,   45,   46,   47,   48,
    49,   50,   51, 0xFF, 0xFF, 0xFF, 0xFF, 0xFF]

/-- What is read from the table, or from behind it. -/
def toRaw (beyond : UInt8 → UInt8) (c : UInt8) : UInt8 :=
  if c < 128 then base64ToRawTable.getD c.toNat 0 else beyond c

/-- The variables of the loop, the destination, and what was accessed. -/
structure Decoder where
  j : ℕ := 0
  sindex : ℕ := 0
  dest : ℕ → UInt8
  accesses : List Access := []

/-- What `base64_decode` returns and leaves. -/
structure Decoded where
  result : Result
  dest : ℕ → UInt8
  destBytes : ℕ := 0
  accesses : List Access

namespace Decoder

variable (d : Decoder)

def read (accesses : List Access) : Decoder :=
  { d with accesses := d.accesses ++ accesses }

/-- `dest[j] = val` -/
def set (val : UInt8) : Decoder :=
  { d with dest := Function.update d.dest d.j val, accesses := d.accesses ++ [.dest d.j] }

/-- `dest[j++] |= val` -/
def fill (val : UInt8) : Decoder :=
  { d with
    j := d.j + 1
    dest := Function.update d.dest d.j (d.dest d.j ||| val)
    accesses := d.accesses ++ [.dest d.j] }

/-- `sindex++` -/
def next : Decoder :=
  { d with sindex := d.sindex + 1 }

/-- An error is returned. -/
def fail (result : Result) : Decoded :=
  { result, dest := d.dest, accesses := d.accesses }

/-- The check of the length behind the loop. -/
def finish (padCount : ℕ) : Decoded :=
  if (d.j + padCount) % 3 ≠ 0 then d.fail .badBlockSize
  else { result := .success, dest := d.dest, destBytes := d.j, accesses := d.accesses }

end Decoder

section Loop

variable (beyond : UInt8 → UInt8) (size : ℕ)

/-- Behind a padding character at `i`. -/
def decodePadding (i : ℕ) (d : Decoder) : List UInt8 → Decoded
  | [] => d.finish 1
  | c :: rest =>
    let d := d.read [.src (i + 1), .table c.toNat]
    if toRaw beyond c ≠ padding then d.fail .badPadding
    else if rest ≠ [] then d.fail .badPadding
    else d.finish 2

/-- The look-ahead at the end of the destination, with the bits that have no place there. -/
def lookAhead (i : ℕ) (bits : UInt8) (d : Decoder) : List UInt8 → Decoder × Bool
  | [] => (d, false)
  | c :: _ =>
    if bits ≠ 0 then (d, false)
    else (d.read [.src (i + 1), .table c.toNat], toRaw beyond c = padding)

/-- The bits of a character are stored, unless the destination is overrun. -/
def store (i : ℕ) (val : UInt8) (d : Decoder) (rest : List UInt8) : Decoder × Bool :=
  match d.sindex % 4 with
  | 0 => if d.j < size then (d.set (val <<< 2), true) else (d, false)
  | 1 =>
    let d := d.fill (val >>> 4)
    if d.j < size then (d.set ((val <<< 4) &&& 0xF0), true) else lookAhead beyond i (val &&& 0x0F) d rest
  | 2 =>
    let d := d.fill (val >>> 2)
    if d.j < size then (d.set ((val <<< 6) &&& 0xC0), true) else lookAhead beyond i (val &&& 0x03) d rest
  | _ => (d.fill val, true)

/-- The loop of `base64_decode`, from the byte at `i` on. -/
def decodeFrom (i : ℕ) (d : Decoder) : List UInt8 → Decoded
  | [] => d.finish 0
  | c :: rest =>
    let d := d.read [.src i]
    if 128 ≤ c then d.fail .badData
    else
      let d := d.read [.table c.toNat]
      let val := toRaw beyond c
      if val = invalidChar then d.fail .badData
      else if val = whiteSpace then decodeFrom (i + 1) d rest
      else if val = padding then decodePadding beyond i d rest
      else
        let (d, stored) := store beyond size i val d rest
        if stored then decodeFrom (i + 1) d.next rest
        else d.fail .bufferOverrun

/-- `base64_decode` of the first `srcBytes` bytes of the source, into a destination of `size` bytes. -/
def decode (dest : ℕ → UInt8) (src : List UInt8) (srcBytes : ℕ) : Decoded :=
  decodeFrom beyond size 0 { dest } (src.take srcBytes)

end Loop

/-- The bytes that were converted. -/
def Decoded.bytes (r : Decoded) : List UInt8 :=
  (List.range r.destBytes).map r.dest

def alphabet : List UInt8 :=
  rawToBase64Table.map fun c => UInt8.ofNat c.toNat

/-- The six bits of a character of the alphabet. -/
def sextet (c : UInt8) : Option UInt8 :=
  if c ∈ alphabet then some (UInt8.ofNat (alphabet.idxOf c)) else none

/-- A blank, a tab, a line feed or a carriage return. -/
def isSpace (c : UInt8) : Bool :=
  c = 32 ∨ c = 9 ∨ c = 10 ∨ c = 13

/-- The padding character. -/
abbrev equals : UInt8 := 61

/-- The first byte of a group. -/
def byte1 (a b : UInt8) : UInt8 := a <<< 2 ||| b >>> 4

/-- The second byte of a group. -/
def byte2 (b c : UInt8) : UInt8 := ((b <<< 4) &&& (0xF0 : UInt8)) ||| c >>> 2

/-- The third byte of a group. -/
def byte3 (c d : UInt8) : UInt8 := ((c <<< 6) &&& (0xC0 : UInt8)) ||| d

/-- A text is a sequence of complete groups of which only the last may be padded, and stands for some bytes. -/
inductive Denotes : List UInt8 → List UInt8 → Prop
  | nil : Denotes [] []
  | group {a b c d va vb vc vd : UInt8} {text bytes : List UInt8} : sextet a = some va → sextet b = some vb →
      sextet c = some vc → sextet d = some vd → Denotes text bytes →
      Denotes (a :: b :: c :: d :: text) (byte1 va vb :: byte2 vb vc :: byte3 vc vd :: bytes)
  | padded {a b c va vb vc : UInt8} : sextet a = some va → sextet b = some vb → sextet c = some vc →
      Denotes [a, b, c, equals] [byte1 va vb, byte2 vb vc]
  | paddedTwice {a b va vb : UInt8} : sextet a = some va → sextet b = some vb →
      Denotes [a, b, equals, equals] [byte1 va vb]

theorem toRaw_cases (beyond : UInt8 → UInt8) {c : UInt8} (hc : c < 128) :
    (sextet c = none ∧ isSpace c = false ∧ c ≠ equals ∧ toRaw beyond c = invalidChar) ∨
    (sextet c = none ∧ isSpace c = true ∧ c ≠ equals ∧ toRaw beyond c = whiteSpace) ∨
    (sextet c = none ∧ isSpace c = false ∧ c = equals ∧ toRaw beyond c = padding) ∨
    (∃ v, sextet c = some v ∧ isSpace c = false ∧ c ≠ equals ∧ toRaw beyond c = v ∧ v < 64) := by
  have hall : ∀ k : Fin 128, let c := UInt8.ofNat k.val; let v := base64ToRawTable.getD k.val 0
      (sextet c = none ∧ isSpace c = false ∧ c ≠ equals ∧ v = invalidChar) ∨
      (sextet c = none ∧ isSpace c = true ∧ c ≠ equals ∧ v = whiteSpace) ∨
      (sextet c = none ∧ isSpace c = false ∧ c = equals ∧ v = padding) ∨
      (sextet c = some v ∧ isSpace c = false ∧ c ≠ equals ∧ v < 64) := by
    decide +kernel
  have hlt : c.toNat < 128 := hc
  have h := hall ⟨c.toNat, hlt⟩
  simp only [UInt8.ofNat_toNat] at h
  rw [toRaw, if_pos hc]
  rcases h with h | h | h | h
  · exact .inl h
  · exact .inr (.inl h)
  · exact .inr (.inr (.inl h))
  · exact .inr (.inr (.inr ⟨_, h.1, h.2.1, h.2.2.1, rfl, h.2.2.2⟩))

/-- The bytes that are finished after some characters. -/
def bytesOf : List UInt8 → List UInt8
  | a :: b :: c :: d :: vs => byte1 a b :: byte2 b c :: byte3 c d :: bytesOf vs
  | [a, b, c] => [byte1 a b, byte2 b c]
  | [a, b] => [byte1 a b]
  | _ => []

/-- The byte that is begun after some characters. -/
def pending : List UInt8 → UInt8
  | _ :: _ :: _ :: _ :: vs => pending vs
  | [_, _, c] => (c <<< 6) &&& 0xC0
  | [_, b] => (b <<< 4) &&& 0xF0
  | [a] => a <<< 2
  | [] => 0

theorem length_bytesOf (vs : List UInt8) : (bytesOf vs).length = 3 * vs.length / 4 := by
  fun_induction bytesOf vs with
  | case1 a b c d vs ih =>
    simp only [List.length_cons, ih]
    omega
  | case2 | case3 => simp
  | case4 vs hfour hthree htwo =>
    obtain _ | ⟨a, _ | ⟨b, _ | ⟨c, _ | ⟨d, vs⟩⟩⟩⟩ := vs
    · rfl
    · simp
    · exact absurd rfl (htwo a b)
    · exact absurd rfl (hthree a b c)
    · exact absurd rfl (hfour a b c d vs)

theorem bytesOf_append (vs : List UInt8) (v : UInt8) :
    (vs.length % 4 = 0 → bytesOf (vs ++ [v]) = bytesOf vs ∧ pending (vs ++ [v]) = v <<< 2) ∧
    (vs.length % 4 = 1 → bytesOf (vs ++ [v]) = bytesOf vs ++ [pending vs ||| v >>> 4] ∧
      pending (vs ++ [v]) = (v <<< 4) &&& 0xF0) ∧
    (vs.length % 4 = 2 → bytesOf (vs ++ [v]) = bytesOf vs ++ [pending vs ||| v >>> 2] ∧
      pending (vs ++ [v]) = (v <<< 6) &&& 0xC0) ∧
    (vs.length % 4 = 3 → bytesOf (vs ++ [v]) = bytesOf vs ++ [pending vs ||| v]) := by
  fun_induction pending vs with
  | case1 a b c d vs ih =>
    have hmod : (a :: b :: c :: d :: vs).length % 4 = vs.length % 4 := by
      simp only [List.length_cons]
      omega
    rw [hmod]
    simp only [List.cons_append, bytesOf, pending, List.cons.injEq, true_and]
    exact ih
  | case2 a b c => simp [bytesOf, byte3]
  | case3 a b => simp [bytesOf, pending, byte2]
  | case4 a => simp [bytesOf, pending, byte1]
  | case5 => simp [bytesOf, pending]

/-! ## Decoding characters that there is room for -/

/-- The values of the characters of the alphabet in a text. -/
def values (text : List UInt8) : List UInt8 :=
  text.filterMap sextet

/-- There are characters of the alphabet and white space only. -/
def Plain (text : List UInt8) : Prop :=
  ∀ c ∈ text, (sextet c).isSome ∨ isSpace c

/-- There is room for the bytes that some characters begin. -/
def Fits (size k : ℕ) : Prop :=
  (3 * k + 3) / 4 ≤ size

/-- A character finishes the last byte of the destination, and has no other bits. -/
def Fills (size k : ℕ) (v : UInt8) : Prop :=
  (k % 4 = 1 ∧ v &&& 0x0F = 0 ∨ k % 4 = 2 ∧ v &&& 0x03 = 0) ∧ 3 * (k + 1) / 4 = size

/-- An access is inside the table, the source and the destination. -/
def Access.Within (srcBytes size : ℕ) : Access → Prop
  | .table index => index < 128
  | .src index => index < srcBytes
  | .dest index => index < size

/-- The decoder has used some characters. -/
structure Decoder.Used (d : Decoder) (vs : List UInt8) : Prop where
  sindex : d.sindex = vs.length
  bytes : (List.range d.j).map d.dest = bytesOf vs
  pending : vs.length % 4 ≠ 0 → d.dest d.j = pending vs

variable {beyond : UInt8 → UInt8} {size i n : ℕ} {d d' : Decoder} {vs rest : List UInt8} {v c : UInt8}

theorem Decoder.Used.j (h : d.Used vs) : d.j = 3 * vs.length / 4 := by
  have hlen := congrArg List.length h.bytes
  rwa [List.length_map, List.length_range, length_bytesOf] at hlen

theorem map_update (dest : ℕ → UInt8) (j : ℕ) (x : UInt8) :
    (List.range j).map (Function.update dest j x) = (List.range j).map dest :=
  List.map_congr_left fun _ ht => Function.update_of_ne (ne_of_lt (List.mem_range.mp ht)) _ _

theorem map_fill (d : Decoder) (x : UInt8) :
    (List.range (d.fill x).j).map (d.fill x).dest = (List.range d.j).map d.dest ++ [d.dest d.j ||| x] := by
  have hlast : (d.fill x).dest d.j = d.dest d.j ||| x := Function.update_self ..
  rw [show (d.fill x).j = d.j + 1 from rfl, List.range_succ, List.map_append, List.map_singleton, hlast]
  exact congrArg (· ++ _) (map_update ..)

theorem Decoder.Used.set (hj : d.sindex = vs.length) (hbytes : (List.range d.j).map d.dest = bytesOf (vs ++ [v]))
    {x : UInt8} (hpending : Buffer.pending (vs ++ [v]) = x) :
    (d.set x).next.Used (vs ++ [v]) := by
  refine ⟨?_, ?_, fun _ => ?_⟩
  · simp [Decoder.set, Decoder.next, hj]
  · exact (map_update ..).trans hbytes
  · exact (Function.update_self ..).trans hpending.symm

/-- What is stored where there is room. -/
structure Stored (size : ℕ) (d d' : Decoder) (vs : List UInt8) : Prop where
  used : d'.Used vs
  accesses : ∃ as, d'.accesses = d.accesses ++ as ∧ ∀ n, ∀ a ∈ as, Access.Within n size a

theorem store_of_fits (beyond : UInt8 → UInt8) (i : ℕ) (v : UInt8) (rest : List UInt8) (h : d.Used vs)
    (hfits : Fits size (vs.length + 1)) :
    ∃ d', store beyond size i v d rest = (d', true) ∧ Stored size d d'.next (vs ++ [v]) := by
  have hj := h.j
  rw [Fits] at hfits
  obtain ⟨h0, h1, h2, h3⟩ := bytesOf_append vs v
  have hmod : vs.length % 4 = 0 ∨ vs.length % 4 = 1 ∨ vs.length % 4 = 2 ∨ vs.length % 4 = 3 := by omega
  rcases hmod with hmod | hmod | hmod | hmod
  · obtain ⟨hbytes, hpending⟩ := h0 hmod
    have hroom : d.j < size := by omega
    refine ⟨d.set (v <<< 2), ?_, ⟨.set h.sindex (hbytes ▸ h.bytes) hpending, [.dest d.j], rfl, ?_⟩⟩
    · simp only [store, h.sindex, hmod, if_pos hroom]
    · exact fun n a ha => List.mem_singleton.mp ha ▸ hroom
  · obtain ⟨hbytes, hpending⟩ := h1 hmod
    have hne : vs.length % 4 ≠ 0 := by omega
    have hroom : (d.fill (v >>> 4)).j < size := by
      have : (d.fill (v >>> 4)).j = d.j + 1 := rfl
      omega
    refine ⟨(d.fill (v >>> 4)).set ((v <<< 4) &&& 0xF0), ?_, ⟨.set (d := d.fill (v >>> 4)) h.sindex ?_ hpending,
      [.dest d.j, .dest (d.j + 1)], List.append_assoc .., ?_⟩⟩
    · simp only [store, h.sindex, hmod, if_pos hroom]
    · rw [map_fill, h.bytes, h.pending hne, hbytes]
    · have hlast : d.j < size := by omega
      exact fun n => List.forall_mem_cons.mpr ⟨hlast, fun a ha => List.mem_singleton.mp ha ▸ hroom⟩
  · obtain ⟨hbytes, hpending⟩ := h2 hmod
    have hne : vs.length % 4 ≠ 0 := by omega
    have hroom : (d.fill (v >>> 2)).j < size := by
      have : (d.fill (v >>> 2)).j = d.j + 1 := rfl
      omega
    refine ⟨(d.fill (v >>> 2)).set ((v <<< 6) &&& 0xC0), ?_, ⟨.set (d := d.fill (v >>> 2)) h.sindex ?_ hpending,
      [.dest d.j, .dest (d.j + 1)], List.append_assoc .., ?_⟩⟩
    · simp only [store, h.sindex, hmod, if_pos hroom]
    · rw [map_fill, h.bytes, h.pending hne, hbytes]
    · have hlast : d.j < size := by omega
      exact fun n => List.forall_mem_cons.mpr ⟨hlast, fun a ha => List.mem_singleton.mp ha ▸ hroom⟩
  · have hne : vs.length % 4 ≠ 0 := by omega
    have hroom : d.j < size := by omega
    refine ⟨d.fill v, ?_, ⟨⟨?_, ?_, fun hnext => ?_⟩, [.dest d.j], rfl, ?_⟩⟩
    · simp only [store, h.sindex, hmod]
    · simp [Decoder.fill, Decoder.next, h.sindex]
    · exact (map_fill d v).trans (by rw [h.bytes, h.pending hne, h3 hmod])
    · -- the group is complete
      rw [List.length_append, List.length_singleton] at hnext
      omega
    · exact fun n a ha => List.mem_singleton.mp ha ▸ hroom

theorem store_of_not_fits (beyond : UInt8 → UInt8) (i : ℕ) (v : UInt8) (rest : List UInt8) (h : d.Used vs)
    (hfits : Fits size vs.length) (hnext : ¬Fits size (vs.length + 1)) :
    vs.length % 4 = 0 ∧ store beyond size i v d rest = (d, false) ∨
    ∃ x, (vs.length % 4 = 1 ∨ vs.length % 4 = 2) ∧ 3 * (vs.length + 1) / 4 = size ∧ d.j < size ∧
      (List.range (d.fill x).j).map (d.fill x).dest = bytesOf (vs ++ [v]) ∧
      store beyond size i v d rest =
        lookAhead beyond i (if vs.length % 4 = 1 then v &&& 0x0F else v &&& 0x03) (d.fill x) rest := by
  have hj := h.j
  rw [Fits] at hfits hnext
  obtain ⟨-, h1, h2, -⟩ := bytesOf_append vs v
  have hmod : vs.length % 4 = 0 ∨ vs.length % 4 = 1 ∨ vs.length % 4 = 2 := by omega
  rcases hmod with hmod | hmod | hmod
  · have hfull : ¬d.j < size := by omega
    refine .inl ⟨hmod, ?_⟩
    simp only [store, h.sindex, hmod, if_neg hfull]
  · have hne : vs.length % 4 ≠ 0 := by omega
    have hfull : ¬(d.fill (v >>> 4)).j < size := by
      have : (d.fill (v >>> 4)).j = d.j + 1 := rfl
      omega
    refine .inr ⟨v >>> 4, .inl hmod, by omega, by omega, ?_, ?_⟩
    · rw [map_fill, h.bytes, h.pending hne, (h1 hmod).1]
    · simp only [store, h.sindex, hmod, if_neg hfull, if_true]
  · have hne : vs.length % 4 ≠ 0 := by omega
    have hfull : ¬(d.fill (v >>> 2)).j < size := by
      have : (d.fill (v >>> 2)).j = d.j + 1 := rfl
      omega
    refine .inr ⟨v >>> 2, .inr hmod, by omega, by omega, ?_, ?_⟩
    · rw [map_fill, h.bytes, h.pending hne, (h2 hmod).1]
    · simp only [store, h.sindex, hmod, if_neg hfull]
      rfl

theorem Decoder.Used.read (h : d.Used vs) (as : List Access) : (d.read as).Used vs := ⟨h.sindex, h.bytes, h.pending⟩

theorem lt_of_sextet (hc : sextet c = some v) : c < 128 := by
  have hall : ∀ c ∈ alphabet, c < 128 := by decide +kernel
  rw [sextet] at hc
  split_ifs at hc with hmem
  exact hall c hmem

theorem lt_of_isSpace (hc : isSpace c) : c < 128 := by
  rw [isSpace, decide_eq_true_eq] at hc
  rcases hc with rfl | rfl | rfl | rfl <;> decide

theorem decodeFrom_beyond (hc : 128 ≤ c) :
    decodeFrom beyond size i d (c :: rest) = (d.read [.src i]).fail .badData := by
  simp only [decodeFrom, if_pos hc]

theorem decodeFrom_space (hc : isSpace c) : decodeFrom beyond size i d (c :: rest) =
      decodeFrom beyond size (i + 1) ((d.read [.src i]).read [.table c.toNat]) rest := by
  have hlt := lt_of_isSpace hc
  have hraw : toRaw beyond c = whiteSpace := by
    rcases toRaw_cases beyond hlt with h | h | h | ⟨v, h⟩
    · rw [hc] at h
      exact absurd h.2.1 (by decide)
    · exact h.2.2.2
    · rw [hc] at h
      exact absurd h.2.1 (by decide)
    · rw [hc] at h
      exact absurd h.2.1 (by decide)
  simp only [decodeFrom, if_neg (UInt8.not_le.mpr hlt), hraw]
  rfl

theorem decodeFrom_equals : decodeFrom beyond size i d (equals :: rest) =
      decodePadding beyond i ((d.read [.src i]).read [.table 61]) rest := by
  rw [decodeFrom]
  rfl

theorem decodeFrom_sextet (hc : sextet c = some v) : decodeFrom beyond size i d (c :: rest) =
      match store beyond size i v ((d.read [.src i]).read [.table c.toNat]) rest with
      | (d', true) => decodeFrom beyond size (i + 1) d'.next rest
      | (d', false) => d'.fail .bufferOverrun := by
  have hlt := lt_of_sextet hc
  obtain ⟨hraw, hv⟩ : toRaw beyond c = v ∧ v < 64 := by
    rcases toRaw_cases beyond hlt with h | h | h | ⟨w, hw, -, -, hraw, hlt64⟩
    · exact (nomatch hc.symm.trans h.1)
    · exact (nomatch hc.symm.trans h.1)
    · exact (nomatch hc.symm.trans h.1)
    · obtain rfl := Option.some.inj (hc.symm.trans hw)
      exact ⟨hraw, hlt64⟩
  have hne : ∀ x : UInt8, 64 ≤ x → v ≠ x := fun x hx heq => absurd hv (UInt8.not_lt.mpr (heq ▸ hx))
  simp only [decodeFrom, if_neg (UInt8.not_le.mpr hlt), hraw, if_neg (hne invalidChar (by decide)),
    if_neg (hne whiteSpace (by decide)), if_neg (hne padding (by decide))]
  cases hstore : store beyond size i v ((d.read [.src i]).read [.table c.toNat]) rest with
  | mk d' stored => cases stored <;> rfl

theorem decodeFrom_invalid (hlt : c < 128) (hnone : sextet c = none) (hspace : isSpace c = false) (hne : c ≠ equals) :
    decodeFrom beyond size i d (c :: rest) = ((d.read [.src i]).read [.table c.toNat]).fail .badData := by
  have hraw : toRaw beyond c = invalidChar := by
    rcases toRaw_cases beyond hlt with h | h | h | ⟨v, h, -⟩
    · exact h.2.2.2
    · exact absurd (hspace.symm.trans h.2.1) (by decide)
    · exact absurd h.2.2.1 hne
    · exact (nomatch hnone.symm.trans h)
  simp only [decodeFrom, if_neg (UInt8.not_le.mpr hlt), hraw]
  rfl

theorem Fits.mono {k k' : ℕ} (h : Fits size k') (hle : k ≤ k') : Fits size k := by
  rw [Fits] at *
  omega

/-- Characters that there is room for are decoded, and every access is in its bounds. -/
theorem decodeFrom_append (beyond : UInt8 → UInt8) (i : ℕ) (text rest : List UInt8) (hplain : Plain text)
    (h : d.Used vs) (hfits : Fits size (vs ++ values text).length) :
    ∃ d', decodeFrom beyond size i d (text ++ rest) = decodeFrom beyond size (i + text.length) d' rest ∧
      d'.Used (vs ++ values text) ∧
      ∃ as, d'.accesses = d.accesses ++ as ∧ ∀ a ∈ as, a.Within (i + text.length) size := by
  induction text generalizing i d vs with
  | nil => exact ⟨d, rfl, (List.append_nil vs).symm ▸ h, [], (List.append_nil _).symm, fun _ ha => (nomatch ha)⟩
  | cons c text ih =>
    have hrest : Plain text := fun c' hc' => hplain c' (List.mem_cons_of_mem _ hc')
    have hindex : i + (c :: text).length = i + 1 + text.length := by
      rw [List.length_cons]
      omega
    -- the byte is read and looked up
    have hread : ∀ {d' : Decoder} (as : List Access), c < 128 →
        d'.accesses = ((d.read [.src i]).read [.table c.toNat]).accesses ++ as →
        (∀ a ∈ as, a.Within (i + (c :: text).length) size) →
        ∃ as, d'.accesses = d.accesses ++ as ∧ ∀ a ∈ as, a.Within (i + (c :: text).length) size := by
      intro d' as hlt heq has
      refine ⟨.src i :: .table c.toNat :: as, ?_, ?_⟩
      · rw [heq]
        simp [Decoder.read]
      · have hsrc : Access.Within (i + (c :: text).length) size (.src i) := by
          rw [hindex, Access.Within]
          omega
        exact List.forall_mem_cons.mpr ⟨hsrc, List.forall_mem_cons.mpr ⟨hlt, has⟩⟩
    rw [List.cons_append]
    cases hc : sextet c with
    | none =>
      have hspace : isSpace c := (hplain c List.mem_cons_self).resolve_left (by simp [hc])
      have hvalues : values (c :: text) = values text := List.filterMap_cons_none hc
      rw [hvalues] at hfits ⊢
      rw [decodeFrom_space hspace]
      obtain ⟨d', hrun, hused, as, heq, has⟩ := ih (i := i + 1) hrest ((h.read [.src i]).read _) hfits
      rw [hindex]
      exact ⟨d', hrun, hused, hindex ▸ hread as (lt_of_isSpace hspace) heq (hindex ▸ has)⟩
    | some v =>
      have hvalues : values (c :: text) = v :: values text := List.filterMap_cons_some hc
      rw [hvalues, List.append_cons] at hfits ⊢
      have hone : Fits size (vs.length + 1) := hfits.mono (by simp)
      obtain ⟨d₁, hstore, hstored⟩ :=
        store_of_fits beyond i v (text ++ rest) ((h.read [.src i]).read [.table c.toNat]) hone
      rw [decodeFrom_sextet hc, hstore]
      obtain ⟨d', hrun, hused, as, heq, has⟩ := ih (i := i + 1) hrest hstored.used hfits
      obtain ⟨as₁, heq₁, has₁⟩ := hstored.accesses
      rw [hindex]
      refine ⟨d', hrun, hused, hindex ▸ hread (as₁ ++ as) (lt_of_sextet hc) ?_ fun a ha => ?_⟩
      · rw [heq, heq₁, List.append_assoc]
      · rcases List.mem_append.mp ha with ha | ha
        · exact has₁ _ a ha
        · exact hindex ▸ has a ha

end Base64.Buffer
