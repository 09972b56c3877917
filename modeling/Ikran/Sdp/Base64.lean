import Ikran.Lib.CString

/-!
# Base64

`base64_encode` and `base64_decode` of `sdp_base64.c`, which the key material of a security
description passes through.
-/

namespace Base64

open CStr

def rawToBase64Table : CStr :=
  "ABCDEFGHIJKLMNOPQRSTUVWXYZabcdefghijklmnopqrstuvwxyz0123456789+/"

/-- The character of the low six bits of `index`. -/
def rawToBase64 (index : UInt8) : Char := rawToBase64Table.getD (index &&& (0x3F : UInt8)).toNat '='

/-- What `base64_to_raw_table[]` says about a character. -/
inductive CharClass
  | value (v : UInt8)
  | whiteSpace
  | padding
  | invalidChar
  deriving DecidableEq

/-- `base64_to_raw_table[]`. -/
def base64ToRaw (c : Char) : CharClass :=
  if c = '=' then .padding
  else if c = ' ' ∨ c = '\t' ∨ c = '\n' ∨ c = '\r' then .whiteSpace
  else if c ∈ rawToBase64Table then .value (UInt8.ofNat (rawToBase64Table.idxOf c))
  else .invalidChar

/-- `MAX_BASE64_LINE_LENGTH`. -/
def maxLineLength : ℕ := 76

/-- The four characters of a full group. -/
def encodeGroup (a b c : UInt8) : CStr :=
  [rawToBase64 (a >>> 2),
    rawToBase64 (((a <<< 4) &&& (0x30 : UInt8)) ||| ((b >>> 4) &&& (0x0F : UInt8))),
    rawToBase64 (((b <<< 2) &&& (0x3C : UInt8)) ||| ((c >>> 6) &&& (0x03 : UInt8))),
    rawToBase64 (c &&& (0x3F : UInt8))]

/-- The line feed in front of a group that would start behind column 76. -/
def lineFeed (lineCount : ℕ) : CStr := if maxLineLength ≤ lineCount then ['\n'] else []

/-- The characters on the line in front of the next group. -/
def lineStart (lineCount : ℕ) : ℕ := if maxLineLength ≤ lineCount then 0 else lineCount

/-- The loop of `base64_encode`: `lineCount` characters stand on the current line and `j` in the
destination of `dmax` bytes. -/
def encodeFrom (dmax : ℕ) : ℕ → ℕ → List UInt8 → Option CStr
  | _, _, [] => some []
  | lineCount, j, [a] =>
    if dmax < j + (lineFeed lineCount).length + 4 then none
    else some (lineFeed lineCount ++ (encodeGroup a 0 0).take 2 ++ ['=', '='])
  | lineCount, j, [a, b] =>
    if dmax < j + (lineFeed lineCount).length + 4 then none
    else some (lineFeed lineCount ++ (encodeGroup a b 0).take 3 ++ ['='])
  | lineCount, j, a :: b :: c :: src =>
    if dmax ≤ j + (lineFeed lineCount).length + 3 then none
    else
      (encodeFrom dmax (lineStart lineCount + 4) (j + (lineFeed lineCount).length + 4) src).map
        fun rest => lineFeed lineCount ++ encodeGroup a b c ++ rest

/-- `base64_encode` into a destination of `dmax` bytes. -/
def encode (dmax : ℕ) (src : List UInt8) : Option CStr := encodeFrom dmax 0 0 src

/-- The last check of `base64_decode`: with the padding, whole groups were read. -/
def decodeEnd (out : List UInt8) (padCount : ℕ) : Option (List UInt8) :=
  if (out.length + padCount) % 3 = 0 then some out else none

/-- The loop of `base64_decode`: `out` are the finished bytes, `cur` the byte being filled, and
`sindex` counts the characters used. -/
def decodeFrom (out : List UInt8) (cur : UInt8) (sindex : ℕ) : CStr → Option (List UInt8)
  | [] => decodeEnd out 0
  | c :: src =>
    match base64ToRaw c with
    | .invalidChar => none
    | .whiteSpace => decodeFrom out cur sindex src
    | .padding =>
      match src with
      | [] => decodeEnd out 1
      | [d] => if base64ToRaw d = .padding then decodeEnd out 2 else none
      | _ => none
    | .value v =>
      match sindex % 4 with
      | 0 => decodeFrom out (v <<< 2) (sindex + 1) src
      | 1 => decodeFrom (out ++ [cur ||| (v >>> 4)]) ((v <<< 4) &&& (0xF0 : UInt8)) (sindex + 1) src
      | 2 => decodeFrom (out ++ [cur ||| (v >>> 2)]) ((v <<< 6) &&& (0xC0 : UInt8)) (sindex + 1) src
      | _ => decodeFrom (out ++ [cur ||| v]) 0 (sindex + 1) src

/-- `base64_decode`. -/
def decode (src : CStr) : Option (List UInt8) := decodeFrom [] 0 0 src

/-- A key of one group survives the round trip. -/
example : (encode 60 [1, 2, 250]).bind decode = some [1, 2, 250] := by decide

/-! ## Round trip -/

theorem base64ToRaw_rawToBase64 (i : UInt8) : base64ToRaw (rawToBase64 i) = .value (i &&& (0x3F : UInt8)) := by
  have hall : ∀ k : Fin 64, base64ToRaw (rawToBase64Table.getD k.val '=') = .value (UInt8.ofNat k.val) := by
    decide +kernel
  have hlt : (i &&& (0x3F : UInt8)).toNat < 64 := by
    rw [UInt8.toNat_and]
    exact Nat.lt_of_le_of_lt Nat.and_le_right (by decide)
  have h := hall ⟨_, hlt⟩
  rw [UInt8.ofNat_toNat] at h
  exact h

theorem rawToBase64_mem (i : UInt8) : rawToBase64 i ∈ rawToBase64Table := by
  have hall : ∀ k : Fin 64, rawToBase64Table.getD k.val '=' ∈ rawToBase64Table := by decide +kernel
  have hlt : (i &&& (0x3F : UInt8)).toNat < 64 := by
    rw [UInt8.toNat_and]
    exact Nat.lt_of_le_of_lt Nat.and_le_right (by decide)
  exact hall ⟨_, hlt⟩

section Bits

variable (a b c : UInt8)

theorem bit_cases {i : ℕ} (h : i < 8) : i = 0 ∨ i = 1 ∨ i = 2 ∨ i = 3 ∨ i = 4 ∨ i = 5 ∨ i = 6 ∨ i = 7 := by
  omega

theorem first_byte : ((a >>> 2) &&& (0x3F : UInt8)) <<< 2 |||
      ((((a <<< 4) &&& (0x30 : UInt8)) ||| ((b >>> 4) &&& (0x0F : UInt8))) &&& (0x3F : UInt8)) >>> 4 =
      a := by
  apply UInt8.toBitVec_inj.mp
  ext i hi
  rcases bit_cases hi with rfl | rfl | rfl | rfl | rfl | rfl | rfl | rfl <;> simp

theorem second_byte : ((((a <<< 4) &&& (0x30 : UInt8)) ||| ((b >>> 4) &&& (0x0F : UInt8))) &&& (0x3F : UInt8)) <<< 4 &&&
        (0xF0 : UInt8) |||
      ((((b <<< 2) &&& (0x3C : UInt8)) ||| ((c >>> 6) &&& (0x03 : UInt8))) &&& (0x3F : UInt8)) >>> 2 =
      b := by
  apply UInt8.toBitVec_inj.mp
  ext i hi
  rcases bit_cases hi with rfl | rfl | rfl | rfl | rfl | rfl | rfl | rfl <;> simp

theorem third_byte : ((((b <<< 2) &&& (0x3C : UInt8)) ||| ((c >>> 6) &&& (0x03 : UInt8))) &&& (0x3F : UInt8)) <<< 6 &&&
        (0xC0 : UInt8) |||
      ((c &&& (0x3F : UInt8)) &&& (0x3F : UInt8)) = c := by
  apply UInt8.toBitVec_inj.mp
  ext i hi
  rcases bit_cases hi with rfl | rfl | rfl | rfl | rfl | rfl | rfl | rfl <;> simp

end Bits

theorem decodeFrom_value {out : List UInt8} {cur v : UInt8} {sindex : ℕ} {c : Char} {src : CStr}
    (h : base64ToRaw c = .value v) :
    decodeFrom out cur sindex (c :: src) = match sindex % 4 with
      | 0 => decodeFrom out (v <<< 2) (sindex + 1) src
      | 1 => decodeFrom (out ++ [cur ||| (v >>> 4)]) ((v <<< 4) &&& (0xF0 : UInt8)) (sindex + 1) src
      | 2 => decodeFrom (out ++ [cur ||| (v >>> 2)]) ((v <<< 6) &&& (0xC0 : UInt8)) (sindex + 1) src
      | _ => decodeFrom (out ++ [cur ||| v]) 0 (sindex + 1) src := by
  rw [decodeFrom.eq_def]
  simp only [h]

theorem decodeFrom_group (out : List UInt8) (cur a b c : UInt8) {sindex : ℕ} (hs : sindex % 4 = 0) (rest : CStr) :
    decodeFrom out cur sindex (encodeGroup a b c ++ rest) = decodeFrom (out ++ [a, b, c]) 0 (sindex + 4) rest := by
  have h1 : (sindex + 1) % 4 = 1 := by omega
  have h2 : (sindex + 1 + 1) % 4 = 2 := by omega
  have h3 : (sindex + 1 + 1 + 1) % 4 = 3 := by omega
  simp only [encodeGroup, List.cons_append, List.nil_append]
  rw [decodeFrom_value (base64ToRaw_rawToBase64 _)]
  simp only [hs]
  rw [decodeFrom_value (base64ToRaw_rawToBase64 _)]
  simp only [h1, first_byte]
  rw [decodeFrom_value (base64ToRaw_rawToBase64 _)]
  simp only [h2, second_byte]
  rw [decodeFrom_value (base64ToRaw_rawToBase64 _)]
  simp only [h3, third_byte, List.append_assoc, List.cons_append, List.nil_append]

/-- The characters of some bytes in groups of three. -/
def groups : List UInt8 → CStr
  | a :: b :: c :: src => encodeGroup a b c ++ groups src
  | _ => []

variable {src : List UInt8}

theorem length_groups (k : ℕ) (hsrc : src.length = 3 * k) : (groups src).length = 4 * k := by
  induction k generalizing src with
  | zero =>
    obtain rfl := List.eq_nil_of_length_eq_zero hsrc
    rfl
  | succ k ih =>
    obtain _ | ⟨a, _ | ⟨b, _ | ⟨c, src⟩⟩⟩ := src
    · simp at hsrc
    · simp at hsrc; omega
    · simp at hsrc; omega
    · have hrest : (groups src).length = 4 * k := ih (by simp at hsrc; omega)
      rw [groups, List.length_append, hrest, encodeGroup]
      simp only [List.length_cons, List.length_nil]
      omega

theorem groups_subset (k : ℕ) (hsrc : src.length = 3 * k) : ∀ c ∈ groups src, c ∈ rawToBase64Table := by
  induction k generalizing src with
  | zero =>
    obtain rfl := List.eq_nil_of_length_eq_zero hsrc
    exact fun c hc => nomatch hc
  | succ k ih =>
    obtain _ | ⟨a, _ | ⟨b, _ | ⟨c, src⟩⟩⟩ := src
    · simp at hsrc
    · simp at hsrc; omega
    · simp at hsrc; omega
    · intro x hx
      rw [groups, encodeGroup] at hx
      rcases List.mem_append.mp hx with hx | hx
      · simp only [List.mem_cons, List.not_mem_nil, or_false] at hx
        rcases hx with rfl | rfl | rfl | rfl <;> exact rawToBase64_mem _
      · exact ih (by simp at hsrc; omega) x hx

theorem encodeFrom_groups {dmax : ℕ} (k : ℕ) {lineCount j : ℕ}
    (hsrc : src.length = 3 * k) (hline : lineCount + 4 * k ≤ maxLineLength) (hj : j + 4 * k ≤ dmax) :
    encodeFrom dmax lineCount j src = some (groups src) := by
  induction k generalizing lineCount j src with
  | zero =>
    obtain rfl := List.eq_nil_of_length_eq_zero hsrc
    rfl
  | succ k ih =>
    obtain _ | ⟨a, _ | ⟨b, _ | ⟨c, src⟩⟩⟩ := src
    · simp at hsrc
    · simp at hsrc; omega
    · simp at hsrc; omega
    · have hstart : ¬ maxLineLength ≤ lineCount := by omega
      have hfeed : lineFeed lineCount = [] := if_neg hstart
      have hroom : ¬ dmax ≤ j + (lineFeed lineCount).length + 3 := by
        rw [hfeed, List.length_nil]
        omega
      rw [encodeFrom, if_neg hroom, hfeed, lineStart, if_neg hstart, List.length_nil,
        ih (by simp at hsrc; omega) (by omega) (by omega)]
      rfl

theorem decode_groups (k : ℕ) (hsrc : src.length = 3 * k) : decode (groups src) = some src := by
  have hrun : ∀ (k : ℕ) (src out : List UInt8) (cur : UInt8) (sindex : ℕ), src.length = 3 * k →
      out.length % 3 = 0 → sindex % 4 = 0 →
      decodeFrom out cur sindex (groups src) = some (out ++ src) := by
    intro k
    induction k with
    | zero =>
      intro src out cur sindex hsrc hout _
      obtain rfl := List.eq_nil_of_length_eq_zero hsrc
      rw [groups, decodeFrom, decodeEnd, Nat.add_zero, if_pos hout, List.append_nil]
      rintro a b c src h
      cases h
    | succ k ih =>
      intro src out cur sindex hsrc hout hs
      obtain _ | ⟨a, _ | ⟨b, _ | ⟨c, src⟩⟩⟩ := src
      · simp at hsrc
      · simp at hsrc; omega
      · simp at hsrc; omega
      · rw [groups, decodeFrom_group out cur a b c hs, ih src _ 0 (sindex + 4)
          (by simp at hsrc; omega) (by simp; omega) (by omega), List.append_assoc]
        rfl
  exact hrun k src [] 0 0 hsrc rfl rfl

end Base64
