import Ikran.Sdp.Base64Buffer

/-!
# Encoding and decoding with the library's own sizes

`base64_est_encode_size_bytes` counts a line feed for every 76 bytes of the data, and `base64_encode` writes one
behind every 76 characters, which are 57 bytes. So the estimate is too small for most data of 58 bytes or more.
-/

namespace Base64.Buffer

/-- `base64_est_encode_size_bytes` -/
def estEncodeSizeBytes (rawSizeBytes : ℕ) : ℕ :=
  ((rawSizeBytes * 4 + 2) / 3 + 3) / 4 * 4 + rawSizeBytes / maxLineLength

/-- `base64_est_decode_size_bytes` -/
def estDecodeSizeBytes (base64SizeBytes : ℕ) : ℕ :=
  (base64SizeBytes * 3 + 3) / 4

def toBytes (text : CStr) : List UInt8 :=
  text.map fun c => UInt8.ofNat c.toNat

/-- Data is encoded into a buffer of the estimated size, and what is written is decoded to it, into a destination
of just its size and into one of the estimated size. -/
def RoundTrips (src : List UInt8) : Prop :=
  ∃ text, encode (estEncodeSizeBytes src.length) src = some text ∧
    ∀ (beyond : UInt8 → UInt8) (dest : ℕ → UInt8) (size : ℕ),
      size = src.length ∨ size = estDecodeSizeBytes text.length →
      (decode beyond size dest (toBytes text) text.length).result = .success ∧
      (decode beyond size dest (toBytes text) text.length).bytes = src

/-! ## What the encoder writes -/

/-- What the encoder writes, with some characters on the line, where there is room. -/
def encText : ℕ → List UInt8 → CStr
  | _, [] => []
  | lineCount, [a] => lineFeed lineCount ++ (encodeGroup a 0 0).take 2 ++ ['=', '=']
  | lineCount, [a, b] => lineFeed lineCount ++ (encodeGroup a b 0).take 3 ++ ['=']
  | lineCount, a :: b :: c :: src => lineFeed lineCount ++ encodeGroup a b c ++ encText (lineStart lineCount + 4) src

/-- The encoder writes its text where there is room, and fails elsewhere. -/
theorem encodeFrom_eq (dmax lineCount j : ℕ) (src : List UInt8) : encodeFrom dmax lineCount j src =
      if src = [] ∨ j + (encText lineCount src).length ≤ dmax then some (encText lineCount src) else none := by
  fun_induction encText lineCount src generalizing j with
  | case1 lineCount => rfl
  | case2 lineCount a =>
    rw [encodeFrom]
    simp only [encodeGroup, List.take, List.length_append, List.length_cons, List.length_nil]
    split_ifs with h h' h' <;> first | rfl | (simp at h'; omega)
  | case3 lineCount a b =>
    rw [encodeFrom]
    simp only [encodeGroup, List.take, List.length_append, List.length_cons, List.length_nil]
    split_ifs with h h' h' <;> first | rfl | (simp at h'; omega)
  | case4 lineCount a b c src ih =>
    have hlen : (encodeGroup a b c).length = 4 := rfl
    rw [encodeFrom, ih]
    simp only [List.length_append, hlen, List.cons_ne_nil, false_or]
    have hnil : src = [] → (encText (lineStart lineCount + 4) src).length = 0 := by
      rintro rfl
      rfl
    by_cases hroom : dmax ≤ j + (lineFeed lineCount).length + 3
    · rw [if_pos hroom, if_neg (by omega)]
    · rw [if_neg hroom]
      by_cases hrest : src = [] ∨
          j + (lineFeed lineCount).length + 4 + (encText (lineStart lineCount + 4) src).length ≤ dmax
      · have htotal :
            j + ((lineFeed lineCount).length + 4 + (encText (lineStart lineCount + 4) src).length) ≤ dmax := by
          rcases hrest with hsrc | hle
          · have := hnil hsrc
            omega
          · omega
        rw [if_pos hrest, if_pos htotal, Option.map_some]
      · rw [not_or] at hrest
        rw [if_neg (not_or.mpr hrest), if_neg (by omega), Option.map_none]

theorem length_encText (k : ℕ) (hk : k ≤ 19) (src : List UInt8) : (encText (4 * k) src).length =
      4 * ((src.length + 2) / 3) + if src = [] then 0 else (k + (src.length + 2) / 3 - 1) / 19 := by
  have hfeed : ∀ {k}, k ≤ 19 → (lineFeed (4 * k)).length = if k = 19 then 1 else 0 := by
    intro k hk
    rw [lineFeed, maxLineLength]
    split_ifs <;> first | rfl | omega
  have hstart : ∀ {k}, k ≤ 19 → lineStart (4 * k) + 4 = 4 * ((if k = 19 then 0 else k) + 1) := by
    intro k hk
    rw [lineStart, maxLineLength]
    split_ifs <;> omega
  obtain _ | ⟨a, _ | ⟨b, _ | ⟨c, src⟩⟩⟩ := src
  · simp [encText]
  · simp only [encText, encodeGroup, List.take, List.length_append, hfeed hk, List.length_cons, List.length_nil]
    split_ifs <;> simp at * <;> omega
  · simp only [encText, encodeGroup, List.take, List.length_append, hfeed hk, List.length_cons, List.length_nil]
    split_ifs <;> simp at * <;> omega
  · have hlen : (encodeGroup a b c).length = 4 := rfl
    have hnext : (if k = 19 then 0 else k) + 1 ≤ 19 := by split_ifs <;> omega
    rw [encText, List.length_append, List.length_append, hlen, hfeed hk, hstart hk,
      length_encText _ hnext src, if_neg (List.cons_ne_nil _ _)]
    simp only [List.length_cons]
    cases src with
    | nil =>
      simp only [List.length_nil, if_true]
      split_ifs <;> omega
    | cons x src =>
      simp only [List.cons_ne_nil, if_false, List.length_cons]
      split_ifs <;> omega

/-! ## Its values -/

def groupValues (a b c : UInt8) : List UInt8 :=
  [(a >>> 2) &&& (0x3F : UInt8),
    (((a <<< 4) &&& (0x30 : UInt8)) ||| ((b >>> 4) &&& (0x0F : UInt8))) &&& (0x3F : UInt8),
    (((b <<< 2) &&& (0x3C : UInt8)) ||| ((c >>> 6) &&& (0x03 : UInt8))) &&& (0x3F : UInt8),
    (c &&& (0x3F : UInt8)) &&& (0x3F : UInt8)]

/-- The values of the characters that data is encoded to. -/
def sextets : List UInt8 → List UInt8
  | a :: b :: c :: src => groupValues a b c ++ sextets src
  | [a, b] => (groupValues a b 0).take 3
  | [a] => (groupValues a 0 0).take 2
  | [] => []

theorem bytesOf_sextets (src : List UInt8) : bytesOf (sextets src) = src := by
  match src with
  | [] => rfl
  | [a] =>
    simp only [sextets, groupValues, List.take, bytesOf, byte1]
    rw [first_byte]
  | [a, b] =>
    simp only [sextets, groupValues, List.take, bytesOf, byte1, byte2]
    rw [first_byte, second_byte]
  | a :: b :: c :: src =>
    simp only [sextets, groupValues, List.cons_append, List.nil_append, bytesOf, byte1, byte2, byte3]
    rw [first_byte, second_byte, third_byte, bytesOf_sextets src]

theorem sextet_rawToBase64 (i : UInt8) : sextet (UInt8.ofNat (rawToBase64 i).toNat) = some (i &&& (0x3F : UInt8)) := by
  have hall : ∀ k : Fin 64,
      sextet (UInt8.ofNat (rawToBase64Table.getD k.val '=').toNat) = some (UInt8.ofNat k.val) := by
    decide +kernel
  have hlt : (i &&& (0x3F : UInt8)).toNat < 64 := by
    rw [UInt8.toNat_and]
    exact Nat.lt_of_le_of_lt Nat.and_le_right (by decide)
  have h := hall ⟨_, hlt⟩
  rw [UInt8.ofNat_toNat] at h
  exact h

def paddingOf (src : List UInt8) : List UInt8 :=
  if src.length % 3 = 1 then [equals, equals] else if src.length % 3 = 2 then [equals] else []

theorem lineFeed_spec (lineCount : ℕ) :
    Plain (toBytes (lineFeed lineCount)) ∧ values (toBytes (lineFeed lineCount)) = [] := by
  rw [lineFeed]
  split_ifs
  · exact ⟨fun c hc => .inr (List.mem_singleton.mp hc ▸ by decide), by decide⟩
  · exact ⟨fun _ hc => absurd hc List.not_mem_nil, rfl⟩

theorem encodeGroup_spec (a b c : UInt8) : (∀ x ∈ toBytes (encodeGroup a b c), (sextet x).isSome) ∧
      (toBytes (encodeGroup a b c)).map sextet = (groupValues a b c).map some := by
  have hmap : (toBytes (encodeGroup a b c)).map sextet = (groupValues a b c).map some := by
    simp only [toBytes, encodeGroup, List.map, sextet_rawToBase64, groupValues]
  refine ⟨fun x hx => ?_, hmap⟩
  have hmem : sextet x ∈ (groupValues a b c).map some := hmap ▸ List.mem_map_of_mem hx
  obtain ⟨v, -, hv⟩ := List.mem_map.mp hmem
  rw [← hv]
  rfl

theorem values_take (a b c : UInt8) (n : ℕ) : Plain (toBytes ((encodeGroup a b c).take n)) ∧
      values (toBytes ((encodeGroup a b c).take n)) = (groupValues a b c).take n := by
  obtain ⟨hsome, hmap⟩ := encodeGroup_spec a b c
  have htake : toBytes ((encodeGroup a b c).take n) = (toBytes (encodeGroup a b c)).take n := List.map_take
  rw [htake]
  refine ⟨fun x hx => .inl (hsome x (List.mem_of_mem_take hx)), ?_⟩
  have hvalues : ∀ text, values text = (text.map sextet).filterMap id := by
    intro text
    rw [List.filterMap_map]
    rfl
  rw [hvalues, List.map_take, hmap, ← List.map_take, List.filterMap_map]
  exact List.filterMap_some

theorem values_append (text text' : List UInt8) : values (text ++ text') = values text ++ values text' :=
  List.filterMap_append

theorem Plain.append {text text' : List UInt8} (h : Plain text) (h' : Plain text') : Plain (text ++ text') :=
  fun c hc => (List.mem_append.mp hc).elim (h c) (h' c)

/-- What stands in front of the padding of some data. -/
structure Body (src body : List UInt8) : Prop where
  plain : Plain body
  values : values body = sextets src
  last : src.length % 3 ≠ 0 → ∃ front c v, body = front ++ [c] ∧ sextet c = some v ∧
    (if src.length % 3 = 1 then v &&& 0x0F else v &&& 0x03) = 0

theorem leftover_eq_zero (a : UInt8) :
    ((((a <<< 4) &&& (0x30 : UInt8)) ||| (((0 : UInt8) >>> 4) &&& (0x0F : UInt8))) &&& (0x3F : UInt8)) &&& 0x0F = 0 ∧
      ((((a <<< 2) &&& (0x3C : UInt8)) ||| (((0 : UInt8) >>> 6) &&& (0x03 : UInt8))) &&& (0x3F : UInt8)) &&& 0x03 =
        0 := by
  constructor <;>
  · apply UInt8.toBitVec_inj.mp
    ext i hi
    rcases bit_cases hi with rfl | rfl | rfl | rfl | rfl | rfl | rfl | rfl <;> simp

theorem toBytes_encText (lineCount : ℕ) (src : List UInt8) :
    ∃ body, toBytes (encText lineCount src) = body ++ paddingOf src ∧ Body src body := by
  fun_induction encText lineCount src with
  | case1 => exact ⟨[], rfl, fun _ hc => absurd hc List.not_mem_nil, rfl, fun hne => absurd rfl hne⟩
  | case2 lineCount a =>
    obtain ⟨hfeed, hnone⟩ := lineFeed_spec lineCount
    obtain ⟨hplain, hvalues⟩ := values_take a 0 0 2
    refine ⟨toBytes (lineFeed lineCount) ++ toBytes ((encodeGroup a 0 0).take 2), ?_, hfeed.append hplain, ?_,
      fun _ => ⟨toBytes (lineFeed lineCount) ++ toBytes ((encodeGroup a 0 0).take 1), _, _, ?_,
        sextet_rawToBase64 (((a <<< 4) &&& (0x30 : UInt8)) ||| (((0 : UInt8) >>> 4) &&& (0x0F : UInt8))),
        (leftover_eq_zero a).1⟩⟩
    · simp only [toBytes, List.map_append]
      rfl
    · rw [values_append, hnone, hvalues]
      rfl
    · rw [List.append_assoc]
      rfl
  | case3 lineCount a b =>
    obtain ⟨hfeed, hnone⟩ := lineFeed_spec lineCount
    obtain ⟨hplain, hvalues⟩ := values_take a b 0 3
    refine ⟨toBytes (lineFeed lineCount) ++ toBytes ((encodeGroup a b 0).take 3), ?_, hfeed.append hplain, ?_,
      fun _ => ⟨toBytes (lineFeed lineCount) ++ toBytes ((encodeGroup a b 0).take 2), _, _, ?_,
        sextet_rawToBase64 (((b <<< 2) &&& (0x3C : UInt8)) ||| (((0 : UInt8) >>> 6) &&& (0x03 : UInt8))),
        (leftover_eq_zero b).2⟩⟩
    · simp only [toBytes, List.map_append]
      rfl
    · rw [values_append, hnone, hvalues]
      rfl
    · rw [List.append_assoc]
      rfl
  | case4 lineCount a b c src ih =>
    obtain ⟨body, htext, hbody⟩ := ih
    obtain ⟨hfeed, hnone⟩ := lineFeed_spec lineCount
    obtain ⟨hplain, hgroup⟩ := values_take a b c 4
    have hmod : (a :: b :: c :: src).length % 3 = src.length % 3 := by
      simp only [List.length_cons]
      omega
    have hpad : paddingOf (a :: b :: c :: src) = paddingOf src := by
      simp only [paddingOf, hmod]
    refine ⟨toBytes (lineFeed lineCount) ++ toBytes (encodeGroup a b c) ++ body, ?_,
      (hfeed.append hplain).append hbody.plain, ?_, fun hne => ?_⟩
    · rw [hpad, List.append_assoc _ body, ← htext]
      simp only [toBytes, List.map_append]
    · rw [values_append, values_append, hnone, hbody.values, sextets]
      exact congrArg (· ++ _) hgroup
    · obtain ⟨front, x, v, hfront, hx, hzero⟩ := hbody.last (hmod ▸ hne)
      refine ⟨toBytes (lineFeed lineCount) ++ toBytes (encodeGroup a b c) ++ front, x, v, ?_, hx, ?_⟩
      · rw [hfront, ← List.append_assoc]
      · simpa only [hmod] using hzero

theorem length_sextets (src : List UInt8) :
    (sextets src).length = 4 * (src.length / 3) + if src.length % 3 = 0 then 0 else src.length % 3 + 1 := by
  match src with
  | [] => rfl
  | [a] => simp [sextets, groupValues]
  | [a, b] => simp [sextets, groupValues]
  | a :: b :: c :: src =>
    rw [sextets, List.length_append, length_sextets src]
    simp only [groupValues, List.length_cons, List.length_nil]
    rw [show (src.length + 1 + 1 + 1) % 3 = src.length % 3 by omega]
    omega

/-! ## Decoding it -/

variable {beyond : UInt8 → UInt8} {size : ℕ} {src : List UInt8}

theorem length_sextets_cases (src : List UInt8) :
    src.length % 3 = 0 ∧ (sextets src).length % 4 = 0 ∧ 3 * (sextets src).length / 4 = src.length ∨
    src.length % 3 = 1 ∧ (sextets src).length % 4 = 2 ∧ 3 * (sextets src).length / 4 = src.length ∨
    src.length % 3 = 2 ∧ (sextets src).length % 4 = 3 ∧ 3 * (sextets src).length / 4 = src.length := by
  rw [length_sextets]
  split_ifs <;> omega

theorem decode_paddingOf {i : ℕ} {d : Decoder} (hbytes : (List.range d.j).map d.dest = src) :
    (decodeFrom beyond size i d (paddingOf src)).result = .success ∧
      (decodeFrom beyond size i d (paddingOf src)).bytes = src := by
  have hj : d.j = src.length := by
    rw [← hbytes, List.length_map, List.length_range]
  rw [paddingOf]
  split_ifs with hone htwo
  · have hraw : toRaw beyond equals = padding := rfl
    rw [decodeFrom_equals, decodePadding, if_neg (not_not.mpr hraw), if_neg (not_not.mpr rfl)]
    have hmod : (d.j + 2) % 3 = 0 := by omega
    obtain ⟨hsuccess, hresult⟩ := finish_of_mod
      (d := ((d.read [.src i]).read [.table 61]).read [.src (i + 1), .table equals.toNat]) hmod
    exact ⟨hsuccess, hresult.trans hbytes⟩
  · rw [decodeFrom_equals, decodePadding]
    have hmod : (d.j + 1) % 3 = 0 := by omega
    obtain ⟨hsuccess, hresult⟩ := finish_of_mod (d := (d.read [.src i]).read [.table 61]) hmod
    exact ⟨hsuccess, hresult.trans hbytes⟩
  · rw [decodeFrom]
    obtain ⟨hsuccess, hresult⟩ := finish_of_mod (d := d) (k := 0) (by omega)
    exact ⟨hsuccess, hresult.trans hbytes⟩

/-- A text whose padding fits it is decoded, into any destination that is not smaller than the data. -/
theorem decode_padded {body : List UInt8} (h : Body src body) (dest : ℕ → UInt8) (hsize : src.length ≤ size) :
    (decodeFrom beyond size 0 { dest } (body ++ paddingOf src)).result = .success ∧
      (decodeFrom beyond size 0 { dest } (body ++ paddingOf src)).bytes = src := by
  have hused : ({ dest } : Decoder).Used [] := ⟨rfl, rfl, fun hne => absurd rfl hne⟩
  have hcases := length_sextets_cases src
  by_cases hfits : Fits size (sextets src).length
  · have hroom : Fits size ([] ++ values body).length := by rwa [List.nil_append, h.values]
    obtain ⟨d', hrun, hused', -⟩ := decodeFrom_append beyond 0 body (paddingOf src) h.plain hused hroom
    have hbytes := hused'.bytes
    rw [List.nil_append, h.values, bytesOf_sextets] at hbytes
    rw [hrun]
    exact decode_paddingOf hbytes
  · -- the last character fills the destination, and the padding is looked at
    rw [Fits] at hfits
    obtain ⟨front, c, v, rfl, hc, hzero⟩ := h.last (by omega)
    have hvalues : values front ++ [v] = sextets src := by
      rw [← h.values, values_append]
      simp [values, hc]
    have hlen : (values front).length + 1 = (sextets src).length := by
      rw [← hvalues, List.length_append, List.length_singleton]
    have hfront : Fits size ([] ++ values front).length := by
      rw [List.nil_append, Fits]
      omega
    obtain ⟨d', hrun, hused', -⟩ := decodeFrom_append beyond 0 front (c :: paddingOf src)
      (fun x hx => h.plain x (List.mem_append_left _ hx)) hused hfront
    rw [List.nil_append] at hused' hfront
    rw [List.append_assoc, List.singleton_append, hrun, decodeFrom_sextet hc]
    have hnext : ¬Fits size ((values front).length + 1) := by
      rw [Fits]
      omega
    have hahead : ∀ d : Decoder, ∃ as, lookAhead beyond (0 + front.length) 0 d (paddingOf src) = (d.read as, true) := by
      intro d
      rw [paddingOf]
      split_ifs
      · exact ⟨_, rfl⟩
      · exact ⟨_, rfl⟩
      · omega
    rcases store_of_not_fits beyond (0 + front.length) v (paddingOf src) ((hused'.read _).read _) hfront hnext with
      ⟨hzero', -⟩ | ⟨x, hmod, -, -, hbytes, hstore⟩
    · omega
    · have hbits : (if (values front).length % 4 = 1 then v &&& 0x0F else v &&& 0x03) = 0 := by
        by_cases hone : src.length % 3 = 1
        · rw [if_pos hone] at hzero
          rw [if_pos (by omega), hzero]
        · rw [if_neg hone] at hzero
          rw [if_neg (by omega), hzero]
      obtain ⟨as, has⟩ := hahead ((((d'.read [.src (0 + front.length)]).read [.table c.toNat])).fill x)
      rw [hstore, hbits, has]
      rw [hvalues, bytesOf_sextets] at hbytes
      exact decode_paddingOf hbytes

/-- **Data makes the round trip** exactly when the estimate counts all the line feeds: one for every nineteen groups
behind the first one, where it counts one for every 76 bytes. -/
theorem encode_roundTrips_iff (src : List UInt8) :
    RoundTrips src ↔ ((src.length + 2) / 3 - 1) / 19 ≤ src.length / maxLineLength := by
  have hlen := length_encText 0 (by decide) src
  have hest : ((src.length * 4 + 2) / 3 + 3) / 4 = (src.length + 2) / 3 := by omega
  rw [Nat.mul_zero] at hlen
  constructor
  · rintro ⟨text, htext, -⟩
    by_cases hnil : src = []
    · rw [hnil]
      decide
    · rw [encode, encodeFrom_eq] at htext
      split_ifs at htext with hroom
      rw [or_iff_right hnil, hlen, if_neg hnil, estEncodeSizeBytes, hest] at hroom
      omega
  · intro hroom
    refine ⟨encText 0 src, ?_, fun beyond dest size hsize => ?_⟩
    · rw [encode, encodeFrom_eq, if_pos]
      by_cases hnil : src = []
      · exact .inl hnil
      · rw [hlen, if_neg hnil, estEncodeSizeBytes, hest]
        exact .inr (by omega)
    · obtain ⟨body, htext, hbody⟩ := toBytes_encText 0 src
      have htake : (toBytes (encText 0 src)).take (encText 0 src).length = body ++ paddingOf src := by
        rw [← htext]
        exact List.take_of_length_le (by rw [toBytes, List.length_map])
      rw [decode, htake]
      refine decode_padded hbody dest ?_
      rcases hsize with rfl | rfl
      · exact le_rfl
      · rw [estDecodeSizeBytes, hlen]
        omega

/-- Data of 58 bytes does not fit the buffer of the estimated size. -/
theorem not_roundTrips : ¬∀ src, RoundTrips src := by
  intro h
  obtain ⟨text, htext, -⟩ := h (List.replicate 58 0)
  have hnone : encode (estEncodeSizeBytes (List.replicate 58 (0 : UInt8)).length) (List.replicate 58 0) = none := by
    decide +kernel
  exact (nomatch hnone.symm.trans htext)
end Base64.Buffer
