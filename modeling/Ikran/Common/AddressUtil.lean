import Ikran.Lib.CString
import Mathlib.Data.Fintype.Pi
import Mathlib.Tactic.FinCases

/-!
# The address utilities

`util_string.c` on `cpr_ip_addr_t`. A read behind the terminator of the text, or behind the buffer of a section, is an
error. The addresses have the byte order of a little-endian machine.
-/

namespace AddressUtil

open CStr

/-- `cpr_ip_addr_t` of type IPv4, or of type IPv6 with `base8`. -/
inductive IpAddr
  | ipv4 (ip4 : UInt32)
  | ipv6 (base8 : Fin 16 → UInt8)

/-- The type is `CPR_IP_ADDR_IPV6`. -/
def IpAddr.isIpv6 : IpAddr → Bool
  | ipv4 _ => false
  | ipv6 _ => true

/-- `base16[i]`. -/
def base16 (base8 : Fin 16 → UInt8) (i : Fin 8) : ℕ :=
  (base8 ⟨2 * i, by omega⟩).toNat + 2 ^ 8 * (base8 ⟨2 * i + 1, by omega⟩).toNat

/-- The numbers between the dots. -/
def dottedSections (ip4 : UInt32) : List ℕ :=
  [((ip4 >>> 24) &&& 0xFF).toNat, ((ip4 >>> 16) &&& 0xFF).toNat, ((ip4 >>> 8) &&& 0xFF).toNat, (ip4 &&& 0xFF).toNat]

/-- `%x`. -/
def hex (n : ℕ) : CStr := Nat.toDigits 16 n

def ipaddr2dotted : IpAddr → CStr
  | .ipv4 ip4 => ['.'].intercalate ((dottedSections ip4).map decimal)
  | .ipv6 base8 => '[' :: ([':'].intercalate (([7, 6, 5, 4, 3, 2, 1, 0].map (base16 base8)).map hex) ++ [']'])

/-- What is read behind its end. -/
inductive Outside
  | addrStr | sectionStr
  deriving DecidableEq

/-- `p++`. There is no text behind the terminator. -/
def advance : CStr → Option CStr
  | [] => none
  | _ :: s => some s

/-- The characters that are copied to `section_str`, and where `p` stands behind them. `*p` is read before `i` is
compared. -/
def sectionChars : ℕ → Option CStr → Except Outside (CStr × CStr)
  | _, none => .error .addrStr
  | 0, some s => .ok ([], s)
  | room + 1, some s =>
    if s.peek = '.' then .ok ([], s)
    else (sectionChars room (advance s)).map fun r => (s.peek :: r.1, r.2)

/-- `atoi (section_str)`, which reads on behind three characters that are part of the number. -/
def atoiSection (sectionStr : CStr) : Except Outside ℤ :=
  if sectionStr.length = 3 ∧ (takeSign (sectionStr.dropWhile isSpace)).2.dropWhile Char.isDigit = [] then
    .error .sectionStr
  else .ok (atoi sectionStr)

/-- The sections that are left, the last of which is shifted by nothing. -/
def sections : ℕ → UInt32 → Option CStr → Except Outside UInt32
  | 0, address, _ => .ok address
  | left + 1, address, p =>
    (sectionChars 3 p).bind fun r => (atoiSection r.1).bind fun v =>
      sections left (address ||| UInt32.ofInt (v * 2 ^ (left * 8))) (advance r.2)

def dotted2ipaddr (addrStr : CStr) : Except Outside UInt32 :=
  if addrStr = [] then .ok (-1)
  else sections 4 0 (some (addrStr.dropWhile fun c => c ∈ [' ', '\t', '\n', '\r']))

/-- `memcmp` of 16 bytes. -/
def memcmp (s t : Fin 16 → UInt8) : ℤ :=
  (((List.finRange 16).map fun i => ((s i).toNat : ℤ) - (t i).toNat).find? (· ≠ 0)).getD 0

/-- `util_compare_ip`. The difference of two IPv6 addresses is made a `boolean`. -/
def utilCompareIp : IpAddr → IpAddr → Bool
  | .ipv4 a, .ipv4 b => a = b
  | .ipv6 a, .ipv6 b => memcmp a b % 2 ^ 8 ≠ 0
  | _, _ => false

def ntohl (a : UInt32) : UInt32 :=
  UInt32.ofNat (a.toNat % 2 ^ 8 * 2 ^ 24 + a.toNat / 2 ^ 8 % 2 ^ 8 * 2 ^ 16 + a.toNat / 2 ^ 16 % 2 ^ 8 * 2 ^ 8 +
    a.toNat / 2 ^ 24)

/-- `util_ntohl` into a second structure, with the bytes that are there. -/
def utilNtohl (out : Fin 16 → UInt8) : IpAddr → IpAddr
  | .ipv4 ip4 => .ipv4 (ntohl ip4)
  | .ipv6 base8 => .ipv6 ((List.finRange 16).foldl (fun out i => Function.update out i.rev (base8 i)) out)

/-- `util_ntohl` in place. -/
def utilNtohlInPlace : IpAddr → IpAddr
  | .ipv4 ip4 => .ipv4 (ntohl ip4)
  | .ipv6 base8 => .ipv6 (((List.finRange 16).take 8).foldl (fun base8 i =>
      Function.update (Function.update base8 i.rev (base8 i)) i (base8 i.rev)) base8)

/-! ## The text tells the address -/

theorem base16_injective : Function.Injective base16 := by
  intro a b h
  have hbytes : ∀ (i : ℕ) (hi : i < 8), a ⟨2 * i, by omega⟩ = b ⟨2 * i, by omega⟩ ∧
      a ⟨2 * i + 1, by omega⟩ = b ⟨2 * i + 1, by omega⟩ := fun i hi => by
    have hword := congrFun h ⟨i, hi⟩
    simp only [base16] at hword
    have ha := (a ⟨2 * i, by omega⟩).toNat_lt
    have hb := (b ⟨2 * i, by omega⟩).toNat_lt
    exact ⟨UInt8.toNat_inj.mp (by omega), UInt8.toNat_inj.mp (by omega)⟩
  funext ⟨j, hj⟩
  obtain ⟨heven, hodd⟩ := hbytes (j / 2) (by omega)
  rcases Nat.mod_two_eq_zero_or_one j with hmod | hmod
  · have hindex : (⟨j, hj⟩ : Fin 16) = ⟨2 * (j / 2), by omega⟩ := Fin.ext (by dsimp only; omega)
    rw [hindex, heven]
  · have hindex : (⟨j, hj⟩ : Fin 16) = ⟨2 * (j / 2) + 1, by omega⟩ := Fin.ext (by dsimp only; omega)
    rw [hindex, hodd]

theorem dottedSections_eq (a : UInt32) : dottedSections a =
    [a.toNat / 2 ^ 24 % 2 ^ 8, a.toNat / 2 ^ 16 % 2 ^ 8, a.toNat / 2 ^ 8 % 2 ^ 8, a.toNat % 2 ^ 8] := by
  have hmask : ∀ n : ℕ, n &&& 0xFF = n % 2 ^ 8 := fun n => Nat.and_two_pow_sub_one_eq_mod n 8
  simp only [dottedSections, UInt32.toNat_and, UInt32.toNat_shiftRight, Nat.shiftRight_eq_div_pow]
  simp [hmask]

theorem dottedSections_injective : Function.Injective dottedSections := by
  intro a b h
  rw [dottedSections_eq, dottedSections_eq] at h
  simp only [List.cons.injEq, and_true] at h
  have ha := a.toNat_lt
  have hb := b.toNat_lt
  exact UInt32.toNat_inj.mp (by omega)

theorem hex_injective : Function.Injective hex := by
  have hdigit : ∀ m < 16, ∀ n < 16, Nat.digitChar m = Nat.digitChar n → m = n := by decide
  intro m
  induction m using Nat.strong_induction_on with
  | _ m ih =>
    intro n h
    rw [hex, hex, Nat.toDigits_eq_if (by decide), Nat.toDigits_eq_if (n := n) (by decide)] at h
    split_ifs at h with hm hn hn
    · exact hdigit m hm n hn (by simpa using h)
    · exact absurd (congrArg List.length h) (by simp [Nat.toDigits_ne_nil])
    · exact absurd (congrArg List.length h) (by simp [Nat.toDigits_ne_nil])
    · obtain ⟨hfront, hlast⟩ := List.append_inj' h rfl
      have hdiv := ih (m / 16) (by omega) hfront
      have hmod := hdigit _ (Nat.mod_lt m (by decide)) _ (Nat.mod_lt n (by decide)) (by simpa using hlast)
      omega

theorem not_mem_hex {c : Char} (hc : ∀ d < 16, c ≠ Nat.digitChar d) (n : ℕ) : c ∉ hex n := by
  induction n using Nat.strong_induction_on with
  | _ n ih =>
    rw [hex, Nat.toDigits_eq_if (by decide)]
    split_ifs with hn
    · simpa using hc n hn
    · have hfront := ih (n / 16) (by omega)
      simpa using ⟨hfront, hc _ (Nat.mod_lt n (by decide))⟩

theorem not_mem_decimal {c : Char} (hc : c.isDigit = false) (n : ℕ) : c ∉ decimal n := fun hmem =>
  absurd (isDigit_of_mem_decimal hmem) (by simp [hc])

/-- A list of texts is told by the text that joins them with a character that is in none. -/
theorem intercalate_map_inj {α : Type} {f : α → CStr} {c : Char} (hf : Function.Injective f) (hc : ∀ a, c ∉ f a)
    {s t : List α} (hs : s ≠ []) (ht : t ≠ []) (h : [c].intercalate (s.map f) = [c].intercalate (t.map f)) :
    s = t := by
  have hsplit : ∀ {u : List α}, u ≠ [] → ([c].intercalate (u.map f)).splitOn c = u.map f := fun hu =>
    List.splitOn_intercalate c (by simpa using fun a _ => hc a) (by simpa using hu)
  have hmap := congrArg (List.splitOn c) h
  rw [hsplit hs, hsplit ht] at hmap
  exact List.map_injective_iff.mpr hf hmap

theorem decimal_injective : Function.Injective decimal := fun m n h => by
  rw [← digitsVal_decimal m, h, digitsVal_decimal]

theorem head_ipaddr2dotted_ipv4 (a : UInt32) : ∃ c s, ipaddr2dotted (.ipv4 a) = c :: s ∧ c.isDigit = true := by
  obtain ⟨c, s, hcs⟩ := List.exists_cons_of_ne_nil (decimal_ne_nil ((a >>> 24) &&& 0xFF).toNat)
  refine ⟨c, s ++ '.' :: ['.'].intercalate ((dottedSections a).tail.map decimal), ?_,
    isDigit_of_mem_decimal (hcs ▸ List.mem_cons_self)⟩
  rw [ipaddr2dotted, dottedSections, List.map_cons, hcs]
  simp

theorem ipaddr2dotted_injective : Function.Injective ipaddr2dotted := by
  have hbracket : ∀ (a : UInt32) (b : Fin 16 → UInt8), ipaddr2dotted (.ipv4 a) ≠ ipaddr2dotted (.ipv6 b) := by
    intro a b h
    obtain ⟨c, s, heq, hdigit⟩ := head_ipaddr2dotted_ipv4 a
    rw [heq] at h
    rw [(List.cons.inj h).1] at hdigit
    exact absurd hdigit (by decide)
  intro p q h
  cases p with
  | ipv4 a =>
    cases q with
    | ipv4 b =>
      exact congrArg _ (dottedSections_injective (intercalate_map_inj decimal_injective
        (not_mem_decimal (by decide)) (by simp [dottedSections]) (by simp [dottedSections]) h))
    | ipv6 b => exact absurd h (hbracket a b)
  | ipv6 a =>
    cases q with
    | ipv4 b => exact absurd h.symm (hbracket b a)
    | ipv6 b =>
      have htext := List.append_cancel_right (List.cons.inj h).2
      have hwords := intercalate_map_inj hex_injective (not_mem_hex (by decide)) (by simp) (by simp) htext
      simp only [List.map_cons, List.map_nil, List.cons.injEq, and_true] at hwords
      refine congrArg _ (base16_injective (funext fun i => ?_))
      fin_cases i <;> simp [hwords]

/-! ## The text is read outside -/

variable {room : ℕ} {s t : CStr}

theorem sectionChars_append (hs : ∀ c ∈ s, c.isDigit = true) (hlen : s.length ≤ room)
    (ht : s.length = room ∨ CStr.peek t = '.') : sectionChars room (some (s ++ t)) = .ok (s, t) := by
  induction s generalizing room with
  | nil =>
    cases room with
    | zero => rfl
    | succ room => rw [List.nil_append, sectionChars, if_pos (ht.resolve_left (by simp))]
  | cons c s ih =>
    obtain ⟨hc, hs⟩ := List.forall_mem_cons.mp hs
    cases room with
    | zero => simp at hlen
    | succ room =>
      have hdot : c ≠ '.' := fun heq => by rw [heq] at hc; exact absurd hc (by decide)
      have hrest := ih hs (Nat.le_of_succ_le_succ hlen) (ht.imp_left Nat.succ.inj)
      rw [List.cons_append, sectionChars, if_neg (show ¬ CStr.peek (c :: (s ++ t)) = '.' from hdot), advance, hrest]
      rfl

/-- A last section that is shorter is read on behind the terminator. -/
theorem sectionChars_error (hs : ∀ c ∈ s, c.isDigit = true) (hlen : s.length < room) :
    sectionChars room (some s) = .error .addrStr := by
  induction s generalizing room with
  | nil =>
    obtain ⟨room, rfl⟩ := Nat.exists_eq_succ_of_ne_zero hlen.ne'
    rw [sectionChars, if_neg (by decide), advance]
    cases room <;> rfl
  | cons c s ih =>
    obtain ⟨hc, hs⟩ := List.forall_mem_cons.mp hs
    obtain ⟨room, rfl⟩ := Nat.exists_eq_succ_of_ne_zero (Nat.ne_zero_of_lt hlen)
    have hdot : c ≠ '.' := fun heq => by rw [heq] at hc; exact absurd hc (by decide)
    rw [sectionChars, if_neg (show ¬ CStr.peek (c :: s) = '.' from hdot), advance, ih hs (Nat.lt_of_succ_lt_succ hlen)]
    rfl

theorem atoiSection_error (hs : ∀ c ∈ s, c.isDigit = true) (hlen : s.length = 3) :
    atoiSection s = .error .sectionStr := by
  have hsign := takeSign_dropWhile_digits (List.ne_nil_of_length_eq_add_one hlen) hs []
  have hdrop : (s ++ []).dropWhile Char.isDigit = [] := List.dropWhile_append_of_pos hs
  rw [List.append_nil] at hsign hdrop
  exact if_pos ⟨hlen, by rw [hsign]; exact hdrop⟩

/-- Each section is read in bounds only if it is followed by a dot and has at most two digits, which the last one is
not. By induction on the sections. -/
theorem sections_error {ds : List ℕ} (hne : ds ≠ []) (hlt : ∀ d ∈ ds, d < 2 ^ 8) (address : UInt32) :
    ∃ e, sections ds.length address (some (['.'].intercalate (ds.map decimal))) = .error e := by
  induction ds generalizing address with
  | nil => exact absurd rfl hne
  | cons d ds ih =>
    obtain ⟨hd, hlt⟩ := List.forall_mem_cons.mp hlt
    have hdigits : ∀ c ∈ decimal d, c.isDigit = true := fun c hc => isDigit_of_mem_decimal hc
    have hle : (decimal d).length ≤ 3 := length_decimal_le (by decide) (by omega)
    rw [List.length_cons, sections]
    cases ds with
    | nil =>
      rw [List.map_singleton, List.intercalate_singleton]
      rcases Nat.lt_or_eq_of_le hle with hshort | hlong
      · exact ⟨_, by rw [sectionChars_error hdigits hshort]; rfl⟩
      · have hread := sectionChars_append (t := []) hdigits hle (.inl hlong)
        rw [List.append_nil] at hread
        exact ⟨.sectionStr, by rw [hread, Except.bind, atoiSection_error hdigits hlong]; rfl⟩
    | cons d' ds =>
      have hread := sectionChars_append (t := '.' :: ['.'].intercalate ((d' :: ds).map decimal)) hdigits hle (.inr rfl)
      rw [List.map_cons, List.map_cons, List.intercalate_cons_cons, List.append_assoc, List.singleton_append,
        ← List.map_cons, hread, Except.bind]
      by_cases hlong : (decimal d).length = 3
      · exact ⟨.sectionStr, by rw [atoiSection_error hdigits hlong]; rfl⟩
      · have hatoi : atoiSection (decimal d) = .ok (atoi (decimal d)) := if_neg fun h => hlong h.1
        obtain ⟨e, he⟩ := ih (by simp) hlt (address ||| UInt32.ofInt (atoi (decimal d) * 2 ^ ((d' :: ds).length * 8)))
        exact ⟨e, by rw [hatoi]; exact he⟩

theorem dotted2ipaddr_error (a : UInt32) : ∃ e, dotted2ipaddr (ipaddr2dotted (.ipv4 a)) = .error e := by
  obtain ⟨c, s, heq, hdigit⟩ := head_ipaddr2dotted_ipv4 a
  have hblank : c ∉ [' ', '\t', '\n', '\r'] := fun hmem => by
    simp only [List.mem_cons, List.not_mem_nil, or_false] at hmem
    rcases hmem with rfl | rfl | rfl | rfl <;> exact absurd hdigit (by decide)
  have hlt : ∀ d ∈ dottedSections a, d < 2 ^ 8 := by
    rw [dottedSections_eq]
    simp only [List.mem_cons, List.not_mem_nil, or_false]
    rintro d (rfl | rfl | rfl | rfl) <;> exact Nat.mod_lt _ (by decide)
  obtain ⟨e, he⟩ := sections_error (by simp [dottedSections]) hlt 0
  refine ⟨e, ?_⟩
  rw [dotted2ipaddr, if_neg (by simp [heq]), heq, List.dropWhile_cons_of_neg (by simpa using hblank), ← heq]
  exact he

/-! ## What agrees -/

theorem memcmp_eq_zero {s t : Fin 16 → UInt8} : memcmp s t % 2 ^ 8 = 0 ↔ s = t := by
  rw [memcmp]
  constructor
  · intro h
    cases hfind : ((List.finRange 16).map fun i => ((s i).toNat : ℤ) - (t i).toNat).find? (· ≠ 0) with
    | none =>
      rw [List.find?_eq_none] at hfind
      funext i
      have hi := hfind _ (List.mem_map_of_mem (List.mem_finRange i))
      exact UInt8.toNat_inj.mp (by simp at hi; omega)
    | some v =>
      rw [hfind, Option.getD_some] at h
      obtain ⟨i, -, rfl⟩ := List.mem_map.mp (List.mem_of_find?_eq_some hfind)
      have hne : ((s i).toNat : ℤ) - (t i).toNat ≠ 0 := by simpa using List.find?_some hfind
      have hs := (s i).toNat_lt
      have ht := (t i).toNat_lt
      omega
  · rintro rfl
    have hnone : ((List.finRange 16).map fun i => ((s i).toNat : ℤ) - (s i).toNat).find? (· ≠ 0) = none := by
      simp
    rw [hnone]
    rfl

theorem toNat_ntohl {a : UInt32} {b₀ b₁ b₂ b₃ : ℕ} (h₀ : b₀ < 2 ^ 8) (h₁ : b₁ < 2 ^ 8) (h₂ : b₂ < 2 ^ 8)
    (h₃ : b₃ < 2 ^ 8) (ha : a.toNat = b₃ * 2 ^ 24 + b₂ * 2 ^ 16 + b₁ * 2 ^ 8 + b₀) :
    (ntohl a).toNat = b₀ * 2 ^ 24 + b₁ * 2 ^ 16 + b₂ * 2 ^ 8 + b₃ := by
  have hbyte₀ : a.toNat % 2 ^ 8 = b₀ := by omega
  have hbyte₁ : a.toNat / 2 ^ 8 % 2 ^ 8 = b₁ := by omega
  have hbyte₂ : a.toNat / 2 ^ 16 % 2 ^ 8 = b₂ := by omega
  have hbyte₃ : a.toNat / 2 ^ 24 = b₃ := by omega
  rw [ntohl, hbyte₀, hbyte₁, hbyte₂, hbyte₃, UInt32.toNat_ofNat']
  omega

theorem ntohl_ntohl (a : UInt32) : ntohl (ntohl a) = a := by
  have ha := a.toNat_lt
  have hmod : ∀ n : ℕ, n % 2 ^ 8 < 2 ^ 8 := fun n => Nat.mod_lt n (by decide)
  have hbytes : a.toNat = a.toNat / 2 ^ 24 % 2 ^ 8 * 2 ^ 24 + a.toNat / 2 ^ 16 % 2 ^ 8 * 2 ^ 16 +
      a.toNat / 2 ^ 8 % 2 ^ 8 * 2 ^ 8 + a.toNat % 2 ^ 8 := by omega
  have honce := toNat_ntohl (hmod _) (hmod _) (hmod _) (hmod _) hbytes
  exact UInt32.toNat_inj.mp ((toNat_ntohl (hmod _) (hmod _) (hmod _) (hmod _) honce).trans hbytes.symm)

theorem utilNtohl_ipv6 (out base8 : Fin 16 → UInt8) : utilNtohl out (.ipv6 base8) = .ipv6 (base8 ∘ Fin.rev) := by
  refine congrArg IpAddr.ipv6 (funext fun i => ?_)
  fin_cases i <;> rfl

theorem utilNtohlInPlace_ipv6 (base8 : Fin 16 → UInt8) : utilNtohlInPlace (.ipv6 base8) = .ipv6 (base8 ∘ Fin.rev) := by
  refine congrArg IpAddr.ipv6 (funext fun i => ?_)
  fin_cases i <;> rfl

/-- The text of an address is read back, in bounds. -/
def DottedAgrees (a : UInt32) : Prop := dotted2ipaddr (ipaddr2dotted (.ipv4 a)) = .ok a

/-- Two addresses compare as equal if they are, and if their texts are. -/
structure CompareAgrees (p q : IpAddr) : Prop where
  same : utilCompareIp p q = true ↔ p = q
  text : p = q ↔ ipaddr2dotted p = ipaddr2dotted q

/-- Turning an address around gives the same in place, and twice gives it back. -/
structure NtohlAgrees (out : Fin 16 → UInt8) (p : IpAddr) : Prop where
  inPlace : utilNtohlInPlace p = utilNtohl out p
  twice : utilNtohl out (utilNtohl out p) = p

theorem compareAgrees_iff {p q : IpAddr} : CompareAgrees p q ↔ ¬ (p.isIpv6 ∧ q.isIpv6) := by
  have htext : p = q ↔ ipaddr2dotted p = ipaddr2dotted q := ipaddr2dotted_injective.eq_iff.symm
  cases p with
  | ipv4 a =>
    refine iff_of_true ⟨?_, htext⟩ (by simp [IpAddr.isIpv6])
    cases q <;> simp [utilCompareIp]
  | ipv6 a =>
    cases q with
    | ipv4 b => exact iff_of_true ⟨by simp [utilCompareIp], htext⟩ (by simp [IpAddr.isIpv6])
    | ipv6 b =>
      refine iff_of_false (fun h => ?_) (by simp [IpAddr.isIpv6])
      have hsame := h.same
      rw [utilCompareIp, decide_eq_true_eq, ne_eq, memcmp_eq_zero, IpAddr.ipv6.injEq] at hsame
      exact not_iff_self hsame

theorem ntohlAgrees (out : Fin 16 → UInt8) (p : IpAddr) : NtohlAgrees out p := by
  cases p with
  | ipv4 a => exact ⟨rfl, congrArg _ (ntohl_ntohl a)⟩
  | ipv6 base8 =>
    refine ⟨by rw [utilNtohl_ipv6, utilNtohlInPlace_ipv6], ?_⟩
    rw [utilNtohl_ipv6, utilNtohl_ipv6]
    exact congrArg _ (funext fun i => congrArg base8 i.rev_rev)

/-- **Which of the address utilities agree.** Each dotted text is read outside, two IPv6 addresses compare the wrong
way, and the byte order is always turned around. -/
theorem utilities_agree_iff (a : UInt32) (p q : IpAddr) (out : Fin 16 → UInt8) :
    ¬ DottedAgrees a ∧ (CompareAgrees p q ↔ ¬ (p.isIpv6 ∧ q.isIpv6)) ∧ NtohlAgrees out p := by
  refine ⟨fun h => ?_, compareAgrees_iff, ntohlAgrees out p⟩
  obtain ⟨e, he⟩ := dotted2ipaddr_error a
  rw [DottedAgrees, he] at h
  cases h

/-- The last section of `1.2.3.4` is read behind the terminator, and an IPv6 address does not compare as equal to
itself. -/
theorem not_utilities_agree : ¬ DottedAgrees 0x01020304 ∧ ¬ CompareAgrees (.ipv6 fun _ => 0) (.ipv6 fun _ => 0) :=
  ⟨by unfold DottedAgrees; decide +kernel, fun h => absurd (h.same.mpr rfl) (by decide)⟩

end AddressUtil
