import Ikran.Lib.CString
import Mathlib.Data.UInt

/-!
# Host names

The check of a host name or an IP address, of `ccsip_spi_utils.c` and `misc.c`. The test for an IPv6
address, `cpr_inet_pton`, belongs to the platform; it is the parameter `inetPton6`.
-/

namespace Sip

open CStr

section

variable (inetPton6 : CStr → Bool)

/-- The variables of the loop of `IPNameCk`. The digits are those that `string` holds, of which the
first `x` are of the present number. -/
structure Ipv4Loop where
  string : CStr := []
  i : ℕ := 0
  ipAddr : UInt32 := 0

/-- The loop of `IPNameCk`; there is no result when the text is no IPv4 address. -/
def ipNameLoop : CStr → Ipv4Loop → Option Ipv4Loop
  | [], l => some l
  | c :: s, l =>
    if c.isDigit then
      if 2 < l.string.length then none else ipNameLoop s { l with string := l.string ++ [c] }
    else if c = '.' then
      if 3 < l.i then none
      else if 255 < atoi l.string then none
      else
        ipNameLoop s
          { string := [], i := l.i + 1
            ipAddr := l.ipAddr ||| (UInt32.ofInt (atoi l.string) <<< UInt32.ofNat (24 - l.i * 8)) }
    else none

/-- `ntohl` on a machine with the low byte first. -/
def ntohl (n : UInt32) : UInt32 :=
  (n <<< 24) ||| ((n &&& (0xff00 : UInt32)) <<< 8) ||| ((n >>> 8) &&& (0xff00 : UInt32)) ||| (n >>> 24)

/-- `IPNameCk`: the address, and `*addr_error`. -/
def ipNameCk (name : CStr) : UInt32 × Bool :=
  if inetPton6 name then (1, false)
  else
    match ipNameLoop name {} with
    | none => (0, true)
    | some l =>
      if l.i = 3 then
        if 255 < atoi l.string then (0, true)
        else (ntohl (l.ipAddr ||| UInt32.ofInt (atoi l.string)), false)
      else (0, true)

def sipSPICheckDomainToken (token : CStr) : Bool :=
  token.getLast?.all Char.isAlphanum && token.peek.isAlphanum &&
    token.all fun c => c.isAlphanum || c = '-'

def sipSPIValidateHostname (str : CStr) : Bool :=
  inetPton6 str ||
    (str.getLast?.all Char.isAlphanum && str.peek.isAlphanum &&
      match strtokAll "." str with
      | [] => false
      | toks => toks.all sipSPICheckDomainToken)

def sipSPIValidateIpAddrName (str : CStr) : Bool :=
  let (sipAddress, addrError) := ipNameCk inetPton6 str
  if sipAddress = 0 ∧ addrError then true else sipSPIValidateHostname inetPton6 str

/-- Everything passes that is not read as an IPv4 address, and such an address must pass as a host
name. -/
theorem sipSPIValidateIpAddrName_eq (str : CStr) : sipSPIValidateIpAddrName inetPton6 str =
      ((ipNameCk inetPton6 str).2 || sipSPIValidateHostname inetPton6 str) := by
  have herror : (ipNameCk inetPton6 str).2 = true → (ipNameCk inetPton6 str).1 = 0 := by
    unfold ipNameCk
    split_ifs
    · exact nofun
    · split
      · exact fun _ => rfl
      · split_ifs
        · exact fun _ => rfl
        · exact nofun
        · exact fun _ => rfl
  unfold sipSPIValidateIpAddrName
  rcases hck : ipNameCk inetPton6 str with ⟨sipAddress, _ | _⟩
  · simp
  · rw [hck] at herror
    have hzero : sipAddress = 0 := herror rfl
    simp [hzero]

theorem validate_of_mem {str : CStr} {c : Char} (hc : c ∈ str) (hdigit : c.isDigit = false)
    (hdot : c ≠ '.') : sipSPIValidateIpAddrName inetPton6 str = true := by
  rw [sipSPIValidateIpAddrName_eq, Bool.or_eq_true]
  have hloop : ∀ (s : CStr) (l : Ipv4Loop), c ∈ s → ipNameLoop s l = none := by
    intro s
    induction s with
    | nil => exact fun _ hmem => nomatch hmem
    | cons d s ih =>
      intro l hmem
      rw [ipNameLoop]
      rcases List.mem_cons.mp hmem with rfl | hmem
      · rw [hdigit, if_neg (by decide), if_neg hdot]
      · split_ifs
        · rfl
        · exact ih _ hmem
        · rfl
        · rfl
        · exact ih _ hmem
        · rfl
  by_cases hpton : inetPton6 str = true
  · exact Or.inr (by simp [sipSPIValidateHostname, hpton])
  · refine Or.inl ?_
    rw [ipNameCk, if_neg hpton, hloop str {} hc]

end

end Sip
