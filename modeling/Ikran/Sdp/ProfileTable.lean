import Ikran.Sdp.ParseAttr

/-!
# The table of AAL2 profiles

`sdp_parse_multiple_profile_payload_types` with the arrays of `sdp_media_profiles_t` it fills, and every
access to the three arrays that have one entry for each of `SDP_MAX_PROFILES` profiles. The array of the
profiles themselves has one entry more.

The values behind the end of `num_payloads` are a parameter.
-/

namespace Sdp

open CStr

/-! ## The table -/

/-- An access to one of the arrays that have `SDP_MAX_PROFILES` entries. -/
inductive ProfileAccess
  | numPayloads (i : ℕ)
  | payloadIndicator (i j : ℕ)
  | payloadType (i j : ℕ)
  deriving DecidableEq

def ProfileAccess.profile : ProfileAccess → ℕ
  | numPayloads i => i
  | payloadIndicator i _ => i
  | payloadType i _ => i

/-- `sdp_media_profiles_t`, with the variables `prof` and `payload` of the parser and the accesses made
so far. -/
structure ProfileTable where
  numProfiles : ℕ
  profile : ℕ → Transport
  numPayloads : ℕ → ℕ
  payloadType : ℕ → ℕ → UInt16
  prof : ℕ
  payload : ℕ
  accesses : List ProfileAccess

def namesProfile (tok : CStr) : Bool := (findName Transport.aal2 Transport.name tok).isSome

namespace ProfileTable

/-- The table with the transport of the line as its first profile. -/
def start (beyond : ℕ → ℕ) (transport : Transport) : ProfileTable where
  numProfiles := 1
  profile := fun _ => transport
  numPayloads := fun i => if i < maxProfiles then 0 else beyond i
  payloadType := fun _ _ => 0
  prof := 0
  payload := 0
  accesses := [.numPayloads 0]

def addProfile (t : ProfileTable) (p : Transport) : ProfileTable :=
  let prof := t.prof + 1
  let t := { t with profile := Function.update t.profile prof p, payload := 0, prof,
                    numProfiles := t.numProfiles + 1 }
  if prof < maxProfiles then
    { t with numPayloads := Function.update t.numPayloads prof 0,
             accesses := t.accesses ++ [.numPayloads prof] }
  else t

/-- A token that is no name of a profile. The value of a token that is no number is stored too, in a
place that is not counted. -/
def addPayload (t : ProfileTable) (tok : CStr) : ProfileTable :=
  if maxPayloadTypes ≤ t.payload then t
  else if t.prof < maxProfiles then
    let row := Function.update (t.payloadType t.prof) t.payload (numVal tok).1.toUInt16
    let t := { t with payloadType := Function.update t.payloadType t.prof row,
                      accesses := t.accesses ++ [.payloadType t.prof t.payload] }
    if (numVal tok).2 then
      { t with numPayloads := Function.update t.numPayloads t.prof (t.numPayloads t.prof + 1),
               payload := t.payload + 1,
               accesses := t.accesses ++ [.payloadIndicator t.prof t.payload, .numPayloads t.prof] }
    else t
  else t

/-- `profile[prof+1]` is written before it is known whether the token names a profile. -/
def markNext (t : ProfileTable) : ProfileTable :=
  { t with profile := Function.update t.profile (t.prof + 1) .unsupported }

def step (t : ProfileTable) (tok : CStr) : ProfileTable :=
  if t.prof < maxProfiles then
    match findName Transport.aal2 Transport.name tok with
    | some p => t.markNext.addProfile p
    | none => t.markNext.addPayload tok
  else t.addPayload tok

/-- The loop that looks for profiles without payloads. -/
def check (t : ProfileTable) : ProfileTable :=
  { t with accesses := t.accesses ++ (List.range t.numProfiles).map .numPayloads }

/-- The accesses that `sdp_build_media` makes: the number of the payloads is read in front of each of them
and behind the last one. -/
def buildAccesses (t : ProfileTable) : List ProfileAccess :=
  (List.range t.numProfiles).flatMap fun i =>
    (List.range (t.numPayloads i)).flatMap (fun j => [.numPayloads i, .payloadType i j]) ++
      [.numPayloads i]

/-- Every access is inside the arrays, and the counts are within their bounds. -/
structure Bounded (t : ProfileTable) : Prop where
  numProfiles : t.numProfiles ≤ maxProfiles
  numPayloads : ∀ i < maxProfiles, t.numPayloads i ≤ maxPayloadTypes
  accesses : ∀ a ∈ t.accesses, a.profile < maxProfiles
  buildAccesses : ∀ a ∈ t.buildAccesses, a.profile < maxProfiles

end ProfileTable

/-- `sdp_parse_multiple_profile_payload_types` on the tokens of a line. -/
def parseProfileTable (beyond : ℕ → ℕ) (transport : Transport) (toks : List CStr) : ProfileTable :=
  (toks.foldl ProfileTable.step (.start beyond transport)).check

/-! ## What one token does -/

namespace ProfileTable

/-- What holds of the table while tokens are read. -/
structure Inv (t : ProfileTable) : Prop where
  counted : t.numProfiles = t.prof + 1
  prof_le : t.prof ≤ maxProfiles
  full : ∀ i < maxProfiles, t.numPayloads i ≤ maxPayloadTypes
  current : t.prof < maxProfiles → t.payload = t.numPayloads t.prof
  accesses : ∀ a ∈ t.accesses, a.profile < maxProfiles

theorem Inv.start (beyond : ℕ → ℕ) (transport : Transport) : (start beyond transport).Inv where
  counted := rfl
  prof_le := Nat.zero_le _
  full i hi := by
    simp only [ProfileTable.start, if_pos hi]
    exact Nat.zero_le _
  current _ := rfl
  accesses a ha := by
    obtain rfl := List.mem_singleton.mp ha
    exact show 0 < maxProfiles by decide

variable {t : ProfileTable}

theorem Inv.addProfile (h : t.Inv) (hprof : t.prof < maxProfiles) (p : Transport) : (t.addProfile p).Inv := by
  by_cases hlt : t.prof + 1 < maxProfiles
  · simp only [ProfileTable.addProfile, if_pos hlt]
    refine ⟨by simp only [h.counted], hprof, fun i hi => ?_, fun _ => ?_, fun a ha => ?_⟩
    · rcases eq_or_ne i (t.prof + 1) with rfl | hne
      · simp
      · simpa [Function.update_of_ne hne] using h.full i hi
    · simp
    · rcases List.mem_append.mp ha with ha | ha
      · exact h.accesses a ha
      · obtain rfl := List.mem_singleton.mp ha
        exact hlt
  · simp only [ProfileTable.addProfile, if_neg hlt]
    exact ⟨by simp only [h.counted], hprof, h.full, fun hnot => absurd hnot hlt, h.accesses⟩

theorem Inv.addPayload (h : t.Inv) (tok : CStr) : (t.addPayload tok).Inv := by
  unfold ProfileTable.addPayload
  by_cases hfull : maxPayloadTypes ≤ t.payload
  · rwa [if_pos hfull]
  by_cases hprof : t.prof < maxProfiles
  swap
  · rwa [if_neg hfull, if_neg hprof]
  rw [if_neg hfull, if_pos hprof]
  have hcount := h.current hprof
  by_cases hnum : (numVal tok).2 = true
  · rw [if_pos hnum]
    refine ⟨h.counted, h.prof_le, fun i hi => ?_, fun _ => ?_, fun a ha => ?_⟩
    · rcases eq_or_ne i t.prof with rfl | hne
      · simp only [Function.update_self]
        omega
      · simpa [Function.update_of_ne hne] using h.full i hi
    · simp only [Function.update_self, hcount]
    · simp only [List.mem_append, List.mem_cons, List.not_mem_nil, or_false] at ha
      rcases ha with (ha | rfl) | rfl | rfl
      · exact h.accesses a ha
      · exact hprof
      · exact hprof
      · exact hprof
  · rw [if_neg hnum]
    refine ⟨h.counted, h.prof_le, h.full, h.current, fun a ha => ?_⟩
    rcases List.mem_append.mp ha with ha | ha
    · exact h.accesses a ha
    · obtain rfl := List.mem_singleton.mp ha
      exact hprof

theorem Inv.markNext (h : t.Inv) : t.markNext.Inv := ⟨h.counted, h.prof_le, h.full, h.current, h.accesses⟩

theorem Inv.step (h : t.Inv) (tok : CStr) : (t.step tok).Inv := by
  unfold ProfileTable.step
  by_cases hprof : t.prof < maxProfiles
  · rw [if_pos hprof]
    cases findName Transport.aal2 Transport.name tok with
    | some p => exact h.markNext.addProfile hprof p
    | none => exact h.markNext.addPayload tok
  · rw [if_neg hprof]
    exact h.addPayload tok

theorem Inv.foldl (h : t.Inv) (toks : List CStr) : (toks.foldl ProfileTable.step t).Inv := by
  induction toks generalizing t with
  | nil => exact h
  | cons tok toks ih => exact ih (h.step tok)

theorem prof_addPayload (t : ProfileTable) (tok : CStr) : (t.addPayload tok).prof = t.prof := by
  unfold addPayload
  split_ifs <;> rfl

theorem prof_addProfile (t : ProfileTable) (p : Transport) : (t.addProfile p).prof = t.prof + 1 := by
  unfold addProfile
  dsimp only
  split_ifs <;> rfl

theorem prof_step (h : t.Inv) (tok : CStr) :
    (t.step tok).prof = min maxProfiles (t.prof + if namesProfile tok then 1 else 0) := by
  have hle := h.prof_le
  unfold step namesProfile
  by_cases hprof : t.prof < maxProfiles
  · rw [if_pos hprof]
    cases findName Transport.aal2 Transport.name tok with
    | some p =>
      have hmark : t.markNext.prof = t.prof := rfl
      rw [prof_addProfile, hmark, Option.isSome_some, if_pos rfl]
      omega
    | none =>
      have hmark : t.markNext.prof = t.prof := rfl
      rw [prof_addPayload, hmark, Option.isSome_none, if_neg Bool.false_ne_true]
      omega
  · rw [if_neg hprof, prof_addPayload]
    omega

theorem prof_foldl (h : t.Inv) (toks : List CStr) :
    (toks.foldl step t).prof = min maxProfiles (t.prof + toks.countP namesProfile) := by
  induction toks generalizing t with
  | nil =>
    have hle := h.prof_le
    simp only [List.foldl_nil, List.countP_nil]
    omega
  | cons tok toks ih =>
    rw [List.foldl_cons, ih (h.step tok), prof_step h, List.countP_cons]
    omega

theorem profile_lt_of_mem_buildAccesses {a : ProfileAccess} (ha : a ∈ t.buildAccesses) : a.profile < t.numProfiles := by
  simp only [buildAccesses, List.mem_flatMap, List.mem_range, List.mem_append, List.mem_cons,
    List.not_mem_nil, or_false] at ha
  obtain ⟨i, hi, ⟨j, -, rfl | rfl⟩ | rfl⟩ := ha
  · exact hi
  · exact hi
  · exact hi

end ProfileTable

/-- **When the table of profiles is only accessed inside its arrays.** The tokens of the line name at most
two further profiles. With a third one `num_profiles` is larger than the arrays, and the loop behind the
parser reads behind the end of `num_payloads`. -/
theorem profileTable_bounded_iff (beyond : ℕ → ℕ) (transport : Transport) (toks : List CStr) :
    (parseProfileTable beyond transport toks).Bounded ↔ toks.countP namesProfile < maxProfiles := by
  have hinv := (ProfileTable.Inv.start beyond transport).foldl toks
  have hprof := ProfileTable.prof_foldl (.start beyond transport) toks
  have hzero : (ProfileTable.start beyond transport).prof = 0 := rfl
  rw [hzero, Nat.zero_add] at hprof
  have hcount : (parseProfileTable beyond transport toks).numProfiles =
      min maxProfiles (toks.countP namesProfile) + 1 := hinv.counted.trans (congrArg (· + 1) hprof)
  constructor
  · intro h
    have hle := h.numProfiles
    omega
  · intro h
    have hle : (parseProfileTable beyond transport toks).numProfiles ≤ maxProfiles := by omega
    refine ⟨hle, hinv.full, fun a ha => ?_, fun a ha => ?_⟩
    · rcases List.mem_append.mp ha with ha | ha
      · exact hinv.accesses a ha
      · obtain ⟨i, hi, rfl⟩ := List.mem_map.mp ha
        have hlt := List.mem_range.mp hi
        exact Nat.lt_of_lt_of_le hlt hle
    · exact Nat.lt_of_lt_of_le (ProfileTable.profile_lt_of_mem_buildAccesses ha) hle

/-- With three further profiles the loop behind the parser reads a fourth count. -/
theorem profileTable_not_bounded :
    ¬ (parseProfileTable (fun _ => 0) .aal2Itu ["AAL2/ITU", "AAL2/ITU", "AAL2/ITU"]).Bounded ∧
      ProfileAccess.numPayloads 3 ∈
        (parseProfileTable (fun _ => 0) .aal2Itu ["AAL2/ITU", "AAL2/ITU", "AAL2/ITU"]).accesses := by
  refine ⟨fun h => ?_, by decide⟩
  have hfour : (parseProfileTable (fun _ => 0) .aal2Itu
      ["AAL2/ITU", "AAL2/ITU", "AAL2/ITU"]).numProfiles = 4 := by decide
  have hle := h.numProfiles
  rw [hfour] at hle
  exact absurd hle (by decide)

end Sdp
