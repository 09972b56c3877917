import Ikran.Sdp.Types

/-!
# ANAT groups

The pairing of media lines by `a=group` lines in `gsm_sdp.c`. The functions count the ANAT lines among the group
lines of an offer, and then read as many of the first group lines. The text of an offer is not longer than 65535
bytes, so the counters of 16 bits do not wrap.
-/

namespace Gsm

open Sdp (MediaType invalidValue)

/-- An `a=group` line. -/
structure GroupLine where
  /-- Whether it is an ANAT line (`SDP_GROUP_ATTR_ANAT`). -/
  anat : Bool
  ids : List UInt32

/-- An offer, with the local description and the media entries of the call. -/
structure AnatOffer where
  groups : List GroupLine
  mediaType : UInt16 → MediaType
  destMid : UInt16 → UInt32
  srcMid : UInt16 → UInt32
  srcAnat : Bool
  media : List UInt16

namespace AnatOffer

variable (o : AnatOffer)

/-- `sdp_get_group_id`, for the line and the id with these numbers from 0 on. -/
def sdpGetGroupId (i k : ℕ) : UInt32 :=
  ((o.groups[i]?).bind fun g => g.ids[k]?).getD invalidValue

def sdpGetGroupNumId (i : ℕ) : ℕ :=
  (o.groups[i]?).elim 0 fun g => g.ids.length

def numAnatLines : ℕ := o.groups.countP GroupLine.anat

/-- The body of the loop of `gsmsdp_find_anat_media_line`. The entry of the list is not looked at. -/
def anatMediaOf (level : UInt16) (i : ℕ) : Option UInt16 :=
  let groupId1 := o.sdpGetGroupId i 0
  let groupId2 := o.sdpGetGroupId i 1
  if o.destMid level = groupId1 then o.media.find? fun _ => o.srcMid groupId2.toUInt16 = groupId2
  else if o.destMid level = groupId2 then o.media.find? fun _ => o.srcMid groupId1.toUInt16 = groupId1
  else none

/-- `gsmsdp_find_anat_media_line`: the level of the media entry. -/
def gsmsdpFindAnatMediaLine (level : UInt16) : Option UInt16 :=
  (List.range o.numAnatLines).findSome? (o.anatMediaOf level)

/-- The body of the loop of `gsmsdp_validate_anat`. -/
def validLine (i : ℕ) : Bool :=
  let groupId1 := o.sdpGetGroupId i 0
  let groupId2 := o.sdpGetGroupId i 1
  if o.sdpGetGroupNumId i ≤ 0 ∨ o.sdpGetGroupNumId i > 2 then false
  else if o.sdpGetGroupNumId i = 2 then
    o.mediaType groupId1.toUInt16 = o.mediaType groupId2.toUInt16 && groupId1 = o.destMid groupId1.toUInt16 &&
      groupId2 = o.destMid groupId2.toUInt16
  else true

def gsmsdpValidateAnat : Bool :=
  (List.range o.numAnatLines).all o.validLine

def gsmsdpValidateMid (level : UInt16) : Bool :=
  if 0 < o.numAnatLines then
    if o.destMid level = 0 then false
    else if o.srcAnat then o.destMid level = o.srcMid level
    else true
  else true

/-- The partner of a media line in an ANAT group. -/
def IsPartner (level : UInt16) (mid : UInt32) : Prop :=
  ∃ g ∈ o.groups, g.anat = true ∧ (g.ids = [o.destMid level, mid] ∨ g.ids = [mid, o.destMid level])

/-- What is found is the entry of a partner, and nothing is found only when no entry is. -/
def FindsRight (level : UInt16) : Prop :=
  (∀ l ∈ o.gsmsdpFindAnatMediaLine level, l ∈ o.media ∧ o.IsPartner level (o.srcMid l)) ∧
    (o.gsmsdpFindAnatMediaLine level = none → ∀ l ∈ o.media, ¬ o.IsPartner level (o.srcMid l))

/-- The offers are the same but for group lines of other kinds. -/
def SameAnat (o' : AnatOffer) : Prop :=
  ∃ groups, o' = { o with groups } ∧ groups.filter GroupLine.anat = o.groups.filter GroupLine.anat

/-- The pairing follows the ANAT groups, and group lines of other kinds make no difference. -/
structure PairsRight (level : UInt16) : Prop where
  finds : o.FindsRight level
  stable : ∀ o', o.SameAnat o' → o'.gsmsdpFindAnatMediaLine level = o.gsmsdpFindAnatMediaLine level ∧
    o'.gsmsdpValidateAnat = o.gsmsdpValidateAnat ∧ o'.gsmsdpValidateMid level = o.gsmsdpValidateMid level

/-! ## When the pairing is right -/

variable {o}

theorem SameAnat.numAnatLines {o' : AnatOffer} (h : o.SameAnat o') : o'.numAnatLines = o.numAnatLines := by
  obtain ⟨groups, rfl, hfilter⟩ := h
  rw [AnatOffer.numAnatLines, AnatOffer.numAnatLines, List.countP_eq_length_filter, List.countP_eq_length_filter,
    hfilter]

theorem of_numAnatLines (h : o.numAnatLines = 0) (level : UInt16) : o.gsmsdpFindAnatMediaLine level = none ∧
    o.gsmsdpValidateAnat = true ∧ o.gsmsdpValidateMid level = true := by
  simp [gsmsdpFindAnatMediaLine, gsmsdpValidateAnat, gsmsdpValidateMid, h]

theorem not_valid_of_front (h : 0 < o.numAnatLines) :
    gsmsdpValidateAnat { o with groups := ⟨false, [1, 2, 3]⟩ :: o.groups } = false := by
  have hnum : numAnatLines { o with groups := ⟨false, [1, 2, 3]⟩ :: o.groups } = o.numAnatLines := by
    simp [numAnatLines]
  rw [gsmsdpValidateAnat, hnum, List.all_eq_false]
  exact ⟨0, List.mem_range.mpr h, by simp [validLine, sdpGetGroupNumId]⟩

/-- **When ANAT groups pair media lines.** An offer that is valid is paired right, whatever other group lines are
added to it, exactly when it has no ANAT line. -/
theorem pairsRight_iff (o : AnatOffer) (level : UInt16) (hvalid : o.gsmsdpValidateAnat = true) :
    o.PairsRight level ↔ ∀ g ∈ o.groups, g.anat = false := by
  have hnum : o.numAnatLines = 0 ↔ ∀ g ∈ o.groups, g.anat = false := by
    simp [numAnatLines, List.countP_eq_zero]
  rw [← hnum]
  constructor
  · intro h
    by_contra hpos
    have hstable := (h.stable _ ⟨⟨false, [1, 2, 3]⟩ :: o.groups, rfl, by simp⟩).2.1
    rw [not_valid_of_front (Nat.pos_of_ne_zero hpos), hvalid] at hstable
    exact Bool.false_ne_true hstable
  · intro h
    obtain ⟨hfind, hanat, hmid⟩ := of_numAnatLines h level
    refine ⟨⟨fun l hl => ?_, fun _ l _ hpartner => ?_⟩, fun o' hsame => ?_⟩
    · rw [hfind] at hl
      exact nomatch hl
    · obtain ⟨g, hg, htrue, -⟩ := hpartner
      exact Bool.false_ne_true ((hnum.mp h g hg).symm.trans htrue)
    · obtain ⟨hfind', hanat', hmid'⟩ := of_numAnatLines (hsame.numAnatLines.trans h) level
      exact ⟨hfind'.trans hfind.symm, hanat'.trans hanat.symm, hmid'.trans hmid.symm⟩

/-- Media lines of one type with their levels for mids, all with entries. -/
def fourLines (groups : List GroupLine) : AnatOffer where
  groups
  mediaType _ := .audio
  destMid := UInt16.toUInt32
  srcMid := UInt16.toUInt32
  srcAnat := false
  media := [1, 2, 3]

/-- The partner of the fourth line is the third one, and the first entry is found. -/
theorem not_pairsRight :
    (fourLines [⟨true, [1, 2]⟩, ⟨true, [3, 4]⟩]).gsmsdpValidateAnat = true ∧
      ¬ (fourLines [⟨true, [1, 2]⟩, ⟨true, [3, 4]⟩]).PairsRight 4 := by
  refine ⟨by decide, fun h => ?_⟩
  obtain ⟨-, g, hg, -, hids⟩ := h.finds.1 1 (by decide)
  revert hids
  have hg' : g = ⟨true, [1, 2]⟩ ∨ g = ⟨true, [3, 4]⟩ := by simpa [fourLines] using hg
  rcases hg' with rfl | rfl <;> decide

/-- An offer with a group of another kind. -/
theorem pairsRight_fid : (fourLines [⟨false, [1, 2]⟩]).PairsRight 1 :=
  (pairsRight_iff (fourLines [⟨false, [1, 2]⟩]) 1 (by decide)).mpr (by decide)

end AnatOffer

end Gsm
