import Mathlib.Data.Int.Notation
import Mathlib.Data.List.ProdSigma
import Mathlib.Tactic.SplitIfs

/-!
# The negotiation of a codec

`gsmsdp_negotiate_codec` for an audio or a video line. A payload type is an integer that holds a codec and, for a
dynamic one, its number above it. The other types of media have no codec list and are refused.
-/

namespace Gsm

def ccMaxMediaTypes : ℕ := 15

def rtpNone : ℤ := -1

/-- `GET_CODEC_TYPE`. -/
def codecType (a : Int32) : ℤ := a.toUInt32.toUInt8.toNat

/-- `GET_DYN_PAYLOAD_TYPE_VALUE`. -/
def dynPayloadTypeValue (a : Int32) : ℤ :=
  if a &&& 0xFF00 ≠ 0 then ((a &&& 0xFF00) >>> 8).toInt else a.toInt

/-- The payload types of `fsmdef_media_t`. -/
structure Payloads where
  payload : ℤ := rtpNone
  localDynamic : ℤ := rtpNone
  remoteDynamic : ℤ := rtpNone

/-- What the negotiation is given: the payload types of the remote line, the local codecs with what the cells behind
them hold, and whether `vcmCheckAttribs` accepts a codec. -/
structure Negotiation where
  video : Bool := false
  remote : List Int32
  locals : List Int32
  beyond : ℕ → Int32 := fun _ => 0
  preferred : Int32 := -1
  offer : Bool
  initialOffer : Bool
  accepts : ℤ → Bool := fun _ => true

/-- What the loops leave. -/
structure Found where
  media : Payloads
  found : Bool
  explicitReject : Bool

namespace Negotiation

variable (g : Negotiation)

def remoteMediaTypes : List Int32 := g.remote.take ccMaxMediaTypes

/-- A cell of `local_media_types`. -/
def localMediaType (i : ℕ) : Int32 := g.locals[i]?.getD (g.beyond i)

/-- A codec is preferred, and is the first of the local list. -/
def localIsMaster : Bool := g.preferred ≠ -1 ∧ g.localMediaType 0 = g.preferred

/-- The pairs of a remote and a local payload type, in the order of the loops. -/
def pairs : List (Int32 × Int32) :=
  if g.localIsMaster then (g.locals ×ˢ g.remoteMediaTypes).map Prod.swap else g.remoteMediaTypes ×ˢ g.locals

/-- The record of the media behind a pair with one codec. -/
def adopt (previous : ℤ) (media : Payloads) (r : Int32) : Payloads :=
  { payload := codecType r
    localDynamic :=
      if g.offer then dynPayloadTypeValue r
      else if media.localDynamic = rtpNone ∨ codecType r ≠ previous then codecType r
      else media.localDynamic
    remoteDynamic := dynPayloadTypeValue r }

/-- The loops over the master and the slave list. -/
def negotiateLoop (previous : ℤ) : Payloads → Bool → List (Int32 × Int32) → Found
  | media, explicitReject, [] => ⟨media, false, explicitReject⟩
  | media, explicitReject, p :: ps =>
    if codecType p.1 = codecType p.2 then
      if g.video ∧ !g.accepts (codecType p.1) then negotiateLoop previous (g.adopt previous media p.1) true ps
      else ⟨g.adopt previous media p.1, true, explicitReject⟩
    else negotiateLoop previous media explicitReject ps

/-- A cell of the master list. -/
def masterMediaType (i : ℕ) : Int32 :=
  if g.localIsMaster then g.localMediaType i else g.remoteMediaTypes[i]?.getD 0

/-- The codec in use is `RTP_H264_P1` or `RTP_H264_P0`, and the remote description is an offer. -/
def takesNumber (media : Payloads) : Bool := (media.payload = 126 ∨ media.payload = 97) ∧ g.offer

/-- The record of the media when the codec is kept that cell `i` of the remote list has. -/
def keep (media : Payloads) (i : ℕ) : Payloads :=
  if g.takesNumber media then
    { media with
      localDynamic := dynPayloadTypeValue (g.masterMediaType i)
      remoteDynamic := dynPayloadTypeValue (g.masterMediaType i) }
  else media

/-- `gsmsdp_negotiate_codec`. -/
def negotiateCodec (media : Payloads) : ℤ × Payloads :=
  let r := g.negotiateLoop media.payload media false g.pairs
  if r.found then (r.media.payload, r.media)
  else if !g.initialOffer ∧ !r.explicitReject then
    (g.remoteMediaTypes.findIdx? fun e => r.media.payload = codecType e).elim (rtpNone, r.media) fun i =>
      (r.media.payload, g.keep r.media i)
  else (rtpNone, r.media)

/-- The lists share a codec whose attributes are accepted. -/
def Shares (remote : List Int32) : Prop :=
  ∃ r ∈ remote, ∃ l ∈ g.locals, codecType r = codecType l ∧ (g.video → g.accepts (codecType r))

/-- The payload number is one of a remote entry with the codec. -/
def Carried (codec number : ℤ) : Prop := ∃ e ∈ g.remote, codecType e = codec ∧ dynPayloadTypeValue e = number

/-- The result is right. -/
structure Sound (media : Payloads) : Prop where
  payload : (g.negotiateCodec media).1 ≠ rtpNone → (g.negotiateCodec media).2.payload = (g.negotiateCodec media).1
  carried : (g.negotiateCodec media).1 ≠ rtpNone →
    g.Carried (g.negotiateCodec media).1 (g.negotiateCodec media).2.remoteDynamic
  supported : (g.negotiateCodec media).1 ≠ rtpNone → (∃ l ∈ g.locals, codecType l = (g.negotiateCodec media).1) ∨
    g.initialOffer = false ∧ (g.negotiateCodec media).1 = media.payload
  shared : g.Shares g.remote → (g.negotiateCodec media).1 ≠ rtpNone

/-- No remote payload type that is read has the codec of a local one. -/
def apart : Bool := g.remoteMediaTypes.all fun r => g.locals.all fun l => codecType r ≠ codecType l

/-- The index of the remote payload type for which the codec in use is kept: no codec is shared, and this is not the
first offer. -/
def keptIndex (media : Payloads) : Option ℕ :=
  if !g.initialOffer && g.apart then
    g.remoteMediaTypes.findIdx? fun e => media.payload = codecType e
  else none

/-- The number that a kept codec has: the one in cell `i` of the master list, or the one it had. -/
def keptNumber (media : Payloads) (i : ℕ) : ℤ :=
  if g.takesNumber media then dynPayloadTypeValue (g.masterMediaType i) else media.remoteDynamic

/-! ## The loops -/

variable {g} {media : Payloads}

theorem codecType_ne (a : Int32) : codecType a ≠ rtpNone := by
  rw [codecType, rtpNone]
  omega

theorem apart_iff : g.apart = true ↔ ∀ r ∈ g.remoteMediaTypes, ∀ l ∈ g.locals, codecType r ≠ codecType l := by
  simp [apart]

theorem mem_pairs {p : Int32 × Int32} : p ∈ g.pairs ↔ p.1 ∈ g.remoteMediaTypes ∧ p.2 ∈ g.locals := by
  rw [pairs]
  split_ifs
  · simp only [List.mem_map, Prod.exists, List.mem_product]
    constructor
    · rintro ⟨l, r, ⟨hl, hr⟩, rfl⟩
      exact ⟨hr, hl⟩
    · exact fun h => ⟨p.2, p.1, ⟨h.2, h.1⟩, rfl⟩
  · exact List.mem_product

/-- What the loops find is a pair with one codec that is accepted. If they find none, such a pair has set the flag and
changed the record, if there is one. By induction on the pairs. -/
theorem negotiateLoop_spec (previous : ℤ) (reject : Bool) (ps : List (Int32 × Int32)) :
    let r := g.negotiateLoop previous media reject ps
    (r.found = true → ∃ p ∈ ps, codecType p.1 = codecType p.2 ∧ (g.video → g.accepts (codecType p.1)) ∧
      r.media.payload = codecType p.1 ∧ r.media.remoteDynamic = dynPayloadTypeValue p.1) ∧
    (r.found = false → (∀ p ∈ ps, codecType p.1 = codecType p.2 → g.video ∧ g.accepts (codecType p.1) = false) ∧
      (r.explicitReject = false ↔ reject = false ∧ ∀ p ∈ ps, codecType p.1 ≠ codecType p.2) ∧
      (r.explicitReject = false → r.media = media)) := by
  induction ps generalizing media reject with
  | nil => exact ⟨fun h => absurd h Bool.false_ne_true, fun _ => ⟨by simp, by simp [negotiateLoop], fun _ => rfl⟩⟩
  | cons p ps ih =>
    dsimp only
    rw [negotiateLoop]
    split_ifs with hsame hreject
    · obtain ⟨hfound, hnone⟩ := @ih (g.adopt previous media p.1) true
      refine ⟨fun h => ?_, fun h => ?_⟩
      · obtain ⟨q, hq, hspec⟩ := hfound h
        exact ⟨q, List.mem_cons_of_mem p hq, hspec⟩
      · obtain ⟨hall, hflag, -⟩ := hnone h
        have hset : (g.negotiateLoop previous (g.adopt previous media p.1) true ps).explicitReject ≠ false := fun hno =>
          absurd (hflag.mp hno).1 (by decide)
        refine ⟨List.forall_mem_cons.mpr ⟨fun _ => by simpa using hreject, hall⟩, ?_, fun hno => absurd hno hset⟩
        exact iff_of_false hset fun hno => hno.2 p List.mem_cons_self hsame
    · exact ⟨fun _ => ⟨p, List.mem_cons_self, hsame, fun hvideo => by simpa [hvideo] using hreject, rfl, rfl⟩,
        fun h => absurd h (by simp)⟩
    · obtain ⟨hfound, hnone⟩ := @ih media reject
      refine ⟨fun h => ?_, fun h => ?_⟩
      · obtain ⟨q, hq, hspec⟩ := hfound h
        exact ⟨q, List.mem_cons_of_mem p hq, hspec⟩
      · obtain ⟨hall, hflag, hmedia⟩ := hnone h
        refine ⟨List.forall_mem_cons.mpr ⟨fun heq => absurd heq hsame, hall⟩, hflag.trans ?_, hmedia⟩
        rw [List.forall_mem_cons]
        exact and_congr_right fun _ => (and_iff_right hsame).symm

/-- What is returned: a codec that is shared, the codec in use, or none. -/
theorem negotiateCodec_cases (media : Payloads) :
    (∃ r ∈ g.remoteMediaTypes, ∃ l ∈ g.locals, codecType r = codecType l ∧ (g.video → g.accepts (codecType r)) ∧
      (g.negotiateCodec media).1 = codecType r ∧ (g.negotiateCodec media).2.payload = codecType r ∧
      (g.negotiateCodec media).2.remoteDynamic = dynPayloadTypeValue r) ∧ g.keptIndex media = none ∨
    ¬ g.Shares g.remoteMediaTypes ∧ ((∃ i, g.keptIndex media = some i ∧
      g.negotiateCodec media = (media.payload, g.keep media i)) ∨
      g.keptIndex media = none ∧ (g.negotiateCodec media).1 = rtpNone) := by
  obtain ⟨hfound, hnone⟩ := @negotiateLoop_spec g media media.payload false g.pairs
  cases hr : (g.negotiateLoop media.payload media false g.pairs).found with
  | true =>
    left
    obtain ⟨p, hp, hsame, haccepts, hpayload, hremote⟩ := hfound hr
    obtain ⟨hp₁, hp₂⟩ := mem_pairs.mp hp
    have heq : g.negotiateCodec media = ((g.negotiateLoop media.payload media false g.pairs).media.payload,
        (g.negotiateLoop media.payload media false g.pairs).media) := if_pos hr
    rw [heq]
    exact ⟨⟨p.1, hp₁, p.2, hp₂, hsame, haccepts, hpayload, hpayload, hremote⟩,
      if_neg fun h => apart_iff.mp (Bool.and_eq_true_iff.mp h).2 p.1 hp₁ p.2 hp₂ hsame⟩
  | false =>
    right
    obtain ⟨hall, hflag, hmedia⟩ := hnone hr
    refine ⟨fun hshares => ?_, ?_⟩
    · obtain ⟨r, hr, l, hl, hsame, haccepts⟩ := hshares
      obtain ⟨hvideo, hrefused⟩ := hall (r, l) (mem_pairs.mpr ⟨hr, hl⟩) hsame
      rw [haccepts hvideo] at hrefused
      cases hrefused
    · have hapart : (∀ p ∈ g.pairs, codecType p.1 ≠ codecType p.2) ↔ g.apart = true :=
        ⟨fun h => apart_iff.mpr fun r hr l hl => h (r, l) (mem_pairs.mpr ⟨hr, hl⟩),
          fun h p hp => apart_iff.mp h p.1 (mem_pairs.mp hp).1 p.2 (mem_pairs.mp hp).2⟩
      have hflag := hflag.trans ((and_iff_right rfl).trans hapart)
      rw [negotiateCodec, keptIndex, hr, if_neg Bool.false_ne_true]
      by_cases hkeep : (!g.initialOffer && g.apart) = true
      · obtain ⟨hinitial, hall⟩ := Bool.and_eq_true_iff.mp hkeep
        have hno := hflag.mpr hall
        rw [if_pos hkeep, if_pos (by rw [hinitial, hno]; decide), hmedia hno]
        cases hfind : g.remoteMediaTypes.findIdx? fun e => media.payload = codecType e with
        | some i => exact .inl ⟨i, rfl, rfl⟩
        | none => exact .inr ⟨rfl, rfl⟩
      · rw [if_neg hkeep, if_neg fun h => hkeep (Bool.and_eq_true_iff.mpr ⟨h.1, hflag.mp (by simpa using h.2)⟩)]
        exact .inr ⟨rfl, rfl⟩

theorem payload_keep (media : Payloads) (i : ℕ) : (g.keep media i).payload = media.payload := by
  rw [keep]
  split_ifs <;> rfl

theorem remoteDynamic_keep (media : Payloads) (i : ℕ) : (g.keep media i).remoteDynamic = g.keptNumber media i := by
  rw [keep, keptNumber]
  split_ifs <;> rfl

/-- **When the negotiation of a codec is sound.** If the codec in use is kept, its number is the one that a remote
entry carries, and a codec that is shared is shared by one of the entries that are read. -/
theorem negotiation_sound_iff (g : Negotiation) (media : Payloads) : g.Sound media ↔
    (∀ i, g.keptIndex media = some i → g.Carried media.payload (g.keptNumber media i)) ∧
      (g.Shares g.remote → g.Shares g.remoteMediaTypes ∨ g.keptIndex media ≠ none) := by
  have hsub : ∀ e ∈ g.remoteMediaTypes, e ∈ g.remote := fun e he => List.mem_of_mem_take he
  have hkept : ∀ i, g.keptIndex media = some i → g.initialOffer = false ∧
      ∃ e ∈ g.remoteMediaTypes, media.payload = codecType e := fun i hi => by
    rw [keptIndex] at hi
    split_ifs at hi with hcond
    obtain ⟨hlt, hcodec, -⟩ := List.findIdx?_eq_some_iff_getElem.mp hi
    exact ⟨by simpa using (Bool.and_eq_true_iff.mp hcond).1, _, List.getElem_mem hlt, by simpa using hcodec⟩
  rcases @negotiateCodec_cases g media with
    ⟨⟨r, hr, l, hl, hsame, haccepts, hret, hpayload, hremote⟩, hnone⟩ | ⟨hshares, ⟨i, hi, heq⟩ | ⟨hnone, hret⟩⟩
  · have hne : (g.negotiateCodec media).1 ≠ rtpNone := hret ▸ codecType_ne r
    refine iff_of_true ⟨fun _ => hpayload.trans hret.symm, fun _ => ⟨r, hsub r hr, hret.symm, hremote.symm⟩,
      fun _ => .inl ⟨l, hl, hsame.symm.trans hret.symm⟩, fun _ => hne⟩ ⟨fun i hi => ?_,
        fun _ => .inl ⟨r, hr, l, hl, hsame, haccepts⟩⟩
    rw [hnone] at hi
    cases hi
  · obtain ⟨hinitial, e, he, hcodec⟩ := hkept i hi
    have hne : (g.negotiateCodec media).1 ≠ rtpNone := by
      rw [heq, hcodec]
      exact codecType_ne e
    constructor
    · intro h
      refine ⟨fun j hj => ?_, fun _ => .inr (by rw [hi]; simp)⟩
      obtain rfl := Option.some.inj (hi.symm.trans hj)
      have hcarried := h.carried hne
      rwa [heq, remoteDynamic_keep] at hcarried
    · rintro ⟨hcarried, -⟩
      refine ⟨fun _ => ?_, fun _ => ?_, fun _ => .inr ⟨hinitial, by rw [heq]⟩, fun _ => hne⟩
      · rw [heq]
        exact payload_keep media i
      · rw [heq, remoteDynamic_keep]
        exact hcarried i hi
  · constructor
    · intro h
      refine ⟨fun i hi => ?_, fun hall => absurd hret (h.shared hall)⟩
      rw [hnone] at hi
      cases hi
    · rintro ⟨-, hshared⟩
      refine ⟨fun hne => absurd hret hne, fun hne => absurd hret hne, fun hne => absurd hret hne, fun hall => ?_⟩
      exact absurd (hshared hall) fun h => h.elim hshares (absurd hnone)

/-- A codec in use is kept with the number that the remote side used before. -/
theorem not_sound : ¬ Sound { remote := [100 * 256 + 116], locals := [], offer := false, initialOffer := false }
    { payload := 116, localDynamic := 116, remoteDynamic := 99 } := by
  rintro ⟨-, hcarried, -, -⟩
  obtain ⟨e, he, -, hnumber⟩ := hcarried (by decide)
  obtain rfl := List.mem_singleton.mp he
  exact absurd hnumber (by decide)

end Negotiation

end Gsm
