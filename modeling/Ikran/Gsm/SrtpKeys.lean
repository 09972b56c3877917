import Ikran.Gsm.Srtp

/-!
# The keys in use are the keys advertised

After an exchange that agrees on SRTP, the key for sending should be the one that our last description
advertises under the tag that is agreed on, and the key for receiving the one of the attribute that was
selected or checked.

An offer of the other side is answered with the key that is used. With an answer to an offer of ours, the
key of `local_crypto` is used, also when the offer has repeated the key that was agreed on before. That
key was never put there when it has been generated for an answer. The key for receiving is read through
getters that prefer an attribute of the old version with the same instance number.
-/

namespace Gsm

namespace Srtp

open Sdp (CryptoSuite DirectionAttr SrtpContext Transport invalidValue)

/-! ## The property -/

/-- The tags and keys that a line advertises. -/
def LocalLine.keys (l : LocalLine) : List (UInt32 × CryptoKey) :=
  l.crypto.map fun a => (a.tag, a.key)

/-- The keys in use are the ones advertised: our last description has a crypto attribute with the tag that
is agreed on and the key for sending, and the key for receiving is the one of the attribute that was
selected or checked. -/
def Call.KeysAgree (s : Call) : Prop :=
  s.completed = true → ∀ m ∈ s.media, m.transport = .rtpsavp →
    (∃ l ∈ s.sent, (m.negotiatedCrypto.tag, m.negotiatedCrypto.txKey) ∈ l.keys) ∧
      ∃ c ∈ s.selected, keyOf c = m.negotiatedCrypto.rxKey

instance (s : Call) : Decidable s.KeysAgree :=
  inferInstanceAs (Decidable (s.completed = true → ∀ m ∈ s.media, m.transport = .rtpsavp →
    (∃ l ∈ s.sent, (m.negotiatedCrypto.tag, m.negotiatedCrypto.txKey) ∈ l.keys) ∧
      ∃ c ∈ s.selected, keyOf c = m.negotiatedCrypto.rxKey))

/-- An attribute of the old version with the instance number has the same key. -/
def RemoteLine.OneKey (r : RemoteLine) (inst : ℕ) : Prop :=
  ∀ c ∈ r.srtpContexts[inst]?, ∀ d ∈ r.sdescriptions[inst]?, keyOf c = keyOf d

namespace Call

section

variable (cfg : Config) (random : ℕ → Random)

/-- The keys agree after each of the operations. -/
def KeysAlwaysAgree (records : ℕ → MediaCrypto) : Call → List Op → Prop
  | s, [] => s.KeysAgree
  | s, op :: ops =>
    s.KeysAgree ∧
      KeysAlwaysAgree (fun k => records (k + 1)) (s.step cfg random (records 0) op) ops

instance decidableKeysAlwaysAgree : ∀ records s ops, Decidable (KeysAlwaysAgree cfg random records s ops)
  | _, s, [] => inferInstanceAs (Decidable s.KeysAgree)
  | records, s, op :: ops =>
    have := decidableKeysAlwaysAgree (fun k => records (k + 1)) (s.step cfg random (records 0) op) ops
    inferInstanceAs (Decidable (s.KeysAgree ∧ _))

/-- The crypto attribute that is agreed on, when the line of the other side leads to SRTP. -/
def agreedOn (s : Call) (r : RemoteLine) (offer : Bool) (m : Media) : Option ℕ :=
  let n := m.gsmsdpNegotiateMediaTransport cfg r offer
    (s.localLine.elim .invalid LocalLine.transport)
  if n.1 = .rtpsavp ∧ r.accepted = true then some n.2 else none

/-- No other key is taken: the offer that is answered waits for its answer with the key of `local_crypto`,
or has repeated this key, and the attributes of the other side with one instance number have one key. -/
def OpOk (s : Call) : Op → Prop
  | .remoteOffer r supportSecurity =>
    ∀ inst ∈ s.agreedOn cfg r true (s.media.getD { supportSecurity }), r.OneKey inst
  | .remoteAnswer r =>
    ∀ m ∈ s.media, ∀ inst ∈ s.agreedOn cfg r false m,
      (m.gsmsdpLocalOfferSrtp = true ∨ m.localCrypto.key = m.negotiatedCrypto.txKey) ∧ r.OneKey inst
  | _ => True

/-- No operation of a run takes another key. -/
def RunOk (records : ℕ → MediaCrypto) : Call → List Op → Prop
  | _, [] => True
  | s, op :: ops =>
    OpOk cfg s op ∧ RunOk (fun k => records (k + 1)) (s.step cfg random (records 0) op) ops

end

end Call

/-! ## Entries -/

namespace Media

variable {cfg : Config} {m : Media} {r : RemoteLine}

/-- The tag and the key of the offer that waits for its answer, or else the ones agreed on. -/
def advertised (m : Media) : UInt32 × CryptoKey :=
  if m.gsmsdpLocalOfferSrtp then (m.localCrypto.tag, m.localCrypto.key)
  else (m.negotiatedCrypto.tag, m.negotiatedCrypto.txKey)

/-- An entry with SRTP whose tag is valid does not wait for an answer. -/
def Idle (m : Media) : Prop :=
  m.transport = .rtpsavp → m.negotiatedCrypto.tag ≠ invalidValue → m.gsmsdpLocalOfferSrtp = false

theorem one_ne_invalidValue : (1 : UInt32) ≠ invalidValue := by
  decide

variable {inst : ℕ}

theorem gsmsdpCheckAnswerCryptoParam_eq_some (h : m.gsmsdpCheckAnswerCryptoParam r = some inst) :
    inst = 0 ∧ r.sdescriptions.length = 1 ∧ r.tag 0 = m.advertised.1 ∧
      r.gsmsdpCheckCommonCryptoParam 0 = true := by
  have hlen : r.sdescriptions.length = 1 := by
    by_contra hne
    simp [gsmsdpCheckAnswerCryptoParam, hne] at h
  simp only [gsmsdpCheckAnswerCryptoParam, hlen, if_true] at h
  cases hwait : m.gsmsdpLocalOfferSrtp <;> simp only [hwait, Bool.false_eq_true, if_false, if_true] at h
  all_goals
    split_ifs at h with hcheck
    refine ⟨by simpa using h.symm, hlen, ?_, hcheck.2.2⟩
    simp [advertised, hwait, hcheck.1]

theorem gsmsdpSelectOfferCrypto_eq_some (h : r.gsmsdpSelectOfferCrypto = some inst) :
    inst < r.sdescriptions.length ∧ r.tag inst ≠ invalidValue ∧ r.gsmsdpCheckCommonCryptoParam inst = true := by
  have hmem := List.mem_of_find?_eq_some h
  have hacc := List.find?_some h
  simp only [RemoteLine.acceptable, Bool.and_eq_true, decide_eq_true_eq] at hacc
  exact ⟨List.mem_range.1 hmem, hacc.1.2, hacc.2⟩

theorem gsmsdpGetKeyFromSdp_of_check (h : r.gsmsdpCheckCommonCryptoParam inst = true) :
    ∃ c ∈ r.context inst, r.gsmsdpGetKeyFromSdp inst = some (keyOf c) := by
  simp only [RemoteLine.gsmsdpCheckCommonCryptoParam, Bool.and_eq_true] at h
  obtain ⟨hkey, -⟩ := h
  simp only [RemoteLine.gsmsdpGetKeyFromSdp] at hkey ⊢
  cases hc : r.context inst with
  | none => simp [hc] at hkey
  | some c =>
    simp only [hc] at hkey ⊢
    split_ifs at hkey ⊢ with hsize
    · exact ⟨c, rfl, rfl⟩
    · simp at hkey

theorem oneKey_iff (hlt : inst < r.sdescriptions.length) (h : r.gsmsdpCheckCommonCryptoParam inst = true) :
    r.OneKey inst ↔ ∃ c ∈ r.sdescriptions[inst]?, keyOf c = (r.gsmsdpGetKeyFromSdp inst).getD {} := by
  obtain ⟨c, hc, hkey⟩ := gsmsdpGetKeyFromSdp_of_check h
  have hd := List.getElem?_eq_getElem hlt
  simp only [Option.mem_def, RemoteLine.context] at hc
  simp only [RemoteLine.OneKey, hkey, hd, Option.mem_def, Option.some.injEq, Option.getD_some]
  cases hold : r.srtpContexts[inst]? with
  | none =>
    -- the getters fall back to the attribute itself
    obtain rfl : r.sdescriptions[inst] = c := by simpa [hold, hd] using hc
    simp
  | some d =>
    obtain rfl : d = c := by simpa [hold] using hc
    simpa using eq_comm

theorem gsmsdpUpdateCryptoTransmitKey_spec (random : Random) (offer initialOffer : Bool)
    (direction : DirectionAttr) (h : m.transport = .rtpsavp) :
    let m' := (m.gsmsdpUpdateCryptoTransmitKey random offer initialOffer direction).1
    m'.transport = .rtpsavp ∧ m'.gsmsdpLocalOfferSrtp = false ∧ m'.negotiatedCrypto.tag = m.negotiatedCrypto.tag ∧
      m'.negotiatedCrypto.rxKey = m.negotiatedCrypto.rxKey ∧
      (offer = false → initialOffer = false → m'.negotiatedCrypto.txKey = m.localCrypto.key) := by
  simp only [gsmsdpUpdateCryptoTransmitKey]
  split_ifs <;>
    simp_all [gsmsdpClearLocalOfferSrtp, generateTxKey, useOfferedKey, gsmsdpLocalOfferSrtp]

/-- The line that advertises the key that is agreed on. -/
def keyLine (m : Media) : LocalLine where
  transport := .rtpsavp
  crypto := [gsmsdpAddSingleCryptoAttr m.negotiatedCrypto.tag m.negotiatedCrypto.algorithmId
    m.negotiatedCrypto.txKey]

@[simp]
theorem keys_keyLine : m.keyLine.keys = [(m.negotiatedCrypto.tag, m.negotiatedCrypto.txKey)] := rfl

theorem gsmsdpUpdateLocalSdpMediaTransport_of_tag (random : Random) (h : m.transport = .rtpsavp)
    (htag : m.negotiatedCrypto.tag ≠ invalidValue) :
    m.gsmsdpUpdateLocalSdpMediaTransport random = (m, m.keyLine, 0) := by
  simp [gsmsdpUpdateLocalSdpMediaTransport, h, htag, keyLine]

theorem gsmsdpUpdateLocalSdpMediaTransport_of_ne (random : Random) (h : m.transport ≠ .rtpsavp) :
    m.gsmsdpUpdateLocalSdpMediaTransport random = (m, { transport := m.transport }, 0) := by
  simp [gsmsdpUpdateLocalSdpMediaTransport, h]

/-- **A line that is built advertises the key of its entry.** -/
theorem gsmsdpUpdateLocalSdpMediaTransport_spec (random : Random) (h : m.Idle) :
    let p := m.gsmsdpUpdateLocalSdpMediaTransport random
    p.1.Idle ∧ (p.2.1.transport = .rtpsavp → p.2.1.keys = [p.1.advertised] ∧ p.1.advertised.1 ≠ invalidValue) := by
  by_cases hsavp : m.transport = .rtpsavp
  · by_cases htag : m.negotiatedCrypto.tag = invalidValue
    · -- a key is generated, and waits for its answer
      simp [gsmsdpUpdateLocalSdpMediaTransport, hsavp, htag, gsmsdpAddAllCryptoLines, Idle,
        LocalLine.keys, advertised, gsmsdpLocalOfferSrtp, gsmsdpAddSingleCryptoAttr,
        one_ne_invalidValue]
    · rw [gsmsdpUpdateLocalSdpMediaTransport_of_tag random hsavp htag]
      have hidle := h hsavp htag
      refine ⟨h, fun _ => ⟨?_, ?_⟩⟩
      · rw [keys_keyLine, advertised, hidle]
        rfl
      · rw [advertised, hidle]
        exact htag
  · rw [gsmsdpUpdateLocalSdpMediaTransport_of_ne random hsavp]
    exact ⟨h, fun hline => absurd hline hsavp⟩

theorem key_eq_advertised_iff : m.localCrypto.key = m.advertised.2 ↔
      m.gsmsdpLocalOfferSrtp = true ∨ m.localCrypto.key = m.negotiatedCrypto.txKey := by
  cases hwait : m.gsmsdpLocalOfferSrtp <;> simp [advertised, hwait]

theorem idle_of_tag (h : m.negotiatedCrypto.tag = invalidValue) : m.Idle := fun _ htag => absurd h htag

theorem idle_of_transport (h : m.transport ≠ .rtpsavp) : m.Idle := fun hsavp => absurd hsavp h

theorem Idle.gsmsdpResetSdpMediaTransport (h : m.Idle) (hold : Bool) :
    (m.gsmsdpResetSdpMediaTransport cfg hold).Idle := by
  simp only [Media.gsmsdpResetSdpMediaTransport]
  split_ifs
  · exact h
  · exact idle_of_tag rfl
  · exact h

end Media

namespace Call

variable {cfg : Config} {random : ℕ → Random} {record : MediaCrypto} {s : Call} {r : RemoteLine}

/-- What holds throughout a call: a line with SRTP advertises one key, the one of its entry, and so does
the last description that was sent. -/
structure Inv (s : Call) : Prop where
  idle : ∀ m ∈ s.media, m.Idle
  advertised : ∀ m ∈ s.media, ∀ l ∈ s.localLine, l.transport = .rtpsavp →
    l.keys = [m.advertised] ∧ m.advertised.1 ≠ invalidValue ∧ ∃ l' ∈ s.sent, l'.keys = [m.advertised]

theorem inv_init : ({} : Call).Inv := ⟨by simp, by simp⟩

theorem inv_of_media (h : s.media = none) : s.Inv := ⟨by simp [h], by simp [h]⟩

theorem keysAgree_of_media (h : s.media = none) : s.KeysAgree := by
  simp [KeysAgree, h]

theorem keysAgree_of_completed (h : s.completed = false) : s.KeysAgree := by
  simp [KeysAgree, h]

variable {m : Media}

theorem inv_offerLine (h : m.Idle) (direction : DirectionAttr) : (s.offerLine random m direction).Inv := by
  obtain ⟨hidle, hkeys⟩ := Media.gsmsdpUpdateLocalSdpMediaTransport_spec (random s.drawn) h
  constructor
  · intro m' hm'
    obtain rfl : _ = m' := Option.some.inj hm'
    exact hidle
  · intro m' hm' l hl hsavp
    obtain rfl : _ = m' := Option.some.inj hm'
    obtain rfl : _ = l := Option.some.inj hl
    exact ⟨(hkeys hsavp).1, (hkeys hsavp).2, _, rfl, (hkeys hsavp).1⟩

theorem Inv.gsmsdpResetLocalSdpMedia (h : s.Inv) (hold : Bool) (direction : DirectionAttr) :
    (s.gsmsdpResetLocalSdpMedia cfg random hold direction).Inv := by
  cases hm : s.media with
  | none =>
    refine inv_of_media ?_
    simp [Call.gsmsdpResetLocalSdpMedia, hm]
  | some m =>
    simp only [Call.gsmsdpResetLocalSdpMedia, hm]
    exact inv_offerLine ((h.idle m hm).gsmsdpResetSdpMediaTransport hold) direction

theorem completed_gsmsdpResetLocalSdpMedia (hold : Bool) (direction : DirectionAttr) :
    (s.gsmsdpResetLocalSdpMedia cfg random hold direction).completed = false := by
  cases hm : s.media <;> simp [Call.gsmsdpResetLocalSdpMedia, hm, offerLine]

/-! ## Descriptions of the other side -/

variable {offer : Bool} {inst : ℕ}

/-- The attribute that is agreed on is one of the line, is checked and has a tag. -/
theorem agreedOn_eq_some (h : s.agreedOn cfg r offer m = some inst) :
    inst < r.sdescriptions.length ∧ r.gsmsdpCheckCommonCryptoParam inst = true ∧ r.accepted = true ∧
      m.gsmsdpNegotiateMediaTransport cfg r offer (s.localLine.elim .invalid LocalLine.transport) = (.rtpsavp, inst) ∧
      (offer = true → r.tag inst ≠ invalidValue) ∧
      (offer = false → r.tag inst = m.advertised.1 ∧ ∃ l ∈ s.localLine, l.transport = .rtpsavp) := by
  simp only [agreedOn] at h
  split_ifs at h with hn
  obtain ⟨hn, hacc⟩ := hn
  obtain rfl := Option.some.inj h
  have hpair := Prod.ext (y := (_, _)) hn rfl
  cases offer with
  | true =>
    have hsel : r.gsmsdpSelectOfferCrypto = some (m.gsmsdpNegotiateMediaTransport cfg r true
          (s.localLine.elim .invalid LocalLine.transport)).2 := by
      simp only [Media.gsmsdpNegotiateMediaTransport, Media.gsmsdpNegotiateOfferCrypto, if_true] at hn ⊢
      cases htr : r.transport <;> simp only [htr] at hn ⊢ <;> try simp at hn
      split at hn
      next inst heq =>
        split_ifs at heq with hsec
        simp only [heq]
      next => split_ifs at hn
    obtain ⟨hlt, htag, hcheck⟩ := Media.gsmsdpSelectOfferCrypto_eq_some hsel
    exact ⟨hlt, hcheck, hacc, hpair, fun _ => htag, by simp⟩
  | false =>
    have hsel : m.gsmsdpCheckAnswerCryptoParam r = some (m.gsmsdpNegotiateMediaTransport cfg r false
            (s.localLine.elim .invalid LocalLine.transport)).2 ∧
        s.localLine.elim .invalid LocalLine.transport = .rtpsavp := by
      simp only [Media.gsmsdpNegotiateMediaTransport, Media.gsmsdpNegotiateAnswerCrypto,
        Bool.false_eq_true, if_false] at hn ⊢
      cases htr : r.transport <;> simp only [htr] at hn ⊢ <;> try simp at hn
      · split_ifs at hn
      · split at hn
        next inst heq =>
          split_ifs at heq with hlocal
          exact ⟨by simp only [heq], hlocal⟩
        next => simp at hn
    obtain ⟨hzero, hlen, htag, hcheck⟩ := Media.gsmsdpCheckAnswerCryptoParam_eq_some hsel.1
    rw [hzero]
    refine ⟨by omega, hcheck, hacc, hzero ▸ hpair, by simp, fun _ => ⟨htag, ?_⟩⟩
    cases hline : s.localLine with
    | none => simp [hline] at hsel
    | some l => exact ⟨l, rfl, by simpa [hline] using hsel.2⟩

theorem agreedOn_offer_congr {m' : Media} (h : m.supportSecurity = m'.supportSecurity) :
    s.agreedOn cfg r true m = s.agreedOn cfg r true m' := by
  simp [agreedOn, Media.gsmsdpNegotiateMediaTransport, Media.gsmsdpNegotiateOfferCrypto, h]

/-- The entry with what is agreed on, before the key for sending is chosen. -/
def agreed (r : RemoteLine) (m : Media) (inst : ℕ) (transport : Transport) : Media :=
  ({ m with previousDestAddr := m.destAddr, destAddr := r.addr } : Media
    ).gsmsdpUpdateNegotiatedTransport r inst transport

variable {newMedia : Bool}

theorem gsmsdpUpdateLocalSdp_of_ne (h : m.transport ≠ .rtpsavp) : s.gsmsdpUpdateLocalSdp random r offer newMedia m =
      { s with
        media := some { m with direction := r.localDirection }
        localLine := if offer = true ∨ r.multicast = true then some { transport := m.transport }
          else s.localLine
        sent := if offer then some { transport := m.transport } else s.sent
        completed := true } := by
  have hkey : m.gsmsdpUpdateCryptoTransmitKey (random s.drawn) offer newMedia r.direction = (m, 0) := by
    simp [Media.gsmsdpUpdateCryptoTransmitKey, h]
  simp only [gsmsdpUpdateLocalSdp, hkey, Media.gsmsdpUpdateLocalSdpMediaTransport_of_ne _ h]
  cases offer <;> cases r.multicast <;> simp

theorem gsmsdpUpdateLocalSdp_of_eq (h : m.transport = .rtpsavp) (htag : m.negotiatedCrypto.tag ≠ invalidValue) :
    let p := m.gsmsdpUpdateCryptoTransmitKey (random s.drawn) offer newMedia r.direction
    s.gsmsdpUpdateLocalSdp random r offer newMedia m = { s with
        media := some { p.1 with direction := r.localDirection }
        localLine := if offer = true ∨ r.multicast = true then some p.1.keyLine else s.localLine
        sent := if offer then some p.1.keyLine else s.sent
        completed := true
        drawn := s.drawn + p.2 } := by
  intro p
  obtain ⟨hsavp, -, htag', -⟩ := Media.gsmsdpUpdateCryptoTransmitKey_spec (random s.drawn) offer newMedia r.direction h
  have hp : m.gsmsdpUpdateCryptoTransmitKey (random s.drawn) offer newMedia r.direction = p := rfl
  rw [hp] at hsavp htag'
  have hline := Media.gsmsdpUpdateLocalSdpMediaTransport_of_tag (random (s.drawn + p.2)) hsavp (htag' ▸ htag)
  simp only [gsmsdpUpdateLocalSdp, hp, hline]
  cases offer <;> cases r.multicast <;> simp

theorem negotiateLine_of_agreedOn (h : s.agreedOn cfg r offer m = some inst) :
    s.negotiateLine cfg random r offer newMedia m =
      { s with selected := r.sdescriptions[inst]? }.gsmsdpUpdateLocalSdp random r offer newMedia
        (agreed r m inst .rtpsavp) := by
  obtain ⟨-, -, hacc, hn, -⟩ := agreedOn_eq_some h
  -- the negotiation does not read the addresses
  have hneg : ({ m with previousDestAddr := m.destAddr, destAddr := r.addr } : Media
      ).gsmsdpNegotiateMediaTransport cfg r offer (s.localLine.elim .invalid LocalLine.transport) =
      (.rtpsavp, inst) := hn
  simp [negotiateLine, hneg, hacc, agreed]

theorem negotiateLine_of_not_agreedOn (h : s.agreedOn cfg r offer m = none) :
    s.negotiateLine cfg random r offer newMedia m =
      let n := m.gsmsdpNegotiateMediaTransport cfg r offer
        (s.localLine.elim .invalid LocalLine.transport)
      if n.1 = .invalid ∨ n.1 = .rtpsavp ∨ r.accepted = false then s.rejectLine offer
      else { s with selected := r.sdescriptions[n.2]? }.gsmsdpUpdateLocalSdp random r offer newMedia
        (agreed r m n.2 n.1) := by
  have hneg : ({ m with previousDestAddr := m.destAddr, destAddr := r.addr } : Media
      ).gsmsdpNegotiateMediaTransport cfg r offer (s.localLine.elim .invalid LocalLine.transport) =
      m.gsmsdpNegotiateMediaTransport cfg r offer (s.localLine.elim .invalid LocalLine.transport) := rfl
  simp only [agreedOn] at h
  simp only [negotiateLine, hneg, agreed]
  split_ifs at h with hn
  split_ifs <;> first | rfl | simp_all

theorem transport_agreed {transport : Transport} : (agreed r m inst transport).transport = transport := by
  simp only [agreed, Media.gsmsdpUpdateNegotiatedTransport]
  split_ifs <;> rfl

theorem advertised_agreed {transport : Transport} (h : transport ≠ .rtpsavp) :
    (agreed r m inst transport).advertised = m.advertised := by
  simp [agreed, Media.gsmsdpUpdateNegotiatedTransport, h, Media.advertised, Media.gsmsdpLocalOfferSrtp]

theorem Inv.negotiateLine_of_none (h : s.Inv) (random : ℕ → Random) (newMedia : Bool)
    (hm : offer = false → s.media = some m) (hnone : s.agreedOn cfg r offer m = none) :
    (s.negotiateLine cfg random r offer newMedia m).Inv ∧
      (s.negotiateLine cfg random r offer newMedia m).KeysAgree := by
  rw [negotiateLine_of_not_agreedOn hnone]
  simp only
  generalize m.gsmsdpNegotiateMediaTransport cfg r offer (s.localLine.elim .invalid LocalLine.transport) = n
  split_ifs with hrej
  · exact ⟨inv_of_media rfl, keysAgree_of_media rfl⟩
  have htransport : (agreed r m n.2 n.1).transport ≠ .rtpsavp := by
    rw [transport_agreed]
    tauto
  rw [gsmsdpUpdateLocalSdp_of_ne htransport]
  refine ⟨⟨?_, ?_⟩, ?_⟩
  · intro m' hm'
    obtain rfl : _ = m' := Option.some.inj hm'
    exact Media.idle_of_transport htransport
  · intro m' hm' l hl hsavp
    obtain rfl : _ = m' := Option.some.inj hm'
    simp only at hl
    split_ifs at hl with hbuild
    · obtain rfl : _ = l := Option.some.inj hl
      exact absurd hsavp htransport
    · -- the lines of an answer stay, and so does what they advertise
      have ho : offer = false := by simpa using fun ho => hbuild (.inl ho)
      have hadv : ({ agreed r m n.2 n.1 with direction := r.localDirection } : Media).advertised =
          m.advertised := advertised_agreed (by tauto)
      rw [hadv]
      simpa [ho] using h.advertised m (hm ho) l hl hsavp
  · intro _ m' hm' hsavp
    obtain rfl : _ = m' := Option.some.inj hm'
    exact absurd hsavp htransport

/-- **A line that leads to SRTP**: the entry takes the tag and the key of the attribute that is agreed on,
and does not wait for an answer. A line that is built advertises the key for sending. -/
theorem negotiateLine_of_some (random : ℕ → Random) (newMedia : Bool)
    (h : s.agreedOn cfg r offer m = some inst) (htag : r.tag inst ≠ invalidValue) :
    let s' := s.negotiateLine cfg random r offer newMedia m
    ∃ m', s'.media = some m' ∧ m'.transport = .rtpsavp ∧ m'.gsmsdpLocalOfferSrtp = false ∧
      m'.negotiatedCrypto.tag = r.tag inst ∧
      m'.negotiatedCrypto.rxKey = (r.gsmsdpGetKeyFromSdp inst).getD {} ∧
      (offer = false → newMedia = false → m'.negotiatedCrypto.txKey = m.localCrypto.key) ∧
      s'.selected = r.sdescriptions[inst]? ∧ s'.completed = true ∧
      s'.sent = (if offer then some m'.keyLine else s.sent) ∧
      s'.localLine = if offer = true ∨ r.multicast = true then some m'.keyLine else s.localLine := by
  intro s'
  have hsavp : (agreed r m inst .rtpsavp).transport = .rtpsavp := transport_agreed
  have htag' : (agreed r m inst .rtpsavp).negotiatedCrypto.tag ≠ invalidValue := by
    simpa [agreed, Media.gsmsdpUpdateNegotiatedTransport] using htag
  have hs' : s' = _ := (negotiateLine_of_agreedOn h).trans (gsmsdpUpdateLocalSdp_of_eq hsavp htag')
  obtain ⟨hsavp', hwait, hutag, hrx, htx⟩ := Media.gsmsdpUpdateCryptoTransmitKey_spec
    (random s.drawn) offer newMedia r.direction hsavp
  rw [hs']
  refine ⟨_, rfl, hsavp', hwait, ?_, ?_, htx, rfl, rfl, rfl, rfl⟩
  · simpa [agreed, Media.gsmsdpUpdateNegotiatedTransport] using hutag
  · simpa [agreed, Media.gsmsdpUpdateNegotiatedTransport] using hrx

/-- **A line that leads to SRTP keeps the keys in agreement**, when our offer was made with the key of
`local_crypto` and the attributes of the instance have one key. -/
theorem Inv.negotiateLine_of_some (h : s.Inv) (random : ℕ → Random) (newMedia : Bool)
    (hm : offer = false → s.media = some m ∧ newMedia = false)
    (hsome : s.agreedOn cfg r offer m = some inst) :
    let ok := (offer = false → m.gsmsdpLocalOfferSrtp = true ∨
      m.localCrypto.key = m.negotiatedCrypto.txKey) ∧ r.OneKey inst
    ((s.negotiateLine cfg random r offer newMedia m).KeysAgree ↔ ok) ∧
      (ok → (s.negotiateLine cfg random r offer newMedia m).Inv) := by
  intro ok
  obtain ⟨hlt, hcheck, -, -, hoffer, hanswer⟩ := agreedOn_eq_some hsome
  -- what we know of the line that is answered
  have hlast : offer = false → r.tag inst = m.advertised.1 ∧ m.advertised.1 ≠ invalidValue ∧
        (∀ l ∈ s.localLine, l.transport = .rtpsavp → l.keys = [m.advertised]) ∧
        ∃ l' ∈ s.sent, l'.keys = [m.advertised] := by
    intro ho
    obtain ⟨htag, l, hl, hsavp⟩ := hanswer ho
    obtain ⟨-, hvalid, hsent⟩ := h.advertised m (hm ho).1 l hl hsavp
    exact ⟨htag, hvalid, fun l hl hsavp => (h.advertised m (hm ho).1 l hl hsavp).1, hsent⟩
  have htag : r.tag inst ≠ invalidValue := by
    cases offer with
    | true => exact hoffer rfl
    | false =>
      obtain ⟨htag, hvalid, -⟩ := hlast rfl
      exact htag ▸ hvalid
  obtain ⟨m', hm', hsavp, hwait, htag', hrx, htx, hselected, hcompleted, hnewsent, hnewline⟩ :=
    Call.negotiateLine_of_some random newMedia hsome htag
  have hadv : m'.advertised = (m'.negotiatedCrypto.tag, m'.negotiatedCrypto.txKey) := by
    simp [Media.advertised, hwait]
  -- the key that an answer takes is the one advertised
  have hsame : offer = false → (m'.advertised = m.advertised ↔
      m.gsmsdpLocalOfferSrtp = true ∨ m.localCrypto.key = m.negotiatedCrypto.txKey) := by
    intro ho
    rw [hadv, htag', (hlast ho).1, htx ho (hm ho).2, ← Media.key_eq_advertised_iff, Prod.ext_iff]
    simp
  have hrxKey : (∃ c ∈ (s.negotiateLine cfg random r offer newMedia m).selected,
      keyOf c = m'.negotiatedCrypto.rxKey) ↔ r.OneKey inst := by
    rw [hselected, hrx, Media.oneKey_iff hlt hcheck]
  have hsent : (∃ l ∈ (s.negotiateLine cfg random r offer newMedia m).sent, m'.advertised ∈ l.keys) ↔
      (offer = false → m.gsmsdpLocalOfferSrtp = true ∨ m.localCrypto.key = m.negotiatedCrypto.txKey) := by
    cases offer with
    | true => simp [hnewsent, hadv]
    | false =>
      obtain ⟨-, -, -, l', hl', hkeys⟩ := hlast rfl
      have hs : (s.negotiateLine cfg random r false newMedia m).sent = some l' := by
        simpa [hnewsent] using hl'
      simp [hs, hkeys, ← hsame rfl]
  refine ⟨?_, fun hok => ?_⟩
  · have hagree : (s.negotiateLine cfg random r offer newMedia m).KeysAgree ↔
        (∃ l ∈ (s.negotiateLine cfg random r offer newMedia m).sent, m'.advertised ∈ l.keys) ∧
          ∃ c ∈ (s.negotiateLine cfg random r offer newMedia m).selected, keyOf c = m'.negotiatedCrypto.rxKey := by
      simp [KeysAgree, hcompleted, hm', hsavp, ← hadv]
    rw [hagree, hsent, hrxKey]
  constructor
  · intro m'' hmem
    obtain rfl : m' = m'' := by simpa [hm'] using hmem
    exact fun _ _ => hwait
  · intro m'' hmem l hl hsavp'
    obtain rfl : m' = m'' := by simpa [hm'] using hmem
    have hvalid : m'.advertised.1 ≠ invalidValue := by
      rw [hadv, htag']
      exact htag
    cases offer with
    | true =>
      obtain rfl : m'.keyLine = l := by simpa [hnewline] using hl
      exact ⟨by rw [hadv, Media.keys_keyLine], hvalid, _, by rw [hnewsent]; rfl,
        by rw [hadv, Media.keys_keyLine]⟩
    | false =>
      -- our last description stays the one that was answered
      obtain ⟨-, -, hlines, l', hl', hkeys'⟩ := hlast rfl
      have hadv' := (hsame rfl).2 (hok.1 rfl)
      refine ⟨?_, hvalid, l', by rw [hnewsent]; exact hl', by rw [hkeys', hadv']⟩
      by_cases hbuild : r.multicast = true
      · obtain rfl : m'.keyLine = l := by simpa [hnewline, hbuild] using hl
        rw [hadv, Media.keys_keyLine]
      · rw [hlines l (by simpa [hnewline, hbuild] using hl) hsavp', hadv']

/-! ## Runs -/

/-- **One operation keeps the keys in agreement** exactly when it takes no other key. -/
theorem Inv.step (h : s.Inv) (hagree : s.KeysAgree) (cfg : Config) (random : ℕ → Random)
    (record : MediaCrypto) (op : Op) :
    ((s.step cfg random record op).KeysAgree ↔ OpOk cfg s op) ∧
      (OpOk cfg s op → (s.step cfg random record op).Inv) := by
  cases op with
  | offer supportSecurity direction =>
    cases hm : s.media with
    | some m =>
      -- the line is offered already
      have hstep : s.step cfg random record (.offer supportSecurity direction) = s := by
        simp [Call.step, gsmsdpAddMediaLine, hm]
      simpa [hstep, OpOk] using ⟨hagree, h⟩
    | none =>
      simp only [Call.step, gsmsdpAddMediaLine, hm, OpOk, true_imp_iff, iff_true]
      exact ⟨keysAgree_of_completed rfl, inv_offerLine (Media.idle_of_tag rfl) direction⟩
  | hold direction =>
    simp only [Call.step, OpOk, true_imp_iff, iff_true]
    refine ⟨keysAgree_of_completed (completed_gsmsdpResetLocalSdpMedia true direction), ?_, by simp⟩
    exact (h.gsmsdpResetLocalSdpMedia true direction).idle
  | resume direction =>
    simp only [Call.step, OpOk, true_imp_iff, iff_true]
    exact ⟨keysAgree_of_completed (completed_gsmsdpResetLocalSdpMedia false direction),
      h.gsmsdpResetLocalSdpMedia false direction⟩
  | reoffer =>
    simp only [Call.step, OpOk, true_imp_iff, iff_true]
    refine ⟨keysAgree_of_completed rfl, h.idle, fun m hm l hl hsavp => ?_⟩
    obtain ⟨hkeys, hvalid, -⟩ := h.advertised m hm l hl hsavp
    exact ⟨hkeys, hvalid, l, hl, hkeys⟩
  | remove =>
    simp only [Call.step, OpOk, true_imp_iff, iff_true]
    exact ⟨keysAgree_of_media rfl, inv_of_media rfl⟩
  | remoteOffer r supportSecurity =>
    -- the entry is the one of the line, or a new one
    obtain ⟨newMedia, m, hstep, hm⟩ : ∃ newMedia m, s.step cfg random record (.remoteOffer r supportSecurity) =
            s.negotiateLine cfg random r true newMedia m ∧
          m.supportSecurity = (s.media.getD { supportSecurity }).supportSecurity := by
      cases hm : s.media with
      | none =>
        exact ⟨true, { gsmsdpInitMedia record with supportSecurity },
          by simp [Call.step, gsmsdpNegotiateOfferSdp, hm], rfl⟩
      | some m => exact ⟨false, m, by simp [Call.step, gsmsdpNegotiateOfferSdp, hm], rfl⟩
    rw [hstep]
    simp only [OpOk, ← agreedOn_offer_congr hm]
    cases hagreed : s.agreedOn cfg r true m with
    | none =>
      obtain ⟨hinv, hkeys⟩ := h.negotiateLine_of_none random newMedia (by simp) hagreed
      exact ⟨⟨fun _ => by simp, fun _ => hkeys⟩, fun _ => hinv⟩
    | some inst =>
      simpa using h.negotiateLine_of_some random newMedia (by simp) hagreed
  | remoteAnswer r =>
    cases hm : s.media with
    | none =>
      simp only [Call.step, gsmsdpNegotiateAnswerSdp, hm, OpOk]
      refine ⟨⟨fun _ => by simp, fun _ => keysAgree_of_media rfl⟩, fun _ => inv_of_media rfl⟩
    | some m =>
      simp only [Call.step, gsmsdpNegotiateAnswerSdp, hm, OpOk, Option.mem_def, Option.some.injEq, forall_eq']
      cases hagreed : s.agreedOn cfg r false m with
      | none =>
        obtain ⟨hinv, hkeys⟩ := h.negotiateLine_of_none random false (fun _ => hm) hagreed
        exact ⟨⟨fun _ => by simp, fun _ => hkeys⟩, fun _ => hinv⟩
      | some inst =>
        simpa using h.negotiateLine_of_some random false (fun _ => ⟨hm, rfl⟩) hagreed

theorem Inv.keysAlwaysAgree_iff_of_agree (h : s.Inv) (hagree : s.KeysAgree) (records : ℕ → MediaCrypto)
    (ops : List Op) :
    KeysAlwaysAgree cfg random records s ops ↔ RunOk cfg random records s ops := by
  induction ops generalizing s records with
  | nil => simpa [KeysAlwaysAgree, RunOk] using hagree
  | cons op ops ih =>
    obtain ⟨hstep, hinv⟩ := h.step hagree cfg random (records 0) op
    simp only [KeysAlwaysAgree, RunOk]
    constructor
    · rintro ⟨-, hrun⟩
      have hok : OpOk cfg s op := hstep.1 (by cases ops with
        | nil => exact hrun
        | cons => exact hrun.1)
      exact ⟨hok, (ih (hinv hok) (hstep.2 hok) _).1 hrun⟩
    · rintro ⟨hok, hrun⟩
      exact ⟨hagree, (ih (hinv hok) (hstep.2 hok) _).2 hrun⟩

/-- **The key for sending is the one that our last description advertises**, and the key for receiving the
one of the attribute selected or checked, throughout a call, if and only if

- every answer that leads to SRTP is to an offer that waits for it with the key of `local_crypto`, or that
  key is the one that was agreed on before, and
- no attribute of the old version hides the attribute that is agreed on, with another key. -/
theorem keysAlwaysAgree_iff (cfg : Config) (random : ℕ → Random) (records : ℕ → MediaCrypto)
    (ops : List Op) :
    KeysAlwaysAgree cfg random records {} ops ↔ RunOk cfg random records {} ops :=
  inv_init.keysAlwaysAgree_iff_of_agree (keysAgree_of_media rfl) records ops

/-- A line of the other side with one crypto attribute. -/
def cryptoLine (tag : UInt32) (byte : UInt8) : RemoteLine where
  transport := .rtpsavp
  sdescriptions :=
    [{ tag, suite := .aesCm128HmacSha1_32
       masterKey := List.replicate 16 byte, masterKeySizeBytes := 16
       masterSalt := List.replicate 14 byte, masterSaltSizeBytes := 14 }]
  addr := .ipv4 0x0A000002
  direction := .sendrecv
  localDirection := .sendrecv

/-- A line with encrypted signalling that is not registered with a call manager. -/
def encryptedLine : Config where
  encrypted := true
  srtpFallback := false
  ccm := false

/-- The random bytes of the k-th key are all `k + 1`. -/
def countedBytes (k : ℕ) : Random :=
  Vector.replicate 30 (UInt8.ofNat (k + 1))

/-- The other side offers SRTP. We hold the call and resume it, and the other side answers. -/
def heldAndResumed : List Op :=
  [.remoteOffer (cryptoLine 1 0xA0) true, .hold .sendonly, .resume .sendrecv,
    .remoteAnswer (cryptoLine 1 0xA1)]

/-- **The key in use is not the one advertised** when an incoming call is held and resumed. The offer of
the resumption repeats the key that was generated for our answer, and with the answer to it the key of
`local_crypto` is taken, which is empty. -/
theorem not_keysAlwaysAgree :
    ¬ KeysAlwaysAgree encryptedLine countedBytes (fun _ => {}) {} heldAndResumed := by
  decide

/-- In an outgoing call the keys agree, also after hold and resumption. -/
example : KeysAlwaysAgree encryptedLine countedBytes (fun _ => {}) {}
    [.offer true .sendrecv, .remoteAnswer (cryptoLine 1 0xA0), .hold .sendonly, .resume .sendrecv,
      .remoteAnswer (cryptoLine 1 0xA1)] := by
  decide

end Call

end Srtp

end Gsm
