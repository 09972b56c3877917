import Ikran.Gsm.SrtpKeys

/-!
# Keys that are left in a record

The record of a media entry is used again for later calls, or comes from the heap as it is. The keys of an
entry that we add ourselves are initialised. The keys of an entry that is made for an offer of the other
side are not: it starts with the tags and the keys that the last call has left. What is offered, answered
and used in a call should not depend on them, and each key that is used for sending should have been
generated in the call.

The keys that are left are looked at in two cases: the other side offers SRTP for an entry that was made
for an offer without, and the other side answers an offer of ours that was made with the keys of an
earlier answer.
-/

namespace Gsm

namespace Srtp

open Sdp (CryptoSuite DirectionAttr SrtpContext Transport invalidValue)

/-! ## The property -/

/-- What the keys of an entry come from. -/
inductive Source
  | record
  /-- The offers of the other side. What we offer comes from the record. -/
  | answers
  | call
  deriving DecidableEq

namespace Call

section

variable (cfg : Config) (random : ℕ → Random)

/-- What is seen of a call: the line that was sent last, and the key that is used for sending. -/
def seen (s : Call) : Option LocalLine × Option CryptoKey :=
  (s.sent, s.media.bind Media.usedKey)

def Generated (s : Call) (k : CryptoKey) : Prop :=
  ∃ i < s.drawn, ∃ algorithmId, k = gsmsdpGenerateKey algorithmId (random i)

/-- The call after each of the operations. -/
def states (records : ℕ → MediaCrypto) : Call → List Op → List Call
  | _, [] => []
  | s, op :: ops =>
    let s := s.step cfg random (records 0) op
    s :: states (fun k => records (k + 1)) s ops

/-- No keys cross calls: what is seen of a call does not depend on the records that its entries take, and
each key that is used was generated in the call. -/
def KeysStayInCall (ops : List Op) : Prop :=
  (∀ records₁ records₂, (states cfg random records₁ {} ops).map seen =
    (states cfg random records₂ {} ops).map seen) ∧
  ∀ records, ∀ s ∈ states cfg random records {} ops, ∀ k ∈ (seen s).2, s.Generated random k

/-- What the keys come from after an operation. -/
def nextSource (s : Call) (src : Source) : Op → Source
  | .offer _ _ => if s.media.isSome then src else .call
  | .resume _ => if s.media.isSome ∧ cfg.ccm = true then .call else src
  | .remoteOffer r supportSecurity =>
    if s.media.isSome then src
    else if (s.agreedOn cfg r true { supportSecurity }).isSome then .answers else .record
  | _ => src

/-- The keys of the record are not looked at: an entry without keys of the call is not offered SRTP, and
an entry without an offer of ours is not answered with SRTP. -/
def OpClean (s : Call) (src : Source) : Op → Prop
  | .remoteOffer r _ => src = .record → ∀ m ∈ s.media, s.agreedOn cfg r true m = none
  | .remoteAnswer r => src = .answers → ∀ m ∈ s.media, s.agreedOn cfg r false m = none
  | _ => True

/-- No operation of a run looks at the keys of the record. -/
def RunClean (records : ℕ → MediaCrypto) : Call → Source → List Op → Prop
  | _, _, [] => True
  | s, src, op :: ops =>
    OpClean cfg s src op ∧
      RunClean (fun k => records (k + 1)) (s.step cfg random (records 0) op) (nextSource cfg s src op) ops

end

end Call

/-! ## Entries of two runs -/

namespace Media

variable {cfg : Config} {m₁ m₂ : Media} {r : RemoteLine} {src : Source}

/-- Two entries differ in their keys only. -/
structure SameButKeys (m₁ m₂ : Media) : Prop where
  transport : m₁.transport = m₂.transport
  direction : m₁.direction = m₂.direction
  destAddr : m₁.destAddr = m₂.destAddr
  previousDestAddr : m₁.previousDestAddr = m₂.previousDestAddr
  supportSecurity : m₁.supportSecurity = m₂.supportSecurity

/-- Two entries have agreed on the same keys, and do not wait for an answer. -/
structure SameAgreed (m₁ m₂ : Media) : Prop extends SameButKeys m₁ m₂ where
  tag : m₁.negotiatedCrypto.tag = m₂.negotiatedCrypto.tag
  algorithmId : m₁.negotiatedCrypto.algorithmId = m₂.negotiatedCrypto.algorithmId
  txKey : m₁.negotiatedCrypto.txKey = m₂.negotiatedCrypto.txKey
  rxKey : m₁.negotiatedCrypto.rxKey = m₂.negotiatedCrypto.rxKey
  valid : m₁.negotiatedCrypto.tag ≠ invalidValue
  idle₁ : m₁.gsmsdpLocalOfferSrtp = false
  idle₂ : m₂.gsmsdpLocalOfferSrtp = false

/-- Two entries differ in what comes from the record only. -/
def Alike (m₁ m₂ : Media) : Source → Prop
  | .record => m₁.SameButKeys m₂ ∧ m₁.transport ≠ .rtpsavp
  | .answers => m₁.SameAgreed m₂
  | .call => m₁ = m₂

theorem SameButKeys.refl (m : Media) : m.SameButKeys m := ⟨rfl, rfl, rfl, rfl, rfl⟩

theorem Alike.sameButKeys (h : m₁.Alike m₂ src) : m₁.SameButKeys m₂ := by
  cases src with
  | record => exact h.1
  | answers => exact h.toSameButKeys
  | call =>
    obtain rfl : m₁ = m₂ := h
    exact .refl _

theorem SameButKeys.gsmsdpInitSdpMediaTransport_eq (h : m₁.SameButKeys m₂) :
    m₁.gsmsdpInitSdpMediaTransport cfg = m₂.gsmsdpInitSdpMediaTransport cfg := by
  simp [gsmsdpInitSdpMediaTransport, gsmsdpInitCryptoContext, h.direction, h.destAddr,
    h.previousDestAddr, h.supportSecurity]

theorem Alike.withDirection (h : m₁.Alike m₂ src) (direction : DirectionAttr) :
    ({ m₁ with direction } : Media).Alike { m₂ with direction } src := by
  cases src with
  | record => exact ⟨⟨h.1.transport, rfl, h.1.destAddr, h.1.previousDestAddr, h.1.supportSecurity⟩, h.2⟩
  | answers =>
    have h : m₁.SameAgreed m₂ := h
    exact { h with direction := rfl }
  | call =>
    obtain rfl : m₁ = m₂ := h
    rfl

theorem Alike.gsmsdpResetSdpMediaTransport (h : m₁.Alike m₂ src) (hold : Bool) :
    (m₁.gsmsdpResetSdpMediaTransport cfg hold).Alike (m₂.gsmsdpResetSdpMediaTransport cfg hold)
      (if hold = false ∧ cfg.ccm = true then .call else src) := by
  simp only [Media.gsmsdpResetSdpMediaTransport]
  cases hold <;> cases cfg.ccm
  · exact h
  · exact h.sameButKeys.gsmsdpInitSdpMediaTransport_eq
  · exact h
  · exact h

theorem SameAgreed.keyLine_eq (h : m₁.SameAgreed m₂) : m₁.keyLine = m₂.keyLine := by
  simp [keyLine, h.tag, h.algorithmId, h.txKey]

/-- **The line that is built is the same.** -/
theorem Alike.gsmsdpUpdateLocalSdpMediaTransport (h : m₁.Alike m₂ src) (random : Random) :
    let p₁ := m₁.gsmsdpUpdateLocalSdpMediaTransport random
    let p₂ := m₂.gsmsdpUpdateLocalSdpMediaTransport random
    p₁.1.Alike p₂.1 src ∧ p₁.2 = p₂.2 ∧ (src = .record → p₁.2.1.transport ≠ .rtpsavp) := by
  have htransport := h.sameButKeys.transport
  cases src with
  | call =>
    obtain rfl : m₁ = m₂ := h
    exact ⟨rfl, rfl, by simp⟩
  | record =>
    rw [gsmsdpUpdateLocalSdpMediaTransport_of_ne random h.2,
      gsmsdpUpdateLocalSdpMediaTransport_of_ne random (htransport ▸ h.2)]
    exact ⟨h, by rw [htransport], fun _ => h.2⟩
  | answers =>
    have hagreed : m₁.SameAgreed m₂ := h
    by_cases hsavp : m₁.transport = .rtpsavp
    · rw [gsmsdpUpdateLocalSdpMediaTransport_of_tag random hsavp hagreed.valid,
        gsmsdpUpdateLocalSdpMediaTransport_of_tag random (htransport ▸ hsavp) (hagreed.tag ▸ hagreed.valid)]
      exact ⟨h, by rw [hagreed.keyLine_eq], by simp⟩
    · rw [gsmsdpUpdateLocalSdpMediaTransport_of_ne random hsavp,
        gsmsdpUpdateLocalSdpMediaTransport_of_ne random (htransport ▸ hsavp)]
      exact ⟨h, by rw [htransport], by simp⟩

theorem Alike.usedKey_eq (h : m₁.Alike m₂ src) : m₁.usedKey = m₂.usedKey := by
  cases src with
  | record => simp [usedKey, h.2, h.1.transport ▸ h.2]
  | answers =>
    have h : m₁.SameAgreed m₂ := h
    simp [usedKey, gsmsdpIsCryptoReady, h.transport, h.txKey]
  | call =>
    obtain rfl : m₁ = m₂ := h
    rfl

/-- **The key for sending is the same** when it is generated, or the keys agreed on are the same. -/
theorem SameAgreed.of_gsmsdpUpdateCryptoTransmitKey (random : Random) (newMedia : Bool)
    (direction : DirectionAttr) (h : m₁.SameButKeys m₂) (hsavp : m₁.transport = .rtpsavp)
    (htag : m₁.negotiatedCrypto.tag = m₂.negotiatedCrypto.tag)
    (halg : m₁.negotiatedCrypto.algorithmId = m₂.negotiatedCrypto.algorithmId)
    (hrx : m₁.negotiatedCrypto.rxKey = m₂.negotiatedCrypto.rxKey)
    (hvalid : m₁.negotiatedCrypto.tag ≠ invalidValue)
    (hkey : newMedia = true ∨ m₁.negotiatedCrypto.txKey = m₂.negotiatedCrypto.txKey ∧
      m₁.gsmsdpLocalOfferSrtp = false ∧ m₂.gsmsdpLocalOfferSrtp = false) :
    let p₁ := m₁.gsmsdpUpdateCryptoTransmitKey random true newMedia direction
    let p₂ := m₂.gsmsdpUpdateCryptoTransmitKey random true newMedia direction
    p₁.1.SameAgreed p₂.1 ∧ p₁.2 = p₂.2 := by
  have hsavp₂ := h.transport ▸ hsavp
  have hgenerated : ((m₁.generateTxKey random).gsmsdpClearLocalOfferSrtp).SameAgreed
      ((m₂.generateTxKey random).gsmsdpClearLocalOfferSrtp) :=
    { transport := h.transport, direction := h.direction, destAddr := h.destAddr
      previousDestAddr := h.previousDestAddr, supportSecurity := h.supportSecurity
      tag := htag, algorithmId := halg, rxKey := hrx, valid := hvalid, idle₁ := rfl, idle₂ := rfl
      txKey := by
        show gsmsdpGenerateKey _ random = gsmsdpGenerateKey _ random
        rw [halg] }
  cases newMedia with
  | true => simpa [gsmsdpUpdateCryptoTransmitKey, hsavp, hsavp₂] using hgenerated
  | false =>
    obtain ⟨htx, hidle₁, hidle₂⟩ := hkey.resolve_left (by simp)
    have hkept : m₁.gsmsdpClearLocalOfferSrtp.SameAgreed m₂.gsmsdpClearLocalOfferSrtp :=
      { transport := h.transport, direction := h.direction, destAddr := h.destAddr
        previousDestAddr := h.previousDestAddr, supportSecurity := h.supportSecurity
        tag := htag, algorithmId := halg, rxKey := hrx, valid := hvalid, idle₁ := rfl, idle₂ := rfl
        txKey := htx }
    -- the same branch is taken for both
    simp only [gsmsdpUpdateCryptoTransmitKey, hsavp, hsavp₂, hidle₁, hidle₂, h.previousDestAddr,
      h.destAddr, h.direction, htx, ne_eq, not_true_eq_false, Bool.false_eq_true, if_false, if_true]
    split_ifs <;> first | exact ⟨hgenerated, rfl⟩ | exact ⟨hkept, rfl⟩

end Media

/-! ## Two runs -/

namespace Call

variable {cfg : Config} {random : ℕ → Random} {record₁ record₂ : MediaCrypto} {s₁ s₂ : Call}
variable {r : RemoteLine} {src : Source} {m₁ m₂ : Media}

/-- Two states of a call differ in what comes from the records only. -/
structure Alike (src : Source) (s₁ s₂ : Call) : Prop where
  localLine : s₁.localLine = s₂.localLine
  sent : s₁.sent = s₂.sent
  selected : s₁.selected = s₂.selected
  completed : s₁.completed = s₂.completed
  drawn : s₁.drawn = s₂.drawn
  media : Option.Rel (fun m₁ m₂ => Media.Alike m₁ m₂ src) s₁.media s₂.media
  plain : src = .record → ∀ l ∈ s₁.localLine, l.transport ≠ .rtpsavp
  closed : s₁.media = none → s₁.localLine = none

theorem Alike.eq_of_none (h : s₁.Alike src s₂) (hm : s₁.media = none) : s₁ = s₂ := by
  obtain ⟨hline, hsent, hselected, hcompleted, hdrawn, hmedia, -⟩ := h
  rw [hm] at hmedia
  obtain ⟨media₁, line₁, sent₁, selected₁, completed₁, drawn₁⟩ := s₁
  obtain ⟨media₂, line₂, sent₂, selected₂, completed₂, drawn₂⟩ := s₂
  cases media₂ with
  | none => simp_all
  | some => nomatch hmedia

theorem Alike.exists_some (h : s₁.Alike src s₂) (hm : s₁.media = some m₁) :
    ∃ m₂, s₂.media = some m₂ ∧ m₁.Alike m₂ src := by
  have hmedia := h.media
  rw [hm] at hmedia
  cases hm₂ : s₂.media with
  | none => simp [hm₂] at hmedia
  | some m₂ =>
    rw [hm₂] at hmedia
    exact ⟨m₂, rfl, by simpa using hmedia⟩

theorem Alike.eq_of_call (h : s₁.Alike .call s₂) : s₁ = s₂ := by
  cases hm₁ : s₁.media with
  | none => exact h.eq_of_none hm₁
  | some m₁ =>
    obtain ⟨m₂, hm₂, hm⟩ := h.exists_some hm₁
    obtain rfl : m₁ = m₂ := hm
    obtain ⟨hline, hsent, hselected, hcompleted, hdrawn, -⟩ := h
    obtain ⟨media₁, line₁, sent₁, selected₁, completed₁, drawn₁⟩ := s₁
    obtain ⟨media₂, line₂, sent₂, selected₂, completed₂, drawn₂⟩ := s₂
    simp_all

variable {s : Call}

theorem alike_of_none (hm : s.media = none) (hline : s.localLine = none) : s.Alike src s :=
  ⟨rfl, rfl, rfl, rfl, rfl, by simp [hm], by simp [hline], fun _ => hline⟩

theorem alike_call (hclosed : s.media = none → s.localLine = none) : s.Alike .call s :=
  ⟨rfl, rfl, rfl, rfl, rfl, by cases s.media <;> simp [Media.Alike], by simp, hclosed⟩

theorem Alike.offerLine (h : s₁.Alike src s₂) (random : ℕ → Random) {src' : Source} (hm : m₁.Alike m₂ src')
    (direction : DirectionAttr) :
    (s₁.offerLine random m₁ direction).Alike src' (s₂.offerLine random m₂ direction) := by
  obtain ⟨hm', hline, hplain⟩ := hm.gsmsdpUpdateLocalSdpMediaTransport (random s₁.drawn)
  simp only [Call.offerLine, ← h.drawn]
  refine ⟨?_, ?_, h.selected, rfl, ?_, ?_, ?_, by simp⟩
  · simp [hline]
  · simp [hline]
  · simp [hline]
  · simpa using hm'.withDirection direction
  · simpa using hplain

theorem Alike.gsmsdpResetLocalSdpMedia (h : s₁.Alike src s₂) (cfg : Config) (random : ℕ → Random)
    (hold : Bool) (direction : DirectionAttr) :
    (s₁.gsmsdpResetLocalSdpMedia cfg random hold direction).Alike
      (if s₁.media.isSome ∧ hold = false ∧ cfg.ccm = true then .call else src)
      (s₂.gsmsdpResetLocalSdpMedia cfg random hold direction) := by
  cases hm₁ : s₁.media with
  | none =>
    obtain rfl := h.eq_of_none hm₁
    simp only [Call.gsmsdpResetLocalSdpMedia, hm₁, Option.isSome_none, Bool.false_eq_true, false_and, if_false]
    refine alike_of_none rfl ?_
    exact h.closed hm₁
  | some m₁ =>
    obtain ⟨m₂, hm₂, hm⟩ := h.exists_some hm₁
    simpa [Call.gsmsdpResetLocalSdpMedia, hm₁, hm₂] using
      h.offerLine random (hm.gsmsdpResetSdpMediaTransport hold) direction

theorem Alike.rejectLine (h : s₁.Alike src s₂) {src' : Source} (offer : Bool) :
    (s₁.rejectLine offer).Alike src' (s₂.rejectLine offer) := by
  refine ⟨rfl, ?_, h.selected, rfl, h.drawn, by simp [Call.rejectLine], by simp [Call.rejectLine],
    fun _ => rfl⟩
  simp [Call.rejectLine, h.sent]

theorem closed_negotiateLine (offer newMedia : Bool) (m : Media) :
    (s.negotiateLine cfg random r offer newMedia m).media = none →
      (s.negotiateLine cfg random r offer newMedia m).localLine = none := by
  simp only [negotiateLine, gsmsdpUpdateLocalSdp]
  split_ifs <;> simp [Call.rejectLine]

theorem sameButKeys_agreed (h : m₁.SameButKeys m₂) (inst : ℕ) (transport : Transport) :
    (agreed r m₁ inst transport).SameButKeys (agreed r m₂ inst transport) := by
  simp only [agreed, Media.gsmsdpUpdateNegotiatedTransport]
  split_ifs <;> exact ⟨rfl, h.direction, rfl, h.destAddr, h.supportSecurity⟩

theorem alike_agreed (h : m₁.Alike m₂ src) (inst : ℕ) {transport : Transport} (htransport : transport ≠ .rtpsavp) :
    (agreed r m₁ inst transport).Alike (agreed r m₂ inst transport) src := by
  have hsame := sameButKeys_agreed (r := r) h.sameButKeys inst transport
  cases src with
  | record => exact ⟨hsame, by rwa [transport_agreed]⟩
  | answers =>
    have h : m₁.SameAgreed m₂ := h
    refine ⟨hsame, ?_, ?_, ?_, ?_, ?_, ?_, ?_⟩ <;>
      simp only [agreed, Media.gsmsdpUpdateNegotiatedTransport, htransport, ne_eq, not_false_eq_true, if_true]
    exacts [h.tag, h.algorithmId, h.txKey, h.rxKey, h.valid, h.idle₁, h.idle₂]
  | call =>
    obtain rfl : m₁ = m₂ := h
    rfl

variable {newMedia : Bool}

theorem Alike.negotiateLine_of_none (h : s₁.Alike src s₂) {src' : Source} {offer : Bool}
    (hm : ∀ inst transport, transport ≠ .rtpsavp → (agreed r m₁ inst transport).Alike (agreed r m₂ inst transport) src')
    (hneg : m₁.gsmsdpNegotiateMediaTransport cfg r offer (s₁.localLine.elim .invalid LocalLine.transport) =
      m₂.gsmsdpNegotiateMediaTransport cfg r offer (s₁.localLine.elim .invalid LocalLine.transport))
    (hplain : src' = .record → offer = true ∨ ∀ l ∈ s₁.localLine, l.transport ≠ .rtpsavp)
    (hnone : s₁.agreedOn cfg r offer m₁ = none) :
    (s₁.negotiateLine cfg random r offer newMedia m₁).Alike src' (s₂.negotiateLine cfg random r offer newMedia m₂) := by
  have hnone₂ : s₂.agreedOn cfg r offer m₂ = none := by
    rw [← hnone]
    simp only [agreedOn, ← h.localLine, hneg]
  rw [negotiateLine_of_not_agreedOn hnone, negotiateLine_of_not_agreedOn hnone₂, ← h.localLine, ← hneg]
  simp only
  generalize m₁.gsmsdpNegotiateMediaTransport cfg r offer (s₁.localLine.elim .invalid LocalLine.transport) = n
  split_ifs with hrej
  · exact h.rejectLine offer
  have htransport : n.1 ≠ .rtpsavp := by tauto
  rw [gsmsdpUpdateLocalSdp_of_ne (by rwa [transport_agreed]),
    gsmsdpUpdateLocalSdp_of_ne (by rwa [transport_agreed])]
  refine ⟨?_, ?_, rfl, rfl, h.drawn, ?_, ?_, by simp⟩
  · simp [transport_agreed, h.localLine]
  · simp [transport_agreed, h.sent]
  · simpa using (hm n.2 n.1 htransport).withDirection r.localDirection
  · intro hsrc l hl
    simp only [transport_agreed] at hl
    by_cases hbuild : offer = true ∨ r.multicast = true
    · obtain rfl : _ = l := by simpa [hbuild] using hl
      exact htransport
    · have hl : l ∈ s₁.localLine := by simpa [hbuild] using hl
      exact (hplain hsrc).resolve_left (fun ho => hbuild (.inl ho)) l hl

/-- **An offer that leads to SRTP**, for a new entry or with the same keys agreed on before. -/
theorem Alike.negotiateLine_of_some (h : s₁.Alike src s₂) {inst : ℕ}
    (hm : m₁.SameButKeys m₂) (hkey : newMedia = true ∨ m₁.SameAgreed m₂)
    (hsome : s₁.agreedOn cfg r true m₁ = some inst) :
    (s₁.negotiateLine cfg random r true newMedia m₁).Alike .answers
      (s₂.negotiateLine cfg random r true newMedia m₂) := by
  have hsome₂ : s₂.agreedOn cfg r true m₂ = some inst := by
    rw [← hsome]
    simp only [agreedOn, Media.gsmsdpNegotiateMediaTransport, Media.gsmsdpNegotiateOfferCrypto,
      hm.supportSecurity, if_true]
  have htag : r.tag inst ≠ invalidValue := (agreedOn_eq_some hsome).2.2.2.2.1 rfl
  have hupdated : ∀ m : Media, (agreed r m inst .rtpsavp).negotiatedCrypto.tag = r.tag inst := by
    simp [agreed, Media.gsmsdpUpdateNegotiatedTransport]
  rw [negotiateLine_of_agreedOn hsome, negotiateLine_of_agreedOn hsome₂,
    gsmsdpUpdateLocalSdp_of_eq transport_agreed (by rwa [hupdated]),
    gsmsdpUpdateLocalSdp_of_eq transport_agreed (by rwa [hupdated])]
  simp only [← h.drawn]
  obtain ⟨hagreed, hcount⟩ := Media.SameAgreed.of_gsmsdpUpdateCryptoTransmitKey
    (random s₁.drawn) newMedia r.direction (sameButKeys_agreed hm inst .rtpsavp)
    transport_agreed (by rw [hupdated, hupdated])
    (by simp [agreed, Media.gsmsdpUpdateNegotiatedTransport])
    (by simp [agreed, Media.gsmsdpUpdateNegotiatedTransport]) (by rwa [hupdated])
    (hkey.imp_right fun hkey => by
      simp only [agreed, Media.gsmsdpUpdateNegotiatedTransport, ne_eq, not_true_eq_false, if_false]
      exact ⟨hkey.txKey, hkey.idle₁, hkey.idle₂⟩)
  refine ⟨?_, ?_, rfl, rfl, ?_, ?_, by simp, by simp⟩
  · simp [hagreed.keyLine_eq]
  · simp [hagreed.keyLine_eq]
  · simp [hcount]
  · have halike : Media.Alike _ _ .answers := hagreed
    simpa using halike.withDirection r.localDirection

theorem gsmsdpNegotiateMediaTransport_offer (h : m₁.supportSecurity = m₂.supportSecurity) (localTransport : Transport) :
    m₁.gsmsdpNegotiateMediaTransport cfg r true localTransport =
      m₂.gsmsdpNegotiateMediaTransport cfg r true localTransport := by
  simp [Media.gsmsdpNegotiateMediaTransport, Media.gsmsdpNegotiateOfferCrypto, h]

theorem gsmsdpNegotiateMediaTransport_answer (h : m₁.Alike m₂ src) {localTransport : Transport}
    (hplain : src = .record → localTransport ≠ .rtpsavp) :
    m₁.gsmsdpNegotiateMediaTransport cfg r false localTransport =
      m₂.gsmsdpNegotiateMediaTransport cfg r false localTransport := by
  cases src with
  | call =>
    obtain rfl : m₁ = m₂ := h
    rfl
  | record => simp [Media.gsmsdpNegotiateMediaTransport, Media.gsmsdpNegotiateAnswerCrypto, hplain rfl]
  | answers =>
    have h : m₁.SameAgreed m₂ := h
    simp [Media.gsmsdpNegotiateMediaTransport, Media.gsmsdpNegotiateAnswerCrypto,
      Media.gsmsdpCheckAnswerCryptoParam, h.idle₁, h.idle₂, h.tag, h.algorithmId]

/-- **A line of the other side is taken alike** for entries that are alike, when it does not look at the
keys of the record. -/
theorem Alike.negotiateLine (h : s₁.Alike src s₂) (hm : m₁.Alike m₂ src) (offer : Bool)
    (hoffer : offer = true → src = .record → s₁.agreedOn cfg r true m₁ = none)
    (hanswer : offer = false → src = .answers → s₁.agreedOn cfg r false m₁ = none) :
    (s₁.negotiateLine cfg random r offer false m₁).Alike src (s₂.negotiateLine cfg random r offer false m₂) := by
  have hline : src = .record → ∀ l ∈ s₁.localLine, l.transport ≠ .rtpsavp := h.plain
  have hlocal : src = .record → s₁.localLine.elim Transport.invalid LocalLine.transport ≠ .rtpsavp := by
    intro hsrc
    cases hl : s₁.localLine with
    | none => simp
    | some l => exact hline hsrc l hl
  have hneg : m₁.gsmsdpNegotiateMediaTransport cfg r offer (s₁.localLine.elim .invalid LocalLine.transport) =
      m₂.gsmsdpNegotiateMediaTransport cfg r offer (s₁.localLine.elim .invalid LocalLine.transport) := by
    cases offer with
    | true => exact gsmsdpNegotiateMediaTransport_offer hm.sameButKeys.supportSecurity _
    | false => exact gsmsdpNegotiateMediaTransport_answer hm hlocal
  cases hagreed : s₁.agreedOn cfg r offer m₁ with
  | none =>
    exact h.negotiateLine_of_none (fun inst _ => alike_agreed hm inst) hneg
      (fun hsrc => .inr (hline hsrc)) hagreed
  | some inst =>
    cases src with
    | call =>
      obtain rfl := h.eq_of_call
      obtain rfl : m₁ = m₂ := hm
      exact alike_call (closed_negotiateLine _ _ _)
    | answers =>
      cases offer with
      | true => exact h.negotiateLine_of_some hm.sameButKeys (.inr hm) hagreed
      | false => simp [hanswer rfl rfl] at hagreed
    | record =>
      cases offer with
      | true => simp [hoffer rfl rfl] at hagreed
      | false =>
        -- an answer with keys needs a line with keys
        obtain ⟨l, hl, hsavp⟩ := ((agreedOn_eq_some hagreed).2.2.2.2.2 rfl).2
        exact absurd hsavp (hline rfl l hl)

/-- **One operation keeps two runs alike** when it does not look at the keys of the record. -/
theorem Alike.step (h : s₁.Alike src s₂) {op : Op} (hclean : OpClean cfg s₁ src op)
    (random : ℕ → Random) (record₁ record₂ : MediaCrypto) :
    (s₁.step cfg random record₁ op).Alike (nextSource cfg s₁ src op) (s₂.step cfg random record₂ op) := by
  cases op with
  | offer supportSecurity direction =>
    cases hm₁ : s₁.media with
    | none =>
      obtain rfl := h.eq_of_none hm₁
      simpa [Call.step, nextSource, gsmsdpAddMediaLine, hm₁] using h.offerLine random (by rfl) direction
    | some m₁ =>
      obtain ⟨m₂, hm₂, -⟩ := h.exists_some hm₁
      simpa [Call.step, nextSource, gsmsdpAddMediaLine, hm₁, hm₂] using h
  | hold direction =>
    have hreset := h.gsmsdpResetLocalSdpMedia cfg random true direction
    simp only [Bool.true_eq_false, false_and, and_false, if_false] at hreset
    exact ⟨rfl, hreset.sent, hreset.selected, hreset.completed, hreset.drawn, hreset.media,
      by simp [Call.step], fun _ => rfl⟩
  | resume direction =>
    simpa [Call.step, nextSource] using h.gsmsdpResetLocalSdpMedia cfg random false direction
  | reoffer =>
    exact ⟨h.localLine, h.localLine, h.selected, rfl, h.drawn, h.media, h.plain, h.closed⟩
  | remove =>
    exact ⟨rfl, h.sent, h.selected, h.completed, h.drawn, by simp [Call.step], by simp [Call.step],
      fun _ => rfl⟩
  | remoteOffer r supportSecurity =>
    cases hm₁ : s₁.media with
    | none =>
      -- a new entry, with the tags and keys of its record
      obtain rfl := h.eq_of_none hm₁
      simp only [Call.step, gsmsdpNegotiateOfferSdp, hm₁, nextSource, Option.isSome_none, Bool.false_eq_true, if_false]
      have hm : ({ gsmsdpInitMedia record₁ with supportSecurity } : Media).SameButKeys
          { gsmsdpInitMedia record₂ with supportSecurity } := ⟨rfl, rfl, rfl, rfl, rfl⟩
      have hagreed : s₁.agreedOn cfg r true { gsmsdpInitMedia record₁ with supportSecurity } =
        s₁.agreedOn cfg r true { supportSecurity } := agreedOn_offer_congr rfl
      rw [← hagreed]
      cases hsome : s₁.agreedOn cfg r true { gsmsdpInitMedia record₁ with supportSecurity } with
      | none =>
        exact h.negotiateLine_of_none (fun inst transport htransport => ⟨sameButKeys_agreed hm inst transport,
            by rwa [transport_agreed]⟩)
          (gsmsdpNegotiateMediaTransport_offer rfl _) (fun _ => .inl rfl) hsome
      | some inst => exact h.negotiateLine_of_some hm (.inl rfl) hsome
    | some m₁ =>
      obtain ⟨m₂, hm₂, hm⟩ := h.exists_some hm₁
      simpa [Call.step, gsmsdpNegotiateOfferSdp, hm₁, hm₂, nextSource] using
        h.negotiateLine hm true (fun _ hsrc => hclean hsrc m₁ hm₁) (by simp)
  | remoteAnswer r =>
    cases hm₁ : s₁.media with
    | none =>
      obtain rfl := h.eq_of_none hm₁
      simpa [Call.step, gsmsdpNegotiateAnswerSdp, hm₁, nextSource] using h.rejectLine false
    | some m₁ =>
      obtain ⟨m₂, hm₂, hm⟩ := h.exists_some hm₁
      simpa [Call.step, gsmsdpNegotiateAnswerSdp, hm₁, hm₂, nextSource] using
        h.negotiateLine hm false (by simp) (fun _ hsrc => hclean hsrc m₁ hm₁)

theorem Alike.nextSource_eq (h : s₁.Alike src s₂) (op : Op) : nextSource cfg s₁ src op = nextSource cfg s₂ src op := by
  have hsome : s₁.media.isSome = s₂.media.isSome := by
    cases hm₁ : s₁.media with
    | none => rw [← h.eq_of_none hm₁, hm₁]
    | some m₁ =>
      obtain ⟨m₂, hm₂, -⟩ := h.exists_some hm₁
      simp [hm₂]
  cases op <;> simp [nextSource, agreedOn, hsome, h.localLine]

theorem Alike.opClean_iff (h : s₁.Alike src s₂) (op : Op) : OpClean cfg s₁ src op ↔ OpClean cfg s₂ src op := by
  cases hm₁ : s₁.media with
  | none => rw [h.eq_of_none hm₁]
  | some m₁ =>
    obtain ⟨m₂, hm₂, hm⟩ := h.exists_some hm₁
    cases op with
    | remoteOffer r supportSecurity =>
      have hagreed : s₁.agreedOn cfg r true m₁ = s₂.agreedOn cfg r true m₂ := by
        simp only [agreedOn, h.localLine, gsmsdpNegotiateMediaTransport_offer hm.sameButKeys.supportSecurity]
      simp [OpClean, hm₁, hm₂, hagreed]
    | remoteAnswer r =>
      have hagreed : src = .answers → s₁.agreedOn cfg r false m₁ = s₂.agreedOn cfg r false m₂ := by
        intro hsrc
        simp only [agreedOn, h.localLine, gsmsdpNegotiateMediaTransport_answer hm (by simp [hsrc])]
      simp only [OpClean, hm₁, hm₂, Option.mem_def, Option.some.injEq, forall_eq']
      exact forall_congr' fun hsrc => by rw [hagreed hsrc]
    | _ => exact Iff.rfl

theorem Alike.seen_eq (h : s₁.Alike src s₂) : s₁.seen = s₂.seen := by
  cases hm₁ : s₁.media with
  | none => rw [h.eq_of_none hm₁]
  | some m₁ =>
    obtain ⟨m₂, hm₂, hm⟩ := h.exists_some hm₁
    simp only [seen, h.sent, hm₁, hm₂, Option.bind_some, Prod.mk.injEq, true_and]
    exact hm.usedKey_eq

variable {ops : List Op}

theorem Alike.map_seen_states (h : s₁.Alike src s₂) {records₁ records₂ : ℕ → MediaCrypto}
    (hclean : RunClean cfg random records₁ s₁ src ops) :
    (states cfg random records₁ s₁ ops).map seen = (states cfg random records₂ s₂ ops).map seen := by
  induction ops generalizing s₁ s₂ src records₁ records₂ with
  | nil => rfl
  | cons op ops ih =>
    have hstep := h.step hclean.1 random (records₁ 0) (records₂ 0)
    simp only [states, List.map_cons, hstep.seen_eq, List.cons.injEq, true_and]
    exact ih hstep hclean.2

theorem Alike.runClean (h : s₁.Alike src s₂) {records₁ records₂ : ℕ → MediaCrypto}
    (hclean : RunClean cfg random records₁ s₁ src ops) :
    RunClean cfg random records₂ s₂ src ops := by
  induction ops generalizing s₁ s₂ src records₁ records₂ with
  | nil => trivial
  | cons op ops ih =>
    refine ⟨(h.opClean_iff op).1 hclean.1, ?_⟩
    rw [← h.nextSource_eq]
    exact ih (h.step hclean.1 random _ _) hclean.2

/-! ## Keys of the call -/

/-- A key is empty, or one of the first keys that were generated. -/
def OfCall (random : ℕ → Random) (n : ℕ) (k : CryptoKey) : Prop :=
  k.key = [] ∨ ∃ i < n, ∃ algorithmId, k = gsmsdpGenerateKey algorithmId (random i)

/-- The keys that an entry may use for sending are keys of the call. -/
def KeysOfCall (random : ℕ → Random) (n : ℕ) (m : Media) : Prop :=
  OfCall random n m.localCrypto.key ∧ OfCall random n m.negotiatedCrypto.txKey

theorem OfCall.mono {n n' : ℕ} {k : CryptoKey} (h : OfCall random n k) (hn : n ≤ n') : OfCall random n' k :=
  h.imp_right fun ⟨i, hi, halg⟩ => ⟨i, by omega, halg⟩

theorem ofCall_generate (algorithmId : AlgorithmId) (n : ℕ) :
    OfCall random (n + 1) (gsmsdpGenerateKey algorithmId (random n)) :=
  .inr ⟨n, by omega, algorithmId, rfl⟩

variable {m : Media}

theorem keysOfCall_init (n : ℕ) (h : m.toMediaCrypto = {}) : KeysOfCall random n m := by
  simp [KeysOfCall, OfCall, h]

theorem KeysOfCall.gsmsdpUpdateLocalSdpMediaTransport {n : ℕ} (h : KeysOfCall random n m) :
    KeysOfCall random (n + (m.gsmsdpUpdateLocalSdpMediaTransport (random n)).2.2)
      (m.gsmsdpUpdateLocalSdpMediaTransport (random n)).1 := by
  simp only [Media.gsmsdpUpdateLocalSdpMediaTransport]
  split_ifs
  · exact h
  · exact ⟨ofCall_generate .aes128Counter n, h.2.mono (by omega)⟩
  · exact h

theorem KeysOfCall.gsmsdpUpdateCryptoTransmitKey {n : ℕ} (h : KeysOfCall random n m)
    (offer initialOffer : Bool) (direction : DirectionAttr) :
    KeysOfCall random (n + (m.gsmsdpUpdateCryptoTransmitKey (random n) offer initialOffer direction).2)
      (m.gsmsdpUpdateCryptoTransmitKey (random n) offer initialOffer direction).1 := by
  have hgenerated : KeysOfCall random (n + 1) ((m.generateTxKey (random n)).gsmsdpClearLocalOfferSrtp) :=
    ⟨h.1.mono (by omega), ofCall_generate _ n⟩
  have hoffered : KeysOfCall random n (m.useOfferedKey.gsmsdpClearLocalOfferSrtp) := ⟨h.1, h.1⟩
  simp only [Media.gsmsdpUpdateCryptoTransmitKey]
  split_ifs <;> first | exact h | exact hgenerated | exact hoffered

/-- The entry of a call has keys of the call only. -/
def OwnKeys (random : ℕ → Random) (s : Call) : Prop :=
  ∀ m ∈ s.media, KeysOfCall random s.drawn m

theorem ownKeys_offerLine (h : KeysOfCall random s.drawn m)
    (direction : DirectionAttr) : OwnKeys random (s.offerLine random m direction) := by
  intro m' hm'
  obtain rfl : _ = m' := Option.some.inj hm'
  exact h.gsmsdpUpdateLocalSdpMediaTransport

theorem OwnKeys.gsmsdpResetLocalSdpMedia (h : OwnKeys random s) (hold : Bool) (direction : DirectionAttr) :
    OwnKeys random (s.gsmsdpResetLocalSdpMedia cfg random hold direction) := by
  cases hm : s.media with
  | none => simp [OwnKeys, Call.gsmsdpResetLocalSdpMedia, hm]
  | some m =>
    simp only [Call.gsmsdpResetLocalSdpMedia, hm]
    refine ownKeys_offerLine ?_ direction
    simp only [Media.gsmsdpResetSdpMediaTransport]
    split_ifs
    · exact h m hm
    · exact keysOfCall_init _ rfl
    · exact h m hm

theorem ownKeys_gsmsdpUpdateLocalSdp (h : KeysOfCall random s.drawn m)
    (offer newMedia : Bool) : OwnKeys random (s.gsmsdpUpdateLocalSdp random r offer newMedia m) := by
  have hkey := h.gsmsdpUpdateCryptoTransmitKey offer newMedia r.direction
  simp only [gsmsdpUpdateLocalSdp]
  by_cases hbuild : offer = true ∨ r.multicast = true
  · rw [if_pos hbuild]
    intro m' hm'
    obtain rfl : _ = m' := Option.some.inj hm'
    exact hkey.gsmsdpUpdateLocalSdpMediaTransport
  · rw [if_neg hbuild]
    intro m' hm'
    obtain rfl : _ = m' := Option.some.inj hm'
    exact hkey

theorem ownKeys_negotiateLine (h : KeysOfCall random s.drawn m)
    (offer newMedia : Bool) : OwnKeys random (s.negotiateLine cfg random r offer newMedia m) := by
  simp only [negotiateLine]
  split_ifs with hrej
  · simp [OwnKeys, Call.rejectLine]
  · refine ownKeys_gsmsdpUpdateLocalSdp ?_ offer newMedia
    simp only [Media.gsmsdpUpdateNegotiatedTransport]
    split_ifs <;> exact h

theorem OwnKeys.step (h : OwnKeys random s) (cfg : Config) (op : Op) : OwnKeys random (s.step cfg random {} op) := by
  cases op with
  | offer supportSecurity direction =>
    cases hm : s.media with
    | none =>
      simp only [Call.step, gsmsdpAddMediaLine, hm]
      exact ownKeys_offerLine (keysOfCall_init _ rfl) direction
    | some m => simpa [Call.step, gsmsdpAddMediaLine, hm] using h
  | hold direction => exact h.gsmsdpResetLocalSdpMedia true direction
  | resume direction => exact h.gsmsdpResetLocalSdpMedia false direction
  | reoffer => exact h
  | remove => simp [OwnKeys, Call.step]
  | remoteOffer r supportSecurity =>
    cases hm : s.media with
    | none =>
      simp only [Call.step, gsmsdpNegotiateOfferSdp, hm]
      exact ownKeys_negotiateLine (keysOfCall_init _ rfl) true true
    | some m =>
      simp only [Call.step, gsmsdpNegotiateOfferSdp, hm]
      exact ownKeys_negotiateLine (h m hm) true false
  | remoteAnswer r =>
    cases hm : s.media with
    | none => simp [Call.step, gsmsdpNegotiateAnswerSdp, hm, OwnKeys, Call.rejectLine]
    | some m =>
      simp only [Call.step, gsmsdpNegotiateAnswerSdp, hm]
      exact ownKeys_negotiateLine (h m hm) false false

theorem OwnKeys.generated (h : OwnKeys random s) {k : CryptoKey} (hk : k ∈ (seen s).2) : s.Generated random k := by
  cases hm : s.media with
  | none => simp [seen, hm] at hk
  | some m =>
    simp only [seen, hm, Option.bind_some, Media.usedKey] at hk
    split_ifs at hk with hused
    · obtain rfl : m.negotiatedCrypto.txKey = k := by simpa using hk
      refine (h m hm).2.resolve_left ?_
      simpa [Media.gsmsdpIsCryptoReady, hused.1] using hused.2
    · simp at hk

/-- **Each key that is used was generated in the call**, when no operation looks at the keys of the
records: the run is alike one that starts from empty records. -/
theorem Alike.generated (h : s₁.Alike src s₂) (hown : OwnKeys random s₂)
    {records : ℕ → MediaCrypto} (hclean : RunClean cfg random records s₁ src ops) :
    ∀ s ∈ states cfg random records s₁ ops, ∀ k ∈ (seen s).2, s.Generated random k := by
  induction ops generalizing s₁ s₂ src records with
  | nil => simp [states]
  | cons op ops ih =>
    have hstep := h.step hclean.1 random (records 0) {}
    have hown' := hown.step cfg op
    simp only [states, List.mem_cons, forall_eq_or_imp]
    refine ⟨fun k hk => ?_, ih hstep hown' hclean.2⟩
    rw [hstep.seen_eq] at hk
    simpa [Generated, hstep.drawn] using hown'.generated hk

/-! ## Runs that look at the records -/

def leftKey (byte : UInt8) : CryptoKey where
  key := [byte]

/-- A record with an offer that was not answered, and a key. -/
def leftRecord (byte : UInt8) : MediaCrypto where
  localCrypto := { tag := 1, key := leftKey byte }
  negotiatedCrypto := { txKey := leftKey byte }

/-- The keys that come from the record are the ones left in it. -/
def HoldsLeft (byte : UInt8) (src : Source) (s : Call) : Prop :=
  ∀ m ∈ s.media, (src = .record → m.gsmsdpLocalOfferSrtp = true ∧
      m.localCrypto.key = leftKey byte ∧ m.negotiatedCrypto.txKey = leftKey byte) ∧
    (src = .answers → m.localCrypto.key = leftKey byte)

variable {byte : UInt8}

theorem usedKey_of_txKey (hsavp : m.transport = .rtpsavp)
    (hkey : m.negotiatedCrypto.txKey = leftKey byte) : m.usedKey = some (leftKey byte) := by
  simp [Media.usedKey, Media.gsmsdpIsCryptoReady, hsavp, hkey, leftKey]

theorem txKey_of_left (random : Random) (direction : DirectionAttr)
    (hsavp : m.transport = .rtpsavp) (hwait : m.gsmsdpLocalOfferSrtp = true)
    (hlocal : m.localCrypto.key = leftKey byte) (htx : m.negotiatedCrypto.txKey = leftKey byte) :
    (m.gsmsdpUpdateCryptoTransmitKey random true false direction).1.negotiatedCrypto.txKey = leftKey byte := by
  simp only [Media.gsmsdpUpdateCryptoTransmitKey, hsavp, hwait, ne_eq, not_true_eq_false,
    Bool.false_eq_true, if_false, if_true]
  split_ifs <;> first | exact htx | exact hlocal

/-- **An operation that looks at the keys of the record uses them.** -/
theorem HoldsLeft.usedKey (h : s₁.Alike src s₂) (hleft : HoldsLeft byte src s₁) {op : Op}
    (hnot : ¬ OpClean cfg s₁ src op) (record : MediaCrypto) :
    (seen (s₁.step cfg random record op)).2 = some (leftKey byte) := by
  cases op with
  | remoteOffer r supportSecurity =>
    simp only [OpClean, not_forall] at hnot
    obtain ⟨rfl, m, hm, hsome⟩ := hnot
    obtain ⟨inst, hsome⟩ := Option.ne_none_iff_exists'.1 hsome
    obtain ⟨hwait, hlocal, htx⟩ := (hleft m hm).1 rfl
    simp only [Option.mem_def] at hm
    have htag : (agreed r m inst .rtpsavp).negotiatedCrypto.tag ≠ invalidValue := by
      simpa [agreed, Media.gsmsdpUpdateNegotiatedTransport] using (agreedOn_eq_some hsome).2.2.2.2.1 rfl
    simp only [Call.step, gsmsdpNegotiateOfferSdp, hm, negotiateLine_of_agreedOn hsome,
      gsmsdpUpdateLocalSdp_of_eq transport_agreed htag, seen, Option.bind_some]
    refine usedKey_of_txKey ?_ ?_
    · exact (Media.gsmsdpUpdateCryptoTransmitKey_spec _ _ _ _ transport_agreed).1
    · exact txKey_of_left _ _ transport_agreed hwait hlocal htx
  | remoteAnswer r =>
    simp only [OpClean, not_forall] at hnot
    obtain ⟨rfl, m, hm, hsome⟩ := hnot
    obtain ⟨inst, hsome⟩ := Option.ne_none_iff_exists'.1 hsome
    have hlocal := (hleft m hm).2 rfl
    obtain ⟨m₂, -, hagreed⟩ := h.exists_some hm
    have hagreed : m.SameAgreed m₂ := hagreed
    -- the tag of the answer is the one that was agreed on before
    have htag : r.tag inst ≠ invalidValue := by
      rw [((agreedOn_eq_some hsome).2.2.2.2.2 rfl).1, Media.advertised, hagreed.idle₁]
      exact hagreed.valid
    obtain ⟨m', hm', hsavp, -, -, -, htx, -⟩ := Call.negotiateLine_of_some random false hsome htag
    simp only [Option.mem_def] at hm
    simp only [Call.step, gsmsdpNegotiateAnswerSdp, hm, seen, hm', Option.bind_some]
    exact usedKey_of_txKey hsavp (by rw [htx rfl rfl, hlocal])
  | _ => exact absurd trivial hnot

theorem keys_negotiateLine_of_none {offer : Bool} {m' : Media} (hnone : s.agreedOn cfg r offer m = none)
    (hm' : m' ∈ (s.negotiateLine cfg random r offer newMedia m).media) :
    m'.localCrypto = m.localCrypto ∧ m'.negotiatedCrypto.txKey = m.negotiatedCrypto.txKey := by
  rw [negotiateLine_of_not_agreedOn hnone] at hm'
  simp only at hm'
  generalize m.gsmsdpNegotiateMediaTransport cfg r offer (s.localLine.elim .invalid LocalLine.transport) = n at hm'
  split_ifs at hm' with hrej
  · simp [Call.rejectLine] at hm'
  · have htransport : n.1 ≠ .rtpsavp := by tauto
    rw [gsmsdpUpdateLocalSdp_of_ne (by rwa [transport_agreed])] at hm'
    obtain rfl : _ = m' := Option.some.inj hm'
    simp [agreed, Media.gsmsdpUpdateNegotiatedTransport, htransport]

theorem localKey_negotiateLine {m' : Media} (hm' : m' ∈ (s.negotiateLine cfg random r true newMedia m).media) :
    m'.localCrypto.key = m.localCrypto.key := by
  cases hagreed : s.agreedOn cfg r true m with
  | none => rw [(keys_negotiateLine_of_none hagreed hm').1]
  | some inst =>
    have htag : (agreed r m inst .rtpsavp).negotiatedCrypto.tag ≠ invalidValue := by
      simpa [agreed, Media.gsmsdpUpdateNegotiatedTransport] using (agreedOn_eq_some hagreed).2.2.2.2.1 rfl
    rw [negotiateLine_of_agreedOn hagreed, gsmsdpUpdateLocalSdp_of_eq transport_agreed htag] at hm'
    obtain rfl : _ = m' := Option.some.inj hm'
    simp only [Media.gsmsdpUpdateCryptoTransmitKey]
    split_ifs <;> simp [Media.gsmsdpClearLocalOfferSrtp, Media.generateTxKey, Media.useOfferedKey,
      agreed, Media.gsmsdpUpdateNegotiatedTransport]

theorem HoldsLeft.gsmsdpResetLocalSdpMedia (h : s₁.Alike src s₂)
    (hleft : HoldsLeft byte src s₁) {hold : Bool} (hkeep : hold = true ∨ cfg.ccm = false)
    (direction : DirectionAttr) :
    HoldsLeft byte src (s₁.gsmsdpResetLocalSdpMedia cfg random hold direction) := by
  cases hm : s₁.media with
  | none => simp [HoldsLeft, Call.gsmsdpResetLocalSdpMedia, hm]
  | some m =>
    obtain ⟨m₂, -, halike⟩ := h.exists_some hm
    have hreset : m.gsmsdpResetSdpMediaTransport cfg hold = m := by
      rcases hkeep with rfl | hccm <;> simp [Media.gsmsdpResetSdpMediaTransport, *]
    have hline : src ≠ .call → (m.gsmsdpUpdateLocalSdpMediaTransport (random s₁.drawn)).1 = m := by
      intro hsrc
      by_cases hsavp : m.transport = .rtpsavp
      · cases src with
        | record => exact absurd hsavp halike.2
        | answers =>
          rw [Media.gsmsdpUpdateLocalSdpMediaTransport_of_tag _ hsavp (Media.SameAgreed.valid halike)]
        | call => exact absurd rfl hsrc
      · rw [Media.gsmsdpUpdateLocalSdpMediaTransport_of_ne _ hsavp]
    intro m' hm'
    simp only [Call.gsmsdpResetLocalSdpMedia, hm, Call.offerLine, hreset] at hm'
    obtain rfl : _ = m' := Option.some.inj hm'
    cases src with
    | call => exact ⟨(by rintro ⟨⟩), (by rintro ⟨⟩)⟩
    | record => simpa [hline (by rintro ⟨⟩), Media.gsmsdpLocalOfferSrtp] using hleft m hm
    | answers => simpa [hline (by rintro ⟨⟩)] using hleft m hm

/-- An operation that does not look at the keys of the record leaves them there. -/
theorem HoldsLeft.step (h : s₁.Alike src s₂) (hleft : HoldsLeft byte src s₁) {op : Op}
    (hclean : OpClean cfg s₁ src op) :
    HoldsLeft byte (nextSource cfg s₁ src op) (s₁.step cfg random (leftRecord byte) op) := by
  cases op with
  | offer supportSecurity direction =>
    cases hm : s₁.media with
    | none => simp [HoldsLeft, nextSource, hm]
    | some m => simpa [nextSource, Call.step, gsmsdpAddMediaLine, hm] using hleft
  | hold direction =>
    have hreset : HoldsLeft byte src (s₁.gsmsdpResetLocalSdpMedia cfg random true direction) :=
      hleft.gsmsdpResetLocalSdpMedia h (.inl rfl) direction
    exact hreset
  | resume direction =>
    by_cases hinit : s₁.media.isSome ∧ cfg.ccm = true
    · simp [HoldsLeft, nextSource, hinit]
    · simp only [nextSource, hinit, if_false, Call.step]
      cases hm : s₁.media with
      | none => simp [HoldsLeft, Call.gsmsdpResetLocalSdpMedia, hm]
      | some m =>
        exact hleft.gsmsdpResetLocalSdpMedia h (.inr (by simpa [hm] using hinit)) direction
  | reoffer => exact hleft
  | remove => simp [HoldsLeft, Call.step]
  | remoteOffer r supportSecurity =>
    cases hm : s₁.media with
    | none =>
      simp only [Call.step, gsmsdpNegotiateOfferSdp, hm, nextSource, Option.isSome_none, Bool.false_eq_true, if_false]
      intro m' hm'
      refine ⟨fun hsrc => ?_, fun _ => by rw [localKey_negotiateLine hm']; rfl⟩
      have hnone : s₁.agreedOn cfg r true { gsmsdpInitMedia (leftRecord byte) with supportSecurity } = none := by
        have hcongr : s₁.agreedOn cfg r true { gsmsdpInitMedia (leftRecord byte) with supportSecurity } =
          s₁.agreedOn cfg r true { supportSecurity } := agreedOn_offer_congr rfl
        rw [hcongr]
        by_contra hne
        obtain ⟨inst, hsome⟩ := Option.ne_none_iff_exists'.1 hne
        simp [hsome] at hsrc
      obtain ⟨hlocal, htx⟩ := keys_negotiateLine_of_none hnone hm'
      refine ⟨?_, by rw [hlocal]; rfl, by rw [htx]; rfl⟩
      simpa [Media.gsmsdpLocalOfferSrtp, hlocal, gsmsdpInitMedia, leftRecord] using Media.one_ne_invalidValue
    | some m =>
      simp only [Call.step, gsmsdpNegotiateOfferSdp, hm, nextSource, Option.isSome_some, if_true]
      intro m' hm'
      refine ⟨fun hsrc => ?_, fun hsrc => by rw [localKey_negotiateLine hm', (hleft m hm).2 hsrc]⟩
      obtain ⟨hlocal, htx⟩ := keys_negotiateLine_of_none (hclean hsrc m hm) hm'
      simpa [Media.gsmsdpLocalOfferSrtp, hlocal, htx] using (hleft m hm).1 hsrc
  | remoteAnswer r =>
    simp only [nextSource]
    cases hm : s₁.media with
    | none => simp [HoldsLeft, Call.step, gsmsdpNegotiateAnswerSdp, hm, Call.rejectLine]
    | some m =>
      intro m' hm'
      simp only [Call.step, gsmsdpNegotiateAnswerSdp, hm] at hm'
      cases src with
      | call => exact ⟨(by rintro ⟨⟩), (by rintro ⟨⟩)⟩
      | answers =>
        obtain ⟨hlocal, -⟩ := keys_negotiateLine_of_none (hclean rfl m hm) hm'
        exact ⟨(by rintro ⟨⟩), fun _ => by rw [hlocal, (hleft m hm).2 rfl]⟩
      | record =>
        -- a line without keys is not answered with keys
        have hnone : s₁.agreedOn cfg r false m = none := by
          by_contra hne
          obtain ⟨inst, hsome⟩ := Option.ne_none_iff_exists'.1 hne
          obtain ⟨-, l, hl, hsavp⟩ := (agreedOn_eq_some hsome).2.2.2.2.2 rfl
          exact h.plain rfl l hl hsavp
        obtain ⟨hlocal, htx⟩ := keys_negotiateLine_of_none hnone hm'
        refine ⟨fun _ => ?_, (by rintro ⟨⟩)⟩
        simpa [Media.gsmsdpLocalOfferSrtp, hlocal, htx] using (hleft m hm).1 rfl

/-- **A run that looks at the records shows the key left in them.** -/
theorem HoldsLeft.exists_seen (h : s₁.Alike src s₂) (hleft : HoldsLeft byte src s₁)
    (hnot : ¬ RunClean cfg random (fun _ => leftRecord byte) s₁ src ops) :
    ∃ s ∈ states cfg random (fun _ => leftRecord byte) s₁ ops, (seen s).2 = some (leftKey byte) := by
  induction ops generalizing s₁ s₂ src with
  | nil => exact absurd trivial hnot
  | cons op ops ih =>
    simp only [states, List.mem_cons]
    by_cases hclean : OpClean cfg s₁ src op
    · have hrest : ¬ RunClean cfg random (fun _ => leftRecord byte)
          (s₁.step cfg random (leftRecord byte) op) (nextSource cfg s₁ src op) ops :=
        fun hrest => hnot ⟨hclean, hrest⟩
      obtain ⟨s, hs, hkey⟩ := ih (h.step hclean random (leftRecord byte) {}) (hleft.step h hclean) hrest
      exact ⟨s, .inr hs, hkey⟩
    · exact ⟨_, .inl rfl, hleft.usedKey h hclean _⟩

theorem not_generated_leftKey (s : Call) (byte : UInt8) : ¬ s.Generated random (leftKey byte) := by
  rintro ⟨i, -, algorithmId, hkey⟩
  have hlen := congrArg (fun k => k.key.length) hkey
  simp [leftKey, gsmsdpGenerateKey, aes128CounterKeySize, maxKeySize] at hlen

/-- **No keys cross calls** if and only if

- the other side does not lead us to SRTP with an offer for an entry that was made for an offer without, and
- the other side does not lead us to SRTP with an answer for an entry that was made for an offer with,

unless the keys of the entry have been initialised in between, as a resumption does when the line is
registered with a call manager. -/
theorem keysStayInCall_iff (cfg : Config) (random : ℕ → Random) (ops : List Op) :
    KeysStayInCall cfg random ops ↔ ∀ records, RunClean cfg random records {} .call ops := by
  have hinit : ({} : Call).Alike .call {} := alike_call fun _ => rfl
  constructor
  · rintro ⟨-, hgenerated⟩ records
    by_contra hnot
    have hnot' : ¬ RunClean cfg random (fun _ => leftRecord 0) {} .call ops :=
      fun hclean => hnot (hinit.runClean hclean)
    obtain ⟨s, hs, hkey⟩ :=
      HoldsLeft.exists_seen hinit (by simp [HoldsLeft]) hnot'
    exact not_generated_leftKey s 0 (hgenerated _ s hs _ hkey)
  · intro hclean
    refine ⟨fun records₁ records₂ => hinit.map_seen_states (hclean records₁), fun records => ?_⟩
    exact hinit.generated (by simp [OwnKeys]) (hclean records)

/-- The record that an outgoing call has left, with the key that it has used. -/
def usedRecord : MediaCrypto :=
  ((run encryptedLine countedBytes (fun _ => {}) {}
    [.offer true .sendrecv, .remoteAnswer (cryptoLine 1 0xA0)]).media.elim {} Media.toMediaCrypto)

/-- **The key of an earlier call is used** when a later call is offered to us, held and resumed: the answer
to our offer takes the key of `local_crypto`, which was not set in the call. -/
theorem not_keysStayInCall :
    ¬ KeysStayInCall encryptedLine countedBytes heldAndResumed ∧
      ((states encryptedLine countedBytes (fun _ => usedRecord) {} heldAndResumed).map seen).getLast?.bind
        Prod.snd = some usedRecord.localCrypto.key := by
  have hused : ((states encryptedLine countedBytes (fun _ => usedRecord) {} heldAndResumed).map
      seen).getLast?.bind Prod.snd = some usedRecord.localCrypto.key := by decide
  have hempty : ((states encryptedLine countedBytes (fun _ => {}) {} heldAndResumed).map
      seen).getLast?.bind Prod.snd ≠ some usedRecord.localCrypto.key := by decide
  exact ⟨fun h => hempty (h.1 (fun _ => usedRecord) (fun _ => {}) ▸ hused), hused⟩

end Call

end Srtp

end Gsm
