import Ikran.Httpish.Framing
import Ikran.Lib.Framing
import Ikran.Tcp.Send
import Mathlib.Data.List.Forall2

/-!
# TCP input

`sip_tcp_read_socket` reads from a connection, and `sip_tcp_newmsg_to_spi` hands the messages to the SIP
task that are complete. The bytes of a message that is not are saved, and the next read appends to them.

The model is that of a connected socket; a connection that the peer closes is not followed further. The
saved bytes are copied as a string, so that the copy is only the saved text when no terminator is inside.
-/

namespace Tcp

open Httpish Frames

/-! ## Reads -/

def cprMaxMsgSize : ℕ := 4096

/-- The bytes of a read that succeeds. -/
structure Chunk where
  bytes : CStr
  ne_nil : bytes ≠ []
  length_le : bytes.length ≤ cprMaxMsgSize

/-- What `sipSocketRecv` finds. -/
inductive Recv
  | data (chunk : Chunk)
  | wouldBlock

def Recv.bytes : Recv → CStr
  | .data chunk => chunk.bytes
  | .wouldBlock => []

/-- The input of a connection: the bytes that are saved, and the messages that have been handed to
`SIPTaskProcessTCPMessage`. -/
structure Input where
  prevMsg : CStr := []
  prevBytes : ℕ := 0
  handed : List HttpishMsg := []

/-- The results of `ccsip_process_network_message`. -/
inductive NetworkMessage
  | success (msg : HttpishMsg) (bytesUsed : ℕ)
  | incompleteErr
  | parseErr

def ccsipProcessNetworkMessage (buf : CStr) (nbytes : ℕ) : NetworkMessage :=
  match msgProcessNetworkMsg {} buf nbytes with
  | (.failure, _, _) => .parseErr
  | (.success, msg, bytesUsed) => if msg.isComplete then .success msg bytesUsed else .incompleteErr

/-- `cpr_strdup`. -/
def strdup (s : CStr) : CStr := s.takeWhile (· != CStr.nul)

/-- The loop of `sip_tcp_newmsg_to_spi`, with the fuel for `fuel` messages. -/
def newmsgToSpi : ℕ → CStr → ℕ → Input → Input
  | 0, _, _, c => c
  | fuel + 1, buf, nbytes, c =>
    match ccsipProcessNetworkMessage buf nbytes with
    | .success msg used =>
      let c := { c with handed := c.handed ++ [msg] }
      if 0 < nbytes - used then newmsgToSpi fuel (buf.drop used) (nbytes - used) c else c
    | .incompleteErr => { c with prevMsg := strdup buf, prevBytes := nbytes }
    | .parseErr => c

def sipTcpNewmsgToSpi (buf : CStr) (nbytes : ℕ) (c : Input) : Input := newmsgToSpi nbytes buf nbytes c

def sipTcpReadSocket (c : Input) : Recv → Input
  | .data chunk =>
    if c.prevBytes = 0 then sipTcpNewmsgToSpi chunk.bytes chunk.bytes.length c
    -- too much is saved, and dropped
    else if maxPayloadSize + 1 < chunk.bytes.length + c.prevBytes then { c with prevBytes := 0 }
    else
      sipTcpNewmsgToSpi (c.prevMsg ++ chunk.bytes) (c.prevBytes + chunk.bytes.length)
        { c with prevBytes := 0 }
  -- the saved bytes are freed
  | .wouldBlock => { c with prevBytes := 0 }

/-- A message that a peer sends: it is well formed, has a content type if it has a body, and is not longer
than the bytes that may be saved. -/
structure Sendable (m : Message) : Prop where
  wellFormed : m.WellFormed
  start_unfolded : isBlank m.start.peek = false
  typed : m.body ≠ [] → headerValues .contentType m.lines ≠ []
  length_le : m.text.length ≤ maxPayloadSize + 1

/-- The messages that have been handed on are those that have arrived completely. -/
def Framed (ms : List Message) (s : CStr) (c : Input) : Prop :=
  ∃ done rest, Cut Message.text ms s done rest ∧ List.Forall₂ Represents c.handed done

/-- The messages that have been handed on are those that have arrived completely, after every read. -/
def AlwaysFramed (ms : List Message) : List Recv → CStr → Input → Prop
  | [], s, c => Framed ms s c
  | r :: reads, s, c => Framed ms s c ∧ AlwaysFramed ms reads (s ++ r.bytes) (sipTcpReadSocket c r)

/-- The bytes end in front of the last byte of a message without a body. -/
def MissesLineFeed (ms : List Message) (s : CStr) : Prop :=
  ∃ done m todo, ms = done ++ m :: todo ∧ m.body = [] ∧
    s.length + 1 = ((done ++ [m]).flatMap Message.text).length

/-- A read that the code can cope with: the socket does not block while bytes are saved, the bytes that are
saved and read are not too many, and the empty line of a message without a body is not cut. -/
def TimelyRead (ms : List Message) (s : CStr) (c : Input) : Recv → Prop
  | .data chunk =>
    (c.prevBytes = 0 ∨ chunk.bytes.length + c.prevBytes ≤ maxPayloadSize + 1) ∧
      ¬ MissesLineFeed ms (s ++ chunk.bytes)
  | .wouldBlock => c.prevBytes = 0

/-- All reads are of that kind. -/
def Timely (ms : List Message) : List Recv → CStr → Input → Prop
  | [], _, _ => True
  | r :: reads, s, c => TimelyRead ms s c r ∧ Timely ms reads (s ++ r.bytes) (sipTcpReadSocket c r)

/-! ## One buffer -/

theorem text_ne_nil (m : Message) : m.text ≠ [] := by
  have hlen : 0 < m.head.length := by
    rw [Message.head, List.length_append]
    exact Nat.lt_of_lt_of_le (by decide) (Nat.le_add_left CStr.crlf.length _)
  exact List.append_ne_nil_of_left_ne_nil (List.length_pos_iff.mp hlen) _

theorem nulFree_linesText {lines : List CStr} (h : ∀ l ∈ lines, NulFree l) : NulFree (linesText lines) := by
  intro hmem
  obtain ⟨l, hl, hmem⟩ := List.mem_flatMap.mp hmem
  rcases List.mem_append.mp hmem with hmem | hmem
  · exact h l hl hmem
  · exact absurd hmem (by decide)

theorem Sendable.nulFree {m : Message} (h : Sendable m) : NulFree m.text := by
  refine NulFree.append (NulFree.append (nulFree_linesText fun l hl => ?_) (by decide))
    h.wellFormed.body
  rcases List.mem_cons.mp hl with rfl | hl
  · exact h.wellFormed.start_plain.nulFree
  · exact (h.wellFormed.lines l hl).plain.nulFree

theorem strdup_of_nulFree {s : CStr} (h : NulFree s) : strdup s = s := by
  refine List.takeWhile_eq_self_iff.mpr fun c hc => ?_
  rw [bne_iff_ne]
  rintro rfl
  exact h hc

variable {ms : List Message}

theorem isBlank_peek_flatMap (hms : ∀ m ∈ ms, Sendable m) : isBlank (CStr.peek (ms.flatMap Message.text)) = false := by
  cases ms with
  | nil => rfl
  | cons m ms =>
    have hm := hms m List.mem_cons_self
    obtain ⟨c, start, hstart⟩ := List.exists_cons_of_ne_nil hm.wellFormed.start_ne_nil
    have hunfolded := hm.start_unfolded
    rw [hstart] at hunfolded
    rw [List.flatMap_cons, Message.text, m.head_eq, hstart]
    exact hunfolded

theorem Sendable.length_body {m : Message} (h : Sendable m) : m.body.length < 2 ^ 31 := by
  have hle := h.length_le
  rw [Message.text, List.length_append, maxPayloadSize] at hle
  omega

variable {c : Input}

/-- What is handed on and saved of a buffer with bytes of some messages. -/
theorem newmsgToSpi_spec (hms : ∀ m ∈ ms, Sendable m)
    (hblank : ∀ m ∈ ms, isBlank m.body.peek = false) {fuel : ℕ} {buf : CStr}
    (hne : buf ≠ []) (hbuf : buf <+: ms.flatMap Message.text) (hfuel : buf.length ≤ fuel)
    (hcut : ¬ MissesLineFeed ms buf) (hc : c.prevBytes = 0) :
    ∃ done rest handed, Cut Message.text ms buf done rest ∧ List.Forall₂ Represents handed done ∧
      (newmsgToSpi fuel buf buf.length c).handed = c.handed ++ handed ∧
      (newmsgToSpi fuel buf buf.length c).prevBytes = rest.length ∧
      (rest ≠ [] → (newmsgToSpi fuel buf buf.length c).prevMsg = rest) := by
  induction ms generalizing fuel buf c with
  | nil => exact absurd (List.prefix_nil.mp hbuf) hne
  | cons m ms ih =>
    have hm := hms m List.mem_cons_self
    have hrest : ∀ m ∈ ms, Sendable m := fun m hm => hms m (List.mem_cons_of_mem _ hm)
    have hpos := List.length_pos_iff.mpr hne
    obtain ⟨fuel, rfl⟩ := Nat.exists_eq_add_of_lt (Nat.lt_of_lt_of_le hpos hfuel)
    rw [List.flatMap_cons] at hbuf
    rcases Nat.lt_or_ge buf.length m.text.length with hlt | hge
    · -- the message is not complete
      have hpre : buf <+: m.text := List.prefix_of_prefix_length_le hbuf (List.prefix_append _ _) (Nat.le_of_lt hlt)
      have hshort : m.body = [] → buf.length + 1 ≠ m.text.length := by
        intro hbody heq
        refine hcut ⟨[], m, ms, rfl, hbody, ?_⟩
        rw [heq, List.nil_append, List.flatMap_cons, List.flatMap_nil, List.append_nil]
      obtain ⟨hstatus, hcomplete⟩ := parse_firstBytes hm.wellFormed (hblank m List.mem_cons_self)
        hm.length_body hne hpre hlt hshort
      have hresult : ccsipProcessNetworkMessage buf buf.length = .incompleteErr := by
        unfold ccsipProcessNetworkMessage
        rw [parse] at hstatus hcomplete
        generalize msgProcessNetworkMsg {} buf buf.length = result at hstatus hcomplete
        obtain ⟨status, msg, used⟩ := result
        obtain rfl : status = .success := hstatus
        exact if_neg (by rw [hcomplete]; decide)
      have hfree : NulFree buf := fun hmem => hm.nulFree (hpre.subset hmem)
      refine ⟨[], buf, [], ⟨rfl, m :: ms, rfl, hpre, hlt⟩, .nil, ?_⟩
      rw [newmsgToSpi, hresult]
      exact ⟨(List.append_nil _).symm, rfl, fun _ => strdup_of_nulFree hfree⟩
    · -- the message is complete, and the loop goes on behind it
      obtain ⟨t, rfl⟩ : ∃ t, buf = m.text ++ t :=
        let ⟨t, ht⟩ := List.prefix_of_prefix_length_le (List.prefix_append _ _) hbuf hge
        ⟨t, ht.symm⟩
      have ht : t <+: ms.flatMap Message.text := (List.prefix_append_right_inj _).mp hbuf
      have hpeek : isBlank (CStr.peek (m.body ++ t)) = false := by
        by_cases hbody : m.body = []
        · rw [hbody, List.nil_append]
          exact isBlank_peek_of_isPrefix (isBlank_peek_flatMap hrest) ht
        · rw [CStr.peek_append_of_ne_nil hbody]
          exact hblank m List.mem_cons_self
      obtain ⟨msg, hparse, hrep⟩ := parse_text hm.wellFormed hm.length_body hm.typed hpeek
      have hresult : ccsipProcessNetworkMessage (m.text ++ t) (m.text ++ t).length = .success msg m.text.length := by
        unfold ccsipProcessNetworkMessage
        rw [parse] at hparse
        rw [hparse]
        exact if_pos hrep.isComplete
      have hleft : (m.text ++ t).length - m.text.length = t.length := by
        rw [List.length_append, Nat.add_sub_cancel_left]
      rw [newmsgToSpi, hresult]
      simp only [hleft, List.drop_left]
      by_cases hnil : t = []
      · subst hnil
        refine ⟨[m], [], [msg], ?_, .cons hrep .nil, ?_⟩
        · exact (cut_nil fun m _ => text_ne_nil m).cons m
        · simp [hc]
      · rw [if_pos (List.length_pos_iff.mpr hnil)]
        have htfuel : t.length ≤ 0 + fuel := by
          have htext := List.length_pos_iff.mpr (text_ne_nil m)
          rw [List.length_append] at hfuel
          omega
        have hcut' : ¬ MissesLineFeed ms t := by
          rintro ⟨done, m', todo, rfl, hbody, hlen⟩
          refine hcut ⟨m :: done, m', todo, rfl, hbody, ?_⟩
          rw [List.cons_append, List.flatMap_cons, List.length_append, List.length_append]
          omega
        obtain ⟨done, rest, handed, hcut'', hreps, hhanded, hbytes, hmsg⟩ :=
          ih hrest (fun m hm => hblank m (List.mem_cons_of_mem _ hm))
            (c := { c with handed := c.handed ++ [msg] }) hnil ht htfuel hcut' hc
        refine ⟨m :: done, rest, msg :: handed, hcut''.cons m, .cons hrep hreps, ?_, hbytes, hmsg⟩
        rw [hhanded, List.append_assoc]
        rfl

/-! ## All reads -/

/-- The messages that have been handed on are those that have arrived completely, and the bytes of the next
one are saved. -/
def Synced (ms : List Message) (s : CStr) (c : Input) : Prop :=
  ∃ done rest, Cut Message.text ms s done rest ∧ List.Forall₂ Represents c.handed done ∧
    c.prevBytes = rest.length ∧ (rest ≠ [] → c.prevMsg = rest)

theorem Synced.framed {s : CStr} (h : Synced ms s c) : Framed ms s c := by
  obtain ⟨done, rest, hcut, hreps, -⟩ := h
  exact ⟨done, rest, hcut, hreps⟩

theorem synced_start (ms : List Message) : Synced ms [] {} :=
  ⟨[], [], cut_nil fun m _ => text_ne_nil m, .nil, rfl, fun h => absurd rfl h⟩

theorem sipTcpReadSocket_data {chunk : Chunk} {rest : CStr}
    (hsize : c.prevBytes = 0 ∨ chunk.bytes.length + c.prevBytes ≤ maxPayloadSize + 1)
    (hbytes : c.prevBytes = rest.length) (hmsg : rest ≠ [] → c.prevMsg = rest) :
    sipTcpReadSocket c (.data chunk) =
      newmsgToSpi (rest ++ chunk.bytes).length (rest ++ chunk.bytes) (rest ++ chunk.bytes).length
        { c with prevBytes := 0 } := by
  rw [sipTcpReadSocket]
  by_cases hrest : rest = []
  · subst hrest
    obtain ⟨prevMsg, prevBytes, handed⟩ := c
    obtain rfl : prevBytes = 0 := hbytes
    rw [if_pos rfl, List.nil_append]
    rfl
  · have hpos : c.prevBytes ≠ 0 := by
      rw [hbytes]
      exact fun hzero => hrest (List.length_eq_zero_iff.mp hzero)
    have hle := hsize.resolve_left hpos
    rw [if_neg hpos, if_neg (by omega), hmsg hrest, hbytes, List.length_append]
    rfl

theorem synced_step (hms : ∀ m ∈ ms, Sendable m) (hblank : ∀ m ∈ ms, isBlank m.body.peek = false) {s : CStr} {r : Recv}
    (h : Synced ms s c) (hbytes : s ++ r.bytes <+: ms.flatMap Message.text)
    (htimely : TimelyRead ms s c r) : Synced ms (s ++ r.bytes) (sipTcpReadSocket c r) := by
  obtain ⟨done, rest, ⟨hs, todo, htodo, hpart⟩, hreps, hprev, hmsg⟩ := h
  cases r with
  | wouldBlock =>
    -- nothing is saved that could be lost
    have hzero : c.prevBytes = 0 := htimely
    rw [Recv.bytes, List.append_nil]
    exact ⟨done, rest, ⟨hs, todo, htodo, hpart⟩, hreps, hzero.symm.trans hprev, hmsg⟩
  | data chunk =>
    obtain ⟨hsize, hcut⟩ := htimely
    change s ++ chunk.bytes <+: _ at hbytes
    have htodo' : ∀ m ∈ todo, m ∈ ms := fun m hm => htodo ▸ List.mem_append_right done hm
    have hbuf : rest ++ chunk.bytes <+: todo.flatMap Message.text := by
      rwa [hs, htodo, List.flatMap_append, List.append_assoc, List.prefix_append_right_inj] at hbytes
    have hcut' : ¬ MissesLineFeed todo (rest ++ chunk.bytes) := by
      rintro ⟨done', m, todo', rfl, hbody, hlen⟩
      refine hcut ⟨done ++ done', m, todo', by rw [htodo, List.append_assoc], hbody, ?_⟩
      rw [hs, List.append_assoc, List.append_assoc, List.flatMap_append, List.length_append,
        @List.length_append _ _ ((done' ++ [m]).flatMap _), ← hlen]
      exact Nat.add_assoc _ _ _
    rw [sipTcpReadSocket_data hsize hprev hmsg]
    obtain ⟨done', rest', handed, hcut'', hreps', hhanded, hprev', hmsg'⟩ :=
      newmsgToSpi_spec (fun m hm => hms m (htodo' m hm)) (fun m hm => hblank m (htodo' m hm))
        (c := { c with prevBytes := 0 }) (List.append_ne_nil_of_right_ne_nil rest chunk.ne_nil) hbuf le_rfl
        hcut' rfl
    refine ⟨done ++ done', rest', hcut''.append hs htodo, ?_, hprev', hmsg'⟩
    rw [hhanded]
    exact List.rel_append hreps hreps'

theorem alwaysFramed_of_synced (hms : ∀ m ∈ ms, Sendable m)
    (hblank : ∀ m ∈ ms, isBlank m.body.peek = false) {reads : List Recv} {s : CStr}
    (h : Synced ms s c) (hbytes : s ++ reads.flatMap Recv.bytes <+: ms.flatMap Message.text)
    (htimely : Timely ms reads s c) :
    AlwaysFramed ms reads s c ∧ Synced ms (s ++ reads.flatMap Recv.bytes) (reads.foldl sipTcpReadSocket c) := by
  induction reads generalizing s c with
  | nil =>
    rw [List.flatMap_nil, List.append_nil]
    exact ⟨h.framed, h⟩
  | cons r reads ih =>
    obtain ⟨hread, hreads⟩ := htimely
    rw [List.flatMap_cons, ← List.append_assoc] at hbytes ⊢
    have hstep := synced_step hms hblank h ((List.prefix_append _ _).trans hbytes) hread
    obtain ⟨halways, hend⟩ := ih hstep hbytes hreads
    exact ⟨⟨h.framed, halways⟩, hend⟩

/-- **Every message is handed on in time, and just once**, in any run of reads that the code can cope with,
if no body starts with a blank: after each read the messages that have arrived completely have been handed
on, and after the last byte of the stream all of them. -/
theorem run_framed {ms : List Message} (hms : ∀ m ∈ ms, Sendable m) {reads : List Recv}
    (hbytes : reads.flatMap Recv.bytes <+: ms.flatMap Message.text)
    (hblank : ∀ m ∈ ms, isBlank m.body.peek = false) (htimely : Timely ms reads [] {}) :
    AlwaysFramed ms reads [] {} ∧
      (reads.flatMap Recv.bytes = ms.flatMap Message.text →
        List.Forall₂ Represents (reads.foldl sipTcpReadSocket {}).handed ms) := by
  obtain ⟨halways, hend⟩ := alwaysFramed_of_synced hms hblank (synced_start ms) hbytes htimely
  refine ⟨halways, fun hall => ?_⟩
  obtain ⟨done, rest, hcut, hreps, -⟩ := hend
  rw [List.nil_append, hall] at hcut
  rwa [← hcut.done_eq]

def helloMessage : Message := textMessage "hello!"

theorem sendable_helloMessage : Sendable helloMessage where
  wellFormed := wellFormed_textMessage (by decide) rfl
  start_unfolded := by decide
  typed := fun _ hnil => by
    obtain ⟨contentType, hval, -⟩ := singleType_textMessage "hello!"
    change joinValues (headerValues .contentType helloMessage.lines) = _ at hval
    rw [hnil] at hval
    exact absurd hval (by simp [joinValues])
  length_le := by decide

def helloChunk : Chunk := ⟨helloMessage.text.take 10, by decide, by decide⟩

def helloRest : Chunk := ⟨helloMessage.text.drop 10, by decide, by decide⟩

/-- The message in two parts is handed on in time. -/
theorem run_framed_helloMessage :
    AlwaysFramed [helloMessage] [.wouldBlock, .data helloChunk, .data helloRest] [] {} := by
  have hcut : ∀ s, ¬ MissesLineFeed [helloMessage] s := by
    rintro s ⟨done, m, todo, hms, hbody, -⟩
    have hmem : m ∈ [helloMessage] := hms ▸ List.mem_append_right done List.mem_cons_self
    rw [List.mem_singleton.mp hmem] at hbody
    exact absurd hbody (by decide)
  refine (@run_framed [helloMessage] ?_ _ ?_ ?_ ?_).1
  · simpa using sendable_helloMessage
  · rw [List.flatMap_cons, List.flatMap_cons, List.flatMap_cons]
    decide
  · simpa using (by decide : isBlank helloMessage.body.peek = false)
  · exact ⟨rfl, ⟨.inl rfl, hcut _⟩, ⟨.inr (by decide), hcut _⟩, trivial⟩

/-- When the socket would block behind the first bytes, then they are lost. -/
theorem not_alwaysFramed_helloMessage :
    Sendable helloMessage ∧
      ¬ AlwaysFramed [helloMessage] [.data helloChunk, .wouldBlock, .data helloRest] [] {} := by
  refine ⟨sendable_helloMessage, ?_⟩
  rintro ⟨-, -, -, done, rest, hcut, hreps⟩
  have hbytes : [] ++ Recv.bytes (.data helloChunk) ++ Recv.bytes .wouldBlock ++
      Recv.bytes (.data helloRest) = [helloMessage].flatMap Message.text := by decide
  rw [hbytes] at hcut
  rw [hcut.done_eq] at hreps
  have hlines : ([.data helloChunk, .wouldBlock, .data helloRest].foldl sipTcpReadSocket
      {}).handed.map HttpishMsg.mesgLine = [some "p:a@b SIP/2.0".toList] := by decide
  change List.Forall₂ Represents ([.data helloChunk, .wouldBlock, .data helloRest].foldl
    sipTcpReadSocket {}).handed [helloMessage] at hreps
  cases hhanded : ([.data helloChunk, .wouldBlock, .data helloRest].foldl sipTcpReadSocket
      {}).handed with
  | nil =>
    rw [hhanded] at hlines
    exact absurd hlines (by simp)
  | cons msg handed =>
    rw [hhanded] at hlines hreps
    have hstart := (List.forall₂_cons.mp hreps).1.mesgLine
    rw [List.map_cons, hstart] at hlines
    exact absurd (List.cons.inj hlines).1 (by decide)

end Tcp
