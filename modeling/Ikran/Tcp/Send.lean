import Mathlib.Algebra.Group.Nat.Defs
import Mathlib.Data.List.Basic
import Mathlib.Data.List.TakeWhile

/-!
# Sending over TCP

The output side of `ccsip_platform_tcp.c` on one open connection. What the socket does not take is
copied to a send queue, and sent from there when the socket is writable again.

The connection is open and stays open: the branches for a connection that is pending and for socket
errors other than a full socket are left out, and so are the display flag, the context and the type
of service of a queue entry.
-/

namespace Tcp

abbrev Bytes := List UInt8

/-- The parts of the platform that the output depends on. -/
structure Platform where
  accepts : ℕ → ℕ
  fresh : ℕ → ℕ → UInt8

/-- `ccsipTCPSendData_t`. -/
structure SendData where
  data : Bytes
  bytesSent : UInt16
  bytesLeft : UInt16

/-- `sip_tcp_conn_t`, with what has been written to the socket, and the numbers of calls to the socket
and of allocated blocks. -/
structure Conn where
  sendQueue : List SendData := []
  wire : Bytes := []
  sends : ℕ := 0
  allocs : ℕ := 0

def maxPayloadSize : ℕ := 12 * 4096

/-- `sipSocketSend`: the number of bytes sent, or `none` when the socket would block. -/
def sipSocketSend (pf : Platform) (buf : Bytes) (c : Conn) : Option ℕ × Conn :=
  if pf.accepts c.sends = 0 then (none, { c with sends := c.sends + 1 })
  else
    (some (min (pf.accepts c.sends) buf.length),
      { c with
        wire := c.wire ++ buf.take (min (pf.accepts c.sends) buf.length)
        sends := c.sends + 1 })

/-- The bytes that `sstrncpy` writes: at most `max - 1` bytes of the source, up to a terminator, and a
terminator. -/
def sstrncpy (src : Bytes) (max : ℕ) : Bytes := (src.take (max - 1)).takeWhile (· != 0) ++ [0]

/-- A block of `size` bytes that starts with the written bytes. -/
def block (fresh : ℕ → UInt8) (written : Bytes) (size : ℕ) : Bytes :=
  written ++ (List.range' written.length (size - written.length)).map fresh

/-- The queue entry for a buffer, in a block of fresh memory. -/
def newSendData (fresh : ℕ → UInt8) (buf : Bytes) : SendData where
  data := block fresh (sstrncpy buf buf.length) (buf.length + 1)
  bytesSent := 0
  bytesLeft := UInt16.ofNat buf.length

def sipTcpQueueSendData (pf : Platform) (buf : Bytes) (c : Conn) : Conn :=
  { c with
    sendQueue := c.sendQueue ++ [newSendData (pf.fresh c.allocs) buf], allocs := c.allocs + 1 }

/-- The bytes of a queue entry that are left to be sent. -/
def SendData.rest (d : SendData) : Bytes := (d.data.drop d.bytesSent.toNat).take d.bytesLeft.toNat

/-- The loop over the bytes of one queue entry, with the fuel for `fuel` calls: the entry, if bytes of
it are left. -/
def resendEntry (pf : Platform) : ℕ → SendData → Conn → Option SendData × Conn
  | 0, _, c => (none, c)
  | fuel + 1, d, c =>
    if d.bytesLeft = 0 then (none, c)
    else
      match sipSocketSend pf d.rest c with
      | (some k, c) =>
        resendEntry pf fuel
          { d with
            bytesSent := d.bytesSent + UInt16.ofNat k, bytesLeft := d.bytesLeft - UInt16.ofNat k } c
      | (none, c) => (some d, c)

/-- The loop over the queue. -/
def resendQueue (pf : Platform) : List SendData → Conn → List SendData × Conn
  | [], c => ([], c)
  | d :: q, c =>
    match resendEntry pf (d.bytesLeft.toNat + 1) d c with
    | (none, c) => resendQueue pf q c
    | (some d, c) => (d :: q, c)

def sipTcpResend (pf : Platform) (c : Conn) : Conn :=
  let (q, c) := resendQueue pf c.sendQueue c
  { c with sendQueue := q }

/-- The loop of `sip_tcp_channel_send`, with the fuel for `fuel` calls. -/
def sendLoop (pf : Platform) : ℕ → Bytes → Conn → Conn
  | 0, _, c => c
  | fuel + 1, buf, c =>
    if buf = [] then c
    else
      match sipSocketSend pf buf c with
      | (some k, c) => sendLoop pf fuel (buf.drop k) c
      | (none, c) => sipTcpQueueSendData pf buf c

/-- The results of `sip_tcp_channel_send` on an open connection. -/
inductive SendResult
  | sendOk | sizeError

def sipTcpChannelSend (pf : Platform) (buf : Bytes) (c : Conn) : SendResult × Conn :=
  if maxPayloadSize ≤ buf.length then (.sizeError, c)
  else if c.sendQueue ≠ [] then (.sendOk, sipTcpQueueSendData pf buf c)
  else (.sendOk, sendLoop pf buf.length buf c)

theorem length_block (fresh : ℕ → UInt8) {written : Bytes} {size : ℕ} (h : written.length ≤ size) :
    (block fresh written size).length = size := by
  simp only [block, List.length_append, List.length_map, List.length_range']
  omega

theorem length_sstrncpy_le (src : Bytes) (max : ℕ) : (sstrncpy src max).length ≤ max + 1 := by
  have htake := (List.takeWhile_prefix (l := src.take (max - 1)) (· != (0 : UInt8))).length_le
  simp only [sstrncpy, List.length_append, List.length_singleton]
  simp only [List.length_take] at htake
  omega

namespace SendData

/-- The sent and the remaining bytes are there. -/
def Fits (d : SendData) : Prop :=
  d.bytesSent.toNat + d.bytesLeft.toNat ≤ d.data.length ∧
    d.bytesSent.toNat + d.bytesLeft.toNat < 2 ^ 16

theorem length_rest {d : SendData} (h : d.Fits) : d.rest.length = d.bytesLeft.toNat := by
  have := h.1
  simp only [rest, List.length_take, List.length_drop]
  omega

theorem rest_advance {d : SendData} (h : d.Fits) {k : ℕ} (hk : k ≤ d.bytesLeft.toNat) : ({ d with
        bytesSent := d.bytesSent + UInt16.ofNat k
        bytesLeft := d.bytesLeft - UInt16.ofNat k } : SendData).rest = d.rest.drop k ∧
      ({ d with
        bytesSent := d.bytesSent + UInt16.ofNat k
        bytesLeft := d.bytesLeft - UInt16.ofNat k } : SendData).Fits ∧
      (d.bytesLeft - UInt16.ofNat k).toNat = d.bytesLeft.toNat - k := by
  have hlt := d.bytesLeft.toNat_lt
  have hfits := h.2
  have hk' : (UInt16.ofNat k).toNat = k :=  UInt16.toNat_ofNat_of_lt' (Nat.lt_of_le_of_lt hk hlt)
  have hleft : (d.bytesLeft - UInt16.ofNat k).toNat = d.bytesLeft.toNat - k := by
    rw [UInt16.toNat_sub_of_le _ _ (by rw [UInt16.le_iff_toNat_le, hk']; exact hk), hk']
  have hsent : (d.bytesSent + UInt16.ofNat k).toNat = d.bytesSent.toNat + k := by
    rw [UInt16.toNat_add, hk', Nat.mod_eq_of_lt (by omega)]
  refine ⟨?_, ?_, hleft⟩
  · simp only [rest, hleft, hsent, List.drop_take, List.drop_drop]
  · have := h.1
    simp only [Fits, hleft, hsent]
    omega

end SendData

theorem newSendData_fits (fresh : ℕ → UInt8) {buf : Bytes} (h : buf.length < 2 ^ 16) :
    (newSendData fresh buf).Fits := by
  have hlen : (UInt16.ofNat buf.length).toNat = buf.length := UInt16.toNat_ofNat_of_lt' h
  have hblock := length_block fresh (length_sstrncpy_le buf buf.length)
  simp only [SendData.Fits, newSendData, hlen, hblock, UInt16.toNat_zero]
  omega

/-- The copy of a buffer in the queue has the bytes of the buffer. -/
def Copied (fresh : ℕ → UInt8) (buf : Bytes) : Prop := (newSendData fresh buf).rest = buf

/-! ## The bytes on their way -/

namespace Conn

def pending (c : Conn) : Bytes := c.sendQueue.flatMap SendData.rest

/-- All queue entries fit. -/
def Fits (c : Conn) : Prop := ∀ d ∈ c.sendQueue, d.Fits

end Conn

theorem sipSocketSend_cases (pf : Platform) {buf : Bytes} (hbuf : buf ≠ []) (c : Conn) :
    (pf.accepts c.sends = 0 ∧ sipSocketSend pf buf c = (none, { c with sends := c.sends + 1 })) ∨
      ∃ k, 0 < k ∧ k ≤ buf.length ∧ k = min (pf.accepts c.sends) buf.length ∧ sipSocketSend pf buf c =
          (some k, { c with wire := c.wire ++ buf.take k, sends := c.sends + 1 }) := by
  unfold sipSocketSend
  split_ifs with hzero
  · exact .inl ⟨hzero, rfl⟩
  · have hpos := List.length_pos_iff.mpr hbuf
    exact .inr ⟨_, by omega, by omega, rfl, rfl⟩

/-- Sending the bytes of an entry writes the part of them that is not left, and leaves a rest only when
the socket would block. -/
theorem resendEntry_spec (pf : Platform) (fuel : ℕ) (d : SendData) (c : Conn) (hd : d.Fits)
    (hfuel : d.bytesLeft.toNat < fuel) :
    let (r, c') := resendEntry pf fuel d c
    c'.wire ++ (r.elim [] SendData.rest) = c.wire ++ d.rest ∧ (∀ d' ∈ r, d'.Fits) ∧
      c'.sendQueue = c.sendQueue ∧ c'.allocs = c.allocs ∧
      ((∀ i, 2 ^ 16 ≤ pf.accepts i) → r = none) := by
  induction fuel generalizing d c with
  | zero => omega
  | succ fuel ih =>
    rw [resendEntry]
    split_ifs with hleft
    · have hrest : d.rest = [] := by
        rw [← List.length_eq_zero_iff, SendData.length_rest hd, hleft]
        rfl
      simp [hrest]
    · have hpos : 0 < d.bytesLeft.toNat := by
        rcases Nat.eq_zero_or_pos d.bytesLeft.toNat with hzero | hpos
        · exact absurd (UInt16.toNat_inj.mp hzero) hleft
        · exact hpos
      have hne : d.rest ≠ [] := by
        rw [← List.length_pos_iff, SendData.length_rest hd]
        exact hpos
      rcases sipSocketSend_cases pf hne c with ⟨hzero, heq⟩ | ⟨k, hk, hkle, -, heq⟩
      · rw [heq]
        refine ⟨rfl, by simpa using hd, rfl, rfl, fun haccepts => ?_⟩
        have := haccepts c.sends
        omega
      · rw [heq]
        rw [SendData.length_rest hd] at hkle
        obtain ⟨hrest, hfits, hleft'⟩ := SendData.rest_advance hd hkle
        have hrec := ih _ { c with wire := c.wire ++ d.rest.take k, sends := c.sends + 1 } hfits
          (by simp only [hleft']; omega)
        simp only [hrest] at hrec
        rw [List.append_assoc, List.take_append_drop] at hrec
        exact hrec

theorem resendQueue_spec (pf : Platform) (q : List SendData) (c : Conn) (hq : ∀ d ∈ q, d.Fits) :
    let (q', c') := resendQueue pf q c
    c'.wire ++ q'.flatMap SendData.rest = c.wire ++ q.flatMap SendData.rest ∧
      (∀ d ∈ q', d.Fits) ∧ c'.allocs = c.allocs ∧
      ((∀ i, 2 ^ 16 ≤ pf.accepts i) → q' = []) := by
  induction q generalizing c with
  | nil => simp [resendQueue]
  | cons d q ih =>
    rw [resendQueue]
    have hentry := resendEntry_spec pf (d.bytesLeft.toNat + 1) d c (hq d (by simp)) (by omega)
    rcases hres : resendEntry pf (d.bytesLeft.toNat + 1) d c with ⟨_ | d', c'⟩
    · simp only [hres, Option.elim_none, List.append_nil] at hentry
      obtain ⟨hwire, -, -, hallocs, -⟩ := hentry
      have hrec := ih c' fun d hd => hq d (by simp [hd])
      rw [hwire, hallocs, List.append_assoc, ← List.flatMap_cons] at hrec
      exact hrec
    · simp only [hres, Option.elim_some] at hentry
      obtain ⟨hwire, hfits, -, hallocs, hall⟩ := hentry
      refine ⟨?_, ?_, hallocs, fun haccepts => absurd (hall haccepts) (by simp)⟩
      · rw [List.flatMap_cons, List.flatMap_cons, ← List.append_assoc, hwire, List.append_assoc]
      · intro x hx
        rcases List.mem_cons.mp hx with rfl | hx
        · exact hfits _ rfl
        · exact hq x (by simp [hx])

/-- **What `sip_tcp_resend` does.** It moves bytes from the queue to the socket, all of them when the
socket takes them. -/
theorem resend_spec (pf : Platform) (c : Conn) (hc : c.Fits) :
    (sipTcpResend pf c).wire ++ (sipTcpResend pf c).pending = c.wire ++ c.pending ∧ (sipTcpResend pf c).Fits ∧
      ((∀ i, 2 ^ 16 ≤ pf.accepts i) → (sipTcpResend pf c).sendQueue = []) := by
  have hqueue := resendQueue_spec pf c.sendQueue c hc
  exact ⟨hqueue.1, hqueue.2.1, hqueue.2.2.2⟩

/-! ## What is queued by a call -/

/-- The bytes that are left when the socket would block, with the fuel for `fuel` calls: `none` when it
takes all bytes. -/
def blockedRest (pf : Platform) : ℕ → ℕ → Bytes → Option Bytes
  | 0, _, _ => none
  | fuel + 1, sends, buf =>
    if buf = [] then none
    else if pf.accepts sends = 0 then some buf
    else blockedRest pf fuel (sends + 1) (buf.drop (pf.accepts sends))

/-- The piece of the buffer that is queued by a call of `sip_tcp_channel_send`. -/
def queuedPiece (pf : Platform) (buf : Bytes) (c : Conn) : Option Bytes :=
  if maxPayloadSize ≤ buf.length then none
  else if c.sendQueue ≠ [] then some buf
  else blockedRest pf buf.length c.sends buf

theorem length_blockedRest_le (pf : Platform) (fuel sends : ℕ) (buf : Bytes) :
    ∀ r ∈ blockedRest pf fuel sends buf, r.length ≤ buf.length := by
  induction fuel generalizing sends buf with
  | zero => simp [blockedRest]
  | succ fuel ih =>
    intro r hr
    rw [blockedRest] at hr
    split_ifs at hr
    · simp at hr
    · obtain rfl : buf = r := by simpa using hr
      exact le_rfl
    · have := ih _ _ r hr
      simp only [List.length_drop] at this
      omega

theorem sendLoop_spec (pf : Platform) (fuel : ℕ) (buf : Bytes) (c : Conn) (hfuel : buf.length ≤ fuel) :
    ∃ sent c', c'.wire = c.wire ++ sent ∧ c'.sendQueue = c.sendQueue ∧ c'.allocs = c.allocs ∧
      buf = sent ++ (blockedRest pf fuel c.sends buf).getD [] ∧
      sendLoop pf fuel buf c = (blockedRest pf fuel c.sends buf).elim c' (sipTcpQueueSendData pf · c') := by
  induction fuel generalizing buf c with
  | zero =>
    obtain rfl := List.length_eq_zero_iff.mp (Nat.le_zero.mp hfuel)
    exact ⟨[], c, by simp, rfl, rfl, rfl, rfl⟩
  | succ fuel ih =>
    rw [blockedRest, sendLoop]
    split_ifs with hnil hzero
    · exact ⟨[], c, by simp, rfl, rfl, by simpa using hnil, rfl⟩
    · rcases sipSocketSend_cases pf hnil c with ⟨-, heq⟩ | ⟨k, hk, -, hmin, -⟩
      · rw [heq]
        exact ⟨[], { c with sends := c.sends + 1 }, (List.append_nil _).symm, rfl, rfl, rfl, rfl⟩
      · omega
    · rcases sipSocketSend_cases pf hnil c with ⟨hzero', -⟩ | ⟨k, hk, hkle, hmin, heq⟩
      · exact absurd hzero' hzero
      · rw [heq]
        have hdrop : buf.drop (pf.accepts c.sends) = buf.drop k := by
          rcases Nat.le_total (pf.accepts c.sends) buf.length with hle | hle
          · rw [hmin, Nat.min_eq_left hle]
          · rw [hmin, Nat.min_eq_right hle, List.drop_of_length_le hle, List.drop_of_length_le le_rfl]
        rw [hdrop]
        obtain ⟨sent, c', hwire, hqueue, hallocs, hbuf, hloop⟩ :=
          ih (buf.drop k) { c with wire := c.wire ++ buf.take k, sends := c.sends + 1 }
            (by simp only [List.length_drop]; omega)
        refine ⟨buf.take k ++ sent, c', ?_, hqueue, hallocs, ?_, hloop⟩
        · rw [hwire, List.append_assoc]
        · rw [List.append_assoc, ← hbuf, List.take_append_drop]

theorem pending_queue (pf : Platform) (buf : Bytes) (c : Conn) : (sipTcpQueueSendData pf buf c).pending =
      c.pending ++ (newSendData (pf.fresh c.allocs) buf).rest := by
  simp [Conn.pending, sipTcpQueueSendData]

/-- **What `sip_tcp_channel_send` does.** The part of the buffer that is not queued is written, and the
rest, if there is one, gets the last entry of the queue. -/
theorem channelSend_spec (pf : Platform) (buf : Bytes) (c : Conn) (hc : c.Fits) : (sipTcpChannelSend pf buf c).2.Fits ∧
      ((sipTcpChannelSend pf buf c).1 = .sizeError → (sipTcpChannelSend pf buf c).2 = c ∧ queuedPiece pf buf c = none) ∧
      ((sipTcpChannelSend pf buf c).1 = .sendOk → ∃ sent rest, buf = sent ++ (queuedPiece pf buf c).getD [] ∧
          (sipTcpChannelSend pf buf c).2.wire ++ (sipTcpChannelSend pf buf c).2.pending =
            c.wire ++ c.pending ++ sent ++ rest ∧
          (queuedPiece pf buf c).elim [] (fun piece => (newSendData (pf.fresh c.allocs) piece).rest) = rest) := by
  unfold sipTcpChannelSend queuedPiece
  have hqueue : ∀ piece c', piece.length < maxPayloadSize → c'.Fits → (sipTcpQueueSendData pf piece c').Fits := by
    intro piece c' hlen hc' d hd
    rcases List.mem_append.mp hd with hd | hd
    · exact hc' d hd
    · obtain rfl := List.mem_singleton.mp hd
      exact newSendData_fits _ (Nat.lt_of_lt_of_le hlen (by decide))
  split_ifs with hsize hnil
  · exact ⟨hc, fun _ => ⟨rfl, rfl⟩, by simp⟩
  · refine ⟨hqueue buf c (by omega) hc, by simp, fun _ => ⟨[], _, rfl, ?_, rfl⟩⟩
    rw [pending_queue]
    simp [sipTcpQueueSendData]
  · obtain ⟨sent, c', hwire, hqueue', hallocs, hbuf, hloop⟩ := sendLoop_spec pf buf.length buf c le_rfl
    have hc' : c'.Fits := by
      intro d hd
      exact hc d (hqueue' ▸ hd)
    have hpending : c'.pending = c.pending := by rw [Conn.pending, hqueue', Conn.pending]
    have hpend : c.pending = [] := by
      rw [Conn.pending, not_not.mp hnil, List.flatMap_nil]
    rw [hloop]
    cases hrest : blockedRest pf buf.length c.sends buf with
    | none =>
      rw [hrest] at hbuf
      refine ⟨hc', by simp, fun _ => ⟨sent, [], hbuf, ?_, rfl⟩⟩
      simp only [Option.elim_none, hwire, hpending, hpend, List.append_nil]
    | some piece =>
      rw [hrest] at hbuf
      have hlen := length_blockedRest_le pf buf.length c.sends buf piece hrest
      refine ⟨hqueue piece c' (by omega) hc', by simp, fun _ => ⟨sent, _, hbuf, ?_, rfl⟩⟩
      simp only [Option.elim_some, pending_queue, hpending, hallocs, hpend, List.append_nil, List.nil_append]
      rw [sipTcpQueueSendData, hwire]

/-! ## Sequences of calls -/

/-- A call of one of the two functions. -/
inductive Call
  | channelSend (buf : Bytes)
  | resend

/-- A connection, with the bytes of the buffers that were accepted. -/
structure Output where
  conn : Conn := {}
  accepted : Bytes := []

namespace Output

def step (pf : Platform) (o : Output) : Call → Output
  | .channelSend buf =>
    match sipTcpChannelSend pf buf o.conn with
    | (.sendOk, c) => { conn := c, accepted := o.accepted ++ buf }
    | (.sizeError, c) => { o with conn := c }
  | .resend => { o with conn := sipTcpResend pf o.conn }

def run (pf : Platform) (calls : List Call) (o : Output) : Output := calls.foldl (step pf) o

/-- The queue is sent to a socket that takes everything. -/
def drain (pf : Platform) (o : Output) : Output :=
  step { pf with accepts := fun _ => 2 ^ 16 } o .resend

/-- The bytes written are the first of those accepted, and all of them when the queue is empty. -/
def Intact (o : Output) : Prop :=
  o.conn.wire <+: o.accepted ∧ (o.conn.sendQueue = [] → o.conn.wire = o.accepted)

/-- The output is intact after each call, also when the socket takes everything from then on. -/
def AlwaysIntact (pf : Platform) (calls : List Call) (o : Output) : Prop :=
  ∀ n, (run pf (calls.take n) o).Intact ∧ (drain pf (run pf (calls.take n) o)).Intact

/-- What a call queues is copied to the queue as it is. -/
def QueuesCopy (pf : Platform) (o : Output) : Call → Prop
  | .channelSend buf => ∀ piece ∈ queuedPiece pf buf o.conn, Copied (pf.fresh o.conn.allocs) piece
  | .resend => True

/-- What the calls queue is copied to the queue as it is. -/
def AllCopied (pf : Platform) : List Call → Output → Prop
  | [], _ => True
  | call :: calls, o => QueuesCopy pf o call ∧ AllCopied pf calls (step pf o call)

/-- The bytes written and queued are those accepted. -/
structure Balanced (o : Output) : Prop where
  fits : o.conn.Fits
  balance : o.conn.wire ++ o.conn.pending = o.accepted

theorem balanced_start : Balanced {} where
  fits := by simp [Conn.Fits]
  balance := rfl

variable {o : Output}

theorem Balanced.intact (h : o.Balanced) : o.Intact := by
  refine ⟨⟨_, h.balance⟩, fun hqueue => ?_⟩
  have hbalance := h.balance
  rw [Conn.pending, hqueue, List.flatMap_nil, List.append_nil] at hbalance
  exact hbalance

theorem intact_drain_iff (pf : Platform) (hfits : o.conn.Fits) : (drain pf o).Intact ↔ o.Balanced := by
  obtain ⟨hwire, -, hempty⟩ := resend_spec { pf with accepts := fun _ => 2 ^ 16 } o.conn hfits
  have hqueue : (drain pf o).conn.sendQueue = [] := hempty fun _ => le_rfl
  have hbytes : (drain pf o).conn.wire = o.conn.wire ++ o.conn.pending := by
    rw [← hwire, Conn.pending, hempty fun _ => le_rfl, List.flatMap_nil, List.append_nil]
    rfl
  constructor
  · intro h
    exact ⟨hfits, hbytes ▸ h.2 hqueue⟩
  · intro h
    have hall : (drain pf o).conn.wire = o.accepted := hbytes.trans h.balance
    exact ⟨hall ▸ List.prefix_refl _, fun _ => hall⟩

theorem fits_step (pf : Platform) (hfits : o.conn.Fits) (call : Call) : (step pf o call).conn.Fits := by
  cases call with
  | resend => exact (resend_spec pf o.conn hfits).2.1
  | channelSend buf =>
    have hsend := (channelSend_spec pf buf o.conn hfits).1
    rw [step]
    split <;> rename_i heq <;> rw [heq] at hsend <;> exact hsend

/-- A call keeps the output balanced exactly when what it queues is copied. -/
theorem balanced_step_iff (pf : Platform) (h : o.Balanced) (call : Call) :
    (step pf o call).Balanced ↔ QueuesCopy pf o call := by
  have hfits := fits_step pf h.fits call
  cases call with
  | resend =>
    refine ⟨fun _ => trivial, fun _ => ⟨hfits, ?_⟩⟩
    exact (resend_spec pf o.conn h.fits).1.trans h.balance
  | channelSend buf =>
    obtain ⟨-, herror, hok⟩ := channelSend_spec pf buf o.conn h.fits
    rw [step] at hfits ⊢
    rcases hsend : sipTcpChannelSend pf buf o.conn with ⟨_ | _, c⟩
    · obtain ⟨sent, rest, hbuf, hwire, hrest⟩ := hok (by rw [hsend])
      rw [hsend] at hwire hfits
      -- the bytes in front of the queued piece are the same on both sides
      have hbalanced : Balanced { conn := c, accepted := o.accepted ++ buf } ↔
          rest = (queuedPiece pf buf o.conn).getD [] := by
        constructor
        · intro hb
          have hbytes := hb.balance
          simp only at hbytes hwire
          rw [hwire, h.balance, hbuf, List.append_assoc] at hbytes
          exact List.append_cancel_left (List.append_cancel_left hbytes)
        · intro heq
          refine ⟨hfits, ?_⟩
          simp only at hwire ⊢
          rw [hwire, h.balance, heq, List.append_assoc, ← hbuf]
      rw [hbalanced, ← hrest, QueuesCopy]
      cases queuedPiece pf buf o.conn with
      | none => simp
      | some piece => simp [Copied]
    · obtain ⟨hsame, hnone⟩ := herror (by rw [hsend])
      rw [hsend] at hsame
      simp only at hsame
      subst hsame
      simp only [QueuesCopy, hnone]
      exact ⟨fun _ => by simp, fun _ => h⟩

theorem alwaysIntact_iff (pf : Platform) (calls : List Call) (h : o.Balanced) :
    AlwaysIntact pf calls o ↔ AllCopied pf calls o := by
  induction calls generalizing o with
  | nil =>
    simp only [AlwaysIntact, AllCopied, List.take_nil, iff_true]
    exact fun _ => ⟨h.intact, (intact_drain_iff pf h.fits).mpr h⟩
  | cons call calls ih =>
    rw [AllCopied]
    constructor
    · intro hall
      have hone := (hall 1).2
      simp only [List.take_succ_cons, List.take_zero, run, List.foldl_cons, List.foldl_nil] at hone
      rw [intact_drain_iff pf (fits_step pf h.fits call)] at hone
      refine ⟨(balanced_step_iff pf h call).mp hone, (ih hone).mp fun n => ?_⟩
      exact hall (n + 1)
    · rintro ⟨hcall, hcalls⟩ n
      have hstep := (balanced_step_iff pf h call).mpr hcall
      cases n with
      | zero => exact ⟨h.intact, (intact_drain_iff pf h.fits).mpr h⟩
      | succ n => exact (ih hstep).mpr hcalls n

end Output

/-- A socket that would block once. -/
def blockedOnce : Platform where
  accepts i := if i = 0 then 0 else 2 ^ 16
  fresh _ _ := 0

end Tcp
