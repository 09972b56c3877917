import Ikran.Tcp.Receive

/-!
# From one end of a connection to the other

The peer reads what `sip_tcp_channel_send` and `sip_tcp_resend` have written. The calls of the sender and
the reads of the peer come in any order.
-/

namespace Tcp

open Httpish Frames

/-- Bytes as a text. -/
def octets (bytes : Bytes) : CStr := bytes.map fun b => Char.ofNat b.toNat

/-- The two ends of a connection, with the text that the peer has read. -/
structure Link where
  output : Output := {}
  input : Input := {}
  arrived : CStr := []

/-- The states of a connection for some messages: what is queued is copied as it is, and the peer can cope
with its reads of what has been written. -/
inductive Link.Reached (pf : Platform) (ms : List Message) : Link → Prop
  | start : Reached pf ms {}
  | call {l : Link} (call : Call) (h : Reached pf ms l) (hcopy : Output.QueuesCopy pf l.output call) :
      Reached pf ms { l with output := l.output.step pf call }
  | read {l : Link} (r : Recv) (h : Reached pf ms l)
      (hwire : l.arrived ++ r.bytes <+: octets l.output.conn.wire)
      (htimely : TimelyRead ms l.arrived l.input r) :
      Reached pf ms { l with input := sipTcpReadSocket l.input r, arrived := l.arrived ++ r.bytes }

/-- Both ends are as they should be, and the text that has been read is from the buffers accepted. -/
structure Link.Kept (ms : List Message) (l : Link) : Prop where
  balanced : l.output.Balanced
  arrived : l.arrived <+: octets l.output.accepted
  synced : Synced ms l.arrived l.input

theorem accepted_prefix_step (pf : Platform) (o : Output) (call : Call) :
    o.accepted <+: (o.step pf call).accepted := by
  cases call with
  | resend => exact List.prefix_rfl
  | channelSend buf =>
    rw [Output.step]
    split
    · exact List.prefix_append _ _
    · exact List.prefix_rfl

variable {pf : Platform} {ms : List Message} {l : Link}

theorem Link.Reached.kept (h : Reached pf ms l) (hms : ∀ m ∈ ms, Sendable m)
    (hblank : ∀ m ∈ ms, isBlank m.body.peek = false)
    (hsent : octets l.output.accepted <+: ms.flatMap Message.text) : l.Kept ms := by
  induction h with
  | start => exact ⟨Output.balanced_start, List.nil_prefix, synced_start ms⟩
  | @call l call _ hcopy ih =>
    have hgrows := (accepted_prefix_step pf l.output call).map fun b => Char.ofNat b.toNat
    obtain ⟨hbalanced, harrived, hsynced⟩ := ih (hgrows.trans hsent)
    exact ⟨(Output.balanced_step_iff pf hbalanced call).mpr hcopy, harrived.trans hgrows, hsynced⟩
  | read r _ hwire htimely ih =>
    obtain ⟨hbalanced, -, hsynced⟩ := ih hsent
    have harrived := hwire.trans (hbalanced.intact.1.map _)
    exact ⟨hbalanced, harrived, synced_step hms hblank hsynced (harrived.trans hsent) htimely⟩

/-- The bytes of a message. -/
def helloBytes : Bytes := helloMessage.text.map fun c => UInt8.ofNat c.toNat

/-- A socket that takes seven bytes at a time. -/
def sevenBytes : Platform where
  accepts _ := 7
  fresh _ _ := 0

end Tcp
