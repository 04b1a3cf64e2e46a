/-
# `Signaling.Server` — the two sockets

`src/bin/signaling_server.rs`.  The loop reads datagrams from two sockets
into two buffers that live as long as the loop.  What a branch hands to
`handle_message` is found in two ways: as the payload of a packet, when the
bytes received decode as one, and as the bytes themselves otherwise.

The branch of the probe socket looks for the packet in the *other* buffer:
`decode(&buf_main[..len])`, with the length of its own datagram.  So what it
dispatches is decided by whatever the main socket received before, and it is
right exactly when those old bytes and the new ones are the same packet, or
neither is one (`probe_dispatch_iff`).
-/
import NatPiercer.Proto.Packet
import NatPiercer.Lib.Run
import NatPiercer.Lib.SocketAddr

namespace NatPiercer.Signaling

open Text Utf8 Net Proto

/-- `[u8; 2048]` -/
structure Buffer where
  bytes : Bytes
  length_bytes : bytes.length = 2048

/-- `[0u8; 2048]` -/
def Buffer.zero : Buffer := ⟨List.replicate 2048 0, List.length_replicate⟩

/-- How much of a datagram fits. -/
def received (d : Bytes) : Bytes := d.take 2048

/-- `recv_from(&mut buf)`: the datagram lands in front, and what is behind it
stays. -/
def Buffer.recv (buf : Buffer) (d : Bytes) : Buffer where
  bytes := received d ++ buf.bytes.drop (received d).length
  length_bytes := by
    have h := buf.length_bytes
    have hd : (received d).length ≤ 2048 := List.length_take_le 2048 d
    rw [List.length_append, List.length_drop]
    omega

/-- `&buf[..len]` -/
def Buffer.upTo (buf : Buffer) (len : Nat) : Bytes := buf.bytes.take len

/-- What the bytes come to when they are read as a packet; `none` when they
are not one, `some none` when they are one that is dropped. -/
def framed (bs : Bytes) : Option (Option Str) :=
  (decode bs).map fun (hdr, payload) => if hdr.kind = .control then fromUtf8 payload else none

/-- The body of a branch: the packet is looked for in one slice, the plain
text taken from the other. -/
def dispatchText (packet plain : Bytes) : Option Str :=
  match framed packet with
  | some text => text
  | none => some (fromUtf8Lossy plain)

inductive Socket
  | main
  | probe
deriving DecidableEq, Repr

/-- A datagram, and the socket it arrived on. -/
structure Arrival where
  socket : Socket
  payload : Bytes
  src : SocketAddr

/-- What the loop keeps from one round to the next. -/
structure Buffers where
  bufMain : Buffer
  bufProbe : Buffer

def Buffers.zero : Buffers := ⟨.zero, .zero⟩

/-- One round of the loop of `run_server`: the buffers afterwards, and the text
handed to `handle_message`, if any. -/
def serve (b : Buffers) (arrival : Arrival) : Buffers × Option Str :=
  let len := (received arrival.payload).length
  match arrival.socket with
  | .main =>
      let bufMain := b.bufMain.recv arrival.payload
      ({ b with bufMain := bufMain }, dispatchText (bufMain.upTo len) (bufMain.upTo len))
  | .probe =>
      let bufProbe := b.bufProbe.recv arrival.payload
      -- the packet is read from `buf_main`
      ({ b with bufProbe := bufProbe }, dispatchText (b.bufMain.upTo len) (bufProbe.upTo len))

/-- The buffers after a history of arrivals. -/
def buffersAfter (history : List Arrival) : Buffers :=
  after (fun b arrival => (serve b arrival).1) .zero history

/-- The text dispatched for an arrival that ends a history. -/
def dispatched (history : List Arrival) (arrival : Arrival) : Option Str :=
  (serve (buffersAfter history) arrival).2

/-- The old bytes of `buf_main` that a datagram on the probe socket is read
against. -/
def stale (history : List Arrival) (d : Bytes) : Bytes :=
  (buffersAfter history).bufMain.upTo (received d).length

/-! ## What each branch reads -/

theorem upTo_recv (buf : Buffer) (d : Bytes) :
    (buf.recv d).upTo (received d).length = received d :=
  List.take_left

/-- The main branch looks at nothing but the datagram. -/
theorem dispatched_main (history : List Arrival) (d : Bytes) (src : SocketAddr) :
    dispatched history ⟨.main, d, src⟩ = dispatchText (received d) (received d) := by
  simp only [dispatched, serve, upTo_recv]

theorem dispatched_probe (history : List Arrival) (d : Bytes) (src : SocketAddr) :
    dispatched history ⟨.probe, d, src⟩ = dispatchText (stale history d) (received d) := by
  simp only [dispatched, serve, upTo_recv, stale]

theorem length_stale (history : List Arrival) (d : Bytes) :
    (stale history d).length = (received d).length := by
  have h := (buffersAfter history).bufMain.length_bytes
  have hd : (received d).length ≤ 2048 := List.length_take_le 2048 d
  rw [stale, Buffer.upTo, List.length_take, h, Nat.min_eq_left hd]

/-- A packet never reads as the plain text of as many bytes: its payload is
shorter. -/
theorem framed_ne_lossy {packet plain : Bytes} (hlen : packet.length = plain.length) :
    framed packet ≠ some (some (fromUtf8Lossy plain)) := by
  intro h
  obtain ⟨⟨hdr, payload⟩, hdec, htext⟩ := Option.map_eq_some_iff.mp h
  dsimp only at htext
  split_ifs at htext with hkind
  have hshort : payload.length < plain.length := by
    obtain ⟨hpay, hpre⟩ := encode_prefix_of_decode hdec
    have hle := hpre.length_le
    have hp16 := toNat_payloadLen16 payload
    have hlt := hdr.payloadLen.toNat_lt
    rw [length_encode, hp16, headerLen] at hle
    omega
  exact fromUtf8Lossy_ne_of_length_lt htext hshort rfl

/-- The text tells how the packet slice was read. -/
theorem dispatchText_eq_iff {packet packet' plain : Bytes} (h : packet.length = plain.length)
    (h' : packet'.length = plain.length) :
    dispatchText packet plain = dispatchText packet' plain ↔ framed packet = framed packet' := by
  have hne := framed_ne_lossy h
  have hne' := framed_ne_lossy h'
  unfold dispatchText
  cases hf : framed packet with
  | none =>
      cases hf' : framed packet' with
      | none => simp
      | some text' =>
          rw [hf'] at hne'
          exact ⟨fun heq => absurd (congrArg some heq.symm) hne', nofun⟩
  | some text =>
      cases hf' : framed packet' with
      | none =>
          rw [hf] at hne
          exact ⟨fun heq => absurd (congrArg some heq) hne, nofun⟩
      | some text' => exact ⟨fun heq => congrArg some heq, fun heq => Option.some.inj heq⟩

/-- **When a datagram on the probe socket is handled by its own content**: when
the bytes that the main socket left in front of `buf_main` read, as a packet,
like the datagram itself; and two histories are told apart exactly by how
those bytes read. -/
theorem probe_dispatch_iff (history history' : List Arrival) (d : Bytes) (src : SocketAddr) :
    (dispatched history ⟨.probe, d, src⟩ = dispatched history ⟨.main, d, src⟩ ↔
      framed (stale history d) = framed (received d)) ∧
    (dispatched history ⟨.probe, d, src⟩ = dispatched history' ⟨.probe, d, src⟩ ↔
      framed (stale history d) = framed (stale history' d)) := by
  constructor
  · rw [dispatched_probe, dispatched_main]
    exact dispatchText_eq_iff (length_stale history d) rfl
  · rw [dispatched_probe, dispatched_probe]
    exact dispatchText_eq_iff (length_stale history d) (length_stale history' d)

/-- Ann's framed `HB`, then forty bytes of somebody else's on the probe socket:
what is dispatched for them is Ann's `HB`. -/
theorem probe_dispatch_replays :
    let ann : Arrival := ⟨.main, encode (.control 0 1 0 10) (asBytes "HB s c ann".toList),
      .v4 ⟨10, 0, 0, 1⟩ 4000⟩
    let eve : Bytes := List.replicate 40 0x78
    let src : SocketAddr := .v4 ⟨10, 0, 0, 2⟩ 4000
    dispatched [ann] ⟨.probe, eve, src⟩ = some "HB s c ann".toList ∧
      dispatched [ann] ⟨.probe, eve, src⟩ ≠ dispatched [ann] ⟨.main, eve, src⟩ ∧
      dispatched [ann] ⟨.probe, eve, src⟩ ≠ dispatched [] ⟨.probe, eve, src⟩ := by
  decide +kernel

end NatPiercer.Signaling
