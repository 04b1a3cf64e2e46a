/-
# `Client.Main` — one datagram

The body of `main_loop` in `src/bin/client.rs`, and the two functions it
calls beside `process_incoming_message`.  A framed control packet is read
by `process_incoming_message` alone; plain text from the server is read a
second time, by `process_server_response`, for what this client itself has
to do.
-/
import NatPiercer.Client.Networking
import NatPiercer.Proto.Packet

namespace NatPiercer.Client

open Text Utf8 Net Proto Signaling

/-- `is_active = is_relay || channel_has_server_relays` -/
def updateRelayIsActive (me : Client) : Client :=
  { me with isActive := me.isRelay || me.channelHasServerRelays }

/-- `MODE` and the blank after it. -/
def modePrefix : Str := msgMode.text ++ [' ']

/-- One line of `process_server_response`, trimmed. -/
def responseLine (line : Str) (me : Client) : Client :=
  let me := if line = unwords [msgMode, msgRelay] then
      { me with sendViaServer := false, paused := false } else me
  if startsWith line (unwords [msgMode, msgServerRelay] ++ [' ']) then
    match splitWhitespace line with
    | _ :: _ :: who :: _ =>
        if who.text = me.user then { me with sendViaServer := true, paused := true }
        else if me.isRelay then { me with channelHasServerRelays := true }
        else me
    | _ => me
  else me

/-- Nothing happens unless some line starts with `MODE`. -/
def processServerResponse (response : Str) (me : Client) : Client :=
  if (lines response).any fun l => startsWith (trimStart l) modePrefix then
    (lines response).foldl (fun me line => responseLine (trim line) me) me
  else me

section Receive
variable (now : Instant) (server src : SocketAddr)

/-- A control packet whose payload is the text `s`. -/
def receiveControl (s : Str) (me : Client) : Client × List Datagram :=
  (me.tryHandleWelcome s).processIncomingMessage now server s src

/-- Text that came without a frame. -/
def receiveText (message : Str) (me : Client) : Client × List Datagram :=
  if src = server then
    let (me, sent) := me.processIncomingMessage now server message src
    ((me.processServerResponse message).updateRelayIsActive, sent)
  else
    let (me, sent) := (me.handlePeerMessage now src).processIncomingMessage now server message src
    (me.updateRelayIsActive, sent)

/-- One datagram, in `main_loop`. -/
def receive (bytes : Bytes) (me : Client) : Client × List Datagram :=
  match decode bytes with
  | some (hdr, payload) =>
      match hdr.kind with
      | .control =>
          match fromUtf8 payload with
          | some s => me.receiveControl now server src s
          | none => (me, [])
      | .dtls | .srtp => (me, [])
  | none => me.receiveText now server src (fromUtf8Lossy bytes)

end Receive

/-! ## What a datagram is read as -/

/-- The text of a control packet, a packet that nothing is done with, or bytes that
are no packet. -/
inductive Reading
  | control (s : Str)
  | dropped
  | plain (s : Str)

def Reading.ofBytes (bytes : Bytes) : Reading :=
  match decode bytes with
  | some (hdr, payload) =>
      if hdr.kind = .control then ((fromUtf8 payload).map control).getD dropped else dropped
  | none => plain (fromUtf8Lossy bytes)

/-- Whatever is done with a datagram, these are the cases. -/
theorem Reading.elim_ofBytes {β : Type} (bytes : Bytes) (control : Str → β) (dropped : β)
    (plain : Str → β) :
    (match decode bytes with
      | some (hdr, payload) =>
          match hdr.kind with
          | .control =>
              match fromUtf8 payload with
              | some s => control s
              | none => dropped
          | .dtls | .srtp => dropped
      | none => plain (fromUtf8Lossy bytes)) =
    match ofBytes bytes with
    | .control s => control s
    | .dropped => dropped
    | .plain s => plain s := by
  unfold ofBytes
  cases decode bytes with
  | none => rfl
  | some packet =>
      obtain ⟨⟨kind, _⟩, payload⟩ := packet
      dsimp only
      cases kind with
      | control => cases fromUtf8 payload <;> rfl
      | dtls | srtp => rfl

theorem decode_eq_none_iff {bytes : Bytes} :
    decode bytes = none ↔ ∃ s, Reading.ofBytes bytes = .plain s := by
  unfold Reading.ofBytes
  cases decode bytes with
  | none => exact iff_of_true rfl ⟨_, rfl⟩
  | some packet =>
      obtain ⟨hdr, payload⟩ := packet
      refine iff_of_false (Option.some_ne_none _) ?_
      rintro ⟨s, hs⟩
      dsimp only at hs
      split_ifs at hs
      cases hu : fromUtf8 payload with
      | none =>
          rw [hu] at hs
          cases hs
      | some t =>
          rw [hu] at hs
          cases hs

theorem receive_eq (now : Instant) (server src : SocketAddr) (bytes : Bytes) (me : Client) :
    me.receive now server src bytes =
      match Reading.ofBytes bytes with
      | .control s => me.receiveControl now server src s
      | .dropped => (me, [])
      | .plain s => me.receiveText now server src s :=
  Reading.elim_ofBytes bytes (fun s => me.receiveControl now server src s) (me, [])
    fun s => me.receiveText now server src s

end NatPiercer.Client
