/-
# `System.Welcome` — is a `WELCOME` understood?

The server tells a client its numbers in a framed text,
`WELCOME to cid:<channel_id> with pid:<peer_id>`; `try_handle_welcome`
looks for `WELCOME <channel_id> <peer_id>`.  So it never finds any: a client
has the numbers it was welcomed with exactly if it had them before
(`welcomed_iff`).
-/
import NatPiercer.Client.Hearing

namespace NatPiercer.System

open Text Utf8 Net Proto LockProg Signaling Client

/-- A client after the datagram of a `send_welcome`, read as a packet; `none` if
it does not read as one. -/
def afterWelcome (st : ServerMap) (dst : SocketAddr) (cid : UInt64) (pid : UInt32) (me : Client) :
    Option Client :=
  match ((sendWelcome dst cid pid).run st).sent with
  | [d] => do
      let (_, payload) ← decode d.payload
      let s ← fromUtf8 payload
      return me.tryHandleWelcome s
  | _ => none

/-- It then has the numbers that the server has sent. -/
def Welcomed (st : ServerMap) (dst : SocketAddr) (cid : UInt64) (pid : UInt32) (me : Client) :
    Prop :=
  (afterWelcome st dst cid pid me).map (fun me' => (me'.channelId, me'.myPeerId)) = some (cid, pid)

instance (st : ServerMap) (dst : SocketAddr) (cid : UInt64) (pid : UInt32) (me : Client) :
    Decidable (Welcomed st dst cid pid me) :=
  inferInstanceAs (Decidable (_ = _))

/-- The datagram reads as a packet, and the client makes nothing of it. -/
theorem afterWelcome_eq (st : ServerMap) (dst : SocketAddr) (cid : UInt64) (pid : UInt32)
    (me : Client) : afterWelcome st dst cid pid me = some me := by
  obtain ⟨hdr, -, hdecode⟩ := decode_welcome cid pid dst
  have hsent : ((sendWelcome dst cid pid).run st).sent = [welcome dst cid pid] := rfl
  unfold afterWelcome
  rw [hsent]
  dsimp only
  rw [hdecode, Option.bind_eq_bind, Option.bind_some, fromUtf8_asBytes, Option.bind_eq_bind,
    Option.bind_some, tryHandleWelcome_welcome]
  rfl

/-- **When a `WELCOME` is understood.**  When there is nothing in it that the
client does not have. -/
theorem welcomed_iff (st : ServerMap) (dst : SocketAddr) (cid : UInt64) (pid : UInt32)
    (me : Client) :
    Welcomed st dst cid pid me ↔ me.channelId = cid ∧ me.myPeerId = pid := by
  rw [Welcomed, afterWelcome_eq, Option.map_some, Option.some.injEq, Prod.mk.injEq]

/-- A client that has just been started stays without numbers. -/
theorem not_welcomed_fresh :
    ¬ Welcomed ∅ (.v4 ⟨10, 0, 0, 1⟩ 4000) 7 1 (.fresh "ann".toList) := by
  decide +kernel

end NatPiercer.System
