/-
# `System.Bounds` — no index is out of range

Three tasks of the two programs index what a stranger has sent them, or what
others have made of the shared state: a datagram is handled, by the server or
by the client; the server goes through its channels; the client goes through
its table.  In any of them an index that is out of range would be the end of
the task, and with the loop that receives, of the service.

Here they are as `Indexed` has them, and `relayMainLoopTick`, where the
positions to remove are: from every state, whatever the buffers hold and
whatever has arrived, each of them is the task without any indices
(`indexed_eq_lift`, `indexed_eq_some`), so there is none that is not there
(`indices_in_range`).
-/
import NatPiercer.Client.Indexed
import NatPiercer.Client.Tick
import NatPiercer.Signaling.IndexedHeartbeat

namespace NatPiercer.System

open Text Utf8 Net Signaling
open Checked (NeverPanics)
open scoped Checked

/-! ## The server -/

/-- A datagram arrives, with what the buffers of the loop hold from before; or it is
time for a heartbeat pass. -/
inductive ServerTask
  | datagram (amb : Ambient) (buffers : Buffers) (arrival : Arrival)
  | heartbeat (now : Instant)

/-- The task, index by index; a datagram leaves the buffers for the next one. -/
def ServerTask.indexed : ServerTask → Checked ServerMap Datagram (Option Buffers)
  | datagram amb buffers arrival => some <$> Signaling.Indexed.serve amb buffers arrival
  | heartbeat now => do
      Signaling.Indexed.heartbeatPass now
      return none

/-- The task, as the rest of the development has it. -/
def ServerTask.program : ServerTask → Server (Option Buffers)
  | datagram amb buffers arrival => do
      Signaling.Indexed.dispatch amb arrival.src (serve buffers arrival).2
      return some (serve buffers arrival).1
  | heartbeat now => do
      heartbeatPass now
      return none

theorem ServerTask.indexed_eq_lift (task : ServerTask) : task.indexed = liftM task.program := by
  cases task with
  | datagram amb buffers arrival =>
      rw [indexed, program, Signaling.Indexed.serve_eq_lift, liftM_bind, liftM_bind]
      simp
  | heartbeat now =>
      rw [indexed, program, Signaling.Indexed.heartbeatPass_eq_lift, liftM_bind]
      rfl

/-! ## The client -/

/-- A datagram arrives in a buffer, before the setup is over or after it; or it is
time for a pass over the table. -/
inductive ClientTask
  | setup (now : Instant) (src : SocketAddr) (buf : Buffer) (datagram : Bytes)
  | main (now : Instant) (src : SocketAddr) (buf : Buffer) (datagram : Bytes)
  | tick (now : Instant) (serverId channel : Token)

section Client
variable (server : SocketAddr) (me : Client)

/-- The task, index by index: the client afterwards, and what is sent. -/
def ClientTask.indexed : ClientTask → Option (Client × List Datagram)
  | setup now src buf datagram =>
      (Client.Indexed.handleRecvResult now server src (buf.recv datagram)
        (received datagram).length me).map fun (me, _, sent) => (me, sent)
  | main now src buf datagram =>
      Client.Indexed.receive now server src (buf.recv datagram) (received datagram).length me
  | tick now serverId channel => me.relayMainLoopTick now server serverId channel

/-- The task, as the rest of the development has it. -/
def ClientTask.outcome : ClientTask → Client × List Datagram
  | setup now src _ datagram =>
      let (me, _, sent) := me.handleRecvResult now server src (received datagram)
      (me, sent)
  | main now src _ datagram => me.receive now server src (received datagram)
  | tick now serverId channel => me.relayMainLoop now server serverId channel

theorem ClientTask.indexed_eq_some (task : ClientTask) :
    task.indexed server me = some (task.outcome server me) := by
  cases task with
  | setup now src buf datagram =>
      have hlen : (received datagram).length ≤ 2048 := List.length_take_le 2048 datagram
      rw [indexed, outcome, Client.Indexed.handleRecvResult_eq_some now server src me hlen,
        upTo_recv]
      rfl
  | main now src buf datagram =>
      have hlen : (received datagram).length ≤ 2048 := List.length_take_le 2048 datagram
      rw [indexed, outcome, Client.Indexed.receive_eq_some now server src me hlen, upTo_recv]
  | tick now serverId channel => exact Client.relayMainLoopTick_eq now server serverId channel me

end Client

/-- **No index is out of range**: whatever is received and from where, whatever the
buffers and the clients hold, whatever the other tasks of the server have
made of its state each time that it is looked at, in a datagram as in a pass
every index, slice and removal is within bounds. -/
theorem indices_in_range :
    (∀ task : ServerTask, NeverPanics task.indexed) ∧
    (∀ (server : SocketAddr) (me : Client) (task : ClientTask),
      (task.indexed server me).isSome = true) := by
  constructor
  · intro task
    rw [task.indexed_eq_lift]
    exact Checked.neverPanics_lift task.program
  · intro server me task
    rw [task.indexed_eq_some]
    rfl

end NatPiercer.System
