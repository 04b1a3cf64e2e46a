/-
# `Client.Tick` — one pass of the keepalive loop, position by position

`relay_main_loop` of `src/client/networking.rs` goes through the table with
`iter_mut().enumerate()`, and cannot take an entry out while it does.  It keeps
the positions of the entries that are to go, and removes them when it is
through, the last first.

Here is the pass as it is written (`relayTick`): the positions as they are pushed,
and `guard.remove`, which would panic at a position that is not there.  It
never does (`relayTick_eq`), and the entries that are left are those that
were not late.
-/
import NatPiercer.Client.Keepalive
import NatPiercer.Lib.Edit

namespace NatPiercer.Client

open Text Utf8 Net Proto Signaling

section Tick
variable (now : Instant) (server : SocketAddr) (serverId channel : Token)

/-- `REQUEST_RELAY <server> <channel> <name>` -/
def requestRelay (peer : PeerInfo) : Datagram :=
  tell server (line [msgRequestRelay, serverId, channel, peer.username])

/-- The loop, from the `i`-th entry on: the entries as they are written back, what is
in `to_remove`, and what is sent. -/
def tickLoop (i : Nat) : List PeerInfo → List PeerInfo × List Nat × List Datagram
  | [] => ([], [], [])
  | peer :: rest =>
      let (peers, toRemove, sent) := tickLoop (i + 1) rest
      if peer.useServerRelay then (peer :: peers, toRemove, sent)
      else if now - peer.lastPong > peerTimeout then
        (peer :: peers, i :: toRemove, handlePeerTimeout server serverId channel peer :: sent)
      else if !peer.connected && now - peer.createdAt > connectGrace && !peer.relayRequested then
        ({ peer with relayRequested := true } :: peers, toRemove,
          tell peer.addr msgPing.text :: requestRelay server serverId channel peer :: sent)
      else (peer :: peers, toRemove, tell peer.addr msgPing.text :: sent)

/-- What is done to the table, unless it panics, and what is sent. -/
def relayTick (peers : List PeerInfo) : Option (List PeerInfo × List Datagram) :=
  let (peers, toRemove, sent) := tickLoop now server serverId channel 0 peers
  (Vec.removeRev toRemove peers).map fun peers => (peers, sent)

/-- One pass, unless the client is not active. -/
def relayMainLoopTick (me : Client) : Option (Client × List Datagram) :=
  if me.isActive then
    (relayTick now server serverId channel me.peers).map fun r => ({ me with peers := r.1 }, r.2)
  else some (me, [])

/-! ## What becomes of an entry -/

/-- Past the sixty seconds, and not relayed for. -/
def late (p : PeerInfo) : Bool := !p.useServerRelay && decide (now - p.lastPong > peerTimeout)

/-- To be asked for: in time, but not reached within the twelve seconds, and not
asked for before. -/
def due (p : PeerInfo) : Bool :=
  !p.useServerRelay && !late now p && !p.connected &&
    decide (now - p.createdAt > connectGrace) && !p.relayRequested

/-- An entry that stays, after the pass. -/
def ticked (p : PeerInfo) : PeerInfo :=
  if due now p then { p with relayRequested := true } else p

/-- What is sent for an entry. -/
def tickSends (p : PeerInfo) : List Datagram :=
  if p.useServerRelay then []
  else if late now p then [handlePeerTimeout server serverId channel p]
  else tell p.addr msgPing.text ::
    if due now p then [requestRelay server serverId channel p] else []

theorem relayMainLoopPeer_eq (p : PeerInfo) :
    relayMainLoopPeer now server serverId channel p =
      (if late now p then none else some (ticked now p),
        tickSends now server serverId channel p) := by
  unfold relayMainLoopPeer ticked tickSends due late
  cases p.useServerRelay with
  | true => rfl
  | false =>
      by_cases hlate : now - p.lastPong > peerTimeout
      · simp [hlate]
      · cases p.connected with
        | true => simp [hlate]
        | false =>
            by_cases hgrace : now - p.createdAt > connectGrace
            · cases p.relayRequested <;> simp [hlate, hgrace, requestRelay]
            · simp [hlate, hgrace]

theorem tickLoop_eq (i : Nat) (peers : List PeerInfo) :
    tickLoop now server serverId channel i peers =
      (peers.map (ticked now), peers.findIdxs (late now) i,
        peers.flatMap (tickSends now server serverId channel)) := by
  induction peers generalizing i with
  | nil => rfl
  | cons p peers ih =>
      rw [tickLoop, ih, List.map_cons, List.findIdxs_cons, List.flatMap_cons]
      unfold ticked tickSends due late
      cases p.useServerRelay with
      | true => rfl
      | false =>
          by_cases hlate : now - p.lastPong > peerTimeout
          · simp [hlate]
          · cases p.connected with
            | true => simp [hlate]
            | false =>
                by_cases hgrace : now - p.createdAt > connectGrace
                · cases p.relayRequested <;> simp [hlate, hgrace]
                · simp [hlate, hgrace]

theorem late_ticked (p : PeerInfo) : late now (ticked now p) = late now p := by
  unfold ticked
  split_ifs <;> rfl

/-- No position is missing, and the entries that were not late are left, in order. -/
theorem relayTick_eq (peers : List PeerInfo) :
    relayTick now server serverId channel peers =
      some ((peers.filter fun p => !late now p).map (ticked now),
        peers.flatMap (tickSends now server serverId channel)) := by
  have hidxs : peers.findIdxs (late now) 0 = (peers.map (ticked now)).findIdxs (late now) 0 := by
    rw [List.findIdxs_map]
    exact congrArg (fun q => peers.findIdxs q 0) (funext fun p => (late_ticked now p).symm)
  have hremove := Vec.removeRev_findIdxs (late now) [] (peers.map (ticked now))
  rw [List.length_nil, List.nil_append, List.nil_append, List.filter_map] at hremove
  rw [relayTick, tickLoop_eq]
  dsimp only
  rw [hidxs, hremove]
  refine congrArg (fun l => some (List.map (ticked now) l, _)) (List.filter_congr fun p _ => ?_)
  exact congrArg (!·) (late_ticked now p)

/-- As one visit to every entry. -/
theorem relayTick_visit (peers : List PeerInfo) :
    relayTick now server serverId channel peers =
      some ((Edit.visit (relayMainLoopPeer now server serverId channel)).apply peers) := by
  have hpeer := funext (relayMainLoopPeer_eq now server serverId channel)
  rw [relayTick_eq, hpeer, Edit.apply]
  refine congrArg (fun l => some (l, _)) ?_
  dsimp only
  induction peers with
  | nil => rfl
  | cons p peers ih =>
      rw [List.filter_cons, List.filterMap_cons]
      cases late now p with
      | true => exact ih
      | false => exact congrArg (ticked now p :: ·) ih

/-- The pass is the one in which every entry is seen to by itself. -/
theorem relayMainLoopTick_eq (me : Client) :
    me.relayMainLoopTick now server serverId channel =
      some (me.relayMainLoop now server serverId channel) := by
  unfold relayMainLoopTick relayMainLoop
  rw [relayTick_visit]
  split_ifs <;> rfl

end Tick

end NatPiercer.Client
