/-
# `Client.Structures` — what a client keeps

`src/client/structures.rs`, and the variables that `main` in
`src/bin/client.rs` makes and its threads share.  A function of the client
is run here with nothing in between, as one thread's turn.

A name in the peer table is a token: `handle_mode_direct` is the only place
an entry is made, and the words it is given come out of `split_whitespace`.
The client's own name is whatever was typed on the command line.
-/
import NatPiercer.Signaling.Structures

namespace NatPiercer

open Text Net Signaling

inductive Client.NatKind
  | unknown
  | «public»
  | cone
  | symmetric
deriving DecidableEq, Repr

structure PeerInfo where
  addr : SocketAddr
  lastPong : Instant
  username : Token
  connected : Bool
  createdAt : Instant
  useServerRelay : Bool
  relayRequested : Bool
  natKind : Client.NatKind
deriving DecidableEq

/-- The shared variables.  `paused` is what `PunchSync` guards, `isActive` what
`RelaySync` does. -/
structure Client where
  user : Str
  peers : List PeerInfo
  isRelay : Bool
  channelHasServerRelays : Bool
  sendViaServer : Bool
  paused : Bool
  isActive : Bool
  channelId : UInt64
  myPeerId : UInt32
deriving DecidableEq

/-- The variables as `main` makes them, for the user `user`. -/
def Client.fresh (user : Str) : Client where
  user := user
  peers := []
  isRelay := false
  channelHasServerRelays := false
  sendViaServer := false
  paused := false
  isActive := false
  channelId := 0
  myPeerId := 0

end NatPiercer
