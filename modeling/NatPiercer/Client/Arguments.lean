/-
# `Client.Arguments` — the command line, and what is written with it

`src/bin/client.rs` takes the server, the channel and the user from the
command line as they are, and writes them into messages with a blank before
each.  The threads that keep the session alive write the same three.
-/
import NatPiercer.Client.Keepalive

namespace NatPiercer.Client

open Text Utf8 Net Proto Signaling

/-- What `parse_arguments` returns. -/
structure Arguments where
  signalingIp : Str
  serverId : Str
  channel : Str
  user : Str
  localPort : UInt16

/-- `parse_arguments`; `none` where the process ends. -/
def parseArguments : List Str → Option Arguments
  | _ :: signalingIp :: serverId :: channel :: user :: localPort :: _ =>
      (parseUnsigned 65535 localPort).map fun port =>
        ⟨signalingIp, serverId, channel, user, .ofNat port⟩
  | _ => none

/-- `format!`, of words with a blank between. -/
def spaced : List Str → Str
  | [] => []
  | w :: ws => w ++ ws.flatMap fun v => ' ' :: v

/-- How `send_connect_message` names a kind. -/
def NatKind.natType : Client.NatKind → Token
  | .symmetric => natTypeSymmetric
  | .cone => natTypeCone
  | .public => natTypePublic
  | .unknown => natTypeUnknown

section Texts
variable (serverId channel user : Str)

def connectText (myNat : Client.NatKind) : Str :=
  spaced [msgConnect.text, serverId, channel, user, myNat.natType.text]

/-- `heartbeat_loop` -/
def hbText : Str := spaced [msgHb.text, serverId, channel, user]

/-- `handle_peer_timeout` -/
def timeoutText : Str := spaced [msgPeerTimeout.text, serverId, channel, user]

/-- `relay_main_loop` -/
def requestRelayText : Str := spaced [msgRequestRelay.text, serverId, channel, user] ++ ['\n']

def sendConnectMessage (server : SocketAddr) (myNat : Client.NatKind) : Datagram :=
  tell server (connectText serverId channel user myNat)

end Texts

/-! ## Where all are words -/

theorem spaced_map_text : ∀ ts : List Token, spaced (ts.map Token.text) = unwords ts
  | [] => rfl
  | t :: ts => by
      rw [List.map_cons, spaced, unwords, List.flatMap_map]

section Words
variable (s c n : Token)

theorem timeoutText_words :
    timeoutText s.text c.text n.text = unwords [msgPeerTimeout, s, c, n] :=
  spaced_map_text [msgPeerTimeout, s, c, n]

theorem requestRelayText_words :
    requestRelayText s.text c.text n.text = line [msgRequestRelay, s, c, n] :=
  congrArg (· ++ ['\n']) (spaced_map_text [msgRequestRelay, s, c, n])

theorem ofText_connectText (myNat : Client.NatKind) :
    Request.ofText (connectText s.text c.text n.text myNat) =
      .connect s c n (some myNat.natType) := by
  have hwords : connectText s.text c.text n.text myNat =
      unwords [msgConnect, s, c, n, myNat.natType] :=
    spaced_map_text [msgConnect, s, c, n, myNat.natType]
  rw [Request.ofText_of_words rfl (hwords ▸ splitWhitespace_unwords _)]
  rfl

theorem ofText_hbText : Request.ofText (hbText s.text c.text n.text) = .hb s c n := by
  have hwords : hbText s.text c.text n.text = unwords [msgHb, s, c, n] :=
    spaced_map_text [msgHb, s, c, n]
  rw [Request.ofText_of_words rfl (hwords ▸ splitWhitespace_unwords _)]
  rfl

theorem ofText_timeoutText :
    Request.ofText (timeoutText s.text c.text n.text) = .peerTimeout s c n := by
  rw [Request.ofText_of_words rfl (timeoutText_words s c n ▸ splitWhitespace_unwords _)]
  rfl

theorem ofText_requestRelayText :
    Request.ofText (requestRelayText s.text c.text n.text) = .requestRelay s c n := by
  rw [Request.ofText_of_words rfl (requestRelayText_words s c n ▸ splitWhitespace_line _)]
  rfl

/-- The server reads back the kind that was detected. -/
def NatKind.kind : Client.NatKind → Signaling.NatKind
  | .symmetric => .symmetric
  | .cone => .cone
  | .public => .public
  | .unknown => .unknown

theorem ofArg_natType (myNat : Client.NatKind) :
    Signaling.NatKind.ofArg (some myNat.natType) = myNat.kind := by
  cases myNat <;> rfl

end Words

end NatPiercer.Client
