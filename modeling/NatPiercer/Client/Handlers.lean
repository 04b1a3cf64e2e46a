/-
# `Client.Handlers` — what a client makes of a text

`src/client/handlers.rs`.  `processIncomingMessage` takes a text apart, one
line at a time; a line is one of three bare words, or `DATA`, or a control
line.  `handleModeLine` takes a control line apart, one word at a time.

What is sent is returned, in order.
-/
import NatPiercer.Client.Structures

namespace NatPiercer.Client

open Text Utf8 Net Proto Signaling

/-! ## `WELCOME` -/

/-- One line of `try_handle_welcome`. -/
def welcomeLine (line : Str) (me : Client) : Client :=
  match splitWhitespace line with
  | [word, cid, pid] =>
      if word = msgWelcome then
        match parseUnsigned (2 ^ 64 - 1) cid.text, parseUnsigned (2 ^ 32 - 1) pid.text with
        | some cid, some pid => { me with channelId := .ofNat cid, myPeerId := .ofNat pid }
        | _, _ => me
      else me
  | _ => me

def tryHandleWelcome (s : Str) (me : Client) : Client :=
  (lines s).foldl (fun me line => welcomeLine line me) me

/-! ## Control lines -/

def handleModeRelay (me : Client) : Client := { me with isRelay := true }

/-- The entry that a `MODE DIRECT` makes. -/
def newPeer (now : Instant) (username : Token) (addr : SocketAddr) : PeerInfo where
  addr := addr
  lastPong := now
  username := username
  connected := false
  createdAt := now
  useServerRelay := false
  relayRequested := false
  natKind := .unknown

def handleModeDirect (now : Instant) (username addrStr : Token) (me : Client) : Client :=
  match SocketAddr.fromStr addrStr.text with
  | some addr =>
      if username.text = me.user then me
      else if me.peers.any fun p => p.addr = addr then me
      else { me with peers := me.peers ++ [newPeer now username addr] }
  | none => me

/-- The arm of `MODE SERVER_RELAY <name>`: the first entry of that name is not
punched any more. -/
def handleModeServerRelay (username : Token) (me : Client) : Client :=
  if username.text = me.user then me
  else
    { me with
      channelHasServerRelays := me.channelHasServerRelays || me.isRelay
      peers := Vec.modifyFirst (fun p => p.username = username)
        (fun p => { p with useServerRelay := true, connected := true, relayRequested := true })
        me.peers }

def handleUserLeft (username : Token) (me : Client) : Client :=
  { me with peers := me.peers.filter fun p => p.username ≠ username }

/-- A line that is not recognised is at most printed. -/
def handleModeLine (now : Instant) (line : Str) (me : Client) : Client :=
  match splitWhitespace line with
  | [] => me
  | word :: args =>
      if word = msgMode then
        match args with
        | [] => me
        | mode :: args =>
            if mode = msgRelay then me.handleModeRelay
            else if mode = msgServerRelay then
              match args with
              | username :: _ => me.handleModeServerRelay username
              -- the line for a lone user names nobody
              | [] => me
            else if mode = msgDirect then
              match args with
              | username :: addrStr :: _ => me.handleModeDirect now username addrStr
              | _ => me
            else me
      else if word = msgUserLeft then
        match args with
        | username :: _ => me.handleUserLeft username
        | [] => me
      else me

/-! ## Bare words -/

def handlePing (src : SocketAddr) : List Datagram := [tell src msgPong.text]

/-- What is done to the entry of an address. -/
def touchAddr (src : SocketAddr) (f : PeerInfo → PeerInfo) (me : Client) : Client :=
  { me with peers := Vec.modifyFirst (fun p => p.addr = src) f me.peers }

def handlePong (now : Instant) (src : SocketAddr) (me : Client) : Client :=
  me.touchAddr src fun p => { p with lastPong := now }

def ensureConnected (now : Instant) (p : PeerInfo) : PeerInfo :=
  { p with lastPong := now, connected := true }

def handleHolePunch (now : Instant) (src : SocketAddr) (me : Client) : Client :=
  me.touchAddr src (ensureConnected now)

/-- Any plain text from an address shows that it is reached directly. -/
def handlePeerMessage (now : Instant) (src : SocketAddr) (me : Client) : Client :=
  me.touchAddr src (ensureConnected now)

/-! ## `DATA` -/

/-- `DATA` and the blank after it. -/
def dataPrefix : Str := msgData.text ++ [' ']

def handleRelayMessageToPeers (sender message : Str) (me : Client) : List Datagram :=
  (me.peers.filter fun peer => peer.username.text ≠ sender).map fun peer =>
    tell peer.addr message

def markPeerConnectedByName (now : Instant) (name : Str) (me : Client) : Client :=
  { me with
    peers := Vec.modifyFirst (fun p => p.username.text = name) (ensureConnected now) me.peers }

section Lines
variable (now : Instant) (server : SocketAddr)

/-- A relay sends the line on: to its peers, and to the server if that relays
for somebody in the channel. -/
def handleDataMessage (line : Str) (me : Client) : Client × List Datagram :=
  if startsWith line dataPrefix then
    match splitn 3 ' ' line with
    | [_, sender, _] =>
        let me := me.markPeerConnectedByName now sender
        (me,
          if me.isRelay then
            me.handleRelayMessageToPeers sender line ++
              if me.channelHasServerRelays then [tell server line] else []
          else [])
    | _ => (me, [])
  else (me, [])

/-- A line that has been trimmed and is not empty. -/
def processLine (src : SocketAddr) (line : Str) (me : Client) : Client × List Datagram :=
  if line = msgPing.text then (me, handlePing src)
  else if line = msgPong.text then (me.handlePong now src, [])
  else if line = msgHolePunch.text then (me.handleHolePunch now src, [])
  else if startsWith line dataPrefix then me.handleDataMessage now server line
  else (me.handleModeLine now line, [])

/-- The loop over the lines. -/
def processLines (src : SocketAddr) : List Str → Client → Client × List Datagram
  | [], me => (me, [])
  | line :: rest, me =>
      if trim line = [] then processLines src rest me
      else
        let (me, sent) := me.processLine now server src (trim line)
        let (me, more) := processLines src rest me
        (me, sent ++ more)

def processIncomingMessage (message : Str) (src : SocketAddr) (me : Client) :
    Client × List Datagram :=
  processLines now server src (lines message) me

end Lines

end NatPiercer.Client
