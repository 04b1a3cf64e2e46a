/-
# `Client.Code` — the client, instruction by instruction

What `main` in `src/bin/client.rs` makes is shared by five threads: the main
loop, the punching loop, the keepalive loop, the loop over `stdin`, and the
heartbeats.  Each variable has a mutex of its own, or is an atomic.

Elsewhere a function of the client is run with nothing in between.  Here it is
a program (`Prog`), with the mutexes where the source takes them and for as
long as the guards live, a read where it reads and a write where it assigns.
A guard that is made in the condition of an `if`, or on one side of `||` and
`&&`, is dropped right after it; one that has a name lives to the end of its
block, so `handle_user_message` takes the mutex of `is_relay` with the one of
the peers in hand.
-/
import Mathlib.Data.Fintype.Defs
import NatPiercer.Client.Arguments
import NatPiercer.Client.Punching
import NatPiercer.Client.Setup
import NatPiercer.Client.Tick
import NatPiercer.Lib.Rely

namespace NatPiercer.Client

open Text Utf8 Net Proto Signaling

/-! ## What is shared -/

inductive Mutex
  | peers
  | isRelay
  | relayStarted
  | punchSync
  | relaySync
deriving DecidableEq

inductive Thread
  | main
  | punching
  | keepalive
  | input
  | heartbeat
deriving DecidableEq

instance : Fintype Thread where
  elems := {.main, .punching, .keepalive, .input, .heartbeat}
  complete t := by cases t <;> decide

/-- The variables that `main` makes, with the one that only the keepalive loop has. -/
structure Shared where
  me : Client
  relayStarted : Bool

abbrev Code (α : Type) := Prog Mutex Shared Datagram α

def Shared.onMe (f : Client → Client) (s : Shared) : Shared := { s with me := f s.me }

namespace Code

open Prog

/-- An assignment to one of the variables that the client keeps. -/
def assign (f : Client → Client) : Code Unit := modify (Shared.onMe f)

/-- `if b.load(…) { … }`, or on what was read behind a mutex. -/
def onlyIf (b : Bool) (p : Code Unit) : Code Unit := if b then p else pure ()

/-- `*is_relay.lock().unwrap()` -/
def readIsRelay : Code Bool := locked .isRelay (gets fun s => s.me.isRelay)

def readMirrors : Code Bool := gets fun s => s.me.channelHasServerRelays

/-- `*is_relay.lock().unwrap() || channel_has_server_relays.load(…)` -/
def readActs : Code Bool := do
  let r ← readIsRelay
  if r then pure true else readMirrors

/-- `*is_relay.lock().unwrap() && channel_has_server_relays.load(…)` -/
def readRelaysAndMirrors : Code Bool := do
  let r ← readIsRelay
  if r then readMirrors else pure false

/-! ## `src/client/handlers.rs` -/

/-- One line of `try_handle_welcome`. -/
def welcomeLine (line : Str) : Code Unit :=
  match splitWhitespace line with
  | [word, cid, pid] =>
      if word = msgWelcome then
        match parseUnsigned (2 ^ 64 - 1) cid.text, parseUnsigned (2 ^ 32 - 1) pid.text with
        | some cid, some pid => do
            assign fun me => { me with channelId := .ofNat cid }
            assign fun me => { me with myPeerId := .ofNat pid }
        | _, _ => pure ()
      else pure ()
  | _ => pure ()

def tryHandleWelcome (s : Str) : Code Unit := each (lines s) welcomeLine

def handleModeRelay : Code Unit :=
  locked .isRelay do
    let r ← gets fun s => s.me.isRelay
    onlyIf (!r) (assign fun me => { me with isRelay := true })

def handleModeDirect (user : Str) (now : Instant) (username addrStr : Token) : Code Unit :=
  match SocketAddr.fromStr addrStr.text with
  | some addr =>
      locked .peers do
        if username.text = user then pure ()
        else do
          let there ← gets fun s => s.me.peers.any fun p => p.addr = addr
          onlyIf (!there) (assign fun me => { me with peers := me.peers ++ [newPeer now username addr] })
  | none => pure ()

/-- `if let Some(p) = peers.lock().unwrap().iter_mut().find(q) { … }`, one assignment
after the other. -/
def onFirst (q : PeerInfo → Bool) (fs : List (PeerInfo → PeerInfo)) : Code Unit :=
  locked .peers <| each fs fun f =>
    assign fun me => { me with peers := Vec.modifyFirst q f me.peers }

/-- If I am the relay, note that the channel has server-relayed peers. -/
def noteServerRelays : Code Unit := do
  let r ← readIsRelay
  onlyIf r do
    let mirrors ← readMirrors
    onlyIf (!mirrors) (assign fun me => { me with channelHasServerRelays := true })

def handleModeServerRelay (user : Str) (username : Token) : Code Unit :=
  if username.text = user then pure ()
  else do
    noteServerRelays
    onFirst (fun p => p.username = username)
      [fun p => { p with useServerRelay := true }, fun p => { p with connected := true },
        fun p => { p with relayRequested := true }]

def handleUserLeft (username : Token) : Code Unit :=
  locked .peers (assign fun me => { me with peers := me.peers.filter fun p => p.username ≠ username })

def handleModeLine (user : Str) (now : Instant) (line : Str) : Code Unit :=
  match splitWhitespace line with
  | [] => pure ()
  | word :: args =>
      if word = msgMode then
        match args with
        | [] => pure ()
        | mode :: args =>
            if mode = msgRelay then handleModeRelay
            else if mode = msgServerRelay then
              match args with
              | username :: _ => handleModeServerRelay user username
              | [] => pure ()
            else if mode = msgDirect then
              match args with
              | username :: addrStr :: _ => handleModeDirect user now username addrStr
              | _ => pure ()
            else pure ()
      else if word = msgUserLeft then
        match args with
        | username :: _ => handleUserLeft username
        | [] => pure ()
      else pure ()

def handlePing (src : SocketAddr) : Code Unit := output (tell src msgPong.text)

def handlePong (now : Instant) (src : SocketAddr) : Code Unit :=
  onFirst (fun p => p.addr = src) [fun p => { p with lastPong := now }]

/-- `ensure_connected`, of the first entry that there is. -/
def ensureConnected (now : Instant) (q : PeerInfo → Bool) : Code Unit :=
  onFirst q [fun p => { p with lastPong := now }, fun p => { p with connected := true }]

def handleHolePunch (now : Instant) (src : SocketAddr) : Code Unit :=
  ensureConnected now fun p => p.addr = src

def handlePeerMessage (now : Instant) (src : SocketAddr) : Code Unit :=
  ensureConnected now fun p => p.addr = src

def markPeerConnectedByName (now : Instant) (name : Str) : Code Unit :=
  ensureConnected now fun p => p.username.text = name

def handleRelayMessageToPeers (sender message : Str) : Code Unit :=
  locked .peers do
    let peers ← gets fun s => s.me.peers
    each (peers.filter fun peer => peer.username.text ≠ sender) fun peer =>
      output (tell peer.addr message)

section Lines
variable (user : Str) (now : Instant) (server : SocketAddr)

def handleDataMessage (line : Str) : Code Unit :=
  if startsWith line dataPrefix then
    match splitn 3 ' ' line with
    | [_, sender, _] => do
        markPeerConnectedByName now sender
        let r ← readIsRelay
        onlyIf r do
          handleRelayMessageToPeers sender line
          let mirrors ← readMirrors
          onlyIf mirrors (output (tell server line))
    | _ => pure ()
  else pure ()

def processLine (src : SocketAddr) (line : Str) : Code Unit :=
  if line = msgPing.text then handlePing src
  else if line = msgPong.text then handlePong now src
  else if line = msgHolePunch.text then handleHolePunch now src
  else if startsWith line dataPrefix then handleDataMessage now server line
  else handleModeLine user now line

def processIncomingMessage (message : Str) (src : SocketAddr) : Code Unit :=
  each (lines message) fun line =>
    if trim line = [] then pure () else processLine user now server src (trim line)

/-! ## `src/bin/client.rs` -/

def updateRelayIsActive : Code Unit := do
  let active ← readActs
  locked .relaySync do
    let before ← gets fun s => s.me.isActive
    onlyIf (before != active) do
      assign fun me => { me with isActive := active }
      notifyAll .relaySync

/-- `if st.paused != paused { st.paused = paused; cvar.notify_all(); }` -/
def setPaused (paused : Bool) : Code Unit :=
  locked .punchSync do
    let before ← gets fun s => s.me.paused
    onlyIf (before != paused) do
      assign fun me => { me with paused := paused }
      notifyAll .punchSync

/-- `if b.load(…) != via { b.store(via, …); }` -/
def setSendViaServer (via : Bool) : Code Unit := do
  let before ← gets fun s => s.me.sendViaServer
  onlyIf (before != via) (assign fun me => { me with sendViaServer := via })

/-- One line of `process_server_response`, trimmed. -/
def responseLine (line : Str) : Code Unit := do
  onlyIf (line = unwords [msgMode, msgRelay]) do
    setSendViaServer false
    setPaused false
  onlyIf (startsWith line (unwords [msgMode, msgServerRelay] ++ [' '])) <|
    match splitWhitespace line with
    | _ :: _ :: who :: _ =>
        if who.text = user then do
          setSendViaServer true
          setPaused true
        else noteServerRelays
    | _ => pure ()

def processServerResponse (response : Str) : Code Unit :=
  if (lines response).any fun l => startsWith (trimStart l) modePrefix then
    each (lines response) fun line => responseLine user (trim line)
  else pure ()

variable (src : SocketAddr)

/-- A control packet, in `main_loop`. -/
def receiveControl (s : Str) : Code Unit := do
  tryHandleWelcome s
  processIncomingMessage user now server s src

/-- Text that came without a frame. -/
def receiveText (message : Str) : Code Unit :=
  if src = server then do
    processIncomingMessage user now server message src
    processServerResponse user message
    updateRelayIsActive
  else do
    handlePeerMessage now src
    processIncomingMessage user now server message src
    updateRelayIsActive

/-- One datagram, in `main_loop`. -/
def receive (bytes : Bytes) : Code Unit :=
  match Reading.ofBytes bytes with
  | .control s => receiveControl user now server src s
  | .dropped => pure ()
  | .plain s => receiveText user now server src s

/-- A text, in `handle_recv_result`: whether it ends the setup. -/
def setupText (s : Str) : Code Bool :=
  if src = server then do
    processIncomingMessage user now server s src
    processServerResponse user s
    updateRelayIsActive
    pure (holdsMode s)
  else do
    handlePeerMessage now src
    processIncomingMessage user now server s src
    pure false

def handleRecvResult (bytes : Bytes) : Code Bool :=
  match Reading.ofBytes bytes with
  | .control s => do
      tryHandleWelcome s
      setupText user now server src s
  | .dropped => pure false
  | .plain s => setupText user now server src s

end Lines

/-- The main thread: one datagram in the loop of the setup, or in `main_loop`, or the
end of the setup. -/
def mainLoop (user : Str) (server : SocketAddr) (inSetup : Bool) : Event → Code Bool
  | .datagram now src bytes =>
      if inSetup then do
        let sawMode ← handleRecvResult user now server src bytes
        pure (!sawMode)
      else do
        receive user now server src bytes
        pure false
  | .setupDeadline => pure false

/-! ## `src/client/networking.rs` -/

/-- The loop over the table, of a pass of `hole_punching_loop`. -/
def punchEach : List PeerInfo → Backoff → Code Backoff
  | [], backoff => pure backoff
  | p :: rest, backoff =>
      if p.connected || p.useServerRelay then punchEach rest backoff
      else do
        output (holePunch p)
        punchEach rest (backoff.bump p.username)

/-- `hole_punching_loop`: one time round the waiting, and then a pass. -/
def holePunchingLoop (backoff : Backoff) : Code Backoff := do
  let awake ← await .punchSync fun s => s.me.paused
  if awake then
    locked .peers do
      let peers ← gets fun s => s.me.peers
      punchEach peers backoff
  else pure backoff

section Networking
variable (now : Instant) (server : SocketAddr) (serverId channel : Token)

/-- An entry in `relay_main_loop`: whether it is to be removed. -/
def tickPeer (i : Nat) (peer : PeerInfo) : Code Bool :=
  if peer.useServerRelay then pure false
  else if now - peer.lastPong > peerTimeout then do
    output (handlePeerTimeout server serverId channel peer)
    pure true
  else do
    output (tell peer.addr msgPing.text)
    onlyIf (!peer.connected && now - peer.createdAt > connectGrace && !peer.relayRequested) do
      assign fun me =>
        { me with peers := me.peers.modify i fun p => { p with relayRequested := true } }
      output (requestRelay server serverId channel peer)
    pure false

/-- The loop, from the `i`-th entry on: what is in `to_remove`. -/
def tickEach (i : Nat) : List PeerInfo → Code (List Nat)
  | [] => pure []
  | peer :: rest => do
      let late ← tickPeer now server serverId channel i peer
      let toRemove ← tickEach (i + 1) rest
      pure (if late then i :: toRemove else toRemove)

/-- The table, in one pass of `relay_main_loop`. -/
def relayTick : Code Unit :=
  locked .peers do
    let peers ← gets fun s => s.me.peers
    let toRemove ← tickEach now server serverId channel 0 peers
    each toRemove.reverse fun i => assign fun me => { me with peers := me.peers.eraseIdx i }

/-- `relay_keepalive_loop`: one time round the waiting, or once round
`relay_main_loop`, whichever it is in. -/
def relayKeepaliveLoop (inMainLoop : Bool) : Code Bool :=
  if inMainLoop then do
    let active ← locked .relaySync (gets fun s => s.me.isActive)
    if active then do
      relayTick now server serverId channel
      nap .relaySync
      pure true
    else do
      locked .relayStarted (modify fun s => { s with relayStarted := false })
      pure false
  else do
    let active ← await .relaySync fun s => !s.me.isActive
    if active then do
      locked .relayStarted do
        let started ← gets fun s => s.relayStarted
        onlyIf (!started) (modify fun s => { s with relayStarted := true })
      pure true
    else pure false

variable (user : Str)

def handleUserMessage (message : Str) : Code Unit := do
  let payload := dataLine user message ++ ['\n']
  let via ← gets fun s => s.me.sendViaServer
  if via then output (tell server payload)
  else
    locked .peers do
      let peers ← gets fun s => s.me.peers
      each (peers.filter fun p => !p.useServerRelay) fun peer => output (tell peer.addr payload)
      let mirrors ← readRelaysAndMirrors
      onlyIf mirrors (output (tell server payload))

/-- A line of `stdin`. -/
def userInput (typed : Str) : Code Unit :=
  if trim typed = [] then pure () else handleUserMessage server user (trim typed)

def heartbeatLoop : Code Unit := output (tell server (hbText serverId.text channel.text user))

end Networking

end Code

end NatPiercer.Client
