/-
# `Signaling.Handlers` — one message

`src/signaling/handlers/{heartbeat,connect,disconnect,request_relay,message}.rs`.

The source passes `parts: &[&str]` on and reads `parts[1]`, `parts[2]` and
`parts[3]` where it arrives, having checked the length where it started.
Here `handleMessage` does the reading and the handlers get the words;
`Signaling.Indexed` has it the other way, and is proved to come to the same.
-/
import NatPiercer.Proto.Packet
import NatPiercer.Signaling.Heartbeat
import NatPiercer.Signaling.Notifications

namespace NatPiercer.Signaling

open Text Utf8 Net Proto LockProg

/-! ## `HB`, `PONG` -/

/-- In every channel, the first user at the address is fresh again. -/
def Channel.pong (now : Instant) (src : SocketAddr) (channel : Channel) : Channel :=
  { channel with
    users := Vec.modifyFirst (fun u => u.addr = src) (fun u => { u with lastPong := now })
      channel.users }

def handlePong (now : Instant) (src : SocketAddr) : Server Unit :=
  locked do
    let st ← getState
    setState (HashMap.mapValues (fun _ => HashMap.mapValues fun _ => Channel.pong now src) st)

def Channel.refresh (now : Instant) (userName : Token) (src : SocketAddr) (channel : Channel) :
    Channel :=
  { channel with
    users := Vec.modifyFirst (User.isSession userName src) (fun u => { u with lastPong := now })
      channel.users }

def handleHeartbeat (now : Instant) (serverId channelName userName : Token) (src : SocketAddr) :
    Server Unit :=
  locked do
    let st ← getState
    setState (st.modifyChannel serverId channelName (Channel.refresh now userName src))

/-! ## `CONNECT` -/

/-- `WELCOME to cid:<channel_id> with pid:<peer_id>` -/
def welcomeText (channelId : UInt64) (peerId : UInt32) : Str :=
  msgWelcome.text ++ " to cid:".toList ++ decimal channelId.toNat ++ " with pid:".toList ++
    decimal peerId.toNat ++ ['\n']

def sendWelcome (dst : SocketAddr) (channelId : UInt64) (peerId : UInt32) : Server Unit :=
  let payload := asBytes (welcomeText channelId peerId)
  let hdr := Header.welcome channelId peerId (.ofNat payload.length)
  sendTo (encode hdr payload) dst

/-- The fifth word of a `CONNECT`, if there is one. -/
def NatKind.ofArg (arg : Option Token) : NatKind :=
  if arg = some natTypeSymmetric then .symmetric
  else if arg = some natTypeCone then .cone
  else if arg = some natTypePublic then .public
  else .unknown

/-- `st.entry(server_id).or_default().entry(channel_name).or_default()` -/
def ServerMap.ensureChannel (st : ServerMap) (serverId channelName : Token) : ServerMap :=
  HashMap.modify serverId (HashMap.orInsert channelName Channel.default)
    (HashMap.orInsert serverId ∅ st)

/-- A channel is given its number by the first `CONNECT`. -/
def Channel.ensureId (channelId : UInt64) (channel : Channel) : Channel :=
  if channel.channelId = 0 then { channel with channelId := channelId } else channel

def handleConnectMessage (amb : Ambient) (serverId channelName userName : Token)
    (natArg : Option Token) (srcAddr : SocketAddr) : Server Unit := do
  let natKind := NatKind.ofArg natArg
  let (usersToNotify, isNewUser, peerId) ← locked do
    let st ← getState
    let st := removeUserFromOtherChannels st serverId channelName userName srcAddr
    let st := st.ensureChannel serverId channelName
    let channel := ((st.channel? serverId channelName).getD .default).ensureId amb.channelId
    match updateExistingUser amb.now channel userName srcAddr with
    | some (channel, isNew, peerId) => do
        setState (st.modifyChannel serverId channelName fun _ => channel)
        return (channel, isNew, peerId)
    | none => do
        let (channel, peerId) ← addNewUser amb.now channel userName srcAddr natKind
        setState (st.modifyChannel serverId channelName fun _ => channel)
        return (channel, true, peerId)
  sendWelcome srcAddr usersToNotify.channelId peerId
  whenever isNewUser
    (handleConnectNotifications serverId channelName userName srcAddr usersToNotify)

/-! ## `DISCONNECT` -/

def handleDisconnectMessage (serverId channelName userName : Token) (srcAddr : SocketAddr) :
    Server Unit := do
  let (remainingUsers, wasRelay, leavingUserAddr, loneUserAddr) ←
    handleUserRemoval serverId channelName userName srcAddr
  handleDisconnectNotifications remainingUsers wasRelay leavingUserAddr loneUserAddr userName
    serverId channelName

/-! ## `REQUEST_RELAY`, `DATA` -/

def Channel.requestRelay (username : Token) (channel : Channel) : Channel :=
  { channel with
    users := Vec.modifyFirst (fun u => u.name = username)
      (fun u => { u with needsServerRelay := true }) channel.users }

def handleRelayRequest (serverId channelName username : Token) : Server Unit :=
  locked do
    let st ← getState
    match st.channel? serverId channelName with
    | some channel =>
        setState (st.modifyChannel serverId channelName (Channel.requestRelay username))
        notifyEach (channel.requestRelay username).users (fun _ => modeServerRelay username)
          User.addr
    | none => pure ()

/-- Where one channel sends a line that `src` says comes from `senderName`;
`none` when the loop goes on to the next channel. -/
def Channel.forwardData (senderName : Str) (src : SocketAddr) (channel : Channel) :
    Option (List SocketAddr) :=
  let relayUser := channel.relay.bind fun relayName =>
    channel.users.find? fun u => u.name = relayName
  let needing := (channel.users.filter fun peer =>
    !decide (peer.name.text = senderName) && peer.needsServerRelay).map User.addr
  -- mirrored by the relay: the members that need the server
  if relayUser.any fun relayUser => relayUser.addr = src then some needing
  else
    match channel.users.find? fun u => u.addr = src ∧ u.name.text = senderName with
    | none => none
    | some sender =>
        if channel.relay = some sender.name then some needing
        else if sender.needsServerRelay then
          some ((channel.users.filter fun peer => peer.addr ≠ src).map User.addr)
        -- otherwise the relay alone
        else some ((relayUser.filter fun relayUser => relayUser.addr ≠ src).map User.addr).toList

def handleDataFromClient (raw : Str) (src : SocketAddr) : Server Unit :=
  match splitn 3 ' ' raw with
  | [_, senderName, _] =>
      locked do
        let st ← getState
        match st.channels.findSome? fun (_, _, channel) =>
            channel.forwardData senderName src with
        | some dsts => each dsts fun dst => sendTo (asBytes raw) dst
        | none => pure ()
  | _ => pure ()

/-! ## Dispatch -/

def handleMessage (amb : Ambient) (msg : Str) (src : SocketAddr) : Server Unit :=
  if startsWith msg msgNatProbe.text then
    sendTo (asBytes (line [msgNatSeen, src.token])) src
  else if trim msg = msgPong.text then handlePong amb.now src
  else
    match splitWhitespace (trim msg) with
    | word :: serverId :: channelName :: userName :: rest =>
        if word = msgHb then handleHeartbeat amb.now serverId channelName userName src
        else if word = msgConnect then
          handleConnectMessage amb serverId channelName userName rest.head? src
        else if word = msgDisconnect then
          handleDisconnectMessage serverId channelName userName src
        else if word = msgPeerTimeout then handlePeerTimeout serverId channelName userName
        else if word = msgRequestRelay then handleRelayRequest serverId channelName userName
        else if word = msgData then handleDataFromClient msg src
        else pure ()
    | [word, _, _] => if word = msgData then handleDataFromClient msg src else pure ()
    | _ => pure ()

/-- What the words of a text ask for. -/
inductive Request
  | natProbe
  | pong
  | hb (serverId channelName userName : Token)
  | connect (serverId channelName userName : Token) (natArg : Option Token)
  | disconnect (serverId channelName userName : Token)
  | peerTimeout (serverId channelName peerUser : Token)
  | requestRelay (serverId channelName username : Token)
  | data
  | unknown
deriving DecidableEq

def Request.ofText (msg : Str) : Request :=
  if startsWith msg msgNatProbe.text then .natProbe
  else if trim msg = msgPong.text then .pong
  else
    match splitWhitespace (trim msg) with
    | word :: serverId :: channelName :: userName :: rest =>
        if word = msgHb then .hb serverId channelName userName
        else if word = msgConnect then .connect serverId channelName userName rest.head?
        else if word = msgDisconnect then .disconnect serverId channelName userName
        else if word = msgPeerTimeout then .peerTimeout serverId channelName userName
        else if word = msgRequestRelay then .requestRelay serverId channelName userName
        else if word = msgData then .data
        else .unknown
    | [word, _, _] => if word = msgData then .data else .unknown
    | _ => .unknown

/-- The request with the first word `word`, of a server, a channel and a name. -/
def Request.named (word serverId channelName userName : Token) (rest : List Token) : Request :=
  if word = msgHb then .hb serverId channelName userName
  else if word = msgConnect then .connect serverId channelName userName rest.head?
  else if word = msgDisconnect then .disconnect serverId channelName userName
  else if word = msgPeerTimeout then .peerTimeout serverId channelName userName
  else if word = msgRequestRelay then .requestRelay serverId channelName userName
  else if word = msgData then .data
  else .unknown

/-- Four words or more. -/
theorem Request.ofText_of_words {msg : Str} {word s c u : Token} {rest : List Token}
    (hprobe : startsWith msg msgNatProbe.text = false)
    (hwords : splitWhitespace msg = word :: s :: c :: u :: rest) :
    Request.ofText msg = .named word s c u rest := by
  have hpong : trim msg ≠ msgPong.text := by
    intro hpong
    rw [splitWhitespace_of_trim hpong] at hwords
    exact absurd (List.cons.inj hwords).2 (List.cons_ne_nil _ _).symm
  unfold Request.ofText
  rw [hprobe, if_neg Bool.false_ne_true, if_neg hpong, splitWhitespace_trim, hwords]
  rfl

/-- `DATA`, and two words or more. -/
theorem Request.ofText_of_data {msg : Str} {ws : List Token}
    (hprobe : startsWith msg msgNatProbe.text = false)
    (hwords : splitWhitespace msg = msgData :: ws) :
    Request.ofText msg = if 2 ≤ ws.length then .data else .unknown := by
  have hpong : trim msg ≠ msgPong.text := by
    intro hpong
    rw [splitWhitespace_of_trim hpong] at hwords
    exact absurd (List.cons.inj hwords).1 (by decide)
  unfold Request.ofText
  rw [hprobe, if_neg Bool.false_ne_true, if_neg hpong, splitWhitespace_trim, hwords]
  rcases ws with _ | ⟨_, _ | ⟨_, _ | ⟨_, _⟩⟩⟩ <;> rfl

theorem Request.words_of_data {msg : Str} (h : Request.ofText msg = .data) :
    ∃ ws, splitWhitespace msg = msgData :: ws := by
  unfold Request.ofText at h
  rw [splitWhitespace_trim] at h
  split_ifs at h
  split at h
  · rename_i hwords
    split_ifs at h with hhb hconnect hdisconnect htimeout hrelay hdata
    exact ⟨_, hdata ▸ hwords⟩
  · rename_i hwords
    split_ifs at h with hdata
    exact ⟨_, hdata ▸ hwords⟩
  · cases h

/-- The handler of each request; `msg` is the text it came in. -/
def Request.handle (amb : Ambient) (msg : Str) (src : SocketAddr) : Request → Server Unit
  | natProbe => sendTo (asBytes (line [msgNatSeen, src.token])) src
  | pong => handlePong amb.now src
  | hb s c u => handleHeartbeat amb.now s c u src
  | connect s c u natArg => handleConnectMessage amb s c u natArg src
  | disconnect s c u => handleDisconnectMessage s c u src
  | peerTimeout s c u => handlePeerTimeout s c u
  | requestRelay s c u => handleRelayRequest s c u
  | data => handleDataFromClient msg src
  | unknown => pure ()

/-- The dispatch, as a classification followed by a handler. -/
theorem handleMessage_eq (amb : Ambient) (msg : Str) (src : SocketAddr) :
    handleMessage amb msg src = (Request.ofText msg).handle amb msg src := by
  unfold handleMessage Request.ofText
  split_ifs
  · rfl
  · rfl
  · split
    · split_ifs <;> rfl
    · split_ifs <;> rfl
    · rfl

end NatPiercer.Signaling
