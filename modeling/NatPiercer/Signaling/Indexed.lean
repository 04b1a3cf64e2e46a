/-
# `Signaling.Indexed` — the server, index by index

`Signaling.Handlers` reads the words of a message by their shape, and
`HandlersUtils` and `Heartbeat` the users of a channel by theirs.  The source
does it by number: `parts[1]` in a handler whose caller has counted the
parts, `channel.users[0]` behind a test of the length, `users[pos]` after a
`position`, `users.remove(i)` in a loop over a vector that gets shorter.

These are the functions that do so, and the ones that call them, as the
source writes them: a pure one is to `Option`, one that sends or takes the
mutex is a `Checked`, and either ends at the first index that is not there.
Each is then the function it is written after, and so never ends there; for
a handler that needs its parts, whenever there are as many as the dispatch
asks for.
-/
import NatPiercer.Lib.Checked
import NatPiercer.Proto.Indexed
import NatPiercer.Signaling.Handlers
import NatPiercer.Signaling.Server

namespace NatPiercer.Signaling.Indexed

open Text Utf8 Net Proto
open LockProg (getState setState each)
open Checked (index orPanic NeverPanics)
open scoped Checked

/-- A handler that an index can stop. -/
abbrev Handler := Checked ServerMap Datagram

/-! ## `utils.rs` -/

def handleLoneUserScenario (channel : Channel) : Handler Channel :=
  if channel.relay = none ∧ channel.users.length = 1 then do
    let u ← index channel.users 0
    match u.natKind with
    | .symmetric => do
        let named ← index channel.users 0
        sendTo (asBytes (modeServerRelay named.name)) u.addr
        return { channel with relay := none }
    | _ => do
        sendTo (asBytes modeRelay) u.addr
        return { channel with relay := some u.name }
  else return channel

def addNewUser (now : Instant) (channel : Channel) (userName : Token) (srcAddr : SocketAddr)
    (natKind : NatKind) : Handler (Channel × UInt32) := do
  let channel := removeOldUserSessions channel userName srcAddr
  let peerId := channel.nextPeerId
  let channel := { channel with nextPeerId := channel.nextPeerId + 1 }
  let newUser := User.new userName srcAddr natKind peerId now
  let channel := { channel with users := channel.users ++ [newUser] }
  let channel ← handleLoneUserScenario channel
  return (channel, peerId)

/-- The outer `none` is a panic, the inner one says that there is no such
session. -/
def findAndRemoveUser (channel : Channel) (userName : Token) (srcAddr : SocketAddr) :
    Option (Option (Channel × Bool × SocketAddr)) :=
  match channel.users.findIdx? (User.isSession userName srcAddr) with
  | some pos => do
      let wasRelay := decide (channel.relay = some userName)
      let leaving ← channel.users[pos]?
      let users ← Vec.remove pos channel.users
      return some ({ channel with users := users }, wasRelay, leaving.addr)
  | none => return none

def updateRelayAfterDeparture (channel : Channel) (wasRelay : Bool) :
    Option (Channel × Option SocketAddr) :=
  if wasRelay then do
    let relay ← if channel.users ≠ [] then do
        let newRelay ← channel.users[0]?
        pure (some newRelay.name)
      else pure none
    let channel := { channel with relay := relay }
    if channel.users.length = 1 then do
      let newRelay ← channel.users[0]?
      let channel := { channel with relay := some newRelay.name }
      let lone ← channel.users[0]?
      return (channel, some lone.addr)
    else return (channel, none)
  else return (channel, none)

def handleUserRemoval (serverId channelName userName : Token) (srcAddr : SocketAddr) :
    Handler (List User × Bool × Option SocketAddr × Option SocketAddr) :=
  Checked.locked do
    let st ← (getState : Server ServerMap)
    let found ← match st.channel? serverId channelName with
      | some channel => orPanic (findAndRemoveUser channel userName srcAddr)
      | none => pure none
    match found with
    | some (channel, wasRelay, leavingUserAddr) => do
        let (channel, loneUserAddr) ← orPanic (updateRelayAfterDeparture channel wasRelay)
        (setState (st.modifyChannel serverId channelName fun _ => channel) : Server Unit)
        let remainingUsers ← getRemainingUsers serverId channelName
        return (remainingUsers, wasRelay, some leavingUserAddr, loneUserAddr)
    | none => do
        let remainingUsers ← getRemainingUsers serverId channelName
        return (remainingUsers, false, none, none)

section Utils
variable (channel : Channel) (userName : Token) (srcAddr : SocketAddr)

theorem handleLoneUserScenario_eq_lift :
    handleLoneUserScenario channel = liftM (Signaling.handleLoneUserScenario channel) := by
  obtain ⟨channelId, nextPeerId, users, relay⟩ := channel
  unfold handleLoneUserScenario Signaling.handleLoneUserScenario
  rcases relay with _ | r
  · rcases users with _ | ⟨u, _ | ⟨v, users⟩⟩
    · rfl
    · cases hnat : u.natKind <;> simp [hnat]
    · rfl
  · simp

theorem addNewUser_eq_lift (now : Instant) (natKind : NatKind) :
    addNewUser now channel userName srcAddr natKind =
      liftM (Signaling.addNewUser now channel userName srcAddr natKind) := by
  simp only [addNewUser, Signaling.addNewUser, handleLoneUserScenario_eq_lift, liftM_bind,
    liftM_pure]

theorem findAndRemoveUser_eq_some :
    findAndRemoveUser channel userName srcAddr =
      some (Signaling.findAndRemoveUser channel userName srcAddr) := by
  unfold findAndRemoveUser Signaling.findAndRemoveUser
  cases hpos : channel.users.findIdx? (User.isSession userName srcAddr) with
  | none => rw [Vec.position_none hpos]; rfl
  | some pos =>
      obtain ⟨leaving, hfind, hget, hremove⟩ := Vec.position_spec hpos
      dsimp only
      rw [hfind, hget, hremove]
      rfl

theorem updateRelayAfterDeparture_eq_some (wasRelay : Bool) :
    updateRelayAfterDeparture channel wasRelay =
      some (Signaling.updateRelayAfterDeparture channel wasRelay) := by
  obtain ⟨channelId, nextPeerId, users, relay⟩ := channel
  unfold updateRelayAfterDeparture Signaling.updateRelayAfterDeparture
  cases wasRelay with
  | false => rfl
  | true => rcases users with _ | ⟨u, _ | ⟨v, users⟩⟩ <;> rfl

theorem handleUserRemoval_eq_lift (serverId channelName : Token) :
    handleUserRemoval serverId channelName userName srcAddr =
      liftM (Signaling.handleUserRemoval serverId channelName userName srcAddr) := by
  unfold handleUserRemoval Signaling.handleUserRemoval
  rw [← Checked.locked_lift, liftM_bind]
  refine congrArg Checked.locked (bind_congr fun st => ?_)
  cases st.channel? serverId channelName with
  | none => simp
  | some channel =>
      simp only [findAndRemoveUser_eq_some, Checked.orPanic_some, pure_bind, Option.bind_some]
      cases Signaling.findAndRemoveUser channel userName srcAddr with
      | none => simp
      | some found =>
          simp [updateRelayAfterDeparture_eq_some]

end Utils

/-! ## The handlers

Each gets the `parts` of the message. -/

def handleHeartbeat (now : Instant) (parts : List Token) (src : SocketAddr) : Handler Unit := do
  let serverId ← index parts 1
  let channelName ← index parts 2
  let userName ← index parts 3
  Signaling.handleHeartbeat now serverId channelName userName src

def sendWelcome (dst : SocketAddr) (channelId : UInt64) (peerId : UInt32) : Handler Unit := do
  let payload := asBytes (welcomeText channelId peerId)
  let hdr := Header.welcome channelId peerId (.ofNat payload.length)
  let pkt ← orPanic (Proto.Indexed.encode hdr payload)
  sendTo pkt dst

/-- The `nat_kind` of a `CONNECT`. -/
def natKind (parts : List Token) : Handler NatKind :=
  if 5 ≤ parts.length then do
    let arg ← index parts 4
    return NatKind.ofArg (some arg)
  else return .unknown

def handleConnectMessage (amb : Ambient) (parts : List Token) (srcAddr : SocketAddr) :
    Handler Unit := do
  let serverId ← index parts 1
  let channelName ← index parts 2
  let userName ← index parts 3
  let natKind ← natKind parts
  let (usersToNotify, isNewUser, peerId) ← Checked.locked do
    let st ← (getState : Server ServerMap)
    let st := removeUserFromOtherChannels st serverId channelName userName srcAddr
    let st := st.ensureChannel serverId channelName
    let channel := ((st.channel? serverId channelName).getD .default).ensureId amb.channelId
    match updateExistingUser amb.now channel userName srcAddr with
    | some (channel, isNew, peerId) => do
        (setState (st.modifyChannel serverId channelName fun _ => channel) : Server Unit)
        return (channel, isNew, peerId)
    | none => do
        let (channel, peerId) ← addNewUser amb.now channel userName srcAddr natKind
        (setState (st.modifyChannel serverId channelName fun _ => channel) : Server Unit)
        return (channel, true, peerId)
  sendWelcome srcAddr usersToNotify.channelId peerId
  if isNewUser then
    handleConnectNotifications serverId channelName userName srcAddr usersToNotify
  else return

def handleDisconnectMessage (parts : List Token) (srcAddr : SocketAddr) : Handler Unit := do
  let serverId ← index parts 1
  let channelName ← index parts 2
  let userName ← index parts 3
  let (remainingUsers, wasRelay, leavingUserAddr, loneUserAddr) ←
    handleUserRemoval serverId channelName userName srcAddr
  handleDisconnectNotifications remainingUsers wasRelay leavingUserAddr loneUserAddr userName
    serverId channelName

/-- The block of `handle_peer_timeout` on the channel. -/
def removePeer (peerUser : Token) (channel : Channel) : Option Channel := do
  let channel := { channel with users := channel.users.filter fun u => u.name ≠ peerUser }
  if channel.users.length = 1 then do
    let u ← channel.users[0]?
    return { channel with relay := some u.name }
  else return channel

def handlePeerTimeout (parts : List Token) : Handler Unit := do
  let serverId ← index parts 1
  let channelName ← index parts 2
  let peerUser ← index parts 3
  let remaining ← Checked.locked do
    let st ← (getState : Server ServerMap)
    let st ← orPanic (st.tryModifyChannel serverId channelName (removePeer peerUser))
    (setState st : Server Unit)
    let st ← (getState : Server ServerMap)
    return st.channel? serverId channelName
  match remaining with
  | some channel => notifyEach channel.users (fun _ => userLeft peerUser unknownAddr) User.addr
  | none => return

/-- This one counts its parts itself, once more. -/
def handleRelayRequest (parts : List Token) : Handler Unit :=
  if parts.length < 4 then return
  else do
    let serverId ← index parts 1
    let channelName ← index parts 2
    let username ← index parts 3
    Signaling.handleRelayRequest serverId channelName username

/-- The outer `none` is a panic, the inner one goes on to the next channel. -/
def forwardData (senderName : Str) (src : SocketAddr) (channel : Channel) :
    Option (Option (List SocketAddr)) :=
  let relayUser := channel.relay.bind fun relayName =>
    channel.users.find? fun u => u.name = relayName
  let needing := (channel.users.filter fun peer =>
    !decide (peer.name.text = senderName) && peer.needsServerRelay).map User.addr
  if relayUser.any fun relayUser => relayUser.addr = src then return some needing
  else
    match channel.users.findIdx? fun u => u.addr = src ∧ u.name.text = senderName with
    | none => return none
    | some senderIndex => do
        let senderIsRelay := decide (channel.relay.map Token.text = some senderName)
        let sender ← channel.users[senderIndex]?
        let senderNeedsServerRelay := sender.needsServerRelay
        if senderIsRelay then return some needing
        else if senderNeedsServerRelay then
          return some ((channel.users.filter fun peer => peer.addr ≠ src).map User.addr)
        else return some ((relayUser.filter fun relayUser => relayUser.addr ≠ src).map
          User.addr).toList

/-- The parts of a `DATA` are other ones: its text split at two blanks. -/
def handleDataFromClient (raw : Str) (src : SocketAddr) : Handler Unit :=
  let parts := splitn 3 ' ' raw
  if parts.length < 3 then return
  else do
    let senderName ← index parts 1
    Checked.locked do
      let st ← (getState : Server ServerMap)
      let found ← orPanic (st.channels.findSomeM? fun (_, _, channel) =>
        forwardData senderName src channel)
      match found with
      | some dsts => each dsts fun dst => sendTo (asBytes raw) dst
      | none => return

section Handlers
variable (word serverId channelName userName : Token) (rest : List Token) (src : SocketAddr)

theorem handleHeartbeat_eq_lift (now : Instant) :
    handleHeartbeat now (word :: serverId :: channelName :: userName :: rest) src =
      liftM (Signaling.handleHeartbeat now serverId channelName userName src) := by
  simp only [handleHeartbeat, Checked.index_succ, Checked.index_zero, pure_bind]

/-- What the dispatch counts the parts for: a handler that reads three names stops
exactly where there are too few of them. -/
theorem handleHeartbeat_neverPanics_iff (now : Instant) (parts : List Token) :
    NeverPanics (handleHeartbeat now parts src) ↔ 4 ≤ parts.length := by
  rcases parts with _ | ⟨word, _ | ⟨s, _ | ⟨c, _ | ⟨u, rest⟩⟩⟩⟩
  · exact iff_of_false (Checked.not_neverPanics_none _) (by simp)
  · exact iff_of_false (Checked.not_neverPanics_none _) (by simp)
  · rw [handleHeartbeat, Checked.index_succ, Checked.index_zero, pure_bind]
    exact iff_of_false (Checked.not_neverPanics_none _) (by simp)
  · simp only [handleHeartbeat, Checked.index_succ, Checked.index_zero, pure_bind]
    exact iff_of_false (Checked.not_neverPanics_none _) (by simp)
  · rw [handleHeartbeat_eq_lift]
    exact iff_of_true (Checked.neverPanics_lift _) (Nat.le_add_left 4 rest.length)

theorem sendWelcome_eq_lift (channelId : UInt64) (peerId : UInt32) :
    sendWelcome src channelId peerId = liftM (Signaling.sendWelcome src channelId peerId) := by
  simp only [sendWelcome, Signaling.sendWelcome, Proto.Indexed.encode_eq_some,
    Checked.orPanic_some, pure_bind]

/-- The fifth part is read only where there is one. -/
theorem natKind_eq_pure :
    natKind (word :: serverId :: channelName :: userName :: rest) =
      pure (NatKind.ofArg rest.head?) := by
  cases rest with
  | nil => rfl
  | cons arg rest => simp [natKind]

theorem handleConnectMessage_eq_lift (amb : Ambient) :
    handleConnectMessage amb (word :: serverId :: channelName :: userName :: rest) src =
      liftM (Signaling.handleConnectMessage amb serverId channelName userName rest.head? src) := by
  unfold handleConnectMessage Signaling.handleConnectMessage
  rw [liftM_bind, ← Checked.locked_lift, liftM_bind]
  simp only [Checked.index_succ, Checked.index_zero, pure_bind, natKind_eq_pure]
  refine congr (congrArg _ (congrArg Checked.locked (bind_congr fun st => ?_))) ?_
  · cases updateExistingUser amb.now _ userName src with
    | none => simp [addNewUser_eq_lift]
    | some updated => simp
  · refine funext fun connected => ?_
    obtain ⟨usersToNotify, isNewUser, peerId⟩ := connected
    cases isNewUser <;> simp [sendWelcome_eq_lift, LockProg.whenever]

theorem handleDisconnectMessage_eq_lift :
    handleDisconnectMessage (word :: serverId :: channelName :: userName :: rest) src =
      liftM (Signaling.handleDisconnectMessage serverId channelName userName src) := by
  simp only [handleDisconnectMessage, Signaling.handleDisconnectMessage, Checked.index_succ,
    Checked.index_zero, pure_bind, handleUserRemoval_eq_lift, liftM_bind]

theorem removePeer_eq_some (channel : Channel) :
    removePeer userName channel = some (channel.removePeer userName) := by
  unfold removePeer Channel.removePeer
  generalize channel.users.filter (fun u => u.name ≠ userName) = users
  rcases users with _ | ⟨u, _ | ⟨v, users⟩⟩ <;> rfl

theorem handlePeerTimeout_eq_lift :
    handlePeerTimeout (word :: serverId :: channelName :: userName :: rest) =
      liftM (Signaling.handlePeerTimeout serverId channelName userName) := by
  unfold handlePeerTimeout Signaling.handlePeerTimeout
  rw [liftM_bind, ← Checked.locked_lift]
  simp only [Checked.index_succ, Checked.index_zero, pure_bind, liftM_bind,
    ServerMap.tryModifyChannel_eq_some (removePeer_eq_some userName), Checked.orPanic_some,
    liftM_pure]
  refine bind_congr fun remaining => ?_
  cases remaining <;> rfl

theorem handleRelayRequest_eq_lift :
    handleRelayRequest (word :: serverId :: channelName :: userName :: rest) =
      liftM (Signaling.handleRelayRequest serverId channelName userName) := by
  have hfour : ¬ (word :: serverId :: channelName :: userName :: rest).length < 4 :=
    Nat.not_lt_of_le (Nat.le_add_left 4 rest.length)
  rw [handleRelayRequest, if_neg hfour]
  simp only [Checked.index_succ, Checked.index_zero, pure_bind]

theorem forwardData_eq_some (senderName : Str) (channel : Channel) :
    forwardData senderName src channel = some (channel.forwardData senderName src) := by
  unfold forwardData Channel.forwardData
  dsimp only
  cases hpos : channel.users.findIdx? fun u => u.addr = src ∧ u.name.text = senderName with
  | none =>
      rw [Vec.position_none hpos]
      split_ifs <;> rfl
  | some senderIndex =>
      obtain ⟨sender, hfind, hget, -⟩ := Vec.position_spec hpos
      have hsender := List.find?_some hfind
      have hname : sender.name.text = senderName := (of_decide_eq_true hsender).2
      have hrelay : channel.relay.map Token.text = some senderName ↔
          channel.relay = some sender.name := by
        rw [← hname, ← Option.map_some]
        exact (Option.map_injective fun _ _ => Token.ext).eq_iff
      dsimp only
      rw [hfind, hget]
      simp only [hrelay, Option.bind_eq_bind, Option.bind_some, decide_eq_true_eq]
      split_ifs <;> rfl

theorem handleDataFromClient_eq_lift (raw : Str) :
    handleDataFromClient raw src = liftM (Signaling.handleDataFromClient raw src) := by
  unfold handleDataFromClient Signaling.handleDataFromClient
  have hlen := length_splitn_le ' ' 3 raw
  generalize splitn 3 ' ' raw = parts at hlen
  rcases parts with _ | ⟨word, _ | ⟨senderName, _ | ⟨text, _ | ⟨_, parts⟩⟩⟩⟩
  · rfl
  · rfl
  · rfl
  · dsimp only
    rw [← Checked.locked_lift, liftM_bind,
      if_neg (show ¬ [word, senderName, text].length < 3 from Nat.lt_irrefl 3)]
    simp only [Checked.index_succ, Checked.index_zero, pure_bind, forwardData_eq_some]
    refine congrArg Checked.locked (bind_congr fun st => ?_)
    have hfind : (st.channels.findSomeM? fun (_, _, channel) =>
          some (Channel.forwardData senderName src channel)) =
        some (st.channels.findSome? fun (_, _, channel) =>
          Channel.forwardData senderName src channel) :=
      List.findSomeM?_pure (m := Option)
    rw [hfind]
    cases st.channels.findSome? fun (_, _, channel) =>
      Channel.forwardData senderName src channel <;> rfl
  · exact absurd hlen (Nat.not_le_of_lt (Nat.le_add_left 4 parts.length))

end Handlers

/-! ## `message.rs` -/

/-- `parts.len() >= 4 && parts[0] == MSG_HB` -/
def isHb (parts : List Token) : Handler Bool :=
  if 4 ≤ parts.length then do
    let word ← index parts 0
    return word = msgHb
  else return false

def handleMessage (amb : Ambient) (msg : Str) (src : SocketAddr) : Handler Unit :=
  if startsWith msg msgNatProbe.text then
    sendTo (asBytes (line [msgNatSeen, src.token])) src
  else
    let parts := splitWhitespace (trim msg)
    if trim msg = msgPong.text then handlePong amb.now src
    else do
      let isHb ← isHb parts
      if isHb then handleHeartbeat amb.now parts src
      else if 1 ≤ parts.length then do
        let word ← index parts 0
        if word = msgConnect ∧ 4 ≤ parts.length then handleConnectMessage amb parts src
        else if word = msgDisconnect ∧ 4 ≤ parts.length then handleDisconnectMessage parts src
        else if word = msgPeerTimeout ∧ 4 ≤ parts.length then handlePeerTimeout parts
        else if word = msgRequestRelay ∧ 4 ≤ parts.length then handleRelayRequest parts
        else if word = msgData ∧ 3 ≤ parts.length then handleDataFromClient msg src
        else return
      else return

/-- **The parts are counted before they are read**: the dispatch by number is the
dispatch by shape. -/
theorem handleMessage_eq_lift (amb : Ambient) (msg : Str) (src : SocketAddr) :
    handleMessage amb msg src = liftM (Signaling.handleMessage amb msg src) := by
  unfold handleMessage Signaling.handleMessage
  generalize splitWhitespace (trim msg) = parts
  by_cases hprobe : startsWith msg msgNatProbe.text
  · rw [if_pos hprobe, if_pos hprobe]
  rw [if_neg hprobe, if_neg hprobe]
  dsimp only
  by_cases hpong : trim msg = msgPong.text
  · rw [if_pos hpong, if_pos hpong]
  rw [if_neg hpong, if_neg hpong]
  rcases parts with _ | ⟨word, _ | ⟨s, _ | ⟨c, _ | ⟨u, rest⟩⟩⟩⟩
  · rfl
  · simp [isHb]
  · simp [isHb]
  · simp only [isHb, List.length_cons, List.length_nil, Nat.reduceAdd, Nat.reduceLeDiff,
      if_true, if_false, pure_bind, Checked.index_zero, and_false, and_true,
      Bool.false_eq_true]
    split_ifs with hdata
    · exact handleDataFromClient_eq_lift src msg
    · rfl
  · have hfour : 4 ≤ (word :: s :: c :: u :: rest).length := Nat.le_add_left 4 rest.length
    have hthree : 3 ≤ (word :: s :: c :: u :: rest).length := Nat.le_of_succ_le hfour
    have hone : 1 ≤ (word :: s :: c :: u :: rest).length := Nat.le_add_left 1 _
    simp only [isHb, hfour, hthree, hone, if_true, pure_bind, Checked.index_zero, and_true,
      decide_eq_true_eq]
    split_ifs with hhb hconnect hdisconnect htimeout hrelay hdata
    · exact handleHeartbeat_eq_lift word s c u rest src amb.now
    · exact handleConnectMessage_eq_lift word s c u rest src amb
    · exact handleDisconnectMessage_eq_lift word s c u rest src
    · exact handlePeerTimeout_eq_lift word s c u rest
    · exact handleRelayRequest_eq_lift word s c u rest
    · exact handleDataFromClient_eq_lift src msg
    · rfl

/-! ## `signaling_server.rs` -/

/-- The body of a branch: the packet is looked for in `&packetBuf[..len]`, the
plain text is `&plainBuf[..len]`. -/
def branch (amb : Ambient) (packetBuf plainBuf : Buffer) (len : Nat) (src : SocketAddr) :
    Handler Unit := do
  let packet ← orPanic (Vec.slice 0 len packetBuf.bytes)
  let decoded ← orPanic (Proto.Indexed.decode packet)
  match decoded with
  | some (hdr, payload) =>
      if hdr.kind = .control then
        match fromUtf8 payload with
        | some s => handleMessage amb s src
        | none => return
      else return
  | none => do
      let plain ← orPanic (Vec.slice 0 len plainBuf.bytes)
      handleMessage amb (fromUtf8Lossy plain) src

/-- One round of the loop of `run_server`. -/
def serve (amb : Ambient) (b : Buffers) (arrival : Arrival) : Handler Buffers :=
  let len := (received arrival.payload).length
  match arrival.socket with
  | .main => do
      let bufMain := b.bufMain.recv arrival.payload
      branch amb bufMain bufMain len arrival.src
      return { b with bufMain := bufMain }
  | .probe => do
      let bufProbe := b.bufProbe.recv arrival.payload
      branch amb b.bufMain bufProbe len arrival.src
      return { b with bufProbe := bufProbe }

/-- What a round does with the text it has dispatched. -/
def dispatch (amb : Ambient) (src : SocketAddr) : Option Str → Server Unit
  | some msg => Signaling.handleMessage amb msg src
  | none => pure ()

theorem branch_eq_lift (amb : Ambient) (packetBuf plainBuf : Buffer) {len : Nat}
    (hlen : len ≤ 2048) (src : SocketAddr) :
    branch amb packetBuf plainBuf len src =
      liftM (dispatch amb src (dispatchText (packetBuf.upTo len) (plainBuf.upTo len))) := by
  have hupTo : ∀ buf : Buffer, Vec.slice 0 len buf.bytes = some (buf.upTo len) := fun buf =>
    Vec.slice_zero (hlen.trans_eq buf.length_bytes.symm)
  unfold branch dispatchText framed
  simp only [hupTo, Proto.Indexed.decode_eq_some, Checked.orPanic_some, pure_bind]
  cases decode (packetBuf.upTo len) with
  | none => exact handleMessage_eq_lift amb _ src
  | some packet =>
      obtain ⟨hdr, payload⟩ := packet
      simp only [Option.map_some]
      split_ifs with hkind
      · cases fromUtf8 payload with
        | none => rfl
        | some s => exact handleMessage_eq_lift amb s src
      · rfl

/-- A round is the one of `Signaling.Server`, and the handler of what it has
dispatched. -/
theorem serve_eq_lift (amb : Ambient) (b : Buffers) (arrival : Arrival) :
    serve amb b arrival = liftM (do
      dispatch amb arrival.src (Signaling.serve b arrival).2
      return (Signaling.serve b arrival).1) := by
  have hlen : (received arrival.payload).length ≤ 2048 := List.length_take_le 2048 _
  rw [liftM_bind, liftM_pure]
  unfold serve Signaling.serve
  cases arrival.socket with
  | main =>
      dsimp only
      rw [branch_eq_lift amb _ _ hlen]
  | probe =>
      dsimp only
      rw [branch_eq_lift amb _ _ hlen]

end NatPiercer.Signaling.Indexed
