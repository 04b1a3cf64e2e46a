/-
# `Signaling.Notifications` — telling the members who the relay is

`src/signaling/handlers/notifications.rs`.  Five of its functions write one
line for each member of a list; they are `notifyEach` at their own line and
addressee.  The election after a `CONNECT` (`handleMultipleUsersScenario`)
and the one after a departure (`handleRelayTransition`) choose by the same
`pickEligibleRelay` and announce differently.
-/
import NatPiercer.Signaling.HandlersUtils

namespace NatPiercer.Signaling

open Text Utf8 Net Proto LockProg

/-- Neither marked as needing the server nor behind a symmetric NAT. -/
def User.eligible (u : User) : Bool := !u.needsServerRelay && u.natKind != .symmetric

def pickEligibleRelay (channel : Channel) : Option User :=
  channel.users.find? User.eligible

/-- Whether the recorded relay changed. -/
def markRelayInChannel (serverId channelName : Token) (relayUser : User) : Server Bool :=
  locked do
    let st ← getState
    match st.channel? serverId channelName with
    | some channel =>
        if channel.relay = some relayUser.name then
          return false
        else do
          setState (st.modifyChannel serverId channelName fun ch =>
            { ch with relay := some relayUser.name })
          return true
    | none => return false

/-- The block that two handlers end with: `ch.relay = relay`, under a guard. -/
def recordRelay (serverId channelName : Token) (relay : Option Token) : Server Unit :=
  locked do
    let st ← getState
    setState (st.modifyChannel serverId channelName fun ch => { ch with relay := relay })

/-! ## One line for each member -/

/-- One line for each of `peers`. -/
def notifyEach (peers : List User) (msg : User → Str) (dst : User → SocketAddr) : Server Unit :=
  each peers fun peer => sendTo (asBytes (msg peer)) (dst peer)

def notifyRelayAboutPeers (relayUser : User) (peers : List User) : Server Unit :=
  notifyEach peers (fun peer => modeDirect peer.name peer.addr) fun _ => relayUser.addr

def notifyPeersAboutRelay (relayUser : User) (peers : List User) : Server Unit :=
  notifyEach peers (fun _ => modeDirect relayUser.name relayUser.addr) User.addr

def sendRelayModeToRelay (relayUser : User) : Server Unit :=
  sendTo (asBytes modeRelay) relayUser.addr

/-- Both ways: each member learns of the new user, and the new user of it. -/
def notifyExistingUsersAboutNewUser (users : List User) (newUserName : Token)
    (newUserAddr : SocketAddr) : Server Unit :=
  each users fun user =>
    whenever (user.addr ≠ newUserAddr) do
      sendTo (asBytes (modeDirect newUserName newUserAddr)) user.addr
      sendTo (asBytes (modeDirect user.name user.addr)) newUserAddr

def promoteNewRelay (newRelay : User) : Server Unit :=
  sendTo (asBytes modeRelay) newRelay.addr

def notifyLoneUser (loneUserAddr : Option SocketAddr) : Server Unit :=
  match loneUserAddr with
  | some loneUserAddr => sendTo (asBytes modeRelay) loneUserAddr
  | none => pure ()

def notifyPeersAboutNewRelay (newRelay : User) (peers : List User) : Server Unit :=
  notifyEach peers (fun _ => modeDirect newRelay.name newRelay.addr) User.addr

def notifyNewRelayAboutPeers (newRelay : User) (peers : List User) : Server Unit :=
  notifyEach peers (fun user => modeDirect user.name user.addr) fun _ => newRelay.addr

/-- The address a departure line carries when there is none to report. -/
def unknownAddr : Token := ⟨"0.0.0.0:0".toList, by decide⟩

def notifyAllAboutDeparture (remainingUsers : List User) (userName : Token)
    (leavingUserAddr : Option SocketAddr) : Server Unit :=
  notifyEach remainingUsers
    (fun _ => userLeft userName ((leavingUserAddr.map SocketAddr.token).getD unknownAddr))
    User.addr

/-- No member can be the relay: every member hears of every member that the
server relays for it. -/
def announceServerRelay (users : List User) : Server Unit :=
  each users fun u => notifyEach users (fun _ => modeServerRelay u.name) User.addr

/-! ## After a `CONNECT` -/

/-- The members other than `relayUser` that do not need the server. -/
def relayPeers (relayUser : User) (users : List User) : List User :=
  users.filter fun u => !(u.name = relayUser.name || u.needsServerRelay)

/-- The members other than `relayUser` that do. -/
def symmetricPeers (relayUser : User) (users : List User) : List User :=
  users.filter fun u => !decide (u.name = relayUser.name) && u.needsServerRelay

def handleMultipleUsersScenario (serverId channelName : Token) (usersToNotify : Channel) :
    Server Unit :=
  match pickEligibleRelay usersToNotify with
  | some relayUser => do
      let relayPeers := relayPeers relayUser usersToNotify.users
      let symmetricPeers := symmetricPeers relayUser usersToNotify.users
      let changed ← markRelayInChannel serverId channelName relayUser
      notifyRelayAboutPeers relayUser relayPeers
      notifyPeersAboutRelay relayUser relayPeers
      whenever changed (sendRelayModeToRelay relayUser)
      each symmetricPeers fun symmetric => do
        sendTo (asBytes (modeServerRelay symmetric.name)) symmetric.addr
        whenever (relayUser.addr ≠ symmetric.addr)
          (sendTo (asBytes (modeServerRelay symmetric.name)) relayUser.addr)
  | none => do
      announceServerRelay usersToNotify.users
      recordRelay serverId channelName none

def handleSingleUserScenario (usersToNotify : Channel) (userName : Token)
    (srcAddr : SocketAddr) : Server Unit :=
  notifyExistingUsersAboutNewUser usersToNotify.users userName srcAddr

def handleConnectNotifications (serverId channelName userName : Token) (srcAddr : SocketAddr)
    (usersToNotify : Channel) : Server Unit :=
  if 1 < usersToNotify.users.length then
    handleMultipleUsersScenario serverId channelName usersToNotify
  else handleSingleUserScenario usersToNotify userName srcAddr

/-! ## After a departure -/

def handleRelayTransition (wasRelay : Bool) (serverId channelName : Token) : Server Unit :=
  whenever wasRelay do
    let channelOpt ← locked do
      let st ← getState
      return st.channel? serverId channelName
    match channelOpt with
    | some channel =>
        match pickEligibleRelay channel with
        | some newRelay => do
            let peers := channel.users.filter fun u => u.name ≠ newRelay.name
            promoteNewRelay newRelay
            notifyPeersAboutNewRelay newRelay peers
            notifyNewRelayAboutPeers newRelay peers
            recordRelay serverId channelName (some newRelay.name)
        | none => do
            announceServerRelay channel.users
            recordRelay serverId channelName none
    | none => pure ()

def handleDisconnectNotifications (remainingUsers : List User) (wasRelay : Bool)
    (leavingUserAddr loneUserAddr : Option SocketAddr) (userName serverId channelName : Token) :
    Server Unit := do
  match loneUserAddr with
  | some _ => notifyLoneUser loneUserAddr
  | none => handleRelayTransition wasRelay serverId channelName
  notifyAllAboutDeparture remainingUsers userName leavingUserAddr

/-- The member is removed by name alone; a sole survivor becomes the relay on
record. -/
def Channel.removePeer (peerUser : Token) (channel : Channel) : Channel :=
  let users := channel.users.filter fun u => u.name ≠ peerUser
  match users with
  | [u] => { channel with users := users, relay := some u.name }
  | _ => { channel with users := users }

def handlePeerTimeout (serverId channelName peerUser : Token) : Server Unit := do
  let remaining ← locked do
    let st ← getState
    setState (st.modifyChannel serverId channelName (Channel.removePeer peerUser))
    let st ← getState
    return st.channel? serverId channelName
  match remaining with
  | some channel =>
      notifyEach channel.users (fun _ => userLeft peerUser unknownAddr) User.addr
  | none => pure ()

end NatPiercer.Signaling
