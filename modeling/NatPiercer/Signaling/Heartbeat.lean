/-
# `Signaling.Heartbeat` — the pass over all channels

`src/signaling/heartbeat.rs`.  Every twenty seconds one pass drops the users
that have been silent for more than forty, repairs the relay field, pings
the users that are alone, and removes the channels that are empty.  The
decisions are taken under one guard (`collectHeartbeatData`); the datagrams
leave without one, and the removal takes a second (`cleanupEmptyChannels`).

What the source pushes on its three vectors is here returned, in the order
of the pushes.
-/
import NatPiercer.Signaling.HandlersUtils

namespace NatPiercer.Signaling

open Text Utf8 Net Proto LockProg

/-- A payload, and everyone it goes to. -/
abbrev Notification := List SocketAddr × Bytes

/-- Unlike the one of the handlers, this does not look at the NAT kind. -/
def Heartbeat.pickEligibleRelay (channel : Channel) : Option User :=
  channel.users.find? fun u => !u.needsServerRelay

def handleRelayTimeout (channel : Channel) : Channel × List Notification :=
  match Heartbeat.pickEligibleRelay channel with
  | some newRelayUser =>
      let peers := channel.users.filter fun u => u.name ≠ newRelayUser.name
      let toPeers := peers.flatMap fun _ =>
        asBytes (modeDirect newRelayUser.name newRelayUser.addr)
      let toNew := peers.flatMap fun peer => asBytes (modeDirect peer.name peer.addr)
      ({ channel with relay := some newRelayUser.name },
        ([newRelayUser.addr], asBytes modeRelay) ::
          (if (peers.map User.addr).isEmpty then [] else [(peers.map User.addr, toPeers)]) ++
          (if toNew.isEmpty then [] else [([newRelayUser.addr], toNew)]))
  | none =>
      ({ channel with relay := none },
        if channel.users.isEmpty then []
        else [(channel.users.map User.addr,
          channel.users.flatMap fun u => asBytes (modeServerRelay u.name))])

def handleTimedOutUser (channel : Channel) (userIndex : Nat) (userName : Token)
    (userAddr : SocketAddr) : Channel × List Notification :=
  let peersToNotify := (channel.users.filter fun u => u.addr ≠ userAddr).map User.addr
  let left := if peersToNotify.isEmpty then []
    else [(peersToNotify, asBytes (userLeft userName userAddr.token))]
  let wasRelay := decide (channel.relay = some userName)
  let channel := { channel with users := channel.users.eraseIdx userIndex }
  if wasRelay then
    let (channel, notifications) := handleRelayTimeout channel
    (channel, left ++ notifications)
  else
    match channel.users with
    | [u] => ({ channel with relay := some u.name }, left ++ [([u.addr], asBytes modeRelay)])
    | _ => (channel, left)

/-- `last_pong.elapsed() > Duration::from_secs(40)`. -/
def User.expired (now : Instant) (u : User) : Bool := now - u.lastPong > 40 * 10 ^ 9

/-- The loop over the users, from index `i` on.  Each round removes a user or
moves the index, so `todo` rounds suffice when that many users are left. -/
def expireLoop (now : Instant) : Nat → Nat → Channel → Channel × List Notification
  | 0, _, channel => (channel, [])
  | todo + 1, i, channel =>
      match channel.users[i]? with
      | none => (channel, [])
      | some user =>
          if user.expired now then
            let (channel, notifications) := handleTimedOutUser channel i user.name user.addr
            let (channel, more) := expireLoop now todo i channel
            (channel, notifications ++ more)
          else expireLoop now todo (i + 1) channel

/-- What a pass collects for the time after its guard. -/
structure HeartbeatData where
  pings : List SocketAddr
  cleanup : List (Token × Token)
  notifications : List Notification
deriving DecidableEq

/-- The vectors that a sequence of pushes leaves. -/
def HeartbeatData.concat (ds : List HeartbeatData) : HeartbeatData where
  pings := ds.flatMap pings
  cleanup := ds.flatMap cleanup
  notifications := ds.flatMap notifications

/-- The one user left is the relay if it can be, and the server is otherwise. -/
def settleSolo (channel : Channel) : Channel × List SocketAddr × List Notification :=
  match channel.users with
  | [solo] =>
      if solo.needsServerRelay then
        ({ channel with relay := none }, [], [([solo.addr], asBytes (modeServerRelay solo.name))])
      else ({ channel with relay := some solo.name }, [solo.addr], [])
  | _ => (channel, [], [])

def processChannelHeartbeat (now : Instant) (serverId channelName : Token) (channel : Channel) :
    Channel × HeartbeatData :=
  let (channel, expiry) := expireLoop now channel.users.length 0 channel
  let (channel, pings, settled) := settleSolo channel
  (channel,
    { pings := pings
      cleanup := if channel.users.isEmpty then [(serverId, channelName)] else []
      notifications := expiry ++ settled })

def collectHeartbeatData (now : Instant) : Server HeartbeatData :=
  locked do
    let st ← getState
    setState (HashMap.mapValues (fun sid => HashMap.mapValues fun cname channel =>
      (processChannelHeartbeat now sid cname channel).1) st)
    return .concat (st.channels.map fun (sid, cname, channel) =>
      (processChannelHeartbeat now sid cname channel).2)

def sendPings (toPing : List SocketAddr) : Server Unit :=
  each toPing fun addr => sendTo (asBytes msgPing.text) addr

def sendNotifications (notifyMsgs : List Notification) : Server Unit :=
  each notifyMsgs fun (peersToNotify, payload) => each peersToNotify fun addr =>
    sendTo payload addr

/-- `chans.remove(&cname)`, and the server with its last channel. -/
def ServerMap.removeChannel (st : ServerMap) (serverId channelName : Token) : ServerMap :=
  match AList.lookup serverId st with
  | some chans =>
      let chans := chans.erase channelName
      if chans.entries.isEmpty then st.erase serverId
      else HashMap.modify serverId (fun _ => chans) st
  | none => st

def cleanupEmptyChannels (toCleanup : List (Token × Token)) : Server Unit :=
  whenever (toCleanup ≠ []) (locked do
    let st ← getState
    setState (toCleanup.foldl (fun st (sid, cname) => st.removeChannel sid cname) st))

/-- One round of the loop in `start_heartbeat`. -/
def heartbeatPass (now : Instant) : Server Unit := do
  let data ← collectHeartbeatData now
  sendPings data.pings
  sendNotifications data.notifications
  cleanupEmptyChannels data.cleanup

end NatPiercer.Signaling
