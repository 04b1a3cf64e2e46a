/-
# `Signaling.HandlersUtils` — sessions and the relay field

`src/signaling/handlers/utils.rs`.  A function that takes `&mut Channel`
runs under a guard of its caller: here it takes the channel and returns it.
The two that take the shared state lock it themselves, and
`handleUserRemoval` calls the other one before its own guard is gone.
-/
import NatPiercer.Signaling.Structures

namespace NatPiercer.Signaling

open Text Utf8 Net Proto LockProg

/-- `u.name == user_name && u.addr == src_addr`. -/
def User.isSession (userName : Token) (srcAddr : SocketAddr) (u : User) : Bool :=
  u.name = userName ∧ u.addr = srcAddr

def getRemainingUsers (serverId channelName : Token) : Server (List User) :=
  locked do
    let st ← getState
    return ((st.channel? serverId channelName).map Channel.users).getD []

/-- Refreshes the session `(user_name, src_addr)`; `none` when there is none.
The channel returned is the one left in the map and the clone given to the
caller. -/
def updateExistingUser (now : Instant) (channel : Channel) (userName : Token)
    (srcAddr : SocketAddr) : Option (Channel × Bool × UInt32) :=
  match channel.users.find? (User.isSession userName srcAddr) with
  | some existing =>
      some ({ channel with
        users := Vec.modifyFirst (User.isSession userName srcAddr)
          (fun u => { u with lastPong := now }) channel.users }, false, existing.peerId)
  | none => none

def removeOldUserSessions (channel : Channel) (userName : Token) (srcAddr : SocketAddr) :
    Channel :=
  { channel with
    users := channel.users.filter fun u => !(decide (u.name = userName ∧ u.addr ≠ srcAddr)) }

def handleLoneUserScenario (channel : Channel) : Server Channel :=
  match channel.relay, channel.users with
  | none, [u] =>
      match u.natKind with
      | .symmetric => do
          sendTo (asBytes (modeServerRelay u.name)) u.addr
          return { channel with relay := none }
      | _ => do
          sendTo (asBytes modeRelay) u.addr
          return { channel with relay := some u.name }
  | _, _ => return channel

def addNewUser (now : Instant) (channel : Channel) (userName : Token) (srcAddr : SocketAddr)
    (natKind : NatKind) : Server (Channel × UInt32) := do
  let channel := removeOldUserSessions channel userName srcAddr
  let peerId := channel.nextPeerId
  let channel := { channel with nextPeerId := channel.nextPeerId + 1 }
  let newUser := User.new userName srcAddr natKind peerId now
  let channel := { channel with users := channel.users ++ [newUser] }
  let channel ← handleLoneUserScenario channel
  return (channel, peerId)

/-- Removes the first entry of the session, as `position` finds it: the
channel left, whether the user leaving was the relay, and its address. -/
def findAndRemoveUser (channel : Channel) (userName : Token) (srcAddr : SocketAddr) :
    Option (Channel × Bool × SocketAddr) :=
  match channel.users.find? (User.isSession userName srcAddr) with
  | some leaving =>
      some ({ channel with users := channel.users.eraseP (User.isSession userName srcAddr) },
        decide (channel.relay = some userName), leaving.addr)
  | none => none

def updateRelayAfterDeparture (channel : Channel) (wasRelay : Bool) :
    Channel × Option SocketAddr :=
  if wasRelay then
    match channel.users with
    | [] => ({ channel with relay := none }, none)
    | [u] => ({ channel with relay := some u.name }, some u.addr)
    | u :: _ => ({ channel with relay := some u.name }, none)
  else (channel, none)

def handleUserRemoval (serverId channelName userName : Token) (srcAddr : SocketAddr) :
    Server (List User × Bool × Option SocketAddr × Option SocketAddr) :=
  locked do
    let st ← getState
    match (st.channel? serverId channelName).bind
        fun channel => findAndRemoveUser channel userName srcAddr with
    | some (channel, wasRelay, leavingUserAddr) =>
        let (channel, loneUserAddr) := updateRelayAfterDeparture channel wasRelay
        setState (st.modifyChannel serverId channelName fun _ => channel)
        -- the guard `st` is still alive here
        let remainingUsers ← getRemainingUsers serverId channelName
        return (remainingUsers, wasRelay, some leavingUserAddr, loneUserAddr)
    | none =>
        let remainingUsers ← getRemainingUsers serverId channelName
        return (remainingUsers, false, none, none)

def removeUserFromOtherChannels (st : ServerMap) (serverId channelName userName : Token)
    (srcAddr : SocketAddr) : ServerMap :=
  HashMap.modify serverId (HashMap.mapValues fun cname ch =>
    if cname = channelName then ch
    else { ch with users := ch.users.filter fun u => !u.isSession userName srcAddr }) st

end NatPiercer.Signaling
