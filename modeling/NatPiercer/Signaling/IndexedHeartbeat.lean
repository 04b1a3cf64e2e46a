/-
# `Signaling.IndexedHeartbeat` — the pass, index by index

`src/signaling/heartbeat.rs` goes through `channel.users` by an index `i`,
removes `users[i]` when it has expired and leaves `i` alone then, and reads
`users[0]` where one user is left.  `Signaling.Indexed` says how this is
written down.

A `while` is a recursion on how often it may still go round, and here to be
stopped by that would be a panic too: so that the loop is the one of
`Signaling.Heartbeat` also says that its rounds suffice.
-/
import NatPiercer.Signaling.ChannelCases
import NatPiercer.Signaling.Indexed

namespace NatPiercer.Signaling.Indexed

open Text Utf8 Net Proto
open LockProg (getState setState)
open Checked (orPanic)
open scoped Checked

def handleTimedOutUser (channel : Channel) (userIndex : Nat) (userName : Token)
    (userAddr : SocketAddr) : Option (Channel × List Notification) := do
  let peersToNotify := (channel.users.filter fun u => u.addr ≠ userAddr).map User.addr
  let left := if peersToNotify.isEmpty then []
    else [(peersToNotify, asBytes (userLeft userName userAddr.token))]
  let wasRelay := decide (channel.relay = some userName)
  let users ← Vec.remove userIndex channel.users
  let channel := { channel with users := users }
  if wasRelay then
    let (channel, notifications) := handleRelayTimeout channel
    return (channel, left ++ notifications)
  else if channel.users.length = 1 then do
    let relay ← channel.users[0]?
    let channel := { channel with relay := some relay.name }
    let told ← channel.users[0]?
    return (channel, left ++ [([told.addr], asBytes modeRelay)])
  else return (channel, left)

/-- `while i < channel.users.len()`, with `todo` rounds left. -/
def expireLoop (now : Instant) : Nat → Nat → Channel → Option (Channel × List Notification)
  | 0, i, channel => if i < channel.users.length then none else some (channel, [])
  | todo + 1, i, channel =>
      if i < channel.users.length then do
        let user ← channel.users[i]?
        if user.expired now then do
          let (channel, notifications) ← handleTimedOutUser channel i user.name user.addr
          let (channel, more) ← expireLoop now todo i channel
          return (channel, notifications ++ more)
        else expireLoop now todo (i + 1) channel
      else some (channel, [])

def settleSolo (channel : Channel) : Option (Channel × List SocketAddr × List Notification) :=
  if channel.users.length = 1 then do
    let solo ← channel.users[0]?
    if solo.needsServerRelay then
      return ({ channel with relay := none }, [],
        [([solo.addr], asBytes (modeServerRelay solo.name))])
    else return ({ channel with relay := some solo.name }, [solo.addr], [])
  else return (channel, [], [])

def processChannelHeartbeat (now : Instant) (serverId channelName : Token) (channel : Channel) :
    Option (Channel × HeartbeatData) := do
  let (channel, expiry) ← expireLoop now channel.users.length 0 channel
  let (channel, pings, settled) ← settleSolo channel
  return (channel,
    { pings := pings
      cleanup := if channel.users.isEmpty then [(serverId, channelName)] else []
      notifications := expiry ++ settled })

def collectHeartbeatData (now : Instant) : Handler HeartbeatData :=
  Checked.locked do
    let st ← (getState : Server ServerMap)
    let st' ← orPanic (HashMap.tryMapValues (fun sid => HashMap.tryMapValues fun cname channel =>
      (processChannelHeartbeat now sid cname channel).map Prod.fst) st)
    (setState st' : Server Unit)
    let data ← orPanic (st.channels.mapM fun (sid, cname, channel) =>
      (processChannelHeartbeat now sid cname channel).map Prod.snd)
    return .concat data

/-- One round of the loop in `start_heartbeat`. -/
def heartbeatPass (now : Instant) : Handler Unit := do
  let data ← collectHeartbeatData now
  sendPings data.pings
  sendNotifications data.notifications
  cleanupEmptyChannels data.cleanup

section Pass
variable (now : Instant) (channel : Channel)

/-- The user that is removed is there. -/
theorem handleTimedOutUser_eq_some {i : Nat} (hi : i < channel.users.length) (userName : Token)
    (userAddr : SocketAddr) :
    handleTimedOutUser channel i userName userAddr =
      some (Signaling.handleTimedOutUser channel i userName userAddr) := by
  unfold handleTimedOutUser Signaling.handleTimedOutUser
  rw [Vec.remove, if_pos hi]
  generalize channel.users.eraseIdx i = users
  dsimp only [Option.bind_eq_bind, Option.bind_some]
  generalize decide (channel.relay = some userName) = wasRelay
  cases wasRelay with
  | true => rfl
  | false => rcases users with _ | ⟨u, _ | ⟨v, users⟩⟩ <;> rfl

theorem expireLoop_eq_some (todo i : Nat) (h : channel.users.length ≤ i + todo) :
    expireLoop now todo i channel = some (Signaling.expireLoop now todo i channel) := by
  induction todo generalizing i channel with
  | zero => exact if_neg (Nat.not_lt_of_le h)
  | succ todo ih =>
      rw [expireLoop, Signaling.expireLoop]
      by_cases hi : i < channel.users.length
      · rw [if_pos hi, List.getElem?_eq_getElem hi]
        dsimp only [Option.bind_eq_bind, Option.bind_some]
        split_ifs with hexpired
        · have hlen : (Signaling.handleTimedOutUser channel i channel.users[i].name
              channel.users[i].addr).1.users.length ≤ i + todo := by
            rw [handleTimedOutUser_users, List.length_eraseIdx_of_lt hi]
            omega
          rw [handleTimedOutUser_eq_some channel hi, Option.bind_some, ih _ _ hlen]
          rfl
        · exact ih _ _ (by omega)
      · rw [if_neg hi, List.getElem?_eq_none (Nat.le_of_not_lt hi)]

theorem settleSolo_eq_some : settleSolo channel = some (Signaling.settleSolo channel) := by
  obtain ⟨channelId, nextPeerId, users, relay⟩ := channel
  unfold settleSolo Signaling.settleSolo
  rcases users with _ | ⟨solo, _ | ⟨v, users⟩⟩
  · rfl
  · cases hneeds : solo.needsServerRelay <;> simp [hneeds]
  · rfl

theorem processChannelHeartbeat_eq_some (serverId channelName : Token) :
    processChannelHeartbeat now serverId channelName channel =
      some (Signaling.processChannelHeartbeat now serverId channelName channel) := by
  unfold processChannelHeartbeat
  rw [expireLoop_eq_some now channel _ 0 (Nat.le_of_eq (Nat.zero_add _).symm)]
  dsimp only [Option.bind_eq_bind, Option.bind_some]
  rw [settleSolo_eq_some]
  rfl

theorem collectHeartbeatData_eq_lift :
    collectHeartbeatData now = liftM (Signaling.collectHeartbeatData now) := by
  unfold collectHeartbeatData Signaling.collectHeartbeatData
  rw [← Checked.locked_lift, liftM_bind]
  refine congrArg Checked.locked (bind_congr fun st => ?_)
  have hfst : ∀ sid cname ch, (processChannelHeartbeat now sid cname ch).map Prod.fst =
      some (Signaling.processChannelHeartbeat now sid cname ch).1 := fun sid cname ch => by
    rw [processChannelHeartbeat_eq_some]
    rfl
  have hsnd : ∀ x : Token × Token × Channel,
      (processChannelHeartbeat now x.1 x.2.1 x.2.2).map Prod.snd =
        pure (Signaling.processChannelHeartbeat now x.1 x.2.1 x.2.2).2 := fun x => by
    rw [processChannelHeartbeat_eq_some]
    rfl
  have hst := HashMap.tryMapValues_eq_some
    (fun sid => HashMap.tryMapValues_eq_some (hfst sid)) st
  dsimp only
  rw [hst, funext hsnd, List.mapM_pure]
  rfl

/-- **A pass keeps to the users there are.** -/
theorem heartbeatPass_eq_lift : heartbeatPass now = liftM (Signaling.heartbeatPass now) := by
  simp [heartbeatPass, Signaling.heartbeatPass, collectHeartbeatData_eq_lift]

end Pass

end NatPiercer.Signaling.Indexed
