/-
# `Signaling.Locking` — who waits for the mutex, and for whom

Every handler that takes the shared state locks it for a block and has given
it back by the time it calls the next function that locks; the functions
called inside a block are given the map or a channel of it.  The exception
is `handleUserRemoval`: it asks `getRemainingUsers`, which locks, while its
own guard is alive.  So of all messages exactly a `DISCONNECT` waits for
itself, and after it every other task waits too.
-/
import NatPiercer.Signaling.Step

namespace NatPiercer.Signaling

open Text Utf8 Net Proto LockProg

/-! ## Sending leaves the mutex alone -/

section Sends
variable {held : Bool} {st : ServerMap}

@[simp] theorem keeps_sendTo (payload : Bytes) (dst : SocketAddr) :
    Keeps held (sendTo payload dst) st := rfl

@[simp] theorem keeps_notifyEach (peers : List User) (msg : User → Str)
    (dst : User → SocketAddr) : Keeps held (notifyEach peers msg dst) st :=
  keeps_each fun _ _ _ => keeps_sendTo _ _

theorem keeps_announceServerRelay (users : List User) :
    Keeps held (announceServerRelay users) st :=
  keeps_each fun _ _ _ => keeps_notifyEach _ _ _

theorem keeps_notifyExistingUsersAboutNewUser (users : List User) (name : Token)
    (addr : SocketAddr) : Keeps held (notifyExistingUsersAboutNewUser users name addr) st :=
  keeps_each fun _ _ _ => keeps_whenever ((keeps_sendTo _ _).bind (keeps_sendTo _ _))

theorem keeps_handleLoneUserScenario (channel : Channel) :
    Keeps held (handleLoneUserScenario channel) st := by
  unfold handleLoneUserScenario
  split
  · split <;> exact (keeps_sendTo _ _).bind (keeps_pure _)
  · exact keeps_pure _

theorem keeps_addNewUser (now : Instant) (channel : Channel) (name : Token)
    (addr : SocketAddr) (nat : NatKind) :
    Keeps held (addNewUser now channel name addr nat) st :=
  (keeps_handleLoneUserScenario _).bind (keeps_pure _)

theorem keeps_sendPings (toPing : List SocketAddr) : Keeps held (sendPings toPing) st :=
  keeps_each fun _ _ _ => keeps_sendTo _ _

theorem keeps_sendNotifications (msgs : List Notification) :
    Keeps held (sendNotifications msgs) st :=
  keeps_each fun _ _ _ => keeps_each fun _ _ _ => keeps_sendTo _ _

end Sends

/-! ## The handlers that give the mutex back -/

section Handlers
variable {st : ServerMap}

theorem keeps_recordRelay (s c : Token) (relay : Option Token) :
    Keeps false (recordRelay s c relay) st :=
  keeps_locked (keeps_getState.bind (keeps_setState _))

theorem keeps_markRelayInChannel (s c : Token) (u : User) :
    Keeps false (markRelayInChannel s c u) st := by
  refine keeps_locked (keeps_getState.bind ?_)
  split
  · split_ifs
    · exact keeps_pure _
    · exact (keeps_setState _).bind (keeps_pure _)
  · exact keeps_pure _

theorem keeps_handleMultipleUsersScenario (s c : Token) (channel : Channel) :
    Keeps false (handleMultipleUsersScenario s c channel) st := by
  unfold handleMultipleUsersScenario
  split
  · exact (keeps_markRelayInChannel _ _ _).bind ((keeps_notifyEach _ _ _).bind
      ((keeps_notifyEach _ _ _).bind ((keeps_whenever (keeps_sendTo _ _)).bind
        (keeps_each fun _ _ _ => (keeps_sendTo _ _).bind (keeps_whenever (keeps_sendTo _ _))))))
  · exact (keeps_announceServerRelay _).bind (keeps_recordRelay _ _ _)

theorem keeps_handleConnectMessage (amb : Ambient) (s c u : Token) (nat : Option Token)
    (src : SocketAddr) : Keeps false (handleConnectMessage amb s c u nat src) st := by
  refine Keeps.bind (keeps_locked (keeps_getState.bind ?_)) ((keeps_sendTo _ _).bind ?_)
  · dsimp only
    split
    · exact (keeps_setState _).bind (keeps_pure _)
    · exact (keeps_addNewUser _ _ _ _ _).bind ((keeps_setState _).bind (keeps_pure _))
  · refine keeps_whenever ?_
    unfold handleConnectNotifications
    split_ifs
    · exact keeps_handleMultipleUsersScenario _ _ _
    · exact keeps_notifyExistingUsersAboutNewUser _ _ _

theorem keeps_handlePeerTimeout (s c u : Token) : Keeps false (handlePeerTimeout s c u) st := by
  refine Keeps.bind (keeps_locked (keeps_getState.bind
    ((keeps_setState _).bind (keeps_getState.bind (keeps_pure _))))) ?_
  split
  · exact keeps_notifyEach _ _ _
  · exact keeps_pure _

theorem keeps_handleRelayRequest (s c u : Token) : Keeps false (handleRelayRequest s c u) st := by
  refine keeps_locked (keeps_getState.bind ?_)
  split
  · exact (keeps_setState _).bind (keeps_notifyEach _ _ _)
  · exact keeps_pure _

theorem keeps_handleDataFromClient (raw : Str) (src : SocketAddr) :
    Keeps false (handleDataFromClient raw src) st := by
  unfold handleDataFromClient
  split
  · refine keeps_locked (keeps_getState.bind ?_)
    split
    · exact keeps_each fun _ _ _ => keeps_sendTo _ _
    · exact keeps_pure _
  · exact keeps_pure _

theorem keeps_heartbeatPass (now : Instant) : Keeps false (heartbeatPass now) st :=
  Keeps.bind (keeps_locked (keeps_getState.bind ((keeps_setState _).bind (keeps_pure _))))
    ((keeps_sendPings _).bind ((keeps_sendNotifications _).bind
      (keeps_whenever (keeps_locked (keeps_getState.bind (keeps_setState _))))))

end Handlers

/-! ## The one that does not -/

/-- `get_remaining_users` waits for the guard that its caller holds. -/
theorem blocks_handleUserRemoval (s c u : Token) (src : SocketAddr) (st : ServerMap) :
    Blocks false (handleUserRemoval s c u src) st := by
  refine blocks_locked (keeps_getState.bind_blocks ?_)
  split
  · exact (keeps_setState _).bind_blocks ((blocks_locked_of_held _).bind _)
  · exact (blocks_locked_of_held _).bind _

theorem blocks_handleDisconnectMessage (s c u : Token) (src : SocketAddr) (st : ServerMap) :
    Blocks false (handleDisconnectMessage s c u src) st :=
  (blocks_handleUserRemoval s c u src st).bind _

/-- Whether a text is a `DISCONNECT` that names a server, a channel and a
user. -/
def Request.isDisconnect : Request → Bool
  | disconnect _ _ _ => true
  | _ => false

def ServerStep.isDisconnect : ServerStep → Bool
  | message _ text _ => (Request.ofText text).isDisconnect
  | heartbeat _ | relayout _ _ => false

theorem keeps_handleMessage_iff (amb : Ambient) (msg : Str) (src : SocketAddr) (st : ServerMap) :
    Keeps false (handleMessage amb msg src) st ↔ (Request.ofText msg).isDisconnect = false := by
  rw [handleMessage_eq]
  cases Request.ofText msg with
  | natProbe => exact ⟨fun _ => rfl, fun _ => keeps_sendTo _ _⟩
  | pong =>
      exact ⟨fun _ => rfl, fun _ => keeps_locked (keeps_getState.bind (keeps_setState _))⟩
  | hb s c u =>
      exact ⟨fun _ => rfl, fun _ => keeps_locked (keeps_getState.bind (keeps_setState _))⟩
  | connect s c u natArg => exact ⟨fun _ => rfl, fun _ => keeps_handleConnectMessage _ _ _ _ _ _⟩
  | disconnect s c u =>
      exact ⟨fun h => absurd h (blocks_handleDisconnectMessage s c u src st).not_keeps, nofun⟩
  | peerTimeout s c u => exact ⟨fun _ => rfl, fun _ => keeps_handlePeerTimeout _ _ _⟩
  | requestRelay s c u => exact ⟨fun _ => rfl, fun _ => keeps_handleRelayRequest _ _ _⟩
  | data => exact ⟨fun _ => rfl, fun _ => keeps_handleDataFromClient _ _⟩
  | unknown => exact ⟨fun _ => rfl, fun _ => keeps_pure _⟩

/-- **Which steps block on the server's own lock**: those that handle a
`DISCONNECT`, and no other. -/
theorem keeps_program_iff (l : ServerStep) (st : ServerMap) :
    Keeps false l.program st ↔ l.isDisconnect = false := by
  cases l with
  | message amb text src => exact keeps_handleMessage_iff amb text src st
  | heartbeat now => exact ⟨fun _ => rfl, fun _ => keeps_heartbeatPass now⟩
  | relayout s c => exact ⟨fun _ => rfl, fun _ => keeps_getState.bind (keeps_setState _)⟩

/-- The first `DISCONNECT` that a fresh server receives freezes it. -/
theorem not_keeps_disconnect :
    ¬ ∀ (amb : Ambient) (msg : Str) (src : SocketAddr) (st : ServerMap),
      Keeps false (handleMessage amb msg src) st := fun h =>
  absurd (h ⟨0, 1⟩ "DISCONNECT s c ann".toList (.v4 ⟨10, 0, 0, 1⟩ 4000) ∅) (by decide)

end NatPiercer.Signaling
