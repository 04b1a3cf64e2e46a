/-
# `Signaling.ChannelStep` — what a handler does to one channel

A handler is a program over the whole map.  Executed with nothing else going
on it does something much simpler: it changes a channel, knowing nothing but
that channel, and writes datagrams that it computes from it.  This module
says what, as functions `Channel → Channel × List Datagram`, and proves it
of the programs: `Updates st st' s c ch` is "`st'` is `st` with `ch` for the
channel `s`/`c`", and each handler's lemma ends in an `Updates` and a list.
-/
import NatPiercer.Signaling.Handlers

namespace NatPiercer.Signaling

open Text Utf8 Net Proto LockProg

/-! ## One channel replaced -/

/-- `st'` is `st` with `ch` for the channel `s`/`c`. -/
def Updates (st st' : ServerMap) (s c : Token) (ch : Channel) : Prop :=
  ∀ s' c', st'.channel? s' c' = if s' = s ∧ c' = c then some ch else st.channel? s' c'

section Updates
variable {st st' st'' : ServerMap} {s c : Token} {ch ch' : Channel}

theorem Updates.channel? (h : Updates st st' s c ch) : st'.channel? s c = some ch := by
  rw [h s c, if_pos ⟨rfl, rfl⟩]

theorem Updates.refl (h : st.channel? s c = some ch) : Updates st st s c ch := fun s' c' => by
  split_ifs with hc
  · rw [hc.1, hc.2, h]
  · rfl

theorem Updates.trans (h : Updates st st' s c ch) (h' : Updates st' st'' s c ch') :
    Updates st st'' s c ch' := fun s' c' => by
  rw [h' s' c']
  split_ifs with hc
  · rfl
  · rw [h s' c', if_neg hc]

theorem updates_modifyChannel {f : Channel → Channel} (h : st.channel? s c = some ch) :
    Updates st (st.modifyChannel s c f) s c (f ch) := fun s' c' => by
  rw [ServerMap.channel?_modifyChannel, h, Option.map_some]

end Updates

/-! ## Datagrams in a loop -/

@[simp] theorem run_sendTo (payload : Bytes) (dst : SocketAddr) (st : ServerMap) :
    (sendTo payload dst).run st = ⟨(), st, [⟨dst, payload⟩]⟩ := rfl

@[simp] theorem run_notifyEach (peers : List User) (msg : User → Str) (dst : User → SocketAddr)
    (st : ServerMap) :
    (notifyEach peers msg dst).run st =
      ⟨(), st, peers.map fun peer => tell (dst peer) (msg peer)⟩ := by
  rw [List.map_eq_flatMap]
  exact run_each fun _ _ => rfl

/-- Everyone hears of everyone that the server relays for it. -/
def announced (users : List User) : List Datagram :=
  users.flatMap fun u => users.map fun usr => tell usr.addr (modeServerRelay u.name)

@[simp] theorem run_announceServerRelay (users : List User) (st : ServerMap) :
    (announceServerRelay users).run st = ⟨(), st, announced users⟩ :=
  run_each fun _ _ => run_notifyEach _ _ _ _

theorem run_recordRelay (s c : Token) (relay : Option Token) (st : ServerMap) :
    (recordRelay s c relay).run st =
      ⟨(), st.modifyChannel s c fun ch => { ch with relay := relay }, []⟩ := by
  simp [recordRelay]

/-! ## `CONNECT` -/

/-- Whether the recorded relay is another one than `relayUser`. -/
def Channel.changes (relayUser : User) (channel : Channel) : Prop :=
  channel.relay ≠ some relayUser.name

instance (u : User) (ch : Channel) : Decidable (ch.changes u) :=
  inferInstanceAs (Decidable (_ ≠ _))

/-- The datagrams of an election after a `CONNECT`, in order. -/
def Channel.electionTold (channel : Channel) (relayUser : User) : List Datagram :=
  (relayPeers relayUser channel.users).map (fun peer =>
    tell relayUser.addr (modeDirect peer.name peer.addr)) ++
  ((relayPeers relayUser channel.users).map (fun peer =>
    tell peer.addr (modeDirect relayUser.name relayUser.addr)) ++
  ((if channel.changes relayUser then [tell relayUser.addr modeRelay] else []) ++
  (symmetricPeers relayUser channel.users).flatMap fun symmetric =>
    tell symmetric.addr (modeServerRelay symmetric.name) ::
      if relayUser.addr ≠ symmetric.addr then
        [tell relayUser.addr (modeServerRelay symmetric.name)]
      else []))

/-- `handle_multiple_users_scenario`, on the channel it was told of. -/
def Channel.elect (channel : Channel) : Channel × List Datagram :=
  match pickEligibleRelay channel with
  | some relayUser =>
      ({ channel with relay := some relayUser.name }, channel.electionTold relayUser)
  | none => ({ channel with relay := none }, announced channel.users)

theorem run_markRelayInChannel {s c : Token} {st : ServerMap} {channel : Channel}
    (h : st.channel? s c = some channel) (relayUser : User) :
    ((markRelayInChannel s c relayUser).run st).val = decide (channel.changes relayUser) ∧
    ((markRelayInChannel s c relayUser).run st).sent = [] ∧
    Updates st ((markRelayInChannel s c relayUser).run st).state s c
      { channel with relay := some relayUser.name } := by
  unfold markRelayInChannel Channel.changes
  simp only [run_locked, run_bind, run_getState, h]
  split_ifs with hr
  · refine ⟨by simp [hr], rfl, ?_⟩
    have hch : { channel with relay := some relayUser.name } = channel := by rw [← hr]
    rw [hch]
    exact Updates.refl h
  · exact ⟨by simp [hr], rfl, updates_modifyChannel h⟩

theorem handleMultipleUsersScenario_spec {s c : Token} {st : ServerMap} {channel : Channel}
    (h : st.channel? s c = some channel) :
    Updates st ((handleMultipleUsersScenario s c channel).run st).state s c channel.elect.1 ∧
    ((handleMultipleUsersScenario s c channel).run st).sent = channel.elect.2 := by
  unfold handleMultipleUsersScenario Channel.elect
  cases hp : pickEligibleRelay channel with
  | none =>
      simp only [run_bind, run_announceServerRelay, run_recordRelay, List.append_nil]
      exact ⟨updates_modifyChannel h, trivial⟩
  | some relayUser =>
      obtain ⟨hval, hsent, hupd⟩ := run_markRelayInChannel h relayUser
      have hmode : ∀ st', (whenever (decide (channel.changes relayUser))
          (sendRelayModeToRelay relayUser)).run st' =
            ⟨(), st', if channel.changes relayUser then [tell relayUser.addr modeRelay] else []⟩ :=
        fun st' => by
          rw [run_whenever [tell relayUser.addr modeRelay] fun _ => rfl]
          simp only [decide_eq_true_eq]
      have hsym : ∀ st', (each (symmetricPeers relayUser channel.users) fun symmetric => do
          sendTo (asBytes (modeServerRelay symmetric.name)) symmetric.addr
          whenever (relayUser.addr ≠ symmetric.addr)
            (sendTo (asBytes (modeServerRelay symmetric.name)) relayUser.addr)).run st' =
          ⟨(), st', (symmetricPeers relayUser channel.users).flatMap fun symmetric =>
            tell symmetric.addr (modeServerRelay symmetric.name) ::
              if relayUser.addr ≠ symmetric.addr then
                [tell relayUser.addr (modeServerRelay symmetric.name)]
              else []⟩ := fun st' => run_each fun symmetric _ => by
          rw [run_bind, run_sendTo, run_whenever _ fun _ => run_sendTo _ _ _]
          rfl
      simp only [run_bind, hval, hsent, notifyRelayAboutPeers, notifyPeersAboutRelay,
        run_notifyEach, hmode, hsym, List.nil_append]
      exact ⟨hupd, rfl⟩

/-- A channel that a new session has just been put in. -/
def Channel.join (now : Instant) (userName : Token) (srcAddr : SocketAddr) (natKind : NatKind)
    (channel : Channel) : Channel :=
  let kept := removeOldUserSessions channel userName srcAddr
  { kept with
    nextPeerId := kept.nextPeerId + 1
    users := kept.users ++ [User.new userName srcAddr natKind kept.nextPeerId now] }

/-- `handle_lone_user_scenario`: the relay of a channel without one, when it has
a single user. -/
def Channel.settleLone (channel : Channel) : Channel × List Datagram :=
  match channel.relay, channel.users with
  | none, [u] =>
      match u.natKind with
      | .symmetric => ({ channel with relay := none }, [tell u.addr (modeServerRelay u.name)])
      | _ => ({ channel with relay := some u.name }, [tell u.addr modeRelay])
  | _, _ => (channel, [])

theorem run_handleLoneUserScenario (channel : Channel) (st : ServerMap) :
    (handleLoneUserScenario channel).run st =
      ⟨channel.settleLone.1, st, channel.settleLone.2⟩ := by
  obtain ⟨id, next, users, relay⟩ := channel
  rcases relay with _ | relay
  · rcases users with _ | ⟨⟨pid, name, addr, pong, needs, nat⟩, _ | ⟨v, users⟩⟩
    · rfl
    · cases nat <;> rfl
    · rfl
  · rfl

theorem run_addNewUser (now : Instant) (channel : Channel) (userName : Token)
    (srcAddr : SocketAddr) (natKind : NatKind) (st : ServerMap) :
    (addNewUser now channel userName srcAddr natKind).run st =
      ⟨((channel.join now userName srcAddr natKind).settleLone.1, channel.nextPeerId), st,
        (channel.join now userName srcAddr natKind).settleLone.2⟩ := by
  simp only [addNewUser, run_bind, run_handleLoneUserScenario, run_pure, List.append_nil]
  rfl

/-- The `WELCOME` packet. -/
def welcome (dst : SocketAddr) (channelId : UInt64) (peerId : UInt32) : Datagram :=
  let payload := asBytes (welcomeText channelId peerId)
  ⟨dst, encode (Header.welcome channelId peerId (.ofNat payload.length)) payload⟩

/-- What follows when the new session is in: the election, if there is somebody
to elect. -/
def Channel.afterJoin (channel : Channel) : Channel × List Datagram :=
  if 1 < channel.users.length then channel.elect else (channel, [])

/-- `handle_connect_message`, on the channel it names. -/
def Channel.connect (amb : Ambient) (userName : Token) (natKind : NatKind) (srcAddr : SocketAddr)
    (channel : Channel) : Channel × List Datagram :=
  let channel := channel.ensureId amb.channelId
  match updateExistingUser amb.now channel userName srcAddr with
  | some (updated, _, peerId) => (updated, [welcome srcAddr updated.channelId peerId])
  | none =>
      let settled := (channel.join amb.now userName srcAddr natKind).settleLone
      (settled.1.afterJoin.1,
        settled.2 ++
          welcome srcAddr settled.1.channelId channel.nextPeerId :: settled.1.afterJoin.2)

/-- The other channels of the server lose the session. -/
def Channel.evict (userName : Token) (srcAddr : SocketAddr) (channel : Channel) : Channel :=
  { channel with users := channel.users.filter fun u => !u.isSession userName srcAddr }

theorem ServerMap.channel?_ensureChannel (st : ServerMap) (s c s' c' : Token) :
    (st.ensureChannel s c).channel? s' c' =
      if s' = s ∧ c' = c then some ((st.channel? s c).getD .default) else st.channel? s' c' := by
  unfold channel? ensureChannel
  rw [HashMap.lookup_modify, HashMap.lookup_orInsert, HashMap.lookup_orInsert, if_pos rfl]
  by_cases hs : s' = s
  · subst hs
    simp only [if_true, Option.map_some, Option.bind_some, HashMap.lookup_orInsert, true_and]
    cases AList.lookup s' st with
    | none => simp
    | some channels => simp
  · rw [if_neg hs, if_neg hs, if_neg fun h => hs h.1]

theorem channel?_removeUserFromOtherChannels (st : ServerMap) (s c u : Token)
    (src : SocketAddr) (s' c' : Token) :
    (removeUserFromOtherChannels st s c u src).channel? s' c' =
      if s' = s ∧ c' ≠ c then (st.channel? s' c').map (Channel.evict u src)
      else st.channel? s' c' := by
  unfold removeUserFromOtherChannels ServerMap.channel?
  rw [HashMap.lookup_modify]
  by_cases hs : s' = s
  · subst hs
    rw [if_pos rfl]
    cases AList.lookup s' st with
    | none => simp
    | some channels =>
        rw [Option.map_some, Option.bind_some, Option.bind_some, HashMap.lookup_mapValues]
        by_cases hc : c' = c
        · subst hc
          rw [if_neg fun h => h.2 rfl]
          cases AList.lookup c' channels <;> simp
        · rw [if_pos ⟨rfl, hc⟩]
          cases AList.lookup c' channels <;> simp [hc, Channel.evict]
  · rw [if_neg hs, if_neg fun h => hs h.1]

/-- The map as the channel named in a `CONNECT` is looked up in it. -/
theorem channel?_opened (st : ServerMap) (s c u : Token) (src : SocketAddr) (s' c' : Token) :
    ((removeUserFromOtherChannels st s c u src).ensureChannel s c).channel? s' c' =
      if s' = s ∧ c' = c then some ((st.channel? s c).getD .default)
      else if s' = s then (st.channel? s' c').map (Channel.evict u src)
      else st.channel? s' c' := by
  have hkept : (removeUserFromOtherChannels st s c u src).channel? s c = st.channel? s c := by
    rw [channel?_removeUserFromOtherChannels, if_neg fun h => h.2 rfl]
  rw [ServerMap.channel?_ensureChannel, hkept, channel?_removeUserFromOtherChannels]
  by_cases hsc : s' = s ∧ c' = c
  · rw [if_pos hsc, if_pos hsc]
  · rw [if_neg hsc, if_neg hsc]
    by_cases hs : s' = s
    · rw [if_pos ⟨hs, fun hc => hsc ⟨hs, hc⟩⟩, if_pos hs]
    · rw [if_neg fun h => hs h.1, if_neg hs]

theorem updateExistingUser_isNew {now : Instant} {channel updated : Channel} {userName : Token}
    {srcAddr : SocketAddr} {isNew : Bool} {peerId : UInt32}
    (h : updateExistingUser now channel userName srcAddr = some (updated, isNew, peerId)) :
    isNew = false := by
  unfold updateExistingUser at h
  split at h
  · exact (congrArg (fun r => r.2.1) (Option.some.inj h)).symm
  · exact absurd h (by simp)

theorem settleLone_users (channel : Channel) :
    channel.settleLone.1.users = channel.users := by
  obtain ⟨id, next, users, relay⟩ := channel
  rcases relay with _ | relay
  · rcases users with _ | ⟨⟨pid, name, addr, pong, needs, nat⟩, _ | ⟨v, users⟩⟩
    · rfl
    · cases nat <;> rfl
    · rfl
  · rfl

/-- Of a channel whose last user has just joined.  When it is the only one, there
is nobody to tell. -/
theorem handleConnectNotifications_spec {s c : Token} (u : Token) (src : SocketAddr)
    {st : ServerMap} {channel : Channel} (h : st.channel? s c = some channel) {kept : List User}
    {new : User} (hu : channel.users = kept ++ [new]) (hnew : new.addr = src) :
    Updates st ((handleConnectNotifications s c u src channel).run st).state s c
      channel.afterJoin.1 ∧
    ((handleConnectNotifications s c u src channel).run st).sent = channel.afterJoin.2 := by
  unfold handleConnectNotifications Channel.afterJoin
  by_cases hlen : 1 < channel.users.length
  · rw [if_pos hlen, if_pos hlen]
    exact handleMultipleUsersScenario_spec h
  · rw [if_neg hlen, if_neg hlen]
    rw [hu, List.length_append, List.length_singleton] at hlen
    have hkept : kept = [] := List.length_eq_zero_iff.mp (by omega)
    rw [hkept, List.nil_append] at hu
    have hrun : (handleSingleUserScenario channel u src).run st = ⟨(), st, []⟩ := by
      simp [handleSingleUserScenario, notifyExistingUsersAboutNewUser, hu, each, whenever, hnew]
    rw [hrun]
    exact ⟨Updates.refl h, rfl⟩

/-- A `CONNECT` drops the session from the other channels of its server, and
does `Channel.connect` to the one it names. -/
theorem handleConnectMessage_spec (amb : Ambient) (s c u : Token) (natArg : Option Token)
    (src : SocketAddr) (st : ServerMap) :
    (∀ s' c', ((handleConnectMessage amb s c u natArg src).run st).state.channel? s' c' =
      if s' = s ∧ c' = c then
        some (((st.channel? s c).getD .default).connect amb u (NatKind.ofArg natArg) src).1
      else if s' = s then (st.channel? s' c').map (Channel.evict u src)
      else st.channel? s' c') ∧
    ((handleConnectMessage amb s c u natArg src).run st).sent =
      (((st.channel? s c).getD .default).connect amb u (NatKind.ofArg natArg) src).2 := by
  set channel := (st.channel? s c).getD .default with hchannel
  set st₂ := (removeUserFromOtherChannels st s c u src).ensureChannel s c with hst₂
  have hat : st₂.channel? s c = some channel := by
    rw [hst₂, channel?_opened, if_pos ⟨rfl, rfl⟩]
  -- it is enough to follow the channel that is named
  suffices hmain : Updates st₂ ((handleConnectMessage amb s c u natArg src).run st).state s c
      (channel.connect amb u (NatKind.ofArg natArg) src).1 ∧
      ((handleConnectMessage amb s c u natArg src).run st).sent =
        (channel.connect amb u (NatKind.ofArg natArg) src).2 by
    refine ⟨fun s' c' => ?_, hmain.2⟩
    rw [hmain.1 s' c']
    by_cases hsc : s' = s ∧ c' = c
    · rw [if_pos hsc, if_pos hsc]
    · rw [if_neg hsc, if_neg hsc, hst₂, channel?_opened, if_neg hsc]
  have hrun : ∀ channel' : Channel, Updates st₂ (st₂.modifyChannel s c fun _ => channel') s c
      channel' := fun channel' => updates_modifyChannel hat
  unfold handleConnectMessage Channel.connect
  simp only [run_bind, run_locked, run_getState, ← hst₂, hat, Option.getD_some]
  cases hup : updateExistingUser amb.now (channel.ensureId amb.channelId) u src with
  | some found =>
      obtain ⟨updated, isNew, peerId⟩ := found
      have hnew := updateExistingUser_isNew hup
      subst hnew
      simp only [run_bind, run_setState, run_pure, sendWelcome, run_sendTo, whenever,
        Bool.false_eq_true, if_false, List.append_nil, List.nil_append]
      exact ⟨hrun updated, rfl⟩
  | none =>
      set joined := ((channel.ensureId amb.channelId).join amb.now u src (NatKind.ofArg natArg))
        with hjoined
      have husers : joined.settleLone.1.users =
          (removeOldUserSessions (channel.ensureId amb.channelId) u src).users ++
            [User.new u src (NatKind.ofArg natArg)
              (removeOldUserSessions (channel.ensureId amb.channelId) u src).nextPeerId
              amb.now] := by
        rw [settleLone_users]
        rfl
      have hupd := hrun joined.settleLone.1
      obtain ⟨hstate, hsent⟩ := handleConnectNotifications_spec u src
        hupd.channel? husers rfl
      simp only [run_bind, run_addNewUser, run_setState, run_pure, sendWelcome, run_sendTo,
        whenever, if_true, List.append_nil, List.nil_append, ← hjoined, hsent]
      exact ⟨hupd.trans hstate, by simp [welcome]⟩

/-! ## `DISCONNECT` -/

/-- `handle_relay_transition`, on the channel it finds. -/
def Channel.transition (channel : Channel) : Channel × List Datagram :=
  match pickEligibleRelay channel with
  | some newRelay =>
      let peers := channel.users.filter fun u => u.name ≠ newRelay.name
      ({ channel with relay := some newRelay.name },
        tell newRelay.addr modeRelay ::
          (peers.map (fun peer => tell peer.addr (modeDirect newRelay.name newRelay.addr)) ++
          peers.map fun peer => tell newRelay.addr (modeDirect peer.name peer.addr)))
  | none => ({ channel with relay := none }, announced channel.users)

/-- Who hears that a user is gone. -/
def departed (users : List User) (userName addr : Token) : List Datagram :=
  users.map fun u => tell u.addr (userLeft userName addr)

/-- What the departure of a user does to the relay of the others. -/
def Channel.repair (wasRelay : Bool) (channel : Channel) : Channel × List Datagram :=
  match updateRelayAfterDeparture channel wasRelay with
  | (repaired, some loneUserAddr) => (repaired, [tell loneUserAddr modeRelay])
  | (repaired, none) => if wasRelay then repaired.transition else (repaired, [])

/-- `handle_disconnect_message`, on the channel it names. -/
def Channel.disconnect (userName : Token) (srcAddr : SocketAddr) (channel : Channel) :
    Channel × List Datagram :=
  match findAndRemoveUser channel userName srcAddr with
  | some (left, wasRelay, leavingUserAddr) =>
      ((left.repair wasRelay).1,
        (left.repair wasRelay).2 ++ departed left.users userName leavingUserAddr.token)
  | none => (channel, departed channel.users userName unknownAddr)

theorem handleRelayTransition_spec {s c : Token} {st : ServerMap} {channel : Channel}
    (h : st.channel? s c = some channel) (wasRelay : Bool) :
    Updates st ((handleRelayTransition wasRelay s c).run st).state s c
      (if wasRelay then channel.transition else (channel, [])).1 ∧
    ((handleRelayTransition wasRelay s c).run st).sent =
      (if wasRelay then channel.transition else (channel, [])).2 := by
  unfold handleRelayTransition
  cases wasRelay with
  | false => exact ⟨Updates.refl h, rfl⟩
  | true =>
      simp only [whenever, if_true, run_bind, run_locked, run_getState, run_pure, h,
        List.append_nil, Channel.transition]
      cases hp : pickEligibleRelay channel with
      | none =>
          simp only [run_bind, run_announceServerRelay, run_recordRelay, List.append_nil,
            List.nil_append]
          exact ⟨updates_modifyChannel h, trivial⟩
      | some newRelay =>
          simp only [run_bind, promoteNewRelay, run_sendTo, notifyPeersAboutNewRelay,
            notifyNewRelayAboutPeers, run_notifyEach, run_recordRelay, List.append_nil,
            List.nil_append, List.singleton_append]
          exact ⟨updates_modifyChannel h, rfl⟩

theorem updateRelayAfterDeparture_users (channel : Channel) (wasRelay : Bool) :
    (updateRelayAfterDeparture channel wasRelay).1.users = channel.users := by
  unfold updateRelayAfterDeparture
  cases wasRelay with
  | false => rfl
  | true =>
      obtain ⟨id, next, users, relay⟩ := channel
      rcases users with _ | ⟨u, _ | ⟨v, users⟩⟩ <;> rfl

/-- A `DISCONNECT` does `Channel.disconnect` to the channel it names, when there
is one. -/
theorem handleDisconnectMessage_spec (s c u : Token) (src : SocketAddr) (st : ServerMap) :
    (∀ s' c', ((handleDisconnectMessage s c u src).run st).state.channel? s' c' =
      if s' = s ∧ c' = c then (st.channel? s c).map fun ch => (ch.disconnect u src).1
      else st.channel? s' c') ∧
    ((handleDisconnectMessage s c u src).run st).sent =
      ((st.channel? s c).map fun ch => (ch.disconnect u src).2).getD [] := by
  unfold handleDisconnectMessage handleUserRemoval getRemainingUsers
  cases h : st.channel? s c with
  | none =>
      simp only [run_bind, run_locked, run_getState, run_pure, h, Option.bind_none,
        Option.map_none, Option.getD_none, handleDisconnectNotifications, handleRelayTransition,
        whenever, Bool.false_eq_true, if_false, notifyAllAboutDeparture, run_notifyEach,
        List.map_nil, List.append_nil, and_true]
      intro s' c'
      split_ifs with hc
      · rw [hc.1, hc.2, h]
      · rfl
  | some channel =>
      suffices hmain : Updates st _ s c (channel.disconnect u src).1 ∧
          _ = (channel.disconnect u src).2 by
        refine ⟨fun s' c' => ?_, hmain.2⟩
        rw [hmain.1 s' c']
        rfl
      unfold Channel.disconnect
      simp only [run_bind, run_locked, run_getState, h, Option.bind_some]
      cases hf : findAndRemoveUser channel u src with
      | none =>
          simp only [run_bind, run_locked, run_getState, run_pure, h, Option.map_some,
            Option.getD_some, handleDisconnectNotifications, handleRelayTransition, whenever,
            Bool.false_eq_true, if_false, notifyAllAboutDeparture, run_notifyEach,
            List.append_nil, List.nil_append]
          exact ⟨Updates.refl h, rfl⟩
      | some found =>
          obtain ⟨left, wasRelay, leavingUserAddr⟩ := found
          unfold Channel.repair
          have husers := updateRelayAfterDeparture_users left wasRelay
          dsimp only
          generalize updateRelayAfterDeparture left wasRelay = r at husers ⊢
          obtain ⟨repaired, loneUserAddr⟩ := r
          rw [← husers]
          have hupd := updates_modifyChannel (f := fun _ => repaired) h
          simp only [run_bind, run_locked, run_getState, run_setState, run_pure, hupd.channel?,
            Option.map_some, Option.getD_some, List.append_nil, List.nil_append,
            handleDisconnectNotifications, notifyAllAboutDeparture]
          cases loneUserAddr with
          | some loneUserAddr =>
              simp only [run_bind, notifyLoneUser, run_sendTo, run_notifyEach]
              exact ⟨hupd, rfl⟩
          | none =>
              obtain ⟨hstate, hsent⟩ := handleRelayTransition_spec hupd.channel? wasRelay
              simp only [run_bind, run_notifyEach, hsent]
              exact ⟨hupd.trans hstate, rfl⟩

/-! ## The messages about another member -/

/-- `handle_peer_timeout`, on the channel it names. -/
def Channel.peerTimeout (peerUser : Token) (channel : Channel) : Channel × List Datagram :=
  (channel.removePeer peerUser,
    departed (channel.removePeer peerUser).users peerUser unknownAddr)

theorem handlePeerTimeout_spec (s c u : Token) (st : ServerMap) :
    (∀ s' c', ((handlePeerTimeout s c u).run st).state.channel? s' c' =
      if s' = s ∧ c' = c then (st.channel? s c).map fun ch => (ch.peerTimeout u).1
      else st.channel? s' c') ∧
    ((handlePeerTimeout s c u).run st).sent =
      ((st.channel? s c).map fun ch => (ch.peerTimeout u).2).getD [] := by
  have hstate := st.channel?_modifyChannel s c
  simp only [handlePeerTimeout, run_bind, run_locked, run_getState, run_setState, run_pure,
    hstate, and_self, if_true]
  cases h : st.channel? s c with
  | none =>
      simp only [Option.map_none, run_pure, hstate, h, List.append_nil, Option.getD_none]
      exact ⟨fun _ _ => trivial, trivial⟩
  | some channel =>
      simp only [Option.map_some, run_notifyEach, hstate, h, List.nil_append, Option.getD_some]
      exact ⟨fun _ _ => rfl, rfl⟩

/-- Whom a `REQUEST_RELAY` is passed on to. -/
def Channel.relayRequested (username : Token) (channel : Channel) : List Datagram :=
  (channel.requestRelay username).users.map fun u => tell u.addr (modeServerRelay username)

theorem handleRelayRequest_spec (s c u : Token) (st : ServerMap) :
    (∀ s' c', ((handleRelayRequest s c u).run st).state.channel? s' c' =
      if s' = s ∧ c' = c then (st.channel? s c).map (Channel.requestRelay u)
      else st.channel? s' c') ∧
    ((handleRelayRequest s c u).run st).sent =
      ((st.channel? s c).map (Channel.relayRequested u)).getD [] := by
  simp only [handleRelayRequest, run_bind, run_locked, run_getState]
  cases h : st.channel? s c with
  | none =>
      simp only [run_pure, List.append_nil, Option.map_none, Option.getD_none, and_true]
      intro s' c'
      split_ifs with hc
      · rw [hc.1, hc.2, h]
      · rfl
  | some channel =>
      simp only [run_bind, run_setState, run_notifyEach, List.nil_append, Option.map_some,
        Option.getD_some]
      exact ⟨updates_modifyChannel h, rfl⟩

/-- A line of `DATA` changes no channel. -/
theorem handleDataFromClient_state (raw : Str) (src : SocketAddr) (st : ServerMap) :
    ((handleDataFromClient raw src).run st).state = st := by
  unfold handleDataFromClient
  split
  · simp only [run_locked, run_bind, run_getState]
    split
    · rw [run_each fun _ _ => run_sendTo _ _ _]
    · rfl
  · rfl

/-! ## A heartbeat pass -/

/-- What a pass makes of a channel, before it is removed for being empty. -/
def Channel.expireAndSettle (now : Instant) (channel : Channel) :
    Channel × List SocketAddr × List Notification :=
  let expired := expireLoop now channel.users.length 0 channel
  let settled := settleSolo expired.1
  (settled.1, settled.2.1, expired.2 ++ settled.2.2)

/-- What is left of a channel after a pass. -/
def Channel.heartbeat (now : Instant) (channel : Channel) : Option Channel :=
  if (channel.expireAndSettle now).1.users.isEmpty then none
  else some (channel.expireAndSettle now).1

/-- A notification as the datagrams it is sent in. -/
def Notification.datagrams (n : Notification) : List Datagram := n.1.map fun addr => ⟨addr, n.2⟩

theorem ServerMap.channel?_removeChannel (st : ServerMap) (s c s' c' : Token) :
    (st.removeChannel s c).channel? s' c' =
      if s' = s ∧ c' = c then none else st.channel? s' c' := by
  unfold removeChannel channel?
  cases h : AList.lookup s st with
  | none =>
      split_ifs with hc
      · rw [hc.1, h, Option.bind_none]
      · rfl
  | some chans =>
      have herase : ∀ c', AList.lookup c' (chans.erase c) =
          if c' = c then none else AList.lookup c' chans := HashMap.lookup_erase chans c
      dsimp only
      by_cases hs : s' = s
      · subst hs
        simp only [h, Option.bind_some, true_and, ← herase c']
        by_cases hempty : (chans.erase c).entries.isEmpty
        · have hnil : (chans.erase c).entries = [] := List.isEmpty_iff.mp hempty
          rw [if_pos hempty, HashMap.lookup_erase, if_pos rfl, Option.bind_none, AList.lookup, hnil,
            List.dlookup_nil]
        · rw [if_neg hempty, HashMap.lookup_modify_self, h, Option.map_some, Option.bind_some]
      · have hother : ¬ (s' = s ∧ c' = c) := fun h => hs h.1
        by_cases hempty : (chans.erase c).entries.isEmpty
        · rw [if_pos hempty, if_neg hother, HashMap.lookup_erase, if_neg hs]
        · rw [if_neg hempty, if_neg hother, HashMap.lookup_modify, if_neg hs]

theorem channel?_foldl_removeChannel (toCleanup : List (Token × Token)) (st : ServerMap)
    (s c : Token) :
    (toCleanup.foldl (fun st (sid, cname) => st.removeChannel sid cname) st).channel? s c =
      if (s, c) ∈ toCleanup then none else st.channel? s c := by
  induction toCleanup generalizing st with
  | nil => simp
  | cons x toCleanup ih =>
      obtain ⟨sid, cname⟩ := x
      rw [List.foldl_cons, ih, ServerMap.channel?_removeChannel]
      simp only [List.mem_cons, Prod.mk.injEq]
      split_ifs with h₁ h₂ h₃ h₃ <;> first | rfl | tauto

/-- The second guard of a pass. -/
theorem run_cleanupEmptyChannels (toCleanup : List (Token × Token)) (st : ServerMap) :
    (cleanupEmptyChannels toCleanup).run st =
      ⟨(), toCleanup.foldl (fun st (sid, cname) => st.removeChannel sid cname) st, []⟩ := by
  unfold cleanupEmptyChannels whenever
  split_ifs with h
  · simp
  · rw [not_not.mp h]
    rfl

/-- The first guard of a pass. -/
theorem collectHeartbeatData_spec (now : Instant) (st : ServerMap) :
    (∀ s c, ((collectHeartbeatData now).run st).state.channel? s c =
      (st.channel? s c).map fun ch => (ch.expireAndSettle now).1) ∧
    ((collectHeartbeatData now).run st).val =
      { pings := st.channels.flatMap fun x => (x.2.2.expireAndSettle now).2.1
        cleanup := (st.channels.filter fun x =>
          (x.2.2.expireAndSettle now).1.users.isEmpty).map fun x => (x.1, x.2.1)
        notifications := st.channels.flatMap fun x => (x.2.2.expireAndSettle now).2.2 } ∧
    ((collectHeartbeatData now).run st).sent = [] := by
  refine ⟨fun s c => ?_, ?_, rfl⟩
  · exact st.channel?_mapValues (fun sid cname channel =>
      (processChannelHeartbeat now sid cname channel).1) s c
  · simp only [collectHeartbeatData, run_locked, run_bind, run_getState, run_setState, run_pure,
      HeartbeatData.concat, List.flatMap_map]
    congr 1
    generalize st.channels = xs
    induction xs with
    | nil => rfl
    | cons x xs ih =>
        rw [List.flatMap_cons, ih, List.filter_cons]
        obtain ⟨s, c, ch⟩ := x
        change (if (ch.expireAndSettle now).1.users.isEmpty then [(s, c)] else []) ++ _ = _
        split_ifs <;> rfl

@[simp] theorem run_sendPings (toPing : List SocketAddr) (st : ServerMap) :
    (sendPings toPing).run st = ⟨(), st, toPing.map fun addr => tell addr msgPing.text⟩ := by
  rw [List.map_eq_flatMap]
  exact run_each fun _ _ => rfl

@[simp] theorem run_sendNotifications (msgs : List Notification) (st : ServerMap) :
    (sendNotifications msgs).run st = ⟨(), st, msgs.flatMap Notification.datagrams⟩ :=
  run_each fun n _ => by
    rw [Notification.datagrams, List.map_eq_flatMap]
    exact run_each fun _ _ => rfl

/-- A pass does `Channel.heartbeat` to every channel. -/
theorem heartbeatPass_spec (now : Instant) (st : ServerMap) :
    (∀ s c, ((heartbeatPass now).run st).state.channel? s c =
      (st.channel? s c).bind (Channel.heartbeat now)) ∧
    ((heartbeatPass now).run st).sent =
      (st.channels.flatMap fun x => (x.2.2.expireAndSettle now).2.1.map fun addr =>
        tell addr msgPing.text) ++
      st.channels.flatMap fun x => (x.2.2.expireAndSettle now).2.2.flatMap
        Notification.datagrams := by
  obtain ⟨hstate, hval, hsent⟩ := collectHeartbeatData_spec now st
  constructor
  · intro s c
    simp only [heartbeatPass, run_bind, run_sendPings, run_sendNotifications,
      run_cleanupEmptyChannels, channel?_foldl_removeChannel, hstate, hval]
    have hmem : (s, c) ∈ ((st.channels.filter fun x =>
        (x.2.2.expireAndSettle now).1.users.isEmpty).map fun x => (x.1, x.2.1)) ↔
        ∃ ch, st.channel? s c = some ch ∧ (ch.expireAndSettle now).1.users.isEmpty := by
      simp only [List.mem_map, List.mem_filter, Prod.mk.injEq]
      constructor
      · rintro ⟨⟨_, _, ch⟩, ⟨hx, hempty⟩, rfl, rfl⟩
        exact ⟨ch, ServerMap.mem_channels_iff.mp hx, hempty⟩
      · rintro ⟨ch, hx, hempty⟩
        exact ⟨(s, c, ch), ⟨ServerMap.mem_channels_iff.mpr hx, hempty⟩, rfl, rfl⟩
    simp only [hmem]
    cases st.channel? s c with
    | none => simp
    | some ch => simp [Channel.heartbeat]
  · simp only [heartbeatPass, run_bind, run_sendPings, run_sendNotifications,
      run_cleanupEmptyChannels, hsent, hval, List.nil_append, List.append_nil,
      List.map_flatMap, List.flatMap_assoc]

end NatPiercer.Signaling
