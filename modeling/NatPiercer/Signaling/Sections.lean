/-
# `Signaling.Sections` — one critical section at a time

The tasks of the server share the map, and between two critical sections of
one task any of the others may run.  There are two kinds of section.  One
admits nobody: each channel that is there after it was there before, and one
of few things has been done to it (`Revised`).  The other is the one that a
`CONNECT` begins with, which drops the session from the other channels of the
server and looks it up, or appends it, in the channel it names.

Every turn of every program of the server is such a section, whatever the
others have made of the map in between (`guarantees_section`).  What it does
to the numbers, the names and the addresses of the users, `SectionEffect`
says of either kind.
-/
import NatPiercer.Lib.Interleave
import NatPiercer.Signaling.ChannelCases

namespace NatPiercer.Signaling

open Text Utf8 Net Proto LockProg

/-! ## Rosters -/

/-- What a user keeps for as long as it is in a channel. -/
def User.badge (u : User) : UInt32 × Token × SocketAddr := (u.peerId, u.name, u.addr)

def Channel.roster (channel : Channel) : List (UInt32 × Token × SocketAddr) :=
  channel.users.map User.badge

/-- Users may be gone; nobody is new, and no number has been given out. -/
def Kept (channel channel' : Channel) : Prop :=
  channel'.roster.Sublist channel.roster ∧ channel'.nextPeerId = channel.nextPeerId

/-- The session is looked up, or it takes the place of those of its name. -/
inductive Admitted (n : Token) (src : SocketAddr) (ch ch' : Channel) : Prop
  | known (hsession : ∃ x ∈ ch.users, x.isSession n src = true)
      (hroster : ch'.roster = ch.roster) (hnext : ch'.nextPeerId = ch.nextPeerId)
  | new (habsent : ∀ x ∈ ch.users, x.isSession n src = false)
      (hroster : ch'.roster = (ch.others n).map User.badge ++ [(ch.nextPeerId, n, src)])
      (hnext : ch'.nextPeerId = ch.nextPeerId + 1)

/-- `st'` is `st` after one critical section. -/
inductive SectionEffect (st st' : ServerMap) : Prop
  | kept (h : ∀ s c ch', st'.channel? s c = some ch' →
      ∃ ch, st.channel? s c = some ch ∧ Kept ch ch')
  | admitted (s c n : Token) (src : SocketAddr) {ch' : Channel}
      (hnamed : st'.channel? s c = some ch')
      (hadmitted : Admitted n src ((st.channel? s c).getD .default) ch')
      (hrest : ∀ s' c', ¬ (s' = s ∧ c' = c) → st'.channel? s' c' =
        if s' = s then (st.channel? s' c').map (Channel.evict n src) else st.channel? s' c')

section Kept
variable {ch ch' ch'' : Channel} {st : ServerMap}

theorem Kept.refl (ch : Channel) : Kept ch ch := ⟨List.Sublist.refl _, rfl⟩

theorem Kept.trans (h : Kept ch ch') (h' : Kept ch' ch'') : Kept ch ch'' :=
  ⟨h'.1.trans h.1, h'.2.trans h.2⟩

theorem kept_of_sublist (husers : ch'.users.Sublist ch.users)
    (hnext : ch'.nextPeerId = ch.nextPeerId) : Kept ch ch' :=
  ⟨husers.map User.badge, hnext⟩

theorem kept_of_roster (hroster : ch'.roster = ch.roster) (hnext : ch'.nextPeerId = ch.nextPeerId) :
    Kept ch ch' :=
  ⟨hroster ▸ List.Sublist.refl _, hnext⟩

theorem kept_refresh (now : Instant) (n : Token) (src : SocketAddr) (ch : Channel) :
    Kept ch (ch.refresh now n src) :=
  kept_of_roster (Vec.map_modifyFirst (f := fun u : User => { u with lastPong := now })
    (fun _ => rfl) ch.users) rfl

theorem kept_pong (now : Instant) (src : SocketAddr) (ch : Channel) :
    Kept ch (ch.pong now src) :=
  kept_of_roster (Vec.map_modifyFirst (f := fun u : User => { u with lastPong := now })
    (fun _ => rfl) ch.users) rfl

theorem kept_requestRelay (n : Token) (ch : Channel) : Kept ch (ch.requestRelay n) :=
  kept_of_roster (Vec.map_modifyFirst (f := fun u : User => { u with needsServerRelay := true })
    (fun _ => rfl) ch.users) rfl

theorem kept_evict (n : Token) (src : SocketAddr) (ch : Channel) : Kept ch (ch.evict n src) :=
  kept_of_sublist List.filter_sublist rfl

theorem kept_removePeer (n : Token) (ch : Channel) : Kept ch (ch.removePeer n) := by
  refine kept_of_sublist ?_ ?_
  · rw [removePeer_users]
    exact List.filter_sublist
  · unfold Channel.removePeer
    dsimp only
    split <;> rfl

theorem kept_updateRelayAfterDeparture (ch : Channel) (wasRelay : Bool) :
    Kept ch (updateRelayAfterDeparture ch wasRelay).1 := by
  refine kept_of_sublist ?_ ?_
  · rw [updateRelayAfterDeparture_users]
  · unfold updateRelayAfterDeparture
    split_ifs
    · split <;> rfl
    · rfl

/-- What is left of a channel when a session has been found in it. -/
theorem findAndRemoveUser_left {n : Token} {src addr : SocketAddr} {wasRelay : Bool}
    (h : findAndRemoveUser ch n src = some (ch', wasRelay, addr)) :
    ch' = { ch with users := ch.users.eraseP (User.isSession n src) } := by
  unfold findAndRemoveUser at h
  split at h
  · exact (congrArg Prod.fst (Option.some.inj h)).symm
  · exact absurd h (Option.some_ne_none _).symm

theorem kept_findAndRemoveUser {n : Token} {src addr : SocketAddr} {wasRelay : Bool}
    (h : findAndRemoveUser ch n src = some (ch', wasRelay, addr)) : Kept ch ch' := by
  obtain rfl := findAndRemoveUser_left h
  exact kept_of_sublist List.eraseP_sublist rfl

theorem handleRelayTimeout_nextPeerId (ch : Channel) :
    (handleRelayTimeout ch).1.nextPeerId = ch.nextPeerId := by
  unfold handleRelayTimeout
  cases Heartbeat.pickEligibleRelay ch <;> rfl

theorem kept_handleTimedOutUser (ch : Channel) (i : Nat) (n : Token) (addr : SocketAddr) :
    Kept ch (handleTimedOutUser ch i n addr).1 := by
  refine kept_of_sublist ?_ ?_
  · rw [handleTimedOutUser_users]
    exact List.eraseIdx_sublist _ _
  · unfold handleTimedOutUser
    cases decide (ch.relay = some n) with
    | true => exact handleRelayTimeout_nextPeerId _
    | false =>
        generalize ch.users.eraseIdx i = users
        rcases users with _ | ⟨u, _ | ⟨v, users⟩⟩ <;> rfl

theorem kept_expireAndSettle (now : Instant) (ch : Channel) :
    Kept ch (ch.expireAndSettle now).1 := by
  have hexpire : Kept ch (ch.expire now).1 :=
    expire_induct now ch (Q := fun ch' _ => Kept ch ch') (Kept.refl ch)
      fun _ _ i u h _ _ _ => h.trans (kept_handleTimedOutUser _ i u.name u.addr)
  refine hexpire.trans (kept_of_sublist ?_ ?_)
  · change (settleSolo (ch.expire now).1).1.users.Sublist _
    rw [settleSolo_users]
  · change (settleSolo (ch.expire now).1).1.nextPeerId = _
    unfold settleSolo
    split
    · split_ifs <;> rfl
    · rfl

theorem SectionEffect.refl (st : ServerMap) : SectionEffect st st :=
  .kept fun _ _ ch' h => ⟨ch', h, Kept.refl ch'⟩

end Kept

/-! ## Sections that admit nobody -/

/-- What becomes of a channel in a section that admits nobody. -/
inductive Revised (ch : Channel) : Channel → Prop
  | same : Revised ch ch
  | pong (now : Instant) (src : SocketAddr) : Revised ch (ch.pong now src)
  | refresh (now : Instant) (n : Token) (src : SocketAddr) : Revised ch (ch.refresh now n src)
  | removal {n : Token} {src addr : SocketAddr} {left : Channel} {wasRelay : Bool}
      (h : findAndRemoveUser ch n src = some (left, wasRelay, addr)) :
      Revised ch (updateRelayAfterDeparture left wasRelay).1
  | record (relay : Option Token) : Revised ch { ch with relay := relay }
  | peerTimeout (n : Token) : Revised ch (ch.removePeer n)
  | requestRelay (n : Token) : Revised ch (ch.requestRelay n)
  | expiry (now : Instant) : Revised ch (ch.expireAndSettle now).1

/-- The server has a table, and there is nothing in it. -/
def ServerMap.HasEmptyTable (st : ServerMap) (serverId : Token) : Prop :=
  ∃ channels, AList.lookup serverId st = some channels ∧ channels.entries = []

/-- `st'` is `st` after a section that admits nobody. -/
structure Revision (st st' : ServerMap) : Prop where
  channels : ∀ s c ch', st'.channel? s c = some ch' →
    ∃ ch, st.channel? s c = some ch ∧ Revised ch ch'
  tables : ∀ s, st'.HasEmptyTable s → st.HasEmptyTable s

section Revision
variable {ch ch' : Channel} {st st' : ServerMap}

theorem Revised.kept (h : Revised ch ch') : Kept ch ch' := by
  cases h with
  | same | record relay => exact Kept.refl ch
  | pong now src => exact kept_pong now src ch
  | refresh now n src => exact kept_refresh now n src ch
  | removal h => exact (kept_findAndRemoveUser h).trans (kept_updateRelayAfterDeparture _ _)
  | peerTimeout n => exact kept_removePeer n ch
  | requestRelay n => exact kept_requestRelay n ch
  | expiry now => exact kept_expireAndSettle now ch

theorem Revision.effect (h : Revision st st') : SectionEffect st st' :=
  .kept fun s c ch' hch' =>
    let ⟨ch, hch, hrevised⟩ := h.channels s c ch' hch'
    ⟨ch, hch, hrevised.kept⟩

theorem Revision.refl (st : ServerMap) : Revision st st :=
  ⟨fun _ _ ch' h => ⟨ch', h, .same⟩, fun _ h => h⟩

/-- Changing channels leaves no table empty. -/
theorem hasEmptyTable_mapValues {f : Token → Token → Channel → Channel} {s : Token}
    (h : ServerMap.HasEmptyTable (HashMap.mapValues (fun s => HashMap.mapValues (f s)) st) s) :
    st.HasEmptyTable s := by
  obtain ⟨channels', hlookup, hnil⟩ := h
  rw [HashMap.lookup_mapValues] at hlookup
  obtain ⟨channels, hchannels, rfl⟩ := Option.map_eq_some_iff.mp hlookup
  exact ⟨channels, hchannels, List.map_eq_nil_iff.mp hnil⟩

theorem hasEmptyTable_modifyChannel {s c s' : Token} {f : Channel → Channel}
    (h : (st.modifyChannel s c f).HasEmptyTable s') : st.HasEmptyTable s' := by
  obtain ⟨channels', hlookup, hnil⟩ := h
  rw [ServerMap.modifyChannel, HashMap.lookup_modify] at hlookup
  split_ifs at hlookup with hs
  · obtain ⟨channels, hchannels, rfl⟩ := Option.map_eq_some_iff.mp hlookup
    exact ⟨channels, hs ▸ hchannels, List.map_eq_nil_iff.mp hnil⟩
  · exact ⟨channels', hlookup, hnil⟩

/-- A channel is changed through `get_mut`. -/
theorem revision_modify {s c : Token} {f : Channel → Channel}
    (hf : ∀ ch, st.channel? s c = some ch → Revised ch (f ch)) :
    Revision st (st.modifyChannel s c f) where
  channels s' c' ch' h := by
    rw [ServerMap.channel?_modifyChannel] at h
    split_ifs at h with hsc
    · obtain ⟨ch, hch, rfl⟩ := Option.map_eq_some_iff.mp h
      rw [hsc.1, hsc.2]
      exact ⟨ch, hch, hf ch hch⟩
    · exact ⟨ch', h, .same⟩
  tables _ h := hasEmptyTable_modifyChannel h

/-- Every channel is. -/
theorem revision_mapValues {f : Token → Token → Channel → Channel}
    (hf : ∀ s c ch, Revised ch (f s c ch)) :
    Revision st (HashMap.mapValues (fun s => HashMap.mapValues (f s)) st) where
  channels s c ch' h := by
    rw [ServerMap.channel?_mapValues] at h
    obtain ⟨ch, hch, rfl⟩ := Option.map_eq_some_iff.mp h
    exact ⟨ch, hch, hf s c ch⟩
  tables _ h := hasEmptyTable_mapValues h

/-- A table goes with its last channel. -/
theorem hasEmptyTable_removeChannel {s c s' : Token}
    (h : (st.removeChannel s c).HasEmptyTable s') : st.HasEmptyTable s' := by
  obtain ⟨channels', hlookup, hnil⟩ := h
  unfold ServerMap.removeChannel at hlookup
  cases hs : AList.lookup s st with
  | none =>
      rw [hs] at hlookup
      exact ⟨channels', hlookup, hnil⟩
  | some chans =>
      rw [hs] at hlookup
      dsimp only at hlookup
      by_cases hempty : (chans.erase c).entries.isEmpty
      · rw [if_pos hempty, HashMap.lookup_erase] at hlookup
        split_ifs at hlookup
        exact ⟨channels', hlookup, hnil⟩
      · rw [if_neg hempty, HashMap.lookup_modify] at hlookup
        split_ifs at hlookup with hss
        · rw [hs, Option.map_some, Option.some.injEq] at hlookup
          rw [← hlookup] at hnil
          exact absurd (List.isEmpty_iff.mpr hnil) hempty
        · exact ⟨channels', hlookup, hnil⟩

theorem revision_cleanup (toCleanup : List (Token × Token)) (st : ServerMap) :
    Revision st (toCleanup.foldl (fun st (sid, cname) => st.removeChannel sid cname) st) where
  channels s c ch' h := by
    rw [channel?_foldl_removeChannel] at h
    split_ifs at h
    exact ⟨ch', h, .same⟩
  tables s h := by
    induction toCleanup generalizing st with
    | nil => exact h
    | cons x toCleanup ih => exact hasEmptyTable_removeChannel (ih _ h)

theorem revision_relayout (s c : Token) (st : ServerMap) : Revision st (st.relayout s c) where
  channels s' c' ch' h := ⟨ch', (st.channel?_relayout s c s' c').symm.trans h, .same⟩
  tables s' h := by
    obtain ⟨channels', hlookup, hnil⟩ := h
    rw [ServerMap.relayout, HashMap.lookup_modify, HashMap.lookup_toFront,
      HashMap.lookup_toFront] at hlookup
    split_ifs at hlookup with hs
    · obtain ⟨channels, hchannels, rfl⟩ := Option.map_eq_some_iff.mp hlookup
      refine ⟨channels, hs ▸ hchannels, ?_⟩
      unfold HashMap.toFront at hnil
      split at hnil
      · rw [AList.entries_insert] at hnil
        exact absurd hnil (List.cons_ne_nil _ _)
      · exact hnil
    · exact ⟨channels', hlookup, hnil⟩

end Revision

/-! ## `CONNECT` -/

section Connect
variable (amb : Ambient) (s c n : Token) (nat : NatKind) (src : SocketAddr)

/-- The block that `handle_connect_message` begins with. -/
def connectSection : Server (Channel × Bool × UInt32) := do
  let st ← getState
  let st := removeUserFromOtherChannels st s c n src
  let st := st.ensureChannel s c
  let channel := ((st.channel? s c).getD .default).ensureId amb.channelId
  match updateExistingUser amb.now channel n src with
  | some (channel, isNew, peerId) => do
      setState (st.modifyChannel s c fun _ => channel)
      return (channel, isNew, peerId)
  | none => do
      let (channel, peerId) ← addNewUser amb.now channel n src nat
      setState (st.modifyChannel s c fun _ => channel)
      return (channel, true, peerId)

/-- What it goes on with: the `WELCOME`, and for a new user the news. -/
def afterConnectSection (channel : Channel) (isNew : Bool) (peerId : UInt32) : Server Unit := do
  sendWelcome src channel.channelId peerId
  whenever isNew (handleConnectNotifications s c n src channel)

theorem handleConnectMessage_eq (natArg : Option Token) :
    handleConnectMessage amb s c n natArg src =
      locked (connectSection amb s c n (NatKind.ofArg natArg) src) >>= fun r =>
        afterConnectSection s c n src r.1 r.2.1 r.2.2 := rfl

theorem events_handleLoneUserScenario (channel : Channel) (st : ServerMap) :
    (handleLoneUserScenario channel).events st = [] := by
  unfold handleLoneUserScenario
  split
  · split <;> rfl
  · rfl

theorem events_connectSection (st : ServerMap) :
    (connectSection amb s c n nat src).events st = [] := by
  unfold connectSection
  rw [events_bind, run_getState]
  dsimp only
  split
  · rfl
  · rw [events_bind, addNewUser, events_bind, events_handleLoneUserScenario]
    rfl

theorem ensureId_nextPeerId (id : UInt64) (ch : Channel) :
    (ch.ensureId id).nextPeerId = ch.nextPeerId := by
  unfold Channel.ensureId
  split_ifs <;> rfl

variable {n src} in
/-- A session that is there keeps its number. -/
theorem updateExistingUser_of_session {ch : Channel}
    (h : ∃ x ∈ ch.users, x.isSession n src = true) :
    ∃ updated peerId,
      updateExistingUser amb.now (ch.ensureId amb.channelId) n src =
        some (updated, false, peerId) ∧ SameStanding ch updated ∧
      updated.roster = ch.roster ∧ updated.nextPeerId = ch.nextPeerId ∧
      (peerId, n, src) ∈ ch.roster := by
  have hfind : (ch.users.find? (User.isSession n src)).isSome := List.find?_isSome.mpr h
  obtain ⟨x, hx⟩ := Option.isSome_iff_exists.mp hfind
  unfold updateExistingUser
  rw [ensureId_users, hx]
  refine ⟨_, _, rfl, ⟨map_standing_touch _ _ _, ensureId_relay _ _⟩, ?_, ensureId_nextPeerId _ _,
    ?_⟩
  · exact Vec.map_modifyFirst (f := fun u : User => { u with lastPong := amb.now })
      (fun _ => rfl) ch.users
  · obtain ⟨rfl, rfl⟩ := isSession_iff.mp (List.find?_some hx)
    exact List.mem_map_of_mem (List.mem_of_find?_eq_some hx)

theorem settleLone_nextPeerId (ch : Channel) : ch.settleLone.1.nextPeerId = ch.nextPeerId := by
  obtain ⟨id, next, users, relay⟩ := ch
  rcases relay with _ | relay
  · rcases users with _ | ⟨⟨pid, name, addr, pong, needs, nat⟩, _ | ⟨v, users⟩⟩
    · rfl
    · cases nat <;> rfl
    · rfl
  · rfl

variable {n src} in
/-- A new one gets the next. -/
theorem joined_roster {ch : Channel} (h : ∀ x ∈ ch.users, x.isSession n src = false) :
    (ch.joined amb n nat src).settleLone.1.roster =
        (ch.others n).map User.badge ++ [(ch.nextPeerId, n, src)] ∧
      (ch.joined amb n nat src).settleLone.1.nextPeerId = ch.nextPeerId + 1 := by
  constructor
  · rw [Channel.roster, settleLone_users, joined_users amb nat h, List.map_append,
      List.map_singleton, User.badge, newUser_name, newUser_addr]
    rw [show (ch.newUser amb n nat src).peerId = ch.nextPeerId from ensureId_nextPeerId _ _]
  · rw [settleLone_nextPeerId, Channel.joined, Channel.join]
    exact congrArg (fun next : UInt32 => next + 1) (ensureId_nextPeerId _ _)

/-- What the first section is, executed: the session is looked up, or joins. -/
theorem run_connectSection (st : ServerMap) :
    let st₂ := (removeUserFromOtherChannels st s c n src).ensureChannel s c
    let old := (st.channel? s c).getD .default
    ((∃ x ∈ old.users, x.isSession n src = true) → ∃ updated peerId,
      (connectSection amb s c n nat src).run st =
          ⟨(updated, false, peerId), st₂.modifyChannel s c fun _ => updated, []⟩ ∧
        SameStanding old updated ∧ updated.roster = old.roster ∧
        updated.nextPeerId = old.nextPeerId ∧ (peerId, n, src) ∈ old.roster) ∧
    ((∀ x ∈ old.users, x.isSession n src = false) →
      (connectSection amb s c n nat src).run st =
        ⟨((old.joined amb n nat src).settleLone.1, true, old.nextPeerId),
          st₂.modifyChannel s c fun _ => (old.joined amb n nat src).settleLone.1,
          (old.joined amb n nat src).settleLone.2⟩) := by
  intro st₂ old
  have hat : st₂.channel? s c = some old :=
    (channel?_opened st s c n src s c).trans (if_pos ⟨rfl, rfl⟩)
  unfold connectSection
  simp only [run_bind, run_getState]
  rw [show (removeUserFromOtherChannels st s c n src).ensureChannel s c = st₂ from rfl, hat,
    Option.getD_some]
  constructor
  · intro hsession
    obtain ⟨updated, peerId, hup, hkept⟩ := updateExistingUser_of_session amb hsession
    refine ⟨updated, peerId, ?_, hkept⟩
    rw [hup]
    rfl
  · intro habsent
    rw [updateExistingUser_of_new habsent]
    simp only [run_bind, run_addNewUser, run_setState, run_pure, List.append_nil]
    rw [ensureId_nextPeerId]
    rfl

/-- The first section admits the session to the channel that it names, and the
number it hands on is the session's on the roster there. -/
theorem connectSection_spec (st : ServerMap) :
    ∃ ch isNew peerId, ((connectSection amb s c n nat src).run st).val = (ch, isNew, peerId) ∧
      ((connectSection amb s c n nat src).run st).state.channel? s c = some ch ∧
      Admitted n src ((st.channel? s c).getD .default) ch ∧ (peerId, n, src) ∈ ch.roster ∧
      ∀ s' c', ¬ (s' = s ∧ c' = c) →
        ((connectSection amb s c n nat src).run st).state.channel? s' c' =
          if s' = s then (st.channel? s' c').map (Channel.evict n src) else st.channel? s' c' := by
  set st₂ := (removeUserFromOtherChannels st s c n src).ensureChannel s c with hst₂
  set old := (st.channel? s c).getD .default with hold
  have hat : st₂.channel? s c = some old := by
    rw [hst₂, channel?_opened, if_pos ⟨rfl, rfl⟩]
  have hupd : ∀ ch, Updates st₂ (st₂.modifyChannel s c fun _ => ch) s c ch :=
    fun ch => updates_modifyChannel hat
  have hrest : ∀ ch s' c', ¬ (s' = s ∧ c' = c) →
      (st₂.modifyChannel s c fun _ => ch).channel? s' c' =
        if s' = s then (st.channel? s' c').map (Channel.evict n src)
        else st.channel? s' c' := by
    intro ch s' c' hsc
    rw [hupd ch s' c', if_neg hsc, hst₂, channel?_opened, if_neg hsc]
  obtain ⟨hknown, hnew⟩ := run_connectSection amb s c n nat src st
  rcases session_or_new n src old with hsession | habsent
  · obtain ⟨ch, peerId, hrun, -, hroster, hnext, hmem⟩ := hknown hsession
    rw [hrun]
    exact ⟨ch, false, peerId, rfl, (hupd ch).channel?, .known hsession hroster hnext,
      hroster ▸ hmem, hrest ch⟩
  · obtain ⟨hroster, hnext⟩ := joined_roster amb nat habsent
    have hmem : (old.nextPeerId, n, src) ∈ (old.joined amb n nat src).settleLone.1.roster := by
      rw [hroster]
      exact List.mem_append_right _ List.mem_cons_self
    rw [hnew habsent]
    exact ⟨_, true, _, rfl, (hupd _).channel?, .new habsent hroster hnext, hmem, hrest _⟩

/-- What it makes of the channel that it names. -/
theorem connectSection_named (st : ServerMap) :
    let old := (st.channel? s c).getD .default
    ∃ ch, ((connectSection amb s c n nat src).run st).state.channel? s c = some ch ∧
      (SameStanding old ch ∨ (∀ x ∈ old.users, x.isSession n src = false) ∧
        ch = (old.joined amb n nat src).settleLone.1) := by
  intro old
  have hat : ((removeUserFromOtherChannels st s c n src).ensureChannel s c).channel? s c =
      some old := (channel?_opened st s c n src s c).trans (if_pos ⟨rfl, rfl⟩)
  obtain ⟨hknown, hnew⟩ := run_connectSection amb s c n nat src st
  rcases session_or_new n src old with hsession | habsent
  · obtain ⟨ch, peerId, hrun, hsame, -⟩ := hknown hsession
    rw [hrun]
    exact ⟨ch, (updates_modifyChannel hat).channel?, Or.inl hsame⟩
  · rw [hnew habsent]
    exact ⟨_, (updates_modifyChannel hat).channel?, Or.inr ⟨habsent, rfl⟩⟩

/-- And of the others. -/
theorem connectSection_others (st : ServerMap) {s' c' : Token} (hsc : ¬ (s' = s ∧ c' = c)) :
    ((connectSection amb s c n nat src).run st).state.channel? s' c' =
      if s' = s then (st.channel? s' c').map (Channel.evict n src) else st.channel? s' c' := by
  obtain ⟨-, -, -, -, -, -, -, hrest⟩ := connectSection_spec amb s c n nat src st
  exact hrest s' c' hsc

end Connect

/-- `st'` is `st` after a section of either kind. -/
inductive CriticalSection (st : ServerMap) : ServerMap → Prop
  | revision {st' : ServerMap} (h : Revision st st') : CriticalSection st st'
  | connect (amb : Ambient) (s c n : Token) (nat : NatKind) (src : SocketAddr) :
      CriticalSection st ((connectSection amb s c n nat src).run st).state

theorem CriticalSection.refl (st : ServerMap) : CriticalSection st st := .revision (.refl st)

theorem CriticalSection.effect {st st' : ServerMap} (h : CriticalSection st st') :
    SectionEffect st st' := by
  cases h with
  | revision h => exact h.effect
  | connect amb s c n nat src =>
      obtain ⟨ch, -, -, -, hch, hadmitted, -, hrest⟩ := connectSection_spec amb s c n nat src st
      exact .admitted s c n src hch hadmitted hrest

/-! ## Every program -/

section Programs

theorem sectioned_sendTo (payload : Bytes) (dst : SocketAddr) :
    Sectioned Revision (sendTo payload dst) := sectioned_output _

theorem sectioned_notifyEach (peers : List User) (msg : User → Str) (dst : User → SocketAddr) :
    Sectioned Revision (notifyEach peers msg dst) :=
  sectioned_each fun _ => sectioned_sendTo _ _

theorem sectioned_announceServerRelay (users : List User) :
    Sectioned Revision (announceServerRelay users) :=
  sectioned_each fun _ => sectioned_notifyEach _ _ _

theorem sectioned_recordRelay (s c : Token) (relay : Option Token) :
    Sectioned Revision (recordRelay s c relay) :=
  sectioned_locked (fun _ => rfl) fun _ => revision_modify fun _ _ => .record relay

theorem sectioned_markRelayInChannel (s c : Token) (u : User) :
    Sectioned Revision (markRelayInChannel s c u) := by
  refine sectioned_locked (fun st => ?_) fun st => ?_
  · rw [events_bind, run_getState]
    dsimp only
    split
    · split_ifs <;> rfl
    · rfl
  · rw [run_bind, run_getState]
    dsimp only
    split
    · split_ifs
      · exact .refl st
      · exact revision_modify fun _ _ => .record (some u.name)
    · exact .refl st

theorem sectioned_handleMultipleUsersScenario (s c : Token) (channel : Channel) :
    Sectioned Revision (handleMultipleUsersScenario s c channel) := by
  unfold handleMultipleUsersScenario
  cases pickEligibleRelay channel with
  | some relayUser =>
      refine (sectioned_markRelayInChannel s c relayUser).bind fun changed => ?_
      refine (sectioned_notifyEach _ _ _).bind fun _ => ?_
      refine (sectioned_notifyEach _ _ _).bind fun _ => ?_
      refine (sectioned_whenever (sectioned_sendTo _ _)).bind fun _ => ?_
      exact sectioned_each fun symmetric =>
        (sectioned_sendTo _ _).bind fun _ => sectioned_whenever (sectioned_sendTo _ _)
  | none => exact (sectioned_announceServerRelay _).bind fun _ => sectioned_recordRelay _ _ _

/-- What a `CONNECT` goes on with admits nobody. -/
theorem sectioned_afterConnectSection (s c n : Token) (src : SocketAddr) (channel : Channel)
    (isNew : Bool) (peerId : UInt32) :
    Sectioned Revision (afterConnectSection s c n src channel isNew peerId) := by
  refine (sectioned_sendTo _ _).bind fun _ => sectioned_whenever ?_
  unfold handleConnectNotifications
  split_ifs
  · exact sectioned_handleMultipleUsersScenario _ _ _
  · exact sectioned_each fun _ => sectioned_whenever
      ((sectioned_sendTo _ _).bind fun _ => sectioned_sendTo _ _)

theorem sectioned_handleConnectMessage (amb : Ambient) (s c n : Token) (nat : Option Token)
    (src : SocketAddr) : Sectioned CriticalSection (handleConnectMessage amb s c n nat src) := by
  rw [handleConnectMessage_eq]
  exact Sectioned.bind (sectioned_locked (events_connectSection _ _ _ _ _ _) fun _ =>
    .connect amb s c n _ src) fun r =>
      (sectioned_afterConnectSection s c n src _ _ _).mono fun _ _ => .revision

theorem sectioned_handleRelayTransition (wasRelay : Bool) (s c : Token) :
    Sectioned Revision (handleRelayTransition wasRelay s c) := by
  refine sectioned_whenever (Sectioned.bind
    (sectioned_locked (fun _ => rfl) Revision.refl) fun channelOpt => ?_)
  cases channelOpt with
  | none => exact sectioned_pure ()
  | some channel =>
      dsimp only
      cases pickEligibleRelay channel with
      | some newRelay =>
          refine (sectioned_sendTo _ _).bind fun _ => (sectioned_notifyEach _ _ _).bind fun _ => ?_
          exact (sectioned_notifyEach _ _ _).bind fun _ => sectioned_recordRelay _ _ _
      | none => exact (sectioned_announceServerRelay _).bind fun _ => sectioned_recordRelay _ _ _

/-- The guard of the caller is alive while the other one is taken: both blocks
are one section. -/
theorem sectioned_handleUserRemoval (s c n : Token) (src : SocketAddr) :
    Sectioned Revision (handleUserRemoval s c n src) := by
  intro st
  unfold handleUserRemoval getRemainingUsers
  rw [meets_locked, meets_bind, meets_getState]
  cases hfound : (st.channel? s c).bind fun ch => findAndRemoveUser ch n src with
  | none =>
      simp only [meets_locked, meets_bind, meets_getState, meets_pure]
      exact ⟨Revision.refl st, fun _ => ⟨trivial, trivial⟩⟩
  | some found =>
      obtain ⟨left, wasRelay, addr⟩ := found
      obtain ⟨ch, hch, hleft⟩ := Option.bind_eq_some_iff.mp hfound
      simp only [meets_locked, meets_bind, meets_getState, meets_setState, meets_pure]
      refine ⟨revision_modify fun ch' hch' => ?_, fun _ => ⟨trivial, trivial⟩⟩
      obtain rfl : ch = ch' := Option.some.inj (hch.symm.trans hch')
      exact .removal hleft

theorem sectioned_handleDisconnectMessage (s c n : Token) (src : SocketAddr) :
    Sectioned Revision (handleDisconnectMessage s c n src) := by
  refine (sectioned_handleUserRemoval s c n src).bind ?_
  rintro ⟨remainingUsers, wasRelay, leavingUserAddr, loneUserAddr⟩
  dsimp only [handleDisconnectNotifications]
  cases loneUserAddr with
  | some addr => exact (sectioned_sendTo _ _).bind fun _ => sectioned_notifyEach _ _ _
  | none =>
      exact (sectioned_handleRelayTransition _ _ _).bind fun _ => sectioned_notifyEach _ _ _

theorem sectioned_handlePeerTimeout (s c n : Token) :
    Sectioned Revision (handlePeerTimeout s c n) := by
  refine Sectioned.bind (sectioned_locked (fun _ => rfl) fun st =>
    revision_modify fun _ _ => .peerTimeout n) fun remaining => ?_
  cases remaining with
  | some channel => exact sectioned_notifyEach _ _ _
  | none => exact sectioned_pure ()

theorem sectioned_heartbeatPass (now : Instant) :
    Sectioned Revision (heartbeatPass now) := by
  refine Sectioned.bind (sectioned_locked (fun _ => rfl) fun st =>
    revision_mapValues fun _ _ _ => .expiry now) fun data => ?_
  refine (sectioned_each fun _ => sectioned_sendTo _ _).bind fun _ =>
    (sectioned_each fun _ => sectioned_each fun _ => sectioned_sendTo _ _).bind fun _ =>
      sectioned_whenever (sectioned_locked (fun _ => rfl) fun st => ?_)
  exact revision_cleanup data.cleanup st

theorem events_notifyEach (peers : List User) (msg : User → Str) (dst : User → SocketAddr)
    (st : ServerMap) : (notifyEach peers msg dst).events st = [] :=
  events_each fun _ _ => rfl

theorem sectioned_handleRelayRequest (s c n : Token) :
    Sectioned Revision (handleRelayRequest s c n) := by
  refine sectioned_locked (fun st => ?_) fun st => ?_
  · rw [events_bind, run_getState]
    cases st.channel? s c with
    | none => rfl
    | some ch => exact events_notifyEach _ _ _ _
  · rw [run_bind, run_getState]
    cases st.channel? s c with
    | none => exact .refl st
    | some ch =>
        dsimp only
        rw [run_bind, run_setState, run_notifyEach]
        exact revision_modify fun _ _ => .requestRelay n

theorem sectioned_handleDataFromClient (raw : Str) (src : SocketAddr) :
    Sectioned Revision (handleDataFromClient raw src) := by
  unfold handleDataFromClient
  split
  · refine sectioned_locked (fun st => ?_) fun st => ?_
    · rw [events_bind, run_getState]
      dsimp only
      split
      · exact events_each fun _ _ => rfl
      · rfl
    · rw [run_bind, run_getState]
      dsimp only
      split
      · rw [run_each fun _ _ => run_sendTo _ _ _]
        exact .refl st
      · exact .refl st
  · exact sectioned_pure ()

/-- The first turn of a `CONNECT` is its first section. -/
theorem turn_handleMessage_connect (amb : Ambient) {text : Str} (src : SocketAddr) {s c n : Token}
    {natArg : Option Token} (hreq : Request.ofText text = .connect s c n natArg) (st : ServerMap) :
    (handleMessage amb text src).turn 0 st =
      let r := (connectSection amb s c n (NatKind.ofArg natArg) src).run st
      ⟨afterConnectSection s c n src r.val.1 r.val.2.1 r.val.2.2, r.state, r.sent⟩ := by
  rw [handleMessage_eq, hreq, Request.handle, handleConnectMessage_eq,
    turn_locked_bind (events_connectSection _ _ _ _ _ _ st)]

/-- A request that is not a `CONNECT` admits nobody, from its first section to its
last. -/
theorem sectioned_handle (amb : Ambient) (msg : Str) (src : SocketAddr) {r : Request}
    (hr : ∀ s c n natArg, r ≠ .connect s c n natArg) :
    Sectioned Revision (r.handle amb msg src) := by
  cases r with
  | natProbe => exact sectioned_sendTo _ _
  | pong => exact sectioned_locked (fun _ => rfl) fun st =>
      revision_mapValues fun _ _ _ => .pong amb.now src
  | hb s c n =>
      exact sectioned_locked (fun _ => rfl) fun st =>
        revision_modify fun _ _ => .refresh amb.now n src
  | connect s c n natArg => exact absurd rfl (hr s c n natArg)
  | disconnect s c n => exact sectioned_handleDisconnectMessage s c n src
  | peerTimeout s c n => exact sectioned_handlePeerTimeout s c n
  | requestRelay s c n => exact sectioned_handleRelayRequest s c n
  | data => exact sectioned_handleDataFromClient msg src
  | unknown => exact sectioned_pure ()

/-- The step is a `CONNECT`. -/
def ServerStep.Connects : ServerStep → Prop
  | .message _ text _ => ∃ s c n natArg, Request.ofText text = .connect s c n natArg
  | .heartbeat _ | .relayout _ _ => False

/-- **What a turn can be** of a program that is not a `CONNECT`, in any
interleaving. -/
theorem guarantees_revision {l : ServerStep} (h : ¬ l.Connects) :
    Guarantees Revision l.program := by
  cases l with
  | message amb text src =>
      refine Sectioned.guarantees Revision.refl ?_
      change Sectioned Revision (handleMessage amb text src)
      rw [handleMessage_eq]
      exact sectioned_handle amb text src fun s c n natArg hr => h ⟨s, c, n, natArg, hr⟩
  | heartbeat now => exact (sectioned_heartbeatPass now).guarantees Revision.refl
  | relayout s c => exact fun st => revision_relayout s c st

/-- **What a turn can be** of any program of the server. -/
theorem guarantees_section (l : ServerStep) : Guarantees CriticalSection l.program := by
  by_cases h : l.Connects
  · cases l with
    | message amb text src =>
        obtain ⟨s, c, n, natArg, hreq⟩ := h
        refine Sectioned.guarantees CriticalSection.refl ?_
        change Sectioned CriticalSection (handleMessage amb text src)
        rw [handleMessage_eq, hreq]
        exact sectioned_handleConnectMessage amb s c n natArg src
    | heartbeat now => exact h.elim
    | relayout s c => exact h.elim
  · exact (guarantees_revision h).mono fun _ _ => .revision

/-- **What a turn does to the rosters.** -/
theorem guarantees_program (l : ServerStep) : Guarantees SectionEffect l.program :=
  (guarantees_section l).mono fun _ _ h => h.effect

end Programs

end NatPiercer.Signaling
