/-
# `Signaling.Tidying` — what a pass leaves of the map

A pass that nothing comes between removes the channels that nobody has
survived in, one pair of names after the other, and a server with the last of
its channels.  What is left does not depend on the order of the pairs: a
channel is there or not by its own users (`channel?_tidied`), and a server by
its channels, since no table of a server is ever empty (`noEmptyTable_section`).

The times of the last pongs are anything at all.
-/
import NatPiercer.Signaling.Pickers

namespace NatPiercer.Signaling

open Text Utf8 Net Proto LockProg

/-- The two critical sections of a pass, the second straight after the first. -/
def tidy (now : Instant) : Server Unit := do
  let data ← collectHeartbeatData now
  cleanupEmptyChannels data.cleanup

def ServerMap.tidied (now : Instant) (st : ServerMap) : ServerMap := ((tidy now).run st).state

/-- The same users, last heard of when `pongs` says. -/
def ServerMap.withPongs (pongs : Token → Token → User → Instant) (st : ServerMap) : ServerMap :=
  HashMap.mapValues (fun s => HashMap.mapValues fun c ch =>
    { ch with users := ch.users.map fun u => { u with lastPong := pongs s c u } }) st

/-- Nothing tells the two maps apart but the order of their entries. -/
structure SameContent (st st' : ServerMap) : Prop where
  servers : ∀ s, s ∈ st ↔ s ∈ st'
  channels : ∀ s c, st.channel? s c = st'.channel? s c

/-- What a pass is to leave. -/
structure Tidies (now : Instant) (st : ServerMap) : Prop where
  alive : ∀ s c, (∃ ch, (st.tidied now).channel? s c = some ch) ↔
    ∃ ch, st.channel? s c = some ch ∧ ∃ u ∈ ch.users, u.expired now = false
  users : ∀ s c ch, (st.tidied now).channel? s c = some ch → ch.users ≠ []
  tables : ∀ s, ¬ (st.tidied now).HasEmptyTable s
  ids : ∀ s c ch ch', st.channel? s c = some ch → (st.tidied now).channel? s c = some ch' →
    ch'.channelId = ch.channelId ∧ ch'.nextPeerId = ch.nextPeerId
  layout : ∀ st', SameContent st st' → SameContent (st.tidied now) (st'.tidied now)

/-! ## No table is empty -/

section Tables
variable {st st' : ServerMap} {s : Token}

def ServerMap.NoEmptyTable (st : ServerMap) : Prop := ∀ s, ¬ st.HasEmptyTable s

/-- A table that is not empty has a channel to show for it. -/
theorem mem_servers_iff (h : st.NoEmptyTable) : s ∈ st ↔ ∃ c ch, st.channel? s c = some ch := by
  rw [← AList.lookup_isSome, Option.isSome_iff_exists]
  constructor
  · rintro ⟨channels, hs⟩
    cases hentries : channels.entries with
    | nil => exact absurd ⟨channels, hs, hentries⟩ (h s)
    | cons entry rest =>
        obtain ⟨c, ch⟩ := entry
        have hc : AList.lookup c channels = some ch :=
          HashMap.mem_entries_iff.mp (hentries ▸ List.mem_cons_self)
        exact ⟨c, ch, Option.bind_eq_some_iff.mpr ⟨channels, hs, hc⟩⟩
  · rintro ⟨c, ch, hch⟩
    obtain ⟨channels, hs, -⟩ := Option.bind_eq_some_iff.mp hch
    exact ⟨channels, hs⟩

theorem noEmptyTable_of_sameContent (h : st.NoEmptyTable) (hsame : SameContent st st') :
    st'.NoEmptyTable := by
  rintro s ⟨channels, hs, hnil⟩
  have hmem : s ∈ st' := AList.lookup_isSome.mp (by rw [hs]; rfl)
  obtain ⟨c, ch, hch⟩ := (mem_servers_iff h).mp ((hsame.servers s).mpr hmem)
  obtain ⟨channels', hs', hc⟩ := Option.bind_eq_some_iff.mp ((hsame.channels s c).symm.trans hch)
  obtain rfl := Option.some.inj (hs.symm.trans hs')
  exact HashMap.entries_ne_nil_of_lookup hc hnil

/-- Maps without empty tables are told apart by their channels. -/
theorem sameContent_of_channels (h : st.NoEmptyTable) (h' : st'.NoEmptyTable)
    (hchannels : ∀ s c, st.channel? s c = st'.channel? s c) : SameContent st st' where
  servers s := by
    rw [mem_servers_iff h, mem_servers_iff h']
    simp only [hchannels]
  channels := hchannels

/-- The channel that a `CONNECT` makes sure of is in a table that is not empty. -/
theorem hasEmptyTable_ensureChannel {s₁ c₁ : Token}
    (h : (st.ensureChannel s₁ c₁).HasEmptyTable s) : st.HasEmptyTable s := by
  obtain ⟨channels, hlookup, hnil⟩ := h
  rw [ServerMap.ensureChannel, HashMap.lookup_modify] at hlookup
  split_ifs at hlookup with hs
  · obtain ⟨table, -, rfl⟩ := Option.map_eq_some_iff.mp hlookup
    have hthere := HashMap.lookup_orInsert table c₁ c₁ Channel.default
    rw [if_pos rfl] at hthere
    exact absurd hnil (HashMap.entries_ne_nil_of_lookup hthere)
  · rw [HashMap.lookup_orInsert, if_neg hs] at hlookup
    exact ⟨channels, hlookup, hnil⟩

theorem hasEmptyTable_removeUserFromOtherChannels {s₁ c n : Token} {src : SocketAddr}
    (h : (removeUserFromOtherChannels st s₁ c n src).HasEmptyTable s) : st.HasEmptyTable s := by
  obtain ⟨channels, hlookup, hnil⟩ := h
  rw [removeUserFromOtherChannels, HashMap.lookup_modify] at hlookup
  split_ifs at hlookup with hs
  · obtain ⟨table, htable, rfl⟩ := Option.map_eq_some_iff.mp hlookup
    exact ⟨table, hs ▸ htable, List.map_eq_nil_iff.mp hnil⟩
  · exact ⟨channels, hlookup, hnil⟩

theorem noEmptyTable_section (h : st.NoEmptyTable) (hsection : CriticalSection st st') :
    st'.NoEmptyTable := by
  cases hsection with
  | revision hrev => exact fun s hs => h s (hrev.tables s hs)
  | connect amb s₁ c n nat src =>
      intro s hs
      obtain ⟨ch, hrun⟩ : ∃ ch, ((connectSection amb s₁ c n nat src).run st).state =
          ((removeUserFromOtherChannels st s₁ c n src).ensureChannel s₁ c).modifyChannel s₁ c
            fun _ => ch := by
        obtain ⟨hknown, hnew⟩ := run_connectSection amb s₁ c n nat src st
        rcases session_or_new n src ((st.channel? s₁ c).getD .default) with hsession | habsent
        · obtain ⟨updated, peerId, hrun, -⟩ := hknown hsession
          exact ⟨updated, by rw [hrun]⟩
        · exact ⟨_, by rw [hnew habsent]⟩
      rw [hrun] at hs
      exact h s (hasEmptyTable_removeUserFromOtherChannels
        (hasEmptyTable_ensureChannel (hasEmptyTable_modifyChannel hs)))

theorem noEmptyTable_empty : ServerMap.NoEmptyTable ∅ := by
  rintro s ⟨channels, hs, -⟩
  exact nomatch hs

end Tables

/-! ## One pass -/

section Pass
variable {st : ServerMap} {now : Instant} {ch ch' : Channel}

/-- The datagrams between the two sections change nothing. -/
theorem tidied_eq_step (now : Instant) (st : ServerMap) :
    st.tidied now = st.step (.heartbeat now) := by
  simp only [ServerMap.tidied, tidy, ServerMap.step, ServerStep.program, heartbeatPass, run_bind,
    run_sendPings, run_sendNotifications]

/-- A pass acts on each channel by itself. -/
theorem channel?_tidied (now : Instant) (st : ServerMap) (s c : Token) :
    (st.tidied now).channel? s c = (st.channel? s c).bind (Channel.heartbeat now) := by
  rw [tidied_eq_step]
  exact channel?_step st (.heartbeat now) s c

theorem noEmptyTable_tidied (h : st.NoEmptyTable) : (st.tidied now).NoEmptyTable := by
  intro s hs
  rw [ServerMap.tidied, tidy, run_bind, run_cleanupEmptyChannels] at hs
  exact h s (hasEmptyTable_mapValues ((revision_cleanup _ _).tables s hs))

theorem heartbeat_isSome_iff (now : Instant) (ch : Channel) :
    (∃ ch', ch.heartbeat now = some ch') ↔ ∃ u ∈ ch.users, u.expired now = false := by
  have hdead : (ch.expireAndSettle now).1.users.isEmpty = true ↔
      ∀ u ∈ ch.users, u.expired now = true := expireAndSettle_isEmpty_iff ch
  unfold Channel.heartbeat
  by_cases hempty : (ch.expireAndSettle now).1.users.isEmpty = true
  · rw [if_pos hempty]
    have hall := hdead.mp hempty
    constructor
    · rintro ⟨ch', h⟩
      exact absurd h (Option.some_ne_none ch').symm
    · rintro ⟨u, hu, hfresh⟩
      rw [hall u hu] at hfresh
      exact absurd hfresh (by decide)
  · rw [if_neg hempty]
    rw [hdead] at hempty
    push Not at hempty
    obtain ⟨u, hu, hfresh⟩ := hempty
    exact ⟨fun _ => ⟨u, hu, by simpa using hfresh⟩, fun _ => ⟨_, rfl⟩⟩

theorem handleTimedOutUser_channelId (ch : Channel) (i : Nat) (n : Token) (addr : SocketAddr) :
    (handleTimedOutUser ch i n addr).1.channelId = ch.channelId := by
  unfold handleTimedOutUser
  cases decide (ch.relay = some n) with
  | true =>
      change (handleRelayTimeout _).1.channelId = _
      unfold handleRelayTimeout
      split <;> rfl
  | false =>
      generalize ch.users.eraseIdx i = users
      rcases users with _ | ⟨u, _ | ⟨v, users⟩⟩ <;> rfl

theorem settleSolo_channelId (ch : Channel) : (settleSolo ch).1.channelId = ch.channelId := by
  unfold settleSolo
  split
  · split_ifs <;> rfl
  · rfl

/-- What is left of a channel has the numbers it had. -/
theorem heartbeat_ids (h : ch.heartbeat now = some ch') :
    ch'.channelId = ch.channelId ∧ ch'.nextPeerId = ch.nextPeerId := by
  unfold Channel.heartbeat at h
  split_ifs at h
  obtain rfl := Option.some.inj h
  refine ⟨?_, (kept_expireAndSettle now ch).2⟩
  have hexpire : (ch.expire now).1.channelId = ch.channelId :=
    expire_induct now ch (Q := fun ch' _ => ch'.channelId = ch.channelId) rfl
      fun _ _ i u h _ _ _ => (handleTimedOutUser_channelId _ i u.name u.addr).trans h
  exact (settleSolo_channelId _).trans hexpire

/-- All that reachability is needed for is the tables. -/
theorem tidies_of_noEmptyTable (now : Instant) (h : st.NoEmptyTable) : Tidies now st where
  alive s c := by
    rw [channel?_tidied]
    simp only [← heartbeat_isSome_iff, Option.bind_eq_some_iff]
    exact ⟨fun ⟨ch', ch, hch, hch'⟩ => ⟨ch, hch, ch', hch'⟩,
      fun ⟨ch, hch, ch', hch'⟩ => ⟨ch', ch, hch, hch'⟩⟩
  users s c ch' hch' := by
    rw [channel?_tidied] at hch'
    obtain ⟨ch, -, hsurvives⟩ := Option.bind_eq_some_iff.mp hch'
    unfold Channel.heartbeat at hsurvives
    split_ifs at hsurvives with hempty
    rw [← Option.some.inj hsurvives]
    exact fun hnil => hempty (List.isEmpty_iff.mpr hnil)
  tables := noEmptyTable_tidied h
  ids s c ch ch' hch hch' := by
    rw [channel?_tidied, hch] at hch'
    exact heartbeat_ids hch'
  layout st' hsame := by
    refine sameContent_of_channels (noEmptyTable_tidied h)
      (noEmptyTable_tidied (noEmptyTable_of_sameContent h hsame)) fun s c => ?_
    rw [channel?_tidied, channel?_tidied, hsame.channels]

end Pass

/-- **A pass tidies exactly the dead channels**, whenever the users of a map that
the server can come to have were last heard of. -/
theorem pass_tidies (now : Instant) (pongs : Token → Token → User → Instant)
    (ls : List ServerStep) (ms : List (Move ServerStep)) :
    Tidies now ((after ServerMap.step ∅ ls).withPongs pongs) ∧
      Tidies now ((interleaved ms).value.withPongs pongs) := by
  have h : ∀ {st : ServerMap}, st.Reachable → Tidies now (st.withPongs pongs) := by
    intro st hst
    have htables : st.NoEmptyTable :=
      hst.of_section noEmptyTable_empty fun _ _ => noEmptyTable_section
    exact tidies_of_noEmptyTable now fun s hs => htables s (hasEmptyTable_mapValues hs)
  exact ⟨h (reachable_after ls), h ⟨ms, rfl⟩⟩

end NatPiercer.Signaling
