/-
# `Signaling.Departures` — leaving, three ways, and not leaving

A user leaves by its own `DISCONNECT`, by a `PEER_TIMEOUT` that names it, or
by being silent for too long.  Each way has its own code for what becomes of
the relay: `handle_user_removal` takes the first user left and
`handle_relay_transition` elects again; `handle_peer_timeout` looks only
whether a single user is left; `handle_timed_out_user` elects, or looks
whether a single user is left, and the pass settles a single user at its
end.  They agree about the users, and about the relay only here and there
(`leaving_agrees_iff`).

And a `DISCONNECT` that finds no session to end is announced to the channel
as if it had ended one (`disconnect_ignored_iff`).
-/
import NatPiercer.Signaling.Cleanup

namespace NatPiercer.Signaling

open Text Utf8 Net Proto LockProg

/-! ## A `DISCONNECT` of nobody -/

/-- Nobody of the name is in the channel at the address. -/
def ServerMap.NoSession (st : ServerMap) (s c n : Token) (src : SocketAddr) : Prop :=
  ∀ u ∈ st.usersOf s c, u.isSession n src = false

section Ignored
variable {st : ServerMap} {s c n : Token} {src : SocketAddr}

theorem findAndRemoveUser_of_absent {ch : Channel}
    (h : ∀ u ∈ ch.users, u.isSession n src = false) : findAndRemoveUser ch n src = none := by
  have hfind : ch.users.find? (User.isSession n src) = none :=
    List.find?_eq_none.mpr fun u hu => Bool.eq_false_iff.mp (h u hu)
  unfold findAndRemoveUser
  rw [hfind]

/-- The map stays as it is.  The members are told of a departure, from an address
that is nobody's. -/
theorem run_disconnect_of_noSession (h : st.NoSession s c n src) :
    (handleDisconnectMessage s c n src).run st =
      ⟨(), st, departed (st.usersOf s c) n unknownAddr⟩ := by
  have hnone : (st.channel? s c).bind (fun ch => findAndRemoveUser ch n src) = none := by
    unfold ServerMap.NoSession ServerMap.usersOf at h
    cases hch : st.channel? s c with
    | none => rfl
    | some ch =>
        rw [hch] at h
        exact findAndRemoveUser_of_absent h
  unfold handleDisconnectMessage handleUserRemoval getRemainingUsers
  simp only [run_bind, run_locked, run_getState, hnone, run_pure, handleDisconnectNotifications,
    handleRelayTransition, whenever, Bool.false_eq_true, if_false, notifyAllAboutDeparture,
    run_notifyEach, List.nil_append, List.append_nil]
  rfl

end Ignored

/-- **When a `DISCONNECT` that matches no session has no effect.**  The map is
never changed; nobody is told exactly if there is nobody to tell. -/
theorem disconnect_ignored_iff (st : ServerMap) (s c n : Token) (src : SocketAddr)
    (h : st.NoSession s c n src) :
    (((handleDisconnectMessage s c n src).run st).state = st ∧
      ((handleDisconnectMessage s c n src).run st).sent = []) ↔ st.usersOf s c = [] := by
  rw [run_disconnect_of_noSession h]
  unfold departed
  rw [List.map_eq_nil_iff]
  exact and_iff_right rfl

/-- Ann is reported, and says goodbye: her channel is empty, and those in others do
not hear of it. -/
theorem disconnect_ignored_reported :
    let ann : SocketAddr := .v4 ⟨10, 0, 0, 1⟩ 4000
    let st := after ServerMap.step ∅
      [.message ⟨0, 7⟩ "CONNECT s c ann CONE".toList ann,
        .message ⟨1, 8⟩ "CONNECT s d bob CONE".toList (.v4 ⟨10, 0, 0, 2⟩ 4000),
        .message ⟨2, 9⟩ "CONNECT t c carl CONE".toList (.v4 ⟨10, 0, 0, 3⟩ 4000),
        .message ⟨3, 10⟩ "PEER_TIMEOUT s c ann".toList (.v4 ⟨10, 0, 0, 2⟩ 4000)]
    let goodbye := handleDisconnectMessage ⟨"s".toList, by decide⟩ ⟨"c".toList, by decide⟩
      ⟨"ann".toList, by decide⟩ ann
    (goodbye.run st).state = st ∧ (goodbye.run st).sent = [] := by
  intro ann st goodbye
  refine (disconnect_ignored_iff st _ _ _ ann ?_).mpr (by decide +kernel)
  unfold ServerMap.NoSession
  decide +kernel

/-- Somebody else disconnects in Ann's name, from another address: Ann herself is
told that she has left. -/
theorem disconnect_heard_by_ann :
    ¬ ∀ (st : ServerMap) (s c n : Token) (src : SocketAddr), st.NoSession s c n src →
      ((handleDisconnectMessage s c n src).run st).state = st ∧
        ((handleDisconnectMessage s c n src).run st).sent = [] := by
  intro h
  let st := after ServerMap.step ∅
    [.message ⟨0, 7⟩ "CONNECT s c ann CONE".toList (.v4 ⟨10, 0, 0, 1⟩ 4000)]
  have hsent := (h st ⟨"s".toList, by decide⟩ ⟨"c".toList, by decide⟩ ⟨"ann".toList, by decide⟩
    (.v4 ⟨10, 0, 0, 9⟩ 4000) (by
      unfold ServerMap.NoSession
      decide +kernel)).2
  revert hsent
  decide +kernel

/-! ## Three ways to leave -/

/-- Who is in the channel, and who is on record. -/
def Channel.company (ch : Channel) : List User × Option Token := (ch.users, ch.relay)

/-- A departure leaves the same users and the same relay on record whether `u` ends
its session, is reported as gone, or is the one user that a pass finds silent. -/
def LeavingAgrees (now : Instant) (st : ServerMap) (s c : Token) (ch : Channel) (u : User) : Prop :=
  (((handleDisconnectMessage s c u.name u.addr).run st).state.channel? s c).map Channel.company =
      some (processChannelHeartbeat now s c ch).1.company ∧
    (((handlePeerTimeout s c u.name).run st).state.channel? s c).map Channel.company =
      some (processChannelHeartbeat now s c ch).1.company

/-- If `u` is the relay, it leaves one other user, who can be the relay; if nobody
is, it leaves nobody or several. -/
def Channel.LeavesAlike (u : User) (ch : Channel) : Prop :=
  (ch.relay = some u.name → ∃ v, ch.others u.name = [v] ∧ v.needsServerRelay = false) ∧
    (ch.relay = none → (ch.others u.name).length ≠ 1)

section Leaving
variable {now : Instant} {ch : Channel} {u : User}

/-- In a well named channel nobody else goes with the user of an index. -/
theorem eraseIdx_eq_others (hn : ch.WellNamed) {i : Nat} (hu : ch.users[i]? = some u) :
    ch.users.eraseIdx i = ch.others u.name := by
  obtain ⟨hi, rfl⟩ := List.getElem?_eq_some_iff.mp hu
  have hnodup : ch.users.Nodup := List.Nodup.of_map User.name hn
  rw [← hnodup.erase_getElem i hi, hnodup.erase_eq_filter, Channel.others]
  refine List.filter_congr fun v hv => ?_
  by_cases hvu : v = ch.users[i]
  · simp [hvu]
  · have hname : v.name ≠ ch.users[i].name := fun h =>
      hvu (hn.eq_of_name hv (List.getElem_mem hi) h)
    simp [hvu, hname]

/-- What is left when `u` alone is past the limit. -/
theorem survivors_of_one (hn : ch.WellNamed) (hu : u ∈ ch.users) (hexp : u.expired now = true)
    (hfresh : ∀ v ∈ ch.users, v ≠ u → v.expired now = false) :
    ch.survivors now = ch.others u.name := by
  refine List.filter_congr fun v hv => ?_
  by_cases hvu : v = u
  · simp [hvu, hexp]
  · have hname : v.name ≠ u.name := fun h => hvu (hn.eq_of_name hv hu h)
    simp [hfresh v hv hvu, hname]

/-- The loop removes `u`, and is done. -/
theorem expire_relay_of_one (hn : ch.WellNamed) (hu : u ∈ ch.users) (hexp : u.expired now = true)
    (hfresh : ∀ v ∈ ch.users, v ≠ u → v.expired now = false) :
    (ch.expire now).1.relay =
      if ch.relay = some u.name then sparedName (ch.others u.name)
      else soleOr ch.relay (ch.others u.name) := by
  have hloop : ((ch.expire now).1.users = ch.users ∧ (ch.expire now).1.relay = ch.relay) ∨
      ((ch.expire now).1.users = ch.others u.name ∧ (ch.expire now).1.relay =
        if ch.relay = some u.name then sparedName (ch.others u.name)
        else soleOr ch.relay (ch.others u.name)) := by
    refine expire_induct now ch (Q := fun ch' _ => (ch'.users = ch.users ∧ ch'.relay = ch.relay) ∨
      (ch'.users = ch.others u.name ∧ ch'.relay =
        if ch.relay = some u.name then sparedName (ch.others u.name)
        else soleOr ch.relay (ch.others u.name)))
      (Or.inl ⟨rfl, rfl⟩) fun ch' ns i w hQ hw hwexp _ => ?_
    have honly : ∀ v ∈ ch.users, v.expired now = true → v = u := fun v hv hvexp => by
      by_contra hvu
      rw [hfresh v hv hvu] at hvexp
      exact Bool.false_ne_true hvexp
    rcases hQ with ⟨husers, hrelay⟩ | ⟨husers, -⟩
    · rw [husers] at hw
      obtain rfl : w = u := honly w (List.mem_of_getElem? hw) hwexp
      refine Or.inr ⟨?_, ?_⟩
      · rw [handleTimedOutUser_users, husers, eraseIdx_eq_others hn hw]
      · rw [handleTimedOutUser_relay, husers, hrelay, eraseIdx_eq_others hn hw]
    · rw [husers] at hw
      obtain ⟨hmem, hne⟩ := mem_others.mp (List.mem_of_getElem? hw)
      exact absurd (congrArg User.name (honly w hmem hwexp)) hne
  rcases hloop with ⟨husers, -⟩ | ⟨-, hrelay⟩
  · -- `u` cannot still be there
    rw [expire_users, survivors_of_one hn hu hexp hfresh] at husers
    rw [← husers] at hu
    exact absurd rfl (mem_others.mp hu).2
  · exact hrelay

/-- The pass settles the one user that is left. -/
theorem expireAndSettle_relay_of_one (hn : ch.WellNamed) (hu : u ∈ ch.users)
    (hexp : u.expired now = true) (hfresh : ∀ v ∈ ch.users, v ≠ u → v.expired now = false) :
    (∀ v, ch.others u.name = [v] → (ch.expireAndSettle now).1.relay =
      if v.needsServerRelay then none else some v.name) ∧
    ((ch.others u.name).length ≠ 1 → (ch.expireAndSettle now).1.relay =
      if ch.relay = some u.name then sparedName (ch.others u.name) else ch.relay) := by
  have husers : (ch.expire now).1.users = ch.others u.name := by
    rw [expire_users, survivors_of_one hn hu hexp hfresh]
  refine ⟨fun v hv => settleSolo_relay_of_single (husers.trans hv), fun hlen => ?_⟩
  change (settleSolo (ch.expire now).1).1.relay = _
  rw [settleSolo_of_length (by rwa [husers]), expire_relay_of_one hn hu hexp hfresh,
    soleOr_of_length _ hlen]

/-- What is to be compared, once the users are known to be the others. -/
theorem leavingAgrees_iff_relay {st : ServerMap} {s c : Token} (hch : st.channel? s c = some ch)
    (hn : ch.WellNamed) (hu : u ∈ ch.users) (hexp : u.expired now = true)
    (hfresh : ∀ v ∈ ch.users, v ≠ u → v.expired now = false) :
    LeavingAgrees now st s c ch u ↔
      (if ch.relay = some u.name then soleOr (electedName (ch.others u.name)) (ch.others u.name)
        else ch.relay) = (ch.expireAndSettle now).1.relay ∧
      soleOr ch.relay (ch.others u.name) = (ch.expireAndSettle now).1.relay := by
  have hsession : ∃ x ∈ ch.users, x.isSession u.name u.addr = true :=
    ⟨u, hu, isSession_iff.mpr ⟨rfl, rfl⟩⟩
  obtain ⟨husers, hrelay⟩ := disconnect_of_session hn hsession
  have hpass : (processChannelHeartbeat now s c ch).1.company =
      (ch.others u.name, (ch.expireAndSettle now).1.relay) := by
    change ((ch.expireAndSettle now).1.users, (ch.expireAndSettle now).1.relay) = _
    rw [expireAndSettle_users, survivors_of_one hn hu hexp hfresh]
  unfold LeavingAgrees
  rw [(handleDisconnectMessage_spec s c u.name u.addr st).1, if_pos ⟨rfl, rfl⟩,
    (handlePeerTimeout_spec s c u.name st).1, if_pos ⟨rfl, rfl⟩, hch, hpass]
  simp only [Option.map_some, Channel.company, Channel.peerTimeout, husers, hrelay,
    removePeer_users, removePeer_relay, Option.some.injEq, Prod.mk.injEq, true_and]

end Leaving

/-- **When the ways of leaving agree** on who is left in the channel and who is on
record, for a channel that has nobody on record or a member that can be the
relay: the users are always the same, the relay in the cases of
`Channel.LeavesAlike`. -/
theorem leaving_agrees_iff (now : Instant) (st : ServerMap) (s c : Token) (ch : Channel) (u : User)
    (hch : st.channel? s c = some ch) (hn : ch.WellNamed)
    (hrelay : ∀ r, ch.relay = some r → ∃ v ∈ ch.users, v.name = r ∧ v.needsServerRelay = false)
    (hu : u ∈ ch.users) (hexp : u.expired now = true)
    (hfresh : ∀ v ∈ ch.users, v ≠ u → v.expired now = false) :
    LeavingAgrees now st s c ch u ↔ ch.LeavesAlike u := by
  obtain ⟨hsingle, hseveral⟩ := expireAndSettle_relay_of_one hn hu hexp hfresh
  rw [leavingAgrees_iff_relay hch hn hu hexp hfresh]
  have hnotNone : ch.relay = some u.name → ch.relay ≠ none := fun hr => by
    rw [hr]
    exact Option.some_ne_none _
  unfold Channel.LeavesAlike
  rcases ho : ch.others u.name with _ | ⟨v, _ | ⟨w, rest⟩⟩
  · -- nobody is left: a report does not clear the relay that has gone
    rw [hseveral (by rw [ho]; decide), ho]
    by_cases hr : ch.relay = some u.name
    · rw [if_pos hr, if_pos hr]
      refine iff_of_false (fun h => hnotNone hr h.2) fun h => ?_
      obtain ⟨v, hv, -⟩ := h.1 hr
      exact List.cons_ne_nil _ _ hv.symm
    · rw [if_neg hr, if_neg hr]
      exact iff_of_true ⟨rfl, rfl⟩ ⟨fun h => absurd h hr, fun _ => by decide⟩
  · -- one is left: the pass alone looks whether it can be the relay
    rw [hsingle v ho]
    by_cases hr : ch.relay = some u.name
    · rw [if_pos hr]
      cases hneeds : v.needsServerRelay with
      | true =>
          refine iff_of_false (fun h => Option.some_ne_none _ h.2) fun h => ?_
          obtain ⟨w, hw, hwneeds⟩ := h.1 hr
          rw [← (List.cons.inj hw).1, hneeds] at hwneeds
          exact Bool.false_ne_true hwneeds.symm
      | false =>
          exact iff_of_true ⟨rfl, rfl⟩ ⟨fun _ => ⟨v, rfl, hneeds⟩, fun h => absurd h (hnotNone hr)⟩
    · rw [if_neg hr]
      cases hrecord : ch.relay with
      | none =>
          refine iff_of_false (fun h => ?_) fun h => h.2 rfl rfl
          exact Option.some_ne_none v.name (h.2.trans h.1.symm)
      | some r =>
          -- whoever is on record can only be the one that is left
          obtain ⟨w, hw, rfl, hwneeds⟩ := hrelay r hrecord
          have hmem : w ∈ ch.others u.name :=
            mem_others.mpr ⟨hw, fun h => hr (hrecord.trans (congrArg some h))⟩
          rw [ho, List.mem_singleton] at hmem
          rw [hmem] at hwneeds hrecord ⊢
          rw [hwneeds]
          exact iff_of_true ⟨rfl, rfl⟩
            ⟨fun h => absurd (hrecord.trans h) hr, fun h => absurd h (Option.some_ne_none _)⟩
  · -- several are left: a report does not replace the relay that has gone
    have hlen : (v :: w :: rest).length ≠ 1 := fun h => Nat.succ_ne_zero _ (Nat.succ.inj h)
    rw [hseveral (by rwa [ho]), ho]
    by_cases hr : ch.relay = some u.name
    · rw [if_pos hr, if_pos hr]
      refine iff_of_false (fun h => ?_) fun h => ?_
      · obtain ⟨x, hx, hname⟩ := Option.map_eq_some_iff.mp (h.2.symm.trans hr)
        have hmem := List.mem_of_find?_eq_some hx
        rw [← ho] at hmem
        exact (mem_others.mp hmem).2 hname
      · obtain ⟨x, hx, -⟩ := h.1 hr
        exact List.cons_ne_nil _ _ (List.cons.inj hx).2
    · rw [if_neg hr, if_neg hr]
      exact iff_of_true ⟨rfl, rfl⟩ ⟨fun h => absurd h hr, fun _ => hlen⟩

/-- Bob, who is not the relay, leaves Ann, who is. -/
theorem leaving_agrees_bob :
    let ann : User :=
      ⟨1, ⟨"ann".toList, by decide⟩, .v4 ⟨10, 0, 0, 1⟩ 4000, 50 * 10 ^ 9, false, .cone⟩
    let bob : User := ⟨2, ⟨"bob".toList, by decide⟩, .v4 ⟨10, 0, 0, 2⟩ 4000, 0, false, .cone⟩
    let s : Token := ⟨"s".toList, by decide⟩
    let c : Token := ⟨"c".toList, by decide⟩
    let ch : Channel := ⟨7, 3, [ann, bob], some ann.name⟩
    LeavingAgrees (50 * 10 ^ 9) (AList.singleton s (AList.singleton c ch)) s c ch bob := by
  intro ann bob s c ch
  have hne : ch.relay ≠ some bob.name := by decide
  refine (leaving_agrees_iff (50 * 10 ^ 9) _ s c ch bob (by decide +kernel) ?_ ?_
    (List.mem_cons_of_mem _ List.mem_cons_self) (by decide) (by decide)).mpr
      ⟨fun h => absurd h hne, fun h => absurd h (Option.some_ne_none _)⟩
  · unfold Channel.WellNamed
    decide
  · intro r hr
    exact ⟨ann, List.mem_cons_self, Option.some.inj hr, rfl⟩

/-- Ann, the relay of three, is reported as gone: she stays on record. -/
theorem leaving_differs_ann :
    ¬ ∀ (now : Instant) (st : ServerMap) (s c : Token) (ch : Channel) (u : User),
      st.channel? s c = some ch → (ch.users.map User.name).Nodup →
      (ch.users.map User.addr).Nodup →
      (∀ r, ch.relay = some r → ∃ v ∈ ch.users, v.name = r ∧ v.eligible = true) →
      u ∈ ch.users → u.expired now = true →
      (∀ v ∈ ch.users, v ≠ u → v.expired now = false) →
      LeavingAgrees now st s c ch u := by
  intro h
  let s : Token := ⟨"s".toList, by decide⟩
  let c : Token := ⟨"c".toList, by decide⟩
  let ann : User := ⟨1, ⟨"ann".toList, by decide⟩, .v4 ⟨10, 0, 0, 1⟩ 4000, 0, false, .cone⟩
  let bob : User :=
    ⟨2, ⟨"bob".toList, by decide⟩, .v4 ⟨10, 0, 0, 2⟩ 4000, 50 * 10 ^ 9, false, .cone⟩
  let dan : User :=
    ⟨3, ⟨"dan".toList, by decide⟩, .v4 ⟨10, 0, 0, 3⟩ 4000, 50 * 10 ^ 9, false, .cone⟩
  let ch : Channel := ⟨7, 4, [ann, bob, dan], some ann.name⟩
  let st : ServerMap := AList.singleton s (AList.singleton c ch)
  have hagrees := h (50 * 10 ^ 9) st s c ch ann (by decide +kernel) (by decide) (by decide)
    (fun r hr => ⟨ann, List.mem_cons_self, Option.some.inj hr, rfl⟩) List.mem_cons_self
    (by decide) (by decide)
  have hrelay := congrArg (Option.map Prod.snd) hagrees.2
  revert hrelay
  decide +kernel

end NatPiercer.Signaling
