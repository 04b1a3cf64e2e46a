/-
# `System.Settled` — what the clients know when a channel is set up

After any setup, what a member's client keeps fits the channel.  It sends
through the server exactly if its user needs that.  Its table holds other
members, each marked as needing the server exactly if it does.  Of two
members that know each other, one is a relay; a relay is on record, or needs
the server by now.  The one on record reaches everybody who does not need the
server, and mirrors as soon as somebody else does; and everybody who does not
need the server, and is not on record itself, knows the one that is.

`Fits` is these together, for one member; `settled_step` is the step of the
induction.
-/
import NatPiercer.Signaling.Membership
import NatPiercer.System.Lines
import NatPiercer.System.Party

namespace NatPiercer.System

open Text Utf8 Net Proto LockProg Signaling Client

/-- The client of the member `u` fits the channel. -/
structure Fits (ch : Channel) (clients : SocketAddr → Client) (u : User) : Prop where
  user : (clients u.addr).user = u.name.text
  viaServer : (clients u.addr).sendViaServer = u.needsServerRelay
  listed : Listed ch.users u.name (clients u.addr).peers
  edge : ∀ a ∈ (clients u.addr).table,
    (clients u.addr).isRelay = true ∨ (clients a).isRelay = true
  acting : (clients u.addr).isRelay = true → ch.relay = some u.name ∨ u.needsServerRelay = true
  recorded : ch.relay = some u.name → (clients u.addr).isRelay = true
  reaches : ch.relay = some u.name → ∀ v ∈ ch.users, v.name ≠ u.name →
    v.needsServerRelay = false → v.addr ∈ (clients u.addr).table
  mirrors : ch.relay = some u.name → ∀ v ∈ ch.users, v.name ≠ u.name →
    v.needsServerRelay = true → (clients u.addr).channelHasServerRelays = true
  spared : u.needsServerRelay = false → ch.relay ≠ some u.name →
    ∃ r ∈ ch.users, ch.relay = some r.name ∧ r.addr ∈ (clients u.addr).table

/-! ## An election -/

/-- The client of `u` before an election. -/
structure Ready (ch : Channel) (clients : SocketAddr → Client) (u : User) : Prop where
  user : (clients u.addr).user = u.name.text
  viaServer : u.needsServerRelay = false → (clients u.addr).sendViaServer = false
  listed : Listed ch.users u.name (clients u.addr).peers
  edge : ∀ a ∈ (clients u.addr).table,
    (clients u.addr).isRelay = true ∨ (clients a).isRelay = true
  acting : (clients u.addr).isRelay = true →
    electedName ch.users = some u.name ∨ u.needsServerRelay = true
  recorded : ch.relay = some u.name → (clients u.addr).isRelay = true

section Elect
variable {ch : Channel} {clients clients' : SocketAddr → Client} {now : Instant} {r x : User}

theorem linesTo_none (hpick : pickEligibleRelay ch = none) :
    linesTo ch x = ch.users.map fun y => .serverRelay y.name := by
  rw [linesTo, hpick]

theorem linesTo_elected (hpick : pickEligibleRelay ch = some r) (hx : x.name = r.name) :
    linesTo ch x = directs (relayPeers r ch.users) ++ ((if ch.changes r then [.relay] else []) ++
      (symmetricPeers r ch.users).map fun y => .serverRelay y.name) := by
  rw [linesTo, hpick]
  exact if_pos hx

theorem linesTo_needing (hpick : pickEligibleRelay ch = some r) (hx : x.name ≠ r.name)
    (hneeds : x.needsServerRelay = true) : linesTo ch x = [.serverRelay x.name] := by
  rw [linesTo, hpick]
  exact (if_neg hx).trans (if_pos hneeds)

theorem linesTo_reached (hpick : pickEligibleRelay ch = some r) (hx : x.name ≠ r.name)
    (hneeds : x.needsServerRelay = false) : linesTo ch x = [.direct r.name r.addr] := by
  rw [linesTo, hpick]
  exact (if_neg hx).trans (if_neg (by rw [hneeds]; exact Bool.false_ne_true))

theorem needs_of_pick (hpick : pickEligibleRelay ch = some r) :
    r ∈ ch.users ∧ r.needsServerRelay = false := by
  refine ⟨List.mem_of_find?_eq_some hpick, ?_⟩
  have helig := List.find?_some hpick
  rw [User.eligible, Bool.and_eq_true] at helig
  simpa using helig.1

theorem mem_directs {users : List User} {l : ControlLine} :
    l ∈ directs users ↔ ∃ y ∈ users, .direct y.name y.addr = l := List.mem_map

/-- An election says nothing false. -/
theorem allTrue_linesTo (hn : ch.WellNamed)
    (hsym : ∀ u ∈ ch.users, u.natKind = .symmetric → u.needsServerRelay = true) (x : User)
    (hx : x ∈ ch.users) : AllTrue ch.users (linesTo ch x) := by
  have hserver : ∀ y ∈ ch.users, y.needsServerRelay = true →
      ControlLine.TrueOf ch.users (.serverRelay y.name) := by
    intro y hy hneeds v hv hname
    rw [hn.eq_of_name hv hy hname]
    exact hneeds
  intro l hl
  cases hpick : pickEligibleRelay ch with
  | none =>
      rw [linesTo_none hpick] at hl
      obtain ⟨y, hy, rfl⟩ := List.mem_map.mp hl
      refine hserver y hy ?_
      have hnot := List.find?_eq_none.mp hpick y hy
      rw [eligible_eq (hsym y hy)] at hnot
      simpa using hnot
  | some r =>
      obtain ⟨hr, hrneeds⟩ := needs_of_pick hpick
      by_cases hxr : x.name = r.name
      · rw [linesTo_elected hpick hxr, List.mem_append, List.mem_append] at hl
        rcases hl with hl | hl | hl
        · obtain ⟨y, hy, rfl⟩ := mem_directs.mp hl
          obtain ⟨hmem, -, hneeds⟩ := mem_relayPeers.mp hy
          exact ⟨y, hmem, rfl, rfl, hneeds⟩
        · split_ifs at hl
          · rw [List.mem_singleton.mp hl]
            trivial
          · exact absurd hl List.not_mem_nil
        · obtain ⟨y, hy, rfl⟩ := List.mem_map.mp hl
          obtain ⟨hmem, -, hneeds⟩ := mem_symmetricPeers.mp hy
          exact hserver y hmem hneeds
      · cases hneeds : x.needsServerRelay with
        | true =>
            rw [linesTo_needing hpick hxr hneeds] at hl
            rw [List.mem_singleton.mp hl]
            exact hserver x hx hneeds
        | false =>
            rw [linesTo_reached hpick hxr hneeds] at hl
            rw [List.mem_singleton.mp hl]
            exact ⟨r, hr, rfl, rfl, hrneeds⟩

/-- The clients of a channel, before and after they hear of an election. -/
structure Heard (ch : Channel) (clients clients' : SocketAddr → Client) (now : Instant) : Prop where
  wellNamed : ch.WellNamed
  readable : ∀ v ∈ ch.users, Readable v.addr
  symmetric : ∀ u ∈ ch.users, u.natKind = .symmetric → u.needsServerRelay = true
  ready : ∀ u ∈ ch.users, Ready ch clients u
  lines : ∀ u ∈ ch.users, clients' u.addr = (linesTo ch u).foldl (heed now) (clients u.addr)

theorem Heard.user (h : Heard ch clients clients' now) (hx : x ∈ ch.users) :
    (clients' x.addr).user = x.name.text := by
  rw [h.lines x hx, foldl_heed_user, (h.ready x hx).user]

theorem Heard.listed (h : Heard ch clients clients' now) (hx : x ∈ ch.users) :
    Listed ch.users x.name (clients' x.addr).peers := by
  rw [h.lines x hx]
  exact foldl_listed h.readable (h.ready x hx).user (h.ready x hx).listed
    (allTrue_linesTo h.wellNamed h.symmetric x hx)

theorem Heard.acts (h : Heard ch clients clients' now) (hx : x ∈ ch.users) :
    (clients' x.addr).isRelay = true ↔
      (clients x.addr).isRelay = true ∨ .relay ∈ linesTo ch x := by
  rw [h.lines x hx, foldl_heed_isRelay]

/-- Those that knew each other before still do; the others are introduced by a
line. -/
theorem Heard.edge (h : Heard ch clients clients' now) (hx : x ∈ ch.users)
    (hline : ∀ n a, .direct n a ∈ linesTo ch x →
      (clients' x.addr).isRelay = true ∨ (clients' a).isRelay = true) :
    ∀ a ∈ (clients' x.addr).table,
      (clients' x.addr).isRelay = true ∨ (clients' a).isRelay = true := by
  intro a ha
  rw [h.lines x hx] at ha
  rcases mem_foldl_table h.readable (allTrue_linesTo h.wellNamed h.symmetric x hx) ha with
    ha | ⟨n, hn⟩
  · obtain ⟨v, hv, rfl, -⟩ := (h.ready x hx).listed.mem ha
    rcases (h.ready x hx).edge _ ha with hacts | hacts
    · exact Or.inl ((h.acts hx).mpr (Or.inl hacts))
    · exact Or.inr ((h.acts hv).mpr (Or.inl hacts))
  · exact hline n a hn

/-- Nobody can be the relay: everybody needs the server, and has been told so. -/
theorem Heard.fits_none (h : Heard ch clients clients' now) (hpick : pickEligibleRelay ch = none)
    (hx : x ∈ ch.users) : Fits ch.elect.1 clients' x := by
  have hneeds : ∀ u ∈ ch.users, u.needsServerRelay = true := by
    intro u hu
    have hnot := List.find?_eq_none.mp hpick u hu
    rw [eligible_eq (h.symmetric u hu)] at hnot
    simpa using hnot
  have hrelay : ch.elect.1.relay ≠ some x.name := by
    rw [elect_relay, electedName, show ch.users.find? User.eligible = none from hpick]
    exact (Option.some_ne_none x.name).symm
  have hlines : linesTo ch x = ch.users.map fun y => .serverRelay y.name := linesTo_none hpick
  have honly : ∀ l ∈ linesTo ch x, ∃ n, l = .serverRelay n := by
    rw [hlines]
    intro l hl
    obtain ⟨y, -, rfl⟩ := List.mem_map.mp hl
    exact ⟨y.name, rfl⟩
  refine ⟨h.user hx, ?_, ?_, ?_, fun _ => Or.inr (hneeds x hx), fun hr => absurd hr hrelay,
    fun hr => absurd hr hrelay, fun hr => absurd hr hrelay, fun hspared => ?_⟩
  · rw [h.lines x hx, hneeds x hx]
    refine foldl_heed_viaServer (h.ready x hx).user (fun hl => ?_) (Or.inr ?_)
    · obtain ⟨n, hn⟩ := honly _ hl
      exact absurd hn (by simp)
    · rw [hlines]
      exact List.mem_map.mpr ⟨x, hx, rfl⟩
  · rw [elect_users]
    exact h.listed hx
  · refine h.edge hx fun n a hl => ?_
    obtain ⟨m, hm⟩ := honly _ hl
    exact absurd hm (by simp)
  · rw [hneeds x hx] at hspared
    exact absurd hspared.symm Bool.false_ne_true

theorem relay_of_pick (hpick : pickEligibleRelay ch = some r) :
    ch.elect.1.relay = some r.name := by
  rw [elect_relay, electedName, show ch.users.find? User.eligible = some r from hpick]
  rfl

/-- The elected relay acts: it did, or is called now. -/
theorem Heard.relay_acts (h : Heard ch clients clients' now)
    (hpick : pickEligibleRelay ch = some r) : (clients' r.addr).isRelay = true := by
  obtain ⟨hr, -⟩ := needs_of_pick hpick
  refine (h.acts hr).mpr ?_
  by_cases hc : ch.changes r
  · refine Or.inr ?_
    rw [linesTo_elected hpick rfl, if_pos hc]
    exact List.mem_append_right _ (List.mem_append_left _ (List.mem_singleton_self _))
  · exact Or.inl ((h.ready r hr).recorded (not_not.mp hc))

/-- The elected relay is introduced to everybody who does not need the server,
and hears, once it is the relay, of everybody who does. -/
theorem Heard.fits_elected (h : Heard ch clients clients' now)
    (hpick : pickEligibleRelay ch = some x) : Fits ch.elect.1 clients' x := by
  obtain ⟨hx, hxneeds⟩ := needs_of_pick hpick
  have hrelay := relay_of_pick hpick
  have hacts := h.relay_acts hpick
  have htrue := allTrue_linesTo h.wellNamed h.symmetric x hx
  have hlines : linesTo ch x = _ := linesTo_elected hpick rfl
  refine ⟨h.user hx, ?_, ?_, h.edge hx fun _ _ _ => Or.inl hacts, fun _ => Or.inl hrelay,
    fun _ => hacts, fun _ v hv hne hneeds => ?_, fun _ v hv hne hneeds => ?_,
    fun _ hnot => absurd hrelay hnot⟩
  · rw [h.lines x hx, hxneeds]
    refine foldl_heed_not_viaServer (h.ready x hx).user ((h.ready x hx).viaServer hxneeds) ?_
    intro hl
    rw [hlines, List.mem_append, List.mem_append] at hl
    rcases hl with hl | hl | hl
    · obtain ⟨y, -, hy⟩ := mem_directs.mp hl
      exact absurd hy (by simp)
    · split_ifs at hl
      · exact absurd (List.mem_singleton.mp hl) (by simp)
      · exact absurd hl List.not_mem_nil
    · obtain ⟨y, hy, hname⟩ := List.mem_map.mp hl
      exact (mem_symmetricPeers.mp hy).2.1 (ControlLine.serverRelay.inj hname)
  · rw [elect_users]
    exact h.listed hx
  · rw [elect_users] at hv
    rw [h.lines x hx]
    refine foldl_direct_mem h.readable htrue hv ?_ ?_
    · rw [(h.ready x hx).user]
      exact fun heq => hne (Token.ext heq)
    · rw [hlines]
      exact List.mem_append_left _
        (mem_directs.mpr ⟨v, mem_relayPeers.mpr ⟨hv, hne, hneeds⟩, rfl⟩)
  · rw [elect_users] at hv
    rw [h.lines x hx, hlines, List.foldl_append, List.foldl_append]
    refine foldl_heed_mirrored (n := v.name) ?_ ?_
      (List.mem_map.mpr ⟨v, mem_symmetricPeers.mpr ⟨hv, hne, hneeds⟩, rfl⟩)
    · rw [foldl_heed_isRelay, foldl_heed_isRelay]
      by_cases hc : ch.changes x
      · rw [if_pos hc]
        exact Or.inr (List.mem_singleton_self _)
      · exact Or.inl (Or.inl ((h.ready x hx).recorded (not_not.mp hc)))
    · rw [foldl_heed_user, foldl_heed_user, (h.ready x hx).user]
      exact fun heq => hne (Token.ext heq)

/-- The others are introduced to the relay, or told that the server relays for
them. -/
theorem Heard.fits_unelected (h : Heard ch clients clients' now)
    (hpick : pickEligibleRelay ch = some r) (hx : x ∈ ch.users) (hxr : x.name ≠ r.name) :
    Fits ch.elect.1 clients' x := by
  obtain ⟨hr, -⟩ := needs_of_pick hpick
  have hrelay := relay_of_pick hpick
  have hnot : ch.elect.1.relay ≠ some x.name := by
    rw [hrelay]
    exact fun heq => hxr (Option.some.inj heq).symm
  have hacting : (clients' x.addr).isRelay = true →
      .relay ∉ linesTo ch x → x.needsServerRelay = true := by
    intro hacts hl
    rcases (h.ready x hx).acting (((h.acts hx).mp hacts).resolve_right hl) with helected | hneeds
    · rw [← elect_relay] at helected
      exact absurd helected hnot
    · exact hneeds
  cases hneeds : x.needsServerRelay with
  | true =>
      have hlines := linesTo_needing hpick hxr hneeds
      refine ⟨h.user hx, ?_, ?_, h.edge hx fun n a hl => ?_, fun _ => Or.inr hneeds,
        fun heq => absurd heq hnot, fun heq => absurd heq hnot, fun heq => absurd heq hnot,
        fun hspared => ?_⟩
      · rw [h.lines x hx, hlines, hneeds]
        exact foldl_heed_viaServer (h.ready x hx).user (by simp) (Or.inr List.mem_cons_self)
      · rw [elect_users]
        exact h.listed hx
      · rw [hlines] at hl
        exact absurd (List.mem_singleton.mp hl) (by simp)
      · rw [hneeds] at hspared
        exact absurd hspared.symm Bool.false_ne_true
  | false =>
      have hlines := linesTo_reached hpick hxr hneeds
      have hl : .direct r.name r.addr ∈ linesTo ch x := hlines ▸ List.mem_cons_self
      refine ⟨h.user hx, ?_, ?_, h.edge hx fun n a hl => ?_, fun hacts => ?_,
        fun heq => absurd heq hnot, fun heq => absurd heq hnot, fun heq => absurd heq hnot,
        fun _ _ => ⟨r, ?_, hrelay, ?_⟩⟩
      · rw [h.lines x hx, hneeds, hlines]
        exact foldl_heed_not_viaServer (h.ready x hx).user ((h.ready x hx).viaServer hneeds)
          (by simp)
      · rw [elect_users]
        exact h.listed hx
      · rw [hlines] at hl
        obtain ⟨-, rfl⟩ := ControlLine.direct.inj (List.mem_singleton.mp hl)
        exact Or.inr (h.relay_acts hpick)
      · exact Or.inr (hacting hacts (by rw [hlines]; simp))
      · rw [elect_users]
        exact hr
      · rw [h.lines x hx]
        refine foldl_direct_mem h.readable (allTrue_linesTo h.wellNamed h.symmetric x hx) hr ?_ hl
        rw [(h.ready x hx).user]
        exact fun heq => hxr (Token.ext heq).symm

theorem Heard.fits (h : Heard ch clients clients' now) (hx : x ∈ ch.users) :
    Fits ch.elect.1 clients' x := by
  cases hpick : pickEligibleRelay ch with
  | none => exact h.fits_none hpick hx
  | some r =>
      by_cases hxr : x.name = r.name
      · rw [h.wellNamed.eq_of_name hx (needs_of_pick hpick).1 hxr]
        exact h.fits_elected hpick
      · exact h.fits_unelected hpick hx hxr

end Elect

/-! ## The other messages -/

section Others
variable {ch ch' : Channel} {clients clients' : SocketAddr → Client} {u x : User} {n : Token}

theorem listed_standing {users users' : List User} {peers : List PeerInfo}
    (hst : users'.map User.standing = users.map User.standing) (h : Listed users n peers) :
    Listed users' n peers := by
  refine ⟨h.apart, fun p hp => ?_⟩
  obtain ⟨v, hv, haddr, hname, hneeds, hne⟩ := h.known p hp
  have hmem : v.standing ∈ users'.map User.standing := hst ▸ List.mem_map_of_mem hv
  obtain ⟨w, hw, hwv⟩ := List.mem_map.mp hmem
  simp only [User.standing, Prod.mk.injEq] at hwv
  exact ⟨w, hw, hwv.2.1.trans haddr, hwv.1.trans hname, hwv.2.2.1.trans hneeds,
    fun heq => hne (hwv.1 ▸ heq)⟩

/-- Hearing of a member again changes nothing. -/
theorem fits_standing (hst : SameStanding ch ch') (h : ∀ u ∈ ch.users, Fits ch clients u)
    (hx : x ∈ ch'.users) : Fits ch' clients x := by
  have hback : ∀ y ∈ ch'.users, ∃ z ∈ ch.users, z.name = y.name ∧ z.addr = y.addr ∧
      z.needsServerRelay = y.needsServerRelay := by
    intro y hy
    obtain ⟨z, hz, hzy⟩ := hst.user hy
    exact ⟨z, hz, hzy.1, hzy.2.1, hzy.2.2.1⟩
  obtain ⟨y, hy, hname, haddr, hneeds⟩ := hback x hx
  have hf := h y hy
  refine ⟨?_, ?_, ?_, ?_, ?_, ?_, ?_, ?_, ?_⟩
  · rw [← haddr, ← hname, hf.user]
  · rw [← haddr, ← hneeds, hf.viaServer]
  · rw [← haddr, ← hname]
    exact listed_standing hst.1 hf.listed
  · rw [← haddr]
    exact hf.edge
  · rw [← haddr, ← hneeds, ← hname, hst.2]
    exact hf.acting
  · rw [← haddr, ← hname, hst.2]
    exact hf.recorded
  · rw [← haddr, ← hname, hst.2]
    intro hr v hv hne hvneeds
    obtain ⟨w, hw, hwname, hwaddr, hwneeds⟩ := hback v hv
    rw [← hwaddr]
    exact hf.reaches hr w hw (hwname ▸ hne) (hwneeds.trans hvneeds)
  · rw [← haddr, ← hname, hst.2]
    intro hr v hv hne hvneeds
    obtain ⟨w, hw, hwname, -, hwneeds⟩ := hback v hv
    exact hf.mirrors hr w hw (hwname ▸ hne) (hwneeds.trans hvneeds)
  · rw [← haddr, ← hname, ← hneeds, hst.2]
    intro hspared hr
    obtain ⟨r, hr, hrelay, hmem⟩ := hf.spared hspared hr
    obtain ⟨r', hr', hrr⟩ := hst.symm.user hr
    exact ⟨r', hr', hrr.1 ▸ hrelay, hrr.2.1 ▸ hmem⟩

/-- The first member: it is the relay, or it is told that the server relays for
it. -/
theorem fits_lone (now : Instant) (hch : ch.users = [u])
    (hrelay : ch.relay = if u.needsServerRelay then none else some u.name)
    (hclient : clients u.addr = heed now (.fresh u.name.text)
      (if u.needsServerRelay then .serverRelay u.name else .relay)) : Fits ch clients u := by
  have hothers : ∀ v ∈ ch.users, v.name = u.name := fun v hv => by
    rw [hch] at hv
    rw [List.mem_singleton.mp hv]
  have hpeers : (clients u.addr).peers = [] := by
    rw [hclient, heed_peers]
    split_ifs
    · exact congrArg Client.peers (if_pos (rfl : u.name.text = (Client.fresh u.name.text).user))
    · rfl
  have hacts : (clients u.addr).isRelay = !u.needsServerRelay := by
    rw [hclient, (heed_flags _ _ _).2.1]
    cases u.needsServerRelay <;> rfl
  refine ⟨?_, ?_, ?_, ?_, ?_, ?_, ?_, ?_, ?_⟩
  · rw [hclient, (heed_flags _ _ _).1]
    rfl
  · rw [hclient, heed_sendViaServer]
    cases u.needsServerRelay <;> simp [Client.fresh]
  · rw [hpeers]
    exact listed_nil _ _
  · rw [table, hpeers]
    exact fun _ ha => absurd ha List.not_mem_nil
  · rw [hacts, hrelay]
    cases u.needsServerRelay <;> simp
  · rw [hacts, hrelay]
    cases u.needsServerRelay <;> simp
  · exact fun _ v hv hne _ => absurd (hothers v hv) hne
  · exact fun _ v hv hne _ => absurd (hothers v hv) hne
  · intro hspared hr
    rw [hrelay, hspared] at hr
    exact absurd rfl hr

/-- Everybody is told that the server relays for `n`. -/
theorem fits_requestRelay (now : Instant) (hn : ch.WellNamed)
    (h : ∀ u ∈ ch.users, Fits ch clients u)
    (hclients : ∀ u ∈ ch.users, clients' u.addr = (clients u.addr).heed now (.serverRelay n))
    (hx : x ∈ (ch.requestRelay n).users) : Fits (ch.requestRelay n) clients' x := by
  have husers := requestRelay_users (n := n) hn
  have hback : ∀ y ∈ (ch.requestRelay n).users, ∃ z ∈ ch.users, z.name = y.name ∧
      z.addr = y.addr ∧ y.needsServerRelay = (z.needsServerRelay || decide (z.name = n)) := by
    rw [husers]
    intro y hy
    obtain ⟨z, hz, rfl⟩ := List.mem_map.mp hy
    refine ⟨z, hz, ?_⟩
    split_ifs with hzn <;> simp [hzn]
  have htable : ∀ me : Client, (me.heed now (.serverRelay n)).table = me.table := fun me =>
    heed_table now me _ fun _ _ hl => absurd hl (by simp)
  have hacts : ∀ y ∈ ch.users, (clients' y.addr).isRelay = (clients y.addr).isRelay := by
    intro y hy
    rw [hclients y hy, (heed_flags _ _ _).2.1]
    exact Bool.or_false _
  obtain ⟨y, hy, hname, haddr, hneeds⟩ := hback x hx
  have hf := h y hy
  have hspares : ∀ {v w : User}, w.needsServerRelay = (v.needsServerRelay || decide (v.name = n)) →
      w.needsServerRelay = false → v.needsServerRelay = false := fun hvw hw =>
    (Bool.or_eq_false_iff.mp (hvw ▸ hw)).1
  refine ⟨?_, ?_, ?_, ?_, ?_, ?_, ?_, ?_, ?_⟩
  · rw [← haddr, ← hname, hclients y hy, (heed_flags _ _ _).1, hf.user]
  · rw [← haddr, hneeds, hclients y hy, heed_sendViaServer, hf.viaServer, hf.user]
    have htext : decide (n.text = y.name.text) = decide (y.name = n) :=
      decide_eq_decide.mpr ⟨fun heq => (Token.ext heq).symm, fun heq => heq ▸ rfl⟩
    rw [← htext]
  · rw [← haddr, ← hname, hclients y hy, husers]
    exact listed_requested hn hf.user hf.listed n
  · rw [← haddr, hacts y hy]
    intro a ha
    rw [hclients y hy, htable] at ha
    obtain ⟨v, hv, rfl, -⟩ := hf.listed.mem ha
    rw [hacts v hv]
    exact hf.edge _ ha
  · rw [← haddr, ← hname, hacts y hy, hneeds]
    intro hact
    rcases hf.acting hact with hr | hyneeds
    · exact Or.inl hr
    · exact Or.inr (by rw [hyneeds, Bool.true_or])
  · rw [← haddr, ← hname, hacts y hy]
    exact hf.recorded
  · rw [← haddr, ← hname, hclients y hy, htable]
    intro hr v hv hne hspared
    obtain ⟨w, hw, hwname, hwaddr, hwneeds⟩ := hback v hv
    rw [← hwaddr]
    exact hf.reaches hr w hw (hwname ▸ hne) (hspares hwneeds hspared)
  · rw [← haddr, ← hname, hclients y hy]
    intro hr v hv hne hvneeds
    obtain ⟨w, hw, hwname, -, hwneeds⟩ := hback v hv
    rw [(heed_flags _ _ _).2.2, Bool.or_eq_true]
    rw [hwneeds, Bool.or_eq_true] at hvneeds
    rcases hvneeds with hvneeds | hwn
    · exact Or.inl (hf.mirrors hr w hw (hwname ▸ hne) hvneeds)
    · -- `w` comes to need the server now, and the relay hears of it
      have hne' : n.text ≠ y.name.text := fun heq =>
        hne (hwname ▸ (of_decide_eq_true hwn).trans (Token.ext heq))
      refine Or.inr ?_
      rw [hf.recorded hr, hf.user]
      simp [ControlLine.mirrored, hne']
  · rw [← haddr, ← hname, hclients y hy, htable]
    intro hspared hr
    obtain ⟨r, hrmem, hrelay, hin⟩ := hf.spared (hspares hneeds hspared) hr
    refine ⟨if r.name = n then { r with needsServerRelay := true } else r, ?_, ?_, ?_⟩
    · rw [husers]
      exact List.mem_map_of_mem hrmem
    · split_ifs <;> exact hrelay
    · split_ifs <;> exact hin

end Others

/-! ## Along a setup -/

/-- What holds when a channel has been set up. -/
structure Settled (party : Party) (o : Joint) : Prop where
  only : ∀ s c ch, o.map.channel? s c = some ch → s = party.serverId ∧ c = party.channelName
  home : party.directory.AtHome o.map
  order : (party.channel o).InOrder
  present : (party.channel o).RelayPresent
  fresh : ∀ a, (∀ u ∈ (party.channel o).users, u.addr ≠ a) → o.clients a = party.init.clients a
  fits : ∀ u ∈ (party.channel o).users, Fits (party.channel o) o.clients u

section Run
variable {party : Party} {o : Joint} {u : User}

theorem settled_init (party : Party) : Settled party party.init where
  only _ _ _ h := absurd h (by simp [Party.init, ServerMap.channel?])
  home _ _ _ _ h := absurd h (by simp [Party.init, ServerMap.channel?])
  order := inOrder_default
  present _ h :=
    absurd h (by simp [Party.channel, Party.init, ServerMap.channel?, Channel.default])
  fresh _ _ := rfl
  fits _ hu := absurd hu (by simp [Party.channel, Party.init, ServerMap.channel?, Channel.default])

/-- Members are where the party says. -/
theorem Settled.name (h : Settled party o) (hu : u ∈ (party.channel o).users) :
    party.name u.addr = some u.name := by
  have hhome := atHome_default h.home u hu
  obtain ⟨n, hn, heq⟩ := Option.map_eq_some_iff.mp hhome
  simp only [Prod.mk.injEq, true_and] at heq
  rw [hn, heq]

/-- Whoever is not a member yet has heard nothing. -/
theorem Settled.newcomer {src : SocketAddr} {n : Token} (h : Settled party o)
    (hsrc : party.name src = some n) (hnot : ∀ v ∈ (party.channel o).users, v.name ≠ n) :
    o.clients src = .fresh n.text := by
  have haway : ∀ v ∈ (party.channel o).users, v.addr ≠ src := by
    intro v hv haddr
    have hname := h.name hv
    rw [haddr, hsrc, Option.some.injEq] at hname
    exact hnot v hv hname.symm
  rw [h.fresh src haway]
  change Client.fresh ((party.name src).elim [] Token.text) = _
  rw [hsrc]
  rfl

theorem readable_of_name {a : SocketAddr} {n : Token} (h : party.name a = some n) : Readable a := by
  obtain ⟨ip, port, rfl⟩ := party.ipv4 h
  exact fromStr_toText_v4 ip port

theorem nodup_addr {users : List User} (hn : (users.map User.name).Nodup)
    (hname : ∀ u ∈ users, party.name u.addr = some u.name) : (users.map User.addr).Nodup := by
  refine List.Nodup.map_on (fun u hu v hv huv => ?_) (List.Nodup.of_map _ hn)
  have heq := hname u hu
  rw [huv, hname v hv, Option.some.injEq] at heq
  exact List.inj_on_of_nodup_map hn hu hv heq.symm

/-- A client makes of a step what it makes of the lines for it. -/
theorem clients_step {l : party.Setup} {a : SocketAddr} {ls : List ControlLine}
    (h : Utters party.server a (o.map.sent l.1) ls) :
    (party.step o l).clients a = ls.foldl (heed (now l.1)) (o.clients a) := by
  rw [Party.step, step_clients]
  exact h _ _

theorem only_step (h : Settled party o) (l : party.Setup) : ∀ s c ch,
    (party.step o l).map.channel? s c = some ch → s = party.serverId ∧ c = party.channelName := by
  intro s c ch hch
  by_contra hne
  have hnone : o.map.channel? s c = none := by
    cases ho : o.map.channel? s c with
    | none => rfl
    | some ch => exact absurd (h.only s c ch ho) hne
  have hkind := party.kind l
  rw [Party.step, step_map, channel?_step, hnone] at hch
  cases hkind with
  | connect hl hreq hsrc =>
      rw [hl, ServerStep.effect, hreq, Request.effect, if_neg hne] at hch
      split_ifs at hch
      all_goals exact absurd hch (Option.some_ne_none ch).symm
  | requestRelay hl hreq =>
      rw [hl, ServerStep.effect, hreq, Request.effect, if_neg hne] at hch
      exact absurd hch (Option.some_ne_none ch).symm

/-- Whoever is not a member hears nothing. -/
theorem fresh_step {l : party.Setup} (h : Settled party o)
    (hkept : ∀ u ∈ (party.channel o).users, ∃ v ∈ (party.channel (party.step o l)).users,
      v.addr = u.addr)
    (hquiet : ∀ a, (∀ u ∈ (party.channel (party.step o l)).users, u.addr ≠ a) →
      Utters party.server a (o.map.sent l.1) []) :
    ∀ a, (∀ u ∈ (party.channel (party.step o l)).users, u.addr ≠ a) →
      (party.step o l).clients a = party.init.clients a := by
  intro a ha
  rw [clients_step (hquiet a ha)]
  refine h.fresh a fun u hu => ?_
  obtain ⟨v, hv, hvu⟩ := hkept u hu
  exact hvu ▸ ha v hv

section Connect
variable {l : party.Setup} {amb : Ambient} {n : Token} {nat : Signaling.NatKind} {src : SocketAddr}

/-- The election that a newcomer causes is heard of by everybody. -/
theorem heard_joined (h : Settled party o) (hsrc : party.name src = some n)
    (hnew : ∀ x ∈ (party.channel o).users, x.isSession n src = false)
    (hothers : (party.channel o).others n = (party.channel o).users)
    (hsent : ∃ cid pid, o.map.sent l.1 =
      welcome src cid pid :: ((party.channel o).joined amb n nat src).elect.2) :
    Heard ((party.channel o).joined amb n nat src) o.clients (party.step o l).clients
      (now l.1) := by
  have husers := joined_users amb nat hnew
  have hnames : ∀ u ∈ ((party.channel o).joined amb n nat src).users,
      party.name u.addr = some u.name := by
    intro u hu
    rw [husers, hothers] at hu
    rcases List.mem_append.mp hu with hu | hu
    · exact h.name hu
    · rw [List.mem_singleton.mp hu]
      exact hsrc
  have hnot : ∀ u ∈ (party.channel o).users, u.name ≠ n := fun u hu =>
    (mem_others.mp (hothers.symm ▸ hu)).2
  have hwell : ((party.channel o).joined amb n nat src).WellNamed := by
    rw [Channel.WellNamed, husers, hothers, List.map_append, List.map_cons, List.map_nil,
      newUser_name]
    have hnodup := List.Nodup.concat (fun hmem => by
      obtain ⟨u, hu, hun⟩ := List.mem_map.mp hmem
      exact hnot u hu hun) h.order.wellNamed
    rwa [List.concat_eq_append] at hnodup
  refine ⟨hwell, fun v hv => readable_of_name (hnames v hv),
    symmetric_joined amb nat hnew h.order.symmetric, fun u hu => ?_, fun u hu => ?_⟩
  · rw [husers, hothers] at hu
    rcases List.mem_append.mp hu with hmem | hmem
    · have hf := h.fits u hmem
      refine ⟨hf.user, fun hneeds => hf.viaServer.trans hneeds, ⟨hf.listed.apart, fun p hp => ?_⟩,
        hf.edge, fun hacts => ?_, fun hr => hf.recorded (joined_relay ▸ hr)⟩
      · obtain ⟨v, hv, hvp⟩ := hf.listed.known p hp
        exact ⟨v, by rw [husers, hothers]; exact List.mem_append_left _ hv, hvp⟩
      · cases hneeds : u.needsServerRelay with
        | true => exact Or.inr rfl
        | false =>
            have hr := (hf.acting hacts).resolve_right (by rw [hneeds]; exact Bool.false_ne_true)
            exact Or.inl (electedName_joined amb nat h.order hnew
              (mem_others.mp (hothers ▸ hmem)).2 hmem hr hneeds)
    · rw [List.mem_singleton] at hmem
      have hclient : o.clients u.addr = .fresh u.name.text := by
        rw [hmem, newUser_addr, newUser_name]
        exact h.newcomer hsrc hnot
      refine ⟨?_, fun _ => ?_, ?_, ?_, fun hacts => ?_, fun hr => ?_⟩
      · rw [hclient]
        rfl
      · rw [hclient]
        rfl
      · rw [hclient]
        exact listed_nil _ _
      · rw [hclient]
        exact fun a ha => absurd ha List.not_mem_nil
      · rw [hclient] at hacts
        exact absurd hacts Bool.false_ne_true
      · rw [joined_relay, hmem, newUser_name] at hr
        obtain ⟨v, hv, hvn⟩ := h.present n hr
        exact absurd hvn (hnot v hv)
  · obtain ⟨cid, pid, hsent⟩ := hsent
    refine clients_step ?_
    rw [hsent, ← List.nil_append (linesTo _ u)]
    exact (utters_welcome src cid pid).append (utters_elect (nodup_addr hwell hnames) hwell hu)

/-- What the clients are to be after a step. -/
def FitsAfter (party : Party) (o : Joint) : Prop :=
  (∀ a, (∀ u ∈ (party.channel o).users, u.addr ≠ a) → o.clients a = party.init.clients a) ∧
    ∀ u ∈ (party.channel o).users, Fits (party.channel o) o.clients u

/-- The first `CONNECT` of all. -/
theorem fits_first (h : Settled party o) (hsrc : party.name src = some n)
    (hempty : (party.channel o).users = [])
    (hchannel : party.channel (party.step o l) = ((party.channel o).connect amb n nat src).1)
    (hsent : o.map.sent l.1 = ((party.channel o).connect amb n nat src).2) :
    FitsAfter party (party.step o l) := by
  have hnone : ∀ v, v ∉ (party.channel o).users := fun v hv => by
    rw [hempty] at hv
    exact absurd hv List.not_mem_nil
  have hrelay : (party.channel o).relay = none := by
    cases hr : (party.channel o).relay with
    | none => rfl
    | some m =>
        obtain ⟨v, hv, -⟩ := h.present m hr
        exact absurd hv (hnone v)
  obtain ⟨husers, hrelay', cid, pid, hsent'⟩ := connect_lone amb nat
    (fun x hx => absurd hx (hnone x)) (List.filter_eq_nil_iff.mpr fun x hx => absurd hx (hnone x))
  rw [hrelay] at hrelay' hsent'
  rw [hsent', if_pos rfl] at hsent
  rw [← hchannel] at husers hrelay'
  -- the one line for the newcomer
  have hline : Utters party.server src (o.map.sent l.1)
      [if nat = .symmetric then .serverRelay n else .relay] := by
    have hself : Utters party.server src
        [tell src (if nat = .symmetric then modeServerRelay n else modeRelay)]
        [if nat = .symmetric then .serverRelay n else .relay] := by
      split_ifs
      · have hself := utters_tell party.server src src (.serverRelay n)
        rwa [if_pos rfl] at hself
      · have hself := utters_tell party.server src src .relay
        rwa [if_pos rfl] at hself
    have hboth := hself.append (utters_welcome src cid pid)
    rwa [List.append_nil, ← hsent] at hboth
  refine ⟨fresh_step h (fun u hu => absurd hu (hnone u)) fun a ha => ?_, fun u hu => ?_⟩
  · have haway : src ≠ a := ha _ (husers ▸ List.mem_singleton_self _)
    intro now me
    rw [hsent, List.filter_eq_nil_iff.mpr]
    · rfl
    · intro d hd
      rcases List.mem_append.mp hd with hd | hd
      all_goals
        rw [List.mem_singleton.mp hd]
        exact fun hdst => haway (of_decide_eq_true hdst)
  · rw [husers] at hu
    obtain rfl := List.mem_singleton.mp hu
    refine fits_lone (now l.1) husers ?_ ?_
    · rw [hrelay', newUser_needs, newUser_name]
      by_cases hsym : nat = .symmetric <;> simp [hsym]
    · rw [newUser_addr, newUser_name, clients_step hline,
        h.newcomer hsrc fun v hv => absurd hv (hnone v), newUser_needs]
      simp only [decide_eq_true_eq]
      rfl

/-- A `CONNECT` leaves the clients fitting. -/
theorem fits_connect (h : Settled party o) (hsrc : party.name src = some n)
    (hchannel : party.channel (party.step o l) = ((party.channel o).connect amb n nat src).1)
    (hsent : o.map.sent l.1 = ((party.channel o).connect amb n nat src).2) :
    FitsAfter party (party.step o l) := by
  have hhome : party.directory.home src = some (party.serverId, party.channelName, n) :=
    congrArg (Option.map _) hsrc
  by_cases hsess : ∃ x ∈ (party.channel o).users, x.isSession n src = true
  · obtain ⟨hst, cid, pid, hwelcome⟩ := connect_of_session amb nat hsess
    have hsame : (party.step o l).clients = o.clients := funext fun a => by
      have hnothing : Utters party.server a (o.map.sent l.1) [] := by
        rw [hsent, hwelcome]
        exact utters_welcome src cid pid
      exact clients_step hnothing
    unfold FitsAfter
    rw [hchannel, hsame]
    refine ⟨fun a ha => h.fresh a fun u hu => ?_, fun u hu => fits_standing hst h.fits hu⟩
    obtain ⟨v, hv, hvu⟩ := hst.symm.user hu
    exact hvu.2.1 ▸ ha v hv
  · have hnew : ∀ x ∈ (party.channel o).users, x.isSession n src = false := fun x hx => by
      simpa using fun hx' => hsess ⟨x, hx, hx'⟩
    have hothers : (party.channel o).others n = (party.channel o).users :=
      others_eq_users hhome (atHome_default h.home) hnew
    by_cases hnone : (party.channel o).others n = []
    · exact fits_first h hsrc (hothers ▸ hnone) hchannel hsent
    · obtain ⟨helect, cid, pid, hsent'⟩ := connect_elect amb nat hnew hnone
      rw [hsent'] at hsent
      rw [helect] at hchannel
      have husers : (party.channel (party.step o l)).users =
          ((party.channel o).joined amb n nat src).users := by
        rw [hchannel, elect_users]
      have hheard := heard_joined (l := l) h hsrc hnew hothers ⟨cid, pid, hsent⟩
      refine ⟨fresh_step h (fun u hu => ⟨u, ?_, rfl⟩) fun a ha => ?_, fun u hu => ?_⟩
      · rw [husers, joined_users amb nat hnew, hothers]
        exact List.mem_append_left _ hu
      · rw [hsent]
        exact (utters_welcome src cid pid).append (utters_elect_none fun u hu =>
          ha u (husers ▸ hu))
      · rw [hchannel]
        exact hheard.fits (husers ▸ hu)

/-- So does a `REQUEST_RELAY`. -/
theorem fits_request (h : Settled party o)
    (hchannel : party.channel (party.step o l) = (party.channel o).requestRelay n)
    (hsent : o.map.sent l.1 = (party.channel o).relayRequested n) :
    FitsAfter party (party.step o l) := by
  have husers := requestRelay_users (n := n) h.order.wellNamed
  have haddrs : ((party.channel o).requestRelay n).users.map User.addr =
      (party.channel o).users.map User.addr := by
    rw [husers, List.map_map]
    refine List.map_congr_left fun u _ => ?_
    rw [Function.comp_apply]
    split_ifs <;> rfl
  have hmem : ∀ u ∈ (party.channel o).users, ∃ v ∈ ((party.channel o).requestRelay n).users,
      v.addr = u.addr := fun u hu => by
    have haddr : u.addr ∈ (party.channel o).users.map User.addr := List.mem_map_of_mem hu
    rw [← haddrs] at haddr
    exact List.mem_map.mp haddr
  have hnodup : (((party.channel o).requestRelay n).users.map User.addr).Nodup :=
    haddrs ▸ nodup_addr h.order.wellNamed fun u hu => h.name hu
  refine ⟨fresh_step h (fun u hu => hchannel ▸ hmem u hu) fun a ha => ?_, fun u hu => ?_⟩
  · rw [hsent]
    exact utters_none User.addr (fun u hu => ha u (hchannel ▸ hu)) fun _ => .serverRelay n
  · rw [hchannel] at hu ⊢
    refine fits_requestRelay (now l.1) h.order.wellNamed h.fits (fun v hv => ?_) hu
    obtain ⟨w, hw, hwv⟩ := hmem v hv
    have heach : Utters party.server w.addr (o.map.sent l.1) [.serverRelay n] := by
      rw [hsent]
      exact utters_each hnodup hw fun _ => .serverRelay n
    rw [hwv] at heach
    exact clients_step heach

end Connect

/-- **A step of the setup keeps everything fitting.** -/
theorem settled_step (h : Settled party o) (l : party.Setup) : Settled party (party.step o l) := by
  have hhome : party.directory.AtHome (party.step o l).map := by
    rw [Party.step, step_map]
    exact atHome_step h.home (party.admits_directory l)
  have hkind := party.kind l
  cases hkind with
  | connect hl hreq hsrc =>
      obtain ⟨hchannel, hsent⟩ := step_connect (o := o) hl hreq
      obtain ⟨hfresh, hfits⟩ := fits_connect h hsrc hchannel hsent
      refine ⟨only_step h l, hhome, ?_, ?_, hfresh, hfits⟩
      · rw [hchannel]
        exact inOrder_connect h.order _ _
      · rw [hchannel]
        exact relayPresent_connect h.present _ _
  | requestRelay hl hreq =>
      obtain ⟨hchannel, hsent⟩ := step_requestRelay (o := o) hl hreq
      obtain ⟨hfresh, hfits⟩ := fits_request h hchannel hsent
      refine ⟨only_step h l, hhome, ?_, ?_, hfresh, hfits⟩
      · rw [hchannel]
        exact inOrder_requestRelay h.order
      · rw [hchannel]
        exact relayPresent_requestRelay h.present

/-- After every setup. -/
theorem settled_after (party : Party) (ls : List party.Setup) :
    Settled party (after party.step party.init ls) :=
  after_of_always _ _ (always_of_step (fun _ l h => settled_step h l) ls (settled_init party))

end Run

end NatPiercer.System
