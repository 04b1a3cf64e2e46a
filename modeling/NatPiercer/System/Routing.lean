/-
# `System.Routing` — who sends a line on, and to whom

Three pieces of code decide where a line of a member's goes: the client it is
typed at, a client that relays, and the server.  Here is what each of them
comes to, in a channel that has been set up, in terms of the members: which
tables they are in, and who needs the server.
-/
import NatPiercer.System.Delivery
import NatPiercer.System.Settled

namespace NatPiercer.System

open Text Utf8 Net Proto LockProg Signaling Client

/-- The other members that need the server. -/
def needing (ch : Channel) (u : User) : List User :=
  ch.users.filter fun v => v.name ≠ u.name && v.needsServerRelay

/-- `v` is in the table of `w`. -/
def Knows (o : Joint) (w v : User) : Prop := v.addr ∈ (o.clients w.addr).table

instance (o : Joint) (w v : User) : Decidable (Knows o w v) :=
  inferInstanceAs (Decidable (_ ∈ _))

/-- `w` acts as a relay. -/
def Acts (o : Joint) (w : User) : Prop := (o.clients w.addr).isRelay = true

instance (o : Joint) (w : User) : Decidable (Acts o w) := inferInstanceAs (Decidable (_ = _))

section Members
variable {party : Party} {o : Joint} {u v w r : User} {a : SocketAddr}

theorem mem_needing {ch : Channel} : v ∈ needing ch u ↔
    v ∈ ch.users ∧ v.name ≠ u.name ∧ v.needsServerRelay = true := by
  simp [needing]

theorem Settled.addr_ne_server (h : Settled party o) (hv : v ∈ (party.channel o).users) :
    v.addr ≠ party.server := by
  intro heq
  have hname := h.name hv
  rw [heq, party.elsewhere] at hname
  exact absurd hname (Option.some_ne_none _).symm

theorem Settled.nodup (h : Settled party o) : ((party.channel o).users.map User.addr).Nodup :=
  nodup_addr h.order.wellNamed fun _ hu => h.name hu

theorem Settled.eq_of_addr (h : Settled party o) (hv : v ∈ (party.channel o).users)
    (hw : w ∈ (party.channel o).users) (hvw : v.addr = w.addr) : v = w :=
  List.inj_on_of_nodup_map h.nodup hv hw hvw

theorem Settled.eq_of_name (h : Settled party o) (hv : v ∈ (party.channel o).users)
    (hw : w ∈ (party.channel o).users) (hvw : v.name = w.name) : v = w :=
  h.order.wellNamed.eq_of_name hv hw hvw

theorem Settled.addr_ne (h : Settled party o) (hv : v ∈ (party.channel o).users)
    (hw : w ∈ (party.channel o).users) (hvw : v.name ≠ w.name) : v.addr ≠ w.addr := fun heq =>
  hvw (by rw [h.eq_of_addr hv hw heq])

/-- The tables list members, and nobody lists itself. -/
theorem Settled.ne_of_knows (h : Settled party o) (hw : w ∈ (party.channel o).users)
    (hv : v ∈ (party.channel o).users) (hk : Knows o w v) : v.name ≠ w.name := by
  obtain ⟨x, hx, hxv, hne, -⟩ := (h.fits w hw).listed.mem hk
  rwa [h.eq_of_addr hx hv hxv] at hne

/-- A member that acts, and is not on record, needs the server. -/
theorem Settled.needs_of_acts (h : Settled party o) (hw : w ∈ (party.channel o).users)
    (hacts : Acts o w) (hr : (party.channel o).relay ≠ some w.name) :
    w.needsServerRelay = true :=
  ((h.fits w hw).acting hacts).resolve_left hr

/-! ## At a client -/

theorem mem_listed (h : Settled party o) (hw : w ∈ (party.channel o).users)
    (hv : v ∈ (party.channel o).users) {p : PeerInfo → Bool} {q : Prop}
    (hpq : ∀ x ∈ (o.clients w.addr).peers, x.username = v.name →
      x.useServerRelay = v.needsServerRelay → (p x = true ↔ q)) :
    v.addr ∈ ((o.clients w.addr).peers.filter p).map PeerInfo.addr ↔ Knows o w v ∧ q := by
  have hknown := (h.fits w hw).listed.known
  have hentry : ∀ x ∈ (o.clients w.addr).peers, x.addr = v.addr →
      x.username = v.name ∧ x.useServerRelay = v.needsServerRelay := by
    intro x hx hxv
    obtain ⟨y, hy, haddr, hname, hneeds, -⟩ := hknown x hx
    rw [h.eq_of_addr hy hv (haddr.trans hxv)] at hname hneeds
    exact ⟨hname.symm, hneeds.symm⟩
  rw [List.mem_map]
  constructor
  · rintro ⟨x, hx, hxv⟩
    obtain ⟨hx, hpx⟩ := List.mem_filter.mp hx
    obtain ⟨hname, hneeds⟩ := hentry x hx hxv
    exact ⟨List.mem_map.mpr ⟨x, hx, hxv⟩, (hpq x hx hname hneeds).mp hpx⟩
  · rintro ⟨hk, hq⟩
    obtain ⟨x, hx, hxv⟩ := List.mem_map.mp hk
    obtain ⟨hname, hneeds⟩ := hentry x hx hxv
    exact ⟨x, List.mem_filter.mpr ⟨hx, (hpq x hx hname hneeds).mpr hq⟩, hxv⟩

/-- Whoever is in a table is a member. -/
theorem listed_member (h : Settled party o) (hw : w ∈ (party.channel o).users)
    {p : PeerInfo → Bool} (ha : a ∈ ((o.clients w.addr).peers.filter p).map PeerInfo.addr) :
    ∃ v ∈ (party.channel o).users, v.addr = a ∧ v.name ≠ w.name ∧ Knows o w v := by
  have hk := (List.filter_sublist.map PeerInfo.addr).subset ha
  obtain ⟨v, hv, rfl, hne, -⟩ := (h.fits w hw).listed.mem hk
  exact ⟨v, hv, rfl, hne, hk⟩

theorem nodup_listed (h : Settled party o) (hw : w ∈ (party.channel o).users)
    (p : PeerInfo → Bool) :
    (((o.clients w.addr).peers.filter p).map PeerInfo.addr).Nodup :=
  (h.fits w hw).listed.apart.sublist (List.filter_sublist.map PeerInfo.addr)

/-- Nobody is in a table twice. -/
theorem count_listed (h : Settled party o) (hw : w ∈ (party.channel o).users)
    (hv : v ∈ (party.channel o).users) {p : PeerInfo → Bool} {q : Prop} [Decidable q]
    (hpq : ∀ x ∈ (o.clients w.addr).peers, x.username = v.name →
      x.useServerRelay = v.needsServerRelay → (p x = true ↔ q)) :
    (((o.clients w.addr).peers.filter p).map PeerInfo.addr).count v.addr =
      if Knows o w v ∧ q then 1 else 0 := by
  have hmem := mem_listed h hw hv hpq
  split_ifs with hk
  · exact List.count_eq_one_of_mem (nodup_listed h hw p) (hmem.mpr hk)
  · exact List.count_eq_zero.mpr fun hin => hk (hmem.mp hin)

/-- Whom `w` sends a line of `u`'s on to: members that it knows, `u` aside, and
the server, if it mirrors. -/
theorem mem_relayed (h : Settled party o) (hw : w ∈ (party.channel o).users)
    (hv : v ∈ (party.channel o).users) :
    v.addr ∈ (o.clients w.addr).relayed party.server u.name ↔
      Acts o w ∧ Knows o w v ∧ v.name ≠ u.name := by
  have hlisted := mem_listed h hw hv (p := fun x => decide (x.username ≠ u.name))
    (q := v.name ≠ u.name) fun x _ hx _ => by simp [hx]
  unfold Client.relayed Acts
  split_ifs with hacts hmirrors
  · rw [List.mem_append, List.mem_singleton, hlisted]
    simp [hacts, h.addr_ne_server hv]
  · rw [List.append_nil, hlisted]
    simp [hacts]
  · simp [hacts]

theorem count_relayed (h : Settled party o) (hw : w ∈ (party.channel o).users)
    (hv : v ∈ (party.channel o).users) :
    ((o.clients w.addr).relayed party.server u.name).count v.addr =
      if Acts o w ∧ Knows o w v ∧ v.name ≠ u.name then 1 else 0 := by
  split_ifs with hmem
  · refine List.count_eq_one_of_mem ?_ ((mem_relayed h hw hv).mpr hmem)
    have hnodup := nodup_listed h hw fun x => x.username ≠ u.name
    unfold Client.relayed
    split_ifs
    · refine List.Nodup.append hnodup (List.nodup_singleton _) fun b hb hserver => ?_
      obtain ⟨x, hx, rfl⟩ := List.mem_map.mp hb
      obtain ⟨y, hy, haddr, -⟩ := (h.fits w hw).listed.known x (List.mem_filter.mp hx).1
      exact h.addr_ne_server hy (haddr.trans (List.mem_singleton.mp hserver))
    · rwa [List.append_nil]
    · exact List.nodup_nil
  · exact List.count_eq_zero.mpr fun hin => hmem ((mem_relayed h hw hv).mp hin)

/-- And whoever is sent a line on is one or the other. -/
theorem relayed_cases (h : Settled party o) (hw : w ∈ (party.channel o).users)
    (ha : a ∈ (o.clients w.addr).relayed party.server u.name) :
    Acts o w ∧ (a = party.server ∨
      ∃ v ∈ (party.channel o).users, a = v.addr ∧ Knows o w v ∧ v.name ≠ u.name) := by
  unfold Client.relayed at ha
  by_cases hacts : (o.clients w.addr).isRelay = true
  · refine ⟨hacts, ?_⟩
    rw [if_pos hacts] at ha
    rcases List.mem_append.mp ha with ha | ha
    · obtain ⟨x, hx, rfl⟩ := List.mem_map.mp ha
      obtain ⟨hx, hne⟩ := List.mem_filter.mp hx
      obtain ⟨v, hv, haddr, hname, -⟩ := (h.fits w hw).listed.known x hx
      refine Or.inr ⟨v, hv, haddr.symm, List.mem_map.mpr ⟨x, hx, haddr.symm⟩, ?_⟩
      rw [hname]
      exact of_decide_eq_true hne
    · split_ifs at ha
      · exact Or.inl (List.mem_singleton.mp ha)
      · exact absurd ha List.not_mem_nil
  · rw [if_neg hacts] at ha
    exact absurd ha List.not_mem_nil

theorem server_mem_relayed (hacts : Acts o w)
    (hmirrors : (o.clients w.addr).channelHasServerRelays = true) :
    party.server ∈ (o.clients w.addr).relayed party.server u.name := by
  unfold Client.relayed
  rw [if_pos (show (o.clients w.addr).isRelay = true from hacts), if_pos hmirrors]
  exact List.mem_append_right _ (List.mem_singleton_self _)

/-- A client that does not act sends nothing on. -/
theorem relayed_of_not_acts (hacts : ¬ Acts o w) :
    (o.clients w.addr).relayed party.server u.name = [] := if_neg hacts

/-! ## At the server -/

/-- There is no other channel that the server could pass a line on in. -/
theorem forwarded_eq (h : Settled party o) (hu : u ∈ (party.channel o).users) (n : Token)
    (a : SocketAddr) :
    forwarded o.map n a = ((party.channel o).forwardData n.text a).getD [] := by
  obtain ⟨ch, hch⟩ : ∃ ch, o.map.channel? party.serverId party.channelName = some ch := by
    cases hch : o.map.channel? party.serverId party.channelName with
    | some ch => exact ⟨ch, rfl⟩
    | none =>
        rw [Party.channel, hch] at hu
        exact absurd hu List.not_mem_nil
  have hchannel : party.channel o = ch := by
    rw [Party.channel, hch]
    rfl
  have hall : ∀ x ∈ o.map.channels, x = (party.serverId, party.channelName, ch) := by
    rintro ⟨s, c, ch'⟩ hx
    have hx := ServerMap.mem_channels_iff.mp hx
    obtain ⟨rfl, rfl⟩ := h.only s c ch' hx
    rw [hch, Option.some.injEq] at hx
    rw [hx]
  have hmem := ServerMap.mem_channels_iff.mpr hch
  rw [hchannel, forwarded]
  congr 1
  cases hfound : o.map.channels.findSome? fun x => x.2.2.forwardData n.text a with
  | none => exact (List.findSome?_eq_none_iff.mp hfound _ hmem).symm
  | some dsts =>
      obtain ⟨x, hx, hdsts⟩ := List.exists_of_findSome?_eq_some hfound
      rw [hall x hx] at hdsts
      exact hdsts.symm

theorem find?_relay (h : Settled party o) (hr : r ∈ (party.channel o).users)
    (hrelay : (party.channel o).relay = some r.name) :
    ((party.channel o).relay.bind fun n => (party.channel o).users.find? fun v => v.name = n) =
      some r := by
  rw [hrelay, Option.bind_some]
  cases hfind : (party.channel o).users.find? fun v => v.name = r.name with
  | none => exact absurd (List.find?_eq_none.mp hfind r hr) (by simp)
  | some v =>
      have hname := List.find?_some hfind
      rw [h.eq_of_name (List.mem_of_find?_eq_some hfind) hr (of_decide_eq_true hname)]

/-- Whoever is on record is a member. -/
theorem Settled.relay_mem (h : Settled party o) {n : Token}
    (hrelay : (party.channel o).relay = some n) :
    ∃ r ∈ (party.channel o).users, (party.channel o).relay = some r.name := by
  obtain ⟨r, hr, rfl⟩ := h.present n hrelay
  exact ⟨r, hr, hrelay⟩

theorem map_needing : (((party.channel o).users.filter fun peer =>
    !decide (peer.name.text = u.name.text) && peer.needsServerRelay).map User.addr) =
      (needing (party.channel o) u).map User.addr := by
  unfold needing
  congr 2
  funext v
  have htext : v.name.text = u.name.text ↔ v.name = u.name := ⟨Token.ext, congrArg Token.text⟩
  simp [htext]

/-- From the relay on record, the line goes to those that need the server. -/
theorem forwarded_relay (h : Settled party o) (hr : r ∈ (party.channel o).users)
    (hrelay : (party.channel o).relay = some r.name) :
    forwarded o.map u.name r.addr = (needing (party.channel o) u).map User.addr := by
  rw [forwarded_eq h hr, Channel.forwardData, find?_relay h hr hrelay]
  rw [if_pos (by simp), Option.getD_some, map_needing]

/-- Whoever the relay on record is, it is somewhere else. -/
theorem relay_elsewhere (h : Settled party o) (hv : v ∈ (party.channel o).users)
    (hrelay : (party.channel o).relay ≠ some v.name) :
    (((party.channel o).relay.bind fun n =>
      (party.channel o).users.find? fun w => w.name = n).any fun r => r.addr = v.addr) = false := by
  cases hr : (party.channel o).relay with
  | none => rfl
  | some n =>
      obtain ⟨r, hr', hrelay'⟩ := h.relay_mem hr
      rw [← hr, find?_relay h hr' hrelay', Option.any_some, decide_eq_false_iff_not]
      intro heq
      rw [h.eq_of_addr hr' hv heq] at hrelay'
      exact hrelay hrelay'

/-- From a sender that needs the server, and is not on record, the line goes to
all the others. -/
theorem forwarded_sender (h : Settled party o) (hu : u ∈ (party.channel o).users)
    (hneeds : u.needsServerRelay = true) (hrelay : (party.channel o).relay ≠ some u.name) :
    forwarded o.map u.name u.addr = ((party.channel o).others u.name).map User.addr := by
  have hfind : (party.channel o).users.find?
      (fun v => decide (v.addr = u.addr ∧ v.name.text = u.name.text)) = some u := by
    cases hfind : (party.channel o).users.find?
        (fun v => decide (v.addr = u.addr ∧ v.name.text = u.name.text)) with
    | none => exact absurd (List.find?_eq_none.mp hfind u hu) (by simp)
    | some v =>
        have hsame := List.find?_some hfind
        simp only [decide_eq_true_eq] at hsame
        rw [h.eq_of_addr (List.mem_of_find?_eq_some hfind) hu hsame.1]
  have hothers : (party.channel o).users.filter (fun peer => peer.addr ≠ u.addr) =
      (party.channel o).others u.name :=
    List.filter_congr fun v hv => decide_eq_decide.mpr (not_congr
      ⟨fun heq => by rw [h.eq_of_addr hv hu heq], fun heq => by rw [h.eq_of_name hv hu heq]⟩)
  rw [forwarded_eq h hu, Channel.forwardData, relay_elsewhere h hu hrelay, hfind]
  dsimp only
  rw [if_neg Bool.false_ne_true, if_neg hrelay, if_pos hneeds, Option.getD_some, hothers]

/-- From anybody else, it goes nowhere. -/
theorem forwarded_other (h : Settled party o) (hv : v ∈ (party.channel o).users)
    (hvu : v.name ≠ u.name) (hrelay : (party.channel o).relay ≠ some v.name) :
    forwarded o.map u.name v.addr = [] := by
  have hfind : (party.channel o).users.find?
      (fun w => decide (w.addr = v.addr ∧ w.name.text = u.name.text)) = none := by
    refine List.find?_eq_none.mpr fun w hw hsame => ?_
    obtain ⟨haddr, htext⟩ := of_decide_eq_true hsame
    rw [h.eq_of_addr hw hv haddr] at htext
    exact hvu (Token.ext htext)
  rw [forwarded_eq h hv, Channel.forwardData, relay_elsewhere h hv hrelay, hfind]
  dsimp only
  rw [if_neg Bool.false_ne_true]
  rfl

/-! ## At the sender -/

theorem addressed_needing (h : Settled party o) (hu : u ∈ (party.channel o).users)
    (hneeds : u.needsServerRelay = true) :
    (o.clients u.addr).addressed party.server = [party.server] := by
  rw [addressed, (h.fits u hu).viaServer, if_pos hneeds]

/-- A sender that does not need the server: those in its table that do not, and
the server, if it is a relay and mirrors. -/
theorem addressed_direct (h : Settled party o) (hu : u ∈ (party.channel o).users)
    (hneeds : u.needsServerRelay = false) :
    (o.clients u.addr).addressed party.server =
      ((o.clients u.addr).peers.filter fun p => !p.useServerRelay).map PeerInfo.addr ++
        if (o.clients u.addr).isRelay && (o.clients u.addr).channelHasServerRelays then
          [party.server] else [] := by
  rw [addressed, (h.fits u hu).viaServer, hneeds, if_neg Bool.false_ne_true]

theorem mem_unmarked (h : Settled party o) (hu : u ∈ (party.channel o).users)
    (hv : v ∈ (party.channel o).users) :
    v.addr ∈ ((o.clients u.addr).peers.filter fun p => !p.useServerRelay).map PeerInfo.addr ↔
      Knows o u v ∧ v.needsServerRelay = false :=
  mem_listed h hu hv fun x _ _ hx => by simp [hx]

end Members

end NatPiercer.System
