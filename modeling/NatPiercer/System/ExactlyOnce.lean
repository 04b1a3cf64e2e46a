/-
# `System.ExactlyOnce` — does a line come to each member once?

Somebody is set up as a relay and stays one: nothing that a client hears makes
it stop.  A relay sends a line on to its whole table, whoever else has got the
line already.  So a line comes twice to some member unless the tables of the
relays that it reaches happen to hold nobody who gets it otherwise.

Which relays it reaches, and who gets it otherwise, depends on whether the
sender needs the server and on whether it is the relay on record; `CameOnce`
says in each of the four cases what the tables have to be.  After every setup
that is exactly when each other member receives the line once
(`exactlyOnce_iff`).
-/
import NatPiercer.System.Routing

namespace NatPiercer.System

open Text Utf8 Net Proto LockProg Signaling Client

/-- `w` has nobody to send a line of `u`'s on to. -/
def Idle (o : Joint) (ch : Channel) (u w : User) : Prop :=
  Acts o w → ∀ v ∈ ch.users, Knows o w v → v.name = u.name

/-- What the tables have to be for a line of `u`'s. -/
def CameOnce (o : Joint) (ch : Channel) (u : User) : Prop :=
  if u.needsServerRelay then
    if ch.relay = some u.name then
      -- the server sends it to the others that need the server, and these to their tables
      ∀ v ∈ ch.users, v.name ≠ u.name →
        (ch.users.countP fun w => w.name ≠ u.name ∧ Acts o w ∧ Knows o w v) =
          if v.needsServerRelay then 0 else 1
    else
      -- the server sends it to everybody
      (ch.relay = none ∨ ∀ v ∈ ch.users, v.name ≠ u.name → v.needsServerRelay = false) ∧
        ∀ w ∈ ch.users, w.name ≠ u.name → Idle o ch u w
  else
    if ch.relay = some u.name then
      -- the relay sends it to those that do not need the server, and the server to the others
      ∀ w ∈ ch.users, w.name ≠ u.name → Idle o ch u w
    else
      -- it goes to the relay, and from there to its table and, by the server, to the others
      ∃ r ∈ ch.users, ch.relay = some r.name ∧ r.needsServerRelay = false ∧
        (∀ v ∈ ch.users, Knows o r v → v.needsServerRelay = false) ∧
        ∀ w ∈ ch.users, w.name ≠ u.name → w.name ≠ r.name → Idle o ch u w

instance (o : Joint) (ch : Channel) (u w : User) : Decidable (Idle o ch u w) :=
  inferInstanceAs (Decidable (_ → _))

instance (o : Joint) (ch : Channel) (u : User) : Decidable (CameOnce o ch u) :=
  inferInstanceAs (Decidable (ite _ _ _))

/-! ## Rounds -/

section Rounds
variable (party : Party) (o : Joint) (u : User)

/-- The hops of the `k`th round. -/
def round (k : Nat) : List Hop :=
  Flood.wave (o.onward party.server u.name) k (o.start party.server u.addr)

/-- The hops of the rounds before it. -/
def rounds (k : Nat) : List Hop :=
  Flood.waves (o.onward party.server u.name) k (o.start party.server u.addr)

/-- Some round is the last, and by then the line has come once to each of the
others, and not back. -/
def Once (k : Nat) : Prop :=
  round party o u k = [] ∧
    (∀ v ∈ (party.channel o).users, v.name ≠ u.name → arrivals v.addr (rounds party o u k) = 1) ∧
    arrivals u.addr (rounds party o u k) = 0

variable {party o u} {v w r : User} {a b : SocketAddr} {k : Nat}

theorem round_succ (k : Nat) :
    round party o u (k + 1) = (round party o u k).flatMap (o.onward party.server u.name) :=
  Flood.wave_succ k _

theorem rounds_succ (k : Nat) :
    rounds party o u (k + 1) = rounds party o u k ++ round party o u k :=
  Flood.waves_succ _ k _

theorem onward_server (n : Token) (a : SocketAddr) : o.onward party.server n (a, party.server) =
    (forwarded o.map n a).map (Prod.mk party.server) := by
  rw [Joint.onward, if_pos rfl]

theorem onward_member (h : Settled party o) (hv : v ∈ (party.channel o).users) (n : Token)
    (a : SocketAddr) : o.onward party.server n (a, v.addr) =
      ((o.clients v.addr).relayed party.server n).map (Prod.mk v.addr) := by
  rw [Joint.onward, if_neg (h.addr_ne_server hv)]

/-- A relay that the line reaches sends it on to whom it knows. -/
theorem round_knows (h : Settled party o) (hw : w ∈ (party.channel o).users)
    (hv : v ∈ (party.channel o).users) (hin : (a, w.addr) ∈ round party o u k) (hacts : Acts o w)
    (hk : Knows o w v) (hne : v.name ≠ u.name) : (w.addr, v.addr) ∈ round party o u (k + 1) := by
  rw [round_succ, List.mem_flatMap]
  refine ⟨_, hin, ?_⟩
  rw [onward_member h hw]
  exact List.mem_map_of_mem ((mem_relayed h hw hv).mpr ⟨hacts, hk, hne⟩)

theorem round_mirrors (h : Settled party o) (hw : w ∈ (party.channel o).users)
    (hin : (a, w.addr) ∈ round party o u k) (hacts : Acts o w)
    (hmirrors : (o.clients w.addr).channelHasServerRelays = true) :
    (w.addr, party.server) ∈ round party o u (k + 1) := by
  rw [round_succ, List.mem_flatMap]
  refine ⟨_, hin, ?_⟩
  rw [onward_member h hw]
  exact List.mem_map_of_mem (server_mem_relayed hacts hmirrors)

theorem round_forwarded (hin : (a, party.server) ∈ round party o u k)
    (hb : b ∈ forwarded o.map u.name a) : (party.server, b) ∈ round party o u (k + 1) := by
  rw [round_succ, List.mem_flatMap]
  refine ⟨_, hin, ?_⟩
  rw [onward_server]
  exact List.mem_map_of_mem hb

/-- A line that comes to a member once comes to it in one round. -/
theorem Once.unique (honce : Once party o u k) (hv : v ∈ (party.channel o).users)
    (hne : v.name ≠ u.name) {i j : Nat} (hi : (a, v.addr) ∈ round party o u i)
    (hj : (b, v.addr) ∈ round party o u j) : i = j :=
  Flood.wave_unique (p := fun hop : Hop => hop.2 = v.addr) honce.1
    (Nat.le_of_eq (honce.2.1 v hv hne)) hi hj (decide_eq_true rfl) (decide_eq_true rfl)

/-- So a relay that it reaches has nobody to send it on to who gets it in another
round. -/
theorem Once.idle (h : Settled party o) (honce : Once party o u k)
    (hw : w ∈ (party.channel o).users) {i : Nat} (hin : (a, w.addr) ∈ round party o u i)
    (hall : ∀ v ∈ (party.channel o).users, v.name ≠ u.name → v.name ≠ w.name →
      ∃ j b, j ≠ i + 1 ∧ (b, v.addr) ∈ round party o u j) : Idle o (party.channel o) u w := by
  intro hacts v hv hk
  by_contra hne
  obtain ⟨j, b, hj, hb⟩ := hall v hv hne (h.ne_of_knows hw hv hk)
  exact hj (honce.unique hv hne hb (round_knows h hw hv hin hacts hk hne))

/-! ## Counting -/

theorem arrivals_append (a : SocketAddr) (hs hs' : List Hop) :
    arrivals a (hs ++ hs') = arrivals a hs + arrivals a hs' := List.countP_append

theorem arrivals_map (a src : SocketAddr) (xs : List SocketAddr) :
    arrivals a (xs.map (Prod.mk src)) = xs.count a := by
  rw [arrivals, List.countP_map, List.count]
  exact List.countP_congr fun x _ => by simp

theorem arrivals_singleton (a b c : SocketAddr) : arrivals a [(b, c)] = if c = a then 1 else 0 := by
  simp [arrivals, List.countP_cons]

/-- Nothing for `a`. -/
theorem arrivals_eq_zero {hs : List Hop} (h : ∀ g ∈ hs, g.2 ≠ a) : arrivals a hs = 0 :=
  List.countP_eq_zero.mpr fun g hg heq => h g hg (of_decide_eq_true heq)

/-- One for each of the members that satisfy `p`. -/
theorem count_filter (h : Settled party o) (hv : v ∈ (party.channel o).users) (p : User → Bool) :
    (((party.channel o).users.filter p).map User.addr).count v.addr = if p v then 1 else 0 := by
  have hnodup : (((party.channel o).users.filter p).map User.addr).Nodup :=
    h.nodup.sublist (List.filter_sublist.map User.addr)
  split_ifs with hp
  · exact List.count_eq_one_of_mem hnodup (List.mem_map_of_mem (List.mem_filter.mpr ⟨hv, hp⟩))
  · refine List.count_eq_zero.mpr fun hin => hp ?_
    obtain ⟨w, hw, hwv⟩ := List.mem_map.mp hin
    obtain ⟨hw, hpw⟩ := List.mem_filter.mp hw
    rwa [← h.eq_of_addr hw hv hwv]

/-- One for each of the sources that satisfy `q`. -/
theorem countP_flatMap_ite {α β : Type} {f : α → List β} {p : β → Bool} {q : α → Prop}
    [DecidablePred q] : ∀ {xs : List α}, (∀ x ∈ xs, (f x).countP p = if q x then 1 else 0) →
      (xs.flatMap f).countP p = xs.countP fun x => decide (q x)
  | [], _ => rfl
  | x :: xs, hxs => by
      have hrest := countP_flatMap_ite fun y hy => hxs y (List.mem_cons_of_mem x hy)
      rw [List.flatMap_cons, List.countP_append, hxs x List.mem_cons_self, hrest,
        List.countP_cons, Nat.add_comm]
      simp only [decide_eq_true_eq]

/-! ## Where it stops -/

/-- When relays that have nobody to send it on to get the line, at most the server
gets it from them, and makes nothing of it. -/
theorem idle_rounds (h : Settled party o) {users : List User} (src : SocketAddr)
    (hround : round party o u k = (users.map User.addr).map (Prod.mk src))
    (husers : ∀ w ∈ users, w ∈ (party.channel o).users ∧ w.name ≠ u.name ∧
      Idle o (party.channel o) u w ∧
      ((party.channel o).relay ≠ some w.name ∨ needing (party.channel o) u = [])) :
    (∀ g ∈ round party o u (k + 1), g.2 = party.server) ∧ round party o u (k + 2) = [] := by
  have hserver : ∀ g ∈ round party o u (k + 1), ∃ w ∈ users, g = (w.addr, party.server) := by
    intro g hg
    rw [round_succ, hround, List.mem_flatMap] at hg
    obtain ⟨f, hf, hg⟩ := hg
    rw [List.map_map, List.mem_map] at hf
    obtain ⟨w, hw, rfl⟩ := hf
    obtain ⟨hmem, -, hidle, -⟩ := husers w hw
    rw [Function.comp_apply, onward_member h hmem] at hg
    obtain ⟨b, hb, rfl⟩ := List.mem_map.mp hg
    obtain ⟨hacts, rfl | ⟨v, hv, rfl, hk, hne⟩⟩ := relayed_cases h hmem hb
    · exact ⟨w, hw, rfl⟩
    · exact absurd (hidle hacts v hv hk) hne
  refine ⟨fun g hg => ?_, ?_⟩
  · obtain ⟨w, -, rfl⟩ := hserver g hg
    rfl
  · rw [round_succ, List.flatMap_eq_nil_iff]
    intro g hg
    obtain ⟨w, hw, rfl⟩ := hserver g hg
    obtain ⟨hmem, hne, -, hrelay⟩ := husers w hw
    rw [onward_server, List.map_eq_nil_iff]
    by_cases hr : (party.channel o).relay = some w.name
    · rw [forwarded_relay h hmem hr, hrelay.resolve_left (not_not.mpr hr)]
      rfl
    · exact forwarded_other h hmem hne hr

/-! ## The first rounds -/

theorem round_zero (h : Settled party o) (hu : u ∈ (party.channel o).users)
    (hneeds : u.needsServerRelay = true) : round party o u 0 = [(u.addr, party.server)] := by
  change o.start party.server u.addr = _
  rw [Joint.start, addressed_needing h hu hneeds]
  rfl

/-- The server sends it to everybody. -/
theorem round_sender (h : Settled party o) (hu : u ∈ (party.channel o).users)
    (hneeds : u.needsServerRelay = true) (hrelay : (party.channel o).relay ≠ some u.name) :
    round party o u 1 =
      (((party.channel o).others u.name).map User.addr).map (Prod.mk party.server) := by
  rw [round_succ, round_zero h hu hneeds, List.flatMap_singleton, onward_server,
    forwarded_sender h hu hneeds hrelay]

/-- The server sends it to those that need the server, for the relay needs the
server itself. -/
theorem round_relay (h : Settled party o) (hu : u ∈ (party.channel o).users)
    (hneeds : u.needsServerRelay = true) (hrelay : (party.channel o).relay = some u.name) :
    round party o u 1 =
      ((needing (party.channel o) u).map User.addr).map (Prod.mk party.server) := by
  rw [round_succ, round_zero h hu hneeds, List.flatMap_singleton, onward_server,
    forwarded_relay h hu hrelay]

/-- A member that does not need the server, and is not on record, sends nothing
on. -/
theorem relayed_spared (h : Settled party o) (hv : v ∈ (party.channel o).users)
    (hneeds : v.needsServerRelay = false) (hrelay : (party.channel o).relay ≠ some v.name) :
    (o.clients v.addr).relayed party.server u.name = [] := by
  refine relayed_of_not_acts fun hacts => ?_
  rw [h.needs_of_acts hv hacts hrelay] at hneeds
  exact Bool.false_ne_true hneeds.symm

/-- Nor do several of them. -/
theorem flatMap_spared (h : Settled party o) (src : SocketAddr) {as : List SocketAddr}
    (has : ∀ a ∈ as, ∃ v ∈ (party.channel o).users, v.addr = a ∧ v.needsServerRelay = false ∧
      (party.channel o).relay ≠ some v.name) :
    (as.map (Prod.mk src)).flatMap (o.onward party.server u.name) = [] := by
  refine List.flatMap_eq_nil_iff.mpr fun g hg => ?_
  obtain ⟨a, ha, rfl⟩ := List.mem_map.mp hg
  obtain ⟨v, hv, rfl, hneeds, hrelay⟩ := has a ha
  rw [onward_member h hv, relayed_spared h hv hneeds hrelay]
  rfl

/-- What the relay mirrors the server sends to those that need it.  If it does
not mirror, nobody does. -/
theorem flatMap_mirrored (h : Settled party o) (hr : r ∈ (party.channel o).users)
    (hneeds : r.needsServerRelay = false) (hrelay : (party.channel o).relay = some r.name) :
    ((if (o.clients r.addr).channelHasServerRelays then [party.server] else []).map
        (Prod.mk r.addr)).flatMap (o.onward party.server u.name) =
      ((needing (party.channel o) u).map User.addr).map (Prod.mk party.server) := by
  cases hmirrors : (o.clients r.addr).channelHasServerRelays with
  | true =>
      rw [if_pos rfl, List.map_singleton, List.flatMap_singleton, onward_server,
        forwarded_relay h hr hrelay]
  | false =>
      have hnone : needing (party.channel o) u = [] := by
        refine List.eq_nil_iff_forall_not_mem.mpr fun v hv => ?_
        obtain ⟨hv, -, hvneeds⟩ := mem_needing.mp hv
        have hne : v.name ≠ r.name := by
          intro heq
          rw [h.eq_of_name hv hr heq, hneeds] at hvneeds
          exact Bool.false_ne_true hvneeds
        rw [(h.fits r hr).mirrors hrelay v hv hne hvneeds] at hmirrors
        exact Bool.false_ne_true hmirrors.symm
      rw [hnone]
      rfl

/-- The relay types: the others get it from the relay, or from the server. -/
theorem round_direct (h : Settled party o) (hu : u ∈ (party.channel o).users)
    (hneeds : u.needsServerRelay = false) (hrelay : (party.channel o).relay = some u.name) :
    round party o u 1 =
      ((needing (party.channel o) u).map User.addr).map (Prod.mk party.server) := by
  rw [round_succ]
  change (o.start party.server u.addr).flatMap _ = _
  rw [Joint.start, addressed_direct h hu hneeds, List.map_append, List.flatMap_append,
    (h.fits u hu).recorded hrelay, Bool.true_and, flatMap_mirrored h hu hneeds hrelay,
    flatMap_spared h, List.nil_append]
  intro a ha
  obtain ⟨v, hv, rfl, hne, -⟩ := listed_member h hu ha
  refine ⟨v, hv, rfl, ((mem_unmarked h hu hv).mp ha).2, fun hr => hne ?_⟩
  exact Option.some.inj (hr.symm.trans hrelay)

/-- Who neither needs the server nor is on record sends to the relay, if that does
not need the server. -/
theorem round_spared (h : Settled party o) (hu : u ∈ (party.channel o).users)
    (hneeds : u.needsServerRelay = false) (hr : r ∈ (party.channel o).users)
    (hrelay : (party.channel o).relay = some r.name) (hne : r.name ≠ u.name) :
    round party o u 0 = if r.needsServerRelay then [] else [(u.addr, r.addr)] := by
  have hnot : (party.channel o).relay ≠ some u.name := by
    rw [hrelay]
    exact fun heq => hne (Option.some.inj heq)
  have hacts : (o.clients u.addr).isRelay = false := by
    refine Bool.eq_false_iff.mpr fun hacts => ?_
    rw [h.needs_of_acts hu hacts hnot] at hneeds
    exact Bool.false_ne_true hneeds.symm
  have hmem : ∀ a, a ∈ ((o.clients u.addr).peers.filter fun p => !p.useServerRelay).map
      PeerInfo.addr ↔ a = r.addr ∧ r.needsServerRelay = false := by
    intro a
    constructor
    · intro ha
      obtain ⟨v, hv, rfl, -⟩ := listed_member h hu ha
      obtain ⟨hk, hvneeds⟩ := (mem_unmarked h hu hv).mp ha
      have hvacts : Acts o v := by
        rcases (h.fits u hu).edge _ hk with hu' | hv'
        · rw [hacts] at hu'
          exact absurd hu' Bool.false_ne_true
        · exact hv'
      have hrecorded : (party.channel o).relay = some v.name := by
        by_contra hnot
        rw [h.needs_of_acts hv hvacts hnot] at hvneeds
        exact Bool.false_ne_true hvneeds.symm
      rw [← h.eq_of_name hv hr (Option.some.inj (hrecorded.symm.trans hrelay))]
      exact ⟨rfl, hvneeds⟩
    · rintro ⟨rfl, hrneeds⟩
      obtain ⟨r', hr', hrelay', hk⟩ := (h.fits u hu).spared hneeds hnot
      rw [h.eq_of_name hr' hr (Option.some.inj (hrelay'.symm.trans hrelay))] at hk
      exact (mem_unmarked h hu hr).mpr ⟨hk, hrneeds⟩
  change o.start party.server u.addr = _
  rw [Joint.start, addressed_direct h hu hneeds, hacts, Bool.false_and, if_neg Bool.false_ne_true,
    List.append_nil]
  cases hrneeds : r.needsServerRelay with
  | true =>
      rw [if_pos rfl, List.map_eq_nil_iff, List.eq_nil_iff_forall_not_mem]
      intro a ha
      rw [hmem, hrneeds] at ha
      exact Bool.false_ne_true ha.2.symm
  | false =>
      have hperm := (List.perm_ext_iff_of_nodup (nodup_listed h hu fun p => !p.useServerRelay)
        (List.nodup_singleton r.addr)).mpr fun a => by simp [hmem, hrneeds]
      rw [List.perm_singleton.mp hperm]
      rfl

/-- The relay sends it on to its table. -/
theorem round_onward (h : Settled party o) (hr : r ∈ (party.channel o).users)
    (hround : round party o u 0 = [(u.addr, r.addr)]) :
    round party o u 1 =
      ((o.clients r.addr).relayed party.server u.name).map (Prod.mk r.addr) := by
  rw [round_succ, hround, List.flatMap_singleton, onward_member h hr]

/-- And the server sends it to those that need it, for nobody else has anybody to
send it to. -/
theorem round_onward_server (h : Settled party o) (hneeds : r.needsServerRelay = false)
    (hr : r ∈ (party.channel o).users) (hrelay : (party.channel o).relay = some r.name)
    (hround : round party o u 0 = [(u.addr, r.addr)])
    (hknows : ∀ v ∈ (party.channel o).users, Knows o r v → v.needsServerRelay = false) :
    round party o u 2 =
      ((needing (party.channel o) u).map User.addr).map (Prod.mk party.server) := by
  rw [round_succ, round_onward h hr hround, Client.relayed,
    if_pos ((h.fits r hr).recorded hrelay), List.map_append, List.flatMap_append,
    flatMap_mirrored h hr hneeds hrelay, flatMap_spared h, List.nil_append]
  intro a ha
  obtain ⟨v, hv, rfl, hne, hk⟩ := listed_member h hr ha
  refine ⟨v, hv, rfl, hknows v hv hk, fun hv' => hne ?_⟩
  exact Option.some.inj (hv'.symm.trans hrelay)

/-! ## When it comes once -/

/-- Where relays that have nobody to send it on to get it, that was all. -/
theorem once_of_idle (h : Settled party o) (hu : u ∈ (party.channel o).users) {users : List User}
    (src : SocketAddr) (hround : round party o u k = (users.map User.addr).map (Prod.mk src))
    (husers : ∀ w ∈ users, w ∈ (party.channel o).users ∧ w.name ≠ u.name ∧
      Idle o (party.channel o) u w ∧
      ((party.channel o).relay ≠ some w.name ∨ needing (party.channel o) u = []))
    (hcount : ∀ v ∈ (party.channel o).users,
      arrivals v.addr (rounds party o u (k + 1)) = if v.name ≠ u.name then 1 else 0) :
    Once party o u (k + 2) := by
  obtain ⟨hserver, hend⟩ := idle_rounds h src hround husers
  have hall : ∀ v ∈ (party.channel o).users,
      arrivals v.addr (rounds party o u (k + 2)) = if v.name ≠ u.name then 1 else 0 := by
    intro v hv
    have hnone : arrivals v.addr (round party o u (k + 1)) = 0 := arrivals_eq_zero fun g hg heq =>
      h.addr_ne_server hv (heq.symm.trans (hserver g hg))
    rw [rounds_succ, arrivals_append, hnone, hcount v hv, Nat.add_zero]
  refine ⟨hend, fun v hv hne => ?_, ?_⟩
  · rw [hall v hv, if_pos hne]
  · rw [hall u hu, if_neg (not_not.mpr rfl)]

/-- The sender needs the server, and is not on record. -/
theorem once_sender (h : Settled party o) (hu : u ∈ (party.channel o).users)
    (hneeds : u.needsServerRelay = true) (hrelay : (party.channel o).relay ≠ some u.name)
    (hno : (party.channel o).relay = none ∨ ∀ v ∈ (party.channel o).users, v.name ≠ u.name →
      v.needsServerRelay = false)
    (hidle : ∀ w ∈ (party.channel o).users, w.name ≠ u.name → Idle o (party.channel o) u w) :
    Once party o u 3 := by
  refine once_of_idle h hu party.server (round_sender h hu hneeds hrelay) (fun w hw => ?_) ?_
  · obtain ⟨hw, hne⟩ := mem_others.mp hw
    refine ⟨hw, hne, hidle w hw hne, ?_⟩
    rcases hno with hnone | hnone
    · rw [hnone]
      exact Or.inl (Option.some_ne_none _).symm
    · refine Or.inr (List.eq_nil_iff_forall_not_mem.mpr fun v hv => ?_)
      obtain ⟨hv, hvu, hvneeds⟩ := mem_needing.mp hv
      rw [hnone v hv hvu] at hvneeds
      exact Bool.false_ne_true hvneeds
  · intro v hv
    rw [rounds_succ, rounds_succ, round_zero h hu hneeds, round_sender h hu hneeds hrelay,
      arrivals_append, arrivals_append, arrivals_map, Channel.others, count_filter h hv]
    simp [rounds, arrivals, Flood.waves, (h.addr_ne_server hv).symm]

/-- The relay types, and does not need the server. -/
theorem once_direct (h : Settled party o) (hu : u ∈ (party.channel o).users)
    (hneeds : u.needsServerRelay = false) (hrelay : (party.channel o).relay = some u.name)
    (hidle : ∀ w ∈ (party.channel o).users, w.name ≠ u.name → Idle o (party.channel o) u w) :
    Once party o u 3 := by
  refine once_of_idle h hu party.server (round_direct h hu hneeds hrelay) (fun w hw => ?_) ?_
  · obtain ⟨hw, hne, -⟩ := mem_needing.mp hw
    refine ⟨hw, hne, hidle w hw hne, Or.inl fun hr => hne ?_⟩
    exact Option.some.inj (hr.symm.trans hrelay)
  · intro v hv
    have hpeers := count_listed h hu hv fun x _ _ hx =>
      show (!x.useServerRelay) = true ↔ v.needsServerRelay = false by simp [hx]
    have hserver : ∀ c : Bool,
        (if c then [party.server] else []).count v.addr = 0 := by
      intro c
      refine List.count_eq_zero.mpr fun hin => ?_
      cases c with
      | true => exact h.addr_ne_server hv (List.mem_singleton.mp hin)
      | false => exact List.not_mem_nil hin
    rw [rounds_succ, rounds_succ, round_direct h hu hneeds hrelay, arrivals_append,
      arrivals_append, arrivals_map, needing, count_filter h hv]
    change _ + arrivals v.addr (o.start party.server u.addr) + _ = _
    rw [Joint.start, arrivals_map, addressed_direct h hu hneeds, List.count_append, hpeers, hserver]
    by_cases hne : v.name = u.name
    · have hself : ¬ Knows o u v := fun hk => h.ne_of_knows hu hv hk hne
      simp [hne, hself, rounds, Flood.waves, arrivals]
    · cases hvneeds : v.needsServerRelay with
      | true => simp [hne, rounds, Flood.waves, arrivals]
      | false =>
          have hk : Knows o u v := (h.fits u hu).reaches hrelay v hv hne hvneeds
          simp [hne, hk, rounds, Flood.waves, arrivals]

/-- Neither does the sender need the server, nor is it on record. -/
theorem once_spared (h : Settled party o) (hu : u ∈ (party.channel o).users)
    (hneeds : u.needsServerRelay = false) (hr : r ∈ (party.channel o).users)
    (hrelay : (party.channel o).relay = some r.name) (hru : r.name ≠ u.name)
    (hrneeds : r.needsServerRelay = false)
    (hknows : ∀ v ∈ (party.channel o).users, Knows o r v → v.needsServerRelay = false)
    (hidle : ∀ w ∈ (party.channel o).users, w.name ≠ u.name → w.name ≠ r.name →
      Idle o (party.channel o) u w) :
    Once party o u 4 := by
  have hzero : round party o u 0 = [(u.addr, r.addr)] := by
    rw [round_spared h hu hneeds hr hrelay hru, hrneeds, if_neg Bool.false_ne_true]
  have htwo := round_onward_server h hrneeds hr hrelay hzero hknows
  refine once_of_idle h hu party.server htwo (fun w hw => ?_) ?_
  · obtain ⟨hw, hne, hwneeds⟩ := mem_needing.mp hw
    have hwr : w.name ≠ r.name := by
      intro heq
      rw [h.eq_of_name hw hr heq, hrneeds] at hwneeds
      exact Bool.false_ne_true hwneeds
    refine ⟨hw, hne, hidle w hw hne hwr, Or.inl fun hw' => hwr ?_⟩
    exact Option.some.inj (hw'.symm.trans hrelay)
  · intro v hv
    rw [rounds_succ, rounds_succ, rounds_succ, hzero, round_onward h hr hzero, htwo,
      arrivals_append, arrivals_append, arrivals_append, arrivals_map, arrivals_map,
      count_relayed h hr hv, needing, count_filter h hv]
    change 0 + arrivals v.addr [(u.addr, r.addr)] + _ + _ = _
    rw [arrivals_singleton]
    by_cases hvr : v.name = r.name
    · have hself : ¬ Knows o r v := fun hk => h.ne_of_knows hr hv hk hvr
      rw [h.eq_of_name hv hr hvr] at hself ⊢
      simp [hself, hrneeds, hru]
    · have hacts : Acts o r := (h.fits r hr).recorded hrelay
      have haddr : r.addr ≠ v.addr := (h.addr_ne hv hr hvr).symm
      cases hvneeds : v.needsServerRelay with
      | true =>
          have hk : ¬ Knows o r v := fun hk => by
            rw [hknows v hv hk] at hvneeds
            exact Bool.false_ne_true hvneeds
          simp [haddr, hk]
      | false =>
          have hk : Knows o r v := (h.fits r hr).reaches hrelay v hv hvr hvneeds
          simp [haddr, hk, hacts]

/-- How often the second round after the server's brings the line to `v`. -/
theorem arrivals_relay (h : Settled party o) (hu : u ∈ (party.channel o).users)
    (hneeds : u.needsServerRelay = true) (hrelay : (party.channel o).relay = some u.name)
    (hv : v ∈ (party.channel o).users) (hne : v.name ≠ u.name) :
    arrivals v.addr (round party o u 2) =
      (party.channel o).users.countP fun w => w.name ≠ u.name ∧ Acts o w ∧ Knows o w v := by
  have hone : ∀ w ∈ needing (party.channel o) u, arrivals v.addr
      (o.onward party.server u.name (party.server, w.addr)) =
        if Acts o w ∧ Knows o w v then 1 else 0 := by
    intro w hw
    rw [onward_member h (mem_needing.mp hw).1, arrivals_map,
      count_relayed h (mem_needing.mp hw).1 hv]
    simp [hne]
  rw [round_succ, round_relay h hu hneeds hrelay, List.map_map, List.flatMap_map]
  refine (countP_flatMap_ite hone).trans ?_
  rw [needing, List.countP_filter]
  refine List.countP_congr fun w hw => ?_
  simp only [Bool.and_eq_true, decide_eq_true_eq]
  constructor
  · rintro ⟨⟨hacts, hk⟩, hwu, -⟩
    exact ⟨hwu, hacts, hk⟩
  · rintro ⟨hwu, hacts, hk⟩
    refine ⟨⟨hacts, hk⟩, hwu, h.needs_of_acts hw hacts fun hw' => hwu ?_⟩
    exact Option.some.inj (hw'.symm.trans hrelay)

theorem rounds_relay (h : Settled party o) (hu : u ∈ (party.channel o).users)
    (hneeds : u.needsServerRelay = true) (hrelay : (party.channel o).relay = some u.name)
    (hv : v ∈ (party.channel o).users) :
    arrivals v.addr (rounds party o u 2) =
      if v.name ≠ u.name ∧ v.needsServerRelay = true then 1 else 0 := by
  rw [rounds_succ, rounds_succ, round_zero h hu hneeds, round_relay h hu hneeds hrelay,
    arrivals_append, arrivals_append, arrivals_map, needing, count_filter h hv]
  simp [rounds, arrivals, Flood.waves, (h.addr_ne_server hv).symm]

/-- Whoever sends it then got it from the server. -/
theorem mem_round_two (h : Settled party o) (hu : u ∈ (party.channel o).users)
    (hneeds : u.needsServerRelay = true) (hrelay : (party.channel o).relay = some u.name)
    {g : Hop} (hg : g ∈ round party o u 2) : ∃ w ∈ (party.channel o).users,
      w.name ≠ u.name ∧ g.1 = w.addr ∧
        g.2 ∈ (o.clients w.addr).relayed party.server u.name := by
  rw [round_succ, round_relay h hu hneeds hrelay, List.map_map, List.flatMap_map,
    List.mem_flatMap] at hg
  obtain ⟨w, hw, hg⟩ := hg
  obtain ⟨hw, hwu, -⟩ := mem_needing.mp hw
  rw [Function.comp_apply, onward_member h hw] at hg
  obtain ⟨b, hb, rfl⟩ := List.mem_map.mp hg
  exact ⟨w, hw, hwu, rfl, hb⟩

/-- If nobody that needs the server gets it then, it goes no further. -/
theorem round_three (h : Settled party o) (hu : u ∈ (party.channel o).users)
    (hneeds : u.needsServerRelay = true) (hrelay : (party.channel o).relay = some u.name)
    (hnone : ∀ v ∈ (party.channel o).users, v.name ≠ u.name → v.needsServerRelay = true →
      arrivals v.addr (round party o u 2) = 0) : round party o u 3 = [] := by
  have hother : ∀ {w : User}, w.name ≠ u.name → (party.channel o).relay ≠ some w.name :=
    fun hne hw => hne (Option.some.inj (hw.symm.trans hrelay))
  rw [round_succ, List.flatMap_eq_nil_iff]
  rintro ⟨a, b⟩ hg
  obtain ⟨w, hw, hwu, rfl, hb⟩ := mem_round_two h hu hneeds hrelay hg
  obtain ⟨-, rfl | ⟨v, hv, rfl, -, hvu⟩⟩ := relayed_cases h hw hb
  · rw [onward_server, forwarded_other h hw hwu (hother hwu)]
    rfl
  · rw [onward_member h hv, relayed_spared h hv ?_ (hother hvu)]
    · rfl
    · refine Bool.eq_false_iff.mpr fun hvneeds => ?_
      have hzero := List.countP_eq_zero.mp (hnone v hv hvu hvneeds) _ hg
      exact hzero (decide_eq_true rfl)

/-- The sender needs the server, and is on record. -/
theorem once_relay (h : Settled party o) (hu : u ∈ (party.channel o).users)
    (hneeds : u.needsServerRelay = true) (hrelay : (party.channel o).relay = some u.name)
    (hcount : ∀ v ∈ (party.channel o).users, v.name ≠ u.name →
      ((party.channel o).users.countP fun w => w.name ≠ u.name ∧ Acts o w ∧ Knows o w v) =
        if v.needsServerRelay then 0 else 1) : Once party o u 3 := by
  refine ⟨round_three h hu hneeds hrelay fun v hv hne hvneeds => ?_, fun v hv hne => ?_, ?_⟩
  · rw [arrivals_relay h hu hneeds hrelay hv hne, hcount v hv hne, hvneeds, if_pos rfl]
  · rw [rounds_succ, arrivals_append, rounds_relay h hu hneeds hrelay hv,
      arrivals_relay h hu hneeds hrelay hv hne, hcount v hv hne]
    cases v.needsServerRelay <;> simp [hne]
  · have hback : arrivals u.addr (round party o u 2) = 0 := by
      refine arrivals_eq_zero fun g hg heq => ?_
      obtain ⟨w, hw, -, -, hb⟩ := mem_round_two h hu hneeds hrelay hg
      rw [heq] at hb
      exact ((mem_relayed h hw hu).mp hb).2.2 rfl
    rw [rounds_succ, arrivals_append, rounds_relay h hu hneeds hrelay hu, hback,
      if_neg fun hne => hne.1 rfl]

/-- If the tables are so, the line comes once. -/
theorem once_of_cameOnce (h : Settled party o) (hu : u ∈ (party.channel o).users)
    (hcame : CameOnce o (party.channel o) u) : ∃ k, Once party o u k := by
  unfold CameOnce at hcame
  cases hneeds : u.needsServerRelay with
  | true =>
      rw [if_pos hneeds] at hcame
      by_cases hrelay : (party.channel o).relay = some u.name
      · rw [if_pos hrelay] at hcame
        exact ⟨3, once_relay h hu hneeds hrelay hcame⟩
      · rw [if_neg hrelay] at hcame
        exact ⟨3, once_sender h hu hneeds hrelay hcame.1 hcame.2⟩
  | false =>
      rw [if_neg (by rw [hneeds]; exact Bool.false_ne_true)] at hcame
      by_cases hrelay : (party.channel o).relay = some u.name
      · rw [if_pos hrelay] at hcame
        exact ⟨3, once_direct h hu hneeds hrelay hcame⟩
      · rw [if_neg hrelay] at hcame
        obtain ⟨r, hr, hr', hrneeds, hknows, hidle⟩ := hcame
        refine ⟨4, once_spared h hu hneeds hr hr' (fun heq => hrelay ?_) hrneeds hknows hidle⟩
        rw [← heq]
        exact hr'

/-! ## When it does not -/

theorem idle_spared (h : Settled party o) (hw : w ∈ (party.channel o).users)
    (hneeds : w.needsServerRelay = false) (hrelay : (party.channel o).relay ≠ some w.name) :
    Idle o (party.channel o) u w := by
  intro hacts
  rw [h.needs_of_acts hw hacts hrelay] at hneeds
  exact absurd hneeds.symm Bool.false_ne_true

theorem mem_round_needing (hround : round party o u k =
      ((needing (party.channel o) u).map User.addr).map (Prod.mk party.server))
    (hv : v ∈ (party.channel o).users) (hne : v.name ≠ u.name)
    (hneeds : v.needsServerRelay = true) : (party.server, v.addr) ∈ round party o u k := by
  rw [hround]
  exact List.mem_map_of_mem (List.mem_map_of_mem (mem_needing.mpr ⟨hv, hne, hneeds⟩))

/-- From the relay on record it goes by the server to those that need it. -/
theorem round_by_server (h : Settled party o) (hr : r ∈ (party.channel o).users)
    (hrelay : (party.channel o).relay = some r.name) (hin : (a, r.addr) ∈ round party o u k)
    (hw : w ∈ (party.channel o).users) (hwr : w.name ≠ r.name) (hwneeds : w.needsServerRelay = true)
    (hv : v ∈ (party.channel o).users) (hne : v.name ≠ u.name)
    (hneeds : v.needsServerRelay = true) : (party.server, v.addr) ∈ round party o u (k + 2) := by
  have hacts : Acts o r := (h.fits r hr).recorded hrelay
  refine round_forwarded (round_mirrors h hr hin hacts
    ((h.fits r hr).mirrors hrelay w hw hwr hwneeds)) ?_
  rw [forwarded_relay h hr hrelay]
  exact List.mem_map_of_mem (mem_needing.mpr ⟨hv, hne, hneeds⟩)

theorem Once.sender (h : Settled party o) (honce : Once party o u k)
    (hu : u ∈ (party.channel o).users) (hneeds : u.needsServerRelay = true)
    (hrelay : (party.channel o).relay ≠ some u.name) :
    ((party.channel o).relay = none ∨ ∀ v ∈ (party.channel o).users, v.name ≠ u.name →
      v.needsServerRelay = false) ∧
      ∀ w ∈ (party.channel o).users, w.name ≠ u.name → Idle o (party.channel o) u w := by
  have hall : ∀ v ∈ (party.channel o).users, v.name ≠ u.name →
      (party.server, v.addr) ∈ round party o u 1 := by
    intro v hv hne
    rw [round_sender h hu hneeds hrelay]
    exact List.mem_map_of_mem (List.mem_map_of_mem (mem_others.mpr ⟨hv, hne⟩))
  constructor
  · cases hr : (party.channel o).relay with
    | none => exact Or.inl rfl
    | some n =>
        refine Or.inr fun v hv hne => Bool.eq_false_iff.mpr fun hvneeds => ?_
        obtain ⟨r, hr', hrelay'⟩ := h.relay_mem hr
        have hru : r.name ≠ u.name := fun heq => hrelay (by rw [hrelay', heq])
        have htwice := round_by_server h hr' hrelay' (hall r hr' hru) hu hru.symm hneeds hv hne
          hvneeds
        exact absurd (honce.unique hv hne (hall v hv hne) htwice) (by decide)
  · intro w hw hwu
    refine honce.idle h hw (hall w hw hwu) fun v hv hne _ => ?_
    exact ⟨1, _, by decide, hall v hv hne⟩

theorem Once.direct (h : Settled party o) (honce : Once party o u k)
    (hu : u ∈ (party.channel o).users) (hneeds : u.needsServerRelay = false)
    (hrelay : (party.channel o).relay = some u.name) :
    ∀ w ∈ (party.channel o).users, w.name ≠ u.name → Idle o (party.channel o) u w := by
  intro w hw hwu
  cases hwneeds : w.needsServerRelay with
  | false => exact idle_spared h hw hwneeds fun hw' => hwu (Option.some.inj (hw'.symm.trans hrelay))
  | true =>
      have hone := round_direct h hu hneeds hrelay
      refine honce.idle h hw (mem_round_needing hone hw hwu hwneeds) fun v hv hne _ => ?_
      cases hvneeds : v.needsServerRelay with
      | true => exact ⟨1, _, by decide, mem_round_needing hone hv hne hvneeds⟩
      | false =>
          refine ⟨0, u.addr, by decide, (?_ : _ ∈ o.start party.server u.addr)⟩
          rw [Joint.start, addressed_direct h hu hneeds]
          refine List.mem_map_of_mem (List.mem_append_left _ ?_)
          have hk : Knows o u v := (h.fits u hu).reaches hrelay v hv hne hvneeds
          exact (mem_unmarked h hu hv).mpr ⟨hk, hvneeds⟩

theorem Once.spared (h : Settled party o) (honce : Once party o u k)
    (hu : u ∈ (party.channel o).users) (hneeds : u.needsServerRelay = false)
    (hrelay : (party.channel o).relay ≠ some u.name) :
    ∃ r ∈ (party.channel o).users, (party.channel o).relay = some r.name ∧
      r.needsServerRelay = false ∧
      (∀ v ∈ (party.channel o).users, Knows o r v → v.needsServerRelay = false) ∧
      ∀ w ∈ (party.channel o).users, w.name ≠ u.name → w.name ≠ r.name →
        Idle o (party.channel o) u w := by
  obtain ⟨r, hr, hr', -⟩ := (h.fits u hu).spared hneeds hrelay
  have hru : r.name ≠ u.name := fun heq => hrelay (by rw [hr', heq])
  have hzero := round_spared h hu hneeds hr hr' hru
  have hrneeds : r.needsServerRelay = false := by
    -- else the line goes to nobody
    refine Bool.eq_false_iff.mpr fun hrneeds => ?_
    have hcount := honce.2.1 r hr hru
    rw [if_pos hrneeds] at hzero
    change o.start party.server u.addr = [] at hzero
    rw [rounds, hzero, Flood.waves_nil] at hcount
    exact Nat.zero_ne_one hcount
  rw [hrneeds, if_neg Bool.false_ne_true] at hzero
  have hin : (u.addr, r.addr) ∈ round party o u 0 := by
    rw [hzero]
    exact List.mem_singleton_self _
  have hacts : Acts o r := (h.fits r hr).recorded hr'
  have hone : ∀ v ∈ (party.channel o).users, v.name ≠ u.name → Knows o r v →
      (r.addr, v.addr) ∈ round party o u 1 := fun v hv hne hk =>
    round_knows h hr hv hin hacts hk hne
  have hne_of_needs : ∀ {v x : User}, v.needsServerRelay = true → x.needsServerRelay = false →
      v ∈ (party.channel o).users → x ∈ (party.channel o).users → v.name ≠ x.name := by
    intro v x hv hx hvm hxm heq
    rw [h.eq_of_name hvm hxm heq, hx] at hv
    exact Bool.false_ne_true hv
  refine ⟨r, hr, hr', hrneeds, fun v hv hk => ?_, fun w hw hwu hwr => ?_⟩
  · refine Bool.eq_false_iff.mpr fun hvneeds => ?_
    have hvu := hne_of_needs hvneeds hneeds hv hu
    have htwice := round_by_server h hr hr' hin hv (h.ne_of_knows hr hv hk) hvneeds hv hvu hvneeds
    exact absurd (honce.unique hv hvu (hone v hv hvu hk) htwice) (by decide)
  · cases hwneeds : w.needsServerRelay with
    | false => exact idle_spared h hw hwneeds fun hw' => hwr (Option.some.inj (hw'.symm.trans hr'))
    | true =>
        have htwo : ∀ v ∈ (party.channel o).users, v.name ≠ u.name → v.needsServerRelay = true →
            (party.server, v.addr) ∈ round party o u 2 := fun v hv hne hvneeds =>
          round_by_server h hr hr' hin hw hwr hwneeds hv hne hvneeds
        refine honce.idle h hw (htwo w hw hwu hwneeds) fun v hv hvu _ => ?_
        by_cases hvr : v.name = r.name
        · rw [h.eq_of_name hv hr hvr]
          exact ⟨0, _, by decide, hin⟩
        · cases hvneeds : v.needsServerRelay with
          | true => exact ⟨2, _, by decide, htwo v hv hvu hvneeds⟩
          | false => exact ⟨1, _, by decide,
              hone v hv hvu ((h.fits r hr).reaches hr' v hv hvr hvneeds)⟩

theorem Once.relay (h : Settled party o) (honce : Once party o u k)
    (hu : u ∈ (party.channel o).users) (hneeds : u.needsServerRelay = true)
    (hrelay : (party.channel o).relay = some u.name) :
    ∀ v ∈ (party.channel o).users, v.name ≠ u.name →
      ((party.channel o).users.countP fun w => w.name ≠ u.name ∧ Acts o w ∧ Knows o w v) =
        if v.needsServerRelay then 0 else 1 := by
  have hone := round_relay h hu hneeds hrelay
  have hnone : ∀ v ∈ (party.channel o).users, v.name ≠ u.name → v.needsServerRelay = true →
      arrivals v.addr (round party o u 2) = 0 := by
    rintro v hv hne hvneeds
    refine arrivals_eq_zero ?_
    rintro ⟨a, b⟩ hg rfl
    exact absurd (honce.unique hv hne (mem_round_needing hone hv hne hvneeds) hg) (by decide)
  have hend := round_three h hu hneeds hrelay hnone
  have hall : rounds party o u k = rounds party o u 3 := by
    rcases Nat.le_total 3 k with hle | hle
    · exact Flood.waves_of_le hend hle
    · exact (Flood.waves_of_le honce.1 hle).symm
  intro v hv hne
  have hcount := honce.2.1 v hv hne
  rw [hall, rounds_succ, arrivals_append, rounds_relay h hu hneeds hrelay hv,
    arrivals_relay h hu hneeds hrelay hv hne] at hcount
  cases hvneeds : v.needsServerRelay with
  | true =>
      rw [hvneeds, if_pos ⟨hne, rfl⟩] at hcount
      rw [if_pos rfl]
      omega
  | false =>
      rw [hvneeds, if_neg fun hv => Bool.false_ne_true hv.2] at hcount
      rw [if_neg Bool.false_ne_true]
      omega

/-- If the line comes once, the tables are so. -/
theorem cameOnce_of_once (h : Settled party o) (hu : u ∈ (party.channel o).users)
    (honce : Once party o u k) : CameOnce o (party.channel o) u := by
  unfold CameOnce
  split_ifs with hneeds hrelay hrelay
  · exact honce.relay h hu hneeds hrelay
  · exact honce.sender h hu hneeds hrelay
  · exact honce.direct h hu (Bool.eq_false_iff.mpr hneeds) hrelay
  · exact honce.spared h hu (Bool.eq_false_iff.mpr hneeds) hrelay

end Rounds

/-! ## After every setup -/

/-- **When a line comes exactly once.**  After any setup, a member types a line:
each of the others receives it once, and the member does not, exactly when the
tables are so.  Datagrams arrive whole, those of the setup and the line. -/
theorem exactlyOnce_iff (party : Party) (ls : List party.Setup) (typed : TypedLine) (u : User)
    (hu : u ∈ (party.channel (after party.step party.init ls)).users) :
    ExactlyOnce party.server (after party.step party.init ls)
        (party.channel (after party.step party.init ls)) u typed ↔
      CameOnce (after party.step party.init ls)
        (party.channel (after party.step party.init ls)) u := by
  have h := settled_after party ls
  rw [exactlyOnce_iff_waves (h.fits u hu).user]
  constructor
  · rintro ⟨k, honce⟩
    exact cameOnce_of_once h hu (honce : Once party _ u k)
  · exact once_of_cameOnce h hu

section Three

def annAddr : SocketAddr := .v4 ⟨10, 0, 0, 1⟩ 4000
def bobAddr : SocketAddr := .v4 ⟨10, 0, 0, 2⟩ 4000
def samAddr : SocketAddr := .v4 ⟨10, 0, 0, 3⟩ 4000

/-- Ann, Bob and Sam. -/
def three : Party where
  serverId := ⟨"s".toList, isWord_s⟩
  channelName := ⟨"c".toList, isWord_c⟩
  server := .v4 ⟨10, 0, 0, 9⟩ 2131
  name a :=
    if a = annAddr then some ⟨"ann".toList, isWord_ann⟩
    else if a = bobAddr then some ⟨"bob".toList, isWord_bob⟩
    else if a = samAddr then some ⟨"sam".toList, isWord_sam⟩
    else none
  distinct := by
    intro a b n ha hb
    split_ifs at ha hb <;>
      first
      | exact absurd (ha.trans hb.symm) (by decide)
      | (subst_vars; rfl)
  ipv4 := by
    intro a n ha
    split_ifs at ha with h₁ h₂ h₃
    · exact ⟨_, _, h₁⟩
    · exact ⟨_, _, h₂⟩
    · exact ⟨_, _, h₃⟩
  elsewhere := by decide

/-- They connect; Sam is behind a symmetric NAT. -/
def allConnect : List three.Setup :=
  [⟨.message ⟨0, 7⟩ "CONNECT s c ann CONE".toList annAddr, by decide +kernel⟩,
    ⟨.message ⟨1, 8⟩ "CONNECT s c bob CONE".toList bobAddr, by decide +kernel⟩,
    ⟨.message ⟨2, 9⟩ "CONNECT s c sam SYMMETRIC".toList samAddr, by decide +kernel⟩]

def bobConnected : User := ⟨2, ⟨"bob".toList, isWord_bob⟩, bobAddr, 1, false, .cone⟩
def samConnected : User := ⟨3, ⟨"sam".toList, isWord_sam⟩, samAddr, 2, true, .symmetric⟩

def hello : TypedLine := ⟨"hello".toList, by decide, by decide⟩

/-- Bob's line comes to Ann, the relay, and by the server to Sam. -/
theorem exactlyOnce_bob :
    ExactlyOnce three.server (after three.step three.init allConnect)
      (three.channel (after three.step three.init allConnect)) bobConnected hello :=
  (exactlyOnce_iff three allConnect hello bobConnected (by decide +kernel)).mpr (by decide +kernel)

/-- Sam's line comes to Bob from the server and from Ann. -/
theorem sam_twice :
    samConnected ∈ (three.channel (after three.step three.init allConnect)).users ∧
    ¬ ExactlyOnce three.server (after three.step three.init allConnect)
      (three.channel (after three.step three.init allConnect)) samConnected hello := by
  refine ⟨by decide +kernel, fun h => ?_⟩
  have honce := (h.2 (List.replicate 5 ⟨0, ⟨3, 0⟩⟩) (by decide +kernel)).1 bobConnected
    (by decide +kernel) (by decide +kernel)
  exact absurd honce (by decide +kernel)

end Three

end NatPiercer.System
