/-
# `System.Reports` — an entry is dropped, and a session with it

A user can be at several addresses, one after the other: the server replaces
the session, but a relay has the new entry beside the old one.  When the old
one is dropped, a minute later, what is reported is the user's name, and the
server removes whoever has it.

Here the server and its clients run together, as in `System.Joint`, with what
clients send each other, the passes of `relay_main_loop`, and the reports on
their way.  A report does no harm exactly if its user is registered where the
entry was, or not at all (`Current`); and so it is in every run in which no
user is at two addresses.  Datagrams arrive whole, so these are runs in which
all that the server sends fits a buffer (`datagrams_fit_iff`).
-/
import NatPiercer.Client.Tables
import NatPiercer.Signaling.DataRouting
import NatPiercer.System.Delivery
import NatPiercer.System.Introductions

namespace NatPiercer.System

open Text Utf8 Net Proto LockProg Signaling Client

/-! ## The system -/

/-- A `PEER_TIMEOUT` on its way: the relay, its channel, and the entry that it
has dropped. -/
structure Report where
  src : SocketAddr
  serverId : Token
  channelName : Token
  peer : PeerInfo
deriving DecidableEq

/-- What the server reads. -/
def Report.text (r : Report) : Str := peerTimeoutText r.serverId r.channelName r.peer

structure World where
  joint : Joint
  reports : List Report

def World.init : World := ⟨.init, []⟩

inductive Happening
  /-- a step of the server, other than for a report, and the arrival of all it sends -/
  | server (l : ServerStep)
  /-- a datagram of a client arrives at another -/
  | arrival (now : Instant) (src dst : SocketAddr) (bytes : Bytes)
  /-- the client at an address runs through its table -/
  | keepalive (now : Instant) (a : SocketAddr)
  /-- the server handles the report at an index -/
  | reported (amb : Ambient) (i : Nat)

section World
variable (server : SocketAddr) (home : SocketAddr → Option (Token × Token × Token))

/-- The client at `a` becomes `me`. -/
def Joint.become (a : SocketAddr) (me : Client) (o : Joint) : Joint :=
  { o with clients := Function.update o.clients a me }

def World.step (w : World) : Happening → World
  | .server l => { w with joint := (w.joint.boot l).step server l }
  | .arrival now src dst bytes =>
      { w with
        joint := w.joint.become dst ((w.joint.clients dst).receive now server src bytes).1 }
  | .keepalive now a =>
      match home a with
      | some (s, c, _) =>
          ⟨w.joint.become a ((w.joint.clients a).relayMainLoop now server s c).1,
            w.reports ++ ((w.joint.clients a).dropped now server s c).map (Report.mk a s c)⟩
      | none => w
  | .reported amb i =>
      match w.reports[i]? with
      | some r => ⟨w.joint.step server (.message amb r.text r.src), w.reports.eraseIdx i⟩
      | none => w

/-- What clients send each other. -/
inductive Chatter (bytes : Bytes) : Prop
  | word {t : Token} (ht : t = msgPing ∨ t = msgPong ∨ t = msgHolePunch)
      (h : bytes = asBytes t.text)
  | data {typed : TypedLine} {user : Token} (h : Carries (typed.data user) bytes)

/-- Whoever connects is at home where it does; nobody leaves but by silence; and
what is passed on is a line that was typed. -/
structure OrderlyStep (l : ServerStep) : Prop where
  connects : ConnectsFrom home l
  stays : NoDisconnect l
  typed : ∀ {amb text src}, l = .message amb text src → Request.ofText text = .data →
    ∃ (typed : TypedLine) (user : Token), Carries (typed.data user) (asBytes text)

/-- And a report is only sent by a pass. -/
structure HonestStep (l : ServerStep) : Prop extends OrderlyStep home l where
  noReport : ∀ {amb text src s c n}, l = .message amb text src →
    Request.ofText text ≠ .peerTimeout s c n

/-- Every client does as the program has it. -/
def Honest : Happening → Prop
  | .server l => HonestStep home l
  | .arrival _ _ _ bytes => Chatter bytes
  | .keepalive _ _ | .reported _ _ => True

/-- A happening of honest clients. -/
abbrev HonestHappening := { h : Happening // Honest home h }

def World.go (w : World) (h : HonestHappening home) : World := w.step server home h.1

/-- The sessions of the reported user that are elsewhere than the dropped entry
stay in the channel. -/
def SparesSessions (w : World) : Happening → Prop
  | .reported amb i => ∀ r, w.reports[i]? = some r → ∀ ch u,
      w.joint.map.channel? r.serverId r.channelName = some ch → u ∈ ch.users →
      u.name = r.peer.username → u.addr ≠ r.peer.addr →
      ∃ ch', (w.step server home (.reported amb i)).joint.map.channel? r.serverId r.channelName =
          some ch' ∧
        ∃ v ∈ ch'.users, v.isSession u.name u.addr = true
  | .server _ | .arrival _ _ _ _ | .keepalive _ _ => True

/-- The reported user is registered where the dropped entry was, if it is. -/
def Current (w : World) : Happening → Prop
  | .reported _ i => ∀ r, w.reports[i]? = some r → ∀ ch u,
      w.joint.map.channel? r.serverId r.channelName = some ch → u ∈ ch.users →
      u.name = r.peer.username → u.addr = r.peer.addr
  | .server _ | .arrival _ _ _ _ | .keepalive _ _ => True

end World

section Reported
variable {server : SocketAddr} {home : SocketAddr → Option (Token × Token × Token)} {w : World}

/-- The reports that a pass puts on their way are the `PEER_TIMEOUT`s among all that
it sends. -/
theorem reports_keepalive {s c n : Token} {a : SocketAddr} (ha : home a = some (s, c, n))
    (now : Instant) :
    ∃ new, (w.step server home (.keepalive now a)).reports = w.reports ++ new ∧
      ∀ d, (∃ r ∈ new, d = tell server r.text) ↔
        d ∈ ((w.joint.clients a).relayMainLoop now server s c).2 ∧
          ∃ p, d = handlePeerTimeout server s c p := by
  refine ⟨((w.joint.clients a).dropped now server s c).map (Report.mk a s c), ?_, fun d => ?_⟩
  · unfold World.step
    dsimp only
    rw [ha]
  · rw [report_mem_iff]
    constructor
    · rintro ⟨r, hr, hd⟩
      obtain ⟨p, hp, rfl⟩ := List.mem_map.mp hr
      exact ⟨p, hp, hd⟩
    · rintro ⟨p, hp, hd⟩
      exact ⟨_, List.mem_map_of_mem hp, hd⟩

/-- The report is handled: whoever has the name is out. -/
theorem channel?_reported (amb : Ambient) {i : Nat} {r : Report} (hr : w.reports[i]? = some r) :
    (w.step server home (.reported amb i)).joint.map.channel? r.serverId r.channelName =
      (w.joint.map.channel? r.serverId r.channelName).map
        (Channel.removePeer r.peer.username) := by
  unfold World.step
  dsimp only
  rw [hr]
  dsimp only
  rw [step_map, channel?_step, ServerStep.effect, Report.text, ofText_peerTimeoutText,
    Request.effect, if_pos ⟨rfl, rfl⟩]
  rfl

theorem sparesSessions_iff (w : World) (h : Happening) :
    SparesSessions server home w h ↔ Current w h := by
  cases h with
  | reported amb i =>
      constructor
      · intro h r hr ch u hch hu hname
        by_contra haddr
        obtain ⟨ch', hch', v, hv, hsession⟩ := h r hr ch u hch hu hname haddr
        rw [channel?_reported amb hr, hch, Option.map_some, Option.some.injEq] at hch'
        rw [← hch', removePeer_users] at hv
        rw [User.isSession, decide_eq_true_eq] at hsession
        exact (mem_others.mp hv).2 (hsession.1.trans hname)
      · intro h r hr ch u hch hu hname haddr
        exact absurd (h r hr ch u hch hu hname) haddr
  | server l => exact Iff.rfl
  | arrival now src dst bytes => exact Iff.rfl
  | keepalive now a => exact Iff.rfl

end Reported

/-! ## One address each -/

/-- No user of a channel is at two addresses. -/
def OneAddress (home : SocketAddr → Option (Token × Token × Token)) : Prop :=
  ∀ {a b x}, home a = some x → home b = some x → a = b

/-- Whoever is registered, listed or reported is where `home` says. -/
structure Known (home : SocketAddr → Option (Token × Token × Token)) (w : World) : Prop where
  resident : Resident home w.joint.map
  listed : ∀ {a s c n}, home a = some (s, c, n) → ∀ x ∈ (w.joint.clients a).listing,
    home x.1 = some (s, c, x.2)
  reported : ∀ r ∈ w.reports, home r.peer.addr = some (r.serverId, r.channelName, r.peer.username)

section Known
variable {server : SocketAddr} {home : SocketAddr → Option (Token × Token × Token)}

theorem known_init : Known home .init where
  resident _ _ ch _ h := absurd h (Option.some_ne_none ch).symm
  listed _ _ hx := absurd hx List.not_mem_nil
  reported _ hr := absurd hr List.not_mem_nil

theorem introduced_received (now : Instant) (ds : List Datagram) (me : Client) :
    Introduced (ds.flatMap fun d => heardIn d.payload) me (received server now ds me) := by
  unfold received
  induction ds generalizing me with
  | nil => exact introduced_of_eq _ rfl
  | cons d ds ih =>
      exact (introduced_receive now server server d.payload me).trans
        (ih (me.receive now server server d.payload).1)

/-- What the server sends to a client introduces whose home the client's channel
is. -/
theorem introduces_sent {st : ServerMap} {l : ServerStep} (h : Resident home st)
    (hl : OrderlyStep home l) {d : Datagram} (hd : d ∈ st.sent l) {s c m : Token}
    (hdst : home d.dst = some (s, c, m))
    {n a : Token} (ha : .direct n a ∈ heardIn d.payload) :
    ∃ b, home b = some (s, c, n) ∧ a = b.token := by
  rcases mem_sent_iff.mp hd with
    ⟨s', c', htold⟩ | ⟨amb, text, src, rfl, ⟨-, rfl⟩ | ⟨hdata, hsent⟩⟩
  · obtain ⟨m', hm'⟩ := resident_told h hl.connects hl.stays htold
    rw [hdst, Option.some.injEq, Prod.mk.injEq, Prod.mk.injEq] at hm'
    obtain ⟨rfl, rfl, -⟩ := hm'
    exact introduces_told h hl.connects hl.stays d htold n a ha
  · change .direct n a ∈ heardIn (asBytes (line [msgNatSeen, src.token])) at ha
    rw [heardIn_natSeen] at ha
    exact absurd (List.mem_singleton.mp ha) (by simp)
  · obtain ⟨typed, user, hcarries⟩ := hl.typed rfl hdata
    rw [payload_of_mem_dataSent hsent, heardIn_data hcarries] at ha
    exact absurd (List.mem_singleton.mp ha) (by simp)

/-- A step of the server keeps every table as it should be. -/
theorem known_server (hread : ∀ {a x}, home a = some x → Readable a) {w : World} (h : Known home w)
    {o : Joint} (hmap : o.map = w.joint.map)
    (hclients : ∀ a, (o.clients a).listing ⊆ (w.joint.clients a).listing) {l : ServerStep}
    (hl : OrderlyStep home l) {reports : List Report} (hreports : ∀ r ∈ reports, r ∈ w.reports) :
    Known home ⟨o.step server l, reports⟩ where
  resident := by
    rw [step_map, hmap]
    exact resident_step h.resident hl.connects
  listed := by
    intro a s c n ha x hx
    dsimp only at hx
    rw [step_clients] at hx
    rcases introduced_received _ _ _ x hx with hx | ⟨t, ht, haddr⟩
    · exact h.listed ha x (hclients a hx)
    · obtain ⟨d, hd, ht⟩ := List.mem_flatMap.mp ht
      obtain ⟨hd, hdst⟩ := List.mem_filter.mp hd
      have hdst : home d.dst = some (s, c, n) := by
        rw [of_decide_eq_true hdst, ha]
      rw [hmap] at hd
      obtain ⟨b, hb, rfl⟩ := introduces_sent h.resident hl hd hdst ht
      have hbx : some x.1 = some b := haddr.symm.trans (hread hb)
      rw [Option.some.inj hbx]
      exact hb
  reported r hr := h.reported r (hreports r hr)

theorem boot_listing (l : ServerStep) (o : Joint) (a : SocketAddr) :
    ((o.boot l).clients a).listing ⊆ (o.clients a).listing := by
  unfold Joint.boot
  split
  · next src n hboots =>
      dsimp only
      by_cases ha : a = src
      · rw [ha, Function.update_self]
        exact List.nil_subset _
      · rw [Function.update_of_ne ha]
        exact List.Subset.refl _
  · exact List.Subset.refl _

theorem become_listing (a : SocketAddr) (me : Client) (o : Joint) (b : SocketAddr) :
    ((o.become a me).clients b).listing = if b = a then me.listing else (o.clients b).listing := by
  unfold Joint.become
  dsimp only
  split_ifs with hb
  · rw [hb, Function.update_self]
  · rw [Function.update_of_ne hb]

/-- What clients send each other introduces nobody. -/
theorem heardIn_chatter {bytes : Bytes} (h : Chatter bytes) (n a : Token) :
    .direct n a ∉ heardIn bytes := by
  cases h with
  | word ht hbytes =>
      subst hbytes
      rcases ht with rfl | rfl | rfl
      · rw [show heardIn (asBytes msgPing.text) = [.ping] by decide]
        simp
      · rw [show heardIn (asBytes msgPong.text) = [.pong] by decide]
        simp
      · rw [show heardIn (asBytes msgHolePunch.text) = [.holePunch] by decide]
        simp
  | data hcarries =>
      rw [heardIn_data hcarries]
      simp

theorem known_step (hread : ∀ {a x}, home a = some x → Readable a) {w : World} (h : Known home w)
    (happening : HonestHappening home) : Known home (w.go server home happening) := by
  obtain ⟨happening, honest⟩ := happening
  cases happening with
  | server l =>
      exact known_server hread h (boot_map l w.joint) (boot_listing l w.joint)
        honest.toOrderlyStep fun _ hr => hr
  | arrival now src dst bytes =>
      refine ⟨h.resident, fun {a s c n} ha x hx => ?_, h.reported⟩
      change x ∈ ((w.joint.become dst _).clients a).listing at hx
      rw [become_listing] at hx
      split_ifs at hx with hdst
      · rcases introduced_receive now server src bytes _ x hx with hx | ⟨t, ht, -⟩
        · exact h.listed ha x (hdst ▸ hx)
        · exact absurd ht (heardIn_chatter honest x.2 t)
      · exact h.listed ha x hx
  | keepalive now a =>
      unfold World.go World.step
      dsimp only
      cases ha : home a with
      | none => exact h
      | some x =>
          obtain ⟨s, c, n⟩ := x
          dsimp only
          refine ⟨h.resident, fun {b s' c' n'} hb x hx => ?_, fun r hr => ?_⟩
          · dsimp only at hx
            rw [become_listing] at hx
            split_ifs at hx with hba
            · exact h.listed hb x (hba ▸ listing_relayMainLoop now server s c _ hx)
            · exact h.listed hb x hx
          · rcases List.mem_append.mp hr with hr | hr
            · exact h.reported r hr
            · obtain ⟨p, hp, rfl⟩ := List.mem_map.mp hr
              exact h.listed ha (p.addr, p.username)
                (List.mem_map_of_mem (dropped_subset now server s c _ hp))
  | reported amb i =>
      unfold World.go World.step
      dsimp only
      cases hr : w.reports[i]? with
      | none => exact h
      | some r =>
          have hreq := ofText_peerTimeoutText r.serverId r.channelName r.peer
          refine known_server hread h rfl (fun _ => List.Subset.refl _) ⟨?_, ?_, ?_⟩
            fun r hr => (List.eraseIdx_sublist w.reports i).subset hr
          · intro amb' text src s c n natArg hlm hconnect
            cases hlm
            rw [Report.text, hreq] at hconnect
            cases hconnect
          · intro amb' text src s c n hlm hdisconnect
            cases hlm
            rw [Report.text, hreq] at hdisconnect
            cases hdisconnect
          · intro amb' text src hlm hdata
            cases hlm
            rw [Report.text, hreq] at hdata
            cases hdata

/-- A report is about its user's address. -/
theorem current_of_known (hone : OneAddress home) {w : World} (h : Known home w)
    (happening : Happening) : Current w happening := by
  cases happening with
  | reported amb i =>
      intro r hr ch u hch hu hname
      have hreported := h.reported r (List.mem_of_getElem? hr)
      have hresident := h.resident r.serverId r.channelName ch u hch hu
      rw [hname] at hresident
      exact hone hresident hreported
  | server l => trivial
  | arrival now src dst bytes => trivial
  | keepalive now a => trivial

end Known

/-- **Dropped entries and sessions.**  Every report of a run spares the sessions
that are elsewhere than its entry was, exactly if at every report there is none
of the user's; and where no user is at two addresses there never is.  The runs
are of whole datagrams. -/
theorem spared_iff (server : SocketAddr) (home : SocketAddr → Option (Token × Token × Token))
    (ls : List (HonestHappening home)) :
    (EachStep (World.go server home) (fun w h => SparesSessions server home w h.1) .init ls ↔
      EachStep (World.go server home) (fun w h => Current w h.1) .init ls) ∧
    ((∀ a x, home a = some x → ∃ ip port, a = .v4 ip port) → OneAddress home →
      EachStep (World.go server home) (fun w h => Current w h.1) .init ls) := by
  refine ⟨eachStep_congr (fun w h => sparesSessions_iff w h.1) _ ls, fun hipv4 hone => ?_⟩
  have hread : ∀ {a x}, home a = some x → Readable a := by
    intro a x ha
    obtain ⟨ip, port, rfl⟩ := hipv4 a x ha
    exact fromStr_toText_v4 ip port
  exact eachStep_of_invariant (fun w h hw => known_step hread hw h)
    (fun w h hw => current_of_known hone hw h.1) ls known_init

/-! ## Ann, and Bob -/

section Examples
variable {home : SocketAddr → Option (Token × Token × Token)} {amb : Ambient} {text : Str}
  {src : SocketAddr} {s c n : Token} {natArg : Option Token}

theorem honest_connect (hreq : Request.ofText text = .connect s c n natArg)
    (hsrc : home src = some (s, c, n)) : Honest home (.server (.message amb text src)) where
  connects hlm hreq' := by
    cases hlm
    cases hreq.symm.trans hreq'
    exact hsrc
  stays hlm hreq' := by
    cases hlm
    cases hreq.symm.trans hreq'
  typed hlm hreq' := by
    cases hlm
    cases hreq.symm.trans hreq'
  noReport hlm hreq' := by
    cases hlm
    cases hreq.symm.trans hreq'

end Examples

/-- Ann is at one address, and Bob at some. -/
def annAndBobAt (bob : List SocketAddr) (a : SocketAddr) : Option (Token × Token × Token) :=
  if a = .v4 ⟨10, 0, 0, 1⟩ 4000 then
    some (⟨"s".toList, isWord_s⟩, ⟨"c".toList, isWord_c⟩, ⟨"ann".toList, isWord_ann⟩)
  else if a ∈ bob then
    some (⟨"s".toList, isWord_s⟩, ⟨"c".toList, isWord_c⟩, ⟨"bob".toList, isWord_bob⟩)
  else none

theorem ofText_annConnects : Request.ofText "CONNECT s c ann CONE".toList =
    .connect ⟨"s".toList, isWord_s⟩ ⟨"c".toList, isWord_c⟩ ⟨"ann".toList, isWord_ann⟩
      (some natTypeCone) := by
  decide +kernel

theorem ofText_bobConnects : Request.ofText "CONNECT s c bob CONE".toList =
    .connect ⟨"s".toList, isWord_s⟩ ⟨"c".toList, isWord_c⟩ ⟨"bob".toList, isWord_bob⟩
      (some natTypeCone) := by
  decide +kernel

/-- Ann connects. -/
def annConnects (bob : List SocketAddr) : HonestHappening (annAndBobAt bob) :=
  ⟨.server (.message ⟨0, 7⟩ "CONNECT s c ann CONE".toList (.v4 ⟨10, 0, 0, 1⟩ 4000)),
    honest_connect ofText_annConnects (if_pos rfl)⟩

/-- Bob connects, from one of his addresses. -/
def bobConnects (bob : List SocketAddr) (now : Instant) (a : SocketAddr)
    (hann : a ≠ .v4 ⟨10, 0, 0, 1⟩ 4000) (ha : a ∈ bob) : HonestHappening (annAndBobAt bob) :=
  ⟨.server (.message ⟨now, 8⟩ "CONNECT s c bob CONE".toList a),
    honest_connect ofText_bobConnects ((if_neg hann).trans (if_pos ha))⟩

theorem oneAddress_bobAt (b : SocketAddr) : OneAddress (annAndBobAt [b]) := by
  intro a a' x ha ha'
  have hname : ∀ {y z : Token × Token × Token}, some y = some x → some z = some x → y = z := by
    rintro y z ⟨⟩ ⟨⟩
    rfl
  unfold annAndBobAt at ha ha'
  split_ifs at ha ha' with h₁ h₁' h₂' h₂ h₁' h₂'
  · rw [h₁, h₁']
  · exact absurd (hname ha ha') (by decide)
  · exact absurd (hname ha ha') (by decide)
  · rw [List.mem_singleton.mp h₂, List.mem_singleton.mp h₂']

/-- Bob falls silent where he is, and is reported. -/
theorem spared_bob :
    let server : SocketAddr := .v4 ⟨10, 0, 0, 9⟩ 2131
    let second : Nat := 10 ^ 9
    let bobs : List SocketAddr := [.v4 ⟨10, 0, 0, 2⟩ 4000]
    let home := annAndBobAt bobs
    let run : List (HonestHappening home) :=
      [annConnects bobs,
        bobConnects bobs (1 * second) (.v4 ⟨10, 0, 0, 2⟩ 4000) (by decide) (by decide),
        ⟨.keepalive (65 * second) (.v4 ⟨10, 0, 0, 1⟩ 4000), trivial⟩,
        ⟨.reported ⟨66 * second, 10⟩ 0, trivial⟩]
    EachStep (World.go server home) (fun w h => SparesSessions server home w h.1) .init run := by
  intro server second bobs home run
  have hipv4 : ∀ a x, home a = some x → ∃ ip port, a = .v4 ip port := by
    intro a x ha
    change annAndBobAt _ a = some x at ha
    unfold annAndBobAt at ha
    split_ifs at ha with hann hbob
    · exact ⟨_, _, hann⟩
    · exact ⟨_, _, List.mem_singleton.mp hbob⟩
  exact (spared_iff server home run).1.mpr
    ((spared_iff server home run).2 hipv4 (oneAddress_bobAt _))

/-- Ann relays.  Bob connects, and a second later from another address, from where
he answers Ann; the old entry is dropped, and Bob is out of the channel. -/
theorem not_spared_bob :
    let server : SocketAddr := .v4 ⟨10, 0, 0, 9⟩ 2131
    let second : Nat := 10 ^ 9
    let bobs : List SocketAddr := [.v4 ⟨10, 0, 0, 2⟩ 4000, .v4 ⟨10, 0, 0, 3⟩ 4000]
    let home := annAndBobAt bobs
    let run : List (HonestHappening home) :=
      [annConnects bobs,
        bobConnects bobs (1 * second) (.v4 ⟨10, 0, 0, 2⟩ 4000) (by decide) (by decide),
        bobConnects bobs (2 * second) (.v4 ⟨10, 0, 0, 3⟩ 4000) (by decide) (by decide),
        ⟨.arrival (50 * second) (.v4 ⟨10, 0, 0, 3⟩ 4000) (.v4 ⟨10, 0, 0, 1⟩ 4000)
          (asBytes msgPong.text), .word (Or.inr (Or.inl rfl)) rfl⟩,
        ⟨.keepalive (65 * second) (.v4 ⟨10, 0, 0, 1⟩ 4000), trivial⟩,
        ⟨.reported ⟨66 * second, 10⟩ 0, trivial⟩]
    ¬ EachStep (World.go server home) (fun w h => SparesSessions server home w h.1) .init run := by
  intro server second bobs home run h
  let bob : User :=
    ⟨3, ⟨"bob".toList, isWord_bob⟩, .v4 ⟨10, 0, 0, 3⟩ 4000, 2 * second, false, .cone⟩
  let ann : User := ⟨1, ⟨"ann".toList, isWord_ann⟩, .v4 ⟨10, 0, 0, 1⟩ 4000, 0, false, .cone⟩
  have hlast := (sparesSessions_iff _ _).mp h.2.2.2.2.2.1
  have haddr := hlast
    { src := .v4 ⟨10, 0, 0, 1⟩ 4000
      serverId := ⟨"s".toList, isWord_s⟩
      channelName := ⟨"c".toList, isWord_c⟩
      peer := newPeer (1 * second) ⟨"bob".toList, isWord_bob⟩ (.v4 ⟨10, 0, 0, 2⟩ 4000) }
    (by decide +kernel) ⟨7, 4, [ann, bob], some ann.name⟩ bob (by decide +kernel)
    (List.mem_cons_of_mem _ List.mem_cons_self) rfl
  exact absurd haddr (by decide)

end NatPiercer.System
