/-
# `System.ActingRelay` — does anybody else act as relay?

A client acts as relay from its first `MODE RELAY` on; it is never told to
stop.  So every member that acts is the one on record, as long as nobody on
record is taken off it while still a member.  Two steps do that:

* a `CONNECT` of a newcomer holds an election, and the relay on record is
  not elected again when it has come to need the server;
* a heartbeat pass that leaves one member, which needs the server, takes it
  off record, and may have called it just before: the lone promotion of
  `handle_timed_out_user` does not look at what the member needs.
-/
import NatPiercer.System.Handover
import NatPiercer.System.Joint

namespace NatPiercer.System

open Text Utf8 Net Proto LockProg Signaling Client

/-- Every member whose client acts as relay is the one on record. -/
def OnlyRecordedRelays (o : Joint) : Prop :=
  ∀ s c ch u, o.map.channel? s c = some ch → u ∈ ch.users →
    (o.clients u.addr).isRelay = true → ch.relay = some u.name

/-- What a step must not do: hold an election for a newcomer while a member acts
that needs the server, or leave a sole member that needs the server and acts,
or is called. -/
def SparesActing (o : Joint) : ServerStep → Prop
  | .message _ text src =>
      match Request.ofText text with
      | .connect s c n _ => ∀ ch, o.map.channel? s c = some ch →
          (∀ u ∈ ch.users, u.isSession n src = false) →
          ∀ u ∈ ch.users, (o.clients u.addr).isRelay = true → u.needsServerRelay = false
      | _ => True
  | .heartbeat now => ∀ s c ch u, o.map.channel? s c = some ch → ch.survivors now = [u] →
      u.needsServerRelay = true → (o.clients u.addr).isRelay = false ∧ HandedOver now ch
  | .relayout _ _ => True

/-! ## Who acts after a step -/

section Step
variable {dir : Directory} {server : SocketAddr} {o : Joint} {l : ServerStep} {s c n : Token}
  {a : SocketAddr} {ch ch' : Channel}

/-- What is sent on behalf of a channel goes to clients whose home it is. -/
theorem home_of_told (hh : dir.AtHome o.map) (hl : dir.admits l = true) {d : Datagram}
    (hd : d ∈ l.told s c (o.map.channel? s c)) : ∃ n, dir.home d.dst = some (s, c, n) :=
  resident_told hh (fun hlm hreq => home_of_connect hl hlm hreq)
    (fun hlm => (request_of_admits hl hlm).1 _ _ _) hd

/-- A client hears of its own channel only. -/
theorem acting_iff (hh : dir.AtHome o.map) (l : dir.Step) (ha : dir.home a = some (s, c, n)) :
    ((dir.step server o l).clients a).isRelay = true ↔
      ((o.boot l).clients a).isRelay = true ∨
        ∃ d ∈ l.1.told s c (o.map.channel? s c), d.dst = a ∧ summons d.payload = true := by
  have hspoken : ∀ amb text src, l.1 = .message amb text src →
      Request.ofText text ≠ .natProbe ∧ Request.ofText text ≠ .data := fun _ _ _ hlm =>
    (request_of_admits l.2 hlm).2
  rw [Directory.step, step_isRelay, boot_map]
  refine or_congr_right ⟨?_, ?_⟩
  · rintro ⟨d, hd, rfl, hsum⟩
    obtain ⟨s', c', htold⟩ := told_of_mem_sent hspoken hd
    obtain ⟨m, hm⟩ := home_of_told hh l.2 htold
    rw [ha, Option.some.injEq, Prod.mk.injEq, Prod.mk.injEq] at hm
    obtain ⟨rfl, rfl, -⟩ := hm
    exact ⟨d, htold, rfl, hsum⟩
  · rintro ⟨d, hd, hdst, hsum⟩
    exact ⟨d, mem_sent_of_told hd, hdst, hsum⟩

/-- A client that starts does not act; the others are as they were. -/
theorem boot_acting : ((o.boot l).clients a).isRelay = true ↔
    (∀ m, boots l ≠ some (a, m)) ∧ (o.clients a).isRelay = true := by
  unfold Joint.boot
  cases hb : boots l with
  | none => simp
  | some started =>
      obtain ⟨src, m⟩ := started
      dsimp only
      by_cases ha : a = src
      · subst ha
        rw [Function.update_self]
        refine iff_of_false Bool.false_ne_true fun h => h.1 m rfl
      · rw [Function.update_of_ne ha]
        refine ⟨fun h => ⟨fun m hm => ha ?_, h⟩, fun h => h.2⟩
        exact (Prod.mk.inj (Option.some.inj hm)).1.symm

/-- A step that changes no place of a member and takes no member off record. -/
def Kept (ch ch' : Channel) : Prop :=
  ∀ u ∈ ch'.users, (∃ v ∈ ch.users, v.name = u.name ∧ v.addr = u.addr) ∧
    (ch.relay = some u.name → ch'.relay = some u.name)

theorem kept_standing (h : SameStanding ch ch') : Kept ch ch' := by
  intro u hu
  obtain ⟨v, hv, hvu⟩ := h.user hu
  exact ⟨⟨v, hv, hvu.1, hvu.2.1⟩, fun hr => h.2.trans hr⟩

theorem kept_removePeer : Kept ch (ch.removePeer n) := by
  intro u hu
  rw [removePeer_users] at hu
  refine ⟨⟨u, (mem_others.mp hu).1, rfl, rfl⟩, fun hr => ?_⟩
  rw [removePeer_relay, hr]
  by_cases hlen : (ch.others n).length = 1
  · obtain ⟨v, hv⟩ := List.length_eq_one_iff.mp hlen
    rw [hv, List.mem_singleton] at hu
    rw [hv, hu]
    rfl
  · exact soleOr_of_length _ hlen

theorem kept_requestRelay : Kept ch (ch.requestRelay n) := by
  intro u hu
  refine ⟨?_, id⟩
  rcases Vec.mem_modifyFirst hu with hu | ⟨v, hv, -, rfl⟩
  · exact ⟨u, hu, rfl, rfl⟩
  · exact ⟨v, hv, rfl, rfl⟩

/-- The property at one channel. -/
def RecordedAt (o : Joint) (s c : Token) : Prop :=
  ∀ ch u, o.map.channel? s c = some ch → u ∈ ch.users → (o.clients u.addr).isRelay = true →
    ch.relay = some u.name

/-- `CONNECT`s to the channel, and passes, are looked at below. -/
def Elsewhere (s c : Token) (l : ServerStep) : Prop :=
  (∀ now, l ≠ .heartbeat now) ∧ ∀ amb text src n natArg, l = .message amb text src →
    Request.ofText text ≠ .connect s c n natArg

theorem silent_told (hl : dir.admits l = true) (he : Elsewhere s c l) :
    ∀ d ∈ l.told s c (o.map.channel? s c), summons d.payload = false := by
  intro d hd
  have hnobody : ∀ {told : SocketAddr → Prop} {ds : List Datagram}, Tells told Nobody ds → d ∈ ds →
      summons d.payload = false := fun h hd => by
    by_contra hsum
    exact (h d hd).2 (by simpa using hsum)
  have htelling := telling_of_told hd
  generalize o.map.channel? s c = before at htelling
  cases htelling with
  | connect hlm hreq hd => exact absurd hreq (he.2 _ _ _ _ _ hlm)
  | disconnect hlm hreq hd => exact absurd hreq ((request_of_admits hl hlm).1 s c _)
  | peerTimeout hlm hreq hd => exact hnobody tells_peerTimeout hd
  | requestRelay hlm hreq hd => exact hnobody tells_relayRequested hd
  | heartbeat hlm hd => exact absurd hlm (he.1 _)

variable (server) in
theorem step_channel? (o : Joint) (l : dir.Step) (s c : Token) :
    (dir.step server o l).map.channel? s c = l.1.effect s c (o.map.channel? s c) := by
  rw [Directory.step, step_map, boot_map, channel?_step]

variable (server s c) in
/-- Whatever happens elsewhere, the members that act are still on record. -/
theorem recorded_elsewhere (hh : dir.AtHome o.map) (hp : OnlyRecordedRelays o) (l : dir.Step)
    (he : Elsewhere s c l) : RecordedAt (dir.step server o l) s c := by
  intro ch' u hch' hu hacting
  have hhome : dir.home u.addr = some (s, c, u.name) := by
    refine atHome_step hh l.2 s c ch' u ?_ hu
    rw [channel?_step, ← step_channel? server o l s c, hch']
  rw [step_channel?] at hch'
  have hold : (o.clients u.addr).isRelay = true := by
    rcases (acting_iff hh l hhome).mp hacting with hboot | ⟨d, hd, -, hsum⟩
    · exact (boot_acting.mp hboot).2
    · rw [silent_told l.2 he d hd] at hsum
      exact absurd hsum Bool.false_ne_true
  have hkept : ∀ ch, o.map.channel? s c = some ch → Kept ch ch' → ch'.relay = some u.name := by
    intro ch ho hk
    obtain ⟨⟨v, hv, hname, haddr⟩, hr⟩ := hk u hu
    refine hr (hname ▸ hp s c ch v ho hv ?_)
    rwa [haddr]
  have hchange := change_of_effect hch'
  generalize ho : o.map.channel? s c = before at hchange
  cases hchange with
  | standing hst => exact hkept _ ho (kept_standing hst)
  | connect hlm hreq => exact absurd hreq (he.2 _ _ _ _ _ hlm)
  | evict hlm hreq hc =>
      exact hkept _ ho fun v hv => ⟨⟨v, (List.mem_filter.mp hv).1, rfl, rfl⟩, id⟩
  | disconnect hlm hreq => exact absurd hreq ((request_of_admits l.2 hlm).1 s c _)
  | peerTimeout hlm hreq => exact hkept _ ho kept_removePeer
  | requestRelay hlm hreq => exact hkept _ ho kept_requestRelay
  | heartbeat hlm hhb => exact absurd hlm (he.1 _)

theorem addrsApart (hh : dir.AtHome o.map) (ho : o.map.channel? s c = some ch)
    (hn : ch.WellNamed) : AddrsApart ch := by
  intro x hx y hy hxy
  have hhome := hh s c ch x ho hx
  rw [hxy, hh s c ch y ho hy, Option.some.injEq, Prod.mk.injEq, Prod.mk.injEq] at hhome
  exact hn.eq_of_name hx hy hhome.2.2.symm

/-! ### A pass, at its channel -/

section Pass
variable {now : Instant} {u : User} (acts : SocketAddr → Prop)

/-- Who is left alone and needs the server is taken off record; so it must not act, and
must not be called. -/
theorem idle_of_recorded (hwell : ch.WellNamed) (hapart : AddrsApart ch)
    (h : ∀ ch', ch.heartbeat now = some ch' → ∀ u ∈ ch'.users,
      acts u.addr ∨ Calls u.addr (ch.expire now).2 → ch'.relay = some u.name)
    (hsole : ch.survivors now = [u]) (hneeds : u.needsServerRelay = true) :
    ¬ acts u.addr ∧ HandedOver now ch := by
  have husers : (ch.expireAndSettle now).1.users = ch.survivors now := expireAndSettle_users ch
  have hbeat : ch.heartbeat now = some (ch.expireAndSettle now).1 := by
    rw [Channel.heartbeat, if_neg]
    rw [husers, hsole]
    exact Bool.false_ne_true
  have hmem : u ∈ (ch.expireAndSettle now).1.users := by
    rw [husers, hsole]
    exact List.mem_singleton_self u
  obtain ⟨-, ⟨v, hv, hrelay⟩ | ⟨hlen, -⟩⟩ := heartbeat_eq_some hbeat
  · obtain rfl := (List.cons.inj (hsole.symm.trans hv)).1
    have hnot : ¬ (acts u.addr ∨ Calls u.addr (ch.expire now).2) := by
      intro hacting
      have hr := h _ hbeat u hmem hacting
      rw [hrelay, if_pos hneeds] at hr
      exact absurd hr (Option.some_ne_none u.name).symm
    rwa [calls_sole_iff hwell hapart hsole hneeds, not_or, not_not] at hnot
  · rw [hsole] at hlen
    exact absurd hlen (Nat.not_le.mpr Nat.one_lt_two)

theorem recorded_of_idle (hwell : ch.WellNamed) (hapart : AddrsApart ch)
    (hrecorded : ∀ u ∈ ch.users, acts u.addr → ch.relay = some u.name)
    (hidle : ∀ u, ch.survivors now = [u] → u.needsServerRelay = true →
      ¬ acts u.addr ∧ HandedOver now ch)
    (hch' : ch.heartbeat now = some ch') (hu : u ∈ ch'.users)
    (hacting : acts u.addr ∨ Calls u.addr (ch.expire now).2) : ch'.relay = some u.name := by
  obtain ⟨husers, ⟨v, hv, hrelay⟩ | ⟨-, rfl⟩⟩ := heartbeat_eq_some hch'
  · rw [husers, hv, List.mem_singleton] at hu
    subst hu
    rw [hrelay]
    split_ifs with hneeds
    · exfalso
      obtain ⟨hstill, hover⟩ := hidle u hv hneeds
      rcases hacting with hold | hcall
      · exact hstill hold
      · exact (calls_sole_iff hwell hapart hv hneeds).mp hcall hover
    · rfl
  · rw [husers] at hu
    refine relay_of_called hwell hapart hu (hacting.imp_left fun hold => ?_)
    exact hrecorded u (List.mem_filter.mp hu).1 hold

end Pass

/-- A pass keeps the property at a channel exactly when it spares the member it
leaves alone. -/
theorem recorded_heartbeat_iff (hh : dir.AtHome o.map) (hn : Everywhere Channel.WellNamed o.map)
    (hp : OnlyRecordedRelays o) (l : dir.Step) {now : Instant} (hl : l.1 = .heartbeat now) :
    RecordedAt (dir.step server o l) s c ↔
      ∀ ch u, o.map.channel? s c = some ch → ch.survivors now = [u] →
        u.needsServerRelay = true →
        (o.clients u.addr).isRelay = false ∧ HandedOver now ch := by
  cases ho : o.map.channel? s c with
  | none =>
      refine iff_of_true (fun ch' u hch' => ?_) fun ch _ h =>
        absurd h (Option.some_ne_none ch).symm
      rw [step_channel?, hl, ho] at hch'
      exact absurd hch' (Option.some_ne_none ch').symm
  | some ch =>
      have hwell := hn s c ch ho
      have hapart := addrsApart hh ho hwell
      have hchannel : (dir.step server o l).map.channel? s c = ch.heartbeat now := by
        rw [step_channel?, hl, ho]
        rfl
      -- whom the pass calls
      have hcalled : ∀ u ∈ ch.users, ((dir.step server o l).clients u.addr).isRelay = true ↔
          (o.clients u.addr).isRelay = true ∨ Calls u.addr (ch.expire now).2 := by
        intro u hu
        rw [acting_iff hh l (hh s c ch u ho hu), boot_acting, hl, ho]
        have hboot : ∀ m, boots (.heartbeat now) ≠ some (u.addr, m) := fun m =>
          (Option.some_ne_none (u.addr, m)).symm
        refine or_congr (and_iff_right hboot) ⟨?_, fun h => ?_⟩
        · rintro ⟨d, hd, hdst, hsum⟩
          exact hdst ▸ (tells_heartbeatTold now ch d hd).2 hsum
        · exact ⟨_, mem_heartbeatTold h, rfl, summons_line .relay⟩
      have hmember : ∀ ch', ch.heartbeat now = some ch' → ∀ u ∈ ch'.users, u ∈ ch.users := by
        intro ch' hch' u hu
        rw [(heartbeat_eq_some hch').1] at hu
        exact (List.mem_filter.mp hu).1
      let acting : SocketAddr → Prop := fun a => (o.clients a).isRelay = true
      constructor
      · intro h ch₁ u hch₁ hsole hneeds
        obtain rfl := Option.some.inj hch₁
        obtain ⟨hidle, hover⟩ := idle_of_recorded acting hwell hapart (fun ch' hch' v hv hnow =>
          h ch' v (hchannel.trans hch') hv ((hcalled v (hmember ch' hch' v hv)).mpr hnow))
          hsole hneeds
        exact ⟨Bool.eq_false_of_not_eq_true hidle, hover⟩
      · intro h ch' u hch' hu hacting
        rw [hchannel] at hch'
        refine recorded_of_idle acting hwell hapart (fun v hv => hp s c ch v ho hv)
          (fun v hsole hneeds => ?_) hch' hu ((hcalled u (hmember ch' hch' u hu)).mp hacting)
        obtain ⟨hidle, hover⟩ := h ch v rfl hsole hneeds
        exact ⟨Bool.eq_false_iff.mp hidle, hover⟩

/-! ### A `CONNECT`, at its channel -/

section Connect
variable (amb : Ambient) (nat : Signaling.NatKind) {src : SocketAddr} {u : User}

/-- Who acts once `src` has started and the answers have arrived: who acted before,
elsewhere, and who is called. -/
def ActsNow (acts : SocketAddr → Prop) (src : SocketAddr) (sent : List Datagram)
    (a : SocketAddr) : Prop :=
  (a ≠ src ∧ acts a) ∨ ∃ d ∈ sent, d.dst = a ∧ summons d.payload = true

variable (acts : SocketAddr → Prop) (hsrc : dir.home src = some (s, c, n))
  (hhome : ∀ u ∈ ch.users, dir.home u.addr = some (s, c, u.name))

include hsrc hhome

theorem away_of_new (hnew : ∀ u ∈ ch.users, u.isSession n src = false) (hu : u ∈ ch.users) :
    u.addr ≠ src := by
  intro haddr
  have hname := hhome u hu
  rw [haddr, hsrc, Option.some.injEq, Prod.mk.injEq, Prod.mk.injEq] at hname
  have hsess := hnew u hu
  rw [isSession_iff.mpr ⟨hname.2.2.symm, haddr⟩] at hsess
  exact absurd hsess.symm Bool.false_ne_true

/-- The election for a newcomer is won by whoever acts, so that one is eligible. -/
theorem spared_of_recorded (hwell : ch.WellNamed)
    (h : ∀ u ∈ (ch.connect amb n nat src).1.users,
      ActsNow acts src (ch.connect amb n nat src).2 u.addr →
      (ch.connect amb n nat src).1.relay = some u.name)
    (hnew : ∀ u ∈ ch.users, u.isSession n src = false) (hu : u ∈ ch.users) (hold : acts u.addr) :
    u.needsServerRelay = false := by
  have hothers := others_eq_users hsrc hhome hnew
  have hne : ch.others n ≠ [] := by
    rw [hothers]
    exact List.ne_nil_of_mem hu
  have helect := (connect_elect amb nat hnew hne).1
  have husers : (ch.connect amb n nat src).1.users = ch.users ++ [ch.newUser amb n nat src] := by
    rw [helect, elect_users, joined_users amb nat hnew, hothers]
  have hmem : u ∈ (ch.connect amb n nat src).1.users := by
    rw [husers]
    exact List.mem_append_left _ hu
  have hrelay := h u hmem (Or.inl ⟨away_of_new hsrc hhome hnew hu, hold⟩)
  rw [helect, elect_relay] at hrelay
  obtain ⟨v, hv, hname⟩ := Option.map_eq_some_iff.mp hrelay
  have hvu : v = u := by
    refine (wellNamed_connect hwell amb n nat src).eq_of_name ?_ hmem hname
    rw [helect, elect_users]
    exact List.mem_of_find?_eq_some hv
  have helig := List.find?_some hv
  rw [hvu] at helig
  exact needs_of_eligible u helig

/-- Who acted before is on record still, if the election has to take it. -/
theorem recorded_of_acted (horder : ch.InOrder)
    (hrecorded : ∀ u ∈ ch.users, acts u.addr → ch.relay = some u.name)
    (hspared : (∀ u ∈ ch.users, u.isSession n src = false) →
      ∀ u ∈ ch.users, acts u.addr → u.needsServerRelay = false)
    (hu : u ∈ (ch.connect amb n nat src).1.users) (haddr : u.addr ≠ src) (hold : acts u.addr) :
    (ch.connect amb n nat src).1.relay = some u.name := by
  rcases session_or_new n src ch with h | hnew
  · obtain ⟨hst, -⟩ := connect_of_session amb nat h
    obtain ⟨⟨v, hv, hname, hva⟩, hr⟩ := kept_standing hst u hu
    exact hr (hname ▸ hrecorded v hv (hva ▸ hold))
  · have hothers := others_eq_users hsrc hhome hnew
    by_cases hne : ch.others n = []
    · -- the newcomer has just started
      rw [(connect_lone amb nat hnew hne).1, List.mem_singleton] at hu
      exact absurd (by rw [hu, newUser_addr]) haddr
    · have helect := (connect_elect amb nat hnew hne).1
      rw [helect, elect_users, joined_users amb nat hnew, hothers] at hu
      have hmem : u ∈ ch.users := by
        rcases List.mem_append.mp hu with hu | hu
        · exact hu
        · rw [List.mem_singleton] at hu
          exact absurd (by rw [hu, newUser_addr]) haddr
      rw [helect, elect_relay]
      exact electedName_joined amb nat horder hnew (mem_others.mp (hothers ▸ hmem)).2 hmem
        (hrecorded u hmem hold) (hspared hnew u hmem hold)

/-- Who is called is put on record. -/
theorem recorded_of_called (hu : u ∈ (ch.connect amb n nat src).1.users) {d : Datagram}
    (hd : d ∈ (ch.connect amb n nat src).2) (hdst : d.dst = u.addr)
    (hsum : summons d.payload = true) : (ch.connect amb n nat src).1.relay = some u.name := by
  have hhome' := users_connect amb nat hsrc hhome
  obtain ⟨hnew, ⟨hne, -, hnone, hnat⟩ | ⟨hne, r, hr, -, hra⟩⟩ :=
    (tells_connect amb nat d hd).2 hsum
  · obtain ⟨husers, hrelay, -⟩ := connect_lone amb nat hnew hne
    rw [husers, List.mem_singleton] at hu
    rw [hrelay, if_pos ⟨hnone, hnat⟩, hu, newUser_name]
  · have helect := (connect_elect amb nat hnew hne).1
    have hrmem : r ∈ (ch.connect amb n nat src).1.users := by
      rw [helect, elect_users]
      exact List.mem_of_find?_eq_some hr
    have hname := hhome' r hrmem
    rw [hra, hdst, hhome' u hu, Option.some.injEq, Prod.mk.injEq, Prod.mk.injEq] at hname
    rw [helect, elect_relay, electedName, show (ch.joined amb n nat src).users.find?
      User.eligible = some r from hr, Option.map_some, hname.2.2]

end Connect

variable (server) in
/-- A `CONNECT` keeps the property at its channel exactly when no member acts, of
those that a newcomer finds there, that needs the server. -/
theorem recorded_connect_iff {amb : Ambient} {text : Str} {src : SocketAddr}
    {natArg : Option Token} (hh : dir.AtHome o.map) (hi : Everywhere Channel.InOrder o.map)
    (hp : OnlyRecordedRelays o) (l : dir.Step) (hl : l.1 = .message amb text src)
    (hreq : Request.ofText text = .connect s c n natArg) :
    RecordedAt (dir.step server o l) s c ↔
      ∀ ch, o.map.channel? s c = some ch → (∀ u ∈ ch.users, u.isSession n src = false) →
        ∀ u ∈ ch.users, (o.clients u.addr).isRelay = true → u.needsServerRelay = false := by
  have hsrc := home_of_connect l.2 hl hreq
  have hboots : boots l.1 = some (src, n) := by
    rw [hl, boots, hreq]
  have hchannel : (dir.step server o l).map.channel? s c =
      some (((o.map.channel? s c).getD .default).connect amb n (NatKind.ofArg natArg) src).1 := by
    rw [step_channel?, hl]
    change (Request.ofText text).effect amb src s c _ = _
    rw [hreq, Request.effect, if_pos ⟨rfl, rfl⟩]
  have htold : l.1.told s c (o.map.channel? s c) =
      (((o.map.channel? s c).getD .default).connect amb n (NatKind.ofArg natArg) src).2 := by
    rw [hl]
    change (Request.ofText text).told amb src s c _ = _
    rw [hreq, Request.told, if_pos ⟨rfl, rfl⟩]
  let acting : SocketAddr → Prop := fun a => (o.clients a).isRelay = true
  have hacts : ∀ u : User, dir.home u.addr = some (s, c, u.name) →
      (((dir.step server o l).clients u.addr).isRelay = true ↔
        ActsNow acting src
          (((o.map.channel? s c).getD .default).connect amb n (NatKind.ofArg natArg) src).2
          u.addr) := by
    intro u hu
    rw [acting_iff hh l hu, boot_acting, hboots, htold]
    refine or_congr_left (and_congr_left' ⟨fun h heq => h n (by rw [heq]), fun h m hm => h ?_⟩)
    exact (Prod.mk.inj (Option.some.inj hm)).1.symm
  -- the default channel, of a first `CONNECT`, has no users
  have hcond : (∀ ch, o.map.channel? s c = some ch → (∀ u ∈ ch.users, u.isSession n src = false) →
      ∀ u ∈ ch.users, (o.clients u.addr).isRelay = true → u.needsServerRelay = false) ↔
      ((∀ u ∈ ((o.map.channel? s c).getD .default).users, u.isSession n src = false) →
        ∀ u ∈ ((o.map.channel? s c).getD .default).users, (o.clients u.addr).isRelay = true →
        u.needsServerRelay = false) := by
    cases o.map.channel? s c with
    | none => simp [Channel.default]
    | some ch => simp
  have hhome := atHome_default (s := s) (c := c) hh
  have hrecorded : ∀ u ∈ ((o.map.channel? s c).getD .default).users,
      (o.clients u.addr).isRelay = true →
      ((o.map.channel? s c).getD .default).relay = some u.name := by
    cases hch : o.map.channel? s c with
    | none => exact fun u hu => absurd hu List.not_mem_nil
    | some ch => exact fun u hu => hp s c ch u hch hu
  have horder := Everywhere.getD hi inOrder_default s c
  rw [hcond]
  unfold RecordedAt
  rw [hchannel]
  generalize (o.map.channel? s c).getD .default = ch at hacts hhome hrecorded horder ⊢
  generalize NatKind.ofArg natArg = nat at hacts ⊢
  have hhome' := users_connect amb nat hsrc hhome
  constructor
  · intro h hnew u hu hold
    refine spared_of_recorded amb nat acting hsrc hhome horder.wellNamed (fun v hv hnow => ?_)
      hnew hu hold
    exact h _ v rfl hv ((hacts v (hhome' v hv)).mpr hnow)
  · rintro hspared _ u ⟨rfl⟩ hu hacting
    rcases (hacts u (hhome' u hu)).mp hacting with ⟨haddr, hold⟩ | ⟨d, hd, hdst, hsum⟩
    · exact recorded_of_acted amb nat acting hsrc hhome horder hrecorded hspared hu haddr hold
    · exact recorded_of_called amb nat hsrc hhome hu hd hdst hsum

end Step

/-! ## Along a run -/

section Run
variable {dir : Directory} {server : SocketAddr} {o : Joint}

/-- What every step keeps. -/
def Sound (dir : Directory) (o : Joint) : Prop :=
  dir.AtHome o.map ∧ Everywhere Channel.InOrder o.map

theorem sound_step (l : dir.Step) (h : Sound dir o) : Sound dir (dir.step server o l) := by
  unfold Sound
  rw [Directory.step, step_map, boot_map]
  exact ⟨atHome_step h.1 l.2, inOrder_step l.1 h.2⟩

/-- A step keeps the property exactly when it spares whoever acts. -/
theorem onlyRecorded_step_iff (l : dir.Step) (h : Sound dir o) (hp : OnlyRecordedRelays o) :
    OnlyRecordedRelays (dir.step server o l) ↔ SparesActing o l := by
  have hwell : Everywhere Channel.WellNamed o.map := fun s c ch hch => (h.2 s c ch hch).wellNamed
  change (∀ s c, RecordedAt (dir.step server o l) s c) ↔ _
  have helse := fun (s c : Token) => recorded_elsewhere server s c h.1 hp l
  cases hl : l.1 with
  | relayout s' c' =>
      refine iff_of_true (fun s c => helse s c ?_) trivial
      rw [hl]
      exact ⟨fun _ => by simp, fun _ _ _ _ _ hlm => by simp at hlm⟩
  | heartbeat now =>
      unfold SparesActing
      exact forall₂_congr fun s c => recorded_heartbeat_iff h.1 hwell hp l hl
  | message amb text src =>
      unfold SparesActing
      dsimp only
      have hother : ∀ s c, (∀ n natArg, Request.ofText text ≠ .connect s c n natArg) →
          RecordedAt (dir.step server o l) s c := by
        intro s c hne
        refine helse s c ?_
        rw [hl]
        refine ⟨fun _ => by simp, ?_⟩
        rintro _ _ _ n natArg ⟨rfl⟩
        exact hne n natArg
      cases hreq : Request.ofText text with
      | connect s c n natArg =>
          dsimp only
          rw [← recorded_connect_iff server h.1 h.2 hp l hl hreq]
          refine ⟨fun hall => hall s c, fun hat s' c' => ?_⟩
          by_cases hsc : s' = s ∧ c' = c
          · rw [hsc.1, hsc.2]
            exact hat
          · refine hother s' c' fun m arg hm => hsc ?_
            rw [hreq] at hm
            simp only [Request.connect.injEq] at hm
            exact ⟨hm.1.symm, hm.2.1.symm⟩
      | natProbe | pong | hb _ _ _ | disconnect _ _ _ | peerTimeout _ _ _ | requestRelay _ _ _
      | data | unknown =>
          refine iff_of_true (fun s c => hother s c fun m arg hm => ?_) trivial
          rw [hreq] at hm
          simp at hm

/-- **When only the recorded relay acts as relay.**  Along a run of honest
clients, every member that acts is on record, in every state, exactly when
every step spares whoever acts. -/
theorem onlyRecorded_always_iff (dir : Directory) (server : SocketAddr) (ls : List dir.Step) :
    Always (dir.step server) OnlyRecordedRelays .init ls ↔
      EachStep (dir.step server) (fun o l => SparesActing o l) .init ls :=
  always_iff_eachStep (J := Sound dir) (fun _ l h => sound_step l h)
    (fun _ l h hp => onlyRecorded_step_iff l h hp) ls
    ⟨fun _ _ ch _ h => absurd h (Option.some_ne_none ch).symm, everywhere_empty _⟩
    fun _ _ ch _ h => absurd h (Option.some_ne_none ch).symm

/-- And then no two members of a channel act. -/
theorem acting_unique {s c : Token} {ch : Channel} {u v : User} (h : Sound dir o)
    (hp : OnlyRecordedRelays o) (ho : o.map.channel? s c = some ch) (hu : u ∈ ch.users)
    (hv : v ∈ ch.users) (hua : (o.clients u.addr).isRelay = true)
    (hva : (o.clients v.addr).isRelay = true) : u = v := by
  have hname := (hp s c ch u ho hu hua).symm.trans (hp s c ch v ho hv hva)
  exact (h.2 s c ch ho).wellNamed.eq_of_name hu hv (Option.some.inj hname)

end Run

/-- Ann and Bob, at home in one channel. -/
def annAndBob : Directory where
  home a :=
    if a = .v4 ⟨10, 0, 0, 1⟩ 4000 then
      some (⟨"s".toList, isWord_s⟩, ⟨"c".toList, isWord_c⟩, ⟨"ann".toList, isWord_ann⟩)
    else if a = .v4 ⟨10, 0, 0, 2⟩ 4000 then
      some (⟨"s".toList, isWord_s⟩, ⟨"c".toList, isWord_c⟩, ⟨"bob".toList, isWord_bob⟩)
    else none
  distinct := by
    intro a b s c s' c' n ha hb
    have hname : ∀ {x y : Token × Token × Token}, some x = some (s, c, n) →
        some y = some (s', c', n) → x.2.2 = y.2.2 := by
      rintro x y ⟨⟩ ⟨⟩
      rfl
    split_ifs at ha hb with ha₁ hb₁ hb₂ ha₂ hb₁ hb₂
    · rw [ha₁, hb₁]
    · exact absurd (hname ha hb) (by decide)
    · exact absurd (hname ha hb) (by decide)
    · rw [ha₂, hb₂]

/-- Ann is the relay, and somebody asks the server to relay for it.  Bob
connects, and is elected; both act. -/
theorem two_relays_act :
    let run : List annAndBob.Step :=
      [⟨.message ⟨0, 7⟩ "CONNECT s c ann CONE".toList (.v4 ⟨10, 0, 0, 1⟩ 4000),
          by decide +kernel⟩,
        ⟨.message ⟨1, 8⟩ "REQUEST_RELAY s c ann".toList (.v4 ⟨10, 0, 0, 1⟩ 4000),
          by decide +kernel⟩,
        ⟨.message ⟨2, 9⟩ "CONNECT s c bob CONE".toList (.v4 ⟨10, 0, 0, 2⟩ 4000),
          by decide +kernel⟩]
    ¬ OnlyRecordedRelays
      (after (annAndBob.step (.v4 ⟨10, 0, 0, 9⟩ 2131)) .init run) := by
  intro run h
  let ann : User := ⟨1, ⟨"ann".toList, by decide⟩, .v4 ⟨10, 0, 0, 1⟩ 4000, 0, true, .cone⟩
  let bob : User := ⟨2, ⟨"bob".toList, by decide⟩, .v4 ⟨10, 0, 0, 2⟩ 4000, 2, false, .cone⟩
  have hc : (after (annAndBob.step (.v4 ⟨10, 0, 0, 9⟩ 2131)) .init run).map.channel?
      ⟨"s".toList, by decide⟩ ⟨"c".toList, by decide⟩ =
      some ⟨7, 3, [ann, bob], some bob.name⟩ := by
    decide +kernel
  have hacts : ((after (annAndBob.step (.v4 ⟨10, 0, 0, 9⟩ 2131)) .init run).clients
      ann.addr).isRelay = true := by
    decide +kernel
  have hr := h _ _ _ ann hc List.mem_cons_self hacts
  exact absurd hr (by decide +kernel)

end NatPiercer.System
