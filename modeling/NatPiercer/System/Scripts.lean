/-
# `System.Scripts` — everything the server writes of its own accord

Beside the `WELCOME` and the `PING`, what the server sends on behalf of a
channel is control lines, one or several in a datagram (`ControlLine`).
`Scripted told ok ds` says so of the datagrams of an operation, to whom they
go, and which lines there are: about members, as a rule, by their names and
at their addresses (`LineAbout`).
-/
import NatPiercer.Client.Hearing
import NatPiercer.Signaling.ChannelCases

namespace NatPiercer.System

open Text Utf8 Net Proto LockProg Signaling Client

/-- The `WELCOME`, the `PING`, or lines that are all `ok`. -/
def Saying (ok : ControlLine → Prop) (payload : Bytes) : Prop :=
  (∃ dst cid pid, payload = (welcome dst cid pid).payload) ∨ payload = asBytes msgPing.text ∨
    ∃ ls : List ControlLine, (∀ l ∈ ls, ok l) ∧ payload = asBytes (ls.flatMap ControlLine.text)

def Scripted (told : SocketAddr → Prop) (ok : ControlLine → Prop) (ds : List Datagram) : Prop :=
  ∀ d ∈ ds, told d.dst ∧ Saying ok d.payload

/-- The line is about somebody `known`, and has the address right. -/
def LineAbout (known : Token → SocketAddr → Prop) : ControlLine → Prop
  | .relay => True
  | .direct n a => known n a
  | .serverRelay n => ∃ a, known n a
  | .userLeft n addr => ∃ a, known n a ∧ addr = a.token

section Scripted
variable {told told' : SocketAddr → Prop} {ok ok' : ControlLine → Prop} {ds ds' : List Datagram}
  {known known' : Token → SocketAddr → Prop} {l : ControlLine}

theorem LineAbout.mono (h : LineAbout known l) (hknown : ∀ n a, known n a → known' n a) :
    LineAbout known' l := by
  cases l with
  | relay => trivial
  | direct n a => exact hknown n a h
  | serverRelay n =>
      obtain ⟨a, ha⟩ := h
      exact ⟨a, hknown n a ha⟩
  | userLeft n addr =>
      obtain ⟨a, ha, haddr⟩ := h
      exact ⟨a, hknown n a ha, haddr⟩

theorem Saying.mono {payload : Bytes} (h : Saying ok payload) (hok : ∀ l, ok l → ok' l) :
    Saying ok' payload := by
  rcases h with h | h | ⟨ls, hls, h⟩
  · exact Or.inl h
  · exact Or.inr (Or.inl h)
  · exact Or.inr (Or.inr ⟨ls, fun l hl => hok l (hls l hl), h⟩)

theorem saying_line (h : ok l) : Saying ok (asBytes l.text) := by
  refine Or.inr (Or.inr ⟨[l], fun m hm => List.mem_singleton.mp hm ▸ h, ?_⟩)
  rw [List.flatMap_cons, List.flatMap_nil, List.append_nil]

theorem scripted_nil : Scripted told ok [] := fun _ hd => absurd hd List.not_mem_nil

theorem Scripted.append (h : Scripted told ok ds) (h' : Scripted told ok ds') :
    Scripted told ok (ds ++ ds') := fun d hd =>
  (List.mem_append.mp hd).elim (h d) (h' d)

theorem Scripted.mono (h : Scripted told ok ds) (htold : ∀ a, told a → told' a)
    (hok : ∀ l, ok l → ok' l) : Scripted told' ok' ds := fun d hd =>
  ⟨htold _ (h d hd).1, (h d hd).2.mono hok⟩

theorem scripted_map {α : Type} {xs : List α} (dst : α → SocketAddr) (f : α → ControlLine)
    (htold : ∀ x ∈ xs, told (dst x)) (hok : ∀ x ∈ xs, ok (f x)) :
    Scripted told ok (xs.map fun x => tell (dst x) (f x).text) := by
  intro d hd
  obtain ⟨x, hx, rfl⟩ := List.mem_map.mp hd
  exact ⟨htold x hx, saying_line (hok x hx)⟩

theorem scripted_flatMap {α : Type} {xs : List α} {f : α → List Datagram}
    (h : ∀ x ∈ xs, Scripted told ok (f x)) : Scripted told ok (xs.flatMap f) := by
  intro d hd
  obtain ⟨x, hx, hd⟩ := List.mem_flatMap.mp hd
  exact h x hx d hd

theorem scripted_tell {a : SocketAddr} (ha : told a) (hl : ok l) :
    Scripted told ok [tell a l.text] := by
  intro d hd
  rw [List.mem_singleton.mp hd]
  exact ⟨ha, saying_line hl⟩

theorem scripted_welcome {a : SocketAddr} (ha : told a) (cid : UInt64) (pid : UInt32) :
    Scripted told ok [welcome a cid pid] := by
  intro d hd
  rw [List.mem_singleton.mp hd]
  exact ⟨ha, Or.inl ⟨a, cid, pid, rfl⟩⟩

/-- A notification with several lines. -/
theorem scripted_notification {addrs : List SocketAddr} {payload : Bytes} (ls : List ControlLine)
    (hp : payload = asBytes (ls.flatMap ControlLine.text)) (ha : ∀ a ∈ addrs, told a)
    (hls : ∀ l ∈ ls, ok l) : Scripted told ok (Notification.datagrams (addrs, payload)) := by
  intro d hd
  obtain ⟨a, ha', rfl⟩ := List.mem_map.mp hd
  exact ⟨ha a ha', Or.inr (Or.inr ⟨ls, hls, hp⟩)⟩

end Scripted

/-! ## The operations on a channel -/

/-- The addresses of some users. -/
def AmongAddrs (users : List User) (a : SocketAddr) : Prop := ∃ u ∈ users, u.addr = a

/-- Their sessions. -/
def AmongSessions (users : List User) (n : Token) (a : SocketAddr) : Prop :=
  ∃ u ∈ users, u.name = n ∧ u.addr = a

section Operations
variable {ch : Channel} {n : Token} {src : SocketAddr} {users users' : List User} {u : User}

theorem amongAddrs (h : u ∈ users) : AmongAddrs users u.addr := ⟨u, h, rfl⟩

theorem amongSessions (h : u ∈ users) : AmongSessions users u.name u.addr := ⟨u, h, rfl, rfl⟩

theorem AmongSessions.of_subset (hsub : users ⊆ users') {a : SocketAddr}
    (h : AmongSessions users n a) : AmongSessions users' n a := by
  obtain ⟨u, hu, hsession⟩ := h
  exact ⟨u, hsub hu, hsession⟩

theorem AmongAddrs.of_subset (hsub : users ⊆ users') {a : SocketAddr}
    (h : AmongAddrs users a) : AmongAddrs users' a := by
  obtain ⟨u, hu, haddr⟩ := h
  exact ⟨u, hsub hu, haddr⟩

/-- Datagrams that are for some users, and about them. -/
abbrev ScriptedAmong (users : List User) (ds : List Datagram) : Prop :=
  Scripted (AmongAddrs users) (LineAbout (AmongSessions users)) ds

theorem ScriptedAmong.of_subset (hsub : users ⊆ users') {ds : List Datagram}
    (h : ScriptedAmong users ds) : ScriptedAmong users' ds :=
  h.mono (fun _ ha => ha.of_subset hsub) fun _ hl => hl.mono fun _ _ hk => hk.of_subset hsub

theorem scripted_announced (users : List User) : ScriptedAmong users (announced users) :=
  scripted_flatMap fun u hu =>
    scripted_map User.addr (fun _ => .serverRelay u.name) (fun _ hx => amongAddrs hx)
      fun _ _ => ⟨u.addr, amongSessions hu⟩

/-- An election is announced to members, and introduces members. -/
theorem scripted_elect (ch : Channel) : ScriptedAmong ch.users ch.elect.2 := by
  unfold Channel.elect
  cases h : pickEligibleRelay ch with
  | none => exact scripted_announced ch.users
  | some r =>
      have hr : r ∈ ch.users := List.mem_of_find?_eq_some h
      have hpeer : ∀ x ∈ relayPeers r ch.users, x ∈ ch.users := fun x hx =>
        (List.mem_filter.mp hx).1
      dsimp only
      unfold Channel.electionTold
      refine (scripted_map (fun _ => r.addr) (fun peer : User => .direct peer.name peer.addr)
        (fun _ _ => amongAddrs hr) fun x hx => amongSessions (hpeer x hx)).append ?_
      refine (scripted_map User.addr (fun _ => .direct r.name r.addr)
        (fun x hx => amongAddrs (hpeer x hx)) fun _ _ => amongSessions hr).append ?_
      refine Scripted.append ?_ (scripted_flatMap fun x hx => ?_)
      · split_ifs
        · exact scripted_tell (l := .relay) (amongAddrs hr) trivial
        · exact scripted_nil
      · have hx : x ∈ ch.users := (List.mem_filter.mp hx).1
        refine (scripted_tell (l := .serverRelay x.name) (amongAddrs hx)
          ⟨x.addr, amongSessions hx⟩).append
          (?_ : Scripted _ _ (if r.addr ≠ x.addr then [tell r.addr (modeServerRelay x.name)]
            else []))
        split_ifs
        · exact scripted_tell (l := .serverRelay x.name) (amongAddrs hr)
            ⟨x.addr, amongSessions hx⟩
        · exact scripted_nil

/-- After a `CONNECT`: members before, and the new session. -/
theorem scripted_connect (amb : Ambient) (nat : Signaling.NatKind) :
    Scripted (fun a => a = src ∨ AmongAddrs ch.users a)
      (LineAbout fun m a => m = n ∧ a = src ∨ AmongSessions ch.users m a)
      (ch.connect amb n nat src).2 := by
  rcases session_or_new n src ch with h | hnew
  · obtain ⟨-, cid, pid, hsent⟩ := connect_of_session amb nat h
    rw [hsent]
    exact scripted_welcome (Or.inl rfl) cid pid
  · by_cases ho : ch.others n = []
    · obtain ⟨-, -, cid, pid, hsent⟩ := connect_lone amb nat hnew ho
      rw [hsent]
      refine Scripted.append ?_ (scripted_welcome (Or.inl rfl) cid pid)
      split_ifs
      · exact scripted_tell (l := .serverRelay n) (Or.inl rfl) ⟨src, Or.inl ⟨rfl, rfl⟩⟩
      · exact scripted_tell (l := .relay) (Or.inl rfl) trivial
      · exact scripted_nil
    · obtain ⟨-, cid, pid, hsent⟩ := connect_elect amb nat hnew ho
      have hmember : ∀ u ∈ (ch.joined amb n nat src).users,
          u.name = n ∧ u.addr = src ∨ u ∈ ch.users := by
        intro u hu
        rw [joined_users amb nat hnew] at hu
        rcases List.mem_append.mp hu with hu | hu
        · exact Or.inr (mem_others.mp hu).1
        · rw [List.mem_singleton.mp hu]
          exact Or.inl ⟨rfl, rfl⟩
      rw [hsent]
      refine (scripted_welcome (Or.inl rfl) cid pid).append ((scripted_elect _).mono ?_ ?_)
      · rintro a ⟨u, hu, rfl⟩
        exact (hmember u hu).imp And.right amongAddrs
      · refine fun l hl => hl.mono ?_
        rintro m a ⟨u, hu, rfl, rfl⟩
        exact (hmember u hu).imp id amongSessions

theorem scripted_departed (users : List User) (n addr : Token) :
    Scripted (AmongAddrs users) (fun l => l = .userLeft n addr) (departed users n addr) :=
  scripted_map User.addr (fun _ => .userLeft n addr) (fun _ hx => amongAddrs hx) fun _ _ => rfl

theorem scripted_transition (ch : Channel) : ScriptedAmong ch.users ch.transition.2 := by
  unfold Channel.transition
  cases h : pickEligibleRelay ch with
  | none => exact scripted_announced ch.users
  | some r =>
      have hr : r ∈ ch.users := List.mem_of_find?_eq_some h
      have hpeer : ∀ x ∈ ch.users.filter fun u => u.name ≠ r.name, x ∈ ch.users := fun x hx =>
        (List.mem_filter.mp hx).1
      refine (scripted_tell (l := .relay) (amongAddrs hr) trivial).append (Scripted.append ?_ ?_)
      · exact scripted_map User.addr (fun _ => .direct r.name r.addr)
          (fun x hx => amongAddrs (hpeer x hx)) fun _ _ => amongSessions hr
      · exact scripted_map (fun _ => r.addr) (fun peer : User => .direct peer.name peer.addr)
          (fun _ _ => amongAddrs hr) fun x hx => amongSessions (hpeer x hx)

theorem scripted_repair (ch : Channel) (wasRelay : Bool) :
    ScriptedAmong ch.users (ch.repair wasRelay).2 := by
  have htransition : ScriptedAmong ch.users
      (updateRelayAfterDeparture ch wasRelay).1.transition.2 := by
    have h := scripted_transition (updateRelayAfterDeparture ch wasRelay).1
    rwa [updateRelayAfterDeparture_users] at h
  have hlone : ∀ a, (updateRelayAfterDeparture ch wasRelay).2 = some a →
      AmongAddrs ch.users a := by
    intro a ha
    unfold updateRelayAfterDeparture at ha
    split_ifs at ha
    · split at ha
      · exact absurd ha (Option.some_ne_none _).symm
      · rename_i u husers
        rw [husers, ← Option.some.inj ha]
        exact amongAddrs List.mem_cons_self
      · exact absurd ha (Option.some_ne_none _).symm
  unfold Channel.repair
  generalize updateRelayAfterDeparture ch wasRelay = r at htransition hlone
  obtain ⟨repaired, loneUserAddr⟩ := r
  cases loneUserAddr with
  | some a => exact scripted_tell (l := .relay) (hlone a rfl) trivial
  | none =>
      dsimp only
      split_ifs
      · exact htransition
      · exact scripted_nil

/-- After a `DISCONNECT`: the departure, under an address that is its own or made
up, and what the others are told of their relay. -/
theorem scripted_disconnect (ch : Channel) (n : Token) (src : SocketAddr) :
    Scripted (AmongAddrs ch.users)
      (fun l => LineAbout (AmongSessions ch.users) l ∨ l = .userLeft n unknownAddr)
      (ch.disconnect n src).2 := by
  unfold Channel.disconnect findAndRemoveUser
  cases hfind : ch.users.find? (User.isSession n src) with
  | none => exact (scripted_departed ch.users n unknownAddr).mono (fun _ => id) fun _ => Or.inr
  | some leaving =>
      have hleaving : leaving ∈ ch.users := List.mem_of_find?_eq_some hfind
      obtain ⟨rfl, -⟩ := isSession_iff.mp (List.find?_some hfind)
      have hsub : ch.users.eraseP (User.isSession leaving.name src) ⊆ ch.users :=
        List.eraseP_subset
      dsimp only
      refine Scripted.append ?_ ?_
      · exact ((scripted_repair _ _).of_subset hsub).mono (fun _ => id) fun _ => Or.inl
      · refine (scripted_departed _ leaving.name leaving.addr.token).mono
          (fun a ha => ha.of_subset hsub) ?_
        rintro l rfl
        exact Or.inl ⟨leaving.addr, amongSessions hleaving, rfl⟩

theorem scripted_peerTimeout (ch : Channel) (n : Token) :
    Scripted (AmongAddrs ch.users) (fun l => l = .userLeft n unknownAddr)
      (ch.peerTimeout n).2 := by
  refine (scripted_departed _ n unknownAddr).mono (fun a ha => ha.of_subset ?_) fun _ => id
  rw [removePeer_users]
  exact List.filter_subset_self _

theorem scripted_relayRequested (ch : Channel) (n : Token) :
    Scripted (AmongAddrs ch.users) (fun l => l = .serverRelay n) (ch.relayRequested n) := by
  refine scripted_map User.addr (fun _ => .serverRelay n) (fun x hx => ?_) fun _ _ => rfl
  rcases Vec.mem_modifyFirst hx with hx | ⟨y, hy, -, rfl⟩
  · exact amongAddrs hx
  · exact ⟨y, hy, rfl⟩

end Operations

/-! ## A pass -/

section Pass
variable {ch : Channel} {users : List User}

/-- Notifications, as the datagrams that they are sent in. -/
abbrev ScriptedNotifications (users : List User) (ns : List Notification) : Prop :=
  ScriptedAmong users (ns.flatMap Notification.datagrams)

theorem ScriptedNotifications.append {ns ns' : List Notification}
    (h : ScriptedNotifications users ns) (h' : ScriptedNotifications users ns') :
    ScriptedNotifications users (ns ++ ns') := by
  unfold ScriptedNotifications
  rw [List.flatMap_append]
  exact Scripted.append h h'

theorem ScriptedNotifications.cons {x : Notification} {ns : List Notification}
    (h : ScriptedNotifications users [x]) (h' : ScriptedNotifications users ns) :
    ScriptedNotifications users (x :: ns) :=
  ScriptedNotifications.append h h'

theorem scriptedNotifications_nil : ScriptedNotifications users [] := scripted_nil

theorem scriptedNotifications_single {addrs : List SocketAddr} {payload : Bytes}
    (ls : List ControlLine) (hp : payload = asBytes (ls.flatMap ControlLine.text))
    (ha : ∀ a ∈ addrs, AmongAddrs users a) (hls : ∀ l ∈ ls, LineAbout (AmongSessions users) l) :
    ScriptedNotifications users [(addrs, payload)] := by
  unfold ScriptedNotifications
  rw [List.flatMap_cons, List.flatMap_nil, List.append_nil]
  exact scripted_notification ls hp ha hls

/-- One line for one user. -/
theorem scriptedNotifications_line {a : SocketAddr} (l : ControlLine) (ha : AmongAddrs users a)
    (hl : LineAbout (AmongSessions users) l) :
    ScriptedNotifications users [([a], asBytes l.text)] := by
  refine scriptedNotifications_single [l] ?_ (fun b hb => List.mem_singleton.mp hb ▸ ha)
    fun m hm => List.mem_singleton.mp hm ▸ hl
  rw [List.flatMap_cons, List.flatMap_nil, List.append_nil]

/-- Lines about some users. -/
theorem scriptedNotifications_map {addrs : List SocketAddr} {xs : List User}
    (f : User → ControlLine) (ha : ∀ a ∈ addrs, AmongAddrs users a)
    (hf : ∀ x ∈ xs, LineAbout (AmongSessions users) (f x)) :
    ScriptedNotifications users [(addrs, xs.flatMap fun x => asBytes (f x).text)] := by
  refine scriptedNotifications_single (xs.map f) ?_ ha fun l hl => ?_
  · rw [asBytes_flatMap, List.flatMap_map]
  · obtain ⟨x, hx, rfl⟩ := List.mem_map.mp hl
    exact hf x hx

theorem amongAddrs_map {xs : List User} (h : ∀ x ∈ xs, x ∈ users) :
    ∀ a ∈ xs.map User.addr, AmongAddrs users a := by
  intro a ha
  obtain ⟨x, hx, rfl⟩ := List.mem_map.mp ha
  exact amongAddrs (h x hx)

/-- An election in a pass. -/
theorem scripted_handleRelayTimeout (hsub : ch.users ⊆ users) :
    ScriptedNotifications users (handleRelayTimeout ch).2 := by
  unfold handleRelayTimeout
  cases h : Heartbeat.pickEligibleRelay ch with
  | none =>
      dsimp only
      split_ifs
      · exact scriptedNotifications_nil
      · exact scriptedNotifications_map (fun u => .serverRelay u.name)
          (amongAddrs_map fun x hx => hsub hx) fun x hx => ⟨x.addr, amongSessions (hsub hx)⟩
  | some r =>
      have hr : r ∈ users := hsub (List.mem_of_find?_eq_some h)
      have hpeer : ∀ x ∈ ch.users.filter fun x => x.name ≠ r.name, x ∈ users := fun x hx =>
        hsub (List.mem_filter.mp hx).1
      refine ((scriptedNotifications_line .relay (amongAddrs hr) trivial).cons ?_).append ?_
      · split_ifs
        · exact scriptedNotifications_nil
        · exact scriptedNotifications_map (fun _ => .direct r.name r.addr) (amongAddrs_map hpeer)
            fun _ _ => amongSessions hr
      · split_ifs
        · exact scriptedNotifications_nil
        · exact scriptedNotifications_map (fun x => .direct x.name x.addr)
            (fun a ha => List.mem_singleton.mp ha ▸ amongAddrs hr)
            fun x hx => amongSessions (hpeer x hx)

theorem scripted_handleTimedOutUser {i : Nat} {u : User} (hu : ch.users[i]? = some u)
    (hsub : ch.users ⊆ users) :
    ScriptedNotifications users (handleTimedOutUser ch i u.name u.addr).2 := by
  have huser : u ∈ users := hsub (List.mem_of_getElem? hu)
  have herase : ch.users.eraseIdx i ⊆ users := fun x hx =>
    hsub ((List.eraseIdx_sublist ch.users i).subset hx)
  have hleft : ScriptedNotifications users
      (if ((ch.users.filter fun x => x.addr ≠ u.addr).map User.addr).isEmpty then []
        else [((ch.users.filter fun x => x.addr ≠ u.addr).map User.addr,
          asBytes (userLeft u.name u.addr.token))]) := by
    split_ifs
    · exact scriptedNotifications_nil
    · refine scriptedNotifications_single [.userLeft u.name u.addr.token] ?_
        (amongAddrs_map fun x hx => hsub (List.mem_filter.mp hx).1) fun l hl => ?_
      · rw [List.flatMap_cons, List.flatMap_nil, List.append_nil]
        rfl
      · rw [List.mem_singleton.mp hl]
        exact ⟨u.addr, amongSessions huser, rfl⟩
  unfold handleTimedOutUser
  dsimp only
  by_cases hwas : ch.relay = some u.name
  · rw [if_pos (decide_eq_true hwas)]
    exact ScriptedNotifications.append hleft (scripted_handleRelayTimeout herase)
  · rw [if_neg fun h => hwas (of_decide_eq_true h)]
    generalize ch.users.eraseIdx i = left at herase
    rcases left with _ | ⟨v, _ | ⟨w, left⟩⟩
    · exact hleft
    · exact ScriptedNotifications.append hleft
        (scriptedNotifications_line .relay (amongAddrs (herase List.mem_cons_self)) trivial)
    · exact hleft

theorem scripted_expire (now : Signaling.Instant) (ch : Channel) :
    ScriptedNotifications ch.users (ch.expire now).2 :=
  (expire_induct _ _ (Q := fun ch' ns => ch'.users ⊆ ch.users ∧ ScriptedNotifications ch.users ns)
    ⟨fun _ => id, scriptedNotifications_nil⟩ fun ch' ns i u hQ hu _ _ => by
      refine ⟨fun v hv => ?_, ScriptedNotifications.append hQ.2
        (scripted_handleTimedOutUser hu hQ.1)⟩
      rw [handleTimedOutUser_users] at hv
      exact hQ.1 ((List.eraseIdx_sublist ch'.users i).subset hv)).2

/-- What a pass has a channel send, it sends to members, about members. -/
theorem scripted_heartbeatTold (now : Signaling.Instant) (ch : Channel) :
    ScriptedAmong ch.users (ch.heartbeatTold now) := by
  have hsettled : ScriptedAmong ch.users
      ((settleSolo (ch.expire now).1).2.1.map fun addr => tell addr msgPing.text) ∧
      ScriptedNotifications ch.users (settleSolo (ch.expire now).1).2.2 := by
    have hsub : (ch.expire now).1.users ⊆ ch.users := by
      rw [expire_users]
      exact List.filter_subset_self _
    generalize (ch.expire now).1 = ch' at hsub
    unfold settleSolo
    obtain ⟨id, next, left, relay⟩ := ch'
    rcases left with _ | ⟨u, _ | ⟨v, left⟩⟩
    · exact ⟨scripted_nil, scriptedNotifications_nil⟩
    · have hu : u ∈ ch.users := hsub List.mem_cons_self
      dsimp only
      split_ifs
      · exact ⟨scripted_nil, scriptedNotifications_line (.serverRelay u.name) (amongAddrs hu)
          ⟨u.addr, amongSessions hu⟩⟩
      · refine ⟨fun d hd => ?_, scriptedNotifications_nil⟩
        rw [List.map_singleton] at hd
        rw [List.mem_singleton.mp hd]
        exact ⟨amongAddrs hu, Or.inr (Or.inl rfl)⟩
    · exact ⟨scripted_nil, scriptedNotifications_nil⟩
  unfold Channel.heartbeatTold Channel.expireAndSettle
  dsimp only
  rw [List.flatMap_append]
  exact hsettled.1.append (Scripted.append (scripted_expire now ch) hsettled.2)

end Pass

end NatPiercer.System
