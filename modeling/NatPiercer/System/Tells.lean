/-
# `System.Tells` — whom an operation writes to, and whom it calls

Two questions about the datagrams that an operation on a channel sends: are
they all for members of it, and which of them make a client a relay.
`Tells told called ds` answers both: every one of `ds` goes to an address in
`told`, and those that summon go to one in `called`.
-/
import NatPiercer.Client.Calls
import NatPiercer.Signaling.Eligibility
import NatPiercer.Signaling.Told

namespace NatPiercer.System

open Text Utf8 Net Proto LockProg Signaling Client

/-- Each datagram is for `told`, and for `called` if it makes a client a relay. -/
def Tells (told called : SocketAddr → Prop) (ds : List Datagram) : Prop :=
  ∀ d ∈ ds, told d.dst ∧ (summons d.payload = true → called d.dst)

/-- The addresses of the members. -/
def Member (ch : Channel) (a : SocketAddr) : Prop := ∃ u ∈ ch.users, u.addr = a

/-- No address. -/
def Nobody (_ : SocketAddr) : Prop := False

section Tells
variable {told told' called called' : SocketAddr → Prop} {ds ds' : List Datagram}

theorem tells_nil : Tells told called [] := fun _ hd => absurd hd List.not_mem_nil

theorem Tells.append (h : Tells told called ds) (h' : Tells told called ds') :
    Tells told called (ds ++ ds') := fun d hd =>
  (List.mem_append.mp hd).elim (h d) (h' d)

theorem Tells.mono (h : Tells told called ds) (hto : ∀ a, told a → told' a)
    (hcalled : ∀ a, called a → called' a) : Tells told' called' ds := fun d hd =>
  ⟨hto _ (h d hd).1, fun hsum => hcalled _ ((h d hd).2 hsum)⟩

theorem Tells.silent (h : Tells told Nobody ds) : Tells told called ds :=
  h.mono (fun _ => id) fun _ hno => hno.elim

theorem tells_single {d : Datagram} (hto : told d.dst) (h : summons d.payload = false) :
    Tells told Nobody [d] := by
  intro e he
  rw [List.mem_singleton.mp he]
  exact ⟨hto, fun hsum => absurd (h.symm.trans hsum) Bool.false_ne_true⟩

theorem tells_relay {a : SocketAddr} (hto : told a) (hc : called a) :
    Tells told called [tell a modeRelay] := by
  intro d hd
  rw [List.mem_singleton.mp hd]
  exact ⟨hto, fun _ => hc⟩

/-- A line for each, which is not `MODE RELAY`. -/
theorem tells_map {α : Type} {xs : List α} (dst : α → SocketAddr) (f : α → ControlLine)
    (hto : ∀ x ∈ xs, told (dst x)) (hf : ∀ x, f x ≠ .relay) :
    Tells told Nobody (xs.map fun x => tell (dst x) (f x).text) := by
  intro d hd
  obtain ⟨x, hx, rfl⟩ := List.mem_map.mp hd
  refine ⟨hto x hx, fun hsum => ?_⟩
  change summons (asBytes (f x).text) = true at hsum
  rw [summons_line] at hsum
  exact hf x (of_decide_eq_true hsum)

theorem tells_flatMap {α : Type} {xs : List α} {f : α → List Datagram}
    (h : ∀ x ∈ xs, Tells told called (f x)) : Tells told called (xs.flatMap f) := by
  intro d hd
  obtain ⟨x, hx, hd⟩ := List.mem_flatMap.mp hd
  exact h x hx d hd

end Tells

/-! ## The operations on a channel -/

section Operations
variable {ch : Channel} {n : Token} {src : SocketAddr}

theorem mem_member {u : User} (h : u ∈ ch.users) : Member ch u.addr := ⟨u, h, rfl⟩

theorem tells_announced (ch : Channel) : Tells (Member ch) Nobody (announced ch.users) :=
  tells_flatMap fun u _ =>
    tells_map User.addr (fun _ => .serverRelay u.name) (fun _ hx => mem_member hx)
      fun _ => by simp

/-- An election calls whom it elects, unless it was the relay before. -/
theorem tells_elect (ch : Channel) :
    Tells (Member ch) (fun a => ∃ u, pickEligibleRelay ch = some u ∧ ch.changes u ∧ u.addr = a)
      ch.elect.2 := by
  unfold Channel.elect
  cases h : pickEligibleRelay ch with
  | none => exact (tells_announced ch).silent
  | some u =>
      have hu : Member ch u.addr := mem_member (List.mem_of_find?_eq_some h)
      have hpeer : ∀ x ∈ relayPeers u ch.users, Member ch x.addr := fun x hx =>
        mem_member (List.mem_filter.mp hx).1
      dsimp only
      unfold Channel.electionTold
      refine (tells_map (fun _ => u.addr) (fun peer : User => .direct peer.name peer.addr)
        (fun _ _ => hu) fun _ => by simp).silent.append ?_
      refine (tells_map User.addr (fun _ => .direct u.name u.addr) hpeer
        fun _ => by simp).silent.append ?_
      refine Tells.append ?_ (tells_flatMap fun x hx => ?_)
      · split_ifs with hchanges
        · exact tells_relay hu ⟨u, rfl, hchanges, rfl⟩
        · exact tells_nil
      · have hline : summons (asBytes (modeServerRelay x.name)) = false :=
          summons_line (.serverRelay x.name)
        have hx : Member ch x.addr := mem_member (List.mem_filter.mp hx).1
        refine (tells_single (d := tell x.addr (modeServerRelay x.name)) hx hline).silent.append
          (?_ : Tells _ _ (if u.addr ≠ x.addr then [tell u.addr (modeServerRelay x.name)] else []))
        split_ifs
        · exact (tells_single (d := tell u.addr (modeServerRelay x.name)) hu hline).silent
        · exact tells_nil

/-- A `CONNECT` calls the newcomer, if it is alone, or whom the election elects. -/
theorem tells_connect (amb : Ambient) (nat : Signaling.NatKind) :
    Tells (fun a => a = src ∨ Member ch a)
      (fun a => (∀ x ∈ ch.users, x.isSession n src = false) ∧
        ((ch.others n = [] ∧ a = src ∧ ch.relay = none ∧ nat ≠ .symmetric) ∨
          ch.others n ≠ [] ∧ ∃ u, pickEligibleRelay (ch.joined amb n nat src) = some u ∧
            ch.relay ≠ some u.name ∧ u.addr = a))
      (ch.connect amb n nat src).2 := by
  have hwelcome : ∀ cid pid, Tells (fun a => a = src ∨ Member ch a) Nobody
      [welcome src cid pid] := fun cid pid =>
    tells_single (Or.inl rfl) (summons_welcome cid pid src)
  rcases session_or_new n src ch with h | hnew
  · obtain ⟨-, cid, pid, hsent⟩ := connect_of_session amb nat h
    rw [hsent]
    exact (hwelcome cid pid).silent
  · by_cases ho : ch.others n = []
    · obtain ⟨-, -, cid, pid, hsent⟩ := connect_lone amb nat hnew ho
      rw [hsent]
      refine Tells.append ?_ (hwelcome cid pid).silent
      split_ifs with hr hsym
      · exact (tells_single (d := tell src (modeServerRelay n)) (Or.inl rfl)
          (summons_line (.serverRelay n))).silent
      · exact tells_relay (Or.inl rfl) ⟨hnew, Or.inl ⟨ho, rfl, hr, hsym⟩⟩
      · exact tells_nil
    · obtain ⟨-, cid, pid, hsent⟩ := connect_elect amb nat hnew ho
      rw [hsent]
      have helect := tells_elect (ch.joined amb n nat src)
      refine (hwelcome cid pid).silent.append (helect.mono ?_ ?_)
      · rintro a ⟨u, hu, rfl⟩
        rw [joined_users amb nat hnew] at hu
        rcases List.mem_append.mp hu with hu | hu
        · exact Or.inr (mem_member (mem_others.mp hu).1)
        · exact Or.inl (by rw [List.mem_singleton.mp hu, newUser_addr])
      · rintro a ⟨u, hu, hchanges, hua⟩
        rw [Channel.changes, joined_relay] at hchanges
        exact ⟨hnew, Or.inr ⟨ho, u, hu, hchanges, hua⟩⟩

theorem tells_peerTimeout : Tells (Member ch) Nobody (ch.peerTimeout n).2 :=
  tells_map User.addr (fun _ => .userLeft n unknownAddr)
    (fun x hx => by
      rw [removePeer_users] at hx
      exact mem_member (mem_others.mp hx).1)
    fun _ => by simp

theorem tells_relayRequested : Tells (Member ch) Nobody (ch.relayRequested n) :=
  tells_map User.addr (fun _ => .serverRelay n)
    (fun x hx => by
      rcases Vec.mem_modifyFirst hx with hx | ⟨y, hy, -, rfl⟩
      · exact mem_member hx
      · exact ⟨y, hy, rfl⟩)
    fun _ => by simp

end Operations

/-! ## A pass -/

section Pass
variable {now : Instant} {ch : Channel}

/-- Each notification is for members of `ch₀`, and calls one address if it makes
a client a relay. -/
def Notifies (ch₀ : Channel) (ns : List Notification) : Prop :=
  ∀ n ∈ ns, (∀ a ∈ n.1, Member ch₀ a) ∧
    (summons n.2 = true → ∃ a, n = ([a], asBytes modeRelay))

theorem notifies_nil : Notifies ch [] := fun _ hn => absurd hn List.not_mem_nil

theorem Notifies.append {ns ns' : List Notification} (h : Notifies ch ns)
    (h' : Notifies ch ns') : Notifies ch (ns ++ ns') := fun n hn =>
  (List.mem_append.mp hn).elim (h n) (h' n)

theorem Notifies.cons {n : Notification} {ns : List Notification} (h : Notifies ch [n])
    (h' : Notifies ch ns) : Notifies ch (n :: ns) :=
  h.append h'

theorem notifies_relay {a : SocketAddr} (ha : Member ch a) :
    Notifies ch [([a], asBytes modeRelay)] := by
  intro n hn
  rw [List.mem_singleton.mp hn]
  exact ⟨fun b hb => List.mem_singleton.mp hb ▸ ha, fun _ => ⟨a, rfl⟩⟩

/-- A script in which nobody is made a relay. -/
theorem notifies_script {addrs : List SocketAddr} (ls : List ControlLine) {payload : Bytes}
    (hp : payload = asBytes (ls.flatMap ControlLine.text)) (ha : ∀ a ∈ addrs, Member ch a)
    (hls : .relay ∉ ls) : Notifies ch [(addrs, payload)] := by
  intro n hn
  rw [List.mem_singleton.mp hn]
  refine ⟨ha, fun hsum => ?_⟩
  change summons payload = true at hsum
  rw [hp, summons_script] at hsum
  exact absurd (of_decide_eq_true hsum) hls

/-- An election in a pass writes to the members that are left. -/
theorem notifies_handleRelayTimeout {ch ch₀ : Channel} (hsub : ∀ u ∈ ch.users, u ∈ ch₀.users) :
    Notifies ch₀ (handleRelayTimeout ch).2 := by
  have hmem : ∀ users : List User, (∀ u ∈ users, u ∈ ch.users) →
      ∀ a ∈ users.map User.addr, Member ch₀ a := by
    intro users husers a ha
    obtain ⟨u, hu, rfl⟩ := List.mem_map.mp ha
    exact mem_member (hsub u (husers u hu))
  unfold handleRelayTimeout
  cases h : Heartbeat.pickEligibleRelay ch with
  | none =>
      dsimp only
      split_ifs
      · exact notifies_nil
      · refine notifies_script (ch.users.map fun u => .serverRelay u.name) ?_
          (hmem ch.users fun _ => id) (by simp)
        rw [asBytes_flatMap, List.flatMap_map]
        rfl
  | some u =>
      have hu : Member ch₀ u.addr := mem_member (hsub u (List.mem_of_find?_eq_some h))
      have hpeers : ∀ x ∈ ch.users.filter fun x => x.name ≠ u.name, x ∈ ch.users :=
        fun x hx => (List.mem_filter.mp hx).1
      refine ((notifies_relay hu).cons ?_).append ?_
      · split_ifs
        · exact notifies_nil
        · refine notifies_script ((ch.users.filter fun x => x.name ≠ u.name).map fun _ =>
            .direct u.name u.addr) ?_ (hmem _ hpeers) (by simp)
          rw [asBytes_flatMap, List.flatMap_map]
          rfl
      · split_ifs
        · exact notifies_nil
        · refine notifies_script ((ch.users.filter fun x => x.name ≠ u.name).map fun peer =>
            .direct peer.name peer.addr) ?_
            (fun a ha => List.mem_singleton.mp ha ▸ hu) (by simp)
          rw [asBytes_flatMap, List.flatMap_map]
          rfl

theorem notifies_handleTimedOutUser {ch ch₀ : Channel} (hsub : ∀ u ∈ ch.users, u ∈ ch₀.users)
    (i : Nat) (n : Token) (addr : SocketAddr) :
    Notifies ch₀ (handleTimedOutUser ch i n addr).2 := by
  have herase : ∀ u ∈ ch.users.eraseIdx i, u ∈ ch₀.users := fun u hu =>
    hsub u ((List.eraseIdx_sublist ch.users i).subset hu)
  have hleft : Notifies ch₀ (if ((ch.users.filter fun u => u.addr ≠ addr).map User.addr).isEmpty
      then [] else [((ch.users.filter fun u => u.addr ≠ addr).map User.addr,
        asBytes (userLeft n addr.token))]) := by
    split_ifs
    · exact notifies_nil
    · refine notifies_script [.userLeft n addr.token] ?_ ?_ (by simp)
      · rw [List.flatMap_cons, List.flatMap_nil, List.append_nil]
        rfl
      · intro a ha
        obtain ⟨u, hu, rfl⟩ := List.mem_map.mp ha
        exact mem_member (hsub u (List.mem_filter.mp hu).1)
  unfold handleTimedOutUser
  dsimp only
  by_cases hwas : ch.relay = some n
  · rw [if_pos (by simpa using hwas)]
    exact hleft.append (notifies_handleRelayTimeout herase)
  · rw [if_neg (by simpa using hwas)]
    generalize ch.users.eraseIdx i = users at herase
    rcases users with _ | ⟨u, _ | ⟨v, users⟩⟩
    · exact hleft
    · exact hleft.append (notifies_relay (mem_member (herase u List.mem_cons_self)))
    · exact hleft

theorem notifies_expire (now : Instant) (ch : Channel) : Notifies ch (ch.expire now).2 :=
  (expire_induct _ _ (Q := fun ch' ns => (∀ u ∈ ch'.users, u ∈ ch.users) ∧ Notifies ch ns)
    ⟨fun _ => id, notifies_nil⟩ fun ch' ns i u hQ _ _ _ => by
      refine ⟨fun v hv => ?_, hQ.2.append (notifies_handleTimedOutUser hQ.1 i u.name u.addr)⟩
      rw [handleTimedOutUser_users] at hv
      exact hQ.1 v ((List.eraseIdx_sublist ch'.users i).subset hv)).2

/-- A pass calls whom its notifications call: neither a `PING` nor the line for a
sole user that needs the server calls anybody. -/
theorem tells_heartbeatTold (now : Instant) (ch : Channel) :
    Tells (Member ch) (fun a => Calls a (ch.expire now).2) (ch.heartbeatTold now) := by
  have hsub : ∀ u ∈ (ch.expire now).1.users, u ∈ ch.users := by
    intro u hu
    rw [expire_users] at hu
    exact (List.mem_filter.mp hu).1
  have hnotified : Tells (Member ch) (fun a => Calls a (ch.expire now).2)
      ((ch.expire now).2.flatMap Notification.datagrams) := by
    refine tells_flatMap fun n hn d hd => ?_
    obtain ⟨a, ha, rfl⟩ := List.mem_map.mp hd
    obtain ⟨hto, hcalled⟩ := notifies_expire now ch n hn
    refine ⟨hto a ha, fun hsum => ?_⟩
    obtain ⟨b, rfl⟩ := hcalled hsum
    rw [List.mem_singleton.mp ha]
    exact hn
  have hsettled : Tells (Member ch) Nobody
      ((settleSolo (ch.expire now).1).2.1.map fun addr => tell addr msgPing.text) ∧
      Tells (Member ch) Nobody
        ((settleSolo (ch.expire now).1).2.2.flatMap Notification.datagrams) := by
    generalize (ch.expire now).1 = ch' at hsub
    unfold settleSolo
    obtain ⟨id, next, users, relay⟩ := ch'
    rcases users with _ | ⟨u, _ | ⟨v, users⟩⟩
    · exact ⟨tells_nil, tells_nil⟩
    · have hu : Member ch u.addr := mem_member (hsub u List.mem_cons_self)
      dsimp only
      split_ifs
      · exact ⟨tells_nil, tells_single (d := tell u.addr (modeServerRelay u.name)) hu
          (summons_line (.serverRelay u.name))⟩
      · exact ⟨tells_single (d := tell u.addr msgPing.text) hu summons_ping, tells_nil⟩
    · exact ⟨tells_nil, tells_nil⟩
  unfold Channel.heartbeatTold Channel.expireAndSettle
  dsimp only
  rw [List.flatMap_append]
  exact hsettled.1.silent.append (hnotified.append hsettled.2.silent)

end Pass

end NatPiercer.System
