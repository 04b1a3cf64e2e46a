/-
# `System.Mirroring` — does a new relay know whom the server relays for?

A relay sends `DATA` on to the server when it has been told that the server
relays for somebody in its channel; what it was told before it became the
relay does not count.  So an election has to tell it after `MODE RELAY`.
The election is written three times.  The one after a `CONNECT` does; the
one after a departure and the one in a heartbeat pass tell the new relay
`MODE RELAY` and its peers, and nothing else.
-/
import NatPiercer.Client.Hearing
import NatPiercer.Signaling.ChannelCases

namespace NatPiercer.System

open Text Utf8 Net Proto LockProg Signaling Client

/-- The datagrams that go to `addr`, applied in order, line by line. -/
def hear (now : Instant) (addr : SocketAddr) (sent : List Datagram) (me : Client) : Client :=
  (sent.filter fun d => d.dst = addr).foldl
    (fun me d => (lines (fromUtf8Lossy d.payload)).foldl (fun me l => me.handleModeLine now l) me)
    me

/-- The three places that elect a relay. -/
inductive Election
  | connect
  | departure
  | timeout
deriving DecidableEq

/-- Whom it makes the relay of `ch`; after a `CONNECT`, when that is a change. -/
def Election.newRelay (ch : Channel) : Election → Option User
  | connect => (pickEligibleRelay ch).filter fun u => decide (ch.changes u)
  | departure => pickEligibleRelay ch
  | timeout => Heartbeat.pickEligibleRelay ch

/-- What it sends, on the channel `ch` that is at `s`/`c` in the map. -/
def Election.sent (st : ServerMap) (s c : Token) (ch : Channel) : Election → List Datagram
  | connect => ((handleMultipleUsersScenario s c ch).run st).sent
  | departure => ((handleRelayTransition true s c).run st).sent
  | timeout => ((sendNotifications (handleRelayTimeout ch).2).run st).sent

/-- The client acts as relay, and mirrors to the server if a member other than
`u` needs it. -/
def Mirrors (ch : Channel) (u : User) (me : Client) : Prop :=
  me.isRelay = true ∧
    ((∃ v ∈ ch.users, v.name ≠ u.name ∧ v.needsServerRelay = true) →
      me.channelHasServerRelays = true)

/-! ## What is said to the new relay -/

/-- The members that `u` is introduced to when it takes over. -/
def directs (users : List User) : List ControlLine :=
  users.map fun peer => .direct peer.name peer.addr

/-- What an election that makes `u` the relay says to it, line by line. -/
def Election.said (ch : Channel) (u : User) : Election → List ControlLine
  | connect => directs (relayPeers u ch.users) ++
      .relay :: (symmetricPeers u ch.users).map fun peer => .serverRelay peer.name
  | departure | timeout => .relay :: directs (ch.others u.name)

section Said
variable {addr : SocketAddr}

/-- `sent` says the lines `ls` to `addr`, in some number of datagrams. -/
def Says (addr : SocketAddr) (sent : List Datagram) (ls : List ControlLine) : Prop :=
  ∃ lss : List (List ControlLine),
    sent.filter (fun d => d.dst = addr) = lss.map (script addr) ∧ lss.flatten = ls

theorem Says.append {sent sent' : List Datagram} {ls ls' : List ControlLine}
    (h : Says addr sent ls) (h' : Says addr sent' ls') :
    Says addr (sent ++ sent') (ls ++ ls') := by
  obtain ⟨lss, hsent, rfl⟩ := h
  obtain ⟨lss', hsent', rfl⟩ := h'
  exact ⟨lss ++ lss', by rw [List.filter_append, hsent, hsent', List.map_append],
    List.flatten_append⟩

theorem says_script (addr : SocketAddr) (ls : List ControlLine) : Says addr [script addr ls] ls :=
  ⟨[ls], by simp [script, Signaling.tell], by simp⟩

/-- One line for each, in a datagram of its own. -/
theorem says_map {α : Type} (xs : List α) (f : α → ControlLine) :
    Says addr (xs.map fun x => tell addr (f x).text) (xs.map f) := by
  refine ⟨xs.map fun x => [f x], ?_, by simp [← List.flatMap_def, ← List.map_eq_flatMap]⟩
  rw [List.map_map, List.filter_eq_self.mpr]
  · exact List.map_congr_left fun x _ => (script_single addr (f x)).symm
  · intro d hd
    obtain ⟨x, -, rfl⟩ := List.mem_map.mp hd
    simp [Signaling.tell]

/-- Nothing is said to an address that nothing is sent to. -/
theorem says_nil {sent : List Datagram} (h : ∀ d ∈ sent, d.dst ≠ addr) : Says addr sent [] :=
  ⟨[], List.filter_eq_nil_iff.mpr fun d hd => by simpa using h d hd, rfl⟩

theorem says_others {xs : List User} (h : ∀ x ∈ xs, x.addr ≠ addr) (f : User → Bytes) :
    Says addr (xs.map fun x => ⟨x.addr, f x⟩) [] :=
  says_nil fun d hd => by
    obtain ⟨x, hx, rfl⟩ := List.mem_map.mp hd
    exact h x hx

/-- Lines are obeyed one after the other, in whatever datagrams they come. -/
theorem Says.hear {sent : List Datagram} {ls : List ControlLine} (h : Says addr sent ls)
    (now : Instant) (me : Client) : hear now addr sent me = ls.foldl (obey now) me := by
  obtain ⟨lss, hsent, rfl⟩ := h
  unfold System.hear
  rw [hsent, List.foldl_map, List.foldl_flatten]
  congr 1
  funext me ls
  rw [script, Signaling.tell, fromUtf8Lossy_asBytes, foldl_handleModeLine_script]

end Said

section Election
variable {ch : Channel} {u : User}

/-- The other members are elsewhere. -/
def Apart (ch : Channel) (u : User) : Prop := ∀ v ∈ ch.users, v.name ≠ u.name → v.addr ≠ u.addr

theorem apart_of_nodup (ha : (ch.users.map User.addr).Nodup) (hu : u ∈ ch.users) : Apart ch u :=
  fun v hv hne heq => hne (by rw [List.inj_on_of_nodup_map ha hv hu heq])

theorem says_electionTold (h : Apart ch u) (hc : ch.changes u) :
    Says u.addr (ch.electionTold u) (Election.connect.said ch u) := by
  have hpeers : ∀ v ∈ relayPeers u ch.users, v.addr ≠ u.addr := by
    intro v hv
    obtain ⟨hmem, hv⟩ := List.mem_filter.mp hv
    exact h v hmem fun hname => by simp [hname] at hv
  have hsym : ∀ v ∈ symmetricPeers u ch.users, u.addr ≠ v.addr := by
    intro v hv
    obtain ⟨hmem, hv⟩ := List.mem_filter.mp hv
    exact (h v hmem fun hname => by simp [hname] at hv).symm
  unfold Channel.electionTold
  rw [if_pos hc]
  refine (says_map _ fun peer : User => ControlLine.direct peer.name peer.addr).append ?_
  refine (says_others hpeers _).append ?_
  refine (script_single u.addr .relay ▸ says_script u.addr [.relay]).append ?_
  generalize symmetricPeers u ch.users = syms at hsym
  induction syms with
  | nil => exact says_nil fun d hd => absurd hd List.not_mem_nil
  | cons v syms ih =>
      have hv : u.addr ≠ v.addr := hsym v List.mem_cons_self
      have hself : Says u.addr [tell v.addr (modeServerRelay v.name)] [] :=
        says_nil fun d hd => by
          rw [List.mem_singleton.mp hd]
          exact hv.symm
      have hmirror : Says u.addr [tell u.addr (modeServerRelay v.name)] [.serverRelay v.name] :=
        script_single u.addr (.serverRelay v.name) ▸ says_script u.addr [.serverRelay v.name]
      rw [List.flatMap_cons, if_pos hv, List.map_cons]
      exact (hself.append hmirror).append (ih fun w hw => hsym w (List.mem_cons_of_mem _ hw))

theorem apart_others (h : Apart ch u) : ∀ v ∈ ch.others u.name, v.addr ≠ u.addr := fun v hv =>
  h v (mem_others.mp hv).1 (mem_others.mp hv).2

theorem says_transition (h : Apart ch u) (hu : pickEligibleRelay ch = some u) :
    Says u.addr ch.transition.2 (Election.departure.said ch u) := by
  unfold Channel.transition
  rw [hu]
  refine (script_single u.addr .relay ▸ says_script u.addr [.relay]).append ?_
  exact (says_others (apart_others h) _).append
    (says_map _ fun peer : User => ControlLine.direct peer.name peer.addr)

theorem says_handleRelayTimeout (h : Apart ch u) (hu : Heartbeat.pickEligibleRelay ch = some u) :
    Says u.addr ((handleRelayTimeout ch).2.flatMap Notification.datagrams)
      (Election.timeout.said ch u) := by
  have hpeers : ∀ payload, Says u.addr
      (Notification.datagrams ((ch.others u.name).map User.addr, payload)) [] := by
    intro payload
    rw [Notification.datagrams, List.map_map]
    exact says_others (apart_others h) fun _ => payload
  have hnew : Says u.addr (Notification.datagrams ([u.addr],
      (ch.others u.name).flatMap fun peer => asBytes (modeDirect peer.name peer.addr)))
      (directs (ch.others u.name)) := by
    have htext : (ch.others u.name).flatMap (fun peer => modeDirect peer.name peer.addr) =
        (directs (ch.others u.name)).flatMap ControlLine.text := by
      rw [directs, List.flatMap_map]
      rfl
    rw [asBytes_flatMap, htext]
    exact says_script u.addr _
  unfold handleRelayTimeout
  rw [hu]
  change Says u.addr ((([u.addr], asBytes modeRelay) :: _ ++ _).flatMap _) _
  rw [List.cons_append, List.flatMap_cons, List.flatMap_append]
  refine (script_single u.addr .relay ▸ says_script u.addr [.relay]).append ?_
  refine Says.append (?_ : Says u.addr _ []) ?_
  · split_ifs
    · exact says_nil fun d hd => absurd hd List.not_mem_nil
    · rw [List.flatMap_singleton]
      exact hpeers _
  · split_ifs with hempty
    · -- there is nobody to introduce
      have hnone : ch.others u.name = [] := by
        cases hothers : ch.others u.name with
        | nil => rfl
        | cons v vs =>
            change ((ch.others u.name).flatMap _).isEmpty = true at hempty
            rw [hothers] at hempty
            exact absurd hempty Bool.false_ne_true
      rw [hnone]
      exact says_nil fun d hd => absurd hd List.not_mem_nil
    · rw [List.flatMap_singleton]
      exact hnew

/-- What an election says to the relay it makes. -/
theorem Election.says {e : Election} {st : ServerMap} {s c : Token}
    (hst : st.channel? s c = some ch) (h : Apart ch u) (hu : e.newRelay ch = some u) :
    Says u.addr (e.sent st s c ch) (e.said ch u) := by
  cases e with
  | connect =>
      obtain ⟨hpick, hc⟩ := Option.filter_eq_some_iff.mp hu
      have htold : ch.elect.2 = ch.electionTold u := by
        unfold Channel.elect
        rw [hpick]
      rw [Election.sent, (handleMultipleUsersScenario_spec hst).2, htold]
      exact says_electionTold h (of_decide_eq_true hc)
  | departure =>
      rw [Election.sent, (handleRelayTransition_spec hst true).2, if_pos rfl]
      exact says_transition h hu
  | timeout =>
      rw [Election.sent, run_sendNotifications]
      exact says_handleRelayTimeout h hu

theorem Election.newRelay_mem {e : Election} (hu : e.newRelay ch = some u) : u ∈ ch.users := by
  cases e with
  | connect => exact List.mem_of_find?_eq_some (Option.filter_eq_some_iff.mp hu).1
  | departure => exact List.mem_of_find?_eq_some hu
  | timeout => exact List.mem_of_find?_eq_some hu

/-! ## What comes of it -/

theorem mem_said (e : Election) : .relay ∈ e.said ch u := by
  cases e with
  | connect => exact List.mem_append_right _ List.mem_cons_self
  | departure => exact List.mem_cons_self
  | timeout => exact List.mem_cons_self

theorem directs_silent (users : List User) (user : Str) :
    ∀ l ∈ directs users, l.mirrored user = false := by
  intro l hl
  obtain ⟨v, -, rfl⟩ := List.mem_map.mp hl
  rfl

/-- After a `CONNECT` the relay has heard of the members that need the server. -/
theorem mirrors_connect (now : Instant) {me : Client} (hme : me.user = u.name.text)
    (hv : ∃ v ∈ ch.users, v.name ≠ u.name ∧ v.needsServerRelay = true) :
    ((Election.connect.said ch u).foldl (obey now) me).channelHasServerRelays = true := by
  obtain ⟨v, hv, hne, hneeds⟩ := hv
  have hsym : v ∈ symmetricPeers u ch.users := by
    refine List.mem_filter.mpr ⟨hv, ?_⟩
    simp [hne, hneeds]
  rw [Election.said, List.foldl_append, List.foldl_cons, foldl_obey_mirrors now rfl,
    List.any_eq_true.mpr, Bool.or_true]
  refine ⟨.serverRelay v.name, List.mem_map.mpr ⟨v, hsym, rfl⟩, ?_⟩
  have huser : (obey now ((directs (relayPeers u ch.users)).foldl (obey now) me) .relay).user =
      me.user := foldl_obey_user now me _
  have hname : v.name.text ≠ u.name.text := fun h => hne (Token.ext h)
  rw [huser, hme]
  simpa [ControlLine.mirrored] using hname

/-- A departure, or a pass, says nothing of them. -/
theorem silent_said {e : Election} (he : e ≠ .connect) (now : Instant) {me : Client}
    (hm : me.channelHasServerRelays = false) :
    ((e.said ch u).foldl (obey now) me).channelHasServerRelays = false := by
  rw [foldl_obey_silent now me ?_, hm]
  intro l hl
  have hl : l = .relay ∨ l ∈ directs (ch.others u.name) := by
    cases e with
    | connect => exact absurd rfl he
    | departure => exact List.mem_cons.mp hl
    | timeout => exact List.mem_cons.mp hl
  rcases hl with rfl | hl
  · rfl
  · exact directs_silent _ _ l hl

/-- **When a new relay mirrors.**  It has been told to whenever the election is
the one after a `CONNECT`; in the other two places, only when no other member
needs the server. -/
theorem mirrors_iff (e : Election) (st : ServerMap) (s c : Token) (ch : Channel) (u : User)
    (now : Instant) (me : Client) (hst : st.channel? s c = some ch)
    (ha : (ch.users.map User.addr).Nodup) (hu : e.newRelay ch = some u)
    (hme : me.user = u.name.text) (hr : me.isRelay = false)
    (hm : me.channelHasServerRelays = false) :
    Mirrors ch u (hear now u.addr (e.sent st s c ch) me) ↔
      e = .connect ∨ ∀ v ∈ ch.users, v.name ≠ u.name → v.needsServerRelay = false := by
  have hsent := Election.says hst (apart_of_nodup ha (Election.newRelay_mem hu)) hu
  rw [hsent.hear now me]
  have hrelay : ((e.said ch u).foldl (obey now) me).isRelay = true := by
    rw [foldl_obey_isRelay, hr, Bool.false_or]
    exact decide_eq_true (mem_said e)
  constructor
  · intro h
    by_cases he : e = .connect
    · exact Or.inl he
    · refine Or.inr fun v hv hne => ?_
      by_contra hneeds
      have htrue := h.2 ⟨v, hv, hne, by simpa using hneeds⟩
      rw [silent_said he now hm] at htrue
      exact Bool.false_ne_true htrue
  · rintro (rfl | hnone)
    · exact ⟨hrelay, mirrors_connect now hme⟩
    · refine ⟨hrelay, fun ⟨v, hv, hne, hneeds⟩ => ?_⟩
      rw [hnone v hv hne] at hneeds
      exact absurd hneeds Bool.false_ne_true

end Election

/-! ## At a channel of two -/

section Two

/-- Ann can be the relay; Sam is behind a symmetric NAT.  Bob, on record, is
gone. -/
def twoLeft : Channel where
  channelId := 7
  nextPeerId := 4
  users :=
    [.new ⟨"ann".toList, by decide⟩ (.v4 ⟨10, 0, 0, 2⟩ 4000) .cone 2 0,
      .new ⟨"sam".toList, by decide⟩ (.v4 ⟨10, 0, 0, 3⟩ 4000) .symmetric 3 0]
  relay := some ⟨"bob".toList, by decide⟩

def twoLeftMap : ServerMap :=
  (∅ : ServerMap).insert ⟨"s".toList, by decide⟩
    ((∅ : HashMap Token Channel).insert ⟨"c".toList, by decide⟩ twoLeft)

def annLeft : User := .new ⟨"ann".toList, by decide⟩ (.v4 ⟨10, 0, 0, 2⟩ 4000) .cone 2 0

/-- After a `CONNECT` it is told of Sam. -/
theorem mirrors_two :
    Mirrors twoLeft annLeft (hear 0 annLeft.addr
      (Election.connect.sent twoLeftMap ⟨"s".toList, by decide⟩ ⟨"c".toList, by decide⟩ twoLeft)
      (.fresh annLeft.name.text)) :=
  (mirrors_iff .connect twoLeftMap ⟨"s".toList, by decide⟩ ⟨"c".toList, by decide⟩ twoLeft annLeft 0
    (.fresh annLeft.name.text) (by decide +kernel) (by decide +kernel) (by decide +kernel)
    rfl rfl rfl).mpr (Or.inl rfl)

/-- Bob times out, and Ann is elected in the pass: she relays, and nobody has
told her that the server relays for Sam. -/
theorem not_mirrors_timeout :
    Election.timeout.newRelay twoLeft = some annLeft ∧
    ¬ Mirrors twoLeft annLeft (hear 0 annLeft.addr
      (Election.timeout.sent twoLeftMap ⟨"s".toList, by decide⟩ ⟨"c".toList, by decide⟩ twoLeft)
      (.fresh annLeft.name.text)) := by
  refine ⟨by decide +kernel, fun h => ?_⟩
  have hneeds : ∃ v ∈ twoLeft.users, v.name ≠ annLeft.name ∧ v.needsServerRelay = true := by
    decide +kernel
  have hmirrors := h.2 hneeds
  exact absurd hmirrors (by decide +kernel)

end Two

end NatPiercer.System
