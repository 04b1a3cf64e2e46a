/-
# `Signaling.Told` — does the recorded relay know?

A client relays once it has been sent `MODE RELAY`.  The relay field is
written in seven places, and in some of them nothing is sent: after a
`PEER_TIMEOUT` that leaves one user, when a pass finds one user and puts it
on record, and when a user on record comes back as a new session, because
`mark_relay_in_channel` compares names.

What has been sent is not part of the map, so it is observed beside it: for
each session, whether it has been sent `MODE RELAY` since it was added.  Here
is who is called where; which runs keep every relay told is in
`System.RelaysTold`.
-/
import NatPiercer.Signaling.ChannelCases

namespace NatPiercer.Signaling

open Text Utf8 Net Proto LockProg

/-- Whether the session `(userName, addr)` is in the channel. -/
def ServerMap.hasSession (st : ServerMap) (serverId channelName userName : Token)
    (addr : SocketAddr) : Bool :=
  (st.channel? serverId channelName).any fun ch => ch.users.any (User.isSession userName addr)

/-- The map, and which sessions have been sent `MODE RELAY` since they were
added. -/
structure Observed where
  map : ServerMap
  told : Token → Token → Token → SocketAddr → Bool

def Observed.init : Observed := ⟨∅, fun _ _ _ _ => false⟩

/-- A session counts from the step that adds it: what is sent in that step
counts, and what was sent before it is forgotten, for it was not there. -/
def Observed.step (o : Observed) (l : ServerStep) : Observed where
  map := o.map.step l
  told s c n addr := (o.map.step l).hasSession s c n addr &&
    (o.told s c n addr || decide (tell addr modeRelay ∈ o.map.sent l))

/-- Every recorded relay that is in its channel has been told. -/
def RelaysTold (o : Observed) : Prop :=
  ∀ s c ch n, o.map.channel? s c = some ch → ch.relay = some n →
    ∀ u ∈ ch.users, u.name = n → o.told s c n u.addr = true

/-! ## Who is sent `MODE RELAY` -/

section Calls
variable {ch : Channel} {n : Token} {src : SocketAddr} {u : User}

theorem find?_unique {users : List User} {p : User → Bool}
    (hn : (users.map User.name).Nodup) {m : Token}
    (h : (users.find? p).map User.name = some m) (hu : u ∈ users) (hname : u.name = m) :
    users.find? p = some u := by
  obtain ⟨v, hv, rfl⟩ := Option.map_eq_some_iff.mp h
  rw [hv, List.inj_on_of_nodup_map hn hu (List.mem_of_find?_eq_some hv) hname]

theorem mem_elect_told (h : pickEligibleRelay ch = some u) (hr : ch.relay ≠ some u.name) :
    tell u.addr modeRelay ∈ ch.elect.2 := by
  unfold Channel.elect Channel.electionTold
  rw [h]
  dsimp only
  rw [if_pos (show ch.changes u from hr)]
  exact List.mem_append_right _ (List.mem_append_right _ (List.mem_append_left _
    List.mem_cons_self))

theorem mem_transition_told (h : pickEligibleRelay ch = some u) :
    tell u.addr modeRelay ∈ ch.transition.2 := by
  unfold Channel.transition
  rw [h]
  exact List.mem_cons_self

/-- After the relay has left, whoever is put on record is told. -/
theorem mem_repair_told (hn : ch.WellNamed)
    (h : soleOr (electedName ch.users) ch.users = some n) (hu : u ∈ ch.users)
    (hname : u.name = n) : tell u.addr modeRelay ∈ (ch.repair true).2 := by
  unfold Channel.repair updateRelayAfterDeparture
  obtain ⟨id, next, users, relay⟩ := ch
  rcases users with _ | ⟨v, _ | ⟨w, users⟩⟩
  · exact absurd hu List.not_mem_nil
  · rw [List.mem_singleton.mp hu]
    exact List.mem_cons_self
  · exact mem_transition_told (find?_unique hn h hu hname)

/-- `MODE RELAY` to one address, among notifications. -/
def Calls (addr : SocketAddr) (ns : List Notification) : Prop := ([addr], asBytes modeRelay) ∈ ns

theorem Calls.datagram {addr : SocketAddr} {ns : List Notification} (h : Calls addr ns) :
    tell addr modeRelay ∈ ns.flatMap Notification.datagrams :=
  List.mem_flatMap_of_mem h (List.mem_cons_self (a := tell addr modeRelay))

theorem calls_handleRelayTimeout
    (h : Heartbeat.pickEligibleRelay ch = some u) : Calls u.addr (handleRelayTimeout ch).2 := by
  unfold handleRelayTimeout Calls
  rw [h]
  exact List.mem_cons_self

/-- A removal calls whomever it puts on record. -/
theorem calls_handleTimedOutUser {i : Nat} {gone : User} (hn : ch.WellNamed)
    (hr : (handleTimedOutUser ch i gone.name gone.addr).1.relay = some n)
    (hu : u ∈ ch.users.eraseIdx i) (hname : u.name = n)
    (hnew : ch.relay = some gone.name ∨ ch.relay ≠ some n) :
    Calls u.addr (handleTimedOutUser ch i gone.name gone.addr).2 := by
  rw [handleTimedOutUser_relay] at hr
  unfold handleTimedOutUser Calls
  dsimp only
  by_cases hwas : ch.relay = some gone.name
  · rw [if_pos hwas] at hr
    rw [if_pos (by simpa using hwas)]
    refine List.mem_append_right _ (calls_handleRelayTimeout ?_)
    exact find?_unique (hn.sublist ((List.eraseIdx_sublist _ _).map _)) hr hu hname
  · rw [if_neg hwas] at hr
    rw [if_neg (by simpa using hwas)]
    generalize ch.users.eraseIdx i = users at hr hu
    rcases users with _ | ⟨v, _ | ⟨w, users⟩⟩
    · exact absurd hu List.not_mem_nil
    · rw [List.mem_singleton.mp hu]
      exact List.mem_append_right _ List.mem_cons_self
    · exact absurd hr (hnew.resolve_left hwas)

/-- The removal of all but one user that does not need the server calls that
one. -/
theorem calls_handleTimedOutUser_sole {i : Nat} {gone : User}
    (hsole : ch.users.eraseIdx i = [u]) (hneeds : u.needsServerRelay = false) :
    Calls u.addr (handleTimedOutUser ch i gone.name gone.addr).2 := by
  unfold handleTimedOutUser Calls
  dsimp only
  by_cases hwas : ch.relay = some gone.name
  · rw [if_pos (by simpa using hwas)]
    refine List.mem_append_right _ (calls_handleRelayTimeout ?_)
    unfold Heartbeat.pickEligibleRelay
    rw [hsole]
    simp [hneeds]
  · rw [if_neg (by simpa using hwas), hsole]
    exact List.mem_append_right _ List.mem_cons_self

end Calls

/-! ## A pass -/

/-- What the loop of a pass keeps, started on `ch₀`: the relay on record is
either called or was on record before, with the same session; and once
somebody has gone, a single user left that does not need the server is
called. -/
structure PassCalls (ch₀ ch : Channel) (ns : List Notification) : Prop where
  wellNamed : ch.WellNamed
  subset : ∀ u ∈ ch.users, u ∈ ch₀.users
  called : ∀ n, ch.relay = some n → ∀ u ∈ ch.users, u.name = n →
    ch₀.relay = some n ∨ Calls u.addr ns
  sole : ch = ch₀ ∨ ∀ u, ch.users = [u] → u.needsServerRelay = false → Calls u.addr ns

theorem passCalls_start {ch : Channel} (hn : ch.WellNamed) : PassCalls ch ch [] where
  wellNamed := hn
  subset _ hu := hu
  called _ hr _ _ _ := Or.inl hr
  sole := Or.inl rfl

theorem passCalls_handleTimedOutUser {ch₀ ch : Channel} {ns : List Notification} {i : Nat}
    (gone : User) (h : PassCalls ch₀ ch ns) :
    PassCalls ch₀ (handleTimedOutUser ch i gone.name gone.addr).1
      (ns ++ (handleTimedOutUser ch i gone.name gone.addr).2) := by
  have husers := handleTimedOutUser_users ch i gone.name gone.addr
  have hsub := List.eraseIdx_sublist ch.users i
  refine ⟨?_, ?_, ?_, Or.inr ?_⟩
  · rw [Channel.WellNamed, husers]
    exact h.wellNamed.sublist (hsub.map _)
  · intro u hu
    rw [husers] at hu
    exact h.subset u (hsub.subset hu)
  · intro n hr u hu hname
    rw [husers] at hu
    by_cases hnew : ch.relay = some gone.name ∨ ch.relay ≠ some n
    · exact Or.inr (List.mem_append_right _
        (calls_handleTimedOutUser h.wellNamed hr hu hname hnew))
    · -- the relay is the one it was
      have hsame : ch.relay = some n := by
        by_contra hne
        exact hnew (Or.inr hne)
      exact (h.called n hsame u (hsub.subset hu) hname).imp id (List.mem_append_left _)
  · intro u hsole hneeds
    rw [husers] at hsole
    exact List.mem_append_right _ (calls_handleTimedOutUser_sole hsole hneeds)

theorem passCalls_expire (now : Instant) {ch : Channel} (hn : ch.WellNamed) :
    PassCalls ch (ch.expire now).1 (ch.expire now).2 :=
  expire_induct now ch (Q := PassCalls ch) (passCalls_start hn) fun _ _ _ u hQ _ _ _ =>
    passCalls_handleTimedOutUser u hQ

/-- What the loop notifies of is sent. -/
theorem mem_heartbeatTold {now : Instant} {ch : Channel} {addr : SocketAddr}
    (h : Calls addr (ch.expire now).2) : tell addr modeRelay ∈ ch.heartbeatTold now := by
  refine List.mem_append_right _ (Calls.datagram ?_)
  exact List.mem_append_left _ h

end NatPiercer.Signaling
