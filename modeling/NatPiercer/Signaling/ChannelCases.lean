/-
# `Signaling.ChannelCases` — the users and the relay after each operation

Three things decide everything that is proved about the relay: who is in the
channel, who is on record, and who needs the server.  Here is what each
operation makes of them, said once; nothing below unfolds an operation
again.

A channel is *well named* when no two of its users have one name.  Every
operation keeps that, and in a well named channel a session is the only one
of its name, so "the session is gone" and "the name is gone" are the same.
-/
import NatPiercer.Signaling.Step

namespace NatPiercer.Signaling

open Text Utf8 Net Proto LockProg

/-! ## Names and standings -/

/-- No two users have one name. -/
def Channel.WellNamed (channel : Channel) : Prop := (channel.users.map User.name).Nodup

/-- The users that are not called `userName`. -/
def Channel.others (userName : Token) (channel : Channel) : List User :=
  channel.users.filter fun u => u.name ≠ userName

/-- What `CONNECT` and `DISCONNECT` know a user by. -/
def User.session (u : User) : Token × SocketAddr := (u.name, u.addr)

/-- What the relay logic reads of a user. -/
def User.standing (u : User) : Token × SocketAddr × Bool × NatKind :=
  (u.name, u.addr, u.needsServerRelay, u.natKind)

/-- The users are the same, but for when they were last heard of. -/
def SameStanding (channel channel' : Channel) : Prop :=
  channel'.users.map User.standing = channel.users.map User.standing ∧
    channel'.relay = channel.relay

section Names
variable {ch ch' : Channel} {u x y : User} {n : Token} {src : SocketAddr}

theorem isSession_iff : x.isSession n src = true ↔ x.name = n ∧ x.addr = src := by
  simp [User.isSession]

/-- A session is there, or it is new. -/
theorem session_or_new (n : Token) (src : SocketAddr) (ch : Channel) :
    (∃ x ∈ ch.users, x.isSession n src = true) ∨ ∀ x ∈ ch.users, x.isSession n src = false := by
  by_cases h : ∃ x ∈ ch.users, x.isSession n src = true
  · exact Or.inl h
  · exact Or.inr fun x hx => Bool.eq_false_iff.mpr fun hsess => h ⟨x, hx, hsess⟩

@[simp] theorem mem_others : x ∈ ch.others n ↔ x ∈ ch.users ∧ x.name ≠ n := by
  simp [Channel.others]

/-- The one user of a name. -/
theorem Channel.WellNamed.eq_of_name (h : ch.WellNamed) (hx : x ∈ ch.users) (hy : y ∈ ch.users)
    (hxy : x.name = y.name) : x = y :=
  List.inj_on_of_nodup_map h hx hy hxy

theorem wellNamed_of_sublist (h : ch.WellNamed) (hs : ch'.users.Sublist ch.users) :
    ch'.WellNamed :=
  h.sublist (hs.map User.name)

theorem SameStanding.mem (h : SameStanding ch ch') (hx : x ∈ ch'.users) :
    ∃ y ∈ ch.users, y.standing = x.standing := by
  have hmem : x.standing ∈ ch'.users.map User.standing := List.mem_map_of_mem hx
  rw [h.1] at hmem
  exact List.mem_map.mp hmem

/-- Somebody like it was there before. -/
theorem SameStanding.user (h : SameStanding ch ch') (hx : x ∈ ch'.users) :
    ∃ y ∈ ch.users, y.name = x.name ∧ y.addr = x.addr ∧
      y.needsServerRelay = x.needsServerRelay ∧ y.natKind = x.natKind := by
  obtain ⟨y, hy, hstanding⟩ := h.mem hx
  simp only [User.standing, Prod.mk.injEq] at hstanding
  exact ⟨y, hy, hstanding⟩

theorem SameStanding.session_mem (h : SameStanding ch ch') (hx : x ∈ ch'.users) :
    ∃ y ∈ ch.users, y.session = x.session := by
  obtain ⟨y, hy, hstanding⟩ := h.mem hx
  exact ⟨y, hy, congrArg (fun x => (x.1, x.2.1)) hstanding⟩

theorem SameStanding.symm (h : SameStanding ch ch') : SameStanding ch' ch :=
  ⟨h.1.symm, h.2.symm⟩

theorem SameStanding.names (h : SameStanding ch ch') :
    ch'.users.map User.name = ch.users.map User.name := by
  have hname := congrArg (List.map Prod.fst) h.1
  simpa [List.map_map, Function.comp_def, User.standing] using hname

theorem SameStanding.wellNamed (h : SameStanding ch ch') (hn : ch.WellNamed) : ch'.WellNamed := by
  rw [Channel.WellNamed, h.names]
  exact hn

/-- Hearing of a user changes no standing. -/
theorem map_standing_touch (p : User → Bool) (now : Instant) (users : List User) :
    (Vec.modifyFirst p (fun u => { u with lastPong := now }) users).map User.standing =
      users.map User.standing :=
  Vec.map_modifyFirst (f := fun u => { u with lastPong := now }) (fun _ => rfl) users

theorem sameStanding_refresh (now : Instant) (n : Token) (src : SocketAddr) (ch : Channel) :
    SameStanding ch (ch.refresh now n src) :=
  ⟨map_standing_touch _ _ _, rfl⟩

theorem sameStanding_pong (now : Instant) (src : SocketAddr) (ch : Channel) :
    SameStanding ch (ch.pong now src) :=
  ⟨map_standing_touch _ _ _, rfl⟩

@[simp] theorem ensureId_users (id : UInt64) (ch : Channel) :
    (ch.ensureId id).users = ch.users := by
  unfold Channel.ensureId
  split_ifs <;> rfl

@[simp] theorem ensureId_relay (id : UInt64) (ch : Channel) :
    (ch.ensureId id).relay = ch.relay := by
  unfold Channel.ensureId
  split_ifs <;> rfl

end Names

/-! ## `CONNECT` -/

section Connect
variable {amb : Ambient} {n : Token} {nat : NatKind} {src : SocketAddr} {ch : Channel} {x : User}

variable (amb nat) in
/-- Of a session that is there, only the time changes. -/
theorem connect_eq_of_session (hx : ch.users.find? (User.isSession n src) = some x) :
    ch.connect amb n nat src = ((ch.ensureId amb.channelId).refresh amb.now n src,
      [welcome src (ch.ensureId amb.channelId).channelId x.peerId]) := by
  have hfind : (ch.ensureId amb.channelId).users.find? (User.isSession n src) = some x := by
    rw [ensureId_users, hx]
  unfold Channel.connect updateExistingUser
  simp only [hfind]
  rfl

variable (amb nat) in
theorem connect_of_session (h : ∃ x ∈ ch.users, x.isSession n src = true) :
    SameStanding ch (ch.connect amb n nat src).1 ∧
      ∃ cid pid, (ch.connect amb n nat src).2 = [welcome src cid pid] := by
  obtain ⟨x, hx⟩ := Option.isSome_iff_exists.mp (List.find?_isSome.mpr h)
  rw [connect_eq_of_session amb nat hx]
  refine ⟨⟨?_, ensureId_relay _ _⟩, _, _, rfl⟩
  rw [Channel.refresh, map_standing_touch, ensureId_users]

variable (amb n nat src ch) in
/-- The channel with the new session in, before the relay is settled. -/
def Channel.joined : Channel := (ch.ensureId amb.channelId).join amb.now n src nat

variable (amb n nat src ch) in
/-- The user that a new session makes. -/
def Channel.newUser : User :=
  User.new n src nat (ch.ensureId amb.channelId).nextPeerId amb.now

@[simp] theorem newUser_name : (ch.newUser amb n nat src).name = n := rfl
@[simp] theorem newUser_addr : (ch.newUser amb n nat src).addr = src := rfl
@[simp] theorem newUser_needs :
    (ch.newUser amb n nat src).needsServerRelay = decide (nat = .symmetric) := rfl

@[simp] theorem newUser_eligible :
    (ch.newUser amb n nat src).eligible = decide (nat ≠ .symmetric) := by
  cases nat <;> rfl

@[simp] theorem joined_relay : (ch.joined amb n nat src).relay = ch.relay :=
  ensureId_relay _ _

variable (amb nat) in
theorem joined_users (h : ∀ x ∈ ch.users, x.isSession n src = false) :
    (ch.joined amb n nat src).users = ch.others n ++ [ch.newUser amb n nat src] := by
  have hold : (removeOldUserSessions (ch.ensureId amb.channelId) n src).users = ch.others n := by
    unfold removeOldUserSessions Channel.others
    rw [ensureId_users]
    refine List.filter_congr fun x hx => ?_
    have hsess := h x hx
    simp only [User.isSession, decide_eq_false_iff_not] at hsess
    by_cases hname : x.name = n
    · simp [hname, show x.addr ≠ src from fun ha => hsess ⟨hname, ha⟩]
    · simp [hname]
  change (removeOldUserSessions (ch.ensureId amb.channelId) n src).users ++ _ = _
  rw [hold]
  rfl

theorem updateExistingUser_of_new (h : ∀ x ∈ ch.users, x.isSession n src = false) :
    updateExistingUser amb.now (ch.ensureId amb.channelId) n src = none := by
  have hfind : (ch.ensureId amb.channelId).users.find? (User.isSession n src) = none := by
    rw [ensureId_users, List.find?_eq_none]
    exact fun x hx => by simp [h x hx]
  unfold updateExistingUser
  rw [hfind]

variable (amb nat) in
/-- The first session of a channel: the relay stays if there is one, and is the
new user if it can be. -/
theorem connect_lone (h : ∀ x ∈ ch.users, x.isSession n src = false) (ho : ch.others n = []) :
    (ch.connect amb n nat src).1.users = [ch.newUser amb n nat src] ∧
    (ch.connect amb n nat src).1.relay =
      (if ch.relay = none ∧ nat ≠ .symmetric then some n else ch.relay) ∧
    ∃ cid pid, (ch.connect amb n nat src).2 =
      (if ch.relay = none then
        [tell src (if nat = .symmetric then modeServerRelay n else modeRelay)] else []) ++
      [welcome src cid pid] := by
  have husers : (ch.joined amb n nat src).users = [ch.newUser amb n nat src] := by
    rw [joined_users amb nat h, ho]
    rfl
  have hconnect : ch.connect amb n nat src =
      ((ch.joined amb n nat src).settleLone.1.afterJoin.1,
        (ch.joined amb n nat src).settleLone.2 ++
          welcome src (ch.joined amb n nat src).settleLone.1.channelId
            (ch.ensureId amb.channelId).nextPeerId ::
          (ch.joined amb n nat src).settleLone.1.afterJoin.2) := by
    unfold Channel.connect
    simp only [updateExistingUser_of_new h]
    rfl
  have hlone : ∀ ch' : Channel, ch'.users = [ch.newUser amb n nat src] →
      ch'.afterJoin = (ch', []) := by
    intro ch' h'
    rw [Channel.afterJoin, h', if_neg (by simp)]
  have hsettled : (ch.joined amb n nat src).settleLone.1.users = [ch.newUser amb n nat src] := by
    rw [settleLone_users, husers]
  rw [hconnect, hlone _ hsettled]
  refine ⟨hsettled, ?_, (ch.joined amb n nat src).settleLone.1.channelId,
    (ch.ensureId amb.channelId).nextPeerId, ?_⟩
  · have hrelay : (ch.joined amb n nat src).relay = ch.relay := joined_relay
    unfold Channel.settleLone
    rw [husers, hrelay]
    cases hr : ch.relay with
    | some r => simp [hr]
    | none => cases nat <;> simp [Channel.newUser, User.new]
  · have hrelay : (ch.joined amb n nat src).relay = ch.relay := joined_relay
    unfold Channel.settleLone
    rw [husers, hrelay]
    cases ch.relay with
    | some r => simp
    | none => cases nat <;> simp [Channel.newUser, User.new]

variable (amb nat) in
theorem length_joined (h : ∀ x ∈ ch.users, x.isSession n src = false) (ho : ch.others n ≠ []) :
    1 < (ch.joined amb n nat src).users.length := by
  rw [joined_users amb nat h, List.length_append, List.length_singleton]
  have := List.length_pos_iff.mpr ho
  omega

variable (amb nat) in
/-- Nobody is alone beside others. -/
theorem settleLone_joined (h : ∀ x ∈ ch.users, x.isSession n src = false)
    (ho : ch.others n ≠ []) :
    (ch.joined amb n nat src).settleLone = (ch.joined amb n nat src, []) := by
  have husers := joined_users amb nat h
  unfold Channel.settleLone
  obtain ⟨y, ys, hy⟩ := List.exists_cons_of_ne_nil ho
  rw [husers, hy]
  cases (ch.joined amb n nat src).relay <;> cases ys <;> rfl

variable (amb nat) in
/-- A session beside others: an election. -/
theorem connect_elect (h : ∀ x ∈ ch.users, x.isSession n src = false) (ho : ch.others n ≠ []) :
    (ch.connect amb n nat src).1 = (ch.joined amb n nat src).elect.1 ∧
    ∃ cid pid, (ch.connect amb n nat src).2 =
      welcome src cid pid :: (ch.joined amb n nat src).elect.2 := by
  have hsettle := settleLone_joined amb nat h ho
  have hlen := length_joined amb nat h ho
  unfold Channel.connect
  simp only [updateExistingUser_of_new h]
  change ((ch.joined amb n nat src).settleLone.1.afterJoin.1 = _) ∧ ∃ cid pid,
    (ch.joined amb n nat src).settleLone.2 ++
      _ :: (ch.joined amb n nat src).settleLone.1.afterJoin.2 = _
  rw [hsettle]
  simp only [Channel.afterJoin, if_pos hlen, List.nil_append]
  exact ⟨trivial, _, _, rfl⟩

end Connect

/-- Whom an election makes the relay. -/
def electedName (users : List User) : Option Token := (users.find? User.eligible).map User.name

@[simp] theorem elect_users (ch : Channel) : ch.elect.1.users = ch.users := by
  unfold Channel.elect
  cases pickEligibleRelay ch <;> rfl

@[simp] theorem elect_relay (ch : Channel) : ch.elect.1.relay = electedName ch.users := by
  unfold Channel.elect electedName
  cases h : pickEligibleRelay ch with
  | none => rw [show ch.users.find? User.eligible = none from h]; rfl
  | some u => rw [show ch.users.find? User.eligible = some u from h]; rfl

/-- A new session takes the place of those of its name. -/
theorem connect_users_of_new {ch : Channel} {n : Token} {src : SocketAddr} (amb : Ambient)
    (nat : NatKind) (h : ∀ x ∈ ch.users, x.isSession n src = false) :
    (ch.connect amb n nat src).1.users = ch.others n ++ [ch.newUser amb n nat src] := by
  by_cases ho : ch.others n = []
  · rw [(connect_lone amb nat h ho).1, ho]
    rfl
  · rw [(connect_elect amb nat h ho).1, elect_users, joined_users amb nat h]

/-! ## Departures -/

section Departures
variable {n : Token} {src : SocketAddr} {ch : Channel}

theorem disconnect_of_absent (h : ∀ x ∈ ch.users, x.isSession n src = false) :
    (ch.disconnect n src).1 = ch := by
  have hfind : ch.users.find? (User.isSession n src) = none :=
    List.find?_eq_none.mpr fun x hx => by simp [h x hx]
  unfold Channel.disconnect findAndRemoveUser
  rw [hfind]

/-- The name of the one user there is, and `relay` when there are none or more. -/
def soleOr (relay : Option Token) : List User → Option Token
  | [u] => some u.name
  | _ => relay

theorem soleOr_of_length {users : List User} (relay : Option Token) (h : users.length ≠ 1) :
    soleOr relay users = relay := by
  rcases users with _ | ⟨u, _ | ⟨v, users⟩⟩
  · rfl
  · exact absurd rfl h
  · rfl

@[simp] theorem transition_users (ch : Channel) : ch.transition.1.users = ch.users := by
  unfold Channel.transition
  cases pickEligibleRelay ch <;> rfl

@[simp] theorem transition_relay (ch : Channel) : ch.transition.1.relay = electedName ch.users := by
  unfold Channel.transition electedName
  cases h : pickEligibleRelay ch with
  | none => rw [show ch.users.find? User.eligible = none from h]; rfl
  | some u => rw [show ch.users.find? User.eligible = some u from h]; rfl

theorem repair_users (ch : Channel) (wasRelay : Bool) :
    (ch.repair wasRelay).1.users = ch.users := by
  have husers := updateRelayAfterDeparture_users ch wasRelay
  unfold Channel.repair
  generalize updateRelayAfterDeparture ch wasRelay = r at husers ⊢
  obtain ⟨repaired, _ | addr⟩ := r
  · cases wasRelay with
    | false => exact husers
    | true => exact (transition_users repaired).trans husers
  · exact husers

theorem repair_relay (ch : Channel) (wasRelay : Bool) :
    (ch.repair wasRelay).1.relay = if wasRelay then soleOr (electedName ch.users) ch.users
      else ch.relay := by
  unfold Channel.repair updateRelayAfterDeparture
  cases wasRelay with
  | false => rfl
  | true =>
      obtain ⟨id, next, users, relay⟩ := ch
      rcases users with _ | ⟨u, _ | ⟨v, users⟩⟩
      · rfl
      · rfl
      · exact transition_relay _

/-- The first entry of the session leaves, if there is one. -/
theorem disconnect_users (n : Token) (src : SocketAddr) (ch : Channel) :
    (ch.disconnect n src).1.users = ch.users.eraseP (User.isSession n src) := by
  unfold Channel.disconnect findAndRemoveUser
  cases hfind : ch.users.find? (User.isSession n src) with
  | none => exact (List.eraseP_of_forall_not (by simpa using hfind)).symm
  | some y => exact repair_users _ _

/-- In a well named channel a session is all there is of its name. -/
theorem eraseP_isSession (hn : ch.WellNamed) (h : ∃ x ∈ ch.users, x.isSession n src = true) :
    ch.users.eraseP (User.isSession n src) = ch.others n := by
  obtain ⟨x, hx, hsess⟩ := h
  have hname := isSession_iff.mp hsess
  unfold Channel.others
  obtain ⟨id, next, users, relay⟩ := ch
  unfold Channel.WellNamed at hn
  dsimp only at hn hx ⊢
  clear id next relay
  induction users with
  | nil => exact absurd hx List.not_mem_nil
  | cons y ys ih =>
      rw [List.map_cons, List.nodup_cons] at hn
      rcases List.mem_cons.mp hx with rfl | hx
      · have hrest : ys.filter (fun u => decide (u.name ≠ n)) = ys := by
          refine List.filter_eq_self.mpr fun z hz => ?_
          have hne : z.name ≠ n := fun h => hn.1 (List.mem_map.mpr ⟨z, hz, h.trans hname.1.symm⟩)
          simp [hne]
        rw [List.eraseP_cons_of_pos hsess, List.filter_cons_of_neg (by simp [hname.1]), hrest]
      · have hne : y.name ≠ n := fun h => hn.1 (List.mem_map.mpr ⟨x, hx, hname.1.trans h.symm⟩)
        have hnot : ¬ y.isSession n src = true := fun h => hne (isSession_iff.mp h).1
        rw [List.eraseP_cons_of_neg hnot, List.filter_cons_of_pos (by simp [hne]), ih hn.2 hx]

/-- The session leaves; the relay is settled anew if it was the relay. -/
theorem disconnect_of_session (hn : ch.WellNamed) (h : ∃ x ∈ ch.users, x.isSession n src = true) :
    (ch.disconnect n src).1.users = ch.others n ∧
    (ch.disconnect n src).1.relay =
      if ch.relay = some n then soleOr (electedName (ch.others n)) (ch.others n)
      else ch.relay := by
  have herase := eraseP_isSession hn h
  refine ⟨(disconnect_users n src ch).trans herase, ?_⟩
  obtain ⟨x, hx, hsess⟩ := h
  have hfind : (ch.users.find? (User.isSession n src)).isSome := by
    rw [List.find?_isSome]
    exact ⟨x, hx, hsess⟩
  obtain ⟨y, hy⟩ := Option.isSome_iff_exists.mp hfind
  unfold Channel.disconnect findAndRemoveUser
  simp only [hy, herase]
  rw [repair_relay]
  by_cases hr : ch.relay = some n <;> simp [hr]

theorem removePeer_users (n : Token) (ch : Channel) : (ch.removePeer n).users = ch.others n := by
  unfold Channel.removePeer Channel.others
  dsimp only
  generalize List.filter (fun u => decide (u.name ≠ n)) ch.users = users
  rcases users with _ | ⟨u, _ | ⟨v, users⟩⟩ <;> rfl

theorem removePeer_relay (n : Token) (ch : Channel) :
    (ch.removePeer n).relay = soleOr ch.relay (ch.others n) := by
  unfold Channel.removePeer Channel.others
  dsimp only
  generalize List.filter (fun u => decide (u.name ≠ n)) ch.users = users
  rcases users with _ | ⟨u, _ | ⟨v, users⟩⟩ <;> rfl

theorem evict_users (hn : ch.WellNamed) (h : ∃ x ∈ ch.users, x.isSession n src = true) :
    (ch.evict n src).users = ch.others n := by
  obtain ⟨x, hx, hsess⟩ := h
  have hname := isSession_iff.mp hsess
  refine List.filter_congr fun y hy => ?_
  by_cases hy' : y.name = n
  · have hxy : y = x := hn.eq_of_name hy hx (hy'.trans hname.1.symm)
    simp [hxy, hsess, hname.1]
  · simp [hy', User.isSession]

theorem evict_of_absent (h : ∀ x ∈ ch.users, x.isSession n src = false) :
    ch.evict n src = ch := by
  unfold Channel.evict
  rw [List.filter_eq_self.mpr fun x hx => by simp [h x hx]]

end Departures

/-! ## Heartbeat -/

section Heartbeat
variable {now : Instant}

/-- Whom the heartbeat makes the relay. -/
def sparedName (users : List User) : Option Token :=
  (users.find? fun u => !u.needsServerRelay).map User.name

@[simp] theorem handleRelayTimeout_users (ch : Channel) :
    (handleRelayTimeout ch).1.users = ch.users := by
  unfold handleRelayTimeout
  cases Heartbeat.pickEligibleRelay ch <;> rfl

@[simp] theorem handleRelayTimeout_relay (ch : Channel) :
    (handleRelayTimeout ch).1.relay = sparedName ch.users := by
  unfold handleRelayTimeout sparedName
  cases h : Heartbeat.pickEligibleRelay ch with
  | none =>
      rw [show ch.users.find? (fun u => !u.needsServerRelay) = none from h]
      rfl
  | some u =>
      rw [show ch.users.find? (fun u => !u.needsServerRelay) = some u from h]
      rfl

theorem handleTimedOutUser_users (ch : Channel) (i : Nat) (n : Token) (addr : SocketAddr) :
    (handleTimedOutUser ch i n addr).1.users = ch.users.eraseIdx i := by
  unfold handleTimedOutUser
  dsimp only
  by_cases hr : ch.relay = some n
  · rw [if_pos (by simpa using hr)]
    exact handleRelayTimeout_users _
  · rw [if_neg (by simpa using hr)]
    generalize ch.users.eraseIdx i = users
    rcases users with _ | ⟨u, _ | ⟨v, users⟩⟩ <;> rfl

theorem handleTimedOutUser_relay (ch : Channel) (i : Nat) (n : Token) (addr : SocketAddr) :
    (handleTimedOutUser ch i n addr).1.relay =
      if ch.relay = some n then sparedName (ch.users.eraseIdx i)
      else soleOr ch.relay (ch.users.eraseIdx i) := by
  unfold handleTimedOutUser
  dsimp only
  by_cases hr : ch.relay = some n
  · rw [if_pos (by simpa using hr), if_pos hr]
    exact handleRelayTimeout_relay _
  · rw [if_neg (by simpa using hr), if_neg hr]
    generalize ch.users.eraseIdx i = users
    rcases users with _ | ⟨u, _ | ⟨v, users⟩⟩ <;> rfl

/-- The rule for the loop: what every removal keeps, of the channel and of the
notifications so far, holds at the end.  Whoever is removed is the first that
has expired. -/
theorem expireLoop_induct {Q : Channel → List Notification → Prop}
    (hstep : ∀ ch ns i u, Q ch ns → ch.users[i]? = some u → u.expired now = true →
      (∀ v ∈ ch.users.take i, v.expired now = false) →
      Q (handleTimedOutUser ch i u.name u.addr).1
        (ns ++ (handleTimedOutUser ch i u.name u.addr).2)) :
    ∀ (todo i : Nat) (ch : Channel) (ns : List Notification), Q ch ns →
      (∀ v ∈ ch.users.take i, v.expired now = false) →
      Q (expireLoop now todo i ch).1 (ns ++ (expireLoop now todo i ch).2)
  | 0, i, ch, ns, h, _ => by
      rw [expireLoop, List.append_nil]
      exact h
  | todo + 1, i, ch, ns, h, hfresh => by
      rw [expireLoop]
      cases hu : ch.users[i]? with
      | none =>
          dsimp only
          rwa [List.append_nil]
      | some u =>
          dsimp only
          split_ifs with hexp
          · have htake : (ch.users.eraseIdx i).take i = ch.users.take i := by
              rw [List.eraseIdx_eq_take_drop_succ, List.take_left']
              rw [List.length_take]
              have := (List.getElem?_eq_some_iff.mp hu).1
              omega
            have hnext := expireLoop_induct hstep todo i _ _ (hstep ch ns i u h hu hexp hfresh) (by
              rwa [handleTimedOutUser_users, htake])
            rwa [List.append_assoc] at hnext
          · refine expireLoop_induct hstep todo (i + 1) ch ns h fun v hv => ?_
            rw [List.take_add_one, hu] at hv
            rcases List.mem_append.mp hv with hv | hv
            · exact hfresh v hv
            · rw [List.mem_singleton.mp hv]
              simpa using hexp

/-- The loop has kept some users, and looks at the next. -/
theorem expireLoop_cons {ch : Channel} {todo : Nat} {kept rest : List User} {u : User}
    (hch : ch.users = kept ++ u :: rest) :
    expireLoop now (todo + 1) kept.length ch =
      if u.expired now then
        let gone := handleTimedOutUser ch kept.length u.name u.addr
        let left := expireLoop now todo kept.length gone.1
        (left.1, gone.2 ++ left.2)
      else expireLoop now todo (kept ++ [u]).length ch := by
  have hu : ch.users[kept.length]? = some u := by
    rw [hch, List.getElem?_append_right (Nat.le_refl _), Nat.sub_self]
    rfl
  rw [expireLoop, hu, List.length_append, List.length_singleton]

theorem eraseIdx_kept {ch : Channel} {kept rest : List User} {u : User}
    (hch : ch.users = kept ++ u :: rest) : ch.users.eraseIdx kept.length = kept ++ rest := by
  rw [hch, List.eraseIdx_append_of_length_le (Nat.le_refl _), Nat.sub_self]
  rfl

theorem expireLoop_end {ch : Channel} {todo i : Nat} (hi : ch.users.length ≤ i) :
    expireLoop now todo i ch = (ch, []) := by
  cases todo with
  | zero => rfl
  | succ todo => rw [expireLoop, List.getElem?_eq_none_iff.mpr hi]

/-- The users that a pass at `now` leaves in the channel. -/
def Channel.survivors (now : Instant) (ch : Channel) : List User :=
  ch.users.filter fun u => !u.expired now

/-- The loop has looked at the users before `i`, and has rounds enough for the
others. -/
theorem expireLoop_users : ∀ (todo i : Nat) (ch : Channel), ch.users.length ≤ i + todo →
    (expireLoop now todo i ch).1.users =
      ch.users.take i ++ (ch.users.drop i).filter fun u => !u.expired now
  | 0, i, ch, h => by
      have h : ch.users.length ≤ i := h
      rw [expireLoop, List.take_of_length_le h, List.drop_eq_nil_of_le h, List.filter_nil,
        List.append_nil]
  | todo + 1, i, ch, h => by
      rw [expireLoop]
      cases hu : ch.users[i]? with
      | none =>
          have h : ch.users.length ≤ i := List.getElem?_eq_none_iff.mp hu
          dsimp only
          rw [List.take_of_length_le h, List.drop_eq_nil_of_le h, List.filter_nil,
            List.append_nil]
      | some u =>
          obtain ⟨hi, hget⟩ := List.getElem?_eq_some_iff.mp hu
          have hdrop : ch.users.drop i = u :: ch.users.drop (i + 1) := by
            rw [List.drop_eq_getElem_cons hi, hget]
          have htake : ch.users.take (i + 1) = ch.users.take i ++ [u] := by
            rw [List.take_add_one, hu]
            rfl
          dsimp only
          split_ifs with hexp
          · have hlen : (ch.users.take i).length = i := by
              rw [List.length_take]
              omega
            rw [expireLoop_users todo i _ (by
              rw [handleTimedOutUser_users, List.length_eraseIdx_of_lt hi]
              omega), handleTimedOutUser_users, List.eraseIdx_eq_take_drop_succ, hdrop,
              List.filter_cons_of_neg (by simp [hexp])]
            rw [List.take_left' hlen, List.drop_left' hlen]
          · rw [expireLoop_users todo (i + 1) ch (by omega), htake, hdrop,
              List.filter_cons_of_pos (by simp [hexp]), List.append_assoc, List.singleton_append]

/-- The channel after the loop over its users. -/
def Channel.expire (now : Instant) (ch : Channel) : Channel × List Notification :=
  expireLoop now ch.users.length 0 ch

@[simp] theorem expire_users (ch : Channel) : (ch.expire now).1.users = ch.survivors now := by
  rw [Channel.expire, expireLoop_users _ _ _ (by omega), List.take_zero, List.drop_zero,
    List.nil_append]
  rfl

variable (now) in
/-- The rule for the loop, from its start. -/
theorem expire_induct (ch : Channel) {Q : Channel → List Notification → Prop} (h : Q ch [])
    (hstep : ∀ ch ns i u, Q ch ns → ch.users[i]? = some u → u.expired now = true →
      (∀ v ∈ ch.users.take i, v.expired now = false) →
      Q (handleTimedOutUser ch i u.name u.addr).1
        (ns ++ (handleTimedOutUser ch i u.name u.addr).2)) :
    Q (ch.expire now).1 (ch.expire now).2 :=
  expireLoop_induct hstep _ _ ch [] h fun _ hv => absurd hv List.not_mem_nil

@[simp] theorem settleSolo_users (ch : Channel) : (settleSolo ch).1.users = ch.users := by
  obtain ⟨id, next, users, relay⟩ := ch
  rcases users with _ | ⟨u, _ | ⟨v, users⟩⟩
  · rfl
  · unfold settleSolo
    dsimp only
    split_ifs <;> rfl
  · rfl

theorem settleSolo_relay_of_single {ch : Channel} {u : User} (h : ch.users = [u]) :
    (settleSolo ch).1.relay = if u.needsServerRelay then none else some u.name := by
  unfold settleSolo
  rw [h]
  dsimp only
  split_ifs <;> rfl

theorem settleSolo_of_length {ch : Channel} (h : ch.users.length ≠ 1) :
    settleSolo ch = (ch, [], []) := by
  obtain ⟨id, next, users, relay⟩ := ch
  rcases users with _ | ⟨u, _ | ⟨v, users⟩⟩
  · rfl
  · exact absurd rfl h
  · rfl

@[simp] theorem expireAndSettle_users (ch : Channel) :
    (ch.expireAndSettle now).1.users = ch.survivors now :=
  (settleSolo_users _).trans (expire_users ch)

theorem expireAndSettle_isEmpty_iff (ch : Channel) :
    (ch.expireAndSettle now).1.users.isEmpty = true ↔ ∀ u ∈ ch.users, u.expired now = true := by
  rw [expireAndSettle_users, List.isEmpty_iff, Channel.survivors, List.filter_eq_nil_iff]
  simp

/-- A pass leaves the users that have not expired, one of them settled as a
single user is, several with the relay as the loop left it. -/
theorem heartbeat_eq_some {ch ch' : Channel} (h : ch.heartbeat now = some ch') :
    ch'.users = ch.survivors now ∧
    ((∃ u, ch.survivors now = [u] ∧
        ch'.relay = if u.needsServerRelay then none else some u.name) ∨
      (2 ≤ (ch.survivors now).length ∧ ch' = (ch.expire now).1)) := by
  unfold Channel.heartbeat at h
  split_ifs at h with hempty
  obtain rfl := Option.some.inj h
  refine ⟨expireAndSettle_users ch, ?_⟩
  rw [expireAndSettle_users] at hempty
  rcases hs : ch.survivors now with _ | ⟨u, _ | ⟨v, users⟩⟩
  · rw [hs] at hempty
    exact absurd rfl hempty
  · exact Or.inl ⟨u, rfl, settleSolo_relay_of_single (by
      change (ch.expire now).1.users = [u]
      rw [expire_users, hs])⟩
  · refine Or.inr ⟨by simp, ?_⟩
    change (settleSolo (ch.expire now).1).1 = _
    rw [settleSolo_of_length (by rw [expire_users, hs]; simp)]

end Heartbeat

/-! ## What a step can do to a channel -/

/-- The ways a step leads from what was at `s`/`c` to the channel there after. -/
inductive Change (l : ServerStep) (s c : Token) : Option Channel → Channel → Prop
  | standing {ch ch' : Channel} (h : SameStanding ch ch') : Change l s c (some ch) ch'
  | connect {amb : Ambient} {text : Str} {src : SocketAddr} {n : Token} {natArg : Option Token}
      {o : Option Channel} (hl : l = .message amb text src)
      (hreq : Request.ofText text = .connect s c n natArg) :
      Change l s c o ((o.getD .default).connect amb n (NatKind.ofArg natArg) src).1
  | evict {amb : Ambient} {text : Str} {src : SocketAddr} {c' n : Token}
      {natArg : Option Token} {ch : Channel} (hl : l = .message amb text src)
      (hreq : Request.ofText text = .connect s c' n natArg) (hc : c ≠ c') :
      Change l s c (some ch) (ch.evict n src)
  | disconnect {amb : Ambient} {text : Str} {src : SocketAddr} {n : Token} {ch : Channel}
      (hl : l = .message amb text src) (hreq : Request.ofText text = .disconnect s c n) :
      Change l s c (some ch) (ch.disconnect n src).1
  | peerTimeout {amb : Ambient} {text : Str} {src : SocketAddr} {n : Token} {ch : Channel}
      (hl : l = .message amb text src) (hreq : Request.ofText text = .peerTimeout s c n) :
      Change l s c (some ch) (ch.removePeer n)
  | requestRelay {amb : Ambient} {text : Str} {src : SocketAddr} {n : Token} {ch : Channel}
      (hl : l = .message amb text src) (hreq : Request.ofText text = .requestRelay s c n) :
      Change l s c (some ch) (ch.requestRelay n)
  | heartbeat {now : Instant} {ch ch' : Channel} (hl : l = .heartbeat now)
      (h : ch.heartbeat now = some ch') : Change l s c (some ch) ch'

/-- Nothing else can happen. -/
theorem change_of_effect {l : ServerStep} {s c : Token} {o : Option Channel} {ch' : Channel}
    (h : l.effect s c o = some ch') : Change l s c o ch' := by
  have hrefl : o = some ch' → Change l s c o ch' := fun ho => ho ▸ .standing ⟨rfl, rfl⟩
  cases l with
  | relayout s' c' => exact hrefl h
  | heartbeat now =>
      obtain ⟨ch, rfl, hch⟩ := Option.bind_eq_some_iff.mp h
      exact .heartbeat rfl hch
  | message amb text src =>
      change (Request.ofText text).effect amb src s c o = some ch' at h
      cases hreq : Request.ofText text with
      | natProbe | data | unknown =>
          rw [hreq] at h
          exact hrefl h
      | pong =>
          rw [hreq] at h
          obtain ⟨ch, rfl, rfl⟩ := Option.map_eq_some_iff.mp h
          exact .standing (sameStanding_pong _ _ _)
      | hb s' c' n =>
          rw [hreq, Request.effect] at h
          split_ifs at h
          · obtain ⟨ch, rfl, rfl⟩ := Option.map_eq_some_iff.mp h
            exact .standing (sameStanding_refresh _ _ _ _)
          · exact hrefl h
      | connect s' c' n natArg =>
          rw [hreq, Request.effect] at h
          split_ifs at h with hsc hs
          · obtain ⟨rfl, rfl⟩ := hsc
            obtain rfl := Option.some.inj h
            exact .connect rfl hreq
          · obtain ⟨ch, rfl, rfl⟩ := Option.map_eq_some_iff.mp h
            subst hs
            exact .evict rfl hreq fun hc => hsc ⟨rfl, hc⟩
          · exact hrefl h
      | disconnect s' c' n =>
          rw [hreq, Request.effect] at h
          split_ifs at h with hsc
          · obtain ⟨rfl, rfl⟩ := hsc
            obtain ⟨ch, rfl, rfl⟩ := Option.map_eq_some_iff.mp h
            exact .disconnect rfl hreq
          · exact hrefl h
      | peerTimeout s' c' n =>
          rw [hreq, Request.effect] at h
          split_ifs at h with hsc
          · obtain ⟨rfl, rfl⟩ := hsc
            obtain ⟨ch, rfl, rfl⟩ := Option.map_eq_some_iff.mp h
            exact .peerTimeout rfl hreq
          · exact hrefl h
      | requestRelay s' c' n =>
          rw [hreq, Request.effect] at h
          split_ifs at h with hsc
          · obtain ⟨rfl, rfl⟩ := hsc
            obtain ⟨ch, rfl, rfl⟩ := Option.map_eq_some_iff.mp h
            exact .requestRelay rfl hreq
          · exact hrefl h

/-- Where the sessions of a channel come from: they were there, or a `CONNECT` has
just opened them. -/
theorem Change.session_from {l : ServerStep} {s c : Token} {o : Option Channel} {ch' : Channel}
    {u : User} (h : Change l s c o ch') (hu : u ∈ ch'.users) :
    (∃ ch, o = some ch ∧ ∃ v ∈ ch.users, v.session = u.session) ∨
      ∃ amb text src n natArg, l = .message amb text src ∧
        Request.ofText text = .connect s c n natArg ∧ u.session = (n, src) := by
  cases h with
  | standing hst => exact Or.inl ⟨_, rfl, hst.session_mem hu⟩
  | @connect amb text src n natArg o hl hreq =>
      rcases session_or_new n src (o.getD .default) with hsession | hnew
      · obtain ⟨v, hv, hvu⟩ := (connect_of_session amb (.ofArg natArg) hsession).1.session_mem hu
        cases o with
        | none => exact absurd hv List.not_mem_nil
        | some ch => exact Or.inl ⟨ch, rfl, v, hv, hvu⟩
      · rw [connect_users_of_new amb _ hnew] at hu
        rcases List.mem_append.mp hu with hu | hu
        · have hold := (mem_others.mp hu).1
          cases o with
          | none => exact absurd hold List.not_mem_nil
          | some ch => exact Or.inl ⟨ch, rfl, u, hold, rfl⟩
        · rw [List.mem_singleton.mp hu]
          exact Or.inr ⟨amb, text, src, n, natArg, hl, hreq, rfl⟩
  | evict hl hreq hc => exact Or.inl ⟨_, rfl, u, (List.mem_filter.mp hu).1, rfl⟩
  | disconnect hl hreq =>
      rw [disconnect_users] at hu
      exact Or.inl ⟨_, rfl, u, List.mem_of_mem_eraseP hu, rfl⟩
  | peerTimeout hl hreq =>
      rw [removePeer_users] at hu
      exact Or.inl ⟨_, rfl, u, (mem_others.mp hu).1, rfl⟩
  | requestRelay hl hreq =>
      rcases Vec.mem_modifyFirst hu with hu | ⟨v, hv, -, rfl⟩
      · exact Or.inl ⟨_, rfl, u, hu, rfl⟩
      · exact Or.inl ⟨_, rfl, v, hv, rfl⟩
  | heartbeat hl hhb =>
      rw [(heartbeat_eq_some hhb).1] at hu
      exact Or.inl ⟨_, rfl, u, (List.mem_filter.mp hu).1, rfl⟩

/-! ## Channels stay well named -/

theorem wellNamed_default : Channel.default.WellNamed := List.nodup_nil

theorem map_name_requestRelay (n : Token) (ch : Channel) :
    (ch.requestRelay n).users.map User.name = ch.users.map User.name :=
  Vec.map_modifyFirst (f := fun u => { u with needsServerRelay := true }) (fun _ => rfl) ch.users

theorem wellNamed_connect {ch : Channel} (hn : ch.WellNamed) (amb : Ambient) (n : Token)
    (nat : NatKind) (src : SocketAddr) : (ch.connect amb n nat src).1.WellNamed := by
  rcases session_or_new n src ch with h | hnew
  · exact (connect_of_session _ _ h).1.wellNamed hn
  · by_cases ho : ch.others n = []
    · rw [Channel.WellNamed, (connect_lone amb nat hnew ho).1]
      simp
    · rw [Channel.WellNamed, (connect_elect amb nat hnew ho).1, elect_users,
        joined_users amb nat hnew, List.map_append, List.nodup_append]
      refine ⟨hn.sublist (List.filter_sublist.map _), by simp, ?_⟩
      rintro _ hx _ hy rfl
      obtain ⟨x, hx', rfl⟩ := List.mem_map.mp hx
      simp only [List.map_cons, List.map_nil, List.mem_singleton, newUser_name] at hy
      exact (mem_others.mp hx').2 hy

theorem Change.wellNamed {l : ServerStep} {s c : Token} {o : Option Channel} {ch' : Channel}
    (h : Change l s c o ch') (ho : ∀ ch, o = some ch → ch.WellNamed) : ch'.WellNamed := by
  cases h with
  | standing h => exact h.wellNamed (ho _ rfl)
  | connect hl hreq =>
      refine wellNamed_connect ?_ _ _ _ _
      cases o with
      | none => exact wellNamed_default
      | some ch => exact ho ch rfl
  | evict hl hreq hc => exact wellNamed_of_sublist (ho _ rfl) List.filter_sublist
  | @disconnect amb text src n ch hl hreq =>
      have hn := ho ch rfl
      rcases session_or_new n src ch with h | habsent
      · refine wellNamed_of_sublist hn ?_
        rw [(disconnect_of_session hn h).1]
        exact List.filter_sublist
      · rw [disconnect_of_absent habsent]
        exact hn
  | peerTimeout hl hreq =>
      refine wellNamed_of_sublist (ho _ rfl) ?_
      rw [removePeer_users]
      exact List.filter_sublist
  | requestRelay hl hreq =>
      rw [Channel.WellNamed, map_name_requestRelay]
      exact ho _ rfl
  | heartbeat hl h =>
      refine wellNamed_of_sublist (ho _ rfl) ?_
      rw [(heartbeat_eq_some h).1]
      exact List.filter_sublist

/-- In every reachable state the channels are well named. -/
theorem wellNamed_step {st : ServerMap} (l : ServerStep) (h : Everywhere Channel.WellNamed st) :
    Everywhere Channel.WellNamed (st.step l) :=
  everywhere_step.mpr fun s c _ hch => (change_of_effect hch).wellNamed (h s c)

end NatPiercer.Signaling
