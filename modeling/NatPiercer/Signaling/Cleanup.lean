/-
# `Signaling.Cleanup` — a pass in two critical sections

`start_heartbeat` runs in a task of its own.  It finds the empty channels
under one guard and removes them under a second; in between it sends pings
and notifications, and the mutex is free.  So a pass is two steps with any
number of messages between them, and what was empty need not be empty any
more: the removal does not look.

Whom the removal costs is a matter of the messages alone.  A channel that is
removed had no user when the pass looked at it; its users at the removal are
those that the messages since have put in and not taken out, its *roster*.
-/
import NatPiercer.Signaling.ChannelCases

namespace NatPiercer.Signaling

open Text Utf8 Net Proto LockProg

/-- A message and its surroundings. -/
structure Message where
  amb : Ambient
  text : Str
  src : SocketAddr

def Message.step (m : Message) : ServerStep := .message m.amb m.text m.src

/-- The map after a window of messages. -/
def afterMessages (st : ServerMap) (window : List Message) : ServerMap :=
  after ServerMap.step st (window.map Message.step)

/-- The users of a channel; none when there is no channel. -/
def ServerMap.usersOf (st : ServerMap) (serverId channelName : Token) : List User :=
  ((st.channel? serverId channelName).map Channel.users).getD []

/-- A pass at `now` that lets a window of messages in: the map just before the
second guard. -/
def beforeCleanup (now : Instant) (st : ServerMap) (window : List Message) : ServerMap :=
  afterMessages ((collectHeartbeatData now).run st).state window

/-- And just after it. -/
def afterCleanup (now : Instant) (st : ServerMap) (window : List Message) : ServerMap :=
  ((cleanupEmptyChannels ((collectHeartbeatData now).run st).val.cleanup).run
    (beforeCleanup now st window)).state

/-- Every user there just before the removal is there just after. -/
def LosesNobody (now : Instant) (st : ServerMap) (window : List Message) : Prop :=
  ∀ s c, ∀ u ∈ (beforeCleanup now st window).usersOf s c,
    u ∈ (afterCleanup now st window).usersOf s c

/-! ## The roster -/

/-- What a request does to the sessions of the channel `s`/`c`. -/
def Request.roster (s c : Token) (src : SocketAddr) :
    Request → List (Token × SocketAddr) → List (Token × SocketAddr)
  | connect s' c' n _, r =>
      if s = s' ∧ c = c' then
        if (n, src) ∈ r then r else (r.filter fun x => x.1 ≠ n) ++ [(n, src)]
      else if s = s' then r.filter fun x => x ≠ (n, src)
      else r
  | disconnect s' c' n, r => if s = s' ∧ c = c' then r.erase (n, src) else r
  | peerTimeout s' c' n, r => if s = s' ∧ c = c' then r.filter fun x => x.1 ≠ n else r
  | natProbe, r | pong, r | hb _ _ _, r | requestRelay _ _ _, r | data, r | unknown, r => r

/-- The sessions that a window of messages leaves in a channel that it finds
empty. -/
def rosterAfter (s c : Token) (window : List Message) : List (Token × SocketAddr) :=
  window.foldl (fun r m => (Request.ofText m.text).roster s c m.src r) []

/-- The sessions of a channel, if there is one. -/
def sessions (o : Option Channel) : List (Token × SocketAddr) :=
  ((o.map Channel.users).getD []).map User.session

@[simp] theorem sessions_some (ch : Channel) :
    sessions (some ch) = ch.users.map User.session := rfl

theorem isSession_eq (n : Token) (src : SocketAddr) :
    User.isSession n src = (fun x => x == (n, src)) ∘ User.session := by
  funext u
  rw [Bool.eq_iff_iff]
  simp [User.isSession, User.session]

theorem SameStanding.sessions {ch ch' : Channel} (h : SameStanding ch ch') :
    ch'.users.map User.session = ch.users.map User.session := by
  have hsess : User.session = (fun x => (x.1, x.2.1)) ∘ User.standing := rfl
  rw [hsess, ← List.map_map, ← List.map_map, h.1]

theorem sessions_connect (amb : Ambient) (n : Token) (nat : NatKind) (src : SocketAddr)
    (ch : Channel) :
    (ch.connect amb n nat src).1.users.map User.session =
      if (n, src) ∈ ch.users.map User.session then ch.users.map User.session
      else ((ch.users.map User.session).filter fun x => x.1 ≠ n) ++ [(n, src)] := by
  have hmem : (n, src) ∈ ch.users.map User.session ↔ ∃ x ∈ ch.users, x.isSession n src = true := by
    simp [User.session, User.isSession]
  by_cases h : ∃ x ∈ ch.users, x.isSession n src = true
  · rw [if_pos (hmem.mpr h), (connect_of_session _ _ h).1.sessions]
  · rw [if_neg fun h' => h (hmem.mp h')]
    have hnew : ∀ x ∈ ch.users, x.isSession n src = false := fun x hx => by
      simpa using fun hx' => h ⟨x, hx, hx'⟩
    have hothers : ((ch.users.map User.session).filter fun x => decide (x.1 ≠ n)) =
        (ch.others n).map User.session := by
      rw [List.filter_map]
      rfl
    rw [hothers, connect_users_of_new amb nat hnew, List.map_append]
    rfl

/-- A request changes the sessions of a channel as it changes the roster. -/
theorem sessions_effect (amb : Ambient) (src : SocketAddr) (s c : Token) (r : Request)
    (o : Option Channel) :
    sessions (r.effect amb src s c o) = r.roster s c src (sessions o) := by
  cases r with
  | natProbe | data | unknown => rfl
  | pong =>
      cases o with
      | none => rfl
      | some ch => exact (sameStanding_pong _ _ ch).sessions
  | hb s' c' n =>
      rw [Request.effect, Request.roster]
      split_ifs
      · cases o with
        | none => rfl
        | some ch => exact (sameStanding_refresh _ _ _ ch).sessions
      · rfl
  | connect s' c' n natArg =>
      rw [Request.effect, Request.roster]
      by_cases hsc : s = s' ∧ c = c'
      · rw [if_pos hsc, if_pos hsc, sessions_some, sessions_connect]
        cases o <;> rfl
      · rw [if_neg hsc, if_neg hsc]
        split_ifs
        · cases o with
          | none => rfl
          | some ch =>
              simp only [Option.map_some, sessions_some, Channel.evict, isSession_eq,
                List.filter_map]
              congr 1
              refine List.filter_congr fun u _ => ?_
              rw [Bool.eq_iff_iff]
              simp [User.session, imp_iff_not_or]
        · rfl
  | disconnect s' c' n =>
      rw [Request.effect, Request.roster]
      split_ifs
      · cases o with
        | none => rfl
        | some ch =>
            rw [Option.map_some, sessions_some, sessions_some, disconnect_users, isSession_eq,
              ← List.eraseP_map, List.erase_eq_eraseP']
      · rfl
  | peerTimeout s' c' n =>
      rw [Request.effect, Request.roster]
      split_ifs
      · cases o with
        | none => rfl
        | some ch =>
            rw [Option.map_some, sessions_some, sessions_some, Channel.peerTimeout,
              removePeer_users, List.filter_map]
            rfl
      · rfl
  | requestRelay s' c' n =>
      rw [Request.effect, Request.roster]
      split_ifs
      · cases o with
        | none => rfl
        | some ch =>
            exact Vec.map_modifyFirst (f := fun u => { u with needsServerRelay := true })
              (g := User.session) (fun _ => rfl) ch.users
      · rfl

/-- And so does a window of messages. -/
theorem sessions_afterMessages (s c : Token) (window : List Message) (st : ServerMap) :
    sessions ((afterMessages st window).channel? s c) =
      window.foldl (fun r m => (Request.ofText m.text).roster s c m.src r)
        (sessions (st.channel? s c)) := by
  induction window generalizing st with
  | nil => rfl
  | cons m window ih =>
      rw [List.foldl_cons, ← sessions_effect m.amb]
      change sessions ((afterMessages (st.step m.step) window).channel? s c) = _
      rw [ih, channel?_step]
      rfl

/-! ## Whom the removal costs -/

/-- The list that a pass collects names the channels that nobody has survived
in. -/
theorem mem_cleanup_iff {now : Instant} {st : ServerMap} {s c : Token} :
    (s, c) ∈ ((collectHeartbeatData now).run st).val.cleanup ↔
      ∃ ch, st.channel? s c = some ch ∧ ∀ u ∈ ch.users, u.expired now = true := by
  rw [(collectHeartbeatData_spec now st).2.1]
  simp only [List.mem_map, List.mem_filter, expireAndSettle_isEmpty_iff, Prod.mk.injEq]
  constructor
  · rintro ⟨⟨s', c', ch⟩, ⟨hmem, hall⟩, rfl, rfl⟩
    exact ⟨ch, ServerMap.mem_channels_iff.mp hmem, hall⟩
  · rintro ⟨ch, hch, hall⟩
    exact ⟨(s, c, ch), ⟨ServerMap.mem_channels_iff.mpr hch, hall⟩, rfl, rfl⟩

theorem usersOf_eq_nil_iff {st : ServerMap} {s c : Token} :
    st.usersOf s c = [] ↔ sessions (st.channel? s c) = [] :=
  List.map_eq_nil_iff.symm

/-- The users, just before the removal, of a channel that is going to be
removed: the roster. -/
theorem sessions_beforeCleanup {now : Instant} {st : ServerMap} {s c : Token} {ch : Channel}
    (hch : st.channel? s c = some ch) (hall : ∀ u ∈ ch.users, u.expired now = true)
    (window : List Message) :
    sessions ((beforeCleanup now st window).channel? s c) = rosterAfter s c window := by
  have hstart : sessions (((collectHeartbeatData now).run st).state.channel? s c) = [] := by
    rw [(collectHeartbeatData_spec now st).1, hch, Option.map_some, sessions_some,
      expireAndSettle_users, Channel.survivors,
      List.filter_eq_nil_iff.mpr fun u hu => by simp [hall u hu]]
    rfl
  rw [beforeCleanup, sessions_afterMessages, hstart]
  rfl

/-- **When the removal of the empty channels loses nobody.**  Exactly when
nobody is on the roster of a channel whose users have all expired: whoever
the messages since have put into it has left it again. -/
theorem losesNobody_iff (now : Instant) (st : ServerMap) (window : List Message) :
    LosesNobody now st window ↔
      ∀ s c ch, st.channel? s c = some ch → (∀ u ∈ ch.users, u.expired now = true) →
        rosterAfter s c window = [] := by
  have hafter : ∀ s c, (afterCleanup now st window).channel? s c =
      if (s, c) ∈ ((collectHeartbeatData now).run st).val.cleanup then none
      else (beforeCleanup now st window).channel? s c := by
    intro s c
    rw [afterCleanup, run_cleanupEmptyChannels, channel?_foldl_removeChannel]
  constructor
  · intro h s c ch hch hall
    rw [← sessions_beforeCleanup hch hall window, ← usersOf_eq_nil_iff]
    refine List.eq_nil_iff_forall_not_mem.mpr fun u hu => ?_
    have hgone := h s c u hu
    rw [ServerMap.usersOf, hafter, if_pos (mem_cleanup_iff.mpr ⟨ch, hch, hall⟩)] at hgone
    exact absurd hgone List.not_mem_nil
  · intro h s c u hu
    rw [ServerMap.usersOf, hafter]
    split_ifs with hmem
    · obtain ⟨ch, hch, hall⟩ := mem_cleanup_iff.mp hmem
      rw [usersOf_eq_nil_iff.mpr ((sessions_beforeCleanup hch hall window).trans
        (h s c ch hch hall))] at hu
      exact absurd hu List.not_mem_nil
    · exact hu

/-- Ann has been silent for fifty seconds when the pass looks; Bob connects
before it removes her channel. -/
theorem cleanup_loses_bob :
    let ann : SocketAddr := .v4 ⟨10, 0, 0, 1⟩ 4000
    let bob : SocketAddr := .v4 ⟨10, 0, 0, 2⟩ 4000
    let now : Instant := 50 * 10 ^ 9
    let st := after ServerMap.step ∅ [.message ⟨0, 7⟩ "CONNECT s c ann CONE".toList ann]
    ¬ LosesNobody now st [⟨⟨now, 8⟩, "CONNECT s c bob CONE".toList, bob⟩] := by
  intro ann bob now st h
  let s : Token := ⟨"s".toList, by decide⟩
  let c : Token := ⟨"c".toList, by decide⟩
  let window : List Message := [⟨⟨now, 8⟩, "CONNECT s c bob CONE".toList, bob⟩]
  let user : User := ⟨2, ⟨"bob".toList, by decide⟩, bob, now, false, .cone⟩
  have hthere : user ∈ (beforeCleanup now st window).usersOf s c := by decide +kernel
  have hgone : user ∉ (afterCleanup now st window).usersOf s c := by decide +kernel
  exact hgone (h s c user hthere)

end NatPiercer.Signaling
