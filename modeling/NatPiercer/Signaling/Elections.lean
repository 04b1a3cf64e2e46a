/-
# `Signaling.Elections` — what is decided in one section and written in another

After a `CONNECT` of a second user, and after a `DISCONNECT` of the relay, the
new relay is chosen from a copy of the channel, and recorded in a later
critical section: `mark_relay_in_channel` and `handle_relay_transition` look
up the channel again, but not the user in it.  Between the two the heartbeat
task may have its turn, and drop the very user that was chosen.  Its own
elections it records under the guard that it chooses under.

The handler is followed through its passage (`amid`), with any sections of
the heartbeat in each gap; what it writes after its first section is what the
elections write.  The nested lock of `get_remaining_users` is a plain read
here.
-/
import NatPiercer.Signaling.Membership
import NatPiercer.Signaling.Sections

namespace NatPiercer.Signaling

open Text Utf8 Net Proto LockProg

/-! ## The heartbeat in between -/

/-- A critical section of the heartbeat task: at a time, or with what it has
collected to clean up. -/
inductive HeartbeatSection
  | collect (now : Instant)
  | cleanup (toCleanup : List (Token × Token))

def HeartbeatSection.program : HeartbeatSection → Server Unit
  | collect now => do
      let _ ← collectHeartbeatData now
      return ()
  | cleanup toCleanup => cleanupEmptyChannels toCleanup

def ServerMap.heartbeatSection (st : ServerMap) (h : HeartbeatSection) : ServerMap :=
  (h.program.run st).state

/-- The sections of each gap. -/
abbrev Gaps := Nat → List HeartbeatSection

def Gaps.others (gaps : Gaps) (j : Nat) (st : ServerMap) : ServerMap :=
  after ServerMap.heartbeatSection st (gaps j)

/-- The user is left. -/
def HeartbeatSection.spares (u : User) : HeartbeatSection → Bool
  | collect now => !u.expired now
  | cleanup _ => true

/-- The channel is gone. -/
def HeartbeatSection.removes (s c : Token) : HeartbeatSection → Bool
  | collect _ => false
  | cleanup toCleanup => (s, c) ∈ toCleanup

/-- Who is left after some sections. -/
def outlasting (hs : List HeartbeatSection) (users : List User) : List User :=
  users.filter fun u => hs.all (HeartbeatSection.spares u)

section Sections
variable {st : ServerMap} {s c : Token} {ch : Channel}

theorem relayPresent_expireAndSettle (now : Instant) (hp : ch.RelayPresent) :
    (ch.expireAndSettle now).1.RelayPresent := by
  have hexpire : (ch.expire now).1.RelayPresent :=
    expire_induct now ch (Q := fun ch _ => ch.RelayPresent) hp
      fun ch _ i u hQ hu _ _ => relayPresent_handleTimedOutUser hQ hu
  change (settleSolo (ch.expire now).1).1.RelayPresent
  by_cases hlen : (ch.expire now).1.users.length = 1
  · obtain ⟨u, hu⟩ := List.length_eq_one_iff.mp hlen
    intro n hn
    rw [settleSolo_relay_of_single hu] at hn
    split_ifs at hn
    rw [settleSolo_users, hu]
    exact ⟨u, List.mem_cons_self, Option.some.inj hn⟩
  · rw [settleSolo_of_length hlen]
    exact hexpire

theorem channel?_collect (now : Instant) (st : ServerMap) (s c : Token) :
    (st.heartbeatSection (.collect now)).channel? s c =
      (st.channel? s c).map fun ch => (ch.expireAndSettle now).1 := by
  have hstate : st.heartbeatSection (.collect now) = ((collectHeartbeatData now).run st).state := by
    simp only [ServerMap.heartbeatSection, HeartbeatSection.program, run_bind, run_pure]
  rw [hstate]
  exact (collectHeartbeatData_spec now st).1 s c

theorem channel?_cleanup (toCleanup : List (Token × Token)) (st : ServerMap) (s c : Token) :
    (st.heartbeatSection (.cleanup toCleanup)).channel? s c =
      if (s, c) ∈ toCleanup then none else st.channel? s c := by
  simp only [ServerMap.heartbeatSection, HeartbeatSection.program, run_cleanupEmptyChannels,
    channel?_foldl_removeChannel]

/-- A channel that is gone stays so: the heartbeat makes none. -/
theorem channel?_after_of_none (hs : List HeartbeatSection) (h : st.channel? s c = none) :
    (after ServerMap.heartbeatSection st hs).channel? s c = none := by
  induction hs generalizing st with
  | nil => exact h
  | cons x hs ih =>
      refine ih ?_
      cases x with
      | collect now => rw [channel?_collect, h, Option.map_none]
      | cleanup toCleanup => rw [channel?_cleanup, h, ite_self]

/-- **What the heartbeat leaves of a channel**: nothing, or the users that it
spares, and a relay that is one of them if it was one. -/
theorem channel?_after_sections (hs : List HeartbeatSection) (h : st.channel? s c = some ch) :
    if hs.any (HeartbeatSection.removes s c) then
      (after ServerMap.heartbeatSection st hs).channel? s c = none
    else ∃ ch', (after ServerMap.heartbeatSection st hs).channel? s c = some ch' ∧
      ch'.users = outlasting hs ch.users ∧ (ch.RelayPresent → ch'.RelayPresent) := by
  induction hs generalizing st ch with
  | nil => exact ⟨ch, h, (List.filter_true _).symm, id⟩
  | cons x hs ih =>
      cases x with
      | collect now =>
          have hch := (channel?_collect now st s c).trans (congrArg _ h)
          have hrest := ih hch
          rw [List.any_cons, HeartbeatSection.removes, Bool.false_or]
          split_ifs at hrest ⊢ with hany
          · exact hrest
          · obtain ⟨ch', hch', husers, hpresent⟩ := hrest
            refine ⟨ch', hch', ?_, fun hp => hpresent (relayPresent_expireAndSettle now hp)⟩
            rw [husers, expireAndSettle_users, Channel.survivors, outlasting, outlasting,
              List.filter_filter]
            exact List.filter_congr fun u _ => Bool.and_comm _ _
      | cleanup toCleanup =>
          have hch := channel?_cleanup toCleanup st s c
          rw [List.any_cons, HeartbeatSection.removes]
          by_cases hmem : (s, c) ∈ toCleanup
          · rw [if_pos hmem] at hch
            rw [decide_eq_true hmem, Bool.true_or, if_pos rfl]
            exact channel?_after_of_none hs hch
          · rw [if_neg hmem, h] at hch
            rw [decide_eq_false hmem, Bool.false_or]
            exact ih hch

end Sections

/-! ## What the handlers write -/

/-- The relay on record is a member, or there is none and nobody to elect. -/
def Channel.RelayCurrent (channel : Channel) : Prop :=
  match channel.relay with
  | some n => ∃ u ∈ channel.users, u.name = n
  | none => pickEligibleRelay channel = none

/-- In whatever is written after the first turn, the relay of the channel is
current. -/
def WritesCurrent (s c : Token) (writes : List (Nat × ServerMap)) : Prop :=
  ∀ w ∈ writes, 0 < w.1 → ∀ ch, w.2.channel? s c = some ch → ch.RelayCurrent

/-- Whatever the program writes after its first section, the relay of the channel
is current then. -/
def ElectsCurrent (gaps : Gaps) (s c : Token) (p : Server Unit) (st : ServerMap) : Prop :=
  WritesCurrent s c (amid gaps.others 0 0 p st).writes

/-- If the heartbeat leaves the gaps alone, a message is a step. -/
theorem amid_handleMessage_alone (amb : Ambient) (text : Str) (src : SocketAddr) (st : ServerMap) :
    (amid (Gaps.others fun _ => []) 0 0 (handleMessage amb text src) st).state =
      st.step (.message amb text src) :=
  (amid_alone (handleMessage amb text src)).2

/-- Whoever is elected of `users` is in the channel after the sections, unless
there is no channel then. -/
def ElectedOutlasts (hs : List HeartbeatSection) (s c : Token) (users : List User) : Prop :=
  hs.any (HeartbeatSection.removes s c) = false →
    ∀ v, users.find? User.eligible = some v → ∃ u ∈ outlasting hs users, u.name = v.name

section Writes
variable {gaps : Gaps} {s c : Token} {st : ServerMap} {ch ch' : Channel} {j : Nat}
  {hs : List HeartbeatSection}

@[simp] theorem amid_sendTo (payload : Bytes) (dst : SocketAddr) (depth : Nat) :
    amid gaps.others depth j (sendTo payload dst) st = ⟨[], depth, j, (), st⟩ := rfl

@[simp] theorem amid_notifyEach (peers : List User) (msg : User → Str) (dst : User → SocketAddr)
    (depth : Nat) :
    amid gaps.others depth j (notifyEach peers msg dst) st = ⟨[], depth, j, (), st⟩ :=
  amid_each fun _ => amid_sendTo _ _ _

@[simp] theorem amid_announceServerRelay (users : List User) (depth : Nat) :
    amid gaps.others depth j (announceServerRelay users) st = ⟨[], depth, j, (), st⟩ :=
  amid_each fun _ => amid_notifyEach _ _ _ _

@[simp] theorem amid_recordRelay (relay : Option Token) :
    amid gaps.others 0 j (recordRelay s c relay) st =
      ⟨[(j, st.modifyChannel s c fun ch => { ch with relay := relay })], 0, j + 1, (),
        gaps.others j (st.modifyChannel s c fun ch => { ch with relay := relay })⟩ := by
  simp [recordRelay]

/-- A channel as it is when `relay` has just been recorded. -/
theorem channel?_recorded (relay : Option Token) (h : st.channel? s c = some ch) :
    (st.modifyChannel s c fun ch => { ch with relay := relay }).channel? s c =
      some { ch with relay := relay } := by
  rw [ServerMap.channel?_modifyChannel, if_pos ⟨rfl, rfl⟩, h, Option.map_some]

theorem channel?_recorded_of_none (relay : Option Token) (h : st.channel? s c = none) :
    (st.modifyChannel s c fun ch => { ch with relay := relay }).channel? s c = none := by
  rw [ServerMap.channel?_modifyChannel, if_pos ⟨rfl, rfl⟩, h, Option.map_none]

/-- Nobody to elect before, nobody among those left. -/
theorem find?_outlasting_none {users : List User} (h : users.find? User.eligible = none) :
    (outlasting hs users).find? User.eligible = none :=
  List.find?_eq_none.mpr fun u hu => List.find?_eq_none.mp h u (List.mem_filter.mp hu).1

/-- Recording nobody, when there was nobody to elect. -/
theorem recordNone_current (h : st.channel? s c = some ch) (hnone : pickEligibleRelay ch = none)
    (hch' : ((after ServerMap.heartbeatSection st hs).modifyChannel s c
      fun ch => { ch with relay := none }).channel? s c = some ch') : ch'.RelayCurrent := by
  have hafter := channel?_after_sections hs h
  split_ifs at hafter
  · rw [channel?_recorded_of_none none hafter] at hch'
    exact absurd hch' (Option.some_ne_none _).symm
  · obtain ⟨ch₁, hch₁, husers, -⟩ := hafter
    rw [channel?_recorded none hch₁] at hch'
    rw [← Option.some.inj hch', Channel.RelayCurrent, pickEligibleRelay, husers]
    exact find?_outlasting_none hnone

/-- Recording whoever was elected. -/
theorem recordElected_current {v : User} (h : st.channel? s c = some ch)
    (hv : pickEligibleRelay ch = some v) :
    (∀ ch', ((after ServerMap.heartbeatSection st hs).modifyChannel s c
        fun ch => { ch with relay := some v.name }).channel? s c = some ch' →
      ch'.RelayCurrent) ↔ ElectedOutlasts hs s c ch.users := by
  have hafter := channel?_after_sections hs h
  unfold ElectedOutlasts
  change _ ↔ (_ → ∀ w, pickEligibleRelay ch = some w → _)
  cases hany : hs.any (HeartbeatSection.removes s c) with
  | true =>
      rw [hany, if_pos rfl] at hafter
      refine ⟨fun _ hfalse => absurd hfalse (by decide), fun _ ch' hch' => ?_⟩
      rw [channel?_recorded_of_none _ hafter] at hch'
      exact absurd hch' (Option.some_ne_none _).symm
  | false =>
      rw [hany, if_neg Bool.false_ne_true] at hafter
      obtain ⟨ch₁, hch₁, husers, -⟩ := hafter
      rw [channel?_recorded _ hch₁, hv, ← husers]
      constructor
      · intro hcur _ w hw
        obtain rfl := Option.some.inj hw
        exact hcur _ rfl
      · intro hlasts ch' hch'
        rw [← Option.some.inj hch']
        exact hlasts rfl v rfl

theorem writesCurrent_nil : WritesCurrent s c [] := fun _ h => absurd h List.not_mem_nil

theorem writesCurrent_singleton {st' : ServerMap} (hj : 0 < j) :
    WritesCurrent s c [(j, st')] ↔ ∀ ch, st'.channel? s c = some ch → ch.RelayCurrent :=
  ⟨fun h => h _ List.mem_cons_self hj, fun h w hw _ => by
    rw [List.mem_singleton.mp hw]
    exact h⟩

/-- What the first turn writes does not count. -/
theorem writesCurrent_append {ws ws' : List (Nat × ServerMap)} (hws : ∀ w ∈ ws, w.1 = 0) :
    WritesCurrent s c (ws ++ ws') ↔ WritesCurrent s c ws' := by
  constructor
  · exact fun h w hw => h w (List.mem_append_right _ hw)
  · intro h w hw hpos
    rcases List.mem_append.mp hw with hw | hw
    · rw [hws w hw] at hpos
      exact absurd hpos (Nat.lt_irrefl 0)
    · exact h w hw hpos

/-- What `mark_relay_in_channel` writes. -/
def markWrites (s c : Token) (v : User) (j : Nat) (st : ServerMap) : List (Nat × ServerMap) :=
  match st.channel? s c with
  | some channel =>
      if channel.relay = some v.name then []
      else [(j, st.modifyChannel s c fun ch => { ch with relay := some v.name })]
  | none => []

theorem amid_markRelayInChannel (v : User) :
    ∃ changed st', amid gaps.others 0 j (markRelayInChannel s c v) st =
      ⟨markWrites s c v j st, 0, j + 1, changed, st'⟩ := by
  unfold markRelayInChannel markWrites
  cases hch : st.channel? s c with
  | none => exact ⟨false, gaps.others j st, by simp [hch]⟩
  | some channel =>
      by_cases hr : channel.relay = some v.name
      · exact ⟨false, gaps.others j st, by simp [hch, hr]⟩
      · refine ⟨true, gaps.others j (st.modifyChannel s c fun ch =>
          { ch with relay := some v.name }), ?_⟩
        simp [hch, hr]

/-- Marking whoever was elected: where there is nothing to write, the one on record
has that name and is a member. -/
theorem mark_current {v : User} (h : st.channel? s c = some ch) (hp : ch.RelayPresent)
    (hv : pickEligibleRelay ch = some v) (hj : 0 < j) :
    WritesCurrent s c (markWrites s c v j (after ServerMap.heartbeatSection st hs)) ↔
      ElectedOutlasts hs s c ch.users := by
  refine Iff.trans ?_ (recordElected_current h hv)
  have hafter := channel?_after_sections hs h
  unfold markWrites
  split
  · rename_i ch₁ hch₁
    split_ifs with hr
    · refine iff_of_true writesCurrent_nil fun ch' hch' => ?_
      rw [channel?_recorded _ hch₁] at hch'
      rw [← Option.some.inj hch']
      have hpresent : ch₁.RelayPresent := by
        split_ifs at hafter
        · rw [hafter] at hch₁
          exact absurd hch₁ (Option.some_ne_none _).symm
        · obtain ⟨ch₂, hch₂, -, hpresent⟩ := hafter
          rw [← Option.some.inj (hch₂.symm.trans hch₁)]
          exact hpresent hp
      exact hpresent v.name hr
    · exact writesCurrent_singleton hj
  · rename_i hnone
    refine iff_of_true writesCurrent_nil fun ch' hch' => ?_
    rw [channel?_recorded_of_none _ hnone] at hch'
    exact absurd hch' (Option.some_ne_none _).symm

/-! ## `CONNECT` -/

theorem writes_handleMultipleUsersScenario (h : st.channel? s c = some ch) (hp : ch.RelayPresent) :
    WritesCurrent s c (amid gaps.others 0 1 (handleMultipleUsersScenario s c ch)
      (after ServerMap.heartbeatSection st hs)).writes ↔ ElectedOutlasts hs s c ch.users := by
  unfold handleMultipleUsersScenario
  cases hv : pickEligibleRelay ch with
  | some v =>
      obtain ⟨changed, st', hmark⟩ : ∃ changed st',
          amid gaps.others 0 1 (markRelayInChannel s c v)
            (after ServerMap.heartbeatSection st hs) =
          ⟨markWrites s c v 1 (after ServerMap.heartbeatSection st hs), 0, 2, changed, st'⟩ :=
        amid_markRelayInChannel v
      have hmode : ∀ st'', amid gaps.others 0 2 (whenever changed (sendRelayModeToRelay v)) st'' =
          ⟨[], 0, 2, (), st''⟩ := fun _ => amid_whenever rfl
      have hsym : ∀ st'', amid gaps.others 0 2 (each (symmetricPeers v ch.users) fun symmetric => do
          sendTo (asBytes (modeServerRelay symmetric.name)) symmetric.addr
          whenever (v.addr ≠ symmetric.addr)
            (sendTo (asBytes (modeServerRelay symmetric.name)) v.addr)) st'' =
          ⟨[], 0, 2, (), st''⟩ := fun _ => amid_each fun symmetric => by
        rw [amid_bind, amid_sendTo]
        dsimp only
        rw [amid_whenever (amid_sendTo _ _ _)]
        rfl
      simp only [amid_bind, hmark, notifyRelayAboutPeers, notifyPeersAboutRelay, amid_notifyEach,
        hmode, hsym, List.append_nil]
      exact mark_current h hp hv Nat.one_pos
  | none =>
      simp only [amid_bind, amid_announceServerRelay, amid_recordRelay, List.nil_append]
      rw [writesCurrent_singleton Nat.one_pos]
      refine iff_of_true (fun ch' => recordNone_current h hv) fun _ v hfound => ?_
      rw [show ch.users.find? User.eligible = none from hv] at hfound
      exact absurd hfound (Option.some_ne_none _).symm

theorem amid_notifyExistingUsersAboutNewUser (users : List User) (n : Token) (src : SocketAddr) :
    amid gaps.others 0 j (notifyExistingUsersAboutNewUser users n src) st = ⟨[], 0, j, (), st⟩ :=
  amid_each fun user => amid_whenever (by simp only [amid_bind, amid_sendTo, List.append_nil])

/-- The relay on record, once the new session is in: its name may have been that of
a user now gone, and is then that of the new one. -/
theorem relayPresent_joined {amb : Ambient} {n : Token} {nat : NatKind} {src : SocketAddr}
    (hp : ch.RelayPresent) (hnew : ∀ x ∈ ch.users, x.isSession n src = false) :
    (ch.joined amb n nat src).RelayPresent := by
  intro m hm
  rw [joined_relay] at hm
  rw [joined_users amb nat hnew]
  obtain ⟨u, hu, rfl⟩ := hp m hm
  by_cases hname : u.name = n
  · exact ⟨_, List.mem_append_right _ List.mem_cons_self, hname.symm⟩
  · exact ⟨u, List.mem_append_left _ (mem_others.mpr ⟨hu, hname⟩), rfl⟩

theorem writes_afterConnectSection (n : Token) (src : SocketAddr) (isNew : Bool)
    (peerId : UInt32) :
    (amid gaps.others 0 1 (afterConnectSection s c n src ch isNew peerId) st).writes =
      if isNew = true ∧ 1 < ch.users.length then
        (amid gaps.others 0 1 (handleMultipleUsersScenario s c ch) st).writes
      else [] := by
  unfold afterConnectSection whenever handleConnectNotifications
  rw [amid_bind, show amid gaps.others 0 1 (sendWelcome src ch.channelId peerId) st =
    ⟨[], 0, 1, (), st⟩ from rfl]
  cases isNew with
  | false => rfl
  | true =>
      dsimp only
      rw [if_pos rfl]
      by_cases hlen : 1 < ch.users.length
      · rw [if_pos hlen, if_pos ⟨rfl, hlen⟩]
        rfl
      · rw [if_neg hlen, if_neg fun h => hlen h.2]
        have hsingle : amid gaps.others 0 1 (notifyExistingUsersAboutNewUser ch.users n src) st =
            ⟨[], 0, 1, (), st⟩ := amid_notifyExistingUsersAboutNewUser ch.users n src
        exact congrArg Passage.writes hsingle

/-- A `CONNECT` elects somebody who lasts until it is recorded. -/
def ConnectElectionLasts (gaps : Gaps) (amb : Ambient) (s c n : Token) (nat : NatKind)
    (src : SocketAddr) (st : ServerMap) : Prop :=
  let ch := (st.channel? s c).getD .default
  (∀ x ∈ ch.users, x.isSession n src = false) → ch.others n ≠ [] →
    ElectedOutlasts (gaps 0) s c (ch.others n ++ [ch.newUser amb n nat src])

theorem connect_electsCurrent_iff (amb : Ambient) (n : Token) (natArg : Option Token)
    (src : SocketAddr) (hst : Everywhere Channel.RelayPresent st) :
    ElectsCurrent gaps s c (handleConnectMessage amb s c n natArg src) st ↔
      ConnectElectionLasts gaps amb s c n (.ofArg natArg) src st := by
  set old := (st.channel? s c).getD .default with hold
  have hp : old.RelayPresent := by
    rw [hold]
    cases hch : st.channel? s c with
    | none => exact fun m hm => absurd hm (Option.some_ne_none m).symm
    | some ch => exact hst s c ch hch
  obtain ⟨ws, hws, hsection⟩ : ∃ ws, (∀ w ∈ ws, w.1 = 0) ∧
      amid gaps.others 0 0 (locked (connectSection amb s c n (.ofArg natArg) src)) st =
        ⟨ws, 0, 1, ((connectSection amb s c n (.ofArg natArg) src).run st).val,
          gaps.others 0 ((connectSection amb s c n (.ofArg natArg) src).run st).state⟩ :=
    amid_locked_of_events (events_connectSection amb s c n (.ofArg natArg) src st)
  obtain ⟨hknown, hnew⟩ := run_connectSection amb s c n (.ofArg natArg) src st
  rw [ElectsCurrent, handleConnectMessage_eq, amid_bind, hsection]
  dsimp only
  rw [writesCurrent_append hws, writes_afterConnectSection]
  unfold ConnectElectionLasts
  rw [← hold]
  rcases session_or_new n src old with ⟨x, hx, hsession⟩ | habsent
  · obtain ⟨updated, peerId, hrun, -⟩ := hknown ⟨x, hx, hsession⟩
    rw [hrun]
    refine iff_of_true writesCurrent_nil fun habsent => ?_
    rw [habsent x hx] at hsession
    exact absurd hsession Bool.false_ne_true
  · rw [hnew habsent]
    by_cases ho : old.others n = []
    · have hlone : (old.joined amb n (.ofArg natArg) src).settleLone.1.users.length = 1 := by
        rw [settleLone_users, joined_users amb _ habsent, ho]
        rfl
      rw [if_neg fun h => absurd h.2 (by rw [hlone]; exact Nat.lt_irrefl 1)]
      exact iff_of_true writesCurrent_nil fun _ hothers => absurd ho hothers
    · rw [settleLone_joined amb _ habsent ho]
      dsimp only
      rw [if_pos ⟨rfl, length_joined amb _ habsent ho⟩, ← joined_users amb _ habsent]
      have hat := (channel?_opened st s c n src s c).trans (if_pos ⟨rfl, rfl⟩)
      have hch := (updates_modifyChannel (f := fun _ => old.joined amb n (.ofArg natArg) src)
        hat).channel?
      exact (writes_handleMultipleUsersScenario hch (relayPresent_joined hp habsent)).trans
        ⟨fun h _ _ => h, fun h => h habsent ho⟩

/-! ## `DISCONNECT` -/

theorem writes_handleRelayTransition :
    WritesCurrent s c (amid gaps.others 0 1 (handleRelayTransition true s c) st).writes ↔
      ∀ ch, st.channel? s c = some ch → ElectedOutlasts (gaps 1) s c ch.users := by
  have hread : amid gaps.others 0 1 (locked do
      let st ← getState
      return st.channel? s c : Server (Option Channel)) st =
        ⟨[], 0, 2, st.channel? s c, gaps.others 1 st⟩ := by
    simp
  unfold handleRelayTransition whenever
  rw [if_pos rfl, amid_bind, hread]
  dsimp only
  cases hch : st.channel? s c with
  | none => exact iff_of_true writesCurrent_nil fun ch h => absurd h (Option.some_ne_none ch).symm
  | some ch =>
      refine Iff.trans ?_ ⟨fun h _ heq => Option.some.inj heq ▸ h, fun h => h ch rfl⟩
      dsimp only
      cases hv : pickEligibleRelay ch with
      | some v =>
          simp only [amid_bind, promoteNewRelay, amid_sendTo, notifyPeersAboutNewRelay,
            notifyNewRelayAboutPeers, amid_notifyEach, amid_recordRelay, List.nil_append]
          rw [writesCurrent_singleton Nat.two_pos]
          exact recordElected_current hch hv
      | none =>
          simp only [amid_bind, amid_announceServerRelay, amid_recordRelay, List.nil_append]
          rw [writesCurrent_singleton Nat.two_pos]
          refine iff_of_true (fun ch' => recordNone_current hch hv) fun _ v hfound => ?_
          rw [show ch.users.find? User.eligible = none from hv] at hfound
          exact absurd hfound (Option.some_ne_none _).symm

/-- The section that a `DISCONNECT` begins with, nested lock and all. -/
theorem amid_handleUserRemoval (gaps : Gaps) (s c n : Token) (src : SocketAddr)
    (st : ServerMap) :
    ∃ ws remaining st', (∀ w ∈ ws, w.1 = 0) ∧
      match (st.channel? s c).bind fun ch => findAndRemoveUser ch n src with
      | some (left, wasRelay, addr) =>
          st'.channel? s c = some (updateRelayAfterDeparture left wasRelay).1 ∧
          amid gaps.others 0 0 (handleUserRemoval s c n src) st =
            ⟨ws, 0, 1, (remaining, wasRelay, some addr,
              (updateRelayAfterDeparture left wasRelay).2), gaps.others 0 st'⟩
      | none => amid gaps.others 0 0 (handleUserRemoval s c n src) st =
          ⟨ws, 0, 1, (remaining, false, none, none), gaps.others 0 st'⟩ := by
  unfold handleUserRemoval getRemainingUsers
  cases hfound : (st.channel? s c).bind fun ch => findAndRemoveUser ch n src with
  | none =>
      refine ⟨[], ((st.channel? s c).map Channel.users).getD [], st,
        fun _ h => absurd h List.not_mem_nil, ?_⟩
      simp [hfound]
  | some found =>
      obtain ⟨left, wasRelay, addr⟩ := found
      obtain ⟨ch, hch, -⟩ := Option.bind_eq_some_iff.mp hfound
      have hleft := (updates_modifyChannel
        (f := fun _ => (updateRelayAfterDeparture left wasRelay).1) hch).channel?
      obtain ⟨st', hst'⟩ : ∃ st', (st.modifyChannel s c fun _ =>
        (updateRelayAfterDeparture left wasRelay).1) = st' := ⟨_, rfl⟩
      rw [hst'] at hleft
      refine ⟨[(0, st')], (updateRelayAfterDeparture left wasRelay).1.users, st', ?_, hleft, ?_⟩
      · intro w hw
        rw [List.mem_singleton.mp hw]
      · simp [hfound, hst', hleft]

theorem findAndRemoveUser_eq_some {n : Token} {src addr : SocketAddr} {left : Channel}
    {wasRelay : Bool} (h : findAndRemoveUser ch n src = some (left, wasRelay, addr)) :
    (∃ x ∈ ch.users, x.isSession n src = true) ∧
      left.users = ch.users.eraseP (User.isSession n src) ∧
      wasRelay = decide (ch.relay = some n) := by
  unfold findAndRemoveUser at h
  split at h
  · rename_i x hx
    obtain ⟨rfl, rfl, -⟩ := by simpa using h
    exact ⟨⟨x, List.mem_of_find?_eq_some hx, List.find?_some hx⟩, rfl, rfl⟩
  · exact absurd h (Option.some_ne_none _).symm

theorem findAndRemoveUser_eq_none {n : Token} {src : SocketAddr}
    (h : findAndRemoveUser ch n src = none) : ∀ x ∈ ch.users, x.isSession n src = false := by
  unfold findAndRemoveUser at h
  split at h
  · exact absurd h (Option.some_ne_none _)
  · rename_i hx
    exact fun x hmem => Bool.eq_false_iff.mpr (List.find?_eq_none.mp hx x hmem)

/-- A user is alone on record if it is the only one left. -/
theorem loneUserAddr_eq_none (left : Channel) :
    (updateRelayAfterDeparture left true).2 = none ↔ left.users.length ≠ 1 := by
  unfold updateRelayAfterDeparture
  rw [if_pos rfl]
  rcases left.users with _ | ⟨u, _ | ⟨v, users⟩⟩
  · exact iff_of_true rfl (by decide)
  · exact iff_of_false (Option.some_ne_none _) fun h => h rfl
  · refine iff_of_true rfl fun h => ?_
    rw [List.length_cons, List.length_cons] at h
    omega

theorem writes_handleDisconnectNotifications (remaining : List User) (wasRelay : Bool)
    (leaving lone : Option SocketAddr) (n : Token) :
    (amid gaps.others 0 1 (handleDisconnectNotifications remaining wasRelay leaving lone n s c)
        st).writes =
      if lone = none ∧ wasRelay = true then
        (amid gaps.others 0 1 (handleRelayTransition true s c) st).writes
      else [] := by
  unfold handleDisconnectNotifications notifyAllAboutDeparture
  cases lone with
  | some addr =>
      rw [if_neg fun h => absurd h.1 (Option.some_ne_none _)]
      simp only [notifyLoneUser, amid_bind, amid_sendTo, amid_notifyEach, List.append_nil]
  | none =>
      simp only [amid_bind, amid_notifyEach, List.append_nil]
      cases wasRelay with
      | true => rfl
      | false => rfl

/-- After a `DISCONNECT` of the relay, whoever is elected of those left lasts until
it is recorded. -/
def DisconnectElectionLasts (gaps : Gaps) (s c n : Token) (src : SocketAddr) (st : ServerMap) :
    Prop :=
  ∀ ch, st.channel? s c = some ch → (∃ x ∈ ch.users, x.isSession n src = true) →
    ch.relay = some n → (ch.users.eraseP (User.isSession n src)).length ≠ 1 →
    (gaps 0).any (HeartbeatSection.removes s c) = false →
    ElectedOutlasts (gaps 1) s c (outlasting (gaps 0) (ch.users.eraseP (User.isSession n src)))

theorem disconnect_electsCurrent_iff (n : Token) (src : SocketAddr) :
    ElectsCurrent gaps s c (handleDisconnectMessage s c n src) st ↔
      DisconnectElectionLasts gaps s c n src st := by
  obtain ⟨ws, remaining, st', hws, hremoval⟩ := amid_handleUserRemoval gaps s c n src st
  rw [ElectsCurrent, handleDisconnectMessage, amid_bind]
  unfold DisconnectElectionLasts
  cases hfound : (st.channel? s c).bind fun ch => findAndRemoveUser ch n src with
  | none =>
      rw [hfound] at hremoval
      rw [hremoval]
      dsimp only
      rw [writesCurrent_append hws, writes_handleDisconnectNotifications,
        if_neg fun h => absurd h.2 Bool.false_ne_true]
      refine iff_of_true writesCurrent_nil fun ch hch hsession => ?_
      rw [hch, Option.bind_some] at hfound
      obtain ⟨x, hx, hsession⟩ := hsession
      rw [findAndRemoveUser_eq_none hfound x hx] at hsession
      exact absurd hsession Bool.false_ne_true
  | some found =>
      obtain ⟨left, wasRelay, addr⟩ := found
      obtain ⟨ch, hch, hleft⟩ := Option.bind_eq_some_iff.mp hfound
      obtain ⟨hsession, husers, hwas⟩ := findAndRemoveUser_eq_some hleft
      rw [hfound] at hremoval
      obtain ⟨hst', hremoval⟩ := hremoval
      rw [hremoval]
      dsimp only
      rw [writesCurrent_append hws, writes_handleDisconnectNotifications]
      by_cases hlone : (updateRelayAfterDeparture left wasRelay).2 = none ∧ wasRelay = true
      · obtain ⟨hnone, rfl⟩ := hlone
        have hlen := (loneUserAddr_eq_none left).mp hnone
        have hafter := channel?_after_sections (gaps 0) hst'
        rw [updateRelayAfterDeparture_users, husers] at hafter
        rw [if_pos ⟨hnone, rfl⟩, writes_handleRelayTransition]
        constructor
        · intro hcurrent ch' hch' _ _ _ hany
          obtain rfl := Option.some.inj (hch.symm.trans hch')
          rw [hany, if_neg Bool.false_ne_true] at hafter
          obtain ⟨ch₁, hch₁, husers₁, -⟩ := hafter
          rw [← husers₁]
          exact hcurrent ch₁ hch₁
        · intro hlasts ch₁ hch₁
          cases hany : (gaps 0).any (HeartbeatSection.removes s c) with
          | true =>
              rw [hany, if_pos rfl] at hafter
              exact absurd (hafter.symm.trans hch₁) (Option.some_ne_none ch₁).symm
          | false =>
              rw [hany, if_neg Bool.false_ne_true] at hafter
              obtain ⟨ch₂, hch₂, husers₂, -⟩ := hafter
              obtain rfl := Option.some.inj (hch₂.symm.trans hch₁)
              rw [husers₂]
              exact hlasts ch hch hsession (of_decide_eq_true hwas.symm) (husers ▸ hlen) hany
      · rw [if_neg hlone]
        refine iff_of_true writesCurrent_nil fun ch' hch' _ hr hlen => ?_
        obtain rfl := Option.some.inj (hch.symm.trans hch')
        rw [decide_eq_true hr] at hwas
        subst hwas
        exact absurd ⟨(loneUserAddr_eq_none left).mpr (husers ▸ hlen), rfl⟩ hlone

end Writes

/-- **Elections and the heartbeat.**  From every map whose relays are members, and
whatever sections of the heartbeat run between those of the handler: what a
`CONNECT` or a `DISCONNECT` records after its first section is a member, or
nobody where there is nobody to elect, exactly if whoever it elects is still a
member when the section comes that records it. -/
theorem elections_current_iff (gaps : Gaps) (s c n : Token) (src : SocketAddr) (st : ServerMap)
    (hst : Everywhere Channel.RelayPresent st) :
    (∀ amb natArg, ElectsCurrent gaps s c (handleConnectMessage amb s c n natArg src) st ↔
      ConnectElectionLasts gaps amb s c n (.ofArg natArg) src st) ∧
    (ElectsCurrent gaps s c (handleDisconnectMessage s c n src) st ↔
      DisconnectElectionLasts gaps s c n src st) :=
  ⟨fun amb natArg => connect_electsCurrent_iff amb n natArg src hst,
    disconnect_electsCurrent_iff n src⟩

/-- The first step makes no relay that is not a member. -/
theorem relayPresent_first (l : ServerStep) :
    Everywhere Channel.RelayPresent (ServerMap.step ∅ l) := by
  refine everywhere_step.mpr fun s c ch hch => ?_
  cases change_of_effect hch with
  | connect hl hreq =>
      exact relayPresent_connect (fun m hm => absurd hm (Option.some_ne_none m).symm) _ _

theorem isWord_ann : isWord "ann".toList = true := by decide

/-- A user not heard of since it joined, at the start of time. -/
def ann : User := ⟨1, ⟨"ann".toList, isWord_ann⟩, .v4 ⟨10, 0, 0, 1⟩ 4000, 0, false, .cone⟩

/-- And alone since. -/
def annAlone : ServerMap :=
  ServerMap.step ∅ (.message ⟨0, 7⟩ "CONNECT s c ann CONE".toList ann.addr)

theorem relayPresent_annAlone : Everywhere Channel.RelayPresent annAlone := relayPresent_first _

theorem channel?_annAlone :
    annAlone.channel? ⟨"s".toList, by decide⟩ ⟨"c".toList, by decide⟩ =
      some ⟨7, 2, [ann], some ann.name⟩ := by
  decide +kernel

/-- Bob joins, Ann is elected, the heartbeat drops her, and she is recorded. -/
theorem elections_lose_ann :
    ¬ ∀ (gaps : Gaps) (s c n : Token) (src : SocketAddr) (st : ServerMap),
      Everywhere Channel.RelayPresent st →
      (∀ amb natArg, ElectsCurrent gaps s c (handleConnectMessage amb s c n natArg src) st) ∧
      ElectsCurrent gaps s c (handleDisconnectMessage s c n src) st := by
  intro h
  have hconnect := (h (fun _ => [.collect (50 * 10 ^ 9)]) ⟨"s".toList, by decide⟩
    ⟨"c".toList, by decide⟩ ⟨"bob".toList, by decide⟩ (.v4 ⟨10, 0, 0, 2⟩ 4000) annAlone
    relayPresent_annAlone).1 ⟨50 * 10 ^ 9, 8⟩ none
  rw [connect_electsCurrent_iff _ _ _ _ relayPresent_annAlone, ConnectElectionLasts,
    channel?_annAlone] at hconnect
  obtain ⟨u, hu, hname⟩ := hconnect (by decide) (by decide) (by decide) ann (by decide)
  revert u
  decide +kernel

/-- Ten seconds earlier the heartbeat would have let her stay. -/
theorem elections_keep_ann :
    ElectsCurrent (fun _ => [.collect (40 * 10 ^ 9)]) ⟨"s".toList, by decide⟩
      ⟨"c".toList, by decide⟩ (handleConnectMessage ⟨40 * 10 ^ 9, 8⟩ ⟨"s".toList, by decide⟩
        ⟨"c".toList, by decide⟩ ⟨"bob".toList, by decide⟩ none (.v4 ⟨10, 0, 0, 2⟩ 4000))
      annAlone := by
  refine ((elections_current_iff _ _ _ _ _ annAlone relayPresent_annAlone).1 _ _).mpr ?_
  rw [ConnectElectionLasts, channel?_annAlone]
  intro _ _ _ v hv
  obtain rfl : ann = v := Option.some.inj hv
  exact ⟨ann, by decide +kernel, rfl⟩

end NatPiercer.Signaling
