/-
# `Signaling.Tasks` — the two tasks of the server

`main` in `src/bin/signaling_server.rs` starts the heartbeats with
`tokio::spawn` and goes on with `run_server`; both have the map behind one
`tokio::sync::Mutex`.  Here the two are executed instruction by instruction, in
any order: a round of `run_server` is a datagram on one of the sockets, with
the buffers of the loop as the last one left them, and a round of the other
task is a tick of its interval.

The maps keep one layout here.  It decides in what order datagrams leave and
to which of several channels a `DATA` is passed on, and nothing that is stored:
what a section makes of a channel depends on that channel alone, and a `DATA`
changes none (`channel?_step`).

What is said of the states between two critical sections is said of the map
whenever nobody has the mutex (`served_reachable`).  And the two go on forever
until a `DISCONNECT` is handled, which is the end of both (`served_rests_iff`).
-/
import NatPiercer.Lib.Mutex
import NatPiercer.Signaling.Locking
import NatPiercer.Signaling.Pickers
import NatPiercer.Signaling.Server

namespace NatPiercer.Signaling

open Text Utf8 Net Proto LockProg

/-! ## The tasks -/

inductive ServerTask
  | runServer
  | heartbeat
deriving DecidableEq

namespace ServerTask

instance : Finite ServerTask :=
  .of_injective (fun i => decide (i = runServer)) fun i j h => by
    cases i <;> cases j <;> first | rfl | exact absurd h (by decide)

/-- What a task keeps from one round to the next. -/
def Keeps : ServerTask → Type
  | runServer => Buffers
  | heartbeat => Unit

/-- What a round begins with. -/
def Cue : ServerTask → Type
  | runServer => Ambient × Arrival
  | heartbeat => Instant

def fresh : (i : ServerTask) → i.Keeps
  | runServer => .zero
  | heartbeat => ()

def round : (i : ServerTask) → i.Keeps → i.Cue → Prog Unit ServerMap Datagram i.Keeps
  | runServer, b, (amb, arrival) =>
      match (serve b arrival).2 with
      | some text => (handleMessage amb text arrival.src).asRound (serve b arrival).1
      | none => .done (serve b arrival).1
  | heartbeat, _, now => (heartbeatPass now).asRound ()

end ServerTask

abbrev Serving := Threads ServerTask Unit ServerMap Datagram ServerTask.Keeps

/-- Where a run of instructions ends. -/
def served (as : List (Act ServerTask ServerTask.Cue)) : Serving :=
  after (Threads.act ServerTask.round) (.start ∅ ServerTask.fresh) as

/-! ## Who gives the mutex back -/

section GivesBack

theorem givesBack_sendTo (payload : Bytes) (dst : SocketAddr) : GivesBack (sendTo payload dst) :=
  givesBack_output _

theorem givesBack_notifyEach (peers : List User) (msg : User → Str) (dst : User → SocketAddr) :
    GivesBack (notifyEach peers msg dst) :=
  givesBack_each fun _ => givesBack_sendTo _ _

theorem givesBack_announceServerRelay (users : List User) :
    GivesBack (announceServerRelay users) :=
  givesBack_each fun _ => givesBack_notifyEach _ _ _

theorem givesBack_recordRelay (s c : Token) (relay : Option Token) :
    GivesBack (recordRelay s c relay) :=
  givesBack_locked fun _ => rfl

theorem givesBack_markRelayInChannel (s c : Token) (u : User) :
    GivesBack (markRelayInChannel s c u) := by
  refine givesBack_locked fun st => ?_
  rw [events_bind, run_getState]
  dsimp only
  split
  · split_ifs <;> rfl
  · rfl

theorem givesBack_handleMultipleUsersScenario (s c : Token) (channel : Channel) :
    GivesBack (handleMultipleUsersScenario s c channel) := by
  unfold handleMultipleUsersScenario
  split
  · refine (givesBack_markRelayInChannel _ _ _).bind fun changed => ?_
    refine (givesBack_notifyEach _ _ _).bind fun _ => (givesBack_notifyEach _ _ _).bind fun _ => ?_
    refine (givesBack_whenever (givesBack_sendTo _ _)).bind fun _ => givesBack_each fun _ => ?_
    exact (givesBack_sendTo _ _).bind fun _ => givesBack_whenever (givesBack_sendTo _ _)
  · exact (givesBack_announceServerRelay _).bind fun _ => givesBack_recordRelay _ _ _

theorem givesBack_handleConnectMessage (amb : Ambient) (s c n : Token) (nat : Option Token)
    (src : SocketAddr) : GivesBack (handleConnectMessage amb s c n nat src) := by
  rw [handleConnectMessage_eq]
  refine (givesBack_locked (events_connectSection _ _ _ _ _ _)).bind fun r => ?_
  refine (givesBack_sendTo _ _).bind fun _ => givesBack_whenever ?_
  unfold handleConnectNotifications
  split_ifs
  · exact givesBack_handleMultipleUsersScenario _ _ _
  · exact givesBack_each fun _ => givesBack_whenever
      ((givesBack_sendTo _ _).bind fun _ => givesBack_sendTo _ _)

theorem givesBack_handlePeerTimeout (s c n : Token) : GivesBack (handlePeerTimeout s c n) := by
  refine GivesBack.bind (givesBack_locked fun _ => rfl) fun remaining => ?_
  cases remaining with
  | some channel => exact givesBack_notifyEach _ _ _
  | none => exact givesBack_pure ()

theorem givesBack_handleRelayRequest (s c n : Token) :
    GivesBack (handleRelayRequest s c n) := by
  refine givesBack_locked fun st => ?_
  rw [events_bind, run_getState]
  cases st.channel? s c with
  | none => rfl
  | some ch => exact events_notifyEach _ _ _ _

theorem givesBack_handleDataFromClient (raw : Str) (src : SocketAddr) :
    GivesBack (handleDataFromClient raw src) := by
  unfold handleDataFromClient
  split
  · refine givesBack_locked fun st => ?_
    rw [events_bind, run_getState]
    dsimp only
    split
    · exact events_each fun _ _ => rfl
    · rfl
  · exact givesBack_pure ()

theorem givesBack_heartbeatPass (now : Instant) : GivesBack (heartbeatPass now) := by
  refine GivesBack.bind (givesBack_locked fun _ => rfl) fun data => ?_
  refine (givesBack_each fun _ => givesBack_sendTo _ _).bind fun _ => ?_
  refine (givesBack_each fun _ => givesBack_each fun _ => givesBack_sendTo _ _).bind fun _ => ?_
  exact givesBack_whenever (givesBack_locked fun _ => rfl)

theorem givesBack_handleMessage (amb : Ambient) (text : Str) (src : SocketAddr)
    (h : (Request.ofText text).isDisconnect = false) : GivesBack (handleMessage amb text src) := by
  rw [handleMessage_eq]
  cases hreq : Request.ofText text with
  | natProbe => exact givesBack_sendTo _ _
  | pong => exact givesBack_locked fun _ => rfl
  | hb s c n => exact givesBack_locked fun _ => rfl
  | connect s c n natArg => exact givesBack_handleConnectMessage _ _ _ _ _ _
  | disconnect s c n =>
      rw [hreq] at h
      exact absurd h.symm Bool.false_ne_true
  | peerTimeout s c n => exact givesBack_handlePeerTimeout _ _ _
  | requestRelay s c n => exact givesBack_handleRelayRequest _ _ _
  | data => exact givesBack_handleDataFromClient _ _
  | unknown => exact givesBack_pure ()

/-- `get_remaining_users` waits for the guard of its caller. -/
theorem guarded_handleUserRemoval (s c n : Token) (src : SocketAddr) :
    Guarded False True none (handleUserRemoval s c n src) := by
  refine guarded_locked_again fun st => ?_
  rw [events_bind, run_getState]
  dsimp only
  split <;> exact ⟨_, rfl⟩

/-- A `DISCONNECT` never comes to its end. -/
theorem guarded_handleMessage (amb : Ambient) (text : Str) (src : SocketAddr)
    (h : (Request.ofText text).isDisconnect = true) :
    Guarded False True none (handleMessage amb text src) := by
  rw [handleMessage_eq]
  cases hreq : Request.ofText text with
  | disconnect s c n => exact (guarded_handleUserRemoval s c n src).bind False.elim
  | natProbe | pong | hb | connect | peerTimeout | requestRelay | data | unknown =>
      rw [hreq] at h
      exact absurd h Bool.false_ne_true

end GivesBack

/-! ## The map -/

section Rounds
variable {ends again : Prop}

theorem round_heartbeat (hends : ends) (now : Instant) :
    ∃ (q : Server Unit) (b : Unit),
      ServerTask.round .heartbeat () now = q.asRound b ∧ Guarded ends again none q :=
  ⟨heartbeatPass now, (), rfl, (givesBack_heartbeatPass now).guarded hends⟩

variable {b : Buffers} {l : Ambient × Arrival}

theorem round_of_text {text : Str} (htext : (serve b l.2).2 = some text) :
    ServerTask.round .runServer b l =
      (handleMessage l.1 text l.2.src).asRound (serve b l.2).1 := by
  simp only [ServerTask.round, htext]
  rfl

theorem round_of_none (htext : (serve b l.2).2 = none) :
    ServerTask.round .runServer b l = .done (serve b l.2).1 := by
  simp only [ServerTask.round, htext]

end Rounds

/-- **The map, between any instructions.**  Whatever arrives on the two sockets and
whenever the interval ticks, and however the instructions of the two tasks
follow each other: when nobody has the mutex, the map is one that the server
can come to have by whole critical sections. -/
theorem served_reachable (as : List (Act ServerTask ServerTask.Cue))
    (hfree : (served as).owner () = none) : (served as).value.Reachable := by
  refine Threads.exists_moves (fun i b l => ?_) ∅ _ as hfree
  cases i with
  | heartbeat =>
      exact Or.inr ⟨.heartbeat l, (), rfl, (givesBack_heartbeatPass l).guarded trivial⟩
  | runServer =>
      cases htext : (serve b l.2).2 with
      | none => exact Or.inl ⟨_, round_of_none htext⟩
      | some text =>
          refine Or.inr ⟨.message l.1 text l.2.src, _, round_of_text htext, ?_⟩
          cases hdisconnect : (Request.ofText text).isDisconnect with
          | false => exact (givesBack_handleMessage _ _ _ hdisconnect).guarded trivial
          | true => exact (guarded_handleMessage _ _ _ hdisconnect).mono False.elim id

/-- Ann connects while the interval ticks; the two tasks take turns at every
instruction, so that the pass waits for the mutex first, and pings her then. -/
def welcoming : List (Act ServerTask ServerTask.Cue) :=
  .begin .runServer
      (⟨0, 7⟩, ⟨.main, asBytes "CONNECT s c ann CONE".toList, .v4 ⟨10, 0, 0, 1⟩ 4000⟩) ::
    .begin .heartbeat (20 * 10 ^ 9 : Nat) ::
    (List.replicate 9 [.step .runServer, .step .heartbeat]).flatten

theorem served_reachable_welcoming : (served welcoming).value.Reachable :=
  served_reachable welcoming (by decide +kernel)

/-! ## The end -/

/-- What `run_server` begins with, if it begins, is no `DISCONNECT`. -/
def NoDisconnect (t : Serving) : Act ServerTask ServerTask.Cue → Prop
  | .begin .runServer l => ∀ b text, t.prog .runServer = .done b → (serve b l.2).2 = some text →
      (Request.ofText text).isDisconnect = false
  | _ => True

section Fate
variable {t : Serving}

/-- The two as long as no `DISCONNECT` has come. -/
abbrev Unharmed (t : Serving) : Prop := t.Obeys (fun _ => True) fun _ => False

/-- The two from then on: `run_server` does not come to an end, and may come to wait for
itself. -/
abbrev Doomed (t : Serving) : Prop := t.Obeys (· ≠ .runServer) (· = .runServer)

theorem Unharmed.act (h : Unharmed t) {x : Act ServerTask ServerTask.Cue} (hx : NoDisconnect t x) :
    Unharmed (t.act ServerTask.round x) := by
  refine Threads.Obeys.act h x ?_
  rintro (_ | _) l b rfl hdone
  · cases htext : (serve b l.2).2 with
    | none => exact ⟨.done (), _, round_of_none htext, trivial⟩
    | some text =>
        exact ⟨_, _, round_of_text htext, givesBack_handleMessage _ _ _ (hx b text hdone htext)⟩
  · exact round_heartbeat trivial l

theorem Doomed.act (h : Doomed t) (x : Act ServerTask ServerTask.Cue) :
    Doomed (t.act ServerTask.round x) := by
  refine Threads.Obeys.act h x ?_
  rintro (_ | _) l b rfl hdone
  · exact absurd rfl (h.of_done hdone).2
  · exact round_heartbeat (fun h => nomatch h) l

theorem Unharmed.doomed (h : Unharmed t) {x : Act ServerTask ServerTask.Cue}
    (hx : ¬ NoDisconnect t x) : Doomed (t.act ServerTask.round x) := by
  cases x with
  | step i | wake i => exact absurd trivial hx
  | begin i l =>
      cases i with
      | heartbeat => exact absurd trivial hx
      | runServer =>
          unfold NoDisconnect at hx
          push Not at hx
          obtain ⟨b, text, hdone, htext, hdisconnect⟩ := hx
          rw [Threads.begin_of_done _ (h.awake _) hdone]
          refine Threads.Obeys.goOn h hdone ⟨_, _, round_of_text htext, ?_⟩ ?_
          · have hwaits := guarded_handleMessage l.1 text l.2.src
              (Bool.eq_true_of_not_eq_false hdisconnect)
            exact hwaits.mono False.elim fun _ => rfl
          · rintro (_ | _) hj
            · exact absurd rfl hj
            · exact ⟨eq_true hj, eq_false hj⟩

/-- A run brings no `DISCONNECT`, or the end. -/
theorem Unharmed.after (h : Unharmed t) (as : List (Act ServerTask ServerTask.Cue)) :
    (EachStep (Threads.act ServerTask.round) NoDisconnect t as →
        Unharmed (after (Threads.act ServerTask.round) t as)) ∧
      (¬ EachStep (Threads.act ServerTask.round) NoDisconnect t as →
        Doomed (after (Threads.act ServerTask.round) t as)) := by
  induction as generalizing t with
  | nil => exact ⟨fun _ => h, fun hnot => absurd trivial hnot⟩
  | cons x as ih =>
      by_cases hx : NoDisconnect t x
      · obtain ⟨halive, hdoomed⟩ := ih (h.act hx)
        exact ⟨fun heach => halive heach.2, fun hnot => hdoomed fun heach => hnot ⟨hx, heach⟩⟩
      · refine ⟨fun heach => absurd heach.1 hx, fun _ => ?_⟩
        exact after_of_always _ as (always_of_step (fun t x ht => ht.act x) as (h.doomed hx))

/-- `run_server` waits for itself, and the other task waits for it or will. -/
structure Frozen (st : ServerMap) (t : Serving) : Prop where
  value : t.value = st
  owner : t.owner () = some .runServer
  runServer : ∃ k, t.prog .runServer = .lock () k
  heartbeat : (∃ k, t.prog .heartbeat = .lock () k) ∨ ∃ b, t.prog .heartbeat = .done b

variable {st : ServerMap}

theorem Frozen.prog (h : Frozen st t) (i : ServerTask) :
    (∃ k, t.prog i = .lock () k) ∨ ∃ b, t.prog i = .done b := by
  cases i with
  | runServer => exact Or.inl h.runServer
  | heartbeat => exact h.heartbeat

theorem Frozen.act (h : Frozen st t) (x : Act ServerTask ServerTask.Cue) :
    Frozen st (t.act ServerTask.round x) := by
  cases x with
  | wake i => exact ⟨h.value, h.owner, h.runServer, h.heartbeat⟩
  | step i =>
      have hwaits : ¬ t.Runs i := by
        rintro ⟨-, hbusy, hfree⟩
        rcases h.prog i with ⟨k, hlock⟩ | ⟨b, hdone⟩
        · exact Option.some_ne_none _ (h.owner.symm.trans (hfree () k hlock))
        · exact hbusy b hdone
      rw [(Threads.step_prog ServerTask.round t i).2.2 hwaits]
      exact h
  | begin i l =>
      rcases Threads.begin_cases ServerTask.round t i l with hsame | ⟨b, -, hdone, hbegin⟩
      · rw [hsame]
        exact h
      · rw [hbegin]
        cases i with
        | runServer =>
            obtain ⟨k, hlock⟩ := h.runServer
            exact nomatch hlock.symm.trans hdone
        | heartbeat =>
            have hne : ServerTask.runServer ≠ .heartbeat := by decide
            obtain ⟨k, hlock⟩ := h.runServer
            exact ⟨h.value, h.owner, ⟨k, (Threads.goOn_prog_of_ne t hne _).trans hlock⟩,
              Or.inl ⟨_, Threads.goOn_prog _ _ _⟩⟩

theorem Frozen.not_emits (h : Frozen st t) (i : ServerTask) (d : Datagram) : ¬ t.Emits i d := by
  rintro ⟨-, hfirst⟩
  rcases h.prog i with ⟨k, hlock⟩ | ⟨b, hdone⟩
  · rw [hlock] at hfirst
    exact nomatch hfirst
  · rw [hdone] at hfirst
    exact nomatch hfirst

/-- Nobody can go on any more. -/
theorem Doomed.frozen (h : Doomed t) (hstill : ∀ i, ¬ t.Runs i) : Frozen t.value t := by
  have hserver : (∃ k, t.prog .runServer = .lock () k) ∧ t.owner () ≠ none :=
    (h.of_not_runs (hstill _)).resolve_left fun ⟨_, hdone⟩ => (h.of_done hdone).2 rfl
  obtain ⟨i, howner⟩ := Option.ne_none_iff_exists'.mp hserver.2
  obtain rfl : i = .runServer := (h.again_of_owner (hstill i) howner).1
  exact ⟨rfl, howner, hserver.1, (h.of_not_runs (hstill _)).symm.imp And.left id⟩

theorem Doomed.not_atRest (h : Doomed t) : ¬ t.AtRest := by
  intro hrest
  rcases hrest .runServer with hasleep | ⟨b, hdone⟩
  · exact hasleep (h.awake _)
  · exact (h.of_done hdone).2 rfl

/-- Nobody has anything to go on with. -/
theorem Unharmed.atRest (h : Unharmed t) (hstill : ∀ i, ¬ t.Runs i) :
    t.AtRest ∧ t.owner () = none := by
  have hfree : t.owner () = none := by
    by_contra howned
    obtain ⟨i, howner⟩ := Option.ne_none_iff_exists'.mp howned
    exact (h.again_of_owner (hstill i) howner).1
  have hdone : ∀ i, ∃ b, t.prog i = .done b := fun i =>
    (h.of_not_runs (hstill i)).resolve_right fun hwaits => hwaits.2 hfree
  exact ⟨fun i => Or.inr (hdone i), hfree⟩

end Fate

/-- **The end of both.**  Whatever the two tasks have done, and in whatever order they
have their turns from then on: if no `DISCONNECT` has been begun, each comes to
the end of what it is at, and the mutex is free again.  If one has, they come
to where nothing is ever done again: whatever arrives and however often the
interval ticks, nothing is sent, and the map stays as it is. -/
theorem served_rests_iff (as : List (Act ServerTask ServerTask.Cue)) {f : Nat → ServerTask}
    (hfair : Threads.Fair f) :
    ((∃ n, (served (as ++ Threads.scheduled f n)).AtRest ∧
        (served (as ++ Threads.scheduled f n)).owner () = none) ↔
      EachStep (Threads.act ServerTask.round) NoDisconnect (.start ∅ ServerTask.fresh) as) ∧
    (¬ EachStep (Threads.act ServerTask.round) NoDisconnect (.start ∅ ServerTask.fresh) as →
      ∃ n, ∀ cs, (served (as ++ Threads.scheduled f n ++ cs)).value =
          (served (as ++ Threads.scheduled f n)).value ∧
        ∀ i d, ¬ (served (as ++ Threads.scheduled f n ++ cs)).Emits i d) := by
  have hsplit : ∀ as bs, served (as ++ bs) = after (Threads.act ServerTask.round) (served as) bs :=
    fun _ _ => after_append _ _ _
  have hstart : Unharmed (.start ∅ ServerTask.fresh) := Threads.obeys_start ∅ _ _
  obtain ⟨halive, hdoomed⟩ := hstart.after as
  obtain ⟨n, hstill⟩ : ∃ n, ∀ i, ¬ (served (as ++ Threads.scheduled f n)).Runs i := by
    simp only [hsplit]
    exact Threads.exists_still _ hfair
  refine ⟨⟨?_, fun heach => ⟨n, ?_⟩⟩, fun hnot => ⟨n, fun cs => ?_⟩⟩
  · rintro ⟨m, hrest, -⟩
    by_contra hnot
    rw [hsplit] at hrest
    exact Doomed.not_atRest ((hdoomed hnot).after_scheduled f m) hrest
  · have h : Unharmed (served (as ++ Threads.scheduled f n)) := by
      rw [hsplit]
      exact (halive heach).after_scheduled f n
    exact h.atRest hstill
  · have h : Doomed (served (as ++ Threads.scheduled f n)) := by
      rw [hsplit]
      exact (hdoomed hnot).after_scheduled f n
    rw [hsplit _ cs]
    have hfrozen := after_of_always _ cs
      (always_of_step (fun t x ht => ht.act x) cs (h.frozen hstill))
    exact ⟨hfrozen.value, hfrozen.not_emits⟩

/-- Now the one, now the other. -/
def byTurns (n : Nat) : ServerTask := if n % 2 = 0 then .runServer else .heartbeat

theorem byTurns_fair : Threads.Fair byTurns := by
  intro i n
  cases i with
  | runServer => exact ⟨2 * n, by omega, if_pos (by omega)⟩
  | heartbeat => exact ⟨2 * n + 1, by omega, if_neg (by omega)⟩

/-- The first `DISCONNECT` that arrives. -/
theorem served_rests_iff_disconnect :
    let as : List (Act ServerTask ServerTask.Cue) := [.begin .runServer
      (⟨0, 7⟩, ⟨.main, asBytes "DISCONNECT s c ann".toList, .v4 ⟨10, 0, 0, 1⟩ 4000⟩)]
    ∃ n, ∀ cs, (served (as ++ Threads.scheduled byTurns n ++ cs)).value =
        (served (as ++ Threads.scheduled byTurns n)).value ∧
      ∀ i d, ¬ (served (as ++ Threads.scheduled byTurns n ++ cs)).Emits i d :=
  (served_rests_iff _ byTurns_fair).2 fun h =>
    absurd (h.1 .zero "DISCONNECT s c ann".toList rfl (by decide +kernel)) (by decide)

end NatPiercer.Signaling
