/-
# `Client.Threads` — the five threads of a client

`main` in `src/bin/client.rs` starts a thread for each of the loops and becomes
the main loop itself.  A round of a loop is a program of `Client.Code`.  What
begins it comes from outside: a datagram, a line of `stdin`, the end of a
sleep.  Which thread executes the next instruction is anybody's guess.

The threads other than the heartbeats are started after the setup.  Here they
may begin before it is over, and a thread that is not started, as the punching
loop behind a symmetric NAT is not, is one that never begins a round.

In the one place where a thread takes a mutex with another one in hand,
`handle_user_message`, these are `peers` and then `is_relay`.  Nobody takes
them the other way round, and so whatever the threads are at comes to its end
(`comes_to_rest`).
-/
import NatPiercer.Client.Code

namespace NatPiercer.Client

open Text Utf8 Net Proto Signaling

/-- What a thread keeps from one round to the next: the main thread, whether it is
in the setup; the keepalive loop, whether it is in `relay_main_loop`. -/
def Kept : Thread → Type
  | .main | .keepalive => Bool
  | .punching => Backoff
  | .input | .heartbeat => Unit

/-- What a round begins with. -/
def Cue : Thread → Type
  | .main => Event
  | .keepalive => Instant
  | .input => Str
  | .punching | .heartbeat => Unit

abbrev Running := Threads Thread Mutex Shared Datagram Kept

def kept : (i : Thread) → Kept i
  | .main => true
  | .keepalive => false
  | .punching => (∅ : Backoff)
  | .input | .heartbeat => ()

/-- What the threads are started with. -/
structure Started where
  user : Str
  server : SocketAddr
  serverId : Token
  channel : Token

/-- As `main` starts them. -/
def Running.fresh (w : Started) : Running := .start ⟨.fresh w.user, false⟩ kept

def round (w : Started) : (i : Thread) → Kept i → Cue i → Code (Kept i)
  | .main, inSetup, e => Code.mainLoop w.user w.server inSetup e
  | .punching, backoff, _ => Code.holePunchingLoop backoff
  | .keepalive, inMainLoop, now =>
      Code.relayKeepaliveLoop now w.server w.serverId w.channel inMainLoop
  | .input, _, typed => Code.userInput w.server w.user typed
  | .heartbeat, _, _ => Code.heartbeatLoop w.server w.serverId w.channel w.user

/-- Where a run ends. -/
def ran (w : Started) (as : List (Act Thread Cue)) : Running :=
  after (Threads.act (round w)) (.fresh w) as

/-! ## The order of the mutexes -/

/-- The one of the peers comes first; the others are taken with nothing in hand, but
the one of `is_relay`. -/
def rank : Mutex → Nat
  | .peers => 0
  | .isRelay => 1
  | .relayStarted | .punchSync | .relaySync => 2

theorem rank_lt (m : Mutex) : rank m < 3 := by
  cases m <;> decide

namespace Code

open Prog

variable {base : Set Mutex} {p : Code Unit}

theorem ordered_assign (f : Client → Client) : Ordered rank base base (assign f) := rfl

theorem ordered_onlyIf (b : Bool) (hp : Ordered rank base base p) :
    Ordered rank base base (onlyIf b p) := by
  cases b with
  | true => exact hp
  | false => exact ordered_pure ()

/-- With nothing in hand any mutex may be taken. -/
theorem ordered_alone {α : Type} {q : Code α} (m : Mutex)
    (hq : Ordered rank (insert m ∅) (insert m ∅) q) : Ordered rank ∅ ∅ (locked m q) :=
  ordered_locked (fun m' hm' => absurd hm' (Set.notMem_empty m')) hq

/-- The one of `is_relay` may be taken with the one of the peers in hand. -/
theorem ordered_readRelaysAndMirrors :
    Ordered rank (insert .peers ∅) (insert .peers ∅) readRelaysAndMirrors := by
  refine Ordered.bind (fun r => ?_) (ordered_locked (fun m hm => ?_) (ordered_gets _))
  · split_ifs
    · exact ordered_gets _
    · exact ordered_pure false
  · rw [LawfulSingleton.insert_empty_eq, Set.mem_singleton_iff] at hm
    rw [hm]
    decide

theorem ordered_readIsRelay : Ordered rank ∅ ∅ readIsRelay := ordered_alone _ (ordered_gets _)

theorem ordered_readActs : Ordered rank ∅ ∅ readActs := by
  refine ordered_readIsRelay.bind fun r => ?_
  split_ifs
  · exact ordered_pure true
  · exact ordered_gets _

/-! ### `src/client/handlers.rs` -/

theorem ordered_tryHandleWelcome (s : Str) : Ordered rank ∅ ∅ (tryHandleWelcome s) := by
  refine ordered_each fun line _ => ?_
  unfold welcomeLine
  split
  · split_ifs
    · split
      · exact (ordered_assign _).bind fun _ => ordered_assign _
      · exact ordered_pure ()
    · exact ordered_pure ()
  · exact ordered_pure ()

theorem ordered_onFirst (q : PeerInfo → Bool) (fs : List (PeerInfo → PeerInfo)) :
    Ordered rank ∅ ∅ (onFirst q fs) :=
  ordered_alone _ (ordered_each fun _ _ => ordered_assign _)

theorem ordered_noteServerRelays : Ordered rank ∅ ∅ noteServerRelays :=
  ordered_readIsRelay.bind fun r => ordered_onlyIf r <|
    (ordered_gets _).bind fun mirrors => ordered_onlyIf (!mirrors) (ordered_assign _)

theorem ordered_handleModeDirect (user : Str) (now : Instant) (username addrStr : Token) :
    Ordered rank ∅ ∅ (handleModeDirect user now username addrStr) := by
  unfold handleModeDirect
  split
  · refine ordered_alone _ ?_
    split_ifs
    · exact ordered_pure ()
    · exact (ordered_gets _).bind fun there => ordered_onlyIf (!there) (ordered_assign _)
  · exact ordered_pure ()

theorem ordered_handleModeServerRelay (user : Str) (username : Token) :
    Ordered rank ∅ ∅ (handleModeServerRelay user username) := by
  unfold handleModeServerRelay
  split_ifs
  · exact ordered_pure ()
  · exact ordered_noteServerRelays.bind fun _ => ordered_onFirst _ _

theorem ordered_handleModeRelay : Ordered rank ∅ ∅ handleModeRelay :=
  ordered_alone _ ((ordered_gets _).bind fun r => ordered_onlyIf (!r) (ordered_assign _))

theorem ordered_handleModeLine (user : Str) (now : Instant) (line : Str) :
    Ordered rank ∅ ∅ (handleModeLine user now line) := by
  unfold handleModeLine
  split
  · exact ordered_pure ()
  · split_ifs
    · split
      · exact ordered_pure ()
      · split_ifs
        · exact ordered_handleModeRelay
        · split
          · exact ordered_handleModeServerRelay user _
          · exact ordered_pure ()
        · split
          · exact ordered_handleModeDirect user now _ _
          · exact ordered_pure ()
        · exact ordered_pure ()
    · split
      · exact ordered_alone _ (ordered_assign _)
      · exact ordered_pure ()
    · exact ordered_pure ()

theorem ordered_handleRelayMessageToPeers (sender message : Str) :
    Ordered rank ∅ ∅ (handleRelayMessageToPeers sender message) :=
  ordered_alone _ ((ordered_gets _).bind fun _ => ordered_each fun _ _ => ordered_output _)

section Lines
variable (user : Str) (now : Instant) (server src : SocketAddr)

theorem ordered_handleDataMessage (line : Str) :
    Ordered rank ∅ ∅ (handleDataMessage now server line) := by
  unfold handleDataMessage
  split_ifs
  · split
    · refine (ordered_onFirst _ _).bind fun _ =>
        ordered_readIsRelay.bind fun r => ordered_onlyIf r ?_
      exact (ordered_handleRelayMessageToPeers _ _).bind fun _ =>
        (ordered_gets _).bind fun mirrors => ordered_onlyIf mirrors (ordered_output _)
    · exact ordered_pure ()
  · exact ordered_pure ()

theorem ordered_processIncomingMessage (message : Str) :
    Ordered rank ∅ ∅ (processIncomingMessage user now server message src) := by
  refine ordered_each fun line _ => ?_
  split_ifs
  · exact ordered_pure ()
  · unfold processLine
    split_ifs
    · exact ordered_output _
    · exact ordered_onFirst _ _
    · exact ordered_onFirst _ _
    · exact ordered_handleDataMessage now server _
    · exact ordered_handleModeLine user now _

/-! ### `src/bin/client.rs` -/

/-- A flag is looked at, and set, and the sleepers are woken, behind one mutex. -/
theorem ordered_signal (m : Mutex) (g : Shared → Bool) (b : Bool) (f : Client → Client) :
    Ordered rank ∅ ∅ (locked m do
      let before ← gets g
      onlyIf (before != b) do
        assign f
        notifyAll m : Code Unit) :=
  ordered_alone _ <| (ordered_gets _).bind fun before => ordered_onlyIf (before != b) <|
    (ordered_assign _).bind fun _ => ordered_notifyAll _

theorem ordered_updateRelayIsActive : Ordered rank ∅ ∅ updateRelayIsActive :=
  ordered_readActs.bind fun active => ordered_signal .relaySync (fun s => s.me.isActive) active _

theorem ordered_setBoth (via paused : Bool) :
    Ordered rank ∅ ∅ (do
      setSendViaServer via
      setPaused paused : Code Unit) := by
  refine Ordered.bind (fun _ => ordered_signal .punchSync (fun s => s.me.paused) paused _) ?_
  exact (ordered_gets _).bind fun before => ordered_onlyIf (before != via) (ordered_assign _)

theorem ordered_processServerResponse (response : Str) :
    Ordered rank ∅ ∅ (processServerResponse user response) := by
  unfold processServerResponse
  split_ifs
  · refine ordered_each fun line _ => ?_
    refine (ordered_onlyIf _ (ordered_setBoth false false)).bind fun _ => ordered_onlyIf _ ?_
    split
    · split_ifs
      · exact ordered_setBoth true true
      · exact ordered_noteServerRelays
    · exact ordered_pure ()
  · exact ordered_pure ()

theorem ordered_receive (bytes : Bytes) :
    Ordered rank ∅ ∅ (receive user now server src bytes) := by
  have hincoming := ordered_processIncomingMessage user now server src
  unfold receive
  split
  · exact (ordered_tryHandleWelcome _).bind fun _ => hincoming _
  · exact ordered_pure ()
  · unfold receiveText
    split_ifs
    · exact (hincoming _).bind fun _ =>
        (ordered_processServerResponse user _).bind fun _ => ordered_updateRelayIsActive
    · exact (ordered_onFirst _ _).bind fun _ =>
        (hincoming _).bind fun _ => ordered_updateRelayIsActive

theorem ordered_setupText (s : Str) :
    Ordered rank ∅ ∅ (setupText user now server src s) := by
  have hincoming := ordered_processIncomingMessage user now server src s
  unfold setupText
  split_ifs
  · exact hincoming.bind fun _ => (ordered_processServerResponse user s).bind fun _ =>
      ordered_updateRelayIsActive.bind fun _ => ordered_pure _
  · exact (ordered_onFirst _ _).bind fun _ => hincoming.bind fun _ => ordered_pure _

theorem ordered_handleRecvResult (bytes : Bytes) :
    Ordered rank ∅ ∅ (handleRecvResult user now server src bytes) := by
  unfold handleRecvResult
  split
  · exact (ordered_tryHandleWelcome _).bind fun _ => ordered_setupText user now server src _
  · exact ordered_pure false
  · exact ordered_setupText user now server src _

end Lines

/-! ### `src/client/networking.rs` -/

theorem ordered_punchEach (peers : List PeerInfo) (backoff : Backoff) :
    Ordered rank base base (punchEach peers backoff) := by
  induction peers generalizing backoff with
  | nil => exact ordered_pure backoff
  | cons p peers ih =>
      rw [punchEach]
      split_ifs
      · exact ih backoff
      · exact (ordered_output _).bind fun _ => ih _

theorem ordered_holePunchingLoop (backoff : Backoff) :
    Ordered rank ∅ ∅ (holePunchingLoop backoff) := by
  refine (ordered_await _ _).bind fun awake => ?_
  split_ifs
  · exact ordered_alone _ ((ordered_gets _).bind fun _ => ordered_punchEach _ backoff)
  · exact ordered_pure backoff

section Networking
variable (now : Instant) (server : SocketAddr) (serverId channel : Token)

theorem ordered_tickPeer (i : Nat) (p : PeerInfo) :
    Ordered rank base base (tickPeer now server serverId channel i p) := by
  unfold tickPeer
  split_ifs
  · exact ordered_pure false
  · exact (ordered_output _).bind fun _ => ordered_pure true
  · exact (ordered_output _).bind fun _ =>
      (ordered_onlyIf _ ((ordered_assign _).bind fun _ => ordered_output _)).bind fun _ =>
        ordered_pure false

theorem ordered_tickEach (i : Nat) (peers : List PeerInfo) :
    Ordered rank base base (tickEach now server serverId channel i peers) := by
  induction peers generalizing i with
  | nil => exact ordered_pure []
  | cons p peers ih =>
      exact (ordered_tickPeer now server serverId channel i p).bind fun _ =>
        (ih (i + 1)).bind fun _ => ordered_pure _

theorem ordered_relayTick : Ordered rank ∅ ∅ (relayTick now server serverId channel) :=
  ordered_alone _ <| (ordered_gets _).bind fun _ =>
    (ordered_tickEach now server serverId channel 0 _).bind fun _ =>
      ordered_each fun _ _ => ordered_assign _

theorem ordered_relayKeepaliveLoop (inMainLoop : Bool) :
    Ordered rank ∅ ∅ (relayKeepaliveLoop now server serverId channel inMainLoop) := by
  unfold relayKeepaliveLoop
  split_ifs
  · refine (ordered_alone _ (ordered_gets _)).bind fun active => ?_
    split_ifs
    · exact (ordered_relayTick now server serverId channel).bind fun _ =>
        (ordered_nap _).bind fun _ => ordered_pure true
    · exact (ordered_alone _ (ordered_modify _)).bind fun _ => ordered_pure false
  · refine (ordered_await _ _).bind fun active => ?_
    split_ifs
    · refine (ordered_alone _ ((ordered_gets _).bind fun started => ?_)).bind fun _ =>
        ordered_pure true
      exact ordered_onlyIf _ (ordered_modify _)
    · exact ordered_pure false

theorem ordered_userInput (user typed : Str) : Ordered rank ∅ ∅ (userInput server user typed) := by
  unfold userInput
  split_ifs
  · exact ordered_pure ()
  · refine (ordered_gets _).bind fun via => ?_
    split_ifs
    · exact ordered_output _
    · refine ordered_alone _ ((ordered_gets _).bind fun _ => ?_)
      exact (ordered_each fun _ _ => ordered_output _).bind fun _ =>
        ordered_readRelaysAndMirrors.bind fun mirrors => ordered_onlyIf mirrors (ordered_output _)

end Networking

end Code

/-! ## To the ends -/

section Settles
variable (w : Started)

theorem ordered_round (i : Thread) (a : Kept i) (l : Cue i) :
    (round w i a l).Ordered rank ∅ ∅ := by
  cases i with
  | main =>
      cases l with
      | datagram now src bytes =>
          change (Code.mainLoop w.user w.server a (.datagram now src bytes)).Ordered rank ∅ ∅
          unfold Code.mainLoop
          split_ifs
          · exact (Code.ordered_handleRecvResult w.user now w.server src bytes).bind fun _ =>
              Prog.ordered_pure _
          · exact (Code.ordered_receive w.user now w.server src bytes).bind fun _ =>
              Prog.ordered_pure _
      | setupDeadline => exact Prog.ordered_pure false
  | punching => exact Code.ordered_holePunchingLoop a
  | keepalive => exact Code.ordered_relayKeepaliveLoop l w.server w.serverId w.channel a
  | input => exact Code.ordered_userInput w.server w.user l
  | heartbeat => exact Prog.ordered_output _

/-- **A client does not get stuck.**  Whatever has come from outside, and however the
instructions of its threads have come to follow each other: if from then on
each thread has its turns, in any order, then each comes to the end of what it
is at, or to where it sleeps till it is woken, and no mutex is left taken. -/
theorem comes_to_rest (as : List (Act Thread Cue)) {f : Nat → Thread} (hfair : Threads.Fair f) :
    ∃ n, (ran w (as ++ Threads.scheduled f n)).AtRest ∧
      ∀ m, (ran w (as ++ Threads.scheduled f n)).owner m = none := by
  have hround := ordered_round w
  have hstep := fun (t : Running) (a : Act Thread Cue) (ht : t.InOrder rank) => ht.act hround a
  have hrun : ∀ bs, (ran w bs).InOrder rank := fun bs =>
    after_of_always _ bs (always_of_step hstep bs (Threads.inOrder_start _ _))
  obtain ⟨n, hrest⟩ := (hrun as).settles hround rank_lt hfair
  have hlast : after (Threads.act (round w)) (ran w as) (Threads.scheduled f n) =
      ran w (as ++ Threads.scheduled f n) := (after_append _ _ _).symm
  rw [hlast] at hrest
  exact ⟨n, hrest, (hrun _).owner_eq_none hrest⟩

/-- One after the other, over and over. -/
def inTurn (n : Nat) : Thread :=
  match n % 5 with
  | 0 => .main
  | 1 => .punching
  | 2 => .keepalive
  | 3 => .input
  | _ => .heartbeat

theorem inTurn_fair : Threads.Fair inTurn := by
  intro i n
  have hmod : ∀ k, k < 5 → (5 * n + k) % 5 = k := fun k hk => by omega
  have hturn : ∀ k, k < 5 → inTurn (5 * n + k) = inTurn k := by
    intro k hk
    rw [inTurn, inTurn, hmod k hk, Nat.mod_eq_of_lt hk]
  cases i with
  | main => exact ⟨5 * n + 0, by omega, hturn 0 (by decide)⟩
  | punching => exact ⟨5 * n + 1, by omega, hturn 1 (by decide)⟩
  | keepalive => exact ⟨5 * n + 2, by omega, hturn 2 (by decide)⟩
  | input => exact ⟨5 * n + 3, by omega, hturn 3 (by decide)⟩
  | heartbeat => exact ⟨5 * n + 4, by omega, hturn 4 (by decide)⟩

def startedAnn : Started := ⟨"ann".toList, .v4 ⟨10, 0, 0, 1⟩ 2131, msgMode, msgRelay⟩

/-- When a relay is made of a client, and somebody has typed a line. -/
theorem comes_to_rest_inTurn :
    ∃ n, (ran startedAnn ([.begin .main (.datagram 7 startedAnn.server (asBytes "MODE RELAY".toList)),
          .begin .input "hello".toList] ++ Threads.scheduled inTurn n)).AtRest ∧
      ∀ m, (ran startedAnn
        ([.begin .main (.datagram 7 startedAnn.server (asBytes "MODE RELAY".toList)),
          .begin .input "hello".toList] ++ Threads.scheduled inTurn n)).owner m = none :=
  comes_to_rest _ _ inTurn_fair

end Settles

end NatPiercer.Client
