/-
# `Client.Turns` — the programs, with nothing in between

A program of `Client.Code` that is executed while nothing else goes on does what
the function of the same name does: it leaves the client as the function
leaves it, sends what the function sends, in the same order, and ends with
what the function returns (`Does`, `Yields`).  So what is known of the
functions is known of a turn that nobody interrupts, and the instructions are
those of the source and not of another client.
-/
import NatPiercer.Client.Code

namespace NatPiercer.Client.Code

open Text Utf8 Net Proto Signaling
open Prog

@[simp] theorem onMe_me (f : Client → Client) (s : Shared) : (s.onMe f).me = f s.me := rfl

@[simp] theorem run_assign (f : Client → Client) (s : Shared) :
    (assign f).run s = ⟨(), s.onMe f, []⟩ := rfl

theorem run_onlyIf (b : Bool) (p : Code Unit) (s : Shared) :
    (onlyIf b p).run s = if b then p.run s else ⟨(), s, []⟩ := by
  unfold onlyIf
  split_ifs <;> rfl

@[simp] theorem run_readIsRelay (s : Shared) : readIsRelay.run s = ⟨s.me.isRelay, s, []⟩ := by
  rw [readIsRelay, run_locked, run_gets]

@[simp] theorem run_readMirrors (s : Shared) :
    readMirrors.run s = ⟨s.me.channelHasServerRelays, s, []⟩ := rfl

theorem run_readActs (s : Shared) : readActs.run s = ⟨s.me.acts, s, []⟩ := by
  rw [readActs, run_bind, run_readIsRelay, acts]
  dsimp only
  cases s.me.isRelay <;> rfl

theorem run_readRelaysAndMirrors (s : Shared) :
    readRelaysAndMirrors.run s = ⟨s.me.isRelay && s.me.channelHasServerRelays, s, []⟩ := by
  rw [readRelaysAndMirrors, run_bind, run_readIsRelay]
  dsimp only
  cases s.me.isRelay <;> rfl

/-- The program is what the function does to the client `user`, and sends. -/
def Does (user : Str) (p : Code Unit) (f : Client → Client × List Datagram) : Prop :=
  ∀ s : Shared, s.me.user = user →
    p.run s = ⟨(), s.onMe fun _ => (f s.me).1, (f s.me).2⟩ ∧ (f s.me).1.user = user

variable {user : Str} {p q : Code Unit} {f g : Client → Client × List Datagram}

theorem Does.bind (hp : Does user p f) (hq : Does user q g) :
    Does user (p >>= fun _ => q) fun me => ((g (f me).1).1, (f me).2 ++ (g (f me).1).2) := by
  intro s hs
  obtain ⟨hrun, huser⟩ := hp s hs
  obtain ⟨hrun', huser'⟩ := hq (s.onMe fun _ => (f s.me).1) huser
  refine ⟨?_, huser'⟩
  rw [run_bind, hrun, hrun']
  rfl

theorem Does.congr (h : Does user p f) (hfg : ∀ me : Client, me.user = user → f me = g me) :
    Does user p g := fun s hs => hfg s.me hs ▸ h s hs

theorem does_pure : Does user (pure ()) fun me => (me, []) := fun _ hs => ⟨rfl, hs⟩

theorem does_output (d : Datagram) : Does user (output d) fun me => (me, [d]) :=
  fun _ hs => ⟨rfl, hs⟩

theorem does_assign {h : Client → Client}
    (huser : ∀ me, (h me).user = me.user := by exact fun _ => rfl) :
    Does user (assign h) fun me => (h me, []) :=
  fun s hs => ⟨rfl, (huser s.me).trans hs⟩

theorem Does.locked (h : Does user p f) (m : Mutex) : Does user (Prog.locked m p) f := by
  intro s hs
  rw [run_locked]
  exact h s hs

theorem Does.onlyIf (h : Does user p f) (b : Bool) :
    Does user (onlyIf b p) fun me => if b then f me else (me, []) := by
  cases b with
  | true => exact h
  | false => exact does_pure

/-- What comes after a read is what is done with what was read. -/
theorem does_read {β : Type} {r : Code β} {v : Client → β} {k : β → Code Unit}
    {f : β → Client → Client × List Datagram} (hr : ∀ s : Shared, r.run s = ⟨v s.me, s, []⟩)
    (hk : ∀ b, Does user (k b) (f b)) : Does user (r >>= k) fun me => f (v me) me := by
  intro s hs
  obtain ⟨hrun, huser⟩ := hk (v s.me) s hs
  refine ⟨?_, huser⟩
  rw [run_bind, hr, hrun]
  rfl

theorem does_gets {β : Type} {v : Client → β} {k : β → Code Unit}
    {f : β → Client → Client × List Datagram} (hk : ∀ b, Does user (k b) (f b)) :
    Does user ((gets fun s => v s.me) >>= k) fun me => f (v me) me :=
  does_read (fun _ => rfl) hk

theorem does_each {β : Type} {r : β → Code Unit} {h : β → Client → Client}
    (hr : ∀ x, Does user (r x) fun me => (h x me, [])) (xs : List β) :
    Does user (each xs r) fun me => (xs.foldl (fun me x => h x me) me, []) := by
  induction xs with
  | nil => exact does_pure
  | cons x xs ih => exact (hr x).bind ih

theorem does_each_output {β : Type} (xs : List β) (d : β → Datagram) :
    Does user (each xs fun x => output (d x)) fun me => (me, xs.map d) :=
  fun s hs => ⟨run_each_output xs d s, hs⟩

/-! ### `src/client/handlers.rs` -/

theorem does_welcomeLine (line : Str) :
    Does user (welcomeLine line) fun me => (me.welcomeLine line, []) := by
  unfold welcomeLine Client.welcomeLine
  generalize splitWhitespace line = ws
  match ws with
  | [] | [_] | [_, _] | _ :: _ :: _ :: _ :: _ => exact does_pure
  | [word, cid, pid] =>
      dsimp only
      split_ifs
      · generalize parseUnsigned (2 ^ 64 - 1) cid.text = cid
        generalize parseUnsigned (2 ^ 32 - 1) pid.text = pid
        match cid, pid with
        | none, _ | some _, none => exact does_pure
        | some cid, some pid =>
            exact Does.bind does_assign does_assign
      · exact does_pure

theorem does_tryHandleWelcome (s : Str) :
    Does user (tryHandleWelcome s) fun me => (me.tryHandleWelcome s, []) :=
  does_each does_welcomeLine (lines s)

theorem does_handleModeRelay : Does user handleModeRelay fun me => (me.handleModeRelay, []) := by
  refine Does.locked ((does_gets fun r => Does.onlyIf does_assign (!r)).congr fun me _ => ?_) _
  obtain ⟨_, _, isRelay, _, _, _, _, _, _⟩ := me
  cases isRelay <;> rfl

theorem does_handleModeDirect (now : Instant) (username addrStr : Token) :
    Does user (handleModeDirect user now username addrStr) fun me =>
      (me.handleModeDirect now username addrStr, []) := by
  unfold handleModeDirect Client.handleModeDirect
  cases SocketAddr.fromStr addrStr.text with
  | none => exact does_pure
  | some addr =>
      refine Does.locked ?_ _
      dsimp only
      split_ifs with hself
      · exact does_pure.congr fun me hme => by rw [if_pos (hself.trans hme.symm)]
      · refine (does_gets (v := fun me => me.peers.any fun p => p.addr = addr) fun there =>
        Does.onlyIf does_assign (!there)).congr ?_
        intro me hme
        have hother : ¬ username.text = me.user := fun h => hself (h.trans hme)
        rw [if_neg hother]
        cases me.peers.any fun p => p.addr = addr <;> rfl

/-- The assignments to the first entry are made to one entry. -/
theorem does_onFirst (q : PeerInfo → Bool) {fs : List (PeerInfo → PeerInfo)}
    (hq : ∀ f ∈ fs, ∀ p, q (f p) = q p) :
    Does user (onFirst q fs) fun me =>
      ({ me with peers := Vec.modifyFirst q (fun p => fs.foldl (fun p f => f p) p) me.peers },
        []) := by
  refine Does.locked ((does_each (fun _ => does_assign) fs).congr fun me _ => ?_) _
  have hfold : ∀ (fs : List (PeerInfo → PeerInfo)) (me : Client),
      fs.foldl (fun me f => { me with peers := Vec.modifyFirst q f me.peers }) me =
        { me with peers := fs.foldl (fun ps f => Vec.modifyFirst q f ps) me.peers } := by
    intro fs
    induction fs with
    | nil => exact fun _ => rfl
    | cons f fs ih => exact fun me => ih _
  rw [hfold, Vec.foldl_modifyFirst hq]

theorem does_noteServerRelays : Does user noteServerRelays fun me =>
    ({ me with channelHasServerRelays := me.channelHasServerRelays || me.isRelay }, []) := by
  refine (does_read run_readIsRelay fun r => Does.onlyIf (does_read run_readMirrors fun mirrors =>
    Does.onlyIf does_assign (!mirrors)) r).congr fun me _ => ?_
  obtain ⟨_, _, isRelay, mirrors, _, _, _, _, _⟩ := me
  cases isRelay <;> cases mirrors <;> rfl

theorem does_handleModeServerRelay (username : Token) :
    Does user (handleModeServerRelay user username) fun me =>
      (me.handleModeServerRelay username, []) := by
  unfold handleModeServerRelay Client.handleModeServerRelay
  split_ifs with hself
  · exact does_pure.congr fun me hme => by rw [if_pos (hself.trans hme.symm)]
  · refine (does_noteServerRelays.bind (does_onFirst _ ?_)).congr fun me hme => ?_
    · simp
    · rw [if_neg fun h => hself (h.trans hme)]
      rfl

theorem does_handleUserLeft (username : Token) :
    Does user (handleUserLeft username) fun me => (me.handleUserLeft username, []) :=
  Does.locked does_assign _

theorem does_handleModeLine (now : Instant) (line : Str) :
    Does user (handleModeLine user now line) fun me => (me.handleModeLine now line, []) := by
  unfold handleModeLine Client.handleModeLine
  generalize splitWhitespace line = ws
  match ws with
  | [] => exact does_pure
  | [word] =>
      dsimp only
      split_ifs <;> exact does_pure
  | word :: mode :: args =>
      dsimp only
      split_ifs
      · exact does_handleModeRelay
      · match args with
        | [] => exact does_pure
        | username :: _ => exact does_handleModeServerRelay username
      · match args with
        | [] | [_] => exact does_pure
        | username :: addrStr :: _ => exact does_handleModeDirect now username addrStr
      · exact does_pure
      · exact does_handleUserLeft mode
      · exact does_pure

theorem does_ensureConnected (now : Instant) {q : PeerInfo → Bool}
    (hq : ∀ (p : PeerInfo) c l, q { p with connected := c, lastPong := l } = q p) :
    Does user (ensureConnected now q) fun me =>
      ({ me with peers := Vec.modifyFirst q (Client.ensureConnected now) me.peers }, []) := by
  refine does_onFirst q ?_
  simp only [List.forall_mem_cons, List.not_mem_nil, false_implies, implies_true, and_true]
  exact ⟨fun p => hq p p.connected now, fun p => hq p true p.lastPong⟩

theorem does_handlePong (now : Instant) (src : SocketAddr) :
    Does user (handlePong now src) fun me => (me.handlePong now src, []) := by
  refine does_onFirst _ ?_
  simp

theorem does_handlePeerMessage (now : Instant) (src : SocketAddr) :
    Does user (handlePeerMessage now src) fun me => (me.handlePeerMessage now src, []) :=
  does_ensureConnected now fun _ _ _ => rfl

theorem does_markPeerConnectedByName (now : Instant) (name : Str) :
    Does user (markPeerConnectedByName now name) fun me =>
      (me.markPeerConnectedByName now name, []) :=
  does_ensureConnected now fun _ _ _ => rfl

theorem does_handleRelayMessageToPeers (sender message : Str) :
    Does user (handleRelayMessageToPeers sender message) fun me =>
      (me, me.handleRelayMessageToPeers sender message) :=
  Does.locked (does_gets fun _ => does_each_output _ _) _

section Lines
variable (now : Instant) (server : SocketAddr)

theorem does_handleDataMessage (line : Str) :
    Does user (handleDataMessage now server line) fun me =>
      me.handleDataMessage now server line := by
  unfold handleDataMessage Client.handleDataMessage
  split_ifs
  · generalize splitn 3 ' ' line = ws
    match ws with
    | [] | [_] | [_, _] | _ :: _ :: _ :: _ :: _ => exact does_pure
    | [_, sender, _] =>
        refine ((does_markPeerConnectedByName now sender).bind (does_read run_readIsRelay fun r =>
          Does.onlyIf ((does_handleRelayMessageToPeers sender line).bind (does_read run_readMirrors
            fun mirrors => Does.onlyIf (does_output _) mirrors)) r)).congr fun me _ => ?_
        dsimp only
        split_ifs <;> rfl
  · exact does_pure

theorem does_processLine (src : SocketAddr) (line : Str) :
    Does user (processLine user now server src line) fun me =>
      me.processLine now server src line := by
  unfold processLine Client.processLine
  split_ifs
  · exact does_output _
  · exact does_handlePong now src
  · exact does_handlePeerMessage now src
  · exact does_handleDataMessage now server line
  · exact does_handleModeLine now line

theorem does_processIncomingMessage (message : Str) (src : SocketAddr) :
    Does user (processIncomingMessage user now server message src) fun me =>
      me.processIncomingMessage now server message src := by
  unfold processIncomingMessage Client.processIncomingMessage
  induction lines message with
  | nil => exact does_pure
  | cons line ls ih =>
      rw [each]
      split_ifs with hblank
      · refine (does_pure.bind ih).congr fun me _ => ?_
        rw [processLines, if_pos hblank]
        rfl
      · refine ((does_processLine now server src (trim line)).bind ih).congr fun me _ => ?_
        rw [processLines, if_neg hblank]

end Lines

/-! ### `src/bin/client.rs` -/

theorem does_updateRelayIsActive :
    Does user updateRelayIsActive fun me => (me.updateRelayIsActive, []) := by
  have hsignal : ∀ active, Does user
      (do
        assign fun me => { me with isActive := active }
        notifyAll .relaySync)
      fun me => ({ me with isActive := active }, []) := fun active _ hs => ⟨rfl, hs⟩
  refine (does_read run_readActs fun active => Does.locked (does_gets fun before =>
    Does.onlyIf (hsignal active) (before != active)) _).congr fun me _ => ?_
  obtain ⟨_, _, isRelay, mirrors, _, _, isActive, _, _⟩ := me
  cases isRelay <;> cases mirrors <;> cases isActive <;> rfl

theorem does_setPaused (paused : Bool) :
    Does user (setPaused paused) fun me => ({ me with paused := paused }, []) := by
  have hsignal : Does user
      (do
        assign fun me => { me with paused := paused }
        notifyAll .punchSync)
      fun me => ({ me with paused := paused }, []) := fun _ hs => ⟨rfl, hs⟩
  refine Does.locked ((does_gets fun before =>
    Does.onlyIf hsignal (before != paused)).congr fun me _ => ?_) _
  obtain ⟨_, _, _, _, _, before, _, _, _⟩ := me
  cases before <;> cases paused <;> rfl

theorem does_setSendViaServer (via : Bool) :
    Does user (setSendViaServer via) fun me => ({ me with sendViaServer := via }, []) := by
  refine (does_gets fun before => Does.onlyIf does_assign (before != via)).congr fun me _ => ?_
  obtain ⟨_, _, _, _, before, _, _, _, _⟩ := me
  cases before <;> cases via <;> rfl

theorem does_responseLine (line : Str) :
    Does user (responseLine user line) fun me => (me.responseLine line, []) := by
  have hstop : Does user
      (onlyIf (line = unwords [msgMode, msgRelay]) do
        setSendViaServer false
        setPaused false)
      fun me => (if line = unwords [msgMode, msgRelay] then
        { me with sendViaServer := false, paused := false } else me, []) := by
    refine (Does.onlyIf ((does_setSendViaServer false).bind (does_setPaused false)) _).congr
      fun me _ => ?_
    simp only [decide_eq_true_eq]
    split_ifs <;> rfl
  have hwho : ∀ who : Token, Does user
      (if who.text = user then do
        setSendViaServer true
        setPaused true
      else noteServerRelays)
      fun me => (if who.text = me.user then { me with sendViaServer := true, paused := true }
        else if me.isRelay then { me with channelHasServerRelays := true } else me, []) := by
    intro who
    by_cases hself : who.text = user
    · rw [if_pos hself]
      refine ((does_setSendViaServer true).bind (does_setPaused true)).congr fun me hme => ?_
      have hme' : who.text = me.user := hself.trans hme.symm
      rw [if_pos hme']
      rfl
    · rw [if_neg hself]
      refine does_noteServerRelays.congr fun me hme => ?_
      have hme' : ¬ who.text = me.user := fun h => hself (h.trans hme)
      rw [if_neg hme']
      obtain ⟨_, _, isRelay, mirrors, _, _, _, _, _⟩ := me
      cases isRelay <;> cases mirrors <;> rfl
  unfold responseLine Client.responseLine
  generalize splitWhitespace line = ws
  cases startsWith line (unwords [msgMode, msgServerRelay] ++ [' ']) with
  | false => exact (hstop.bind does_pure).congr fun me _ => rfl
  | true =>
      rcases ws with _ | ⟨_, _ | ⟨_, _ | ⟨who, _⟩⟩⟩
      · exact (hstop.bind does_pure).congr fun me _ => rfl
      · exact (hstop.bind does_pure).congr fun me _ => rfl
      · exact (hstop.bind does_pure).congr fun me _ => rfl
      · exact (hstop.bind (hwho who)).congr fun me _ => rfl

theorem does_processServerResponse (response : Str) :
    Does user (processServerResponse user response) fun me =>
      (me.processServerResponse response, []) := by
  unfold processServerResponse Client.processServerResponse
  split_ifs
  · exact does_each (fun line => does_responseLine (trim line)) _
  · exact does_pure

section Receive
variable (now : Instant) (server src : SocketAddr)

theorem does_receiveControl (s : Str) :
    Does user (receiveControl user now server src s) fun me =>
      me.receiveControl now server src s :=
  (does_tryHandleWelcome s).bind (does_processIncomingMessage now server s src)

theorem does_receiveText (s : Str) :
    Does user (receiveText user now server src s) fun me => me.receiveText now server src s := by
  unfold receiveText Client.receiveText
  split_ifs
  · refine ((does_processIncomingMessage now server s src).bind
      ((does_processServerResponse s).bind does_updateRelayIsActive)).congr fun me _ => ?_
    exact Prod.ext rfl (List.append_nil _)
  · refine ((does_handlePeerMessage now src).bind
      ((does_processIncomingMessage now server s src).bind
        does_updateRelayIsActive)).congr fun me _ => ?_
    exact Prod.ext rfl (List.append_nil _)

/-- **One datagram**, instruction by instruction and with nothing in between. -/
theorem does_receive (bytes : Bytes) :
    Does user (receive user now server src bytes) fun me => me.receive now server src bytes := by
  unfold receive
  simp only [receive_eq]
  cases Reading.ofBytes bytes with
  | control s => exact does_receiveControl now server src s
  | dropped => exact does_pure
  | plain s => exact does_receiveText now server src s

/-- The same of a program that ends with something. -/
def Yields {α : Type} (user : Str) (p : Code α) (f : Client → Client × α × List Datagram) : Prop :=
  ∀ s : Shared, s.me.user = user →
    p.run s = ⟨(f s.me).2.1, s.onMe fun _ => (f s.me).1, (f s.me).2.2⟩

theorem yields_pure {α : Type} (a : α) : Yields user (pure a) fun me => (me, a, []) :=
  fun _ _ => rfl

theorem Does.yields {α : Type} {r : Code α} {h : Client → Client × α × List Datagram}
    (hp : Does user p f) (hr : Yields user r h) :
    Yields user (p >>= fun _ => r) fun me =>
      ((h (f me).1).1, (h (f me).1).2.1, (f me).2 ++ (h (f me).1).2.2) := by
  intro s hs
  obtain ⟨hrun, huser⟩ := hp s hs
  rw [run_bind, hrun, hr _ huser]
  rfl

theorem Yields.congr {α : Type} {r : Code α} {h h' : Client → Client × α × List Datagram}
    (hr : Yields user r h) (hh : ∀ me : Client, h me = h' me) : Yields user r h' :=
  fun s hs => hh s.me ▸ hr s hs

theorem yields_setupText (s : Str) :
    Yields user (setupText user now server src s) fun me => me.setupText now server src s := by
  unfold setupText Client.setupText
  split_ifs
  · refine ((does_processIncomingMessage now server s src).yields
      ((does_processServerResponse s).yields
        (does_updateRelayIsActive.yields (yields_pure (holdsMode s))))).congr fun me => ?_
    exact Prod.ext rfl (Prod.ext rfl (List.append_nil _))
  · refine ((does_handlePeerMessage now src).yields
      ((does_processIncomingMessage now server s src).yields
        (yields_pure false))).congr fun me => ?_
    exact Prod.ext rfl (Prod.ext rfl (List.append_nil _))

theorem yields_handleRecvResult (bytes : Bytes) :
    Yields user (handleRecvResult user now server src bytes) fun me =>
      me.handleRecvResult now server src bytes := by
  unfold handleRecvResult
  simp only [handleRecvResult_eq]
  cases Reading.ofBytes bytes with
  | control s => exact (does_tryHandleWelcome s).yields (yields_setupText now server src s)
  | dropped => exact yields_pure false
  | plain s => exact yields_setupText now server src s

end Receive

/-- What is sent when a datagram is received, in the one loop or the other. -/
def replies (server : SocketAddr) (st : Listening) : Event → List Datagram
  | .datagram now src bytes =>
      if st.inSetup then (st.me.handleRecvResult now server src bytes).2.2
      else (st.me.receive now server src bytes).2
  | .setupDeadline => []

/-- **A turn of the main thread**, in the one loop or the other. -/
theorem yields_mainLoop (server : SocketAddr) (inSetup : Bool) (e : Event) :
    Yields user (mainLoop user server inSetup e) fun me =>
      ((Listening.step server ⟨inSetup, me⟩ e).me, (Listening.step server ⟨inSetup, me⟩ e).inSetup,
        replies server ⟨inSetup, me⟩ e) := by
  cases e with
  | setupDeadline => exact yields_pure false
  | datagram now src bytes =>
      cases inSetup with
      | true =>
          intro s hs
          have hrun := yields_handleRecvResult now server src bytes s hs
          change (handleRecvResult user now server src bytes >>= fun sawMode =>
            (pure (!sawMode) : Code Bool)).run s = _
          rw [run_bind, hrun, run_pure]
          exact congrArg (LockProg.Outcome.mk _ _) (List.append_nil _)
      | false =>
          refine ((does_receive now server src bytes).yields (yields_pure false)).congr fun me => ?_
          exact Prod.ext rfl (Prod.ext rfl (List.append_nil _))

/-! ### `src/client/networking.rs` -/

theorem run_punchEach (peers : List PeerInfo) (backoff : Backoff) (s : Shared) :
    (punchEach peers backoff).run s =
      ⟨(holePunchingPass peers backoff).1, s, (holePunchingPass peers backoff).2⟩ := by
  induction peers generalizing backoff with
  | nil => rfl
  | cons p peers ih =>
      rw [punchEach, holePunchingPass]
      split_ifs
      · exact ih backoff
      · rw [run_bind, run_output, ih]
        rfl

/-- A pass, unless it is paused. -/
theorem run_holePunchingLoop (backoff : Backoff) (s : Shared) :
    (holePunchingLoop backoff).run s =
      if s.me.paused then ⟨backoff, s, []⟩
      else ⟨(holePunchingPass s.me.peers backoff).1, s,
        (holePunchingPass s.me.peers backoff).2⟩ := by
  rw [holePunchingLoop, run_bind, run_await]
  dsimp only
  cases s.me.paused with
  | true => rfl
  | false =>
      rw [if_neg Bool.false_ne_true]
      change (((locked .peers do
        let peers ← gets fun s => s.me.peers
        punchEach peers backoff : Code Backoff)).run s) = _
      rw [run_locked, run_bind, run_gets, run_punchEach]
      rfl

section Networking
variable (now : Instant) (server : SocketAddr) (serverId channel : Token)

theorem run_tickPeer (pre rest : List PeerInfo) (p : PeerInfo) {s : Shared}
    (hs : s.me.peers = pre ++ p :: rest) :
    (tickPeer now server serverId channel pre.length p).run s =
      ⟨late now p, s.onMe fun me => { me with peers := pre ++ ticked now p :: rest },
        tickSends now server serverId channel p⟩ := by
  have hself : s.onMe (fun me => { me with peers := pre ++ p :: rest }) = s := by
    rw [Shared.onMe, ← hs]
  have hmark : s.onMe (fun me => { me with
      peers := me.peers.modify pre.length fun p => { p with relayRequested := true } }) =
        s.onMe fun me => { me with peers := pre ++ { p with relayRequested := true } :: rest } := by
    rw [Shared.onMe, hs, Vec.modify_append_cons]
    rfl
  obtain ⟨addr, lastPong, username, connected, createdAt, useServerRelay, relayRequested, kind⟩ := p
  unfold tickPeer ticked tickSends due late
  cases useServerRelay with
  | true => exact congrArg (fun s => LockProg.Outcome.mk false s []) hself.symm
  | false =>
      by_cases hlate : now - lastPong > peerTimeout
      · simp [hlate, hself]
      · cases connected with
        | true => simp [hlate, hself, run_onlyIf]
        | false =>
            by_cases hgrace : now - createdAt > connectGrace
            · cases relayRequested with
              | true => simp [hlate, hgrace, hself, run_onlyIf]
              | false => simp [hlate, hgrace, run_onlyIf, hmark]
            · simp [hlate, hgrace, hself, run_onlyIf]

/-- The positions are those of the entries as they were, and nothing has moved. -/
theorem run_tickEach (pre peers : List PeerInfo) {s : Shared} (hs : s.me.peers = pre ++ peers) :
    (tickEach now server serverId channel pre.length peers).run s =
      ⟨peers.findIdxs (late now) pre.length,
        s.onMe fun me => { me with peers := pre ++ peers.map (ticked now) },
        peers.flatMap (tickSends now server serverId channel)⟩ := by
  induction peers generalizing pre s with
  | nil =>
      have hself : s = s.onMe fun me => { me with peers := pre ++ [] } := by
        rw [Shared.onMe, ← hs]
      exact congrArg (fun s => LockProg.Outcome.mk [] s []) hself
  | cons p peers ih =>
      have hlen : (pre ++ [ticked now p]).length = pre.length + 1 := List.length_append
      have hrest := ih (pre ++ [ticked now p])
        (s := s.onMe fun me => { me with peers := pre ++ ticked now p :: peers })
        (List.append_cons pre _ peers)
      rw [hlen, List.append_assoc, List.singleton_append] at hrest
      rw [tickEach, run_bind, run_tickPeer now server serverId channel pre peers p hs, run_bind,
        hrest, run_pure, List.findIdxs_cons, List.flatMap_cons, List.map_cons]
      exact congrArg (LockProg.Outcome.mk _ _) (congrArg _ (List.append_nil _))

/-- **A pass**, instruction by instruction. -/
theorem run_relayTick (s : Shared) :
    (relayTick now server serverId channel).run s =
      ⟨(), s.onMe fun me => { me with
          peers := me.peers.filterMap fun p =>
            (relayMainLoopPeer now server serverId channel p).1 },
        s.me.peers.flatMap fun p => (relayMainLoopPeer now server serverId channel p).2⟩ := by
  have hvisit := relayTick_visit now server serverId channel s.me.peers
  rw [Client.relayTick, tickLoop_eq] at hvisit
  obtain ⟨left, hleft, hboth⟩ := Option.map_eq_some_iff.mp hvisit
  have herase : ∀ (is : List Nat) (c : Shared),
      (each is fun i => assign fun me => { me with peers := me.peers.eraseIdx i }).run c =
        ⟨(), c.onMe fun me => { me with peers := is.foldl List.eraseIdx me.peers }, []⟩ := by
    intro is
    induction is with
    | nil => exact fun _ => rfl
    | cons i is ih =>
        intro c
        rw [each, run_bind, run_assign, ih]
        rfl
  have hloop := run_tickEach now server serverId channel [] s.me.peers (s := s) rfl
  rw [List.length_nil, List.nil_append] at hloop
  rw [relayTick, run_locked, run_bind, run_gets, run_bind, hloop, herase]
  have hpeers := Vec.foldl_eraseIdx_of_removeRev hleft
  change LockProg.Outcome.mk () (s.onMe fun me => { me with
    peers := (s.me.peers.findIdxs (late now) 0).reverse.foldl List.eraseIdx
      (s.me.peers.map (ticked now)) }) _ = _
  rw [hpeers]
  obtain ⟨rfl, hsent⟩ := Prod.mk.inj hboth
  rw [List.append_nil, hsent]
  rfl

/-- Once round the loop, of an active client. -/
theorem run_relayKeepaliveLoop {s : Shared} (hs : s.me.isActive = true) :
    (relayKeepaliveLoop now server serverId channel true).run s =
      ⟨true, s.onMe fun _ => (s.me.relayMainLoop now server serverId channel).1,
        (s.me.relayMainLoop now server serverId channel).2⟩ := by
  rw [relayKeepaliveLoop, if_pos rfl, run_bind, run_locked, run_gets, hs]
  dsimp only
  rw [if_pos rfl, run_bind, run_relayTick, run_bind, run_nap, run_pure]
  unfold Client.relayMainLoop
  rw [if_pos hs]
  exact congrArg (LockProg.Outcome.mk _ _) (List.append_nil _)

end Networking

theorem does_handleUserMessage (server : SocketAddr) (message : Str) :
    Does user (handleUserMessage server user message) fun me =>
      (me, me.handleUserMessage server message) := by
  have hdirect : Does user
      (locked .peers do
        let peers ← gets fun s => s.me.peers
        each (peers.filter fun p => !p.useServerRelay) fun peer =>
          output (tell peer.addr (dataLine user message ++ ['\n']))
        let mirrors ← readRelaysAndMirrors
        onlyIf mirrors (output (tell server (dataLine user message ++ ['\n']))))
      fun me => (me, (me.peers.filter fun p => !p.useServerRelay).map (fun peer =>
          tell peer.addr (dataLine user message ++ ['\n'])) ++
        if me.isRelay && me.channelHasServerRelays then
          [tell server (dataLine user message ++ ['\n'])] else []) := by
    refine Does.locked ((does_gets fun peers => (does_each_output _ _).bind
      (does_read (v := fun me : Client => me.isRelay && me.channelHasServerRelays)
        run_readRelaysAndMirrors fun mirrors => Does.onlyIf (does_output _) mirrors)).congr
          fun me _ => ?_) _
    dsimp only
    split_ifs <;> rfl
  intro s hs
  have hpure : s.me.handleUserMessage server message =
      if s.me.sendViaServer then [tell server (dataLine user message ++ ['\n'])]
      else (s.me.peers.filter fun p => !p.useServerRelay).map (fun peer =>
          tell peer.addr (dataLine user message ++ ['\n'])) ++
        if s.me.isRelay && s.me.channelHasServerRelays then
          [tell server (dataLine user message ++ ['\n'])] else [] := by
    rw [Client.handleUserMessage, hs]
  refine ⟨?_, hs⟩
  dsimp only
  rw [handleUserMessage, run_bind, run_gets, hpure]
  dsimp only
  cases s.me.sendViaServer with
  | true => rfl
  | false => exact (hdirect s hs).1

/-- **A line that is typed**, instruction by instruction. -/
theorem does_userInput (server : SocketAddr) (typed : Str) :
    Does user (userInput server user typed) fun me => (me, me.userInput server typed) := by
  unfold userInput Client.userInput
  split_ifs
  · exact does_pure
  · exact does_handleUserMessage server (trim typed)

end NatPiercer.Client.Code
