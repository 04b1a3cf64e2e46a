/-
# `Client.Together` — the five threads at once

With the rounds of all threads keeping to the contract of `Client.Contract`, so
does every run of instructions of them, in any order, of any length.  What
comes of that is said here.

The table is sound whenever nobody has it in hand, and the modes fit each other
whenever the main thread is between two datagrams (`together_sound`).  What is
sent to a peer is sent to one who is in the table at that moment, and not to
one who was (`together_sends`).  Nobody sleeps over what has come about
(`together_awake`).  And the keepalive loop, once it is in `relay_main_loop`,
is in it for good: what the source does when it is over is never done
(`together_lasts`).
-/
import NatPiercer.Client.Contract

namespace NatPiercer.Client

open Text Utf8 Net Proto Signaling

theorem MainMay.isActive {held : Set Mutex} {s s' : Shared} (h : MainMay held s s')
    (hs : s.me.isActive = true) : s'.me.isActive = true := by
  rcases h.active with hsame | hactive
  · exact hsame.trans hs
  · exact hactive.2.2 hs

/-- Whoever is in `relay_main_loop` is active, and has said that it is started. -/
structure Lasting (inMainLoop : Bool) (s : Shared) : Prop where
  active : inMainLoop = true → s.me.isActive = true
  started : s.relayStarted = inMainLoop

namespace Code

open Prog Contract

variable {w : Started}

/-- The table stays as it is while one has its mutex. -/
theorem peers_stable (i : Thread) {held : Set Mutex} (hm : .peers ∈ held) (ps : List PeerInfo) :
    (contract w).Stable i held fun s => s.me.peers = ps := by
  refine stable_of fun j held' s s' _ hdisjoint hmay hs => ?_
  rw [may_peers hmay (hdisjoint _ hm)]
  exact hs

theorem true_stable (i : Thread) (held : Set Mutex) :
    (contract w).Stable i held fun _ => True := fun _ _ _ _ => trivial

/-- To look at the table, with its mutex in hand. -/
theorem triple_withPeers {α : Type} {i : Thread} {P : Shared → Prop} {f : List PeerInfo → Code α}
    {Q : α → Shared → Prop} (hP : ∀ held, (contract w).Stable i held P)
    (hQ : ∀ a held, (contract w).Stable i held (Q a))
    (hf : ∀ ps, (contract w).Triple i (insert .peers ∅)
      (fun s => (P s ∧ (contract w).inv .peers s) ∧ s.me.peers = ps) (f ps)
      fun a s => Q a s ∧ (contract w).inv .peers s) :
    (contract w).Triple i ∅ P (locked .peers do
      let peers ← gets fun s => s.me.peers
      f peers) Q := by
  have hmem : Mutex.peers ∈ insert Mutex.peers (∅ : Set Mutex) := Set.mem_insert _ _
  have hboth := (hP (insert .peers ∅)).and (stable_inv (c := contract w) hmem)
  refine triple_locked (Set.notMem_empty _) (hP _) (fun a => hQ a _) ?_
  exact Triple.bind (triple_gets hboth (fun ps => hboth.and (peers_stable i hmem ps))
    fun s hs => ⟨hs, rfl⟩) hf

/-! ## The punching loop -/

theorem triple_holePunchingLoop (backoff : Backoff) :
    (contract w).Triple .punching ∅ (fun _ => True) (holePunchingLoop backoff)
      fun _ _ => True := by
  have htrue := true_stable (w := w) .punching
  refine Triple.bind (triple_await (R := fun _ => True) (htrue _) (htrue _) (fun s hs => hs)
    fun s _ _ _ => trivial) fun awake => ?_
  have hpass : ∀ (all ps : List PeerInfo) backoff, (∀ p ∈ ps, p ∈ all) →
      (contract w).Triple .punching (insert .peers ∅)
        (fun s => (True ∧ (contract w).inv .peers s) ∧ s.me.peers = all)
        (punchEach ps backoff) fun _ s => True ∧ (contract w).inv .peers s := by
    intro all ps
    have hmem : Mutex.peers ∈ insert Mutex.peers (∅ : Set Mutex) := Set.mem_insert _ _
    have hall := ((htrue (insert .peers ∅)).and (stable_inv (c := contract w) hmem)).and
      (peers_stable .punching hmem all)
    induction ps with
    | nil => exact fun backoff _ => triple_pure hall backoff fun _ hs => hs.1
    | cons p ps ih =>
        intro backoff hps
        have hrest := fun backoff => ih backoff fun q hq => hps q (List.mem_cons_of_mem p hq)
        rw [punchEach]
        cases hsettled : p.connected || p.useServerRelay with
        | true => exact hrest backoff
        | false =>
            refine Triple.bind (triple_output hall fun s hs => ?_) fun _ => hrest _
            refine ⟨p, ?_, hsettled, rfl⟩
            rw [hs.2]
            exact hps p List.mem_cons_self
  cases awake with
  | true => exact triple_withPeers htrue (fun _ => htrue) fun ps => hpass ps ps backoff fun _ h => h
  | false => exact triple_pure (htrue _) backoff fun _ _ => trivial

/-! ## The loop over `stdin` -/

theorem triple_readRelaysAndMirrors {held : Set Mutex} {P : Shared → Prop}
    (hP : (contract w).Stable .input held P) (hfree : Mutex.isRelay ∉ held) :
    (contract w).Triple .input held P readRelaysAndMirrors fun _ => P := by
  have hrelay : (contract w).Triple .input held P readIsRelay fun _ => P := by
    have hboth := (hP.mono (Set.subset_insert Mutex.isRelay held)).and
      (stable_inv (c := contract w) (Set.mem_insert Mutex.isRelay held))
    exact triple_locked hfree hP (fun _ => hP)
      (triple_gets hboth (fun _ => hboth) fun s hs => hs)
  refine hrelay.bind fun r => ?_
  split_ifs
  · exact triple_gets hP (fun _ => hP) fun s hs => hs
  · exact triple_pure hP false fun _ hs => hs

theorem triple_userInput (typed : Str) :
    (contract w).Triple .input ∅ (fun _ => True) (userInput w.server w.user typed)
      fun _ _ => True := by
  have htrue := true_stable (w := w) .input
  unfold userInput
  split_ifs
  · exact triple_pure (htrue _) () fun _ _ => trivial
  · refine Triple.bind (triple_gets (htrue _) (fun _ => htrue _) fun s hs => hs) fun via => ?_
    split_ifs
    · exact triple_output (htrue _) fun s _ => ⟨trim typed, Or.inl rfl⟩
    · refine triple_withPeers htrue (fun _ => htrue) fun ps => ?_
      have hmem : Mutex.peers ∈ insert Mutex.peers (∅ : Set Mutex) := Set.mem_insert _ _
      have hinv := (htrue (insert .peers ∅)).and (stable_inv (c := contract w) hmem)
      have hall := hinv.and (peers_stable .input hmem ps)
      refine Triple.bind
        (triple_each hall fun p hp => triple_output hall fun s hs => ?_) fun _ => ?_
      · obtain ⟨hp, hdirect⟩ := List.mem_filter.mp hp
        refine ⟨trim typed, Or.inr ⟨p, ?_, (Bool.not_eq_true' _).mp hdirect, rfl⟩⟩
        rw [hs.2]
        exact hp
      · have hread := triple_readRelaysAndMirrors hinv (by simp)
        refine Triple.bind (hread.pre fun s hs => hs.1) fun mirrors => ?_
        exact triple_onlyIf mirrors hinv (fun _ s hs => hs) fun _ =>
          triple_output hinv fun s _ => ⟨trim typed, Or.inl rfl⟩

/-! ## The keepalive loop -/

theorem keepalive_stable {P : Shared → Prop} {held : Set Mutex}
    (hP : ∀ held' s s', MainMay held' s s' → P s → P s') :
    (contract w).Stable .keepalive held P := by
  refine stable_of fun j held' s s' hj _ hmay hs => ?_
  cases j with
  | main => exact hP held' s s' hmay hs
  | keepalive => exact absurd rfl hj
  | punching | input | heartbeat => exact hmay.elim

theorem lasting_stable (b : Bool) (held : Set Mutex) :
    (contract w).Stable .keepalive held (Lasting b) :=
  keepalive_stable fun _ _ _ h hs =>
    ⟨fun hb => h.isActive (hs.active hb), h.started.trans hs.started⟩

section Pass
variable (now : Instant)

/-- In a pass, with the table as it is by now. -/
def InPass (w : Started) (ps : List PeerInfo) (s : Shared) : Prop :=
  (Lasting true s ∧ (contract w).inv .peers s) ∧ s.me.peers = ps

theorem inPass_stable (ps : List PeerInfo) :
    (contract w).Stable .keepalive (insert .peers ∅) (InPass w ps) :=
  ((lasting_stable true _).and (stable_inv (Set.mem_insert _ _))).and
    (peers_stable .keepalive (Set.mem_insert _ _) ps)

theorem triple_tickPeer (pre rest : List PeerInfo) (p : PeerInfo) :
    (contract w).Triple .keepalive (insert .peers ∅) (InPass w (pre ++ p :: rest))
      (tickPeer now w.server w.serverId w.channel pre.length p)
      fun _ s => ∃ q, InPass w (pre ++ q :: rest) s := by
  have hpass := fun q => inPass_stable (w := w) (pre ++ q :: rest)
  have hend : ∀ (late : Bool) q, (contract w).Triple .keepalive (insert .peers ∅)
      (InPass w (pre ++ q :: rest)) (pure late) fun _ s => ∃ q, InPass w (pre ++ q :: rest) s :=
    fun late q => triple_pure (hpass q) late fun _ hs => ⟨q, hs⟩
  have hput : ∀ {q : PeerInfo} {d : Datagram}, q.useServerRelay = false →
      (d = tell q.addr msgPing.text ∨ d = handlePeerTimeout w.server w.serverId w.channel q ∨
        q.connected = false ∧ q.relayRequested = true ∧
          d = requestRelay w.server w.serverId w.channel q) →
      (contract w).Triple .keepalive (insert .peers ∅) (InPass w (pre ++ q :: rest)) (output d)
        fun _ => InPass w (pre ++ q :: rest) := by
    intro q d hdirect hd
    refine triple_output (hpass q) fun s hs => ⟨hs.1.1.active rfl, q, ?_, hdirect, hd⟩
    rw [hs.2]
    exact List.mem_append_right pre List.mem_cons_self
  unfold tickPeer
  split_ifs with hrelayed hlate
  · exact hend false p
  · have hdirect : p.useServerRelay = false := Bool.eq_false_of_not_eq_true hrelayed
    exact Triple.bind (hput hdirect (Or.inr (Or.inl rfl))) fun _ => hend true p
  · have hdirect : p.useServerRelay = false := Bool.eq_false_of_not_eq_true hrelayed
    refine Triple.bind (hput hdirect (Or.inl rfl)) fun _ => ?_
    refine Triple.bind (Q := fun _ s => ∃ q, InPass w (pre ++ q :: rest) s) ?_ fun _ =>
      triple_exists fun q => hend false q
    refine triple_onlyIf _ (hpass p) (fun _ s hs => ⟨p, hs⟩) fun hdue => ?_
    have hconnected : p.connected = false := by
      simp only [Bool.and_eq_true, Bool.not_eq_true', decide_eq_true_eq] at hdue
      exact hdue.1.1
    -- the entry is marked, and then asked for
    refine Triple.bind (Q := fun _ => InPass w (pre ++ { p with relayRequested := true } :: rest))
      (triple_modify (hpass p) (hpass _) (fun s _ => ?_) (fun s hs => ?_) fun s m _ hm => ?_)
      fun _ => (hput (q := { p with relayRequested := true }) hdirect
        (Or.inr (Or.inr ⟨hconnected, rfl, rfl⟩))).post fun _ s hs => ⟨_, hs⟩
    · exact ⟨⟨_, _, rfl⟩, Or.inr (Set.mem_insert _ _), Or.inl rfl⟩
    · refine ⟨⟨⟨hs.1.1.active, hs.1.1.started⟩, ?_⟩, ?_⟩
      · refine TableSound.of_forall₂ (hs.1.2 : TableSound w.user s.me.peers) ?_
        exact Vec.forall₂_modify (fun q => ⟨rfl, rfl, id⟩)
          (fun q => ⟨rfl, rfl, fun hq hrelayed => ⟨(hq hrelayed).1, rfl⟩⟩) _ _
      · change s.me.peers.modify pre.length _ = _
        rw [hs.2, Vec.modify_append_cons]
    · cases m <;> exact hm

theorem triple_tickEach (pre peers : List PeerInfo) :
    (contract w).Triple .keepalive (insert .peers ∅) (InPass w (pre ++ peers))
      (tickEach now w.server w.serverId w.channel pre.length peers)
      fun _ s => Lasting true s ∧ (contract w).inv .peers s := by
  induction peers generalizing pre with
  | nil => exact triple_pure (inPass_stable _) [] fun _ hs => hs.1
  | cons p peers ih =>
      refine (triple_tickPeer now pre peers p).bind fun late => triple_exists fun q => ?_
      have hrest := ih (pre ++ [q])
      rw [List.length_append, List.length_singleton, List.append_assoc, List.singleton_append]
        at hrest
      refine hrest.bind fun _ => triple_pure ?_ _ fun _ hs => hs
      exact (lasting_stable true _).and (stable_inv (Set.mem_insert _ _))

theorem triple_relayTick :
    (contract w).Triple .keepalive ∅ (Lasting true) (relayTick now w.server w.serverId w.channel)
      fun _ => Lasting true := by
  have hinv : (contract w).Stable .keepalive (insert .peers ∅)
      fun s => Lasting true s ∧ (contract w).inv .peers s :=
    (lasting_stable true _).and (stable_inv (Set.mem_insert _ _))
  refine triple_withPeers (lasting_stable true) (fun _ => lasting_stable true) fun ps => ?_
  refine (triple_tickEach now [] ps).bind fun toRemove => triple_each hinv fun i _ => ?_
  refine triple_modify hinv hinv (fun s _ => ?_) (fun s hs => ?_) fun s m _ hm => ?_
  · exact ⟨⟨_, _, rfl⟩, Or.inr (Set.mem_insert _ _), Or.inl rfl⟩
  · refine ⟨⟨hs.1.active, hs.1.started⟩, ?_⟩
    exact TableSound.of_sublist (hs.2 : TableSound w.user s.me.peers) (List.eraseIdx_sublist _ i)
  · cases m <;> exact hm

/-- Who is in `relay_main_loop` does not find the flag down. -/
theorem triple_readIsActive :
    (contract w).Triple .keepalive ∅ (Lasting true)
      (locked .relaySync (gets fun s => s.me.isActive))
      fun active s => Lasting true s ∧ active = true := by
  have hup : ∀ held (active : Bool), (contract w).Stable .keepalive held
      fun s => Lasting true s ∧ active = true := fun held active s s' hrely hs =>
    ⟨lasting_stable true held s s' hrely hs.1, hs.2⟩
  refine triple_locked (Set.notMem_empty _) (lasting_stable true _) (hup _) ?_
  have hmem := Set.mem_insert Mutex.relaySync (∅ : Set Mutex)
  refine triple_gets ((lasting_stable true _).and (stable_inv (c := contract w) hmem))
    (fun active => (hup _ active).and (stable_inv hmem)) fun s hs => ?_
  exact ⟨⟨hs.1, hs.1.active rfl⟩, hs.2⟩

theorem idle_stable (held : Set Mutex) :
    (contract w).Stable .keepalive held fun s => s.me.isActive = true ∧ s.relayStarted = false :=
  keepalive_stable fun _ _ _ h hs => ⟨h.isActive hs.1, h.started.trans hs.2⟩

/-- Nobody else has begun a `relay_main_loop`. -/
theorem triple_noteStarted :
    (contract w).Triple .keepalive ∅ (fun s => s.me.isActive = true ∧ s.relayStarted = false)
      (locked .relayStarted do
        let started ← gets fun s => s.relayStarted
        onlyIf (!started) (modify fun s => { s with relayStarted := true }))
      fun _ => Lasting true := by
  have hmem := Set.mem_insert Mutex.relayStarted (∅ : Set Mutex)
  have hboth := (idle_stable (insert .relayStarted ∅)).and (stable_inv (c := contract w) hmem)
  have hnot : ∀ started : Bool, (contract w).Stable .keepalive (insert .relayStarted ∅)
      fun s => ((s.me.isActive = true ∧ s.relayStarted = false) ∧
        (contract w).inv .relayStarted s) ∧ started = false :=
    fun started s s' hrely hs => ⟨hboth s s' hrely hs.1, hs.2⟩
  refine triple_locked (Set.notMem_empty _) (idle_stable _) (fun _ => lasting_stable true _) ?_
  refine Triple.bind (triple_gets hboth hnot fun s hs => ⟨hs, hs.1.2⟩) fun started => ?_
  refine triple_onlyIf _ (hnot started) (fun hskip s hs => ?_) fun _ => ?_
  · rw [hs.2] at hskip
    exact absurd hskip.symm Bool.false_ne_true
  · refine triple_modify (hnot started) ((lasting_stable true _).and (stable_inv hmem))
      (fun s _ => ?_) (fun s hs => ?_) fun s m _ hm => ?_
    · exact ⟨⟨s.me.peers, true, rfl⟩, Or.inl rfl, Or.inr ⟨hmem, rfl⟩⟩
    · exact ⟨⟨fun _ => hs.1.1.1, rfl⟩, trivial⟩
    · cases m <;> exact hm

theorem triple_relayKeepaliveLoop (inMainLoop : Bool) :
    (contract w).Triple .keepalive ∅ (Lasting inMainLoop)
      (relayKeepaliveLoop now w.server w.serverId w.channel inMainLoop) Lasting := by
  cases inMainLoop with
  | true =>
      refine triple_readIsActive.bind fun active => ?_
      cases active with
      | true =>
          refine Triple.bind ((triple_relayTick now).pre fun s hs => hs.1) fun _ => ?_
          refine Triple.bind (triple_nap (lasting_stable true _)) fun _ => ?_
          exact triple_pure (lasting_stable true _) true fun _ hs => hs
      | false => exact fun s hs => absurd hs.2 Bool.false_ne_true
  | false =>
      refine Triple.bind (triple_await (lasting_stable false _) (idle_stable _)
        (fun s hs => (Bool.not_eq_true' _).mp hs)
        fun s hs _ hcond => ⟨(Bool.not_eq_false' _).mp hcond, hs.started⟩) fun active => ?_
      cases active with
      | true =>
          exact triple_noteStarted.bind fun _ =>
            triple_pure (lasting_stable true _) true fun _ hs => hs
      | false => exact triple_pure (lasting_stable false _) false fun _ hs => hs

end Pass

end Code

/-! ## Together -/

/-- What is true between two rounds of a thread. -/
def Between : (i : Thread) → Kept i → Shared → Prop
  | .main, _ => Steady
  | .keepalive, inMainLoop => Lasting inMainLoop
  | .punching, _ | .input, _ | .heartbeat, _ => fun _ => True

section Together
variable (w : Started)

theorem triple_round (i : Thread) (a : Kept i) (l : Cue i) :
    (contract w).Triple i ∅ (Between i a) (round w i a l) (Between i) := by
  cases i with
  | main => exact Code.triple_mainLoop a l
  | punching => exact Code.triple_holePunchingLoop a
  | keepalive => exact Code.triple_relayKeepaliveLoop l a
  | input => exact Code.triple_userInput l
  | heartbeat => exact Contract.triple_output (Code.true_stable _ _) fun _ _ => rfl

theorem between_stable (i : Thread) (a : Kept i) : (contract w).Stable i ∅ (Between i a) := by
  cases i with
  | main => exact Code.steady_stable ∅
  | keepalive => exact Code.lasting_stable a ∅
  | punching | input | heartbeat => exact Code.true_stable _ ∅

theorem coherent_fresh : Coherent (contract w) Between (fun _ => ∅) (Running.fresh w) := by
  refine coherent_start (fun i => between_stable w i _) (fun i => ?_) fun m => ?_
  · cases i with
    | main =>
        exact ⟨⟨fun h => absurd h Bool.false_ne_true, fun h => absurd h Bool.false_ne_true⟩, rfl⟩
    | keepalive => exact ⟨fun h => absurd h Bool.false_ne_true, rfl⟩
    | punching | input | heartbeat => trivial
  · cases m with
    | peers => exact ⟨List.nodup_nil, fun p hp => absurd hp List.not_mem_nil,
        fun p hp => absurd hp List.not_mem_nil⟩
    | isRelay | relayStarted | punchSync | relaySync => trivial

theorem coherent_ran (as : List (Act Thread Cue)) :
    ∃ owed, Coherent (contract w) Between owed (ran w as) :=
  after_of_always _ as (coherent_always ⟨_, coherent_fresh w⟩ (triple_round w) as)

/-- What no thread may end stays so along a run. -/
theorem ran_kept {P : Shared → Prop} (hP : ∀ i held s s', May i held s s' → P s → P s')
    (as bs : List (Act Thread Cue)) (h : P (ran w as).value) : P (ran w (as ++ bs)).value := by
  rw [ran, after_append]
  change P (after _ (ran w as) bs).value
  have hboth : Always (Threads.act (round w))
      (fun t => (∃ owed, Coherent (contract w) Between owed t) ∧ P t.value) (ran w as) bs := by
    refine always_of_step (fun t a ht => ?_) bs ⟨coherent_ran w as, h⟩
    obtain ⟨⟨owed, hcoherent⟩, ht⟩ := ht
    exact ⟨hcoherent.act (triple_round w) a, hcoherent.kept hP a ht⟩
  exact (after_of_always _ bs hboth).2

theorem may_isRelay {i : Thread} {held : Set Mutex} {s s' : Shared} (h : May i held s s')
    (hs : s.me.isRelay = true) : s'.me.isRelay = true := by
  cases i with
  | main => exact h.isRelay.elim (·.trans hs) And.right
  | keepalive =>
      obtain ⟨peers, started, rfl⟩ := h.rest
      exact hs
  | punching | input | heartbeat => exact h.elim

theorem may_mirrors {i : Thread} {held : Set Mutex} {s s' : Shared} (h : May i held s s')
    (hs : s.me.channelHasServerRelays = true) : s'.me.channelHasServerRelays = true := by
  cases i with
  | main => exact h.mirrors.elim (·.trans hs) And.right
  | keepalive =>
      obtain ⟨peers, started, rfl⟩ := h.rest
      exact hs
  | punching | input | heartbeat => exact h.elim

theorem may_isActive {i : Thread} {held : Set Mutex} {s s' : Shared} (h : May i held s s')
    (hs : s.me.isActive = true) : s'.me.isActive = true := by
  cases i with
  | main => exact h.isActive hs
  | keepalive =>
      obtain ⟨peers, started, rfl⟩ := h.rest
      exact hs
  | punching | input | heartbeat => exact h.elim

theorem may_started {i : Thread} {held : Set Mutex} {s s' : Shared} (h : May i held s s')
    (hs : s.relayStarted = true) : s'.relayStarted = true := by
  cases i with
  | main => exact h.started.trans hs
  | keepalive => exact h.started.elim (·.trans hs) And.right
  | punching | input | heartbeat => exact h.elim

theorem may_ahead {i : Thread} {held : Set Mutex} {s s' : Shared} (h : May i held s s')
    (hs : Ahead s) : Ahead s' := by
  have hacts : s.me.acts = true → s'.me.acts = true := by
    intro hs
    refine Bool.or_eq_true_iff.mpr ((Bool.or_eq_true_iff.mp hs).imp ?_ ?_)
    · exact may_isRelay h
    · exact may_mirrors h
  cases i with
  | main =>
      refine ⟨fun hm => ?_, fun ha => ?_⟩
      · rcases h.mirrors with hsame | hrelay
        · exact may_isRelay h (hs.mirrors (hsame.symm.trans hm))
        · exact may_isRelay h hrelay.1
      · rcases h.active with hsame | hactive
        · exact hacts (hs.active (hsame.symm.trans ha))
        · exact hacts (hactive.2.1.symm.trans ha)
  | keepalive =>
      obtain ⟨peers, started, rfl⟩ := h.rest
      exact ⟨hs.mirrors, hs.active⟩
  | punching | input | heartbeat => exact h.elim

/-- **The invariants, with all threads at it.**  Whatever comes from outside, and however
the instructions of the threads follow each other: whenever nobody has the
table in hand it is sound; at every moment only a relay mirrors, and only one
that relays or mirrors is active; and between two datagrams exactly those who
send through the server do not punch. -/
theorem together_sound (as : List (Act Thread Cue)) :
    ((ran w as).owner .peers = none → TableSound w.user (ran w as).value.me.peers) ∧
      Ahead (ran w as).value ∧
      ∀ inSetup, (ran w as).prog .main = .done inSetup →
        (ran w as).value.me.sendViaServer = (ran w as).value.me.paused := by
  obtain ⟨owed, h⟩ := coherent_ran w as
  have hahead := ran_kept w (fun _ _ _ _ => may_ahead) [] as
    ⟨fun h => absurd h Bool.false_ne_true, fun h => absurd h Bool.false_ne_true⟩
  exact ⟨fun hfree => h.inv .peers hfree, hahead, fun _ hdone => (h.post_of_done hdone).2.via⟩

/-- **Who is sent to.**  What a thread is about to send is to an address that is in the
table at that very moment, for an entry that is what it has to be for that, or
it is to the server, or it is the answer to a `PING`. -/
theorem together_sends (as : List (Act Thread Cue)) {i : Thread} {d : Datagram}
    (hemits : (ran w as).Emits i d) : Puts w i (ran w as).value d := by
  obtain ⟨owed, h⟩ := coherent_ran w as
  exact h.puts hemits

/-- What a relay has been told by the server, and what is about to be sent on. -/
def relaying : List (Act Thread Cue) :=
  [.begin .main (.datagram 7 startedAnn.server (asBytes
    "MODE RELAY\nMODE DIRECT bob 10.0.0.7:4000\nDATA carl hello\n".toList))] ++
    List.replicate 17 (.step .main)

theorem together_sends_relaying :
    Puts startedAnn .main (ran startedAnn relaying).value
      (tell (.v4 ⟨10, 0, 0, 7⟩ 4000) "DATA carl hello".toList) :=
  together_sends startedAnn relaying (by decide +kernel)

/-- **Nobody sleeps over it.**  Who sleeps without a time, while nobody has the mutex,
sleeps because there is nothing to do: the punching loop because the client is
paused, the keepalive loop because it is not active. -/
theorem together_awake (as : List (Act Thread Cue)) :
    ((ran w as).asleep .punching = some (.punchSync, false) → (ran w as).owner .punchSync = none →
        (ran w as).value.me.paused = true) ∧
      ((ran w as).asleep .keepalive = some (.relaySync, false) →
        (ran w as).owner .relaySync = none → (ran w as).value.me.isActive = false) := by
  obtain ⟨owed, h⟩ := coherent_ran w as
  exact ⟨fun hsleeps hfree => h.waits hsleeps hfree, fun hsleeps hfree => h.waits hsleeps hfree⟩

/-- Ann's client is told to send through the server. -/
def pausing : List (Act Thread Cue) :=
  .begin .main (.datagram 7 startedAnn.server (asBytes "MODE SERVER_RELAY ann\n".toList)) ::
    List.replicate 14 (.step .main)

/-- Both loops look, and go to sleep. -/
def sleeping : List (Act Thread Cue) :=
  pausing ++ [.begin .punching (), .begin .keepalive (7 : Nat)] ++
    (List.replicate 3 [.step .punching, .step .keepalive]).flatten

theorem together_awake_sleeping :
    (ran startedAnn sleeping).value.me.paused = true ∧
      (ran startedAnn sleeping).value.me.isActive = false :=
  ⟨(together_awake startedAnn sleeping).1 (by decide +kernel) (by decide +kernel),
    (together_awake startedAnn sleeping).2 (by decide +kernel) (by decide +kernel)⟩

/-- **Once a relay, always a relay.**  None of the flags that start the keepalive loop is
ever taken back, and the loop, once it is in `relay_main_loop`, stays there: it
is never marked as stopped. -/
theorem together_lasts (as bs : List (Act Thread Cue)) :
    ((ran w as).value.me.isRelay = true → (ran w (as ++ bs)).value.me.isRelay = true) ∧
      ((ran w as).value.me.channelHasServerRelays = true →
        (ran w (as ++ bs)).value.me.channelHasServerRelays = true) ∧
      ((ran w as).value.me.isActive = true → (ran w (as ++ bs)).value.me.isActive = true) ∧
      ((ran w as).value.relayStarted = true → (ran w (as ++ bs)).value.relayStarted = true) ∧
      ∀ b : Bool, (ran w as).prog .keepalive = .done true →
        (ran w (as ++ bs)).prog .keepalive = .done b → b = true := by
  have hstarted := ran_kept w (fun _ _ _ _ => may_started) as bs
  refine ⟨ran_kept w (fun _ _ _ _ => may_isRelay) as bs,
    ran_kept w (fun _ _ _ _ => may_mirrors) as bs,
    ran_kept w (fun _ _ _ _ => may_isActive) as bs, hstarted, fun b hbefore hafter => ?_⟩
  obtain ⟨_, h⟩ := coherent_ran w as
  obtain ⟨_, h'⟩ := coherent_ran w (as ++ bs)
  have hin : Lasting true (ran w as).value := (h.post_of_done hbefore).2
  have hout : Lasting b (ran w (as ++ bs)).value := (h'.post_of_done hafter).2
  exact hout.started.symm.trans (hstarted hin.started)

theorem silent_holePunchingLoop (backoff : Backoff) :
    (Code.holePunchingLoop backoff).Silent fun s => s.me.paused = true := by
  intro s hs
  dsimp only
  rw [if_pos hs]
  trivial

/-- **A pause is kept.**  Once the punching loop is through with a pass, it punches nobody
for as long as the client is paused, however often it is woken. -/
theorem together_quiet (as bs : List (Act Thread Cue)) {b : Backoff}
    (hdone : (ran w as).prog .punching = .done b)
    (hpaused : Always (Threads.act (round w)) (fun t => t.value.me.paused = true) (ran w as) bs)
    (d : Datagram) : ¬ (ran w (as ++ bs)).Emits .punching d := by
  rw [ran, after_append]
  refine Threads.silent_after (P := fun s => s.me.paused = true)
    (fun a _ => silent_holePunchingLoop a) ?_ hpaused d
  change ((ran w as).prog .punching).Silent _
  rw [hdone]
  trivial

theorem together_quiet_pausing :
    ¬ (ran startedAnn (pausing ++ [.begin .punching (), .step .punching, .step .punching])).Emits
      .punching (tell startedAnn.server msgHolePunch.text) :=
  together_quiet startedAnn pausing [.begin .punching (), .step .punching, .step .punching]
    (b := (∅ : Backoff)) rfl (by decide +kernel) _

end Together

end NatPiercer.Client
