/-
# `Client.Contract` — what the threads of a client rely on

Nothing in the source says which thread may touch what.  But only the main
thread makes a client a relay, or mirrors, or acts, or pauses, and it takes none
of that back but the pause; the keepalive loop marks and removes entries, and
keeps a flag of its own; the others only look.  What is behind a mutex they
leave alone without it.

That is the `contract`.  Each program of `Client.Code` keeps to it
(`triple_round`), whatever the other threads do between its instructions, as
long as they do.
-/
import NatPiercer.Client.Threads

namespace NatPiercer.Client

open Text Utf8 Net Proto Signaling

/-! ## What is agreed on -/

/-- What a mutex guards. -/
def guards (user : Str) : Mutex → Shared → Prop
  | .peers, s => TableSound user s.me.peers
  | _, _ => True

/-- For as long as this is so, there is nothing to do for who sleeps there. -/
def idles : Mutex → Shared → Prop
  | .punchSync, s => s.me.paused = true
  | .relaySync, s => s.me.isActive = false
  | _, _ => True

/-- What the main thread may do. -/
structure MainMay (held : Set Mutex) (s s' : Shared) : Prop where
  user : s'.me.user = s.me.user
  started : s'.relayStarted = s.relayStarted
  peers : s'.me.peers = s.me.peers ∨ .peers ∈ held
  isRelay : s'.me.isRelay = s.me.isRelay ∨ .isRelay ∈ held ∧ s'.me.isRelay = true
  mirrors : s'.me.channelHasServerRelays = s.me.channelHasServerRelays ∨
    s.me.isRelay = true ∧ s'.me.channelHasServerRelays = true
  paused : s'.me.paused = s.me.paused ∨ .punchSync ∈ held
  active : s'.me.isActive = s.me.isActive ∨
    .relaySync ∈ held ∧ s'.me.isActive = s.me.acts ∧
      (s.me.isActive = true → s'.me.isActive = true)

/-- What the keepalive loop may do. -/
structure KeepaliveMay (held : Set Mutex) (s s' : Shared) : Prop where
  rest : ∃ peers started, s' = ⟨{ s.me with peers := peers }, started⟩
  peers : s'.me.peers = s.me.peers ∨ .peers ∈ held
  started : s'.relayStarted = s.relayStarted ∨ .relayStarted ∈ held ∧ s'.relayStarted = true

/-- The others change nothing. -/
def May : Thread → Set Mutex → Shared → Shared → Prop
  | .main => MainMay
  | .keepalive => KeepaliveMay
  | .punching | .input | .heartbeat => fun _ _ _ => False

/-- What a thread may send, with the variables as they are at that moment. -/
def Puts (w : Started) : Thread → Shared → Datagram → Prop
  | .main, s, d =>
      d.payload = asBytes msgPong.text ∨
        s.me.isRelay = true ∧ ((∃ p ∈ s.me.peers, d.dst = p.addr) ∨
          d.dst = w.server ∧ s.me.channelHasServerRelays = true)
  | .punching, s, d => ∃ p ∈ s.me.peers, settled p = false ∧ d = holePunch p
  | .keepalive, s, d =>
      s.me.isActive = true ∧ ∃ p ∈ s.me.peers, p.useServerRelay = false ∧
        (d = tell p.addr msgPing.text ∨ d = handlePeerTimeout w.server w.serverId w.channel p ∨
          p.connected = false ∧ p.relayRequested = true ∧ d = requestRelay w.server w.serverId w.channel p)
  | .input, s, d =>
      ∃ message, d = tell w.server (dataLine w.user message ++ ['\n']) ∨
        ∃ p ∈ s.me.peers, p.useServerRelay = false ∧
          d = tell p.addr (dataLine w.user message ++ ['\n'])
  | .heartbeat, _, d => d = tell w.server (hbText w.serverId.text w.channel.text w.user)

theorem may_peers {i : Thread} {held : Set Mutex} {s s' : Shared} (h : May i held s s')
    (hm : .peers ∉ held) : s'.me.peers = s.me.peers := by
  cases i with
  | main => exact h.peers.resolve_right hm
  | keepalive => exact h.peers.resolve_right hm
  | punching | input | heartbeat => exact h.elim

def contract (w : Started) : Contract Thread Mutex Shared Datagram where
  inv := guards w.user
  waits := idles
  may := May
  puts := Puts w
  keeps := by
    intro i held s s' m h hm
    constructor
    · cases m with
      | peers =>
          intro hsound
          change TableSound w.user s'.me.peers
          rw [may_peers h hm]
          exact hsound
      | isRelay | relayStarted | punchSync | relaySync => exact id
    · cases m with
      | punchSync =>
          intro hpaused
          cases i with
          | main => exact (h.paused.resolve_right hm).trans hpaused
          | keepalive =>
              obtain ⟨peers, started, rfl⟩ := h.rest
              exact hpaused
          | punching | input | heartbeat => exact h.elim
      | relaySync =>
          intro hidle
          cases i with
          | main => exact (h.active.resolve_right fun hactive => hm hactive.1).trans hidle
          | keepalive =>
              obtain ⟨peers, started, rfl⟩ := h.rest
              exact hidle
          | punching | input | heartbeat => exact h.elim
      | peers | isRelay | relayStarted => exact id

/-! ## Tables -/

section Table
variable {user : Str} {peers qs : List PeerInfo}

theorem TableSound.of_sublist (h : TableSound user peers) (hsub : qs.Sublist peers) :
    TableSound user qs where
  distinct := h.distinct.sublist (hsub.map PeerInfo.addr)
  others p hp := h.others p (hsub.subset hp)
  leftAlone p hp := h.leftAlone p (hsub.subset hp)

/-- Entry by entry. -/
theorem TableSound.of_forall₂ (h : TableSound user peers)
    (hkept : List.Forall₂ EntryKept peers qs) : TableSound user qs where
  distinct := by
    have haddr : qs.map PeerInfo.addr = peers.map PeerInfo.addr := by
      clear h
      induction hkept with
      | nil => rfl
      | cons hpq _ ih => rw [List.map_cons, List.map_cons, hpq.addr, ih]
    rw [haddr]
    exact h.distinct
  others q hq := by
    obtain ⟨p, hp, hpq⟩ := Vec.exists_of_forall₂ hkept q hq
    rw [hpq.username]
    exact h.others p hp
  leftAlone q hq := by
    obtain ⟨p, hp, hpq⟩ := Vec.exists_of_forall₂ hkept q hq
    exact hpq.leftAlone (h.leftAlone p hp)

end Table

/-! ## The main thread -/

section Main
variable {w : Started} {held : Set Mutex}

/-- All but the table and the flag of the keepalive loop are the main thread's alone.
-/
theorem main_stable {P : Shared → Prop}
    (hP : ∀ (s : Shared) peers started, P s → P ⟨{ s.me with peers := peers }, started⟩) :
    (contract w).Stable .main held P := by
  refine Contract.stable_of fun j held' s s' hj _ hmay hs => ?_
  cases j with
  | main => exact absurd rfl hj
  | keepalive =>
      obtain ⟨peers, started, rfl⟩ := hmay.rest
      exact hP s peers started hs
  | punching | input | heartbeat => exact hmay.elim

/-- And with its mutex in hand the table is. -/
theorem main_stable_held (hm : .peers ∈ held) {P : Shared → Prop}
    (hP : ∀ (s : Shared) started, P s → P ⟨s.me, started⟩) :
    (contract w).Stable .main held P := by
  refine Contract.stable_of fun j held' s s' hj hdisjoint hmay hs => ?_
  cases j with
  | main => exact absurd rfl hj
  | keepalive =>
      have hpeers := hmay.peers.resolve_right (hdisjoint _ hm)
      obtain ⟨peers, started, rfl⟩ := hmay.rest
      rw [show peers = s.me.peers from hpeers]
      exact hP s started hs
  | punching | input | heartbeat => exact hmay.elim

/-- Only a relay mirrors, and what is active has to be. -/
structure Ahead (s : Shared) : Prop where
  mirrors : s.me.channelHasServerRelays = true → s.me.isRelay = true
  active : s.me.isActive = true → s.me.acts = true

/-- And what is sent through the server alone is not punched for. -/
structure Steady (s : Shared) : Prop extends Ahead s where
  via : s.me.sendViaServer = s.me.paused

theorem Ahead.over {s : Shared} (h : Ahead s) (peers : List PeerInfo) (started : Bool) :
    Ahead ⟨{ s.me with peers := peers }, started⟩ := ⟨h.mirrors, h.active⟩

theorem Steady.over {s : Shared} (h : Steady s) (peers : List PeerInfo) (started : Bool) :
    Steady ⟨{ s.me with peers := peers }, started⟩ := ⟨h.toAhead.over peers started, h.via⟩

end Main

namespace Code

open Prog Contract

theorem triple_onlyIf {w : Started} {i : Thread} {held : Set Mutex} {P R : Shared → Prop}
    {p : Code Unit} (b : Bool) (hP : (contract w).Stable i held P)
    (hskip : b = false → ∀ s, P s → R s)
    (hp : b = true → (contract w).Triple i held P p fun _ => R) :
    (contract w).Triple i held P (onlyIf b p) fun _ => R := by
  cases b with
  | true => exact hp rfl
  | false => exact triple_pure hP () (hskip rfl)

section Main
variable {w : Started}

/-- What a relay has read of itself stays so. -/
theorem triple_readIsRelay :
    (contract w).Triple .main ∅ Steady readIsRelay fun r s =>
      Steady s ∧ r = s.me.isRelay := by
  refine triple_locked (Set.notMem_empty _) (main_stable fun _ ps b h => h.over ps b)
    (fun r => main_stable fun _ ps b h => ⟨h.1.over ps b, h.2⟩) ?_
  refine triple_gets (main_stable fun _ ps b h => ⟨h.1.over ps b, h.2⟩)
    (fun r => main_stable fun _ ps b h => ⟨⟨h.1.1.over ps b, h.1.2⟩, h.2⟩) fun s hs => ?_
  exact ⟨⟨hs.1, rfl⟩, hs.2⟩

theorem triple_noteServerRelays :
    (contract w).Triple .main ∅ Steady noteServerRelays fun _ => Steady := by
  have hrelay : ∀ r, (contract w).Stable .main ∅
      fun s => Steady s ∧ r = s.me.isRelay :=
    fun r => main_stable fun _ ps b h => ⟨h.1.over ps b, h.2⟩
  refine triple_readIsRelay.bind fun r => triple_onlyIf r (hrelay r) (fun _ s hs => hs.1) ?_
  rintro rfl
  refine Triple.bind (triple_gets (hrelay true) (fun _ => hrelay true) fun s hs => hs)
    fun mirrors => triple_onlyIf _ (hrelay true) (fun _ s hs => hs.1) fun _ => ?_
  refine triple_modify (hrelay true) (main_stable fun _ ps b h => h.over ps b) (fun s hs => ?_)
    (fun s hs => ?_) fun s m hs hm => ?_
  · exact ⟨rfl, rfl, Or.inl rfl, Or.inl rfl, Or.inr ⟨hs.2.symm, rfl⟩, Or.inl rfl, Or.inl rfl⟩
  · refine ⟨⟨fun _ => hs.2.symm, fun _ => ?_⟩, hs.1.via⟩
    exact Bool.or_eq_true_iff.mpr (Or.inl hs.2.symm)
  · cases m <;> exact hm

/-- The assignments to an entry are over before anybody sees the table. -/
theorem triple_onFirst {q : PeerInfo → Bool} {fs : List (PeerInfo → PeerInfo)}
    (hq : ∀ f ∈ fs, ∀ p, q (f p) = q p)
    (hfs : ∀ p, EntryKept p (fs.foldl (fun p f => f p) p)) :
    (contract w).Triple .main ∅ Steady (onFirst q fs) fun _ => Steady := by
  have hsame : ∀ ps : List PeerInfo, (contract w).Stable .main (insert .peers ∅)
      fun s => Steady s ∧ s.me.peers = ps :=
    fun ps => main_stable_held (Set.mem_insert _ _) fun s b h => ⟨h.1.over s.me.peers b, h.2⟩
  have hloop : ∀ (fs : List (PeerInfo → PeerInfo)) ps, (contract w).Triple .main (insert .peers ∅)
      (fun s => Steady s ∧ s.me.peers = ps)
      (each fs fun f => assign fun me => { me with peers := Vec.modifyFirst q f me.peers })
      fun _ s => Steady s ∧ s.me.peers = fs.foldl (fun ps f => Vec.modifyFirst q f ps) ps := by
    intro fs
    induction fs with
    | nil => exact fun ps => triple_pure (hsame ps) () fun _ hs => hs
    | cons f fs ih =>
        intro ps
        refine Triple.bind (triple_modify (hsame ps) (hsame _) (fun s _ => ?_) (fun s hs => ?_)
          fun s m _ hm => ?_) fun _ => ih (Vec.modifyFirst q f ps)
        · exact ⟨rfl, rfl, Or.inr (Set.mem_insert _ _), Or.inl rfl, Or.inl rfl, Or.inl rfl,
            Or.inl rfl⟩
        · exact ⟨hs.1.over _ _, congrArg (Vec.modifyFirst q f) hs.2⟩
        · cases m <;> exact hm
  refine triple_locked (Set.notMem_empty _) (main_stable fun _ ps b h => h.over ps b)
    (fun _ => main_stable fun _ ps b h => h.over ps b) fun s hs => ?_
  refine wp_mono ?_ (hloop fs s.me.peers s ⟨hs.1, rfl⟩)
  rintro h _ s' ⟨hhand, hsteady, hpeers⟩
  refine ⟨hhand, hsteady, ?_⟩
  change TableSound w.user s'.me.peers
  rw [hpeers, Vec.foldl_modifyFirst hq]
  exact TableSound.first hs.2 q hfs

/-- A change of the table that keeps it sound. -/
theorem triple_assign_peers {P : Shared → Prop} {f : List PeerInfo → List PeerInfo}
    (hP : (contract w).Stable .main (insert .peers ∅) P)
    (hsteady : ∀ s, P s → Steady s) (hf : ∀ s, P s → TableSound w.user (f s.me.peers)) :
    (contract w).Triple .main (insert .peers ∅) P
      (assign fun me => { me with peers := f me.peers })
      fun _ s => Steady s ∧ (contract w).inv .peers s := by
  refine triple_modify hP ((main_stable fun _ ps b h => h.over ps b).and
    (stable_inv (Set.mem_insert _ _))) (fun s _ => ?_) (fun s hs => ?_) fun s m _ hm => ?_
  · exact ⟨rfl, rfl, Or.inr (Set.mem_insert _ _), Or.inl rfl, Or.inl rfl, Or.inl rfl, Or.inl rfl⟩
  · exact ⟨(hsteady s hs).over _ _, hf s hs⟩
  · cases m <;> exact hm

theorem steady_stable (held : Set Mutex) : (contract w).Stable .main held Steady :=
  main_stable fun _ ps b h => h.over ps b

theorem triple_handleModeDirect (now : Instant) (username addrStr : Token) :
    (contract w).Triple .main ∅ Steady (handleModeDirect w.user now username addrStr)
      fun _ => Steady := by
  unfold handleModeDirect
  split
  · rename_i addr _
    have hinv : (contract w).Stable .main (insert .peers ∅)
        fun s => Steady s ∧ (contract w).inv .peers s :=
      (steady_stable _).and (stable_inv (Set.mem_insert _ _))
    refine triple_locked (Set.notMem_empty _) (steady_stable _) (fun _ => steady_stable _) ?_
    split_ifs with hself
    · exact triple_pure hinv () fun _ hs => hs
    · have hthere : ∀ there, (contract w).Stable .main (insert .peers ∅) fun s =>
          (Steady s ∧ (contract w).inv .peers s) ∧
            there = s.me.peers.any fun p => p.addr = addr := fun there =>
        hinv.and (main_stable_held (Set.mem_insert _ _) fun _ _ h => h)
      refine Triple.bind (triple_gets hinv hthere fun s hs => ⟨hs, rfl⟩) fun there => ?_
      refine triple_onlyIf _ (hthere there) (fun _ s hs => hs.1) fun hfree => ?_
      refine triple_assign_peers (f := fun ps => ps ++ [newPeer now username addr]) (hthere there)
        (fun s hs => hs.1.1) fun s hs => ?_
      have hnot : (s.me.peers.any fun p => p.addr = addr) = false := by
        rw [← hs.2]
        exact (Bool.not_eq_true' there).mp hfree
      have hnew := TableSound.insert (hs.1.2 : TableSound w.user s.me.peers) now addr hself
      rwa [hnot, if_neg Bool.false_ne_true] at hnew
  · exact triple_pure (steady_stable _) () fun _ hs => hs

theorem triple_handleUserLeft (username : Token) :
    (contract w).Triple .main ∅ Steady (handleUserLeft username) fun _ => Steady := by
  refine triple_locked (Set.notMem_empty _) (steady_stable _) (fun _ => steady_stable _) ?_
  refine triple_assign_peers (f := fun ps => ps.filter fun p => p.username ≠ username)
    ((steady_stable _).and (stable_inv (Set.mem_insert _ _))) (fun s hs => hs.1) fun s hs => ?_
  exact TableSound.of_sublist hs.2 List.filter_sublist

theorem triple_handleModeRelay :
    (contract w).Triple .main ∅ Steady handleModeRelay fun _ => Steady := by
  have hsteady : (contract w).Stable .main (insert .isRelay ∅)
      fun s => Steady s ∧ (contract w).inv .isRelay s :=
    (steady_stable _).and (stable_inv (Set.mem_insert _ _))
  refine triple_locked (Set.notMem_empty _) (steady_stable _) (fun _ => steady_stable _) ?_
  refine Triple.bind (triple_gets hsteady (fun _ => hsteady) fun s hs => hs) fun r => ?_
  refine triple_onlyIf _ hsteady (fun _ s hs => hs) fun _ => ?_
  refine triple_modify hsteady hsteady (fun s _ => ?_) (fun s hs => ?_) fun s m _ hm => ?_
  · exact ⟨rfl, rfl, Or.inl rfl, Or.inr ⟨Set.mem_insert _ _, rfl⟩, Or.inl rfl, Or.inl rfl,
      Or.inl rfl⟩
  · exact ⟨⟨⟨fun _ => rfl, fun _ => rfl⟩, hs.1.via⟩, hs.2⟩
  · cases m <;> exact hm

theorem triple_handleModeServerRelay (username : Token) :
    (contract w).Triple .main ∅ Steady (handleModeServerRelay w.user username)
      fun _ => Steady := by
  unfold handleModeServerRelay
  split_ifs
  · exact triple_pure (steady_stable _) () fun _ hs => hs
  · refine triple_noteServerRelays.bind fun _ => triple_onFirst ?_ fun p => ?_
    · simp
    · exact ⟨rfl, rfl, fun _ _ => ⟨rfl, rfl⟩⟩

theorem triple_handleModeLine (now : Instant) (line : Str) :
    (contract w).Triple .main ∅ Steady (handleModeLine w.user now line) fun _ => Steady := by
  have hnothing : (contract w).Triple .main ∅ Steady (pure ()) fun _ => Steady :=
    triple_pure (steady_stable _) () fun _ hs => hs
  unfold handleModeLine
  split
  · exact hnothing
  · split_ifs
    · split
      · exact hnothing
      · split_ifs
        · exact triple_handleModeRelay
        · split
          · exact triple_handleModeServerRelay _
          · exact hnothing
        · split
          · exact triple_handleModeDirect now _ _
          · exact hnothing
        · exact hnothing
    · split
      · exact triple_handleUserLeft _
      · exact hnothing
    · exact hnothing

theorem triple_ensureConnected (now : Instant) {q : PeerInfo → Bool}
    (hq : ∀ (p : PeerInfo) c l, q { p with connected := c, lastPong := l } = q p) :
    (contract w).Triple .main ∅ Steady (ensureConnected now q) fun _ => Steady := by
  refine triple_onFirst ?_ fun p => ?_
  · simp only [List.forall_mem_cons, List.not_mem_nil, false_implies, implies_true, and_true]
    exact ⟨fun p => hq p p.connected now, fun p => hq p true p.lastPong⟩
  · exact ⟨rfl, rfl, fun hp hrelayed => ⟨rfl, (hp hrelayed).2⟩⟩

/-- What a relay sends on goes to those who are in the table when it is sent. -/
theorem triple_handleRelayMessageToPeers (sender message : Str) :
    (contract w).Triple .main ∅ (fun s => Steady s ∧ s.me.isRelay = true)
      (handleRelayMessageToPeers sender message)
      fun _ s => Steady s ∧ s.me.isRelay = true := by
  have hrelay : ∀ held, (contract w).Stable .main held fun s => Steady s ∧ s.me.isRelay = true :=
    fun _ => main_stable fun _ ps b h => ⟨h.1.over ps b, h.2⟩
  have hboth : (contract w).Stable .main (insert .peers ∅)
      fun s => (Steady s ∧ s.me.isRelay = true) ∧ (contract w).inv .peers s :=
    (hrelay _).and (stable_inv (Set.mem_insert _ _))
  have hsame : ∀ ps : List PeerInfo, (contract w).Stable .main (insert .peers ∅) fun s =>
      ((Steady s ∧ s.me.isRelay = true) ∧ (contract w).inv .peers s) ∧ s.me.peers = ps :=
    fun ps => hboth.and (main_stable_held (Set.mem_insert _ _) fun _ _ h => h)
  refine triple_locked (Set.notMem_empty _) (hrelay _) (fun _ => hrelay _) ?_
  refine Triple.bind (triple_gets hboth hsame fun s hs => ⟨hs, rfl⟩) fun ps => ?_
  refine (triple_each (hsame ps) fun p hp => ?_).post fun _ s hs => hs.1
  refine triple_output (hsame ps) fun s hs => Or.inr ⟨hs.1.1.2, Or.inl ⟨p, ?_, rfl⟩⟩
  rw [hs.2]
  exact (List.mem_filter.mp hp).1

theorem triple_handleDataMessage (now : Instant) (line : Str) :
    (contract w).Triple .main ∅ Steady (handleDataMessage now w.server line) fun _ => Steady := by
  have hrelay : (contract w).Stable .main ∅ fun s => Steady s ∧ s.me.isRelay = true :=
    main_stable fun _ ps b h => ⟨h.1.over ps b, h.2⟩
  have hmirrors : ∀ mirrors, (contract w).Stable .main ∅ fun s =>
      (Steady s ∧ s.me.isRelay = true) ∧ (mirrors = true → s.me.channelHasServerRelays = true) :=
    fun _ => main_stable fun _ ps b h => ⟨⟨h.1.1.over ps b, h.1.2⟩, h.2⟩
  unfold handleDataMessage
  split_ifs
  · split
    · refine Triple.bind (triple_ensureConnected now fun _ _ _ => rfl) fun _ => ?_
      refine triple_readIsRelay.bind fun r => triple_onlyIf r (main_stable fun _ ps b h =>
        ⟨h.1.over ps b, h.2⟩) (fun _ s hs => hs.1) ?_
      rintro rfl
      refine Triple.bind ((triple_handleRelayMessageToPeers _ _).pre fun s hs => ⟨hs.1, hs.2.symm⟩)
        fun _ => ?_
      refine Triple.bind (triple_gets hrelay hmirrors fun s hs => ⟨hs, id⟩) fun mirrors => ?_
      refine triple_onlyIf mirrors (hmirrors mirrors) (fun _ s hs => hs.1.1) fun hm => ?_
      exact (triple_output (hmirrors mirrors) fun s hs =>
        Or.inr ⟨hs.1.2, Or.inr ⟨rfl, hs.2 hm⟩⟩).post fun _ s hs => hs.1.1
    · exact triple_pure (steady_stable _) () fun _ hs => hs
  · exact triple_pure (steady_stable _) () fun _ hs => hs

theorem triple_processIncomingMessage (now : Instant) (message : Str) (src : SocketAddr) :
    (contract w).Triple .main ∅ Steady (processIncomingMessage w.user now w.server message src)
      fun _ => Steady := by
  refine triple_each (steady_stable _) fun line _ => ?_
  split_ifs
  · exact triple_pure (steady_stable _) () fun _ hs => hs
  · unfold processLine
    split_ifs
    · exact triple_output (steady_stable _) fun s _ => Or.inl rfl
    · refine triple_onFirst ?_ fun p => ⟨rfl, rfl, id⟩
      simp
    · exact triple_ensureConnected now fun _ _ _ => rfl
    · exact triple_handleDataMessage now _
    · exact triple_handleModeLine now _

theorem triple_tryHandleWelcome (text : Str) :
    (contract w).Triple .main ∅ Steady (tryHandleWelcome text) fun _ => Steady := by
  have hnothing : (contract w).Triple .main ∅ Steady (pure ()) fun _ => Steady :=
    triple_pure (steady_stable _) () fun _ hs => hs
  have hassign : ∀ (cid : Client → UInt64) (pid : Client → UInt32),
      (contract w).Triple .main ∅ Steady
        (assign fun me => { me with channelId := cid me, myPeerId := pid me })
        fun _ => Steady := by
    intro cid pid
    refine triple_modify (steady_stable _) (steady_stable _) (fun s _ => ?_) (fun s hs => ?_)
      fun s m _ hm => ?_
    · exact ⟨rfl, rfl, Or.inl rfl, Or.inl rfl, Or.inl rfl, Or.inl rfl, Or.inl rfl⟩
    · exact ⟨⟨hs.mirrors, hs.active⟩, hs.via⟩
    · cases m <;> exact hm
  refine triple_each (steady_stable _) fun line _ => ?_
  unfold welcomeLine
  split
  · split_ifs
    · split
      · rename_i cid pid _ _
        exact Triple.bind (hassign (fun _ => .ofNat cid) Client.myPeerId)
          fun _ => hassign Client.channelId fun _ => .ofNat pid
      · exact hnothing
    · exact hnothing
  · exact hnothing

/-! ### `src/bin/client.rs` -/

theorem acts_stable (held : Set Mutex) (active : Bool) :
    (contract w).Stable .main held fun s => Steady s ∧ active = s.me.acts :=
  main_stable fun _ ps b h => ⟨h.1.over ps b, h.2⟩

theorem triple_readActs :
    (contract w).Triple .main ∅ Steady readActs fun active s => Steady s ∧ active = s.me.acts := by
  have hr : ∀ r, (contract w).Stable .main ∅ fun s => Steady s ∧ r = s.me.isRelay :=
    fun _ => main_stable fun _ ps b h => ⟨h.1.over ps b, h.2⟩
  refine triple_readIsRelay.bind fun r => ?_
  split_ifs with hrelay
  · refine triple_pure (hr r) true fun s hs => ⟨hs.1, ?_⟩
    rw [acts, ← hs.2, hrelay]
    rfl
  · refine triple_gets (hr r) (acts_stable _) fun s hs => ⟨hs.1, ?_⟩
    rw [acts, ← hs.2, Bool.eq_false_of_not_eq_true hrelay]
    rfl

/-- What the main thread makes of the two flags is still so when it writes it down, and
the keepalive loop is told. -/
theorem triple_updateRelayIsActive :
    (contract w).Triple .main ∅ Steady updateRelayIsActive fun _ => Steady := by
  refine triple_readActs.bind fun active => triple_locked (Set.notMem_empty _)
    (acts_stable _ active) (fun _ => steady_stable _) ?_
  have hinv : (contract w).Stable .main (insert .relaySync ∅)
      fun s => (Steady s ∧ active = s.me.acts) ∧ (contract w).inv .relaySync s :=
    (acts_stable _ active).and (stable_inv (Set.mem_insert _ _))
  refine Triple.bind (triple_gets hinv (fun _ => hinv) fun s hs => hs) fun before => ?_
  refine triple_onlyIf _ hinv (fun _ s hs => ⟨hs.1.1, hs.2⟩) fun _ => ?_
  refine triple_signal hinv ((steady_stable _).and (stable_inv (Set.mem_insert _ _)))
    (fun s hs => ?_) (fun s hs => ?_) fun s m hm hs hidle => ?_
  · refine ⟨rfl, rfl, Or.inl rfl, Or.inl rfl, Or.inl rfl, Or.inl rfl,
      Or.inr ⟨Set.mem_insert _ _, hs.1.2, fun hactive => ?_⟩⟩
    exact hs.1.2.trans (hs.1.1.active hactive)
  · exact ⟨⟨⟨hs.1.1.mirrors, fun hactive => hs.1.2.symm.trans hactive⟩, hs.1.1.via⟩, trivial⟩
  · cases m with
    | relaySync => exact absurd rfl hm
    | punchSync | peers | isRelay | relayStarted => exact hidle

theorem ahead_stable (b : Bool) (held : Set Mutex) :
    (contract w).Stable .main held fun s => Ahead s ∧ s.me.sendViaServer = b :=
  main_stable fun _ ps c h => ⟨h.1.over ps c, h.2⟩

theorem triple_setSendViaServer (b : Bool) :
    (contract w).Triple .main ∅ Steady (setSendViaServer b)
      fun _ s => Ahead s ∧ s.me.sendViaServer = b := by
  have hbefore : ∀ before, (contract w).Stable .main ∅
      fun s => Ahead s ∧ before = s.me.sendViaServer :=
    fun _ => main_stable fun _ ps c h => ⟨h.1.over ps c, h.2⟩
  refine Triple.bind (triple_gets (steady_stable _) hbefore fun s hs => ⟨hs.toAhead, rfl⟩)
    fun before => ?_
  refine triple_onlyIf _ (hbefore before) (fun heq s hs => ⟨hs.1, ?_⟩) fun _ => ?_
  · rw [← hs.2]
    exact bne_eq_false_iff_eq.mp heq
  · refine triple_modify (hbefore before) (ahead_stable b ∅) (fun s _ => ?_) (fun s hs => ?_)
      fun s m _ hm => ?_
    · exact ⟨rfl, rfl, Or.inl rfl, Or.inl rfl, Or.inl rfl, Or.inl rfl, Or.inl rfl⟩
    · exact ⟨⟨hs.1.mirrors, hs.1.active⟩, rfl⟩
    · cases m <;> exact hm

theorem triple_setPaused (b : Bool) :
    (contract w).Triple .main ∅ (fun s => Ahead s ∧ s.me.sendViaServer = b) (setPaused b)
      fun _ => Steady := by
  refine triple_locked (Set.notMem_empty _) (ahead_stable b _) (fun _ => steady_stable _) ?_
  have hinv : (contract w).Stable .main (insert .punchSync ∅)
      fun s => (Ahead s ∧ s.me.sendViaServer = b) ∧ (contract w).inv .punchSync s :=
    (ahead_stable b _).and (stable_inv (Set.mem_insert _ _))
  have hpaused : ∀ before, (contract w).Stable .main (insert .punchSync ∅) fun s =>
      ((Ahead s ∧ s.me.sendViaServer = b) ∧ (contract w).inv .punchSync s) ∧
        before = s.me.paused :=
    fun _ => hinv.and (main_stable fun _ _ _ h => h)
  refine Triple.bind (triple_gets hinv hpaused fun s hs => ⟨hs, rfl⟩) fun before => ?_
  refine triple_onlyIf _ (hpaused before) (fun heq s hs => ⟨⟨hs.1.1.1, ?_⟩, hs.1.2⟩) fun _ => ?_
  · rw [hs.1.1.2, ← hs.2]
    exact (bne_eq_false_iff_eq.mp heq).symm
  · refine triple_signal (hpaused before) ((steady_stable _).and (stable_inv (Set.mem_insert _ _)))
      (fun s _ => ?_) (fun s hs => ?_) fun s m hm _ hidle => ?_
    · exact ⟨rfl, rfl, Or.inl rfl, Or.inl rfl, Or.inl rfl, Or.inr (Set.mem_insert _ _), Or.inl rfl⟩
    · exact ⟨⟨⟨hs.1.1.1.mirrors, hs.1.1.1.active⟩, hs.1.1.2⟩, trivial⟩
    · cases m with
      | punchSync => exact absurd rfl hm
      | relaySync | peers | isRelay | relayStarted => exact hidle

/-- To send through the server and to stop punching are one. -/
theorem triple_setBoth (b : Bool) :
    (contract w).Triple .main ∅ Steady
      (do
        setSendViaServer b
        setPaused b : Code Unit)
      fun _ => Steady :=
  (triple_setSendViaServer b).bind fun _ => triple_setPaused b

theorem triple_processServerResponse (response : Str) :
    (contract w).Triple .main ∅ Steady (processServerResponse w.user response)
      fun _ => Steady := by
  have hsteady := steady_stable (w := w) ∅
  unfold processServerResponse
  split_ifs
  · refine triple_each hsteady fun line _ => ?_
    refine Triple.bind (triple_onlyIf _ hsteady (fun _ s hs => hs) fun _ => triple_setBoth false)
      fun _ => triple_onlyIf _ hsteady (fun _ s hs => hs) fun _ => ?_
    split
    · split_ifs
      · exact triple_setBoth true
      · exact triple_noteServerRelays
    · exact triple_pure hsteady () fun _ hs => hs
  · exact triple_pure hsteady () fun _ hs => hs

section Receive
variable (now : Instant) (src : SocketAddr)

theorem triple_receive (bytes : Bytes) :
    (contract w).Triple .main ∅ Steady (receive w.user now w.server src bytes)
      fun _ => Steady := by
  have hincoming := fun s => triple_processIncomingMessage (w := w) now s src
  unfold receive
  split
  · exact (triple_tryHandleWelcome _).bind fun _ => hincoming _
  · exact triple_pure (steady_stable _) () fun _ hs => hs
  · unfold receiveText
    split_ifs
    · exact (hincoming _).bind fun _ =>
        (triple_processServerResponse _).bind fun _ => triple_updateRelayIsActive
    · exact Triple.bind (triple_ensureConnected now fun _ _ _ => rfl) fun _ =>
        (hincoming _).bind fun _ => triple_updateRelayIsActive

theorem triple_setupText (s : Str) :
    (contract w).Triple .main ∅ Steady (setupText w.user now w.server src s)
      fun _ => Steady := by
  have hincoming := triple_processIncomingMessage (w := w) now s src
  unfold setupText
  split_ifs
  · exact hincoming.bind fun _ => (triple_processServerResponse s).bind fun _ =>
      triple_updateRelayIsActive.bind fun _ =>
        triple_pure (steady_stable _) _ fun _ hs => hs
  · exact Triple.bind (triple_ensureConnected now fun _ _ _ => rfl) fun _ =>
      hincoming.bind fun _ => triple_pure (steady_stable _) _ fun _ hs => hs

theorem triple_handleRecvResult (bytes : Bytes) :
    (contract w).Triple .main ∅ Steady (handleRecvResult w.user now w.server src bytes)
      fun _ => Steady := by
  unfold handleRecvResult
  split
  · exact (triple_tryHandleWelcome _).bind fun _ => triple_setupText now src _
  · exact triple_pure (steady_stable _) false fun _ hs => hs
  · exact triple_setupText now src _

end Receive

theorem triple_mainLoop (inSetup : Bool) (e : Event) :
    (contract w).Triple .main ∅ Steady (mainLoop w.user w.server inSetup e)
      fun _ => Steady := by
  have hend : ∀ b, (contract w).Triple .main ∅ Steady (pure b : Code Bool) fun _ => Steady :=
    fun b => triple_pure (steady_stable _) b fun _ hs => hs
  cases e with
  | datagram now src bytes =>
      unfold mainLoop
      split_ifs
      · exact (triple_handleRecvResult now src bytes).bind fun _ => hend _
      · exact (triple_receive now src bytes).bind fun _ => hend false
  | setupDeadline => exact hend false

end Main

end Code

end NatPiercer.Client
