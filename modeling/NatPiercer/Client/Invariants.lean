/-
# `Client.Invariants` — what is always true of a client

The loops of a client take a few things about its state for granted: that an
address names one entry of the table at most, that the client itself is not in
it, that an entry which is relayed for is not punched and not asked for, that
only a relay mirrors, and that what stops the punching is what sends through
the server.  No function establishes all of that.  Each writes a part of the
state, and the lines of a datagram run through several of them.

`StepRule` says what all of them have to keep for a datagram to keep it, so
that a datagram, of any contents, is taken apart once.
-/
import NatPiercer.Client.Editing

namespace NatPiercer.Client

open Text Utf8 Net Proto Signaling

/-! ## The rule for a datagram -/

/-- `P` is kept by each thing that a datagram from `src` can bring about. -/
structure StepRule (now : Instant) (server src : SocketAddr) (P : Client → Prop) : Prop where
  welcome : ∀ me cid pid, P me → P { me with channelId := cid, myPeerId := pid }
  contact : ∀ me, P me → P (me.handlePeerMessage now src)
  line : ∀ me (h : Heard) l, P me → P (h.handle now server src l me).1
  reply : ∀ me r, P me → P (me.reply r)
  active : ∀ me b, P me → P { me with isActive := b }

section Rule
variable {now : Instant} {server src : SocketAddr} {P : Client → Prop}

theorem StepRule.welcomed (h : StepRule now server src P) (s : Str) {me : Client} (hme : P me) :
    P (me.tryHandleWelcome s) := by
  obtain ⟨cid, pid, hwelcome⟩ := tryHandleWelcome_eq s me
  rw [hwelcome]
  exact h.welcome me cid pid hme

theorem StepRule.incoming (h : StepRule now server src P) (s : Str) {me : Client} (hme : P me) :
    P (me.processIncomingMessage now server s src).1 := by
  rw [processIncomingMessage, processLines_fst]
  exact after_of_always _ _ (always_of_step (fun me l hme => h.line me _ _ hme) _ hme)

theorem StepRule.response (h : StepRule now server src P) (s : Str) {me : Client} (hme : P me) :
    P (me.processServerResponse s) := by
  rw [processServerResponse_eq]
  exact after_of_always _ _ (always_of_step (fun me l hme => h.reply me _ hme) _ hme)

theorem StepRule.setup (h : StepRule now server src P) (s : Str) {me : Client} (hme : P me) :
    P (me.setupText now server src s).1 := by
  unfold setupText
  split_ifs
  · exact h.active _ _ (h.response s (h.incoming s hme))
  · exact h.incoming s (h.contact me hme)

theorem StepRule.text (h : StepRule now server src P) (s : Str) {me : Client} (hme : P me) :
    P (me.receiveText now server src s).1 := by
  unfold receiveText
  split_ifs
  · exact h.active _ _ (h.response s (h.incoming s hme))
  · exact h.active _ _ (h.incoming s (h.contact me hme))

/-- Whatever the bytes are, and whichever loop reads them. -/
theorem StepRule.datagram (h : StepRule now server src P) (bytes : Bytes) {st : Listening}
    (hst : P st.me) : P (st.step server (.datagram now src bytes)).me := by
  unfold Listening.step
  cases st.inSetup with
  | true =>
      simp only [if_true]
      rw [handleRecvResult_eq]
      cases Reading.ofBytes bytes with
      | dropped => exact hst
      | plain s => exact h.setup s hst
      | control s => exact h.setup s (h.welcomed s hst)
  | false =>
      simp only [Bool.false_eq_true, if_false]
      rw [receive_eq]
      cases Reading.ofBytes bytes with
      | dropped => exact hst
      | plain s => exact h.text s hst
      | control s => exact h.incoming s (h.welcomed s hst)

end Rule

/-! ## The table -/

/-- One that is relayed for is not to be punched, nor asked for. -/
def LeftAlone (p : PeerInfo) : Prop :=
  p.useServerRelay = true → p.connected = true ∧ p.relayRequested = true

/-- What may become of an entry. -/
structure EntryKept (p q : PeerInfo) : Prop where
  addr : q.addr = p.addr
  username : q.username = p.username
  leftAlone : LeftAlone p → LeftAlone q

/-- The table of the client `user`. -/
structure TableSound (user : Str) (peers : List PeerInfo) : Prop where
  distinct : (peers.map PeerInfo.addr).Nodup
  others : ∀ p ∈ peers, p.username.text ≠ user
  leftAlone : ∀ p ∈ peers, LeftAlone p

section Table
variable {user : Str} {peers : List PeerInfo}

theorem TableSound.first (h : TableSound user peers) (q : PeerInfo → Bool)
    {f : PeerInfo → PeerInfo} (hf : ∀ p, EntryKept p (f p)) :
    TableSound user (Vec.modifyFirst q f peers) where
  distinct := by
    rw [Vec.map_modifyFirst fun p => (hf p).addr]
    exact h.distinct
  others r hr := by
    rcases Vec.mem_modifyFirst hr with hr | ⟨p, hp, -, rfl⟩
    · exact h.others r hr
    · rw [(hf p).username]
      exact h.others p hp
  leftAlone r hr := by
    rcases Vec.mem_modifyFirst hr with hr | ⟨p, hp, -, rfl⟩
    · exact h.leftAlone r hr
    · exact (hf p).leftAlone (h.leftAlone p hp)

theorem TableSound.visit (h : TableSound user peers) {f : PeerInfo → Option PeerInfo}
    (hf : ∀ p q, f p = some q → EntryKept p q) : TableSound user (peers.filterMap f) where
  distinct := h.distinct.sublist (Vec.map_filterMap_sublist (fun p q hq => (hf p q hq).addr) peers)
  others q hq := by
    obtain ⟨p, hp, hpq⟩ := List.mem_filterMap.mp hq
    rw [(hf p q hpq).username]
    exact h.others p hp
  leftAlone q hq := by
    obtain ⟨p, hp, hpq⟩ := List.mem_filterMap.mp hq
    exact (hf p q hpq).leftAlone (h.leftAlone p hp)

theorem TableSound.insert (h : TableSound user peers) (now : Instant) {n : Token}
    (addr : SocketAddr) (hself : n.text ≠ user) :
    TableSound user (if peers.any fun p => p.addr = addr then peers
      else peers ++ [newPeer now n addr]) := by
  split_ifs with hany
  · exact h
  · refine ⟨?_, fun p hp => ?_, fun p hp => ?_⟩
    · rw [List.map_append]
      refine h.distinct.append (List.nodup_singleton _) fun a ha hnew => hany ?_
      obtain ⟨p, hp, rfl⟩ := List.mem_map.mp ha
      exact List.any_eq_true.mpr ⟨p, hp, decide_eq_true (List.mem_singleton.mp hnew)⟩
    · rcases List.mem_append.mp hp with hp | hp
      · exact h.others p hp
      · rw [List.mem_singleton.mp hp]
        exact hself
    · rcases List.mem_append.mp hp with hp | hp
      · exact h.leftAlone p hp
      · rw [List.mem_singleton.mp hp]
        exact fun hrelayed => absurd hrelayed Bool.false_ne_true

/-- By any edit that a datagram brings about, … -/
theorem TableSound.edit {now : Instant} {e : Edit PeerInfo Datagram}
    (he : TableEdit now user e) (h : TableSound user peers) :
    TableSound user (e.apply peers).1 := by
  cases he with
  | touched q => exact h.first q fun _ => ⟨rfl, rfl, id⟩
  | reached q => exact h.first q fun _ => ⟨rfl, rfl, fun hp hrelayed => ⟨rfl, (hp hrelayed).2⟩⟩
  | relayed n => exact h.first _ fun _ => ⟨rfl, rfl, fun _ _ => ⟨rfl, rfl⟩⟩
  | added n addr hself => exact h.insert now addr hself
  | left n =>
      refine h.visit fun p q hq => ?_
      dsimp only at hq
      by_cases hp : p.username ≠ n
      · rw [if_pos hp] at hq
        obtain rfl := Option.some.inj hq
        exact ⟨rfl, rfl, id⟩
      · rw [if_neg hp] at hq
        exact absurd hq (Option.some_ne_none q).symm

/-- … and by a pass. -/
theorem TableSound.tick (now : Instant) (server : SocketAddr) (serverId channel : Token)
    (h : TableSound user peers) :
    TableSound user
      (peers.filterMap fun p => (relayMainLoopPeer now server serverId channel p).1) := by
  refine h.visit fun p q hq => ?_
  rw [relayMainLoopPeer_eq] at hq
  dsimp only at hq
  split_ifs at hq
  obtain rfl := Option.some.inj hq
  unfold ticked
  split_ifs
  · exact ⟨rfl, rfl, fun hp hrelayed => ⟨(hp hrelayed).1, rfl⟩⟩
  · exact ⟨rfl, rfl, id⟩

end Table

/-! ## The client -/

/-- The table, and the modes. -/
structure Sound (me : Client) : Prop where
  table : TableSound me.user me.peers
  mirrors : me.channelHasServerRelays = true → me.isRelay = true
  paused : me.sendViaServer = me.paused

section Sound
variable (now : Instant) (server src : SocketAddr)

/-- The modes that a line leaves as they are, or makes more of. -/
theorem handle_modes (line : Str) (me : Client) (h : Heard) :
    ((me.channelHasServerRelays = true → me.isRelay = true) →
        (h.handle now server src line me).1.channelHasServerRelays = true →
          (h.handle now server src line me).1.isRelay = true) ∧
      (h.handle now server src line me).1.sendViaServer = me.sendViaServer ∧
      (h.handle now server src line me).1.paused = me.paused := by
  cases h with
  | ping | pong | holePunch | data _ | userLeft _ | nothing => exact ⟨id, rfl, rfl⟩
  | relay => exact ⟨fun _ _ => rfl, rfl, rfl⟩
  | serverRelay n =>
      change (_ → (me.handleModeServerRelay n).channelHasServerRelays = true →
        (me.handleModeServerRelay n).isRelay = true) ∧
          (me.handleModeServerRelay n).sendViaServer = _ ∧ (me.handleModeServerRelay n).paused = _
      unfold handleModeServerRelay
      split_ifs
      · exact ⟨id, rfl, rfl⟩
      · refine ⟨fun hmirrors hnow => ?_, rfl, rfl⟩
        exact (Bool.or_eq_true_iff.mp hnow).elim hmirrors id
  | direct n a =>
      change (_ → (me.handleModeDirect now n a).channelHasServerRelays = true →
        (me.handleModeDirect now n a).isRelay = true) ∧
          (me.handleModeDirect now n a).sendViaServer = _ ∧ (me.handleModeDirect now n a).paused = _
      unfold handleModeDirect
      cases SocketAddr.fromStr a.text with
      | none => exact ⟨id, rfl, rfl⟩
      | some addr =>
          dsimp only
          split_ifs <;> exact ⟨id, rfl, rfl⟩

theorem sound_rule : StepRule now server src Sound where
  welcome _ _ _ h := ⟨h.table, h.mirrors, h.paused⟩
  active _ _ h := ⟨h.table, h.mirrors, h.paused⟩
  contact me h := ⟨TableSound.edit (.reached fun p => p.addr = src) h.table, h.mirrors, h.paused⟩
  line me heard l h := by
    obtain ⟨hmirrors, hsend, hpaused⟩ := handle_modes now server src l me heard
    refine ⟨?_, hmirrors h.mirrors, (hsend.trans h.paused).trans hpaused.symm⟩
    rw [handle_peers, handle_user]
    exact Edit.run_keeps (fun e he _ ht => ht.edit (tableEdit_of_heard now src me.user he)) h.table
  reply me r h := by
    cases r with
    | stop => exact ⟨h.table, h.mirrors, rfl⟩
    | nothing => exact h
    | serverRelay who =>
        unfold reply
        dsimp only
        split_ifs with hself hrelay
        · exact ⟨h.table, h.mirrors, rfl⟩
        · exact ⟨h.table, fun _ => hrelay, h.paused⟩
        · exact h

variable (serverId channel : Token)

theorem sound_happen (st : Listening) (h : Happening) (hst : Sound st.me) :
    Sound (st.happen server serverId channel h).me := by
  cases h with
  | event e =>
      cases e with
      | datagram now src bytes => exact (sound_rule now server src).datagram bytes hst
      | setupDeadline => exact hst
  | tick now =>
      unfold Listening.happen relayMainLoop
      dsimp only
      split_ifs
      · exact ⟨hst.table.tick now server serverId channel, hst.mirrors, hst.paused⟩
      · exact hst

/-- **What is always true of a client.**  From its start on, whatever it receives from
whomever, and whenever the keepalive loop has its pass. -/
theorem sound_always (user : Str) (hs : List Happening) :
    Always (Listening.happen server serverId channel) (fun st => Sound st.me) (.fresh user) hs := by
  refine always_of_step (fun st h hst => sound_happen server serverId channel st h hst) hs ?_
  exact ⟨⟨List.nodup_nil, fun p hp => absurd hp List.not_mem_nil,
    fun p hp => absurd hp List.not_mem_nil⟩, fun h => absurd h Bool.false_ne_true, rfl⟩

end Sound

end NatPiercer.Client
