/-
# `Client.Editing` — all that is done to the peer table

Whatever a client receives, its table is only ever edited in the ways of
`Lib.Edit`: a line changes the first entry of a name or an address, drops the
entries of a name, or adds one at an address where there is none, and a pass
of the keepalive loop visits every entry.  So a run of the client, datagrams
and passes in any order, is a run of edits (`run_edits`).

A pass asks the server to relay for an entry once, and sets `relay_requested` for
that.  Nothing else resets it, so an entry has one request in its budget
(`requested_once`).
-/
import NatPiercer.Client.Setup
import NatPiercer.Client.Tick

namespace NatPiercer.Client

open Text Utf8 Net Proto Signaling

/-! ## Lines -/

section Lines
variable (now : Instant) (server src : SocketAddr) (user : Str)

/-- What a line does to the table of the client `user`. -/
def Heard.edits : Heard → List (Edit PeerInfo Datagram)
  | ping | relay | nothing => []
  | pong => [.first (fun p => p.addr = src) fun p => { p with lastPong := now }]
  | holePunch => [.first (fun p => p.addr = src) (ensureConnected now)]
  | data sender => [.first (fun p => p.username.text = sender) (ensureConnected now)]
  | serverRelay username =>
      if username.text = user then []
      else [.first (fun p => p.username = username)
        fun p => { p with useServerRelay := true, connected := true, relayRequested := true }]
  | direct username addrStr =>
      match SocketAddr.fromStr addrStr.text with
      | some addr =>
          if username.text = user then []
          else [.insert (fun p => p.addr = addr) (newPeer now username addr)]
      | none => []
  | userLeft username => [.visit fun p => (if p.username ≠ username then some p else none, [])]

theorem handle_peers (line : Str) (me : Client) (h : Heard) :
    (h.handle now server src line me).1.peers =
      (Edit.run me.peers (h.edits now src me.user)).1 := by
  cases h with
  | ping | pong | holePunch | data _ | relay | nothing => rfl
  | serverRelay n =>
      change (me.handleModeServerRelay n).peers = _
      rw [handleModeServerRelay, Heard.edits]
      split_ifs <;> rfl
  | direct n a =>
      change (me.handleModeDirect now n a).peers = _
      rw [handleModeDirect, Heard.edits]
      cases SocketAddr.fromStr a.text with
      | none => rfl
      | some addr =>
          dsimp only
          split_ifs with hself hany
          · rfl
          · exact (if_pos hany).symm
          · exact (if_neg hany).symm
  | userLeft n =>
      change me.peers.filter _ = me.peers.filterMap _
      rw [← List.filterMap_eq_filter]
      refine List.filterMap_congr fun p _ => ?_
      by_cases hp : p.username = n
      · simp [hp]
      · simp [hp]

/-- What the lines of a text do. -/
def textEdits (s : Str) : List (Edit PeerInfo Datagram) :=
  (lines s).flatMap fun line => (Heard.ofLine (trim line)).edits now src user

theorem processIncomingMessage_peers (s : Str) (me : Client) :
    (me.processIncomingMessage now server s src).1.peers =
      (Edit.run me.peers (textEdits now src me.user s)).1 := by
  rw [processIncomingMessage, processLines_fst, textEdits]
  induction lines s generalizing me with
  | nil => rfl
  | cons line ls ih =>
      rw [after, ih, List.flatMap_cons, Edit.run_append, hear, handle_peers, handle_user]

/-- What plain text from an address does by itself. -/
def contactEdit : Edit PeerInfo Datagram := .first (fun p => p.addr = src) (ensureConnected now)

/-- Text that has no frame, or comes during the setup. -/
def plainEdits (s : Str) : List (Edit PeerInfo Datagram) :=
  (if src = server then [] else [contactEdit now src]) ++ textEdits now src user s

theorem plain_peers (s : Str) (me : Client) :
    (me.setupText now server src s).1.peers =
        (Edit.run me.peers (plainEdits now server src me.user s)).1 ∧
      (me.receiveText now server src s).1.peers =
        (Edit.run me.peers (plainEdits now server src me.user s)).1 := by
  unfold setupText receiveText plainEdits
  by_cases hsrc : src = server
  · rw [if_pos hsrc, if_pos hsrc, if_pos hsrc, List.nil_append]
    have hresponse := (processServerResponse_peers s _).trans
      (processIncomingMessage_peers now server src s me)
    exact ⟨hresponse, hresponse⟩
  · rw [if_neg hsrc, if_neg hsrc, if_neg hsrc]
    have hincoming := processIncomingMessage_peers now server src s (me.handlePeerMessage now src)
    exact ⟨hincoming, hincoming⟩

/-- What a datagram does, read by one loop or by the other. -/
def datagramEdits (inSetup : Bool) (bytes : Bytes) : List (Edit PeerInfo Datagram) :=
  match decode bytes with
  | some (hdr, payload) =>
      match hdr.kind with
      | .control =>
          match fromUtf8 payload with
          | some s => if inSetup then plainEdits now server src user s else textEdits now src user s
          | none => []
      | .dtls | .srtp => []
  | none => plainEdits now server src user (fromUtf8Lossy bytes)

theorem datagramEdits_eq (inSetup : Bool) (bytes : Bytes) :
    datagramEdits now server src user inSetup bytes =
      match Reading.ofBytes bytes with
      | .control s =>
          if inSetup then plainEdits now server src user s else textEdits now src user s
      | .dropped => []
      | .plain s => plainEdits now server src user s :=
  Reading.elim_ofBytes bytes
    (fun s => if inSetup then plainEdits now server src user s else textEdits now src user s) []
    (plainEdits now server src user)

theorem datagram_peers (bytes : Bytes) (st : Listening) :
    (st.step server (.datagram now src bytes)).me.peers =
      (Edit.run st.me.peers (datagramEdits now server src st.me.user st.inSetup bytes)).1 := by
  unfold Listening.step
  rw [datagramEdits_eq]
  cases st.inSetup with
  | true =>
      simp only [if_true]
      rw [handleRecvResult_eq]
      cases Reading.ofBytes bytes with
      | dropped => rfl
      | plain s => exact (plain_peers now server src s st.me).1
      | control s =>
          obtain ⟨cid, pid, hwelcome⟩ := tryHandleWelcome_eq s st.me
          dsimp only
          rw [hwelcome]
          exact (plain_peers now server src s
            { st.me with channelId := cid, myPeerId := pid }).1
  | false =>
      simp only [Bool.false_eq_true, if_false]
      rw [receive_eq]
      cases Reading.ofBytes bytes with
      | dropped => rfl
      | plain s => exact (plain_peers now server src s st.me).2
      | control s =>
          obtain ⟨cid, pid, hwelcome⟩ := tryHandleWelcome_eq s st.me
          dsimp only
          rw [receiveControl, hwelcome]
          exact processIncomingMessage_peers now server src s
            { st.me with channelId := cid, myPeerId := pid }

/-! ## The kinds of edits -/

/-- All that a datagram can do to the table of the client `user`. -/
inductive TableEdit : Edit PeerInfo Datagram → Prop
  | touched (q : PeerInfo → Bool) : TableEdit (.first q fun p => { p with lastPong := now })
  | reached (q : PeerInfo → Bool) : TableEdit (.first q (ensureConnected now))
  | relayed (n : Token) (hself : n.text ≠ user) :
      TableEdit (.first (fun p => p.username = n)
        fun p => { p with useServerRelay := true, connected := true, relayRequested := true })
  | added (n : Token) (addr : SocketAddr) (hself : n.text ≠ user) :
      TableEdit (.insert (fun p => p.addr = addr) (newPeer now n addr))
  | left (n : Token) : TableEdit (.visit fun p => (if p.username ≠ n then some p else none, []))

theorem tableEdit_of_heard {h : Heard} {e : Edit PeerInfo Datagram}
    (he : e ∈ h.edits now src user) : TableEdit now user e := by
  cases h with
  | ping | relay | nothing => exact absurd he List.not_mem_nil
  | pong =>
      rw [List.mem_singleton.mp he]
      exact .touched _
  | holePunch | data _ =>
      rw [List.mem_singleton.mp he]
      exact .reached _
  | serverRelay n =>
      rw [Heard.edits] at he
      split_ifs at he with hself
      · exact absurd he List.not_mem_nil
      · rw [List.mem_singleton.mp he]
        exact .relayed n hself
  | direct n a =>
      rw [Heard.edits] at he
      cases haddr : SocketAddr.fromStr a.text with
      | none =>
          rw [haddr] at he
          exact absurd he List.not_mem_nil
      | some addr =>
          rw [haddr] at he
          dsimp only at he
          split_ifs at he with hself
          · exact absurd he List.not_mem_nil
          · rw [List.mem_singleton.mp he]
            exact .added n addr hself
  | userLeft n =>
      rw [List.mem_singleton.mp he]
      exact .left n

theorem tableEdit_of_text {s : Str} {e : Edit PeerInfo Datagram}
    (he : e ∈ textEdits now src user s) : TableEdit now user e := by
  obtain ⟨line, -, he⟩ := List.mem_flatMap.mp he
  exact tableEdit_of_heard now src user he

theorem tableEdit_of_plain {s : Str} {e : Edit PeerInfo Datagram}
    (he : e ∈ plainEdits now server src user s) : TableEdit now user e := by
  rcases List.mem_append.mp he with he | he
  · split_ifs at he
    · exact absurd he List.not_mem_nil
    · rw [List.mem_singleton.mp he]
      exact .reached _
  · exact tableEdit_of_text now src user he

theorem tableEdit_of_datagram {inSetup : Bool} {bytes : Bytes} {e : Edit PeerInfo Datagram}
    (he : e ∈ datagramEdits now server src user inSetup bytes) : TableEdit now user e := by
  rw [datagramEdits_eq] at he
  cases hreading : Reading.ofBytes bytes with
  | dropped =>
      rw [hreading] at he
      exact absurd he List.not_mem_nil
  | plain s =>
      rw [hreading] at he
      exact tableEdit_of_plain now server src user he
  | control s =>
      rw [hreading] at he
      dsimp only at he
      split_ifs at he
      · exact tableEdit_of_plain now server src user he
      · exact tableEdit_of_text now src user he

variable {now user} in
/-- Nothing is put out. -/
theorem TableEdit.silent {e : Edit PeerInfo Datagram} (he : TableEdit now user e) : e.Silent := by
  cases he with
  | touched | reached | relayed | added => exact fun _ => rfl
  | left n =>
      intro l
      change l.flatMap (fun _ => []) = []
      exact List.flatMap_eq_nil_iff.mpr fun _ _ => rfl

end Lines

/-! ## A run -/

/-- A datagram, or the end of the setup, or a pass of the keepalive loop. -/
inductive Happening
  | event (e : Event)
  | tick (now : Instant)

section Run
variable (server : SocketAddr) (serverId channel : Token)

def Listening.happen (st : Listening) : Happening → Listening
  | .event e => st.step server e
  | .tick now => { st with me := (st.me.relayMainLoop now server serverId channel).1 }

/-- What the loop sends. -/
def Listening.tickSent (st : Listening) : Happening → List Datagram
  | .event _ => []
  | .tick now => (st.me.relayMainLoop now server serverId channel).2

/-- What becomes of the table. -/
def Listening.edits (st : Listening) : Happening → List (Edit PeerInfo Datagram)
  | .event (.datagram now src bytes) =>
      datagramEdits now server src st.me.user st.inSetup bytes
  | .event .setupDeadline => []
  | .tick now =>
      if st.me.isActive then [.visit (relayMainLoopPeer now server serverId channel)] else []

/-- The same of a run. -/
def Listening.ticksSent : Listening → List Happening → List Datagram
  | _, [] => []
  | st, h :: hs =>
      st.tickSent server serverId channel h ++
        ticksSent (st.happen server serverId channel h) hs

def Listening.editsOf : Listening → List Happening → List (Edit PeerInfo Datagram)
  | _, [] => []
  | st, h :: hs =>
      st.edits server serverId channel h ++ editsOf (st.happen server serverId channel h) hs

/-- One step of the client is some edits of its table. -/
theorem happen_edits (st : Listening) (h : Happening) :
    ((st.happen server serverId channel h).me.peers, st.tickSent server serverId channel h) =
      Edit.run st.me.peers (st.edits server serverId channel h) := by
  cases h with
  | event e =>
      cases e with
      | setupDeadline => rfl
      | datagram now src bytes =>
          refine Prod.ext (datagram_peers now server src bytes st) ?_
          exact (Edit.run_silent (fun e he =>
            (tableEdit_of_datagram now server src st.me.user he).silent) _).symm
  | tick now =>
      unfold Listening.happen Listening.tickSent Listening.edits relayMainLoop
      cases st.me.isActive with
      | true => exact Prod.ext rfl (List.append_nil _).symm
      | false => rfl

/-- And so is a run. -/
theorem run_edits (st : Listening) (hs : List Happening) :
    ((after (Listening.happen server serverId channel) st hs).me.peers,
        st.ticksSent server serverId channel hs) =
      Edit.run st.me.peers (st.editsOf server serverId channel hs) := by
  induction hs generalizing st with
  | nil => rfl
  | cons h hs ih =>
      have hstep := happen_edits server serverId channel st h
      have hrest := ih (st.happen server serverId channel h)
      rw [Listening.editsOf, Edit.run_append, ← hstep, ← hrest]
      rfl

/-- The edits of a run, one by one. -/
theorem edit_cases {st : Listening} {hs : List Happening} {e : Edit PeerInfo Datagram}
    (he : e ∈ st.editsOf server serverId channel hs) :
    (∃ now user, TableEdit now user e) ∨
      ∃ now, e = .visit (relayMainLoopPeer now server serverId channel) := by
  induction hs generalizing st with
  | nil => exact absurd he List.not_mem_nil
  | cons h hs ih =>
      rcases List.mem_append.mp he with he | he
      · cases h with
        | event e' =>
            cases e' with
            | setupDeadline => exact absurd he List.not_mem_nil
            | datagram now src bytes =>
                exact Or.inl ⟨now, _, tableEdit_of_datagram now server src st.me.user he⟩
        | tick now =>
            unfold Listening.edits at he
            split_ifs at he
            · exact Or.inr ⟨now, List.mem_singleton.mp he⟩
            · exact absurd he List.not_mem_nil
      · exact ih he

/-! ## Requests -/

/-- The datagram begins with `REQUEST_RELAY`. -/
def asksRelay (d : Datagram) : Bool := (asBytes msgRequestRelay.text).isPrefixOf d.payload

theorem asksRelay_ping (a : SocketAddr) : asksRelay (tell a msgPing.text) = false := by
  change (asBytes msgRequestRelay.text).isPrefixOf (asBytes msgPing.text) = false
  decide

theorem asksRelay_requestRelay (p : PeerInfo) :
    asksRelay (requestRelay server serverId channel p) = true := by
  have htext : line [msgRequestRelay, serverId, channel, p.username] =
      msgRequestRelay.text ++ (([serverId, channel, p.username].flatMap fun u => ' ' :: u.text) ++
        ['\n']) := by
    rw [← List.append_assoc]
    rfl
  rw [asksRelay, requestRelay, htext]
  refine List.isPrefixOf_iff_prefix.mpr ?_
  change asBytes msgRequestRelay.text <+: asBytes (_ ++ _)
  unfold asBytes
  rw [List.flatMap_append]
  exact List.prefix_append _ _

theorem asksRelay_handlePeerTimeout (p : PeerInfo) :
    asksRelay (handlePeerTimeout server serverId channel p) = false := rfl

/-- Asked for at most once, and not by one that is reached or relayed for. -/
theorem countP_tickSends (now : Instant) (p : PeerInfo) :
    (tickSends now server serverId channel p).countP asksRelay = if due now p then 1 else 0 := by
  unfold tickSends
  by_cases hrelayed : p.useServerRelay = true
  · have hdue : due now p = false := by simp [due, hrelayed]
    rw [if_pos hrelayed, hdue]
    rfl
  · rw [if_neg hrelayed]
    by_cases hlate : late now p = true
    · have hdue : due now p = false := by simp [due, hlate]
      rw [if_pos hlate, hdue, List.countP_cons_of_neg
        (by simp [asksRelay_handlePeerTimeout server serverId channel p])]
      rfl
    · rw [if_neg hlate, List.countP_cons_of_neg (by simp [asksRelay_ping])]
      split_ifs
      · rw [List.countP_cons_of_pos (asksRelay_requestRelay server serverId channel p)]
        rfl
      · rfl

/-- How many requests an entry has left. -/
def budget (p : PeerInfo) : Nat := if p.relayRequested then 0 else 1

theorem budget_le_one (p : PeerInfo) : budget p ≤ 1 := by
  unfold budget
  split_ifs
  · exact Nat.zero_le 1
  · exact Nat.le_refl 1

theorem TableEdit.spends {now : Instant} {user : Str} {e : Edit PeerInfo Datagram}
    (he : TableEdit now user e) : e.Spends budget asksRelay := by
  cases he with
  | touched q => exact fun p _ => Nat.le_refl (budget p)
  | reached q => exact fun p _ => Nat.le_refl (budget p)
  | relayed n _ => exact fun p _ => Nat.zero_le (budget p)
  | added => trivial
  | left n =>
      intro p
      change 0 + (if p.username ≠ n then some p else none).elim 0 budget ≤ budget p
      rw [Nat.zero_add]
      split_ifs
      · exact Nat.le_refl _
      · exact Nat.zero_le _

theorem spends_relayMainLoopPeer (now : Instant) :
    (Edit.visit (relayMainLoopPeer now server serverId channel)).Spends budget asksRelay := by
  intro p
  rw [relayMainLoopPeer_eq]
  change (tickSends now server serverId channel p).countP asksRelay + _ ≤ _
  rw [countP_tickSends]
  dsimp only
  by_cases hdue : due now p = true
  · have hfresh : budget p = 1 := by
      unfold due at hdue
      simp only [Bool.and_eq_true, Bool.not_eq_true'] at hdue
      rw [budget, hdue.2]
      rfl
    have hspent : budget (ticked now p) = 0 := by
      rw [ticked, if_pos hdue]
      rfl
    rw [if_pos hdue, hfresh]
    split_ifs
    · exact Nat.le_refl 1
    · rw [Option.elim_some, hspent]
  · rw [if_neg hdue, Nat.zero_add]
    split_ifs
    · exact Nat.zero_le _
    · rw [Option.elim_some, ticked, if_neg hdue]

/-- **A pass, and the requests of a run.**  A pass leaves those that are not late, in
order, and marks those it asks for; what it sends is sent entry by entry.  It
asks for none that is connected or relayed for, and over a run of datagrams
and passes no entry of the table is asked for twice. -/
theorem requested_once :
    (∀ now peers, relayTick now server serverId channel peers =
      some ((peers.filter fun p => !late now p).map (ticked now),
        peers.flatMap (tickSends now server serverId channel))) ∧
    (∀ now p, (∃ d ∈ tickSends now server serverId channel p, asksRelay d = true) →
      p.connected = false ∧ p.useServerRelay = false) ∧
    ∀ (st : Listening) (hs : List Happening),
      let numbered := Edit.runNumbered st.me.peers.length (Edit.number st.me.peers)
        (st.editsOf server serverId channel hs)
      numbered.1.map Prod.snd = (after (Listening.happen server serverId channel) st hs).me.peers ∧
        numbered.2.map Prod.snd = st.ticksSent server serverId channel hs ∧
        ∀ i, Edit.fired asksRelay i numbered.2 ≤ 1 := by
  refine ⟨fun now => relayTick_eq now server serverId channel, fun now p h => ?_, fun st hs => ?_⟩
  · have hsome := List.countP_pos_iff.mpr h
    rw [countP_tickSends] at hsome
    split_ifs at hsome with hdue
    · unfold due at hdue
      simp only [Bool.and_eq_true, Bool.not_eq_true'] at hdue
      exact ⟨hdue.1.1.2, hdue.1.1.1.1⟩
    · exact absurd hsome (Nat.lt_irrefl 0)
  · intro numbered
    have hplain := Edit.map_runNumbered st.me.peers.length (Edit.number st.me.peers)
      (st.editsOf server serverId channel hs)
    rw [Edit.map_number, ← run_edits] at hplain
    obtain ⟨hpeers, hsent⟩ := Prod.mk.inj hplain
    refine ⟨hpeers, hsent, fun i => Edit.fired_le budget_le_one (fun e he => ?_) i st.me.peers⟩
    rcases edit_cases server serverId channel he with ⟨now, user, hedit⟩ | ⟨now, rfl⟩
    · exact hedit.spends
    · exact spends_relayMainLoopPeer server serverId channel now

end Run

/-- Bob is not reached within the twelve seconds, and is marked. -/
theorem tick_marks :
    let server : SocketAddr := .v4 ⟨10, 0, 0, 9⟩ 2131
    let bob : Token := ⟨"bob".toList, by decide⟩
    let now := 15 * 10 ^ 9
    let p : PeerInfo := { newPeer 0 bob (.v4 ⟨10, 0, 0, 2⟩ 4000) with lastPong := now }
    ∃ sent, relayTick now server ⟨['s'], by decide⟩ ⟨['c'], by decide⟩ [p] =
        some ([{ p with relayRequested := true }], sent) ∧
      [{ p with relayRequested := true }] ≠
        [p].filter fun p => p.useServerRelay || decide (now - p.lastPong ≤ peerTimeout) := by
  exact ⟨_, rfl, by decide⟩

end NatPiercer.Client
