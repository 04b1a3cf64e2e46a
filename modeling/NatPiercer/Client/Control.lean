/-
# `Client.Control` — who controls a client

Whether a client relays, mirrors, sends through the server and punches, under
which numbers it goes, and whom it has in its table: the server decides that,
line by line.  But a line is read the same whoever sends it.  What comes
from another address is only spared `process_server_response`; it goes
through `process_incoming_message` in all four places, and through
`try_handle_welcome` when it is framed.

So a datagram from a peer leaves all that alone exactly if none of its lines
says anything new (`unmoved_iff`).  "Alone" is meant at every line: the
other threads of the client read these variables while the lines are gone
through.  The bytes are those that `recv_from` has left in the buffer: of a
datagram `d` that is longer than its 2048 bytes, `d.take bufLen`
(`Client.Framing`), and nothing of the rest is read.
-/
import NatPiercer.Client.Setup

namespace NatPiercer.Client

open Text Utf8 Net Proto Signaling

/-- What the server is to decide. -/
structure Control where
  isRelay : Bool
  channelHasServerRelays : Bool
  sendViaServer : Bool
  paused : Bool
  channelId : UInt64
  myPeerId : UInt32
  peers : List (Token × SocketAddr × Bool)
deriving DecidableEq

/-- An entry of the table, but for when it was heard of. -/
def entry (p : PeerInfo) : Token × SocketAddr × Bool := (p.username, p.addr, p.useServerRelay)

def control (me : Client) : Control where
  isRelay := me.isRelay
  channelHasServerRelays := me.channelHasServerRelays
  sendViaServer := me.sendViaServer
  paused := me.paused
  channelId := me.channelId
  myPeerId := me.myPeerId
  peers := me.peers.map entry

/-! ## What is done with a datagram, piece by piece -/

inductive Piece
  | welcome (line : Str)
  | contact
  | line (line : Str)
  | recompute
deriving DecidableEq

section Pieces
variable (now : Instant) (server src : SocketAddr)

def Piece.run (me : Client) : Piece → Client
  | .welcome l => me.welcomeLine l
  | .contact => me.handlePeerMessage now src
  | .line l => me.hear now server src l
  | .recompute => me.updateRelayIsActive

/-- What is done with a datagram that does not come from the server. -/
def pieces (inSetup : Bool) (bytes : Bytes) : List Piece :=
  match decode bytes with
  | some (hdr, payload) =>
      match hdr.kind with
      | .control =>
          match fromUtf8 payload with
          | some s =>
              (lines s).map .welcome ++ ((if inSetup then [.contact] else []) ++
                (lines s).map .line)
          | none => []
      | .dtls | .srtp => []
  | none =>
      .contact :: ((lines (fromUtf8Lossy bytes)).map .line ++
        if inSetup then [] else [.recompute])

theorem pieces_eq (inSetup : Bool) (bytes : Bytes) :
    pieces inSetup bytes =
      match Reading.ofBytes bytes with
      | .control s =>
          (lines s).map .welcome ++ ((if inSetup then [.contact] else []) ++ (lines s).map .line)
      | .dropped => []
      | .plain s => .contact :: ((lines s).map .line ++ if inSetup then [] else [.recompute]) :=
  Reading.elim_ofBytes bytes
    (fun s => (lines s).map Piece.welcome ++ ((if inSetup then [Piece.contact] else []) ++
      (lines s).map Piece.line)) []
    fun s => Piece.contact :: ((lines s).map Piece.line ++
      if inSetup then [] else [Piece.recompute])

theorem after_welcome (s : Str) (me : Client) :
    after (Piece.run now server src) me ((lines s).map .welcome) = me.tryHandleWelcome s := by
  rw [after_map, tryHandleWelcome]
  induction lines s generalizing me with
  | nil => rfl
  | cons line ls ih => exact ih _

theorem after_lines (s : Str) (me : Client) :
    after (Piece.run now server src) me ((lines s).map .line) =
      (me.processIncomingMessage now server s src).1 := by
  rw [after_map, processIncomingMessage, processLines_fst]
  rfl

variable {server src} in
/-- Both loops go through the pieces. -/
theorem step_eq_pieces (hsrc : src ≠ server) (bytes : Bytes) (st : Listening) :
    (st.step server (.datagram now src bytes)).me =
      after (Piece.run now server src) st.me (pieces st.inSetup bytes) := by
  unfold Listening.step
  rw [pieces_eq]
  cases st.inSetup with
  | true =>
      simp only [if_true]
      rw [handleRecvResult_eq]
      cases Reading.ofBytes bytes with
      | dropped => rfl
      | plain s =>
          unfold setupText
          dsimp only
          rw [if_neg hsrc, List.append_nil, after, after_lines]
          rfl
      | control s =>
          unfold setupText
          dsimp only
          rw [if_neg hsrc, after_append, after_welcome, List.singleton_append, after,
            after_lines]
          rfl
  | false =>
      simp only [Bool.false_eq_true, if_false]
      rw [receive_eq]
      cases Reading.ofBytes bytes with
      | dropped => rfl
      | plain s =>
          unfold receiveText
          dsimp only
          rw [if_neg hsrc, after, after_append, after_lines]
          rfl
      | control s =>
          dsimp only
          rw [after_append, after_welcome, List.nil_append, after_lines]
          rfl

end Pieces

/-! ## What says nothing new -/

/-- The numbers that a line gives out, if it is a `WELCOME`. -/
def numbers (line : Str) : Option (UInt64 × UInt32) :=
  match splitWhitespace line with
  | [word, cid, pid] =>
      if word = msgWelcome then
        match parseUnsigned (2 ^ 64 - 1) cid.text, parseUnsigned (2 ^ 32 - 1) pid.text with
        | some cid, some pid => some (.ofNat cid, .ofNat pid)
        | _, _ => none
      else none
  | _ => none

/-- To the client `user`, whose state is `c`. -/
def Heard.SaysNothing (user : Str) (c : Control) : Heard → Prop
  | relay => c.isRelay = true
  | serverRelay n => n.text = user ∨
      (c.isRelay = true → c.channelHasServerRelays = true) ∧
        ∀ p, c.peers.find? (fun p => p.1 = n) = some p → p.2.2 = true
  | direct n a => n.text = user ∨
      ∀ addr, SocketAddr.fromStr a.text = some addr → ∃ p ∈ c.peers, p.2.1 = addr
  | userLeft n => ∀ p ∈ c.peers, p.1 ≠ n
  | ping | pong | holePunch | data _ | nothing => True

def Piece.SaysNothing (user : Str) (c : Control) : Piece → Prop
  | welcome l => ∀ x, numbers l = some x → x = (c.channelId, c.myPeerId)
  | line l => (Heard.ofLine (trim l)).SaysNothing user c
  | contact | recompute => True

section SaysNothing
variable (now : Instant) (server src : SocketAddr) (line : Str) (me : Client)

theorem welcomeLine_eq : me.welcomeLine line =
    match numbers line with
    | some (cid, pid) => { me with channelId := cid, myPeerId := pid }
    | none => me := by
  unfold welcomeLine numbers
  generalize splitWhitespace line = ws
  rcases ws with _ | ⟨word, _ | ⟨cid, _ | ⟨pid, _ | ⟨_, ws⟩⟩⟩⟩
  · rfl
  · rfl
  · rfl
  · dsimp only
    split_ifs
    · cases parseUnsigned (2 ^ 64 - 1) cid.text with
      | none => rfl
      | some cid => cases parseUnsigned (2 ^ 32 - 1) pid.text <;> rfl
    · rfl
  · rfl

/-- Where only the table is written to, only the entries can tell. -/
theorem control_peers (peers : List PeerInfo) :
    { me with peers := peers }.control = me.control ↔
      peers.map entry = me.peers.map entry :=
  ⟨congrArg Control.peers, fun h => by rw [control, control, h]⟩

theorem handleModeServerRelay_control (n : Token) :
    (me.handleModeServerRelay n).control = me.control ↔
      (Heard.serverRelay n).SaysNothing me.user me.control := by
  unfold handleModeServerRelay Heard.SaysNothing
  dsimp only
  by_cases hself : n.text = me.user
  · rw [if_pos hself]
    exact iff_of_true rfl (Or.inl hself)
  · rw [if_neg hself, or_iff_right hself]
    have hentry : ∀ p, me.control.peers.find? (fun p => p.1 = n) = some p ↔
        (me.peers.find? fun p => p.username = n).map entry = some p := by
      intro p
      rw [control, List.find?_map]
      rfl
    have hpeers := Vec.map_modifyFirst_eq_iff (p := fun p : PeerInfo => p.username = n)
      (f := fun p => { p with useServerRelay := true, connected := true, relayRequested := true })
      (g := entry) (l := me.peers)
    constructor
    · intro h
      refine ⟨fun hrelay => ?_, fun p hp => ?_⟩
      · have hmirrors := congrArg Control.channelHasServerRelays h
        change (me.channelHasServerRelays || me.isRelay) = me.channelHasServerRelays at hmirrors
        exact hmirrors.symm.trans (Bool.or_eq_true_iff.mpr (Or.inr hrelay))
      · obtain ⟨q, hq, rfl⟩ := Option.map_eq_some_iff.mp ((hentry p).mp hp)
        exact (congrArg (fun e => e.2.2) (hpeers.mp (congrArg Control.peers h) q hq)).symm
    · rintro ⟨hmirrors, hflag⟩
      have hsame : (me.channelHasServerRelays || me.isRelay) = me.channelHasServerRelays := by
        cases hrelay : me.isRelay with
        | false => exact Bool.or_false _
        | true => rw [show me.channelHasServerRelays = true from hmirrors hrelay, Bool.true_or]
      have hmap := hpeers.mpr fun q hq => by
        have hflag := hflag (entry q) ((hentry _).mpr (congrArg (Option.map entry) hq))
        exact congrArg (fun b => (q.username, q.addr, b)) hflag.symm
      rw [hsame]
      exact (control_peers me _).mpr hmap

theorem handleModeDirect_control (n a : Token) :
    (me.handleModeDirect now n a).control = me.control ↔
      (Heard.direct n a).SaysNothing me.user me.control := by
  unfold handleModeDirect Heard.SaysNothing
  dsimp only
  cases haddr : SocketAddr.fromStr a.text with
  | none => exact iff_of_true rfl (Or.inr fun _ h => absurd h (Option.some_ne_none _).symm)
  | some addr =>
      dsimp only
      by_cases hself : n.text = me.user
      · rw [if_pos hself]
        exact iff_of_true rfl (Or.inl hself)
      · rw [if_neg hself, or_iff_right hself]
        have hknown : (me.peers.any fun p => p.addr = addr) = true ↔
            ∀ addr', some addr = some addr' → ∃ p ∈ me.control.peers, p.2.1 = addr' := by
          rw [List.any_eq_true]
          constructor
          · rintro ⟨p, hp, hpaddr⟩ addr' haddr'
            obtain rfl := Option.some.inj haddr'
            exact ⟨entry p, List.mem_map_of_mem hp, of_decide_eq_true hpaddr⟩
          · intro h
            obtain ⟨e, he, headdr⟩ := h addr rfl
            obtain ⟨p, hp, rfl⟩ := List.mem_map.mp he
            exact ⟨p, hp, decide_eq_true headdr⟩
        rw [← hknown]
        split_ifs with hany
        · exact iff_of_true rfl hany
        · refine iff_of_false (fun h => ?_) hany
          have hlen := congrArg (fun c : Control => c.peers.length) h
          change ((me.peers ++ [newPeer now n addr]).map entry).length =
            (me.peers.map entry).length at hlen
          rw [List.length_map, List.length_map, List.length_append, List.length_singleton] at hlen
          omega

theorem handleUserLeft_control (n : Token) :
    (me.handleUserLeft n).control = me.control ↔
      (Heard.userLeft n).SaysNothing me.user me.control := by
  rw [handleUserLeft, control_peers, Heard.SaysNothing]
  constructor
  · intro h e he
    have hlen := congrArg List.length h
    rw [List.length_map, List.length_map] at hlen
    have hall := List.filter_eq_self.mp (List.filter_sublist.eq_of_length hlen)
    obtain ⟨p, hp, rfl⟩ := List.mem_map.mp he
    exact of_decide_eq_true (hall p hp)
  · intro h
    refine congrArg (List.map entry) (List.filter_eq_self.mpr fun p hp => decide_eq_true ?_)
    exact h (entry p) (List.mem_map_of_mem hp)

/-- A line changes nothing that the server is to decide exactly if it says nothing
new. -/
theorem handle_control_iff (h : Heard) :
    (h.handle now server src line me).1.control = me.control ↔
      h.SaysNothing me.user me.control := by
  cases h with
  | relay =>
      refine ⟨fun h => (congrArg Control.isRelay h).symm, fun h => ?_⟩
      change { me with isRelay := true }.control = me.control
      rw [← show me.isRelay = true from h]
  | serverRelay n => exact handleModeServerRelay_control me n
  | direct n a => exact handleModeDirect_control now me n a
  | userLeft n => exact handleUserLeft_control me n
  | ping => exact iff_of_true rfl trivial
  | nothing => exact iff_of_true rfl trivial
  | pong =>
      exact iff_of_true ((control_peers me _).mpr
        (Vec.map_modifyFirst (f := fun p : PeerInfo => { p with lastPong := now })
          (fun _ => rfl) _)) trivial
  | holePunch =>
      exact iff_of_true ((control_peers me _).mpr
        (Vec.map_modifyFirst (f := ensureConnected now) (fun _ => rfl) _)) trivial
  | data sender =>
      exact iff_of_true ((control_peers me _).mpr
        (Vec.map_modifyFirst (f := ensureConnected now) (fun _ => rfl) _)) trivial

theorem run_user (p : Piece) : (Piece.run now server src me p).user = me.user := by
  cases p with
  | welcome l =>
      rw [Piece.run, welcomeLine_eq]
      split <;> rfl
  | contact => rfl
  | line l => exact handle_user now server src _ me _
  | recompute => rfl

theorem run_control_iff (p : Piece) :
    (Piece.run now server src me p).control = me.control ↔ p.SaysNothing me.user me.control := by
  cases p with
  | welcome l =>
      rw [Piece.run, welcomeLine_eq, Piece.SaysNothing]
      cases hnumbers : numbers l with
      | none => exact iff_of_true rfl fun _ h => absurd h (Option.some_ne_none _).symm
      | some x =>
          obtain ⟨cid, pid⟩ := x
          constructor
          · intro h y hy
            rw [← Option.some.inj hy]
            exact congrArg (fun c : Control => (c.channelId, c.myPeerId)) h
          · intro h
            obtain ⟨rfl, rfl⟩ := Prod.mk.inj (h _ rfl)
            rfl
  | contact =>
      exact iff_of_true ((control_peers me _).mpr
        (Vec.map_modifyFirst (f := ensureConnected now) (fun _ => rfl) _)) trivial
  | line l => exact handle_control_iff now server src _ me _
  | recompute => exact iff_of_true rfl trivial

end SaysNothing

/-- A datagram from `src` leaves what the server is to decide as it is, at every
piece of it. -/
def Listening.Unmoved (now : Instant) (server src : SocketAddr) (bytes : Bytes) (st : Listening) :
    Prop :=
  Always (Piece.run now server src) (fun me => me.control = st.me.control) st.me
    (pieces st.inSetup bytes)

/-- **When a datagram from a peer moves nothing.**  When nothing is new that is said
in what `recv_from` has read of it; then the client is, at the end, under the
control it was under before. -/
theorem unmoved_iff (now : Instant) (server src : SocketAddr) (hsrc : src ≠ server)
    (bytes : Bytes) (st : Listening) :
    (st.Unmoved now server src bytes ↔
      ∀ p ∈ pieces st.inSetup bytes, p.SaysNothing st.me.user st.me.control) ∧
    (st.Unmoved now server src bytes →
      (st.step server (.datagram now src bytes)).me.control = st.me.control) := by
  constructor
  · have h := @always_iff_forall _ _ (Piece.run now server src)
      (fun me => me.control = st.me.control ∧ me.user = st.me.user)
      (Piece.SaysNothing st.me.user st.me.control) (fun me p hme => by
        rw [← hme.1, ← hme.2, run_user, run_control_iff]
        exact and_iff_left rfl) st.me (pieces st.inSetup bytes) ⟨rfl, rfl⟩
    rw [← h]
    constructor
    · intro hunmoved
      have huser : Always (Piece.run now server src) (fun me => me.user = st.me.user) st.me
          (pieces st.inSetup bytes) :=
        always_of_step (fun me p hme => (run_user now server src me p).trans hme) _ rfl
      exact hunmoved.and huser
    · exact fun hboth => hboth.mono fun _ hme => hme.1
  · intro hunmoved
    rw [step_eq_pieces now hsrc]
    exact after_of_always _ _ hunmoved

/-- Bob pings Ann. -/
theorem unmoved_ping :
    let server : SocketAddr := .v4 ⟨10, 0, 0, 9⟩ 2131
    let bob : SocketAddr := .v4 ⟨10, 0, 0, 2⟩ 4000
    let st : Listening := ⟨false, .fresh "ann".toList⟩
    (st.step server (.datagram 0 bob (asBytes "PING".toList))).me.control = st.me.control := by
  intro server bob st
  obtain ⟨hiff, hsame⟩ := unmoved_iff 0 server bob (by decide) (asBytes "PING".toList) st
  refine hsame (hiff.mpr fun p hp => ?_)
  have hpieces : pieces st.inSetup (asBytes "PING".toList) =
      [.contact, .line msgPing.text, .recompute] := by
    decide +kernel
  have hping : Heard.ofLine (trim msgPing.text) = .ping := by decide
  rw [hpieces] at hp
  simp only [List.mem_cons, List.not_mem_nil, or_false] at hp
  rcases hp with rfl | rfl | rfl
  · trivial
  · rw [Piece.SaysNothing, hping]
    trivial
  · trivial

/-- Bob tells Ann that she is the relay. -/
theorem moved_by_peer :
    let server : SocketAddr := .v4 ⟨10, 0, 0, 9⟩ 2131
    let bob : SocketAddr := .v4 ⟨10, 0, 0, 2⟩ 4000
    let st : Listening := ⟨false, .fresh "ann".toList⟩
    bob ≠ server ∧
      (st.step server (.datagram 0 bob (asBytes "MODE RELAY".toList))).me.control ≠
        st.me.control := by
  decide +kernel

end NatPiercer.Client
