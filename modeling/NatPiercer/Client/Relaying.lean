/-
# `Client.Relaying` — a line of `DATA` at a client

A line that is typed goes out as `DATA <user> <message>`, with a newline; a
relay sends it on as it read it, trimmed.  Either way every client reads the
same line (`lines_of_carries`).

Where a client sends it on to is decided by three things: whether it is a
relay, whether it mirrors to the server, and who is in its table where.  No
line of `DATA` changes any of them (`receive_data`).
-/
import NatPiercer.Client.Hearing

namespace NatPiercer.Client

open Text Utf8 Net Proto Signaling

/-! ## The line -/

/-- What `stdin.lines()` yields, and is not skipped as blank. -/
structure TypedLine where
  text : Str
  oneLine : '\n' ∉ text
  notBlank : trim text ≠ []

/-- The line as it is sent, and as it is read. -/
def TypedLine.data (typed : TypedLine) (user : Token) : Str := dataLine user.text (trim typed.text)

/-- And under a name that is no word, as an empty one is not. -/
def TypedLine.dataOf (typed : TypedLine) (user : Str) : Str := dataLine user (trim typed.text)

/-- The payload holds the line and nothing else. -/
def Carries (line : Str) (payload : Bytes) : Prop :=
  payload = asBytes line ∨ payload = asBytes (line ++ ['\n'])

section Name
variable (typed : TypedLine) (user : Str)

theorem dataOf_eq (y : Str) : typed.dataOf user ++ y =
    msgData.text ++ ' ' :: (user ++ ' ' :: (trim typed.text ++ y)) := by
  simp [TypedLine.dataOf, dataLine, dataPrefix, List.append_assoc]

theorem startsWith_dataOf : startsWith (typed.dataOf user) dataPrefix = true := by
  rw [TypedLine.dataOf, dataLine, List.append_assoc, startsWith_append]

theorem mem_of_mem_trim {s : Str} {c : Char} (h : c ∈ trim s) : c ∈ s :=
  (List.dropWhile_sublist _).subset ((List.rdropWhile_prefix _ _).sublist.subset h)

theorem dataOf_ne_text {t : Token} (ht : startsWith t.text dataPrefix = false) :
    typed.dataOf user ≠ t.text := by
  intro heq
  have hstart := startsWith_dataOf typed user
  rw [heq, ht] at hstart
  exact Bool.false_ne_true hstart

@[simp] theorem trim_dataOf : trim (typed.dataOf user) = typed.dataOf user := by
  have hsplit : typed.dataOf user = (dataPrefix ++ user ++ [' ']) ++ trim typed.text := by
    simp [TypedLine.dataOf, dataLine, List.append_assoc]
  rw [hsplit]
  exact trim_append rfl (List.cons_ne_nil _ _) (List.rdropWhile_idempotent _ _) typed.notBlank

theorem dataOf_ne_nil : typed.dataOf user ≠ [] := List.cons_ne_nil _ _

variable {user}

theorem newline_not_mem_dataOf (huser : Solid user) : '\n' ∉ typed.dataOf user := by
  have hname : '\n' ∉ user := fun h => absurd (huser _ h) (by decide)
  have hmessage : '\n' ∉ trim typed.text := fun h => typed.oneLine (mem_of_mem_trim h)
  have hword : '\n' ∉ dataPrefix := by decide
  rw [TypedLine.dataOf, dataLine, List.mem_append, List.mem_append, List.mem_cons]
  rintro ((h | h) | h | h)
  · exact hword h
  · exact hname h
  · exact absurd h (by decide)
  · exact hmessage h

/-- The words of the line, as a parser cuts them: the message is not cut. -/
theorem splitn_dataOf (huser : Solid user) (y : Str) :
    splitn 3 ' ' (typed.dataOf user ++ y) = [msgData.text, user, trim typed.text ++ y] := by
  have hname : ' ' ∉ user := fun h => absurd (huser _ h) (by decide)
  rw [dataOf_eq, splitn_append_cons 1 _ (by decide), splitn_append_cons 0 _ hname]
  rfl

variable {typed} {payload : Bytes}

theorem lines_dataOf (huser : Solid user) (h : Carries (typed.dataOf user) payload) :
    lines (fromUtf8Lossy payload) = [typed.dataOf user] := by
  have hline := newline_not_mem_dataOf typed huser
  rcases h with rfl | rfl
  · rw [fromUtf8Lossy_asBytes, lines_of_not_mem hline (dataOf_ne_nil typed user)]
  · have hlast : (typed.dataOf user).getLast? ≠ some '\r' := by
      intro hcr
      have hself := trim_dataOf typed user
      obtain ⟨init, hinit⟩ := List.getLast?_eq_some_iff.mp hcr
      have hstart : trimStart (typed.dataOf user) = typed.dataOf user := rfl
      rw [trim, hstart, hinit, List.rdropWhile_concat_pos _ _ _ (by decide)] at hself
      have hlen := congrArg List.length hself
      have hle := (List.rdropWhile_prefix isWhitespace init).length_le
      rw [List.length_append, List.length_singleton] at hlen
      omega
    rw [fromUtf8Lossy_asBytes, lines_append_newline [] hline, stripCr, if_neg hlast, lines_nil]

theorem decode_dataOf (h : Carries (typed.dataOf user) payload) : decode payload = none := by
  rcases h with rfl | rfl
  · exact decode_eq_none_of_head (b := 0x44) _ (by decide)
  · exact decode_eq_none_of_head (b := 0x44) _ (by decide)

end Name

section Line
variable (typed : TypedLine) (user : Token)

theorem data_eq (y : Str) : typed.data user ++ y =
    msgData.text ++ ' ' :: (user.text ++ ' ' :: (trim typed.text ++ y)) :=
  dataOf_eq typed user.text y

theorem startsWith_data : startsWith (typed.data user) dataPrefix = true :=
  startsWith_dataOf typed user.text

theorem data_ne_text {t : Token} (ht : startsWith t.text dataPrefix = false) :
    typed.data user ≠ t.text :=
  dataOf_ne_text typed user.text ht

@[simp] theorem trim_data : trim (typed.data user) = typed.data user :=
  trim_dataOf typed user.text

theorem splitn_data (y : Str) : splitn 3 ' ' (typed.data user ++ y) =
    [msgData.text, user.text, trim typed.text ++ y] :=
  splitn_dataOf typed user.solid.2 y

variable {typed user} {payload : Bytes}

theorem lines_of_carries (h : Carries (typed.data user) payload) :
    lines (fromUtf8Lossy payload) = [typed.data user] :=
  lines_dataOf user.solid.2 h

theorem decode_of_carries (h : Carries (typed.data user) payload) : decode payload = none :=
  decode_dataOf h

end Line

/-! ## Sending it on -/

/-- All that a client sends a line on by is the same. -/
structure SameRoutes (me me' : Client) : Prop where
  isRelay : me'.isRelay = me.isRelay
  mirrors : me'.channelHasServerRelays = me.channelHasServerRelays
  peers : (me'.peers.map fun p => (p.addr, p.username)) = me.peers.map fun p => (p.addr, p.username)

theorem SameRoutes.refl (me : Client) : SameRoutes me me := ⟨rfl, rfl, rfl⟩

theorem SameRoutes.symm {me me' : Client} (h : SameRoutes me me') : SameRoutes me' me :=
  ⟨h.isRelay.symm, h.mirrors.symm, h.peers.symm⟩

theorem SameRoutes.trans {me me' me'' : Client} (h : SameRoutes me me')
    (h' : SameRoutes me' me'') : SameRoutes me me'' :=
  ⟨h'.isRelay.trans h.isRelay, h'.mirrors.trans h.mirrors, h'.peers.trans h.peers⟩

/-- Where a client sends on a line of `sender`'s. -/
def relayed (server : SocketAddr) (sender : Token) (me : Client) : List SocketAddr :=
  if me.isRelay then
    (me.peers.filter fun p => p.username ≠ sender).map PeerInfo.addr ++
      if me.channelHasServerRelays then [server] else []
  else []

theorem SameRoutes.relayed {me me' : Client} (h : SameRoutes me me') (server : SocketAddr)
    (sender : Token) : me'.relayed server sender = me.relayed server sender := by
  have hpeers : ∀ me : Client, (me.peers.filter fun p => p.username ≠ sender).map PeerInfo.addr =
      ((me.peers.map fun p => (p.addr, p.username)).filter fun x => x.2 ≠ sender).map Prod.fst := by
    intro me
    rw [List.filter_map, List.map_map]
    rfl
  rw [Client.relayed, Client.relayed, h.isRelay, h.mirrors, hpeers, h.peers, ← hpeers]

/-- The entries changed in what nothing is sent by. -/
theorem sameRoutes_modify (p : PeerInfo → Bool) {f : PeerInfo → PeerInfo}
    (hf : ∀ e, ((f e).addr, (f e).username) = (e.addr, e.username)) (me : Client) :
    SameRoutes me { me with peers := Vec.modifyFirst p f me.peers } :=
  ⟨rfl, rfl, Vec.map_modifyFirst (g := fun e : PeerInfo => (e.addr, e.username)) hf me.peers⟩

theorem sameRoutes_active (me : Client) : SameRoutes me me.updateRelayIsActive := ⟨rfl, rfl, rfl⟩

section Receive
variable (now : Instant) (server src : SocketAddr) (me : Client)

theorem sameRoutes_touch (p : PeerInfo → Bool) :
    SameRoutes me { me with peers := Vec.modifyFirst p (ensureConnected now) me.peers } :=
  sameRoutes_modify p (f := ensureConnected now) (fun _ => rfl) me

variable {typed : TypedLine} {user : Token} {payload : Bytes}

/-- The line is handed over as it is. -/
theorem processIncomingMessage_dataOf {user : Str} (huser : Solid user)
    (h : Carries (typed.dataOf user) payload) :
    me.processIncomingMessage now server (fromUtf8Lossy payload) src =
      me.handleDataMessage now server (typed.dataOf user) := by
  have hne : ∀ t : Token, startsWith t.text dataPrefix = false → typed.dataOf user ≠ t.text :=
    fun t ht => dataOf_ne_text typed user ht
  have hline : me.processLine now server src (typed.dataOf user) =
      me.handleDataMessage now server (typed.dataOf user) := by
    unfold processLine
    rw [if_neg (hne _ (by decide)), if_neg (hne _ (by decide)), if_neg (hne _ (by decide)),
      if_pos (startsWith_dataOf typed user)]
  unfold processIncomingMessage
  rw [lines_dataOf huser h, processLines, trim_dataOf, if_neg (dataOf_ne_nil typed user), hline]
  dsimp only
  rw [processLines, List.append_nil]

theorem processIncomingMessage_data (h : Carries (typed.data user) payload) :
    SameRoutes me (me.processIncomingMessage now server (fromUtf8Lossy payload) src).1 ∧
      (me.processIncomingMessage now server (fromUtf8Lossy payload) src).2 =
        (me.relayed server user).map fun a => tell a (typed.data user) := by
  have hsplit := splitn_data typed user []
  rw [List.append_nil] at hsplit
  have hmark : SameRoutes me (me.markPeerConnectedByName now user.text) :=
    sameRoutes_touch now me fun p => p.username.text = user.text
  have htext : ∀ p : PeerInfo, decide (p.username.text ≠ user.text) =
      decide (p.username ≠ user) := fun p =>
    decide_eq_decide.mpr (not_congr ⟨Token.ext, congrArg Token.text⟩)
  rw [processIncomingMessage_dataOf now server src me user.solid.2 h]
  change SameRoutes me (me.handleDataMessage now server (typed.data user)).1 ∧
    (me.handleDataMessage now server (typed.data user)).2 = _
  unfold handleDataMessage
  rw [if_pos (startsWith_data typed user), hsplit]
  refine ⟨hmark, ?_⟩
  rw [← hmark.relayed]
  dsimp only
  generalize me.markPeerConnectedByName now user.text = marked
  unfold Client.relayed handleRelayMessageToPeers
  simp only [htext]
  split_ifs
  · rw [List.map_append, List.map_map]
    rfl
  · rw [List.append_nil, List.append_nil, List.map_map]
    rfl
  · rfl

/-- The server's `DATA` has no answer. -/
theorem processServerResponse_data (h : Carries (typed.data user) payload) :
    me.processServerResponse (fromUtf8Lossy payload) = me := by
  unfold processServerResponse
  rw [lines_of_carries h, if_neg]
  rw [List.any_cons, List.any_nil, Bool.or_false]
  exact Bool.false_ne_true

/-- **A line of `DATA` at a client.**  It changes nothing that the client sends
lines on by. -/
theorem receive_data (h : Carries (typed.data user) payload) :
    SameRoutes me (me.receive now server src payload).1 ∧
      (me.receive now server src payload).2 =
        (me.relayed server user).map fun a => tell a (typed.data user) := by
  unfold receive receiveText
  rw [decode_of_carries h]
  dsimp only
  split_ifs
  · obtain ⟨hroutes, hsent⟩ := processIncomingMessage_data now server src me h
    rw [processServerResponse_data _ h]
    exact ⟨hroutes.trans (sameRoutes_active _), hsent⟩
  · have htouch : SameRoutes me (me.handlePeerMessage now src) :=
      sameRoutes_touch now me fun p => p.addr = src
    obtain ⟨hroutes, hsent⟩ :=
      processIncomingMessage_data now server src (me.handlePeerMessage now src) h
    exact ⟨(htouch.trans hroutes).trans (sameRoutes_active _), hsent.trans (by rw [htouch.relayed])⟩

/-- Where a line that is typed goes. -/
def addressed (me : Client) : List SocketAddr :=
  if me.sendViaServer then [server]
  else
    (me.peers.filter fun p => !p.useServerRelay).map PeerInfo.addr ++
      if me.isRelay && me.channelHasServerRelays then [server] else []

theorem userInput_typed (typed : TypedLine) (hme : me.user = user.text) :
    me.userInput server typed.text =
      (me.addressed server).map fun a => tell a (typed.data user ++ ['\n']) := by
  unfold userInput handleUserMessage addressed
  rw [if_neg typed.notBlank, hme]
  dsimp only
  split_ifs <;> simp [TypedLine.data]

end Receive

end NatPiercer.Client
