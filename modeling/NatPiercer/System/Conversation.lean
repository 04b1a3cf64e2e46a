/-
# `System.Conversation` — what is said arrives as it was said

A line that is typed may take any way: from its author to a peer, from a
relay to its peers and to the server, from the server to whoever needs it,
and so on.  A client sends on the line that it has read, trimmed; the server
sends on the datagram, as it came; and each looks for a packet first.  What
stays the same on the way is `Carries`: one line, with a newline or without.

So after any route a client prints the name and the text that were typed
(`conversation_survives`).  Both are read off the line by its first two
blanks, so the name may have no blank in it, and the text may have any.
-/
import Mathlib.Logic.Relation
import NatPiercer.Client.Setup
import NatPiercer.Signaling.Server
import NatPiercer.System.Announcements

namespace NatPiercer.System

open Text Utf8 Net Proto LockProg Signaling Client

/-! ## What a client reads -/

/-- The sender and the text, as `handle_data_message` prints them. -/
def printed (line : Str) : Option (Str × Str) :=
  if startsWith line dataPrefix then
    match splitn 3 ' ' line with
    | [_, sender, text] => some (sender, text)
    | _ => none
  else none

/-- All that is printed for a datagram, line by line. -/
def printedIn (payload : Bytes) : List (Str × Str) :=
  ((textIn payload).elim [] lines).filterMap fun line => printed (trim line)

/-- `handle_data_message` goes by the sender that it prints. -/
theorem handleDataMessage_eq (now : Instant) (server : SocketAddr) (line : Str) (me : Client) :
    me.handleDataMessage now server line =
      match printed line with
      | some (sender, _) =>
          (me.markPeerConnectedByName now sender,
            if me.isRelay then
              (me.markPeerConnectedByName now sender).handleRelayMessageToPeers sender line ++
                if me.channelHasServerRelays then [tell server line] else []
            else [])
      | none => (me, []) := by
  unfold handleDataMessage printed
  by_cases hstart : startsWith line dataPrefix = true
  · rw [if_pos hstart, if_pos hstart]
    rcases splitn 3 ' ' line with _ | ⟨_, _ | ⟨_, _ | ⟨_, _ | ⟨_, _⟩⟩⟩⟩ <;> rfl
  · rw [if_neg hstart, if_neg hstart]

/-- What is sent on is the line itself. -/
theorem payload_of_mem_handleDataMessage {now : Instant} {server : SocketAddr} {line : Str}
    {me : Client} {d : Datagram} (h : d ∈ (me.handleDataMessage now server line).2) :
    d.payload = asBytes line := by
  rw [handleDataMessage_eq] at h
  split at h
  · dsimp only at h
    split_ifs at h
    · rcases List.mem_append.mp h with h | h
      · obtain ⟨peer, -, rfl⟩ := List.mem_map.mp h
        rfl
      · rw [List.mem_singleton.mp h]
        rfl
    · rw [List.append_nil] at h
      obtain ⟨peer, -, rfl⟩ := List.mem_map.mp h
      rfl
    · exact absurd h List.not_mem_nil
  · exact absurd h List.not_mem_nil

/-! ## One hop -/

/-- For a datagram that holds `p`, another is sent that holds `q`: by a client, in
either of its loops, or by the server; whoever it comes from, and whatever they
know. -/
inductive SentOn (p : Bytes) : Bytes → Prop
  | client {me : Client} {now : Instant} {server src : SocketAddr} {d : Datagram}
      (h : d ∈ (me.receive now server src (received p)).2) : SentOn p d.payload
  | setup {me : Client} {now : Instant} {server src : SocketAddr} {d : Datagram}
      (h : d ∈ (me.handleRecvResult now server src (received p)).2.2) : SentOn p d.payload
  | server {history : List Arrival} {st : ServerMap} {amb : Ambient} {src : SocketAddr}
      {text : Str} {d : Datagram} (htext : dispatched history ⟨.main, p, src⟩ = some text)
      (h : d ∈ st.sent (.message amb text src)) : SentOn p d.payload

section Hop
variable {typed : TypedLine} {user : Str} {payload : Bytes}

/-- All of it is received, if the line fits with its newline. -/
theorem received_dataOf (hsize : byteLen (typed.dataOf user ++ ['\n']) ≤ 2048)
    (h : Carries (typed.dataOf user) payload) : received payload = payload := by
  refine List.take_of_length_le ?_
  rcases h with rfl | rfl
  · rw [byteLen_append] at hsize
    exact (Nat.le_add_right _ _).trans hsize
  · exact hsize

theorem mem_incoming_dataOf (huser : Solid user) (h : Carries (typed.dataOf user) payload)
    {now : Instant} {server src : SocketAddr} {me : Client} {d : Datagram}
    (hd : d ∈ (me.processIncomingMessage now server (fromUtf8Lossy payload) src).2) :
    d.payload = asBytes (typed.dataOf user) := by
  rw [processIncomingMessage_dataOf now server src me huser h] at hd
  exact payload_of_mem_handleDataMessage hd

theorem mem_receive_dataOf (huser : Solid user) (h : Carries (typed.dataOf user) payload)
    {now : Instant} {server src : SocketAddr} {me : Client} {d : Datagram}
    (hd : d ∈ (me.receive now server src payload).2) : d.payload = asBytes (typed.dataOf user) := by
  unfold receive receiveText at hd
  rw [decode_dataOf h] at hd
  dsimp only at hd
  split_ifs at hd
  · exact mem_incoming_dataOf huser h hd
  · exact mem_incoming_dataOf huser h hd

theorem mem_handleRecvResult_dataOf (huser : Solid user)
    (h : Carries (typed.dataOf user) payload) {now : Instant} {server src : SocketAddr}
    {me : Client} {d : Datagram} (hd : d ∈ (me.handleRecvResult now server src payload).2.2) :
    d.payload = asBytes (typed.dataOf user) := by
  unfold handleRecvResult setupText at hd
  rw [decode_dataOf h] at hd
  dsimp only at hd
  split_ifs at hd
  · exact mem_incoming_dataOf huser h hd
  · exact mem_incoming_dataOf huser h hd

/-- To the server it is a line of `DATA`, or, if the name is empty and the text one
word, nothing that it knows. -/
theorem ofText_dataOf (h : Carries (typed.dataOf user) payload) :
    Request.ofText (fromUtf8Lossy payload) = .data ∨
      Request.ofText (fromUtf8Lossy payload) = .unknown := by
  have hdata : ∀ y, Request.ofText (typed.dataOf user ++ y) = .data ∨
      Request.ofText (typed.dataOf user ++ y) = .unknown := by
    intro y
    have hwords : splitWhitespace (typed.dataOf user ++ y) =
        msgData :: splitWhitespace (user ++ ' ' :: (trim typed.text ++ y)) := by
      rw [dataOf_eq, splitWhitespace_append_cons _ _ (by decide), splitWhitespace_text]
      rfl
    rw [Request.ofText_of_data rfl hwords]
    split_ifs
    · exact Or.inl rfl
    · exact Or.inr rfl
  rcases h with rfl | rfl
  · rw [fromUtf8Lossy_asBytes, ← List.append_nil (typed.dataOf user)]
    exact hdata []
  · rw [fromUtf8Lossy_asBytes]
    exact hdata _

/-- The server sends it on as it came, or not at all. -/
theorem mem_sent_dataOf (h : Carries (typed.dataOf user) payload) {st : ServerMap} {amb : Ambient}
    {src : SocketAddr} {d : Datagram}
    (hd : d ∈ st.sent (.message amb (fromUtf8Lossy payload) src)) : d.payload = payload := by
  have hlossy : asBytes (fromUtf8Lossy payload) = payload := by
    rcases h with rfl | rfl <;> rw [fromUtf8Lossy_asBytes]
  have hreq := ofText_dataOf h
  rcases mem_sent_iff.mp hd with ⟨s, c, hd⟩ | ⟨amb', text, src', hl, hd⟩
  · unfold ServerStep.told at hd
    dsimp only at hd
    rcases hreq with hreq | hreq <;> rw [hreq] at hd <;> exact absurd hd List.not_mem_nil
  · obtain ⟨-, rfl, -⟩ := ServerStep.message.inj hl
    rcases hd with ⟨hprobe, -⟩ | ⟨-, hd⟩
    · rcases hreq with hreq | hreq <;> rw [hreq] at hprobe <;> cases hprobe
    · rw [← hlossy]
      exact payload_of_mem_dataSent hd

/-- A hop keeps the wire form. -/
theorem carries_of_sentOn (huser : Solid user)
    (hsize : byteLen (typed.dataOf user ++ ['\n']) ≤ 2048) {next : Bytes}
    (h : Carries (typed.dataOf user) payload) (hon : SentOn payload next) :
    Carries (typed.dataOf user) next := by
  have hreceived := received_dataOf hsize h
  cases hon with
  | client hd =>
      rw [hreceived] at hd
      exact Or.inl (mem_receive_dataOf huser h hd)
  | setup hd =>
      rw [hreceived] at hd
      exact Or.inl (mem_handleRecvResult_dataOf huser h hd)
  | server htext hd =>
      rw [dispatched_main, hreceived, dispatchText, framed, decode_dataOf h] at htext
      obtain rfl := Option.some.inj htext
      rw [mem_sent_dataOf h hd]
      exact h

end Hop

/-! ## Any route -/

theorem printed_dataOf (typed : TypedLine) {user : Str} (huser : Solid user) :
    printed (typed.dataOf user) = some (user, trim typed.text) := by
  have hsplit := splitn_dataOf typed huser []
  rw [List.append_nil, List.append_nil] at hsplit
  unfold printed
  rw [if_pos (startsWith_dataOf typed user), hsplit]

theorem printedIn_dataOf {typed : TypedLine} {user : Str} {payload : Bytes} (huser : Solid user)
    (h : Carries (typed.dataOf user) payload) :
    printedIn payload = [(user, trim typed.text)] := by
  unfold printedIn textIn
  rw [decode_dataOf h]
  dsimp only
  rw [Option.elim_some, lines_dataOf huser h, List.filterMap_cons, trim_dataOf,
    printed_dataOf typed huser, List.filterMap_nil]

theorem carries_of_mem_userInput {me : Client} {typed : TypedLine} {server : SocketAddr}
    {d : Datagram} (h : d ∈ me.userInput server typed.text) :
    Carries (typed.dataOf me.user) d.payload := by
  unfold userInput handleUserMessage at h
  rw [if_neg typed.notBlank] at h
  dsimp only at h
  refine Or.inr ?_
  split_ifs at h
  · rw [List.mem_singleton.mp h]
    rfl
  · rcases List.mem_append.mp h with h | h
    · obtain ⟨peer, -, rfl⟩ := List.mem_map.mp h
      rfl
    · rw [List.mem_singleton.mp h]
      rfl
  · rw [List.append_nil] at h
    obtain ⟨peer, -, rfl⟩ := List.mem_map.mp h
    rfl

/-- **Conversation text survives any route.**  Whoever types a line, under a name
without whitespace, and whichever way it takes through clients and the server: who
receives it prints that name, and the line, trimmed, and nothing else. -/
theorem conversation_survives (me : Client) (huser : Solid me.user) (typed : TypedLine)
    (hsize : byteLen (dataLine me.user (trim typed.text) ++ ['\n']) ≤ 2048) (server : SocketAddr)
    (d : Datagram) (hd : d ∈ me.userInput server typed.text) (p : Bytes)
    (hroute : Relation.ReflTransGen SentOn d.payload p) :
    printedIn (received p) = [(me.user, trim typed.text)] := by
  have hcarries : Carries (typed.dataOf me.user) p := by
    induction hroute with
    | refl => exact carries_of_mem_userInput hd
    | tail _ hon ih => exact carries_of_sentOn huser hsize ih hon
  rw [received_dataOf hsize hcarries]
  exact printedIn_dataOf huser hcarries

/-- Bob says something to his relay Ann, she mirrors it to the server, and the server
sends it to Dave. -/
theorem conversation_survives_mirrored :
    printedIn (received (asBytes "DATA bob hi  there".toList)) =
      [("bob".toList, "hi  there".toList)] := by
  let server : SocketAddr := .v4 ⟨10, 0, 0, 9⟩ 2131
  let ann : SocketAddr := .v4 ⟨10, 0, 0, 1⟩ 4000
  let bob : SocketAddr := .v4 ⟨10, 0, 0, 2⟩ 4000
  let dave : SocketAddr := .v4 ⟨10, 0, 0, 3⟩ 4000
  let relay : Client :=
    { Client.fresh "ann".toList with isRelay := true, channelHasServerRelays := true }
  let author : Client :=
    { Client.fresh "bob".toList with peers := [newPeer 0 ⟨"ann".toList, by decide⟩ ann] }
  let st := after ServerMap.step ∅
    [.message ⟨0, 7⟩ "CONNECT s c ann CONE".toList ann,
      .message ⟨1, 8⟩ "CONNECT s c bob CONE".toList bob,
      .message ⟨2, 9⟩ "CONNECT s c dave SYMMETRIC".toList dave]
  let typed : TypedLine := ⟨" hi  there ".toList, by decide, by decide⟩
  have htyped : ⟨ann, asBytes "DATA bob hi  there\n".toList⟩ ∈
      author.userInput server typed.text := by decide
  have hmirrored : ⟨server, asBytes "DATA bob hi  there".toList⟩ ∈ (relay.receive 3 server bob
      (received (asBytes "DATA bob hi  there\n".toList))).2 := by decide +kernel
  have hread : dispatched [] ⟨.main, asBytes "DATA bob hi  there".toList, ann⟩ =
      some "DATA bob hi  there".toList := by decide +kernel
  have hsent : ⟨dave, asBytes "DATA bob hi  there".toList⟩ ∈
      st.sent (.message ⟨4, 10⟩ "DATA bob hi  there".toList ann) := by decide +kernel
  have huser : Solid author.user := (isWord_iff.mp (by decide : isWord "bob".toList = true)).2
  exact conversation_survives author huser typed (by decide +kernel) server _ htyped _
    ((Relation.ReflTransGen.single (.client hmirrored)).tail (.server hread hsent))

end NatPiercer.System
