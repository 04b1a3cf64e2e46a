/-
# `Client.Indexed` — the client, index by index

`src/client/handlers.rs` splits a line into `parts` and reads them by number:
`handle_mode_direct` reads `parts[3]`, and it is `handle_mode_line` that has
counted them.  The two loops of `src/bin/client.rs` take `&buf[..len]` of
what they have received.

These are the functions that do so, and the ones that call them, to `Option`;
each is then the function it is written after.
-/
import NatPiercer.Client.Setup
import NatPiercer.Proto.Indexed
import NatPiercer.Signaling.Server

namespace NatPiercer.Client.Indexed

open Text Utf8 Net Proto Signaling

/-! ## `handlers.rs` -/

/-- One line of `try_handle_welcome`. -/
def welcomeLine (line : Str) (me : Client) : Option Client :=
  let parts := splitWhitespace line
  if parts.length = 3 then do
    let word ← parts[0]?
    if word = msgWelcome then do
      let cid ← parts[1]?
      let pid ← parts[2]?
      match parseUnsigned (2 ^ 64 - 1) cid.text, parseUnsigned (2 ^ 32 - 1) pid.text with
      | some cid, some pid => return { me with channelId := .ofNat cid, myPeerId := .ofNat pid }
      | _, _ => return me
    else return me
  else return me

def tryHandleWelcome (s : Str) (me : Client) : Option Client :=
  (lines s).foldlM (fun me line => welcomeLine line me) me

def handleModeDirect (now : Instant) (parts : List Token) (me : Client) : Option Client := do
  let username ← parts[2]?
  let addrStr ← parts[3]?
  return me.handleModeDirect now username addrStr

def handleUserLeft (parts : List Token) (me : Client) : Option Client := do
  let username ← parts[1]?
  return me.handleUserLeft username

def handleModeLine (now : Instant) (line : Str) (me : Client) : Option Client :=
  let parts := splitWhitespace line
  if parts.isEmpty then return me
  else do
    let word ← parts[0]?
    if word = msgMode ∧ 2 ≤ parts.length then do
      let mode ← parts[1]?
      if mode = msgRelay then return me.handleModeRelay
      else if mode = msgServerRelay then
        if 3 ≤ parts.length then do
          let username ← parts[2]?
          return me.handleModeServerRelay username
        else return me
      else if mode = msgDirect ∧ 4 ≤ parts.length then handleModeDirect now parts me
      else return me
    else if word = msgUserLeft ∧ 2 ≤ parts.length then handleUserLeft parts me
    else return me

section Lines
variable (now : Instant) (server : SocketAddr)

def handleDataMessage (line : Str) (me : Client) : Option (Client × List Datagram) :=
  if startsWith line dataPrefix then
    let parts := splitn 3 ' ' line
    if 3 ≤ parts.length then do
      let sender ← parts[1]?
      -- the text is only printed
      let _text ← parts[2]?
      let me := me.markPeerConnectedByName now sender
      return (me,
        if me.isRelay then
          me.handleRelayMessageToPeers sender line ++
            if me.channelHasServerRelays then [tell server line] else []
        else [])
    else return (me, [])
  else return (me, [])

def processLine (src : SocketAddr) (line : Str) (me : Client) : Option (Client × List Datagram) :=
  if line = msgPing.text then return (me, handlePing src)
  else if line = msgPong.text then return (me.handlePong now src, [])
  else if line = msgHolePunch.text then return (me.handleHolePunch now src, [])
  else if startsWith line dataPrefix then handleDataMessage now server line me
  else do
    let me ← handleModeLine now line me
    return (me, [])

def processLines (src : SocketAddr) : List Str → Client → Option (Client × List Datagram)
  | [], me => return (me, [])
  | line :: rest, me =>
      if trim line = [] then processLines src rest me
      else do
        let (me, sent) ← processLine now server src (trim line) me
        let (me, more) ← processLines src rest me
        return (me, sent ++ more)

def processIncomingMessage (message : Str) (src : SocketAddr) (me : Client) :
    Option (Client × List Datagram) :=
  processLines now server src (lines message) me

end Lines

section Handlers
variable (now : Instant) (server src : SocketAddr) (line : Str) (me : Client)

theorem welcomeLine_eq_some : welcomeLine line me = some (me.welcomeLine line) := by
  unfold welcomeLine Client.welcomeLine
  rcases splitWhitespace line with _ | ⟨word, _ | ⟨cid, _ | ⟨pid, _ | ⟨_, parts⟩⟩⟩⟩
  · rfl
  · rfl
  · rfl
  · simp only [List.length_cons, List.length_nil, Nat.reduceAdd, if_true, List.getElem?_cons_zero,
      List.getElem?_cons_succ, Option.bind_eq_bind, Option.bind_some]
    split_ifs with hword
    · cases parseUnsigned (2 ^ 64 - 1) cid.text <;>
        cases parseUnsigned (2 ^ 32 - 1) pid.text <;> rfl
    · rfl
  · simp

theorem tryHandleWelcome_eq_some (s : Str) :
    tryHandleWelcome s me = some (me.tryHandleWelcome s) := by
  unfold tryHandleWelcome Client.tryHandleWelcome
  simp only [welcomeLine_eq_some]
  exact List.foldlM_pure (m := Option)

theorem handleModeLine_eq_some :
    handleModeLine now line me = some (me.handleModeLine now line) := by
  unfold handleModeLine Client.handleModeLine
  rcases splitWhitespace line with _ | ⟨word, _ | ⟨mode, _ | ⟨username, _ | ⟨addr, parts⟩⟩⟩⟩
  · rfl
  · simp
  · simp only [List.isEmpty_cons, Bool.false_eq_true, if_false, List.length_cons, List.length_nil,
      Nat.reduceAdd, Nat.reduceLeDiff, Nat.le_refl, and_true, and_false, List.getElem?_cons_zero,
      List.getElem?_cons_succ, Option.bind_eq_bind, Option.bind_some, handleUserLeft]
    split_ifs <;> rfl
  · simp only [List.isEmpty_cons, Bool.false_eq_true, if_false, List.length_cons, List.length_nil,
      Nat.reduceAdd, Nat.reduceLeDiff, Nat.le_refl, and_true, and_false, List.getElem?_cons_zero,
      List.getElem?_cons_succ, Option.bind_eq_bind, Option.bind_some, handleUserLeft]
    split_ifs <;> rfl
  · have hfour : 4 ≤ (word :: mode :: username :: addr :: parts).length :=
      Nat.le_add_left 4 parts.length
    have hthree : 3 ≤ (word :: mode :: username :: addr :: parts).length :=
      Nat.le_of_succ_le hfour
    have htwo : 2 ≤ (word :: mode :: username :: addr :: parts).length :=
      Nat.le_of_succ_le hthree
    simp only [List.isEmpty_cons, Bool.false_eq_true, if_false, htwo, hthree, hfour, and_true,
      if_true, List.getElem?_cons_zero, List.getElem?_cons_succ, Option.bind_eq_bind,
      Option.bind_some, handleUserLeft, handleModeDirect]
    split_ifs <;> rfl

theorem handleDataMessage_eq_some :
    handleDataMessage now server line me = some (me.handleDataMessage now server line) := by
  unfold handleDataMessage Client.handleDataMessage
  have hlen := length_splitn_le ' ' 3 line
  generalize splitn 3 ' ' line = parts at hlen
  split_ifs with hdata
  · rcases parts with _ | ⟨word, _ | ⟨sender, _ | ⟨text, _ | ⟨_, parts⟩⟩⟩⟩
    · rfl
    · rfl
    · rfl
    · rfl
    · exact absurd hlen (Nat.not_le_of_lt (Nat.le_add_left 4 parts.length))
  · rfl

theorem processLine_eq_some :
    processLine now server src line me = some (me.processLine now server src line) := by
  unfold processLine Client.processLine
  rw [handleDataMessage_eq_some, handleModeLine_eq_some]
  split_ifs <;> rfl

theorem processLines_eq_some (ls : List Str) :
    processLines now server src ls me = some (Client.processLines now server src ls me) := by
  induction ls generalizing me with
  | nil => rfl
  | cons line rest ih =>
      rw [processLines, Client.processLines, processLine_eq_some]
      split_ifs with hblank
      · exact ih me
      · dsimp only [Option.bind_eq_bind, Option.bind_some]
        rw [ih]
        rfl

end Handlers

/-! ## `client.rs` -/

/-- One line of `process_server_response`, trimmed. -/
def responseLine (line : Str) (me : Client) : Option Client :=
  let me := if line = unwords [msgMode, msgRelay] then
      { me with sendViaServer := false, paused := false } else me
  if startsWith line (unwords [msgMode, msgServerRelay] ++ [' ']) then
    let parts := splitWhitespace line
    if 3 ≤ parts.length then do
      let who ← parts[2]?
      if who.text = me.user then return { me with sendViaServer := true, paused := true }
      else if me.isRelay then return { me with channelHasServerRelays := true }
      else return me
    else return me
  else return me

def processServerResponse (response : Str) (me : Client) : Option Client :=
  if (lines response).any fun l => startsWith (trimStart l) modePrefix then
    (lines response).foldlM (fun me line => responseLine (trim line) me) me
  else return me

section Receive
variable (now : Instant) (server src : SocketAddr)

/-- A text, in `handle_recv_result`. -/
def setupText (s : Str) (me : Client) : Option (Client × Bool × List Datagram) :=
  if src = server then do
    let (me, sent) ← processIncomingMessage now server s src me
    let me ← processServerResponse s me
    return (me.updateRelayIsActive, holdsMode s, sent)
  else do
    let (me, sent) ← processIncomingMessage now server s src (me.handlePeerMessage now src)
    return (me, false, sent)

/-- `handle_recv_result`, of `len` bytes in `buf`. -/
def handleRecvResult (buf : Buffer) (len : Nat) (me : Client) :
    Option (Client × Bool × List Datagram) := do
  let bytes ← Vec.slice 0 len buf.bytes
  let decoded ← Proto.Indexed.decode bytes
  match decoded with
  | some (hdr, payload) =>
      match hdr.kind with
      | .control =>
          match fromUtf8 payload with
          | some s => do
              let me ← tryHandleWelcome s me
              setupText now server src s me
          | none => return (me, false, [])
      | .dtls | .srtp => return (me, false, [])
  | none => do
      let bytes ← Vec.slice 0 len buf.bytes
      setupText now server src (fromUtf8Lossy bytes) me

def receiveControl (s : Str) (me : Client) : Option (Client × List Datagram) := do
  let me ← tryHandleWelcome s me
  processIncomingMessage now server s src me

def receiveText (message : Str) (me : Client) : Option (Client × List Datagram) :=
  if src = server then do
    let (me, sent) ← processIncomingMessage now server message src me
    let me ← processServerResponse message me
    return (me.updateRelayIsActive, sent)
  else do
    let (me, sent) ← processIncomingMessage now server message src (me.handlePeerMessage now src)
    return (me.updateRelayIsActive, sent)

/-- The body of `main_loop`, for `len` bytes in `buf`. -/
def receive (buf : Buffer) (len : Nat) (me : Client) : Option (Client × List Datagram) := do
  let bytes ← Vec.slice 0 len buf.bytes
  let decoded ← Proto.Indexed.decode bytes
  match decoded with
  | some (hdr, payload) =>
      match hdr.kind with
      | .control =>
          match fromUtf8 payload with
          | some s => receiveControl now server src s me
          | none => return (me, [])
      | .dtls | .srtp => return (me, [])
  | none => do
      let bytes ← Vec.slice 0 len buf.bytes
      receiveText now server src (fromUtf8Lossy bytes) me

variable (me : Client)

theorem responseLine_eq_some (line : Str) : responseLine line me = some (me.responseLine line) := by
  unfold responseLine Client.responseLine
  dsimp only
  generalize (if line = unwords [msgMode, msgRelay] then
    { me with sendViaServer := false, paused := false } else me) = me
  cases startsWith line (unwords [msgMode, msgServerRelay] ++ [' ']) with
  | false => rfl
  | true =>
      rcases splitWhitespace line with _ | ⟨word, _ | ⟨mode, _ | ⟨who, parts⟩⟩⟩
      · rfl
      · rfl
      · rfl
      · have hthree : 3 ≤ (word :: mode :: who :: parts).length := Nat.le_add_left 3 parts.length
        simp only [if_true, hthree, List.getElem?_cons_zero, List.getElem?_cons_succ,
          Option.bind_eq_bind, Option.bind_some]
        split_ifs <;> rfl

theorem processServerResponse_eq_some (response : Str) :
    processServerResponse response me = some (me.processServerResponse response) := by
  unfold processServerResponse Client.processServerResponse
  simp only [responseLine_eq_some]
  split_ifs with hmode
  · exact List.foldlM_pure (m := Option)
  · rfl

theorem setupText_eq_some (s : Str) :
    setupText now server src s me = some (me.setupText now server src s) := by
  unfold setupText Client.setupText processIncomingMessage Client.processIncomingMessage
  simp only [processLines_eq_some, processServerResponse_eq_some, Option.bind_eq_bind,
    Option.bind_some]
  split_ifs <;> rfl

theorem receiveText_eq_some (message : Str) :
    receiveText now server src message me = some (me.receiveText now server src message) := by
  unfold receiveText Client.receiveText processIncomingMessage Client.processIncomingMessage
  simp only [processLines_eq_some, processServerResponse_eq_some, Option.bind_eq_bind,
    Option.bind_some]
  split_ifs <;> rfl

theorem receiveControl_eq_some (s : Str) :
    receiveControl now server src s me = some (me.receiveControl now server src s) := by
  unfold receiveControl Client.receiveControl
  rw [tryHandleWelcome_eq_some]
  exact processLines_eq_some now server src _ (lines s)

variable {len : Nat} (hlen : len ≤ 2048) (buf : Buffer)
include hlen

theorem slice_buf : Vec.slice 0 len buf.bytes = some (buf.upTo len) :=
  Vec.slice_zero (hlen.trans_eq buf.length_bytes.symm)

theorem handleRecvResult_eq_some :
    handleRecvResult now server src buf len me =
      some (me.handleRecvResult now server src (buf.upTo len)) := by
  unfold handleRecvResult
  simp only [slice_buf hlen, Proto.Indexed.decode_eq_some, tryHandleWelcome_eq_some,
    setupText_eq_some, Option.bind_eq_bind, Option.bind_some]
  refine (Reading.elim_ofBytes (buf.upTo len)
    (fun s => some ((me.tryHandleWelcome s).setupText now server src s)) (some (me, false, []))
    fun s => some (me.setupText now server src s)).trans ?_
  rw [handleRecvResult_eq]
  cases Reading.ofBytes (buf.upTo len) <;> rfl

theorem receive_eq_some :
    receive now server src buf len me = some (me.receive now server src (buf.upTo len)) := by
  unfold receive
  simp only [slice_buf hlen, Proto.Indexed.decode_eq_some, receiveControl_eq_some,
    receiveText_eq_some, Option.bind_eq_bind, Option.bind_some]
  refine (Reading.elim_ofBytes (buf.upTo len)
    (fun s => some (me.receiveControl now server src s)) (some (me, []))
    fun s => some (me.receiveText now server src s)).trans ?_
  rw [receive_eq]
  cases Reading.ofBytes (buf.upTo len) <;> rfl

end Receive

end NatPiercer.Client.Indexed
