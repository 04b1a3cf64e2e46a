/-
# `Client.Hearing` — what the server's texts do to a client

All the server ever tells a client is a list of control lines (`script`), a
bare `PING`, or a `WELCOME` packet.  Each control line does one thing in
`handle_mode_line` (`obey`) and one in `process_server_response`
(`answer`); a script does them line by line (`receive_script`), and the
other two change nothing that a client relays by.
-/
import NatPiercer.Client.Main
import NatPiercer.Signaling.ChannelStep

namespace NatPiercer.Client

open Text Utf8 Net Proto Signaling

/-- A line that the server writes. -/
inductive ControlLine
  | relay
  | direct (name : Token) (addr : SocketAddr)
  | serverRelay (name : Token)
  | userLeft (name addr : Token)
deriving DecidableEq

def ControlLine.words : ControlLine → List Token
  | relay => [msgMode, msgRelay]
  | direct name addr => [msgMode, msgDirect, name, addr.token]
  | serverRelay name => [msgMode, msgServerRelay, name]
  | userLeft name addr => [msgUserLeft, name, addr]

def ControlLine.text (l : ControlLine) : Str := line l.words

/-- Control lines, in one datagram. -/
def script (dst : SocketAddr) (ls : List ControlLine) : Datagram :=
  tell dst (ls.flatMap ControlLine.text)

/-- One line by itself. -/
theorem script_single (dst : SocketAddr) (l : ControlLine) : script dst [l] = tell dst l.text := by
  rw [script, List.flatMap_cons, List.flatMap_nil, List.append_nil]

/-- What `handle_mode_line` does at a control line. -/
def obey (now : Instant) (me : Client) : ControlLine → Client
  | .relay => me.handleModeRelay
  | .direct name addr => me.handleModeDirect now name addr.token
  | .serverRelay name => me.handleModeServerRelay name
  | .userLeft name _ => me.handleUserLeft name

/-- What `process_server_response` does at a control line. -/
def answer (me : Client) : ControlLine → Client
  | .relay => { me with sendViaServer := false, paused := false }
  | .serverRelay name =>
      if name.text = me.user then { me with sendViaServer := true, paused := true }
      else if me.isRelay then { me with channelHasServerRelays := true }
      else me
  | .direct _ _ | .userLeft _ _ => me

section Line
variable (now : Instant) (server src : SocketAddr) (l : ControlLine) (me : Client)

theorem handleModeLine_words : me.handleModeLine now (unwords l.words) = me.obey now l := by
  unfold handleModeLine
  rw [splitWhitespace_unwords]
  cases l <;> rfl

/-- The first word of a `DATA` line. -/
theorem head?_of_dataPrefix {s : Str} (h : startsWith s dataPrefix = true) :
    (splitWhitespace s).head? = some msgData := by
  obtain ⟨rest, rfl⟩ := List.isPrefixOf_iff_prefix.mp h
  rw [dataPrefix, List.append_assoc, List.singleton_append,
    splitWhitespace_append_cons _ _ (by decide), splitWhitespace_text]
  rfl

/-- Several words are not one. -/
theorem unwords_ne_text {ws : List Token} (hone : ∀ t, ws ≠ [t]) (t : Token) :
    unwords ws ≠ t.text := by
  intro heq
  apply hone t
  rw [← splitWhitespace_unwords ws, heq, splitWhitespace_text]

theorem startsWith_unwords_dataPrefix {ws : List Token} (hdata : ws.head? ≠ some msgData) :
    startsWith (unwords ws) dataPrefix = false := by
  by_contra hstart
  have hhead := head?_of_dataPrefix (by simpa using hstart)
  rw [splitWhitespace_unwords] at hhead
  exact hdata hhead

/-- Several words, the first of which is not `DATA`, are a control line. -/
theorem processLine_unwords {ws : List Token} (hone : ∀ t, ws ≠ [t])
    (hdata : ws.head? ≠ some msgData) :
    me.processLine now server src (unwords ws) = (me.handleModeLine now (unwords ws), []) := by
  have hne := unwords_ne_text hone
  unfold processLine
  rw [if_neg (hne _), if_neg (hne _), if_neg (hne _), startsWith_unwords_dataPrefix hdata,
    if_neg Bool.false_ne_true]

theorem words_ne_single (t : Token) : l.words ≠ [t] := by
  intro ht
  cases l <;> simp [ControlLine.words] at ht

theorem head?_words : l.words.head? ≠ some msgData := by
  have hhead : ∀ w : Token, w ≠ msgData → some w ≠ some msgData := fun w hw h =>
    hw (Option.some.inj h)
  cases l <;> exact hhead _ (by decide)

/-- A control line is read as one. -/
theorem processLine_words :
    me.processLine now server src (unwords l.words) = (me.obey now l, []) := by
  rw [processLine_unwords now server src me (words_ne_single l) (head?_words l),
    handleModeLine_words]

theorem unwords_words_ne_nil : unwords l.words ≠ [] := by
  cases l <;> exact List.cons_ne_nil _ _

theorem startsWith_append (x y : Str) : startsWith (x ++ y) x = true := by
  simp [startsWith]

theorem responseLine_words : me.responseLine (unwords l.words) = me.answer l := by
  unfold responseLine
  have hrelay : unwords l.words = unwords [msgMode, msgRelay] ↔ l = .relay := by
    constructor
    · intro h
      have hw := congrArg splitWhitespace h
      rw [splitWhitespace_unwords, splitWhitespace_unwords] at hw
      cases l <;> simp_all [ControlLine.words]
    · rintro rfl
      rfl
  simp only [hrelay]
  cases l with
  | relay => rfl
  | direct name addr => rfl
  | userLeft name addr => rfl
  | serverRelay name =>
      have hwords : unwords (ControlLine.serverRelay name).words =
          (unwords [msgMode, msgServerRelay] ++ [' ']) ++ name.text := by
        simp [ControlLine.words, unwords]
      have hstart : startsWith (unwords (ControlLine.serverRelay name).words)
          (unwords [msgMode, msgServerRelay] ++ [' ']) = true := by
        rw [hwords, startsWith_append]
      rw [if_pos hstart, splitWhitespace_unwords]
      rfl

end Line

/-! ## What a line can change -/

/-- Whether the line says that the server relays for a client other than `user`. -/
def ControlLine.mirrored (user : Str) : ControlLine → Bool
  | serverRelay name => name.text ≠ user
  | relay | direct _ _ | userLeft _ _ => false

section Flags
variable (now : Instant) (me : Client)

@[simp] theorem handleModeDirect_flags (n a : Token) :
    (me.handleModeDirect now n a).user = me.user ∧
    (me.handleModeDirect now n a).isRelay = me.isRelay ∧
    (me.handleModeDirect now n a).channelHasServerRelays = me.channelHasServerRelays := by
  unfold handleModeDirect
  split
  · split_ifs <;> exact ⟨rfl, rfl, rfl⟩
  · exact ⟨rfl, rfl, rfl⟩

theorem obey_flags (l : ControlLine) :
    (me.obey now l).user = me.user ∧
    (me.obey now l).isRelay = (me.isRelay || decide (l = .relay)) ∧
    (me.obey now l).channelHasServerRelays =
      (me.channelHasServerRelays || (me.isRelay && l.mirrored me.user)) := by
  cases l with
  | relay => simp [obey, handleModeRelay, ControlLine.mirrored]
  | direct n a => simp [obey, ControlLine.mirrored]
  | userLeft n a => simp [obey, handleUserLeft, ControlLine.mirrored]
  | serverRelay n =>
      change (me.handleModeServerRelay n).user = _ ∧ (me.handleModeServerRelay n).isRelay = _ ∧
        (me.handleModeServerRelay n).channelHasServerRelays = _
      unfold handleModeServerRelay
      split_ifs with h <;> simp [ControlLine.mirrored, h]

theorem foldl_obey_user (ls : List ControlLine) : (ls.foldl (obey now) me).user = me.user := by
  induction ls generalizing me with
  | nil => rfl
  | cons l ls ih => rw [List.foldl_cons, ih, (obey_flags now me l).1]

theorem foldl_obey_isRelay (ls : List ControlLine) :
    (ls.foldl (obey now) me).isRelay = (me.isRelay || decide (.relay ∈ ls)) := by
  induction ls generalizing me with
  | nil => simp
  | cons l ls ih =>
      rw [List.foldl_cons, ih, (obey_flags now me l).2.1, Bool.or_assoc]
      simp [eq_comm]

/-- Only what a relay hears counts. -/
theorem foldl_obey_mirrors {me : Client} (h : me.isRelay = true) (ls : List ControlLine) :
    (ls.foldl (obey now) me).channelHasServerRelays =
      (me.channelHasServerRelays || ls.any (ControlLine.mirrored me.user)) := by
  induction ls generalizing me with
  | nil => simp
  | cons l ls ih =>
      obtain ⟨huser, hrelay, hmirror⟩ := obey_flags now me l
      rw [List.foldl_cons, ih (by rw [hrelay, h, Bool.true_or]), hmirror, huser, h, Bool.true_and,
        List.any_cons, Bool.or_assoc]

theorem foldl_obey_silent {ls : List ControlLine} (me : Client)
    (h : ∀ l ∈ ls, l.mirrored me.user = false) :
    (ls.foldl (obey now) me).channelHasServerRelays = me.channelHasServerRelays := by
  induction ls generalizing me with
  | nil => rfl
  | cons l ls ih =>
      obtain ⟨huser, -, hmirror⟩ := obey_flags now me l
      rw [List.foldl_cons, ih _ fun l' hl' => by
        rw [huser]
        exact h l' (List.mem_cons_of_mem _ hl'), hmirror, h l List.mem_cons_self, Bool.and_false,
        Bool.or_false]

end Flags

/-! ## A script -/

section Script
variable (now : Instant) (server src : SocketAddr) (ls : List ControlLine) (me : Client)

theorem lines_script : lines (ls.flatMap ControlLine.text) = ls.map fun l => unwords l.words := by
  have h := lines_flatMap_line (ls.map ControlLine.words)
  rwa [List.flatMap_map, List.map_map] at h

/-- Line by line, as the handlers' `handle_mode_line` reads it. -/
theorem foldl_handleModeLine_script :
    (lines (ls.flatMap ControlLine.text)).foldl (fun me l => me.handleModeLine now l) me =
      ls.foldl (obey now) me := by
  rw [lines_script, List.foldl_map]
  simp only [handleModeLine_words]

theorem processIncomingMessage_script :
    me.processIncomingMessage now server (ls.flatMap ControlLine.text) src =
      (ls.foldl (obey now) me, []) := by
  unfold processIncomingMessage
  rw [lines_script]
  induction ls generalizing me with
  | nil => rfl
  | cons l ls ih =>
      rw [List.map_cons, processLines, trim_unwords, if_neg (unwords_words_ne_nil l),
        processLine_words]
      dsimp only
      rw [ih]
      rfl

/-- Lines that are not `MODE` lines have no answer, so that the test in front of
the loop changes nothing. -/
theorem processServerResponse_script :
    me.processServerResponse (ls.flatMap ControlLine.text) = ls.foldl answer me := by
  unfold processServerResponse
  rw [lines_script, List.foldl_map]
  simp only [trim_unwords, responseLine_words]
  split_ifs with h
  · rfl
  · have hleft : ∀ l ∈ ls, ∀ me : Client, me.answer l = me := by
      intro l hl me
      cases l with
      | userLeft name addr => rfl
      | direct name addr => rfl
      | relay =>
          refine absurd (List.any_eq_true.mpr ⟨_, List.mem_map_of_mem hl, ?_⟩) h
          rw [trimStart_unwords]
          rfl
      | serverRelay name =>
          refine absurd (List.any_eq_true.mpr ⟨_, List.mem_map_of_mem hl, ?_⟩) h
          rw [trimStart_unwords]
          rfl
    clear h
    induction ls with
    | nil => rfl
    | cons l ls ih =>
        rw [List.foldl_cons, hleft l List.mem_cons_self]
        exact ih fun l' hl' => hleft l' (List.mem_cons_of_mem _ hl')

theorem decode_script : decode (asBytes (ls.flatMap ControlLine.text)) = none := by
  cases ls with
  | nil => rfl
  | cons l ls =>
      cases l with
      | userLeft name addr => exact decode_eq_none_of_head (b := 0x55) _ (by decide)
      | relay | direct name addr | serverRelay name =>
          exact decode_eq_none_of_head (b := 0x4D) _ (by decide)

/-- A script from the server: every line is obeyed, then every line is answered,
and nothing is sent. -/
theorem receive_script :
    me.receive now server server (script server ls).payload =
      (((ls.foldl (obey now) me).processServerResponse
        (ls.flatMap ControlLine.text)).updateRelayIsActive, []) := by
  unfold receive script Signaling.tell receiveText
  dsimp only
  rw [decode_script, fromUtf8Lossy_asBytes]
  dsimp only
  rw [if_pos rfl, processIncomingMessage_script]

end Script

/-! ## `WELCOME` -/

section Welcome
variable (cid : UInt64) (pid : UInt32)

/-- The words of a `WELCOME`: five, where `try_handle_welcome` wants three. -/
def welcomeWords : List Token :=
  [msgWelcome, ⟨"to".toList, by decide⟩,
    ⟨"cid:".toList ++ decimal cid.toNat,
      isWord_iff.mpr ⟨List.cons_ne_nil _ _,
        Solid.append (isWord_iff.mp (by decide)).2 (solid_decimal _)⟩⟩,
    ⟨"with".toList, by decide⟩,
    ⟨"pid:".toList ++ decimal pid.toNat,
      isWord_iff.mpr ⟨List.cons_ne_nil _ _,
        Solid.append (isWord_iff.mp (by decide)).2 (solid_decimal _)⟩⟩]

theorem welcomeText_eq : welcomeText cid pid = line (welcomeWords cid pid) := by
  simp [welcomeText, line, unwords, welcomeWords]

/-- The text fits its packet. -/
theorem byteLen_welcomeText : byteLen (welcomeText cid pid) ≤ 2018 := by
  have hcid : (decimal cid.toNat).length ≤ 20 :=
    length_decimal_le (lt_of_lt_of_le cid.toNat_lt (by decide)) (by decide)
  have hpid : (decimal pid.toNat).length ≤ 20 :=
    length_decimal_le (lt_of_lt_of_le pid.toNat_lt (by decide)) (by decide)
  refine (byteLen_le _).trans ?_
  simp only [welcomeText, List.length_append, List.length_singleton,
    show msgWelcome.text.length = 7 from rfl, show " to cid:".toList.length = 8 from rfl,
    show " with pid:".toList.length = 10 from rfl]
  omega

theorem decode_welcome (dst : SocketAddr) :
    ∃ hdr, hdr.kind = .control ∧
      decode (welcome dst cid pid).payload = some (hdr, asBytes (welcomeText cid pid)) := by
  have hlen : (asBytes (welcomeText cid pid)).length ≤ 65535 :=
    (byteLen_welcomeText cid pid).trans (by decide)
  have h := decode_encode_append (Header.welcome cid pid
    (.ofNat (asBytes (welcomeText cid pid)).length)) (asBytes (welcomeText cid pid)) []
  rw [List.append_nil, toNat_payloadLen16, Nat.min_eq_left hlen,
    List.take_length] at h
  exact ⟨_, rfl, h⟩

theorem tryHandleWelcome_welcome (me : Client) :
    me.tryHandleWelcome (welcomeText cid pid) = me := by
  have hlines : lines (line (welcomeWords cid pid)) = [unwords (welcomeWords cid pid)] :=
    lines_line _
  rw [welcomeText_eq, tryHandleWelcome, hlines, List.foldl_cons, List.foldl_nil, welcomeLine,
    splitWhitespace_unwords]
  rfl

/-- A client makes nothing of a `WELCOME`. -/
theorem receive_welcome (now : Instant) (server dst : SocketAddr) (me : Client) :
    me.receive now server server (welcome dst cid pid).payload = (me, []) := by
  obtain ⟨hdr, hkind, hdecode⟩ := decode_welcome cid pid dst
  unfold receive
  rw [hdecode]
  dsimp only
  rw [hkind]
  dsimp only
  rw [fromUtf8_asBytes]
  have hlines : lines (welcomeText cid pid) = [unwords (welcomeWords cid pid)] := by
    rw [welcomeText_eq]
    exact lines_line _
  dsimp only
  rw [receiveControl, tryHandleWelcome_welcome, processIncomingMessage, hlines, processLines,
    trim_unwords, if_neg (show unwords (welcomeWords cid pid) ≠ [] from List.cons_ne_nil _ _)]
  have hline : me.processLine now server server (unwords (welcomeWords cid pid)) = (me, []) := by
    have hone : ∀ t, welcomeWords cid pid ≠ [t] := fun t ht => by simp [welcomeWords] at ht
    have hdata : (welcomeWords cid pid).head? ≠ some msgData :=
      show some msgWelcome ≠ some msgData by decide
    rw [processLine_unwords now server server me hone hdata, handleModeLine,
      splitWhitespace_unwords]
    rfl
  rw [hline]
  rfl

end Welcome

end NatPiercer.Client
