/-
# `Client.Heard` — what any line does to a client

What a client receives may hold any lines whatever.  `process_incoming_message`
takes a line apart in three functions; here is what it finds
(`Heard.ofLine`), and what it does about it (`Heard.handle`), so that what is
proved of every line is proved of nine kinds of lines.

`process_server_response` reads the lines of the server again, by its own
rules: it finds less (`Reply.ofLine`).
-/
import NatPiercer.Client.Calls
import NatPiercer.Lib.Run

namespace NatPiercer.Client

open Text Utf8 Net Proto Signaling

/-- What a line, trimmed, asks for. -/
inductive Heard
  | ping
  | pong
  | holePunch
  | data (sender : Str)
  | relay
  | serverRelay (username : Token)
  | direct (username addrStr : Token)
  | userLeft (username : Token)
  | nothing
deriving DecidableEq

def Heard.ofWords : List Token → Heard
  | [] => .nothing
  | word :: args =>
      if word = msgMode then
        match args with
        | [] => .nothing
        | mode :: args =>
            if mode = msgRelay then .relay
            else if mode = msgServerRelay then
              match args with
              | username :: _ => .serverRelay username
              | [] => .nothing
            else if mode = msgDirect then
              match args with
              | username :: addrStr :: _ => .direct username addrStr
              | _ => .nothing
            else .nothing
      else if word = msgUserLeft then
        match args with
        | username :: _ => .userLeft username
        | [] => .nothing
      else .nothing

def Heard.ofLine (line : Str) : Heard :=
  if line = msgPing.text then .ping
  else if line = msgPong.text then .pong
  else if line = msgHolePunch.text then .holePunch
  else if startsWith line dataPrefix then
    match splitn 3 ' ' line with
    | [_, sender, _] => .data sender
    | _ => .nothing
  else .ofWords (splitWhitespace line)

/-- What the lines of a text ask for. -/
def heard (s : Str) : List Heard := (lines s).map fun line => Heard.ofLine (trim line)

/-- What is done about it; `line` is passed on by a relay. -/
def Heard.handle (now : Instant) (server src : SocketAddr) (line : Str) (me : Client) :
    Heard → Client × List Datagram
  | ping => (me, handlePing src)
  | pong => (me.handlePong now src, [])
  | holePunch => (me.handleHolePunch now src, [])
  | data sender =>
      let me := me.markPeerConnectedByName now sender
      (me,
        if me.isRelay then
          me.handleRelayMessageToPeers sender line ++
            if me.channelHasServerRelays then [tell server line] else []
        else [])
  | relay => (me.handleModeRelay, [])
  | serverRelay username => (me.handleModeServerRelay username, [])
  | direct username addrStr => (me.handleModeDirect now username addrStr, [])
  | userLeft username => (me.handleUserLeft username, [])
  | nothing => (me, [])

section Line
variable (now : Instant) (server src : SocketAddr)

theorem handleModeLine_eq (line : Str) (me : Client) :
    (me.handleModeLine now line, []) =
      (Heard.ofWords (splitWhitespace line)).handle now server src line me := by
  unfold handleModeLine
  generalize splitWhitespace line = ws
  rcases ws with _ | ⟨word, args⟩
  · rfl
  · unfold Heard.ofWords
    dsimp only
    split_ifs
    · rcases args with _ | ⟨mode, args⟩
      · rfl
      · dsimp only
        split_ifs
        · rfl
        · cases args <;> rfl
        · rcases args with _ | ⟨username, _ | ⟨addrStr, args⟩⟩ <;> rfl
        · rfl
    · cases args <;> rfl
    · rfl

theorem processLine_eq (line : Str) (me : Client) :
    me.processLine now server src line = (Heard.ofLine line).handle now server src line me := by
  unfold processLine Heard.ofLine
  split_ifs with hping hpong hpunch hdata
  · rfl
  · rfl
  · rfl
  · unfold handleDataMessage
    rw [if_pos hdata]
    generalize splitn 3 ' ' line = parts
    rcases parts with _ | ⟨_, _ | ⟨sender, _ | ⟨_, _ | ⟨_, parts⟩⟩⟩⟩ <;> rfl
  · exact handleModeLine_eq now server src line me

/-- The loop over the lines, as a run; a blank line says nothing. -/
def hear (me : Client) (line : Str) : Client :=
  ((Heard.ofLine (trim line)).handle now server src (trim line) me).1

theorem ofLine_blank {line : Str} (h : trim line = []) : Heard.ofLine (trim line) = .nothing := by
  rw [h]
  rfl

theorem processLines_fst (ls : List Str) (me : Client) :
    (processLines now server src ls me).1 = after (hear now server src) me ls := by
  induction ls generalizing me with
  | nil => rfl
  | cons line ls ih =>
      rw [processLines, after]
      split_ifs with hblank
      · have hsame : hear now server src me line = me := by
          rw [hear, ofLine_blank hblank]
          rfl
        rw [hsame]
        exact ih me
      · dsimp only
        rw [processLine_eq, ih]
        rfl

end Line

/-! ## Becoming a relay -/

/-- `is_relay || channel_has_server_relays` -/
def acts (me : Client) : Bool := me.isRelay || me.channelHasServerRelays

section Flags
variable (now : Instant) (server src : SocketAddr) (line : Str) (me : Client)

theorem handle_isRelay (h : Heard) :
    (h.handle now server src line me).1.isRelay = (me.isRelay || decide (h = .relay)) := by
  cases h with
  | relay => exact (Bool.or_true _).symm
  | direct n a => exact (handleModeDirect_flags now me n a).2.1.trans (Bool.or_false _).symm
  | serverRelay n =>
      refine Eq.trans ?_ (Bool.or_false _).symm
      change (me.handleModeServerRelay n).isRelay = _
      unfold handleModeServerRelay
      split_ifs <;> rfl
  | ping | pong | holePunch | data _ | userLeft _ | nothing => exact (Bool.or_false _).symm

theorem handle_user (h : Heard) : (h.handle now server src line me).1.user = me.user := by
  cases h with
  | direct n a => exact (handleModeDirect_flags now me n a).1
  | serverRelay n =>
      change (me.handleModeServerRelay n).user = _
      unfold handleModeServerRelay
      split_ifs <;> rfl
  | ping | pong | holePunch | data _ | relay | userLeft _ | nothing => rfl

theorem processLines_user (ls : List Str) :
    (processLines now server src ls me).1.user = me.user := by
  rw [processLines_fst]
  induction ls generalizing me with
  | nil => rfl
  | cons line ls ih => rw [after, ih, hear, handle_user]

/-- A client that mirrors acts already, and only one that relays starts to
mirror. -/
theorem handle_acts (h : Heard) :
    (h.handle now server src line me).1.acts = (me.acts || decide (h = .relay)) := by
  cases h with
  | relay =>
      change (true || me.channelHasServerRelays) = (me.acts || true)
      rw [Bool.true_or, Bool.or_true]
  | direct n a =>
      obtain ⟨-, hrelay, hmirrors⟩ := handleModeDirect_flags now me n a
      change (me.handleModeDirect now n a).acts = (me.acts || false)
      rw [acts, hrelay, hmirrors, Bool.or_false]
      rfl
  | serverRelay n =>
      change (me.handleModeServerRelay n).acts = (me.acts || false)
      rw [Bool.or_false]
      unfold handleModeServerRelay
      split_ifs
      · rfl
      · change (me.isRelay || (me.channelHasServerRelays || me.isRelay)) = me.acts
        rw [← Bool.or_assoc, Bool.or_comm, ← Bool.or_assoc, Bool.or_self]
        rfl
  | ping | pong | holePunch | data _ | userLeft _ | nothing => exact (Bool.or_false _).symm

omit now server src me in
/-- Both say what makes a client that is not a relay one. -/
theorem isCall_eq : isCall line = decide (Heard.ofLine line = .relay) := by
  have h := processLine_isRelay 0 (.v4 ⟨0, 0, 0, 0⟩ 0) (.v4 ⟨0, 0, 0, 0⟩ 0) line (.fresh [])
  rw [processLine_eq, handle_isRelay] at h
  exact h.symm

theorem processLines_acts (ls : List Str) :
    (processLines now server src ls me).1.acts = (me.acts || ls.any isCall) := by
  rw [processLines_fst]
  induction ls generalizing me with
  | nil => exact (Bool.or_false _).symm
  | cons line ls ih =>
      rw [after, ih, hear, handle_acts, ← isCall_eq, isCall_trim, List.any_cons,
        Bool.or_assoc]

theorem handle_isActive (h : Heard) :
    (h.handle now server src line me).1.isActive = me.isActive := by
  cases h with
  | direct n a =>
      change (me.handleModeDirect now n a).isActive = _
      unfold handleModeDirect
      split
      · split_ifs <;> rfl
      · rfl
  | serverRelay n =>
      change (me.handleModeServerRelay n).isActive = _
      unfold handleModeServerRelay
      split_ifs <;> rfl
  | ping | pong | holePunch | data _ | relay | userLeft _ | nothing => rfl

theorem processLines_isActive (ls : List Str) :
    (processLines now server src ls me).1.isActive = me.isActive := by
  rw [processLines_fst]
  induction ls generalizing me with
  | nil => rfl
  | cons line ls ih => rw [after, ih, hear, handle_isActive]

end Flags

/-! ## `WELCOME` -/

/-- A `WELCOME` is about two numbers. -/
theorem tryHandleWelcome_eq (s : Str) (me : Client) :
    ∃ cid pid, me.tryHandleWelcome s = { me with channelId := cid, myPeerId := pid } := by
  unfold tryHandleWelcome
  induction lines s generalizing me with
  | nil => exact ⟨me.channelId, me.myPeerId, rfl⟩
  | cons line ls ih =>
      have hline : ∃ cid pid,
          me.welcomeLine line = { me with channelId := cid, myPeerId := pid } := by
        unfold welcomeLine
        split
        · split_ifs
          · split
            · exact ⟨_, _, rfl⟩
            · exact ⟨me.channelId, me.myPeerId, rfl⟩
          · exact ⟨me.channelId, me.myPeerId, rfl⟩
        · exact ⟨me.channelId, me.myPeerId, rfl⟩
      obtain ⟨cid, pid, hline⟩ := hline
      obtain ⟨cid', pid', hrest⟩ := ih (me.welcomeLine line)
      rw [hline] at hrest
      rw [List.foldl_cons, hline]
      exact ⟨cid', pid', hrest⟩

/-! ## What the server's lines are read for again -/

/-- What `process_server_response` makes of a line, trimmed. -/
inductive Reply
  | stop
  | serverRelay (who : Token)
  | nothing
deriving DecidableEq

def Reply.ofLine (line : Str) : Reply :=
  if line = unwords [msgMode, msgRelay] then .stop
  else if startsWith line (unwords [msgMode, msgServerRelay] ++ [' ']) then
    match splitWhitespace line with
    | _ :: _ :: who :: _ => .serverRelay who
    | _ => .nothing
  else .nothing

/-- What is done about it. -/
def reply (me : Client) : Reply → Client
  | .stop => { me with sendViaServer := false, paused := false }
  | .serverRelay who =>
      if who.text = me.user then { me with sendViaServer := true, paused := true }
      else if me.isRelay then { me with channelHasServerRelays := true }
      else me
  | .nothing => me

theorem responseLine_eq (line : Str) (me : Client) :
    me.responseLine line = me.reply (Reply.ofLine line) := by
  unfold responseLine Reply.ofLine
  dsimp only
  by_cases hstop : line = unwords [msgMode, msgRelay]
  · rw [if_pos hstop, if_pos hstop]
    have hnot : startsWith line (unwords [msgMode, msgServerRelay] ++ [' ']) = false := by
      rw [hstop]
      decide
    rw [hnot, if_neg Bool.false_ne_true]
    rfl
  · rw [if_neg hstop, if_neg hstop]
    by_cases hstart : startsWith line (unwords [msgMode, msgServerRelay] ++ [' ']) = true
    · rw [if_pos hstart, if_pos hstart]
      generalize splitWhitespace line = ws
      rcases ws with _ | ⟨_, _ | ⟨_, _ | ⟨who, ws⟩⟩⟩ <;> rfl
    · rw [if_neg hstart, if_neg hstart]
      rfl

/-- A line that is answered begins with `MODE`. -/
theorem startsWith_modePrefix {line : Str} (h : Reply.ofLine (trim line) ≠ .nothing) :
    startsWith (trimStart line) modePrefix = true := by
  have htrim : startsWith (trim line) modePrefix = true := by
    unfold Reply.ofLine at h
    split_ifs at h with hstop hstart
    · rw [hstop]
      decide
    · have hmode : startsWith (unwords [msgMode, msgServerRelay] ++ [' ']) modePrefix = true := by
        decide
      rw [startsWith, List.isPrefixOf_iff_prefix] at hmode hstart ⊢
      exact hmode.trans hstart
    · exact absurd rfl h
  rw [startsWith, List.isPrefixOf_iff_prefix] at htrim ⊢
  exact htrim.trans (List.rdropWhile_prefix _ _)

/-- The test in front of the loop changes nothing. -/
theorem processServerResponse_eq (s : Str) (me : Client) :
    me.processServerResponse s =
      after (fun me line => me.reply (Reply.ofLine (trim line))) me (lines s) := by
  unfold processServerResponse
  split_ifs with hmode
  · clear hmode
    induction lines s generalizing me with
    | nil => rfl
    | cons line ls ih => rw [List.foldl_cons, ih, after, responseLine_eq]
  · have hnothing : ∀ line ∈ lines s, Reply.ofLine (trim line) = .nothing := by
      intro line hline
      by_contra h
      exact hmode (List.any_eq_true.mpr ⟨line, hline, startsWith_modePrefix h⟩)
    generalize lines s = ls at hnothing
    induction ls with
    | nil => rfl
    | cons line ls ih =>
        rw [after, hnothing line List.mem_cons_self]
        exact ih fun l hl => hnothing l (List.mem_cons_of_mem _ hl)

theorem processServerResponse_acts (s : Str) (me : Client) :
    (me.processServerResponse s).acts = me.acts := by
  rw [processServerResponse_eq]
  induction lines s generalizing me with
  | nil => rfl
  | cons line ls ih =>
      rw [after, ih]
      cases Reply.ofLine (trim line) with
      | stop => rfl
      | nothing => rfl
      | serverRelay who =>
          unfold reply
          dsimp only
          split_ifs with hself hrelay
          · rfl
          · change (me.isRelay || true) = (me.isRelay || me.channelHasServerRelays)
            rw [hrelay, Bool.true_or, Bool.true_or]
          · rfl

end NatPiercer.Client
