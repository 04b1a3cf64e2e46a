/-
# `Client.Calls` — what makes a client a relay

`is_relay` is set in one place, `handle_mode_relay`, and nothing clears it.
So whether a client is a relay after a datagram is whether it was one
before, or the datagram holds a line `MODE RELAY …` — for every datagram,
from whomever it comes (`receive_isRelay`).
-/
import NatPiercer.Client.Hearing

namespace NatPiercer.Client

open Text Utf8 Net Proto Signaling

/-- Whether the line starts with the words `MODE RELAY`. -/
def isCall (line : Str) : Bool :=
  match splitWhitespace line with
  | word :: mode :: _ => word = msgMode && mode = msgRelay
  | _ => false

/-- Whether a text holds a line that makes its reader a relay. -/
def calls (text : Str) : Bool := (lines text).any isCall

/-- Whether a datagram does. -/
def summons (bytes : Bytes) : Bool :=
  match decode bytes with
  | some (hdr, payload) => hdr.kind = .control && (fromUtf8 payload).any calls
  | none => calls (fromUtf8Lossy bytes)

theorem summons_eq (bytes : Bytes) :
    summons bytes =
      match Reading.ofBytes bytes with
      | .control s | .plain s => calls s
      | .dropped => false := by
  unfold summons Reading.ofBytes
  cases decode bytes with
  | none => rfl
  | some packet =>
      obtain ⟨hdr, payload⟩ := packet
      dsimp only
      split_ifs with hkind
      · cases fromUtf8 payload <;> simp [hkind]
      · simp [hkind]

section Line
variable (now : Instant) (server src : SocketAddr) (line : Str) (me : Client)

theorem handleModeLine_isRelay :
    (me.handleModeLine now line).isRelay = (me.isRelay || isCall line) := by
  unfold handleModeLine isCall
  rcases splitWhitespace line with _ | ⟨word, _ | ⟨mode, args⟩⟩
  · simp
  · dsimp only
    split_ifs <;> simp
  · dsimp only
    by_cases hw : word = msgMode
    · rw [if_pos hw]
      by_cases hm : mode = msgRelay
      · rw [if_pos hm]
        simp [handleModeRelay, hw, hm]
      · rw [if_neg hm]
        have hcall : (decide (word = msgMode) && decide (mode = msgRelay)) = false := by
          simp [hm]
        rw [hcall, Bool.or_false]
        split_ifs
        · rcases args with _ | ⟨username, args⟩
          · rfl
          · dsimp only
            unfold handleModeServerRelay
            split_ifs <;> rfl
        · rcases args with _ | ⟨username, _ | ⟨addrStr, args⟩⟩
          · rfl
          · rfl
          · exact (handleModeDirect_flags now me username addrStr).2.1
        · rfl
    · rw [if_neg hw]
      simp only [hw, decide_false, Bool.false_and, Bool.or_false]
      split_ifs
      · rfl
      · rfl

theorem handleDataMessage_isRelay :
    (me.handleDataMessage now server line).1.isRelay = me.isRelay := by
  unfold handleDataMessage
  split_ifs
  · split <;> rfl
  · rfl

/-- The bare words and `DATA` make nobody a relay. -/
theorem processLine_isRelay :
    (me.processLine now server src line).1.isRelay = (me.isRelay || isCall line) := by
  have htoken : ∀ t : Token, isCall t.text = false := by
    intro t
    rw [isCall, splitWhitespace_text]
  unfold processLine
  split_ifs with hping hpong hpunch hdata
  · rw [hping, htoken, Bool.or_false]
  · rw [hpong, htoken, Bool.or_false]
    rfl
  · rw [hpunch, htoken, Bool.or_false]
    rfl
  · have hcall : isCall line = false := by
      have hhead := head?_of_dataPrefix hdata
      unfold isCall
      split
      · next word mode args hwords =>
          rw [hwords, List.head?_cons, Option.some.injEq] at hhead
          rw [hhead]
          rfl
      · rfl
    rw [hcall, Bool.or_false]
    exact handleDataMessage_isRelay now server line me
  · exact handleModeLine_isRelay now line me

theorem isCall_trim : isCall (trim line) = isCall line := by
  rw [isCall, splitWhitespace_trim, isCall]

end Line

section Text
variable (now : Instant) (server src : SocketAddr)

theorem processLines_isRelay (ls : List Str) (me : Client) :
    (processLines now server src ls me).1.isRelay = (me.isRelay || ls.any isCall) := by
  induction ls generalizing me with
  | nil => simp [processLines]
  | cons line ls ih =>
      rw [processLines]
      split_ifs with hempty
      · have hcall : isCall line = false := by
          rw [← isCall_trim, hempty]
          rfl
        rw [ih, List.any_cons, hcall, Bool.false_or]
      · dsimp only
        rw [ih, processLine_isRelay, isCall_trim, List.any_cons, Bool.or_assoc]

theorem welcomeLine_isRelay (line : Str) (me : Client) :
    (me.welcomeLine line).isRelay = me.isRelay := by
  unfold welcomeLine
  split
  · split_ifs
    · split <;> rfl
    · rfl
  · rfl

theorem tryHandleWelcome_isRelay (s : Str) (me : Client) :
    (me.tryHandleWelcome s).isRelay = me.isRelay := by
  unfold tryHandleWelcome
  induction lines s generalizing me with
  | nil => rfl
  | cons line ls ih => rw [List.foldl_cons, ih, welcomeLine_isRelay]

theorem responseLine_isRelay (line : Str) (me : Client) :
    (me.responseLine line).isRelay = me.isRelay := by
  unfold responseLine
  dsimp only
  generalize hme : (if line = unwords [msgMode, msgRelay] then _ else me) = me'
  have hrelay : me'.isRelay = me.isRelay := by
    rw [← hme]
    split_ifs <;> rfl
  by_cases hstart : startsWith line (unwords [msgMode, msgServerRelay] ++ [' ']) = true
  · rw [if_pos hstart]
    split
    · split_ifs <;> exact hrelay
    · exact hrelay
  · rw [if_neg hstart]
    exact hrelay

theorem processServerResponse_isRelay (response : Str) (me : Client) :
    (me.processServerResponse response).isRelay = me.isRelay := by
  unfold processServerResponse
  split_ifs
  · induction lines response generalizing me with
    | nil => rfl
    | cons line ls ih => rw [List.foldl_cons, ih, responseLine_isRelay]
  · rfl

/-- A client is a relay after a datagram if it was one, or the datagram says
so. -/
theorem receive_isRelay (bytes : Bytes) (me : Client) :
    (me.receive now server src bytes).1.isRelay = (me.isRelay || summons bytes) := by
  rw [receive_eq, summons_eq]
  cases Reading.ofBytes bytes with
  | dropped => exact (Bool.or_false _).symm
  | control s =>
      dsimp only
      rw [receiveControl, processIncomingMessage, processLines_isRelay,
        tryHandleWelcome_isRelay]
      rfl
  | plain s =>
      dsimp only
      unfold receiveText
      split_ifs
      · exact (processServerResponse_isRelay _ _).trans (processLines_isRelay _ _ _ _ _)
      · exact processLines_isRelay _ _ _ _ _

end Text

/-! ## The server's datagrams -/

theorem isCall_words (l : ControlLine) : isCall (unwords l.words) = decide (l = .relay) := by
  rw [isCall, splitWhitespace_unwords]
  cases l with
  | relay => rfl
  | direct name addr => simp [ControlLine.words, show msgDirect ≠ msgRelay by decide]
  | serverRelay name => simp [ControlLine.words, show msgServerRelay ≠ msgRelay by decide]
  | userLeft name addr => simp [ControlLine.words, show msgUserLeft ≠ msgMode by decide]

theorem summons_script (ls : List ControlLine) :
    summons (asBytes (ls.flatMap ControlLine.text)) = decide (.relay ∈ ls) := by
  unfold summons
  rw [decode_script]
  dsimp only
  rw [fromUtf8Lossy_asBytes, calls, lines_script, List.any_map]
  induction ls with
  | nil => rfl
  | cons l ls ih =>
      rw [List.any_cons, ih, Function.comp_apply, isCall_words]
      simp [eq_comm]

theorem summons_line (l : ControlLine) : summons (asBytes l.text) = decide (l = .relay) := by
  have h := summons_script [l]
  rw [List.flatMap_cons, List.flatMap_nil, List.append_nil] at h
  rw [h]
  simp [eq_comm]

theorem summons_welcome (cid : UInt64) (pid : UInt32) (dst : SocketAddr) :
    summons (welcome dst cid pid).payload = false := by
  have h := receive_isRelay 0 dst dst (welcome dst cid pid).payload (.fresh [])
  rw [receive_welcome] at h
  exact (Bool.or_eq_false_iff.mp h.symm).2

theorem summons_ping : summons (asBytes msgPing.text) = false := by decide +kernel

end NatPiercer.Client
