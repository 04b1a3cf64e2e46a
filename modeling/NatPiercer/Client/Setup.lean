/-
# `Client.Setup` — from the first datagram on

`handle_recv_result` and the loop around it in `src/bin/client.rs`: for a
second and a half, or until a `MODE` line comes, `server_responses_during_setup`
reads the socket, and then `main_loop` does.  Here the two are one system
(`Listening`), with the flags that `main` makes to start from.

`is_active` is meant to be `is_relay || channel_has_server_relays`.  What can
make that true is a line `MODE RELAY`, from anybody, on each of the paths
that a datagram can take; what follows it up is `update_relay_is_active`,
on two of them only: what the server sends during the setup, and plain text
afterwards.

An event brings `buf[..len]`, as `recv_from` has left it: of a datagram that is
longer than the 2048 bytes of the buffer, its beginning.
-/
import NatPiercer.Client.Heard

namespace NatPiercer.Client

open Text Utf8 Net Proto Signaling

/-- `s.lines().any(|l| l.trim_start().starts_with("MODE "))` -/
def holdsMode (s : Str) : Bool := (lines s).any fun l => startsWith (trimStart l) modePrefix

section Setup
variable (now : Instant) (server src : SocketAddr)

/-- A text, with or without a frame; whether it ends the setup; and what is
sent. -/
def setupText (s : Str) (me : Client) : Client × Bool × List Datagram :=
  if src = server then
    let (me, sent) := me.processIncomingMessage now server s src
    ((me.processServerResponse s).updateRelayIsActive, holdsMode s, sent)
  else
    let (me, sent) := (me.handlePeerMessage now src).processIncomingMessage now server s src
    (me, false, sent)

/-- One datagram, in `handle_recv_result`. -/
def handleRecvResult (bytes : Bytes) (me : Client) : Client × Bool × List Datagram :=
  match decode bytes with
  | some (hdr, payload) =>
      match hdr.kind with
      | .control =>
          match fromUtf8 payload with
          | some s => (me.tryHandleWelcome s).setupText now server src s
          | none => (me, false, [])
      | .dtls | .srtp => (me, false, [])
  | none => me.setupText now server src (fromUtf8Lossy bytes)

theorem handleRecvResult_eq (bytes : Bytes) (me : Client) :
    me.handleRecvResult now server src bytes =
      match Reading.ofBytes bytes with
      | .control s => (me.tryHandleWelcome s).setupText now server src s
      | .dropped => (me, false, [])
      | .plain s => me.setupText now server src s :=
  Reading.elim_ofBytes bytes (fun s => (me.tryHandleWelcome s).setupText now server src s)
    (me, false, []) fun s => me.setupText now server src s

end Setup

/-- A client, and which of the two loops reads its socket. -/
structure Listening where
  inSetup : Bool
  me : Client
deriving DecidableEq

def Listening.fresh (user : Str) : Listening := ⟨true, .fresh user⟩

/-- A datagram is received, or the time for the setup is over. -/
inductive Event
  | datagram (now : Instant) (src : SocketAddr) (bytes : Bytes)
  | setupDeadline

def Listening.step (server : SocketAddr) (st : Listening) : Event → Listening
  | .datagram now src bytes =>
      if st.inSetup then
        let (me, sawMode, _) := st.me.handleRecvResult now server src bytes
        ⟨!sawMode, me⟩
      else ⟨false, (st.me.receive now server src bytes).1⟩
  | .setupDeadline => { st with inSetup := false }

/-! ## The flag -/

/-- `is_active` is what the comment on it says. -/
def Listening.InStep (st : Listening) : Prop := st.me.isActive = st.me.acts

instance (st : Listening) : Decidable st.InStep := inferInstanceAs (Decidable (_ = _))

/-- The datagram takes a path that ends in `update_relay_is_active`. -/
def Listening.recomputes (server src : SocketAddr) (bytes : Bytes) (st : Listening) : Prop :=
  if st.inSetup then src = server else decode bytes = none

/-- Nothing new is asked of a client that acts already, or it is asked where it is
followed up. -/
def Listening.KeepsStep (server : SocketAddr) (st : Listening) : Event → Prop
  | .datagram _ src bytes =>
      st.me.acts = true ∨ summons bytes = false ∨ st.recomputes server src bytes
  | .setupDeadline => True

section Paths
variable (now : Instant) (server src : SocketAddr)

theorem processIncomingMessage_acts (s : Str) (me : Client) :
    (me.processIncomingMessage now server s src).1.acts = (me.acts || calls s) :=
  processLines_acts now server src me (lines s)

theorem tryHandleWelcome_acts (s : Str) (me : Client) :
    (me.tryHandleWelcome s).acts = me.acts ∧ (me.tryHandleWelcome s).isActive = me.isActive := by
  obtain ⟨cid, pid, h⟩ := tryHandleWelcome_eq s me
  rw [h]
  exact ⟨rfl, rfl⟩

/-- What a datagram can do to the flag and to what it is about: it is recomputed,
or left alone, and left alone where it is recomputed only if nothing has
called. -/
def Outcome (recomputed : Prop) (called : Bool) (me me' : Client) : Prop :=
  me'.acts = (me.acts || called) ∧
    ((recomputed ∧ me'.isActive = me'.acts) ∨
      (me'.isActive = me.isActive ∧ (recomputed → called = false)))

theorem outcome_refl (recomputed : Prop) (me : Client) : Outcome recomputed false me me :=
  ⟨(Bool.or_false _).symm, Or.inr ⟨rfl, fun _ => rfl⟩⟩

theorem outcome_setupText (s : Str) (me : Client) :
    Outcome (src = server) (calls s) me (me.setupText now server src s).1 := by
  unfold setupText
  by_cases hsrc : src = server
  · rw [if_pos hsrc]
    refine ⟨?_, Or.inl ⟨hsrc, rfl⟩⟩
    exact (processServerResponse_acts s _).trans (processIncomingMessage_acts now server src s me)
  · rw [if_neg hsrc]
    exact ⟨processIncomingMessage_acts now server src s _,
      Or.inr ⟨processLines_isActive now server src _ _, fun h => absurd h hsrc⟩⟩

theorem outcome_receiveText (s : Str) (me : Client) :
    Outcome True (calls s) me (me.receiveText now server src s).1 := by
  unfold receiveText
  split_ifs
  · refine ⟨?_, Or.inl ⟨trivial, rfl⟩⟩
    exact (processServerResponse_acts s _).trans (processIncomingMessage_acts now server src s me)
  · exact ⟨processIncomingMessage_acts now server src s _, Or.inl ⟨trivial, rfl⟩⟩

theorem outcome_receiveControl (s : Str) (me : Client) :
    Outcome False (calls s) me (me.receiveControl now server src s).1 := by
  obtain ⟨hacts, hactive⟩ := tryHandleWelcome_acts s me
  refine ⟨?_, Or.inr ⟨?_, False.elim⟩⟩
  · rw [← hacts]
    exact processIncomingMessage_acts now server src s _
  · rw [← hactive]
    exact processLines_isActive now server src _ _

theorem outcome_datagram (bytes : Bytes) (st : Listening) :
    Outcome (st.recomputes server src bytes) (summons bytes) st.me
      (st.step server (.datagram now src bytes)).me := by
  unfold Listening.step Listening.recomputes
  rw [summons_eq]
  cases st.inSetup with
  | true =>
      simp only [if_true]
      rw [handleRecvResult_eq]
      cases Reading.ofBytes bytes with
      | plain s => exact outcome_setupText now server src s st.me
      | dropped => exact outcome_refl _ st.me
      | control s =>
          obtain ⟨hacts, hactive⟩ := tryHandleWelcome_acts s st.me
          have h := outcome_setupText now server src s (st.me.tryHandleWelcome s)
          rw [Outcome, hacts, hactive] at h
          exact h
  | false =>
      simp only [Bool.false_eq_true, if_false]
      rw [receive_eq, decode_eq_none_iff]
      cases Reading.ofBytes bytes with
      | plain s =>
          have h := outcome_receiveText now server src s st.me
          exact ⟨h.1, h.2.imp (fun h => ⟨⟨s, rfl⟩, h.2⟩) fun h => ⟨h.1, fun _ => h.2 trivial⟩⟩
      | dropped => exact outcome_refl _ st.me
      | control s =>
          have h := outcome_receiveControl now server src s st.me
          exact ⟨h.1, Or.inr ⟨h.2.elim (fun h => h.1.elim) fun h => h.1,
            fun ⟨_, h⟩ => nomatch h⟩⟩

end Paths

/-- A step keeps the flag in step exactly if it follows up what it brings. -/
theorem inStep_step_iff (server : SocketAddr) {st : Listening} (e : Event) (h : st.InStep) :
    (st.step server e).InStep ↔ st.KeepsStep server e := by
  cases e with
  | setupDeadline => exact iff_of_true h trivial
  | datagram now src bytes =>
      obtain ⟨hacts, hcase⟩ := outcome_datagram now server src bytes st
      unfold Listening.InStep Listening.KeepsStep
      rcases hcase with ⟨hrecomputes, hactive⟩ | ⟨hactive, hquiet⟩
      · exact iff_of_true hactive (Or.inr (Or.inr hrecomputes))
      · rw [hactive, hacts, show st.me.isActive = st.me.acts from h]
        cases st.me.acts with
        | true => exact iff_of_true (Bool.true_or _).symm (Or.inl rfl)
        | false =>
            rw [Bool.false_or]
            constructor
            · exact fun hcalled => Or.inr (Or.inl hcalled.symm)
            · rintro (hno | hcalled | hrecomputes)
              · exact absurd hno Bool.false_ne_true
              · exact hcalled.symm
              · exact (hquiet hrecomputes).symm

/-- **When `is_active` is in step with the mode.**  Along a run from the flags of
`main`, after every datagram, exactly when no datagram, as far as it has been
read, makes a relay of the client on a path that does not recompute the flag. -/
theorem inStep_always_iff (server : SocketAddr) (user : Str) (es : List Event) :
    Always (Listening.step server) Listening.InStep (.fresh user) es ↔
      EachStep (Listening.step server) (fun st e => st.KeepsStep server e) (.fresh user) es :=
  always_iff_eachStep (J := fun _ => True) (fun _ _ _ => trivial)
    (fun _ e _ h => inStep_step_iff server e h) es trivial rfl

/-- The setup is over, and the server sends `MODE RELAY` in a control packet. -/
theorem not_inStep_framed :
    let server : SocketAddr := .v4 ⟨10, 0, 0, 9⟩ 2131
    ¬ Always (Listening.step server) Listening.InStep (.fresh "ann".toList)
      [.setupDeadline,
        .datagram 0 server (encode (.control 0 0 0 10) (asBytes "MODE RELAY".toList))] := by
  decide +kernel

end NatPiercer.Client
