/-
# `System.Isolation` — one channel has nothing to do with another

The map has two levels, and nearly every message names the server and the
channel that it is about.  It is handled on behalf of that one: nobody else's
channel changes, and nobody else is written to.  The exceptions are two.  A
`CONNECT` takes its own session out of the other channels of the server, and
a `PONG`, which names nothing, is noted wherever its sender is a member.
-/
import NatPiercer.Signaling.DataRouting
import NatPiercer.System.Scripts

namespace NatPiercer.System

open Text Utf8 Net Proto LockProg Signaling Client

/-- The server and the channel that a request names. -/
def place : Request → Option (Token × Token)
  | .hb s c _ | .connect s c _ _ | .disconnect s c _ | .peerTimeout s c _
  | .requestRelay s c _ => some (s, c)
  | .natProbe | .pong | .data | .unknown => none

/-- Nothing is different but when users at the address were heard of. -/
def HeardOf (src : SocketAddr) (ch ch' : Channel) : Prop :=
  ch'.channelId = ch.channelId ∧ ch'.nextPeerId = ch.nextPeerId ∧ ch'.relay = ch.relay ∧
    List.Forall₂ (fun u u' => u' = u ∨ u.addr = src ∧ ∃ t, u' = { u with lastPong := t })
      ch.users ch'.users

section Isolation
variable {st : ServerMap} {amb : Ambient} {text : Str} {src : SocketAddr} {s c s' c' : Token}

theorem heardOf_pong (now : Signaling.Instant) (src : SocketAddr) (ch : Channel) :
    HeardOf src ch (ch.pong now src) := by
  refine ⟨rfl, rfl, rfl, ?_⟩
  refine Vec.forall₂_modifyFirst (p := fun u : User => decide (u.addr = src))
    (f := fun u : User => { u with lastPong := now }) ?_ ?_ ch.users
  · exact fun u => Or.inl rfl
  · exact fun u hu => Or.inr ⟨of_decide_eq_true hu, now, rfl⟩

/-- The other channels. -/
theorem elsewhere_step (hplace : place (Request.ofText text) = some (s, c))
    (hother : ¬ (s' = s ∧ c' = c)) :
    (st.step (.message amb text src)).channel? s' c' = st.channel? s' c' ∨
      ∃ n natArg, Request.ofText text = .connect s c n natArg ∧ s' = s ∧
        (st.step (.message amb text src)).channel? s' c' =
          (st.channel? s' c').map (Channel.evict n src) := by
  rw [channel?_step]
  unfold ServerStep.effect
  dsimp only
  cases hreq : Request.ofText text with
  | natProbe | pong | data | unknown =>
      rw [hreq] at hplace
      exact absurd hplace (Option.some_ne_none _).symm
  | connect s₁ c₁ n natArg =>
      rw [hreq] at hplace
      obtain ⟨rfl, rfl⟩ : s₁ = s ∧ c₁ = c := by simpa [place] using hplace
      rw [Request.effect, if_neg hother]
      split_ifs with hserver
      · exact Or.inr ⟨n, natArg, rfl, hserver, rfl⟩
      · exact Or.inl rfl
  | hb s₁ c₁ n | disconnect s₁ c₁ n | peerTimeout s₁ c₁ n | requestRelay s₁ c₁ n =>
      rw [hreq] at hplace
      obtain ⟨rfl, rfl⟩ : s₁ = s ∧ c₁ = c := by simpa [place] using hplace
      rw [Request.effect, if_neg hother]
      exact Or.inl rfl

/-- What is sent on behalf of a channel, is sent for a request that names it. -/
theorem place_of_telling {d : Datagram} {o : Option Channel}
    (h : Telling (.message amb text src) s c d o) : place (Request.ofText text) = some (s, c) := by
  cases h with
  | heartbeat hl => cases hl
  | connect hl hreq | disconnect hl hreq | peerTimeout hl hreq | requestRelay hl hreq =>
      obtain ⟨-, rfl, -⟩ := ServerStep.message.inj hl
      rw [hreq]
      rfl

/-- Who is written to: the sender, or a member of the channel that is named. -/
theorem sent_among (hplace : place (Request.ofText text) = some (s, c)) {d : Datagram}
    (hd : d ∈ st.sent (.message amb text src)) :
    d.dst = src ∨ ∃ ch, st.channel? s c = some ch ∧ AmongAddrs ch.users d.dst := by
  rcases mem_sent_iff.mp hd with ⟨s₁, c₁, htold⟩ | ⟨amb', text', src', hl, hd⟩
  · have htelling := telling_of_told htold
    obtain ⟨rfl, rfl⟩ : s₁ = s ∧ c₁ = c :=
      Prod.mk.inj (Option.some.inj ((place_of_telling htelling).symm.trans hplace))
    generalize ho : st.channel? s₁ c₁ = before at htelling
    cases htelling with
    | heartbeat hl => cases hl
    | @connect amb' text' src' n natArg _ hl hreq hd =>
        obtain ⟨rfl, rfl, rfl⟩ := ServerStep.message.inj hl
        refine (scripted_connect amb _ d hd).1.imp id fun hmember => ?_
        cases before with
        | none =>
            obtain ⟨u, hu, -⟩ := hmember
            exact absurd hu List.not_mem_nil
        | some ch => exact ⟨ch, rfl, hmember⟩
    | disconnect hl hreq hd => exact Or.inr ⟨_, rfl, (scripted_disconnect _ _ _ d hd).1⟩
    | peerTimeout hl hreq hd => exact Or.inr ⟨_, rfl, (scripted_peerTimeout _ _ d hd).1⟩
    | requestRelay hl hreq hd => exact Or.inr ⟨_, rfl, (scripted_relayRequested _ _ d hd).1⟩
  · obtain ⟨-, rfl, -⟩ := ServerStep.message.inj hl
    rcases hd with ⟨hreq, -⟩ | ⟨hreq, -⟩
    · rw [hreq] at hplace
      exact absurd hplace (Option.some_ne_none _).symm
    · rw [hreq] at hplace
      exact absurd hplace (Option.some_ne_none _).symm

/-- A message that names nothing but `DATA`, or nothing that is understood, leaves
the map alone. -/
theorem step_of_silent (h : Request.ofText text = .data ∨ Request.ofText text = .natProbe ∨
    Request.ofText text = .unknown) : st.step (.message amb text src) = st := by
  unfold ServerMap.step ServerStep.program
  dsimp only
  rw [handleMessage_eq]
  rcases h with h | h | h
  · rw [h]
    exact handleDataFromClient_state text src st
  · rw [h]
    rfl
  · rw [h]
    rfl

end Isolation

/-- **Isolation.**  A message that names a channel leaves all others as they are,
but for the session of a `CONNECT` in other channels of its server, and what is
sent for it goes to its sender or to a member of that channel.  A `PONG` is
noted for users at its address and changes nothing else, and `DATA`, a probe or
an unknown message changes nothing at all. -/
theorem message_isolated (st : ServerMap) (amb : Ambient) (text : Str) (src : SocketAddr) :
    let r := Request.ofText text
    let st' := st.step (.message amb text src)
    (∀ s c, place r = some (s, c) →
      (∀ s' c', ¬ (s' = s ∧ c' = c) → st'.channel? s' c' = st.channel? s' c' ∨
        ∃ n natArg, r = .connect s c n natArg ∧ s' = s ∧
          st'.channel? s' c' = (st.channel? s' c').map (Channel.evict n src)) ∧
      ∀ d ∈ st.sent (.message amb text src), d.dst = src ∨
        ∃ ch, (st.channel? s c = some ch ∨ st'.channel? s c = some ch) ∧
          ∃ u ∈ ch.users, u.addr = d.dst) ∧
    (r = .pong → ∀ s c, Option.Rel (HeardOf src) (st.channel? s c) (st'.channel? s c)) ∧
    (r = .data ∨ r = .natProbe ∨ r = .unknown → st' = st) := by
  intro r st'
  refine ⟨fun s c hplace => ⟨fun s' c' hother => elsewhere_step hplace hother, fun d hd => ?_⟩,
    fun hpong s c => ?_, step_of_silent⟩
  · refine (sent_among hplace hd).imp id ?_
    rintro ⟨ch, hch, hmember⟩
    exact ⟨ch, Or.inl hch, hmember⟩
  · have heffect : st'.channel? s c = (st.channel? s c).map (Channel.pong amb.now src) := by
      rw [channel?_step]
      unfold ServerStep.effect
      dsimp only
      rw [show Request.ofText text = .pong from hpong]
      rfl
    rw [heffect]
    cases st.channel? s c with
    | none => exact .none
    | some ch => exact .some (heardOf_pong amb.now src ch)

end NatPiercer.System
