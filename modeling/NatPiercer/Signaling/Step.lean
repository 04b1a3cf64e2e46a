/-
# `Signaling.Step` — the server as a transition system

A step of the server is one whole message or one whole heartbeat pass,
executed with nothing in between.  The nested lock of `handleUserRemoval` is
a plain read here: `LockProg.run` does not look at the mutex.  A third kind
of step, `relayout`, changes no content: it lays the hash maps out anew, as a
table is free to do, so that what is proved of every run is proved for every
order of iteration.

A step acts on each channel by itself (`channel?_step`): `ServerStep.effect`
says how.
-/
import NatPiercer.Lib.Run
import NatPiercer.Signaling.ChannelStep

namespace NatPiercer.Signaling

open Text Utf8 Net Proto LockProg

inductive ServerStep
  | message (amb : Ambient) (text : Str) (src : SocketAddr)
  | heartbeat (now : Instant)
  | relayout (serverId channelName : Token)

/-- The same content, with one server, and one channel in it, laid out first. -/
def ServerMap.relayout (st : ServerMap) (serverId channelName : Token) : ServerMap :=
  HashMap.modify serverId (HashMap.toFront channelName) (HashMap.toFront serverId st)

def ServerStep.program : ServerStep → Server Unit
  | message amb text src => handleMessage amb text src
  | heartbeat now => heartbeatPass now
  | relayout serverId channelName => do
      let st ← getState
      setState (st.relayout serverId channelName)

/-- The map after a step. -/
def ServerMap.step (st : ServerMap) (l : ServerStep) : ServerMap := (l.program.run st).state

/-- The datagrams of a step, in order. -/
def ServerMap.sent (st : ServerMap) (l : ServerStep) : List Datagram := (l.program.run st).sent

/-! ## Step by step, channel by channel -/

section Effect
variable (amb : Ambient) (src : SocketAddr) (s c : Token)

/-- What a request does to the channel `s`/`c`. -/
def Request.effect : Request → Option Channel → Option Channel
  | pong, o => o.map (Channel.pong amb.now src)
  | hb s' c' u, o => if s = s' ∧ c = c' then o.map (Channel.refresh amb.now u src) else o
  | connect s' c' u natArg, o =>
      if s = s' ∧ c = c' then
        some ((o.getD .default).connect amb u (NatKind.ofArg natArg) src).1
      else if s = s' then o.map (Channel.evict u src)
      else o
  | disconnect s' c' u, o =>
      if s = s' ∧ c = c' then o.map fun ch => (ch.disconnect u src).1 else o
  | peerTimeout s' c' u, o =>
      if s = s' ∧ c = c' then o.map fun ch => (ch.peerTimeout u).1 else o
  | requestRelay s' c' u, o => if s = s' ∧ c = c' then o.map (Channel.requestRelay u) else o
  | natProbe, o | data, o | unknown, o => o

/-- What a request makes the server send on behalf of the channel `s`/`c`.  A
line of `DATA` and a probe are not sent on behalf of a channel. -/
def Request.told : Request → Option Channel → List Datagram
  | connect s' c' u natArg, o =>
      if s = s' ∧ c = c' then ((o.getD .default).connect amb u (NatKind.ofArg natArg) src).2
      else []
  | disconnect s' c' u, o =>
      if s = s' ∧ c = c' then (o.map fun ch => (ch.disconnect u src).2).getD [] else []
  | peerTimeout s' c' u, o =>
      if s = s' ∧ c = c' then (o.map fun ch => (ch.peerTimeout u).2).getD [] else []
  | requestRelay s' c' u, o =>
      if s = s' ∧ c = c' then (o.map (Channel.relayRequested u)).getD [] else []
  | natProbe, _ | pong, _ | hb _ _ _, _ | data, _ | unknown, _ => []

end Effect

/-- What a step does to the channel `s`/`c`. -/
def ServerStep.effect (s c : Token) : ServerStep → Option Channel → Option Channel
  | message amb text src, o => (Request.ofText text).effect amb src s c o
  | heartbeat now, o => o.bind (Channel.heartbeat now)
  | relayout _ _, o => o

/-- What a channel has sent in a pass. -/
def Channel.heartbeatTold (now : Instant) (channel : Channel) : List Datagram :=
  ((channel.expireAndSettle now).2.1.map fun addr => tell addr msgPing.text) ++
    (channel.expireAndSettle now).2.2.flatMap Notification.datagrams

/-- What a step makes the server send on behalf of the channel `s`/`c`. -/
def ServerStep.told (s c : Token) : ServerStep → Option Channel → List Datagram
  | message amb text src, o => (Request.ofText text).told amb src s c o
  | heartbeat now, o => (o.map (Channel.heartbeatTold now)).getD []
  | relayout _ _, _ => []

/-- By what a datagram is sent on behalf of the channel `s`/`c`. -/
inductive Telling (l : ServerStep) (s c : Token) (d : Datagram) : Option Channel → Prop
  | connect {amb : Ambient} {text : Str} {src : SocketAddr} {n : Token} {natArg : Option Token}
      {o : Option Channel} (hl : l = .message amb text src)
      (hreq : Request.ofText text = .connect s c n natArg)
      (hd : d ∈ ((o.getD .default).connect amb n (NatKind.ofArg natArg) src).2) : Telling l s c d o
  | disconnect {amb : Ambient} {text : Str} {src : SocketAddr} {n : Token} {ch : Channel}
      (hl : l = .message amb text src) (hreq : Request.ofText text = .disconnect s c n)
      (hd : d ∈ (ch.disconnect n src).2) : Telling l s c d (some ch)
  | peerTimeout {amb : Ambient} {text : Str} {src : SocketAddr} {n : Token} {ch : Channel}
      (hl : l = .message amb text src) (hreq : Request.ofText text = .peerTimeout s c n)
      (hd : d ∈ (ch.peerTimeout n).2) : Telling l s c d (some ch)
  | requestRelay {amb : Ambient} {text : Str} {src : SocketAddr} {n : Token} {ch : Channel}
      (hl : l = .message amb text src) (hreq : Request.ofText text = .requestRelay s c n)
      (hd : d ∈ ch.relayRequested n) : Telling l s c d (some ch)
  | heartbeat {now : Instant} {ch : Channel} (hl : l = .heartbeat now)
      (hd : d ∈ ch.heartbeatTold now) : Telling l s c d (some ch)

theorem telling_of_told {l : ServerStep} {s c : Token} {o : Option Channel} {d : Datagram}
    (h : d ∈ l.told s c o) : Telling l s c d o := by
  cases l with
  | relayout _ _ => exact absurd h List.not_mem_nil
  | heartbeat now =>
      cases o with
      | none => exact absurd h List.not_mem_nil
      | some ch => exact .heartbeat rfl h
  | message amb text src =>
      change d ∈ (Request.ofText text).told amb src s c o at h
      cases hreq : Request.ofText text with
      | connect s' c' n natArg =>
          rw [hreq, Request.told] at h
          split_ifs at h with hsc
          · obtain ⟨rfl, rfl⟩ := hsc
            exact .connect rfl hreq h
          · exact absurd h List.not_mem_nil
      | disconnect s' c' n =>
          rw [hreq, Request.told] at h
          split_ifs at h with hsc
          · obtain ⟨rfl, rfl⟩ := hsc
            cases o with
            | none => exact absurd h List.not_mem_nil
            | some ch => exact .disconnect rfl hreq h
          · exact absurd h List.not_mem_nil
      | peerTimeout s' c' n =>
          rw [hreq, Request.told] at h
          split_ifs at h with hsc
          · obtain ⟨rfl, rfl⟩ := hsc
            cases o with
            | none => exact absurd h List.not_mem_nil
            | some ch => exact .peerTimeout rfl hreq h
          · exact absurd h List.not_mem_nil
      | requestRelay s' c' n =>
          rw [hreq, Request.told] at h
          split_ifs at h with hsc
          · obtain ⟨rfl, rfl⟩ := hsc
            cases o with
            | none => exact absurd h List.not_mem_nil
            | some ch => exact .requestRelay rfl hreq h
          · exact absurd h List.not_mem_nil
      | natProbe | pong | hb _ _ _ | data | unknown =>
          rw [hreq] at h
          exact absurd h List.not_mem_nil

theorem ServerMap.channel?_relayout (st : ServerMap) (s c s' c' : Token) :
    (st.relayout s c).channel? s' c' = st.channel? s' c' := by
  unfold relayout channel?
  rw [HashMap.lookup_modify, HashMap.lookup_toFront, HashMap.lookup_toFront]
  split_ifs with hs
  · subst hs
    cases AList.lookup s' st with
    | none => rfl
    | some channels => simp
  · rfl

/-- A step acts on each channel by itself. -/
theorem channel?_step (st : ServerMap) (l : ServerStep) (s c : Token) :
    (st.step l).channel? s c = l.effect s c (st.channel? s c) := by
  cases l with
  | heartbeat now => exact (heartbeatPass_spec now st).1 s c
  | relayout s' c' => exact st.channel?_relayout s' c' s c
  | message amb text src =>
      unfold ServerMap.step ServerStep.program ServerStep.effect
      dsimp only
      rw [handleMessage_eq]
      cases Request.ofText text with
      | natProbe => rfl
      | unknown => rfl
      | pong => exact st.channel?_mapValues (fun _ _ => Channel.pong amb.now src) s c
      | hb s' c' u =>
          simp only [Request.handle, handleHeartbeat, run_locked, run_bind, run_getState,
            run_setState, ServerMap.channel?_modifyChannel, Request.effect]
          split_ifs with h
          · rw [h.1, h.2]
          · rfl
      | connect s' c' u natArg =>
          rw [Request.handle, (handleConnectMessage_spec amb s' c' u natArg src st).1]
          simp only [Request.effect]
          split_ifs with h
          · rw [h.1, h.2]
          · rfl
          · rfl
      | disconnect s' c' u =>
          rw [Request.handle, (handleDisconnectMessage_spec s' c' u src st).1]
          simp only [Request.effect]
          split_ifs with h
          · rw [h.1, h.2]
          · rfl
      | peerTimeout s' c' u =>
          rw [Request.handle, (handlePeerTimeout_spec s' c' u st).1]
          simp only [Request.effect]
          split_ifs with h
          · rw [h.1, h.2]
          · rfl
      | requestRelay s' c' u =>
          rw [Request.handle, (handleRelayRequest_spec s' c' u st).1]
          simp only [Request.effect]
          split_ifs with h
          · rw [h.1, h.2]
          · rfl
      | data =>
          rw [Request.handle, handleDataFromClient_state]
          rfl

/-- What is sent on behalf of a channel is sent. -/
theorem mem_sent_of_told {st : ServerMap} {l : ServerStep} {s c : Token} {d : Datagram}
    (h : d ∈ l.told s c (st.channel? s c)) : d ∈ st.sent l := by
  cases l with
  | relayout _ _ => exact absurd h List.not_mem_nil
  | heartbeat now =>
      change d ∈ ((heartbeatPass now).run st).sent
      rw [(heartbeatPass_spec now st).2]
      cases hch : st.channel? s c with
      | none =>
          rw [hch] at h
          exact absurd h List.not_mem_nil
      | some ch =>
          rw [hch] at h
          have hmem := ServerMap.mem_channels_iff.mpr hch
          rcases List.mem_append.mp h with hp | hn
          · exact List.mem_append_left _ (List.mem_flatMap_of_mem hmem hp)
          · exact List.mem_append_right _ (List.mem_flatMap_of_mem hmem hn)
  | message amb text src =>
      change d ∈ ((handleMessage amb text src).run st).sent
      rw [handleMessage_eq]
      change d ∈ (Request.ofText text).told amb src s c (st.channel? s c) at h
      cases hreq : Request.ofText text with
      | connect s' c' u natArg =>
          rw [hreq, Request.told] at h
          split_ifs at h with hsc
          · rw [Request.handle, (handleConnectMessage_spec amb s' c' u natArg src st).2]
            rwa [hsc.1, hsc.2] at h
          · exact absurd h List.not_mem_nil
      | disconnect s' c' u =>
          rw [hreq, Request.told] at h
          split_ifs at h with hsc
          · rw [Request.handle, (handleDisconnectMessage_spec s' c' u src st).2]
            rwa [hsc.1, hsc.2] at h
          · exact absurd h List.not_mem_nil
      | peerTimeout s' c' u =>
          rw [hreq, Request.told] at h
          split_ifs at h with hsc
          · rw [Request.handle, (handlePeerTimeout_spec s' c' u st).2]
            rwa [hsc.1, hsc.2] at h
          · exact absurd h List.not_mem_nil
      | requestRelay s' c' u =>
          rw [hreq, Request.told] at h
          split_ifs at h with hsc
          · rw [Request.handle, (handleRelayRequest_spec s' c' u st).2]
            rwa [hsc.1, hsc.2] at h
          · exact absurd h List.not_mem_nil
      | natProbe | pong | hb _ _ _ | data | unknown =>
          rw [hreq] at h
          exact absurd h List.not_mem_nil

/-- And nothing else is sent, except in answer to a probe or to pass `DATA` on. -/
theorem told_of_mem_sent {st : ServerMap} {l : ServerStep} {d : Datagram}
    (hl : ∀ amb text src, l = .message amb text src →
      Request.ofText text ≠ .natProbe ∧ Request.ofText text ≠ .data)
    (h : d ∈ st.sent l) : ∃ s c, d ∈ l.told s c (st.channel? s c) := by
  cases l with
  | relayout _ _ => exact absurd h List.not_mem_nil
  | heartbeat now =>
      change d ∈ ((heartbeatPass now).run st).sent at h
      rw [(heartbeatPass_spec now st).2] at h
      have htold : ∀ s c ch, (s, c, ch) ∈ st.channels → d ∈ ch.heartbeatTold now →
          ∃ s c, d ∈ (ServerStep.heartbeat now).told s c (st.channel? s c) := by
        intro s c ch hmem hd
        refine ⟨s, c, ?_⟩
        rw [ServerMap.mem_channels_iff.mp hmem]
        exact hd
      rcases List.mem_append.mp h with hp | hn
      · obtain ⟨⟨s, c, ch⟩, hmem, hd⟩ := List.mem_flatMap.mp hp
        exact htold s c ch hmem (List.mem_append_left _ hd)
      · obtain ⟨⟨s, c, ch⟩, hmem, hd⟩ := List.mem_flatMap.mp hn
        exact htold s c ch hmem (List.mem_append_right _ hd)
  | message amb text src =>
      obtain ⟨hprobe, hdata⟩ := hl amb text src rfl
      change d ∈ ((handleMessage amb text src).run st).sent at h
      rw [handleMessage_eq] at h
      change ∃ s c, d ∈ (Request.ofText text).told amb src s c (st.channel? s c)
      cases hreq : Request.ofText text with
      | natProbe => exact absurd hreq hprobe
      | data => exact absurd hreq hdata
      | connect s' c' u natArg =>
          rw [hreq, Request.handle, (handleConnectMessage_spec amb s' c' u natArg src st).2] at h
          refine ⟨s', c', ?_⟩
          rwa [Request.told, if_pos ⟨rfl, rfl⟩]
      | disconnect s' c' u =>
          rw [hreq, Request.handle, (handleDisconnectMessage_spec s' c' u src st).2] at h
          refine ⟨s', c', ?_⟩
          rwa [Request.told, if_pos ⟨rfl, rfl⟩]
      | peerTimeout s' c' u =>
          rw [hreq, Request.handle, (handlePeerTimeout_spec s' c' u st).2] at h
          refine ⟨s', c', ?_⟩
          rwa [Request.told, if_pos ⟨rfl, rfl⟩]
      | requestRelay s' c' u =>
          rw [hreq, Request.handle, (handleRelayRequest_spec s' c' u st).2] at h
          refine ⟨s', c', ?_⟩
          rwa [Request.told, if_pos ⟨rfl, rfl⟩]
      | pong | hb _ _ _ | unknown =>
          rw [hreq] at h
          exact absurd h List.not_mem_nil

/-! ## Properties of every channel -/

/-- `P` holds of every channel. -/
def Everywhere (P : Channel → Prop) (st : ServerMap) : Prop :=
  ∀ s c ch, st.channel? s c = some ch → P ch

theorem everywhere_empty (P : Channel → Prop) : Everywhere P ∅ := fun _ _ _ h => nomatch h

/-- The channel that a `CONNECT` finds, which may be one it has just made. -/
theorem Everywhere.getD {P : Channel → Prop} {st : ServerMap} (h : Everywhere P st)
    (hdefault : P .default) (s c : Token) : P ((st.channel? s c).getD .default) := by
  cases hch : st.channel? s c with
  | none => exact hdefault
  | some ch => exact h s c ch hch

theorem everywhere_step {P : Channel → Prop} {st : ServerMap} {l : ServerStep} :
    Everywhere P (st.step l) ↔
      ∀ s c ch, l.effect s c (st.channel? s c) = some ch → P ch := by
  simp only [Everywhere, channel?_step]

end NatPiercer.Signaling
