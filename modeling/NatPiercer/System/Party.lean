/-
# `System.Party` — a channel is set up

A party is some clients with distinct names at distinct addresses.  The sockets
are bound to `0.0.0.0`, so the addresses are of IPv4.  Its clients connect to
one channel, in any order, some of them again; members are reported, by anybody,
with `REQUEST_RELAY`.  The server handles one message after the other, and
each datagram it sends is received before the next message is.
-/
import NatPiercer.System.Joint

namespace NatPiercer.System

open Text Utf8 Net Proto LockProg Signaling Client

structure Party where
  serverId : Token
  channelName : Token
  /-- where the server is -/
  server : SocketAddr
  /-- who is at an address -/
  name : SocketAddr → Option Token
  distinct : ∀ {a b n}, name a = some n → name b = some n → a = b
  ipv4 : ∀ {a n}, name a = some n → ∃ ip port, a = .v4 ip port
  elsewhere : name server = none

/-- A member connects to the channel, or somebody asks for the server to relay
for a member. -/
def Party.admits (party : Party) : ServerStep → Bool
  | .message _ text src =>
      match Request.ofText text with
      | .connect s c n _ => s = party.serverId && c = party.channelName && party.name src = some n
      | .requestRelay s c _ => s = party.serverId && c = party.channelName
      | _ => false
  | .heartbeat _ | .relayout _ _ => false

abbrev Party.Setup (party : Party) := { l : ServerStep // party.admits l = true }

/-- No channel is there, and every client has just been started. -/
def Party.init (party : Party) : Joint :=
  ⟨∅, fun a => .fresh ((party.name a).elim [] Token.text)⟩

def Party.step (party : Party) (o : Joint) (l : party.Setup) : Joint := o.step party.server l.1

/-- The channel of the party, as it is at first if nobody has connected. -/
def Party.channel (party : Party) (o : Joint) : Channel :=
  (o.map.channel? party.serverId party.channelName).getD .default

/-- Where the members are, as a directory. -/
def Party.directory (party : Party) : Directory where
  home a := (party.name a).map fun n => (party.serverId, party.channelName, n)
  distinct := by
    intro a b s c s' c' n ha hb
    obtain ⟨m, hm, heq⟩ := Option.map_eq_some_iff.mp ha
    obtain ⟨m', hm', heq'⟩ := Option.map_eq_some_iff.mp hb
    simp only [Prod.mk.injEq] at heq heq'
    exact party.distinct (heq.2.2 ▸ hm) (heq'.2.2 ▸ hm')

/-! ## What a message of the setup does -/

section Setup
variable {party : Party} {o : Joint} {l : party.Setup}

/-- The two kinds. -/
inductive Party.Kind (party : Party) (l : party.Setup) : Prop
  | connect {amb text src n natArg} (hl : l.1 = .message amb text src)
      (hreq : Request.ofText text = .connect party.serverId party.channelName n natArg)
      (hsrc : party.name src = some n)
  | requestRelay {amb text src} {n : Token} (hl : l.1 = .message amb text src)
      (hreq : Request.ofText text = .requestRelay party.serverId party.channelName n)

theorem Party.kind (party : Party) (l : party.Setup) : party.Kind l := by
  obtain ⟨l, hl⟩ := l
  cases l with
  | heartbeat now => exact absurd hl Bool.false_ne_true
  | relayout s c => exact absurd hl Bool.false_ne_true
  | message amb text src =>
      unfold Party.admits at hl
      dsimp only at hl
      cases hreq : Request.ofText text with
      | connect s c n natArg =>
          rw [hreq] at hl
          simp only [Bool.and_eq_true, decide_eq_true_eq] at hl
          obtain ⟨⟨rfl, rfl⟩, hsrc⟩ := hl
          exact .connect rfl hreq hsrc
      | requestRelay s c n =>
          rw [hreq] at hl
          simp only [Bool.and_eq_true, decide_eq_true_eq] at hl
          obtain ⟨rfl, rfl⟩ := hl
          exact .requestRelay rfl hreq
      | natProbe | pong | hb _ _ _ | disconnect _ _ _ | peerTimeout _ _ _ | data | unknown =>
          rw [hreq] at hl
          exact absurd hl Bool.false_ne_true

theorem Party.admits_directory (party : Party) (l : party.Setup) :
    party.directory.admits l.1 = true := by
  have hkind := party.kind l
  cases hkind with
  | connect hl hreq hsrc =>
      rw [hl, Directory.admits, hreq]
      exact decide_eq_true (congrArg (Option.map _) hsrc)
  | requestRelay hl hreq =>
      rw [hl, Directory.admits, hreq]

/-- A `CONNECT` of the setup: the channel afterwards, and what is sent. -/
theorem step_connect {amb : Ambient} {text : Str} {src : SocketAddr} {n : Token}
    {natArg : Option Token} (hl : l.1 = .message amb text src)
    (hreq : Request.ofText text = .connect party.serverId party.channelName n natArg) :
    party.channel (party.step o l) =
        ((party.channel o).connect amb n (NatKind.ofArg natArg) src).1 ∧
      o.map.sent l.1 = ((party.channel o).connect amb n (NatKind.ofArg natArg) src).2 := by
  constructor
  · unfold Party.channel Party.step
    rw [step_map, channel?_step, hl, ServerStep.effect, hreq, Request.effect, if_pos ⟨rfl, rfl⟩]
    rfl
  · rw [hl]
    change ((handleMessage amb text src).run o.map).sent = _
    rw [handleMessage_eq, hreq, Request.handle, (handleConnectMessage_spec _ _ _ _ _ _ _).2]
    rfl

/-- A `REQUEST_RELAY` of the setup. -/
theorem step_requestRelay {amb : Ambient} {text : Str} {src : SocketAddr} {n : Token}
    (hl : l.1 = .message amb text src)
    (hreq : Request.ofText text = .requestRelay party.serverId party.channelName n) :
    party.channel (party.step o l) = (party.channel o).requestRelay n ∧
      o.map.sent l.1 = (party.channel o).relayRequested n := by
  constructor
  · unfold Party.channel Party.step
    rw [step_map, channel?_step, hl, ServerStep.effect, hreq, Request.effect, if_pos ⟨rfl, rfl⟩]
    cases o.map.channel? party.serverId party.channelName <;> rfl
  · rw [hl]
    change ((handleMessage amb text src).run o.map).sent = _
    rw [handleMessage_eq, hreq, Request.handle, (handleRelayRequest_spec _ _ _ _).2]
    unfold Party.channel
    cases o.map.channel? party.serverId party.channelName <;> rfl

end Setup

end NatPiercer.System
