/-
# `Signaling.Structures` — what the signaling server keeps

`src/signaling/structures.rs`, and the two effects every handler has beside
changing the map: it sends datagrams, and it reads the clock.

Names are tokens: the only place a `User` is made is `CONNECT`, and what it
is given comes out of `split_whitespace`.
-/
import NatPiercer.Lib.HashMap
import NatPiercer.Lib.LockProg
import NatPiercer.Lib.SocketAddr
import NatPiercer.Lib.Utf8
import NatPiercer.Lib.Vec
import NatPiercer.Proto.ControlText

namespace NatPiercer.Signaling

open Text Utf8 Net Proto

/-- `std::time::Instant`, in nanoseconds. -/
abbrev Instant := Nat

inductive NatKind
  | unknown
  | «public»
  | cone
  | symmetric
deriving DecidableEq, Repr

structure User where
  peerId : UInt32
  name : Token
  addr : SocketAddr
  lastPong : Instant
  needsServerRelay : Bool
  natKind : NatKind
deriving DecidableEq

/-- `User::new`, at time `now`. -/
def User.new (userName : Token) (addr : SocketAddr) (natKind : NatKind) (peerId : UInt32)
    (now : Instant) : User where
  peerId := peerId
  name := userName
  addr := addr
  lastPong := now
  needsServerRelay := natKind = .symmetric
  natKind := natKind

structure Channel where
  channelId : UInt64
  nextPeerId : UInt32
  users : List User
  relay : Option Token
deriving DecidableEq

/-- `Channel::default`. -/
def Channel.default : Channel where
  channelId := 0
  nextPeerId := 1
  users := []
  relay := none

/-- `server_id → channel name → channel`. -/
abbrev ServerMap := HashMap Token (HashMap Token Channel)

/-- `st.get(server_id).and_then(|channels| channels.get(channel_name))`. -/
def ServerMap.channel? (st : ServerMap) (serverId channelName : Token) : Option Channel :=
  (AList.lookup serverId st).bind fun channels => AList.lookup channelName channels

/-- All channels, in the order a nested iteration visits them. -/
def ServerMap.channels (st : ServerMap) : List (Token × Token × Channel) :=
  st.entries.flatMap fun server => server.2.entries.map fun ch => (server.1, ch.1, ch.2)

/-- What is done to a channel through `st.get_mut(…)` and `channels.get_mut(…)`. -/
def ServerMap.modifyChannel (st : ServerMap) (serverId channelName : Token)
    (f : Channel → Channel) : ServerMap :=
  HashMap.modify serverId (HashMap.modify channelName f) st

/-- `modifyChannel` with a block that may panic. -/
def ServerMap.tryModifyChannel (st : ServerMap) (serverId channelName : Token)
    (f : Channel → Option Channel) : Option ServerMap :=
  HashMap.tryModify serverId (HashMap.tryModify channelName f) st

/-- A datagram on its way. -/
structure Datagram where
  dst : SocketAddr
  payload : Bytes
deriving DecidableEq

/-- A handler: a program over the map behind the server's mutex that sends
datagrams. -/
abbrev Server := LockProg ServerMap Datagram

/-- `socket.send_to(payload, dst)`; a failed send is only logged. -/
def sendTo (payload : Bytes) (dst : SocketAddr) : Server Unit := .output ⟨dst, payload⟩

/-- What a handler draws from its surroundings: the clock, and the random
number a new channel is named by. -/
structure Ambient where
  now : Instant
  channelId : UInt64
deriving DecidableEq

/-- A text as a datagram. -/
def tell (dst : SocketAddr) (text : Str) : Datagram := ⟨dst, asBytes text⟩

/-! ## The lines the server writes -/

/-- `MODE RELAY` -/
def modeRelay : Str := line [msgMode, msgRelay]

/-- `MODE DIRECT <name> <addr>` -/
def modeDirect (name : Token) (addr : SocketAddr) : Str :=
  line [msgMode, msgDirect, name, addr.token]

/-- `MODE SERVER_RELAY <name>` -/
def modeServerRelay (name : Token) : Str := line [msgMode, msgServerRelay, name]

/-- `USER_LEFT <name> <addr>` -/
def userLeft (name addr : Token) : Str := line [msgUserLeft, name, addr]

/-! ## One channel of the map -/

theorem ServerMap.channel?_modifyChannel (st : ServerMap) (s c s' c' : Token)
    (f : Channel → Channel) :
    (st.modifyChannel s c f).channel? s' c' =
      if s' = s ∧ c' = c then (st.channel? s c).map f else st.channel? s' c' := by
  unfold channel? modifyChannel
  rw [HashMap.lookup_modify]
  by_cases hs : s' = s
  · subst hs
    rw [if_pos rfl]
    cases AList.lookup s' st with
    | none => split_ifs <;> rfl
    | some channels =>
        simp only [Option.map_some, Option.bind_some, HashMap.lookup_modify, true_and]
  · rw [if_neg hs, if_neg fun h => hs h.1]

theorem ServerMap.tryModifyChannel_eq_some {f : Channel → Option Channel} {g : Channel → Channel}
    (h : ∀ ch, f ch = some (g ch)) (st : ServerMap) (s c : Token) :
    st.tryModifyChannel s c f = some (st.modifyChannel s c g) :=
  HashMap.tryModify_eq_some (fun t => HashMap.tryModify_eq_some h c t) s st

/-- What a nested iteration over the map does to a channel. -/
theorem ServerMap.channel?_mapValues (st : ServerMap) (f : Token → Token → Channel → Channel)
    (s c : Token) :
    channel? (HashMap.mapValues (fun s => HashMap.mapValues (f s)) st) s c =
      (st.channel? s c).map (f s c) := by
  unfold channel?
  rw [HashMap.lookup_mapValues]
  cases AList.lookup s st with
  | none => rfl
  | some channels => rw [Option.map_some, Option.bind_some, HashMap.lookup_mapValues]; rfl

/-- The iteration visits what lookups find. -/
theorem ServerMap.mem_channels_iff {st : ServerMap} {s c : Token} {ch : Channel} :
    (s, c, ch) ∈ st.channels ↔ st.channel? s c = some ch := by
  unfold channels channel?
  simp only [List.mem_flatMap, List.mem_map, Option.bind_eq_some_iff]
  constructor
  · rintro ⟨⟨s', chans⟩, hs, ⟨c', ch'⟩, hc, heq⟩
    obtain ⟨rfl, rfl, rfl⟩ : s' = s ∧ c' = c ∧ ch' = ch := by simpa using heq
    exact ⟨chans, HashMap.mem_entries_iff.mp hs, HashMap.mem_entries_iff.mp hc⟩
  · rintro ⟨chans, hs, hc⟩
    exact ⟨⟨s, chans⟩, HashMap.mem_entries_iff.mpr hs, ⟨c, ch⟩,
      HashMap.mem_entries_iff.mpr hc, rfl⟩

end NatPiercer.Signaling
