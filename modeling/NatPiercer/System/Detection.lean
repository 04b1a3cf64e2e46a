/-
# `System.Detection` — from a NAT to an entry of the server

A client sends a probe to each of the server's ports, and each says from where
it has come: that is up to the NAT, which may use one address for both or two.
What the client makes of the replies it writes into its `CONNECT`, and the
server into the entry that it makes.  So a client whose NAT uses two addresses
ends up as one that the server has to relay for, and no other does
(`detection_registers`).

The probe socket of the server looks for a packet in the wrong buffer.  It does no
harm here, as a probe is too short to be one, whatever is in that buffer
(`reply_probe`).
-/
import NatPiercer.Client.Arguments
import NatPiercer.Client.NatDetection
import NatPiercer.Signaling.Lifetimes
import NatPiercer.Signaling.Server

namespace NatPiercer.System

open Text Utf8 Net Proto Signaling Client

/-! ## The server's part -/

/-- How the server is found: what it has received, its map, and the time. -/
structure Found where
  history : List Arrival
  st : ServerMap
  amb : Ambient

/-- What it sends for a datagram. -/
def Found.reply (found : Found) (arrival : Arrival) : List Datagram :=
  ((dispatched found.history arrival).map fun text =>
    found.st.sent (.message found.amb text arrival.src)).getD []

/-- The reply to a probe from `a`. -/
def natSeen (a : SocketAddr) : Datagram := tell a (line [msgNatSeen, a.token])

/-- The text of a probe. -/
def probeText (number : Token) : Str := line [msgNatProbe, number]

theorem ofText_probeText (number : Token) : Request.ofText (probeText number) = .natProbe :=
  if_pos (List.isPrefixOf_iff_prefix.mpr ⟨_, rfl⟩)

theorem sent_probe (st : ServerMap) (amb : Ambient) (number : Token) (a : SocketAddr) :
    st.sent (.message amb (probeText number) a) = [natSeen a] := by
  rw [ServerMap.sent, ServerStep.program, handleMessage_eq, ofText_probeText]
  rfl

/-- Short of a header, there is no packet. -/
theorem decode_of_short {bytes : Bytes} (h : bytes.length < headerLen) : decode bytes = none := by
  cases hdec : decode bytes with
  | none => rfl
  | some packet =>
      obtain ⟨hdr, payload⟩ := packet
      obtain ⟨-, hpre⟩ := encode_prefix_of_decode hdec
      have hle := hpre.length_le
      rw [length_encode] at hle
      omega

/-- Whichever socket it comes to, and whatever is in the buffers. -/
theorem reply_probe (found : Found) (socket : Socket) {number : Token}
    (hshort : (asBytes (probeText number)).length < headerLen) (a : SocketAddr) :
    found.reply ⟨socket, asBytes (probeText number), a⟩ = [natSeen a] := by
  have hreceived : received (asBytes (probeText number)) = asBytes (probeText number) :=
    List.take_of_length_le (by rw [headerLen] at hshort; omega)
  have htext : dispatched found.history ⟨socket, asBytes (probeText number), a⟩ =
      some (probeText number) := by
    have hplain : ∀ packet : Bytes, packet.length < headerLen →
        dispatchText packet (asBytes (probeText number)) = some (probeText number) := by
      intro packet hpacket
      rw [dispatchText, framed, decode_of_short hpacket, fromUtf8Lossy_asBytes]
      rfl
    cases socket with
    | main =>
        rw [dispatched_main, hreceived]
        exact hplain _ hshort
    | probe =>
        rw [dispatched_probe, hreceived]
        refine hplain _ ?_
        rw [length_stale, hreceived]
        exact hshort
  rw [Found.reply, htext, Option.map_some, Option.getD_some, sent_probe]

/-! ## Both probes -/

/-- The socket that is bound to the port. -/
def socketAt (port : UInt16) : Socket := if port = 2131 then .main else .probe

/-- A NAT: the address that a datagram to somewhere seems to come from. -/
abbrev Mapping := SocketAddr → Ipv4Addr × UInt16

def Mapping.seen (nat : Mapping) (dst : SocketAddr) : SocketAddr := .v4 (nat dst).1 (nat dst).2

/-- All that the server sends for the probes of a client. -/
def probeReplies (server : IpAddr) (nat : Mapping) (found : Socket → Found) : List Datagram :=
  (detectNatKind server []).2.flatMap fun d =>
    (found (socketAt d.dst.port)).reply ⟨socketAt d.dst.port, d.payload, nat.seen d.dst⟩

theorem probeReplies_eq (server : IpAddr) (nat : Mapping) (found : Socket → Found) :
    probeReplies server nat found =
      [natSeen (nat.seen (.new 2131 server)), natSeen (nat.seen (.new 2132 server))] := by
  have hprobe : ∀ (k : Token) (dst : SocketAddr),
      (asBytes (probeText k)).length < headerLen →
        (found (socketAt dst.port)).reply ⟨socketAt dst.port, (tell dst (probeText k)).payload,
          nat.seen dst⟩ = [natSeen (nat.seen dst)] := fun k dst hshort =>
    reply_probe (found (socketAt dst.port)) (socketAt dst.port) hshort (nat.seen dst)
  unfold probeReplies detectNatKind natProbe
  rw [List.flatMap_cons, List.flatMap_cons, List.flatMap_nil, List.append_nil]
  exact congrArg₂ (· ++ ·) (hprobe _ (.new 2131 server) (by decide))
    (hprobe _ (.new 2132 server) (by decide))

/-- What is received that reads as a reply, up to a failure of the socket. -/
def replied : List Received → List Bytes
  | [] => []
  | .datagram _ bytes :: rest => (if (observed bytes).isSome then [bytes] else []) ++ replied rest
  | .wouldBlock :: rest => replied rest
  | .failed :: _ => []

theorem reports_eq (rs : List Received) : reports rs = (replied rs).filterMap observed := by
  induction rs with
  | nil => rfl
  | cons r rest ih =>
      cases r with
      | wouldBlock => exact ih
      | failed => rfl
      | datagram src bytes =>
          rw [reports, replied, List.filterMap_append, ih]
          cases h : observed bytes with
          | none => rfl
          | some a =>
              rw [Option.isSome_some, if_pos rfl, List.filterMap_cons_some h]
              rfl

theorem samePlace_seen (nat : Mapping) (d d' : SocketAddr) :
    SamePlace (nat.seen d) (nat.seen d') ↔ nat.seen d = nat.seen d' := by
  constructor
  · rintro ⟨hip, hport⟩
    exact congrArg₂ SocketAddr.v4 (IpAddr.v4.inj hip) hport
  · intro h
    rw [h]
    exact ⟨rfl, rfl⟩

section Kind
variable {server : IpAddr} {nat : Mapping} {found : Socket → Found} {rs : List Received}

/-- Nothing but the server's replies reads as one, and none comes twice. -/
def OnlyReplies (server : IpAddr) (nat : Mapping) (found : Socket → Found) (rs : List Received) :
    Prop :=
  (replied rs).Subperm ((probeReplies server nat found).map Datagram.payload)

/-- Both replies have come. -/
def BothCame (rs : List Received) : Prop := (replied rs).length = 2

instance (rs : List Received) : Decidable (BothCame rs) := inferInstanceAs (Decidable (_ = _))

theorem reports_perm (h : OnlyReplies server nat found rs) (hboth : BothCame rs) :
    (reports rs).Perm [nat.seen (.new 2131 server), nat.seen (.new 2132 server)] := by
  rw [OnlyReplies, probeReplies_eq] at h
  have hperm := h.perm_of_length_le (by rw [hboth]; exact Nat.le_refl 2)
  rw [reports_eq]
  refine (hperm.filterMap observed).trans (List.Perm.of_eq ?_)
  have hseen : ∀ d, observed (natSeen (nat.seen d)).payload = some (nat.seen d) := fun d =>
    observed_natSeen _ _
  rw [List.map_cons, List.map_cons, List.map_nil, List.filterMap_cons_some (hseen _),
    List.filterMap_cons_some (hseen _), List.filterMap_nil]

theorem pair_of_perm {a b x y : SocketAddr} (h : [a, b].Perm [x, y]) :
    a = x ∧ b = y ∨ a = y ∧ b = x := by
  have ha : a = x ∨ a = y := by simpa using h.subset List.mem_cons_self
  rcases ha with rfl | rfl
  · exact Or.inl ⟨rfl, List.singleton_perm_singleton.mp h.cons_inv⟩
  · exact Or.inr ⟨rfl, List.singleton_perm_singleton.mp (h.trans (.swap a x [])).cons_inv⟩

/-- What the client makes of it. -/
theorem kind_of_replies (h : OnlyReplies server nat found rs) :
    (detectNatKind server rs).1 =
      if BothCame rs then
        if nat.seen (.new 2131 server) = nat.seen (.new 2132 server) then .cone else .symmetric
      else .unknown := by
  by_cases hboth : BothCame rs
  · obtain ⟨a, b, hreports⟩ := List.length_eq_two.mp (reports_perm h hboth).length_eq
    have hperm := reports_perm h hboth
    rw [hreports] at hperm
    have hsame : SamePlace a b ↔ nat.seen (.new 2131 server) = nat.seen (.new 2132 server) := by
      rcases pair_of_perm hperm with ⟨rfl, rfl⟩ | ⟨rfl, rfl⟩
      · exact samePlace_seen nat _ _
      · exact (samePlace_seen nat _ _).trans eq_comm
    rw [detectNatKind_of_reports server hreports, if_pos hboth]
    exact if_congr hsame rfl rfl
  · rw [if_neg hboth]
    refine detectNatKind_unknown server ?_
    have hle : (replied rs).length ≤ 2 := by
      have hlength := h.length_le
      rwa [probeReplies_eq] at hlength
    have hreports : (reports rs).length ≤ (replied rs).length := by
      rw [reports_eq]
      exact List.length_filterMap_le _ _
    rw [BothCame] at hboth
    omega

end Kind

/-! ## The entry -/

/-- A session that is new to the channel is entered with its kind. -/
theorem entry_of_connect {st : ServerMap} {s c n : Token} {a : SocketAddr}
    (hnew : st.session? s c n a = none) (amb : Ambient) (kind : Client.NatKind) :
    ∃ u, (st.step (.message amb (connectText s.text c.text n.text kind) a)).session? s c n a =
        some u ∧ u.natKind = kind.kind ∧ u.needsServerRelay = decide (kind.kind = .symmetric) := by
  set ch := (st.channel? s c).getD .default
  have hsession : ∀ x ∈ ch.users, x.isSession n a = false := by
    intro x hx
    cases hch : st.channel? s c with
    | none =>
        simp only [ch, hch, Option.getD_none] at hx
        exact absurd hx List.not_mem_nil
    | some ch' =>
        simp only [ch, hch, Option.getD_some] at hx
        rw [ServerMap.session?, hch, Option.bind_some] at hnew
        exact Bool.eq_false_iff.mpr (List.find?_eq_none.mp hnew x hx)
  refine ⟨ch.newUser amb n kind.kind a, ?_, rfl, rfl⟩
  have hchannel : (st.step (.message amb (connectText s.text c.text n.text kind) a)).channel? s c =
      some (ch.connect amb n kind.kind a).1 := by
    rw [channel?_step, ServerStep.effect, ofText_connectText, Request.effect, if_pos ⟨rfl, rfl⟩,
      ofArg_natType]
  rw [ServerMap.session?, hchannel, Option.bind_some, connect_users_of_new amb _ hsession,
    List.find?_append, find?_others, if_pos rfl, Option.none_or]
  exact List.find?_cons_of_pos (isSession_iff.mpr ⟨rfl, rfl⟩)

/-- **From a NAT to an entry.**  Whatever the server has received before, and in
whatever order the replies come, if they do and nothing else reads as one: a
client that connects anew is entered as one to be relayed for exactly if both
replies came and its NAT uses two addresses, as one with a cone NAT if both
came and it uses one, and as of no known kind if one is missing. -/
theorem detection_registers {server : IpAddr} {nat : Mapping} {found : Socket → Found}
    {rs : List Received} (hreplies : OnlyReplies server nat found rs) {st : ServerMap}
    {s c n : Token} {a : SocketAddr} (hnew : st.session? s c n a = none) (amb : Ambient) :
    let kind := (detectNatKind server rs).1
    let one := nat.seen (.new 2131 server) = nat.seen (.new 2132 server)
    ∃ u, (st.step (.message amb (connectText s.text c.text n.text kind) a)).session? s c n a =
        some u ∧
      (u.needsServerRelay = true ↔ BothCame rs ∧ ¬ one) ∧
      (u.natKind = .symmetric ↔ BothCame rs ∧ ¬ one) ∧
      (u.natKind = .cone ↔ BothCame rs ∧ one) ∧
      (u.natKind = .unknown ↔ ¬ BothCame rs) := by
  intro kind one
  obtain ⟨u, hu, hkind, hneeds⟩ := entry_of_connect hnew amb kind
  refine ⟨u, hu, ?_⟩
  have hmade : kind = if BothCame rs then if one then .cone else .symmetric else .unknown :=
    kind_of_replies hreplies
  rw [hneeds, decide_eq_true_eq, hkind, hmade]
  by_cases hboth : BothCame rs
  · by_cases hone : one
    · simp [hboth, hone, Client.NatKind.kind]
    · simp [hboth, hone, Client.NatKind.kind]
  · simp [hboth, Client.NatKind.kind]

/-- Ann's NAT uses two ports; the second reply comes first. -/
theorem detection_registers_ann :
    let server : IpAddr := .v4 ⟨10, 0, 0, 9⟩
    let nat : Mapping := fun dst => (⟨10, 0, 0, 1⟩, if dst.port = 2131 then 4000 else 4001)
    let rs : List Received :=
      [.datagram (.new 2132 server) (natSeen (nat.seen (.new 2132 server))).payload, .wouldBlock,
        .datagram (.new 2131 server) (natSeen (nat.seen (.new 2131 server))).payload]
    let s : Token := ⟨['s'], by decide⟩
    let c : Token := ⟨['c'], by decide⟩
    let n : Token := ⟨"ann".toList, by decide⟩
    let st : ServerMap := ∅
    ∃ u, (st.step (.message ⟨0, 7⟩ (connectText s.text c.text n.text
          (detectNatKind server rs).1) (nat.seen (.new 2131 server)))).session? s c n
        (nat.seen (.new 2131 server)) = some u ∧
      (u.needsServerRelay = true ↔ BothCame rs ∧
        ¬ nat.seen (.new 2131 server) = nat.seen (.new 2132 server)) ∧ BothCame rs := by
  intro server nat rs s c n st
  have hreplied : replied rs = [(natSeen (nat.seen (.new 2132 server))).payload,
      (natSeen (nat.seen (.new 2131 server))).payload] := by decide +kernel
  have hreplies : OnlyReplies server nat (fun _ => ⟨[], ∅, ⟨0, 7⟩⟩) rs := by
    rw [OnlyReplies, probeReplies_eq, hreplied]
    exact (List.Perm.swap _ _ []).subperm
  have hnew : st.session? s c n (nat.seen (.new 2131 server)) = none := rfl
  obtain ⟨u, hu, hneeds, -⟩ := detection_registers hreplies hnew ⟨0, 7⟩
  exact ⟨u, hu, hneeds, by rw [BothCame, hreplied]; rfl⟩

end NatPiercer.System
