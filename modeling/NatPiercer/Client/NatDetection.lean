/-
# `Client.NatDetection` — what a client takes its NAT to be

`detect_nat_kind` of `src/client/networking.rs`.  Before it connects, a client
sends a probe to each of the server's two ports, and the server tells it, from
either port, under which address it is seen there.  The same address twice
means a cone NAT, two addresses a symmetric one.

The loop takes the first two replies that come, and does not look where they
come from.  So what it makes of them is backed by the replies of the two
ports if those are the two, one from each; and if they are not, only where two
replies of the ports happen to say the same (`justified_iff`).  A reply that
comes twice, or one that somebody else sends, may stand for both ports.
-/
import NatPiercer.Client.Structures
import NatPiercer.Proto.ControlText
import NatPiercer.Signaling.Handlers

namespace NatPiercer.Client

open Text Utf8 Net Proto Signaling

/-- What `recv_from` gives, one time after the other until the deadline. -/
inductive Received
  | datagram (src : SocketAddr) (bytes : Bytes)
  | wouldBlock
  | failed
deriving DecidableEq

/-- `NAT_SEEN` and the blank after it. -/
def natSeenPrefix : Str := msgNatSeen.text ++ [' ']

/-- The address that a datagram reports, if it reads as a reply; the buffer holds
256 bytes of it. -/
def observed (bytes : Bytes) : Option SocketAddr :=
  let msg := fromUtf8Lossy (bytes.take 256)
  if startsWith msg natSeenPrefix then
    match splitWhitespace msg with
    | _ :: addrStr :: _ => SocketAddr.fromStr addrStr.text
    | _ => none
  else none

/-- The loop; `seen` is what has been reported so far. -/
def collect (seen : List SocketAddr) : List Received → List SocketAddr
  | [] => seen
  | r :: rest =>
      if seen.length < 2 then
        match r with
        | .datagram _ bytes =>
            match observed bytes with
            | some addr => collect (seen ++ [addr]) rest
            | none => collect seen rest
        | .wouldBlock => collect seen rest
        | .failed => seen
      else seen

/-- What is made of it. -/
def judge : List SocketAddr → NatKind
  | a :: b :: _ =>
      if a.ip ≠ b.ip then .symmetric
      else if a.port = b.port then .cone
      else .symmetric
  | _ => .unknown

/-- `NAT_PROBE <number>`, to one of the ports. -/
def natProbe (server : IpAddr) (port : UInt16) (number : Token) : Datagram :=
  tell (.new port server) (line [msgNatProbe, number])

def detectNatKind (server : IpAddr) (rs : List Received) : NatKind × List Datagram :=
  (judge (collect [] rs),
    [natProbe server 2131 ⟨['1'], by decide⟩, natProbe server 2132 ⟨['2'], by decide⟩])

/-! ## What the loop takes -/

/-- The reports, up to a failure of the socket. -/
def reports : List Received → List SocketAddr
  | [] => []
  | .datagram _ bytes :: rest => (observed bytes).toList ++ reports rest
  | .wouldBlock :: rest => reports rest
  | .failed :: _ => []

/-- The same, each with where it came from. -/
def replies : List Received → List (SocketAddr × SocketAddr)
  | [] => []
  | .datagram src bytes :: rest => ((observed bytes).map (Prod.mk src)).toList ++ replies rest
  | .wouldBlock :: rest => replies rest
  | .failed :: _ => []

theorem map_replies (rs : List Received) : (replies rs).map Prod.snd = reports rs := by
  induction rs with
  | nil => rfl
  | cons r rest ih =>
      cases r with
      | datagram src bytes =>
          rw [replies, reports, List.map_append, ih]
          cases observed bytes <;> rfl
      | wouldBlock => exact ih
      | failed => rfl

theorem mem_of_mem_replies {src a : SocketAddr} {rs : List Received} (h : (src, a) ∈ replies rs) :
    ∃ bytes, .datagram src bytes ∈ rs ∧ observed bytes = some a := by
  induction rs with
  | nil => exact absurd h List.not_mem_nil
  | cons r rest ih =>
      have hrest : (src, a) ∈ replies rest →
          ∃ bytes, .datagram src bytes ∈ r :: rest ∧ observed bytes = some a := fun h =>
        (ih h).imp fun _ hb => ⟨List.mem_cons_of_mem r hb.1, hb.2⟩
      cases r with
      | datagram src' bytes =>
          rcases List.mem_append.mp h with h | h
          · obtain ⟨b, hb, heq⟩ := Option.map_eq_some_iff.mp (Option.mem_toList.mp h)
            obtain ⟨rfl, rfl⟩ := Prod.mk.inj heq
            exact ⟨bytes, List.mem_cons_self, hb⟩
          · exact hrest h
      | wouldBlock => exact hrest h
      | failed => exact absurd h List.not_mem_nil

/-- The first two. -/
theorem collect_eq {seen : List SocketAddr} (h : seen.length ≤ 2) (rs : List Received) :
    collect seen rs = (seen ++ reports rs).take 2 := by
  induction rs generalizing seen with
  | nil => rw [collect, reports, List.append_nil, List.take_of_length_le h]
  | cons r rest ih =>
      unfold collect
      split_ifs with hlt
      · cases r with
        | datagram src bytes =>
            rw [reports]
            dsimp only
            cases observed bytes with
            | none => exact ih h
            | some addr =>
                have hlen : (seen ++ [addr]).length ≤ 2 := by
                  rw [List.length_append, List.length_singleton]
                  omega
                dsimp only
                rw [ih hlen, List.append_assoc]
                rfl
        | wouldBlock => exact ih h
        | failed => rw [reports, List.append_nil, List.take_of_length_le h]
      · have hlen : seen.length = 2 := by omega
        rw [List.take_append_of_le_length hlen.ge, List.take_of_length_le h]

theorem detectNatKind_fst (server : IpAddr) (rs : List Received) :
    (detectNatKind server rs).1 = judge ((reports rs).take 2) := by
  have hnone : ([] : List SocketAddr).length ≤ 2 := Nat.zero_le 2
  exact congrArg judge (collect_eq hnone rs)

/-- The same address, as far as it is compared. -/
def SamePlace (a b : SocketAddr) : Prop := a.ip = b.ip ∧ a.port = b.port

instance (a b : SocketAddr) : Decidable (SamePlace a b) :=
  inferInstanceAs (Decidable (_ ∧ _))

theorem judge_pair (a b : SocketAddr) (rest : List SocketAddr) :
    judge (a :: b :: rest) = if SamePlace a b then .cone else .symmetric := by
  have hjudge : judge (a :: b :: rest) =
      if a.ip ≠ b.ip then .symmetric else if a.port = b.port then .cone else .symmetric := rfl
  rw [hjudge]
  by_cases hip : a.ip = b.ip
  · rw [if_neg (not_not.mpr hip)]
    by_cases hport : a.port = b.port
    · rw [if_pos hport, if_pos ⟨hip, hport⟩]
    · rw [if_neg hport, if_neg fun h => hport h.2]
  · rw [if_pos hip, if_neg fun h => hip h.1]

/-- Two reports in all. -/
theorem detectNatKind_of_reports (server : IpAddr) {rs : List Received} {a b : SocketAddr}
    {rest : List SocketAddr} (h : reports rs = a :: b :: rest) :
    (detectNatKind server rs).1 = if SamePlace a b then .cone else .symmetric := by
  rw [detectNatKind_fst, h]
  exact judge_pair a b []

theorem detectNatKind_unknown (server : IpAddr) {rs : List Received}
    (h : (reports rs).length < 2) : (detectNatKind server rs).1 = .unknown := by
  rw [detectNatKind_fst]
  rcases hreports : reports rs with _ | ⟨a, _ | ⟨b, rest⟩⟩
  · rfl
  · rfl
  · rw [hreports] at h
    exact absurd h (by simp)

/-! ## What the two ports say -/

/-- A reply came from this port of the server, and it reports `a`. -/
def RepliedFrom (server : IpAddr) (port : UInt16) (rs : List Received) (a : SocketAddr) : Prop :=
  ∃ src bytes, .datagram src bytes ∈ rs ∧ src.ip = server ∧ src.port = port ∧
    observed bytes = some a

/-- Both ports replied, and what they report is related by `R`. -/
def BothReplied (server : IpAddr) (rs : List Received) (R : SocketAddr → SocketAddr → Prop) :
    Prop :=
  ∃ a b, RepliedFrom server 2131 rs a ∧ RepliedFrom server 2132 rs b ∧ R a b

/-- The answer is one that the two ports have given. -/
def Justified (server : IpAddr) (rs : List Received) (kind : NatKind) : Prop :=
  (kind = .cone → BothReplied server rs SamePlace) ∧
    (kind = .symmetric → BothReplied server rs fun a b => ¬ SamePlace a b)

/-- It is, if the first two reports agree with each other just as some two replies of
the two ports do. -/
theorem justified_pair_iff (server : IpAddr) {rs : List Received} {a b : SocketAddr}
    {rest : List SocketAddr} (h : reports rs = a :: b :: rest) :
    Justified server rs (detectNatKind server rs).1 ↔
      BothReplied server rs fun a' b' => SamePlace a' b' ↔ SamePlace a b := by
  rw [detectNatKind_of_reports server h, Justified]
  by_cases hsame : SamePlace a b
  · rw [if_pos hsame]
    simp only [true_implies, hsame, iff_true, reduceCtorEq, false_implies, and_true]
  · rw [if_neg hsame]
    simp only [true_implies, hsame, iff_false, reduceCtorEq, false_implies, true_and]

/-- One of two sources is the one port, and the other is the other. -/
def FromBothPorts (server : IpAddr) (src src' : SocketAddr) : Prop :=
  src.ip = server ∧ src'.ip = server ∧
    (src.port = 2131 ∧ src'.port = 2132 ∨ src.port = 2132 ∧ src'.port = 2131)

theorem bothReplied_of_fromBothPorts {server : IpAddr} {rs : List Received}
    {x y : SocketAddr × SocketAddr} (hx : x ∈ replies rs) (hy : y ∈ replies rs)
    (h : FromBothPorts server x.1 y.1) :
    BothReplied server rs fun a b => SamePlace a b ↔ SamePlace x.2 y.2 := by
  obtain ⟨bytes, hmem, hobserved⟩ := mem_of_mem_replies hx
  obtain ⟨bytes', hmem', hobserved'⟩ := mem_of_mem_replies hy
  obtain ⟨hip, hip', ⟨hport, hport'⟩ | ⟨hport, hport'⟩⟩ := h
  · exact ⟨x.2, y.2, ⟨x.1, bytes, hmem, hip, hport, hobserved⟩,
      ⟨y.1, bytes', hmem', hip', hport', hobserved'⟩, Iff.rfl⟩
  · exact ⟨y.2, x.2, ⟨y.1, bytes', hmem', hip', hport', hobserved'⟩,
      ⟨x.1, bytes, hmem, hip, hport, hobserved⟩, and_congr eq_comm eq_comm⟩

/-- **When the answer is backed by both probes.**  When fewer than two replies come;
or the first two come one from each port; or, wherever they come from, two
replies of the ports happen to agree with each other just as they do. -/
theorem justified_iff (server : IpAddr) (rs : List Received) :
    Justified server rs (detectNatKind server rs).1 ↔
      (replies rs).length < 2 ∨
        ∃ x y rest, replies rs = x :: y :: rest ∧
          (FromBothPorts server x.1 y.1 ∨
            BothReplied server rs fun a b => SamePlace a b ↔ SamePlace x.2 y.2) := by
  by_cases hfew : (replies rs).length < 2
  · rw [detectNatKind_unknown server (by rwa [← map_replies, List.length_map])]
    exact iff_of_true ⟨fun h => (nomatch h), fun h => nomatch h⟩ (Or.inl hfew)
  · rw [or_iff_right hfew]
    obtain ⟨x, y, rest, hreplies⟩ : ∃ x y rest, replies rs = x :: y :: rest := by
      rcases h : replies rs with _ | ⟨x, _ | ⟨y, rest⟩⟩
      · exact absurd (by rw [h]; exact Nat.zero_lt_two) hfew
      · exact absurd (by rw [h]; exact Nat.one_lt_two) hfew
      · exact ⟨x, y, rest, rfl⟩
    have hreports : reports rs = x.2 :: y.2 :: rest.map Prod.snd := by
      rw [← map_replies, hreplies]
      rfl
    rw [justified_pair_iff server hreports]
    constructor
    · exact fun h => ⟨x, y, rest, hreplies, Or.inr h⟩
    · rintro ⟨x', y', rest', heq, hcases⟩
      obtain ⟨rfl, rfl, rfl⟩ : x = x' ∧ y = y' ∧ rest = rest' := by
        simpa using hreplies.symm.trans heq
      refine hcases.elim (bothReplied_of_fromBothPorts ?_ ?_) id
      · rw [hreplies]
        exact List.mem_cons_self
      · rw [hreplies]
        exact List.mem_cons_of_mem x List.mem_cons_self

/-- The server's reply reports whom it is sent to. -/
theorem observed_natSeen (ip : Ipv4Addr) (port : UInt16) :
    observed (asBytes (line [msgNatSeen, (SocketAddr.v4 ip port).token])) =
      some (.v4 ip port) := by
  have hlen : (asBytes (line [msgNatSeen, (SocketAddr.v4 ip port).token])).length ≤ 256 := by
    refine (byteLen_le _).trans ?_
    have hip := ip.length_toText_le
    have hport : (decimal port.toNat).length ≤ 5 :=
      length_decimal_le (lt_of_lt_of_le port.toNat_lt (by decide)) (by decide)
    have hseen : msgNatSeen.text.length = 8 := rfl
    simp only [line, unwords, List.length_append, List.length_flatMap, List.map_cons, List.map_nil,
      List.sum_cons, List.sum_nil, List.length_cons, List.length_nil, SocketAddr.token,
      SocketAddr.toText]
    omega
  have hstart : startsWith (line [msgNatSeen, (SocketAddr.v4 ip port).token]) natSeenPrefix =
      true := List.isPrefixOf_iff_prefix.mpr ⟨_, rfl⟩
  unfold observed
  dsimp only
  rw [List.take_of_length_le hlen, fromUtf8Lossy_asBytes, hstart, if_pos rfl,
    splitWhitespace_line]
  exact fromStr_toText_v4 ip port

/-- The reply of one port comes twice, and none of the other. -/
theorem not_justified_duplicate :
    let server : Ipv4Addr := ⟨10, 0, 0, 9⟩
    let me : SocketAddr := .v4 ⟨10, 0, 0, 1⟩ 4000
    let reply : Received :=
      .datagram (.v4 server 2131) (asBytes (line [msgNatSeen, me.token]))
    (detectNatKind (.v4 server) [reply, reply]).1 = .cone ∧
      ¬ Justified (.v4 server) [reply, reply] .cone := by
  intro server me reply
  refine ⟨by decide +kernel, fun h => ?_⟩
  obtain ⟨a, b, -, ⟨src, bytes, hmem, -, hport, -⟩, -⟩ := h.1 rfl
  have hsrc : src = .v4 server 2131 := by
    simp only [List.mem_cons, List.not_mem_nil, or_false, or_self] at hmem
    exact (Received.datagram.inj hmem).1
  rw [hsrc] at hport
  exact absurd hport (by decide)

end NatPiercer.Client
