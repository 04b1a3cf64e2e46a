/-
# `System.Delivery` — a line of `DATA` on its way

One member types a line.  What is in flight arrives, whole, one datagram at a
time, in any order; none is lost and none is doubled on the way.  The server
and the clients handle what arrives with the code that handles everything
else: `handle_message` there, `main_loop` here.

The buffers hold 2048 bytes.  So a line that arrives whole is one that fits
them; which datagrams of the server do is the matter of `System.Sizes`
(`datagrams_fit_iff`).

A line of `DATA` changes nothing that a line is sent on by.  So the system
follows a flood of hops, from an address to an address (`follows_deliver`),
and what is asked of every schedule is a question about the waves of that
flood (`exactlyOnce_iff_waves`).
-/
import NatPiercer.Client.Relaying
import NatPiercer.Lib.Flood
import NatPiercer.Signaling.Server
import NatPiercer.System.Joint

namespace NatPiercer.System

open Text Utf8 Net Proto LockProg Signaling Client

/-- A datagram, and where it comes from. -/
structure Packet where
  src : SocketAddr
  datagram : Datagram
deriving DecidableEq

/-- The system, what is in flight in it, and what has arrived. -/
structure Traffic where
  state : Joint
  inFlight : List Packet
  delivered : List Packet

section Deliver
variable (server : SocketAddr)

/-- A datagram arrives, at the server's main socket or at a client's, and is
handled; what is sent for it is returned. -/
def Joint.arrive (amb : Ambient) (o : Joint) (p : Packet) : Joint × List Packet :=
  if p.datagram.dst = server then
    match dispatchText p.datagram.payload p.datagram.payload with
    | some text =>
        let run := (handleMessage amb text p.src).run o.map
        ({ o with map := run.state }, run.sent.map (Packet.mk server))
    | none => (o, [])
  else
    let got := (o.clients p.datagram.dst).receive amb.now server p.src p.datagram.payload
    ({ o with clients := Function.update o.clients p.datagram.dst got.1 },
      got.2.map (Packet.mk p.datagram.dst))

/-- Which datagram arrives next, and what the surroundings say then. -/
structure Turn where
  index : Nat
  amb : Ambient

def Traffic.deliver (net : Traffic) (turn : Turn) : Traffic :=
  match net.inFlight[turn.index]? with
  | some p =>
      let arrival := net.state.arrive server turn.amb p
      ⟨arrival.1, net.inFlight.eraseIdx turn.index ++ arrival.2, net.delivered ++ [p]⟩
  | none => net

/-- The client at `a` has typed a line. -/
def Joint.types (a : SocketAddr) (typed : TypedLine) (o : Joint) : Traffic :=
  ⟨o, ((o.clients a).userInput server typed.text).map (Packet.mk a), []⟩

/-- Whether a client reads the line `line` in a datagram. -/
def reads (line : Str) (payload : Bytes) : Bool :=
  (dispatchText payload payload).any fun text => (lines text).any fun l => trim l = line

/-- How often the line has arrived at `a`. -/
def Traffic.receipts (line : Str) (a : SocketAddr) (net : Traffic) : Nat :=
  net.delivered.countP fun p => p.datagram.dst = a && reads line p.datagram.payload

/-- **Exactly once.**  `u` types a line.  Only so many datagrams are sent,
whatever the schedule; and when none is in flight, each other member has
received the line once, and `u` has not. -/
def ExactlyOnce (o : Joint) (ch : Channel) (u : User) (typed : TypedLine) : Prop :=
  (∃ N, ∀ turns,
    (after (Traffic.deliver server) (o.types server u.addr typed) turns).delivered.length +
      (after (Traffic.deliver server) (o.types server u.addr typed) turns).inFlight.length ≤ N) ∧
  ∀ turns, (after (Traffic.deliver server) (o.types server u.addr typed) turns).inFlight = [] →
    (∀ v ∈ ch.users, v.name ≠ u.name →
      (after (Traffic.deliver server) (o.types server u.addr typed) turns).receipts
        (typed.data u.name) v.addr = 1) ∧
    (after (Traffic.deliver server) (o.types server u.addr typed) turns).receipts
      (typed.data u.name) u.addr = 0

end Deliver

/-! ## At the server -/

section Server
variable {typed : TypedLine} {n : Token} {payload : Bytes}

theorem ofText_of_carries (h : Carries (typed.data n) payload) :
    Request.ofText (fromUtf8Lossy payload) = .data := by
  have hwords : ∀ y, splitWhitespace (trim typed.text ++ y) ≠ [] := by
    intro y
    obtain ⟨c, rest, hrest, hc⟩ := exists_cons_of_trim typed.notBlank
    rw [hrest, List.cons_append]
    exact splitWhitespace_ne_nil _ hc
  have hdata : ∀ y, Request.ofText (typed.data n ++ y) = .data := by
    intro y
    obtain ⟨w, ws, hws⟩ := List.exists_cons_of_ne_nil (hwords y)
    have hline : splitWhitespace (typed.data n ++ y) = msgData :: n :: w :: ws := by
      rw [data_eq, splitWhitespace_append_cons _ _ (by decide),
        splitWhitespace_append_cons _ _ (by decide), splitWhitespace_text, splitWhitespace_text,
        hws]
      rfl
    have hlen : 2 ≤ (n :: w :: ws).length := Nat.le_add_left 2 ws.length
    rw [Request.ofText_of_data rfl hline, if_pos hlen]
  rcases h with rfl | rfl
  · rw [fromUtf8Lossy_asBytes, ← List.append_nil (typed.data n)]
    exact hdata []
  · rw [fromUtf8Lossy_asBytes]
    exact hdata _

theorem dispatchText_of_carries (h : Carries (typed.data n) payload) :
    dispatchText payload payload = some (fromUtf8Lossy payload) := by
  unfold dispatchText framed
  rw [decode_of_carries h]
  rfl

theorem reads_of_carries (h : Carries (typed.data n) payload) :
    reads (typed.data n) payload = true := by
  rw [reads, dispatchText_of_carries h, Option.any_some, lines_of_carries h, List.any_cons,
    trim_data, decide_eq_true rfl, Bool.true_or]

/-- Where the server sends a line of `sender`'s that comes from `src`. -/
def forwarded (st : ServerMap) (sender : Token) (src : SocketAddr) : List SocketAddr :=
  (st.channels.findSome? fun x => x.2.2.forwardData sender.text src).getD []

theorem handleDataFromClient_sent (h : Carries (typed.data n) payload) (src : SocketAddr)
    (st : ServerMap) :
    ((handleDataFromClient (fromUtf8Lossy payload) src).run st).sent =
      (forwarded st n src).map fun a => ⟨a, payload⟩ := by
  have hsplit : ∃ rest, splitn 3 ' ' (fromUtf8Lossy payload) = [msgData.text, n.text, rest] := by
    rcases h with rfl | rfl
    · refine ⟨trim typed.text ++ [], ?_⟩
      rw [fromUtf8Lossy_asBytes, ← splitn_data, List.append_nil]
    · exact ⟨trim typed.text ++ ['\n'], by rw [fromUtf8Lossy_asBytes, splitn_data]⟩
  have hraw : asBytes (fromUtf8Lossy payload) = payload := by
    rcases h with rfl | rfl <;> rw [fromUtf8Lossy_asBytes]
  obtain ⟨rest, hrest⟩ := hsplit
  unfold handleDataFromClient forwarded
  rw [hrest, hraw]
  simp only [run_locked, run_bind, run_getState]
  cases st.channels.findSome? fun x => x.2.2.forwardData n.text src with
  | none => rfl
  | some dsts =>
      rw [run_each fun dst _ => run_sendTo payload dst st, ← List.map_eq_flatMap]
      rfl

end Server

/-! ## Hops -/

/-- From where, to where. -/
abbrev Hop := SocketAddr × SocketAddr

def Packet.hop (p : Packet) : Hop := (p.src, p.datagram.dst)

/-- Where a line of `n`'s goes on to, when it has come from `hop.1` to `hop.2`. -/
def Joint.onward (server : SocketAddr) (n : Token) (o : Joint) (hop : Hop) : List Hop :=
  (if hop.2 = server then forwarded o.map n hop.1 else (o.clients hop.2).relayed server n).map
    (Prod.mk hop.2)

/-- The first hops of a line that is typed at `a`. -/
def Joint.start (server : SocketAddr) (a : SocketAddr) (o : Joint) : List Hop :=
  ((o.clients a).addressed server).map (Prod.mk a)

/-- The hops that end at `a`. -/
def arrivals (a : SocketAddr) (hops : List Hop) : Nat := hops.countP fun h => h.2 = a

/-- Nothing has changed that a line is sent on by. -/
structure SameWays (o o' : Joint) : Prop where
  map : o'.map = o.map
  routes : ∀ a, SameRoutes (o.clients a) (o'.clients a)

theorem SameWays.onward {o o' : Joint} (h : SameWays o o') (server : SocketAddr) (n : Token)
    (hop : Hop) : o'.onward server n hop = o.onward server n hop := by
  rw [Joint.onward, Joint.onward, h.map, (h.routes hop.2).relayed]

section Follow
variable {server : SocketAddr} {typed : TypedLine} {n : Token}

variable (server) in
/-- What arrives is sent on as a hop is. -/
theorem arrive_hop (amb : Ambient) (o : Joint) {p : Packet}
    (hp : Carries (typed.data n) p.datagram.payload) :
    SameWays o (o.arrive server amb p).1 ∧
      (∀ q ∈ (o.arrive server amb p).2, Carries (typed.data n) q.datagram.payload) ∧
      (o.arrive server amb p).2.map Packet.hop = o.onward server n p.hop := by
  unfold Joint.arrive Joint.onward Packet.hop
  dsimp only
  split_ifs with hdst
  · have hmessage : handleMessage amb (fromUtf8Lossy p.datagram.payload) p.src =
        handleDataFromClient (fromUtf8Lossy p.datagram.payload) p.src := by
      rw [handleMessage_eq, ofText_of_carries hp]
      rfl
    rw [dispatchText_of_carries hp]
    dsimp only
    rw [hmessage, handleDataFromClient_state, handleDataFromClient_sent hp, List.map_map,
      List.map_map]
    refine ⟨⟨rfl, fun a => SameRoutes.refl _⟩, fun q hq => ?_, ?_⟩
    · obtain ⟨a, -, rfl⟩ := List.mem_map.mp hq
      exact hp
    · rw [hdst]
      rfl
  · obtain ⟨hroutes, hsent⟩ := receive_data amb.now server p.src (o.clients p.datagram.dst) hp
    rw [hsent, List.map_map, List.map_map]
    refine ⟨⟨rfl, fun a => ?_⟩, fun q hq => ?_, rfl⟩
    · dsimp only
      by_cases ha : a = p.datagram.dst
      · rw [ha, Function.update_self]
        exact hroutes
      · rw [Function.update_of_ne ha]
        exact SameRoutes.refl _
    · obtain ⟨a, -, rfl⟩ := List.mem_map.mp hq
      exact Or.inl rfl

/-- The system is where the flood is. -/
structure Follows (server : SocketAddr) (typed : TypedLine) (n : Token) (o : Joint) (net : Traffic)
    (f : Flood Hop) : Prop where
  ways : SameWays o net.state
  carried : ∀ p ∈ net.inFlight ++ net.delivered, Carries (typed.data n) p.datagram.payload
  inFlight : net.inFlight.map Packet.hop = f.inFlight
  delivered : net.delivered.map Packet.hop = f.delivered

theorem follows_deliver {o : Joint} {net : Traffic} {f : Flood Hop}
    (h : Follows server typed n o net f) (turn : Turn) :
    Follows server typed n o (net.deliver server turn)
      (f.deliver (o.onward server n) turn.index) := by
  have hindex : f.inFlight[turn.index]? = net.inFlight[turn.index]?.map Packet.hop := by
    rw [← h.inFlight, List.getElem?_map]
  unfold Traffic.deliver Flood.deliver
  rw [hindex]
  cases hp : net.inFlight[turn.index]? with
  | none => exact h
  | some p =>
      have hmem : p ∈ net.inFlight := List.mem_of_getElem? hp
      have hpc := h.carried p (List.mem_append_left _ hmem)
      obtain ⟨hways, hsent, hhops⟩ := arrive_hop server turn.amb net.state hpc
      refine ⟨⟨hways.map.trans h.ways.map, fun a => (h.ways.routes a).trans (hways.routes a)⟩,
        fun q hq => ?_, ?_, ?_⟩
      · rw [List.mem_append, List.mem_append, List.mem_append, List.mem_singleton] at hq
        rcases hq with (hq | hq) | hq | rfl
        · exact h.carried q (List.mem_append_left _ (List.mem_of_mem_eraseIdx hq))
        · exact hsent q hq
        · exact h.carried q (List.mem_append_right _ hq)
        · exact hpc
      · rw [List.map_append, hhops, h.ways.onward, ← h.inFlight, List.eraseIdx_map]
        rfl
      · rw [List.map_append, h.delivered]
        rfl

theorem follows_after {o : Joint} {net : Traffic} {f : Flood Hop}
    (h : Follows server typed n o net f) (turns : List Turn) :
    Follows server typed n o (after (Traffic.deliver server) net turns)
      (after (Flood.deliver (o.onward server n)) f (turns.map Turn.index)) := by
  induction turns generalizing net f with
  | nil => exact h
  | cons turn turns ih => exact ih (follows_deliver h turn)

variable (server typed) in
theorem follows_types {o : Joint} {a : SocketAddr} (ha : (o.clients a).user = n.text) :
    Follows server typed n o (o.types server a typed) ⟨o.start server a, []⟩ := by
  unfold Joint.types
  rw [userInput_typed server (o.clients a) typed ha, List.map_map]
  refine ⟨⟨rfl, fun a => SameRoutes.refl _⟩, fun p hp => ?_, ?_, rfl⟩
  · rw [List.append_nil] at hp
    obtain ⟨b, -, rfl⟩ := List.mem_map.mp hp
    exact Or.inr rfl
  · rw [List.map_map]
    rfl

/-- How often the line has arrived is how many hops have ended there. -/
theorem Follows.receipts {o : Joint} {net : Traffic} {f : Flood Hop}
    (h : Follows server typed n o net f) (a : SocketAddr) :
    net.receipts (typed.data n) a = arrivals a f.delivered := by
  unfold Traffic.receipts arrivals
  rw [← h.delivered, List.countP_map]
  refine List.countP_congr fun p hp => ?_
  rw [reads_of_carries (h.carried p (List.mem_append_right _ hp)), Bool.and_true]
  rfl

/-- **Exactly once, in waves.** -/
theorem exactlyOnce_iff_waves {o : Joint} {ch : Channel} {u : User}
    (hu : (o.clients u.addr).user = u.name.text) :
    ExactlyOnce server o ch u typed ↔
      ∃ k, Flood.wave (o.onward server u.name) k (o.start server u.addr) = [] ∧
        (∀ v ∈ ch.users, v.name ≠ u.name → arrivals v.addr
          (Flood.waves (o.onward server u.name) k (o.start server u.addr)) = 1) ∧
        arrivals u.addr (Flood.waves (o.onward server u.name) k (o.start server u.addr)) = 0 := by
  have hfollows := follows_after (follows_types server typed hu)
  have hperm : ∀ {ds es : List Hop}, ds.Perm es →
      ((∀ v ∈ ch.users, v.name ≠ u.name → arrivals v.addr ds = 1) ∧ arrivals u.addr ds = 0) →
      (∀ v ∈ ch.users, v.name ≠ u.name → arrivals v.addr es = 1) ∧ arrivals u.addr es = 0 := by
    intro ds es hde hds
    have hcount : ∀ a, arrivals a es = arrivals a ds := fun a => hde.symm.countP_eq _
    simp only [hcount]
    exact hds
  rw [← Flood.settles_iff hperm]
  -- every schedule of the flood is one of the system, at some times
  have hturns : ∀ is : List Nat, (is.map fun i => Turn.mk i ⟨0, 0⟩).map Turn.index = is := by
    intro is
    rw [List.map_map]
    exact List.map_id is
  have hlen : ∀ turns, _ := fun turns => congrArg List.length (hfollows turns).delivered
  have hlen' : ∀ turns, _ := fun turns => congrArg List.length (hfollows turns).inFlight
  simp only [List.length_map] at hlen hlen'
  refine and_congr (exists_congr fun N => ?_) ?_
  · constructor
    · intro h is
      have hbound := h (is.map fun i => ⟨i, ⟨0, 0⟩⟩)
      rwa [hlen, hlen', hturns] at hbound
    · intro h turns
      rw [hlen, hlen']
      exact h _
  · constructor
    · intro h is hempty
      have hf := hfollows (is.map fun i => ⟨i, ⟨0, 0⟩⟩)
      rw [hturns] at hf
      have hdone := h _ (List.map_eq_nil_iff.mp (hf.inFlight.trans hempty))
      simp only [hf.receipts] at hdone
      exact hdone
    · intro h turns hempty
      have hf := hfollows turns
      simp only [hf.receipts]
      refine h _ ?_
      rw [← hf.inFlight, hempty]
      rfl

end Follow

end NatPiercer.System
