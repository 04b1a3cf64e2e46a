/-
# `Client.Keepalive` — how an entry of the table comes and goes

An entry is made by a line `MODE DIRECT <name> <addr>`, and keeps the name and
the address for as long as it is there (`introduced_receive`).  It goes with a
`USER_LEFT`, or when a relay has heard nothing of the peer for a minute.

That is `relay_main_loop` of `src/client/networking.rs`, here one pass of it.
What it reports to the server is the name of the entry, and not its address.
-/
import NatPiercer.Client.Heard

namespace NatPiercer.Client

open Text Utf8 Net Proto Signaling

/-! ## `relay_main_loop` -/

/-- `PEER_TIMEOUT_SEC` -/
def peerTimeout : Nat := 60 * 10 ^ 9

/-- `CONNECT_GRACE_SEC` -/
def connectGrace : Nat := 12 * 10 ^ 9

/-- `PEER_TIMEOUT <server> <channel> <name>` -/
def peerTimeoutText (serverId channel : Token) (peer : PeerInfo) : Str :=
  unwords [msgPeerTimeout, serverId, channel, peer.username]

section Pass
variable (now : Instant) (server : SocketAddr) (serverId channel : Token)

def handlePeerTimeout (peer : PeerInfo) : Datagram :=
  tell server (peerTimeoutText serverId channel peer)

/-- One entry: what becomes of it, and what is sent. -/
def relayMainLoopPeer (peer : PeerInfo) : Option PeerInfo × List Datagram :=
  if peer.useServerRelay then (some peer, [])
  else if now - peer.lastPong > peerTimeout then
    (none, [handlePeerTimeout server serverId channel peer])
  else if !peer.connected && now - peer.createdAt > connectGrace && !peer.relayRequested then
    (some { peer with relayRequested := true },
      [tell peer.addr msgPing.text,
        tell server (line [msgRequestRelay, serverId, channel, peer.username])])
  else (some peer, [tell peer.addr msgPing.text])

/-- One pass, unless the client is not active.  What is to be removed is removed
after the loop, the last first. -/
def relayMainLoop (me : Client) : Client × List Datagram :=
  if me.isActive then
    ({ me with
        peers := me.peers.filterMap fun p => (relayMainLoopPeer now server serverId channel p).1 },
      me.peers.flatMap fun p => (relayMainLoopPeer now server serverId channel p).2)
  else (me, [])

/-- The entries that a pass drops. -/
def dropped (me : Client) : List PeerInfo :=
  if me.isActive then
    me.peers.filter fun p => (relayMainLoopPeer now server serverId channel p).1.isNone
  else []

/-- An entry that is dropped is reported, and no other. -/
theorem relayMainLoopPeer_spec (p : PeerInfo) :
    relayMainLoopPeer now server serverId channel p =
        (none, [handlePeerTimeout server serverId channel p]) ∨
      ∃ q, (relayMainLoopPeer now server serverId channel p).1 = some q ∧
        q.addr = p.addr ∧ q.username = p.username ∧
        ∀ d ∈ (relayMainLoopPeer now server serverId channel p).2,
          ∀ r, d ≠ handlePeerTimeout server serverId channel r := by
  have hping : ∀ a r, tell a msgPing.text ≠ handlePeerTimeout server serverId channel r := by
    intro a r h
    have hpayload := asBytes_injective (congrArg Datagram.payload h)
    have hwords := congrArg splitWhitespace hpayload
    rw [splitWhitespace_text, peerTimeoutText, splitWhitespace_unwords] at hwords
    exact absurd (congrArg List.length hwords) (by decide : (1 : Nat) ≠ 4)
  have hrequest : ∀ r, tell server (line [msgRequestRelay, serverId, channel, p.username]) ≠
      handlePeerTimeout server serverId channel r := by
    intro r h
    have hpayload := asBytes_injective (congrArg Datagram.payload h)
    exact absurd (congrArg List.head? hpayload) (by decide : some 'R' ≠ some 'P')
  unfold relayMainLoopPeer
  split_ifs
  · exact Or.inr ⟨p, rfl, rfl, rfl, fun d hd => absurd hd List.not_mem_nil⟩
  · exact Or.inl rfl
  · refine Or.inr ⟨_, rfl, rfl, rfl, fun d hd r => ?_⟩
    rcases List.mem_cons.mp hd with rfl | hd
    · exact hping _ r
    · rw [List.mem_singleton.mp hd]
      exact hrequest r
  · refine Or.inr ⟨p, rfl, rfl, rfl, fun d hd r => ?_⟩
    rw [List.mem_singleton.mp hd]
    exact hping _ r

/-- What a pass reports are the entries that it drops. -/
theorem report_mem_iff (me : Client) (d : Datagram) :
    (d ∈ (me.relayMainLoop now server serverId channel).2 ∧
        ∃ r, d = handlePeerTimeout server serverId channel r) ↔
      ∃ p ∈ me.dropped now server serverId channel,
        d = handlePeerTimeout server serverId channel p := by
  unfold relayMainLoop dropped
  cases me.isActive with
  | false =>
      rw [if_neg Bool.false_ne_true, if_neg Bool.false_ne_true]
      exact ⟨fun h => absurd h.1 List.not_mem_nil, fun ⟨p, hp, _⟩ => absurd hp List.not_mem_nil⟩
  | true =>
      rw [if_pos rfl, if_pos rfl]
      dsimp only
      constructor
      · rintro ⟨hd, r, rfl⟩
        obtain ⟨p, hp, hd⟩ := List.mem_flatMap.mp hd
        rcases relayMainLoopPeer_spec now server serverId channel p with
          hdrop | ⟨q, -, -, -, hquiet⟩
        · refine ⟨p, List.mem_filter.mpr ⟨hp, by rw [hdrop]; rfl⟩, ?_⟩
          rw [hdrop] at hd
          exact List.mem_singleton.mp hd
        · exact absurd rfl (hquiet _ hd r)
      · rintro ⟨p, hp, rfl⟩
        obtain ⟨hp, hnone⟩ := List.mem_filter.mp hp
        rcases relayMainLoopPeer_spec now server serverId channel p with hdrop | ⟨q, hq, -⟩
        · refine ⟨List.mem_flatMap.mpr ⟨p, hp, ?_⟩, p, rfl⟩
          rw [hdrop]
          exact List.mem_singleton_self _
        · rw [hq] at hnone
          exact absurd hnone Bool.false_ne_true

end Pass

/-- The server reads a name in it, and whose server and channel it is. -/
theorem ofText_peerTimeoutText (serverId channel : Token) (peer : PeerInfo) :
    Request.ofText (peerTimeoutText serverId channel peer) =
      .peerTimeout serverId channel peer.username := by
  exact Request.ofText_of_words rfl (splitWhitespace_unwords _)

/-! ## The table -/

/-- Who is in the table, and where. -/
def listing (me : Client) : List (SocketAddr × Token) := me.peers.map fun p => (p.addr, p.username)

/-- What the lines of a datagram ask for. -/
def heardIn (bytes : Bytes) : List Heard :=
  match decode bytes with
  | some (hdr, payload) =>
      match hdr.kind with
      | .control => (fromUtf8 payload).elim [] heard
      | .dtls | .srtp => []
  | none => heard (fromUtf8Lossy bytes)

theorem heardIn_eq (bytes : Bytes) :
    heardIn bytes =
      match Reading.ofBytes bytes with
      | .control s | .plain s => heard s
      | .dropped => [] := by
  unfold heardIn Reading.ofBytes
  cases decode bytes with
  | none => rfl
  | some packet =>
      obtain ⟨⟨kind, _⟩, payload⟩ := packet
      dsimp only
      cases kind with
      | control => cases fromUtf8 payload <;> rfl
      | dtls | srtp => rfl

/-- Every entry was there before, or is introduced. -/
def Introduced (hs : List Heard) (me me' : Client) : Prop :=
  ∀ x ∈ me'.listing, x ∈ me.listing ∨
    ∃ a, .direct x.2 a ∈ hs ∧ SocketAddr.fromStr a.text = some x.1

theorem introduced_of_subset (hs : List Heard) {me me' : Client}
    (h : me'.listing ⊆ me.listing) : Introduced hs me me' := fun _ hx => Or.inl (h hx)

theorem introduced_of_eq (hs : List Heard) {me me' : Client} (h : me'.listing = me.listing) :
    Introduced hs me me' := fun _ hx => Or.inl (h ▸ hx)

theorem Introduced.trans {hs hs' : List Heard} {me me' me'' : Client} (h : Introduced hs me me')
    (h' : Introduced hs' me' me'') : Introduced (hs ++ hs') me me'' := by
  intro x hx
  rcases h' x hx with hx | ⟨a, ha, haddr⟩
  · rcases h x hx with hx | ⟨a, ha, haddr⟩
    · exact Or.inl hx
    · exact Or.inr ⟨a, List.mem_append_left _ ha, haddr⟩
  · exact Or.inr ⟨a, List.mem_append_right _ ha, haddr⟩

section Receive
variable (now : Instant) (server src : SocketAddr)

theorem listing_modify (p : PeerInfo → Bool) {f : PeerInfo → PeerInfo}
    (hf : ∀ e, ((f e).addr, (f e).username) = (e.addr, e.username)) (me : Client) :
    listing { me with peers := Vec.modifyFirst p f me.peers } = me.listing :=
  Vec.map_modifyFirst (g := fun e : PeerInfo => (e.addr, e.username)) hf me.peers

theorem introduced_handle (line : Str) (me : Client) (h : Heard) :
    Introduced [h] me (h.handle now server src line me).1 := by
  have hmodify : ∀ (p : PeerInfo → Bool) (f : PeerInfo → PeerInfo),
      (∀ e, ((f e).addr, (f e).username) = (e.addr, e.username)) →
      Introduced [h] me { me with peers := Vec.modifyFirst p f me.peers } := fun p f hf =>
    introduced_of_eq _ (listing_modify p hf me)
  cases h with
  | pong => exact hmodify _ _ fun _ => rfl
  | holePunch => exact hmodify _ _ fun _ => rfl
  | data sender => exact hmodify _ _ fun _ => rfl
  | serverRelay n =>
      change Introduced _ me (me.handleModeServerRelay n)
      unfold handleModeServerRelay
      split_ifs
      · exact introduced_of_subset _ (List.Subset.refl _)
      · exact hmodify _ _ fun _ => rfl
  | direct n a =>
      change Introduced _ me (me.handleModeDirect now n a)
      unfold handleModeDirect
      cases haddr : SocketAddr.fromStr a.text with
      | none => exact introduced_of_subset _ (List.Subset.refl _)
      | some addr =>
          dsimp only
          split_ifs
          · exact introduced_of_subset _ (List.Subset.refl _)
          · exact introduced_of_subset _ (List.Subset.refl _)
          · intro x hx
            rw [listing, List.map_append] at hx
            rcases List.mem_append.mp hx with hx | hx
            · exact Or.inl hx
            · obtain rfl := List.mem_singleton.mp hx
              exact Or.inr ⟨a, List.mem_singleton_self _, haddr⟩
  | userLeft n =>
      refine introduced_of_subset _ ?_
      exact ((List.filter_sublist (l := me.peers)).map _).subset
  | ping | relay | nothing => exact introduced_of_subset _ (List.Subset.refl _)

theorem introduced_processIncomingMessage (s : Str) (me : Client) :
    Introduced (heard s) me (me.processIncomingMessage now server s src).1 := by
  unfold processIncomingMessage heard
  rw [processLines_fst]
  induction lines s generalizing me with
  | nil => exact introduced_of_subset _ (List.Subset.refl _)
  | cons line ls ih =>
      exact (introduced_handle now server src (trim line) me _).trans
        (ih (me.hear now server src line))

theorem processServerResponse_peers (s : Str) (me : Client) :
    (me.processServerResponse s).peers = me.peers := by
  rw [processServerResponse_eq]
  induction lines s generalizing me with
  | nil => rfl
  | cons line ls ih =>
      rw [after, ih]
      cases Reply.ofLine (trim line) with
      | stop => rfl
      | nothing => rfl
      | serverRelay who =>
          unfold reply
          dsimp only
          split_ifs <;> rfl

theorem introduced_receiveText (s : Str) (me : Client) :
    Introduced (heard s) me (me.receiveText now server src s).1 := by
  unfold receiveText
  split_ifs
  · have hpeers := processServerResponse_peers s (me.processIncomingMessage now server s src).1
    intro x hx
    refine introduced_processIncomingMessage now server src s me x ?_
    rwa [listing, ← hpeers]
  · have htouch : (me.handlePeerMessage now src).listing = me.listing :=
      listing_modify (fun p => p.addr = src) (f := ensureConnected now) (fun _ => rfl) me
    exact (introduced_of_eq [] htouch).trans
      (introduced_processIncomingMessage now server src s (me.handlePeerMessage now src))

/-- **How an entry comes.** -/
theorem introduced_receive (bytes : Bytes) (me : Client) :
    Introduced (heardIn bytes) me (me.receive now server src bytes).1 := by
  rw [receive_eq, heardIn_eq]
  cases Reading.ofBytes bytes with
  | dropped => exact introduced_of_subset _ (List.Subset.refl _)
  | plain s => exact introduced_receiveText now server src s me
  | control s =>
      obtain ⟨cid, pid, hwelcome⟩ := tryHandleWelcome_eq s me
      dsimp only
      rw [receiveControl, hwelcome]
      exact introduced_processIncomingMessage now server src s
        { me with channelId := cid, myPeerId := pid }

/-- A pass adds nobody. -/
theorem listing_relayMainLoop (serverId channel : Token) (me : Client) :
    (me.relayMainLoop now server serverId channel).1.listing ⊆ me.listing := by
  unfold relayMainLoop
  split_ifs
  · intro x hx
    obtain ⟨q, hq, rfl⟩ := List.mem_map.mp hx
    obtain ⟨p, hp, hq⟩ := List.mem_filterMap.mp hq
    rcases relayMainLoopPeer_spec now server serverId channel p with
      hdrop | ⟨r, hr, haddr, hname, -⟩
    · rw [hdrop] at hq
      exact absurd hq.symm (Option.some_ne_none q)
    · rw [hr] at hq
      obtain rfl := Option.some.inj hq
      exact List.mem_map.mpr ⟨p, hp, Prod.ext haddr.symm hname.symm⟩
  · exact List.Subset.refl _

theorem dropped_subset (serverId channel : Token) (me : Client) :
    me.dropped now server serverId channel ⊆ me.peers := by
  unfold dropped
  split_ifs
  · exact fun p hp => (List.mem_filter.mp hp).1
  · exact List.nil_subset _

end Receive

end NatPiercer.Client
