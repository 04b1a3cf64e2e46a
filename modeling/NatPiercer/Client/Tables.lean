/-
# `Client.Tables` — what a client keeps of what the server says

The server says a thing a line at a time, mostly one line in a datagram; then
`main_loop` obeys the line and answers it, one after the other (`heed`).  What
comes of a list of such lines is said here field by field: who the client is,
whether it is a relay, whether it mirrors, whether it sends through the server,
and which addresses are in its table.

A table is *listed* among some users when every entry is one of them, under
its name, at its address, and marked as that user is.  A line that is true of
the users keeps it so.
-/
import NatPiercer.Client.Relaying
import NatPiercer.Signaling.Order

namespace NatPiercer.Client

open Text Utf8 Net Proto Signaling

/-- One control line, in a datagram of its own. -/
def heed (now : Instant) (me : Client) (l : ControlLine) : Client :=
  ((me.obey now l).answer l).updateRelayIsActive

theorem receive_line (now : Instant) (server dst : SocketAddr) (l : ControlLine) (me : Client) :
    me.receive now server server (tell dst l.text).payload = (me.heed now l, []) := by
  have h := receive_script now server [l] me
  rw [processServerResponse_script, List.foldl_cons, List.foldl_nil, List.foldl_cons,
    List.foldl_nil, script_single] at h
  exact h

/-- The text of the address is read back as the address. -/
def Readable (a : SocketAddr) : Prop := SocketAddr.fromStr a.token.text = some a

/-- The addresses in the table. -/
def table (me : Client) : List SocketAddr := me.peers.map PeerInfo.addr

/-! ## One line -/

section Line
variable (now : Instant) (me : Client) (l : ControlLine)

theorem heed_flags :
    (me.heed now l).user = me.user ∧
    (me.heed now l).isRelay = (me.isRelay || decide (l = .relay)) ∧
    (me.heed now l).channelHasServerRelays =
      (me.channelHasServerRelays || (me.isRelay && l.mirrored me.user)) := by
  obtain ⟨huser, hrelay, hmirrors⟩ := obey_flags now me l
  cases l with
  | relay => exact ⟨huser, hrelay, hmirrors⟩
  | direct n a => exact ⟨huser, hrelay, hmirrors⟩
  | userLeft n a => exact ⟨huser, hrelay, hmirrors⟩
  | serverRelay n =>
      have hnot : decide (ControlLine.serverRelay n = .relay) = false := by simp
      rw [hnot, Bool.or_false] at hrelay ⊢
      unfold heed answer
      dsimp only
      split_ifs with hself hacts
      · exact ⟨huser, hrelay, hmirrors⟩
      · rw [huser] at hself
        rw [hrelay] at hacts
        refine ⟨huser, hrelay, ?_⟩
        simp [updateRelayIsActive, ControlLine.mirrored, hacts, hself]
      · exact ⟨huser, hrelay, hmirrors⟩

theorem obey_sendViaServer : (me.obey now l).sendViaServer = me.sendViaServer := by
  cases l with
  | relay => rfl
  | userLeft n a => rfl
  | direct n a =>
      unfold obey handleModeDirect
      dsimp only
      split
      · split_ifs <;> rfl
      · rfl
  | serverRelay n =>
      unfold obey handleModeServerRelay
      dsimp only
      split_ifs <;> rfl

/-- A client is told to send through the server by its own name, and to stop by
`MODE RELAY`. -/
theorem heed_sendViaServer : (me.heed now l).sendViaServer =
    match l with
    | .relay => false
    | .serverRelay n => me.sendViaServer || decide (n.text = me.user)
    | .direct _ _ | .userLeft _ _ => me.sendViaServer := by
  have hobey := obey_sendViaServer now me l
  have huser := (obey_flags now me l).1
  cases l with
  | relay => rfl
  | direct n a => exact hobey
  | userLeft n a => exact hobey
  | serverRelay n =>
      unfold heed answer
      dsimp only
      rw [huser]
      split_ifs with hself hacts
      · simp [updateRelayIsActive, hself]
      · simp [updateRelayIsActive, hself, hobey]
      · simp [updateRelayIsActive, hself, hobey]

theorem heed_peers : (me.heed now l).peers = (me.obey now l).peers := by
  cases l with
  | serverRelay n =>
      unfold heed answer
      dsimp only
      split_ifs <;> rfl
  | relay | direct n a | userLeft n a => rfl

theorem handleModeServerRelay_table (n : Token) :
    (me.handleModeServerRelay n).table = me.table := by
  unfold handleModeServerRelay
  split_ifs
  · rfl
  · exact Vec.map_modifyFirst (g := PeerInfo.addr)
      (f := fun p => { p with useServerRelay := true, connected := true, relayRequested := true })
      (fun _ => rfl) me.peers

theorem handleModeDirect_peers {n : Token} {a : SocketAddr} (ha : Readable a) :
    (me.handleModeDirect now n a.token).peers =
      if n.text = me.user ∨ a ∈ me.table then me.peers else me.peers ++ [newPeer now n a] := by
  have hany : (me.peers.any fun p => decide (p.addr = a)) = true ↔ a ∈ me.table := by
    rw [List.any_eq_true, table, List.mem_map]
    simp only [decide_eq_true_eq]
  unfold handleModeDirect
  rw [ha]
  dsimp only
  simp only [hany]
  by_cases hself : n.text = me.user
  · rw [if_pos hself, if_pos (Or.inl hself)]
  · rw [if_neg hself]
    by_cases hin : a ∈ me.table
    · rw [if_pos hin, if_pos (Or.inr hin)]
    · rw [if_neg hin, if_neg (not_or.mpr ⟨hself, hin⟩)]

/-- Only an introduction adds to the table, and only `USER_LEFT` takes from it. -/
theorem heed_table (hread : ∀ n a, l = .direct n a → Readable a) : (me.heed now l).table =
    match l with
    | .direct n a => if n.text = me.user ∨ a ∈ me.table then me.table else me.table ++ [a]
    | .userLeft n _ => (me.peers.filter fun p => p.username ≠ n).map PeerInfo.addr
    | .relay | .serverRelay _ => me.table := by
  rw [table, heed_peers]
  cases l with
  | relay => rfl
  | userLeft n a => rfl
  | serverRelay n => exact handleModeServerRelay_table me n
  | direct n a =>
      change (me.handleModeDirect now n a.token).peers.map PeerInfo.addr = _
      rw [handleModeDirect_peers now me (hread n a rfl)]
      dsimp only
      split_ifs
      · rfl
      · rw [List.map_append]
        rfl

variable {now me l}

theorem mem_heed_table {b : SocketAddr} (hread : ∀ n a, l = .direct n a → Readable a)
    (hb : b ∈ (me.heed now l).table) : b ∈ me.table ∨ ∃ n, l = .direct n b := by
  rw [heed_table now me l hread] at hb
  cases l with
  | relay => exact Or.inl hb
  | serverRelay n => exact Or.inl hb
  | userLeft n a =>
      obtain ⟨p, hp, rfl⟩ := List.mem_map.mp hb
      exact Or.inl (List.mem_map_of_mem (List.mem_filter.mp hp).1)
  | direct n a =>
      dsimp only at hb
      split_ifs at hb
      · exact Or.inl hb
      · rcases List.mem_append.mp hb with hb | hb
        · exact Or.inl hb
        · rw [List.mem_singleton.mp hb]
          exact Or.inr ⟨n, rfl⟩

/-- Nobody is forgotten but whoever leaves. -/
theorem table_subset_heed (hread : ∀ n a, l = .direct n a → Readable a)
    (hleft : ∀ n a, l ≠ .userLeft n a) : me.table ⊆ (me.heed now l).table := by
  rw [heed_table now me l hread]
  cases l with
  | relay => exact List.Subset.refl _
  | serverRelay n => exact List.Subset.refl _
  | userLeft n a => exact absurd rfl (hleft n a)
  | direct n a =>
      dsimp only
      split_ifs
      · exact List.Subset.refl _
      · exact List.subset_append_left _ _

/-- Whom a line introduces is in the table. -/
theorem direct_mem_table {n : Token} {a : SocketAddr} (ha : Readable a) (hn : n.text ≠ me.user) :
    a ∈ (me.heed now (.direct n a)).table := by
  rw [heed_table now me _ fun m b h => by
    cases h
    exact ha]
  dsimp only
  split_ifs with hin
  · exact hin.resolve_left hn
  · exact List.mem_append_right _ (List.mem_singleton_self a)

end Line

/-! ## Line after line -/

/-- A line that says nothing false of the users. -/
def ControlLine.TrueOf (users : List User) : ControlLine → Prop
  | relay => True
  | direct n a => ∃ v ∈ users, v.name = n ∧ v.addr = a ∧ v.needsServerRelay = false
  | serverRelay n => ∀ v ∈ users, v.name = n → v.needsServerRelay = true
  | userLeft _ _ => False

/-- Every entry is one of the users other than `name`, each there once. -/
structure Listed (users : List User) (name : Token) (peers : List PeerInfo) : Prop where
  apart : (peers.map PeerInfo.addr).Nodup
  known : ∀ p ∈ peers, ∃ v ∈ users, v.addr = p.addr ∧ v.name = p.username ∧
    v.needsServerRelay = p.useServerRelay ∧ v.name ≠ name

section Lines
variable {now : Instant} {me : Client} {users : List User} {name : Token} {ls : List ControlLine}

theorem listed_nil (users : List User) (name : Token) : Listed users name [] :=
  ⟨List.nodup_nil, fun _ hp => absurd hp List.not_mem_nil⟩

/-- Whom the table lists is a member. -/
theorem Listed.mem (h : Listed users name me.peers)
    {a : SocketAddr} (ha : a ∈ me.table) :
    ∃ v ∈ users, v.addr = a ∧ v.name ≠ name ∧ ∃ p ∈ me.peers, p.addr = a ∧ p.username = v.name ∧
      p.useServerRelay = v.needsServerRelay := by
  obtain ⟨p, hp, rfl⟩ := List.mem_map.mp ha
  obtain ⟨v, hv, haddr, hname, hneeds, hne⟩ := h.known p hp
  exact ⟨v, hv, haddr, hne, p, hp, rfl, hname.symm, hneeds.symm⟩

theorem readable_of_trueOf {l : ControlLine} (hl : l.TrueOf users)
    (hread : ∀ v ∈ users, Readable v.addr) : ∀ n a, l = .direct n a → Readable a := by
  rintro n a rfl
  obtain ⟨v, hv, -, rfl, -⟩ := hl
  exact hread v hv

theorem not_left_of_trueOf {l : ControlLine} (hl : l.TrueOf users) : ∀ n a, l ≠ .userLeft n a := by
  rintro n a rfl
  exact hl

/-- What is true of the users leaves the table listed. -/
theorem listed_heed {l : ControlLine} (hread : ∀ v ∈ users, Readable v.addr)
    (hme : me.user = name.text) (h : Listed users name me.peers) (hl : l.TrueOf users) :
    Listed users name (me.heed now l).peers := by
  rw [heed_peers]
  cases l with
  | relay => exact h
  | userLeft n a => exact hl.elim
  | direct n a =>
      obtain ⟨v, hv, rfl, rfl, hneeds⟩ := hl
      change Listed users name (me.handleModeDirect now v.name v.addr.token).peers
      rw [handleModeDirect_peers now me (hread v hv)]
      split_ifs with hin
      · exact h
      · obtain ⟨hself, hnot⟩ := not_or.mp hin
        refine ⟨?_, fun p hp => ?_⟩
        · rw [List.map_append, List.map_cons, List.map_nil]
          have hnew := List.Nodup.concat hnot h.apart
          rw [List.concat_eq_append] at hnew
          exact hnew
        · rcases List.mem_append.mp hp with hp | hp
          · exact h.known p hp
          · rw [List.mem_singleton.mp hp]
            refine ⟨v, hv, rfl, rfl, hneeds, fun heq => hself ?_⟩
            rw [heq, hme]
  | serverRelay n =>
      change Listed users name (me.handleModeServerRelay n).peers
      refine ⟨?_, ?_⟩
      · change (me.handleModeServerRelay n).table.Nodup
        rw [handleModeServerRelay_table]
        exact h.apart
      · unfold handleModeServerRelay
        split_ifs with hself
        · exact h.known
        · intro p hp
          rcases Vec.mem_modifyFirst hp with hp | ⟨q, hq, hname, rfl⟩
          · exact h.known p hp
          · obtain ⟨v, hv, haddr, huser, -, hne⟩ := h.known q hq
            exact ⟨v, hv, haddr, huser, hl v hv (huser.trans (of_decide_eq_true hname)), hne⟩

/-- What a client does to the entries of a user that comes to need the server is
what the server does to the user. -/
theorem listed_requested (hwell : (users.map User.name).Nodup) (hme : me.user = name.text)
    (h : Listed users name me.peers) (n : Token) :
    Listed (users.map fun u => if u.name = n then { u with needsServerRelay := true } else u) name
      (me.heed now (.serverRelay n)).peers := by
  have hnames : (me.peers.map PeerInfo.username).Nodup := by
    refine List.Nodup.map_on (fun p hp q hq hpq => ?_) (List.Nodup.of_map _ h.apart)
    obtain ⟨v, hv, hvaddr, hvname, -⟩ := h.known p hp
    obtain ⟨w, hw, hwaddr, hwname, -⟩ := h.known q hq
    have hvw : v = w := List.inj_on_of_nodup_map hwell hv hw (by rw [hvname, hwname, hpq])
    exact List.inj_on_of_nodup_map h.apart hp hq (by rw [← hvaddr, ← hwaddr, hvw])
  have hpeers : (me.heed now (.serverRelay n)).peers = me.peers.map fun p =>
      if p.username = n then
        { p with useServerRelay := true, connected := true, relayRequested := true } else p := by
    rw [heed_peers]
    change (me.handleModeServerRelay n).peers = _
    unfold handleModeServerRelay
    split_ifs with hself
    · -- nobody has an entry of its own name
      refine (List.map_id me.peers).symm.trans (List.map_congr_left fun p hp => ?_)
      obtain ⟨v, -, -, hname, -, hne⟩ := h.known p hp
      have hpn : p.username ≠ n := fun heq => hne (Token.ext (by rw [hname, heq, hself, hme]))
      rw [if_neg hpn]
      rfl
    · have hmap := Vec.modifyFirst_eq_map (p := fun p : PeerInfo => decide (p.username = n))
        (f := fun p => { p with useServerRelay := true, connected := true, relayRequested := true })
        (g := PeerInfo.username) (k := n) (fun p hp => of_decide_eq_true hp) hnames
      dsimp only
      rw [hmap]
      simp only [decide_eq_true_eq]
  rw [hpeers]
  refine ⟨?_, fun p hp => ?_⟩
  · have haddr : ∀ p : PeerInfo, (if p.username = n then { p with
        useServerRelay := true, connected := true, relayRequested := true } else p).addr = p.addr :=
      fun p => by split_ifs <;> rfl
    rw [List.map_map, show PeerInfo.addr ∘ _ = PeerInfo.addr from funext haddr]
    exact h.apart
  · obtain ⟨q, hq, rfl⟩ := List.mem_map.mp hp
    obtain ⟨v, hv, haddr, hname, hneeds, hne⟩ := h.known q hq
    refine ⟨_, List.mem_map_of_mem hv, ?_⟩
    by_cases hqn : q.username = n
    · rw [if_pos hqn, if_pos (hname.trans hqn)]
      exact ⟨haddr, hname, rfl, hne⟩
    · rw [if_neg hqn, if_neg fun hvn => hqn (hname.symm.trans hvn)]
      exact ⟨haddr, hname, hneeds, hne⟩

/-- What holds at first, and what every line keeps, holds in the end. -/
theorem foldl_heed_of_step {P : Client → Prop} (hme : P me)
    (hstep : ∀ m, P m → ∀ l ∈ ls, P (m.heed now l)) : P (ls.foldl (heed now) me) :=
  List.foldlRecOn ls (heed now) hme fun m hm l hl => hstep m hm l hl

/-- What one of the lines brings about, and none of them undoes. -/
theorem foldl_heed_of_mem {P Q : Client → Prop} {l : ControlLine} (hl : l ∈ ls) (hme : P me)
    (hP : ∀ m, P m → ∀ l ∈ ls, P (m.heed now l)) (hQ : ∀ m, P m → Q (m.heed now l))
    (hstep : ∀ m, Q m → ∀ l ∈ ls, Q (m.heed now l)) : Q (ls.foldl (heed now) me) := by
  obtain ⟨before, behind, rfl⟩ := List.append_of_mem hl
  have hbefore : P (before.foldl (heed now) me) := foldl_heed_of_step hme fun m hm l' hl' =>
    hP m hm l' (List.mem_append_left _ hl')
  rw [List.foldl_append, List.foldl_cons]
  exact foldl_heed_of_step (hQ _ hbefore) fun m hm l' hl' =>
    hstep m hm l' (List.mem_append_right _ (List.mem_cons_of_mem _ hl'))

variable (now me ls) in
theorem foldl_heed_user : (ls.foldl (heed now) me).user = me.user :=
  foldl_heed_of_step (P := fun m => m.user = me.user) rfl fun m hm l _ =>
    (heed_flags now m l).1.trans hm

theorem foldl_heed_isRelay : (ls.foldl (heed now) me).isRelay = true ↔
    me.isRelay = true ∨ .relay ∈ ls := by
  induction ls generalizing me with
  | nil => simp
  | cons l ls ih =>
      rw [List.foldl_cons, ih, (heed_flags now me l).2.1, List.mem_cons, Bool.or_eq_true,
        decide_eq_true_eq, or_assoc, @eq_comm _ l]

/-- A relay that hears of another member mirrors from then on. -/
theorem foldl_heed_mirrored {n : Token} (h : me.isRelay = true) (hn : n.text ≠ me.user)
    (hl : .serverRelay n ∈ ls) : (ls.foldl (heed now) me).channelHasServerRelays = true := by
  refine foldl_heed_of_mem (P := fun m => m.isRelay = true ∧ m.user = me.user)
    (Q := fun m => m.channelHasServerRelays = true) hl ⟨h, rfl⟩ (fun m hm l _ => ?_)
    (fun m hm => ?_) (fun m hm l _ => ?_)
  · rw [(heed_flags now m l).1, (heed_flags now m l).2.1, hm.1]
    exact ⟨rfl, hm.2⟩
  · rw [(heed_flags now m _).2.2, hm.1, hm.2]
    simp [ControlLine.mirrored, hn]
  · rw [(heed_flags now m l).2.2, hm, Bool.true_or]

/-- Whoever is not told to goes on not sending through the server. -/
theorem foldl_heed_not_viaServer (hme : me.user = name.text) (h : me.sendViaServer = false)
    (hls : .serverRelay name ∉ ls) : (ls.foldl (heed now) me).sendViaServer = false := by
  refine (foldl_heed_of_step (P := fun m => m.user = name.text ∧ m.sendViaServer = false)
    ⟨hme, h⟩ fun m hm l hl => ⟨(heed_flags now m l).1.trans hm.1, ?_⟩).2
  rw [heed_sendViaServer]
  cases l with
  | relay => rfl
  | direct n a => exact hm.2
  | userLeft n a => exact hm.2
  | serverRelay n =>
      have hne : n.text ≠ name.text := fun heq => hls (Token.ext heq ▸ hl)
      simp [hm.1, hm.2, hne]

/-- Whoever is told to, and not called after that, sends through the server. -/
theorem foldl_heed_viaServer (hme : me.user = name.text) (hls : .relay ∉ ls)
    (h : me.sendViaServer = true ∨ .serverRelay name ∈ ls) :
    (ls.foldl (heed now) me).sendViaServer = true := by
  have hstep : ∀ m : Client, m.sendViaServer = true → ∀ l ∈ ls,
      (m.heed now l).sendViaServer = true := by
    intro m hm l hl
    rw [heed_sendViaServer]
    cases l with
    | relay => exact absurd hl hls
    | direct n a => exact hm
    | userLeft n a => exact hm
    | serverRelay n => exact Bool.or_eq_true_iff.mpr (Or.inl hm)
  rcases h with h | h
  · exact foldl_heed_of_step (P := fun m => m.sendViaServer = true) h hstep
  · refine foldl_heed_of_mem (P := fun m => m.user = name.text)
      (Q := fun m => m.sendViaServer = true) h hme
      (fun m hm l _ => (heed_flags now m l).1.trans hm) (fun m hm => ?_) hstep
    rw [heed_sendViaServer]
    simp [hm]

/-- Lines that are true of the users. -/
def AllTrue (users : List User) (ls : List ControlLine) : Prop := ∀ l ∈ ls, l.TrueOf users

theorem foldl_listed (hread : ∀ v ∈ users, Readable v.addr) (hme : me.user = name.text)
    (h : Listed users name me.peers) (hls : AllTrue users ls) :
    Listed users name (ls.foldl (heed now) me).peers :=
  (foldl_heed_of_step (P := fun m => m.user = name.text ∧ Listed users name m.peers) ⟨hme, h⟩
    fun m hm l hl => ⟨(heed_flags now m l).1.trans hm.1,
      listed_heed hread hm.1 hm.2 (hls l hl)⟩).2

theorem mem_foldl_table (hread : ∀ v ∈ users, Readable v.addr) (hls : AllTrue users ls)
    {b : SocketAddr} (hb : b ∈ (ls.foldl (heed now) me).table) :
    b ∈ me.table ∨ ∃ n, .direct n b ∈ ls := by
  refine foldl_heed_of_step (P := fun m => ∀ b ∈ m.table, b ∈ me.table ∨ ∃ n, .direct n b ∈ ls)
    (fun b hb => Or.inl hb) (fun m hm l hl b hb => ?_) b hb
  rcases mem_heed_table (readable_of_trueOf (hls l hl) hread) hb with hb | ⟨n, rfl⟩
  · exact hm b hb
  · exact Or.inr ⟨n, hl⟩

/-- Whom one of the lines introduces is in the table in the end. -/
theorem foldl_direct_mem (hread : ∀ v ∈ users, Readable v.addr) (hls : AllTrue users ls)
    {v : User} (hv : v ∈ users) (hne : v.name.text ≠ me.user) (hl : .direct v.name v.addr ∈ ls) :
    v.addr ∈ (ls.foldl (heed now) me).table :=
  foldl_heed_of_mem (P := fun m => m.user = me.user) (Q := fun m => v.addr ∈ m.table) hl rfl
    (fun m hm l _ => (heed_flags now m l).1.trans hm)
    (fun _ hm => direct_mem_table (hread v hv) (hm ▸ hne))
    fun _ hm l hl =>
      table_subset_heed (readable_of_trueOf (hls l hl) hread) (not_left_of_trueOf (hls l hl)) hm

end Lines

end NatPiercer.Client
