/-
# `Client.Entries` — one entry of the table, for as long as it is there

An entry is a name at an address.  What is done to the table is done by edits
(`Client.Editing`); here is what they do to one entry.  It keeps its name, its
address and the time it was made; that the peer is reached, or relayed for, or
has been asked for, is not forgotten (`Ages`).

Two things end it: a `USER_LEFT` of its name, and a pass of a relay that has
heard nothing of the peer for a minute.  So a relay is one who watches
(`entryWatch`), and what it watches for is a `PONG`.
-/
import NatPiercer.Client.Invariants
import NatPiercer.Lib.Beats

namespace NatPiercer.Client

open Text Utf8 Net Proto Signaling

/-- It is an entry of `n` at `a`. -/
def isEntry (a : SocketAddr) (n : Token) (p : PeerInfo) : Bool :=
  p.addr = a && p.username = n

theorem isEntry_iff {a : SocketAddr} {n : Token} {p : PeerInfo} :
    isEntry a n p = true ↔ p.addr = a ∧ p.username = n := by
  simp [isEntry]

/-- The entry of `n` at `a`. -/
def peer? (me : Client) (a : SocketAddr) (n : Token) : Option PeerInfo :=
  me.peers.find? (isEntry a n)

/-- What may become of an entry at `now`. -/
structure Ages (now : Instant) (p q : PeerInfo) : Prop where
  addr : q.addr = p.addr
  username : q.username = p.username
  createdAt : q.createdAt = p.createdAt
  lastPong : q.lastPong = p.lastPong ∨ q.lastPong = now
  connected : p.connected = true → q.connected = true
  useServerRelay : p.useServerRelay = true → q.useServerRelay = true
  relayRequested : p.relayRequested = true → q.relayRequested = true

section Entry
variable {now : Instant} {a : SocketAddr} {n : Token}

theorem Ages.refl (p : PeerInfo) : Ages now p p := ⟨rfl, rfl, rfl, Or.inl rfl, id, id, id⟩

theorem Ages.trans {p q r : PeerInfo} (h : Ages now p q) (h' : Ages now q r) : Ages now p r where
  addr := h'.addr.trans h.addr
  username := h'.username.trans h.username
  createdAt := h'.createdAt.trans h.createdAt
  lastPong := h'.lastPong.elim (fun hq => h.lastPong.imp hq.trans hq.trans) Or.inr
  connected hp := h'.connected (h.connected hp)
  useServerRelay hp := h'.useServerRelay (h.useServerRelay hp)
  relayRequested hp := h'.relayRequested (h.relayRequested hp)

theorem Ages.isEntry_eq {p q : PeerInfo} (h : Ages now p q) :
    isEntry a n q = isEntry a n p := by
  rw [isEntry, isEntry, h.addr, h.username]

theorem Ages.lastPong_eq {p q : PeerInfo} (h : Ages now p q) (hp : p.lastPong = now) :
    q.lastPong = now := h.lastPong.elim (fun hq => hq.trans hp) id

theorem ages_touch (p : PeerInfo) : Ages now p { p with lastPong := now } :=
  ⟨rfl, rfl, rfl, Or.inr rfl, id, id, id⟩

theorem ages_ensureConnected (p : PeerInfo) : Ages now p (ensureConnected now p) :=
  ⟨rfl, rfl, rfl, Or.inr rfl, fun _ => rfl, id, id⟩

theorem ages_ticked (now' : Instant) (p : PeerInfo) : Ages now p (ticked now' p) := by
  unfold ticked
  split_ifs
  · exact ⟨rfl, rfl, rfl, Or.inl rfl, id, id, fun _ => rfl⟩
  · exact .refl p

/-! ## Edits -/

/-- The edit leaves the entry in the table. -/
def SparesEntry (now : Instant) (a : SocketAddr) (n : Token) (e : Edit PeerInfo Datagram) : Prop :=
  ∀ l u, l.find? (isEntry a n) = some u →
    ∃ v, (e.apply l).1.find? (isEntry a n) = some v ∧ Ages now u v

theorem sparesEntry_first (q : PeerInfo → Bool) {f : PeerInfo → PeerInfo}
    (hf : ∀ p, Ages now p (f p)) : SparesEntry now a n (.first q f) := by
  intro l u hu
  have hfind : (Vec.modifyFirst q f l).find? (isEntry a n) =
      some (if l.find? q = some u then f u else u) := by
    rw [Vec.find?_modifyFirst_of_same fun p => (hf p).isEntry_eq, hu]
    rfl
  refine ⟨_, hfind, ?_⟩
  split_ifs
  · exact hf u
  · exact .refl u

theorem sparesEntry_heard {h : Heard} (hh : h ≠ .userLeft n) (src : SocketAddr) (user : Str)
    {e : Edit PeerInfo Datagram} (he : e ∈ h.edits now src user) : SparesEntry now a n e := by
  cases h with
  | ping | relay | nothing => exact absurd he List.not_mem_nil
  | pong =>
      rw [List.mem_singleton.mp he]
      exact sparesEntry_first _ ages_touch
  | holePunch | data _ =>
      rw [List.mem_singleton.mp he]
      exact sparesEntry_first _ ages_ensureConnected
  | serverRelay m =>
      rw [Heard.edits] at he
      split_ifs at he
      · exact absurd he List.not_mem_nil
      · rw [List.mem_singleton.mp he]
        exact sparesEntry_first _ fun _ =>
          ⟨rfl, rfl, rfl, Or.inl rfl, fun _ => rfl, fun _ => rfl, fun _ => rfl⟩
  | direct m b =>
      rw [Heard.edits] at he
      cases haddr : SocketAddr.fromStr b.text with
      | none =>
          rw [haddr] at he
          exact absurd he List.not_mem_nil
      | some addr =>
          rw [haddr] at he
          dsimp only at he
          split_ifs at he
          · exact absurd he List.not_mem_nil
          · rw [List.mem_singleton.mp he]
            intro l u hu
            refine ⟨u, ?_, .refl u⟩
            change (if _ then l else l ++ [newPeer now m addr]).find? _ = some u
            split_ifs
            · exact hu
            · rw [List.find?_append, hu]
              rfl
  | userLeft m =>
      rw [List.mem_singleton.mp he]
      have hm : m ≠ n := fun hmn => hh (congrArg Heard.userLeft hmn)
      refine fun l u hu => ⟨u, ?_, .refl u⟩
      refine Vec.find?_filterMap_of_some (fun x y hxy => ?_) ?_ hu
      · dsimp only at hxy
        split_ifs at hxy
        rw [Option.some.inj hxy]
      · have hname := (isEntry_iff.mp (List.find?_some hu)).2
        exact if_pos fun hum => hm (hum.symm.trans hname)

theorem sparesEntry_run {es : List (Edit PeerInfo Datagram)}
    (hes : ∀ e ∈ es, SparesEntry now a n e) {l : List PeerInfo} {u : PeerInfo}
    (hu : l.find? (isEntry a n) = some u) :
    ∃ v, (Edit.run l es).1.find? (isEntry a n) = some v ∧ Ages now u v := by
  refine Edit.run_keeps
    (J := fun l => ∃ v, l.find? (isEntry a n) = some v ∧ Ages now u v)
    (fun e he l hl => ?_) ⟨u, hu, .refl u⟩
  obtain ⟨v, hv, huv⟩ := hl
  obtain ⟨w, hw, hvw⟩ := hes e he l v hv
  exact ⟨w, hw, huv.trans hvw⟩

end Entry

/-! ## Datagrams and passes -/

section Step
variable {now : Instant} {server src a : SocketAddr} {n : Token} {st : Listening} {u : PeerInfo}

/-- An edit of a datagram is that of one of its lines, or of there being text. -/
theorem datagramEdits_cases {user : Str} {inSetup : Bool} {bytes : Bytes}
    {e : Edit PeerInfo Datagram} (he : e ∈ datagramEdits now server src user inSetup bytes) :
    e = contactEdit now src ∨ ∃ h ∈ heardIn bytes, e ∈ h.edits now src user := by
  have htext : ∀ s, e ∈ textEdits now src user s → ∃ h ∈ heard s, e ∈ h.edits now src user := by
    intro s hs
    obtain ⟨line, hline, hedit⟩ := List.mem_flatMap.mp hs
    exact ⟨_, List.mem_map.mpr ⟨line, hline, rfl⟩, hedit⟩
  have hplain : ∀ s, e ∈ plainEdits now server src user s →
      e = contactEdit now src ∨ ∃ h ∈ heard s, e ∈ h.edits now src user := by
    intro s hs
    rcases List.mem_append.mp hs with hs | hs
    · split_ifs at hs
      · exact absurd hs List.not_mem_nil
      · exact Or.inl (List.mem_singleton.mp hs)
    · exact Or.inr (htext s hs)
  rw [datagramEdits_eq] at he
  rw [heardIn_eq]
  cases hreading : Reading.ofBytes bytes with
  | dropped =>
      rw [hreading] at he
      exact absurd he List.not_mem_nil
  | plain s =>
      rw [hreading] at he
      exact hplain s he
  | control s =>
      rw [hreading] at he
      dsimp only at he
      split_ifs at he
      · exact hplain s he
      · exact Or.inr (htext s he)

/-- What a line asks for is done. -/
theorem edits_subset_datagramEdits {user : Str} {inSetup : Bool} {bytes : Bytes} {h : Heard}
    (hh : h ∈ heardIn bytes) :
    h.edits now src user ⊆ datagramEdits now server src user inSetup bytes := by
  have htext : ∀ s, h ∈ heard s → h.edits now src user ⊆ textEdits now src user s := by
    intro s hs e he
    obtain ⟨line, hline, rfl⟩ := List.mem_map.mp hs
    exact List.mem_flatMap.mpr ⟨line, hline, he⟩
  have hplain : ∀ s, h ∈ heard s → h.edits now src user ⊆ plainEdits now server src user s :=
    fun s hs e he => List.mem_append_right _ (htext s hs he)
  rw [heardIn_eq] at hh
  rw [datagramEdits_eq]
  cases hreading : Reading.ofBytes bytes with
  | dropped =>
      rw [hreading] at hh
      exact absurd hh List.not_mem_nil
  | plain s =>
      rw [hreading] at hh
      exact hplain s hh
  | control s =>
      rw [hreading] at hh
      dsimp only
      split_ifs
      · exact hplain s hh
      · exact htext s hh

theorem sparesEntry_datagram {user : Str} {inSetup : Bool} {bytes : Bytes}
    (hleft : .userLeft n ∉ heardIn bytes) :
    ∀ e ∈ datagramEdits now server src user inSetup bytes, SparesEntry now a n e := by
  intro e he
  rcases datagramEdits_cases he with rfl | ⟨h, hh, he⟩
  · exact sparesEntry_first _ ages_ensureConnected
  · exact sparesEntry_heard (fun hleft' => hleft (hleft' ▸ hh)) src user he

theorem entry_datagram {bytes : Bytes} (hleft : .userLeft n ∉ heardIn bytes)
    (hu : st.me.peer? a n = some u) :
    ∃ v, (st.step server (.datagram now src bytes)).me.peer? a n = some v ∧ Ages now u v := by
  rw [peer?, datagram_peers]
  exact sparesEntry_run (sparesEntry_datagram hleft) hu

variable (server) (serverId channel : Token)

theorem tick_peers (st : Listening) (now : Instant) :
    (st.happen server serverId channel (.tick now)).me.peers =
      if st.me.isActive then
        st.me.peers.filterMap fun p => if late now p then none else some (ticked now p)
      else st.me.peers := by
  unfold Listening.happen relayMainLoop
  dsimp only
  split_ifs
  · exact List.filterMap_congr fun p _ => by rw [relayMainLoopPeer_eq]
  · rfl

theorem isEntry_of_ticked {now : Instant} {p q : PeerInfo}
    (h : (if late now p then none else some (ticked now p)) = some q) :
    isEntry a n q = isEntry a n p := by
  split_ifs at h
  rw [← Option.some.inj h]
  have hages : Ages now p (ticked now p) := ages_ticked now p
  exact hages.isEntry_eq

/-- A pass drops the entry if the client is active and it is late, … -/
theorem entry_tick (hdistinct : (st.me.peers.map PeerInfo.addr).Nodup)
    (hu : st.me.peer? a n = some u) (now : Instant) :
    (st.happen server serverId channel (.tick now)).me.peer? a n =
      if st.me.isActive then if late now u then none else some (ticked now u) else some u := by
  rw [peer?, tick_peers]
  cases st.me.isActive with
  | false => exact hu
  | true =>
      rw [if_pos rfl, if_pos rfl]
      split_ifs with hlate
      · refine List.find?_eq_none.mpr fun q hq hentry => ?_
        obtain ⟨p, hp, hpq⟩ := List.mem_filterMap.mp hq
        rw [isEntry_of_ticked hpq] at hentry
        have haddr := (isEntry_iff.mp hentry).1.trans (isEntry_iff.mp (List.find?_some hu)).1.symm
        obtain rfl := List.inj_on_of_nodup_map hdistinct hp (List.mem_of_find?_eq_some hu) haddr
        rw [if_pos hlate] at hpq
        exact Option.some_ne_none q hpq.symm
      · exact Vec.find?_filterMap_of_some (fun _ _ => isEntry_of_ticked) (if_neg hlate) hu

/-- … and makes none. -/
theorem entry_tick_of_none (hnone : st.me.peer? a n = none) (now : Instant) :
    (st.happen server serverId channel (.tick now)).me.peer? a n = none := by
  rw [peer?, tick_peers]
  split_ifs
  · exact Vec.find?_filterMap_of_none (fun _ _ => isEntry_of_ticked) hnone
  · exact hnone

variable {server} in
/-- A `PONG` from the address makes its entry fresh. -/
theorem lastPong_pong {bytes : Bytes} (hst : TableSound st.me.user st.me.peers)
    (hleft : .userLeft n ∉ heardIn bytes) (hpong : .pong ∈ heardIn bytes)
    (hu : st.me.peer? a n = some u) :
    ∃ v, (st.step server (.datagram now a bytes)).me.peer? a n = some v ∧ v.lastPong = now := by
  have hmem : Edit.first (fun p => p.addr = a) (fun p => { p with lastPong := now }) ∈
      datagramEdits now server a st.me.user st.inSetup bytes :=
    edits_subset_datagramEdits hpong List.mem_cons_self
  obtain ⟨pre, post, hedits⟩ := List.append_of_mem hmem
  have hspares : ∀ e ∈ pre ++ Edit.first (fun p => p.addr = a)
      (fun p => { p with lastPong := now }) :: post, SparesEntry now a n e := by
    rw [← hedits]
    exact sparesEntry_datagram hleft
  have hsound : TableSound st.me.user (Edit.run st.me.peers pre).1 := by
    refine Edit.run_keeps (fun e he _ ht => ?_) hst
    have hall : e ∈ datagramEdits now server a st.me.user st.inSetup bytes := by
      rw [hedits]
      exact List.mem_append_left _ he
    exact ht.edit (tableEdit_of_datagram now server a st.me.user hall)
  obtain ⟨v, hv, -⟩ := sparesEntry_run (fun e he => hspares e (List.mem_append_left _ he)) hu
  have hfound : (Edit.run st.me.peers pre).1.find? (fun p => p.addr = a) = some v := by
    have hva := (isEntry_iff.mp (List.find?_some hv)).1
    refine Vec.find?_of_only (List.mem_of_find?_eq_some hv) (decide_eq_true hva) fun x hx hxa => ?_
    exact List.inj_on_of_nodup_map hsound.distinct hx (List.mem_of_find?_eq_some hv)
      ((of_decide_eq_true hxa).trans hva.symm)
  have hfresh : (Vec.modifyFirst (fun p => p.addr = a) (fun p => { p with lastPong := now })
      (Edit.run st.me.peers pre).1).find? (isEntry a n) = some { v with lastPong := now } := by
    rw [Vec.find?_modifyFirst_of_same fun p => (ages_touch p).isEntry_eq, hv, Option.map_some,
      if_pos hfound]
  obtain ⟨w, hw, hvw⟩ := sparesEntry_run
    (fun e he => hspares e (List.mem_append_right _ (List.mem_cons_of_mem _ he))) hfresh
  refine ⟨w, ?_, hvw.lastPong_eq rfl⟩
  rw [peer?, datagram_peers, hedits, Edit.run_append]
  exact hw

end Step

/-! ## One who watches -/

def Happening.instant? : Happening → Option Nat
  | .event (.datagram now _ _) => some now
  | .event .setupDeadline => none
  | .tick now => some now

section Watch
variable (a : SocketAddr) (n : Token)

/-- The peer is heard of. -/
def Happening.IsSign : Happening → Prop
  | .event (.datagram _ src bytes) => src = a ∧ .pong ∈ heardIn bytes
  | .event .setupDeadline | .tick _ => False

/-- Nobody says that it has left. -/
def Happening.Spares : Happening → Prop
  | .event (.datagram _ _ bytes) => .userLeft n ∉ heardIn bytes
  | .event .setupDeadline | .tick _ => True

/-- A client watches the peer `n` at `a`. -/
def entryWatch : Beats.Watch Listening Happening where
  instant? := Happening.instant?
  IsSign := Happening.IsSign a
  check?
    | .tick now => some now
    | .event _ => none
  patience := peerTimeout
  stamp st := (st.me.peer? a n).map PeerInfo.lastPong

variable {a n} (server : SocketAddr) (serverId channel : Token)

theorem keptBy_happen {st : Listening} {h : Happening} (hst : Sound st.me) (hh : h.Spares n) :
    (entryWatch a n).KeptBy (Listening.happen server serverId channel) st h := by
  intro x hx hcheck
  obtain ⟨u, hu, rfl⟩ := Option.map_eq_some_iff.mp hx
  cases h with
  | tick now =>
      have hage : now - u.lastPong ≤ peerTimeout := Nat.sub_le_iff_le_add'.mpr (hcheck now rfl)
      have hlate : late now u = false := by
        rw [late, decide_eq_false (Nat.not_lt.mpr hage), Bool.and_false]
      have htick := entry_tick server serverId channel hst.table.distinct hu now
      rw [hlate, if_neg Bool.false_ne_true] at htick
      refine ⟨u.lastPong, ?_, Or.inl rfl, False.elim⟩
      refine (congrArg (Option.map PeerInfo.lastPong) htick).trans ?_
      unfold ticked
      split_ifs <;> rfl
  | event e =>
      cases e with
      | setupDeadline => exact ⟨u.lastPong, hx, Or.inl rfl, False.elim⟩
      | datagram now src bytes =>
          obtain ⟨v, hv, huv⟩ : ∃ v, (st.step server (.datagram now src bytes)).me.peer? a n =
              some v ∧ Ages now u v := entry_datagram hh hu
          refine ⟨v.lastPong, congrArg (Option.map PeerInfo.lastPong) hv,
            huv.lastPong.imp id fun hnow => congrArg some hnow.symm, ?_⟩
          rintro ⟨rfl, hpong⟩
          obtain ⟨w, hw, hnow⟩ : ∃ w, (st.step server (.datagram now src bytes)).me.peer? src n =
              some w ∧ w.lastPong = now := lastPong_pong hst.table hh hpong hu
          rw [Option.some.inj (hv.symm.trans hw)]
          exact congrArg some hnow.symm

/-- The entry stays, if the peer is heard of in time and nobody says that it left. -/
theorem stays_of_heardInTime {st : Listening} {u : PeerInfo} {hs : List Happening}
    (hst : Sound st.me) (hu : st.me.peer? a n = some u)
    (htime : Beats.InTime Happening.instant? u.lastPong hs) (hspares : ∀ h ∈ hs, h.Spares n)
    (hheard : (entryWatch a n).HeardInTime u.lastPong hs) :
    Always (Listening.happen server serverId channel)
      (fun st' => (st'.me.peer? a n).isSome = true) st hs := by
  have hstays := (entryWatch a n).lasts
    (fun st' h hst' => sound_happen server serverId channel st' h hst')
    (fun st' h hst' hh => keptBy_happen server serverId channel hst' hh) hst
    (congrArg (Option.map PeerInfo.lastPong) hu) (Nat.le_refl _) (Nat.le_refl _) htime hspares
    hheard
  exact hstays.mono fun st' h => by rwa [entryWatch, Option.isSome_map] at h

end Watch

end NatPiercer.Client
