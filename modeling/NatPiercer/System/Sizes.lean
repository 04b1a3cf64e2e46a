/-
# `System.Sizes` — what fits a client's buffer

A client receives into `[u8; 2048]`, and so does the server.  But a line is
longer than the name in it, by the words around the name and by an address;
and a pass puts a line for each member into one datagram, and into the one
for the others the same line as many times as there are others.

So whether all datagrams of a step fit comes to the lengths of names and
addresses, and, where the heartbeat elects, to their sum over a channel.  Where
they fit, clients with buffers do as clients that receive everything
(`after_stepCut`).
-/
import Mathlib.Data.List.TakeDrop
import NatPiercer.Client.Hearing
import NatPiercer.Signaling.ChannelCases
import NatPiercer.Signaling.DataRouting
import NatPiercer.Signaling.Server
import NatPiercer.System.Party

namespace NatPiercer.System

open Text Utf8 Net Proto LockProg Signaling Client

/-- Nothing is cut off: each is at most as long as the buffer. -/
def AllFit (ds : List Datagram) : Prop := ∀ d ∈ ds, d.payload.length ≤ 2048

theorem allFit_iff_received {ds : List Datagram} :
    AllFit ds ↔ ∀ d ∈ ds, Signaling.received d.payload = d.payload :=
  forall_congr' fun _ => imp_congr_right fun _ => (List.take_eq_self_iff _).symm

theorem forall_mem_const {α : Type} {xs : List α} {p : Prop} :
    (∀ x ∈ xs, p) ↔ (xs ≠ [] → p) := by
  constructor
  · intro h hne
    obtain ⟨x, hx⟩ := List.exists_mem_of_ne_nil xs hne
    exact h x hx
  · exact fun h x hx => h (List.ne_nil_of_mem hx)

section AllFit
variable {ds ds' : List Datagram}

theorem allFit_nil : AllFit [] := fun _ hd => absurd hd List.not_mem_nil

theorem allFit_append : AllFit (ds ++ ds') ↔ AllFit ds ∧ AllFit ds' := List.forall_mem_append

theorem allFit_tell {a : SocketAddr} {s : Str} : AllFit [tell a s] ↔ byteLen s ≤ 2048 :=
  List.forall_mem_singleton

theorem allFit_map {α : Type} {xs : List α} {dst : α → SocketAddr} {f : α → Str} :
    AllFit (xs.map fun x => tell (dst x) (f x)) ↔ ∀ x ∈ xs, byteLen (f x) ≤ 2048 :=
  List.forall_mem_map

theorem allFit_flatMap {α : Type} {xs : List α} {f : α → List Datagram} :
    AllFit (xs.flatMap f) ↔ ∀ x ∈ xs, AllFit (f x) := by
  constructor
  · intro h x hx d hd
    exact h d (List.mem_flatMap_of_mem hx hd)
  · intro h d hd
    obtain ⟨x, hx, hd⟩ := List.mem_flatMap.mp hd
    exact h x hx d hd

theorem allFit_datagrams {addrs : List SocketAddr} {payload : Bytes} (h : addrs ≠ []) :
    AllFit (Notification.datagrams (addrs, payload)) ↔ payload.length ≤ 2048 := by
  obtain ⟨a, as, rfl⟩ := List.exists_cons_of_ne_nil h
  constructor
  · intro hfits
    exact hfits ⟨a, payload⟩ List.mem_cons_self
  · intro hlen d hd
    obtain ⟨b, -, rfl⟩ := List.mem_map.mp hd
    exact hlen

end AllFit

/-! ## The lines -/

/-- `MODE DIRECT`, a name and an address. -/
def directSize (u : User) : Nat := 14 + byteLen u.name.text + byteLen u.addr.toText

/-- `MODE SERVER_RELAY` and a name. -/
def serverRelaySize (n : Token) : Nat := 19 + byteLen n.text

/-- `USER_LEFT`, a name and an address. -/
def userLeftSize (n addr : Token) : Nat := 12 + byteLen n.text + byteLen addr.text

/-- The words, a blank after each but the last, and the end of the line. -/
theorem byteLen_line (t : Token) (ts : List Token) :
    byteLen (line (t :: ts)) =
      byteLen t.text + (ts.map fun u => byteLen u.text + 1).sum + 1 := by
  have hrest : byteLen (ts.flatMap fun u => ' ' :: u.text) =
      (ts.map fun u => byteLen u.text + 1).sum := by
    induction ts with
    | nil => rfl
    | cons u ts ih =>
        have hblank : (' ' : Char).utf8Size = 1 := rfl
        rw [List.flatMap_cons, byteLen_append, byteLen_cons, ih, List.map_cons, List.sum_cons,
          hblank, Nat.add_comm 1]
  rw [line, unwords, byteLen_append, byteLen_append, hrest]
  rfl

theorem byteLen_modeDirect (u : User) : byteLen (modeDirect u.name u.addr) = directSize u := by
  have hmode : byteLen msgMode.text = 4 := rfl
  have hdirect : byteLen msgDirect.text = 6 := rfl
  rw [modeDirect, byteLen_line]
  simp only [List.map_cons, List.map_nil, List.sum_cons, List.sum_nil, directSize,
    SocketAddr.token]
  omega

theorem byteLen_modeServerRelay (n : Token) :
    byteLen (modeServerRelay n) = serverRelaySize n := by
  have hmode : byteLen msgMode.text = 4 := rfl
  have hserverRelay : byteLen msgServerRelay.text = 12 := rfl
  rw [modeServerRelay, byteLen_line]
  simp only [List.map_cons, List.map_nil, List.sum_cons, List.sum_nil, serverRelaySize]
  omega

theorem byteLen_userLeft (n addr : Token) : byteLen (userLeft n addr) = userLeftSize n addr := by
  have hleft : byteLen msgUserLeft.text = 9 := rfl
  rw [userLeft, byteLen_line]
  simp only [List.map_cons, List.map_nil, List.sum_cons, List.sum_nil, userLeftSize]
  omega

/-! ## What always fits -/

section Short
variable (a : SocketAddr)

theorem allFit_modeRelay : AllFit [tell a modeRelay] := allFit_tell.mpr (by decide)

theorem allFit_natSeen : AllFit [tell a (line [msgNatSeen, a.token])] := by
  have hseen : byteLen msgNatSeen.text = 8 := rfl
  have haddr := byteLen_le a.toText
  have hlen := a.length_toText_le
  rw [allFit_tell, byteLen_line]
  simp only [List.map_cons, List.map_nil, List.sum_cons, List.sum_nil, SocketAddr.token]
  omega

theorem allFit_welcome (cid : UInt64) (pid : UInt32) : AllFit [welcome a cid pid] := by
  intro d hd
  have hlen : (asBytes (welcomeText cid pid)).length ≤ 2018 := byteLen_welcomeText cid pid
  rw [List.mem_singleton.mp hd]
  change (encode _ (asBytes (welcomeText cid pid))).length ≤ 2048
  rw [length_encode, toNat_payloadLen16, headerLen]
  omega

end Short

/-! ## Messages -/

/-- Every member hears of every member that the server relays for it. -/
def AnnouncementFits (users : List User) : Prop :=
  ∀ u ∈ users, serverRelaySize u.name ≤ 2048

/-- After a `CONNECT`: a line for each of the others, and a line about each. -/
def ElectionFits (users : List User) : Prop :=
  match users.find? User.eligible with
  | some r => (∀ x ∈ relayPeers r users, directSize x ≤ 2048 ∧ directSize r ≤ 2048) ∧
      ∀ x ∈ symmetricPeers r users, serverRelaySize x.name ≤ 2048
  | none => AnnouncementFits users

/-- After a `DISCONNECT`, whatever the others need. -/
def TransitionFits (users : List User) : Prop :=
  match users.find? User.eligible with
  | some r => ∀ x ∈ users, x.name ≠ r.name → directSize x ≤ 2048 ∧ directSize r ≤ 2048
  | none => AnnouncementFits users

/-- A `CONNECT` is answered with the `WELCOME`, and if it opens a session, one alone
behind a symmetric NAT hears that the server relays for it, and one beside
others makes for an election. -/
def JoinFits (ch : Channel) (amb : Ambient) (n : Token) (nat : Signaling.NatKind)
    (src : SocketAddr) : Prop :=
  (∀ x ∈ ch.users, x.isSession n src = false) →
    if ch.others n = [] then ch.relay = none → nat = .symmetric → serverRelaySize n ≤ 2048
    else ElectionFits (ch.others n ++ [ch.newUser amb n nat src])

/-- The others hear of the departure, and of another relay if they are several and
it was the relay that left. -/
def LeaveFits (ch : Channel) (n : Token) (src : SocketAddr) : Prop :=
  let left := ch.users.eraseP (User.isSession n src)
  if ch.users.any (User.isSession n src) then
    (left ≠ [] → userLeftSize n src.token ≤ 2048) ∧
      (ch.relay = some n → left.length ≠ 1 → TransitionFits left)
  else ch.users ≠ [] → userLeftSize n unknownAddr ≤ 2048

section Messages
variable {ch : Channel} {n : Token} {src : SocketAddr} {users : List User}

theorem allFit_announced : AllFit (announced users) ↔ AnnouncementFits users := by
  unfold announced AnnouncementFits
  rw [allFit_flatMap]
  constructor
  · intro h u hu
    rw [← byteLen_modeServerRelay]
    exact allFit_map.mp (h u hu) u hu
  · intro h u hu
    refine allFit_map.mpr fun _ _ => ?_
    rw [byteLen_modeServerRelay]
    exact h u hu

theorem allFit_departed {addr : Token} :
    AllFit (departed users n addr) ↔ (users ≠ [] → userLeftSize n addr ≤ 2048) := by
  unfold departed
  rw [allFit_map, byteLen_userLeft, forall_mem_const]

theorem allFit_elect : AllFit ch.elect.2 ↔ ElectionFits ch.users := by
  unfold Channel.elect ElectionFits
  cases h : pickEligibleRelay ch with
  | none =>
      rw [show ch.users.find? User.eligible = none from h]
      exact allFit_announced
  | some r =>
      rw [show ch.users.find? User.eligible = some r from h]
      have hrelay : AllFit (if ch.changes r then [tell r.addr modeRelay] else []) := by
        split_ifs
        · exact allFit_modeRelay r.addr
        · exact allFit_nil
      have hsymmetric : ∀ x : User, AllFit (tell x.addr (modeServerRelay x.name) ::
          if r.addr ≠ x.addr then [tell r.addr (modeServerRelay x.name)] else []) ↔
          serverRelaySize x.name ≤ 2048 := by
        intro x
        rw [← byteLen_modeServerRelay]
        split_ifs
        · exact List.forall_mem_cons.trans (and_iff_left_of_imp fun h => allFit_tell.mpr h)
        · exact allFit_tell
      unfold Channel.electionTold
      simp only [allFit_append, allFit_map, allFit_flatMap, hrelay, true_and, hsymmetric,
        byteLen_modeDirect]
      rw [← and_assoc, ← forall₂_and]

theorem allFit_connect (amb : Ambient) (nat : Signaling.NatKind) :
    AllFit (ch.connect amb n nat src).2 ↔ JoinFits ch amb n nat src := by
  unfold JoinFits
  rcases session_or_new n src ch with h | hnew
  · obtain ⟨-, cid, pid, hsent⟩ := connect_of_session amb nat h
    rw [hsent]
    refine iff_of_true (allFit_welcome src cid pid) fun hnew => ?_
    obtain ⟨x, hx, hsession⟩ := h
    rw [hnew x hx] at hsession
    exact absurd hsession Bool.false_ne_true
  · rw [forall_prop_of_true hnew]
    by_cases ho : ch.others n = []
    · obtain ⟨-, -, cid, pid, hsent⟩ := connect_lone amb nat hnew ho
      rw [hsent, if_pos ho, allFit_append, and_iff_left (allFit_welcome src cid pid)]
      split_ifs with hrelay hnat
      · rw [allFit_tell, byteLen_modeServerRelay]
        exact ⟨fun h _ _ => h, fun h => h hrelay hnat⟩
      · exact iff_of_true (allFit_modeRelay src) fun _ h => absurd h hnat
      · exact iff_of_true allFit_nil fun h => absurd h hrelay
    · obtain ⟨-, cid, pid, hsent⟩ := connect_elect amb nat hnew ho
      rw [hsent, if_neg ho, ← List.singleton_append, allFit_append,
        and_iff_right (allFit_welcome src cid pid), allFit_elect, joined_users amb nat hnew]

theorem allFit_transition : AllFit ch.transition.2 ↔ TransitionFits ch.users := by
  unfold Channel.transition TransitionFits
  cases h : pickEligibleRelay ch with
  | none =>
      rw [show ch.users.find? User.eligible = none from h]
      exact allFit_announced
  | some r =>
      rw [show ch.users.find? User.eligible = some r from h]
      dsimp only
      rw [← List.singleton_append, allFit_append, and_iff_right (allFit_modeRelay r.addr),
        allFit_append, allFit_map, allFit_map]
      simp only [byteLen_modeDirect, List.mem_filter, decide_eq_true_eq, and_imp]
      exact ⟨fun h x hx hne => ⟨h.2 x hx hne, h.1 x hx hne⟩,
        fun h => ⟨fun x hx hne => (h x hx hne).2, fun x hx hne => (h x hx hne).1⟩⟩

/-- What the departure of a user makes of the relay of the others. -/
theorem allFit_repair (wasRelay : Bool) :
    AllFit (ch.repair wasRelay).2 ↔
      (wasRelay = true → ch.users.length ≠ 1 → TransitionFits ch.users) := by
  unfold Channel.repair updateRelayAfterDeparture
  cases wasRelay with
  | false => exact iff_of_true allFit_nil fun h => absurd h Bool.false_ne_true
  | true =>
      have hseveral : ∀ ch : Channel, ch.users.length ≠ 1 → (AllFit ch.transition.2 ↔
          (true = true → ch.users.length ≠ 1 → TransitionFits ch.users)) := fun _ hlen =>
        allFit_transition.trans ⟨fun h _ _ => h, fun h => h rfl hlen⟩
      obtain ⟨id, next, users, relay⟩ := ch
      rcases users with _ | ⟨u, _ | ⟨v, users⟩⟩
      · exact hseveral ⟨id, next, [], none⟩ Nat.zero_ne_one
      · exact iff_of_true (allFit_modeRelay u.addr) fun _ h => absurd rfl h
      · exact hseveral ⟨id, next, u :: v :: users, some u.name⟩ fun h =>
          absurd (Nat.succ.inj h) (Nat.succ_ne_zero _)

theorem allFit_disconnect : AllFit (ch.disconnect n src).2 ↔ LeaveFits ch n src := by
  unfold Channel.disconnect findAndRemoveUser LeaveFits
  dsimp only
  cases hfind : ch.users.find? (User.isSession n src) with
  | none =>
      have hany : ch.users.any (User.isSession n src) = false :=
        List.any_eq_false.mpr (List.find?_eq_none.mp hfind)
      rw [hany, if_neg Bool.false_ne_true]
      exact allFit_departed
  | some leaving =>
      have hsession := List.find?_some hfind
      obtain ⟨rfl, rfl⟩ := isSession_iff.mp hsession
      have hany : ch.users.any (User.isSession leaving.name leaving.addr) = true :=
        List.any_eq_true.mpr ⟨leaving, List.mem_of_find?_eq_some hfind, hsession⟩
      rw [hany, if_pos rfl]
      dsimp only
      rw [allFit_append, allFit_repair, allFit_departed, and_comm, decide_eq_true_eq]

theorem allFit_peerTimeout :
    AllFit (ch.peerTimeout n).2 ↔ (ch.others n ≠ [] → userLeftSize n unknownAddr ≤ 2048) := by
  unfold Channel.peerTimeout
  rw [allFit_departed, removePeer_users]

theorem allFit_relayRequested :
    AllFit (ch.relayRequested n) ↔ (ch.users ≠ [] → serverRelaySize n ≤ 2048) := by
  have hlen : (ch.requestRelay n).users.length = ch.users.length := Vec.length_modifyFirst _ _ _
  unfold Channel.relayRequested
  rw [allFit_map, byteLen_modeServerRelay, forall_mem_const, ← List.length_pos_iff, hlen,
    List.length_pos_iff]

end Messages

/-! ## A pass -/

/-- An election in a pass: the line about the relay as often as there are others,
and all lines about the others, or all that say the server relays, at once. -/
def BatchFits (users : List User) : Prop :=
  match users.find? fun u => !u.needsServerRelay with
  | some r =>
      let peers := users.filter fun u => u.name ≠ r.name
      peers.length * directSize r ≤ 2048 ∧ (peers.map directSize).sum ≤ 2048
  | none => (users.map fun u => serverRelaySize u.name).sum ≤ 2048

/-- The loop of a pass, with a relay on record, the users it has kept and those it
has still to look at: a departure is announced to all that are elsewhere, and
if it is the relay's, there is an election among the others. -/
def ExpiryFits (now : Signaling.Instant) : Option Token → List User → List User → Prop
  | _, _, [] => True
  | relay, kept, u :: rest =>
      if u.expired now then
        ((∃ x ∈ kept ++ rest, x.addr ≠ u.addr) → userLeftSize u.name u.addr.token ≤ 2048) ∧
        (relay = some u.name → BatchFits (kept ++ rest)) ∧
        ExpiryFits now
          (if relay = some u.name then sparedName (kept ++ rest) else soleOr relay (kept ++ rest))
          kept rest
      else ExpiryFits now relay (kept ++ [u]) rest

/-- At the end, one user alone may hear that the server relays for it. -/
def PassFits (now : Signaling.Instant) (ch : Channel) : Prop :=
  ExpiryFits now ch.relay [] ch.users ∧
    ∀ u, ch.survivors now = [u] → u.needsServerRelay = true → serverRelaySize u.name ≤ 2048

section Pass
variable {now : Signaling.Instant} {ch : Channel} {ns ns' : List Notification}

/-- Notifications, as the datagrams that they are sent in. -/
abbrev NotificationsFit (ns : List Notification) : Prop :=
  AllFit (ns.flatMap Notification.datagrams)

theorem notificationsFit_append :
    NotificationsFit (ns ++ ns') ↔ NotificationsFit ns ∧ NotificationsFit ns' := by
  unfold NotificationsFit
  rw [List.flatMap_append, allFit_append]

theorem notificationsFit_single {addrs : List SocketAddr} {payload : Bytes} (h : addrs ≠ []) :
    NotificationsFit [(addrs, payload)] ↔ payload.length ≤ 2048 := by
  unfold NotificationsFit
  rw [List.flatMap_cons, List.flatMap_nil, List.append_nil, allFit_datagrams h]

theorem notificationsFit_relay (a : SocketAddr) : NotificationsFit [([a], asBytes modeRelay)] :=
  (notificationsFit_single (List.cons_ne_nil a [])).mpr (by decide)

theorem length_flatMap_asBytes {xs : List User} (f : User → Str) :
    (xs.flatMap fun x => asBytes (f x)).length = (xs.map fun x => byteLen (f x)).sum :=
  List.length_flatMap

/-- Lines about some users, at once, unless there are none. -/
theorem notificationsFit_lines {empty : Bool} {addrs : List SocketAddr} {xs : List User}
    (f : User → Str) (hempty : empty = true → (xs.flatMap fun x => asBytes (f x)) = [])
    (haddrs : empty = false → addrs ≠ []) :
    NotificationsFit (if empty then [] else [(addrs, xs.flatMap fun x => asBytes (f x))]) ↔
      (xs.map fun x => byteLen (f x)).sum ≤ 2048 := by
  rw [← length_flatMap_asBytes]
  cases empty with
  | true =>
      rw [if_pos rfl, hempty rfl]
      exact iff_of_true allFit_nil (Nat.zero_le _)
  | false =>
      rw [if_neg Bool.false_ne_true]
      exact notificationsFit_single (haddrs rfl)

theorem allFit_handleRelayTimeout :
    NotificationsFit (handleRelayTimeout ch).2 ↔ BatchFits ch.users := by
  unfold handleRelayTimeout BatchFits
  cases h : Heartbeat.pickEligibleRelay ch with
  | none =>
      rw [show ch.users.find? (fun u => !u.needsServerRelay) = none from h]
      dsimp only
      rw [notificationsFit_lines fun u => modeServerRelay u.name]
      · simp only [byteLen_modeServerRelay]
      · intro hempty
        rw [List.isEmpty_iff.mp hempty, List.flatMap_nil]
      · intro hempty hnil
        rw [List.map_eq_nil_iff.mp hnil] at hempty
        exact absurd hempty.symm Bool.false_ne_true
  | some r =>
      rw [show ch.users.find? (fun u => !u.needsServerRelay) = some r from h]
      dsimp only
      generalize ch.users.filter (fun u => decide (u.name ≠ r.name)) = peers
      rw [List.cons_append, ← List.singleton_append, notificationsFit_append,
        and_iff_right (notificationsFit_relay r.addr), notificationsFit_append,
        notificationsFit_lines fun _ => modeDirect r.name r.addr,
        notificationsFit_lines fun peer => modeDirect peer.name peer.addr]
      · simp only [byteLen_modeDirect, List.map_const', List.sum_replicate_nat]
      · exact List.isEmpty_iff.mp
      · exact fun _ => List.cons_ne_nil _ _
      · intro hempty
        rw [List.map_eq_nil_iff.mp (List.isEmpty_iff.mp hempty), List.flatMap_nil]
      · intro hempty hnil
        rw [hnil] at hempty
        exact absurd hempty.symm Bool.false_ne_true

theorem allFit_handleTimedOutUser {i : Nat} {u : User} :
    NotificationsFit (handleTimedOutUser ch i u.name u.addr).2 ↔
      ((∃ x ∈ ch.users, x.addr ≠ u.addr) → userLeftSize u.name u.addr.token ≤ 2048) ∧
      (ch.relay = some u.name → BatchFits (ch.users.eraseIdx i)) := by
  have hleft : NotificationsFit
      (if ((ch.users.filter fun x => x.addr ≠ u.addr).map User.addr).isEmpty then []
        else [((ch.users.filter fun x => x.addr ≠ u.addr).map User.addr,
          asBytes (userLeft u.name u.addr.token))]) ↔
      ((∃ x ∈ ch.users, x.addr ≠ u.addr) → userLeftSize u.name u.addr.token ≤ 2048) := by
    by_cases helse : ∃ x ∈ ch.users, x.addr ≠ u.addr
    · obtain ⟨x, hx, hne⟩ := helse
      have hmem : x.addr ∈ (ch.users.filter fun x => x.addr ≠ u.addr).map User.addr :=
        List.mem_map_of_mem (List.mem_filter.mpr ⟨hx, decide_eq_true hne⟩)
      rw [if_neg fun h => List.ne_nil_of_mem hmem (List.isEmpty_iff.mp h),
        notificationsFit_single (List.ne_nil_of_mem hmem), ← byteLen_userLeft]
      exact ⟨fun h _ => h, fun h => h ⟨x, hx, hne⟩⟩
    · have hnil : (ch.users.filter fun x => x.addr ≠ u.addr) = [] :=
        List.filter_eq_nil_iff.mpr fun x hx h => helse ⟨x, hx, of_decide_eq_true h⟩
      rw [hnil]
      exact iff_of_true allFit_nil fun h => absurd h helse
  unfold handleTimedOutUser
  dsimp only
  by_cases hwas : ch.relay = some u.name
  · rw [if_pos (decide_eq_true hwas), notificationsFit_append, hleft, allFit_handleRelayTimeout,
      forall_prop_of_true hwas]
  · rw [if_neg fun h => hwas (of_decide_eq_true h)]
    generalize ch.users.eraseIdx i = left
    rw [and_iff_left fun h => absurd h hwas, ← hleft]
    rcases left with _ | ⟨v, _ | ⟨w, left⟩⟩
    · exact Iff.rfl
    · exact notificationsFit_append.trans (and_iff_left (notificationsFit_relay v.addr))
    · exact Iff.rfl

theorem allFit_expireLoop {todo : Nat} {kept rest : List User} (hch : ch.users = kept ++ rest)
    (htodo : rest.length ≤ todo) :
    NotificationsFit (expireLoop now todo kept.length ch).2 ↔
      ExpiryFits now ch.relay kept rest := by
  -- by induction on the users that are left to look at
  induction rest generalizing todo kept ch with
  | nil =>
      rw [expireLoop_end (by rw [hch, List.append_nil])]
      exact iff_of_true allFit_nil trivial
  | cons u rest ih =>
      obtain ⟨todo, rfl⟩ := Nat.exists_eq_add_of_le' (Nat.one_le_of_lt htodo)
      have herase := eraseIdx_kept hch
      have htodo : rest.length ≤ todo := Nat.le_of_succ_le_succ htodo
      rw [expireLoop_cons hch, ExpiryFits]
      by_cases hexp : u.expired now = true
      · have hothers : (∃ x ∈ ch.users, x.addr ≠ u.addr) ↔
            ∃ x ∈ kept ++ rest, x.addr ≠ u.addr := by
          constructor
          · rintro ⟨x, hx, hne⟩
            rw [hch] at hx
            rcases List.mem_append.mp hx with hx | hx
            · exact ⟨x, List.mem_append_left rest hx, hne⟩
            · rcases List.mem_cons.mp hx with rfl | hx
              · exact absurd rfl hne
              · exact ⟨x, List.mem_append_right kept hx, hne⟩
          · rintro ⟨x, hx, hne⟩
            rw [← herase] at hx
            exact ⟨x, List.mem_of_mem_eraseIdx hx, hne⟩
        have hrest : ∀ left : Channel, left.users = kept ++ rest →
            (NotificationsFit (expireLoop now todo kept.length left).2 ↔
              ExpiryFits now left.relay kept rest) := fun left hleft => ih hleft htodo
        have hrest := hrest _ ((handleTimedOutUser_users ch _ u.name u.addr).trans herase)
        rw [handleTimedOutUser_relay, herase] at hrest
        rw [if_pos hexp, if_pos hexp]
        dsimp only
        rw [notificationsFit_append, allFit_handleTimedOutUser, hothers, herase, hrest, and_assoc]
      · rw [if_neg hexp, if_neg hexp]
        exact ih (hch.trans (List.append_cons kept u rest)) htodo

/-- What a pass has a channel send. -/
theorem allFit_heartbeatTold : AllFit (ch.heartbeatTold now) ↔ PassFits now ch := by
  have hpings : ∀ as : List SocketAddr, AllFit (as.map fun addr => tell addr msgPing.text) :=
    fun as => allFit_map.mpr fun _ _ => by decide
  have hexpiry : NotificationsFit (ch.expire now).2 ↔ ExpiryFits now ch.relay [] ch.users :=
    allFit_expireLoop (List.nil_append ch.users).symm (Nat.le_refl _)
  have hsettled : NotificationsFit (settleSolo (ch.expire now).1).2.2 ↔
      ∀ u, ch.survivors now = [u] → u.needsServerRelay = true →
        serverRelaySize u.name ≤ 2048 := by
    rw [← expire_users]
    generalize (ch.expire now).1 = left
    unfold settleSolo
    obtain ⟨id, next, users, relay⟩ := left
    rcases users with _ | ⟨u, _ | ⟨v, users⟩⟩
    · exact iff_of_true allFit_nil fun u h => absurd h (List.cons_ne_nil u []).symm
    · dsimp only
      split_ifs with hneeds
      · rw [notificationsFit_single (List.cons_ne_nil _ _)]
        constructor
        · intro h w hw _
          rw [← byteLen_modeServerRelay, ← (List.cons.inj hw).1]
          exact h
        · intro h
          exact (byteLen_modeServerRelay u.name).le.trans (h u rfl hneeds)
      · refine iff_of_true allFit_nil fun w hw hneeds' => ?_
        obtain rfl := (List.cons.inj hw).1
        exact absurd hneeds' hneeds
    · exact iff_of_true allFit_nil fun w h => absurd (List.cons.inj h).2 (List.cons_ne_nil v users)
  unfold Channel.heartbeatTold Channel.expireAndSettle PassFits
  dsimp only
  rw [allFit_append, and_iff_right (hpings _)]
  exact notificationsFit_append.trans (and_congr hexpiry hsettled)

end Pass

/-! ## A step -/

/-- Whom a line of `DATA` is passed on to. -/
def dataReceivers (raw : Str) (src : SocketAddr) (st : ServerMap) : List SocketAddr :=
  ((dataSender raw).bind fun senderName =>
    st.channels.findSome? fun x => x.2.2.forwardData senderName src).getD []

/-- What a request must be like for the datagrams it causes to fit. -/
def RequestFits (st : ServerMap) (amb : Ambient) (text : Str) (src : SocketAddr) :
    Request → Prop
  | .connect s c n natArg => JoinFits ((st.channel? s c).getD .default) amb n (.ofArg natArg) src
  | .disconnect s c n => ∀ ch, st.channel? s c = some ch → LeaveFits ch n src
  | .peerTimeout s c n => ∀ ch, st.channel? s c = some ch → ch.others n ≠ [] →
      userLeftSize n unknownAddr ≤ 2048
  | .requestRelay s c n => ∀ ch, st.channel? s c = some ch → ch.users ≠ [] →
      serverRelaySize n ≤ 2048
  | .data => dataReceivers text src st ≠ [] → byteLen text ≤ 2048
  | .natProbe | .pong | .hb _ _ _ | .unknown => True

/-- The same of a step. -/
def StepFits (st : ServerMap) : ServerStep → Prop
  | .message amb text src => RequestFits st amb text src (Request.ofText text)
  | .heartbeat now => ∀ s c ch, st.channel? s c = some ch → PassFits now ch
  | .relayout _ _ => True

section Step
variable {st : ServerMap} {amb : Ambient} {text : Str} {src : SocketAddr}

theorem allFit_dataSent :
    AllFit (dataSent text src st) ↔ (dataReceivers text src st ≠ [] → byteLen text ≤ 2048) := by
  have hsame : (∀ dst ∈ dataReceivers text src st, byteLen text ≤ 2048) ↔
      (dataReceivers text src st ≠ [] → byteLen text ≤ 2048) := forall_mem_const
  rw [dataSent_eq]
  exact List.forall_mem_map.trans hsame

/-- All that is sent on behalf of channels, and a line that is passed on. -/
theorem allFit_sent {l : ServerStep} : AllFit (st.sent l) ↔
    (∀ s c, AllFit (l.told s c (st.channel? s c))) ∧ ∀ amb text src, l = .message amb text src →
      Request.ofText text = .data → AllFit (dataSent text src st) := by
  constructor
  · exact fun h => ⟨fun s c d hd => h d (mem_sent_iff.mpr (Or.inl ⟨s, c, hd⟩)),
      fun amb text src hl hreq d hd =>
        h d (mem_sent_iff.mpr (Or.inr ⟨amb, text, src, hl, Or.inr ⟨hreq, hd⟩⟩))⟩
  · rintro ⟨htold, hdata⟩ d hd
    rcases mem_sent_iff.mp hd with ⟨s, c, hd⟩ | ⟨amb, text, src, hl, ⟨-, rfl⟩ | ⟨hreq, hd⟩⟩
    · exact htold s c d hd
    · exact allFit_natSeen src _ List.mem_cons_self
    · exact hdata amb text src hl hreq d hd

/-- What is sent on behalf of the one channel that a request names. -/
theorem allFit_told_iff {r : Request} {s c : Token} (told : Option Channel → List Datagram)
    (htold : ∀ s' c' o, r.told amb src s' c' o = if s' = s ∧ c' = c then told o else []) :
    (∀ s' c', AllFit (r.told amb src s' c' (st.channel? s' c'))) ↔
      AllFit (told (st.channel? s c)) := by
  constructor
  · intro h
    have hsc := h s c
    rwa [htold, if_pos ⟨rfl, rfl⟩] at hsc
  · intro h s' c'
    rw [htold]
    split_ifs with hsc
    · obtain ⟨rfl, rfl⟩ := hsc
      exact h
    · exact allFit_nil

theorem allFit_getD_map {o : Option Channel} {f : Channel → List Datagram} :
    AllFit ((o.map f).getD []) ↔ ∀ ch, o = some ch → AllFit (f ch) := by
  cases o with
  | none => exact iff_of_true allFit_nil fun ch h => absurd h (Option.some_ne_none ch).symm
  | some ch => exact ⟨fun h ch' hch => Option.some.inj hch ▸ h, fun h => h ch rfl⟩

theorem allFit_message :
    AllFit (st.sent (.message amb text src)) ↔
      RequestFits st amb text src (Request.ofText text) := by
  have hdata : (∀ amb' text' src', ServerStep.message amb text src = .message amb' text' src' →
      Request.ofText text' = .data → AllFit (dataSent text' src' st)) ↔
      (Request.ofText text = .data → AllFit (dataSent text src st)) := by
    constructor
    · exact fun h => h amb text src rfl
    · rintro h _ _ _ ⟨⟩
      exact h
  rw [allFit_sent, hdata]
  change (∀ s c, AllFit ((Request.ofText text).told amb src s c (st.channel? s c))) ∧ _ ↔ _
  cases hreq : Request.ofText text with
  | natProbe | pong | hb _ _ _ | unknown =>
      exact iff_of_true ⟨fun _ _ => allFit_nil, fun h => nomatch h⟩ trivial
  | data =>
      rw [forall_prop_of_true rfl, allFit_dataSent]
      exact and_iff_right fun _ _ => allFit_nil
  | connect s c n natArg =>
      refine (and_iff_left fun h => nomatch h).trans ((allFit_told_iff (fun o =>
        ((o.getD .default).connect amb n (.ofArg natArg) src).2) fun _ _ _ => rfl).trans ?_)
      exact allFit_connect amb _
  | disconnect s c n =>
      refine (and_iff_left fun h => nomatch h).trans ((allFit_told_iff (fun o =>
        (o.map fun ch => (ch.disconnect n src).2).getD []) fun _ _ _ => rfl).trans ?_)
      exact allFit_getD_map.trans (forall₂_congr fun ch _ => allFit_disconnect)
  | peerTimeout s c n =>
      refine (and_iff_left fun h => nomatch h).trans ((allFit_told_iff (fun o =>
        (o.map fun ch => (ch.peerTimeout n).2).getD []) fun _ _ _ => rfl).trans ?_)
      exact allFit_getD_map.trans (forall₂_congr fun ch _ => allFit_peerTimeout)
  | requestRelay s c n =>
      refine (and_iff_left fun h => nomatch h).trans ((allFit_told_iff (fun o =>
        (o.map (Channel.relayRequested n)).getD []) fun _ _ _ => rfl).trans ?_)
      exact allFit_getD_map.trans (forall₂_congr fun ch _ => allFit_relayRequested)

end Step

/-- **What a step sends fits**, exactly if the names do. -/
theorem stepFits_iff (st : ServerMap) (l : ServerStep) : AllFit (st.sent l) ↔ StepFits st l := by
  cases l with
  | message amb text src => exact allFit_message
  | relayout s c => exact iff_of_true allFit_nil trivial
  | heartbeat now =>
      rw [allFit_sent, and_iff_left fun _ _ _ h => nomatch h]
      exact forall₂_congr fun s c => allFit_getD_map.trans (forall₂_congr fun ch _ =>
        allFit_heartbeatTold)

/-- **Every datagram fits**, in a run whose steps all meet the condition, and in no
other. -/
theorem datagrams_fit_iff (ls : List ServerStep) :
    EachStep ServerMap.step (fun st l => ∀ d ∈ st.sent l, d.payload.length ≤ 2048) ∅ ls ↔
      EachStep ServerMap.step StepFits ∅ ls :=
  eachStep_congr stepFits_iff ∅ ls

/-- Ann and three others, one of them with a name of a thousand letters. -/
def longNamed : List ServerStep :=
  let home (n : UInt8) : SocketAddr := .v4 ⟨10, 0, 0, n⟩ 4000
  [.message ⟨0, 7⟩ "CONNECT s c ann CONE".toList (home 1),
    .message ⟨1, 8⟩ ("CONNECT s c ".toList ++ List.replicate 1010 'b') (home 2),
    .message ⟨2, 9⟩ "CONNECT s c carl CONE".toList (home 3),
    .message ⟨3, 10⟩ "CONNECT s c dave CONE".toList (home 4)]

/-- Ann, the relay, is silent for too long.  Each of the other two hears of the new
relay twice in one datagram, of 2074 bytes. -/
theorem datagrams_overflow_ann :
    ¬ ∀ ls : List ServerStep,
      (∀ amb text src, ServerStep.message amb text src ∈ ls → byteLen text ≤ 2048) →
      EachStep ServerMap.step (fun st l => ∀ d ∈ st.sent l, d.payload.length ≤ 2048) ∅ ls := by
  intro h
  have hlong : byteLen ("CONNECT s c ".toList ++ List.replicate 1010 'b') ≤ 2048 := by
    decide +kernel
  have hrun := h (longNamed ++ [.heartbeat (40 * 10 ^ 9 + 1)]) ?_
  · have hpass : ∀ d ∈ (after ServerMap.step ∅ longNamed).sent (.heartbeat (40 * 10 ^ 9 + 1)),
        d.payload.length ≤ 2048 := hrun.2.2.2.2.1
    revert hpass
    decide +kernel
  · intro amb text src hmem
    simp only [longNamed, List.cons_append, List.nil_append, List.mem_cons, List.not_mem_nil,
      or_false, ServerStep.message.injEq, reduceCtorEq] at hmem
    rcases hmem with ⟨-, rfl, -⟩ | ⟨-, rfl, -⟩ | ⟨-, rfl, -⟩ | ⟨-, rfl, -⟩
    · decide
    · exact hlong
    · decide
    · decide

/-! ## What fits arrives whole -/

section Buffers
variable {server : SocketAddr}

variable (server) in
/-- A datagram of the server arrives in a buffer of 2048 bytes. -/
def Joint.deliverCut (now : Instant) (o : Joint) (d : Datagram) : Joint :=
  o.deliver server now { d with payload := Signaling.received d.payload }

variable (server) in
def Joint.stepCut (o : Joint) (l : ServerStep) : Joint :=
  (o.map.sent l).foldl (Joint.deliverCut server (now l)) { o with map := o.map.step l }

theorem stepCut_eq {o : Joint} {l : ServerStep} (h : StepFits o.map l) :
    o.stepCut server l = o.step server l := by
  have hwhole := allFit_iff_received.mp ((stepFits_iff o.map l).mpr h)
  refine List.foldl_ext _ _ _ fun o d hd => ?_
  rw [Joint.deliverCut, hwhole d hd]

/-- **Whole datagrams.**  What is said of runs in which clients receive what the
server sends holds of clients with buffers, in every run whose steps fit: of
a directory, and of a party. -/
theorem after_stepCut (dir : Directory) (ls : List dir.Step)
    (h : EachStep (dir.step server) (fun o l => StepFits o.map l.1) .init ls) :
    after (fun o l => (o.boot l.1).stepCut server l.1) .init ls =
      after (dir.step server) .init ls :=
  after_eq_of_eachStep (fun o l hfits => stepCut_eq (by rwa [boot_map])) ls h

theorem after_setupCut (party : Party) (ls : List party.Setup)
    (h : EachStep party.step (fun o l => StepFits o.map l.1) party.init ls) :
    after (fun o l => o.stepCut party.server l.1) party.init ls =
      after party.step party.init ls :=
  after_eq_of_eachStep (fun _ _ hfits => stepCut_eq hfits) ls h

end Buffers

end NatPiercer.System
