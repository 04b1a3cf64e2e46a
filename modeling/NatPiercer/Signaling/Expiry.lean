/-
# `Signaling.Expiry` — what a pass makes of a channel

`process_channel_heartbeat` removes users from the vector that it goes
through, elects when the relay goes, elects again when whom it has elected
goes too, has a rule of its own for when one user is left, and looks once
more at the end.  What comes of it is simple all the same: the users that
have not expired, in their order (`expireLoop_users`); the relay there was,
or whom one election among the survivors would have found
(`heartbeat_election`); and one announcement for each that is gone
(`heartbeat_departures`).
-/
import Mathlib.Computability.StateTransition
import NatPiercer.Signaling.Departures
import NatPiercer.Signaling.Stability

namespace NatPiercer.Signaling

open Text Utf8 Net Proto LockProg

/-! ## Who is on record after a pass -/

/-- What the removals keep, once the relay that there was has gone: the relay is
whom an election would find, or the one user left. -/
def Channel.ElectedAnew (ch : Channel) : Prop :=
  ch.relay = sparedName ch.users ∨ ∃ u, ch.users = [u] ∧ ch.relay = some u.name

section Election
variable {now : Instant} {ch : Channel} {r u : User} {i : Nat}

/-- An election does not miss whom it would not have chosen. -/
theorem sparedName_others {n : Token} (hn : ch.WellNamed) (h : sparedName ch.users ≠ some n) :
    sparedName (ch.others n) = sparedName ch.users := by
  cases hfind : ch.users.find? fun u => !u.needsServerRelay with
  | none =>
      have hothers : (ch.others n).find? (fun u => !u.needsServerRelay) = none :=
        List.find?_eq_none.mpr fun v hv => List.find?_eq_none.mp hfind v (mem_others.mp hv).1
      unfold sparedName
      rw [hfind, hothers]
  | some v =>
      have hspared : sparedName ch.users = some v.name := by
        unfold sparedName
        rw [hfind, Option.map_some]
      have hne : v.name ≠ n := fun hname => h (hspared.trans (congrArg some hname))
      rw [hspared]
      exact sparedName_sublist hn List.filter_sublist
        (mem_others.mpr ⟨List.mem_of_find?_eq_some hfind, hne⟩) hspared

theorem electedAnew_handleTimedOutUser (hn : ch.WellNamed) (hu : ch.users[i]? = some u)
    (h : ch.relay = some u.name ∨ ch.ElectedAnew) :
    (handleTimedOutUser ch i u.name u.addr).1.ElectedAnew := by
  unfold Channel.ElectedAnew
  rw [handleTimedOutUser_relay, handleTimedOutUser_users, eraseIdx_eq_others hn hu]
  by_cases hr : ch.relay = some u.name
  · rw [if_pos hr]
    exact Or.inl rfl
  · rw [if_neg hr]
    rcases ho : ch.others u.name with _ | ⟨v, _ | ⟨w, rest⟩⟩
    · -- the last user has gone, and was not on record: nobody is
      have hsole : ch.users = [u] := by
        have hlen := congrArg List.length (eraseIdx_eq_others hn hu)
        obtain ⟨hi, hget⟩ := List.getElem?_eq_some_iff.mp hu
        rw [ho, List.length_eraseIdx_of_lt hi, List.length_nil] at hlen
        obtain ⟨x, hx⟩ := List.length_eq_one_iff.mp (show ch.users.length = 1 by omega)
        have hmem := List.mem_of_getElem? hu
        rw [hx, List.mem_singleton] at hmem
        rw [hx, hmem]
      rcases h.resolve_left hr with hspared | ⟨x, hx, hrelay⟩
      · refine Or.inl ?_
        rw [hsole] at hspared
        change ch.relay = none
        cases hneeds : u.needsServerRelay with
        | true => rw [hspared, sparedName, List.find?_cons_of_neg (by simp [hneeds])]; rfl
        | false => exact absurd (hspared.trans (sparedName_single hneeds)) hr
      · rw [hsole] at hx
        rw [(List.cons.inj hx).1] at hr
        exact absurd hrelay hr
    · exact Or.inr ⟨v, rfl, rfl⟩
    · rcases h.resolve_left hr with hspared | ⟨x, hx, -⟩
      · refine Or.inl ?_
        rw [← ho, sparedName_others hn (hspared ▸ hr), soleOr_of_length _ (by simp [ho]), hspared]
      · have hsub : (v :: w :: rest).length ≤ ch.users.length := by
          rw [← ho]
          exact List.length_filter_le _ _
        rw [hx] at hsub
        exact absurd hsub (by simp)

/-- The relay that has expired is succeeded, and so is whoever succeeds it and has
expired too. -/
theorem electedAnew_expire (hn : ch.WellNamed) (hr : r ∈ ch.users) (hrelay : ch.relay = some r.name)
    (hexp : r.expired now = true) : (ch.expire now).1.ElectedAnew := by
  have hloop : (ch.expire now).1.WellNamed ∧ ((r ∈ (ch.expire now).1.users ∧
      (ch.expire now).1.relay = some r.name) ∨ (ch.expire now).1.ElectedAnew) := by
    refine expire_induct now ch (Q := fun ch _ => ch.WellNamed ∧
      ((r ∈ ch.users ∧ ch.relay = some r.name) ∨ ch.ElectedAnew)) ⟨hn, Or.inl ⟨hr, hrelay⟩⟩
      fun ch' ns i u hQ hu _ _ => ?_
    obtain ⟨hn, hcases⟩ := hQ
    have husers := handleTimedOutUser_users ch' i u.name u.addr
    refine ⟨wellNamed_of_sublist hn (husers ▸ List.eraseIdx_sublist _ _), ?_⟩
    rcases hcases with ⟨hmem, hrelay⟩ | helected
    · by_cases hru : u = r
      · exact Or.inr (electedAnew_handleTimedOutUser hn hu (Or.inl (hru ▸ hrelay)))
      · have hne : r.name ≠ u.name := fun h =>
          hru (hn.eq_of_name (List.mem_of_getElem? hu) hmem h.symm)
        have hleft : r ∈ ch'.others u.name := mem_others.mpr ⟨hmem, hne⟩
        refine Or.inl ⟨?_, ?_⟩
        · rwa [husers, eraseIdx_eq_others hn hu]
        · rw [handleTimedOutUser_relay, eraseIdx_eq_others hn hu,
            if_neg fun h => hne (Option.some.inj (hrelay.symm.trans h))]
          exact soleOr_stays hrelay hleft rfl
    · exact Or.inr (electedAnew_handleTimedOutUser hn hu (Or.inr helected))
  rcases hloop.2 with ⟨hmem, -⟩ | helected
  · rw [expire_users] at hmem
    have hfresh := (List.mem_filter.mp hmem).2
    rw [hexp] at hfresh
    exact absurd hfresh Bool.false_ne_true
  · exact helected

/-- A single user is whom an election would find. -/
theorem settleSolo_relay (ch : Channel) :
    (settleSolo ch).1.relay = if ch.users.length = 1 then sparedName ch.users else ch.relay := by
  split_ifs with hlen
  · obtain ⟨u, hu⟩ := List.length_eq_one_iff.mp hlen
    rw [settleSolo_relay_of_single hu, hu]
    cases hneeds : u.needsServerRelay <;> simp [sparedName, hneeds]
  · rw [settleSolo_of_length hlen]

end Election

/-- **The election of a pass.**  Whoever is on record, and does not need the server,
is still on record if it has not expired; if it has, the first survivor is that
does not need the server, if there is one.  It does not matter how many expire
with it. -/
theorem heartbeat_election (now : Instant) (s c : Token) (ch : Channel) (r : User)
    (hn : ch.WellNamed) (hr : r ∈ ch.users) (hrelay : ch.relay = some r.name)
    (hneeds : r.needsServerRelay = false) :
    (processChannelHeartbeat now s c ch).1.relay =
      if r.expired now then
        ((ch.users.filter fun u => !u.expired now).find? fun u => !u.needsServerRelay).map User.name
      else some r.name := by
  change (settleSolo (ch.expire now).1).1.relay =
    if r.expired now then sparedName (ch.survivors now) else some r.name
  rw [settleSolo_relay, expire_users]
  cases hexp : r.expired now with
  | false =>
      rw [if_neg Bool.false_ne_true, keepsRelay_expire now hn hr hrelay hexp]
      split_ifs with hlen
      · obtain ⟨u, hu⟩ := List.length_eq_one_iff.mp hlen
        have hmem : r ∈ ch.survivors now := List.mem_filter.mpr ⟨hr, by rw [hexp]; rfl⟩
        rw [hu, List.mem_singleton] at hmem
        rw [hu, ← hmem, sparedName_single hneeds]
      · rfl
  | true =>
      rw [if_pos rfl]
      split_ifs with hlen
      · rfl
      · rcases electedAnew_expire hn hr hrelay hexp with hspared | ⟨u, hu, -⟩
        · rw [hspared, expire_users]
        · rw [expire_users] at hu
          exact absurd (congrArg List.length hu) hlen

/-- Ann goes, and Bob, whom her going has put on record, goes after her. -/
theorem heartbeat_election_dan :
    let ann : User := ⟨1, ⟨"ann".toList, by decide⟩, .v4 ⟨10, 0, 0, 1⟩ 4000, 0, false, .cone⟩
    let bob : User := ⟨2, ⟨"bob".toList, by decide⟩, .v4 ⟨10, 0, 0, 2⟩ 4000, 1, false, .cone⟩
    let dan : User :=
      ⟨3, ⟨"dan".toList, by decide⟩, .v4 ⟨10, 0, 0, 3⟩ 4000, 50 * 10 ^ 9, false, .cone⟩
    let ch : Channel := ⟨7, 4, [ann, bob, dan], some ann.name⟩
    (processChannelHeartbeat (50 * 10 ^ 9) ⟨"s".toList, by decide⟩ ⟨"c".toList, by decide⟩
      ch).1.relay = some dan.name := by
  intro ann bob dan ch
  rw [heartbeat_election (50 * 10 ^ 9) _ _ ch ann (by unfold Channel.WellNamed; decide)
    List.mem_cons_self rfl rfl]
  decide

/-! ## Who is announced -/

/-- One round of the loop over the users, at index `i`, with what has been queued
before; `none` when the index is at the end. -/
def expireRound (now : Instant) : Nat × Channel × List Notification →
    Option (Nat × Channel × List Notification)
  | (i, channel, notifications) =>
      match channel.users[i]? with
      | none => none
      | some user =>
          if user.expired now then
            let (channel, more) := handleTimedOutUser channel i user.name user.addr
            some (i, channel, notifications ++ more)
          else some (i + 1, channel, notifications)

/-- The notification says that a user of the name has left. -/
def Notification.SaysLeft (n : Token) (m : Notification) : Prop :=
  ∃ addr, m.2 = asBytes (userLeft n addr)

section Announcements
variable {now : Instant} {ch : Channel} {u : User} {n : Token} {i : Nat}

theorem expireRound_at_end (ns : List Notification) (hu : ch.users[i]? = none) :
    expireRound now (i, ch, ns) = none := by
  unfold expireRound
  dsimp only
  rw [hu]

theorem expireRound_of_expired (ns : List Notification) (hu : ch.users[i]? = some u)
    (hexp : u.expired now = true) :
    expireRound now (i, ch, ns) = some (i, (handleTimedOutUser ch i u.name u.addr).1,
      ns ++ (handleTimedOutUser ch i u.name u.addr).2) := by
  unfold expireRound
  dsimp only
  rw [hu]
  exact if_pos hexp

theorem expireRound_of_fresh (ns : List Notification) (hu : ch.users[i]? = some u)
    (hexp : ¬ u.expired now = true) : expireRound now (i, ch, ns) = some (i + 1, ch, ns) := by
  unfold expireRound
  dsimp only
  rw [hu]
  exact if_neg hexp

/-- The loop comes to its end, with what `expireLoop` returns. -/
theorem expireLoop_mem_eval : ∀ (todo i : Nat) (ch : Channel) (ns : List Notification),
    ch.users.length ≤ i + todo → ∃ j,
      (j, (expireLoop now todo i ch).1, ns ++ (expireLoop now todo i ch).2) ∈
        StateTransition.eval (expireRound now) (i, ch, ns)
  | 0, i, ch, ns, h => by
      have hend : ch.users[i]? = none := List.getElem?_eq_none_iff.mpr h
      rw [expireLoop, List.append_nil]
      exact ⟨i, StateTransition.mem_eval.mpr ⟨.refl, expireRound_at_end ns hend⟩⟩
  | todo + 1, i, ch, ns, h => by
      rw [expireLoop]
      cases hu : ch.users[i]? with
      | none =>
          dsimp only
          rw [List.append_nil]
          exact ⟨i, StateTransition.mem_eval.mpr ⟨.refl, expireRound_at_end ns hu⟩⟩
      | some u =>
          obtain ⟨hi, -⟩ := List.getElem?_eq_some_iff.mp hu
          dsimp only
          split_ifs with hexp
          · obtain ⟨j, hj⟩ := expireLoop_mem_eval todo i (handleTimedOutUser ch i u.name u.addr).1
              (ns ++ (handleTimedOutUser ch i u.name u.addr).2) (by
                rw [handleTimedOutUser_users, List.length_eraseIdx_of_lt hi]
                omega)
            rw [List.append_assoc,
              ← StateTransition.reaches_eval (.single (expireRound_of_expired ns hu hexp))] at hj
            exact ⟨j, hj⟩
          · obtain ⟨j, hj⟩ := expireLoop_mem_eval todo (i + 1) ch ns (by omega)
            rw [← StateTransition.reaches_eval (.single (expireRound_of_fresh ns hu hexp))] at hj
            exact ⟨j, hj⟩

/-- A text that begins with an `M` does not begin with `USER_LEFT`. -/
theorem not_saysLeft_of_head {m : Notification} {text : Str} (hm : m.2 = asBytes text)
    (hhead : text.head? = some 'M') : ¬ m.SaysLeft n := by
  rintro ⟨addr, hleft⟩
  have hother : (userLeft n addr).head? = some 'U' := rfl
  rw [asBytes_injective (hm.symm.trans hleft), hother] at hhead
  exact absurd (Option.some.inj hhead) (by decide)

/-- A payload of several lines begins as the first of them does. -/
theorem not_saysLeft_lines {dsts : List SocketAddr} {xs : List User} (f : User → Str)
    (hne : xs ≠ []) (hf : ∀ x, (f x).head? = some 'M') :
    ¬ Notification.SaysLeft n (dsts, xs.flatMap fun x => asBytes (f x)) := by
  refine not_saysLeft_of_head (asBytes_flatMap xs f) ?_
  obtain ⟨x, xs, rfl⟩ := List.exists_cons_of_ne_nil hne
  rw [List.flatMap_cons, List.head?_append, hf x]
  rfl

theorem not_saysLeft_handleRelayTimeout (ch : Channel) :
    ∀ m ∈ (handleRelayTimeout ch).2, ¬ m.SaysLeft n := by
  intro m hm
  unfold handleRelayTimeout at hm
  cases hpick : Heartbeat.pickEligibleRelay ch with
  | some newRelay =>
      rw [hpick] at hm
      dsimp only at hm
      generalize ch.users.filter (fun u => decide (u.name ≠ newRelay.name)) = peers at hm
      rcases List.mem_cons.mp hm with rfl | hm
      · exact not_saysLeft_of_head rfl rfl
      · rcases List.mem_append.mp hm with hm | hm
        · split_ifs at hm with hnone
          · exact absurd hm List.not_mem_nil
          · rw [List.mem_singleton.mp hm]
            exact not_saysLeft_lines (fun _ => modeDirect newRelay.name newRelay.addr)
              (fun h => hnone (by rw [h]; rfl)) fun _ => rfl
        · split_ifs at hm with hnone
          · exact absurd hm List.not_mem_nil
          · rw [List.mem_singleton.mp hm]
            exact not_saysLeft_lines (fun peer => modeDirect peer.name peer.addr)
              (fun h => hnone (by rw [h]; rfl)) fun _ => rfl
  | none =>
      rw [hpick] at hm
      dsimp only at hm
      split_ifs at hm with hnone
      · exact absurd hm List.not_mem_nil
      · rw [List.mem_singleton.mp hm]
        exact not_saysLeft_lines (fun u => modeServerRelay u.name)
          (fun h => hnone (by rw [h]; rfl)) fun _ => rfl

theorem not_saysLeft_settleSolo (ch : Channel) : ∀ m ∈ (settleSolo ch).2.2, ¬ m.SaysLeft n := by
  intro m hm
  unfold settleSolo at hm
  split at hm
  · split_ifs at hm
    · rw [List.mem_singleton.mp hm]
      exact not_saysLeft_of_head rfl rfl
    · exact absurd hm List.not_mem_nil
  · exact absurd hm List.not_mem_nil

/-- The addresses that a removal is announced to. -/
def Channel.bereaved (u : User) (ch : Channel) : List SocketAddr :=
  (ch.users.filter fun v => v.addr ≠ u.addr).map User.addr

/-- A removal is announced first, to whoever is at another address, and nothing
else that it queues is an announcement. -/
theorem handleTimedOutUser_told (ch : Channel) (i : Nat) (u : User) :
    ∃ modes, (handleTimedOutUser ch i u.name u.addr).2 =
        (if (ch.bereaved u).isEmpty then []
          else [(ch.bereaved u, asBytes (userLeft u.name u.addr.token))]) ++ modes ∧
      ∀ m ∈ modes, ∀ n, ¬ m.SaysLeft n := by
  unfold handleTimedOutUser
  dsimp only
  by_cases hr : ch.relay = some u.name
  · rw [if_pos (by simpa using hr)]
    exact ⟨_, rfl, fun m hm n => not_saysLeft_handleRelayTimeout _ m hm⟩
  · rw [if_neg (by simpa using hr)]
    rcases ch.users.eraseIdx i with _ | ⟨v, _ | ⟨w, users⟩⟩
    · exact ⟨[], (List.append_nil _).symm, fun m hm => absurd hm List.not_mem_nil⟩
    · refine ⟨_, rfl, fun m hm n => ?_⟩
      rw [List.mem_singleton.mp hm]
      exact not_saysLeft_of_head rfl rfl
    · exact ⟨[], (List.append_nil _).symm, fun m hm => absurd hm List.not_mem_nil⟩

theorem saysLeft_userLeft {dsts : List SocketAddr} {m addr : Token}
    (h : Notification.SaysLeft n (dsts, asBytes (userLeft m addr))) : n = m := by
  obtain ⟨addr', hpayload⟩ := h
  have hwords := congrArg splitWhitespace (asBytes_injective hpayload)
  rw [userLeft, userLeft, splitWhitespace_line, splitWhitespace_line] at hwords
  exact (List.cons.inj (List.cons.inj hwords).2).1.symm

/-- Nobody but the user that is removed is announced. -/
theorem not_saysLeft_handleTimedOutUser (ch : Channel) (i : Nat) (hne : n ≠ u.name) :
    ∀ m ∈ (handleTimedOutUser ch i u.name u.addr).2, ¬ m.SaysLeft n := by
  obtain ⟨modes, htold, hmodes⟩ := handleTimedOutUser_told ch i u
  intro m hm hleft
  rw [htold] at hm
  rcases List.mem_append.mp hm with hm | hm
  · split_ifs at hm
    · exact absurd hm List.not_mem_nil
    · rw [List.mem_singleton.mp hm] at hleft
      exact hne (saysLeft_userLeft hleft)
  · exact hmodes m hm n hleft

/-- There is one announcement of `u`, to `dsts`; or none, if that is nobody. -/
def AnnouncedOnce (u : User) (dsts : List SocketAddr) (ns : List Notification) : Prop :=
  if dsts = [] then ∀ m ∈ ns, ¬ m.SaysLeft u.name
  else ∃ earlier later, ns = earlier ++ (dsts, asBytes (userLeft u.name u.addr.token)) :: later ∧
    ∀ m ∈ earlier ++ later, ¬ m.SaysLeft u.name

theorem AnnouncedOnce.append {dsts : List SocketAddr} {ns more : List Notification}
    (h : AnnouncedOnce u dsts ns) (hmore : ∀ m ∈ more, ¬ m.SaysLeft u.name) :
    AnnouncedOnce u dsts (ns ++ more) := by
  unfold AnnouncedOnce at h ⊢
  split_ifs at h ⊢
  · exact fun m hm => (List.mem_append.mp hm).elim (h m) (hmore m)
  · obtain ⟨earlier, later, rfl, hothers⟩ := h
    refine ⟨earlier, later ++ more, by rw [List.append_assoc, List.cons_append], fun m hm => ?_⟩
    rw [← List.append_assoc] at hm
    exact (List.mem_append.mp hm).elim (hothers m) (hmore m)

/-- The removal of `u` announces it. -/
theorem announcedOnce_handleTimedOutUser (ch : Channel) (i : Nat) {ns : List Notification}
    (hns : ∀ m ∈ ns, ¬ m.SaysLeft u.name) :
    AnnouncedOnce u (ch.bereaved u) (ns ++ (handleTimedOutUser ch i u.name u.addr).2) := by
  obtain ⟨modes, htold, hmodes⟩ := handleTimedOutUser_told ch i u
  rw [htold, ← List.append_assoc]
  refine AnnouncedOnce.append ?_ fun m hm => hmodes m hm u.name
  unfold AnnouncedOnce
  cases hdsts : ch.bereaved u with
  | nil =>
      rw [if_pos rfl]
      simpa using hns
  | cons dst dsts =>
      rw [if_neg (List.cons_ne_nil _ _)]
      exact ⟨ns, [], rfl, by simpa using hns⟩

/-- What the loop keeps of a user that has expired and stands between `before` and
`after`: it is there, and what is left before it has its survivors; or it is
gone, and has been announced to those survivors and to `after`. -/
def Awaiting (now : Instant) (u : User) (before after : List User) (ch : Channel)
    (ns : List Notification) : Prop :=
  (∃ pre, ch.users = pre ++ u :: after ∧
      pre.filter (fun v => !v.expired now) = before.filter (fun v => !v.expired now) ∧
      ∀ m ∈ ns, ¬ m.SaysLeft u.name) ∨
    (∀ v ∈ ch.users, v.name ≠ u.name) ∧
      AnnouncedOnce u (((before.filter (fun v => !v.expired now) ++ after).filter
        fun v => v.addr ≠ u.addr).map User.addr) ns

/-- The others have other names. -/
theorem name_ne_of_middle {pre after : List User} {v : User} (hn : ch.WellNamed)
    (husers : ch.users = pre ++ u :: after) (hv : v ∈ pre ++ after) : v.name ≠ u.name := by
  rw [Channel.WellNamed, husers, List.map_append, List.map_cons, List.nodup_middle,
    ← List.map_append, List.nodup_cons] at hn
  exact fun h => hn.1 (List.mem_map.mpr ⟨v, hv, h⟩)

theorem filter_eraseIdx {α : Type} {p : α → Bool} {xs : List α} {x : α} {i : Nat}
    (hx : xs[i]? = some x) (hp : p x = false) : (xs.eraseIdx i).filter p = xs.filter p := by
  obtain ⟨hi, rfl⟩ := List.getElem?_eq_some_iff.mp hx
  conv_rhs => rw [← List.take_append_drop i xs, List.drop_eq_getElem_cons hi, List.filter_append,
    List.filter_cons_of_neg (by rw [hp]; exact Bool.false_ne_true)]
  rw [List.eraseIdx_eq_take_drop_succ, List.filter_append]

theorem awaiting_handleTimedOutUser {before after : List User} {ns : List Notification} {w : User}
    (hn : ch.WellNamed) (hexp : u.expired now = true) (h : Awaiting now u before after ch ns)
    (hw : ch.users[i]? = some w) (hwexp : w.expired now = true)
    (hfresh : ∀ v ∈ ch.users.take i, v.expired now = false) :
    Awaiting now u before after (handleTimedOutUser ch i w.name w.addr).1
      (ns ++ (handleTimedOutUser ch i w.name w.addr).2) := by
  have husers := handleTimedOutUser_users ch i w.name w.addr
  rcases h with ⟨pre, hpre, hfilter, hns⟩ | ⟨hgone, honce⟩
  · rw [hpre] at hw hfresh husers
    rcases Nat.lt_trichotomy i pre.length with hlt | rfl | hgt
    · -- somebody before `u`
      rw [List.getElem?_append_left hlt] at hw
      rw [List.eraseIdx_append_of_lt_length hlt] at husers
      have hne : w.name ≠ u.name :=
        name_ne_of_middle hn hpre (List.mem_append_left _ (List.mem_of_getElem? hw))
      refine Or.inl ⟨_, husers, ?_, fun m hm => ?_⟩
      · rw [filter_eraseIdx hw (by rw [hwexp]; rfl), hfilter]
      · exact (List.mem_append.mp hm).elim (hns m)
          (not_saysLeft_handleTimedOutUser ch i hne.symm m)
    · -- `u` itself, and everybody before it is a survivor
      rw [List.getElem?_append_right (Nat.le_refl _), Nat.sub_self, List.getElem?_cons_zero] at hw
      obtain rfl := Option.some.inj hw
      rw [List.eraseIdx_append_of_length_le (Nat.le_refl _), Nat.sub_self, List.eraseIdx_cons_zero]
        at husers
      rw [List.take_left' rfl] at hfresh
      have hall : pre.filter (fun v => !v.expired now) = pre :=
        List.filter_eq_self.mpr fun v hv => by rw [hfresh v hv]; rfl
      refine Or.inr ⟨fun v hv => name_ne_of_middle hn hpre (husers ▸ hv), ?_⟩
      have hdsts : ch.bereaved u = ((before.filter (fun v => !v.expired now) ++ after).filter
          fun v => v.addr ≠ u.addr).map User.addr := by
        unfold Channel.bereaved
        rw [← hfilter, hall, hpre, List.filter_append, List.filter_append,
          List.filter_cons_of_neg (by simp)]
      rw [← hdsts]
      exact announcedOnce_handleTimedOutUser ch pre.length hns
    · -- nobody after `u`, before which the loop has not come
      have hmem : u ∈ (pre ++ u :: after).take i := List.mem_take_iff_getElem.mpr
        ⟨pre.length, by simp [hgt], by simp⟩
      rw [hfresh u hmem] at hexp
      exact absurd hexp Bool.false_ne_true
  · have hne : u.name ≠ w.name := (hgone w (List.mem_of_getElem? hw)).symm
    refine Or.inr ⟨fun v hv => ?_, honce.append (not_saysLeft_handleTimedOutUser ch i hne)⟩
    rw [husers] at hv
    exact hgone v (List.mem_of_mem_eraseIdx hv)

/-- What the loop has announced when it is over. -/
theorem announcedOnce_expire {before after : List User} (hn : ch.WellNamed)
    (husers : ch.users = before ++ u :: after) (hexp : u.expired now = true) :
    AnnouncedOnce u (((before.filter (fun v => !v.expired now) ++ after).filter
      fun v => v.addr ≠ u.addr).map User.addr) (ch.expire now).2 := by
  have hloop := expire_induct now ch
    (Q := fun ch ns => ch.WellNamed ∧ Awaiting now u before after ch ns)
    ⟨hn, Or.inl ⟨before, husers, rfl, fun _ hm => absurd hm List.not_mem_nil⟩⟩
    fun ch' ns i w hQ hw hwexp hfresh =>
      ⟨wellNamed_of_sublist hQ.1 (handleTimedOutUser_users ch' i w.name w.addr ▸
        List.eraseIdx_sublist _ _), awaiting_handleTimedOutUser hQ.1 hexp hQ.2 hw hwexp hfresh⟩
  rcases hloop.2 with ⟨pre, hpre, -⟩ | ⟨-, honce⟩
  · have hmem : u ∈ ch.survivors now := by
      rw [← expire_users, hpre]
      exact List.mem_append_right _ List.mem_cons_self
    have hfresh := (List.mem_filter.mp hmem).2
    rw [hexp] at hfresh
    exact absurd hfresh Bool.false_ne_true
  · exact honce

/-- Nobody is announced who has not expired. -/
theorem not_saysLeft_expire (hnobody : ∀ v ∈ ch.users, v.expired now = true → v.name ≠ n) :
    ∀ m ∈ (ch.expire now).2, ¬ m.SaysLeft n := by
  refine (expire_induct now ch (Q := fun ch' ns => (∀ v ∈ ch'.users, v ∈ ch.users) ∧
    ∀ m ∈ ns, ¬ m.SaysLeft n) ⟨fun _ hv => hv, fun _ hm => absurd hm List.not_mem_nil⟩
    fun ch' ns i w hQ hw hwexp _ => ⟨fun v hv => ?_, fun m hm => ?_⟩).2
  · rw [handleTimedOutUser_users] at hv
    exact hQ.1 v (List.mem_of_mem_eraseIdx hv)
  · have hne : n ≠ w.name := (hnobody w (hQ.1 w (List.mem_of_getElem? hw)) hwexp).symm
    exact (List.mem_append.mp hm).elim (hQ.2 m) (not_saysLeft_handleTimedOutUser ch' i hne m)

end Announcements

/-- **The departures of a pass.**  The loop comes to its end.  The users are those
that have not expired, as they were.  No survivor is announced as gone; and
whoever is gone is announced once, to every survivor at another address at
least, and is not announced only if nobody at another address was left. -/
theorem heartbeat_departures (now : Instant) (s c : Token) (ch : Channel) (hn : ch.WellNamed) :
    (∃ j, (j, ch.expire now) ∈ StateTransition.eval (expireRound now) (0, ch, [])) ∧
    (processChannelHeartbeat now s c ch).1.users = ch.users.filter (fun u => !u.expired now) ∧
    (∀ v ∈ (processChannelHeartbeat now s c ch).1.users,
      ∀ m ∈ (processChannelHeartbeat now s c ch).2.notifications, ¬ m.SaysLeft v.name) ∧
    ∀ before u after, ch.users = before ++ u :: after → u.expired now = true →
      ∃ dsts, AnnouncedOnce u dsts (processChannelHeartbeat now s c ch).2.notifications ∧
        (∀ v ∈ (processChannelHeartbeat now s c ch).1.users, v.addr ≠ u.addr → v.addr ∈ dsts) ∧
        (dsts = [] →
          ∀ v ∈ before.filter (fun v => !v.expired now) ++ after, v.addr = u.addr) := by
  have husers : (processChannelHeartbeat now s c ch).1.users = ch.survivors now :=
    expireAndSettle_users ch
  have htold : (processChannelHeartbeat now s c ch).2.notifications =
      (ch.expire now).2 ++ (settleSolo (ch.expire now).1).2.2 := rfl
  rw [husers, htold]
  refine ⟨?_, rfl, fun v hv m hm => ?_, fun before u after hu hexp => ?_⟩
  · exact expireLoop_mem_eval ch.users.length 0 ch [] (by omega)
  · obtain ⟨hmem, hfresh⟩ := List.mem_filter.mp hv
    have hnobody : ∀ w ∈ ch.users, w.expired now = true → w.name ≠ v.name := by
      intro w hw hwexp hname
      rw [← hn.eq_of_name hw hmem hname, hwexp] at hfresh
      exact absurd hfresh Bool.false_ne_true
    exact (List.mem_append.mp hm).elim (not_saysLeft_expire hnobody m)
      (not_saysLeft_settleSolo _ m)
  · refine ⟨_, (announcedOnce_expire hn hu hexp).append (not_saysLeft_settleSolo _),
      fun v hv haddr => ?_, fun hnone v hv => ?_⟩
    · refine List.mem_map_of_mem (List.mem_filter.mpr ⟨?_, decide_eq_true haddr⟩)
      obtain ⟨hmem, hfresh⟩ := List.mem_filter.mp hv
      rw [hu] at hmem
      rcases List.mem_append.mp hmem with hmem | hmem
      · exact List.mem_append_left _ (List.mem_filter.mpr ⟨hmem, hfresh⟩)
      · rcases List.mem_cons.mp hmem with rfl | hmem
        · exact absurd rfl haddr
        · exact List.mem_append_right _ hmem
    · have hnobody := List.filter_eq_nil_iff.mp (List.map_eq_nil_iff.mp hnone) v hv
      simpa using hnobody

/-- Ann has gone: Bob, who has not, is told so. -/
theorem heartbeat_departures_ann :
    let ann : User := ⟨1, ⟨"ann".toList, by decide⟩, .v4 ⟨10, 0, 0, 1⟩ 4000, 0, false, .cone⟩
    let bob : User :=
      ⟨2, ⟨"bob".toList, by decide⟩, .v4 ⟨10, 0, 0, 2⟩ 4000, 50 * 10 ^ 9, false, .cone⟩
    let ch : Channel := ⟨7, 3, [ann, bob], some ann.name⟩
    ∃ dsts, AnnouncedOnce ann dsts (processChannelHeartbeat (50 * 10 ^ 9)
      ⟨"s".toList, by decide⟩ ⟨"c".toList, by decide⟩ ch).2.notifications ∧ bob.addr ∈ dsts := by
  intro ann bob ch
  obtain ⟨dsts, honce, htold, -⟩ := (heartbeat_departures (50 * 10 ^ 9) ⟨"s".toList, by decide⟩
    ⟨"c".toList, by decide⟩ ch (by unfold Channel.WellNamed; decide)).2.2.2 [] ann [bob] rfl rfl
  exact ⟨dsts, honce, htold bob (by decide) (by decide)⟩

end NatPiercer.Signaling
