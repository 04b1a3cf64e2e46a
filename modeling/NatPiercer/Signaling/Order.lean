/-
# `Signaling.Order` — the recorded relay is the first that can be

The elections take the first user in the list that can be the relay.  Users
join at the end of the list, nothing changes their order, and nobody who
needs the server ceases to need it.  So a recorded relay that does not need
the server is, in every reachable state, the first user that does not: the
next election finds it again.

Both pickers, the one of the handlers and the one of the heartbeat, come to
the same: a user behind a symmetric NAT is marked as needing the server from
the start.
-/
import NatPiercer.Signaling.ChannelCases

namespace NatPiercer.Signaling

open Text Utf8 Net Proto LockProg

/-- The invariant. -/
structure Channel.InOrder (ch : Channel) : Prop where
  wellNamed : ch.WellNamed
  symmetric : ∀ u ∈ ch.users, u.natKind = .symmetric → u.needsServerRelay = true
  first : ∀ u ∈ ch.users, ch.relay = some u.name → u.needsServerRelay = false →
    sparedName ch.users = some u.name

/-! ## The first of a list -/

section First
variable {α : Type} {p q : α → Bool} {x : α}

theorem find?_congr_mem : ∀ {xs : List α}, (∀ y ∈ xs, p y = q y) → xs.find? p = xs.find? q
  | [], _ => rfl
  | y :: ys, h => by
      rw [List.find?_cons, List.find?_cons, h y List.mem_cons_self,
        find?_congr_mem fun z hz => h z (List.mem_cons_of_mem _ hz)]

/-- What is found first is found first among fewer. -/
theorem find?_of_imp {xs : List α} (h : xs.find? q = some x) (hp : p x = true)
    (himp : ∀ y, p y = true → q y = true) : xs.find? p = some x := by
  obtain ⟨hq, as, bs, rfl, hbefore⟩ := List.find?_eq_some_iff_append.mp h
  refine List.find?_eq_some_iff_append.mpr ⟨hp, as, bs, rfl, fun y hy => ?_⟩
  have hnot : q y = false := by simpa using hbefore y hy
  cases hpy : p y with
  | false => rfl
  | true => rw [himp y hpy] at hnot; exact absurd hnot (by decide)

theorem find?_of_sublist {xs ys : List α} (hs : xs.Sublist ys) (hn : ys.Nodup) (hx : x ∈ xs)
    (h : ys.find? q = some x) : xs.find? q = some x := by
  induction hs with
  | slnil => exact absurd hx List.not_mem_nil
  | @cons xs ys y hs ih =>
      rw [List.nodup_cons] at hn
      rw [List.find?_cons] at h
      cases hy : q y with
      | true =>
          rw [hy] at h
          obtain rfl := Option.some.inj h
          exact absurd (hs.subset hx) hn.1
      | false =>
          rw [hy] at h
          exact ih hn.2 hx h
  | @cons_cons xs ys y hs ih =>
      rw [List.nodup_cons] at hn
      rw [List.find?_cons] at h ⊢
      cases hy : q y with
      | true =>
          rw [hy] at h
          exact h
      | false =>
          rw [hy] at h
          refine ih hn.2 ?_ h
          rcases List.mem_cons.mp hx with rfl | hx
          · have := List.find?_some h
            rw [hy] at this
            exact absurd this (by decide)
          · exact hx

end First

section Names
variable {ch ch' : Channel} {users : List User} {u : User}

theorem eligible_eq (h : u.natKind = .symmetric → u.needsServerRelay = true) :
    u.eligible = !u.needsServerRelay := by
  unfold User.eligible
  cases hneeds : u.needsServerRelay with
  | true => rfl
  | false =>
      have hnat : u.natKind ≠ .symmetric := fun hsym => by simp [h hsym] at hneeds
      simp [hnat]

/-- The two pickers agree. -/
theorem electedName_eq (h : ∀ u ∈ users, u.natKind = .symmetric → u.needsServerRelay = true) :
    electedName users = sparedName users := by
  unfold electedName sparedName
  rw [find?_congr_mem fun u hu => eligible_eq (h u hu)]

/-- The first of the name is the user itself. -/
theorem find?_of_sparedName (hn : (users.map User.name).Nodup) (hu : u ∈ users)
    (h : sparedName users = some u.name) :
    users.find? (fun u => !u.needsServerRelay) = some u := by
  obtain ⟨v, hv, hname⟩ := Option.map_eq_some_iff.mp h
  rw [hv, List.inj_on_of_nodup_map hn (List.mem_of_find?_eq_some hv) hu hname]

theorem sparedName_sublist (hn : (ch.users.map User.name).Nodup) (hs : users.Sublist ch.users)
    (hu : u ∈ users) (h : sparedName ch.users = some u.name) : sparedName users = some u.name := by
  have hfind := find?_of_sublist hs (hn.of_map) hu (find?_of_sparedName hn (hs.subset hu) h)
  rw [sparedName, hfind, Option.map_some]

theorem sparedName_single (h : u.needsServerRelay = false) : sparedName [u] = some u.name := by
  simp [sparedName, h]

end Names

/-! ## What keeps the order -/

section Steps
variable {ch ch' : Channel} {n : Token} {src : SocketAddr}

/-- Fewer users, and, unless there is only one, a relay that is elected anew or
the one before. -/
theorem inOrder_of_sublist (h : ch.InOrder) (hs : ch'.users.Sublist ch.users)
    (hr : ch'.users.length ≠ 1 → ch'.relay = sparedName ch'.users ∨ ch'.relay = ch.relay) :
    ch'.InOrder where
  wellNamed := wellNamed_of_sublist h.wellNamed hs
  symmetric u hu := h.symmetric u (hs.subset hu)
  first u hu hrelay hneeds := by
    by_cases hlen : ch'.users.length = 1
    · obtain ⟨v, hv⟩ := List.length_eq_one_iff.mp hlen
      rw [hv] at hu ⊢
      rw [List.mem_singleton.mp hu] at hneeds ⊢
      exact sparedName_single hneeds
    · rcases hr hlen with hr | hr
      · rw [← hr, hrelay]
      · exact sparedName_sublist h.wellNamed hs hu
          (h.first u (hs.subset hu) (hr ▸ hrelay) hneeds)

theorem inOrder_standing (h : SameStanding ch ch') (ho : ch.InOrder) : ch'.InOrder where
  wellNamed := h.wellNamed ho.wellNamed
  symmetric u hu := by
    obtain ⟨v, hv, hvu⟩ := h.user hu
    rw [← hvu.2.2.1, ← hvu.2.2.2]
    exact ho.symmetric v hv
  first u hu hr hneeds := by
    obtain ⟨v, hv, hvu⟩ := h.user hu
    have hname : ∀ users : List User, sparedName users =
        ((users.map User.standing).find? fun x => !x.2.2.1).map Prod.fst := by
      intro users
      rw [List.find?_map, Option.map_map]
      rfl
    rw [hname, h.1, ← hname, ← hvu.1]
    exact ho.first v hv (by rw [hvu.1, ← h.2, hr]) (hvu.2.2.1.trans hneeds)

theorem symmetric_joined (amb : Ambient) (nat : NatKind)
    (hnew : ∀ x ∈ ch.users, x.isSession n src = false)
    (h : ∀ u ∈ ch.users, u.natKind = .symmetric → u.needsServerRelay = true) :
    ∀ u ∈ (ch.joined amb n nat src).users, u.natKind = .symmetric →
      u.needsServerRelay = true := by
  intro u hu hsym
  rw [joined_users amb nat hnew] at hu
  rcases List.mem_append.mp hu with hu | hu
  · exact h u (mem_others.mp hu).1 hsym
  · rw [List.mem_singleton.mp hu] at hsym ⊢
    exact decide_eq_true hsym

/-- When somebody else joins, a relay that does not need the server is elected
again. -/
theorem electedName_joined {u : User} (amb : Ambient) (nat : NatKind) (ho : ch.InOrder)
    (hnew : ∀ x ∈ ch.users, x.isSession n src = false) (hne : u.name ≠ n)
    (hu : u ∈ ch.users) (hr : ch.relay = some u.name) (hneeds : u.needsServerRelay = false) :
    electedName (ch.joined amb n nat src).users = some u.name := by
  have hfirst := find?_of_sparedName ho.wellNamed hu (ho.first u hu hr hneeds)
  have hothers : (ch.others n).find? (fun u => !u.needsServerRelay) = some u :=
    find?_of_sublist List.filter_sublist ho.wellNamed.of_map (mem_others.mpr ⟨hu, hne⟩) hfirst
  rw [electedName_eq (symmetric_joined _ _ hnew ho.symmetric), sparedName,
    joined_users amb nat hnew, List.find?_append, hothers]
  rfl

theorem inOrder_connect (ho : ch.InOrder) (amb : Ambient) (nat : NatKind) :
    (ch.connect amb n nat src).1.InOrder := by
  have hwell := wellNamed_connect ho.wellNamed amb n nat src
  rcases session_or_new n src ch with h | hnew
  · exact inOrder_standing (connect_of_session _ _ h).1 ho
  · by_cases hothers : ch.others n = []
    · obtain ⟨husers, -, -⟩ := connect_lone amb nat hnew hothers
      rw [Channel.WellNamed] at hwell
      refine ⟨hwell, ?_, ?_⟩
      all_goals
        rw [husers]
        intro u hu
        rw [List.mem_singleton.mp hu]
      · exact decide_eq_true
      · exact fun _ hneeds => sparedName_single hneeds
    · have helect := (connect_elect amb nat hnew hothers).1
      have hsym := symmetric_joined amb nat hnew ho.symmetric
      rw [helect] at hwell ⊢
      refine ⟨hwell, ?_, ?_⟩
      · rwa [elect_users]
      · intro u _ hr _
        rw [elect_relay, electedName_eq hsym] at hr
        rwa [elect_users]

/-- The user of that name comes to need the server. -/
theorem requestRelay_users (hn : ch.WellNamed) : (ch.requestRelay n).users =
    ch.users.map fun u => if u.name = n then { u with needsServerRelay := true } else u := by
  have hmap := Vec.modifyFirst_eq_map (p := fun u : User => decide (u.name = n))
    (f := fun u => { u with needsServerRelay := true }) (g := User.name) (k := n)
    (fun u hu => of_decide_eq_true hu) hn
  unfold Channel.requestRelay
  rw [hmap]
  simp only [decide_eq_true_eq]

/-- It is passed over, and nobody comes before another for that. -/
theorem inOrder_requestRelay (ho : ch.InOrder) : (ch.requestRelay n).InOrder := by
  have husers := requestRelay_users (n := n) ho.wellNamed
  refine ⟨?_, ?_, ?_⟩
  · rw [Channel.WellNamed, map_name_requestRelay]
    exact ho.wellNamed
  · rw [husers]
    intro u hu hsym
    obtain ⟨v, hv, rfl⟩ := List.mem_map.mp hu
    split_ifs at hsym ⊢ with hname
    · rfl
    · exact ho.symmetric v hv hsym
  · rw [husers]
    intro u hu hr hneeds
    obtain ⟨v, hv, rfl⟩ := List.mem_map.mp hu
    split_ifs at hr hneeds ⊢ with hname
    -- `v` keeps its standing, and was found before
    have hfind := find?_of_sparedName ho.wellNamed hv (ho.first v hv hr hneeds)
    unfold sparedName
    rw [List.find?_map, Option.map_map, find?_of_imp hfind]
    · simp [hname]
    · simp [hname, hneeds]
    · intro y hy
      rw [Function.comp_apply] at hy
      split_ifs at hy with hyn
      · exact absurd hy Bool.false_ne_true
      · exact hy

theorem inOrder_handleTimedOutUser (ho : ch.InOrder) (i : Nat) (u : User) :
    (handleTimedOutUser ch i u.name u.addr).1.InOrder := by
  have husers := handleTimedOutUser_users ch i u.name u.addr
  have hrelay := handleTimedOutUser_relay ch i u.name u.addr
  refine inOrder_of_sublist ho (husers ▸ List.eraseIdx_sublist ch.users i) fun hlen => ?_
  rw [husers] at hlen
  rw [hrelay, husers, soleOr_of_length _ hlen]
  split_ifs
  · exact Or.inl rfl
  · exact Or.inr rfl

theorem inOrder_heartbeat {now : Instant} (ho : ch.InOrder) (h : ch.heartbeat now = some ch') :
    ch'.InOrder := by
  obtain ⟨husers, ⟨u, hu, -⟩ | ⟨-, rfl⟩⟩ := heartbeat_eq_some h
  · refine inOrder_of_sublist ho (husers ▸ List.filter_sublist) fun hlen => ?_
    rw [husers, hu] at hlen
    exact absurd rfl hlen
  · exact expire_induct _ ch (Q := fun ch _ => ch.InOrder) ho
      fun _ _ i u hQ _ _ _ => inOrder_handleTimedOutUser hQ i u

theorem inOrder_disconnect (ho : ch.InOrder) : (ch.disconnect n src).1.InOrder := by
  rcases session_or_new n src ch with h | habsent
  · obtain ⟨husers, hrelay⟩ := disconnect_of_session ho.wellNamed h
    have hsub : (ch.others n).Sublist ch.users := List.filter_sublist
    have hsym : ∀ u ∈ ch.others n, u.natKind = .symmetric → u.needsServerRelay = true :=
      fun u hu => ho.symmetric u (hsub.subset hu)
    refine inOrder_of_sublist ho (husers ▸ hsub) fun hlen => ?_
    rw [husers] at hlen
    rw [hrelay, husers, soleOr_of_length _ hlen, electedName_eq hsym]
    split_ifs
    · exact Or.inl rfl
    · exact Or.inr rfl
  · rw [disconnect_of_absent habsent]
    exact ho

theorem inOrder_default : Channel.default.InOrder :=
  ⟨wellNamed_default, fun _ hu => absurd hu List.not_mem_nil,
    fun _ hu => absurd hu List.not_mem_nil⟩

theorem Change.inOrder {l : ServerStep} {s c : Token} {o : Option Channel}
    (h : Change l s c o ch') (ho : ∀ ch, o = some ch → ch.InOrder) : ch'.InOrder := by
  cases h with
  | standing h => exact inOrder_standing h (ho _ rfl)
  | connect hl hreq =>
      refine inOrder_connect ?_ _ _
      cases o with
      | none => exact inOrder_default
      | some ch => exact ho ch rfl
  | evict hl hreq hc =>
      exact inOrder_of_sublist (ho _ rfl) List.filter_sublist fun _ => Or.inr rfl
  | disconnect hl hreq => exact inOrder_disconnect (ho _ rfl)
  | @peerTimeout amb text src n ch hl hreq =>
      have husers := removePeer_users n ch
      refine inOrder_of_sublist (ho ch rfl) (husers ▸ List.filter_sublist) fun hlen => ?_
      rw [husers] at hlen
      rw [removePeer_relay, soleOr_of_length _ hlen]
      exact Or.inr rfl
  | requestRelay hl hreq => exact inOrder_requestRelay (ho _ rfl)
  | heartbeat hl h => exact inOrder_heartbeat (ho _ rfl) h

end Steps

/-- In every reachable state the channels are in order. -/
theorem inOrder_step {st : ServerMap} (l : ServerStep) (h : Everywhere Channel.InOrder st) :
    Everywhere Channel.InOrder (st.step l) :=
  everywhere_step.mpr fun s c _ hch => (change_of_effect hch).inOrder (h s c)

end NatPiercer.Signaling
