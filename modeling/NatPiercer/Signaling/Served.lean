/-
# `Signaling.Served` — is a relay missing that could be there?

`relay` is written `None` in five places.  Each of them has looked whether
somebody can be the relay, at the NAT kind, at `needs_server_relay`, or at
both; whoever is eligible passes either test.  And nobody becomes eligible
who was not: `needs_server_relay` is only ever set, and the NAT kind stays
what the first `CONNECT` of a session said.

So a channel that has an eligible user has a relay on record
(`served_of_reachable`).
-/
import NatPiercer.Signaling.ChannelCases

namespace NatPiercer.Signaling

open Text Utf8 Net Proto LockProg

/-- If nobody is on record, nobody can be. -/
def Channel.Served (ch : Channel) : Prop :=
  ch.relay = none → ∀ u ∈ ch.users, u.eligible = false

/-! ## Who is passed over -/

section Elections
variable {users : List User} {u : User}

theorem not_eligible_of_needs (h : u.needsServerRelay = true) : u.eligible = false := by
  rw [User.eligible, h]
  rfl

theorem electedName_eq_none (h : electedName users = none) :
    ∀ u ∈ users, u.eligible = false := by
  intro u hu
  have hfind := List.find?_eq_none.mp (Option.map_eq_none_iff.mp h) u hu
  exact Bool.eq_false_iff.mpr hfind

/-- The election in a heartbeat pass does not look at the NAT kind: whom it
passes over needs the server. -/
theorem sparedName_eq_none (h : sparedName users = none) :
    ∀ u ∈ users, u.eligible = false := by
  intro u hu
  have hfind := List.find?_eq_none.mp (Option.map_eq_none_iff.mp h) u hu
  refine not_eligible_of_needs ?_
  cases hneeds : u.needsServerRelay with
  | true => rfl
  | false =>
      rw [hneeds] at hfind
      exact absurd rfl hfind

theorem soleOr_eq_none {relay : Option Token} (h : soleOr relay users = none) : relay = none := by
  rcases users with _ | ⟨u, _ | ⟨v, users⟩⟩
  · exact h
  · exact absurd h (Option.some_ne_none u.name)
  · exact h

theorem eligible_of_standing {v : User} (h : v.standing = u.standing) :
    v.eligible = u.eligible := by
  simp only [User.standing, Prod.mk.injEq] at h
  obtain ⟨-, -, hneeds, hnat⟩ := h
  rw [User.eligible, User.eligible, hneeds, hnat]

end Elections

/-! ## Each operation -/

section Steps
variable {ch ch' : Channel} {n : Token} {src : SocketAddr}

/-- Fewer users, and the same on record. -/
theorem Channel.Served.subset (h : ch.Served) (husers : ch'.users ⊆ ch.users)
    (hrelay : ch'.relay = none → ch.relay = none) : ch'.Served :=
  fun hnone u hu => h (hrelay hnone) u (husers hu)

theorem served_standing (h : SameStanding ch ch') (hs : ch.Served) : ch'.Served := by
  intro hnone u hu
  obtain ⟨v, hv, hvu⟩ := h.mem hu
  rw [← eligible_of_standing hvu]
  exact hs (h.2 ▸ hnone) v hv

theorem served_connect (hs : ch.Served) (amb : Ambient) (nat : NatKind) :
    (ch.connect amb n nat src).1.Served := by
  rcases session_or_new n src ch with h | hnew
  · exact served_standing (connect_of_session _ _ h).1 hs
  · by_cases ho : ch.others n = []
    · obtain ⟨husers, hrelay, -⟩ := connect_lone amb nat hnew ho
      intro hnone u hu
      rw [hrelay] at hnone
      rw [husers, List.mem_singleton] at hu
      -- nobody is on record, so the new user has been passed over
      split_ifs at hnone with hlone
      rw [hu, newUser_eligible, decide_eq_false_iff_not]
      exact fun hnat => hlone ⟨hnone, hnat⟩
    · rw [(connect_elect amb nat hnew ho).1]
      intro hnone
      rw [elect_relay] at hnone
      rw [elect_users]
      exact electedName_eq_none hnone

theorem served_disconnect (hn : ch.WellNamed) (hs : ch.Served) :
    (ch.disconnect n src).1.Served := by
  rcases session_or_new n src ch with h | hnew
  · obtain ⟨husers, hrelay⟩ := disconnect_of_session hn h
    intro hnone u hu
    rw [husers] at hu
    rw [hrelay] at hnone
    split_ifs at hnone
    · exact electedName_eq_none (soleOr_eq_none hnone) u hu
    · exact hs hnone u (mem_others.mp hu).1
  · rw [disconnect_of_absent hnew]
    exact hs

theorem served_removePeer (hs : ch.Served) : (ch.removePeer n).Served := by
  refine hs.subset ?_ fun hnone => ?_
  · rw [removePeer_users]
    exact List.filter_sublist.subset
  · rw [removePeer_relay] at hnone
    exact soleOr_eq_none hnone

/-- Who has been asked for needs the server now. -/
theorem served_requestRelay (hs : ch.Served) : (ch.requestRelay n).Served := by
  intro hnone u hu
  rcases Vec.mem_modifyFirst hu with hu | ⟨v, -, -, rfl⟩
  · exact hs hnone u hu
  · exact not_eligible_of_needs rfl

theorem served_handleTimedOutUser {i : Nat} {u : User} (hs : ch.Served) :
    (handleTimedOutUser ch i u.name u.addr).1.Served := by
  intro hnone v hv
  rw [handleTimedOutUser_users] at hv
  rw [handleTimedOutUser_relay] at hnone
  split_ifs at hnone
  · exact sparedName_eq_none hnone v hv
  · exact hs (soleOr_eq_none hnone) v (List.mem_of_mem_eraseIdx hv)

theorem served_heartbeat {now : Instant} (hs : ch.Served) (h : ch.heartbeat now = some ch') :
    ch'.Served := by
  obtain ⟨husers, ⟨u, hu, hrelay⟩ | ⟨-, rfl⟩⟩ := heartbeat_eq_some h
  · intro hnone v hv
    rw [hrelay] at hnone
    rw [husers, hu, List.mem_singleton] at hv
    split_ifs at hnone with hneeds
    rw [hv]
    exact not_eligible_of_needs hneeds
  · exact expire_induct now ch (Q := fun ch _ => ch.Served) hs
      fun ch _ i u hQ _ _ _ => served_handleTimedOutUser hQ

theorem served_default : Channel.default.Served := fun _ _ hu => absurd hu List.not_mem_nil

theorem Change.served {l : ServerStep} {s c : Token} {o : Option Channel}
    (h : Change l s c o ch') (ho : ∀ ch, o = some ch → ch.WellNamed ∧ ch.Served) :
    ch'.Served := by
  cases h with
  | standing h => exact served_standing h (ho _ rfl).2
  | connect hl hreq =>
      refine served_connect ?_ _ _
      cases o with
      | none => exact served_default
      | some ch => exact (ho ch rfl).2
  | evict hl hreq hc => exact (ho _ rfl).2.subset List.filter_sublist.subset id
  | disconnect hl hreq => exact served_disconnect (ho _ rfl).1 (ho _ rfl).2
  | peerTimeout hl hreq => exact served_removePeer (ho _ rfl).2
  | requestRelay hl hreq => exact served_requestRelay (ho _ rfl).2
  | heartbeat hl h => exact served_heartbeat (ho _ rfl).2 h

end Steps

/-! ## Every reachable state -/

theorem served_step (st : ServerMap) (l : ServerStep)
    (h : Everywhere (fun ch => ch.WellNamed ∧ ch.Served) st) :
    Everywhere (fun ch => ch.WellNamed ∧ ch.Served) (st.step l) :=
  everywhere_step.mpr fun s c _ hch =>
    ⟨(change_of_effect hch).wellNamed fun ch ho => (h s c ch ho).1,
      (change_of_effect hch).served (h s c)⟩

/-- **No eligible user is left without a relay.** -/
theorem served_of_reachable (ls : List ServerStep) (s c : Token) (ch : Channel)
    (hch : (after ServerMap.step ∅ ls).channel? s c = some ch)
    (hu : ∃ u ∈ ch.users, u.needsServerRelay = false ∧ u.natKind ≠ .symmetric) :
    ch.relay ≠ none := by
  intro hnone
  obtain ⟨u, hu, hneeds, hnat⟩ := hu
  have hall := after_of_always _ _ (always_of_step served_step ls (everywhere_empty _))
  have hnot := (hall s c ch hch).2 hnone u hu
  have helig : u.eligible = true := by
    rw [User.eligible, hneeds, Bool.not_false, Bool.true_and, bne_iff_ne]
    exact hnat
  rw [helig] at hnot
  exact Bool.false_ne_true hnot.symm

/-- Ann stays on record when Sam joins her. -/
theorem served_ann :
    let ann : User := ⟨1, ⟨"ann".toList, by decide⟩, .v4 ⟨10, 0, 0, 1⟩ 4000, 0, false, .cone⟩
    let sam : User := ⟨2, ⟨"sam".toList, by decide⟩, .v4 ⟨10, 0, 0, 2⟩ 4000, 1, true, .symmetric⟩
    let ch : Channel := ⟨7, 3, [ann, sam], some ann.name⟩
    ch.relay ≠ none :=
  served_of_reachable
    [.message ⟨0, 7⟩ "CONNECT s c ann CONE".toList (.v4 ⟨10, 0, 0, 1⟩ 4000),
      .message ⟨1, 8⟩ "CONNECT s c sam SYMMETRIC".toList (.v4 ⟨10, 0, 0, 2⟩ 4000)]
    ⟨"s".toList, by decide⟩ ⟨"c".toList, by decide⟩ _ (by decide +kernel) (by decide +kernel)

end NatPiercer.Signaling
