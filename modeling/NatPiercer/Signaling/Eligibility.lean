/-
# `Signaling.Eligibility` — can the recorded relay relay?

A user that needs the server to relay for it cannot relay for others.  The
elections look at that; four other ways of writing the relay, or of coming
to need the server, do not:

* a lone user is put on record after a `DISCONNECT` of the relay, and after a
  `PEER_TIMEOUT`, whatever it needs;
* a `REQUEST_RELAY` may name the relay;
* a relay that comes back, as the only user, from behind a symmetric NAT is
  still on record from its older session.

A heartbeat pass always leaves an eligible relay, or none: its own lone
promotion does not look either, but a pass that ends with a single user
settles that user.
-/
import NatPiercer.Signaling.ChannelCases

namespace NatPiercer.Signaling

open Text Utf8 Net Proto LockProg

/-- No user that is on record as the relay needs the server to relay for it. -/
def Channel.RelayEligible (ch : Channel) : Prop :=
  ∀ n, ch.relay = some n → ∀ u ∈ ch.users, u.name = n → u.needsServerRelay = false

/-- What a request must not do, to leave an eligible relay or none. -/
def Request.electsEligible (st : ServerMap) (src : SocketAddr) : Request → Prop
  | connect s c n natArg => ∀ ch, st.channel? s c = some ch → ch.relay = some n →
      ch.others n = [] → (∀ u ∈ ch.users, u.isSession n src = false) →
      NatKind.ofArg natArg ≠ .symmetric
  | disconnect s c n => ∀ ch, st.channel? s c = some ch → ch.relay = some n →
      (∃ u ∈ ch.users, u.isSession n src = true) →
      ∀ u, ch.others n = [u] → u.needsServerRelay = false
  | peerTimeout s c n => ∀ ch, st.channel? s c = some ch →
      ∀ u, ch.others n = [u] → u.needsServerRelay = false
  | requestRelay s c n => ∀ ch, st.channel? s c = some ch → ch.relay = some n →
      ∀ u ∈ ch.users, u.name ≠ n
  | _ => True

def ServerStep.electsEligible (st : ServerMap) : ServerStep → Prop
  | message _ text src => (Request.ofText text).electsEligible st src
  | heartbeat _ | relayout _ _ => True

section Steps
variable {ch ch' : Channel} {n : Token} {src : SocketAddr}

/-- Whom an election finds is eligible, and so is everyone of that name. -/
theorem eligible_of_electedName {users : List User} {p : User → Bool}
    (hp : ∀ u, p u = true → u.needsServerRelay = false) (hn : (users.map User.name).Nodup)
    {m : Token} (h : (users.find? p).map User.name = some m) :
    ∀ u ∈ users, u.name = m → u.needsServerRelay = false := by
  obtain ⟨v, hv, rfl⟩ := Option.map_eq_some_iff.mp h
  intro u hu hname
  rw [List.inj_on_of_nodup_map hn hu (List.mem_of_find?_eq_some hv) hname]
  exact hp v (List.find?_some hv)

theorem needs_of_eligible (u : User) (h : u.eligible = true) : u.needsServerRelay = false := by
  simp only [User.eligible, Bool.and_eq_true, Bool.not_eq_true'] at h
  exact h.1

theorem relayEligible_subset (he : ch.RelayEligible) (hr : ch'.relay = ch.relay)
    (hs : ∀ u ∈ ch'.users, u ∈ ch.users) : ch'.RelayEligible :=
  fun m hm u hu hname => he m (hr ▸ hm) u (hs u hu) hname

theorem relayEligible_standing (h : SameStanding ch ch') (he : ch.RelayEligible) :
    ch'.RelayEligible := by
  intro m hm u hu hname
  obtain ⟨v, hv, hvu⟩ := h.user hu
  rw [← hvu.2.2.1]
  exact he m (h.2 ▸ hm) v hv (hvu.1.trans hname)

theorem relayEligible_connect (hn : ch.WellNamed) (he : ch.RelayEligible) (amb : Ambient)
    (nat : NatKind) :
    (ch.connect amb n nat src).1.RelayEligible ↔
      (ch.relay = some n → ch.others n = [] → (∀ u ∈ ch.users, u.isSession n src = false) →
        nat ≠ .symmetric) := by
  rcases session_or_new n src ch with h | hnew
  · obtain ⟨x, hx, hsess⟩ := h
    refine ⟨fun _ _ _ hno => ?_, fun _ =>
      relayEligible_standing (connect_of_session _ _ ⟨x, hx, hsess⟩).1 he⟩
    rw [hno x hx] at hsess
    exact absurd hsess (by decide)
  · by_cases ho : ch.others n = []
    · obtain ⟨husers, hrelay, _⟩ := connect_lone amb nat hnew ho
      unfold Channel.RelayEligible
      rw [husers, hrelay]
      constructor
      · intro hel hr _ _ hsym
        have hneeds := hel n (by simp [hr]) _ List.mem_cons_self rfl
        simp [hsym] at hneeds
      · intro hnat m hm u hu hname
        rw [List.mem_singleton.mp hu] at hname ⊢
        simp only [newUser_name] at hname
        subst hname
        split_ifs at hm with hnone
        · simp [hnone.2]
        · simp [hnat hm ho hnew]
    · have helect := (connect_elect amb nat hnew ho).1
      have hwell := wellNamed_connect hn amb n nat src
      refine ⟨fun _ _ hnil => absurd hnil ho, fun _ m hm => ?_⟩
      rw [helect] at hm hwell ⊢
      rw [elect_relay] at hm
      rw [Channel.WellNamed, elect_users] at hwell
      rw [elect_users]
      exact eligible_of_electedName needs_of_eligible hwell hm

/-- The relay after the recorded one has gone and `users` remain. -/
theorem relayEligible_sole (relay : Option Token) {users : List User}
    (hr : users.length ≠ 1 → ∀ m, relay = some m → ∀ u ∈ users, u.name = m →
      u.needsServerRelay = false) :
    (∀ m, soleOr relay users = some m → ∀ u ∈ users, u.name = m →
        u.needsServerRelay = false) ↔
      ∀ u, users = [u] → u.needsServerRelay = false := by
  rcases users with _ | ⟨v, _ | ⟨w, users⟩⟩
  · simp
  · constructor
    · rintro h u hu
      obtain rfl := (List.cons.inj hu).1
      exact h v.name rfl v List.mem_cons_self rfl
    · intro h m _ u hu _
      rw [List.mem_singleton.mp hu]
      exact h v rfl
  · refine ⟨fun _ u hu => by simp at hu, fun _ => ?_⟩
    exact hr (by simp)

theorem nodup_others (hn : ch.WellNamed) : ((ch.others n).map User.name).Nodup :=
  hn.sublist (List.filter_sublist.map _)

theorem relayEligible_disconnect (hn : ch.WellNamed) (he : ch.RelayEligible) :
    (ch.disconnect n src).1.RelayEligible ↔
      (ch.relay = some n → (∃ u ∈ ch.users, u.isSession n src = true) →
        ∀ u, ch.others n = [u] → u.needsServerRelay = false) := by
  by_cases h : ∃ x ∈ ch.users, x.isSession n src = true
  · obtain ⟨husers, hrelay⟩ := disconnect_of_session hn h
    by_cases hr : ch.relay = some n
    · rw [if_pos hr] at hrelay
      unfold Channel.RelayEligible
      rw [husers, hrelay, relayEligible_sole (electedName (ch.others n)) fun _ m hm =>
        eligible_of_electedName needs_of_eligible (nodup_others hn) hm]
      exact ⟨fun hel _ _ => hel, fun hel => hel hr h⟩
    · rw [if_neg hr] at hrelay
      refine ⟨fun _ h => absurd h hr, fun _ => relayEligible_subset he hrelay fun u hu => ?_⟩
      rw [husers] at hu
      exact (mem_others.mp hu).1
  · rw [disconnect_of_absent fun x hx => by simpa using fun hx' => h ⟨x, hx, hx'⟩]
    exact ⟨fun _ _ h' => absurd h' h, fun _ => he⟩

theorem relayEligible_removePeer (he : ch.RelayEligible) :
    (ch.removePeer n).RelayEligible ↔
      ∀ u, ch.others n = [u] → u.needsServerRelay = false := by
  unfold Channel.RelayEligible
  rw [removePeer_users, removePeer_relay]
  exact relayEligible_sole _ fun _ m hm u hu => he m hm u (mem_others.mp hu).1

theorem relayEligible_requestRelay (he : ch.RelayEligible) :
    (ch.requestRelay n).RelayEligible ↔ (ch.relay = some n → ∀ u ∈ ch.users, u.name ≠ n) := by
  constructor
  · intro hel hr u hu hname
    -- the first user of the name needs the server now
    have hfirst : ∀ users : List User, u ∈ users → ∃ v ∈ Vec.modifyFirst
        (fun u => decide (u.name = n)) (fun u => { u with needsServerRelay := true }) users,
        v.name = n ∧ v.needsServerRelay = true := by
      intro users hu
      induction users with
      | nil => exact absurd hu List.not_mem_nil
      | cons w ws ih =>
          rw [Vec.modifyFirst]
          split_ifs with hw
          · exact ⟨_, List.mem_cons_self, of_decide_eq_true hw, rfl⟩
          · rcases List.mem_cons.mp hu with rfl | hu
            · exact absurd (decide_eq_true hname) hw
            · obtain ⟨v, hv, hv'⟩ := ih hu
              exact ⟨v, List.mem_cons_of_mem _ hv, hv'⟩
    obtain ⟨v, hv, hvname, hvneeds⟩ := hfirst ch.users hu
    rw [hel n hr v hv hvname] at hvneeds
    exact absurd hvneeds (by decide)
  · intro hno m hm u hu hname
    rcases Vec.mem_modifyFirst hu with hu | ⟨v, hv, hvname, rfl⟩
    · exact he m hm u hu hname
    · have hvname : v.name = n := of_decide_eq_true hvname
      exact absurd hvname (hno (hm.trans (congrArg some (hname.symm.trans hvname))) v hv)

/-- What the loop of a pass keeps: while two users or more are left, the relay is
eligible. -/
def EligibleAmongSeveral (ch : Channel) : Prop :=
  ch.WellNamed ∧ (2 ≤ ch.users.length → ch.RelayEligible)

theorem eligibleAmongSeveral_handleTimedOutUser {i : Nat} {u : User}
    (h : EligibleAmongSeveral ch) (hu : ch.users[i]? = some u) :
    EligibleAmongSeveral (handleTimedOutUser ch i u.name u.addr).1 := by
  obtain ⟨hi, -⟩ := List.getElem?_eq_some_iff.mp hu
  have hsub := List.eraseIdx_sublist ch.users i
  have hnodup : ((ch.users.eraseIdx i).map User.name).Nodup := h.1.sublist (hsub.map _)
  refine ⟨?_, fun hlen => ?_⟩
  · rw [Channel.WellNamed, handleTimedOutUser_users]
    exact hnodup
  · rw [handleTimedOutUser_users] at hlen
    have hlen' := List.length_eraseIdx_of_lt hi
    unfold Channel.RelayEligible
    rw [handleTimedOutUser_users, handleTimedOutUser_relay]
    intro m hm
    split_ifs at hm
    · exact eligible_of_electedName (fun u hu => by simpa using hu) hnodup hm
    · rw [soleOr_of_length _ (by omega)] at hm
      exact fun u hu => h.2 (by omega) m hm u (hsub.subset hu)

theorem relayEligible_heartbeat {now : Instant} (hn : ch.WellNamed) (he : ch.RelayEligible)
    (h : ch.heartbeat now = some ch') : ch'.RelayEligible := by
  obtain ⟨husers, ⟨u, hu, hrelay⟩ | ⟨hlen, rfl⟩⟩ := heartbeat_eq_some h
  · intro m hm v hv _
    rw [husers, hu] at hv
    rw [hrelay] at hm
    rw [List.mem_singleton.mp hv]
    split_ifs at hm with hneeds
    simpa using hneeds
  · rw [← husers] at hlen
    exact (expire_induct _ _ (Q := fun ch _ => EligibleAmongSeveral ch) ⟨hn, fun _ => he⟩
      fun ch _ i u hQ hu _ _ => eligibleAmongSeveral_handleTimedOutUser hQ hu).2 hlen

end Steps

/-! ## Step and run -/

/-- A step leaves an eligible relay, or none, everywhere exactly when it elects
as it should. -/
theorem relayEligible_step_iff {st : ServerMap} (l : ServerStep)
    (hn : Everywhere Channel.WellNamed st) (he : Everywhere Channel.RelayEligible st) :
    Everywhere Channel.RelayEligible (st.step l) ↔ l.electsEligible st := by
  rw [everywhere_step]
  constructor
  · intro h
    cases l with
    | heartbeat now => trivial
    | relayout s c => trivial
    | message amb text src =>
        change (Request.ofText text).electsEligible st src
        have h : ∀ s c ch, (Request.ofText text).effect amb src s c (st.channel? s c) = some ch →
            ch.RelayEligible := h
        cases hreq : Request.ofText text with
        | connect s c n natArg =>
            intro ch hch
            refine (relayEligible_connect (hn _ _ _ hch) (he _ _ _ hch) amb _).mp (h s c _ ?_)
            rw [hreq, hch, Request.effect, if_pos ⟨rfl, rfl⟩]
            rfl
        | disconnect s c n =>
            intro ch hch
            refine (relayEligible_disconnect (hn _ _ _ hch) (he _ _ _ hch)).mp (h s c _ ?_)
            rw [hreq, hch, Request.effect, if_pos ⟨rfl, rfl⟩]
            rfl
        | peerTimeout s c n =>
            intro ch hch
            refine (relayEligible_removePeer (he _ _ _ hch)).mp (h s c _ ?_)
            rw [hreq, hch, Request.effect, if_pos ⟨rfl, rfl⟩]
            rfl
        | requestRelay s c n =>
            intro ch hch
            refine (relayEligible_requestRelay (he _ _ _ hch)).mp (h s c _ ?_)
            rw [hreq, hch, Request.effect, if_pos ⟨rfl, rfl⟩]
            rfl
        | natProbe | pong | hb _ _ _ | data | unknown => trivial
  · intro helect s c ch' hch'
    have hchange := change_of_effect hch'
    generalize ho : st.channel? s c = o at hchange
    have helect : ∀ {amb text src}, l = .message amb text src →
        (Request.ofText text).electsEligible st src := fun hl => by
      subst hl
      exact helect
    cases hchange with
    | standing h => exact relayEligible_standing h (he _ _ _ ho)
    | connect hl hreq =>
        have helect := helect hl
        rw [hreq] at helect
        cases o with
        | none =>
            have hdefault : ∀ m, Channel.default.relay ≠ some m := fun m =>
              (Option.some_ne_none m).symm
            exact (relayEligible_connect wellNamed_default
              (fun m hm => absurd hm (hdefault m)) _ _).mpr fun hr => absurd hr (hdefault _)
        | some ch =>
            exact (relayEligible_connect (hn _ _ _ ho) (he _ _ _ ho) _ _).mpr (helect ch ho)
    | evict hl hreq hc =>
        exact relayEligible_subset (he _ _ _ ho) rfl fun u hu => (List.mem_filter.mp hu).1
    | disconnect hl hreq =>
        have helect := helect hl
        rw [hreq] at helect
        exact (relayEligible_disconnect (hn _ _ _ ho) (he _ _ _ ho)).mpr (helect _ ho)
    | peerTimeout hl hreq =>
        have helect := helect hl
        rw [hreq] at helect
        exact (relayEligible_removePeer (he _ _ _ ho)).mpr (helect _ ho)
    | requestRelay hl hreq =>
        have helect := helect hl
        rw [hreq] at helect
        exact (relayEligible_requestRelay (he _ _ _ ho)).mpr (helect _ ho)
    | heartbeat hl h => exact relayEligible_heartbeat (hn _ _ _ ho) (he _ _ _ ho) h

/-- **When the recorded relay stays eligible.**  Along a run from the empty map,
no user on record as a relay needs the server, in any state, exactly when
every step elects as it should. -/
theorem relayEligible_always_iff (ls : List ServerStep) :
    Always ServerMap.step (Everywhere Channel.RelayEligible) ∅ ls ↔
      EachStep ServerMap.step (fun st l => l.electsEligible st) ∅ ls :=
  always_iff_eachStep (J := Everywhere Channel.WellNamed) (fun _ l => wellNamed_step l)
    (fun _ l => relayEligible_step_iff l) ls (everywhere_empty _) (everywhere_empty _)

/-- Ann is alone and the relay; then somebody asks the server to relay for Ann. -/
theorem relay_marked_by_request :
    let ann : SocketAddr := .v4 ⟨10, 0, 0, 1⟩ 4000
    let run : List ServerStep :=
      [.message ⟨0, 7⟩ "CONNECT s c ann CONE".toList ann,
        .message ⟨1, 8⟩ "REQUEST_RELAY s c ann".toList (.v4 ⟨10, 0, 0, 2⟩ 4000)]
    ¬ Everywhere Channel.RelayEligible (after ServerMap.step ∅ run) := by
  intro ann run h
  let user : User := ⟨1, ⟨"ann".toList, by decide⟩, ann, 0, true, .cone⟩
  have hc : (after ServerMap.step ∅ run).channel? ⟨"s".toList, by decide⟩ ⟨"c".toList, by decide⟩ =
      some ⟨7, 2, [user], some user.name⟩ := by
    decide +kernel
  exact absurd (h _ _ _ hc _ rfl user List.mem_cons_self rfl) (by decide)

end NatPiercer.Signaling
