/-
# `Signaling.Stability` — a relay that works is not replaced

A second user's `CONNECT` runs the election from scratch, by the order of the
list, and looks at nobody who is on record.  That the one on record comes out
of it all the same is the invariant of `Order`: it is the first of the list
that does not need the server.

So whoever is on record and does not need the server stays on record for as
long as the session stays in the channel (`Change.keepsRelay`); and what
another user does, or has done to it, does not end the session
(`stays_effect`).
-/
import NatPiercer.Signaling.Order
import NatPiercer.Signaling.Sections

namespace NatPiercer.Signaling

open Text Utf8 Net Proto LockProg

section Steps
variable {ch ch' : Channel} {u v : User} {n : Token} {src : SocketAddr}

/-- A name that is somebody else's, among the users that are left. -/
theorem name_ne_of_others (hv : v ∈ ch.others n) (hsame : v.session = u.session) : u.name ≠ n := by
  have hname : v.name = u.name := congrArg Prod.fst hsame
  rw [← hname]
  exact (mem_others.mp hv).2

theorem soleOr_stays {users : List User} {relay : Option Token} (hr : relay = some u.name)
    (hv : v ∈ users) (hname : v.name = u.name) : soleOr relay users = some u.name := by
  rcases users with _ | ⟨w, _ | ⟨x, users⟩⟩
  · exact hr
  · rw [List.mem_singleton] at hv
    rw [soleOr, ← hv, hname]
  · exact hr

/-- A new session of the relay's name is not the relay's session. -/
theorem keepsRelay_connect (ho : ch.InOrder) (amb : Ambient) (nat : NatKind) (hu : u ∈ ch.users)
    (hr : ch.relay = some u.name) (hneeds : u.needsServerRelay = false)
    (hv : v ∈ (ch.connect amb n nat src).1.users) (hsame : v.session = u.session) :
    (ch.connect amb n nat src).1.relay = some u.name := by
  rcases session_or_new n src ch with h | hnew
  · rw [(connect_of_session amb nat h).1.2, hr]
  · have hfresh : v ≠ ch.newUser amb n nat src := by
      rintro rfl
      have hsession : u.isSession n src = true :=
        isSession_iff.mpr ⟨(congrArg Prod.fst hsame).symm, (congrArg Prod.snd hsame).symm⟩
      rw [hnew u hu] at hsession
      exact Bool.false_ne_true hsession
    by_cases hothers : ch.others n = []
    · rw [(connect_lone amb nat hnew hothers).1, List.mem_singleton] at hv
      exact absurd hv hfresh
    · rw [(connect_elect amb nat hnew hothers).1] at hv ⊢
      rw [elect_users, joined_users amb nat hnew] at hv
      have hold : v ∈ ch.others n :=
        (List.mem_append.mp hv).resolve_right fun h => hfresh (List.mem_singleton.mp h)
      rw [elect_relay]
      exact electedName_joined amb nat ho hnew (name_ne_of_others hold hsame) hu hr hneeds

theorem keepsRelay_disconnect (hn : ch.WellNamed) (hr : ch.relay = some u.name)
    (hv : v ∈ (ch.disconnect n src).1.users) (hsame : v.session = u.session) :
    (ch.disconnect n src).1.relay = some u.name := by
  rcases session_or_new n src ch with h | habsent
  · obtain ⟨husers, hrelay⟩ := disconnect_of_session hn h
    rw [husers] at hv
    have hne := name_ne_of_others hv hsame
    rw [hrelay, if_neg fun h => hne (Option.some.inj (hr.symm.trans h)), hr]
  · rw [disconnect_of_absent habsent, hr]

/-- While others expire, `u` being left. -/
theorem keepsRelay_expire (now : Instant) (hn : ch.WellNamed) (hu : u ∈ ch.users)
    (hr : ch.relay = some u.name) (hfresh : u.expired now = false) :
    (ch.expire now).1.relay = some u.name := by
  refine (expire_induct now ch (Q := fun ch _ => ch.WellNamed ∧ u ∈ ch.users ∧
    ch.relay = some u.name) ⟨hn, hu, hr⟩ fun ch' ns i w hQ hw hexp _ => ?_).2.2
  obtain ⟨hn, hu, hr⟩ := hQ
  have hne : w ≠ u := by
    rintro rfl
    rw [hfresh] at hexp
    exact Bool.false_ne_true hexp
  have hleft : u ∈ ch'.users.eraseIdx i := by
    obtain ⟨j, hj⟩ := List.mem_iff_getElem?.mp hu
    refine List.mem_eraseIdx_iff_getElem?.mpr ⟨j, fun hji => hne ?_, hj⟩
    rw [hji, hw] at hj
    exact Option.some.inj hj
  have husers := handleTimedOutUser_users ch' i w.name w.addr
  refine ⟨wellNamed_of_sublist hn (husers ▸ List.eraseIdx_sublist _ _), husers ▸ hleft, ?_⟩
  have hname : ch'.relay ≠ some w.name := fun h =>
    hne (hn.eq_of_name (List.mem_of_getElem? hw) hu (Option.some.inj (h.symm.trans hr)))
  rw [handleTimedOutUser_relay, if_neg hname]
  exact soleOr_stays hr hleft rfl

theorem keepsRelay_heartbeat {now : Instant} (hn : ch.WellNamed) (hu : u ∈ ch.users)
    (hr : ch.relay = some u.name) (hneeds : u.needsServerRelay = false)
    (h : ch.heartbeat now = some ch') (hv : v ∈ ch'.users) (hsame : v.session = u.session) :
    ch'.relay = some u.name := by
  obtain ⟨husers, hcases⟩ := heartbeat_eq_some h
  rw [husers] at hv
  obtain ⟨hmem, hfresh⟩ := List.mem_filter.mp hv
  obtain rfl : v = u := hn.eq_of_name hmem hu (congrArg Prod.fst hsame)
  rcases hcases with ⟨w, hw, hrelay⟩ | ⟨-, rfl⟩
  · rw [hw, List.mem_singleton] at hv
    rw [hrelay, ← hv, if_neg (by rw [hneeds]; exact Bool.false_ne_true)]
  · exact keepsRelay_expire now hn hu hr (by simpa using hfresh)

/-- **One step.**  Whoever is on record and does not need the server is on record
afterwards, if the session is still there. -/
theorem Change.keepsRelay {l : ServerStep} {s c : Token} (h : Change l s c (some ch) ch')
    (ho : ch.InOrder) (hu : u ∈ ch.users) (hr : ch.relay = some u.name)
    (hneeds : u.needsServerRelay = false) (hv : v ∈ ch'.users) (hsame : v.session = u.session) :
    ch'.relay = some u.name := by
  cases h with
  | standing h => rw [h.2, hr]
  | connect hl hreq => exact keepsRelay_connect ho _ _ hu hr hneeds hv hsame
  | evict hl hreq hc => exact hr
  | disconnect hl hreq => exact keepsRelay_disconnect ho.wellNamed hr hv hsame
  | peerTimeout hl hreq =>
      rw [removePeer_users] at hv
      rw [removePeer_relay]
      exact soleOr_stays hr hv (congrArg Prod.fst hsame)
  | requestRelay hl hreq => exact hr
  | heartbeat hl h => exact keepsRelay_heartbeat ho.wellNamed hu hr hneeds h hv hsame

end Steps

/-! ## What another user does -/

/-- The user that a request wants something done to, beside being heard of. -/
def Request.userName? : Request → Option Token
  | connect _ _ n _ | disconnect _ _ n | peerTimeout _ _ n | requestRelay _ _ n => some n
  | natProbe | pong | hb _ _ _ | data | unknown => none

/-- The step is about others than `u`. -/
def ServerStep.Spares (u : User) : ServerStep → Prop
  | .message _ text _ => (Request.ofText text).userName? ≠ some u.name
  | .heartbeat now => u.expired now = false
  | .relayout _ _ => True

/-- A session, and whether it needs the server. -/
def User.lasting (u : User) : (UInt32 × Token × SocketAddr) × Bool := (u.badge, u.needsServerRelay)

section Others
variable {ch : Channel} {u : User} {n : Token} {src : SocketAddr}

theorem mem_of_map_lasting {users users' : List User}
    (h : users'.map User.lasting = users.map User.lasting) (hu : u ∈ users) :
    ∃ v ∈ users', v.lasting = u.lasting := by
  have hmem : u.lasting ∈ users'.map User.lasting := h ▸ List.mem_map_of_mem hu
  exact List.mem_map.mp hmem

theorem map_lasting_touch (p : User → Bool) (now : Instant) (users : List User) :
    (Vec.modifyFirst p (fun u => { u with lastPong := now }) users).map User.lasting =
      users.map User.lasting :=
  Vec.map_modifyFirst (f := fun u => { u with lastPong := now }) (fun _ => rfl) users

theorem stays_connect (amb : Ambient) (nat : NatKind) (hu : u ∈ ch.users) (hne : n ≠ u.name) :
    ∃ v ∈ (ch.connect amb n nat src).1.users, v.lasting = u.lasting := by
  rcases session_or_new n src ch with h | hnew
  · refine mem_of_map_lasting ?_ hu
    obtain ⟨y, hy⟩ := Option.isSome_iff_exists.mp (List.find?_isSome.mpr h)
    rw [connect_eq_of_session amb nat hy, Channel.refresh, map_lasting_touch, ensureId_users]
  · rw [connect_users_of_new amb nat hnew]
    exact ⟨u, List.mem_append_left _ (mem_others.mpr ⟨hu, hne.symm⟩), rfl⟩

theorem stays_disconnect (hu : u ∈ ch.users) (hne : n ≠ u.name) :
    u ∈ (ch.disconnect n src).1.users := by
  rw [disconnect_users]
  exact (List.mem_eraseP_of_neg fun h => hne (isSession_iff.mp h).1.symm).mpr hu

theorem stays_requestRelay (hu : u ∈ ch.users) (hne : n ≠ u.name) :
    u ∈ (ch.requestRelay n).users := by
  have hskip : decide (u.name = n) = false := decide_eq_false hne.symm
  exact Vec.mem_modifyFirst_of_not (p := fun u : User => decide (u.name = n))
    (f := fun u : User => { u with needsServerRelay := true }) hskip hu

theorem stays_heartbeat {now : Instant} (hu : u ∈ ch.users) (hfresh : u.expired now = false) :
    ∃ ch', ch.heartbeat now = some ch' ∧ u ∈ ch'.users := by
  have hsurvives : u ∈ (ch.expireAndSettle now).1.users := by
    rw [expireAndSettle_users, Channel.survivors, List.mem_filter]
    exact ⟨hu, by rw [hfresh]; rfl⟩
  refine ⟨_, ?_, hsurvives⟩
  rw [Channel.heartbeat, if_neg]
  rw [List.isEmpty_iff]
  exact List.ne_nil_of_mem hsurvives

/-- The session outlasts a step that is about others. -/
theorem stays_effect {l : ServerStep} (s c : Token) (hu : u ∈ ch.users) (h : l.Spares u) :
    ∃ ch', l.effect s c (some ch) = some ch' ∧ ∃ v ∈ ch'.users, v.lasting = u.lasting := by
  have hrefl : ∃ ch', some ch = some ch' ∧ ∃ v ∈ ch'.users, v.lasting = u.lasting :=
    ⟨ch, rfl, u, hu, rfl⟩
  cases l with
  | relayout s' c' => exact hrefl
  | heartbeat now =>
      obtain ⟨ch', hch', hmem⟩ := stays_heartbeat hu h
      exact ⟨ch', hch', u, hmem, rfl⟩
  | message amb text src =>
      unfold ServerStep.Spares at h
      unfold ServerStep.effect
      dsimp only at h ⊢
      generalize Request.ofText text = r at h
      cases r with
      | natProbe | data | unknown => exact hrefl
      | pong => exact ⟨_, rfl, mem_of_map_lasting (map_lasting_touch _ _ _) hu⟩
      | hb s' c' n =>
          rw [Request.effect]
          split_ifs
          · exact ⟨_, rfl, mem_of_map_lasting (map_lasting_touch _ _ _) hu⟩
          · exact hrefl
      | connect s' c' n natArg =>
          have hne : n ≠ u.name := fun heq => h (congrArg some heq)
          rw [Request.effect]
          split_ifs
          · exact ⟨_, rfl, stays_connect amb _ hu hne⟩
          · refine ⟨_, rfl, u, List.mem_filter.mpr ⟨hu, ?_⟩, rfl⟩
            simp [User.isSession, hne.symm]
          · exact hrefl
      | disconnect s' c' n =>
          rw [Request.effect]
          split_ifs
          · exact ⟨_, rfl, u, stays_disconnect hu fun heq => h (congrArg some heq), rfl⟩
          · exact hrefl
      | peerTimeout s' c' n =>
          rw [Request.effect]
          split_ifs
          · refine ⟨_, rfl, u, ?_, rfl⟩
            change u ∈ (ch.removePeer n).users
            rw [removePeer_users]
            exact mem_others.mpr ⟨hu, fun heq => h (congrArg some heq.symm)⟩
          · exact hrefl
      | requestRelay s' c' n =>
          rw [Request.effect]
          split_ifs
          · exact ⟨_, rfl, u, stays_requestRelay hu fun heq => h (congrArg some heq), rfl⟩
          · exact hrefl

end Others

/-- **Relay stability.**  In every reachable state, whoever is on record and does
not need the server is on record after the next step too, if the session is
still in the channel then; and it is, and does not need the server either, if
the step is about others. -/
theorem relay_stable (ls : List ServerStep) (l : ServerStep) (s c : Token) {ch : Channel}
    {u : User} (hch : (after ServerMap.step ∅ ls).channel? s c = some ch) (hu : u ∈ ch.users)
    (hr : ch.relay = some u.name) (hneeds : u.needsServerRelay = false) :
    (∀ ch', ((after ServerMap.step ∅ ls).step l).channel? s c = some ch' →
      ∀ v ∈ ch'.users, v.session = u.session → ch'.relay = some u.name) ∧
    (l.Spares u → ∃ ch', ((after ServerMap.step ∅ ls).step l).channel? s c = some ch' ∧
      (∃ v ∈ ch'.users, v.badge = u.badge ∧ v.needsServerRelay = false) ∧
      ch'.relay = some u.name) := by
  have horder : ch.InOrder := after_of_always _ _
    (always_of_step (fun _ l h => inOrder_step l h) ls (everywhere_empty _)) s c ch hch
  have hkeep : ∀ ch', ((after ServerMap.step ∅ ls).step l).channel? s c = some ch' →
      ∀ v ∈ ch'.users, v.session = u.session → ch'.relay = some u.name := by
    intro ch' hch' v hv hsame
    rw [channel?_step, hch] at hch'
    exact (change_of_effect hch').keepsRelay horder hu hr hneeds hv hsame
  refine ⟨hkeep, fun hspares => ?_⟩
  obtain ⟨ch', heffect, v, hv, hlasting⟩ := stays_effect s c hu hspares
  have hch' : ((after ServerMap.step ∅ ls).step l).channel? s c = some ch' := by
    rw [channel?_step, hch, heffect]
  have hbadge : v.badge = u.badge := congrArg Prod.fst hlasting
  refine ⟨ch', hch', ⟨v, hv, hbadge, (congrArg Prod.snd hlasting).trans hneeds⟩, ?_⟩
  exact hkeep ch' hch' v hv (congrArg Prod.snd hbadge)

/-- Ann is on record when Bob joins her, and stays so. -/
theorem relay_stable_ann :
    let s : Token := ⟨"s".toList, by decide⟩
    let c : Token := ⟨"c".toList, by decide⟩
    let ann : User := ⟨1, ⟨"ann".toList, by decide⟩, .v4 ⟨10, 0, 0, 1⟩ 4000, 0, false, .cone⟩
    let st := after ServerMap.step ∅
      [.message ⟨0, 7⟩ "CONNECT s c ann CONE".toList (.v4 ⟨10, 0, 0, 1⟩ 4000)]
    ∃ ch', (st.step (.message ⟨1, 8⟩ "CONNECT s c bob CONE".toList
      (.v4 ⟨10, 0, 0, 2⟩ 4000))).channel? s c = some ch' ∧ ch'.relay = some ann.name := by
  intro s c ann st
  have hch : st.channel? s c = some ⟨7, 2, [ann], some ann.name⟩ := by decide +kernel
  obtain ⟨ch', hch', -, hr⟩ := (relay_stable
    [.message ⟨0, 7⟩ "CONNECT s c ann CONE".toList (.v4 ⟨10, 0, 0, 1⟩ 4000)]
    (.message ⟨1, 8⟩ "CONNECT s c bob CONE".toList (.v4 ⟨10, 0, 0, 2⟩ 4000)) s c hch
    List.mem_cons_self rfl rfl).2 (by
      unfold ServerStep.Spares
      decide +kernel)
  exact ⟨ch', hch', hr⟩

end NatPiercer.Signaling
