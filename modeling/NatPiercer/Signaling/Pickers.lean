/-
# `Signaling.Pickers` — two functions called `pick_eligible_relay`

The one in `handlers/notifications.rs` passes over whoever needs the server
or is behind a symmetric NAT, the one in `heartbeat.rs` over whoever needs
the server.  On channels at large they differ.  On those that a server can
come to have they do not: whoever is behind a symmetric NAT is marked as
needing the server when it joins, the mark is only ever set, and the NAT kind
never changes.
-/
import NatPiercer.Signaling.Order
import NatPiercer.Signaling.Rosters

namespace NatPiercer.Signaling

open Text Utf8 Net Proto LockProg

/-- Whoever is behind a symmetric NAT is marked as needing the server. -/
def Channel.Marked (ch : Channel) : Prop :=
  ∀ u ∈ ch.users, u.natKind = .symmetric → u.needsServerRelay = true

section Marks
variable {ch ch' : Channel} {st st' : ServerMap} {u : User}

/-- Nobody is unmarked, and no NAT kind changes. -/
theorem Revised.user (h : Revised ch ch') (hu : u ∈ ch'.users) :
    ∃ v ∈ ch.users, v.name = u.name ∧ v.addr = u.addr ∧ v.natKind = u.natKind ∧
      (v.needsServerRelay = true → u.needsServerRelay = true) := by
  have hrefl : ∀ v ∈ ch.users, ∃ w ∈ ch.users, w.name = v.name ∧ w.addr = v.addr ∧
      w.natKind = v.natKind ∧ (w.needsServerRelay = true → v.needsServerRelay = true) :=
    fun v hv => ⟨v, hv, rfl, rfl, rfl, id⟩
  cases h with
  | same | record relay => exact hrefl u hu
  | pong now src =>
      obtain ⟨v, hv, hname, haddr, hneeds, hnat⟩ := (sameStanding_pong now src ch).user hu
      exact ⟨v, hv, hname, haddr, hnat, fun h => hneeds.symm.trans h⟩
  | refresh now n src =>
      obtain ⟨v, hv, hname, haddr, hneeds, hnat⟩ := (sameStanding_refresh now n src ch).user hu
      exact ⟨v, hv, hname, haddr, hnat, fun h => hneeds.symm.trans h⟩
  | removal h =>
      obtain rfl := findAndRemoveUser_left h
      rw [updateRelayAfterDeparture_users] at hu
      exact hrefl u (List.mem_of_mem_eraseP hu)
  | peerTimeout n =>
      rw [removePeer_users] at hu
      exact hrefl u (mem_others.mp hu).1
  | requestRelay n =>
      rcases Vec.mem_modifyFirst hu with hu | ⟨v, hv, -, rfl⟩
      · exact hrefl u hu
      · exact ⟨v, hv, rfl, rfl, rfl, fun _ => rfl⟩
  | expiry now =>
      rw [expireAndSettle_users] at hu
      exact hrefl u (List.mem_filter.mp hu).1

theorem Revised.marked (h : Revised ch ch') (hm : ch.Marked) : ch'.Marked := by
  intro u hu hnat
  obtain ⟨v, hv, -, -, hvnat, hmark⟩ := h.user hu
  exact hmark (hm v hv (hvnat.trans hnat))

/-- Whoever joins is marked, if need be. -/
theorem marked_joined {n : Token} {src : SocketAddr} (amb : Ambient) (nat : NatKind)
    (hnew : ∀ x ∈ ch.users, x.isSession n src = false) (hm : ch.Marked) :
    (ch.joined amb n nat src).settleLone.1.Marked := by
  intro u hu
  rw [settleLone_users] at hu
  exact symmetric_joined amb nat hnew hm u hu

theorem SameStanding.marked (h : SameStanding ch ch') (hm : ch.Marked) : ch'.Marked := by
  intro u hu hnat
  obtain ⟨v, hv, -, -, hneeds, hvnat⟩ := h.user hu
  exact hneeds.symm.trans (hm v hv (hvnat.trans hnat))

theorem marked_default : Channel.default.Marked := fun _ hu => absurd hu List.not_mem_nil

/-- A critical section keeps the marks. -/
theorem marked_section (hm : Everywhere Channel.Marked st) (h : CriticalSection st st') :
    Everywhere Channel.Marked st' := by
  intro s c ch' hch'
  cases h with
  | revision h =>
      obtain ⟨ch, hch, hrevised⟩ := h.channels s c ch' hch'
      exact hrevised.marked (hm s c ch hch)
  | connect amb s₁ c₁ n nat src =>
      by_cases hsc : s = s₁ ∧ c = c₁
      · obtain ⟨rfl, rfl⟩ := hsc
        obtain ⟨ch, hch, hcases⟩ := connectSection_named amb s c n nat src st
        obtain rfl := Option.some.inj (hch.symm.trans hch')
        rcases hcases with hsame | ⟨habsent, rfl⟩
        · exact hsame.marked (hm.getD marked_default s c)
        · exact marked_joined amb nat habsent (hm.getD marked_default s c)
      · rw [connectSection_others amb s₁ c₁ n nat src st hsc] at hch'
        split_ifs at hch'
        · obtain ⟨ch, hch, rfl⟩ := Option.map_eq_some_iff.mp hch'
          exact fun u hu => hm s c ch hch u (List.mem_filter.mp hu).1
        · exact hm s c ch' hch'

theorem pickers_eq (h : ch.Marked) : pickEligibleRelay ch = Heartbeat.pickEligibleRelay ch :=
  find?_congr_mem fun u hu => eligible_eq (h u hu)

end Marks

/-- The server can come to have the map, between two critical sections of its tasks. -/
def ServerMap.Reachable (st : ServerMap) : Prop :=
  ∃ ms : List (Move ServerStep), (interleaved ms).value = st

/-- Among others after whole steps. -/
theorem reachable_after (ls : List ServerStep) : (after ServerMap.step ∅ ls).Reachable :=
  exists_interleaved ls

/-- What every critical section keeps is so of all of them. -/
theorem ServerMap.Reachable.of_section {J : ServerMap → Prop} {st : ServerMap} (hst : st.Reachable)
    (hempty : J ∅) (hJ : ∀ st st', J st → CriticalSection st st' → J st') : J st := by
  obtain ⟨ms, rfl⟩ := hst
  exact (after_of_always _ _
    (always_moves CriticalSection.refl guarantees_section hJ hempty ms)).2

theorem ServerMap.Reachable.marked {st : ServerMap} (hst : st.Reachable) :
    Everywhere Channel.Marked st :=
  hst.of_section (everywhere_empty _) fun _ _ => marked_section

/-- **The two pickers agree** on every channel, after any steps and between any
critical sections of them. -/
theorem pickers_agree (ls : List ServerStep) (ms : List (Move ServerStep)) :
    Everywhere (fun ch => pickEligibleRelay ch = Heartbeat.pickEligibleRelay ch)
        (after ServerMap.step ∅ ls) ∧
      Everywhere (fun ch => pickEligibleRelay ch = Heartbeat.pickEligibleRelay ch)
        (interleaved ms).value := by
  have h : ∀ {st : ServerMap}, st.Reachable →
      Everywhere (fun ch => pickEligibleRelay ch = Heartbeat.pickEligibleRelay ch) st :=
    fun hst s c ch hch => pickers_eq (hst.marked s c ch hch)
  exact ⟨h (reachable_after ls), h ⟨ms, rfl⟩⟩

end NatPiercer.Signaling
