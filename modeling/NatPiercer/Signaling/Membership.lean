/-
# `Signaling.Membership` — is the recorded relay there?

`relay = Some(n)` is meant to name a user of the channel.  Ten functions
write users or relay; two of them remove a user and leave the name behind:

* a `CONNECT` to one channel drops the session from every other channel of
  the server (`remove_user_from_other_channels`) and looks at no relay there;
* a `PEER_TIMEOUT` removes by name, and repairs the relay only when exactly
  one user is left.

Everything else keeps the name among the users, so the two conditions
together are exactly when it stays there along a run.
-/
import NatPiercer.Signaling.ChannelCases

namespace NatPiercer.Signaling

open Text Utf8 Net Proto LockProg

/-- The recorded relay, if there is one, is a user of the channel. -/
def Channel.RelayPresent (ch : Channel) : Prop :=
  ∀ n, ch.relay = some n → ∃ u ∈ ch.users, u.name = n

/-- What a request has to leave alone: a `CONNECT` must not take the relay of
another channel away from there, a `PEER_TIMEOUT` must not name the relay,
unless one user is left. -/
def Request.sparesRelay (st : ServerMap) (src : SocketAddr) : Request → Prop
  | connect s c n _ => ∀ c' ch, c' ≠ c → st.channel? s c' = some ch → ch.relay = some n →
      ∀ u ∈ ch.users, u.isSession n src = false
  | peerTimeout s c n => ∀ ch, st.channel? s c = some ch → ch.relay = some n →
      ∃ u, ch.others n = [u]
  | _ => True

def ServerStep.sparesRelay (st : ServerMap) : ServerStep → Prop
  | message _ text src => (Request.ofText text).sparesRelay st src
  | heartbeat _ | relayout _ _ => True

/-! ## Where relays come from -/

theorem electedName_mem {users : List User} {n : Token} (h : electedName users = some n) :
    ∃ u ∈ users, u.name = n := by
  obtain ⟨u, hu, rfl⟩ := Option.map_eq_some_iff.mp h
  exact ⟨u, List.mem_of_find?_eq_some hu, rfl⟩

theorem sparedName_mem {users : List User} {n : Token} (h : sparedName users = some n) :
    ∃ u ∈ users, u.name = n := by
  obtain ⟨u, hu, rfl⟩ := Option.map_eq_some_iff.mp h
  exact ⟨u, List.mem_of_find?_eq_some hu, rfl⟩

theorem soleOr_mem {users : List User} {relay : Option Token} {n : Token}
    (h : soleOr relay users = some n) : (∃ u ∈ users, u.name = n) ∨ relay = some n := by
  rcases users with _ | ⟨u, _ | ⟨v, users⟩⟩
  · exact Or.inr h
  · exact Or.inl ⟨u, List.mem_cons_self, Option.some.inj h⟩
  · exact Or.inr h

section Steps
variable {ch : Channel} {n : Token} {src : SocketAddr}

/-- A user that is not called `n` is still there when `n` has left. -/
theorem relayPresent_others {relay : Option Token} (hp : ch.RelayPresent)
    (hr : relay = ch.relay) (hne : ch.relay ≠ some n) :
    ∀ m, relay = some m → ∃ u ∈ ch.others n, u.name = m := by
  intro m hm
  obtain ⟨u, hu, rfl⟩ := hp m (hr ▸ hm)
  exact ⟨u, mem_others.mpr ⟨hu, fun h => hne (hr ▸ h ▸ hm)⟩, rfl⟩

theorem relayPresent_standing {ch' : Channel} (h : SameStanding ch ch') (hp : ch.RelayPresent) :
    ch'.RelayPresent := by
  intro n hn
  obtain ⟨u, hu, rfl⟩ := hp n (h.2 ▸ hn)
  obtain ⟨v, hv, hvu⟩ := h.symm.mem hu
  exact ⟨v, hv, congrArg Prod.fst hvu⟩

theorem relayPresent_connect (hp : ch.RelayPresent) (amb : Ambient) (nat : NatKind) :
    (ch.connect amb n nat src).1.RelayPresent := by
  rcases session_or_new n src ch with h | hnew
  · exact relayPresent_standing (connect_of_session _ _ h).1 hp
  · intro m hm
    by_cases ho : ch.others n = []
    · obtain ⟨husers, hrelay, _⟩ := connect_lone amb nat hnew ho
      rw [husers]
      rw [hrelay] at hm
      refine ⟨_, List.mem_cons_self, ?_⟩
      split_ifs at hm
      · exact Option.some.inj hm
      · -- the old relay can only have been an older session of `n`
        obtain ⟨u, hu, rfl⟩ := hp m hm
        by_contra hne
        have hmem : u ∈ ch.others n := mem_others.mpr ⟨hu, fun h => hne h.symm⟩
        rw [ho] at hmem
        exact absurd hmem List.not_mem_nil
    · rw [(connect_elect amb nat hnew ho).1] at hm ⊢
      rw [elect_relay] at hm
      rw [elect_users]
      exact electedName_mem hm

theorem relayPresent_disconnect (hn : ch.WellNamed) (hp : ch.RelayPresent) :
    (ch.disconnect n src).1.RelayPresent := by
  rcases session_or_new n src ch with h | habsent
  · obtain ⟨husers, hrelay⟩ := disconnect_of_session hn h
    intro m hm
    rw [husers]
    rw [hrelay] at hm
    split_ifs at hm with hr
    · rcases soleOr_mem hm with h | h
      · exact h
      · exact electedName_mem h
    · exact relayPresent_others hp rfl hr m hm
  · rw [disconnect_of_absent habsent]
    exact hp

theorem relayPresent_removePeer (hp : ch.RelayPresent) :
    (ch.removePeer n).RelayPresent ↔ (ch.relay = some n → ∃ u, ch.others n = [u]) := by
  unfold Channel.RelayPresent
  rw [removePeer_users, removePeer_relay]
  constructor
  · intro h hr
    by_contra hmany
    have hlen : (ch.others n).length ≠ 1 := fun hlen => hmany (List.length_eq_one_iff.mp hlen)
    rw [soleOr_of_length _ hlen] at h
    obtain ⟨u, hu, hname⟩ := h n hr
    exact (mem_others.mp hu).2 hname
  · intro h m hm
    by_cases hr : ch.relay = some n
    · obtain ⟨u, hu⟩ := h hr
      rw [hu] at hm ⊢
      exact ⟨u, List.mem_cons_self, Option.some.inj hm⟩
    · rcases soleOr_mem hm with h | h
      · exact h
      · exact relayPresent_others hp rfl hr m h

theorem relayPresent_evict (hn : ch.WellNamed) (hp : ch.RelayPresent) :
    (ch.evict n src).RelayPresent ↔
      (ch.relay = some n → ∀ u ∈ ch.users, u.isSession n src = false) := by
  rcases session_or_new n src ch with h | habsent
  · constructor
    · intro hp' hr
      obtain ⟨u, hu, hname⟩ := hp' n hr
      rw [evict_users hn h] at hu
      exact absurd hname (mem_others.mp hu).2
    · intro hno m hm
      obtain ⟨x, hx, hsess⟩ := h
      rw [evict_users hn ⟨x, hx, hsess⟩]
      exact relayPresent_others hp rfl
        (fun hr => by simp [hno hr x hx] at hsess) m hm
  · rw [evict_of_absent habsent]
    exact ⟨fun _ _ => habsent, fun _ => hp⟩

/-- Removing one expired user keeps the relay among the rest. -/
theorem relayPresent_handleTimedOutUser {i : Nat} {u : User} (hp : ch.RelayPresent)
    (hu : ch.users[i]? = some u) :
    (handleTimedOutUser ch i u.name u.addr).1.RelayPresent := by
  obtain ⟨hi, rfl⟩ := List.getElem?_eq_some_iff.mp hu
  unfold Channel.RelayPresent
  rw [handleTimedOutUser_users, handleTimedOutUser_relay]
  intro m hm
  split_ifs at hm with hr
  · exact sparedName_mem hm
  · rcases soleOr_mem hm with h | h
    · exact h
    · obtain ⟨v, hv, rfl⟩ := hp m h
      refine ⟨v, ?_, rfl⟩
      have hne : v ≠ ch.users[i] := fun h' => hr (h' ▸ h)
      exact (List.mem_eraseIdx_iff_getElem).mpr (by
        obtain ⟨j, hj, rfl⟩ := List.getElem_of_mem hv
        exact ⟨j, hj, fun hji => hne (by simp [hji]), rfl⟩)

theorem relayPresent_heartbeat {now : Instant} {ch' : Channel}
    (hp : ch.RelayPresent) (h : ch.heartbeat now = some ch') : ch'.RelayPresent := by
  obtain ⟨husers, ⟨u, hu, hrelay⟩ | ⟨-, rfl⟩⟩ := heartbeat_eq_some h
  · intro m hm
    rw [husers, hu]
    rw [hrelay] at hm
    split_ifs at hm
    exact ⟨u, List.mem_cons_self, Option.some.inj hm⟩
  · exact expire_induct _ _ (Q := fun ch _ => ch.RelayPresent) hp
      fun ch _ i u hQ hu _ _ => relayPresent_handleTimedOutUser hQ hu

theorem relayPresent_requestRelay (hp : ch.RelayPresent) : (ch.requestRelay n).RelayPresent := by
  intro m hm
  obtain ⟨u, hu, rfl⟩ := hp m hm
  have hmem : u.name ∈ (ch.requestRelay n).users.map User.name := by
    rw [map_name_requestRelay]
    exact List.mem_map_of_mem hu
  exact List.mem_map.mp hmem

end Steps

/-! ## Step and run -/

/-- A step keeps the relay present everywhere exactly when it spares it. -/
theorem relayPresent_step_iff {st : ServerMap} (l : ServerStep)
    (hn : Everywhere Channel.WellNamed st) (hp : Everywhere Channel.RelayPresent st) :
    Everywhere Channel.RelayPresent (st.step l) ↔ l.sparesRelay st := by
  rw [everywhere_step]
  constructor
  · intro h
    cases l with
    | heartbeat now => trivial
    | relayout s c => trivial
    | message amb text src =>
        change (Request.ofText text).sparesRelay st src
        have h : ∀ s c ch, (Request.ofText text).effect amb src s c (st.channel? s c) = some ch →
            ch.RelayPresent := h
        cases hreq : Request.ofText text with
        | connect s c n natArg =>
            intro c' ch hc hch
            refine (relayPresent_evict (hn _ _ _ hch) (hp _ _ _ hch)).mp (h s c' _ ?_)
            rw [hreq, hch, Request.effect, if_neg fun hsc => hc hsc.2, if_pos rfl]
            rfl
        | peerTimeout s c n =>
            intro ch hch
            refine (relayPresent_removePeer (hp _ _ _ hch)).mp (h s c _ ?_)
            rw [hreq, hch, Request.effect, if_pos ⟨rfl, rfl⟩]
            rfl
        | natProbe | pong | hb _ _ _ | disconnect _ _ _ | requestRelay _ _ _ | data | unknown =>
            trivial
  · intro hspare s c ch' hch'
    have hchange := change_of_effect hch'
    generalize ho : st.channel? s c = o at hchange
    cases hchange with
    | standing h => exact relayPresent_standing h (hp _ _ _ ho)
    | connect hl hreq =>
        refine relayPresent_connect ?_ _ _
        cases o with
        | none => exact fun n hn => absurd hn (Option.some_ne_none n).symm
        | some ch => exact hp _ _ _ ho
    | @evict amb text src c' n natArg ch hl hreq hc =>
        subst hl
        change (Request.ofText text).sparesRelay st src at hspare
        rw [hreq] at hspare
        exact (relayPresent_evict (hn _ _ _ ho) (hp _ _ _ ho)).mpr (hspare c ch hc ho)
    | disconnect hl hreq => exact relayPresent_disconnect (hn _ _ _ ho) (hp _ _ _ ho)
    | @peerTimeout amb text src n ch hl hreq =>
        subst hl
        change (Request.ofText text).sparesRelay st src at hspare
        rw [hreq] at hspare
        exact (relayPresent_removePeer (hp _ _ _ ho)).mpr (hspare ch ho)
    | requestRelay hl hreq => exact relayPresent_requestRelay (hp _ _ _ ho)
    | heartbeat hl h => exact relayPresent_heartbeat (hp _ _ _ ho) h

/-- **When the recorded relay stays a member.**  Along a run from the empty
map, every channel names a member as its relay in every state exactly when
every step spares the relay. -/
theorem relayPresent_always_iff (ls : List ServerStep) :
    Always ServerMap.step (Everywhere Channel.RelayPresent) ∅ ls ↔
      EachStep ServerMap.step (fun st l => l.sparesRelay st) ∅ ls :=
  always_iff_eachStep (J := Everywhere Channel.WellNamed) (fun _ l => wellNamed_step l)
    (fun _ l => relayPresent_step_iff l) ls (everywhere_empty _) (everywhere_empty _)

/-- Ann connects to one channel, then to another of the same server: the first
names her as its relay and has no users. -/
theorem relay_lost_to_connect :
    let ann : SocketAddr := .v4 ⟨10, 0, 0, 1⟩ 4000
    let run : List ServerStep :=
      [.message ⟨0, 7⟩ "CONNECT s x ann CONE".toList ann,
        .message ⟨1, 8⟩ "CONNECT s y ann CONE".toList ann]
    ¬ Everywhere Channel.RelayPresent (after ServerMap.step ∅ run) := by
  intro ann run h
  have hx : (after ServerMap.step ∅ run).channel? ⟨"s".toList, by decide⟩ ⟨"x".toList, by decide⟩ =
      some ⟨7, 2, [], some ⟨"ann".toList, by decide⟩⟩ := by
    decide +kernel
  obtain ⟨u, hu, -⟩ := h _ _ _ hx _ rfl
  exact absurd hu List.not_mem_nil

end NatPiercer.Signaling
