/-
# `Signaling.Outsiders` — who can change a channel?

`DISCONNECT` and `HB` are looked up by name *and* address, `PONG` by address:
from somewhere else they find nobody.  `PEER_TIMEOUT` and `REQUEST_RELAY`
look at the name alone, and never at where they come from.  So anybody who
knows the name of a member can remove it or have the server relay for it,
and a `PEER_TIMEOUT` makes a sole member the relay, whomever it names.
`unchanged_iff` says that there is no other way in.
-/
import NatPiercer.Signaling.ChannelCases

namespace NatPiercer.Signaling

open Text Utf8 Net Proto LockProg

/-- No member is at the address. -/
def Channel.Outside (src : SocketAddr) (ch : Channel) : Prop := ∀ u ∈ ch.users, u.addr ≠ src

/-- There is nothing in the channel `s`/`c` for the request to change: nobody of
the name, nobody who has to become the relay, nobody who has to be marked. -/
def Request.findsNothing (s c : Token) (ch : Channel) : Request → Prop
  | peerTimeout s' c' n => s = s' ∧ c = c' →
      (∀ u ∈ ch.users, u.name ≠ n) ∧ ∀ u, ch.users = [u] → ch.relay = some u.name
  | requestRelay s' c' n => s = s' ∧ c = c' →
      ∀ u, ch.users.find? (fun u => u.name = n) = some u → u.needsServerRelay = true
  | _ => True

section Operations
variable {ch : Channel} {n : Token} {src : SocketAddr} {now : Instant}

theorem isSession_of_outside (h : ch.Outside src) :
    ∀ u ∈ ch.users, u.isSession n src = false := fun u hu =>
  Bool.eq_false_iff.mpr fun hsess => h u hu (isSession_iff.mp hsess).2

theorem pong_of_outside (h : ch.Outside src) : ch.pong now src = ch := by
  rw [Channel.pong, Vec.modifyFirst_of_forall_not fun u hu hsrc => h u hu (of_decide_eq_true hsrc)]

theorem refresh_of_outside (h : ch.Outside src) : ch.refresh now n src = ch := by
  rw [Channel.refresh, Vec.modifyFirst_of_forall_not fun u hu hsess => by
    rw [isSession_of_outside h u hu] at hsess
    exact Bool.false_ne_true hsess]

theorem disconnect_of_outside (h : ch.Outside src) : (ch.disconnect n src).1 = ch :=
  disconnect_of_absent (isSession_of_outside h)

/-- Nobody leaves, and a sole user is on record already. -/
theorem removePeer_eq_self_iff : ch.removePeer n = ch ↔
    (∀ u ∈ ch.users, u.name ≠ n) ∧ ∀ u, ch.users = [u] → ch.relay = some u.name := by
  have hothers : ch.others n = ch.users ↔ ∀ u ∈ ch.users, u.name ≠ n := by
    rw [Channel.others, List.filter_eq_self]
    simp
  constructor
  · intro h
    have husers := congrArg Channel.users h
    have hrelay := congrArg Channel.relay h
    rw [removePeer_users] at husers
    rw [removePeer_relay, husers] at hrelay
    refine ⟨hothers.mp husers, fun u hu => ?_⟩
    rw [hu] at hrelay
    exact hrelay.symm
  · rintro ⟨habsent, hsole⟩
    have husers : ch.users.filter (fun u => u.name ≠ n) = ch.users := hothers.mpr habsent
    unfold Channel.removePeer
    rw [husers]
    obtain ⟨id, next, users, relay⟩ := ch
    rcases users with _ | ⟨u, _ | ⟨v, users⟩⟩
    · rfl
    · have hrelay := hsole u rfl
      dsimp only at hrelay ⊢
      rw [hrelay]
    · rfl

/-- Whoever is asked for is marked already. -/
theorem requestRelay_eq_self_iff : ch.requestRelay n = ch ↔
    ∀ u, ch.users.find? (fun u => u.name = n) = some u → u.needsServerRelay = true := by
  have hch : ch.requestRelay n = ch ↔ (ch.requestRelay n).users = ch.users :=
    ⟨congrArg Channel.users, fun h => by
      change { ch with users := (ch.requestRelay n).users } = ch
      rw [h]⟩
  have hmark : ∀ u : User, { u with needsServerRelay := true } = u ↔ u.needsServerRelay = true :=
    fun u => ⟨fun h => congrArg User.needsServerRelay h.symm, fun h => by rw [← h]⟩
  rw [hch, Channel.requestRelay, Vec.modifyFirst_eq_self_iff]
  exact forall₂_congr fun u _ => hmark u

end Operations

/-- **When an outsider leaves a channel alone.**  A message other than `CONNECT`,
from an address that is no member's, changes nothing in the channel exactly
if it finds nothing there to change. -/
theorem unchanged_iff (st : ServerMap) (s c : Token) (ch : Channel) (amb : Ambient) (text : Str)
    (src : SocketAddr) (hch : st.channel? s c = some ch) (hout : ch.Outside src)
    (hconnect : ∀ s' c' n natArg, Request.ofText text ≠ .connect s' c' n natArg) :
    (st.step (.message amb text src)).channel? s c = some ch ↔
      (Request.ofText text).findsNothing s c ch := by
  rw [channel?_step, ServerStep.effect, hch]
  cases hreq : Request.ofText text with
  | connect s' c' n natArg => exact absurd hreq (hconnect s' c' n natArg)
  | natProbe | data | unknown => exact iff_of_true rfl trivial
  | pong =>
      refine iff_of_true ?_ trivial
      rw [Request.effect, Option.map_some, pong_of_outside hout]
  | hb s' c' n =>
      refine iff_of_true ?_ trivial
      rw [Request.effect, Option.map_some, refresh_of_outside hout, ite_self]
  | disconnect s' c' n =>
      refine iff_of_true ?_ trivial
      rw [Request.effect, Option.map_some, disconnect_of_outside hout, ite_self]
  | peerTimeout s' c' n =>
      rw [Request.effect, Request.findsNothing, ← removePeer_eq_self_iff]
      split_ifs with hsc
      · rw [Option.map_some, Option.some.injEq]
        exact ⟨fun h _ => h, fun h => h hsc⟩
      · exact iff_of_true rfl fun h => absurd h hsc
  | requestRelay s' c' n =>
      rw [Request.effect, Request.findsNothing, ← requestRelay_eq_self_iff]
      split_ifs with hsc
      · rw [Option.map_some, Option.some.injEq]
        exact ⟨fun h _ => h, fun h => h hsc⟩
      · exact iff_of_true rfl fun h => absurd h hsc

/-- Somebody asks the server to relay for Sam, for whom it does. -/
theorem unchanged_sam :
    let sam : User := ⟨1, ⟨"sam".toList, by decide⟩, .v4 ⟨10, 0, 0, 1⟩ 4000, 0, true, .symmetric⟩
    let st := after ServerMap.step ∅
      [.message ⟨0, 7⟩ "CONNECT s c sam SYMMETRIC".toList (.v4 ⟨10, 0, 0, 1⟩ 4000)]
    (st.step (.message ⟨1, 8⟩ "REQUEST_RELAY s c sam".toList (.v4 ⟨10, 0, 0, 9⟩ 4000))).channel?
      ⟨"s".toList, by decide⟩ ⟨"c".toList, by decide⟩ = some ⟨7, 2, [sam], none⟩ := by
  intro sam st
  have hreq : Request.ofText "REQUEST_RELAY s c sam".toList = .requestRelay ⟨"s".toList, by decide⟩
      ⟨"c".toList, by decide⟩ ⟨"sam".toList, by decide⟩ := by
    decide +kernel
  refine (unchanged_iff st ⟨"s".toList, by decide⟩ ⟨"c".toList, by decide⟩ ⟨7, 2, [sam], none⟩
    ⟨1, 8⟩ "REQUEST_RELAY s c sam".toList (.v4 ⟨10, 0, 0, 9⟩ 4000) (by decide +kernel) ?_ ?_).mpr ?_
  · intro u hu
    rw [List.mem_singleton.mp hu]
    decide
  · intro s' c' n natArg h
    rw [hreq] at h
    simp at h
  · rw [hreq]
    rintro - u hu
    rw [List.mem_singleton.mp (List.mem_of_find?_eq_some hu)]

/-- Somebody who is not in the channel reports Ann, and Ann is out of it. -/
theorem outsider_evicts_ann :
    let ann : User := ⟨1, ⟨"ann".toList, by decide⟩, .v4 ⟨10, 0, 0, 1⟩ 4000, 0, false, .cone⟩
    let ch : Channel := ⟨7, 2, [ann], some ann.name⟩
    let st := after ServerMap.step ∅
      [.message ⟨0, 7⟩ "CONNECT s c ann CONE".toList (.v4 ⟨10, 0, 0, 1⟩ 4000)]
    st.channel? ⟨"s".toList, by decide⟩ ⟨"c".toList, by decide⟩ = some ch ∧
    (∀ u ∈ ch.users, u.addr ≠ .v4 ⟨10, 0, 0, 9⟩ 4000) ∧
    (st.step (.message ⟨1, 8⟩ "PEER_TIMEOUT s c ann".toList (.v4 ⟨10, 0, 0, 9⟩ 4000))).channel?
      ⟨"s".toList, by decide⟩ ⟨"c".toList, by decide⟩ ≠ some ch := by
  decide +kernel

end NatPiercer.Signaling
