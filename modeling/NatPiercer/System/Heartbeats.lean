/-
# `System.Heartbeats` — the beat of a client and the patience of the server

`heartbeat_loop` of `src/client/networking.rs` sends an `HB`, sleeps for twenty
seconds, and starts over, for as long as the client runs.  A heartbeat pass of
the server drops a session that it has not heard of for more than forty.

A thread sleeps for as long as it has asked for, or longer; a datagram takes
its time, or is lost.  What the two constants leave room for is said by
`heartbeats_iff`.  With no beat lost, being late and being on the way may come
to twenty seconds.  With one lost, there is no room at all.
-/
import NatPiercer.Client.Arguments
import NatPiercer.Signaling.Lifetimes

namespace NatPiercer.System

open Text Utf8 Net Proto Signaling Client

/-- `HEARTBEAT_SLEEP_SEC` -/
def heartbeatSleep : Nat := 20 * 10 ^ 9

/-- When `heartbeat_loop` sends, with `slack` for what it may oversleep. -/
structure Heartbeats (slack : Nat) where
  sentAt : Nat → Nat
  sleeps : ∀ k, sentAt k + heartbeatSleep ≤ sentAt (k + 1)
  wakes : ∀ k, sentAt (k + 1) ≤ sentAt k + (heartbeatSleep + slack)

/-- The beats of the user `n` at `a` arrive, none of them more than `delay` after it
is sent, and not more than `lost` in a row are lost: before each pass, that
is so of those that are due. -/
def Heartbeats.Delivered {slack : Nat} (beats : Heartbeats slack) (delay lost : Nat)
    (s c n : Token) (a : SocketAddr) (ls : List ServerStep) : Prop :=
  ∀ pre now post, ls = pre ++ .heartbeat now :: post →
    Beats.Heard delay lost beats.sentAt (fun k => ∃ amb,
      .message amb (hbText s.text c.text n.text) a ∈ pre ∧ beats.sentAt k ≤ amb.now) now

/-- No session is lost whose client beats: in no state that the server can come to
have, and along no run, as long as no message ends it. -/
def HeartbeatsSuffice (slack delay lost : Nat) : Prop :=
  ∀ (st : ServerMap) (s c n : Token) (a : SocketAddr) (u : User) (beats : Heartbeats slack)
    (ls : List ServerStep),
    st.Reachable → st.session? s c n a = some u → Beats.InTime ServerStep.instant? u.lastPong ls →
      (∀ l ∈ ls, l.Spared s c n a) → beats.sentAt 0 ≤ u.lastPong + (heartbeatSleep + slack) →
        beats.Delivered delay lost s c n a ls →
          Always ServerMap.step (fun st' => (st'.session? s c n a).isSome = true) st ls

theorem isSign_hbText (amb : Ambient) (s c n : Token) (a : SocketAddr) :
    (ServerStep.message amb (hbText s.text c.text n.text) a).IsSign s c n a :=
  ⟨rfl, Or.inl (ofText_hbText s c n)⟩

theorem le_sentAt {slack : Nat} (beats : Heartbeats slack) (k : Nat) : k ≤ beats.sentAt k := by
  induction k with
  | zero => exact Nat.zero_le _
  | succ k ih =>
      have hsleeps := beats.sleeps k
      unfold heartbeatSleep at hsleeps
      omega

section Suffice
variable {slack delay lost : Nat}

theorem heardInTime_of_delivered
    (hroom : (lost + 1) * (heartbeatSleep + slack) + delay ≤ patience) {beats : Heartbeats slack}
    {s c n : Token} {a : SocketAddr} {ls : List ServerStep} {t : Nat}
    (hstart : beats.sentAt 0 ≤ t + (heartbeatSleep + slack))
    (h : beats.Delivered delay lost s c n a ls) : (sessionWatch s c n a).HeardInTime t ls := by
  intro pre l post now hls hcheck
  obtain rfl : l = .heartbeat now := by
    cases l with
    | heartbeat now' => exact congrArg ServerStep.heartbeat (Option.some.inj hcheck)
    | message _ _ _ | relayout _ _ => exact absurd hcheck (Option.some_ne_none now).symm
  have hdue : ∃ k, (now : Nat) ≤ beats.sentAt k + delay :=
    ⟨now, (le_sentAt beats now).trans (Nat.le_add_right _ _)⟩
  rcases Beats.recent beats.wakes (h pre now post hls) hdue with hnow | ⟨j, ⟨amb, hmem, hj⟩, hnow⟩
  · rw [Nat.succ_mul] at hroom
    have hearly : beats.sentAt 0 + lost * (heartbeatSleep + slack) + delay ≤ t + patience := by
      omega
    exact Or.inl (hnow.trans hearly)
  · have hlate : beats.sentAt j + ((lost + 1) * (heartbeatSleep + slack) + delay) ≤
        beats.sentAt j + patience := Nat.add_le_add_left hroom _
    exact Or.inr ⟨_, hmem, isSign_hbText amb s c n a, amb.now, rfl,
      (hnow.trans hlate).trans (Nat.add_le_add_right hj _)⟩

theorem heartbeatsSuffice_of_le
    (hroom : (lost + 1) * (heartbeatSleep + slack) + delay ≤ patience) :
    HeartbeatsSuffice slack delay lost :=
  fun _ _ _ _ _ _ _ _ hst hu htime hspared hstart hdelivered =>
    lasts_of_heardInTime hst hu htime hspared (heardInTime_of_delivered hroom hstart hdelivered)

theorem sleeps_everyGap (slack k : Nat) :
    Beats.everyGap (heartbeatSleep + slack) k + heartbeatSleep ≤
      Beats.everyGap (heartbeatSleep + slack) (k + 1) := by
  rw [Beats.everyGap, Beats.everyGap, Nat.succ_mul]
  omega

/-- The beats of a client that oversleeps as much as it may. -/
def lateHeartbeats (slack : Nat) : Heartbeats slack :=
  ⟨Beats.everyGap (heartbeatSleep + slack), sleeps_everyGap slack, Beats.regular_everyGap _⟩

/-- Ann connects at `0` and beats at once.  A pass comes when the forty seconds are
over, and the next beat to arrive is still to come. -/
theorem not_heartbeatsSuffice_of_lt
    (hroom : patience < (lost + 1) * (heartbeatSleep + slack) + delay) :
    ¬ HeartbeatsSuffice slack delay lost := by
  intro h
  set s : Token := ⟨['s'], by decide⟩
  set c : Token := ⟨['c'], by decide⟩
  set n : Token := ⟨"ann".toList, by decide⟩
  set ann : SocketAddr := .v4 ⟨10, 0, 0, 1⟩ 4000
  set st := after ServerMap.step ∅ [.message ⟨0, 7⟩ "CONNECT s c ann".toList ann]
  set hb : ServerStep := .message ⟨0, 0⟩ (hbText s.text c.text n.text) ann
  have hu : st.session? s c n ann = some (User.new n ann .unknown 1 0) := by decide +kernel
  have hend : ((st.step hb).step (.heartbeat (patience + 1))).session? s c n ann = none := by
    decide +kernel
  have hlasts := h st s c n ann _ (lateHeartbeats slack) [hb, .heartbeat (patience + 1)]
    (reachable_after _) hu ⟨fun _ _ => Nat.zero_le _, fun _ _ => Nat.zero_le _, trivial⟩ ?_
    ((Nat.zero_mul _).trans_le (Nat.zero_le _)) ?_
  · have hlast : (ServerMap.session? _ s c n ann).isSome = true := hlasts.2.2
    rw [hend] at hlast
    exact Bool.false_ne_true hlast
  · intro l hl
    simp only [List.mem_cons, List.not_mem_nil, or_false] at hl
    rcases hl with rfl | rfl
    · change ¬ (Request.ofText (hbText s.text c.text n.text)).Ends s c n ann ann
      rw [ofText_hbText]
      exact id
    · trivial
  · intro pre now post hls
    have hpre : pre = [hb] ∧ now = patience + 1 := by
      rcases pre with _ | ⟨x, _ | ⟨y, pre⟩⟩
      · exact absurd (List.cons.inj hls).1 ServerStep.noConfusion
      · obtain ⟨rfl, hrest⟩ := List.cons.inj hls
        exact ⟨rfl, (ServerStep.heartbeat.inj (List.cons.inj hrest).1).symm⟩
      · have hlen := congrArg List.length hls
        simp at hlen
    obtain ⟨rfl, rfl⟩ := hpre
    exact Beats.heard_everyGap hroom
      ⟨⟨0, 0⟩, List.mem_cons_self, (Nat.zero_mul _).trans_le (Nat.le_refl 0)⟩

end Suffice

/-- **The beat and the patience.**  A client that beats keeps its session, in every
state and along every run, exactly if the beats from one that arrives to the
next, with all that they are late and on the way, come to forty seconds at
most. -/
theorem heartbeats_iff (slack delay lost : Nat) :
    HeartbeatsSuffice slack delay lost ↔
      (lost + 1) * (heartbeatSleep + slack) + delay ≤ patience :=
  ⟨fun h => Nat.le_of_not_lt fun hlt => not_heartbeatsSuffice_of_lt hlt h,
    heartbeatsSuffice_of_le⟩

end NatPiercer.System
