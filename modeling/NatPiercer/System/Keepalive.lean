/-
# `System.Keepalive` — the passes of a relay and its patience

A relay sends a `PING` to every peer of its table, waits for fifteen seconds, and
starts over; a peer answers with a `PONG`, whatever state it is in
(`receive_ping`).  A peer that has not been heard of for more than sixty
seconds is dropped, and reported to the server, which then drops it too.

The wait may be longer than asked for, and also shorter: it is on a condition
variable.  What the two constants leave room for is said by `keepalive_iff`.
-/
import NatPiercer.Client.Entries

namespace NatPiercer.System

open Text Utf8 Net Proto Signaling Client

/-- `RELAY_TICK_SEC` -/
def relayTickPeriod : Nat := 15 * 10 ^ 9

/-- The answer to a `PING`. -/
def pong (dst : SocketAddr) : Datagram := tell dst msgPong.text

/-- Every client answers, in the setup and after it. -/
theorem receive_ping (now : Instant) (server src : SocketAddr) (me : Client) :
    (me.handleRecvResult now server src (asBytes msgPing.text)).2.2 = [pong src] ∧
      (me.receive now server src (asBytes msgPing.text)).2 = [pong src] := by
  have hread : Reading.ofBytes (asBytes msgPing.text) = .plain msgPing.text := by
    have hdecode : decode (asBytes msgPing.text) = none := by decide +kernel
    rw [Reading.ofBytes, hdecode, fromUtf8Lossy_asBytes]
  have hlines : lines msgPing.text = [msgPing.text] := by decide
  have htrim : trim msgPing.text = msgPing.text := by decide
  have hsent : ∀ me : Client, (me.processIncomingMessage now server msgPing.text src).2 =
      [pong src] := by
    intro me
    rw [processIncomingMessage, hlines, processLines, htrim, if_neg (by decide), processLine,
      if_pos rfl]
    rfl
  rw [handleRecvResult_eq, receive_eq, hread]
  dsimp only
  unfold setupText receiveText
  split_ifs
  · exact ⟨hsent me, hsent me⟩
  · exact ⟨hsent (me.handlePeerMessage now src), hsent (me.handlePeerMessage now src)⟩

/-- When `relay_main_loop` has its passes, with `slack` for what it may oversleep. -/
structure Passes (slack : Nat) where
  passAt : Nat → Nat
  later : ∀ k, passAt k ≤ passAt (k + 1)
  wakes : ∀ k, passAt (k + 1) ≤ passAt k + (relayTickPeriod + slack)

section Passes
variable {slack : Nat} (passes : Passes slack)

/-- The passes of a run are these, from the `k`-th on. -/
def Passes.Scheduled : Nat → List Happening → Prop
  | _, [] => True
  | k, .tick now :: hs => now = passes.passAt k ∧ Scheduled (k + 1) hs
  | k, .event _ :: hs => Scheduled k hs

/-- The peer at `a` answers: a `PONG` is there at most `rtt` after the pass whose `PING`
it answers, and not more than `lost` in a row are missing. -/
def Passes.Answered (rtt lost : Nat) (a : SocketAddr) (hs : List Happening) : Prop :=
  ∀ pre now post, hs = pre ++ .tick now :: post →
    Beats.Heard rtt lost passes.passAt (fun k => ∃ t dst,
      .event (.datagram t a (pong dst).payload) ∈ pre ∧ passes.passAt k ≤ t) now

theorem passAt_of_scheduled {now : Instant} {pre post : List Happening} :
    ∀ {k : Nat}, passes.Scheduled k (pre ++ .tick now :: post) → ∃ m, now = passes.passAt m := by
  induction pre with
  | nil => exact fun {k} h => ⟨k, h.1⟩
  | cons h pre ih =>
      cases h with
      | tick _ => exact fun hs => ih hs.2
      | event _ => exact fun hs => ih hs

end Passes

/-- No peer is dropped that answers: in no state that a client can come to have, and
along no run, as long as nobody says that it left. -/
def PongsSuffice (slack rtt lost : Nat) : Prop :=
  ∀ (server : SocketAddr) (serverId channel : Token) (user : Str) (before : List Happening)
    (a : SocketAddr) (n : Token) (u : PeerInfo) (passes : Passes slack) (hs : List Happening),
    let st := after (Listening.happen server serverId channel) (.fresh user) before
    st.me.peer? a n = some u → Beats.InTime Happening.instant? u.lastPong hs →
      (∀ h ∈ hs, h.Spares n) → passes.passAt 0 ≤ u.lastPong + (relayTickPeriod + slack) →
        passes.Scheduled 0 hs → passes.Answered rtt lost a hs →
          Always (Listening.happen server serverId channel)
            (fun st' => (st'.me.peer? a n).isSome = true) st hs

theorem isSign_pong (t : Instant) (a dst : SocketAddr) :
    (Happening.event (.datagram t a (pong dst).payload)).IsSign a :=
  ⟨rfl, (by decide +kernel : .pong ∈ heardIn (asBytes msgPong.text))⟩

section Suffice
variable {slack rtt lost : Nat}

theorem heardInTime_of_answered
    (hroom : (lost + 1) * (relayTickPeriod + slack) + rtt ≤ peerTimeout) {passes : Passes slack}
    {a : SocketAddr} {n : Token} {hs : List Happening} {t : Nat}
    (hstart : passes.passAt 0 ≤ t + (relayTickPeriod + slack)) (hsched : passes.Scheduled 0 hs)
    (h : passes.Answered rtt lost a hs) : (entryWatch a n).HeardInTime t hs := by
  intro pre happening post now hhs hcheck
  obtain rfl : happening = .tick now := by
    cases happening with
    | tick now' => exact congrArg Happening.tick (Option.some.inj hcheck)
    | event _ => exact absurd hcheck (Option.some_ne_none now).symm
  rw [hhs] at hsched
  obtain ⟨m, hm⟩ := passAt_of_scheduled passes hsched
  have hdue : ∃ k, (now : Nat) ≤ passes.passAt k + rtt := ⟨m, hm ▸ Nat.le_add_right _ _⟩
  rcases Beats.recent passes.wakes (h pre now post hhs) hdue with
    hnow | ⟨j, ⟨at', dst, hmem, hj⟩, hnow⟩
  · rw [Nat.succ_mul] at hroom
    have hearly : passes.passAt 0 + lost * (relayTickPeriod + slack) + rtt ≤ t + peerTimeout := by
      omega
    exact Or.inl (hnow.trans hearly)
  · have hlate : passes.passAt j + ((lost + 1) * (relayTickPeriod + slack) + rtt) ≤
        passes.passAt j + peerTimeout := Nat.add_le_add_left hroom _
    exact Or.inr ⟨_, hmem, isSign_pong at' a dst, at', rfl,
      (hnow.trans hlate).trans (Nat.add_le_add_right hj _)⟩

theorem pongsSuffice_of_le
    (hroom : (lost + 1) * (relayTickPeriod + slack) + rtt ≤ peerTimeout) :
    PongsSuffice slack rtt lost := by
  intro server serverId channel user before a n u passes hs st hu htime hspares hstart hsched hans
  have hsound : Sound st.me :=
    after_of_always _ _ (sound_always server serverId channel user before)
  exact stays_of_heardInTime server serverId channel hsound hu htime hspares
    (heardInTime_of_answered hroom hstart hsched hans)

theorem later_latePasses (slack k : Nat) :
    min (Beats.everyGap (relayTickPeriod + slack) k) (peerTimeout + 1) ≤
      min (Beats.everyGap (relayTickPeriod + slack) (k + 1)) (peerTimeout + 1) := by
  have hgap : Beats.everyGap (relayTickPeriod + slack) k ≤
      Beats.everyGap (relayTickPeriod + slack) (k + 1) := Nat.mul_le_mul_right _ (Nat.le_succ k)
  omega

theorem wakes_latePasses (slack k : Nat) :
    min (Beats.everyGap (relayTickPeriod + slack) (k + 1)) (peerTimeout + 1) ≤
      min (Beats.everyGap (relayTickPeriod + slack) k) (peerTimeout + 1) +
        (relayTickPeriod + slack) := by
  have hgap := Beats.regular_everyGap (relayTickPeriod + slack) k
  omega

/-- A relay whose passes are as late as they may be, until one finds Bob too old. -/
def latePasses (slack : Nat) : Passes slack where
  passAt k := min (Beats.everyGap (relayTickPeriod + slack) k) (peerTimeout + 1)
  later := later_latePasses slack
  wakes := wakes_latePasses slack

/-- The first is answered, and no other has to be yet. -/
theorem heard_latePasses (hroom : peerTimeout < (lost + 1) * (relayTickPeriod + slack) + rtt)
    {now : Nat} (hnow : now ≤ peerTimeout + 1) {heard : Nat → Prop} (hzero : 0 < now → heard 0) :
    Beats.Heard rtt lost (latePasses slack).passAt heard now := by
  intro k hdue
  rcases Nat.eq_zero_or_pos k with rfl | hk
  · exact ⟨0, Nat.le_refl 0, Nat.zero_le _, hzero (Nat.zero_lt_of_lt hdue)⟩
  · have hgap : (lost + 1) * (relayTickPeriod + slack) ≤ (k + lost) * (relayTickPeriod + slack) :=
      Nat.mul_le_mul_right _ (by omega)
    change min ((k + lost) * (relayTickPeriod + slack)) (peerTimeout + 1) + rtt < now at hdue
    omega

section Ticks
variable {server : SocketAddr} {serverId channel : Token} {a : SocketAddr} {n : Token}

theorem entry_none_after_ticks (ts : List Instant) :
    ∀ {st : Listening}, st.me.peer? a n = none →
      (after (Listening.happen server serverId channel) st (ts.map .tick)).me.peer? a n =
        none := by
  induction ts with
  | nil => exact fun h => h
  | cons t ts ih => exact fun h => ih (entry_tick_of_none server serverId channel h t)

/-- A pass that comes when the entry is late ends it, and the passes before make it
no fresher. -/
theorem entry_after_ticks {x : Nat} {ts : List Instant} :
    ∀ {st : Listening}, (∃ t : Nat, t ∈ ts ∧ x + peerTimeout < t) → st.me.isActive = true →
      Sound st.me →
      (∀ u, st.me.peer? a n = some u → u.lastPong = x ∧ u.useServerRelay = false) →
        (after (Listening.happen server serverId channel) st (ts.map .tick)).me.peer? a n =
          none := by
  induction ts with
  | nil => exact fun h => absurd h.choose_spec.1 List.not_mem_nil
  | cons t ts ih =>
      intro st hlate hactive hsound hentry
      cases hu : st.me.peer? a n with
      | none => exact entry_none_after_ticks (t :: ts) hu
      | some u =>
          obtain ⟨hpong, hrelayed⟩ := hentry u hu
          have htick := entry_tick server serverId channel hsound.table.distinct hu t
          rw [hactive, if_pos rfl] at htick
          have hsome : (after (Listening.happen server serverId channel)
              (st.happen server serverId channel (.tick t)) (ts.map .tick)).me.peer? a n = none := by
            by_cases ht : late t u = true
            · rw [if_pos ht] at htick
              exact entry_none_after_ticks ts htick
            · rw [if_neg ht] at htick
              refine ih ?_ ?_ (sound_happen server serverId channel st _ hsound) fun v hv => ?_
              · obtain ⟨t', hmem, hlt⟩ := hlate
                rcases List.mem_cons.mp hmem with rfl | hmem
                · refine absurd ?_ ht
                  have hold : t' - u.lastPong > peerTimeout := by
                    rw [hpong]
                    exact Nat.lt_sub_of_add_lt (Nat.add_comm _ _ ▸ hlt)
                  rw [late, hrelayed, decide_eq_true hold]
                  rfl
                · exact ⟨t', hmem, hlt⟩
              · unfold Listening.happen relayMainLoop
                dsimp only
                rw [if_pos hactive]
                exact hactive
              · rw [← Option.some.inj (htick.symm.trans hv)]
                unfold ticked
                split_ifs <;> exact ⟨hpong, hrelayed⟩
          exact hsome

end Ticks

/-- Bob answers the first `PING` at once, and is not heard of again. -/
theorem not_pongsSuffice_of_lt
    (hroom : peerTimeout < (lost + 1) * (relayTickPeriod + slack) + rtt) :
    ¬ PongsSuffice slack rtt lost := by
  intro h
  set server : SocketAddr := .v4 ⟨10, 0, 0, 9⟩ 2131
  set s : Token := ⟨['s'], by decide⟩
  set c : Token := ⟨['c'], by decide⟩
  set n : Token := ⟨"bob".toList, by decide⟩
  set bob : SocketAddr := .v4 ⟨10, 0, 0, 2⟩ 4000
  set before : List Happening := [.event (.datagram 0 server
    (asBytes "MODE RELAY
MODE DIRECT bob 10.0.0.2:4000
".toList))]
  set st := after (Listening.happen server s c) (.fresh []) before
  set answered : Happening := .event (.datagram 0 bob (pong server).payload)
  set answeredSt := (st.happen server s c (.tick 0)).happen server s c answered
  set passes := latePasses slack
  set ts : List Instant :=
    [passes.passAt 1, passes.passAt 2, passes.passAt 3, passes.passAt 4, passes.passAt 5]
  have hfirst : passes.passAt 0 = 0 := by
    change min (Beats.everyGap _ 0) _ = 0
    rw [Beats.everyGap, Nat.zero_mul, Nat.zero_min]
  have hlast : passes.passAt 5 = peerTimeout + 1 := by
    change min (Beats.everyGap _ 5) _ = _
    unfold Beats.everyGap relayTickPeriod peerTimeout
    omega
  have hu : st.me.peer? bob n = some (newPeer 0 n bob) := by decide +kernel
  have hv : answeredSt.me.peer? bob n = some { newPeer 0 n bob with connected := true } := by
    decide +kernel
  have hactive : answeredSt.me.isActive = true := by decide +kernel
  have hsound : Sound answeredSt.me :=
    sound_happen server s c _ _ (sound_happen server s c st (.tick 0)
      (after_of_always _ _ (sound_always server s c [] before)))
  have hlate : ∃ t : Nat, t ∈ ts ∧ 0 + peerTimeout < t :=
    ⟨passes.passAt 5, by simp [ts], by rw [hlast, Nat.zero_add]; exact Nat.lt_succ_self _⟩
  have hentry : ∀ w, answeredSt.me.peer? bob n = some w →
      w.lastPong = 0 ∧ w.useServerRelay = false := fun w hw => by
    rw [← Option.some.inj (hv.symm.trans hw)]
    exact ⟨rfl, rfl⟩
  have hend : (after (Listening.happen server s c) st
      (.tick 0 :: answered :: ts.map .tick)).me.peer? bob n = none := by
    rw [after, after]
    exact entry_after_ticks hlate hactive hsound hentry
  have hstays := h server s c [] before bob n _ passes (.tick 0 :: answered :: ts.map .tick) hu
    ?_ ?_ ?_ ?_ ?_
  · have hsome := after_of_always _ _ hstays
    rw [hend] at hsome
    exact Bool.false_ne_true hsome
  · have hlater : ∀ k now, Happening.instant? (.tick (passes.passAt (k + 1))) = some now →
        passes.passAt k ≤ now := fun k now hnow => Option.some.inj hnow ▸ passes.later k
    exact ⟨fun _ _ => Nat.zero_le _, fun _ _ => Nat.zero_le _, fun _ _ => Nat.zero_le _, hlater 1,
      hlater 2, hlater 3, hlater 4, trivial⟩
  · intro happening hmem
    rcases List.mem_cons.mp hmem with rfl | hmem
    · trivial
    rcases List.mem_cons.mp hmem with rfl | hmem
    · exact (by decide +kernel : .userLeft n ∉ heardIn (asBytes msgPong.text))
    · obtain ⟨t, -, rfl⟩ := List.mem_map.mp hmem
      trivial
  · rw [hfirst]
    exact Nat.zero_le _
  · exact ⟨hfirst.symm, rfl, rfl, rfl, rfl, rfl, trivial⟩
  · -- a pass that has been answered, and none that should have been
    intro pre now post hsplit
    have hsched : passes.Scheduled 0 (.tick 0 :: answered :: ts.map .tick) :=
      ⟨hfirst.symm, rfl, rfl, rfl, rfl, rfl, trivial⟩
    rw [hsplit] at hsched
    obtain ⟨m, hm⟩ := passAt_of_scheduled passes hsched
    have hnow : (now : Nat) ≤ peerTimeout + 1 := by
      rw [hm]
      exact Nat.min_le_right _ _
    refine heard_latePasses hroom hnow fun hpos => ?_
    have hpre : answered ∈ pre := by
      rcases pre with _ | ⟨x, _ | ⟨y, pre⟩⟩
      · rw [← Happening.tick.inj (List.cons.inj hsplit).1] at hpos
        exact absurd hpos (Nat.lt_irrefl 0)
      · exact Happening.noConfusion (List.cons.inj (List.cons.inj hsplit).2).1
      · rw [(List.cons.inj (List.cons.inj hsplit).2).1]
        exact List.mem_cons_of_mem _ List.mem_cons_self
    exact ⟨0, server, hpre, hfirst.le⟩

end Suffice

/-- **The passes and the patience.**  A peer that answers stays in the table of a
relay, in every state and along every run, exactly if the passes from one that
is answered to the next, with all that they are late and the answer is on the
way, come to sixty seconds at most. -/
theorem keepalive_iff (slack rtt lost : Nat) :
    PongsSuffice slack rtt lost ↔ (lost + 1) * (relayTickPeriod + slack) + rtt ≤ peerTimeout :=
  ⟨fun h => Nat.le_of_not_lt fun hlt => not_pongsSuffice_of_lt hlt h, pongsSuffice_of_le⟩

end NatPiercer.System
