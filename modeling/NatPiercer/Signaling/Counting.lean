/-
# `Signaling.Counting` — when the count of a channel runs over

`next_peer_id` starts with one: zero is the number under which the server itself
sends, and the largest `u32` is `BROADCAST`.  What is given out moves on with
`+= 1`, which in a release build goes round.  A channel is there for as long
as somebody is in it, and everybody who connects from another address than
before takes a number more, so nothing bounds the count but the time it takes.

Up to there the numbers are what they should be (`properIds_iff`): the session
that is begun under the number 2³² − 1 is the first to have one that it should
not, and after it come zero, and the numbers of those who joined first.
-/
import NatPiercer.Signaling.Addresses
import NatPiercer.Signaling.PeerIds

namespace NatPiercer.Signaling

open Text Utf8 Net Proto LockProg

/-- Nobody has a number that means something else, and no two have one. -/
structure Channel.ProperIds (ch : Channel) : Prop where
  notReserved : ∀ u ∈ ch.users, u.peerId ≠ 0 ∧ u.peerId ≠ broadcast
  distinct : (ch.users.map User.peerId).Nodup

/-- A `CONNECT` that begins a session finds that the last number has not been
reached. -/
def CountLeft (st : ServerMap) : ServerStep → Prop
  | .message _ text src => ∀ s c n natArg, Request.ofText text = .connect s c n natArg →
      (∀ u ∈ st.usersOf s c, u.isSession n src = false) →
        ((st.channel? s c).getD .default).nextPeerId ≠ broadcast
  | .heartbeat _ | .relayout _ _ => True

/-- The same, when the program of a step gets its first turn. -/
def TurnCountLeft (t : Tasks ServerMap Datagram) : Move ServerStep → Prop
  | .start _ => True
  | .turn i => ∀ l : ServerStep, t.running[i]? = some l.program → CountLeft t.value l

/-- The numbers increase, and the count has not run over. -/
structure Channel.Counting (ch : Channel) : Prop where
  numbered : ch.Numbered
  notOver : ch.nextPeerId ≠ 0

section Channels
variable {ch ch' : Channel} {s c n : Token} {src : SocketAddr}

theorem counting_default : Channel.default.Counting := ⟨numbered_default, by decide⟩

theorem Channel.Counting.proper (h : ch.Counting) : ch.ProperIds where
  notReserved u hu := by
    have hpos := h.numbered.positive u hu
    have hbelow := h.numbered.below_next u hu
    rw [broadcast]
    constructor <;> grind
  distinct := h.numbered.increasing.imp fun hlt => UInt32.ne_of_lt hlt

theorem Kept.counting (h : Kept ch ch') (hc : ch.Counting) : ch'.Counting :=
  ⟨h.numbered hc.numbered, by rw [h.2]; exact hc.notOver⟩

theorem Admitted.counting (h : Admitted n src ch ch') (hc : ch.Counting)
    (hleft : (∀ x ∈ ch.users, x.isSession n src = false) → ch.nextPeerId ≠ broadcast) :
    ch'.Counting := by
  cases h with
  | known hsession hroster hnext => exact Kept.counting (kept_of_roster hroster hnext) hc
  | new habsent hroster hnext =>
      have hlast := hleft habsent
      have hnot : ch'.nextPeerId ≠ 0 := by
        rw [broadcast] at hlast
        rw [hnext]
        grind
      exact ⟨Admitted.numbered (.new habsent hroster hnext) hc.numbered hc.notOver hnot, hnot⟩

/-- A session that is begun is given the count. -/
theorem Admitted.not_proper (h : Admitted n src ch ch')
    (habsent : ∀ x ∈ ch.users, x.isSession n src = false) (hlast : ch.nextPeerId = broadcast) :
    ¬ ch'.ProperIds := by
  intro hproper
  cases h with
  | known hsession hroster hnext =>
      obtain ⟨x, hx, hsession⟩ := hsession
      rw [habsent x hx] at hsession
      exact Bool.false_ne_true hsession
  | new _ hroster hnext =>
      have hmem : (ch.nextPeerId, n, src) ∈ ch'.roster := by
        rw [hroster]
        exact List.mem_append_right _ List.mem_cons_self
      obtain ⟨u, hu, hbadge⟩ := List.mem_map.mp hmem
      exact (hproper.notReserved u hu).2 ((congrArg Prod.fst hbadge).trans hlast)

/-- A `CONNECT` of a new session takes one number. -/
theorem nextPeerId_connect (amb : Ambient) (nat : NatKind)
    (h : ∀ x ∈ ch.users, x.isSession n src = false) :
    (ch.connect amb n nat src).1.nextPeerId = ch.nextPeerId + 1 := by
  have hafter : ∀ ch : Channel, ch.afterJoin.1.nextPeerId = ch.nextPeerId := by
    intro ch
    unfold Channel.afterJoin Channel.elect
    split_ifs
    · cases pickEligibleRelay ch <;> rfl
    · rfl
  have hconnect : (ch.connect amb n nat src).1 =
      (ch.joined amb n nat src).settleLone.1.afterJoin.1 := by
    unfold Channel.connect
    simp only [updateExistingUser_of_new h]
    rfl
  rw [hconnect, hafter]
  exact (joined_roster amb nat h).2

end Channels

/-! ## One step, and one turn -/

section Steps
variable {st st' : ServerMap} {s c n : Token} {src : SocketAddr}

theorem counting_revision (h : Revision st st') (hc : Everywhere Channel.Counting st) :
    Everywhere Channel.Counting st' := by
  intro s c ch' hch'
  obtain ⟨ch, hch, hrevised⟩ := h.channels s c ch' hch'
  exact hrevised.kept.counting (hc s c ch hch)

theorem counting_connectSection (hc : Everywhere Channel.Counting st) (amb : Ambient)
    (nat : NatKind) (hleft : (∀ u ∈ st.usersOf s c, u.isSession n src = false) →
      ((st.channel? s c).getD .default).nextPeerId ≠ broadcast) :
    Everywhere Channel.Counting ((connectSection amb s c n nat src).run st).state := by
  obtain ⟨ch', -, -, -, hnamed, hadmitted, -, hrest⟩ := connectSection_spec amb s c n nat src st
  rw [usersOf_eq_getD] at hleft
  intro s' c' ch hch
  by_cases hsc : s' = s ∧ c' = c
  · rw [hsc.1, hsc.2, hnamed] at hch
    obtain rfl := Option.some.inj hch
    exact hadmitted.counting (hc.getD counting_default s c) hleft
  · rw [hrest s' c' hsc] at hch
    split_ifs at hch
    · obtain ⟨old, hold, rfl⟩ := Option.map_eq_some_iff.mp hch
      exact (kept_evict n src old).counting (hc s' c' old hold)
    · exact hc s' c' ch hch

theorem countLeft_of_connectSection (amb : Ambient) (nat : NatKind)
    (h : Everywhere Channel.ProperIds ((connectSection amb s c n nat src).run st).state)
    (habsent : ∀ u ∈ st.usersOf s c, u.isSession n src = false) :
    ((st.channel? s c).getD .default).nextPeerId ≠ broadcast := by
  obtain ⟨ch', -, -, -, hnamed, hadmitted, -, -⟩ := connectSection_spec amb s c n nat src st
  rw [usersOf_eq_getD] at habsent
  exact fun hlast => hadmitted.not_proper habsent hlast (h s c ch' hnamed)

/-- A whole step is its critical sections. -/
theorem counting_step (hc : Everywhere Channel.Counting st) (l : ServerStep)
    (hleft : CountLeft st l) : Everywhere Channel.Counting (st.step l) := by
  by_cases hl : l.Connects
  · cases l with
    | message amb text src =>
        obtain ⟨s, c, n, natArg, hreq⟩ := hl
        change Everywhere Channel.Counting ((handleMessage amb text src).run st).state
        rw [handleMessage_eq, hreq, Request.handle, handleConnectMessage_eq, run_bind, run_locked]
        have hsection := counting_connectSection hc amb (NatKind.ofArg natArg)
          (hleft s c n natArg hreq)
        generalize (connectSection amb s c n (NatKind.ofArg natArg) src).run st = r at hsection ⊢
        exact ((sectioned_afterConnectSection s c n src r.val.1 r.val.2.1 r.val.2.2).guarantees
          Revision.refl).run Revision.refl (fun _ _ h hrev => counting_revision hrev h) hsection
    | heartbeat now => exact hl.elim
    | relayout s c => exact hl.elim
  · exact (guarantees_revision hl).run Revision.refl (fun _ _ h hrev => counting_revision hrev h) hc

theorem countLeft_of_step {l : ServerStep} (h : Everywhere Channel.ProperIds (st.step l)) :
    CountLeft st l := by
  cases l with
  | message amb text src =>
      intro s c n natArg hreq habsent hlast
      rw [usersOf_eq_getD] at habsent
      have hnamed := (channel?_connect st amb src hreq s c).trans (if_pos ⟨rfl, rfl⟩)
      have hproper := h s c _ hnamed
      have hmem : ((st.channel? s c).getD .default).newUser amb n (NatKind.ofArg natArg) src ∈
          (((st.channel? s c).getD .default).connect amb n (NatKind.ofArg natArg) src).1.users := by
        rw [connect_users_of_new amb _ habsent]
        exact List.mem_append_right _ List.mem_cons_self
      exact (hproper.notReserved _ hmem).2 ((ensureId_nextPeerId _ _).trans hlast)
  | heartbeat now => trivial
  | relayout s c => trivial

variable {t : Tasks ServerMap Datagram}

theorem counting_move (hb : Begun t) (hc : Everywhere Channel.Counting t.value)
    (m : Move ServerStep) (hleft : TurnCountLeft t m) :
    Everywhere Channel.Counting (t.move ServerStep.program m).value := by
  cases m with
  | start l => exact hc
  | turn i =>
      rw [Tasks.move]
      cases hi : t.running[i]? with
      | none => exact hc
      | some p =>
          rcases (hb.turn hi).2 with hrev | ⟨amb, text, src, rfl, s, c, n, natArg, hreq⟩
          · exact counting_revision hrev hc
          · change Everywhere Channel.Counting ((handleMessage amb text src).turn 0 t.value).state
            rw [turn_handleMessage_connect amb src hreq]
            exact counting_connectSection hc amb _ (hleft _ hi s c n natArg hreq)

theorem countLeft_of_move {m : Move ServerStep}
    (h : Everywhere Channel.ProperIds (t.move ServerStep.program m).value) :
    TurnCountLeft t m := by
  cases m with
  | start l => trivial
  | turn i =>
      intro l hi
      rw [Tasks.move, hi] at h
      cases l with
      | message amb text src =>
          intro s c n natArg hreq habsent
          change Everywhere Channel.ProperIds
            ((handleMessage amb text src).turn 0 t.value).state at h
          rw [turn_handleMessage_connect amb src hreq] at h
          exact countLeft_of_connectSection amb _ h habsent
      | heartbeat now => trivial
      | relayout s c => trivial

end Steps

/-- **When the numbers are what they should be**, in every state of a run of whole steps,
and of one of turns: when no session is begun under the last number. -/
theorem properIds_iff (ls : List ServerStep) (ms : List (Move ServerStep)) :
    (Always ServerMap.step (Everywhere Channel.ProperIds) ∅ ls ↔
        EachStep ServerMap.step CountLeft ∅ ls) ∧
      (Always (Tasks.move ServerStep.program) (fun t => Everywhere Channel.ProperIds t.value)
          ⟨∅, []⟩ ms ↔
        EachStep (Tasks.move ServerStep.program) TurnCountLeft ⟨∅, []⟩ ms) := by
  have hproper : ∀ st, Everywhere Channel.Counting st → Everywhere Channel.ProperIds st :=
    fun st h s c ch hch => (h s c ch hch).proper
  constructor
  · exact always_iff_eachStep_of (I := fun _ : ServerMap => True) (fun _ _ _ => trivial)
      (fun _ l _ hc hleft => counting_step hc l hleft) hproper (fun _ _ _ h => countLeft_of_step h)
      ls trivial (everywhere_empty _)
  · exact always_iff_eachStep_of (I := Begun) (fun _ m h => begun_move h m)
      (fun _ m hb hc hleft => counting_move hb hc m hleft) (fun t h => hproper t.value h)
      (fun _ _ _ h => countLeft_of_move h) ms (fun p hp => absurd hp List.not_mem_nil)
      (everywhere_empty _)

/-! ## The run that gets there -/

section Rejoin
variable {s c n : Token} {natArg : Option Token} {text : Str} (amb : Nat → Ambient)
  {src : Nat → SocketAddr}

/-- One who is alone in a channel and connects again and again, each time from another
address than the last, takes a number each time. -/
theorem peerId_rejoin (hreq : Request.ofText text = .connect s c n natArg)
    (hsrc : ∀ i, src (i + 1) ≠ src i) (k : Nat) :
    ∃ ch u, (after ServerMap.step ∅ ((List.range (k + 1)).map fun i =>
        .message (amb i) text (src i))).channel? s c = some ch ∧
      ch.users = [u] ∧ u.name = n ∧ u.addr = src k ∧ u.peerId = UInt32.ofNat (k + 1) ∧
      ch.nextPeerId = UInt32.ofNat (k + 2) := by
  -- what a `CONNECT` finds, and what it leaves
  have hconnect : ∀ (st : ServerMap) (i : Nat),
      (∀ x ∈ ((st.channel? s c).getD .default).users, x.name = n ∧ x.addr ≠ src i) →
      ((st.channel? s c).getD .default).nextPeerId = UInt32.ofNat (i + 1) →
      ∃ ch u, (st.step (.message (amb i) text (src i))).channel? s c = some ch ∧
        ch.users = [u] ∧ u.name = n ∧ u.addr = src i ∧ u.peerId = UInt32.ofNat (i + 1) ∧
        ch.nextPeerId = UInt32.ofNat (i + 2) := by
    intro st i husers hnext
    set old := (st.channel? s c).getD .default with hold
    have habsent : ∀ x ∈ old.users, x.isSession n (src i) = false := by
      intro x hx
      by_contra h
      exact (husers x hx).2 (isSession_iff.mp (Bool.not_eq_false _ ▸ h)).2
    have hothers : old.others n = [] := by
      rw [List.eq_nil_iff_forall_not_mem]
      exact fun x hx => (mem_others.mp hx).2 (husers x (mem_others.mp hx).1).1
    refine ⟨_, old.newUser (amb i) n (NatKind.ofArg natArg) (src i),
      (channel?_connect st (amb i) (src i) hreq s c).trans (if_pos ⟨rfl, rfl⟩), ?_, rfl, rfl,
      (ensureId_nextPeerId _ _).trans hnext, ?_⟩
    · rw [connect_users_of_new _ _ habsent, hothers]
      rfl
    · rw [nextPeerId_connect _ _ habsent, hnext]
      exact (UInt32.ofNat_add (i + 1) 1).symm
  induction k with
  | zero =>
      refine hconnect ∅ 0 (fun x hx => absurd hx List.not_mem_nil) rfl
  | succ k ih =>
      obtain ⟨ch, u, hch, husers, hname, haddr, -, hnext⟩ := ih
      rw [List.range_succ, List.map_append, after_append]
      refine hconnect _ (k + 1) (fun x hx => ?_) ?_
      · rw [hch, Option.getD_some, husers] at hx
        rw [List.mem_singleton.mp hx]
        exact ⟨hname, fun h => hsrc k (h.symm.trans haddr)⟩
      · rw [hch, Option.getD_some]
        exact hnext

end Rejoin

/-- Ann, at one port and the other in turn. -/
theorem not_properIds_rejoin :
    let connect (i : Nat) : ServerStep := .message ⟨i, 7⟩ "CONNECT s c ann CONE".toList
      (.v4 ⟨10, 0, 0, 1⟩ (if i % 2 = 0 then 4000 else 4001))
    ¬ Everywhere Channel.ProperIds
      (after ServerMap.step ∅ ((List.range (2 ^ 32 - 1)).map connect)) := by
  intro connect h
  let src (i : Nat) : SocketAddr := .v4 ⟨10, 0, 0, 1⟩ (if i % 2 = 0 then 4000 else 4001)
  have hreq : Request.ofText "CONNECT s c ann CONE".toList =
      .connect ⟨"s".toList, by decide⟩ ⟨"c".toList, by decide⟩ ⟨"ann".toList, by decide⟩
        (some ⟨"CONE".toList, by decide⟩) := by
    decide +kernel
  have hsrc : ∀ i, src (i + 1) ≠ src i := by
    intro i
    dsimp only [src]
    by_cases hi : i % 2 = 0
    · rw [if_pos hi, if_neg (by omega)]
      decide
    · rw [if_neg hi, if_pos (by omega)]
      decide
  obtain ⟨ch, u, hch, husers, -, -, hid, -⟩ :=
    peerId_rejoin (fun i => ⟨i, 7⟩) hreq hsrc (2 ^ 32 - 2)
  have hmem : u ∈ ch.users := by
    rw [husers]
    exact List.mem_singleton_self u
  refine ((h _ _ ch hch).notReserved u hmem).2 (hid.trans ?_)
  decide

end NatPiercer.Signaling
