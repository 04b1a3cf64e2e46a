/-
# `Signaling.Addresses` — whom an address identifies

A user is looked for by name and address when it connects, leaves or says
that it is there, by name when it is reported, and by address alone when it
answers a ping.  The announcement of a user that has expired goes to those at
other addresses.  That is as it should be while nobody else in the channel is
at the address, and nothing sees to it: a `CONNECT` replaces the sessions of
its name, not those of its address.

So the addresses of a channel tell its users apart for as long as every
`CONNECT` finds its address free there (`addressesIdentify_iff`).
-/
import NatPiercer.Signaling.Expiry
import NatPiercer.Signaling.Reconnects

namespace NatPiercer.Signaling

open Text Utf8 Net Proto LockProg

/-- No two users are at one address. -/
def Channel.Apart (ch : Channel) : Prop := (ch.users.map User.addr).Nodup

/-- What an address is relied on for. -/
structure AddressesIdentify (st : ServerMap) : Prop where
  apart : Everywhere Channel.Apart st
  pong : ∀ now src s c, ∀ u ∈ ((handlePong now src).run st).state.usersOf s c,
    u.addr = src → u.lastPong = now
  departures : ∀ now s c ch, st.channel? s c = some ch → ∀ before u after,
    ch.users = before ++ u :: after → u.expired now = true →
      ∀ v ∈ before.filter (fun v => !v.expired now) ++ after, ∃ dsts, v.addr ∈ dsts ∧
        (dsts, asBytes (userLeft u.name u.addr.token)) ∈
          (processChannelHeartbeat now s c ch).2.notifications

/-- A `CONNECT` finds nobody else at its address in the channel that it names. -/
def AddressFree (st : ServerMap) : ServerStep → Prop
  | .message _ text src => ∀ s c n natArg, Request.ofText text = .connect s c n natArg →
      ∀ u ∈ st.usersOf s c, u.addr = src → u.name = n
  | .heartbeat _ | .relayout _ _ => True

/-- The same, when the program of a step gets its first turn. -/
def TurnFree (t : Tasks ServerMap Datagram) : Move ServerStep → Prop
  | .start _ => True
  | .turn i => ∀ l : ServerStep, t.running[i]? = some l.program → AddressFree t.value l

/-! ## What follows from it -/

section Uses
variable {st : ServerMap} {ch : Channel} {now : Instant} {src : SocketAddr}

/-- The first at the address is all of them. -/
theorem lastPong_pong (h : ch.Apart) {u : User} (hu : u ∈ (ch.pong now src).users)
    (haddr : u.addr = src) : u.lastPong = now := by
  have hmap := Vec.modifyFirst_eq_map (p := fun u : User => decide (u.addr = src))
    (f := fun u : User => { u with lastPong := now }) (fun _ hx => of_decide_eq_true hx) h
  rw [show (ch.pong now src).users = _ from hmap] at hu
  obtain ⟨v, -, rfl⟩ := List.mem_map.mp hu
  split_ifs at haddr ⊢ with hv
  · rfl
  · exact absurd (decide_eq_true haddr) hv

/-- The others are at other addresses. -/
theorem addr_ne_of_middle {before after : List User} {u v : User} (h : ch.Apart)
    (husers : ch.users = before ++ u :: after) (hv : v ∈ before ++ after) : v.addr ≠ u.addr := by
  rw [Channel.Apart, husers, List.map_append, List.map_cons, List.nodup_middle,
    ← List.map_append, List.nodup_cons] at h
  exact fun haddr => h.1 (List.mem_map.mpr ⟨v, hv, haddr⟩)

theorem announced_to_all (hn : ch.WellNamed) (h : ch.Apart) (s c : Token)
    {before after : List User} {u v : User} (husers : ch.users = before ++ u :: after)
    (hexp : u.expired now = true) (hv : v ∈ before.filter (fun v => !v.expired now) ++ after) :
    ∃ dsts, v.addr ∈ dsts ∧ (dsts, asBytes (userLeft u.name u.addr.token)) ∈
      (processChannelHeartbeat now s c ch).2.notifications := by
  have honce := announcedOnce_expire hn husers hexp
  set dsts := ((before.filter (fun v => !v.expired now) ++ after).filter
    fun v => v.addr ≠ u.addr).map User.addr
  have hmem : v.addr ∈ dsts := by
    refine List.mem_map_of_mem (List.mem_filter.mpr ⟨hv, decide_eq_true ?_⟩)
    refine addr_ne_of_middle h husers ?_
    exact List.mem_append.mpr ((List.mem_append.mp hv).imp_left fun hv => (List.mem_filter.mp hv).1)
  rw [AnnouncedOnce, if_neg (List.ne_nil_of_mem hmem)] at honce
  obtain ⟨earlier, later, hns, -⟩ := honce
  refine ⟨dsts, hmem, List.mem_append_left _ ?_⟩
  change _ ∈ (ch.expire now).2
  rw [hns]
  exact List.mem_append_right _ List.mem_cons_self

theorem addressesIdentify_of_apart (hn : Everywhere Channel.WellNamed st)
    (h : Everywhere Channel.Apart st) : AddressesIdentify st where
  apart := h
  pong now src s c u hu haddr := by
    have hpong : ((handlePong now src).run st).state.channel? s c =
        (st.channel? s c).map (Channel.pong now src) :=
      st.channel?_mapValues (fun _ _ => Channel.pong now src) s c
    rw [ServerMap.usersOf, hpong] at hu
    cases hch : st.channel? s c with
    | none =>
        rw [hch] at hu
        exact absurd hu List.not_mem_nil
    | some ch =>
        rw [hch] at hu
        exact lastPong_pong (h s c ch hch) hu haddr
  departures now s c ch hch _ _ _ husers hexp _ hv :=
    announced_to_all (hn s c ch hch) (h s c ch hch) s c husers hexp hv

end Uses

/-! ## One step, and one turn -/

section Steps
variable {st st' : ServerMap} {ch ch' : Channel} {s c n : Token} {src : SocketAddr}

theorem map_addr_roster (ch : Channel) :
    ch.roster.map (fun b => b.2.2) = ch.users.map User.addr := by
  rw [Channel.roster, List.map_map]
  rfl

theorem apart_of_kept (h : Kept ch ch') (ha : ch.Apart) : ch'.Apart := by
  rw [Channel.Apart, ← map_addr_roster] at ha ⊢
  exact ha.sublist (h.1.map _)

theorem apart_revision (h : Revision st st') (ha : Everywhere Channel.Apart st) :
    Everywhere Channel.Apart st' := by
  intro s c ch' hch'
  obtain ⟨ch, hch, hrevised⟩ := h.channels s c ch' hch'
  exact apart_of_kept hrevised.kept (ha s c ch hch)

/-- The addresses of a channel that has admitted a session. -/
def AddrsAdmit (n : Token) (src : SocketAddr) (ch ch' : Channel) : Prop :=
  (∃ x ∈ ch.users, x.isSession n src = true) ∧ ch'.users.map User.addr = ch.users.map User.addr ∨
    ch'.users.map User.addr = (ch.others n).map User.addr ++ [src] ∧
      ∀ x ∈ ch.users, x.isSession n src = false

theorem apart_admit_iff (h : AddrsAdmit n src ch ch') (ha : ch.Apart) :
    ch'.Apart ↔ ∀ u ∈ ch.users, u.addr = src → u.name = n := by
  rcases h with ⟨⟨x, hx, hsession⟩, haddrs⟩ | ⟨haddrs, -⟩
  · obtain ⟨rfl, rfl⟩ := isSession_iff.mp hsession
    refine iff_of_true ?_ fun u hu haddr => ?_
    · rw [Channel.Apart, haddrs]
      exact ha
    · rw [List.inj_on_of_nodup_map ha hu hx haddr]
  · have hothers : ((ch.others n).map User.addr).Nodup :=
      ha.sublist (List.filter_sublist.map User.addr)
    rw [Channel.Apart, haddrs, List.nodup_append]
    constructor
    · rintro ⟨-, -, hdisjoint⟩ u hu haddr
      by_contra hname
      exact hdisjoint u.addr (List.mem_map_of_mem (mem_others.mpr ⟨hu, hname⟩)) src
        List.mem_cons_self haddr
    · intro hfree
      refine ⟨hothers, List.nodup_singleton src, fun a ha b hb => ?_⟩
      obtain ⟨u, hu, rfl⟩ := List.mem_map.mp ha
      rw [List.mem_singleton.mp hb]
      exact fun haddr => (mem_others.mp hu).2 (hfree u (mem_others.mp hu).1 haddr)

/-- The channels of a map in which one has admitted a session. -/
theorem apart_connect_iff (ha : Everywhere Channel.Apart st) (hnamed : st'.channel? s c = some ch')
    (hadmits : AddrsAdmit n src ((st.channel? s c).getD .default) ch')
    (hrest : ∀ s' c', ¬ (s' = s ∧ c' = c) → st'.channel? s' c' =
      if s' = s then (st.channel? s' c').map (Channel.evict n src) else st.channel? s' c') :
    Everywhere Channel.Apart st' ↔ ∀ u ∈ st.usersOf s c, u.addr = src → u.name = n := by
  have hold : ((st.channel? s c).getD .default).Apart := ha.getD List.nodup_nil s c
  rw [usersOf_eq_getD, ← apart_admit_iff hadmits hold]
  constructor
  · exact fun h => h s c ch' hnamed
  · intro h s' c' ch'' hch''
    by_cases hsc : s' = s ∧ c' = c
    · rw [hsc.1, hsc.2, hnamed] at hch''
      exact Option.some.inj hch'' ▸ h
    · rw [hrest s' c' hsc] at hch''
      split_ifs at hch''
      · obtain ⟨ch, hch, rfl⟩ := Option.map_eq_some_iff.mp hch''
        exact apart_of_kept (kept_evict n src ch) (ha s' c' ch hch)
      · exact ha s' c' ch'' hch''

theorem addrsAdmit_standing (hsession : ∃ x ∈ ch.users, x.isSession n src = true)
    (h : SameStanding ch ch') : AddrsAdmit n src ch ch' := by
  refine Or.inl ⟨hsession, ?_⟩
  have haddrs := congrArg (List.map fun x => x.2.1) h.1
  rwa [List.map_map, List.map_map] at haddrs

theorem addrsAdmit_new (amb : Ambient) (nat : NatKind)
    (hnew : ∀ x ∈ ch.users, x.isSession n src = false)
    (husers : ch'.users = ch.others n ++ [ch.newUser amb n nat src]) :
    AddrsAdmit n src ch ch' := by
  refine Or.inr ⟨?_, hnew⟩
  rw [husers, List.map_append]
  rfl

/-- A whole `CONNECT`. -/
theorem apart_connect_step (ha : Everywhere Channel.Apart st) (amb : Ambient) {text : Str}
    {natArg : Option Token} (hreq : Request.ofText text = .connect s c n natArg) :
    Everywhere Channel.Apart (st.step (.message amb text src)) ↔
      ∀ u ∈ st.usersOf s c, u.addr = src → u.name = n := by
  have hconnect := channel?_connect st amb src hreq
  refine apart_connect_iff ha ((hconnect s c).trans (if_pos ⟨rfl, rfl⟩)) ?_
    fun s' c' hsc => (hconnect s' c').trans (if_neg hsc)
  rcases session_or_new n src ((st.channel? s c).getD .default) with hsession | hnew
  · exact addrsAdmit_standing hsession (connect_of_session amb _ hsession).1
  · exact addrsAdmit_new amb _ hnew (connect_users_of_new amb _ hnew)

/-- Its first critical section. -/
theorem apart_connectSection (ha : Everywhere Channel.Apart st) (amb : Ambient) (nat : NatKind) :
    Everywhere Channel.Apart ((connectSection amb s c n nat src).run st).state ↔
      ∀ u ∈ st.usersOf s c, u.addr = src → u.name = n := by
  obtain ⟨ch', -, -, -, hnamed, hadmitted, -, hrest⟩ := connectSection_spec amb s c n nat src st
  refine apart_connect_iff ha hnamed ?_ hrest
  cases hadmitted with
  | known hsession hroster =>
      exact Or.inl ⟨hsession, by rw [← map_addr_roster, ← map_addr_roster, hroster]⟩
  | new habsent hroster =>
      refine Or.inr ⟨?_, habsent⟩
      rw [← map_addr_roster, hroster, List.map_append, List.map_map]
      rfl

end Steps

section Runs
variable {st : ServerMap} {t : Tasks ServerMap Datagram}

theorem apart_step_iff (ha : Everywhere Channel.Apart st) (l : ServerStep) :
    Everywhere Channel.Apart (st.step l) ↔ AddressFree st l := by
  by_cases hl : l.Connects
  · cases l with
    | message amb text src =>
        obtain ⟨s, c, n, natArg, hreq⟩ := hl
        rw [apart_connect_step ha amb hreq]
        constructor
        · intro h s' c' n' natArg' hreq'
          obtain ⟨rfl, rfl, rfl, -⟩ := Request.connect.inj (hreq.symm.trans hreq')
          exact h
        · exact fun h => h s c n natArg hreq
    | heartbeat now => exact hl.elim
    | relayout s c => exact hl.elim
  · refine iff_of_true ((guarantees_revision hl).run Revision.refl
      (fun _ _ h hrev => apart_revision hrev h) ha) ?_
    cases l with
    | message amb text src => exact fun s c n natArg hreq => absurd ⟨s, c, n, natArg, hreq⟩ hl
    | heartbeat now => trivial
    | relayout s c => trivial

/-- What is left of a `CONNECT` after its first turn admits nobody. -/
theorem rest_of_connect (amb : Ambient) {text : Str} (src : SocketAddr) {s c n : Token}
    {natArg : Option Token} (hreq : Request.ofText text = .connect s c n natArg) (st : ServerMap) :
    Guarantees Revision ((handleMessage amb text src).turn 0 st).rest := by
  rw [turn_handleMessage_connect amb src hreq]
  exact (sectioned_afterConnectSection _ _ _ _ _ _ _).guarantees Revision.refl

/-- What is running is the program of a step that has not begun, or admits nobody any
more. -/
def Begun (t : Tasks ServerMap Datagram) : Prop :=
  ∀ p ∈ t.running, (∃ l : ServerStep, p = l.program) ∨ Guarantees Revision p

/-- A turn of what is running. -/
theorem Begun.turn (h : Begun t) {i : Nat} {p : Server Unit} (hp : t.running[i]? = some p) :
    Guarantees Revision (p.turn 0 t.value).rest ∧
      (Revision t.value (p.turn 0 t.value).state ∨
        ∃ amb text src, p = (ServerStep.message amb text src).program ∧
          (ServerStep.message amb text src).Connects) := by
  have hrevision : Guarantees Revision p → Guarantees Revision (p.turn 0 t.value).rest ∧
      Revision t.value (p.turn 0 t.value).state := fun hp => (hp.turn Revision.refl t.value).symm
  rcases h p (List.mem_of_getElem? hp) with ⟨l, rfl⟩ | hp
  · by_cases hl : l.Connects
    · cases l with
      | message amb text src =>
          obtain ⟨s, c, n, natArg, hreq⟩ := hl
          exact ⟨rest_of_connect amb src hreq t.value,
            Or.inr ⟨amb, text, src, rfl, s, c, n, natArg, hreq⟩⟩
      | heartbeat now => exact hl.elim
      | relayout s c => exact hl.elim
    · exact (hrevision (guarantees_revision hl)).imp_right Or.inl
  · exact (hrevision hp).imp_right Or.inl

theorem begun_move (h : Begun t) (m : Move ServerStep) : Begun (t.move ServerStep.program m) := by
  cases m with
  | start l =>
      intro p hp
      rcases List.mem_append.mp hp with hp | hp
      · exact h p hp
      · exact Or.inl ⟨l, List.mem_singleton.mp hp⟩
  | turn i =>
      rw [Tasks.move]
      cases hi : t.running[i]? with
      | none => exact h
      | some p =>
          intro q hq
          rcases List.mem_or_eq_of_mem_set hq with hq | rfl
          · exact h q hq
          · exact Or.inr (h.turn hi).1

theorem apart_move_iff (hb : Begun t) (ha : Everywhere Channel.Apart t.value)
    (m : Move ServerStep) :
    Everywhere Channel.Apart (t.move ServerStep.program m).value ↔ TurnFree t m := by
  cases m with
  | start l => exact iff_of_true ha trivial
  | turn i =>
      rw [Tasks.move, TurnFree]
      cases hi : t.running[i]? with
      | none => exact iff_of_true ha fun l hl => absurd hl (Option.some_ne_none _).symm
      | some p =>
          have hturn : ∀ l : ServerStep, p = l.program → Everywhere Channel.Apart
              (p.turn 0 t.value).state → AddressFree t.value l := by
            rintro (⟨amb, text, src⟩ | now | ⟨s, c⟩) hl hapart
            · intro s c n natArg hreq
              rw [hl, ServerStep.program, turn_handleMessage_connect amb src hreq] at hapart
              exact (apart_connectSection ha amb _).mp hapart
            · trivial
            · trivial
          constructor
          · exact fun hapart l hl => hturn l (Option.some.inj hl) hapart
          · intro hfree
            rcases (hb.turn hi).2 with hrev | ⟨amb, text, src, hl, s, c, n, natArg, hreq⟩
            · exact apart_revision hrev ha
            · have hconnect := hfree _ (congrArg some hl) s c n natArg hreq
              rw [hl]
              change Everywhere Channel.Apart ((handleMessage amb text src).turn 0 t.value).state
              rw [turn_handleMessage_connect amb src hreq]
              exact (apart_connectSection ha amb _).mpr hconnect

/-- The names are distinct anyway; the rest is the addresses. -/
theorem addressesIdentify_iff_apart (hn : Everywhere Channel.WellNamed st) :
    AddressesIdentify st ↔ Everywhere Channel.Apart st :=
  ⟨AddressesIdentify.apart, addressesIdentify_of_apart hn⟩

theorem wellNamed_move (hn : Everywhere Channel.WellNamed t.value) (hb : Begun t)
    (m : Move ServerStep) :
    Everywhere Channel.WellNamed (t.move ServerStep.program m).value := by
  have hsound : t.Sound SectionEffect := by
    intro p hp
    rcases hb p hp with ⟨l, rfl⟩ | hp
    · exact guarantees_program l
    · exact hp.mono fun _ _ h => h.effect
  exact everywhere_wellNamed_section hn
    (move_guarantee SectionEffect.refl guarantees_program hsound m).1

end Runs

/-- **When addresses identify users**, in every state of a run of whole steps, and of one
of turns: when every `CONNECT` finds its address free, or its own. -/
theorem addressesIdentify_iff (ls : List ServerStep) (ms : List (Move ServerStep)) :
    (Always ServerMap.step AddressesIdentify ∅ ls ↔ EachStep ServerMap.step AddressFree ∅ ls) ∧
      (Always (Tasks.move ServerStep.program) (fun t => AddressesIdentify t.value) ⟨∅, []⟩ ms ↔
        EachStep (Tasks.move ServerStep.program) TurnFree ⟨∅, []⟩ ms) := by
  have hempty : AddressesIdentify ∅ :=
    addressesIdentify_of_apart (everywhere_empty _) (everywhere_empty _)
  constructor
  · refine always_iff_eachStep (J := Everywhere Channel.WellNamed) (fun _ l => wellNamed_step l)
      (fun st l hn h => ?_) ls (everywhere_empty _) hempty
    rw [addressesIdentify_iff_apart (wellNamed_step l hn), apart_step_iff h.apart]
  · refine always_iff_eachStep (J := fun t => Everywhere Channel.WellNamed t.value ∧ Begun t)
      (fun t m h => ⟨wellNamed_move h.1 h.2 m, begun_move h.2 m⟩) (fun t m h hident => ?_) ms
      ⟨everywhere_empty _, fun p hp => absurd hp List.not_mem_nil⟩ hempty
    rw [addressesIdentify_iff_apart (wellNamed_move h.1 h.2 m), apart_move_iff h.2 hident.apart]

/-- Ann and Bob share an address: of an answer to a ping only Ann gets the benefit. -/
theorem address_shared_by_ann_and_bob :
    let src : SocketAddr := .v4 ⟨10, 0, 0, 1⟩ 4000
    ¬ AddressesIdentify (after ServerMap.step ∅
      [.message ⟨0, 7⟩ "CONNECT s c ann CONE".toList src,
        .message ⟨1, 8⟩ "CONNECT s c bob CONE".toList src]) := by
  intro src h
  let s : Token := ⟨"s".toList, by decide⟩
  let c : Token := ⟨"c".toList, by decide⟩
  let bob : User := ⟨2, ⟨"bob".toList, by decide⟩, src, 1, false, .cone⟩
  have hbob := h.pong 100 src s c bob (by decide +kernel) rfl
  exact absurd hbob (by decide)

end NatPiercer.Signaling
