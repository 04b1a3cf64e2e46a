/-
# `Signaling.Reconnects` — a `CONNECT` from somebody who is there already

`handle_connect_message` has two ways on.  Who is not in the channel under
that name and address is put in, in the place of whoever has the name; who is
there already is only heard of, and what the request says of the NAT is lost.

So the session of the latest `CONNECT` has the kind that it asked for unless
the same session was there with another one (`latestWins_iff`).  And of a
datagram that arrives twice the second copy only does what a heartbeat does,
and has the same `WELCOME` sent (`connect_twice`): whichever way the first
one went, it leaves the session where the second looks for it.
-/
import NatPiercer.Signaling.Cleanup
import NatPiercer.Signaling.Pickers

namespace NatPiercer.Signaling

open Text Utf8 Net Proto LockProg

/-! ## The latest one wins -/

/-- What the latest `CONNECT` is to make of the users of the channel that it names. -/
structure Registers (n : Token) (src : SocketAddr) (nat : NatKind) (users users' : List User) :
    Prop where
  entry : ∃ u, (users'.filter fun u => u.name = n) = [u] ∧ u.addr = src ∧ u.natKind = nat ∧
    (nat = .symmetric → u.needsServerRelay = true)
  others : (users'.filter fun u => u.name ≠ n) = users.filter fun u => u.name ≠ n

/-- And of the map. -/
structure LatestWins (s c n : Token) (src : SocketAddr) (nat : NatKind) (st st' : ServerMap) :
    Prop where
  named : Registers n src nat (st.usersOf s c) (st'.usersOf s c)
  elsewhere : ∀ c', c' ≠ c → ∀ u ∈ st'.usersOf s c', u.isSession n src = false

section Latest
variable {ch : Channel} {n : Token} {src : SocketAddr} {nat : NatKind} {amb : Ambient} {x : User}

/-- The users of a name, if the names are distinct. -/
theorem filter_name_eq {users : List User} (hn : (users.map User.name).Nodup) (hx : x ∈ users) :
    (users.filter fun u => u.name = x.name) = [x] := by
  refine List.perm_singleton.mp ((List.perm_ext_iff_of_nodup (hn.of_map.filter _)
    (List.nodup_singleton x)).mpr fun v => ?_)
  rw [List.mem_filter, List.mem_singleton, decide_eq_true_iff]
  constructor
  · rintro ⟨hv, hname⟩
    exact List.inj_on_of_nodup_map hn hv hx hname
  · rintro rfl
    exact ⟨hx, rfl⟩

theorem registers_new (amb : Ambient) (nat : NatKind)
    (hnew : ∀ x ∈ ch.users, x.isSession n src = false) :
    Registers n src nat ch.users (ch.connect amb n nat src).1.users := by
  rw [connect_users_of_new amb nat hnew]
  constructor
  · refine ⟨ch.newUser amb n nat src, ?_, rfl, rfl, fun h => decide_eq_true h⟩
    have hothers : ((ch.others n).filter fun u => u.name = n) = [] :=
      List.filter_eq_nil_iff.mpr fun u hu => by simpa using (mem_others.mp hu).2
    rw [List.filter_append, hothers, List.filter_singleton, newUser_name, decide_eq_true rfl]
    rfl
  · have hothers : ((ch.others n).filter fun u => u.name ≠ n) = ch.others n :=
      List.filter_eq_self.mpr fun u hu => decide_eq_true (mem_others.mp hu).2
    rw [List.filter_append, hothers, List.filter_singleton, newUser_name]
    simp [Channel.others]

/-- The session that is there keeps the kind that it has. -/
theorem registers_session_iff (hn : ch.WellNamed) (hm : ch.Marked) (hx : x ∈ ch.users)
    (hsession : x.isSession n src = true) :
    Registers n src nat ch.users (ch.connect amb n nat src).1.users ↔ x.natKind = nat := by
  obtain ⟨rfl, rfl⟩ := isSession_iff.mp hsession
  have hsame : SameStanding ch (ch.connect amb x.name nat x.addr).1 :=
    (connect_of_session amb nat ⟨x, hx, hsession⟩).1
  obtain ⟨y, hy, hname, haddr, hneeds, hnat⟩ := hsame.symm.user hx
  have hentry : ((ch.connect amb x.name nat x.addr).1.users.filter fun u => u.name = x.name) =
      [y] := by
    have hfilter := filter_name_eq (hsame.wellNamed hn) hy
    rwa [hname] at hfilter
  constructor
  · rintro ⟨⟨u, hu, -, hkind, -⟩, -⟩
    obtain rfl : y = u := List.singleton_inj.mp (hentry.symm.trans hu)
    exact hnat.symm.trans hkind
  · rintro rfl
    refine ⟨⟨y, hentry, haddr, hnat, fun hsym => hneeds.trans (hm x hx hsym)⟩, ?_⟩
    obtain ⟨z, hz⟩ := Option.isSome_iff_exists.mp (List.find?_isSome.mpr ⟨x, hx, hsession⟩)
    rw [connect_eq_of_session amb _ hz, Channel.refresh, ensureId_users]
    refine Vec.filter_modifyFirst (fun u hu => ?_) _
    have hskip : decide (u.name ≠ x.name) = false :=
      decide_eq_false (not_not.mpr (isSession_iff.mp hu).1)
    exact ⟨hskip, hskip⟩

theorem usersOf_eq_getD (st : ServerMap) (s c : Token) :
    st.usersOf s c = ((st.channel? s c).getD .default).users := by
  unfold ServerMap.usersOf
  cases st.channel? s c <;> rfl

/-- What a `CONNECT` makes of the channels. -/
theorem channel?_connect {text : Str} {s c : Token} {natArg : Option Token} (st : ServerMap)
    (amb : Ambient) (src : SocketAddr) (hreq : Request.ofText text = .connect s c n natArg)
    (s' c' : Token) :
    (st.step (.message amb text src)).channel? s' c' =
      if s' = s ∧ c' = c then
        some (((st.channel? s c).getD .default).connect amb n (NatKind.ofArg natArg) src).1
      else if s' = s then (st.channel? s' c').map (Channel.evict n src)
      else st.channel? s' c' := by
  rw [channel?_step, ServerStep.effect, hreq, Request.effect]
  split_ifs with hsc
  · rw [hsc.1, hsc.2]
  · rfl
  · rfl

end Latest

/-- **When the latest `CONNECT` wins**: when the same session is not there, or is there
with the kind that the request gives it. -/
theorem latestWins_iff {st : ServerMap} (hst : st.Reachable) (amb : Ambient) {text : Str}
    (src : SocketAddr) {s c n : Token} {natArg : Option Token}
    (hreq : Request.ofText text = .connect s c n natArg) :
    LatestWins s c n src (NatKind.ofArg natArg) st (st.step (.message amb text src)) ↔
      ∀ u ∈ st.usersOf s c, u.isSession n src = true → u.natKind = NatKind.ofArg natArg := by
  set old := (st.channel? s c).getD .default with hold
  have hwell : Everywhere Channel.WellNamed st :=
    hst.of_section (everywhere_empty _) fun _ _ hJ h => everywhere_wellNamed_section hJ h.effect
  have hn : old.WellNamed := hwell.getD wellNamed_default s c
  have hm : old.Marked := hst.marked.getD marked_default s c
  have helsewhere : ∀ c', c' ≠ c →
      ∀ u ∈ (st.step (.message amb text src)).usersOf s c', u.isSession n src = false := by
    intro c' hc u hu
    rw [ServerMap.usersOf, channel?_connect st amb src hreq, if_neg fun h => hc h.2,
      if_pos rfl] at hu
    cases hch : st.channel? s c' with
    | none =>
        rw [hch] at hu
        exact absurd hu List.not_mem_nil
    | some ch =>
        rw [hch] at hu
        simpa using (List.mem_filter.mp hu).2
  have hnamed : LatestWins s c n src (NatKind.ofArg natArg) st (st.step (.message amb text src)) ↔
      Registers n src (NatKind.ofArg natArg) old.users
        (old.connect amb n (NatKind.ofArg natArg) src).1.users := by
    have husers : (st.step (.message amb text src)).usersOf s c =
        (old.connect amb n (NatKind.ofArg natArg) src).1.users := by
      rw [ServerMap.usersOf, channel?_connect st amb src hreq, if_pos ⟨rfl, rfl⟩]
      rfl
    constructor
    · rintro ⟨hregisters, -⟩
      rwa [husers, usersOf_eq_getD] at hregisters
    · intro hregisters
      refine ⟨?_, helsewhere⟩
      rwa [husers, usersOf_eq_getD]
  rw [hnamed, usersOf_eq_getD]
  rcases session_or_new n src old with ⟨x, hx, hsession⟩ | hnew
  · rw [registers_session_iff hn hm hx hsession]
    constructor
    · intro hnat u hu hu'
      have hname : u.name = x.name :=
        (isSession_iff.mp hu').1.trans (isSession_iff.mp hsession).1.symm
      rwa [hn.eq_of_name hu hx hname]
    · exact fun h => h x hx hsession
  · refine iff_of_true (registers_new amb _ hnew) fun u hu hu' => ?_
    rw [hnew u hu] at hu'
    exact absurd hu' Bool.false_ne_true

/-- Ann comes back from another port, behind another NAT. -/
theorem latestWins_ann :
    let s : Token := ⟨"s".toList, by decide⟩
    let c : Token := ⟨"c".toList, by decide⟩
    let ann : Token := ⟨"ann".toList, by decide⟩
    let st := after ServerMap.step ∅
      [.message ⟨0, 7⟩ "CONNECT s c ann CONE".toList (.v4 ⟨10, 0, 0, 1⟩ 4000)]
    LatestWins s c ann (.v4 ⟨10, 0, 0, 1⟩ 5000) .symmetric st
      (st.step (.message ⟨1, 8⟩ "CONNECT s c ann SYMMETRIC".toList (.v4 ⟨10, 0, 0, 1⟩ 5000))) := by
  intro s c ann st
  have hreq : Request.ofText "CONNECT s c ann SYMMETRIC".toList =
      .connect s c ann (some natTypeSymmetric) := by decide +kernel
  exact (latestWins_iff (reachable_after _) ⟨1, 8⟩ (.v4 ⟨10, 0, 0, 1⟩ 5000) hreq).mpr
    (by decide +kernel)

/-- From the same port, she is taken to be behind the first NAT still. -/
theorem latest_lost_on_ann :
    let s : Token := ⟨"s".toList, by decide⟩
    let c : Token := ⟨"c".toList, by decide⟩
    let ann : Token := ⟨"ann".toList, by decide⟩
    let src : SocketAddr := .v4 ⟨10, 0, 0, 1⟩ 4000
    let st := after ServerMap.step ∅ [.message ⟨0, 7⟩ "CONNECT s c ann CONE".toList src]
    ¬ LatestWins s c ann src .symmetric st
      (st.step (.message ⟨1, 8⟩ "CONNECT s c ann SYMMETRIC".toList src)) := by
  intro s c ann src st
  rintro ⟨⟨⟨u, hu, -, hkind, -⟩, -⟩, -⟩
  have husers : ((st.step (.message ⟨1, 8⟩ "CONNECT s c ann SYMMETRIC".toList src)).usersOf s c
      |>.filter fun u => u.name = ann) = [⟨1, ann, src, 1, false, .cone⟩] := by decide +kernel
  obtain rfl := List.singleton_inj.mp (husers.symm.trans hu)
  exact absurd hkind (by decide)

/-! ## A datagram that arrives twice -/

def Datagram.IsWelcome (d : Datagram) : Prop := ∃ cid pid, d = welcome d.dst cid pid

section Twice
variable {ch : Channel} {n : Token} {src : SocketAddr} {amb : Ambient} {d : Datagram}

/-- A packet begins with its magic, and no line of the server does. -/
theorem not_isWelcome_tell (dst : SocketAddr) {text : Str} (h : text.head? ≠ some 'O') :
    ¬ (tell dst text).IsWelcome := by
  rintro ⟨cid, pid, hwelcome⟩
  have hpayload : asBytes text = (welcome dst cid pid).payload :=
    congrArg Datagram.payload hwelcome
  exact h (head?_of_asBytes (b := 0x4F) hpayload (by decide))

theorem not_isWelcome_mode (dst : SocketAddr) (ws : List Token) :
    ¬ (tell dst (line (msgMode :: ws))).IsWelcome := by
  refine not_isWelcome_tell dst ?_
  cases ws <;> exact fun h => absurd (Option.some.inj h) (by decide)

theorem not_isWelcome_elect (h : d ∈ ch.elect.2) : ¬ d.IsWelcome := by
  unfold Channel.elect at h
  split at h
  · simp only [Channel.electionTold, List.mem_append, List.mem_map, List.mem_flatMap] at h
    rcases h with ⟨peer, -, rfl⟩ | ⟨peer, -, rfl⟩ | h | ⟨peer, -, h⟩
    · exact not_isWelcome_mode _ _
    · exact not_isWelcome_mode _ _
    · split_ifs at h
      · rw [List.mem_singleton.mp h]
        exact not_isWelcome_mode _ _
      · exact absurd h List.not_mem_nil
    · rcases List.mem_cons.mp h with rfl | h
      · exact not_isWelcome_mode _ _
      · split_ifs at h
        · rw [List.mem_singleton.mp h]
          exact not_isWelcome_mode _ _
        · exact absurd h List.not_mem_nil
  · obtain ⟨u, -, hd⟩ := List.mem_flatMap.mp h
    obtain ⟨v, -, rfl⟩ := List.mem_map.mp hd
    exact not_isWelcome_mode _ _

theorem not_isWelcome_settleLone (h : d ∈ ch.settleLone.2) : ¬ d.IsWelcome := by
  unfold Channel.settleLone at h
  split at h
  · split at h
    · rw [List.mem_singleton.mp h]
      exact not_isWelcome_mode _ _
    · rw [List.mem_singleton.mp h]
      exact not_isWelcome_mode _ _
  · exact absurd h List.not_mem_nil

theorem not_isWelcome_afterJoin (h : d ∈ ch.afterJoin.2) : ¬ d.IsWelcome := by
  unfold Channel.afterJoin at h
  split_ifs at h
  · exact not_isWelcome_elect h
  · exact absurd h List.not_mem_nil

theorem settleLone_channelId (ch : Channel) : ch.settleLone.1.channelId = ch.channelId := by
  unfold Channel.settleLone
  split
  · split <;> rfl
  · rfl

theorem afterJoin_channelId (ch : Channel) : ch.afterJoin.1.channelId = ch.channelId := by
  unfold Channel.afterJoin Channel.elect
  split_ifs
  · split <;> rfl
  · rfl

theorem ensureId_channelId_ne_zero (h : amb.channelId ≠ 0) (ch : Channel) :
    (ch.ensureId amb.channelId).channelId ≠ 0 := by
  unfold Channel.ensureId
  split_ifs with hzero
  · exact h
  · exact hzero

theorem ensureId_of_ne_zero (h : ch.channelId ≠ 0) (id : UInt64) : ch.ensureId id = ch := by
  rw [Channel.ensureId, if_neg h]

theorem find?_refresh {x : User} (now : Instant)
    (hx : ch.users.find? (User.isSession n src) = some x) :
    (ch.refresh now n src).users.find? (User.isSession n src) =
      some { x with lastPong := now } := by
  have hfind := Vec.find?_modifyFirst (p := User.isSession n src)
    (f := fun u : User => { u with lastPong := now }) (fun _ => rfl) ch.users
  rwa [hx] at hfind

/-- Where a `CONNECT` leaves the session, and the one packet among what it sends. -/
theorem connect_leaves_session (h : amb.channelId ≠ 0) (ch : Channel) (n : Token) (nat : NatKind)
    (src : SocketAddr) :
    ∃ x before after,
      (ch.connect amb n nat src).1.users.find? (User.isSession n src) = some x ∧
      (ch.connect amb n nat src).1.channelId ≠ 0 ∧
      (ch.connect amb n nat src).2 =
        before ++ welcome src (ch.connect amb n nat src).1.channelId x.peerId :: after ∧
      ∀ d ∈ before ++ after, ¬ d.IsWelcome := by
  rcases session_or_new n src ch with hsession | hnew
  · obtain ⟨x, hx⟩ := Option.isSome_iff_exists.mp (List.find?_isSome.mpr hsession)
    rw [connect_eq_of_session amb nat hx]
    exact ⟨{ x with lastPong := amb.now }, [], [],
      find?_refresh amb.now (by rw [ensureId_users, hx]), ensureId_channelId_ne_zero h ch, rfl,
      fun d hd => absurd hd List.not_mem_nil⟩
  · have hconnect : ch.connect amb n nat src =
        ((ch.joined amb n nat src).settleLone.1.afterJoin.1,
          (ch.joined amb n nat src).settleLone.2 ++
            welcome src (ch.joined amb n nat src).settleLone.1.channelId
              (ch.ensureId amb.channelId).nextPeerId ::
              (ch.joined amb n nat src).settleLone.1.afterJoin.2) := by
      unfold Channel.connect
      simp only [updateExistingUser_of_new hnew]
      rfl
    have hid : (ch.connect amb n nat src).1.channelId =
        (ch.joined amb n nat src).settleLone.1.channelId := by
      rw [hconnect, afterJoin_channelId]
    refine ⟨ch.newUser amb n nat src, (ch.joined amb n nat src).settleLone.2,
      (ch.joined amb n nat src).settleLone.1.afterJoin.2, ?_, ?_, ?_, ?_⟩
    · have hnone : (ch.others n).find? (User.isSession n src) = none :=
        List.find?_eq_none.mpr fun u hu => by
          rw [hnew u (mem_others.mp hu).1]
          exact Bool.false_ne_true
      have hself : (ch.newUser amb n nat src).isSession n src = true :=
        isSession_iff.mpr ⟨rfl, rfl⟩
      rw [connect_users_of_new amb nat hnew, List.find?_append, hnone, Option.none_or,
        List.find?_cons_of_pos hself]
    · rw [hid, settleLone_channelId]
      exact ensureId_channelId_ne_zero h ch
    · rw [hid, hconnect]
      rfl
    · intro d hd
      rcases List.mem_append.mp hd with hd | hd
      · exact not_isWelcome_settleLone hd
      · exact not_isWelcome_afterJoin hd

variable {st : ServerMap} {s c : Token}

theorem removeUserFromOtherChannels_eq_self
    (h : ∀ c' ch', c' ≠ c → st.channel? s c' = some ch' → ∀ u ∈ ch'.users,
      u.isSession n src = false) :
    removeUserFromOtherChannels st s c n src = st := by
  refine HashMap.modify_eq_self fun channels hs => HashMap.mapValues_eq_self fun c' ch' hc' => ?_
  split_ifs with hc
  · rfl
  · have hnone : ∀ u ∈ ch'.users, u.isSession n src = false :=
      h c' ch' hc (Option.bind_eq_some_iff.mpr ⟨channels, hs, hc'⟩)
    rw [List.filter_eq_self.mpr fun u hu => by rw [hnone u hu]; rfl]

theorem ensureChannel_eq_self (h : st.channel? s c = some ch) : st.ensureChannel s c = st := by
  obtain ⟨channels, hs, hc⟩ := Option.bind_eq_some_iff.mp h
  rw [ServerMap.ensureChannel, HashMap.orInsert_of_lookup hs]
  refine HashMap.modify_eq_self fun channels' hs' => ?_
  obtain rfl := Option.some.inj (hs.symm.trans hs')
  exact HashMap.orInsert_of_lookup hc

theorem modifyChannel_congr {f g : Channel → Channel} (h : st.channel? s c = some ch)
    (hfg : f ch = g ch) : st.modifyChannel s c f = st.modifyChannel s c g := by
  refine HashMap.modify_congr fun channels hs => HashMap.modify_congr fun ch' hc => ?_
  obtain rfl := Option.some.inj (h.symm.trans (Option.bind_eq_some_iff.mpr ⟨channels, hs, hc⟩))
  exact hfg

/-- A session that is where it is looked for, and nowhere else. -/
theorem run_connectSection_again {x : User} (amb : Ambient) (nat : NatKind)
    (hch : st.channel? s c = some ch) (hid : ch.channelId ≠ 0)
    (hx : ch.users.find? (User.isSession n src) = some x)
    (h : ∀ c' ch', c' ≠ c → st.channel? s c' = some ch' → ∀ u ∈ ch'.users,
      u.isSession n src = false) :
    (connectSection amb s c n nat src).run st =
      ⟨(ch.refresh amb.now n src, false, x.peerId),
        st.modifyChannel s c (Channel.refresh amb.now n src), []⟩ := by
  have hupdate : updateExistingUser amb.now ch n src =
      some (ch.refresh amb.now n src, false, x.peerId) := by
    rw [updateExistingUser, hx]
    rfl
  have hwritten : (st.modifyChannel s c fun _ => ch.refresh amb.now n src) =
      st.modifyChannel s c (Channel.refresh amb.now n src) := modifyChannel_congr hch rfl
  unfold connectSection
  simp only [run_bind, run_getState, removeUserFromOtherChannels_eq_self h,
    ensureChannel_eq_self hch, hch, Option.getD_some, ensureId_of_ne_zero hid, hupdate,
    run_setState, run_pure, List.append_nil, hwritten]

end Twice

/-- **A `CONNECT` that arrives twice.**  The second copy changes when the session was
last heard of, and has the first one's `WELCOME` sent again, and nothing else. -/
theorem connect_twice (st : ServerMap) {amb : Ambient} (hid : amb.channelId ≠ 0) (amb' : Ambient)
    {text : Str} (src : SocketAddr) {s c n : Token} {natArg : Option Token}
    (hreq : Request.ofText text = .connect s c n natArg) :
    let st₁ := st.step (.message amb text src)
    st₁.step (.message amb' text src) = st₁.modifyChannel s c (Channel.refresh amb'.now n src) ∧
      ∃ cid pid before after,
        st.sent (.message amb text src) = before ++ welcome src cid pid :: after ∧
        (∀ d ∈ before ++ after, ¬ d.IsWelcome) ∧
        st₁.sent (.message amb' text src) = [welcome src cid pid] := by
  intro st₁
  set old := (st.channel? s c).getD .default with hold
  obtain ⟨x, before, after, hx, hid₁, hsent, hothers⟩ :=
    connect_leaves_session hid old n (NatKind.ofArg natArg) src
  set ch := (old.connect amb n (NatKind.ofArg natArg) src).1 with hch
  have hprogram : ∀ amb, (ServerStep.message amb text src).program =
      handleConnectMessage amb s c n natArg src := by
    intro amb
    change handleMessage amb text src = _
    rw [handleMessage_eq, hreq]
    rfl
  have hsent₁ : st.sent (.message amb text src) =
      (old.connect amb n (NatKind.ofArg natArg) src).2 := by
    rw [ServerMap.sent, hprogram]
    exact (handleConnectMessage_spec amb s c n natArg src st).2
  have hat : st₁.channel? s c = some ch :=
    (channel?_connect st amb src hreq s c).trans (if_pos ⟨rfl, rfl⟩)
  have hrest : ∀ c' ch', c' ≠ c → st₁.channel? s c' = some ch' →
      ∀ u ∈ ch'.users, u.isSession n src = false := by
    intro c' ch' hc hch' u hu
    rw [channel?_connect st amb src hreq, if_neg fun h => hc h.2, if_pos rfl] at hch'
    obtain ⟨ch'', -, rfl⟩ := Option.map_eq_some_iff.mp hch'
    simpa using (List.mem_filter.mp hu).2
  have hrun : (ServerStep.message amb' text src).program.run st₁ =
      ⟨(), st₁.modifyChannel s c (Channel.refresh amb'.now n src),
        [welcome src ch.channelId x.peerId]⟩ := by
    rw [hprogram, handleConnectMessage_eq, run_bind, run_locked,
      run_connectSection_again amb' _ hat hid₁ hx hrest]
    rfl
  exact ⟨congrArg _ hrun, ch.channelId, x.peerId, before, after, hsent₁.trans hsent, hothers,
    congrArg _ hrun⟩

/-- Ann's reaches the server twice. -/
theorem connect_twice_ann :
    let s : Token := ⟨"s".toList, by decide⟩
    let c : Token := ⟨"c".toList, by decide⟩
    let ann : Token := ⟨"ann".toList, by decide⟩
    let src : SocketAddr := .v4 ⟨10, 0, 0, 1⟩ 4000
    let text : Str := "CONNECT s c ann CONE".toList
    let st₁ := ServerMap.step ∅ (.message ⟨0, 7⟩ text src)
    st₁.step (.message ⟨1, 8⟩ text src) = st₁.modifyChannel s c (Channel.refresh 1 ann src) ∧
      ∃ cid pid before after,
        ServerMap.sent ∅ (.message ⟨0, 7⟩ text src) = before ++ welcome src cid pid :: after ∧
        (∀ d ∈ before ++ after, ¬ d.IsWelcome) ∧
        st₁.sent (.message ⟨1, 8⟩ text src) = [welcome src cid pid] := by
  intro s c ann src text st₁
  have hreq : Request.ofText text = .connect s c ann (some natTypeCone) := by decide +kernel
  exact connect_twice ∅ (by decide) ⟨1, 8⟩ src hreq

end NatPiercer.Signaling
