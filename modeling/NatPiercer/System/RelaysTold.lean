/-
# `System.RelaysTold` — when the recorded relay knows

A step leaves every recorded relay told exactly if it does none of three
things (`relaysTold_step_iff`): bring the relay on record back as a new session
that is elected again or is alone; leave one user by a `PEER_TIMEOUT` that has
not been told; find one user alone in a pass that has not been told.  The
last may yet be made up for by the pass itself, which may have another
channel appoint somebody at the same address.
-/
import NatPiercer.Signaling.DataRouting
import NatPiercer.System.Handover

namespace NatPiercer.System

open Text Utf8 Net Proto LockProg Signaling Client

/-! ## Whom the loop of a pass appoints -/

/-- Somebody at `addr` is appointed while the loop of a pass looks at `rest`, having
kept `kept`: the first that does not need the server, when the relay goes; the
one that is left alone, when another goes. -/
def Appoints (now : Signaling.Instant) (addr : SocketAddr) :
    Option Token → List User → List User → Prop
  | _, _, [] => False
  | relay, kept, u :: rest =>
      if u.expired now then
        ((relay = some u.name ∧
            ∃ v, (kept ++ rest).find? (fun v => !v.needsServerRelay) = some v ∧ v.addr = addr) ∨
          (relay ≠ some u.name ∧ ∃ v, kept ++ rest = [v] ∧ v.addr = addr)) ∨
        Appoints now addr
          (if relay = some u.name then sparedName (kept ++ rest) else soleOr relay (kept ++ rest))
          kept rest
      else Appoints now addr relay (kept ++ [u]) rest

section Pass
variable {now : Signaling.Instant} {ch : Channel} {a : SocketAddr}

theorem calls_expireLoop_iff {todo : Nat} {kept rest : List User}
    (hch : ch.users = kept ++ rest) (htodo : rest.length ≤ todo) :
    Calls a (expireLoop now todo kept.length ch).2 ↔ Appoints now a ch.relay kept rest := by
  -- by induction on the users that are left to look at
  induction rest generalizing todo kept ch with
  | nil =>
      rw [expireLoop_end (by rw [hch, List.append_nil])]
      exact iff_of_false not_calls_nil id
  | cons u rest ih =>
      obtain ⟨todo, rfl⟩ := Nat.exists_eq_add_of_le' (Nat.one_le_of_lt htodo)
      have herase := eraseIdx_kept hch
      have htodo : rest.length ≤ todo := Nat.le_of_succ_le_succ htodo
      rw [expireLoop_cons hch, Appoints]
      by_cases hexp : u.expired now = true
      · have hrest : ∀ left : Channel, left.users = kept ++ rest →
            (Calls a (expireLoop now todo kept.length left).2 ↔
              Appoints now a left.relay kept rest) := fun left hleft => ih hleft htodo
        have hrest := hrest _ ((handleTimedOutUser_users ch _ u.name u.addr).trans herase)
        rw [handleTimedOutUser_relay, herase] at hrest
        rw [if_pos hexp, if_pos hexp]
        dsimp only
        rw [calls_append, calls_handleTimedOutUser_iff, herase, hrest]
      · rw [if_neg hexp, if_neg hexp]
        exact ih (hch.trans (List.append_cons kept u rest)) htodo

/-- The loop calls whom it appoints. -/
theorem calls_expire_iff : Calls a (ch.expire now).2 ↔ Appoints now a ch.relay [] ch.users :=
  calls_expireLoop_iff (List.nil_append ch.users).symm (Nat.le_refl _)

end Pass

/-! ## What a step must not do -/

/-- What a request must not do, for the relay to know: bring the recorded relay
back as a new session that is elected again or is alone, or leave one user
that has not been told. -/
def RequestTells (o : Observed) (src : SocketAddr) : Request → Prop
  | .connect s c n natArg => ∀ ch, o.map.channel? s c = some ch → ch.relay = some n →
      (∀ u ∈ ch.users, u.isSession n src = false) →
      ch.others n ≠ [] ∧
        (Signaling.NatKind.ofArg natArg = .symmetric ∨ ∃ u ∈ ch.others n, u.eligible = true)
  | .peerTimeout s c n => ∀ ch u, o.map.channel? s c = some ch → ch.others n = [u] →
      o.told s c u.name u.addr = true
  | _ => True

/-- And a pass must not find an eligible user alone that has not been told, unless
another channel appoints somebody at its address. -/
def StepTells (o : Observed) : ServerStep → Prop
  | .message _ text src => RequestTells o src (Request.ofText text)
  | .heartbeat now => ∀ s c ch u, o.map.channel? s c = some ch → ch.users = [u] →
      u.expired now = false → u.needsServerRelay = false →
      o.told s c u.name u.addr = true ∨
        ∃ s' c' ch', o.map.channel? s' c' = some ch' ∧
          Appoints now u.addr ch'.relay [] ch'.users
  | .relayout _ _ => True

/-! ## Step and run -/

section Step
variable {o : Observed} {l : ServerStep} {s c : Token} {ch ch' : Channel} {u v : User}

theorem told_step_iff {n : Token} {a : SocketAddr} : (o.step l).told s c n a = true ↔
    (o.map.step l).hasSession s c n a = true ∧
      (o.told s c n a = true ∨ tell a modeRelay ∈ o.map.sent l) := by
  change ((o.map.step l).hasSession s c n a &&
    (o.told s c n a || decide (tell a modeRelay ∈ o.map.sent l))) = true ↔ _
  rw [Bool.and_eq_true, Bool.or_eq_true, decide_eq_true_eq]

/-- A user of the channel after a step, of a session that was told before it or
is told by it. -/
theorem told_of_member (hch' : (o.map.step l).channel? s c = some ch') (hu : u ∈ ch'.users)
    (h : o.told s c u.name u.addr = true ∨ tell u.addr modeRelay ∈ o.map.sent l) :
    (o.step l).told s c u.name u.addr = true := by
  refine told_step_iff.mpr ⟨?_, h⟩
  rw [ServerMap.hasSession, hch', Option.any_some, List.any_eq_true]
  exact ⟨u, hu, isSession_iff.mpr ⟨rfl, rfl⟩⟩

/-- The channel of a first `CONNECT` has no users and no relay. -/
theorem told_default (hp : RelaysTold o) (hu : u ∈ ((o.map.channel? s c).getD .default).users)
    (hr : ((o.map.channel? s c).getD .default).relay = some u.name) :
    o.told s c u.name u.addr = true := by
  cases ho : o.map.channel? s c with
  | none =>
      rw [ho] at hu
      exact absurd hu List.not_mem_nil
  | some ch =>
      rw [ho] at hu hr
      exact hp s c ch u.name ho hr u hu rfl

theorem requestTells_default {src : SocketAddr} {n : Token} {natArg : Option Token}
    (hok : RequestTells o src (.connect s c n natArg))
    (hr : ((o.map.channel? s c).getD .default).relay = some n)
    (hnew : ∀ u ∈ ((o.map.channel? s c).getD .default).users, u.isSession n src = false) :
    ((o.map.channel? s c).getD .default).others n ≠ [] ∧
      (Signaling.NatKind.ofArg natArg = .symmetric ∨
        ∃ u ∈ ((o.map.channel? s c).getD .default).others n, u.eligible = true) := by
  cases ho : o.map.channel? s c with
  | none =>
      rw [ho] at hr
      exact absurd hr (Option.some_ne_none n).symm
  | some ch =>
      rw [ho] at hr hnew
      exact hok ch ho hr hnew

/-- The newcomer is elected only if it can be, and nobody before it. -/
theorem newcomer_elected {amb : Ambient} {nat : Signaling.NatKind} {src : SocketAddr} {n : Token}
    (hnew : ∀ u ∈ ch.users, u.isSession n src = false)
    (hpick : pickEligibleRelay (ch.joined amb n nat src) = some (ch.newUser amb n nat src)) :
    nat ≠ .symmetric ∧ ∀ u ∈ ch.others n, u.eligible = false := by
  rw [pickEligibleRelay, joined_users amb nat hnew] at hpick
  constructor
  · rintro rfl
    have helig := List.find?_some hpick
    simp at helig
  · intro u hu
    by_contra helig
    have hfirst : (ch.others n).find? User.eligible ≠ none := by
      rw [Ne, List.find?_eq_none]
      exact fun hall => hall u hu (Bool.eq_true_of_not_eq_false helig)
    obtain ⟨y, hy⟩ := Option.ne_none_iff_exists'.mp hfirst
    rw [List.find?_append, hy, Option.some_or, Option.some.injEq] at hpick
    have hname := (mem_others.mp (List.mem_of_find?_eq_some hy)).2
    exact hname (by rw [hpick, newUser_name])

/-- A `CONNECT` at a channel whose relay has been told. -/
theorem told_connect (amb : Ambient) (nat : Signaling.NatKind) {src : SocketAddr} {n : Token}
    (told : Token → SocketAddr → Prop) (hwell : ch.WellNamed)
    (hp : ∀ u ∈ ch.users, ch.relay = some u.name → told u.name u.addr)
    (hok : ch.relay = some n → (∀ u ∈ ch.users, u.isSession n src = false) →
      ch.others n ≠ [] ∧ (nat = .symmetric ∨ ∃ u ∈ ch.others n, u.eligible = true))
    (hr : (ch.connect amb n nat src).1.relay = some u.name)
    (hu : u ∈ (ch.connect amb n nat src).1.users) :
    told u.name u.addr ∨ tell u.addr modeRelay ∈ (ch.connect amb n nat src).2 := by
  rcases session_or_new n src ch with h | hnew
  · have hstand := (connect_of_session amb nat h).1
    obtain ⟨v, hv, hvu⟩ := hstand.user hu
    rw [← hvu.1, ← hvu.2.1]
    exact Or.inl (hp v hv (by rw [← hstand.2, hr, hvu.1]))
  · by_cases ho : ch.others n = []
    · obtain ⟨husers, hrelay, cid, pid, hsent⟩ := connect_lone amb nat hnew ho
      rw [husers, List.mem_singleton] at hu
      rw [hu, newUser_name, hrelay] at hr
      rw [hu, newUser_addr]
      split_ifs at hr with hnone
      · rw [hsent, if_pos hnone.1, if_neg hnone.2]
        exact Or.inr (List.mem_append_left _ List.mem_cons_self)
      · exact absurd ho (hok hr hnew).1
    · obtain ⟨helect, cid, pid, hsent⟩ := connect_elect amb nat hnew ho
      have hwell' := wellNamed_connect hwell amb n nat src
      rw [helect] at hr hu hwell'
      rw [elect_relay] at hr
      rw [Channel.WellNamed] at hwell'
      rw [elect_users] at hu hwell'
      have hpick : pickEligibleRelay (ch.joined amb n nat src) = some u :=
        find?_unique hwell' hr hu rfl
      by_cases hsame : ch.relay = some u.name
      · -- elected again: told before, unless it is the new session
        rw [joined_users amb nat hnew] at hu
        rcases List.mem_append.mp hu with hu | hu
        · exact Or.inl (hp u (mem_others.mp hu).1 hsame)
        · rw [List.mem_singleton] at hu
          rw [hu] at hpick hsame
          rw [newUser_name] at hsame
          obtain ⟨hnat, hnobody⟩ := newcomer_elected hnew hpick
          obtain ⟨-, hsym | ⟨x, hx, helig⟩⟩ := hok hsame hnew
          · exact absurd hsym hnat
          · exact absurd (helig.symm.trans (hnobody x hx)) Bool.noConfusion
      · rw [hsent]
        refine Or.inr (List.mem_cons_of_mem _ (mem_elect_told hpick ?_))
        rw [joined_relay]
        exact hsame

/-- A `DISCONNECT` at a channel whose relay has been told. -/
theorem told_disconnect {src : SocketAddr} {n : Token} (told : Token → SocketAddr → Prop)
    (hwell : ch.WellNamed) (hp : ∀ u ∈ ch.users, ch.relay = some u.name → told u.name u.addr)
    (hr : (ch.disconnect n src).1.relay = some u.name) (hu : u ∈ (ch.disconnect n src).1.users) :
    told u.name u.addr ∨ tell u.addr modeRelay ∈ (ch.disconnect n src).2 := by
  rcases session_or_new n src ch with h | habsent
  · obtain ⟨husers, hrelay⟩ := disconnect_of_session hwell h
    rw [husers] at hu
    rw [hrelay] at hr
    by_cases hleft : ch.relay = some n
    · rw [if_pos hleft] at hr
      have herase := eraseP_isSession hwell h
      have hfind : (ch.users.find? (User.isSession n src)).isSome := by
        rw [List.find?_isSome]
        exact h
      obtain ⟨y, hy⟩ := Option.isSome_iff_exists.mp hfind
      unfold Channel.disconnect findAndRemoveUser
      simp only [hy, herase, decide_eq_true hleft]
      refine Or.inr (List.mem_append_left _ (mem_repair_told ?_ hr hu rfl))
      exact hwell.sublist (List.filter_sublist.map _)
    · rw [if_neg hleft] at hr
      exact Or.inl (hp u (mem_others.mp hu).1 hr)
  · rw [disconnect_of_absent habsent] at hr hu
    exact Or.inl (hp u hu hr)

/-- A pass over a channel whose relay has been told. -/
theorem relaysTold_heartbeat {now : Signaling.Instant}
    (hn : Everywhere Channel.WellNamed o.map) (hp : RelaysTold o)
    (hok : StepTells o (.heartbeat now)) (ho : o.map.channel? s c = some ch)
    (hch : ch.heartbeat now = some ch') :
    ∀ m, ch'.relay = some m → ∀ u ∈ ch'.users, u.name = m →
      o.told s c u.name u.addr = true ∨
        tell u.addr modeRelay ∈ o.map.sent (.heartbeat now) := by
  have hsent : ∀ {s c : Token} {ch : Channel} {a : SocketAddr}, o.map.channel? s c = some ch →
      Calls a (ch.expire now).2 → tell a modeRelay ∈ o.map.sent (.heartbeat now) := by
    intro s c ch a ho hcalled
    refine mem_sent_of_told (s := s) (c := c) ?_
    rw [ho]
    exact mem_heartbeatTold hcalled
  have hcalls := passCalls_expire now (hn s c ch ho)
  obtain ⟨husers, ⟨v, hv, hrelay⟩ | ⟨-, rfl⟩⟩ := heartbeat_eq_some hch
  · intro m hm u hu _
    rw [husers, hv, List.mem_singleton] at hu
    rw [hrelay] at hm
    subst hu
    split_ifs at hm with hneeds
    have hneeds : u.needsServerRelay = false := by simpa using hneeds
    have hsole : (ch.expire now).1.users = [u] := by rw [expire_users, hv]
    rcases hcalls.sole with hsame | hcalled
    · -- nobody has gone: it was alone before the pass
      rw [hsame] at hsole
      have hfresh : u ∈ ch.survivors now := by
        rw [hv]
        exact List.mem_cons_self
      have hfresh : u.expired now = false := by simpa using (List.mem_filter.mp hfresh).2
      refine (hok s c ch u ho hsole hfresh hneeds).imp id ?_
      rintro ⟨s', c', ch', ho', happoints⟩
      exact hsent ho' (calls_expire_iff.mpr happoints)
    · exact Or.inr (hsent ho (hcalled u hsole hneeds))
  · intro m hm u hu hname
    rcases hcalls.called m hm u hu hname with hsame | hcalled
    · subst hname
      exact Or.inl (hp s c ch _ ho hsame u (hcalls.subset u hu) rfl)
    · exact Or.inr (hsent ho hcalled)

/-- A step that does as it should leaves every recorded relay told. -/
theorem relaysTold_step (hn : Everywhere Channel.WellNamed o.map) (hp : RelaysTold o)
    (hstep : StepTells o l) : RelaysTold (o.step l) := by
  intro s c ch' m hch' hm u hu hname
  have hch' : (o.map.step l).channel? s c = some ch' := hch'
  subst hname
  refine told_of_member hch' hu ?_
  rw [channel?_step] at hch'
  have hchange := change_of_effect hch'
  have hok : ∀ {amb text src}, l = .message amb text src →
      RequestTells o src (Request.ofText text) := fun hl => by
    subst hl
    exact hstep
  have hkept : ∀ {ch v}, o.map.channel? s c = some ch → ch.relay = some v.name → v ∈ ch.users →
      o.told s c v.name v.addr = true := fun ho hr hv => hp s c _ _ ho hr _ hv rfl
  generalize ho : o.map.channel? s c = before at hchange hok ⊢
  cases hchange with
  | standing h =>
      obtain ⟨v, hv, hvu⟩ := h.user hu
      rw [← hvu.2.1]
      exact Or.inl (hp s c _ _ ho (h.2 ▸ hm) v hv hvu.1)
  | @connect amb text src n natArg _ hl hreq =>
      have hok := hok hl
      rw [hreq] at hok
      subst ho
      have htold := told_connect amb (.ofArg natArg) (o.told s c · · = true)
        (Everywhere.getD hn wellNamed_default s c) (fun _ => told_default hp)
        (requestTells_default hok) hm hu
      rw [hl]
      refine htold.imp id fun hd => mem_sent_of_told (s := s) (c := c) ?_
      change _ ∈ (Request.ofText text).told amb src s c (o.map.channel? s c)
      rw [hreq, Request.told, if_pos ⟨rfl, rfl⟩]
      exact hd
  | evict hl hreq hc => exact Or.inl (hkept ho hm (List.mem_filter.mp hu).1)
  | @disconnect amb text src n ch hl hreq =>
      have htold := told_disconnect (o.told s c · · = true) (hn s c ch ho)
        (fun _ hv hr => hkept ho hr hv) hm hu
      rw [hl]
      refine htold.imp id fun hd => mem_sent_of_told (s := s) (c := c) ?_
      change _ ∈ (Request.ofText text).told amb src s c (o.map.channel? s c)
      rw [ho, hreq, Request.told, if_pos ⟨rfl, rfl⟩]
      exact hd
  | @peerTimeout amb text src n ch hl hreq =>
      have hok := hok hl
      rw [hreq] at hok
      rw [removePeer_users] at hu
      rw [removePeer_relay] at hm
      by_cases hlen : (ch.others n).length = 1
      · obtain ⟨v, hv⟩ := List.length_eq_one_iff.mp hlen
        rw [hv, List.mem_singleton] at hu
        subst hu
        exact Or.inl (hok ch u ho hv)
      · rw [soleOr_of_length _ hlen] at hm
        exact Or.inl (hkept ho hm (mem_others.mp hu).1)
  | requestRelay hl hreq =>
      rcases Vec.mem_modifyFirst hu with hu | ⟨v, hv, -, rfl⟩
      · exact Or.inl (hkept ho hm hu)
      · exact Or.inl (hp s c _ _ ho hm v hv rfl)
  | @heartbeat now ch ch' hl h =>
      subst hl
      exact relaysTold_heartbeat hn hp hstep ho h u.name hm u hu rfl

/-- Whose session has been told is there. -/
def ToldAreThere (o : Observed) : Prop :=
  ∀ s c n a, o.told s c n a = true → o.map.hasSession s c n a = true

theorem toldAreThere_step (o : Observed) (l : ServerStep) : ToldAreThere (o.step l) :=
  fun _ _ _ _ h => (told_step_iff.mp h).1

/-- What is sent is sent on behalf of a channel, but for an answer to a probe and a
line that is passed on. -/
theorem telling_of_sent {st : ServerMap} {d : Datagram} (h : d ∈ st.sent l)
    (hl : ∀ amb text src, l = .message amb text src →
      Request.ofText text ≠ .natProbe ∧ Request.ofText text ≠ .data) :
    ∃ s c, Telling l s c d (st.channel? s c) := by
  rcases mem_sent_iff.mp h with ⟨s, c, hd⟩ | ⟨amb, text, src, hlm, ⟨hreq, -⟩ | ⟨hreq, -⟩⟩
  · exact ⟨s, c, telling_of_told hd⟩
  · exact absurd hreq (hl amb text src hlm).1
  · exact absurd hreq (hl amb text src hlm).2

theorem summons_relay (a : SocketAddr) : summons (tell a modeRelay).payload = true :=
  summons_line .relay

/-- A new session of the relay on record that is alone, or is elected again, stays
on record, and nobody is called. -/
theorem connect_again (amb : Ambient) {nat : Signaling.NatKind} {src : SocketAddr} {n : Token}
    (hr : ch.relay = some n) (hnew : ∀ u ∈ ch.users, u.isSession n src = false)
    (hagain : ¬ (ch.others n ≠ [] ∧ (nat = .symmetric ∨ ∃ u ∈ ch.others n, u.eligible = true))) :
    (ch.connect amb n nat src).1.relay = some n ∧
      ∀ d ∈ (ch.connect amb n nat src).2, summons d.payload = false := by
  -- whoever is elected is the newcomer
  have helected : ch.others n ≠ [] → electedName (ch.joined amb n nat src).users = some n := by
    intro hne
    have hnone : (ch.others n).find? User.eligible = none :=
      List.find?_eq_none.mpr fun u hu helig => hagain ⟨hne, Or.inr ⟨u, hu, helig⟩⟩
    have hnat : nat ≠ .symmetric := fun hsym => hagain ⟨hne, Or.inl hsym⟩
    rw [electedName, joined_users amb nat hnew, List.find?_append, hnone, Option.none_or,
      List.find?_cons_of_pos (by simp [hnat]), Option.map_some, newUser_name]
  constructor
  · by_cases hne : ch.others n = []
    · rw [(connect_lone amb _ hnew hne).2.1, hr, if_neg fun h => Option.some_ne_none n h.1]
    · rw [(connect_elect amb _ hnew hne).1, elect_relay, helected hne]
  · intro d hd
    by_contra hsum
    obtain ⟨-, ⟨-, -, hnone, -⟩ | ⟨hne, u, hu, hchanges, -⟩⟩ :=
      (tells_connect amb nat d hd).2 (Bool.eq_true_of_not_eq_false hsum)
    · exact Option.some_ne_none n (hr.symm.trans hnone)
    · have hname := helected hne
      rw [electedName, show (ch.joined amb n nat src).users.find? User.eligible = some u from hu,
        Option.map_some] at hname
      exact hchanges (hr.trans hname.symm)

/-- So it has not been told. -/
theorem requestTells_connect {amb : Ambient} {text : Str} {src : SocketAddr} {n : Token}
    {natArg : Option Token} (hp : RelaysTold (o.step (.message amb text src)))
    (hthere : ToldAreThere o) (hreq : Request.ofText text = .connect s c n natArg)
    (ho : o.map.channel? s c = some ch) (hr : ch.relay = some n)
    (hnew : ∀ u ∈ ch.users, u.isSession n src = false) :
    ch.others n ≠ [] ∧
      (Signaling.NatKind.ofArg natArg = .symmetric ∨ ∃ u ∈ ch.others n, u.eligible = true) := by
  by_contra hagain
  obtain ⟨hkept, hnobody⟩ := connect_again amb hr hnew hagain
  have hmem : ch.newUser amb n (.ofArg natArg) src ∈
      (ch.connect amb n (.ofArg natArg) src).1.users := by
    rw [connect_users_of_new amb _ hnew]
    exact List.mem_append_right _ List.mem_cons_self
  have hch : (o.step (.message amb text src)).map.channel? s c =
      some (ch.connect amb n (.ofArg natArg) src).1 := by
    change (o.map.step _).channel? s c = _
    rw [channel?_step, ho]
    change (Request.ofText text).effect amb src s c (some ch) = _
    rw [hreq, Request.effect, if_pos ⟨rfl, rfl⟩, Option.getD_some]
  rcases (told_step_iff.mp (hp s c _ n hch hkept _ hmem (newUser_name ..))).2 with hold | hsent
  · have hthere := hthere s c n _ hold
    rw [ServerMap.hasSession, ho, Option.any_some, List.any_eq_true] at hthere
    obtain ⟨x, hx, hsess⟩ := hthere
    exact absurd ((hnew x hx).symm.trans hsess) Bool.false_ne_true
  · obtain ⟨s', c', htelling⟩ := telling_of_sent hsent (by
      rintro _ _ _ ⟨⟩
      rw [hreq]
      exact ⟨by simp, by simp⟩)
    have hcalled : ∀ {o' : Option Channel}, Telling (.message amb text src) s' c'
        (tell src modeRelay) o' → o' = o.map.channel? s' c' → False := by
      intro o' h ho'
      cases h with
      | heartbeat hl hd => exact absurd hl (by simp)
      | disconnect hl hreq' hd | peerTimeout hl hreq' hd | requestRelay hl hreq' hd =>
          cases hl
          exact absurd (hreq.symm.trans hreq') (by simp)
      | connect hl hreq' hd =>
          cases hl
          obtain ⟨rfl, rfl, rfl, rfl⟩ := Request.connect.inj (hreq.symm.trans hreq')
          rw [ho', ho, Option.getD_some] at hd
          exact Bool.false_ne_true ((hnobody _ hd).symm.trans (summons_relay src))
    exact hcalled htelling rfl

/-- The one whom a `PEER_TIMEOUT` leaves is put on record without a word to it. -/
theorem requestTells_peerTimeout {amb : Ambient} {text : Str} {src : SocketAddr} {n : Token}
    (hp : RelaysTold (o.step (.message amb text src)))
    (hreq : Request.ofText text = .peerTimeout s c n) (ho : o.map.channel? s c = some ch)
    (hsole : ch.others n = [u]) : o.told s c u.name u.addr = true := by
  have hch : (o.step (.message amb text src)).map.channel? s c = some (ch.removePeer n) := by
    change (o.map.step _).channel? s c = _
    rw [channel?_step, ho]
    change (Request.ofText text).effect amb src s c (some ch) = _
    rw [hreq, Request.effect, if_pos ⟨rfl, rfl⟩]
    rfl
  have hrelay : (ch.removePeer n).relay = some u.name := by
    rw [removePeer_relay, hsole]
    rfl
  have hmem : u ∈ (ch.removePeer n).users := by
    rw [removePeer_users, hsole]
    exact List.mem_cons_self
  refine (told_step_iff.mp (hp s c _ _ hch hrelay u hmem rfl)).2.resolve_right fun hsent => ?_
  obtain ⟨s', c', htelling⟩ := telling_of_sent hsent (by
    rintro _ _ _ ⟨⟩
    rw [hreq]
    exact ⟨by simp, by simp⟩)
  generalize o.map.channel? s' c' = o' at htelling
  cases htelling with
  | heartbeat hl hd => exact absurd hl (by simp)
  | connect hl hreq' hd | disconnect hl hreq' hd | requestRelay hl hreq' hd =>
      cases hl
      exact absurd (hreq.symm.trans hreq') (by simp)
  | peerTimeout hl hreq' hd => exact (tells_peerTimeout _ hd).2 (summons_relay u.addr)

/-- A user that a pass finds alone is put on record, and is told if another channel
appoints it. -/
theorem stepTells_heartbeat {now : Signaling.Instant}
    (hp : RelaysTold (o.step (.heartbeat now))) (ho : o.map.channel? s c = some ch)
    (hsole : ch.users = [u]) (hfresh : u.expired now = false)
    (hneeds : u.needsServerRelay = false) :
    o.told s c u.name u.addr = true ∨
      ∃ s' c' ch', o.map.channel? s' c' = some ch' ∧
        Appoints now u.addr ch'.relay [] ch'.users := by
  have hsurvivors : ch.survivors now = [u] := by
    rw [Channel.survivors, hsole, List.filter_cons_of_pos (by simp [hfresh]), List.filter_nil]
  have hbeat : ch.heartbeat now = some (ch.expireAndSettle now).1 := by
    rw [Channel.heartbeat, if_neg]
    rw [expireAndSettle_users, hsurvivors]
    exact Bool.false_ne_true
  have hch : (o.step (.heartbeat now)).map.channel? s c = some (ch.expireAndSettle now).1 := by
    change (o.map.step _).channel? s c = _
    rw [channel?_step, ho]
    exact hbeat
  obtain ⟨husers, ⟨v, hv, hrelay⟩ | ⟨hlen, -⟩⟩ := heartbeat_eq_some hbeat
  · obtain rfl := (List.cons.inj (hsurvivors.symm.trans hv)).1
    rw [if_neg (by simp [hneeds])] at hrelay
    have hmem : u ∈ (ch.expireAndSettle now).1.users := by
      rw [husers, hsurvivors]
      exact List.mem_cons_self
    refine (told_step_iff.mp (hp s c _ _ hch hrelay u hmem rfl)).2.imp id fun hsent => ?_
    obtain ⟨s', c', htelling⟩ := telling_of_sent hsent fun _ _ _ hl => absurd hl (by simp)
    generalize ho' : o.map.channel? s' c' = o' at htelling
    cases htelling with
    | connect hl | disconnect hl | peerTimeout hl | requestRelay hl => exact absurd hl (by simp)
    | @heartbeat _ ch' hl hd =>
        cases hl
        exact ⟨s', c', ch', ho', calls_expire_iff.mp
          ((tells_heartbeatTold now ch' _ hd).2 (summons_relay u.addr))⟩
  · rw [hsurvivors] at hlen
    exact absurd hlen (Nat.not_le.mpr Nat.one_lt_two)

/-- A step leaves every recorded relay told exactly if it does as it should. -/
theorem relaysTold_step_iff (hn : Everywhere Channel.WellNamed o.map) (hthere : ToldAreThere o)
    (hp : RelaysTold o) : RelaysTold (o.step l) ↔ StepTells o l := by
  refine ⟨fun h => ?_, relaysTold_step hn hp⟩
  cases l with
  | relayout _ _ => trivial
  | heartbeat now => exact fun s c ch u ho hsole hfresh => stepTells_heartbeat h ho hsole hfresh
  | message amb text src =>
      change RequestTells o src (Request.ofText text)
      cases hreq : Request.ofText text with
      | connect s c n natArg => exact fun ch ho hr => requestTells_connect h hthere hreq ho hr
      | peerTimeout s c n => exact fun ch u ho => requestTells_peerTimeout h hreq ho
      | natProbe | pong | hb | disconnect | requestRelay | data | unknown => trivial

end Step

theorem relaysTold_init : RelaysTold .init := fun _ _ _ _ h => absurd h (Option.some_ne_none _).symm

/-- **When every recorded relay has been told.**  Along a run from the empty map, in
every state, every recorded relay has been sent `MODE RELAY` since its session
was added, exactly when every step does as it should. -/
theorem relaysTold_always_iff (ls : List ServerStep) :
    Always Observed.step RelaysTold .init ls ↔ EachStep Observed.step StepTells .init ls :=
  always_iff_eachStep (J := fun o => Everywhere Channel.WellNamed o.map ∧ ToldAreThere o)
    (fun o l h => ⟨wellNamed_step l h.1, toldAreThere_step o l⟩)
    (fun _ _ h hp => relaysTold_step_iff h.1 h.2 hp) ls
    ⟨everywhere_empty _, fun _ _ _ _ h => absurd h Bool.false_ne_true⟩ relaysTold_init

/-- Ann is alone, and is elected again when Bob connects; Bob is reported, and the
pass after that finds Ann alone. -/
theorem relaysTold_ann :
    let ann : SocketAddr := .v4 ⟨10, 0, 0, 1⟩ 4000
    let bob : SocketAddr := .v4 ⟨10, 0, 0, 2⟩ 4000
    Always Observed.step RelaysTold .init
      [.message ⟨0, 7⟩ "CONNECT s c ann CONE".toList ann,
        .message ⟨1, 8⟩ "CONNECT s c bob CONE".toList bob,
        .message ⟨2, 9⟩ "PEER_TIMEOUT s c bob".toList ann,
        .heartbeat (20 * 10 ^ 9)] := by
  intro ann bob
  let s : Token := ⟨"s".toList, by decide⟩
  let c : Token := ⟨"c".toList, by decide⟩
  let user : User := ⟨1, ⟨"ann".toList, by decide⟩, ann, 0, false, .cone⟩
  let joined : List ServerStep := [.message ⟨0, 7⟩ "CONNECT s c ann CONE".toList ann]
  let both : List ServerStep :=
    joined ++ [.message ⟨1, 8⟩ "CONNECT s c bob CONE".toList bob]
  let alone : List ServerStep :=
    both ++ [.message ⟨2, 9⟩ "PEER_TIMEOUT s c bob".toList ann]
  refine (relaysTold_always_iff _).mpr ⟨?_, ?_, ?_, ?_, trivial⟩
  · change RequestTells .init ann (Request.ofText "CONNECT s c ann CONE".toList)
    rw [show Request.ofText "CONNECT s c ann CONE".toList =
      .connect s c user.name (some natTypeCone) by decide +kernel]
    exact fun ch hch => absurd hch (Option.some_ne_none ch).symm
  · change RequestTells (after Observed.step .init joined) bob
      (Request.ofText "CONNECT s c bob CONE".toList)
    rw [show Request.ofText "CONNECT s c bob CONE".toList =
      .connect s c ⟨"bob".toList, by decide⟩ (some natTypeCone) by decide +kernel]
    intro ch hch hr
    have hone : (after Observed.step .init joined).map.channel? s c =
        some ⟨7, 2, [user], some user.name⟩ := by
      decide +kernel
    rw [← Option.some.inj (hone.symm.trans hch)] at hr
    exact absurd hr (by decide)
  · change RequestTells (after Observed.step .init both) ann
      (Request.ofText "PEER_TIMEOUT s c bob".toList)
    rw [show Request.ofText "PEER_TIMEOUT s c bob".toList =
      .peerTimeout s c ⟨"bob".toList, by decide⟩ by decide +kernel]
    intro ch u hch hsole
    have htwo : (after Observed.step .init both).map.channel? s c =
        some ⟨7, 3, [user, ⟨2, ⟨"bob".toList, by decide⟩, bob, 1, false, .cone⟩],
          some user.name⟩ := by
      decide +kernel
    rw [← Option.some.inj (htwo.symm.trans hch)] at hsole
    have hu : [user] = [u] := hsole
    rw [← (List.cons.inj hu).1]
    decide +kernel
  · intro s' c' ch u hch hsole _ _
    have hchannels : (after Observed.step .init alone).map.channels =
        [(s, c, ⟨7, 3, [user], some user.name⟩)] := by
      decide +kernel
    have hmem : (s', c', ch) ∈ (after Observed.step .init alone).map.channels :=
      ServerMap.mem_channels_iff.mpr hch
    rw [hchannels, List.mem_singleton] at hmem
    obtain ⟨rfl, rfl, rfl⟩ : s' = s ∧ c' = c ∧ ch = ⟨7, 3, [user], some user.name⟩ := by
      simpa using hmem
    have hu : [user] = [u] := hsole
    rw [← (List.cons.inj hu).1]
    exact Or.inl (by decide +kernel)

/-- Ann is the relay of Bob; a `PEER_TIMEOUT` names her, and Bob is on record
without a word to him. -/
theorem relay_not_told :
    let ann : SocketAddr := .v4 ⟨10, 0, 0, 1⟩ 4000
    let bob : SocketAddr := .v4 ⟨10, 0, 0, 2⟩ 4000
    let run : List ServerStep :=
      [.message ⟨0, 7⟩ "CONNECT s c ann CONE".toList ann,
        .message ⟨1, 8⟩ "CONNECT s c bob CONE".toList bob,
        .message ⟨2, 9⟩ "PEER_TIMEOUT s c ann".toList bob]
    ¬ RelaysTold (after Observed.step .init run) := by
  intro ann bob run h
  let s : Token := ⟨"s".toList, by decide⟩
  let c : Token := ⟨"c".toList, by decide⟩
  let user : User := ⟨2, ⟨"bob".toList, by decide⟩, bob, 1, false, .cone⟩
  have hc : (after Observed.step .init run).map.channel? s c =
      some ⟨7, 3, [user], some user.name⟩ := by
    decide +kernel
  have htold : (after Observed.step .init run).told s c user.name bob = false := by
    decide +kernel
  have := h s c _ _ hc rfl user List.mem_cons_self rfl
  exact absurd (this.symm.trans htold) (by decide)

end NatPiercer.System
