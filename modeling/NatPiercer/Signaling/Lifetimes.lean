/-
# `Signaling.Lifetimes` — the life of one session

A session is a name at an address, in one channel.  From the `CONNECT` that
makes its entry to the step that takes it out, the entry is written to by
few things: signs of life make it fresh, a `REQUEST_RELAY` marks it, and five
things end it.  `ServerStep.life` says all of that of one entry by itself, as a
machine whose state is the entry; `session?_step` says that the server runs this
machine for each of its sessions.

So a session lasts exactly as long as nothing ends it (`lasts_iff`).  The one
end that nobody sends for is a heartbeat pass that finds the entry more than
forty seconds old.
-/
import NatPiercer.Lib.Beats
import NatPiercer.Signaling.Pickers
import NatPiercer.Signaling.Stability

namespace NatPiercer.Signaling

open Text Utf8 Net Proto LockProg

def User.touch (now : Instant) (u : User) : User := { u with lastPong := now }

def User.mark (u : User) : User := { u with needsServerRelay := true }

/-- The entry of the session of `n` at `a`. -/
def ServerMap.session? (st : ServerMap) (s c n : Token) (a : SocketAddr) : Option User :=
  (st.channel? s c).bind fun ch => ch.users.find? (User.isSession n a)

/-- Whom `handle_pong` finds in a channel. -/
def Channel.found (src : SocketAddr) (ch : Channel) : Option User :=
  ch.users.find? fun u => u.addr = src

section Life
variable (s c n : Token) (a : SocketAddr)

/-- What a request from `src` does to the entry `u`, which is the session of `n` at
`a` in `s`/`c`; `found` is whom a `PONG` finds there. -/
def Request.life (amb : Ambient) (src : SocketAddr) (found : Option User) :
    Request → User → Option User
  | pong, u => some (if found = some u then u.touch amb.now else u)
  | hb s' c' n', u =>
      some (if s = s' ∧ c = c' ∧ n' = n ∧ src = a then u.touch amb.now else u)
  | connect s' c' n' _, u =>
      if s = s' ∧ n' = n then
        if c = c' then if src = a then some (u.touch amb.now) else none
        else if src = a then none else some u
      else some u
  | disconnect s' c' n', u => if s = s' ∧ c = c' ∧ n' = n ∧ src = a then none else some u
  | peerTimeout s' c' n', u => if s = s' ∧ c = c' ∧ n' = n then none else some u
  | requestRelay s' c' n', u => some (if s = s' ∧ c = c' ∧ n' = n then u.mark else u)
  | natProbe, u | data, u | unknown, u => some u

/-- What a step does to the entry. -/
def ServerStep.life (st : ServerMap) : ServerStep → User → Option User
  | message amb text src, u =>
      (Request.ofText text).life s c n a amb src ((st.channel? s c).bind (Channel.found src)) u
  | heartbeat now, u => if u.expired now then none else some u
  | relayout _ _, u => some u

/-- The request ends the session, whatever its entry says. -/
def Request.Ends (src : SocketAddr) : Request → Prop
  | connect s' c' n' _ => s = s' ∧ n' = n ∧ (c = c' ↔ src ≠ a)
  | disconnect s' c' n' => s = s' ∧ c = c' ∧ n' = n ∧ src = a
  | peerTimeout s' c' n' => s = s' ∧ c = c' ∧ n' = n
  | natProbe | pong | hb _ _ _ | requestRelay _ _ _ | data | unknown => False

/-- The five ends: the user leaves, is reported, connects to another channel, or
from another address, or has been silent for too long. -/
def ServerStep.Ends (st : ServerMap) : ServerStep → Prop
  | message _ text src => (Request.ofText text).Ends s c n a src
  | heartbeat now => ∀ u, st.session? s c n a = some u → u.expired now = true
  | relayout _ _ => False

end Life

/-! ## One channel -/

section Channel
variable {ch : Channel} {n m : Token} {a src : SocketAddr} {u : User}

theorem entry_mem (hu : ch.users.find? (User.isSession n a) = some u) :
    u ∈ ch.users ∧ u.name = n ∧ u.addr = a :=
  ⟨List.mem_of_find?_eq_some hu, isSession_iff.mp (List.find?_some hu)⟩

theorem find?_others (m : Token) :
    (ch.others m).find? (User.isSession n a) =
      if m = n then none else ch.users.find? (User.isSession n a) := by
  rw [Channel.others, List.find?_filter]
  split_ifs with hm
  · refine List.find?_eq_none.mpr fun x _ hx => ?_
    have hboth := of_decide_eq_true hx
    exact (of_decide_eq_true hboth.1) ((isSession_iff.mp hboth.2).1.trans hm.symm)
  · refine congrArg (fun p => ch.users.find? p) (funext fun x => ?_)
    by_cases hx : x.isSession n a = true
    · have hname : x.name ≠ m := fun h => hm (h.symm.trans (isSession_iff.mp hx).1)
      simp [hx, hname]
    · simp [hx]

/-- The session of `n` at `a` is the only one of its name. -/
theorem not_session_of_ne (hn : ch.WellNamed) (hu : ch.users.find? (User.isSession n a) = some u)
    (hsrc : src ≠ a) : ∀ x ∈ ch.users, x.isSession n src = false := by
  obtain ⟨hmem, hname, haddr⟩ := entry_mem hu
  refine fun x hx => Bool.eq_false_iff.mpr fun hsession => hsrc ?_
  obtain ⟨hxname, hxaddr⟩ := isSession_iff.mp hsession
  rw [← hxaddr, hn.eq_of_name hx hmem (hxname.trans hname.symm), haddr]

/-- What is written to the first entry that meets a condition. -/
theorem entry_modifyFirst {p : User → Bool} {f : User → User} {users : List User}
    (hf : ∀ x, (f x).session = x.session) (hu : users.find? (User.isSession n a) = some u) :
    (Vec.modifyFirst p f users).find? (User.isSession n a) =
      some (if users.find? p = some u then f u else u) := by
  have hsame : ∀ x, (f x).isSession n a = x.isSession n a := by
    intro x
    rw [User.isSession, User.isSession, show (f x).name = x.name from congrArg Prod.fst (hf x),
      show (f x).addr = x.addr from congrArg Prod.snd (hf x)]
  rw [Vec.find?_modifyFirst_of_same hsame, hu]
  rfl

/-- Another session is made fresh. -/
theorem entry_refresh_of_ne (now : Instant) (hu : ch.users.find? (User.isSession n a) = some u)
    (hne : ¬ (m = n ∧ src = a)) :
    (ch.refresh now m src).users.find? (User.isSession n a) = some u := by
  obtain ⟨-, hname, haddr⟩ := entry_mem hu
  refine (entry_modifyFirst (f := User.touch now) (fun _ => rfl) hu).trans
    (congrArg some (if_neg fun hx => hne ?_))
  obtain ⟨hm, hsrc⟩ := isSession_iff.mp (List.find?_some hx)
  exact ⟨hm.symm.trans hname, hsrc.symm.trans haddr⟩

/-- The entry, after a `CONNECT` to its channel. -/
theorem entry_connect (hn : ch.WellNamed) (hu : ch.users.find? (User.isSession n a) = some u)
    (amb : Ambient) (m : Token) (nat : NatKind) (src : SocketAddr) :
    (ch.connect amb m nat src).1.users.find? (User.isSession n a) =
      if m = n then if src = a then some (u.touch amb.now) else none else some u := by
  by_cases hm : m = n
  · subst hm
    rw [if_pos rfl]
    by_cases hsrc : src = a
    · subst hsrc
      rw [if_pos rfl, connect_eq_of_session amb nat hu]
      have hid : (ch.ensureId amb.channelId).users.find? (User.isSession m src) = some u := by
        rw [ensureId_users, hu]
      exact (entry_modifyFirst (f := User.touch amb.now) (fun _ => rfl) hid).trans
        (congrArg some (if_pos hid))
    · rw [if_neg hsrc, connect_users_of_new amb nat (not_session_of_ne hn hu hsrc),
        List.find?_append, find?_others, if_pos rfl, Option.none_or]
      refine List.find?_eq_none.mpr fun x hx hsession => hsrc ?_
      rw [List.mem_singleton.mp hx] at hsession
      exact (isSession_iff.mp hsession).2
  · rw [if_neg hm]
    rcases session_or_new m src ch with hknown | hnew
    · obtain ⟨x, hx⟩ := Option.isSome_iff_exists.mp (List.find?_isSome.mpr hknown)
      rw [connect_eq_of_session amb nat hx]
      have hid : (ch.ensureId amb.channelId).users.find? (User.isSession n a) = some u := by
        rw [ensureId_users, hu]
      exact entry_refresh_of_ne amb.now hid fun h => hm h.1
    · rw [connect_users_of_new amb nat hnew, List.find?_append, find?_others, if_neg hm, hu,
        Option.some_or]

theorem entry_evict (hu : ch.users.find? (User.isSession n a) = some u) (m : Token)
    (src : SocketAddr) :
    (ch.evict m src).users.find? (User.isSession n a) =
      if m = n ∧ src = a then none else some u := by
  rw [Channel.evict, List.find?_filter]
  split_ifs with h
  · obtain ⟨rfl, rfl⟩ := h
    refine List.find?_eq_none.mpr fun x _ hx => ?_
    simp at hx
  · rw [← hu]
    refine congrArg (fun p => ch.users.find? p) (funext fun x => ?_)
    by_cases hx : x.isSession n a = true
    · have hother : x.isSession m src = false := by
        refine Bool.eq_false_iff.mpr fun hm => h ?_
        obtain ⟨hname, haddr⟩ := isSession_iff.mp hx
        obtain ⟨rfl, rfl⟩ := isSession_iff.mp hm
        exact ⟨hname, haddr⟩
      simp [hx, hother]
    · simp [hx]

theorem entry_disconnect (hn : ch.WellNamed)
    (hu : ch.users.find? (User.isSession n a) = some u) (m : Token) (src : SocketAddr) :
    (ch.disconnect m src).1.users.find? (User.isSession n a) =
      if m = n ∧ src = a then none else some u := by
  rw [disconnect_users]
  rcases session_or_new m src ch with hknown | hnew
  · rw [eraseP_isSession hn hknown, find?_others, hu]
    by_cases hm : m = n
    · subst hm
      have hsrc : src = a := by
        by_contra hsrc
        obtain ⟨x, hx, hsession⟩ := hknown
        rw [not_session_of_ne hn hu hsrc x hx] at hsession
        exact Bool.false_ne_true hsession
      rw [if_pos rfl, if_pos ⟨rfl, hsrc⟩]
    · rw [if_neg hm, if_neg fun h => hm h.1]
  · rw [List.eraseP_of_forall_not (by simpa using hnew), hu, if_neg]
    rintro ⟨rfl, rfl⟩
    obtain ⟨hmem, hname, haddr⟩ := entry_mem hu
    have hsession := hnew u hmem
    rw [isSession_iff.mpr ⟨hname, haddr⟩] at hsession
    exact Bool.false_ne_true hsession.symm

theorem entry_requestRelay (hn : ch.WellNamed)
    (hu : ch.users.find? (User.isSession n a) = some u) (m : Token) :
    (ch.requestRelay m).users.find? (User.isSession n a) =
      some (if m = n then u.mark else u) := by
  obtain ⟨hmem, hname, -⟩ := entry_mem hu
  refine (entry_modifyFirst (f := User.mark) (fun _ => rfl) hu).trans (congrArg some ?_)
  by_cases hm : m = n
  · subst hm
    have hfind : ch.users.find? (fun x => x.name = m) = some u :=
      Vec.find?_of_only hmem (decide_eq_true hname) fun x hx hxm =>
        hn.eq_of_name hx hmem ((of_decide_eq_true hxm).trans hname.symm)
    rw [if_pos hfind, if_pos rfl]
  · rw [if_neg hm, if_neg]
    intro hx
    have hxm := List.find?_some (p := fun x : User => decide (x.name = m)) hx
    exact hm ((of_decide_eq_true hxm).symm.trans hname)

theorem entry_heartbeat (hn : ch.WellNamed) (hu : ch.users.find? (User.isSession n a) = some u)
    (now : Instant) :
    ((ch.heartbeat now).bind fun ch => ch.users.find? (User.isSession n a)) =
      if u.expired now then none else some u := by
  obtain ⟨hmem, hname, haddr⟩ := entry_mem hu
  have hsession : u.isSession n a = true := isSession_iff.mpr ⟨hname, haddr⟩
  have honly : ∀ x ∈ ch.users, x.isSession n a = true → x = u := fun x hx hxs =>
    hn.eq_of_name hx hmem ((isSession_iff.mp hxs).1.trans hname.symm)
  cases hexp : u.expired now with
  | true =>
      rw [if_pos rfl]
      cases hch : ch.heartbeat now with
      | none => rfl
      | some ch' =>
          rw [Option.bind_some, (heartbeat_eq_some hch).1]
          refine List.find?_eq_none.mpr fun x hx hxs => ?_
          obtain ⟨hx, hfresh⟩ := List.mem_filter.mp hx
          rw [honly x hx hxs, hexp] at hfresh
          exact Bool.false_ne_true hfresh
  | false =>
      obtain ⟨ch', hch, hmem'⟩ := stays_heartbeat hmem hexp
      rw [if_neg Bool.false_ne_true, hch, Option.bind_some]
      refine Vec.find?_of_only hmem' hsession fun x hx => honly x ?_
      rw [(heartbeat_eq_some hch).1] at hx
      exact (List.mem_filter.mp hx).1

end Channel

/-! ## The server runs it -/

section Step
variable {st : ServerMap} {s c n : Token} {a : SocketAddr} {u : User}

theorem session?_eq_some :
    st.session? s c n a = some u ↔
      ∃ ch, st.channel? s c = some ch ∧ ch.users.find? (User.isSession n a) = some u :=
  Option.bind_eq_some_iff

/-- **One step.**  Whatever else it does, of a session it makes what `life` says. -/
theorem session?_step (hn : Everywhere Channel.WellNamed st) (hu : st.session? s c n a = some u)
    (l : ServerStep) : (st.step l).session? s c n a = l.life s c n a st u := by
  obtain ⟨ch, hch, hfind⟩ := session?_eq_some.mp hu
  have hwell := hn s c ch hch
  rw [ServerMap.session?, channel?_step, hch]
  cases l with
  | relayout s' c' => exact hfind
  | heartbeat now => exact entry_heartbeat hwell hfind now
  | message amb text src =>
      unfold ServerStep.effect ServerStep.life
      dsimp only
      rw [hch, Option.bind_some]
      generalize Request.ofText text = r
      cases r with
      | natProbe | data | unknown => exact hfind
      | pong => exact entry_modifyFirst (f := User.touch amb.now) (fun _ => rfl) hfind
      | hb s' c' m =>
          rw [Request.effect, Request.life]
          by_cases hsc : s = s' ∧ c = c'
          · rw [if_pos hsc]
            by_cases hm : m = n ∧ src = a
            · obtain ⟨rfl, rfl⟩ := hm
              rw [if_pos ⟨hsc.1, hsc.2, rfl, rfl⟩]
              exact (entry_modifyFirst (f := User.touch amb.now) (fun _ => rfl) hfind).trans
                (congrArg some (if_pos hfind))
            · rw [if_neg fun h => hm h.2.2]
              exact entry_refresh_of_ne amb.now hfind hm
          · rw [if_neg hsc, if_neg fun h => hsc ⟨h.1, h.2.1⟩]
            exact hfind
      | connect s' c' m natArg =>
          rw [Request.effect, Request.life]
          by_cases hs : s = s'
          · by_cases hc : c = c'
            · rw [if_pos ⟨hs, hc⟩, Option.bind_some, Option.getD_some, entry_connect hwell hfind]
              simp only [hs, hc, true_and, if_true]
            · rw [if_neg fun h => hc h.2, if_pos hs, Option.map_some, Option.bind_some,
                entry_evict hfind]
              simp only [hs, hc, true_and, if_false, ite_and]
          · rw [if_neg fun h => hs h.1, if_neg hs, if_neg fun h => hs h.1]
            exact hfind
      | disconnect s' c' m =>
          rw [Request.effect, Request.life]
          by_cases hsc : s = s' ∧ c = c'
          · rw [if_pos hsc, Option.map_some, Option.bind_some, entry_disconnect hwell hfind]
            simp only [hsc.1, hsc.2, true_and]
          · rw [if_neg hsc, if_neg fun h => hsc ⟨h.1, h.2.1⟩]
            exact hfind
      | peerTimeout s' c' m =>
          rw [Request.effect, Request.life]
          by_cases hsc : s = s' ∧ c = c'
          · rw [if_pos hsc, Option.map_some, Option.bind_some, Channel.peerTimeout,
              removePeer_users, find?_others, hfind]
            simp only [hsc.1, hsc.2, true_and]
          · rw [if_neg hsc, if_neg fun h => hsc ⟨h.1, h.2.1⟩]
            exact hfind
      | requestRelay s' c' m =>
          rw [Request.effect, Request.life]
          by_cases hsc : s = s' ∧ c = c'
          · rw [if_pos hsc, Option.map_some, Option.bind_some, entry_requestRelay hwell hfind]
            simp only [hsc.1, hsc.2, true_and]
          · rw [if_neg hsc, if_neg fun h => hsc ⟨h.1, h.2.1⟩]
            exact hfind

/-- The machine stops at one of the five ends, and at nothing else. -/
theorem life_eq_none_iff (hu : st.session? s c n a = some u) (l : ServerStep) :
    l.life s c n a st u = none ↔ l.Ends s c n a st := by
  cases l with
  | relayout _ _ => exact iff_of_false (Option.some_ne_none u) id
  | heartbeat now =>
      unfold ServerStep.life ServerStep.Ends
      dsimp only
      constructor
      · intro h v hv
        rw [← Option.some.inj (hu.symm.trans hv)]
        by_contra hexp
        rw [if_neg hexp] at h
        exact Option.some_ne_none u h
      · exact fun h => if_pos (h u hu)
  | message amb text src =>
      unfold ServerStep.life ServerStep.Ends
      dsimp only
      generalize Request.ofText text = r
      cases r with
      | natProbe | pong | hb _ _ _ | requestRelay _ _ _ | data | unknown =>
          exact iff_of_false (Option.some_ne_none _) id
      | connect s' c' m natArg =>
          unfold Request.life Request.Ends
          by_cases hs : s = s' <;> by_cases hm : m = n <;> by_cases hc : c = c' <;>
            by_cases hsrc : src = a <;> simp [hs, hm, hc, hsrc]
      | disconnect s' c' m =>
          unfold Request.life Request.Ends
          dsimp only
          split_ifs with h
          · exact iff_of_true rfl h
          · exact iff_of_false id h
      | peerTimeout s' c' m =>
          unfold Request.life Request.Ends
          dsimp only
          split_ifs with h
          · exact iff_of_true rfl h
          · exact iff_of_false id h

/-- What an entry keeps for as long as it is there: its number, its name, its
address and its NAT kind; and a mark, once it has one. -/
structure EntryKeeps (u v : User) : Prop where
  badge : v.badge = u.badge
  natKind : v.natKind = u.natKind
  needs : u.needsServerRelay = true → v.needsServerRelay = true

theorem EntryKeeps.refl (u : User) : EntryKeeps u u := ⟨rfl, rfl, id⟩

theorem EntryKeeps.trans {u v w : User} (h : EntryKeeps u v) (h' : EntryKeeps v w) :
    EntryKeeps u w :=
  ⟨h'.badge.trans h.badge, h'.natKind.trans h.natKind, fun hu => h'.needs (h.needs hu)⟩

theorem entryKeeps_life {v : User} {l : ServerStep} (h : l.life s c n a st u = some v) :
    EntryKeeps u v := by
  have htouch : ∀ now, EntryKeeps u (u.touch now) := fun _ => ⟨rfl, rfl, id⟩
  have hmark : EntryKeeps u u.mark := ⟨rfl, rfl, fun _ => rfl⟩
  cases l with
  | relayout _ _ => exact Option.some.inj h ▸ .refl u
  | heartbeat now =>
      unfold ServerStep.life at h
      dsimp only at h
      split_ifs at h
      exact Option.some.inj h ▸ .refl u
  | message amb text src =>
      unfold ServerStep.life at h
      dsimp only at h
      generalize Request.ofText text = r at h
      cases r with
      | natProbe | data | unknown => exact Option.some.inj h ▸ .refl u
      | pong | hb _ _ _ =>
          unfold Request.life at h
          rw [← Option.some.inj h]
          split_ifs
          · exact htouch amb.now
          · exact .refl u
      | requestRelay _ _ _ =>
          unfold Request.life at h
          rw [← Option.some.inj h]
          split_ifs
          · exact hmark
          · exact .refl u
      | connect _ _ _ _ =>
          unfold Request.life at h
          dsimp only at h
          split_ifs at h
          · exact Option.some.inj h ▸ htouch amb.now
          · exact Option.some.inj h ▸ .refl u
          · exact Option.some.inj h ▸ .refl u
      | disconnect _ _ _ | peerTimeout _ _ _ =>
          unfold Request.life at h
          dsimp only at h
          split_ifs at h
          exact Option.some.inj h ▸ .refl u

theorem everywhere_wellNamed_of_reachable (hst : st.Reachable) : Everywhere Channel.WellNamed st :=
  hst.of_section (everywhere_empty _) fun _ _ hn h => everywhere_wellNamed_section hn h.effect

/-- The entry stays through a step exactly if that is none of the ends. -/
theorem isSome_session?_step_iff (hn : Everywhere Channel.WellNamed st)
    (hu : (st.session? s c n a).isSome = true) (l : ServerStep) :
    ((st.step l).session? s c n a).isSome = true ↔ ¬ l.Ends s c n a st := by
  obtain ⟨u, hu⟩ := Option.isSome_iff_exists.mp hu
  rw [session?_step hn hu, ← life_eq_none_iff hu]
  exact Option.isSome_iff_ne_none

/-- **How long a session lasts, and what it keeps.**  From any state that the server
can come to have, along any run: the entry is there after every step exactly
if no step is one of the five ends; and for as long as it is there it keeps
its number, its NAT kind and its mark. -/
theorem lasts_iff (hst : st.Reachable) (hu : st.session? s c n a = some u) (ls : List ServerStep) :
    (Always ServerMap.step (fun st' => (st'.session? s c n a).isSome = true) st ls ↔
      EachStep ServerMap.step (fun st' l => ¬ l.Ends s c n a st') st ls) ∧
    (Always ServerMap.step (fun st' => (st'.session? s c n a).isSome = true) st ls →
      Always ServerMap.step (fun st' => ∀ v, st'.session? s c n a = some v → EntryKeeps u v) st
        ls) := by
  have hn := everywhere_wellNamed_of_reachable hst
  have hsome : (st.session? s c n a).isSome = true := by rw [hu]; rfl
  refine ⟨always_iff_eachStep (J := Everywhere Channel.WellNamed)
    (fun _ l hn => wellNamed_step l hn) (fun _ l hn h => isSome_session?_step_iff hn h l) ls hn
    hsome, fun hlasts => ?_⟩
  have hkept : Always ServerMap.step
      (fun st' => Everywhere Channel.WellNamed st' ∧
        ∀ v, st'.session? s c n a = some v → EntryKeeps u v) st ls := by
    refine always_of_always (fun st' l hst' hnow hnext => ?_)
      ⟨hn, fun v hv => Option.some.inj (hu.symm.trans hv) ▸ .refl u⟩ hlasts
    obtain ⟨v, hv⟩ := Option.isSome_iff_exists.mp hnow
    refine ⟨wellNamed_step l hst'.1, fun w hw => (hst'.2 v hv).trans ?_⟩
    rw [session?_step hst'.1 hv] at hw
    exact entryKeeps_life hw
  exact hkept.mono fun _ h => h.2

end Step

/-- Ann connects and sends a heartbeat after thirty seconds; a pass after sixty does
not find her too old, one after eighty does. -/
theorem lasts_ann :
    let ann : SocketAddr := .v4 ⟨10, 0, 0, 1⟩ 4000
    let s : Token := ⟨['s'], by decide⟩
    let c : Token := ⟨['c'], by decide⟩
    let n : Token := ⟨"ann".toList, by decide⟩
    let st := after ServerMap.step ∅ [.message ⟨0, 7⟩ "CONNECT s c ann".toList ann]
    let hb : ServerStep := .message ⟨30 * 10 ^ 9, 0⟩ "HB s c ann".toList ann
    Always ServerMap.step (fun st' => (st'.session? s c n ann).isSome = true) st
        [hb, .heartbeat (60 * 10 ^ 9)] ∧
      ¬ Always ServerMap.step (fun st' => (st'.session? s c n ann).isSome = true) st
        [hb, .heartbeat (80 * 10 ^ 9)] := by
  intro ann s c n st hb
  have hu : st.session? s c n ann = some (User.new n ann .unknown 1 0) := by decide +kernel
  have hst : st.Reachable := reachable_after _
  refine ⟨(lasts_iff hst hu _).1.mpr ⟨id, fun h => ?_, trivial⟩, fun h => ?_⟩
  · exact absurd
      (h { User.new n ann .unknown 1 0 with lastPong := 30 * 10 ^ 9 } (by decide +kernel))
      (by decide)
  · refine ((lasts_iff hst hu _).1.mp h).2.1 fun u hu => ?_
    have hentry : (st.step hb).session? s c n ann =
        some { User.new n ann .unknown 1 0 with lastPong := 30 * 10 ^ 9 } := by
      decide +kernel
    rw [← Option.some.inj (hentry.symm.trans hu)]
    decide

/-! ## Signs of life -/

/-- When a step takes place. -/
def ServerStep.instant? : ServerStep → Option Nat
  | message amb _ _ => some amb.now
  | heartbeat now => some now
  | relayout _ _ => none

/-- How old an entry may get. -/
def patience : Nat := 40 * 10 ^ 9

section Signs
variable (s c n : Token) (a : SocketAddr)

/-- A sign of life that the session gives by its name. -/
def ServerStep.IsSign : ServerStep → Prop
  | message _ text src =>
      src = a ∧ (Request.ofText text = .hb s c n ∨ ∃ natArg, Request.ofText text =
        .connect s c n natArg)
  | heartbeat _ | relayout _ _ => False

/-- No message ends the session. -/
def ServerStep.Spared : ServerStep → Prop
  | message _ text src => ¬ (Request.ofText text).Ends s c n a src
  | heartbeat _ | relayout _ _ => True

/-- The server watches the session. -/
def sessionWatch : Beats.Watch ServerMap ServerStep where
  instant? := ServerStep.instant?
  IsSign := ServerStep.IsSign s c n a
  check?
    | .heartbeat now => some now
    | .message _ _ _ | .relayout _ _ => none
  patience := patience
  stamp st := (st.session? s c n a).map User.lastPong

variable {s c n a}

/-- An entry is as it was, or has become fresh. -/
theorem lastPong_life {st : ServerMap} {u v : User} {l : ServerStep}
    (h : l.life s c n a st u = some v) :
    v.lastPong = u.lastPong ∨ l.instant? = some v.lastPong := by
  cases l with
  | relayout _ _ => exact Or.inl (Option.some.inj h ▸ rfl)
  | heartbeat now =>
      unfold ServerStep.life at h
      dsimp only at h
      split_ifs at h
      exact Or.inl (Option.some.inj h ▸ rfl)
  | message amb text src =>
      unfold ServerStep.life at h
      dsimp only at h
      generalize Request.ofText text = r at h
      cases r with
      | natProbe | data | unknown => exact Or.inl (Option.some.inj h ▸ rfl)
      | pong | hb _ _ _ =>
          unfold Request.life at h
          rw [← Option.some.inj h]
          split_ifs
          · exact Or.inr rfl
          · exact Or.inl rfl
      | requestRelay _ _ _ =>
          unfold Request.life at h
          rw [← Option.some.inj h]
          split_ifs <;> exact Or.inl rfl
      | connect _ _ _ _ =>
          unfold Request.life at h
          dsimp only at h
          split_ifs at h
          · exact Or.inr (Option.some.inj h ▸ rfl)
          · exact Or.inl (Option.some.inj h ▸ rfl)
          · exact Or.inl (Option.some.inj h ▸ rfl)
      | disconnect _ _ _ | peerTimeout _ _ _ =>
          unfold Request.life at h
          dsimp only at h
          split_ifs at h
          exact Or.inl (Option.some.inj h ▸ rfl)

/-- And it has become fresh at a sign. -/
theorem lastPong_of_isSign {st : ServerMap} {u v : User} {l : ServerStep}
    (h : l.life s c n a st u = some v) (hsign : l.IsSign s c n a) :
    l.instant? = some v.lastPong := by
  cases l with
  | relayout _ _ | heartbeat _ => exact hsign.elim
  | message amb text src =>
      unfold ServerStep.life at h
      dsimp only at h
      obtain ⟨rfl, hreq | ⟨natArg, hreq⟩⟩ := hsign
      · rw [hreq, Request.life, if_pos ⟨rfl, rfl, rfl, rfl⟩] at h
        exact Option.some.inj h ▸ rfl
      · rw [hreq, Request.life, if_pos ⟨rfl, rfl⟩, if_pos rfl, if_pos rfl] at h
        exact Option.some.inj h ▸ rfl

theorem keptBy_step {st : ServerMap} {l : ServerStep} (hn : Everywhere Channel.WellNamed st)
    (hl : l.Spared s c n a) : (sessionWatch s c n a).KeptBy ServerMap.step st l := by
  intro x hx hcheck
  obtain ⟨u, hu, rfl⟩ := Option.map_eq_some_iff.mp hx
  have hends : ¬ l.Ends s c n a st := by
    cases l with
    | relayout _ _ => exact id
    | message amb text src => exact hl
    | heartbeat now =>
        intro hexp
        have hage : now - u.lastPong ≤ patience := Nat.sub_le_iff_le_add'.mpr (hcheck now rfl)
        exact absurd (of_decide_eq_true (hexp u hu)) (Nat.not_lt.mpr hage)
  obtain ⟨v, hv⟩ := Option.ne_none_iff_exists'.mp ((life_eq_none_iff hu l).not.mpr hends)
  have hstep : (st.step l).session? s c n a = some v := (session?_step hn hu l).trans hv
  exact ⟨v.lastPong, congrArg (Option.map User.lastPong) hstep, lastPong_life hv,
    lastPong_of_isSign hv⟩

/-- The session lasts, if it is heard of in time and no message ends it. -/
theorem lasts_of_heardInTime {st : ServerMap} {u : User} {ls : List ServerStep}
    (hst : st.Reachable) (hu : st.session? s c n a = some u)
    (htime : Beats.InTime ServerStep.instant? u.lastPong ls)
    (hspared : ∀ l ∈ ls, l.Spared s c n a)
    (hheard : (sessionWatch s c n a).HeardInTime u.lastPong ls) :
    Always ServerMap.step (fun st' => (st'.session? s c n a).isSome = true) st ls := by
  have hlasts := (sessionWatch s c n a).lasts (fun st' l h => wellNamed_step l h)
    (fun st' l hn hl => keptBy_step hn hl) (everywhere_wellNamed_of_reachable hst)
    (congrArg (Option.map User.lastPong) hu) (Nat.le_refl _) (Nat.le_refl _) htime hspared hheard
  exact hlasts.mono fun st' h => by rwa [sessionWatch, Option.isSome_map] at h

end Signs

end NatPiercer.Signaling
