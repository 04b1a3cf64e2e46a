/-
# `System.Handover` — whom a heartbeat pass calls

The loop of a pass removes users one at a time, and each removal may put
another user on record and call it: the first that does not need the server,
when the relay is removed; the one that is left, when somebody else is
removed and one user is left.  Users that will be removed later in the same
pass are elected and called like the others.

A survivor that is called is on record at the end of the loop
(`relay_of_called`), for nothing that follows takes it off.  The pass itself
may: a single survivor that needs the server is taken off record, and
`calls_sole_iff` says when the loop has called it.
-/
import Mathlib.Data.List.Perm.Basic
import NatPiercer.System.Tells

namespace NatPiercer.System

open Text Utf8 Net Proto LockProg Signaling Client

/-! ## Whom a pass calls -/

section Pass
variable {now : Instant} {ch : Channel} {u : User} {a : SocketAddr}

theorem not_calls_nil : ¬ Calls a [] := List.not_mem_nil

theorem calls_append {ns ns' : List Notification} :
    Calls a (ns ++ ns') ↔ Calls a ns ∨ Calls a ns' := List.mem_append

/-- A script in which nobody is made a relay calls nobody. -/
theorem not_calls_script {addrs : List SocketAddr} (ls : List ControlLine) {payload : Bytes}
    (hp : payload = asBytes (ls.flatMap ControlLine.text)) (hls : .relay ∉ ls) :
    ¬ Calls a [(addrs, payload)] := by
  intro h
  have hpayload : asBytes modeRelay = payload := (Prod.mk.inj (List.mem_singleton.mp h)).2
  have hsum : summons (asBytes modeRelay) = true := summons_line .relay
  rw [hpayload, hp, summons_script] at hsum
  exact hls (of_decide_eq_true hsum)

theorem calls_handleRelayTimeout_iff : Calls a (handleRelayTimeout ch).2 ↔
    ∃ x, Heartbeat.pickEligibleRelay ch = some x ∧ x.addr = a := by
  unfold handleRelayTimeout
  cases h : Heartbeat.pickEligibleRelay ch with
  | none =>
      dsimp only
      refine ⟨fun hc => ?_, fun ⟨x, hx, _⟩ => absurd hx (Option.some_ne_none x).symm⟩
      exfalso
      split_ifs at hc
      · exact not_calls_nil hc
      · refine not_calls_script (ch.users.map fun u => .serverRelay u.name) ?_ (by simp) hc
        rw [asBytes_flatMap, List.flatMap_map]
        rfl
  | some x =>
      constructor
      · intro hc
        rcases calls_append.mp hc with hc | hc
        · rcases List.mem_cons.mp hc with hc | hc
          · exact ⟨x, rfl, by simpa using (Prod.mk.inj hc).1.symm⟩
          · exfalso
            split_ifs at hc
            · exact not_calls_nil hc
            · refine not_calls_script ((ch.users.filter fun y => y.name ≠ x.name).map fun _ =>
                .direct x.name x.addr) ?_ (by simp) hc
              rw [asBytes_flatMap, List.flatMap_map]
              rfl
        · exfalso
          split_ifs at hc
          · exact not_calls_nil hc
          · refine not_calls_script ((ch.users.filter fun y => y.name ≠ x.name).map fun peer =>
              .direct peer.name peer.addr) ?_ (by simp) hc
            rw [asBytes_flatMap, List.flatMap_map]
            rfl
      · rintro ⟨y, hy, rfl⟩
        obtain rfl := Option.some.inj hy
        exact List.mem_append_left _ List.mem_cons_self

/-- A removal calls the elected, if it removed the relay, or else the one that is
left alone. -/
theorem calls_handleTimedOutUser_iff {i : Nat} {gone : User} :
    Calls a (handleTimedOutUser ch i gone.name gone.addr).2 ↔
      (ch.relay = some gone.name ∧ ∃ x,
        (ch.users.eraseIdx i).find? (fun y => !y.needsServerRelay) = some x ∧ x.addr = a) ∨
      (ch.relay ≠ some gone.name ∧ ∃ x, ch.users.eraseIdx i = [x] ∧ x.addr = a) := by
  have hleft : ¬ Calls a (if ((ch.users.filter fun u => u.addr ≠ gone.addr).map
      User.addr).isEmpty then [] else [((ch.users.filter fun u => u.addr ≠ gone.addr).map
        User.addr, asBytes (userLeft gone.name gone.addr.token))]) := by
    split_ifs
    · exact not_calls_nil
    · refine not_calls_script [.userLeft gone.name gone.addr.token] ?_ (by simp)
      rw [List.flatMap_cons, List.flatMap_nil, List.append_nil]
      rfl
  unfold handleTimedOutUser
  dsimp only
  by_cases hwas : ch.relay = some gone.name
  · rw [if_pos (by simpa using hwas)]
    simp only [calls_append, hleft, false_or, calls_handleRelayTimeout_iff, hwas, true_and,
      ne_eq, not_true_eq_false, false_and, or_false]
    rfl
  · rw [if_neg (by simpa using hwas)]
    simp only [hwas, false_and, false_or, ne_eq, not_false_eq_true, true_and]
    generalize ch.users.eraseIdx i = users
    rcases users with _ | ⟨v, _ | ⟨w, users⟩⟩
    · exact iff_of_false hleft fun ⟨x, hx, _⟩ => List.cons_ne_nil x [] hx.symm
    · simp only [calls_append, hleft, false_or]
      simp [Calls, eq_comm]
    · exact iff_of_false hleft fun ⟨x, hx, _⟩ => List.cons_ne_nil w users (List.cons.inj hx).2

/-- A user is not called in another's place. -/
def AddrsApart (ch : Channel) : Prop :=
  ∀ x ∈ ch.users, ∀ y ∈ ch.users, x.addr = y.addr → x = y

theorem AddrsApart.sublist {ch' : Channel} (h : AddrsApart ch)
    (hs : ch'.users.Sublist ch.users) : AddrsApart ch' := fun x hx y hy =>
  h x (hs.subset hx) y (hs.subset hy)

/-- A survivor that was on record, or is called, is on record after the loop: it
is not removed, so nothing takes it off. -/
theorem relay_of_called (hn : ch.WellNamed) (ha : AddrsApart ch) (hu : u ∈ ch.survivors now)
    (h : ch.relay = some u.name ∨ Calls u.addr (ch.expire now).2) :
    (ch.expire now).1.relay = some u.name := by
  have hfresh : u.expired now = false := by simpa using (List.mem_filter.mp hu).2
  have hloop := expire_induct now ch
    (Q := fun ch' ns => ch'.users.Sublist ch.users ∧
      (u ∈ ch'.users → ch.relay = some u.name ∨ Calls u.addr ns → ch'.relay = some u.name))
    ⟨List.Sublist.refl _, fun _ h => h.resolve_right not_calls_nil⟩ ?_
  · exact hloop.2 (by rw [expire_users]; exact hu) h
  · rintro ch' ns i gone ⟨hsub, hQ⟩ hgone hexp -
    have husers := handleTimedOutUser_users ch' i gone.name gone.addr
    have herase : (ch'.users.eraseIdx i).Sublist ch'.users := List.eraseIdx_sublist _ _
    refine ⟨husers ▸ herase.trans hsub, fun hmem hcase => ?_⟩
    rw [husers] at hmem
    have hne : gone.name ≠ u.name := fun hname => by
      have heq := hn.eq_of_name (hsub.subset (List.mem_of_getElem? hgone))
        (hsub.subset (herase.subset hmem)) hname
      rw [heq, hfresh] at hexp
      exact absurd hexp Bool.false_ne_true
    rw [handleTimedOutUser_relay]
    rw [calls_append] at hcase
    have hcase : ch'.relay = some u.name ∨
        Calls u.addr (handleTimedOutUser ch' i gone.name gone.addr).2 := by
      rcases hcase with hold | hold | hnew
      · exact Or.inl (hQ (herase.subset hmem) (Or.inl hold))
      · exact Or.inl (hQ (herase.subset hmem) (Or.inr hold))
      · exact Or.inr hnew
    rcases hcase with hrelay | hcalled
    · -- it stays on record
      rw [hrelay, if_neg fun hg => hne (Option.some.inj hg).symm]
      by_cases hlen : (ch'.users.eraseIdx i).length = 1
      · obtain ⟨v, hv⟩ := List.length_eq_one_iff.mp hlen
        rw [hv, List.mem_singleton] at hmem
        rw [hv, hmem]
        rfl
      · rw [soleOr_of_length _ hlen]
    · rcases calls_handleTimedOutUser_iff.mp hcalled with
        ⟨hr, x, hx, hxu⟩ | ⟨hr, x, hx, hxu⟩
      · have heq : x = u := ha x (hsub.subset (herase.subset (List.mem_of_find?_eq_some hx)))
          u (hsub.subset (herase.subset hmem)) hxu
        rw [if_pos hr, sparedName, hx, heq]
        rfl
      · rw [hx, List.mem_singleton] at hmem
        rw [if_neg hr, hx, hmem]
        rfl

/-! ## A pass that leaves one member -/

/-- The last user that a pass removes is on record when its turn comes: it was
on record, or it can be the relay and the one on record is removed too. -/
def HandedOver (now : Instant) (ch : Channel) : Prop :=
  ∀ v, (ch.users.filter (User.expired now)).getLast? = some v →
    ch.relay = some v.name ∨
      v.needsServerRelay = false ∧ ∃ w ∈ ch.users, w.expired now = true ∧ ch.relay = some w.name

theorem gone_eq_cons {i : Nat} {w : User} (hw : ch.users[i]? = some w)
    (hexp : w.expired now = true) (hfresh : ∀ v ∈ ch.users.take i, v.expired now = false) :
    ch.users.filter (User.expired now) =
      w :: (ch.users.eraseIdx i).filter (User.expired now) := by
  obtain ⟨hi, hget⟩ := List.getElem?_eq_some_iff.mp hw
  have hdrop : ch.users.drop i = w :: ch.users.drop (i + 1) := by
    rw [List.drop_eq_getElem_cons hi, hget]
  have htake : (ch.users.take i).filter (User.expired now) = [] :=
    List.filter_eq_nil_iff.mpr fun v hv => by simp [hfresh v hv]
  have hsplit : ch.users = ch.users.take i ++ w :: ch.users.drop (i + 1) := by
    rw [← hdrop, List.take_append_drop]
  rw [List.eraseIdx_eq_take_drop_succ, List.filter_append, htake, List.nil_append]
  conv_lhs => rw [hsplit]
  rw [List.filter_append, htake, List.nil_append, List.filter_cons_of_pos hexp]

theorem survivors_eraseIdx {i : Nat} {w : User} (hw : ch.users[i]? = some w)
    (hexp : w.expired now = true) :
    (ch.users.eraseIdx i).filter (fun x => !x.expired now) = ch.survivors now := by
  obtain ⟨hi, hget⟩ := List.getElem?_eq_some_iff.mp hw
  have hdrop : ch.users.drop i = w :: ch.users.drop (i + 1) := by
    rw [List.drop_eq_getElem_cons hi, hget]
  have hsplit : ch.users = ch.users.take i ++ w :: ch.users.drop (i + 1) := by
    rw [← hdrop, List.take_append_drop]
  unfold Channel.survivors
  conv_rhs => rw [hsplit]
  rw [List.eraseIdx_eq_take_drop_succ, List.filter_append, List.filter_append,
    List.filter_cons_of_neg (by simp [hexp])]

/-- One round of the loop before its last: the relay may be handed over, and
whether it ends with the last user to go is as before. -/
theorem handedOver_handleTimedOutUser {i : Nat} {w : User} (hn : ch.WellNamed)
    (hw : ch.users[i]? = some w) (hexp : w.expired now = true)
    (hfresh : ∀ v ∈ ch.users.take i, v.expired now = false)
    (hsole : ∀ x ∈ ch.users, x.expired now = false → x.needsServerRelay = true)
    (hmore : (ch.users.eraseIdx i).filter (User.expired now) ≠ [])
    (hlen : (ch.users.eraseIdx i).length ≠ 1) :
    HandedOver now (handleTimedOutUser ch i w.name w.addr).1 ↔ HandedOver now ch := by
  have hgone := gone_eq_cons hw hexp hfresh
  have hmemw : w ∈ ch.users := List.mem_of_getElem? hw
  have herase : (ch.users.eraseIdx i).Sublist ch.users := List.eraseIdx_sublist _ _
  obtain ⟨v, hv⟩ : ∃ v, ((ch.users.eraseIdx i).filter (User.expired now)).getLast? = some v :=
    Option.isSome_iff_exists.mp (List.getLast?_isSome.mpr hmore)
  have hlast : (ch.users.filter (User.expired now)).getLast? = some v := by
    rw [hgone, List.getLast?_cons, hv, Option.getD_some]
  have hvmem : v ∈ (ch.users.eraseIdx i).filter (User.expired now) := List.mem_of_getLast? hv
  obtain ⟨hverase, hvexp⟩ := List.mem_filter.mp hvmem
  -- the one removed is not the last to go, and has a name of its own
  have hwv : ∀ x ∈ ch.users.eraseIdx i, w.name ≠ x.name := by
    have hnodup : (w :: ch.users.eraseIdx i).Perm ch.users := by
      obtain ⟨hi, hget⟩ := List.getElem?_eq_some_iff.mp hw
      rw [← hget]
      exact (List.getElem_cons_eraseIdx_perm hi)
    have hnames := (hnodup.map User.name).nodup_iff.mpr hn
    rw [List.map_cons, List.nodup_cons] at hnames
    exact fun x hx hname => hnames.1 (List.mem_map.mpr ⟨x, hx, hname.symm⟩)
  unfold HandedOver
  rw [handleTimedOutUser_users, handleTimedOutUser_relay, hv, hlast, soleOr_of_length _ hlen]
  simp only [Option.some.injEq, forall_eq']
  by_cases hr : ch.relay = some w.name
  · rw [if_pos hr, hr]
    have hnot : some w.name ≠ some v.name := fun h => hwv v hverase (Option.some.inj h)
    constructor
    · rintro (hspared | ⟨hneeds, -⟩)
      · obtain ⟨x, hx, hname⟩ := Option.map_eq_some_iff.mp hspared
        have hxv : x = v := hn.eq_of_name (herase.subset (List.mem_of_find?_eq_some hx))
          (herase.subset hverase) hname
        refine Or.inr ⟨?_, w, hmemw, hexp, rfl⟩
        rw [← hxv]
        simpa using List.find?_some hx
      · exact Or.inr ⟨hneeds, w, hmemw, hexp, rfl⟩
    · rintro (hvw | ⟨hneeds, -⟩)
      · exact absurd hvw hnot
      · -- somebody is elected, and whoever is will go too
        have hsome : ((ch.users.eraseIdx i).find? fun x => !x.needsServerRelay).isSome := by
          rw [List.find?_isSome]
          exact ⟨v, hverase, by simp [hneeds]⟩
        obtain ⟨x, hx⟩ := Option.isSome_iff_exists.mp hsome
        have hxmem := List.mem_of_find?_eq_some hx
        have hxneeds : x.needsServerRelay = false := by simpa using List.find?_some hx
        have hxexp : x.expired now = true := by
          by_contra hfresh
          have := hsole x (herase.subset hxmem) (by simpa using hfresh)
          rw [hxneeds] at this
          exact Bool.false_ne_true this
        refine Or.inr ⟨hneeds, x, hxmem, hxexp, ?_⟩
        rw [sparedName, hx]
        rfl
  · rw [if_neg hr]
    refine or_congr_right (and_congr_right fun _ => ?_)
    constructor
    · rintro ⟨x, hx, hxexp, hxr⟩
      exact ⟨x, herase.subset hx, hxexp, hxr⟩
    · rintro ⟨x, hx, hxexp, hxr⟩
      have hxgone : x ∈ ch.users.filter (User.expired now) := List.mem_filter.mpr ⟨hx, hxexp⟩
      rw [hgone] at hxgone
      rcases List.mem_cons.mp hxgone with rfl | hxgone
      · exact absurd hxr hr
      · exact ⟨x, (List.mem_filter.mp hxgone).1, hxexp, hxr⟩

/-- The last round: the member that is left is called unless the relay goes. -/
theorem calls_last {i : Nat} {w : User} (hw : ch.users[i]? = some w)
    (hexp : w.expired now = true) (hfresh : ∀ v ∈ ch.users.take i, v.expired now = false)
    (hlast : ch.users.eraseIdx i = [u]) (hu : u.expired now = false)
    (hneeds : u.needsServerRelay = true) :
    Calls u.addr (handleTimedOutUser ch i w.name w.addr).2 ↔ ¬ HandedOver now ch := by
  have hgone := gone_eq_cons hw hexp hfresh
  rw [hlast, List.filter_cons_of_neg (by simp [hu]), List.filter_nil] at hgone
  have hover : HandedOver now ch ↔ ch.relay = some w.name := by
    unfold HandedOver
    rw [hgone]
    simp only [List.getLast?_singleton, Option.some.injEq, forall_eq']
    refine ⟨fun h => h.elim id ?_, Or.inl⟩
    rintro ⟨-, x, hx, hxexp, hxr⟩
    have hxgone : x ∈ ch.users.filter (User.expired now) := List.mem_filter.mpr ⟨hx, hxexp⟩
    rw [hgone, List.mem_singleton] at hxgone
    rw [hxr, hxgone]
  rw [calls_handleTimedOutUser_iff, hover, hlast]
  constructor
  · rintro (⟨-, x, hx, -⟩ | ⟨hr, -⟩)
    · have hxu := List.mem_singleton.mp (List.mem_of_find?_eq_some hx)
      have hxneeds := List.find?_some hx
      rw [hxu] at hxneeds
      simp [hneeds] at hxneeds
    · exact hr
  · exact fun hr => Or.inr ⟨hr, u, rfl, rfl⟩

/-- **Whether a pass calls the only member it leaves**, when that one needs the
server. -/
theorem calls_sole_iff (hn : ch.WellNamed) (ha : AddrsApart ch) (hu : ch.survivors now = [u])
    (hneeds : u.needsServerRelay = true) :
    Calls u.addr (ch.expire now).2 ↔ ¬ HandedOver now ch := by
  have hmem : u ∈ ch.survivors now := hu ▸ List.mem_singleton_self u
  have hfreshu : u.expired now = false := by simpa using (List.mem_filter.mp hmem).2
  have hloop := expire_induct now ch
    (Q := fun ch' ns => ch'.users.Sublist ch.users ∧ ch'.survivors now = [u] ∧
      ((ch'.users.filter (User.expired now) = [] ∧ (Calls u.addr ns ↔ ¬ HandedOver now ch)) ∨
        (ch'.users.filter (User.expired now) ≠ [] ∧ ¬ Calls u.addr ns ∧
          (HandedOver now ch' ↔ HandedOver now ch)))) ?_ ?_
  · -- nobody that has expired is left at the end
    rcases hloop.2.2 with ⟨-, hcalls⟩ | ⟨hleft, -⟩
    · exact hcalls
    · refine absurd (List.filter_eq_nil_iff.mpr fun x hx => ?_) hleft
      rw [expire_users, hu, List.mem_singleton] at hx
      simp [hx, hfreshu]
  · refine ⟨List.Sublist.refl _, hu, ?_⟩
    by_cases hgone : ch.users.filter (User.expired now) = []
    · refine Or.inl ⟨hgone, iff_of_false not_calls_nil fun h => h fun v hv => ?_⟩
      rw [hgone] at hv
      exact absurd hv (Option.some_ne_none v).symm
    · exact Or.inr ⟨hgone, not_calls_nil, Iff.rfl⟩
  · rintro ch' ns i w ⟨hsub, hsurv, hQ⟩ hw hexp hfresh
    have hgone := gone_eq_cons hw hexp hfresh
    obtain ⟨-, hcalls, hover⟩ : ch'.users.filter (User.expired now) ≠ [] ∧ ¬ Calls u.addr ns ∧
        (HandedOver now ch' ↔ HandedOver now ch) := by
      rcases hQ with ⟨hnil, -⟩ | hQ
      · rw [hgone] at hnil
        exact absurd hnil (List.cons_ne_nil _ _)
      · exact hQ
    have husers := handleTimedOutUser_users ch' i w.name w.addr
    have herase : (ch'.users.eraseIdx i).Sublist ch'.users := List.eraseIdx_sublist _ _
    have hsurv' := survivors_eraseIdx hw hexp
    rw [hsurv] at hsurv'
    have hmem' : u ∈ ch'.users.eraseIdx i :=
      (List.mem_filter.mp (hsurv' ▸ List.mem_singleton_self u)).1
    refine ⟨husers ▸ herase.trans hsub, by rw [Channel.survivors, husers, hsurv'], ?_⟩
    rw [husers, calls_append]
    simp only [hcalls, false_or]
    by_cases hmore : (ch'.users.eraseIdx i).filter (User.expired now) = []
    · have hlast : ch'.users.eraseIdx i = [u] := by
        rw [← hsurv']
        refine (List.filter_eq_self.mpr fun x hx => ?_).symm
        simpa using List.filter_eq_nil_iff.mp hmore x hx
      exact Or.inl ⟨hmore, (calls_last hw hexp hfresh hlast hfreshu hneeds).trans
        (not_congr hover)⟩
    · obtain ⟨x, xs, hx⟩ := List.exists_cons_of_ne_nil hmore
      obtain ⟨hxmem, hxexp⟩ := List.mem_filter.mp (hx ▸ List.mem_cons_self)
      have hlen : (ch'.users.eraseIdx i).length ≠ 1 := by
        intro hlen
        obtain ⟨y, hy⟩ := List.length_eq_one_iff.mp hlen
        rw [hy, List.mem_singleton] at hmem' hxmem
        rw [hxmem, ← hmem', hfreshu] at hxexp
        exact Bool.false_ne_true hxexp
      have hsole : ∀ y ∈ ch'.users, y.expired now = false → y.needsServerRelay = true := by
        intro y hy hfresh
        have hsurvives : y ∈ ch'.survivors now := List.mem_filter.mpr ⟨hy, by simp [hfresh]⟩
        rw [hsurv, List.mem_singleton] at hsurvives
        rw [hsurvives, hneeds]
      refine Or.inr ⟨hmore, fun hcalled => ?_, (handedOver_handleTimedOutUser
        (wellNamed_of_sublist hn hsub) hw hexp hfresh hsole hmore hlen).trans hover⟩
      rcases calls_handleTimedOutUser_iff.mp hcalled with ⟨-, y, hy, hyu⟩ | ⟨-, y, hy, -⟩
      · -- whoever is elected does not need the server
        have heq : y = u := ha y (hsub.subset (herase.subset (List.mem_of_find?_eq_some hy)))
          u (hsub.subset (herase.subset hmem')) hyu
        have hyneeds := List.find?_some hy
        simp [heq, hneeds] at hyneeds
      · rw [hy] at hlen
        exact hlen rfl

end Pass

end NatPiercer.System
