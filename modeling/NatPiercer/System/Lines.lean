/-
# `System.Lines` — what each member is told, line by line

The server writes one control line in a datagram, except in a heartbeat pass.
So what the client at an address makes of some datagrams is what it makes of
the lines for it, one after the other (`Utters`); a `WELCOME` counts for
nothing.  An election says different things to the relay, to the members that
are reached through it, and to those that need the server (`linesTo`).
-/
import NatPiercer.Client.Tables
import NatPiercer.System.Joint
import NatPiercer.System.Mirroring

namespace NatPiercer.System

open Text Utf8 Net Proto LockProg Signaling Client

section Utters
variable {server a : SocketAddr}

/-- Of the datagrams `ds`, the client at `a` makes what it makes of `ls`. -/
def Utters (server a : SocketAddr) (ds : List Datagram) (ls : List ControlLine) : Prop :=
  ∀ now me, received server now (ds.filter fun d => d.dst = a) me = ls.foldl (heed now) me

theorem utters_nil : Utters server a [] [] := fun _ _ => rfl

theorem Utters.append {ds ds' : List Datagram} {ls ls' : List ControlLine}
    (h : Utters server a ds ls) (h' : Utters server a ds' ls') :
    Utters server a (ds ++ ds') (ls ++ ls') := by
  intro now me
  have hfold := h' now (ls.foldl (heed now) me)
  rw [← h now me] at hfold
  rw [List.filter_append, List.foldl_append, ← h now me, ← hfold]
  exact List.foldl_append

variable (server a) in
theorem utters_tell (dst : SocketAddr) (l : ControlLine) :
    Utters server a [tell dst l.text] (if dst = a then [l] else []) := by
  intro now me
  have hdst : (tell dst l.text).dst = dst := rfl
  split_ifs with h
  · rw [List.filter_cons_of_pos (by simpa [hdst] using h)]
    change (me.receive now server server (tell dst l.text).payload).1 = _
    rw [receive_line]
    rfl
  · rw [List.filter_cons_of_neg (by simpa [hdst] using h)]
    rfl

theorem utters_welcome (dst : SocketAddr) (cid : UInt64) (pid : UInt32) :
    Utters server a [welcome dst cid pid] [] := by
  intro now me
  by_cases h : (welcome dst cid pid).dst = a
  · rw [List.filter_cons_of_pos (by simpa using h)]
    change (me.receive now server server (welcome dst cid pid).payload).1 = _
    rw [receive_welcome]
    rfl
  · rw [List.filter_cons_of_neg (by simpa using h)]
    rfl

theorem utters_flatMap {α : Type} {xs : List α} {f : α → List Datagram}
    {g : α → List ControlLine} (h : ∀ x ∈ xs, Utters server a (f x) (g x)) :
    Utters server a (xs.flatMap f) (xs.flatMap g) := by
  induction xs with
  | nil => exact utters_nil
  | cons x xs ih =>
      rw [List.flatMap_cons, List.flatMap_cons]
      exact (h x List.mem_cons_self).append (ih fun y hy => h y (List.mem_cons_of_mem _ hy))

theorem flatMap_ite {α β : Type} (xs : List α) (p : α → Prop) [DecidablePred p] (f : α → β) :
    (xs.flatMap fun x => if p x then [f x] else []) = (xs.filter fun x => p x).map f := by
  induction xs with
  | nil => rfl
  | cons x xs ih =>
      rw [List.flatMap_cons, ih]
      by_cases hx : p x <;> simp [hx]

variable (server a) in
/-- Of one line for each, those that go to `a`. -/
theorem utters_map {α : Type} (xs : List α) (dst : α → SocketAddr) (f : α → ControlLine) :
    Utters server a (xs.map fun x => tell (dst x) (f x).text)
      ((xs.filter fun x => dst x = a).map f) := by
  rw [← flatMap_ite, List.map_eq_flatMap]
  exact utters_flatMap fun x _ => utters_tell server a (dst x) (f x)

theorem utters_all {α : Type} {xs : List α} (dst : α → SocketAddr) (h : ∀ x ∈ xs, dst x = a)
    (f : α → ControlLine) :
    Utters server a (xs.map fun x => tell (dst x) (f x).text) (xs.map f) := by
  have hmap := utters_map server a xs dst f
  rwa [List.filter_eq_self.mpr fun x hx => decide_eq_true (h x hx)] at hmap

theorem utters_none {α : Type} {xs : List α} (dst : α → SocketAddr) (h : ∀ x ∈ xs, dst x ≠ a)
    (f : α → ControlLine) : Utters server a (xs.map fun x => tell (dst x) (f x).text) [] := by
  have hmap := utters_map server a xs dst f
  rwa [List.filter_eq_nil_iff.mpr fun x hx => by simpa using h x hx] at hmap

/-- The one user at an address. -/
theorem filter_addr {users : List User} (ha : (users.map User.addr).Nodup) {x : User}
    (hx : x ∈ users) : users.filter (fun y => y.addr = x.addr) = [x] := by
  have hsame : ∀ y ∈ users, decide (y.addr = x.addr) = (y == x) := fun y hy => by
    rw [beq_eq_decide]
    exact decide_eq_decide.mpr ⟨fun h => List.inj_on_of_nodup_map ha hy hx h, congrArg User.addr⟩
  rw [List.filter_congr hsame, List.filter_beq,
    List.count_eq_one_of_mem (List.Nodup.of_map _ ha) hx]
  rfl

theorem filter_addr_nil {users all : List User} (ha : (all.map User.addr).Nodup)
    (hsub : users ⊆ all) {x : User} (hx : x ∈ all) (hnot : x ∉ users) :
    users.filter (fun y => y.addr = x.addr) = [] :=
  List.filter_eq_nil_iff.mpr fun y hy heq => by
    have hyx : y = x := List.inj_on_of_nodup_map ha (hsub hy) hx (of_decide_eq_true heq)
    exact hnot (hyx ▸ hy)

/-- Of one line for each of some users, the one for `x`. -/
theorem utters_each {users : List User} (ha : (users.map User.addr).Nodup) {x : User}
    (hx : x ∈ users) (f : User → ControlLine) :
    Utters server x.addr (users.map fun y => tell y.addr (f y).text) [f x] := by
  have hmap := utters_map server x.addr users User.addr f
  rwa [filter_addr ha hx] at hmap

end Utters

/-! ## An election -/

/-- What an election says to the member `x`. -/
def linesTo (ch : Channel) (x : User) : List ControlLine :=
  match pickEligibleRelay ch with
  | some r =>
      if x.name = r.name then
        directs (relayPeers r ch.users) ++ ((if ch.changes r then [.relay] else []) ++
          (symmetricPeers r ch.users).map fun y => .serverRelay y.name)
      else if x.needsServerRelay then [.serverRelay x.name]
      else [.direct r.name r.addr]
  | none => ch.users.map fun y => .serverRelay y.name

section Election
variable {server : SocketAddr} {ch : Channel} {r x : User}

theorem mem_relayPeers : x ∈ relayPeers r ch.users ↔
    x ∈ ch.users ∧ x.name ≠ r.name ∧ x.needsServerRelay = false := by
  simp [relayPeers]

theorem mem_symmetricPeers : x ∈ symmetricPeers r ch.users ↔
    x ∈ ch.users ∧ x.name ≠ r.name ∧ x.needsServerRelay = true := by
  simp [symmetricPeers]

/-- The others of the channel are elsewhere. -/
theorem symmetric_apart (ha : (ch.users.map User.addr).Nodup) (hr : r ∈ ch.users) :
    ∀ y ∈ symmetricPeers r ch.users, r.addr ≠ y.addr := fun y hy =>
  (apart_of_nodup ha hr y (mem_symmetricPeers.mp hy).1 (mem_symmetricPeers.mp hy).2.1).symm

/-- To the relay: its peers, `MODE RELAY` when that is news, and whom the server
relays for. -/
theorem utters_elected (ha : (ch.users.map User.addr).Nodup) (hr : r ∈ ch.users) :
    Utters server r.addr (ch.electionTold r)
      (directs (relayPeers r ch.users) ++ ((if ch.changes r then [.relay] else []) ++
        (symmetricPeers r ch.users).map fun y => .serverRelay y.name)) := by
  have hpeers : ∀ y ∈ relayPeers r ch.users, y.addr ≠ r.addr := fun y hy =>
    apart_of_nodup ha hr y (mem_relayPeers.mp hy).1 (mem_relayPeers.mp hy).2.1
  have hsym := symmetric_apart ha hr
  unfold Channel.electionTold
  refine Utters.append (utters_all (fun _ => r.addr) (fun _ _ => rfl)
    fun y : User => .direct y.name y.addr) ?_
  refine (utters_none User.addr hpeers fun _ => .direct r.name r.addr).append ?_
  refine Utters.append ?_ ?_
  · split_ifs
    · have hrelay := utters_tell server r.addr r.addr .relay
      rwa [if_pos rfl] at hrelay
    · exact utters_nil
  · rw [List.map_eq_flatMap]
    refine utters_flatMap fun y hy => ?_
    have hself := utters_tell server r.addr y.addr (.serverRelay y.name)
    have hmirror := utters_tell server r.addr r.addr (.serverRelay y.name)
    rw [if_neg (hsym y hy).symm] at hself
    rw [if_pos rfl] at hmirror
    rw [if_pos (hsym y hy)]
    exact hself.append hmirror

variable (server) in
/-- To anybody else: the relay, or that the server relays for it. -/
theorem utters_unelected {a : SocketAddr} (ha : (ch.users.map User.addr).Nodup)
    (hr : r ∈ ch.users) (hne : r.addr ≠ a) :
    Utters server a (ch.electionTold r)
      (((relayPeers r ch.users).filter fun y => y.addr = a).map (fun _ => .direct r.name r.addr) ++
        ((symmetricPeers r ch.users).filter fun y => y.addr = a).map fun y =>
          .serverRelay y.name) := by
  unfold Channel.electionTold
  refine (utters_none (fun _ => r.addr) (fun _ _ => hne)
    fun y : User => .direct y.name y.addr).append ?_
  refine (utters_map server a _ User.addr fun _ => .direct r.name r.addr).append ?_
  refine Utters.append (?_ : Utters server a _ []) ?_
  · split_ifs
    · have hrelay := utters_tell server a r.addr .relay
      rwa [if_neg hne] at hrelay
    · exact utters_nil
  · rw [← flatMap_ite]
    refine utters_flatMap fun y hy => ?_
    have hself := utters_tell server a y.addr (.serverRelay y.name)
    have hmirror := utters_tell server a r.addr (.serverRelay y.name)
    rw [if_neg hne] at hmirror
    rw [if_pos (symmetric_apart ha hr y hy), ← List.append_nil (ite _ _ _)]
    exact hself.append hmirror

theorem utters_announced {users : List User} (ha : (users.map User.addr).Nodup)
    (hx : x ∈ users) :
    Utters server x.addr (announced users) (users.map fun y => .serverRelay y.name) := by
  unfold announced
  rw [List.map_eq_flatMap]
  exact utters_flatMap fun y _ => utters_each ha hx fun _ => .serverRelay y.name

/-- **What an election says to a member.** -/
theorem utters_elect (ha : (ch.users.map User.addr).Nodup) (hn : ch.WellNamed) (hx : x ∈ ch.users) :
    Utters server x.addr ch.elect.2 (linesTo ch x) := by
  unfold Channel.elect linesTo
  cases hpick : pickEligibleRelay ch with
  | none => exact utters_announced ha hx
  | some r =>
      have hr : r ∈ ch.users := List.mem_of_find?_eq_some hpick
      have hsub : ∀ p : User → Bool, ((ch.users.filter p).map User.addr).Nodup := fun p =>
        ha.sublist (List.filter_sublist.map User.addr)
      dsimp only
      by_cases hxr : x.name = r.name
      · rw [if_pos hxr, hn.eq_of_name hx hr hxr]
        exact utters_elected ha hr
      · rw [if_neg hxr]
        have helse := utters_unelected server ha hr (apart_of_nodup ha hr x hx hxr).symm
        cases hneeds : x.needsServerRelay with
        | true =>
            have hnot : x ∉ relayPeers r ch.users := fun h => by
              rw [(mem_relayPeers.mp h).2.2] at hneeds
              exact Bool.false_ne_true hneeds
            have hself : x ∈ symmetricPeers r ch.users := mem_symmetricPeers.mpr ⟨hx, hxr, hneeds⟩
            have hone : (symmetricPeers r ch.users).filter (fun y => y.addr = x.addr) = [x] :=
              filter_addr (hsub _) hself
            have hnone : (relayPeers r ch.users).filter (fun y => y.addr = x.addr) = [] :=
              filter_addr_nil ha List.filter_sublist.subset hx hnot
            rwa [hone, hnone] at helse
        | false =>
            have hnot : x ∉ symmetricPeers r ch.users := fun h => by
              rw [(mem_symmetricPeers.mp h).2.2] at hneeds
              exact Bool.false_ne_true hneeds.symm
            have hself : x ∈ relayPeers r ch.users := mem_relayPeers.mpr ⟨hx, hxr, hneeds⟩
            have hone : (relayPeers r ch.users).filter (fun y => y.addr = x.addr) = [x] :=
              filter_addr (hsub _) hself
            have hnone : (symmetricPeers r ch.users).filter (fun y => y.addr = x.addr) = [] :=
              filter_addr_nil ha List.filter_sublist.subset hx hnot
            rwa [hone, hnone] at helse

/-- And to nobody else. -/
theorem utters_elect_none {a : SocketAddr} (h : ∀ x ∈ ch.users, x.addr ≠ a) :
    Utters server a ch.elect.2 [] := by
  intro now me
  have hnone : ch.elect.2.filter (fun d => d.dst = a) = [] := by
    refine List.filter_eq_nil_iff.mpr fun d hd => ?_
    obtain ⟨x, hx, hdst⟩ := (tells_elect ch d hd).1
    simpa [← hdst] using h x hx
  rw [hnone]
  rfl

end Election

end NatPiercer.System
