/-
# `Client.Following` — whether the table is what was announced

The server announces where a user is (`MODE DIRECT <name> <addr>`) and that the
user has gone (`USER_LEFT <name> …`).  The last word on a name is a map from
names to addresses (`announce`), and the peer table is meant to be that map:
everything else in the client finds a peer by its name or by its address.

`handle_user_left` removes by the name.  `handle_mode_direct` adds unless the
*address* is there, under whatever name, and does not look whether the name
is.  So a user who is announced again from elsewhere has two entries, and one
who is announced where another still is has none (`follows_always_iff`).
-/
import NatPiercer.Client.Heard
import NatPiercer.Lib.Table

namespace NatPiercer.Client

open Text Utf8 Net Proto Signaling

/-- What the server says of a user. -/
inductive Announcement
  | direct (username : Token) (addr : SocketAddr)
  | userLeft (username : Token)
deriving DecidableEq

/-- The announcement in a line, to the client `user`: not about itself, and with an
address that is one. -/
def Announcement.ofLine (user line : Str) : Option Announcement :=
  match Heard.ofWords (splitWhitespace line) with
  | .direct username addrStr =>
      if username.text = user then none
      else (SocketAddr.fromStr addrStr.text).map (.direct username)
  | .userLeft username => some (.userLeft username)
  | _ => none

/-- A line that is an announcement, and when it is processed. -/
structure Announced (user : Str) where
  now : Instant
  line : Str
  tells : Announcement
  reads : Announcement.ofLine user line = some tells

/-- Where everybody is, after one announcement more. -/
def announce (m : Token → Option SocketAddr) : Announcement → Token → Option SocketAddr
  | .direct username addr => Function.update m username (some addr)
  | .userLeft username => Function.update m username none

/-- Whom it is about. -/
def Announcement.about : Announcement → Token
  | direct username _ | userLeft username => username

/-- The last word on a user is a `MODE DIRECT` that no announcement about the user
comes after. -/
theorem announced_eq_some_iff (as : List Announcement) (u : Token) (a : SocketAddr) :
    as.foldl announce (fun _ => none) u = some a ↔
      ∃ bs cs, as = bs ++ .direct u a :: cs ∧ ∀ c ∈ cs, c.about ≠ u := by
  induction as using List.reverseRecOn with
  | nil =>
      refine iff_of_false (Option.some_ne_none a).symm ?_
      rintro ⟨bs, cs, h, -⟩
      exact absurd h.symm (List.append_ne_nil_of_right_ne_nil bs (List.cons_ne_nil _ cs))
  | append_singleton as b ih =>
      rw [List.foldl_append, List.foldl_cons, List.foldl_nil]
      have hother : ∀ m : Token → Option SocketAddr, b.about ≠ u → announce m b u = m u := by
        intro m hb
        cases b <;> exact Function.update_of_ne (Ne.symm hb) _ m
      by_cases hb : b.about = u
      · -- the last one decides
        have hlast : announce (as.foldl announce fun _ => none) b u = some a ↔ b = .direct u a := by
          subst hb
          cases b with
          | direct v a' =>
              rw [announce, Announcement.about, Function.update_self, Option.some.injEq,
                Announcement.direct.injEq]
              exact (and_iff_right rfl).symm
          | userLeft v =>
              rw [announce, Announcement.about, Function.update_self]
              exact iff_of_false (Option.some_ne_none a).symm (fun h => nomatch h)
        rw [hlast]
        constructor
        · rintro rfl
          exact ⟨as, [], rfl, fun c hc => absurd hc List.not_mem_nil⟩
        · rintro ⟨bs, cs, h, hcs⟩
          rcases List.eq_nil_or_concat' cs with rfl | ⟨cs, c, rfl⟩
          · exact (List.append_inj' h rfl).2 |> List.cons.inj |>.1
          · rw [← List.cons_append, ← List.append_assoc] at h
            obtain rfl := (List.cons.inj (List.append_inj' h rfl).2).1
            exact absurd hb (hcs b (List.mem_append_right _ (List.mem_singleton_self b)))
      · rw [hother _ hb, ih]
        constructor
        · rintro ⟨bs, cs, rfl, hcs⟩
          refine ⟨bs, cs ++ [b], by rw [List.append_assoc, List.cons_append], fun c hc => ?_⟩
          rcases List.mem_append.mp hc with hc | hc
          · exact hcs c hc
          · rw [List.mem_singleton.mp hc]
            exact hb
        · rintro ⟨bs, cs, h, hcs⟩
          rcases List.eq_nil_or_concat' cs with rfl | ⟨cs, c, rfl⟩
          · obtain rfl := (List.cons.inj (List.append_inj' h rfl).2).1
            exact absurd rfl hb
          · rw [← List.cons_append, ← List.append_assoc] at h
            exact ⟨bs, cs, (List.append_inj' h rfl).1,
              fun c hc => hcs c (List.mem_append_left _ hc)⟩

/-! ## The table beside it -/

/-- A client, and where everybody was announced to be. -/
abbrev Informed := Client × (Token → Option SocketAddr)

def follow {user : Str} (st : Informed) (l : Announced user) : Informed :=
  (st.1.handleModeLine l.now l.line, announce st.2 l.tells)

/-- Every user has exactly the entry that the announcements say. -/
def Follows (st : Informed) : Prop := StandsFor PeerInfo.username PeerInfo.addr st.1.peers st.2

/-- A user is announced where the user is already, or neither the user nor anybody
there is. -/
def Announcement.Fits (m : Token → Option SocketAddr) : Announcement → Prop
  | direct u a => m u = some a ∨ m u = none ∧ ∀ v, m v ≠ some a
  | userLeft _ => True

/-- What becomes of the table. -/
theorem peers_of_announced {user : Str} {me : Client} (huser : me.user = user)
    (l : Announced user) :
    (me.handleModeLine l.now l.line).peers =
      match l.tells with
      | .direct u a =>
          if me.peers.any fun p => p.addr = a then me.peers
          else me.peers ++ [newPeer l.now u a]
      | .userLeft u => me.peers.filter fun p => p.username ≠ u := by
  obtain ⟨now, line, tells, hreads⟩ := l
  have hline := congrArg (fun x : Client × List Datagram => x.1.peers)
    (handleModeLine_eq now (.v4 ⟨0, 0, 0, 0⟩ 0) (.v4 ⟨0, 0, 0, 0⟩ 0) line me)
  dsimp only at hline ⊢
  rw [hline]
  unfold Announcement.ofLine at hreads
  cases hheard : Heard.ofWords (splitWhitespace line) with
  | direct u a =>
      rw [hheard] at hreads
      dsimp only at hreads
      by_cases hself : u.text = user
      · rw [if_pos hself] at hreads
        exact absurd hreads (Option.some_ne_none tells).symm
      · rw [if_neg hself] at hreads
        obtain ⟨addr, haddr, rfl⟩ := Option.map_eq_some_iff.mp hreads
        change (me.handleModeDirect now u a).peers = _
        unfold handleModeDirect
        rw [haddr, huser]
        dsimp only
        rw [if_neg hself]
        split_ifs <;> rfl
  | userLeft u =>
      rw [hheard] at hreads
      obtain rfl := Option.some.inj hreads
      rfl
  | ping | pong | holePunch | data _ | relay | serverRelay _ | nothing =>
      rw [hheard] at hreads
      exact absurd hreads (Option.some_ne_none tells).symm

theorem handleModeLine_user (now : Instant) (line : Str) (me : Client) :
    (me.handleModeLine now line).user = me.user := by
  have hline := congrArg (fun x : Client × List Datagram => x.1.user)
    (handleModeLine_eq now (.v4 ⟨0, 0, 0, 0⟩ 0) (.v4 ⟨0, 0, 0, 0⟩ 0) line me)
  exact hline.trans (handle_user now _ _ line me _)

/-- A table that follows goes on following exactly if the announcement fits. -/
theorem follows_step_iff {user : Str} {st : Informed} (huser : st.1.user = user)
    (h : Follows st) (l : Announced user) :
    Follows (follow st l) ↔ l.tells.Fits st.2 := by
  obtain ⟨me, m⟩ := st
  have hpeers := peers_of_announced huser l
  unfold Follows follow
  dsimp only
  rw [hpeers]
  cases l.tells with
  | userLeft u => exact iff_of_true (h.erase u) trivial
  | direct u a =>
      unfold announce Announcement.Fits
      dsimp only
      split_ifs with hany
      · -- somebody is at the address, and if it is another the entry is missing
        obtain ⟨p, hp, hpa⟩ := List.any_eq_true.mp hany
        have hthere : m p.username = some a := by
          rw [← of_decide_eq_true hpa]
          exact h.eq_some hp
        rw [h.update_iff u a]
        exact (or_iff_left fun hfree => hfree.2 p.username hthere).symm
      · -- nobody is there, and an entry that the user has elsewhere stays
        have hfree : ∀ v, m v ≠ some a := by
          intro v hv
          obtain ⟨p, hp, -, hpa⟩ := h.exists_mem hv
          exact hany (List.any_eq_true.mpr ⟨p, hp, decide_eq_true hpa⟩)
        have happend := h.append_iff (newPeer l.now u a)
        refine happend.trans ?_
        rw [or_iff_right (hfree u)]
        exact (and_iff_left hfree).symm

/-- **When the table is what was announced.**  After every announcement, from an
empty table on, exactly when each user is announced where the user is already,
or is not known and at an address where nobody is known to be. -/
theorem follows_always_iff (me : Client) (ls : List (Announced me.user)) :
    Always follow Follows ({ me with peers := [] }, fun _ => none) ls ↔
      EachStep follow (fun st l => l.tells.Fits st.2) ({ me with peers := [] }, fun _ => none) ls :=
  always_iff_eachStep (J := fun st => st.1.user = me.user)
    (fun st l huser => (handleModeLine_user l.now l.line st.1).trans huser)
    (fun _ l huser h => follows_step_iff huser h l) ls rfl standsFor_nil

/-- Bob is announced at one port and then at another. -/
theorem not_follows_reconnect :
    ∃ ls : List (Announced (Client.fresh "ann".toList).user),
      ls.map Announced.line = ["MODE DIRECT bob 10.0.0.2:4000".toList,
        "MODE DIRECT bob 10.0.0.2:4001".toList] ∧
      ¬ Follows (after follow (.fresh "ann".toList, fun _ => none) ls) := by
  refine ⟨[⟨0, _, .direct ⟨"bob".toList, by decide⟩ (.v4 ⟨10, 0, 0, 2⟩ 4000), by decide +kernel⟩,
    ⟨0, _, .direct ⟨"bob".toList, by decide⟩ (.v4 ⟨10, 0, 0, 2⟩ 4001), by decide +kernel⟩],
    rfl, fun h => ?_⟩
  -- the one entry there should be, and the two there are
  exact absurd (congrArg List.length (h ⟨"bob".toList, by decide⟩)) (by decide +kernel)

end NatPiercer.Client
