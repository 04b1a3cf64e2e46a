/-
# `Signaling.Echoes` — is a line of `DATA` sent back to where it came from?

The server excludes the sender in three ways: by the name in the line, where
it comes from the relay; by the address, where it comes from somebody who
needs the server; and by the address of the relay otherwise.  A relay mirrors
lines that name others, so the name says nothing about where they came from.
What keeps a mirrored line from coming back is that the relay does not need
the server, and that is not an invariant (see `Eligibility`).

A relay that gets its own line back mirrors it again.
-/
import NatPiercer.Signaling.DataRouting
import NatPiercer.Signaling.ChannelCases

namespace NatPiercer.Signaling

open Text Utf8 Net Proto LockProg

/-- The users of the channel at an address have one name. -/
def Channel.OneNameEach (ch : Channel) : Prop :=
  ∀ u ∈ ch.users, ∀ v ∈ ch.users, u.addr = v.addr → u.name = v.name

/-- And so have those of all channels. -/
def ServerMap.OneNameEach (st : ServerMap) : Prop :=
  ∀ x ∈ st.channels, ∀ y ∈ st.channels, ∀ u ∈ x.2.2.users, ∀ v ∈ y.2.2.users,
    u.addr = v.addr → u.name = v.name

instance (st : ServerMap) : Decidable st.OneNameEach :=
  inferInstanceAs (Decidable (∀ x ∈ st.channels, _))

/-- The relay is elsewhere, or does not need the server, or is named in the line. -/
def Channel.EchoFree (senderName : Str) (src : SocketAddr) (ch : Channel) : Prop :=
  ∀ r, ch.relayUser = some r → r.addr = src → r.needsServerRelay = true →
    r.name.text = senderName

section Channels
variable {ch : Channel} {senderName : Str} {src : SocketAddr} {r : User}

theorem relayUser_mem (h : ch.relayUser = some r) : r ∈ ch.users := by
  obtain ⟨n, -, hfind⟩ := Option.bind_eq_some_iff.mp h
  exact List.mem_of_find?_eq_some hfind

theorem mem_needing {u : User} : u ∈ ch.needing senderName ↔
    u ∈ ch.users ∧ u.name.text ≠ senderName ∧ u.needsServerRelay = true := by
  simp [Channel.needing]

/-- Nobody who gets the line as one that needs the server is at `src`, if the line
names whoever is. -/
theorem addr_ne_of_needing (hone : ch.OneNameEach) {u v : User} (hv : v ∈ ch.users)
    (haddr : v.addr = src) (hname : v.name.text = senderName) (hu : u ∈ ch.needing senderName) :
    u.addr ≠ src := by
  obtain ⟨hmem, hne, -⟩ := mem_needing.mp hu
  intro hsrc
  exact hne ((congrArg Token.text (hone u hmem v hv (hsrc.trans haddr.symm))).trans hname)

/-- From the relay, the line goes back if the relay needs the server and the line
names somebody else. -/
theorem needing_elsewhere_iff (hn : ch.WellNamed) (hone : ch.OneNameEach)
    (hr : ch.relayUser = some r) (haddr : r.addr = src) :
    (∀ u ∈ ch.needing senderName, u.addr ≠ src) ↔ ch.EchoFree senderName src := by
  have hmem := relayUser_mem hr
  constructor
  · intro h r' hr' _ hneeds
    obtain rfl : r = r' := Option.some.inj (hr.symm.trans hr')
    by_contra hname
    exact h r (mem_needing.mpr ⟨hmem, hname, hneeds⟩) haddr
  · intro h u hu hsrc
    obtain ⟨humem, hname, hneeds⟩ := mem_needing.mp hu
    -- whoever is at the address is the relay
    obtain rfl : u = r := hn.eq_of_name humem hmem (hone u humem r hmem (hsrc.trans haddr.symm))
    exact hname (h u hr haddr hneeds)

/-- Where one channel sends the line. -/
theorem receivers_elsewhere_iff (hn : ch.WellNamed) (hone : ch.OneNameEach) :
    (∀ u ∈ ch.receivers senderName src, u.addr ≠ src) ↔ ch.EchoFree senderName src := by
  unfold Channel.receivers
  by_cases hrelay : ch.relayUser.any (fun r => r.addr = src) = true
  · rw [if_pos hrelay]
    obtain ⟨r, hr, haddr⟩ := relayUser_any.mp hrelay
    exact needing_elsewhere_iff hn hone hr haddr
  · rw [if_neg hrelay]
    refine iff_of_true ?_ fun r hr haddr => absurd (relayUser_any.mpr ⟨r, hr, haddr⟩) hrelay
    cases hfind : ch.users.find? fun u => u.addr = src ∧ u.name.text = senderName with
    | none => exact fun u hu => absurd hu List.not_mem_nil
    | some sender =>
        have hsender := List.find?_some hfind
        obtain ⟨haddr, hname⟩ := decide_eq_true_iff.mp hsender
        dsimp only
        split_ifs
        · exact fun u hu =>
            addr_ne_of_needing hone (List.mem_of_find?_eq_some hfind) haddr hname hu
        · exact fun u hu => of_decide_eq_true (List.mem_filter.mp hu).2
        · intro u hu
          exact of_decide_eq_true (Option.filter_eq_some_iff.mp (Option.mem_toList.mp hu)).2

end Channels

/-! ## The channel that the line is about -/

/-- The channel is the first, in the order of iteration, that has anything to do
with the line. -/
def ServerMap.FirstToAnswer (st : ServerMap) (senderName : Str) (src : SocketAddr)
    (ch : Channel) : Prop :=
  ∃ before s c rest, st.channels = before ++ (s, c, ch) :: rest ∧ ch.Answers senderName src ∧
    ∀ x ∈ before, ¬ x.2.2.Answers senderName src

section Search
variable {st : ServerMap} {raw senderName : Str} {src : SocketAddr} {ch : Channel}

/-- What the first channel sends is all that is sent. -/
theorem dataSent_of_first (hsender : dataSender raw = some senderName)
    (h : st.FirstToAnswer senderName src ch) :
    dataSent raw src st =
      ((ch.receivers senderName src).map User.addr).map fun dst => ⟨dst, asBytes raw⟩ := by
  obtain ⟨before, s, c, rest, hchannels, hanswers, hbefore⟩ := h
  have hfound : st.channels.findSome? (fun x => x.2.2.forwardData senderName src) =
      some ((ch.receivers senderName src).map User.addr) :=
    List.findSome?_eq_some_iff.mpr ⟨before, (s, c, ch), rest, hchannels,
      forwardData_of_answers hanswers, fun x hx => forwardData_of_not_answers (hbefore x hx)⟩
  rw [dataSent_eq, hsender, Option.bind_some, hfound, Option.getD_some]

/-- There is a first, or nothing is sent. -/
theorem first_or_nothing (hsender : dataSender raw = some senderName) (src : SocketAddr)
    (st : ServerMap) :
    (∃ ch, st.FirstToAnswer senderName src ch) ∨ dataSent raw src st = [] := by
  cases hfound : st.channels.findSome? fun x => x.2.2.forwardData senderName src with
  | none =>
      refine Or.inr ?_
      rw [dataSent_eq, hsender, Option.bind_some, hfound]
      rfl
  | some dsts =>
      obtain ⟨before, ⟨s, c, ch⟩, rest, hchannels, hforward, hbefore⟩ :=
        List.findSome?_eq_some_iff.mp hfound
      refine Or.inl ⟨ch, before, s, c, rest, hchannels, ?_, fun x hx hanswers => ?_⟩
      · by_contra hnot
        rw [forwardData_of_not_answers hnot] at hforward
        exact Option.some_ne_none _ hforward.symm
      · have hnone := hbefore x hx
        rw [forwardData_of_answers hanswers] at hnone
        exact Option.some_ne_none _ hnone

theorem ServerMap.FirstToAnswer.mem (h : st.FirstToAnswer senderName src ch) :
    ∃ s c, (s, c, ch) ∈ st.channels := by
  obtain ⟨before, s, c, rest, hchannels, -, -⟩ := h
  exact ⟨s, c, hchannels ▸ List.mem_append_right _ List.mem_cons_self⟩

end Search

/-- **When a line of `DATA` is not echoed.**  In every reachable state in which no
address has two names, nothing is sent to where the line came from exactly if the
first channel that it is about has no relay there that needs the server and is
not named in the line. -/
theorem data_not_echoed_iff (ls : List ServerStep) (raw : Str) (src : SocketAddr)
    (hone : (after ServerMap.step ∅ ls).OneNameEach) :
    (∀ d ∈ dataSent raw src (after ServerMap.step ∅ ls), d.dst ≠ src) ↔
      ∀ senderName, dataSender raw = some senderName →
        ∀ ch, (after ServerMap.step ∅ ls).FirstToAnswer senderName src ch →
          ch.EchoFree senderName src := by
  set st := after ServerMap.step ∅ ls with hst
  have hwell : Everywhere Channel.WellNamed st := after_of_always _ _
    (always_of_step (fun _ l h => wellNamed_step l h) ls (everywhere_empty _))
  have hchannel : ∀ {senderName ch}, st.FirstToAnswer senderName src ch →
      ((∀ u ∈ ch.receivers senderName src, u.addr ≠ src) ↔ ch.EchoFree senderName src) := by
    intro senderName ch hfirst
    obtain ⟨s, c, hmem⟩ := hfirst.mem
    exact receivers_elsewhere_iff (hwell s c ch (ServerMap.mem_channels_iff.mp hmem))
      fun u hu v hv => hone _ hmem _ hmem u hu v hv
  constructor
  · intro h senderName hsender ch hfirst
    refine (hchannel hfirst).mp fun u hu => ?_
    refine h ⟨u.addr, asBytes raw⟩ ?_
    rw [dataSent_of_first hsender hfirst]
    exact List.mem_map_of_mem (List.mem_map_of_mem hu)
  · intro h d hd
    cases hsender : dataSender raw with
    | none =>
        rw [dataSent_eq, hsender] at hd
        exact absurd hd List.not_mem_nil
    | some senderName =>
        rcases first_or_nothing hsender src st with ⟨ch, hfirst⟩ | hnothing
        · rw [dataSent_of_first hsender hfirst, List.map_map] at hd
          obtain ⟨u, hu, rfl⟩ := List.mem_map.mp hd
          exact (hchannel hfirst).mpr (h senderName hsender ch hfirst) u hu
        · rw [hnothing] at hd
          exact absurd hd List.not_mem_nil

/-- Ann relays for Sam: what she says goes to Sam. -/
theorem data_not_echoed_ann :
    let ann : SocketAddr := .v4 ⟨10, 0, 0, 1⟩ 4000
    let st := after ServerMap.step ∅
      [.message ⟨0, 7⟩ "CONNECT s c ann CONE".toList ann,
        .message ⟨1, 8⟩ "CONNECT s c sam SYMMETRIC".toList (.v4 ⟨10, 0, 0, 2⟩ 4000)]
    ∀ d ∈ dataSent "DATA ann hi".toList ann st, d.dst ≠ ann := by
  intro ann st
  refine (data_not_echoed_iff _ "DATA ann hi".toList ann (by decide +kernel)).mpr ?_
  intro senderName _ ch hfirst r hr _ hneeds
  obtain ⟨s, c, hmem⟩ := hfirst.mem
  -- the one relay there is does not need the server
  have hrelays : ∀ x ∈ st.channels, ∀ r ∈ x.2.2.relayUser, r.needsServerRelay = false := by
    decide +kernel
  rw [hrelays _ hmem r hr] at hneeds
  exact absurd hneeds Bool.false_ne_true

/-- Somebody has asked the server to relay for Ann, who is the relay: what Bob says,
and Ann mirrors, comes back to Ann. -/
theorem data_echoed_to_ann :
    ¬ ∀ (ls : List ServerStep) (raw : Str) (src : SocketAddr),
      (after ServerMap.step ∅ ls).OneNameEach →
      ∀ d ∈ dataSent raw src (after ServerMap.step ∅ ls), d.dst ≠ src := by
  intro h
  let ann : SocketAddr := .v4 ⟨10, 0, 0, 1⟩ 4000
  have hnot := h
    [.message ⟨0, 7⟩ "CONNECT s c ann CONE".toList ann,
      .message ⟨1, 8⟩ "CONNECT s c bob CONE".toList (.v4 ⟨10, 0, 0, 2⟩ 4000),
      .message ⟨2, 9⟩ "REQUEST_RELAY s c ann".toList (.v4 ⟨10, 0, 0, 2⟩ 4000)]
    "DATA bob hi".toList ann (by decide +kernel)
  revert hnot
  decide +kernel

end NatPiercer.Signaling
