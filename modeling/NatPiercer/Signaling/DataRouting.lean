/-
# `Signaling.DataRouting` — which channel a line of `DATA` is about

The text of a `DATA` names its sender, and no server and no channel.  So
`handle_data_from_client` goes through all channels and stops at the first
that has anything to do with it: its relay is at the source address, or the
sender is a member at that address.  Whatever it sends, it sends to members
of that one (`data_one_channel`).

Which one is the first is up to the two hash maps.  A session is kept out of
the other channels of its server, but not of other servers, and the relay of
one channel may be a plain member of another: then the layout decides who
gets the line, unless the channels would all pass it on alike
(`data_orderFree_iff`).
-/
import NatPiercer.Signaling.Step

namespace NatPiercer.Signaling

open Text Utf8 Net Proto LockProg

/-- The second of the three parts of a `DATA`. -/
def dataSender (raw : Str) : Option Str :=
  match splitn 3 ' ' raw with
  | [_, senderName, _] => some senderName
  | _ => none

section Channels
variable (senderName : Str) (src : SocketAddr) (channel : Channel)

/-- The member on record. -/
def Channel.relayUser : Option User :=
  channel.relay.bind fun relayName => channel.users.find? fun u => u.name = relayName

/-- The relay is at the address, or the sender is a member there. -/
def Channel.Answers : Prop :=
  (∃ r, channel.relayUser = some r ∧ r.addr = src) ∨
    ∃ u ∈ channel.users, u.addr = src ∧ u.name.text = senderName

/-- The members that need the server, but for the sender. -/
def Channel.needing : List User :=
  channel.users.filter fun peer => !decide (peer.name.text = senderName) && peer.needsServerRelay

/-- Who gets the line, if the channel answers: those that need the server, if it
comes from the relay; all others, if it comes from one of those; and the relay
otherwise. -/
def Channel.receivers : List User :=
  if channel.relayUser.any fun r => r.addr = src then channel.needing senderName
  else
    match channel.users.find? fun u => u.addr = src ∧ u.name.text = senderName with
    | none => []
    | some sender =>
        if channel.relay = some sender.name then channel.needing senderName
        else if sender.needsServerRelay then channel.users.filter fun peer => peer.addr ≠ src
        else (channel.relayUser.filter fun r => r.addr ≠ src).toList

variable {senderName src channel}

theorem relayUser_any : channel.relayUser.any (fun r => r.addr = src) = true ↔
    ∃ r, channel.relayUser = some r ∧ r.addr = src := by
  rw [Option.any_eq_true]
  simp only [decide_eq_true_eq]

theorem forwardData_of_answers (h : channel.Answers senderName src) :
    channel.forwardData senderName src =
      some ((channel.receivers senderName src).map User.addr) := by
  unfold Channel.forwardData Channel.receivers
  change (if channel.relayUser.any (fun r => r.addr = src) then _ else _) = _
  by_cases hrelay : channel.relayUser.any (fun r => r.addr = src) = true
  · rw [if_pos hrelay, if_pos hrelay]
    rfl
  · rw [if_neg hrelay, if_neg hrelay]
    cases hfind : channel.users.find? fun u => u.addr = src ∧ u.name.text = senderName with
    | none =>
        rcases h with h | ⟨u, hu, hsession⟩
        · exact absurd (relayUser_any.mpr h) hrelay
        · exact absurd (decide_eq_true hsession) (List.find?_eq_none.mp hfind u hu)
    | some sender =>
        dsimp only
        split_ifs
        · rfl
        · rfl
        · rw [← Option.toList_map]
          rfl

theorem forwardData_of_not_answers (h : ¬ channel.Answers senderName src) :
    channel.forwardData senderName src = none := by
  unfold Channel.forwardData
  change (if channel.relayUser.any (fun r => r.addr = src) then _ else _) = _
  rw [if_neg fun hrelay => h (Or.inl (relayUser_any.mp hrelay))]
  have hfind : channel.users.find? (fun u => u.addr = src ∧ u.name.text = senderName) = none :=
    List.find?_eq_none.mpr fun u hu hsession => h (Or.inr ⟨u, hu, of_decide_eq_true hsession⟩)
  rw [hfind]

/-- A member is at the source address of what the channel answers. -/
theorem Channel.Answers.member (h : channel.Answers senderName src) :
    ∃ u ∈ channel.users, u.addr = src := by
  rcases h with ⟨r, hr, haddr⟩ | ⟨u, hu, haddr, -⟩
  · obtain ⟨n, -, hfind⟩ := Option.bind_eq_some_iff.mp hr
    exact ⟨r, List.mem_of_find?_eq_some hfind, haddr⟩
  · exact ⟨u, hu, haddr⟩

/-- Nobody gets it twice for one entry. -/
theorem receivers_sublist : (channel.receivers senderName src).Sublist channel.users := by
  have hrelay : ((channel.relayUser.filter fun r => r.addr ≠ src).toList).Sublist
      channel.users := by
    cases hr : channel.relayUser.filter fun r => r.addr ≠ src with
    | none => exact List.nil_sublist _
    | some r =>
        obtain ⟨hr, -⟩ := Option.filter_eq_some_iff.mp hr
        obtain ⟨n, -, hfind⟩ := Option.bind_eq_some_iff.mp hr
        exact List.singleton_sublist.mpr (List.mem_of_find?_eq_some hfind)
  unfold Channel.receivers
  split_ifs
  · exact List.filter_sublist
  · split
    · exact List.nil_sublist _
    · split_ifs
      · exact List.filter_sublist
      · exact List.filter_sublist
      · exact hrelay

end Channels

/-! ## The search -/

section Search
variable {raw senderName : Str} {src : SocketAddr} {st st' : ServerMap}

/-- Where the line goes. -/
def dataSent (raw : Str) (src : SocketAddr) (st : ServerMap) : List Datagram :=
  ((handleDataFromClient raw src).run st).sent

theorem dataSent_eq (raw : Str) (src : SocketAddr) (st : ServerMap) :
    dataSent raw src st = (((dataSender raw).bind fun senderName =>
      st.channels.findSome? fun x => x.2.2.forwardData senderName src).getD []).map
        fun dst => ⟨dst, asBytes raw⟩ := by
  unfold dataSent handleDataFromClient dataSender
  generalize splitn 3 ' ' raw = parts
  rcases parts with _ | ⟨word, _ | ⟨senderName, _ | ⟨text, _ | ⟨part, parts⟩⟩⟩⟩
  · rfl
  · rfl
  · rfl
  · dsimp only
    rw [Option.bind_some]
    simp only [run_locked, run_bind, run_getState]
    cases st.channels.findSome? fun x => x.2.2.forwardData senderName src with
    | none => rfl
    | some dsts =>
        rw [run_each fun dst _ => run_sendTo (asBytes raw) dst st, ← List.map_eq_flatMap]
        rfl
  · rfl

theorem payload_of_mem_dataSent {d : Datagram} (h : d ∈ dataSent raw src st) :
    d.payload = asBytes raw := by
  rw [dataSent_eq] at h
  obtain ⟨dst, -, rfl⟩ := List.mem_map.mp h
  rfl

/-- All that a step sends: on behalf of a channel, in answer to a probe, or to pass
a line of `DATA` on. -/
theorem mem_sent_iff {l : ServerStep} {d : Datagram} :
    d ∈ st.sent l ↔ (∃ s c, d ∈ l.told s c (st.channel? s c)) ∨
      ∃ amb text src, l = .message amb text src ∧
        (Request.ofText text = .natProbe ∧ d = tell src (line [msgNatSeen, src.token]) ∨
          Request.ofText text = .data ∧ d ∈ dataSent text src st) := by
  have hhandled : ∀ amb text src, st.sent (.message amb text src) =
      (((Request.ofText text).handle amb text src).run st).sent := fun amb text src => by
    rw [← handleMessage_eq]
    rfl
  constructor
  · intro h
    by_cases hl : ∀ amb text src, l = .message amb text src →
        Request.ofText text ≠ .natProbe ∧ Request.ofText text ≠ .data
    · exact Or.inl (told_of_mem_sent hl h)
    · push Not at hl
      obtain ⟨amb, text, src, rfl, hreq⟩ := hl
      refine Or.inr ⟨amb, text, src, rfl, ?_⟩
      rw [hhandled] at h
      by_cases hprobe : Request.ofText text = .natProbe
      · rw [hprobe] at h
        exact Or.inl ⟨hprobe, List.mem_singleton.mp h⟩
      · have hdata := hreq hprobe
        rw [hdata] at h
        exact Or.inr ⟨hdata, h⟩
  · rintro (⟨s, c, h⟩ | ⟨amb, text, src, rfl, ⟨hreq, rfl⟩ | ⟨hreq, h⟩⟩)
    · exact mem_sent_of_told h
    · rw [hhandled, hreq]
      exact List.mem_singleton_self _
    · rw [hhandled, hreq]
      exact h

/-- What the search comes to: the first channel that answers, or none. -/
theorem findSome?_forwardData (senderName : Str) (src : SocketAddr) (st : ServerMap) :
    (∃ s c ch, st.channel? s c = some ch ∧ ch.Answers senderName src ∧
      st.channels.findSome? (fun x => x.2.2.forwardData senderName src) =
        some ((ch.receivers senderName src).map User.addr)) ∨
    (∀ s c ch, st.channel? s c = some ch → ¬ ch.Answers senderName src) ∧
      st.channels.findSome? (fun x => x.2.2.forwardData senderName src) = none := by
  cases hfound : st.channels.findSome? fun x => x.2.2.forwardData senderName src with
  | none =>
      refine Or.inr ⟨fun s c ch hch hanswers => ?_, rfl⟩
      have hnone := List.findSome?_eq_none_iff.mp hfound (s, c, ch)
        (ServerMap.mem_channels_iff.mpr hch)
      rw [forwardData_of_answers hanswers] at hnone
      exact absurd hnone (Option.some_ne_none _)
  | some dsts =>
      obtain ⟨⟨s, c, ch⟩, hmem, hdsts⟩ := List.exists_of_findSome?_eq_some hfound
      have hanswers : ch.Answers senderName src := by
        by_contra hnot
        rw [forwardData_of_not_answers hnot] at hdsts
        exact absurd hdsts (Option.some_ne_none _).symm
      rw [forwardData_of_answers hanswers] at hdsts
      exact Or.inl ⟨s, c, ch, ServerMap.mem_channels_iff.mp hmem, hanswers, hdsts.symm⟩

/-- **One channel.**  A line of `DATA` changes no channel.  It goes, as it came, to
members of one channel that has a member at the address that it came from, once
for each entry; and from an address that no member has, it goes nowhere. -/
theorem data_one_channel (raw : Str) (src : SocketAddr) (st : ServerMap) :
    ((handleDataFromClient raw src).run st).state = st ∧
    (dataSent raw src st = [] ∨ ∃ s c ch, ∃ users : List User, st.channel? s c = some ch ∧
      (∃ u ∈ ch.users, u.addr = src) ∧ users.Sublist ch.users ∧
      dataSent raw src st = users.map fun u => ⟨u.addr, asBytes raw⟩) ∧
    ((∀ s c ch, st.channel? s c = some ch → ∀ u ∈ ch.users, u.addr ≠ src) →
      dataSent raw src st = []) := by
  have hone : dataSent raw src st = [] ∨ ∃ s c ch, ∃ users : List User, st.channel? s c = some ch ∧
      (∃ u ∈ ch.users, u.addr = src) ∧ users.Sublist ch.users ∧
      dataSent raw src st = users.map fun u => ⟨u.addr, asBytes raw⟩ := by
    rw [dataSent_eq]
    cases dataSender raw with
    | none => exact Or.inl rfl
    | some senderName =>
        rw [Option.bind_some]
        rcases findSome?_forwardData senderName src st with
          ⟨s, c, ch, hch, hanswers, hfound⟩ | ⟨-, hfound⟩
        · rw [hfound, Option.getD_some, List.map_map]
          exact Or.inr ⟨s, c, ch, _, hch, hanswers.member, receivers_sublist, rfl⟩
        · rw [hfound]
          exact Or.inl rfl
  refine ⟨handleDataFromClient_state raw src st, hone, fun hnobody => ?_⟩
  rcases hone with hnone | ⟨s, c, ch, -, hch, ⟨u, hu, haddr⟩, -⟩
  · exact hnone
  · exact absurd haddr (hnobody s c ch hch u hu)

end Search

/-! ## The order of the search -/

/-- The two maps hold the same channels, in whatever layout. -/
def SameChannels (st st' : ServerMap) : Prop := ∀ s c, st'.channel? s c = st.channel? s c

/-- Where the line goes does not depend on the layout. -/
def OrderFree (raw : Str) (src : SocketAddr) (st : ServerMap) : Prop :=
  ∀ st', SameChannels st st' → (dataSent raw src st').Perm (dataSent raw src st)

/-- All channels that answer would send the line to the same addresses. -/
def AnswerAlike (senderName : Str) (src : SocketAddr) (st : ServerMap) : Prop :=
  ∀ s c ch s' c' ch', st.channel? s c = some ch → st.channel? s' c' = some ch' →
    ch.Answers senderName src → ch'.Answers senderName src →
    ((ch.receivers senderName src).map User.addr).Perm
      ((ch'.receivers senderName src).map User.addr)

section Order
variable {raw senderName : Str} {src : SocketAddr} {st : ServerMap} {s c : Token} {ch : Channel}

/-- In one layout, a given channel is the first. -/
theorem channels_relayout (h : st.channel? s c = some ch) :
    ∃ rest, (st.relayout s c).channels = (s, c, ch) :: rest := by
  obtain ⟨chans, hs, hc⟩ := Option.bind_eq_some_iff.mp h
  obtain ⟨servers, hservers⟩ := HashMap.entries_toFront hs
  obtain ⟨servers', hservers'⟩ := HashMap.entries_modify (HashMap.toFront c) hservers
  obtain ⟨others, hothers⟩ := HashMap.entries_toFront hc
  unfold ServerMap.channels ServerMap.relayout
  rw [hservers', List.flatMap_cons, hothers]
  exact ⟨_, rfl⟩

theorem dataSent_relayout (hsender : dataSender raw = some senderName)
    (h : st.channel? s c = some ch) (hanswers : ch.Answers senderName src) :
    dataSent raw src (st.relayout s c) =
      ((ch.receivers senderName src).map User.addr).map fun dst => ⟨dst, asBytes raw⟩ := by
  obtain ⟨rest, hrest⟩ := channels_relayout h
  rw [dataSent_eq, hsender, Option.bind_some, hrest, List.findSome?_cons,
    forwardData_of_answers hanswers]
  rfl

theorem dataSent_of_answers (hsender : dataSender raw = some senderName)
    (halike : AnswerAlike senderName src st) {st' : ServerMap} (hsame : SameChannels st st')
    (h : st.channel? s c = some ch) (hanswers : ch.Answers senderName src) :
    (dataSent raw src st').Perm
      (((ch.receivers senderName src).map User.addr).map fun dst => ⟨dst, asBytes raw⟩) := by
  rw [dataSent_eq, hsender, Option.bind_some]
  rcases findSome?_forwardData senderName src st' with
    ⟨s', c', ch', hch', hanswers', hfound⟩ | ⟨hnone, -⟩
  · rw [hsame] at hch'
    rw [hfound, Option.getD_some]
    exact (halike s' c' ch' s c ch hch' h hanswers' hanswers).map _
  · exact absurd hanswers (hnone s c ch ((hsame s c).trans h))

/-- If they would, the layout does not matter. -/
theorem orderFree_of_answerAlike
    (halike : ∀ senderName, dataSender raw = some senderName → AnswerAlike senderName src st) :
    OrderFree raw src st := by
  intro st' hsame
  cases hsender : dataSender raw with
  | none =>
      rw [dataSent_eq, dataSent_eq, hsender]
      exact List.Perm.refl _
  | some senderName =>
      have halike := halike senderName hsender
      rcases findSome?_forwardData senderName src st with
        ⟨s, c, ch, hch, hanswers, -⟩ | ⟨hnobody, hfound⟩
      · exact (dataSent_of_answers hsender halike hsame hch hanswers).trans
          (dataSent_of_answers hsender halike (fun _ _ => rfl) hch hanswers).symm
      · rcases findSome?_forwardData senderName src st' with
          ⟨s, c, ch, hch, hanswers, -⟩ | ⟨-, hfound'⟩
        · rw [hsame] at hch
          exact absurd hanswers (hnobody s c ch hch)
        · rw [dataSent_eq, dataSent_eq, hsender, Option.bind_some, Option.bind_some, hfound,
            hfound']

/-- Nor does it where at most one channel answers. -/
theorem orderFree_of_one_answers
    (hone : ∀ senderName, dataSender raw = some senderName → ∀ s c ch s' c' ch',
      st.channel? s c = some ch → st.channel? s' c' = some ch' →
      ch.Answers senderName src → ch'.Answers senderName src → s = s' ∧ c = c') :
    OrderFree raw src st := by
  refine orderFree_of_answerAlike fun senderName hsender s c ch s' c' ch' hch hch' h h' => ?_
  obtain ⟨rfl, rfl⟩ := hone senderName hsender s c ch s' c' ch' hch hch' h h'
  rw [Option.some.inj (hch.symm.trans hch')]

/-- **The layout of the maps** decides where a line of `DATA` goes, unless all
channels that answer would send it to the same addresses.  Those are: of who
needs the server, the sender aside, if the line comes from the address of the
relay or from the relay by name; of everybody who is elsewhere, if it comes from
a member that needs the server; of the relay, if that is elsewhere, for any
other member. -/
theorem data_orderFree_iff (raw : Str) (src : SocketAddr) (st : ServerMap) :
    OrderFree raw src st ↔
      ∀ senderName, dataSender raw = some senderName → AnswerAlike senderName src st := by
  refine ⟨fun hfree senderName hsender s c ch s' c' ch' hch hch' hanswers hanswers' => ?_,
    orderFree_of_answerAlike⟩
  have hfirst := hfree (st.relayout s c) (st.channel?_relayout s c)
  have hsecond := hfree (st.relayout s' c') (st.channel?_relayout s' c')
  rw [dataSent_relayout hsender hch hanswers] at hfirst
  rw [dataSent_relayout hsender hch' hanswers'] at hsecond
  have hdst := (hfirst.trans hsecond.symm).map Datagram.dst
  simpa [List.map_map, Function.comp_def] using hdst

end Order

/-- Ann is the relay of a channel of one server, and of one of another. -/
theorem data_in_two_servers :
    ¬ ∀ (ls : List ServerStep) (raw : Str) (src : SocketAddr),
      OrderFree raw src (after ServerMap.step ∅ ls) := by
  intro h
  let ann : SocketAddr := .v4 ⟨10, 0, 0, 1⟩ 4000
  let ls : List ServerStep :=
    [.message ⟨0, 7⟩ "CONNECT s c ann CONE".toList ann,
      .message ⟨1, 8⟩ "CONNECT s c bob SYMMETRIC".toList (.v4 ⟨10, 0, 0, 2⟩ 4000),
      .message ⟨2, 9⟩ "CONNECT t d ann CONE".toList ann,
      .message ⟨3, 10⟩ "CONNECT t d dave SYMMETRIC".toList (.v4 ⟨10, 0, 0, 3⟩ 4000)]
  have hperm := h ls "DATA ann hi".toList ann
    ((after ServerMap.step ∅ ls).relayout ⟨"s".toList, by decide⟩ ⟨"c".toList, by decide⟩)
    (ServerMap.channel?_relayout _ _ _)
  have hmem := hperm.map Datagram.dst
  revert hmem
  decide +kernel

end NatPiercer.Signaling
