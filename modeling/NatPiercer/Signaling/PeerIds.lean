/-
# `Signaling.PeerIds` — the numbers a channel gives out

A channel numbers its sessions: `next_peer_id` goes to whoever joins, and
moves on.  Users leave from the middle of the vector, but nothing is ever
put in front of its end, so the numbers stand in increasing order; and as
the count only grows, a number that has been given out is seen again with
the one session it was given to, which has then been there all along.

The count is 32 bits wide and the source adds to it with `+= 1`.  A run in
which it wraps is not one that these results speak of: `InRange` says that
it has not.
-/
import NatPiercer.Signaling.Rosters

namespace NatPiercer.Signaling

open Text Utf8 Net Proto LockProg

/-- No count has run over: one that has is zero. -/
def InRange (st : ServerMap) : Prop := ∀ entry ∈ st.channels, entry.2.2.nextPeerId ≠ 0

instance (st : ServerMap) : Decidable (InRange st) :=
  inferInstanceAs (Decidable (∀ entry ∈ st.channels, _))

/-- The numbers increase, and the next is beyond them. -/
structure Channel.Numbered (channel : Channel) : Prop where
  increasing : (channel.users.map User.peerId).Pairwise (· < ·)
  positive : ∀ u ∈ channel.users, 1 ≤ u.peerId
  below_next : ∀ u ∈ channel.users, u.peerId < channel.nextPeerId

section Numbered
variable {st st' : ServerMap} {ch ch' : Channel} {s c n : Token} {src : SocketAddr}

theorem InRange.next (h : InRange st) (hch : st.channel? s c = some ch) : ch.nextPeerId ≠ 0 :=
  h (s, c, ch) (ServerMap.mem_channels_iff.mpr hch)

theorem numbered_default : Channel.default.Numbered where
  increasing := List.Pairwise.nil
  positive := fun _ hu => absurd hu List.not_mem_nil
  below_next := fun _ hu => absurd hu List.not_mem_nil

/-- `Numbered`, of the badges. -/
theorem numbered_iff_roster : ch.Numbered ↔
    (ch.roster.map Prod.fst).Pairwise (· < ·) ∧
      ∀ b ∈ ch.roster, 1 ≤ b.1 ∧ b.1 < ch.nextPeerId := by
  have hids : ch.roster.map Prod.fst = ch.users.map User.peerId := by
    rw [Channel.roster, List.map_map]
    rfl
  rw [hids]
  constructor
  · intro h
    refine ⟨h.increasing, fun b hb => ?_⟩
    obtain ⟨u, hu, rfl⟩ := List.mem_map.mp hb
    exact ⟨h.positive u hu, h.below_next u hu⟩
  · intro h
    exact ⟨h.1, fun u hu => (h.2 u.badge (List.mem_map_of_mem hu)).1,
      fun u hu => (h.2 u.badge (List.mem_map_of_mem hu)).2⟩

theorem Kept.numbered (h : Kept ch ch') (hn : ch.Numbered) : ch'.Numbered := by
  rw [numbered_iff_roster] at hn ⊢
  refine ⟨hn.1.sublist (h.1.map Prod.fst), fun b hb => ?_⟩
  rw [h.2]
  exact hn.2 b (h.1.subset hb)

theorem Admitted.numbered (h : Admitted n src ch ch') (hn : ch.Numbered)
    (hnext : ch.nextPeerId ≠ 0) (hnext' : ch'.nextPeerId ≠ 0) : ch'.Numbered := by
  cases h with
  | known hsession hroster hsame => exact Kept.numbered (kept_of_roster hroster hsame) hn
  | new habsent hroster hsucc =>
      have hothers : ((ch.others n).map User.badge).Sublist ch.roster :=
        List.filter_sublist.map User.badge
      have hlt : ch.nextPeerId < ch.nextPeerId + 1 := by grind
      rw [numbered_iff_roster] at hn ⊢
      rw [hroster, hsucc]
      constructor
      · rw [List.map_append, List.map_singleton]
        refine List.pairwise_append.mpr ⟨hn.1.sublist (hothers.map Prod.fst),
          List.pairwise_singleton _ _, fun x hx y hy => ?_⟩
        obtain ⟨b, hb, rfl⟩ := List.mem_map.mp hx
        rw [List.mem_singleton.mp hy]
        exact (hn.2 b (hothers.subset hb)).2
      · intro b hb
        rcases List.mem_append.mp hb with hb | hb
        · obtain ⟨hpos, hbelow⟩ := hn.2 b (hothers.subset hb)
          exact ⟨hpos, UInt32.lt_trans hbelow hlt⟩
        · rw [List.mem_singleton.mp hb]
          exact ⟨by grind, hlt⟩

theorem InRange.getD (h : InRange st) (s c : Token) :
    ((st.channel? s c).getD .default).nextPeerId ≠ 0 := by
  cases hch : st.channel? s c with
  | none => decide
  | some ch => exact h.next hch

theorem everywhere_numbered_section (hn : Everywhere Channel.Numbered st) (hr : InRange st)
    (hr' : InRange st') (h : SectionEffect st st') : Everywhere Channel.Numbered st' := by
  intro s c ch' hch'
  rcases h.origin hch' with ⟨ch, hch, hkept⟩ | ⟨n, src, hadmitted⟩
  · exact hkept.numbered (hn s c ch hch)
  · exact hadmitted.numbered (hn.getD numbered_default s c) (hr.getD s c) (hr'.next hch')

/-- Of a channel that goes on, the count never falls, and what is on the roster
with a number below the old count was there. -/
theorem SectionEffect.lasting (h : SectionEffect st st') (hr' : InRange st')
    (hch : st.channel? s c = some ch) (hch' : st'.channel? s c = some ch') :
    ch.nextPeerId ≤ ch'.nextPeerId ∧ ∀ b ∈ ch'.roster, b.1 < ch.nextPeerId → b ∈ ch.roster := by
  have hkept : ∀ old, st.channel? s c = some old → Kept old ch' →
      ch.nextPeerId ≤ ch'.nextPeerId ∧ ∀ b ∈ ch'.roster, b.1 < ch.nextPeerId → b ∈ ch.roster := by
    intro old hold hkept
    obtain rfl := Option.some.inj (hold.symm.trans hch)
    rw [hkept.2]
    exact ⟨UInt32.le_refl _, fun b hb _ => hkept.1.subset hb⟩
  rcases h.origin hch' with ⟨old, hold, h⟩ | ⟨n, src, hadmitted⟩
  · exact hkept old hold h
  · rw [hch, Option.getD_some] at hadmitted
    cases hadmitted with
    | known hsession hroster hsame => exact hkept ch hch (kept_of_roster hroster hsame)
    | new habsent hroster hsucc =>
        have hnext' : ch'.nextPeerId ≠ 0 := hr'.next hch'
        have hlt : ch.nextPeerId < ch.nextPeerId + 1 := by grind
        rw [hsucc, hroster]
        refine ⟨UInt32.le_of_lt hlt, fun b hb hbelow => ?_⟩
        rcases List.mem_append.mp hb with hb | hb
        · exact (List.filter_sublist.map User.badge).subset hb
        · rw [List.mem_singleton.mp hb] at hbelow
          exact absurd hbelow (UInt32.lt_irrefl _)

end Numbered

/-! ## Over a lifetime -/

/-- The badge is on the roster of the channel `s`/`c`. -/
def Listed (s c : Token) (b : UInt32 × Token × SocketAddr) (t : Tasks ServerMap Datagram) : Prop :=
  ∃ ch, t.value.channel? s c = some ch ∧ b ∈ ch.roster

/-- The channel `s`/`c` is there, and no count has run over. -/
def Alive (s c : Token) (t : Tasks ServerMap Datagram) : Prop :=
  InRange t.value ∧ (t.value.channel? s c).isSome

/-- What is listed at the end under a number that was given out before the start
has been listed all along. -/
theorem listed_throughout {s c : Token} {b : UInt32 × Token × SocketAddr}
    {t : Tasks ServerMap Datagram} {ms : List (Move ServerStep)} {ch : Channel}
    (ht : t.Sound SectionEffect)
    (halive : Always (Tasks.move ServerStep.program) (Alive s c) t ms)
    (hch : t.value.channel? s c = some ch) (hb : b.1 < ch.nextPeerId)
    (hlast : Listed s c b (after (Tasks.move ServerStep.program) t ms)) :
    Always (Tasks.move ServerStep.program) (Listed s c b) t ms := by
  induction ms generalizing t ch with
  | nil => exact hlast
  | cons m ms ih =>
      obtain ⟨heffect, hsound⟩ := move_guarantee SectionEffect.refl guarantees_program ht m
      obtain ⟨hrange', hsome⟩ := halive.2.head
      obtain ⟨ch', hch'⟩ := Option.isSome_iff_exists.mp hsome
      obtain ⟨hle, hback⟩ := heffect.lasting hrange' hch hch'
      have hrest := ih hsound halive.2 hch' (UInt32.lt_of_lt_of_le hb hle) hlast
      obtain ⟨ch₁, hch₁, hlisted⟩ := hrest.head
      obtain rfl := Option.some.inj (hch₁.symm.trans hch')
      exact ⟨⟨ch, hch, hback b hlisted hb⟩, hrest⟩

theorem sound_interleaved (ms : List (Move ServerStep)) :
    (interleaved ms).Sound SectionEffect :=
  (after_of_always _ _ (always_moves (J := fun _ => True) SectionEffect.refl guarantees_program
    (fun _ _ _ _ => trivial) trivial ms)).1

theorem numbered_interleaved {ms : List (Move ServerStep)}
    (hrange : Always (Tasks.move ServerStep.program) (fun t => InRange t.value) ⟨∅, []⟩ ms) :
    Everywhere Channel.Numbered (interleaved ms).value := by
  have h : Always (Tasks.move ServerStep.program)
      (fun t => t.Sound SectionEffect ∧ Everywhere Channel.Numbered t.value) ⟨∅, []⟩ ms := by
    refine always_of_always (fun t m ht hr hr' => ?_)
      ⟨fun _ hp => absurd hp List.not_mem_nil, everywhere_empty _⟩ hrange
    obtain ⟨heffect, hsound⟩ := move_guarantee SectionEffect.refl guarantees_program ht.1 m
    exact ⟨hsound, everywhere_numbered_section ht.2 hr hr' heffect⟩
  exact (after_of_always _ _ h).2

/-- A number is seen again with the session it was given to, listed all along. -/
theorem same_of_peerId {s c : Token} {t : Tasks ServerMap Datagram} {ms : List (Move ServerStep)}
    {ch ch' : Channel} {u u' : User} (ht : t.Sound SectionEffect) (hn : ch.Numbered)
    (halive : Always (Tasks.move ServerStep.program) (Alive s c) t ms)
    (hch : t.value.channel? s c = some ch)
    (hch' : (after (Tasks.move ServerStep.program) t ms).value.channel? s c = some ch')
    (hu : u ∈ ch.users) (hu' : u' ∈ ch'.users) (hid : u.peerId = u'.peerId) :
    u.session = u'.session ∧
      Always (Tasks.move ServerStep.program) (Listed s c u.badge) t ms := by
  have hbelow : u'.badge.1 < ch.nextPeerId := by
    rw [User.badge, ← hid]
    exact hn.below_next u hu
  have hlisted : Always (Tasks.move ServerStep.program) (Listed s c u'.badge) t ms :=
    listed_throughout ht halive hch hbelow ⟨ch', hch', List.mem_map_of_mem hu'⟩
  obtain ⟨ch₁, hch₁, hmem⟩ := hlisted.head
  obtain rfl := Option.some.inj (hch₁.symm.trans hch)
  obtain ⟨x, hx, hbadge⟩ := List.mem_map.mp hmem
  -- one number, one user
  have hnodup : (ch₁.users.map User.peerId).Nodup := hn.increasing.imp fun h => UInt32.ne_of_lt h
  obtain rfl : x = u :=
    List.inj_on_of_nodup_map hnodup hx hu ((congrArg Prod.fst hbadge).trans hid.symm)
  exact ⟨congrArg Prod.snd hbadge, hbadge ▸ hlisted⟩

/-- The first turn of a `CONNECT` ends with the session on the roster, and what
is left to do begins with a `WELCOME` that carries its number there. -/
theorem turn_connect {amb : Ambient} {text : Str} {src : SocketAddr} {s c n : Token}
    {natArg : Option Token} (hreq : Request.ofText text = .connect s c n natArg)
    (st : ServerMap) :
    ∃ ch u isNew, ((handleMessage amb text src).turn 0 st).state.channel? s c = some ch ∧
      u ∈ ch.users ∧ u.session = (n, src) ∧
      ((handleMessage amb text src).turn 0 st).rest =
        afterConnectSection s c n src ch isNew u.peerId := by
  rw [turn_handleMessage_connect amb src hreq]
  obtain ⟨ch, isNew, peerId, hval, hch, -, hmem, -⟩ :=
    connectSection_spec amb s c n (NatKind.ofArg natArg) src st
  obtain ⟨u, hu, hbadge⟩ := List.mem_map.mp hmem
  obtain ⟨rfl, hsession⟩ := Prod.mk.inj hbadge
  refine ⟨ch, u, isNew, hch, hu, hsession, ?_⟩
  dsimp only
  rw [hval]

/-- **The numbers of the users**, in every interleaving in which no count runs
over: they increase, they start with one and stay below the next; for as long
as a channel is there, two sightings of a number are of one session that has
never been away; and a `CONNECT` is answered with the number that its session
has on the roster. -/
theorem peerIds_interleaved (s c : Token) (sooner later : List (Move ServerStep))
    (hrange : Always (Tasks.move ServerStep.program) (fun t => InRange t.value) ⟨∅, []⟩
      (sooner ++ later)) :
    Everywhere Channel.Numbered (interleaved sooner).value ∧
    (Always (Tasks.move ServerStep.program) (fun t => (t.value.channel? s c).isSome)
        (interleaved sooner) later →
      ∀ ch ch' u u', (interleaved sooner).value.channel? s c = some ch →
        (interleaved (sooner ++ later)).value.channel? s c = some ch' →
        u ∈ ch.users → u' ∈ ch'.users → u.peerId = u'.peerId →
        u.session = u'.session ∧
          Always (Tasks.move ServerStep.program) (Listed s c u.badge) (interleaved sooner)
            later) ∧
    ∀ amb text src n natArg, Request.ofText text = .connect s c n natArg →
      ∃ ch u isNew,
        ((handleMessage amb text src).turn 0 (interleaved sooner).value).state.channel? s c =
          some ch ∧
        u ∈ ch.users ∧ u.session = (n, src) ∧
        ((handleMessage amb text src).turn 0 (interleaved sooner).value).rest =
          afterConnectSection s c n src ch isNew u.peerId := by
  obtain ⟨hsooner, hlater⟩ := always_append.mp hrange
  have hn := numbered_interleaved hsooner
  refine ⟨hn, fun hsome ch ch' u u' hch hch' hu hu' hid => ?_,
    fun amb text src n natArg hreq => turn_connect hreq _⟩
  rw [interleaved, after_append] at hch'
  exact same_of_peerId (sound_interleaved sooner) (hn s c ch hch) (hlater.and hsome) hch hch'
    hu hu' hid

/-- Ann and Bob join: Ann has been number one since she came. -/
theorem peerIds_ann :
    let s : Token := ⟨"s".toList, by decide⟩
    let c : Token := ⟨"c".toList, by decide⟩
    let ann : SocketAddr := .v4 ⟨10, 0, 0, 1⟩ 4000
    let bob : SocketAddr := .v4 ⟨10, 0, 0, 2⟩ 4000
    let sooner : List (Move ServerStep) :=
      [.start (.message ⟨0, 7⟩ "CONNECT s c ann CONE".toList ann), .turn 0]
    let later : List (Move ServerStep) :=
      [.start (.message ⟨1, 8⟩ "CONNECT s c bob CONE".toList bob), .turn 1, .turn 1]
    Always (Tasks.move ServerStep.program) (Listed s c (1, ⟨"ann".toList, by decide⟩, ann))
      (interleaved sooner) later := by
  intro s c ann bob sooner later
  let annUser : User := ⟨1, ⟨"ann".toList, by decide⟩, ann, 0, false, .cone⟩
  let bobUser : User := ⟨2, ⟨"bob".toList, by decide⟩, bob, 1, false, .cone⟩
  have hsooner : (interleaved sooner).value.channel? s c =
      some ⟨7, 2, [annUser], some annUser.name⟩ := by
    decide +kernel
  have hlater : (interleaved (sooner ++ later)).value.channel? s c =
      some ⟨7, 3, [annUser, bobUser], some annUser.name⟩ := by
    decide +kernel
  exact ((peerIds_interleaved s c sooner later (by decide +kernel)).2.1 (by decide +kernel) _ _
    annUser annUser hsooner hlater List.mem_cons_self List.mem_cons_self rfl).2

end NatPiercer.Signaling
