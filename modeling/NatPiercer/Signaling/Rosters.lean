/-
# `Signaling.Rosters` — who can be in a channel

Nothing in the types of the server keeps two users of one name out of a
channel, or one session out of two channels.  It is what a `CONNECT` does
that keeps it so: it replaces the sessions of its name and drops its own
from the other channels, all in one critical section.  So both hold between
any two critical sections, of whichever tasks, in whichever order they come.
-/
import NatPiercer.Signaling.Sections

namespace NatPiercer.Signaling

open Text Utf8 Net Proto LockProg

/-- Tasks of the server that take turns, from the empty map on. -/
def interleaved (ms : List (Move ServerStep)) : Tasks ServerMap Datagram :=
  after (Tasks.move ServerStep.program) ⟨∅, []⟩ ms

/-- What every critical section keeps is so in every interleaving. -/
theorem interleaved_of_sectionEffect {J : ServerMap → Prop} (hempty : J ∅)
    (hJ : ∀ st st', J st → SectionEffect st st' → J st') (ms : List (Move ServerStep)) :
    J (interleaved ms).value :=
  (after_of_always _ _
    (always_moves SectionEffect.refl guarantees_program hJ hempty ms)).2

/-- Whole steps, one after the other, are an interleaving. -/
theorem exists_interleaved (ls : List ServerStep) :
    ∃ ms, (interleaved ms).value = after ServerMap.step ∅ ls :=
  exists_moves ServerStep.program ls ⟨∅, []⟩

/-! ## Names -/

section Names
variable {st st' : ServerMap} {ch ch' : Channel} {s c n : Token} {src : SocketAddr}

/-- Where a channel comes from. -/
theorem SectionEffect.origin (h : SectionEffect st st') (hch' : st'.channel? s c = some ch') :
    (∃ ch, st.channel? s c = some ch ∧ Kept ch ch') ∨
      ∃ n src, Admitted n src ((st.channel? s c).getD .default) ch' := by
  cases h with
  | kept h => exact Or.inl (h s c ch' hch')
  | admitted s₁ c₁ n src hnamed hadmitted hrest =>
      by_cases hsc : s = s₁ ∧ c = c₁
      · obtain ⟨rfl, rfl⟩ := hsc
        obtain rfl := Option.some.inj (hnamed.symm.trans hch')
        exact Or.inr ⟨n, src, hadmitted⟩
      · rw [hrest s c hsc] at hch'
        split_ifs at hch'
        · obtain ⟨ch, hch, rfl⟩ := Option.map_eq_some_iff.mp hch'
          exact Or.inl ⟨ch, hch, kept_evict n src ch⟩
        · exact Or.inl ⟨ch', hch', Kept.refl ch'⟩

theorem map_name_roster (ch : Channel) :
    ch.roster.map (fun b => b.2.1) = ch.users.map User.name := by
  rw [Channel.roster, List.map_map]
  rfl

theorem Kept.wellNamed (h : Kept ch ch') (hn : ch.WellNamed) : ch'.WellNamed := by
  rw [Channel.WellNamed, ← map_name_roster] at hn ⊢
  exact hn.sublist (h.1.map _)

/-- The new session is alone with its name: the others of that name have gone. -/
theorem Admitted.wellNamed (h : Admitted n src ch ch') (hn : ch.WellNamed) : ch'.WellNamed := by
  rw [Channel.WellNamed, ← map_name_roster]
  cases h with
  | known hsession hroster hnext =>
      rw [hroster, map_name_roster]
      exact hn
  | new habsent hroster hnext =>
      have hothers : ((ch.others n).map User.badge).map (fun b => b.2.1) =
          (ch.others n).map User.name := by
        rw [List.map_map]
        rfl
      rw [hroster, List.map_append, hothers, List.map_singleton]
      refine List.nodup_append.mpr ⟨hn.sublist (List.filter_sublist.map _),
        List.nodup_singleton n, ?_⟩
      intro x hx y hy
      obtain ⟨u, hu, rfl⟩ := List.mem_map.mp hx
      rw [List.mem_singleton.mp hy]
      exact (mem_others.mp hu).2

theorem everywhere_wellNamed_section (hn : Everywhere Channel.WellNamed st)
    (h : SectionEffect st st') : Everywhere Channel.WellNamed st' := by
  intro s c ch' hch'
  rcases h.origin hch' with ⟨ch, hch, hkept⟩ | ⟨n, src, hadmitted⟩
  · exact hkept.wellNamed (hn s c ch hch)
  · exact hadmitted.wellNamed (hn.getD wellNamed_default s c)

end Names

/-- **No two users of a channel have one name**, after any steps and between any
critical sections of them. -/
theorem wellNamed_interleaved (ls : List ServerStep) (ms : List (Move ServerStep)) :
    Everywhere Channel.WellNamed (after ServerMap.step ∅ ls) ∧
      Everywhere Channel.WellNamed (interleaved ms).value := by
  have h : ∀ ms, Everywhere Channel.WellNamed (interleaved ms).value :=
    interleaved_of_sectionEffect (everywhere_empty _) fun _ _ => everywhere_wellNamed_section
  obtain ⟨ms', hms'⟩ := exists_interleaved ls
  exact ⟨hms' ▸ h ms', h ms⟩

/-! ## Sessions -/

/-- The sessions in all the channels of a server, one for each entry. -/
def ServerMap.sessions (st : ServerMap) (serverId : Token) : List (Token × SocketAddr) :=
  match AList.lookup serverId st with
  | some channels => channels.entries.flatMap fun entry => entry.2.users.map User.session
  | none => []

/-- A session is in one channel of a server at most. -/
def ServerMap.OneChannel (st : ServerMap) : Prop :=
  ∀ s c c' ch ch', st.channel? s c = some ch → st.channel? s c' = some ch' →
    ∀ x ∈ ch.users, ∀ y ∈ ch'.users, x.session = y.session → c = c'

section Sessions
variable {st st' : ServerMap} {ch ch' : Channel} {s c n : Token} {src : SocketAddr} {u : User}

theorem Kept.session (h : Kept ch ch') (hu : u ∈ ch'.users) :
    ∃ x ∈ ch.users, x.session = u.session := by
  have hmem : u.badge ∈ ch.roster := h.1.subset (List.mem_map_of_mem hu)
  obtain ⟨x, hx, hbadge⟩ := List.mem_map.mp hmem
  exact ⟨x, hx, congrArg Prod.snd hbadge⟩

theorem Admitted.session (h : Admitted n src ch ch') (hu : u ∈ ch'.users) :
    u.session = (n, src) ∨ ∃ x ∈ ch.users, x.session = u.session := by
  have hmem : u.badge ∈ ch'.roster := List.mem_map_of_mem hu
  cases h with
  | known hsession hroster hnext =>
      exact Or.inr (Kept.session ⟨hroster ▸ List.Sublist.refl _, hnext⟩ hu)
  | new habsent hroster hnext =>
      rw [hroster] at hmem
      rcases List.mem_append.mp hmem with hmem | hmem
      · obtain ⟨x, hx, hbadge⟩ := List.mem_map.mp hmem
        exact Or.inr ⟨x, (mem_others.mp hx).1, congrArg Prod.snd hbadge⟩
      · exact Or.inl (congrArg Prod.snd (List.mem_singleton.mp hmem))

theorem oneChannel_section (hone : st.OneChannel) (h : SectionEffect st st') :
    st'.OneChannel := by
  intro s c c' ch₁ ch₂ h₁ h₂ x hx y hy hxy
  cases h with
  | kept h =>
      obtain ⟨ch, hch, hkept⟩ := h s c ch₁ h₁
      obtain ⟨ch', hch', hkept'⟩ := h s c' ch₂ h₂
      obtain ⟨z, hz, hzx⟩ := hkept.session hx
      obtain ⟨w, hw, hwy⟩ := hkept'.session hy
      exact hone s c c' ch ch' hch hch' z hz w hw (hzx.trans (hxy.trans hwy.symm))
  | admitted s₁ c₁ n src hnamed hadmitted hrest =>
      -- a session is where it was, or it is the one that has connected
      have horigin : ∀ c ch, st'.channel? s c = some ch → ∀ x ∈ ch.users,
          (x.session = (n, src) → s = s₁ → c = c₁) ∧
            ((x.session = (n, src) ∧ s = s₁) ∨
              ∃ old, st.channel? s c = some old ∧ ∃ z ∈ old.users, z.session = x.session) := by
        intro c ch hch x hx
        by_cases hsc : s = s₁ ∧ c = c₁
        · obtain ⟨rfl, rfl⟩ := hsc
          obtain rfl := Option.some.inj (hnamed.symm.trans hch)
          refine ⟨fun _ _ => rfl, ?_⟩
          rcases hadmitted.session hx with hnew | ⟨z, hz, hzx⟩
          · exact Or.inl ⟨hnew, rfl⟩
          · cases hold : st.channel? s c with
            | none =>
                rw [hold] at hz
                exact absurd hz List.not_mem_nil
            | some old =>
                rw [hold] at hz
                exact Or.inr ⟨old, rfl, z, hz, hzx⟩
        · rw [hrest s c hsc] at hch
          split_ifs at hch with hs
          · obtain ⟨old, hold, rfl⟩ := Option.map_eq_some_iff.mp hch
            obtain ⟨hmem, hnot⟩ := List.mem_filter.mp hx
            refine ⟨fun hxs _ => ?_, Or.inr ⟨old, hold, x, hmem, rfl⟩⟩
            rw [isSession_iff.mpr (Prod.mk.inj hxs)] at hnot
            exact absurd hnot Bool.false_ne_true
          · exact ⟨fun _ hs' => absurd hs' hs, Or.inr ⟨ch, hch, x, hx, rfl⟩⟩
      obtain ⟨hxc, ⟨hxn, hs⟩ | ⟨ch, hch, z, hz, hzx⟩⟩ := horigin c ch₁ h₁ x hx
      · obtain ⟨hyc, -⟩ := horigin c' ch₂ h₂ y hy
        rw [hxc hxn hs, hyc (hxy ▸ hxn) hs]
      · obtain ⟨hyc, ⟨hyn, hs⟩ | ⟨ch', hch', w, hw, hwy⟩⟩ := horigin c' ch₂ h₂ y hy
        · rw [hxc (hxy.trans hyn) hs, hyc hyn hs]
        · exact hone s c c' ch ch' hch hch' z hz w hw (hzx.trans (hxy.trans hwy.symm))

/-- What is said of two entries, said of the list of all. -/
theorem sessions_nodup (hn : Everywhere Channel.WellNamed st) (hone : st.OneChannel) (s : Token) :
    (st.sessions s).Nodup := by
  unfold ServerMap.sessions
  cases hs : AList.lookup s st with
  | none => exact List.nodup_nil
  | some channels =>
      have hlookup : ∀ {entry}, entry ∈ channels.entries →
          st.channel? s entry.1 = some entry.2 := by
        intro entry hentry
        rw [ServerMap.channel?, hs, Option.bind_some]
        exact HashMap.mem_entries_iff.mp hentry
      refine List.nodup_flatMap.mpr ⟨fun entry hentry => ?_, ?_⟩
      · have hnames : (entry.2.users.map User.session).map Prod.fst =
            entry.2.users.map User.name := by
          rw [List.map_map]
          rfl
        refine List.Nodup.of_map Prod.fst ?_
        rw [hnames]
        exact hn s _ _ (hlookup hentry)
      · refine channels.nodupKeys.pairwise_ne.imp_of_mem fun hentry hentry' hne => ?_
        refine List.disjoint_left.mpr fun x hx hx' => hne ?_
        obtain ⟨u, hu, rfl⟩ := List.mem_map.mp hx
        obtain ⟨v, hv, huv⟩ := List.mem_map.mp hx'
        exact hone s _ _ _ _ (hlookup hentry) (hlookup hentry') u hu v hv huv.symm

end Sessions

/-- **No session is in a server twice**, after any steps and between any critical
sections of them. -/
theorem sessions_nodup_interleaved (s : Token) (ls : List ServerStep)
    (ms : List (Move ServerStep)) :
    ((after ServerMap.step ∅ ls).sessions s).Nodup ∧
      ((interleaved ms).value.sessions s).Nodup := by
  have h : ∀ ms, ((interleaved ms).value.sessions s).Nodup := by
    intro ms
    obtain ⟨hn, hone⟩ := interleaved_of_sectionEffect
      (J := fun st => Everywhere Channel.WellNamed st ∧ st.OneChannel)
      ⟨everywhere_empty _, fun _ _ _ _ _ h => absurd h (Option.some_ne_none _).symm⟩
      (fun st st' hJ h => ⟨everywhere_wellNamed_section hJ.1 h, oneChannel_section hJ.2 h⟩) ms
    exact sessions_nodup hn hone s
  obtain ⟨ms', hms'⟩ := exists_interleaved ls
  exact ⟨hms' ▸ h ms', h ms⟩

end NatPiercer.Signaling
