/-
# `System.Answers` — what comes back for a `CONNECT`

A client that has sent its `CONNECT` reads its socket until the server says
`MODE`, and gives up after a second and a half.  A new session is told of
its mode by one of three functions: the one for a user that is alone, if no
relay is on record, or the election, whoever comes out of it
(`elect_answers`).  A session that is known is greeted, and that is all.
-/
import NatPiercer.Client.Setup
import NatPiercer.System.Lines

namespace NatPiercer.System

open Text Utf8 Net Proto LockProg Signaling Client

/-- The datagram has a line that starts with `MODE`, as the setup reads it. -/
def readsMode (bytes : Bytes) : Bool :=
  match decode bytes with
  | some (hdr, payload) =>
      match hdr.kind with
      | .control => (fromUtf8 payload).any holdsMode
      | .dtls | .srtp => false
  | none => holdsMode (fromUtf8Lossy bytes)

theorem readsMode_eq (bytes : Bytes) :
    readsMode bytes =
      match Reading.ofBytes bytes with
      | .control s | .plain s => holdsMode s
      | .dropped => false := by
  unfold readsMode Reading.ofBytes
  cases decode bytes with
  | none => rfl
  | some packet =>
      obtain ⟨⟨kind, _⟩, payload⟩ := packet
      dsimp only
      cases kind with
      | control => cases fromUtf8 payload <;> rfl
      | dtls | srtp => rfl

/-- It is what ends the setup. -/
theorem handleRecvResult_sawMode (now : Signaling.Instant) (server : SocketAddr) (bytes : Bytes)
    (me : Client) : (me.handleRecvResult now server server bytes).2.1 = readsMode bytes := by
  have hsetup : ∀ (me : Client) (s : Str),
      (me.setupText now server server s).2.1 = holdsMode s := by
    intro me s
    unfold setupText
    rw [if_pos rfl]
  rw [handleRecvResult_eq, readsMode_eq]
  cases Reading.ofBytes bytes with
  | dropped => rfl
  | plain s => exact hsetup me s
  | control s => exact hsetup (me.tryHandleWelcome s) s

/-- One of the datagrams tells `a` of a mode. -/
def Answered (a : SocketAddr) (ds : List Datagram) : Prop :=
  ∃ d ∈ ds, d.dst = a ∧ readsMode d.payload = true

instance (a : SocketAddr) (ds : List Datagram) : Decidable (Answered a ds) :=
  inferInstanceAs (Decidable (∃ d ∈ ds, _))

section Answers
variable {a : SocketAddr} {ds ds' : List Datagram} {ch : Channel} {x : User}

theorem readsMode_line {l : ControlLine} (hl : ∀ n addr, l ≠ .userLeft n addr) :
    readsMode (asBytes l.text) = true := by
  have hdecode := decode_script [l]
  have hlines := lines_script [l]
  rw [List.flatMap_cons, List.flatMap_nil, List.append_nil] at hdecode hlines
  unfold readsMode
  rw [hdecode]
  dsimp only
  rw [fromUtf8Lossy_asBytes, holdsMode, hlines, List.map_singleton, List.any_cons,
    trimStart_unwords]
  cases l with
  | relay | direct n addr | serverRelay n => rfl
  | userLeft n addr => exact absurd rfl (hl n addr)

theorem answered_of_line {l : ControlLine} (hl : ∀ n addr, l ≠ .userLeft n addr)
    (h : tell a l.text ∈ ds) : Answered a ds :=
  ⟨_, h, rfl, readsMode_line hl⟩

theorem Answered.mono (h : Answered a ds) (hsub : ds ⊆ ds') : Answered a ds' := by
  obtain ⟨d, hd, hmode⟩ := h
  exact ⟨d, hsub hd, hmode⟩

/-- **An election beside others answers everyone**: whoever is elected hears of
the others, and the others of it, or of the server. -/
theorem elect_answers (hx : x ∈ ch.users)
    (hsame : ∀ v ∈ ch.users, v.name = x.name → v.addr = x.addr)
    (hbeside : ∃ w ∈ ch.users, w.name ≠ x.name) : Answered x.addr ch.elect.2 := by
  unfold Channel.elect
  cases hv : pickEligibleRelay ch with
  | none =>
      refine answered_of_line (l := .serverRelay x.name) (by simp) ?_
      exact List.mem_flatMap.mpr ⟨x, hx, List.mem_map_of_mem hx⟩
  | some v =>
      have hmem : v ∈ ch.users := List.mem_of_find?_eq_some hv
      dsimp only
      unfold Channel.electionTold
      by_cases hname : v.name = x.name
      · -- `x` is elected, and hears of somebody else
        obtain ⟨w, hw, hne⟩ := hbeside
        have hwv : w.name ≠ v.name := fun h => hne (h.trans hname)
        rw [← hsame v hmem hname]
        cases hneeds : w.needsServerRelay with
        | false =>
            refine answered_of_line (l := .direct w.name w.addr) (by simp) ?_
            exact List.mem_append_left _
              (List.mem_map_of_mem (mem_relayPeers.mpr ⟨hw, hwv, hneeds⟩))
        | true =>
            refine answered_of_line (l := .serverRelay w.name) (by simp) ?_
            refine List.mem_append_right _ (List.mem_append_right _ (List.mem_append_right _
              (List.mem_flatMap.mpr ⟨w, mem_symmetricPeers.mpr ⟨hw, hwv, hneeds⟩, ?_⟩)))
            by_cases haddr : v.addr = w.addr
            · rw [haddr]
              exact List.mem_cons_self
            · rw [if_pos haddr]
              exact List.mem_cons_of_mem _ List.mem_cons_self
      · have hxv : x.name ≠ v.name := fun h => hname h.symm
        cases hneeds : x.needsServerRelay with
        | false =>
            refine answered_of_line (l := .direct v.name v.addr) (by simp) ?_
            exact List.mem_append_right _ (List.mem_append_left _ (List.mem_map.mpr
              ⟨x, mem_relayPeers.mpr ⟨hx, hxv, hneeds⟩, rfl⟩))
        | true =>
            refine answered_of_line (l := .serverRelay x.name) (by simp) ?_
            refine List.mem_append_right _ (List.mem_append_right _ (List.mem_append_right _
              (List.mem_flatMap.mpr ⟨x, mem_symmetricPeers.mpr ⟨hx, hxv, hneeds⟩, ?_⟩)))
            exact List.mem_cons_self

/-- A new session is answered, unless it is alone under a relay on record. -/
theorem connect_answers (amb : Ambient) (nat : Signaling.NatKind) {n : Token}
    (hnew : ∀ x ∈ ch.users, x.isSession n a = false) (hrelay : ch.others n ≠ [] ∨ ch.relay = none) :
    Answered a (ch.connect amb n nat a).2 := by
  by_cases ho : ch.others n = []
  · obtain ⟨-, -, cid, pid, hsent⟩ := connect_lone amb nat hnew ho
    rw [hsent, if_pos (hrelay.resolve_left fun h => h ho)]
    by_cases hsym : nat = .symmetric
    · refine answered_of_line (l := .serverRelay n) (by simp) ?_
      rw [if_pos hsym]
      exact List.mem_cons_self
    · refine answered_of_line (l := .relay) (by simp) ?_
      rw [if_neg hsym]
      exact List.mem_cons_self
  · obtain ⟨-, cid, pid, hsent⟩ := connect_elect amb nat hnew ho
    have husers := joined_users amb nat hnew
    have hjoined : ch.newUser amb n nat a ∈ (ch.joined amb n nat a).users := by
      rw [husers]
      exact List.mem_append_right _ List.mem_cons_self
    have helect : Answered a (ch.joined amb n nat a).elect.2 := by
      refine elect_answers hjoined (fun v hv hname => ?_) ?_
      · rw [husers] at hv
        rcases List.mem_append.mp hv with hv | hv
        · exact absurd hname (mem_others.mp hv).2
        · rw [List.mem_singleton.mp hv]
      · obtain ⟨w, hw⟩ := List.exists_mem_of_ne_nil _ ho
        rw [husers]
        exact ⟨w, List.mem_append_left _ hw, (mem_others.mp hw).2⟩
    rw [hsent]
    exact helect.mono (List.subset_cons_self _ _)

end Answers

/-- **`CONNECT` and its answer.**  A new session is told of its mode, if it joins
others or finds no relay on record; a session that is known gets the `WELCOME`
and nothing else. -/
theorem connect_answered (st : ServerMap) (amb : Ambient) (s c n : Token) (natArg : Option Token)
    (src : SocketAddr) :
    let ch := (st.channel? s c).getD .default
    let sent := ((handleConnectMessage amb s c n natArg src).run st).sent
    ((∀ x ∈ ch.users, x.isSession n src = false) → ch.others n ≠ [] ∨ ch.relay = none →
      Answered src sent) ∧
    ((∃ x ∈ ch.users, x.isSession n src = true) → ∃ cid pid, sent = [welcome src cid pid]) := by
  intro ch sent
  have hsent : sent = (ch.connect amb n (.ofArg natArg) src).2 :=
    (handleConnectMessage_spec amb s c n natArg src st).2
  rw [hsent]
  exact ⟨connect_answers amb _, fun hsession => (connect_of_session amb _ hsession).2⟩

/-- Carl joins Ann, who is the relay, and Bob, who needs the server; and when he
connects again, he is only greeted. -/
theorem connect_answered_carl :
    let carl : SocketAddr := .v4 ⟨10, 0, 0, 3⟩ 4000
    let st := after ServerMap.step ∅
      [.message ⟨0, 7⟩ "CONNECT s c ann CONE".toList (.v4 ⟨10, 0, 0, 1⟩ 4000),
        .message ⟨1, 8⟩ "CONNECT s c bob SYMMETRIC".toList (.v4 ⟨10, 0, 0, 2⟩ 4000)]
    let joins := handleConnectMessage ⟨2, 9⟩ ⟨"s".toList, by decide⟩ ⟨"c".toList, by decide⟩
      ⟨"carl".toList, by decide⟩ none carl
    Answered carl (joins.run st).sent ∧
      ∃ cid pid, (joins.run (joins.run st).state).sent = [welcome carl cid pid] := by
  intro carl st joins
  exact ⟨(connect_answered st _ _ _ _ _ carl).1 (by decide +kernel) (Or.inl (by decide +kernel)),
    (connect_answered (joins.run st).state _ _ _ _ _ carl).2 (by decide +kernel)⟩

/-- Ann connects twice from one address, and the second time is only greeted. -/
theorem connect_repeated :
    ¬ ∀ (ls : List ServerStep) (amb : Ambient) (text : Str) (src : SocketAddr) (s c n : Token)
      (natArg : Option Token), Request.ofText text = .connect s c n natArg →
      Answered src ((after ServerMap.step ∅ ls).sent (.message amb text src)) := by
  intro h
  have hanswered := h
    [.message ⟨0, 7⟩ "CONNECT s c ann CONE".toList (.v4 ⟨10, 0, 0, 1⟩ 4000)]
    ⟨1, 8⟩ "CONNECT s c ann CONE".toList (.v4 ⟨10, 0, 0, 1⟩ 4000) ⟨"s".toList, by decide⟩
    ⟨"c".toList, by decide⟩ ⟨"ann".toList, by decide⟩ (some natTypeCone) (by decide +kernel)
  revert hanswered
  decide +kernel

end NatPiercer.System
