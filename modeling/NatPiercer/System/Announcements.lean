/-
# `System.Announcements` — what a client reads is what the server meant

Names come from strangers, and the server writes them into its texts.  It
took them from texts itself, word by word, so each is a token; and tokens are
all that it ever writes between its blanks and line ends.  So a datagram that
announces a mode or a departure falls back, at the client, into the lines it
was written from, and each line into its words.

Whose names these are is an invariant of runs: a channel holds no session
that no `CONNECT` has opened (`connected_members`).
-/
import NatPiercer.Client.Tables
import NatPiercer.Signaling.DataRouting
import NatPiercer.System.Scripts

namespace NatPiercer.System

open Text Utf8 Net Proto LockProg Signaling Client

/-! ## What a client reads -/

/-- The text of a datagram, framed or not. -/
def textIn (payload : Bytes) : Option Str :=
  match decode payload with
  | some (hdr, payload) => if hdr.kind = .control then fromUtf8 payload else none
  | none => some (fromUtf8Lossy payload)

/-- Line by line, and each line word by word, as `process_incoming_message` and
`handle_mode_line` cut it. -/
def wordsIn (payload : Bytes) : List (List Token) :=
  ((textIn payload).elim [] lines).map fun l => splitWhitespace (trim l)

/-- It begins with `MODE` or `USER_LEFT`. -/
def Announces (payload : Bytes) : Prop :=
  ∃ text, textIn payload = some text ∧
    ((splitWhitespace text).head? = some msgMode ∨ (splitWhitespace text).head? = some msgUserLeft)

theorem textIn_text {s : Str} (h : decode (asBytes s) = none) : textIn (asBytes s) = some s := by
  unfold textIn
  rw [h]
  dsimp only
  rw [fromUtf8Lossy_asBytes]

theorem wordsIn_script (ls : List ControlLine) :
    wordsIn (asBytes (ls.flatMap ControlLine.text)) = ls.map ControlLine.words := by
  unfold wordsIn
  rw [textIn_text (decode_script ls), Option.elim_some, lines_script, List.map_map]
  refine List.map_congr_left fun l _ => ?_
  rw [Function.comp_apply, trim_unwords, splitWhitespace_unwords]

/-- A text with another first word. -/
theorem not_announces {payload : Bytes} {text : Str} {w : Token} (h : textIn payload = some text)
    (hfirst : (splitWhitespace text).head? = some w) (hmode : w ≠ msgMode)
    (hleft : w ≠ msgUserLeft) : ¬ Announces payload := by
  rintro ⟨text', htext', hann⟩
  obtain rfl := Option.some.inj (h.symm.trans htext')
  rw [hfirst] at hann
  exact hann.elim (fun h => hmode (Option.some.inj h)) fun h => hleft (Option.some.inj h)

theorem not_announces_welcome (dst : SocketAddr) (cid : UInt64) (pid : UInt32) :
    ¬ Announces (welcome dst cid pid).payload := by
  obtain ⟨hdr, hkind, hdecode⟩ := decode_welcome cid pid dst
  have htext : textIn (welcome dst cid pid).payload = some (welcomeText cid pid) := by
    unfold textIn
    rw [hdecode]
    dsimp only
    rw [if_pos hkind, fromUtf8_asBytes]
  refine not_announces (w := msgWelcome) htext ?_ (by decide) (by decide)
  rw [welcomeText_eq, splitWhitespace_line]
  rfl

theorem not_announces_ping : ¬ Announces (asBytes msgPing.text) := by
  have htext : textIn (asBytes msgPing.text) = some msgPing.text := by decide
  exact not_announces (w := msgPing) htext (by rw [splitWhitespace_text, List.head?_cons])
    (by decide) (by decide)

theorem not_announces_natSeen (a : SocketAddr) :
    ¬ Announces (asBytes (line [msgNatSeen, a.token])) :=
  not_announces (w := msgNatSeen) (textIn_text (decode_eq_none_of_head (b := 0x4E) _ (by decide)))
    (by rw [splitWhitespace_line, List.head?_cons]) (by decide) (by decide)

/-- A line of `DATA` is passed on as it came, and reads as one. -/
theorem not_announces_data {text : Str} (h : Request.ofText text = .data) :
    ¬ Announces (asBytes text) := by
  obtain ⟨ws, hws⟩ := Request.words_of_data h
  have hfirst : (splitWhitespace text).head? = some msgData := by rw [hws, List.head?_cons]
  refine not_announces (textIn_text (decode_asBytes_eq_none fun hhead => ?_)) hfirst (by decide)
    (by decide)
  cases text with
  | nil => cases hhead
  | cons c text =>
      obtain rfl := Option.some.inj hhead
      obtain ⟨t, ts, hts, ht⟩ := exists_splitWhitespace_cons (c := 'O') text (by decide)
      rw [hts, List.head?_cons] at hfirst
      rw [Option.some.inj hfirst] at ht
      exact absurd ht (by decide)

/-! ## Where the names come from -/

/-- A `CONNECT` of the run names the user `n` of the channel `s`/`c`, and came from
`a`. -/
def Connected (run : List ServerStep) (s c n : Token) (a : SocketAddr) : Prop :=
  ∃ amb text natArg, ServerStep.message amb text a ∈ run ∧
    Request.ofText text = .connect s c n natArg

theorem Connected.append {run : List ServerStep} {s c n : Token} {a : SocketAddr}
    (h : Connected run s c n a) (later : List ServerStep) : Connected (run ++ later) s c n a := by
  obtain ⟨amb, text, natArg, hmem, hreq⟩ := h
  exact ⟨amb, text, natArg, List.mem_append_left later hmem, hreq⟩

/-- Every session was opened by a `CONNECT` to the channel that it is in. -/
theorem connected_members (run : List ServerStep) (s c : Token) :
    ∀ ch, (after ServerMap.step ∅ run).channel? s c = some ch →
      ∀ u ∈ ch.users, Connected run s c u.name u.addr := by
  -- by induction on the run, the last step last: a step lets a session in by its own `CONNECT`
  induction run using List.reverseRecOn with
  | nil => exact fun ch hch => nomatch hch
  | append_singleton run l ih =>
      intro ch hch u hu
      rw [after_append, after, after, channel?_step] at hch
      rcases (change_of_effect hch).session_from hu with
        ⟨ch', hch', v, hv, hsession⟩ | ⟨amb, text, src, n, natArg, rfl, hreq, hsession⟩
      · obtain ⟨hname, haddr⟩ := Prod.mk.inj hsession
        rw [← hname, ← haddr]
        exact (ih ch' hch' v hv).append [l]
      · obtain ⟨rfl, rfl⟩ := Prod.mk.inj hsession
        exact ⟨amb, text, natArg, List.mem_append_right run List.mem_cons_self, hreq⟩

/-- The step is a request that names the user. -/
def Asks (l : ServerStep) (r : Request) : Prop :=
  ∃ amb text src, l = .message amb text src ∧ Request.ofText text = r

/-- The word is an address, which it is read back as if it is an IPv4 one. -/
def Writes (addr : Token) (a : SocketAddr) : Prop :=
  addr = a.token ∧ ∀ ip port, a = .v4 ip port → SocketAddr.fromStr addr.text = some a

theorem writes_token (a : SocketAddr) : Writes a.token a := by
  refine ⟨rfl, ?_⟩
  rintro ip port rfl
  exact fromStr_toText_v4 ip port

/-- The lines that may be sent to the channel `s`/`c` in the step after a run: they
are about users who connected to it, at the addresses they connected from, or
about the one that the step itself names. -/
inductive Intended (run : List ServerStep) (l : ServerStep) (s c : Token) : List Token → Prop
  | relay : Intended run l s c [msgMode, msgRelay]
  | direct {n addr : Token} {a : SocketAddr} (hn : Connected (run ++ [l]) s c n a)
      (ha : Writes addr a) : Intended run l s c [msgMode, msgDirect, n, addr]
  | serverRelay {n : Token} (hn : (∃ a, Connected (run ++ [l]) s c n a) ∨
      Asks l (.requestRelay s c n)) : Intended run l s c [msgMode, msgServerRelay, n]
  | userLeft {n addr : Token} {a : SocketAddr} (hn : Connected (run ++ [l]) s c n a)
      (ha : Writes addr a) : Intended run l s c [msgUserLeft, n, addr]
  | userGone {n addr : Token} (hn : Asks l (.disconnect s c n) ∨ Asks l (.peerTimeout s c n))
      (ha : Writes addr (.v4 ⟨0, 0, 0, 0⟩ 0)) : Intended run l s c [msgUserLeft, n, addr]

section Told
variable {run : List ServerStep} {l : ServerStep} {s c : Token}

theorem intended_about {known : Token → SocketAddr → Prop} {x : ControlLine}
    (h : LineAbout known x) (hknown : ∀ n a, known n a → Connected (run ++ [l]) s c n a) :
    Intended run l s c x.words := by
  cases x with
  | relay => exact .relay
  | direct n a => exact .direct (hknown n a h) (writes_token a)
  | serverRelay n =>
      obtain ⟨a, ha⟩ := h
      exact .serverRelay (Or.inl ⟨a, hknown n a ha⟩)
  | userLeft n addr =>
      obtain ⟨a, ha, rfl⟩ := h
      exact .userLeft (hknown n a ha) (writes_token a)

/-- All that is sent on behalf of a channel. -/
theorem saying_told {d : Datagram}
    (hd : d ∈ l.told s c ((after ServerMap.step ∅ run).channel? s c)) :
    Saying (fun x => Intended run l s c x.words) d.payload := by
  have hmembers := connected_members run s c
  have htelling := telling_of_told hd
  generalize (after ServerMap.step ∅ run).channel? s c = before at hmembers htelling
  have hknown : ∀ {ch}, before = some ch →
      ∀ n a, AmongSessions ch.users n a → Connected (run ++ [l]) s c n a := by
    rintro ch hch n a ⟨u, hu, rfl, rfl⟩
    exact (hmembers ch hch u hu).append [l]
  cases htelling with
  | @connect amb text src n natArg _ hl hreq hd =>
      refine (scripted_connect amb _ d hd).2.mono fun x hx => intended_about hx ?_
      rintro m a (⟨rfl, rfl⟩ | hm)
      · exact ⟨amb, text, natArg, List.mem_append_right run (hl ▸ List.mem_cons_self), hreq⟩
      · cases before with
        | none =>
            obtain ⟨u, hu, -⟩ := hm
            exact absurd hu List.not_mem_nil
        | some ch => exact hknown rfl m a hm
  | disconnect hl hreq hd =>
      refine (scripted_disconnect _ _ _ d hd).2.mono fun x hx => ?_
      rcases hx with hx | rfl
      · exact intended_about hx (hknown rfl)
      · exact .userGone (Or.inl ⟨_, _, _, hl, hreq⟩) (writes_token (.v4 ⟨0, 0, 0, 0⟩ 0))
  | peerTimeout hl hreq hd =>
      refine (scripted_peerTimeout _ _ d hd).2.mono fun x hx => ?_
      rw [hx]
      exact .userGone (Or.inr ⟨_, _, _, hl, hreq⟩) (writes_token (.v4 ⟨0, 0, 0, 0⟩ 0))
  | requestRelay hl hreq hd =>
      refine (scripted_relayRequested _ _ d hd).2.mono fun x hx => ?_
      rw [hx]
      exact .serverRelay (Or.inr ⟨_, _, _, hl, hreq⟩)
  | heartbeat hl hd =>
      exact (scripted_heartbeatTold _ _ d hd).2.mono fun x hx => intended_about hx (hknown rfl)

end Told

/-- **No name adds a line or a word.**  A datagram that announces a mode or a
departure is lines that the server meant, and a client reads those lines in it,
word for word, and nothing else. -/
theorem announcements_as_meant (run : List ServerStep) (l : ServerStep) (d : Datagram)
    (hd : d ∈ (after ServerMap.step ∅ run).sent l) (hann : Announces d.payload) :
    ∃ s c, ∃ ls : List ControlLine, d.payload = asBytes (ls.flatMap ControlLine.text) ∧
      wordsIn d.payload = ls.map ControlLine.words ∧
      ∀ x ∈ ls, Intended run l s c x.words := by
  rcases mem_sent_iff.mp hd with ⟨s, c, htold⟩ | ⟨amb, text, src, -, ⟨-, rfl⟩ | ⟨hdata, hsent⟩⟩
  · refine ⟨s, c, ?_⟩
    rcases saying_told htold with ⟨dst, cid, pid, hp⟩ | hp | ⟨ls, hls, hp⟩
    · rw [hp] at hann
      exact absurd hann (not_announces_welcome dst cid pid)
    · rw [hp] at hann
      exact absurd hann not_announces_ping
    · refine ⟨ls, hp, ?_, hls⟩
      rw [hp, wordsIn_script]
  · exact absurd hann (not_announces_natSeen src)
  · rw [payload_of_mem_dataSent hsent] at hann
    exact absurd hann (not_announces_data hdata)

/-- A name with a line end and `MODE RELAY` in it is three words of a `CONNECT`: the
first names the user, and the server names that one to Ann. -/
theorem announcements_as_meant_ann :
    let ann : SocketAddr := .v4 ⟨10, 0, 0, 1⟩ 4000
    let eve : SocketAddr := .v4 ⟨10, 0, 0, 2⟩ 4000
    let run : List ServerStep := [.message ⟨0, 7⟩ "CONNECT s c ann CONE".toList ann]
    let l : ServerStep := .message ⟨1, 8⟩ "CONNECT s c eve\nMODE RELAY".toList eve
    let d : Datagram := tell ann (modeDirect ⟨"eve".toList, by decide⟩ eve)
    ∃ s c, ∃ ls : List ControlLine, d.payload = asBytes (ls.flatMap ControlLine.text) ∧
      wordsIn d.payload = ls.map ControlLine.words ∧
      ∀ x ∈ ls, Intended run l s c x.words := by
  intro ann eve run l d
  refine announcements_as_meant run l d (by decide +kernel) ⟨_, textIn_text ?_, Or.inl ?_⟩
  · exact decode_eq_none_of_head (b := 0x4D) _ (by decide)
  · exact congrArg List.head? (splitWhitespace_line _)

end NatPiercer.System
