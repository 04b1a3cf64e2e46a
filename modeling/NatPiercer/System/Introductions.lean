/-
# `System.Introductions` — whom the server introduces

Of what the server sends, only its lines `MODE DIRECT <name> <addr>` bring
anybody into a table.  All that it writes is scripted, and each such line is
about a member, at its address.  So whoever is introduced on behalf of a
channel is a member of it (`introduces_told`).
-/
import NatPiercer.Client.Keepalive
import NatPiercer.Client.Relaying
import NatPiercer.System.Joint
import NatPiercer.System.Scripts

namespace NatPiercer.System

open Text Utf8 Net Proto LockProg Signaling Client

/-! ## What a client hears in what the server writes -/

/-- What a client hears in a control line. -/
def asHeard : ControlLine → Client.Heard
  | .relay => .relay
  | .direct name addr => .direct name addr.token
  | .serverRelay name => .serverRelay name
  | .userLeft name _ => .userLeft name

/-- Several words, the first of which is not `DATA`. -/
theorem ofLine_unwords {ws : List Token} (hone : ∀ t, ws ≠ [t]) (hdata : ws.head? ≠ some msgData) :
    Heard.ofLine (trim (unwords ws)) = .ofWords ws := by
  have hne := unwords_ne_text hone
  unfold Heard.ofLine
  rw [trim_unwords, if_neg (hne _), if_neg (hne _), if_neg (hne _),
    startsWith_unwords_dataPrefix hdata, if_neg Bool.false_ne_true, splitWhitespace_unwords]

theorem ofLine_words (l : ControlLine) : Heard.ofLine (trim (unwords l.words)) = asHeard l := by
  rw [ofLine_unwords (words_ne_single l) (head?_words l)]
  cases l <;> rfl

theorem heardIn_text {s : Str} (h : decode (asBytes s) = none) : heardIn (asBytes s) = heard s := by
  unfold heardIn
  rw [h]
  dsimp only
  rw [fromUtf8Lossy_asBytes]

theorem heardIn_script (ls : List ControlLine) :
    heardIn (asBytes (ls.flatMap ControlLine.text)) = ls.map asHeard := by
  rw [heardIn_text (decode_script ls), heard, lines_script, List.map_map]
  exact List.map_congr_left fun l _ => ofLine_words l

theorem heardIn_welcome (dst : SocketAddr) (cid : UInt64) (pid : UInt32) :
    heardIn (welcome dst cid pid).payload = [.nothing] := by
  obtain ⟨hdr, hkind, hdecode⟩ := decode_welcome cid pid dst
  have hlines : lines (line (welcomeWords cid pid)) = [unwords (welcomeWords cid pid)] :=
    lines_line _
  unfold heardIn
  rw [hdecode]
  dsimp only
  rw [hkind]
  dsimp only
  rw [fromUtf8_asBytes, Option.elim_some, heard, welcomeText_eq, hlines, List.map_cons,
    List.map_nil, ofLine_unwords]
  · rfl
  · intro t ht
    simp [welcomeWords] at ht
  · exact show some msgWelcome ≠ some msgData by decide

theorem heardIn_natSeen (a : SocketAddr) :
    heardIn (asBytes (line [msgNatSeen, a.token])) = [.nothing] := by
  have hdecode : decode (asBytes (line [msgNatSeen, a.token])) = none :=
    decode_eq_none_of_head (b := 0x4E) _ (by decide)
  rw [heardIn_text hdecode, heard, lines_line,
    List.map_cons, List.map_nil, ofLine_unwords]
  · rfl
  · intro t ht
    simp at ht
  · exact show some msgNatSeen ≠ some msgData by decide

theorem heardIn_data {typed : TypedLine} {user : Token} {payload : Bytes}
    (h : Carries (typed.data user) payload) : heardIn payload = [.data user.text] := by
  have hne : ∀ t : Token, startsWith t.text dataPrefix = false → typed.data user ≠ t.text :=
    fun t ht => data_ne_text typed user ht
  have hsplit := splitn_data typed user []
  rw [List.append_nil] at hsplit
  unfold heardIn
  rw [decode_of_carries h]
  dsimp only
  rw [heard, lines_of_carries h, List.map_cons, List.map_nil, trim_data, Heard.ofLine,
    if_neg (hne _ (by decide)), if_neg (hne _ (by decide)), if_neg (hne _ (by decide)),
    if_pos (startsWith_data typed user), hsplit]

/-! ## Introductions -/

/-- Whoever is introduced is `known`, by the name and at the address. -/
def Introduces (known : Token → SocketAddr → Prop) (ds : List Datagram) : Prop :=
  ∀ d ∈ ds, ∀ n a, .direct n a ∈ heardIn d.payload → ∃ b, known n b ∧ a = b.token

/-- Who is introduced in what the server writes, has a line there. -/
theorem direct_of_saying {ok : ControlLine → Prop} {payload : Bytes} (h : Saying ok payload)
    {n a : Token} (ha : .direct n a ∈ heardIn payload) : ∃ b, ok (.direct n b) ∧ a = b.token := by
  rcases h with ⟨dst, cid, pid, rfl⟩ | rfl | ⟨ls, hls, rfl⟩
  · rw [heardIn_welcome] at ha
    exact absurd (List.mem_singleton.mp ha) (by simp)
  · have hheard : heardIn (asBytes msgPing.text) = [.ping] := by decide
    rw [hheard] at ha
    exact absurd (List.mem_singleton.mp ha) (by simp)
  · rw [heardIn_script] at ha
    obtain ⟨l, hl, hla⟩ := List.mem_map.mp ha
    cases l with
    | direct m b =>
        injection hla with hm hb
        exact ⟨b, hm ▸ hls _ hl, hb.symm⟩
    | relay | serverRelay m | userLeft m b => exact absurd hla (by simp [asHeard])

/-! ## A step -/

section Step
variable {home : SocketAddr → Option (Token × Token × Token)} {st : ServerMap} {s c : Token}
  {l : ServerStep}

/-- **On behalf of a channel, clients are introduced whose home it is.** -/
theorem introduces_told (h : Resident home st) (hl : ConnectsFrom home l) (hno : NoDisconnect l) :
    Introduces (fun n a => home a = some (s, c, n)) (l.told s c (st.channel? s c)) := by
  intro d hd n a ha
  have hall := resident_default (s := s) (c := c) h
  have htelling := telling_of_told hd
  generalize ho : st.channel? s c = before at htelling hall
  cases htelling with
  | @connect amb text src m natArg _ hlm hreq hd =>
      obtain ⟨b, hb, hab⟩ := direct_of_saying (scripted_connect amb _ d hd).2 ha
      refine ⟨b, ?_, hab⟩
      rcases hb with ⟨rfl, rfl⟩ | ⟨u, hu, rfl, rfl⟩
      · exact hl hlm hreq
      · exact hall u hu
  | disconnect hlm hreq hd => exact absurd hreq (hno hlm)
  | peerTimeout hlm hreq hd =>
      obtain ⟨b, hb, -⟩ := direct_of_saying (scripted_peerTimeout _ _ d hd).2 ha
      cases hb
  | requestRelay hlm hreq hd =>
      obtain ⟨b, hb, -⟩ := direct_of_saying (scripted_relayRequested _ _ d hd).2 ha
      cases hb
  | heartbeat hlm hd =>
      obtain ⟨b, ⟨u, hu, rfl, rfl⟩, hab⟩ := direct_of_saying (scripted_heartbeatTold _ _ d hd).2 ha
      exact ⟨u.addr, hall u hu, hab⟩

end Step

end NatPiercer.System
