/-
# `System.Sessions` — the session that was asked for

A client is told on its command line which server, channel and user it is for.
It writes the three into every message about its session, and the server
takes them from there by their positions.  `AskedFor` says that the two
agree: a `CONNECT` makes the session asked for and no other, and the messages
that follow name the same session.

They agree exactly if the three are words.  Where one of them is not, the
server reads others in their places.
-/
import NatPiercer.Client.Arguments
import NatPiercer.Signaling.Server
import NatPiercer.Signaling.Told

namespace NatPiercer.System

open Text Utf8 Net Proto LockProg Signaling Client

/-- The step makes the session of `n` at `src` in the channel `s`/`c`, of the kind
`nat` unless it was there, and makes no session besides. -/
def Registers (st : ServerMap) (l : ServerStep) (s c n : Token) (src : SocketAddr)
    (nat : Signaling.NatKind) : Prop :=
  (∃ ch, (st.step l).channel? s c = some ch ∧ ∃ u ∈ ch.users, u.session = (n, src) ∧
    (st.hasSession s c n src = false → u.natKind = nat)) ∧
  ∀ s' c' ch' u, (st.step l).channel? s' c' = some ch' → u ∈ ch'.users →
    (∃ ch, st.channel? s' c' = some ch ∧ ∃ v ∈ ch.users, v.session = u.session) ∨
      s' = s ∧ c' = c ∧ u.session = (n, src)

/-- What a client writes is about the session that its arguments ask for. -/
def AskedFor (serverId channel user : Str) (myNat : Client.NatKind) : Prop :=
  ∃ s c n : Token, s.text = serverId ∧ c.text = channel ∧ n.text = user ∧
    (∀ st amb src, Registers st (.message amb (connectText serverId channel user myNat) src)
      s c n src myNat.kind) ∧
    Request.ofText (hbText serverId channel user) = .hb s c n ∧
    Request.ofText (timeoutText serverId channel user) = .peerTimeout s c n ∧
    Request.ofText (requestRelayText serverId channel user) = .requestRelay s c n

/-- The server is handed the text of the `CONNECT` that is sent. -/
theorem dispatched_sendConnectMessage (serverId channel user : Str) (myNat : Client.NatKind)
    (server src : SocketAddr) (history : List Arrival)
    (hfits : byteLen (connectText serverId channel user myNat) ≤ 2048) :
    dispatched history
      ⟨.main, (sendConnectMessage serverId channel user server myNat).payload, src⟩ =
        some (connectText serverId channel user myNat) := by
  have hreceived : received (asBytes (connectText serverId channel user myNat)) =
      asBytes (connectText serverId channel user myNat) := List.take_of_length_le hfits
  have hplain : decode (asBytes (connectText serverId channel user myNat)) = none :=
    decode_eq_none_of_head (b := 0x43) _ (by decide)
  rw [dispatched_main]
  change dispatchText (received (asBytes (connectText serverId channel user myNat)))
    (received (asBytes (connectText serverId channel user myNat))) = _
  rw [hreceived, dispatchText, framed, hplain]
  exact congrArg some (fromUtf8Lossy_asBytes _)

section Registers
variable {st : ServerMap} {amb : Ambient} {text : Str} {src : SocketAddr} {s c n : Token}
  {natArg : Option Token}

theorem hasSession_eq_false :
    st.hasSession s c n src = false ↔
      ∀ x ∈ ((st.channel? s c).getD .default).users, x.isSession n src = false := by
  unfold ServerMap.hasSession
  cases st.channel? s c with
  | none => exact iff_of_true rfl fun x hx => absurd hx List.not_mem_nil
  | some ch =>
      exact List.any_eq_false.trans (forall₂_congr fun _ _ => Iff.of_eq (Bool.not_eq_true _))

/-- A `CONNECT` registers what it names. -/
theorem registers_connect (hreq : Request.ofText text = .connect s c n natArg) :
    Registers st (.message amb text src) s c n src (.ofArg natArg) := by
  have hstep : (st.step (.message amb text src)).channel? s c =
      some (((st.channel? s c).getD .default).connect amb n (.ofArg natArg) src).1 := by
    rw [channel?_step, ServerStep.effect, hreq, Request.effect, if_pos ⟨rfl, rfl⟩]
  refine ⟨⟨_, hstep, ?_⟩, fun s' c' ch' u hch' hu => ?_⟩
  · rcases session_or_new n src ((st.channel? s c).getD .default) with hsession | hnew
    · obtain ⟨x, hx, hxs⟩ := hsession
      obtain ⟨u, hu, hux⟩ :=
        (connect_of_session amb (.ofArg natArg) ⟨x, hx, hxs⟩).1.symm.session_mem hx
      obtain ⟨rfl, rfl⟩ := isSession_iff.mp hxs
      refine ⟨u, hu, hux, fun hnew => ?_⟩
      rw [hasSession_eq_false.mp hnew x hx] at hxs
      exact absurd hxs Bool.false_ne_true
    · rw [connect_users_of_new amb _ hnew]
      exact ⟨_, List.mem_append_right _ List.mem_cons_self, rfl, fun _ => rfl⟩
  · rw [channel?_step] at hch'
    refine ((change_of_effect hch').session_from hu).imp id ?_
    rintro ⟨amb', text', src', n', natArg', hl, hreq', hsession⟩
    obtain ⟨-, rfl, rfl⟩ := ServerStep.message.inj hl
    rw [hreq] at hreq'
    obtain ⟨rfl, rfl, rfl, -⟩ := Request.connect.inj hreq'
    exact ⟨rfl, rfl, hsession⟩

end Registers

/-- Words are read back where they were written, and nothing else is. -/
theorem askedFor_iff_words (serverId channel user : Str) (myNat : Client.NatKind) :
    AskedFor serverId channel user myNat ↔
      isWord serverId = true ∧ isWord channel = true ∧ isWord user = true := by
  constructor
  · rintro ⟨s, c, n, rfl, rfl, rfl, -⟩
    exact ⟨s.word, c.word, n.word⟩
  · rintro ⟨hs, hc, hn⟩
    obtain ⟨s, rfl⟩ : ∃ s : Token, s.text = serverId := ⟨⟨serverId, hs⟩, rfl⟩
    obtain ⟨c, rfl⟩ : ∃ c : Token, c.text = channel := ⟨⟨channel, hc⟩, rfl⟩
    obtain ⟨n, rfl⟩ : ∃ n : Token, n.text = user := ⟨⟨user, hn⟩, rfl⟩
    refine ⟨s, c, n, rfl, rfl, rfl, fun st amb src => ?_, ofText_hbText s c n,
      ofText_timeoutText s c n, ofText_requestRelayText s c n⟩
    rw [← ofArg_natType]
    exact registers_connect (ofText_connectText s c n myNat)

/-- The first datagram of a client, read by the main loop of the server after whatever
else, makes the session. -/
theorem registers_sendConnectMessage {serverId channel user : Str} {myNat : Client.NatKind}
    (h : AskedFor serverId channel user myNat)
    (hfits : byteLen (connectText serverId channel user myNat) ≤ 2048) (server src : SocketAddr)
    (history : List Arrival) :
    ∃ text, dispatched history
        ⟨.main, (sendConnectMessage serverId channel user server myNat).payload, src⟩ =
          some text ∧
      ∃ s c n : Token, s.text = serverId ∧ c.text = channel ∧ n.text = user ∧
        ∀ st amb, Registers st (.message amb text src) s c n src myNat.kind := by
  obtain ⟨s, c, n, hs, hc, hn, hregisters, -⟩ := h
  exact ⟨_, dispatched_sendConnectMessage serverId channel user myNat server src history hfits,
    s, c, n, hs, hc, hn, fun st amb => hregisters st amb src⟩

/-- **The session registered is the session asked for**, exactly if the server, the
channel and the user of the command line are words. -/
theorem session_asked_for_iff (argv : List Str) (args : Arguments)
    (h : parseArguments argv = some args) (myNat : Client.NatKind) :
    AskedFor args.serverId args.channel args.user myNat ↔
      isWord (argv.getD 2 []) = true ∧ isWord (argv.getD 3 []) = true ∧
        isWord (argv.getD 4 []) = true := by
  have hplaces : argv.getD 2 [] = args.serverId ∧ argv.getD 3 [] = args.channel ∧
      argv.getD 4 [] = args.user := by
    unfold parseArguments at h
    split at h
    · obtain ⟨port, -, rfl⟩ := Option.map_eq_some_iff.mp h
      exact ⟨rfl, rfl, rfl⟩
    · exact absurd h (Option.some_ne_none args).symm
  obtain ⟨hserver, hchannel, huser⟩ := hplaces
  rw [hserver, hchannel, huser]
  exact askedFor_iff_words _ _ _ myNat

/-- Ann names her channel in one word. -/
theorem session_asked_for_ann : AskedFor "lobby".toList "room".toList "ann".toList .cone :=
  (session_asked_for_iff
    ["client".toList, "10.0.0.9".toList, "lobby".toList, "room".toList, "ann".toList,
      "4000".toList]
    ⟨"10.0.0.9".toList, "lobby".toList, "room".toList, "ann".toList, 4000⟩ rfl .cone).mpr
      ⟨by decide, by decide, by decide⟩

/-- And in two, she is the user `room` of the channel `my`. -/
theorem session_of_two_words :
    ¬ ∀ (argv : List Str) (args : Arguments), parseArguments argv = some args →
      ∀ myNat, AskedFor args.serverId args.channel args.user myNat := by
  intro h
  have hasked := h
    ["client".toList, "10.0.0.9".toList, "lobby".toList, "my room".toList, "ann".toList,
      "4000".toList]
    ⟨"10.0.0.9".toList, "lobby".toList, "my room".toList, "ann".toList, 4000⟩ rfl .cone
  exact absurd ((askedFor_iff_words _ _ _ _).mp hasked).2.1 (by decide)

example : Request.ofText (connectText "lobby".toList "my room".toList "ann".toList .cone) =
    .connect ⟨"lobby".toList, by decide⟩ ⟨"my".toList, by decide⟩ ⟨"room".toList, by decide⟩
      (some ⟨"ann".toList, by decide⟩) := by
  decide

end NatPiercer.System
