/-
# `Client.Framing` — a text, with and without a frame

`main_loop` reads a text that came in a control packet by
`process_incoming_message` alone.  The same text without a frame is also
answered, when the server has sent it, or counts as contact with a peer, when
a peer has; and then `is_active` is recomputed.  The setup makes no such
difference.

So the two agree exactly when what is left out would have changed nothing:
the flag is what it should be at the end; a text of the server does not end
by telling this client to send through it, or not to, unless it does so
already; and the peer that has sent a text is in contact already, or one of
its lines makes up for it.
-/
import NatPiercer.Client.Relaying
import NatPiercer.Client.Setup

namespace NatPiercer.Client

open Text Utf8 Net Proto Signaling

/-! ## What is compared -/

/-- The numbers of the client are all that may differ. -/
structure SameEffect (x y : Client × List Datagram) : Prop where
  peers : x.1.peers = y.1.peers
  isRelay : x.1.isRelay = y.1.isRelay
  mirrors : x.1.channelHasServerRelays = y.1.channelHasServerRelays
  sendViaServer : x.1.sendViaServer = y.1.sendViaServer
  paused : x.1.paused = y.1.paused
  isActive : x.1.isActive = y.1.isActive
  sent : x.2 = y.2

/-- The client under other numbers. -/
def numbered (cid : UInt64) (pid : UInt32) (me : Client) : Client :=
  { me with channelId := cid, myPeerId := pid }

section Numbered
variable (now : Instant) (server src : SocketAddr) (cid : UInt64) (pid : UInt32)

theorem handle_numbered (line : Str) (me : Client) (h : Heard) :
    h.handle now server src line (me.numbered cid pid) =
      ((h.handle now server src line me).1.numbered cid pid,
        (h.handle now server src line me).2) := by
  cases h with
  | serverRelay n =>
      change ((me.numbered cid pid).handleModeServerRelay n, _) =
        ((me.handleModeServerRelay n).numbered cid pid, _)
      unfold handleModeServerRelay numbered
      dsimp only
      split_ifs <;> rfl
  | direct n a =>
      change ((me.numbered cid pid).handleModeDirect now n a, _) =
        ((me.handleModeDirect now n a).numbered cid pid, _)
      unfold handleModeDirect numbered
      cases SocketAddr.fromStr a.text with
      | none => rfl
      | some addr =>
          dsimp only
          split_ifs <;> rfl
  | ping | pong | holePunch | data _ | relay | userLeft _ | nothing => rfl

/-- No line looks at the numbers. -/
theorem processLines_numbered (ls : List Str) (me : Client) :
    processLines now server src ls (me.numbered cid pid) =
      ((processLines now server src ls me).1.numbered cid pid,
        (processLines now server src ls me).2) := by
  induction ls generalizing me with
  | nil => rfl
  | cons line ls ih =>
      rw [processLines, processLines]
      split_ifs
      · exact ih me
      · dsimp only
        rw [processLine_eq, processLine_eq, handle_numbered]
        dsimp only
        rw [ih]

end Numbered

/-! ## From the server -/

/-- The server relays for somebody other than `user`. -/
def Heard.mirrored (user : Str) : Heard → Bool
  | serverRelay n => n.text ≠ user
  | _ => false

def Reply.mirrored (user : Str) : Reply → Bool
  | serverRelay n => n.text ≠ user
  | stop | nothing => false

/-- What `user` is told: to send through the server, or not to. -/
def Reply.order (user : Str) : Reply → Option Bool
  | stop => some false
  | serverRelay n => if n.text = user then some true else none
  | nothing => none

/-- What they are answered by. -/
def answers (s : Str) : List Reply := (lines s).map fun line => Reply.ofLine (trim line)

section Server
variable (now : Instant) (server src : SocketAddr)

theorem handle_sending (line : Str) (me : Client) (h : Heard) :
    (h.handle now server src line me).1.sendViaServer = me.sendViaServer ∧
      (h.handle now server src line me).1.paused = me.paused := by
  cases h with
  | direct n a =>
      change (me.handleModeDirect now n a).sendViaServer = _ ∧
        (me.handleModeDirect now n a).paused = _
      unfold handleModeDirect
      split
      · split_ifs <;> exact ⟨rfl, rfl⟩
      · exact ⟨rfl, rfl⟩
  | serverRelay n =>
      change (me.handleModeServerRelay n).sendViaServer = _ ∧
        (me.handleModeServerRelay n).paused = _
      unfold handleModeServerRelay
      split_ifs <;> exact ⟨rfl, rfl⟩
  | ping | pong | holePunch | data _ | relay | userLeft _ | nothing => exact ⟨rfl, rfl⟩

theorem processLines_sending (ls : List Str) (me : Client) :
    (processLines now server src ls me).1.sendViaServer = me.sendViaServer ∧
      (processLines now server src ls me).1.paused = me.paused := by
  rw [processLines_fst]
  induction ls generalizing me with
  | nil => exact ⟨rfl, rfl⟩
  | cons line ls ih =>
      obtain ⟨hvia, hpaused⟩ := handle_sending now server src (trim line) me
        (Heard.ofLine (trim line))
      obtain ⟨hvia', hpaused'⟩ := ih (me.hear now server src line)
      exact ⟨hvia'.trans hvia, hpaused'.trans hpaused⟩

theorem reply_spec (me : Client) (r : Reply) :
    (me.reply r).user = me.user ∧ (me.reply r).peers = me.peers ∧
    (me.reply r).isRelay = me.isRelay ∧
    (me.reply r).channelHasServerRelays =
      (me.channelHasServerRelays || (me.isRelay && r.mirrored me.user)) ∧
    (me.reply r).sendViaServer = (r.order me.user).getD me.sendViaServer ∧
    (me.reply r).paused = (r.order me.user).getD me.paused := by
  cases r with
  | stop => simp [reply, Reply.mirrored, Reply.order]
  | nothing => simp [reply, Reply.mirrored, Reply.order]
  | serverRelay who =>
      unfold reply Reply.mirrored Reply.order
      dsimp only
      by_cases hself : who.text = me.user
      · simp [hself]
      · cases hrelay : me.isRelay <;> simp [hself, hrelay]

/-- The last order counts. -/
theorem replies_spec (rs : List Reply) (me : Client) :
    (after reply me rs).peers = me.peers ∧ (after reply me rs).isRelay = me.isRelay ∧
    (after reply me rs).channelHasServerRelays =
      (me.channelHasServerRelays || (me.isRelay && rs.any (Reply.mirrored me.user))) ∧
    (after reply me rs).sendViaServer =
      ((rs.filterMap (Reply.order me.user)).getLast?).getD me.sendViaServer ∧
    (after reply me rs).paused =
      ((rs.filterMap (Reply.order me.user)).getLast?).getD me.paused := by
  induction rs generalizing me with
  | nil => simp [after]
  | cons r rs ih =>
      obtain ⟨huser, hpeers, hrelay, hmirrors, hvia, hpaused⟩ := reply_spec me r
      obtain ⟨hpeers', hrelay', hmirrors', hvia', hpaused'⟩ := ih (me.reply r)
      have hlast : ∀ b : Bool, ((rs.filterMap (Reply.order me.user)).getLast?).getD
          ((r.order me.user).getD b) =
            (((r :: rs).filterMap (Reply.order me.user)).getLast?).getD b := by
        intro b
        rw [List.filterMap_cons]
        cases r.order me.user with
        | none => rfl
        | some x =>
            rw [List.getLast?_cons, Option.getD_some, Option.getD_some]
      rw [after, hpeers', hrelay', hmirrors', hvia', hpaused', huser, hpeers, hrelay, hmirrors,
        hvia, hpaused, hlast, hlast, List.any_cons, Bool.or_assoc, Bool.and_or_distrib_left]
      exact ⟨rfl, rfl, rfl, rfl, rfl⟩

theorem handle_mirrors (line : Str) (me : Client) (h : Heard) :
    (h.handle now server src line me).1.channelHasServerRelays =
      (me.channelHasServerRelays || (me.isRelay && h.mirrored me.user)) := by
  cases h with
  | direct n a =>
      refine (handleModeDirect_flags now me n a).2.2.trans ?_
      change _ = (me.channelHasServerRelays || (me.isRelay && false))
      rw [Bool.and_false, Bool.or_false]
  | serverRelay n =>
      change (me.handleModeServerRelay n).channelHasServerRelays = _
      unfold handleModeServerRelay Heard.mirrored
      by_cases hself : n.text = me.user <;> simp [hself]
  | ping | pong | holePunch | data _ | relay | userLeft _ | nothing =>
      change _ = (me.channelHasServerRelays || (me.isRelay && false))
      rw [Bool.and_false, Bool.or_false]
      rfl

/-- Only what comes after the client has become a relay is noted. -/
theorem processLines_mirrors (ls : List Str) (me : Client) :
    (processLines now server src ls me).1.channelHasServerRelays =
      (me.channelHasServerRelays ||
        if me.isRelay then (ls.map fun l => Heard.ofLine (trim l)).any (Heard.mirrored me.user)
        else ((ls.map fun l => Heard.ofLine (trim l)).dropWhile (· ≠ .relay)).any
          (Heard.mirrored me.user)) := by
  rw [processLines_fst]
  induction ls generalizing me with
  | nil => cases me.isRelay <;> exact (Bool.or_false _).symm
  | cons line ls ih =>
      have huser := handle_user now server src (trim line) me (Heard.ofLine (trim line))
      have hrelay := handle_isRelay now server src (trim line) me (Heard.ofLine (trim line))
      have hmirrors := handle_mirrors now server src (trim line) me (Heard.ofLine (trim line))
      rw [after, ih, hear, huser, hrelay, hmirrors, List.map_cons]
      cases hme : me.isRelay with
      | true => simp [Bool.or_assoc]
      | false =>
          by_cases hcall : Heard.ofLine (trim line) = .relay
          · simp [hcall, Heard.mirrored]
          · simp [hcall]

/-- What is answered as `MODE SERVER_RELAY` has been read as that before. -/
theorem ofLine_of_reply {line : Str} {n : Token} (h : Reply.ofLine line = .serverRelay n) :
    Heard.ofLine line = .serverRelay n := by
  unfold Reply.ofLine at h
  split_ifs at h with hstop hstart
  obtain ⟨rest, rfl⟩ := List.isPrefixOf_iff_prefix.mp hstart
  have hwords : splitWhitespace (unwords [msgMode, msgServerRelay] ++ [' '] ++ rest) =
      msgMode :: msgServerRelay :: splitWhitespace rest := by
    rw [List.append_assoc, List.singleton_append, splitWhitespace_append_cons _ _ (by decide),
      splitWhitespace_unwords]
    rfl
  have hne : ∀ t : Token, unwords [msgMode, msgServerRelay] ++ [' '] ++ rest ≠ t.text := by
    intro t ht
    rw [ht, splitWhitespace_text] at hwords
    simp at hwords
  have hdata : startsWith (unwords [msgMode, msgServerRelay] ++ [' '] ++ rest) dataPrefix =
      false := by
    refine Bool.eq_false_iff.mpr fun hstart => ?_
    have hhead := head?_of_dataPrefix hstart
    rw [hwords] at hhead
    exact absurd (Option.some.inj hhead) (by decide)
  rw [Heard.ofLine, if_neg (hne _), if_neg (hne _), if_neg (hne _), hdata,
    if_neg Bool.false_ne_true, hwords]
  rw [hwords] at h
  cases hrest : splitWhitespace rest with
  | nil =>
      rw [hrest] at h
      exact absurd h (by simp)
  | cons who args =>
      rw [hrest] at h
      obtain rfl : who = n := by simpa using h
      rfl

theorem mirrored_of_reply {user s : Str} (h : (answers s).any (Reply.mirrored user) = true) :
    (heard s).any (Heard.mirrored user) = true := by
  obtain ⟨r, hr, hmirrored⟩ := List.any_eq_true.mp h
  obtain ⟨line, hline, rfl⟩ := List.mem_map.mp hr
  refine List.any_eq_true.mpr ⟨_, List.mem_map_of_mem hline, ?_⟩
  cases hreply : Reply.ofLine (trim line) with
  | serverRelay n =>
      rw [hreply] at hmirrored
      rw [ofLine_of_reply hreply]
      exact hmirrored
  | stop =>
      rw [hreply] at hmirrored
      exact absurd hmirrored Bool.false_ne_true
  | nothing =>
      rw [hreply] at hmirrored
      exact absurd hmirrored Bool.false_ne_true

end Server

/-- What a text of the server says that only its answer would do is so already:
the last order of the text is followed, and a client that becomes a relay by
it hears afterwards, if at all, for whom the server relays. -/
def AgreesAsServer (s : Str) (me : Client) : Prop :=
  (∀ b, ((answers s).filterMap (Reply.order me.user)).getLast? = some b →
    me.sendViaServer = b ∧ me.paused = b) ∧
  (me.acts = true ∨ calls s = false ∨ (answers s).any (Reply.mirrored me.user) = false ∨
    ((heard s).dropWhile (· ≠ .relay)).any (Heard.mirrored me.user) = true)

section Server
variable (now : Instant) (server src : SocketAddr) (s : Str) (me : Client)

/-- The answer notes nothing that has not been noted, exactly if … -/
theorem mirrors_agree_iff :
    let me' := (me.processIncomingMessage now server s src).1
    me'.channelHasServerRelays =
        (me'.channelHasServerRelays || (me'.isRelay && (answers s).any (Reply.mirrored me.user))) ↔
      (me.acts = true ∨ calls s = false ∨ (answers s).any (Reply.mirrored me.user) = false ∨
        ((heard s).dropWhile (· ≠ .relay)).any (Heard.mirrored me.user) = true) := by
  intro me'
  have hrelay : me'.isRelay = (me.isRelay || calls s) := processLines_isRelay now server src _ me
  have hmirrors : me'.channelHasServerRelays = (me.channelHasServerRelays ||
      if me.isRelay then (heard s).any (Heard.mirrored me.user)
      else ((heard s).dropWhile (· ≠ .relay)).any (Heard.mirrored me.user)) :=
    processLines_mirrors now server src (lines s) me
  have hread : (answers s).any (Reply.mirrored me.user) = true →
      (heard s).any (Heard.mirrored me.user) = true := mirrored_of_reply
  rw [hrelay, hmirrors, acts]
  generalize (answers s).any (Reply.mirrored me.user) = answered at hread ⊢
  generalize (heard s).any (Heard.mirrored me.user) = noted at hread ⊢
  generalize ((heard s).dropWhile (· ≠ .relay)).any (Heard.mirrored me.user) = notedLate
  -- only truth values are left
  cases me.isRelay with
  | true => cases answered <;> simp [hread]
  | false => cases me.channelHasServerRelays <;> cases calls s <;> cases answered <;> simp

theorem agreesAsServer_iff :
    let X := me.processIncomingMessage now server s src
    SameEffect X ((X.1.processServerResponse s).updateRelayIsActive, X.2) ↔
      me.isActive = (me.acts || calls s) ∧ AgreesAsServer s me := by
  intro X
  set me' := X.1.processServerResponse s with hme'
  set order := ((answers s).filterMap (Reply.order me.user)).getLast? with horder
  have hreplies : me' = after reply X.1 (answers s) := by
    rw [hme', processServerResponse_eq, answers, after_map]
  obtain ⟨hpeers, hrelay, hmirrors, hvia, hpaused⟩ := replies_spec (answers s) X.1
  obtain ⟨hviaX, hpausedX⟩ : X.1.sendViaServer = me.sendViaServer ∧ X.1.paused = me.paused :=
    processLines_sending now server src (lines s) me
  have huserX : X.1.user = me.user := processLines_user now server src me (lines s)
  have hactiveX : X.1.isActive = me.isActive := processLines_isActive now server src me (lines s)
  have hacts : me'.acts = (me.acts || calls s) :=
    (processServerResponse_acts s X.1).trans (processIncomingMessage_acts now server src s me)
  have hnoted := mirrors_agree_iff now server src s me
  rw [← hreplies] at hpeers hrelay hmirrors hvia hpaused
  rw [huserX] at hmirrors hvia hpaused
  rw [hviaX] at hvia
  rw [hpausedX] at hpaused
  have hlast : ∀ b : Bool, b = order.getD b ↔ ∀ x, order = some x → b = x := by
    intro b
    cases order with
    | none => exact iff_of_true rfl fun x hx => absurd hx.symm (Option.some_ne_none x)
    | some y => exact ⟨fun h x hx => h.trans (Option.some.inj hx), fun h => h y rfl⟩
  constructor
  · intro h
    have hviaEq : me.sendViaServer = order.getD me.sendViaServer :=
      hviaX.symm.trans (h.sendViaServer.trans hvia)
    have hpausedEq : me.paused = order.getD me.paused :=
      hpausedX.symm.trans (h.paused.trans hpaused)
    have hactive : me.isActive = me'.acts := hactiveX.symm.trans h.isActive
    have hmirrorsEq : X.1.channelHasServerRelays = me'.channelHasServerRelays := h.mirrors
    rw [hmirrors] at hmirrorsEq
    refine ⟨hactive.trans hacts, fun b hb => ?_, hnoted.mp hmirrorsEq⟩
    exact ⟨(hlast _).mp hviaEq b hb, (hlast _).mp hpausedEq b hb⟩
  · rintro ⟨hactive, hboth, hlate⟩
    refine ⟨hpeers.symm, hrelay.symm, (hnoted.mpr hlate).trans hmirrors.symm, ?_, ?_, ?_, rfl⟩
    · exact hviaX.trans (((hlast _).mpr fun b hb => (hboth b hb).1).trans hvia.symm)
    · exact hpausedX.trans (((hlast _).mpr fun b hb => (hboth b hb).2).trans hpaused.symm)
    · exact hactiveX.trans (hactive.trans hacts.symm)

end Server

/-! ## From a peer -/

/-- What a line does for the entry of the address it comes from, when that is one
of `n`, `first` of its name or not: the peer has been heard of. -/
def Heard.refreshes (n : Token) (first : Bool) : Heard → Bool
  | pong | holePunch => true
  | data sender => first && decide (n.text = sender)
  | _ => false

/-- It counts as connected. -/
def Heard.connects (user : Str) (n : Token) (first : Bool) : Heard → Bool
  | holePunch => true
  | data sender => first && decide (n.text = sender)
  | serverRelay m => first && decide (m = n ∧ m.text ≠ user)
  | _ => false

/-- The server relays for it. -/
def Heard.marks (user : Str) (n : Token) (first : Bool) : Heard → Bool
  | serverRelay m => first && decide (m = n ∧ m.text ≠ user)
  | _ => false

/-- The entry after some lines. -/
def touched (now : Instant) (user : Str) (n : Token) (first : Bool) (hs : List Heard)
    (e : PeerInfo) : PeerInfo :=
  { e with
    lastPong := if hs.any (Heard.refreshes n first) then now else e.lastPong
    connected := e.connected || hs.any (Heard.connects user n first)
    useServerRelay := e.useServerRelay || hs.any (Heard.marks user n first)
    relayRequested := e.relayRequested || hs.any (Heard.marks user n first) }

/-- The table holds `e` between `pre` and `post`. -/
def around (pre : List PeerInfo) (e : PeerInfo) (post : List PeerInfo) (me : Client) : Client :=
  { me with peers := pre ++ e :: post }

/-- Somebody called `n` is listed. -/
def listsName (n : Token) (ps : List PeerInfo) : Bool := decide (n ∈ ps.map PeerInfo.username)

/-- The first entry of a name is changed, which is that of `n` if none of the
entries before it is. -/
theorem modifyFirst_around {n : Token} {q : Token → Bool} {f : PeerInfo → PeerInfo}
    (hone : ∀ t, q n = true → q t = true → t = n)
    (hf : ∀ p, (f p).addr = p.addr ∧ (f p).username = p.username) (pre post : List PeerInfo) :
    ∃ pre' post', pre'.map PeerInfo.addr = pre.map PeerInfo.addr ∧
      listsName n pre' = listsName n pre ∧
      ∀ e : PeerInfo, e.username = n →
        Vec.modifyFirst (fun p => q p.username) f (pre ++ e :: post) =
          pre' ++ (if (!listsName n pre && q n) = true then f e else e) :: post' := by
  cases hany : pre.any fun p => q p.username with
  | true =>
      refine ⟨Vec.modifyFirst (fun p => q p.username) f pre, post,
        Vec.map_modifyFirst (fun p => (hf p).1) pre, ?_, fun e he => ?_⟩
      · rw [listsName, Vec.map_modifyFirst (fun p => (hf p).2) pre, listsName]
      · have hnot : (!listsName n pre && q n) = false := by
          cases hn : q n with
          | false => exact Bool.and_false _
          | true =>
              obtain ⟨p, hp, hpn⟩ := List.any_eq_true.mp hany
              have hmem : n ∈ pre.map PeerInfo.username :=
                List.mem_map.mpr ⟨p, hp, hone _ hn hpn⟩
              rw [listsName, decide_eq_true hmem]
              rfl
        rw [Vec.modifyFirst_append, hany, if_pos rfl, hnot, if_neg Bool.false_ne_true]
  | false =>
      have hnames : ∀ p ∈ pre, q p.username = false := by simpa using hany
      cases hn : q n with
      | false =>
          refine ⟨pre, Vec.modifyFirst (fun p => q p.username) f post, rfl, rfl,
            fun e he => ?_⟩
          rw [Vec.modifyFirst_append, hany, if_neg Bool.false_ne_true, Vec.modifyFirst, he, hn,
            Bool.and_false, if_neg Bool.false_ne_true, if_neg Bool.false_ne_true]
      | true =>
          refine ⟨pre, post, rfl, rfl, fun e he => ?_⟩
          have hfirst : listsName n pre = false := by
            refine decide_eq_false fun hmem => ?_
            obtain ⟨p, hp, rfl⟩ := List.mem_map.mp hmem
            rw [hnames p hp] at hn
            exact Bool.false_ne_true hn
          rw [Vec.modifyFirst_append, hany, if_neg Bool.false_ne_true, Vec.modifyFirst, he, hn,
            hfirst]
          rfl

section Around
variable (now : Instant) (server src : SocketAddr) (line : Str)

/-- The lines that do nothing to the entry. -/
theorem touched_quiet {user : Str} {n : Token} {first : Bool} {h : Heard}
    (hrefreshes : h.refreshes n first = false) (hconnects : h.connects user n first = false)
    (hmarks : h.marks user n first = false) (e : PeerInfo) :
    touched now user n first [h] e = e := by
  simp [touched, hrefreshes, hconnects, hmarks]

theorem addr_ne_of_map_eq {pre pre' : List PeerInfo}
    (haddrs : pre'.map PeerInfo.addr = pre.map PeerInfo.addr) (hpre : ∀ p ∈ pre, p.addr ≠ src) :
    ∀ p ∈ pre', p.addr ≠ src := by
  intro p hp hsrc
  have hmem : src ∈ pre'.map PeerInfo.addr := hsrc ▸ List.mem_map_of_mem hp
  rw [haddrs] at hmem
  obtain ⟨q, hq, hqsrc⟩ := List.mem_map.mp hmem
  exact hpre q hq hqsrc

/-- What is done by address is done to the entry. -/
theorem touchAddr_around {pre : List PeerInfo} (post : List PeerInfo) (me : Client) {e : PeerInfo}
    (hpre : ∀ p ∈ pre, p.addr ≠ src) (he : e.addr = src) (f : PeerInfo → PeerInfo) :
    (me.around pre e post).touchAddr src f = me.around pre (f e) post := by
  have hnone : (pre.any fun p => decide (p.addr = src)) = false := by
    simpa using hpre
  unfold touchAddr around
  dsimp only
  rw [Vec.modifyFirst_append, hnone, Vec.modifyFirst, if_pos (decide_eq_true he)]
  rfl

/-- What a line makes of the client when `e` is between `pre` and `post`: its own of the
entry, and of the rest what the rest decides. -/
def ActsAround (n : Token) (pre post : List PeerInfo) (me : Client) (h : Heard) : Prop :=
  ∃ (me' : Client) (pre' post' : List PeerInfo), (∀ p ∈ pre', p.addr ≠ src) ∧
    me'.user = me.user ∧ listsName n pre' = listsName n pre ∧
    ∀ e, e.addr = src → e.username = n →
      (h.handle now server src line (me.around pre e post)).1 =
        me'.around pre' (touched now me.user n (!listsName n pre) [h] e) post'

section Lines
variable {n : Token} {pre : List PeerInfo} (post : List PeerInfo) (me : Client)
  (hpre : ∀ p ∈ pre, p.addr ≠ src)
include hpre

theorem data_around (sender : Str) :
    ActsAround now server src line n pre post me (.data sender) := by
  obtain ⟨pre', post', haddrs, hlists, hmodify⟩ := modifyFirst_around (n := n)
    (q := fun t => decide (t.text = sender)) (f := ensureConnected now)
    (fun t hn ht => Token.ext ((of_decide_eq_true ht).trans (of_decide_eq_true hn).symm))
    (fun _ => ⟨rfl, rfl⟩) pre post
  refine ⟨me, pre', post', addr_ne_of_map_eq src haddrs hpre, rfl, hlists, fun e _ hname => ?_⟩
  change (me.around pre e post).markPeerConnectedByName now sender = _
  unfold markPeerConnectedByName around
  dsimp only
  rw [hmodify e hname]
  cases hfirst : (!listsName n pre && decide (n.text = sender)) <;>
    simp [touched, Heard.refreshes, Heard.connects, Heard.marks, ensureConnected, hfirst]

theorem serverRelay_around (m : Token) :
    ActsAround now server src line n pre post me (.serverRelay m) := by
  by_cases hself : m.text = me.user
  · refine ⟨me, pre, post, hpre, rfl, rfl, fun e _ _ => ?_⟩
    rw [touched_quiet now rfl (by simp [Heard.connects, hself]) (by simp [Heard.marks, hself])]
    change (me.around pre e post).handleModeServerRelay m = _
    rw [handleModeServerRelay, if_pos (show m.text = (me.around pre e post).user from hself)]
  · obtain ⟨pre', post', haddrs, hlists, hmodify⟩ := modifyFirst_around (n := n)
      (q := fun t => decide (t = m))
      (f := fun p => { p with useServerRelay := true, connected := true, relayRequested := true })
      (fun t hn ht => (of_decide_eq_true ht).trans (of_decide_eq_true hn).symm)
      (fun _ => ⟨rfl, rfl⟩) pre post
    refine ⟨{ me with channelHasServerRelays := me.channelHasServerRelays || me.isRelay }, pre',
      post', addr_ne_of_map_eq src haddrs hpre, rfl, hlists, fun e _ hname => ?_⟩
    change (me.around pre e post).handleModeServerRelay m = _
    rw [handleModeServerRelay, if_neg (show ¬ m.text = (me.around pre e post).user from hself)]
    unfold around
    dsimp only
    rw [hmodify e hname]
    have hconnects : (Heard.serverRelay m).connects me.user n (!listsName n pre) =
        (!listsName n pre && decide (n = m)) := by
      simp [Heard.connects, hself, eq_comm]
    have hmarks : (Heard.serverRelay m).marks me.user n (!listsName n pre) =
        (!listsName n pre && decide (n = m)) := hconnects
    have hrefreshes : (Heard.serverRelay m).refreshes n (!listsName n pre) = false := rfl
    cases hfirst : (!listsName n pre && decide (n = m)) <;>
      simp [touched, hrefreshes, hconnects, hmarks, hfirst]

omit hpre in
variable (pre) in
/-- An address that is new comes last. -/
theorem handleModeDirect_around (m a : Token) :
    ∃ post', ∀ e, e.addr = src →
      (me.around pre e post).handleModeDirect now m a = me.around pre e post' := by
  unfold handleModeDirect
  cases SocketAddr.fromStr a.text with
  | none => exact ⟨post, fun e _ => rfl⟩
  | some addr =>
      dsimp only
      by_cases hself : m.text = me.user
      · exact ⟨post, fun e _ => if_pos hself⟩
      · have hnot : ∀ e, ¬ m.text = (me.around pre e post).user := fun _ => hself
        have hany : ∀ e : PeerInfo, e.addr = src →
            ((me.around pre e post).peers.any fun p => p.addr = addr) =
              ((pre.any fun p => p.addr = addr) || (decide (src = addr) ||
                post.any fun p => p.addr = addr)) := by
          intro e he
          rw [around, List.any_append, List.any_cons, he]
        cases hknown : ((pre.any fun p => decide (p.addr = addr)) || (decide (src = addr) ||
            post.any fun p => decide (p.addr = addr))) with
        | true =>
            refine ⟨post, fun e he => ?_⟩
            rw [if_neg (hnot e), hany e he, hknown, if_pos rfl]
        | false =>
            refine ⟨post ++ [newPeer now m addr], fun e he => ?_⟩
            rw [if_neg (hnot e), hany e he, hknown, if_neg Bool.false_ne_true]
            unfold around
            dsimp only
            rw [List.append_assoc, List.cons_append]

theorem userLeft_around {m : Token} (hm : m ≠ n) :
    ActsAround now server src line n pre post me (.userLeft m) := by
  refine ⟨me, pre.filter fun p => p.username ≠ m, post.filter fun p => p.username ≠ m,
    fun p hp => hpre p (List.mem_filter.mp hp).1, rfl, ?_, fun e _ hname => ?_⟩
  · refine decide_eq_decide.mpr ?_
    simp only [List.mem_map, List.mem_filter]
    constructor
    · rintro ⟨p, ⟨hp, -⟩, hpn⟩
      exact ⟨p, hp, hpn⟩
    · rintro ⟨p, hp, rfl⟩
      exact ⟨p, ⟨hp, decide_eq_true (Ne.symm hm)⟩, rfl⟩
  · rw [touched_quiet now rfl rfl rfl]
    change (me.around pre e post).handleUserLeft m = _
    unfold handleUserLeft around
    dsimp only
    rw [List.filter_append, List.filter_cons_of_pos]
    simpa [hname] using hm.symm

/-- Every line that leaves the entry there acts around it. -/
theorem handle_around {h : Heard} (hstays : h ≠ .userLeft n) :
    ActsAround now server src line n pre post me h := by
  cases h with
  | ping | nothing =>
      refine ⟨me, pre, post, hpre, rfl, rfl, fun e _ _ => ?_⟩
      rw [touched_quiet now rfl rfl rfl]
      rfl
  | relay =>
      refine ⟨me.handleModeRelay, pre, post, hpre, rfl, rfl, fun e _ _ => ?_⟩
      rw [touched_quiet now rfl rfl rfl]
      rfl
  | pong =>
      refine ⟨me, pre, post, hpre, rfl, rfl, fun e he _ => ?_⟩
      refine (touchAddr_around src post me hpre he _).trans ?_
      simp [touched, Heard.refreshes, Heard.connects, Heard.marks]
  | holePunch =>
      refine ⟨me, pre, post, hpre, rfl, rfl, fun e he _ => ?_⟩
      refine (touchAddr_around src post me hpre he _).trans ?_
      simp [touched, Heard.refreshes, Heard.connects, Heard.marks, ensureConnected]
  | data sender => exact data_around now server src line post me hpre sender
  | serverRelay m => exact serverRelay_around now server src line post me hpre m
  | direct m a =>
      obtain ⟨post', hdirect⟩ := handleModeDirect_around now src pre post me m a
      refine ⟨me, pre, post', hpre, rfl, rfl, fun e he _ => ?_⟩
      rw [touched_quiet now rfl rfl rfl]
      exact hdirect e he
  | userLeft m =>
      exact userLeft_around now server src line post me hpre fun hm => hstays (hm ▸ rfl)

end Lines

theorem touched_cons (user : Str) (n : Token) (first : Bool) (h : Heard) (hs : List Heard)
    (e : PeerInfo) :
    touched now user n first hs (touched now user n first [h] e) =
      touched now user n first (h :: hs) e := by
  have hlast : (if hs.any (Heard.refreshes n first) = true then now
      else if h.refreshes n first = true then now else e.lastPong) =
        if (h.refreshes n first || hs.any (Heard.refreshes n first)) = true then now
        else e.lastPong := by
    cases h.refreshes n first <;> cases hs.any (Heard.refreshes n first) <;> rfl
  unfold touched
  simp only [List.any_cons, List.any_nil, Bool.or_false, Bool.or_assoc, hlast]
  rfl

/-- No line removes the entry: every line does its own to it. -/
theorem processLines_around {n : Token} (ls : List Str) {pre : List PeerInfo}
    (post : List PeerInfo) (me : Client) (hpre : ∀ p ∈ pre, p.addr ≠ src)
    (hstays : .userLeft n ∉ ls.map fun l => Heard.ofLine (trim l)) :
    ∃ (me' : Client) (pre' post' : List PeerInfo), ∀ e, e.addr = src → e.username = n →
      (processLines now server src ls (me.around pre e post)).1 =
        me'.around pre' (touched now me.user n (!listsName n pre)
          (ls.map fun l => Heard.ofLine (trim l)) e) post' := by
  simp only [processLines_fst]
  induction ls generalizing pre post me with
  | nil =>
      refine ⟨me, pre, post, fun e _ _ => ?_⟩
      simp [after, touched]
  | cons line ls ih =>
      rw [List.map_cons, List.mem_cons, not_or] at hstays
      obtain ⟨me₁, pre₁, post₁, hpre₁, huser, hlists, hline⟩ :=
        handle_around now server src (trim line) post me hpre (Ne.symm hstays.1)
      obtain ⟨me', pre', post', hrest⟩ := ih post₁ me₁ hpre₁ hstays.2
      refine ⟨me', pre', post', fun e he hname => ?_⟩
      have hnext := hrest (touched now me.user n (!listsName n pre)
        [Heard.ofLine (trim line)] e) he hname
      rw [after, hear, hline e he hname, hnext, huser, hlists, touched_cons, List.map_cons]

/-- A line removes it: nothing is left of what it was. -/
theorem processLines_dropped {n : Token} (ls : List Str) {pre : List PeerInfo}
    (post : List PeerInfo) (me : Client) (hpre : ∀ p ∈ pre, p.addr ≠ src)
    (hleft : .userLeft n ∈ ls.map fun l => Heard.ofLine (trim l)) :
    ∃ me', ∀ e, e.addr = src → e.username = n →
      (processLines now server src ls (me.around pre e post)).1 = me' := by
  simp only [processLines_fst]
  induction ls generalizing pre post me with
  | nil => exact absurd hleft List.not_mem_nil
  | cons line ls ih =>
      by_cases hline : Heard.ofLine (trim line) = .userLeft n
      · refine ⟨after (hear now server src) { me with
          peers := (pre ++ post).filter fun p => p.username ≠ n } ls, fun e _ hname => ?_⟩
        have hdrop : (me.around pre e post).hear now server src line =
            { me with peers := (pre ++ post).filter fun p => p.username ≠ n } := by
          rw [hear, hline]
          change (me.around pre e post).handleUserLeft n = _
          unfold handleUserLeft around
          dsimp only
          rw [List.filter_append, List.filter_append, List.filter_cons_of_neg]
          simpa using hname
        rw [after, hdrop]
      · obtain ⟨me₁, pre₁, post₁, hpre₁, -, -, hstep⟩ :=
          handle_around now server src (trim line) post me hpre hline
        rw [List.map_cons] at hleft
        have hleft := (List.mem_cons.mp hleft).resolve_left (Ne.symm hline)
        obtain ⟨me', hrest⟩ := ih post₁ me₁ hpre₁ hleft
        refine ⟨me', fun e he hname => ?_⟩
        rw [after, hear, hstep e he hname]
        exact hrest _ he hname

end Around

/-- The contact with a peer that its text is, plain, is made by the lines as well:
the peer has gone by the end, or the lines, or what was there before them, make
its entry what it would be. -/
def AgreesAsPeer (now : Instant) (src : SocketAddr) (s : Str) (me : Client) : Prop :=
  ∀ e, me.peers.find? (fun p => p.addr = src) = some e →
    let first := decide (me.peers.find? (fun p => p.username = e.username) = some e)
    .userLeft e.username ∈ heard s ∨
    (e.lastPong = now ∨ (heard s).any (Heard.refreshes e.username first) = true) ∧
      (e.connected = true ∨ (heard s).any (Heard.connects me.user e.username first) = true)

section Peer
variable (now : Instant) (server src : SocketAddr) (s : Str) (me : Client)

/-- The entry of an address, and what is before and behind it. -/
theorem exists_around {e : PeerInfo} (h : me.peers.find? (fun p => p.addr = src) = some e) :
    ∃ pre post, me = me.around pre e post ∧ e.addr = src ∧ (∀ p ∈ pre, p.addr ≠ src) ∧
      decide (me.peers.find? (fun p => p.username = e.username) = some e) =
        !listsName e.username pre := by
  obtain ⟨he, pre, post, hpeers, hpre⟩ := List.find?_eq_some_iff_append.mp h
  have he : e.addr = src := of_decide_eq_true he
  have hpre : ∀ p ∈ pre, p.addr ≠ src := by simpa using hpre
  refine ⟨pre, post, ?_, he, hpre, ?_⟩
  · rw [around, ← hpeers]
  · rw [hpeers, List.find?_append]
    cases hfind : pre.find? fun p => p.username = e.username with
    | some q =>
        have hq : q ∈ pre := List.mem_of_find?_eq_some hfind
        have hname : q.username = e.username := by simpa using List.find?_some hfind
        have hlists : listsName e.username pre = true :=
          decide_eq_true (List.mem_map.mpr ⟨q, hq, hname⟩)
        rw [hlists]
        refine decide_eq_false fun h => ?_
        rw [Option.some_or, Option.some.injEq] at h
        exact hpre q hq (h ▸ he)
    | none =>
        have hlists : listsName e.username pre = false := by
          refine decide_eq_false fun hmem => ?_
          obtain ⟨p, hp, hname⟩ := List.mem_map.mp hmem
          exact List.find?_eq_none.mp hfind p hp (decide_eq_true hname)
        rw [hlists]
        refine decide_eq_true ?_
        rw [Option.none_or]
        exact List.find?_cons_of_pos (by simp)

end Peer

/-! ## What is sent -/

section Sent
variable (now : Instant) (server src : SocketAddr)

/-- What is sent to the peers but for those of a name. -/
theorem relayMessage_sameRoutes {me me' : Client} (h : SameRoutes me me') (sender line : Str) :
    me'.handleRelayMessageToPeers sender line = me.handleRelayMessageToPeers sender line := by
  have hsent : ∀ me : Client, me.handleRelayMessageToPeers sender line =
      ((me.peers.map fun p => (p.addr, p.username)).filter fun x => x.2.text ≠ sender).map
        fun x => tell x.1 line := by
    intro me
    rw [List.filter_map, List.map_map]
    rfl
  rw [hsent, hsent, h.peers]

/-- A line does the same by the same routes, and leaves them the same. -/
theorem handle_sameRoutes (line : Str) {me me' : Client} (h : SameRoutes me me')
    (huser : me'.user = me.user) (x : Heard) :
    SameRoutes (x.handle now server src line me).1 (x.handle now server src line me').1 ∧
      (x.handle now server src line me').2 = (x.handle now server src line me).2 := by
  have hmodify : ∀ (p : PeerInfo → Bool) (f : PeerInfo → PeerInfo),
      (∀ e, ((f e).addr, (f e).username) = (e.addr, e.username)) →
      SameRoutes { me with peers := Vec.modifyFirst p f me.peers }
        { me' with peers := Vec.modifyFirst p f me'.peers } := fun p f hf =>
    (sameRoutes_modify p hf me).symm.trans (h.trans (sameRoutes_modify p hf me'))
  cases x with
  | ping => exact ⟨h, rfl⟩
  | nothing => exact ⟨h, rfl⟩
  | pong => exact ⟨hmodify _ _ fun _ => rfl, rfl⟩
  | holePunch => exact ⟨hmodify _ _ fun _ => rfl, rfl⟩
  | relay => exact ⟨⟨rfl, h.mirrors, h.peers⟩, rfl⟩
  | data sender =>
      have hmark : SameRoutes (me.markPeerConnectedByName now sender)
          (me'.markPeerConnectedByName now sender) := hmodify _ _ fun _ => rfl
      refine ⟨hmark, ?_⟩
      unfold Heard.handle
      dsimp only
      rw [hmark.isRelay, hmark.mirrors, relayMessage_sameRoutes hmark]
  | serverRelay n =>
      refine ⟨?_, rfl⟩
      change SameRoutes (me.handleModeServerRelay n) (me'.handleModeServerRelay n)
      unfold handleModeServerRelay
      rw [huser]
      by_cases hself : n.text = me.user
      · rw [if_pos hself, if_pos hself]
        exact h
      · rw [if_neg hself, if_neg hself]
        have hmarked := hmodify (fun p => p.username = n)
          (fun p => { p with useServerRelay := true, connected := true, relayRequested := true })
          fun _ => rfl
        refine ⟨h.isRelay, ?_, hmarked.peers⟩
        change (me'.channelHasServerRelays || me'.isRelay) =
          (me.channelHasServerRelays || me.isRelay)
        rw [h.mirrors, h.isRelay]
  | direct n a =>
      refine ⟨?_, rfl⟩
      change SameRoutes (me.handleModeDirect now n a) (me'.handleModeDirect now n a)
      have hany : ∀ (addr : SocketAddr) (me : Client), (me.peers.any fun p => p.addr = addr) =
          (me.peers.map fun p => (p.addr, p.username)).any fun x => x.1 = addr := by
        intro addr me
        rw [List.any_map]
        rfl
      unfold handleModeDirect
      cases SocketAddr.fromStr a.text with
      | none => exact h
      | some addr =>
          dsimp only
          rw [huser, hany addr me', h.peers, ← hany addr me]
          by_cases hself : n.text = me.user
          · rw [if_pos hself, if_pos hself]
            exact h
          · rw [if_neg hself, if_neg hself]
            split_ifs
            · exact h
            · refine ⟨h.isRelay, h.mirrors, ?_⟩
              rw [List.map_append, List.map_append, h.peers]
  | userLeft n =>
      have hfilter : ∀ me : Client, ((me.peers.filter fun p => p.username ≠ n).map
          fun p => (p.addr, p.username)) =
            (me.peers.map fun p => (p.addr, p.username)).filter fun x => x.2 ≠ n := by
        intro me
        rw [List.filter_map]
        rfl
      refine ⟨⟨h.isRelay, h.mirrors, ?_⟩, rfl⟩
      change ((me'.peers.filter fun p => p.username ≠ n).map fun p => (p.addr, p.username)) =
        (me.peers.filter fun p => p.username ≠ n).map fun p => (p.addr, p.username)
      rw [hfilter, hfilter, h.peers]

theorem processLines_sameRoutes (ls : List Str) {me me' : Client} (h : SameRoutes me me')
    (huser : me'.user = me.user) :
    SameRoutes (processLines now server src ls me).1 (processLines now server src ls me').1 ∧
      (processLines now server src ls me').2 = (processLines now server src ls me).2 := by
  induction ls generalizing me me' with
  | nil => exact ⟨h, rfl⟩
  | cons line ls ih =>
      unfold processLines
      split_ifs
      · exact ih h huser
      · obtain ⟨hroutes, hsent⟩ := handle_sameRoutes now server src (trim line) h huser
          (Heard.ofLine (trim line))
        rw [← processLine_eq, ← processLine_eq] at hroutes hsent
        have huser' : (me'.processLine now server src (trim line)).1.user =
            (me.processLine now server src (trim line)).1.user := by
          rw [processLine_eq, processLine_eq, handle_user, handle_user, huser]
        obtain ⟨hroutes', hsent'⟩ := ih hroutes huser'
        refine ⟨hroutes', ?_⟩
        dsimp only
        rw [hsent, hsent']

end Sent

section Peer
variable (now : Instant) (server src : SocketAddr) (s : Str) (me : Client)

/-- The contact is seen at the end, unless it was there before or is made again. -/
theorem touched_eq_iff (user : Str) (n : Token) (first : Bool) (hs : List Heard) (e : PeerInfo) :
    touched now user n first hs e = touched now user n first hs (ensureConnected now e) ↔
      (e.lastPong = now ∨ hs.any (Heard.refreshes n first) = true) ∧
        (e.connected = true ∨ hs.any (Heard.connects user n first) = true) := by
  unfold touched ensureConnected
  rw [PeerInfo.mk.injEq]
  cases hs.any (Heard.refreshes n first) <;>
    cases hs.any (Heard.connects user n first) <;> simp

theorem peers_agree_iff :
    (me.processIncomingMessage now server s src).1.peers =
        ((me.handlePeerMessage now src).processIncomingMessage now server s src).1.peers ↔
      AgreesAsPeer now src s me := by
  cases hfind : me.peers.find? fun p => p.addr = src with
  | none =>
      have hquiet : me.handlePeerMessage now src = me := by
        unfold handlePeerMessage touchAddr
        rw [Vec.modifyFirst_of_forall_not fun p hp => List.find?_eq_none.mp hfind p hp]
      rw [hquiet]
      refine iff_of_true rfl fun e he => ?_
      rw [hfind] at he
      exact absurd he.symm (Option.some_ne_none e)
  | some e =>
      obtain ⟨pre, post, hme, he, hpre, hfirst⟩ := exists_around src me hfind
      have hagrees : AgreesAsPeer now src s me ↔ .userLeft e.username ∈ heard s ∨
          (e.lastPong = now ∨
            (heard s).any (Heard.refreshes e.username (!listsName e.username pre)) = true) ∧
          (e.connected = true ∨
            (heard s).any
              (Heard.connects me.user e.username (!listsName e.username pre)) = true) := by
        unfold AgreesAsPeer
        rw [hfind]
        constructor
        · intro h
          have h := h e rfl
          rwa [hfirst] at h
        · rintro h e' he'
          obtain rfl := Option.some.inj he'
          rwa [hfirst]
      have hcontact : me.handlePeerMessage now src =
          me.around pre (ensureConnected now e) post := by
        have hnone : (pre.any fun p => decide (p.addr = src)) = false := by
          simpa using hpre
        conv_lhs => rw [hme]
        unfold handlePeerMessage touchAddr around
        dsimp only
        rw [Vec.modifyFirst_append, hnone, Vec.modifyFirst, if_pos (decide_eq_true he)]
        rfl
      have hself : me.processIncomingMessage now server s src =
          (me.around pre e post).processIncomingMessage now server s src :=
        congrArg (processIncomingMessage now server s src) hme
      rw [hagrees, hcontact, hself]
      by_cases hleft : Heard.userLeft e.username ∈ heard s
      · obtain ⟨me', hdropped⟩ := processLines_dropped now server src (lines s) post me hpre hleft
        refine iff_of_true ?_ (Or.inl hleft)
        unfold processIncomingMessage
        rw [hdropped e he rfl, hdropped (ensureConnected now e) he rfl]
      · obtain ⟨me', pre', post', hlines⟩ :=
          processLines_around now server src (lines s) post me hpre hleft
        have hhere := hlines e he rfl
        have hthere := hlines (ensureConnected now e) he rfl
        unfold processIncomingMessage
        rw [hhere, hthere, or_iff_right hleft, ← touched_eq_iff]
        unfold around
        dsimp only
        rw [List.append_cancel_left_eq, List.cons.injEq]
        exact and_iff_left rfl

theorem agreesAsPeer_iff :
    let X := me.processIncomingMessage now server s src
    let Y := (me.handlePeerMessage now src).processIncomingMessage now server s src
    SameEffect X (Y.1.updateRelayIsActive, Y.2) ↔
      me.isActive = (me.acts || calls s) ∧ AgreesAsPeer now src s me := by
  intro X Y
  have htouch : SameRoutes me (me.handlePeerMessage now src) :=
    sameRoutes_touch now me fun p => p.addr = src
  obtain ⟨hroutes, hsent⟩ := processLines_sameRoutes now server src (lines s) htouch rfl
  obtain ⟨hvia, hpaused⟩ := processLines_sending now server src (lines s) me
  obtain ⟨hvia', hpaused'⟩ :=
    processLines_sending now server src (lines s) (me.handlePeerMessage now src)
  have hactive : X.1.isActive = me.isActive := processLines_isActive now server src me (lines s)
  have hacts : Y.1.acts = (me.acts || calls s) :=
    processIncomingMessage_acts now server src s (me.handlePeerMessage now src)
  have hpeers := peers_agree_iff now server src s me
  constructor
  · intro h
    exact ⟨hactive.symm.trans (h.isActive.trans hacts), hpeers.mp h.peers⟩
  · rintro ⟨hflag, hagrees⟩
    exact ⟨hpeers.mpr hagrees, hroutes.isRelay.symm, hroutes.mirrors.symm,
      hvia.trans hvia'.symm, hpaused.trans hpaused'.symm,
      hactive.trans (hflag.trans hacts.symm), hsent.symm⟩

end Peer

/-! ## In `main_loop` -/

/-- `[0u8; 2048]` -/
def bufLen : Nat := 2048

section Receive
variable (now : Instant) (server src : SocketAddr) (s : Str) (me : Client)

theorem sameEffect_numbered {cid : UInt64} {pid : UInt32} {x y : Client × List Datagram} :
    SameEffect (x.1.numbered cid pid, x.2) y ↔ SameEffect x y :=
  ⟨fun ⟨hpeers, hrelay, hmirrors, hvia, hpaused, hactive, hsent⟩ =>
      ⟨hpeers, hrelay, hmirrors, hvia, hpaused, hactive, hsent⟩,
    fun ⟨hpeers, hrelay, hmirrors, hvia, hpaused, hactive, hsent⟩ =>
      ⟨hpeers, hrelay, hmirrors, hvia, hpaused, hactive, hsent⟩⟩

/-- With a frame the text is read line by line, and for the two numbers. -/
theorem receive_framed {hdr : Header} (hkind : hdr.kind = .control)
    (hfits : headerLen + (asBytes s).length ≤ bufLen) :
    ∃ cid pid, me.receive now server src (encode hdr (asBytes s)) =
      ((me.processIncomingMessage now server s src).1.numbered cid pid,
        (me.processIncomingMessage now server s src).2) := by
  have hlen : (payloadLen16 (asBytes s)).toNat = (asBytes s).length := by
    rw [toNat_payloadLen16]
    unfold headerLen bufLen at hfits
    omega
  have hdecode := decode_encode_append hdr (asBytes s) []
  rw [List.append_nil, hlen, List.take_length] at hdecode
  obtain ⟨cid, pid, hwelcome⟩ := tryHandleWelcome_eq s me
  refine ⟨cid, pid, ?_⟩
  unfold receive
  rw [hdecode]
  dsimp only
  rw [hkind]
  dsimp only
  rw [fromUtf8_asBytes]
  dsimp only
  rw [receiveControl, hwelcome]
  exact processLines_numbered now server src cid pid (lines s) me

theorem receive_plain (hplain : decode (asBytes s) = none) :
    me.receive now server src (asBytes s) = me.receiveText now server src s := by
  unfold receive
  rw [hplain]
  dsimp only
  rw [fromUtf8Lossy_asBytes]

/-- **A text with a frame and without.**  All that is left out when it has one has
been so before, or is made up for by the text itself. -/
theorem framing_iff {hdr : Header} (hkind : hdr.kind = .control)
    (hfits : headerLen + (asBytes s).length ≤ bufLen) (hplain : decode (asBytes s) = none) :
    SameEffect (me.receive now server src (encode hdr (asBytes s)))
        (me.receive now server src (asBytes s)) ↔
      me.isActive = (me.acts || calls s) ∧
        if src = server then AgreesAsServer s me else AgreesAsPeer now src s me := by
  obtain ⟨cid, pid, hframed⟩ := receive_framed now server src s me hkind hfits
  rw [hframed, receive_plain now server src s me hplain, sameEffect_numbered, receiveText]
  by_cases hsrc : src = server
  · rw [if_pos hsrc, if_pos hsrc]
    exact agreesAsServer_iff now server src s me
  · rw [if_neg hsrc, if_neg hsrc]
    exact agreesAsPeer_iff now server src s me

end Receive

/-- `PING` from the server, at a new client. -/
theorem framing_ping : SameEffect
    ((Client.fresh "ann".toList).receive 5 (.v4 ⟨10, 0, 0, 9⟩ 2131) (.v4 ⟨10, 0, 0, 9⟩ 2131)
      (encode (.control 7 0 1 0) (asBytes "PING".toList)))
    ((Client.fresh "ann".toList).receive 5 (.v4 ⟨10, 0, 0, 9⟩ 2131) (.v4 ⟨10, 0, 0, 9⟩ 2131)
      (asBytes "PING".toList)) := by
  refine (framing_iff _ _ _ _ _ rfl (by decide +kernel) (by decide +kernel)).mpr
    ⟨by decide +kernel, ?_⟩
  rw [if_pos rfl]
  refine ⟨fun b hb => ?_, Or.inr (Or.inl (by decide +kernel))⟩
  have hnone : ((answers "PING".toList).filterMap
      (Reply.order (Client.fresh "ann".toList).user)).getLast? = none := by
    decide +kernel
  rw [hnone] at hb
  exact absurd hb.symm (Option.some_ne_none b)

/-- Told to send through the server in a control packet, a client goes on as before. -/
theorem not_framing_serverRelay :
    let server : SocketAddr := .v4 ⟨10, 0, 0, 9⟩ 2131
    let text := "MODE SERVER_RELAY ann".toList
    headerLen + (asBytes text).length ≤ bufLen ∧ decode (asBytes text) = none ∧
      ¬ SameEffect
        ((Client.fresh "ann".toList).receive 5 server server
          (encode (.control 7 0 1 0) (asBytes text)))
        ((Client.fresh "ann".toList).receive 5 server server (asBytes text)) :=
  ⟨by decide +kernel, by decide +kernel, fun h => absurd h.sendViaServer (by decide +kernel)⟩

end NatPiercer.Client
