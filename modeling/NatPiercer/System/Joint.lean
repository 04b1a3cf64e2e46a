/-
# `System.Joint` — the server and its clients

A joint state is the server's map and, at each address, the client that is
there.  A joint step is a step of the server; every datagram it sends is
then received, in the order of sending, by the client at its address.

The clients are honest: a directory says of each address which user is
there, and in which channel of which server; no two addresses have one user
name, and a `CONNECT` is sent by the client it names.  A client starts
afresh with its `CONNECT`.

A datagram arrives whole.  The buffers hold 2048 bytes, so what is said here is
said of the runs in which every datagram fits (`datagrams_fit_iff` of
`System.Sizes`); there, buffers make no difference (`after_stepCut`).
-/
import NatPiercer.Signaling.Order
import NatPiercer.System.Tells

namespace NatPiercer.System

open Text Utf8 Net Proto LockProg Signaling Client

structure Joint where
  map : ServerMap
  clients : SocketAddr → Client

def Joint.init : Joint := ⟨∅, fun _ => .fresh []⟩

/-- What the clock says at a step. -/
def now : ServerStep → Instant
  | .message amb _ _ => amb.now
  | .heartbeat now => now
  | .relayout _ _ => 0

section Steps
variable (server : SocketAddr)

/-- A datagram of the server arrives. -/
def Joint.deliver (now : Instant) (o : Joint) (d : Datagram) : Joint :=
  { o with
    clients := Function.update o.clients d.dst
      ((o.clients d.dst).receive now server server d.payload).1 }

/-- A step of the server, and the arrival of everything it sends. -/
def Joint.step (o : Joint) (l : ServerStep) : Joint :=
  (o.map.sent l).foldl (Joint.deliver server (now l)) { o with map := o.map.step l }

/-- The client that a step starts: its address, and its user. -/
def boots : ServerStep → Option (SocketAddr × Token)
  | .message _ text src =>
      match Request.ofText text with
      | .connect _ _ n _ => some (src, n)
      | _ => none
  | .heartbeat _ | .relayout _ _ => none

/-- Before its `CONNECT` is handled, a client is as `main` makes it. -/
def Joint.boot (l : ServerStep) (o : Joint) : Joint :=
  match boots l with
  | some (src, n) => { o with clients := Function.update o.clients src (.fresh n.text) }
  | none => o

/-! ## What a client has received -/

variable {server}

/-- A client after some datagrams of the server. -/
def received (server : SocketAddr) (now : Instant) (ds : List Datagram) (me : Client) : Client :=
  ds.foldl (fun me d => (me.receive now server server d.payload).1) me

@[simp] theorem step_map (o : Joint) (l : ServerStep) :
    (o.step server l).map = o.map.step l := by
  unfold Joint.step
  generalize o.map.sent l = ds
  suffices h : ∀ o : Joint, (ds.foldl (Joint.deliver server (now l)) o).map = o.map from h _
  induction ds with
  | nil => exact fun _ => rfl
  | cons d ds ih => exact fun o => ih _

@[simp] theorem boot_map (l : ServerStep) (o : Joint) : (o.boot l).map = o.map := by
  unfold Joint.boot
  split <;> rfl

theorem deliver_clients (now : Instant) (o : Joint) (d : Datagram) (a : SocketAddr) :
    (o.deliver server now d).clients a =
      if a = d.dst then ((o.clients d.dst).receive now server server d.payload).1
      else o.clients a := by
  unfold Joint.deliver
  dsimp only
  split_ifs with h
  · rw [h, Function.update_self]
  · rw [Function.update_of_ne h]

/-- A client has received what was sent to its address, in order. -/
theorem step_clients (o : Joint) (l : ServerStep) (a : SocketAddr) :
    (o.step server l).clients a =
      received server (now l) ((o.map.sent l).filter fun d => d.dst = a) (o.clients a) := by
  unfold Joint.step received
  generalize o.map.sent l = ds
  suffices h : ∀ o : Joint, (ds.foldl (Joint.deliver server (now l)) o).clients a =
      (ds.filter fun d => d.dst = a).foldl
        (fun me d => (me.receive (now l) server server d.payload).1) (o.clients a) from h _
  induction ds with
  | nil => exact fun _ => rfl
  | cons d ds ih =>
      intro o
      rw [List.foldl_cons, ih, deliver_clients]
      by_cases hd : d.dst = a
      · rw [List.filter_cons_of_pos (by simpa using hd), List.foldl_cons, if_pos hd.symm, hd]
      · rw [List.filter_cons_of_neg (by simpa using hd), if_neg (Ne.symm hd)]

theorem received_isRelay (now : Instant) (ds : List Datagram) (me : Client) :
    (received server now ds me).isRelay = (me.isRelay || ds.any fun d => summons d.payload) := by
  unfold received
  induction ds generalizing me with
  | nil => simp
  | cons d ds ih => rw [List.foldl_cons, ih, receive_isRelay, List.any_cons, Bool.or_assoc]

/-- It is a relay if it was one, or has been called. -/
theorem step_isRelay (o : Joint) (l : ServerStep) (a : SocketAddr) :
    ((o.step server l).clients a).isRelay = true ↔
      (o.clients a).isRelay = true ∨
        ∃ d ∈ o.map.sent l, d.dst = a ∧ summons d.payload = true := by
  rw [step_clients, received_isRelay, Bool.or_eq_true, List.any_eq_true]
  simp only [List.mem_filter, decide_eq_true_eq, and_assoc]

end Steps

/-! ## Where the members are -/

/-- Members are where `home` says. -/
def Resident (home : SocketAddr → Option (Token × Token × Token)) (st : ServerMap) : Prop :=
  ∀ s c ch u, st.channel? s c = some ch → u ∈ ch.users → home u.addr = some (s, c, u.name)

/-- A `CONNECT` comes from the home of whom it names. -/
def ConnectsFrom (home : SocketAddr → Option (Token × Token × Token)) (l : ServerStep) : Prop :=
  ∀ {amb text src s c n natArg}, l = .message amb text src →
    Request.ofText text = .connect s c n natArg → home src = some (s, c, n)

section Residents
variable {home : SocketAddr → Option (Token × Token × Token)} {st : ServerMap} {s c n : Token}
  {l : ServerStep} {ch : Channel}

theorem resident_default (h : Resident home st) :
    ∀ u ∈ ((st.channel? s c).getD .default).users, home u.addr = some (s, c, u.name) := by
  intro u hu
  cases ho : st.channel? s c with
  | none =>
      rw [ho] at hu
      exact absurd hu List.not_mem_nil
  | some ch =>
      rw [ho] at hu
      exact h s c ch u ho hu

theorem users_connect (amb : Ambient) (nat : Signaling.NatKind) {src : SocketAddr}
    (hsrc : home src = some (s, c, n))
    (hhome : ∀ u ∈ ch.users, home u.addr = some (s, c, u.name)) :
    ∀ u ∈ (ch.connect amb n nat src).1.users, home u.addr = some (s, c, u.name) := by
  rcases session_or_new n src ch with h | hnew
  · intro u hu
    obtain ⟨v, hv, hvu⟩ := (connect_of_session _ _ h).1.user hu
    rw [← hvu.1, ← hvu.2.1]
    exact hhome v hv
  · intro u hu
    rw [connect_users_of_new amb nat hnew] at hu
    rcases List.mem_append.mp hu with hu | hu
    · exact hhome u (mem_others.mp hu).1
    · rw [List.mem_singleton.mp hu]
      exact hsrc

/-- Members stay where they are at home. -/
theorem resident_step (h : Resident home st) (hl : ConnectsFrom home l) :
    Resident home (st.step l) := by
  intro s c ch' u hch' hu
  rw [channel?_step] at hch'
  rcases (change_of_effect hch').session_from hu with
    ⟨ch, ho, v, hv, hsession⟩ | ⟨amb, text, src, n, natArg, hlm, hreq, hsession⟩
  · obtain ⟨hname, haddr⟩ := Prod.mk.inj hsession
    rw [← hname, ← haddr]
    exact h s c ch v ho hv
  · obtain ⟨hname, haddr⟩ := Prod.mk.inj hsession
    rw [hname, haddr]
    exact hl hlm hreq

/-- Nobody leaves with a `DISCONNECT`; no client sends one. -/
def NoDisconnect (l : ServerStep) : Prop :=
  ∀ {amb text src s c n}, l = .message amb text src → Request.ofText text ≠ .disconnect s c n

/-- What is sent on behalf of a channel goes to clients whose home it is. -/
theorem resident_told (h : Resident home st) (hl : ConnectsFrom home l) (hno : NoDisconnect l)
    {d : Datagram} (hd : d ∈ l.told s c (st.channel? s c)) : ∃ n, home d.dst = some (s, c, n) := by
  have hall := resident_default (s := s) (c := c) h
  have htelling := telling_of_told hd
  generalize ho : st.channel? s c = before at htelling hall
  have hmember : ∀ {ch}, before = some ch → Member ch d.dst →
      ∃ n, home d.dst = some (s, c, n) := by
    rintro ch rfl ⟨u, hu, hdst⟩
    exact ⟨u.name, hdst ▸ h s c ch u ho hu⟩
  cases htelling with
  | @connect amb text src n natArg _ hlm hreq hd =>
      rcases (tells_connect amb _ d hd).1 with hsrc | ⟨u, hu, hdst⟩
      · exact ⟨n, hsrc ▸ hl hlm hreq⟩
      · exact ⟨u.name, hdst ▸ hall u hu⟩
  | disconnect hlm hreq hd => exact absurd hreq (hno hlm)
  | peerTimeout hlm hreq hd => exact hmember rfl (tells_peerTimeout d hd).1
  | requestRelay hlm hreq hd => exact hmember rfl (tells_relayRequested d hd).1
  | heartbeat hlm hd => exact hmember rfl (tells_heartbeatTold _ _ d hd).1

end Residents

/-! ## Honest clients -/

/-- Who is at an address: the server, the channel and the name it connects
with.  Names are distinct. -/
structure Directory where
  home : SocketAddr → Option (Token × Token × Token)
  distinct : ∀ {a b s c s' c' n}, home a = some (s, c, n) → home b = some (s', c', n) → a = b

/-- A `CONNECT` is sent by the client it names; a `HB`, a `PONG`, a
`REQUEST_RELAY` and a `PEER_TIMEOUT` by anybody. -/
def Directory.admits (dir : Directory) : ServerStep → Bool
  | .message _ text src =>
      match Request.ofText text with
      | .connect s c n _ => decide (dir.home src = some (s, c, n))
      | .disconnect _ _ _ | .data | .natProbe => false
      | .hb _ _ _ | .pong | .requestRelay _ _ _ | .peerTimeout _ _ _ | .unknown => true
  | .heartbeat _ | .relayout _ _ => true

/-- A step that the directory admits. -/
abbrev Directory.Step (dir : Directory) := { l : ServerStep // dir.admits l = true }

/-- A step of the whole system. -/
def Directory.step (dir : Directory) (server : SocketAddr) (o : Joint) (l : dir.Step) : Joint :=
  (o.boot l).step server l

/-- Members are where the directory says. -/
def Directory.AtHome (dir : Directory) (st : ServerMap) : Prop :=
  ∀ s c ch u, st.channel? s c = some ch → u ∈ ch.users → dir.home u.addr = some (s, c, u.name)

section Honest
variable {dir : Directory} {server : SocketAddr} {st : ServerMap} {s c n : Token}
  {l : ServerStep} {ch : Channel}

theorem home_of_connect {amb : Ambient} {text : Str} {src : SocketAddr} {natArg : Option Token}
    (hl : dir.admits l = true) (hlm : l = .message amb text src)
    (hreq : Request.ofText text = .connect s c n natArg) : dir.home src = some (s, c, n) := by
  subst hlm
  unfold Directory.admits at hl
  dsimp only at hl
  rw [hreq] at hl
  exact of_decide_eq_true hl

/-- What no honest client sends. -/
theorem request_of_admits {amb : Ambient} {text : Str} {src : SocketAddr}
    (hl : dir.admits l = true) (hlm : l = .message amb text src) :
    (∀ s c n, Request.ofText text ≠ .disconnect s c n) ∧ Request.ofText text ≠ .natProbe ∧
      Request.ofText text ≠ .data := by
  subst hlm
  unfold Directory.admits at hl
  dsimp only at hl
  refine ⟨fun s c n hreq => ?_, fun hreq => ?_, fun hreq => ?_⟩
  all_goals
    rw [hreq] at hl
    exact Bool.false_ne_true hl

theorem atHome_default (h : dir.AtHome st) :
    ∀ u ∈ ((st.channel? s c).getD .default).users, dir.home u.addr = some (s, c, u.name) :=
  resident_default h

/-- A new session is of a user that is not there yet. -/
theorem others_eq_users {src : SocketAddr} (hsrc : dir.home src = some (s, c, n))
    (hhome : ∀ u ∈ ch.users, dir.home u.addr = some (s, c, u.name))
    (hnew : ∀ u ∈ ch.users, u.isSession n src = false) : ch.others n = ch.users := by
  refine List.filter_eq_self.mpr fun u hu => ?_
  have hne : u.name ≠ n := by
    rintro rfl
    have hsess := hnew u hu
    rw [User.isSession, decide_eq_false_iff_not] at hsess
    exact hsess ⟨rfl, dir.distinct (hhome u hu) hsrc⟩
  simp [hne]

/-- Members stay where the directory says. -/
theorem atHome_step (h : dir.AtHome st) (hl : dir.admits l = true) : dir.AtHome (st.step l) :=
  resident_step h fun hlm hreq => home_of_connect hl hlm hreq

end Honest

/-! ## Names in examples -/

theorem isWord_s : isWord "s".toList = true := by decide
theorem isWord_c : isWord "c".toList = true := by decide
theorem isWord_ann : isWord "ann".toList = true := by decide
theorem isWord_bob : isWord "bob".toList = true := by decide
theorem isWord_sam : isWord "sam".toList = true := by decide

end NatPiercer.System
