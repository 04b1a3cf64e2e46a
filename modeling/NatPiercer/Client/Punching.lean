/-
# `Client.Punching` — the punching loop

`hole_punching_loop` of `src/client/networking.rs`.  A pass sends a `HOLE_PUNCH`
to every peer that is neither reached nor relayed for, and then the loop
sleeps.  There is a number of milliseconds for each name, which starts at 150
and is doubled with every punch, up to 1500; the sleep is the least of them.

A number is never taken out, also when the peer is reached, or has left.  So
how long the loop sleeps is decided by the name that it has punched least
often in all its life (`punching_spec`).
-/
import NatPiercer.Client.Invariants
import NatPiercer.Lib.HashMap

namespace NatPiercer.Client

open Text Utf8 Net Proto Signaling

/-- `PUNCH_INITIAL_SLEEP_MS` -/
def punchInitialSleep : Nat := 150

/-- `PUNCH_MAX_SLEEP_MS` -/
def punchMaxSleep : Nat := 1500

/-! ## A pass -/

/-- username -> ms -/
abbrev Backoff := HashMap Token Nat

/-- `(*entry).saturating_mul(2).min(PUNCH_MAX_SLEEP_MS)` -/
def doubled (ms : Nat) : Nat := min (min (ms * 2) (2 ^ 64 - 1)) punchMaxSleep

def Backoff.bump (n : Token) (backoff : Backoff) : Backoff :=
  (backoff.orInsert n punchInitialSleep).modify n doubled

def holePunch (peer : PeerInfo) : Datagram := tell peer.addr msgHolePunch.text

/-- The loop over the table. -/
def holePunchingPass : List PeerInfo → Backoff → Backoff × List Datagram
  | [], backoff => (backoff, [])
  | p :: rest, backoff =>
      if p.connected || p.useServerRelay then holePunchingPass rest backoff
      else
        let (backoff, sent) := holePunchingPass rest (backoff.bump p.username)
        (backoff, holePunch p :: sent)

/-- How long the loop sleeps. -/
def Backoff.sleep (backoff : Backoff) : Nat :=
  ((backoff.entries.map Sigma.snd).min?).getD punchInitialSleep

/-- Not to be punched: reached, or relayed for. -/
def settled (p : PeerInfo) : Bool := p.connected || p.useServerRelay

theorem holePunchingPass_eq (peers : List PeerInfo) (backoff : Backoff) :
    holePunchingPass peers backoff =
      ((peers.filter fun p => !settled p).foldl (fun b p => b.bump p.username) backoff,
        (peers.filter fun p => !settled p).map holePunch) := by
  induction peers generalizing backoff with
  | nil => rfl
  | cons p peers ih =>
      rw [holePunchingPass, List.filter_cons, settled]
      cases hp : p.connected || p.useServerRelay with
      | true => exact ih backoff
      | false =>
          simp only [Bool.false_eq_true, if_false, Bool.not_false, if_true]
          rw [ih, List.foldl_cons, List.map_cons]

/-! ## The numbers -/

/-- What the number is after `k` punches. -/
def backoffAfter (k : Nat) : Nat := min (punchInitialSleep * 2 ^ k) punchMaxSleep

theorem doubled_backoffAfter (k : Nat) : doubled (backoffAfter k) = backoffAfter (k + 1) := by
  unfold doubled backoffAfter punchInitialSleep punchMaxSleep
  rw [Nat.pow_succ]
  omega

theorem backoffAfter_mono {j k : Nat} (h : j ≤ k) : backoffAfter j ≤ backoffAfter k := by
  have hpow : 2 ^ j ≤ 2 ^ k := Nat.pow_le_pow_right Nat.two_pos h
  unfold backoffAfter punchInitialSleep
  omega

/-- The number of the name `n`, when it has been punched `k` times. -/
def numberAfter (k : Nat) : Option Nat := if k = 0 then none else some (backoffAfter k)

theorem lookup_bump {backoff : Backoff} {k : Nat} (n m : Token)
    (h : backoff.lookup m = numberAfter k) :
    (backoff.bump n).lookup m = numberAfter (k + if n = m then 1 else 0) := by
  rw [Backoff.bump, HashMap.lookup_modify, HashMap.lookup_orInsert, HashMap.lookup_orInsert]
  by_cases hm : n = m
  · subst hm
    rw [if_pos rfl, if_pos rfl, if_pos rfl, h, numberAfter, numberAfter,
      if_neg (Nat.succ_ne_zero k), ← doubled_backoffAfter, Option.map_some]
    split_ifs with hk
    · rw [hk]
      rfl
    · rfl
  · rw [if_neg (Ne.symm hm), if_neg (Ne.symm hm), if_neg hm]
    exact h

/-- How often the name `n` is among the entries. -/
def times (n : Token) (ps : List PeerInfo) : Nat := ps.countP fun p => p.username = n

/-- The numbers are those that come of punching the entries `ps`. -/
def Backoff.Of (ps : List PeerInfo) (backoff : Backoff) : Prop :=
  ∀ n, backoff.lookup n = numberAfter (times n ps)

theorem backoffOf_bump {ps : List PeerInfo} {backoff : Backoff} (h : backoff.Of ps)
    (p : PeerInfo) : (backoff.bump p.username).Of (ps ++ [p]) := fun n => by
  have htimes : times n (ps ++ [p]) = times n ps + if p.username = n then 1 else 0 := by
    rw [times, List.countP_append, List.countP_singleton]
    simp only [decide_eq_true_eq]
    rfl
  rw [lookup_bump p.username n (h n), htimes]

theorem backoffOf_pass {ps : List PeerInfo} {backoff : Backoff} (h : backoff.Of ps)
    (peers : List PeerInfo) :
    (holePunchingPass peers backoff).1.Of (ps ++ peers.filter fun p => !settled p) := by
  rw [holePunchingPass_eq]
  dsimp only
  generalize peers.filter (fun p => !settled p) = due
  induction due generalizing ps backoff with
  | nil => rwa [List.append_nil]
  | cons p due ih =>
      have hrest := ih (backoffOf_bump h p)
      rwa [List.append_assoc] at hrest

theorem mem_values_iff {ps : List PeerInfo} {backoff : Backoff} (h : backoff.Of ps) {ms : Nat} :
    ms ∈ backoff.entries.map Sigma.snd ↔ ∃ p ∈ ps, ms = backoffAfter (times p.username ps) := by
  constructor
  · intro hms
    obtain ⟨⟨n, v⟩, hmem, rfl⟩ := List.mem_map.mp hms
    have hlookup := HashMap.mem_entries_iff.mp hmem
    rw [h n, numberAfter] at hlookup
    split_ifs at hlookup with hzero
    obtain ⟨p, hp, hn⟩ := List.countP_pos_iff.mp (Nat.pos_of_ne_zero hzero)
    refine ⟨p, hp, ?_⟩
    rw [of_decide_eq_true hn]
    exact (Option.some.inj hlookup).symm
  · rintro ⟨p, hp, rfl⟩
    have hpos : times p.username ps ≠ 0 :=
      Nat.ne_of_gt (List.countP_pos_iff.mpr ⟨p, hp, decide_eq_true rfl⟩)
    have hlookup := h p.username
    rw [numberAfter, if_neg hpos] at hlookup
    exact List.mem_map.mpr ⟨⟨p.username, _⟩, HashMap.mem_entries_iff.mpr hlookup, rfl⟩

/-- The sleep is the number of the name that has been punched least often. -/
theorem sleep_spec {ps : List PeerInfo} {backoff : Backoff} (h : backoff.Of ps) :
    (ps = [] → backoff.sleep = punchInitialSleep) ∧
      (ps ≠ [] → ∃ p ∈ ps, backoff.sleep = backoffAfter (times p.username ps) ∧
        ∀ q ∈ ps, times p.username ps ≤ times q.username ps) := by
  constructor
  · rintro rfl
    have hnone : backoff.entries.map Sigma.snd = [] := by
      refine List.eq_nil_iff_forall_not_mem.mpr fun ms hms => ?_
      obtain ⟨p, hp, -⟩ := (mem_values_iff h).mp hms
      exact List.not_mem_nil hp
    rw [Backoff.sleep, hnone]
    rfl
  · intro hne
    obtain ⟨x, hx⟩ := List.exists_mem_of_ne_nil ps hne
    obtain ⟨p, hp, hleast⟩ := WellFounded.has_min
      (measure fun p : PeerInfo => times p.username ps).wf {p | p ∈ ps} ⟨x, hx⟩
    have hle : ∀ q ∈ ps, times p.username ps ≤ times q.username ps := fun q hq =>
      Nat.le_of_not_lt (hleast q hq)
    refine ⟨p, hp, ?_, hle⟩
    have hmin : (backoff.entries.map Sigma.snd).min? =
        some (backoffAfter (times p.username ps)) := by
      refine List.min?_eq_some_iff.mpr ⟨(mem_values_iff h).mpr ⟨p, hp, rfl⟩, fun ms hms => ?_⟩
      obtain ⟨q, hq, rfl⟩ := (mem_values_iff h).mp hms
      exact backoffAfter_mono (hle q hq)
    rw [Backoff.sleep, hmin, Option.getD_some]

/-! ## Turns -/

/-- A turn of one of the other threads, or a pass of the punching loop. -/
inductive Turn
  | happen (h : Happening)
  | pass

/-- A client, with what its punching loop keeps. -/
structure Puncher where
  st : Listening
  backoff : Backoff

def Puncher.fresh (user : Str) : Puncher := ⟨.fresh user, ∅⟩

/-- The loop is not there during the setup, and waits while it is paused. -/
def Puncher.punches (w : Puncher) : Bool := !w.st.inSetup && !w.st.me.paused

section Run
variable (server : SocketAddr) (serverId channel : Token)

def Puncher.step (w : Puncher) : Turn → Puncher
  | .happen h => { w with st := w.st.happen server serverId channel h }
  | .pass =>
      if w.punches then { w with backoff := (holePunchingPass w.st.me.peers w.backoff).1 } else w

/-- What the keepalive loop and the punching loop send. -/
def Puncher.sent (w : Puncher) : Turn → List Datagram
  | .happen h => w.st.tickSent server serverId channel h
  | .pass => if w.punches then (holePunchingPass w.st.me.peers w.backoff).2 else []

def Puncher.sentOf : Puncher → List Turn → List Datagram
  | _, [] => []
  | w, t :: ts => w.sent server serverId channel t ++ sentOf (w.step server serverId channel t) ts

/-- The entries that are punched. -/
def Puncher.punched (w : Puncher) : Turn → List PeerInfo
  | .happen _ => []
  | .pass => if w.punches then w.st.me.peers.filter fun p => !settled p else []

def Puncher.punchedOf : Puncher → List Turn → List PeerInfo
  | _, [] => []
  | w, t :: ts => w.punched t ++ punchedOf (w.step server serverId channel t) ts

/-- What a turn does to the table, as edits. -/
def Puncher.edits (w : Puncher) : Turn → List (Edit PeerInfo Datagram)
  | .happen h => w.st.edits server serverId channel h
  | .pass =>
      if w.punches then [.visit fun p => (some p, if settled p then [] else [holePunch p])] else []

def Puncher.editsOf : Puncher → List Turn → List (Edit PeerInfo Datagram)
  | _, [] => []
  | w, t :: ts => w.edits server serverId channel t ++ editsOf (w.step server serverId channel t) ts

omit server serverId channel in
theorem map_filter_eq_flatMap (peers : List PeerInfo) :
    (peers.filter fun p => !settled p).map holePunch =
      peers.flatMap fun p => if settled p then [] else [holePunch p] := by
  induction peers with
  | nil => rfl
  | cons p peers ih =>
      rw [List.filter_cons, List.flatMap_cons, ← ih]
      cases settled p with
      | true => rfl
      | false => rfl

theorem puncher_edits (w : Puncher) (t : Turn) :
    ((w.step server serverId channel t).st.me.peers, w.sent server serverId channel t) =
      Edit.run w.st.me.peers (w.edits server serverId channel t) := by
  cases t with
  | happen h => exact happen_edits server serverId channel w.st h
  | pass =>
      unfold Puncher.step Puncher.sent Puncher.edits
      dsimp only
      split_ifs
      · rw [holePunchingPass_eq]
        refine Prod.ext (List.filterMap_some (l := w.st.me.peers)).symm ?_
        change _ = (w.st.me.peers.flatMap fun p => if settled p then [] else [holePunch p]) ++ []
        rw [List.append_nil]
        exact map_filter_eq_flatMap w.st.me.peers
      · rfl

theorem puncherRun_edits (w : Puncher) (ts : List Turn) :
    ((after (Puncher.step server serverId channel) w ts).st.me.peers,
        w.sentOf server serverId channel ts) =
      Edit.run w.st.me.peers (w.editsOf server serverId channel ts) := by
  induction ts generalizing w with
  | nil => rfl
  | cons t ts ih =>
      have hstep := puncher_edits server serverId channel w t
      have hrest := ih (w.step server serverId channel t)
      rw [Puncher.editsOf, Edit.run_append, ← hstep, ← hrest]
      rfl

theorem backoffOf_run {w : Puncher} {ps : List PeerInfo} (h : w.backoff.Of ps) (ts : List Turn) :
    (after (Puncher.step server serverId channel) w ts).backoff.Of
      (ps ++ w.punchedOf server serverId channel ts) := by
  induction ts generalizing w ps with
  | nil => rwa [Puncher.punchedOf, List.append_nil]
  | cons t ts ih =>
      rw [Puncher.punchedOf, ← List.append_assoc]
      refine ih ?_
      cases t with
      | happen h' => rwa [Puncher.punched, List.append_nil]
      | pass =>
          unfold Puncher.punched Puncher.step
          dsimp only
          split_ifs
          · exact backoffOf_pass h w.st.me.peers
          · rwa [List.append_nil]

/-! ## Who is left alone -/

/-- The datagram is a punch. -/
def isPunch (d : Datagram) : Bool := d.payload = asBytes msgHolePunch.text

omit server serverId channel in
theorem rests_of_tableEdit {now : Instant} {user : Str} {e : Edit PeerInfo Datagram}
    (he : TableEdit now user e) : e.Rests (fun p => settled p = true) isPunch := by
  cases he with
  | touched q => exact fun p hp => hp
  | reached q => exact fun p _ => Bool.true_or _
  | relayed n _ => exact fun p _ => Bool.true_or _
  | added => trivial
  | left n =>
      refine fun p hp => ⟨rfl, fun q hq => ?_⟩
      dsimp only at hq
      split_ifs at hq
      exact Option.some.inj hq ▸ hp

theorem isPunch_tickSends (now : Instant) (p : PeerInfo) :
    (tickSends now server serverId channel p).countP isPunch = 0 := by
  have hping : isPunch (tell p.addr msgPing.text) = false := by
    change decide (asBytes msgPing.text = asBytes msgHolePunch.text) = false
    decide
  have hhead : ∀ (a : SocketAddr) (s : Str), s.head? ≠ some 'H' → isPunch (tell a s) = false := by
    intro a s hs
    refine decide_eq_false fun h => hs ?_
    rw [asBytes_injective h]
    rfl
  unfold tickSends
  refine List.countP_eq_zero.mpr fun d hd hpunch => ?_
  split_ifs at hd with hrelayed hlate hdue
  · exact List.not_mem_nil hd
  · rw [List.mem_singleton.mp hd] at hpunch
    have hquiet : isPunch (handlePeerTimeout server serverId channel p) = false :=
      hhead _ _ (by decide : some 'P' ≠ some 'H')
    rw [hquiet] at hpunch
    exact Bool.false_ne_true hpunch
  · rcases List.mem_cons.mp hd with rfl | hd
    · rw [hping] at hpunch
      exact Bool.false_ne_true hpunch
    · rw [List.mem_singleton.mp hd] at hpunch
      have hquiet : isPunch (requestRelay server serverId channel p) = false :=
        hhead _ _ (by decide : some 'R' ≠ some 'H')
      rw [hquiet] at hpunch
      exact Bool.false_ne_true hpunch
  · rw [List.mem_singleton.mp hd, hping] at hpunch
    exact Bool.false_ne_true hpunch

/-- A peer that is reached or relayed for stays so, and is not punched. -/
theorem rests_editsOf {w : Puncher} {ts : List Turn} :
    ∀ e ∈ w.editsOf server serverId channel ts,
      e.Rests (fun p => settled p = true) isPunch := by
  induction ts generalizing w with
  | nil => exact fun e he => absurd he List.not_mem_nil
  | cons t ts ih =>
      intro e he
      rcases List.mem_append.mp he with he | he
      · cases t with
        | happen h =>
            have hmem : e ∈ w.st.editsOf server serverId channel [h] := List.mem_append_left _ he
            rcases edit_cases server serverId channel hmem with ⟨now, user, hedit⟩ | ⟨now, rfl⟩
            · exact rests_of_tableEdit hedit
            · intro p hp
              rw [relayMainLoopPeer_eq]
              refine ⟨isPunch_tickSends server serverId channel now p, fun q hq => ?_⟩
              dsimp only at hq
              split_ifs at hq
              rw [← Option.some.inj hq]
              unfold ticked
              split_ifs <;> exact hp
        | pass =>
            unfold Puncher.edits at he
            split_ifs at he
            · rw [List.mem_singleton.mp he]
              refine fun p hp => ⟨?_, fun q hq => Option.some.inj hq ▸ hp⟩
              dsimp only
              rw [if_pos hp]
              rfl
            · exact absurd he List.not_mem_nil
      · exact ih e he

/-- **The punching loop, over its whole life.**  Whatever is received and whenever the
loops have their passes: the number of a name is what the punches of that name
have made of it; the loop sleeps for the number of the name that it has
punched least often; and an entry that has been reached, or is relayed for, is
not punched again for as long as it is there. -/
theorem punching_spec (user : Str) (ts ts' : List Turn) :
    let w := after (Puncher.step server serverId channel) (.fresh user) ts
    let punched := (Puncher.fresh user).punchedOf server serverId channel ts
    let edits := (Puncher.fresh user).editsOf server serverId channel ts
    let numbered := Edit.runNumbered 0 [] edits
    let later := Edit.runNumbered edits.length numbered.1 (w.editsOf server serverId channel ts')
    (∀ n, w.backoff.lookup n = numberAfter (times n punched)) ∧
      (punched = [] → w.backoff.sleep = punchInitialSleep) ∧
      (punched ≠ [] → ∃ p ∈ punched, w.backoff.sleep = backoffAfter (times p.username punched) ∧
        ∀ q ∈ punched, times p.username punched ≤ times q.username punched) ∧
      numbered.1.map Prod.snd = w.st.me.peers ∧
      later.2.map Prod.snd = w.sentOf server serverId channel ts' ∧
      ∀ x ∈ numbered.1, settled x.2 = true → Edit.fired isPunch x.1 later.2 = 0 := by
  intro w punched edits numbered later
  have hfresh : (Puncher.fresh user).backoff.Of [] := fun _ => rfl
  have hbackoff : w.backoff.Of punched := backoffOf_run server serverId channel hfresh ts
  have hnumbers : Edit.Numbered edits.length numbered.1 := by
    have hnone : Edit.Numbered 0 ([] : List (Nat × PeerInfo)) :=
      ⟨List.nodup_nil, fun x hx => absurd hx List.not_mem_nil⟩
    have hrun : Edit.Numbered (0 + edits.length) numbered.1 := hnone.run
    rwa [Nat.zero_add] at hrun
  have hpeers : numbered.1.map Prod.snd = w.st.me.peers := by
    have hplain := Edit.map_runNumbered 0 [] edits
    exact (congrArg Prod.fst hplain).trans
      (congrArg Prod.fst (puncherRun_edits server serverId channel (.fresh user) ts)).symm
  refine ⟨hbackoff, (sleep_spec hbackoff).1, (sleep_spec hbackoff).2, hpeers, ?_, ?_⟩
  · have hplain := Edit.map_runNumbered edits.length numbered.1
      (w.editsOf server serverId channel ts')
    rw [hpeers] at hplain
    exact (congrArg Prod.snd hplain).trans
      (congrArg Prod.snd (puncherRun_edits server serverId channel w ts')).symm
  · intro x hx hsettled
    exact Edit.fired_eq_zero_of_over (rests_editsOf server serverId channel) (hnumbers.lt x hx)
      (hnumbers.overAt hx hsettled)

end Run

end NatPiercer.Client
