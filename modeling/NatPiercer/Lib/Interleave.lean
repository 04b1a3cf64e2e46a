/-
# `Lib.Interleave` — programs that take turns

Several `LockProg`s run over one value.  A turn runs one of them to the end
of its next critical section: until then it holds the mutex, and nobody
else can touch the value.  Whose turn it is is anybody's choice, and so is
when a new program starts; a program that is run alone from its start to
its end does the same as `run` (`run_eq_turns`), so runs of whole programs
are among the interleaved ones (`exists_moves`).

What one turn can do to the value is a relation, the *guarantee* of the
program.  `Meets` is the weakest precondition for it: it goes through the
program, counts the guards that are alive, asks for the guarantee where the
last of them is given back, and makes no assumption about the value at the
next turn.

`amid` follows one program while given things happen to the value between
its turns, and keeps what it writes, and when.
-/
import NatPiercer.Lib.LockProg
import NatPiercer.Lib.Run
import Mathlib.Data.List.Basic

namespace NatPiercer

namespace LockProg

variable {σ ω α β : Type}

/-! ## Turns -/

/-- What is left of a program after a turn, the value then, and what has been
emitted. -/
structure Stage (σ ω α : Type) where
  rest : LockProg σ ω α
  state : σ
  sent : List ω

/-- A turn, with `depth` guards alive. -/
def turn : Nat → LockProg σ ω α → σ → Stage σ ω α
  | _, done a, s => ⟨done a, s, []⟩
  | depth, acquire k, s => turn (depth + 1) k s
  | depth, release k, s => if depth ≤ 1 then ⟨k, s, []⟩ else turn (depth - 1) k s
  | depth, read k, s => turn depth (k s) s
  | depth, write s' k, _ => turn depth k s'
  | depth, emit o k, s =>
      ⟨(turn depth k s).rest, (turn depth k s).state, o :: (turn depth k s).sent⟩

/-- A program that is given turn after turn. -/
def turns : Nat → LockProg σ ω α → σ → LockProg σ ω α × σ
  | 0, p, s => (p, s)
  | k + 1, p, s => turns k (turn 0 p s).rest (turn 0 p s).state

/-- Enough turns finish a program. -/
theorem exists_turns (p : LockProg σ ω α) (depth : Nat) (s : σ) :
    ∃ k a, turns k (turn depth p s).rest (turn depth p s).state = (done a, (p.run s).state) := by
  induction p generalizing depth s with
  | done a => exact ⟨0, a, rfl⟩
  | acquire k ih => exact ih (depth + 1) s
  | release k ih =>
      rw [turn]
      split_ifs
      · obtain ⟨j, a, hj⟩ := ih 0 s
        exact ⟨j + 1, a, hj⟩
      · exact ih (depth - 1) s
  | read k ih => exact ih s depth s
  | write s' k ih => exact ih depth s'
  | emit o k ih => exact ih depth s

/-- Run alone, a program ends where `run` says. -/
theorem run_eq_turns (p : LockProg σ ω α) (s : σ) :
    ∃ k a, turns k p s = (done a, (p.run s).state) := by
  obtain ⟨k, a, hk⟩ := exists_turns p 0 s
  exact ⟨k + 1, a, hk⟩

/-- What leaves the mutex alone is over within the turn. -/
theorem turn_bind {p : LockProg σ ω α} {f : α → LockProg σ ω β} {s : σ} (depth : Nat)
    (hp : p.events s = []) :
    turn depth (p >>= f) s =
      ⟨(turn depth (f (p.run s).val) (p.run s).state).rest,
        (turn depth (f (p.run s).val) (p.run s).state).state,
        (p.run s).sent ++ (turn depth (f (p.run s).val) (p.run s).state).sent⟩ := by
  change turn depth (bind p f) s = _
  induction p generalizing s with
  | done a => rfl
  | acquire k ih => exact absurd hp (List.cons_ne_nil _ _)
  | release k ih => exact absurd hp (List.cons_ne_nil _ _)
  | read k ih => exact ih s hp
  | write s' k ih => exact ih hp
  | emit o k ih =>
      rw [bind, turn, ih hp]
      rfl

/-- The turn of a critical section. -/
theorem turn_locked_bind {p : LockProg σ ω α} {f : α → LockProg σ ω β} {s : σ}
    (hp : p.events s = []) :
    turn 0 (locked p >>= f) s = ⟨f (p.run s).val, (p.run s).state, (p.run s).sent⟩ := by
  have hassoc : ∀ p : LockProg σ ω α,
      bind (bind p fun a => release (done a)) f = bind p fun a => release (f a) := by
    intro p
    induction p with
    | done a => rfl
    | acquire k ih => exact congrArg acquire ih
    | release k ih => exact congrArg release ih
    | read k ih => exact congrArg read (funext ih)
    | write s' k ih => exact congrArg (write s') ih
    | emit o k ih => exact congrArg (emit o) ih
  change turn 1 (bind (bind p fun a => release (done a)) f) s = _
  rw [hassoc]
  have h := turn_bind (f := fun a => release (f a)) 1 hp
  rw [turn, if_pos (Nat.le_refl 1), List.append_nil] at h
  exact h

/-! ## Guarantees -/

/-- Every turn of the program does `G` to the value, the one that has begun at
`start` included; at its end, `Q` holds of the guards alive, the value that
the last turn began with, the result, and the value. -/
def Meets (G : σ → σ → Prop) (Q : Nat → σ → α → σ → Prop) :
    Nat → σ → LockProg σ ω α → σ → Prop
  | depth, start, done a, s => Q depth start a s
  | depth, start, acquire k, s => Meets G Q (depth + 1) start k s
  | depth, start, release k, s =>
      if depth ≤ 1 then G start s ∧ ∀ s', Meets G Q 0 s' k s'
      else Meets G Q (depth - 1) start k s
  | depth, start, read k, s => Meets G Q depth start (k s) s
  | depth, start, write s' k, _ => Meets G Q depth start k s'
  | depth, start, emit _ k, s => Meets G Q depth start k s

/-- Whatever the others do, every turn of the program does `G` to the value. -/
def Guarantees (G : σ → σ → Prop) (p : LockProg σ ω α) : Prop :=
  ∀ s, Meets G (fun _ start _ s => G start s) 0 s p s

section Rules
variable {G : σ → σ → Prop} {depth : Nat} {start s : σ}

@[simp] theorem meets_pure {Q : Nat → σ → α → σ → Prop} (a : α) :
    Meets G Q depth start (pure a : LockProg σ ω α) s ↔ Q depth start a s := Iff.rfl

@[simp] theorem meets_getState {Q : Nat → σ → σ → σ → Prop} :
    Meets G Q depth start (getState : LockProg σ ω σ) s ↔ Q depth start s s := Iff.rfl

@[simp] theorem meets_setState {Q : Nat → σ → Unit → σ → Prop} (s' : σ) :
    Meets G Q depth start (setState s' : LockProg σ ω Unit) s ↔ Q depth start () s' := Iff.rfl

@[simp] theorem meets_output {Q : Nat → σ → Unit → σ → Prop} (o : ω) :
    Meets G Q depth start (output o : LockProg σ ω Unit) s ↔ Q depth start () s := Iff.rfl

@[simp] theorem meets_bind {Q : Nat → σ → β → σ → Prop} (p : LockProg σ ω α)
    (f : α → LockProg σ ω β) :
    Meets G Q depth start (p >>= f) s ↔
      Meets G (fun depth start a s => Meets G Q depth start (f a) s) depth start p s := by
  change Meets G Q depth start (bind p f) s ↔ _
  induction p generalizing depth start s with
  | done a => exact Iff.rfl
  | acquire k ih => exact ih
  | release k ih =>
      rw [bind, Meets, Meets]
      split_ifs
      · exact and_congr_right fun _ => forall_congr' fun _ => ih
      · exact ih
  | read k ih => exact ih s
  | write s' k ih => exact ih
  | emit o k ih => exact ih

/-- A guard that lives to the end of its block: if it is the only one, the turn
ends there. -/
@[simp] theorem meets_locked {Q : Nat → σ → α → σ → Prop} (p : LockProg σ ω α) :
    Meets G Q depth start (locked p) s ↔
      Meets G (fun depth start a s =>
        if depth ≤ 1 then G start s ∧ ∀ s', Q 0 s' a s' else Q (depth - 1) start a s)
        (depth + 1) start p s :=
  meets_bind p fun a => release (done a)

/-- What leaves the mutex alone meets whatever its execution meets. -/
theorem meets_of_events {Q : Nat → σ → α → σ → Prop} {p : LockProg σ ω α}
    (hp : p.events s = []) :
    Meets G Q depth start p s ↔ Q depth start (p.run s).val (p.run s).state := by
  induction p generalizing s with
  | done a => exact Iff.rfl
  | acquire k ih => exact absurd hp (List.cons_ne_nil _ _)
  | release k ih => exact absurd hp (List.cons_ne_nil _ _)
  | read k ih => exact ih s hp
  | write s' k ih => exact ih hp
  | emit o k ih => exact ih hp

end Rules

/-! ## Programs that change the value in critical sections only -/

theorem Meets.mono {Q Q' : Nat → σ → α → σ → Prop} {G G' : σ → σ → Prop}
    (hG : ∀ s s', G s s' → G' s s')
    (hQ : ∀ depth start a s, Q depth start a s → Q' depth start a s) {p : LockProg σ ω α} :
    ∀ {depth : Nat} {start s : σ}, Meets G Q depth start p s → Meets G' Q' depth start p s := by
  induction p with
  | done a => exact fun h => hQ _ _ _ _ h
  | acquire k ih => exact fun h => ih h
  | release k ih =>
      intro depth start s h
      rw [Meets] at h ⊢
      split_ifs at h ⊢
      · exact ⟨hG _ _ h.1, fun s' => ih (h.2 s')⟩
      · exact ih h
  | read k ih => exact fun h => ih _ h
  | write s' k ih => exact fun h => ih h
  | emit o k ih => exact fun h => ih h

theorem Guarantees.mono {G G' : σ → σ → Prop} (hG : ∀ s s', G s s' → G' s s')
    {p : LockProg σ ω α} (hp : Guarantees G p) : Guarantees G' p :=
  fun s => (hp s).mono hG fun _ _ _ _ h => hG _ _ h

/-- Every critical section of the program does `G` to the value, and nothing else
touches it. -/
def Sectioned (G : σ → σ → Prop) (p : LockProg σ ω α) : Prop :=
  ∀ s, Meets G (fun depth start _ s' => depth = 0 ∧ s' = start) 0 s p s

section Sectioned
variable {G : σ → σ → Prop}

theorem Sectioned.guarantees (hrefl : ∀ s, G s s) {p : LockProg σ ω α} (hp : Sectioned G p) :
    Guarantees G p := by
  intro s
  refine (hp s).mono (fun _ _ h => h) ?_
  rintro depth start a s' ⟨-, rfl⟩
  exact hrefl s'

theorem Sectioned.mono {G' : σ → σ → Prop} (hG : ∀ s s', G s s' → G' s s') {p : LockProg σ ω α}
    (hp : Sectioned G p) : Sectioned G' p :=
  fun s => (hp s).mono hG fun _ _ _ _ h => h

theorem sectioned_pure (a : α) : Sectioned G (pure a : LockProg σ ω α) := fun _ => ⟨rfl, rfl⟩

theorem sectioned_output (o : ω) : Sectioned G (output o : LockProg σ ω Unit) :=
  fun _ => ⟨rfl, rfl⟩

theorem Sectioned.bind {p : LockProg σ ω α} {f : α → LockProg σ ω β} (hp : Sectioned G p)
    (hf : ∀ a, Sectioned G (f a)) : Sectioned G (p >>= f) := by
  intro s
  refine (meets_bind p f).mpr ((hp s).mono (fun _ _ h => h) ?_)
  rintro depth start a s' ⟨rfl, rfl⟩
  exact hf a s'

theorem sectioned_whenever {b : Prop} [Decidable b] {p : LockProg σ ω Unit}
    (hp : Sectioned G p) : Sectioned G (whenever b p) := by
  unfold whenever
  split_ifs
  · exact hp
  · exact sectioned_pure ()

theorem sectioned_each {xs : List β} {f : β → LockProg σ ω Unit}
    (hf : ∀ x, Sectioned G (f x)) : Sectioned G (each xs f) := by
  induction xs with
  | nil => exact sectioned_pure ()
  | cons x xs ih => exact (hf x).bind fun _ => ih

/-- A critical section whose body leaves the mutex alone. -/
theorem sectioned_locked {p : LockProg σ ω α} (hp : ∀ s, p.events s = [])
    (hG : ∀ s, G s (p.run s).state) : Sectioned G (locked p) := by
  intro s
  rw [meets_locked, meets_of_events (hp s), if_pos (Nat.le_refl 1)]
  exact ⟨hG s, fun s' => ⟨rfl, rfl⟩⟩

end Sectioned

/-! ## What a program writes amid others -/

/-- A program on its way: what it has written, each value with the turn it was
written in, the guards alive, the turn, the result, and the value. -/
structure Passage (σ α : Type) where
  writes : List (Nat × σ)
  depth : Nat
  turn : Nat
  val : α
  state : σ

/-- The passage of a program, with `others j` happening to the value when turn
`j` is over. -/
def amid (others : Nat → σ → σ) : Nat → Nat → LockProg σ ω α → σ → Passage σ α
  | depth, j, done a, s => ⟨[], depth, j, a, s⟩
  | depth, j, acquire k, s => amid others (depth + 1) j k s
  | depth, j, release k, s =>
      if depth ≤ 1 then amid others 0 (j + 1) k (others j s) else amid others (depth - 1) j k s
  | depth, j, read k, s => amid others depth j (k s) s
  | depth, j, write s' k, _ =>
      { amid others depth j k s' with writes := (j, s') :: (amid others depth j k s').writes }
  | depth, j, emit _ k, s => amid others depth j k s

section Amid
variable {others : Nat → σ → σ} {depth j : Nat} {s : σ}

@[simp] theorem amid_pure (a : α) :
    amid others depth j (pure a : LockProg σ ω α) s = ⟨[], depth, j, a, s⟩ := rfl

@[simp] theorem amid_getState :
    amid others depth j (getState : LockProg σ ω σ) s = ⟨[], depth, j, s, s⟩ := rfl

@[simp] theorem amid_setState (s' : σ) :
    amid others depth j (setState s' : LockProg σ ω Unit) s = ⟨[(j, s')], depth, j, (), s'⟩ := rfl

@[simp] theorem amid_output (o : ω) :
    amid others depth j (output o : LockProg σ ω Unit) s = ⟨[], depth, j, (), s⟩ := rfl

@[simp] theorem amid_bind (p : LockProg σ ω α) (f : α → LockProg σ ω β) :
    amid others depth j (p >>= f) s =
      let r := amid others depth j p s
      let r' := amid others r.depth r.turn (f r.val) r.state
      { r' with writes := r.writes ++ r'.writes } := by
  change amid others depth j (bind p f) s = _
  induction p generalizing depth j s with
  | done a => rfl
  | acquire k ih => exact ih
  | release k ih =>
      rw [bind, amid, amid]
      split_ifs
      · exact ih
      · exact ih
  | read k ih => exact ih s
  | write s' k ih =>
      rw [bind, amid, amid, ih]
      rfl
  | emit o k ih => exact ih

/-- If the guard is the only one, the turn ends with it. -/
@[simp] theorem amid_locked (p : LockProg σ ω α) :
    amid others depth j (locked p) s =
      let r := amid others (depth + 1) j p s
      if r.depth ≤ 1 then ⟨r.writes, 0, r.turn + 1, r.val, others r.turn r.state⟩
      else { r with depth := r.depth - 1 } := by
  refine (amid_bind p fun a => release (done a)).trans ?_
  simp only [amid]
  split_ifs <;> simp

theorem amid_each {xs : List β} {f : β → LockProg σ ω Unit}
    (hf : ∀ x, amid others depth j (f x) s = ⟨[], depth, j, (), s⟩) :
    amid others depth j (each xs f) s = ⟨[], depth, j, (), s⟩ := by
  induction xs with
  | nil => rfl
  | cons x xs ih =>
      change amid others depth j (f x >>= fun _ => each xs f) s = _
      simp only [amid_bind, hf, ih, List.append_nil]

theorem amid_whenever {b : Prop} [Decidable b] {p : LockProg σ ω Unit}
    (hp : amid others depth j p s = ⟨[], depth, j, (), s⟩) :
    amid others depth j (whenever b p) s = ⟨[], depth, j, (), s⟩ := by
  unfold whenever
  split_ifs
  · exact hp
  · rfl

/-- What leaves the mutex alone passes as if alone, within the turn. -/
theorem amid_of_events {p : LockProg σ ω α} (hp : p.events s = []) :
    ∃ ws, (∀ w ∈ ws, w.1 = j) ∧
      amid others depth j p s = ⟨ws, depth, j, (p.run s).val, (p.run s).state⟩ := by
  induction p generalizing s with
  | done a => exact ⟨[], by simp, rfl⟩
  | acquire k ih => exact absurd hp (List.cons_ne_nil _ _)
  | release k ih => exact absurd hp (List.cons_ne_nil _ _)
  | read k ih => exact ih s hp
  | write s' k ih =>
      obtain ⟨ws, hws, hk⟩ := ih (s := s') hp
      refine ⟨(j, s') :: ws, fun w hw => ?_, ?_⟩
      · rcases List.mem_cons.mp hw with rfl | hw
        · rfl
        · exact hws w hw
      · rw [amid, hk]
        rfl
  | emit o k ih => exact ih hp

/-- A critical section is one turn. -/
theorem amid_locked_of_events {p : LockProg σ ω α} (hp : p.events s = []) :
    ∃ ws, (∀ w ∈ ws, w.1 = j) ∧
      amid others 0 j (locked p) s =
        ⟨ws, 0, j + 1, (p.run s).val, others j (p.run s).state⟩ := by
  obtain ⟨ws, hws, hp⟩ : ∃ ws, (∀ w ∈ ws, w.1 = j) ∧
      amid others 1 j p s = ⟨ws, 1, j, (p.run s).val, (p.run s).state⟩ := amid_of_events hp
  refine ⟨ws, hws, ?_⟩
  rw [amid_locked, hp]
  rfl

/-- With nothing happening in between, a passage ends where `run` says. -/
theorem amid_alone (p : LockProg σ ω α) :
    (amid (fun _ s => s) depth j p s).val = (p.run s).val ∧
      (amid (fun _ s => s) depth j p s).state = (p.run s).state := by
  induction p generalizing depth j s with
  | done a => exact ⟨rfl, rfl⟩
  | acquire k ih => exact ih
  | release k ih =>
      rw [amid]
      split_ifs
      · exact ih
      · exact ih
  | read k ih => exact ih s
  | write s' k ih => exact ih
  | emit o k ih => exact ih

end Amid

/-! ## Many programs -/

/-- The value, and the programs that have started. -/
structure Tasks (σ ω : Type) where
  value : σ
  running : List (LockProg σ ω Unit)

/-- A program starts, or one that has started gets a turn. -/
inductive Move (ℓ : Type)
  | start (l : ℓ)
  | turn (i : Nat)

section Tasks
variable {ℓ : Type} (program : ℓ → LockProg σ ω Unit)

def Tasks.move (t : Tasks σ ω) : Move ℓ → Tasks σ ω
  | .start l => { t with running := t.running ++ [program l] }
  | .turn i =>
      match t.running[i]? with
      | some p => ⟨(p.turn 0 t.value).state, t.running.set i (p.turn 0 t.value).rest⟩
      | none => t

/-- What has been started goes on guaranteeing `G`. -/
def Tasks.Sound (G : σ → σ → Prop) (t : Tasks σ ω) : Prop := ∀ p ∈ t.running, Guarantees G p

variable {program} {G : σ → σ → Prop} {t : Tasks σ ω}

/-- A turn of a program does what the program guarantees, and so will every turn
of the rest of it. -/
theorem Guarantees.turn {p : LockProg σ ω α} (hrefl : ∀ s, G s s) (h : Guarantees G p) (s : σ) :
    G s (p.turn 0 s).state ∧ Guarantees G (p.turn 0 s).rest := by
  suffices hmain : ∀ (depth : Nat) (start s : σ),
      Meets G (fun _ start _ s => G start s) depth start p s →
      G start (p.turn depth s).state ∧ Guarantees G (p.turn depth s).rest from hmain 0 s s (h s)
  clear h s
  induction p with
  | done a => exact fun _ _ _ h => ⟨h, fun s' => hrefl s'⟩
  | acquire k ih => exact fun depth start s h => ih (depth + 1) start s h
  | release k ih =>
      intro depth start s h
      rw [Meets] at h
      rw [LockProg.turn]
      by_cases hdepth : depth ≤ 1
      · rw [if_pos hdepth] at h ⊢
        exact h
      · rw [if_neg hdepth] at h ⊢
        exact ih (depth - 1) start s h
  | read k ih => exact fun depth start s h => ih s depth start s h
  | write s' k ih => exact fun depth start s h => ih depth start s' h
  | emit o k ih => exact fun depth start s h => ih depth start s h

/-- What every turn keeps, a run keeps. -/
theorem Guarantees.run {J : σ → Prop} {p : LockProg σ ω α} (hrefl : ∀ s, G s s)
    (hJ : ∀ s s', J s → G s s' → J s') (h : Guarantees G p) {s : σ} (hs : J s) :
    J (p.run s).state := by
  have hturns : ∀ k (p : LockProg σ ω α) s, Guarantees G p → J s → J (turns k p s).2 := by
    intro k
    induction k with
    | zero => exact fun _ _ _ hs => hs
    | succ k ih =>
        intro p s h hs
        obtain ⟨hstate, hrest⟩ := h.turn hrefl s
        exact ih _ _ hrest (hJ _ _ hs hstate)
  obtain ⟨k, a, hk⟩ := run_eq_turns p s
  have hlast := hturns k p s h hs
  rwa [hk] at hlast

/-- Every move does `G` to the value. -/
theorem move_guarantee (hrefl : ∀ s, G s s) (hp : ∀ l, Guarantees G (program l))
    (ht : t.Sound G) (m : Move ℓ) :
    G t.value (t.move program m).value ∧ (t.move program m).Sound G := by
  cases m with
  | start l =>
      refine ⟨hrefl _, fun p hmem => ?_⟩
      rcases List.mem_append.mp hmem with hmem | hmem
      · exact ht p hmem
      · rw [List.mem_singleton.mp hmem]
        exact hp l
  | turn i =>
      rw [Tasks.move]
      cases hi : t.running[i]? with
      | none => exact ⟨hrefl _, ht⟩
      | some p =>
          obtain ⟨hvalue, hrest⟩ := (ht p (List.mem_of_getElem? hi)).turn hrefl t.value
          refine ⟨hvalue, fun q hq => ?_⟩
          rcases List.mem_or_eq_of_mem_set hq with hq | rfl
          · exact ht q hq
          · exact hrest

/-- What every turn keeps holds along every interleaving. -/
theorem always_moves {J : σ → Prop} (hrefl : ∀ s, G s s) (hp : ∀ l, Guarantees G (program l))
    (hJ : ∀ s s', J s → G s s' → J s') {s : σ} (h : J s) (ms : List (Move ℓ)) :
    Always (Tasks.move program) (fun t => t.Sound G ∧ J t.value) ⟨s, []⟩ ms := by
  refine always_of_step (fun t m ht => ?_) ms ⟨fun p hmem => absurd hmem List.not_mem_nil, h⟩
  obtain ⟨hvalue, hsound⟩ := move_guarantee hrefl hp ht.1 m
  exact ⟨hsound, hJ _ _ ht.2 hvalue⟩

theorem after_turns (p : LockProg σ ω Unit) (ps : List (LockProg σ ω Unit)) (s : σ) (k : Nat) :
    after (Tasks.move program) ⟨s, ps ++ [p]⟩ (List.replicate k (.turn ps.length)) =
      ⟨(turns k p s).2, ps ++ [(turns k p s).1]⟩ := by
  induction k generalizing p s with
  | zero => rfl
  | succ k ih =>
      have hmove : (Tasks.mk s (ps ++ [p])).move program (.turn ps.length) =
          ⟨(p.turn 0 s).state, ps ++ [(p.turn 0 s).rest]⟩ := by
        unfold Tasks.move
        dsimp only
        rw [List.getElem?_append_right (Nat.le_refl _), Nat.sub_self]
        dsimp only [List.getElem?_cons_zero]
        rw [List.set_append_right _ _ (Nat.le_refl _), Nat.sub_self]
        rfl
      rw [List.replicate_succ, after, hmove]
      exact ih _ _

variable (program) in
/-- Whole programs, one after the other, are an interleaving. -/
theorem exists_moves (ls : List ℓ) (t : Tasks σ ω) :
    ∃ ms, (after (Tasks.move program) t ms).value =
      after (fun s l => ((program l).run s).state) t.value ls := by
  induction ls generalizing t with
  | nil => exact ⟨[], rfl⟩
  | cons l ls ih =>
      obtain ⟨k, a, hk⟩ := run_eq_turns (program l) t.value
      have hturns := @after_turns _ _ _ program (program l) t.running t.value k
      obtain ⟨ms, hms⟩ := ih (after (Tasks.move program) (t.move program (.start l))
        (List.replicate k (.turn t.running.length)))
      refine ⟨.start l :: (List.replicate k (.turn t.running.length) ++ ms), ?_⟩
      rw [after, after_append, hms]
      change after _ (after (Tasks.move program) ⟨t.value, t.running ++ [program l]⟩ _).value ls = _
      rw [hturns, hk]
      rfl

end Tasks

end LockProg

end NatPiercer
