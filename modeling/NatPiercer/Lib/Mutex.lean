/-
# `Lib.Mutex` — one mutex, instruction by instruction

In `Lib.Interleave` a turn runs a program to the end of its next critical
section, and `Lib.Threads` executes single instructions.  For programs that
leave the value alone but with the mutex in hand (`Guarded`) it is the same:
whenever the mutex is free, the value is one that turns lead to
(`exists_moves`).  What a thread has done outside its critical sections since
the last of them is put off to its next turn.

What `Guarded` says besides is how a program may end: with the mutex given
back, or where it waits for the mutex that it has.
-/
import NatPiercer.Lib.Interleave
import NatPiercer.Lib.Threads

namespace NatPiercer

namespace LockProg

variable {σ ω α β : Type}

/-- As the round of a thread that keeps `b`. -/
def asRound (b : β) : LockProg σ ω α → Prog Unit σ ω β
  | done _ => .done b
  | acquire k => .lock () (asRound b k)
  | release k => .unlock () (asRound b k)
  | read k => .read fun s => asRound b (k s)
  | write s k => .write (fun _ => s) (asRound b k)
  | emit o k => .emit o (asRound b k)

theorem eq_done_of_asRound {q : LockProg σ ω α} {b b' : β} (h : q.asRound b = .done b') :
    ∃ a, q = done a := by
  cases q with
  | done a => exact ⟨a, rfl⟩
  | acquire | release | read | write | emit => exact nomatch h

/-- With the mutex in hand the value is what it has last been seen or made to be, and
without it the program leaves it alone.  It comes to its end only if it may,
and to waiting for itself only if it may. -/
def Guarded (ends again : Prop) : Option σ → LockProg σ ω α → Prop
  | none, done _ => ends
  | some _, done _ => False
  | none, acquire k => ∀ s, Guarded ends again (some s) k
  | some _, acquire _ => again
  | none, release _ => False
  | some _, release k => Guarded ends again none k
  | none, read _ => False
  | some s, read k => Guarded ends again (some s) (k s)
  | none, write _ _ => False
  | some _, write s k => Guarded ends again (some s) k
  | hand, emit _ k => Guarded ends again hand k

section Rules
variable {ends ends' again again' : Prop} {hand : Option σ} {p : LockProg σ ω α}
  {f : α → LockProg σ ω β}

theorem Guarded.mono (hends : ends → ends') (hagain : again → again') :
    ∀ {hand : Option σ}, Guarded ends again hand p → Guarded ends' again' hand p := by
  induction p with
  | done a =>
      intro hand h
      cases hand with
      | none => exact hends h
      | some s => exact h
  | acquire k ih =>
      intro hand h
      cases hand with
      | none => exact fun s => ih (h s)
      | some s => exact hagain h
  | release k ih =>
      intro hand h
      cases hand with
      | none => exact h
      | some s => exact ih h
  | read k ih =>
      intro hand h
      cases hand with
      | none => exact h
      | some s => exact ih s h
  | write s' k ih =>
      intro hand h
      cases hand with
      | none => exact h
      | some s => exact ih h
  | emit o k ih =>
      intro hand h
      cases hand <;> exact ih h

/-- What comes after is begun without the mutex, if it is. -/
theorem Guarded.bind (hp : Guarded ends again hand p)
    (hf : ends → ∀ a, Guarded ends' again none (f a)) : Guarded ends' again hand (p >>= f) := by
  change Guarded ends' again hand (LockProg.bind p f)
  induction p generalizing hand with
  | done a =>
      cases hand with
      | none => exact hf hp a
      | some s => exact hp.elim
  | acquire k ih =>
      cases hand with
      | none => exact fun s => ih (hp s)
      | some s => exact hp
  | release k ih =>
      cases hand with
      | none => exact hp.elim
      | some s => exact ih hp
  | read k ih =>
      cases hand with
      | none => exact hp.elim
      | some s => exact ih s hp
  | write s' k ih =>
      cases hand with
      | none => exact hp.elim
      | some s => exact ih hp
  | emit o k ih => cases hand <;> exact ih hp

/-- The program gives the mutex back and ends without it. -/
def GivesBack (p : LockProg σ ω α) : Prop := Guarded True False none p

theorem GivesBack.guarded (hp : GivesBack p) (hends : ends) : Guarded ends again none p :=
  hp.mono (fun _ => hends) False.elim

theorem givesBack_pure (a : α) : GivesBack (pure a : LockProg σ ω α) := trivial

theorem givesBack_output (o : ω) : GivesBack (output o : LockProg σ ω Unit) := trivial

theorem GivesBack.bind (hp : GivesBack p) (hf : ∀ a, GivesBack (f a)) : GivesBack (p >>= f) :=
  Guarded.bind hp fun _ => hf

theorem givesBack_whenever {b : Prop} [Decidable b] {p : LockProg σ ω Unit} (hp : GivesBack p) :
    GivesBack (whenever b p) := by
  unfold whenever
  split_ifs
  · exact hp
  · exact givesBack_pure ()

theorem givesBack_each {xs : List β} {f : β → LockProg σ ω Unit} (hf : ∀ x, GivesBack (f x)) :
    GivesBack (each xs f) := by
  induction xs with
  | nil => exact givesBack_pure ()
  | cons x xs ih => exact (hf x).bind fun _ => ih

/-- A critical section whose body leaves the mutex alone. -/
theorem givesBack_locked (hp : ∀ s, p.events s = []) : GivesBack (locked p) := by
  intro s
  have hbody := hp s
  clear hp
  change Guarded True False (some s) (LockProg.bind p fun a => release (done a))
  induction p generalizing s with
  | done a => trivial
  | acquire k ih | release k ih => exact absurd hbody (List.cons_ne_nil _ _)
  | read k ih => exact ih s s hbody
  | write s' k ih => exact ih s' hbody
  | emit o k ih => exact ih s hbody

/-- A critical section whose body goes on to take the mutex. -/
theorem guarded_locked_again (hp : ∀ s, ∃ es, p.events s = .acquire :: es) :
    Guarded False True none (locked p) := by
  intro s
  have hbody := hp s
  clear hp
  change Guarded False True (some s) (LockProg.bind p fun a => release (done a))
  induction p generalizing s with
  | done a =>
      obtain ⟨es, h⟩ := hbody
      exact absurd h.symm (List.cons_ne_nil _ _)
  | acquire k ih => trivial
  | release k ih =>
      obtain ⟨es, h⟩ := hbody
      exact absurd (List.cons.inj h).1 (by decide)
  | read k ih => exact ih s s hbody
  | write s' k ih => exact ih s' hbody
  | emit o k ih => exact ih s hbody

end Rules

end LockProg

namespace Threads

open LockProg

variable {ι σ ω : Type} {α ℓ : ι → Type} [DecidableEq ι]

/-! ## What an instruction does -/

/-- The value, for the one who has the mutex. -/
def hand (i : ι) (owner : Option ι) (value : σ) : Option σ :=
  if owner = some i then some value else none

/-- An instruction of the thread `i`, between who has the mutex and the value before,
and after. -/
inductive Executes (i : ι) :
    LockProg σ ω Unit → Option ι → σ → LockProg σ ω Unit → Option ι → σ → Prop
  | take (k s) : Executes i (acquire k) none s k (some i) s
  | giveBack (k s) : Executes i (release k) (some i) s k none s
  | read (k s) : Executes i (read k) (some i) s (k s) (some i) s
  | write (s' k s) : Executes i (write s' k) (some i) s k (some i) s'
  | emit (o k owner s) : Executes i (emit o k) owner s k owner s

section Executes
variable {i j : ι} {q q' : LockProg σ ω Unit} {owner owner' : Option ι} {s s' : σ}
  {ends again : Prop}

@[simp] theorem hand_self : hand i (some i) s = some s := if_pos rfl

@[simp] theorem hand_none : hand i none s = none := if_neg (Option.some_ne_none i).symm

theorem hand_of_ne (h : j ≠ i) : hand j (some i) s = none :=
  if_neg fun hi => h (Option.some.inj hi).symm

theorem Executes.guarded (h : Executes i q owner s q' owner' s')
    (hq : Guarded ends again (hand i owner s) q) : Guarded ends again (hand i owner' s') q' := by
  cases h with
  | take =>
      rw [hand_none] at hq
      rw [hand_self]
      exact hq s
  | giveBack =>
      rw [hand_self] at hq
      rw [hand_none]
      exact hq
  | read | write =>
      rw [hand_self] at hq ⊢
      exact hq
  | emit o k =>
      generalize hand i owner s = h at hq ⊢
      cases h <;> exact hq

/-- The others have in hand what they had. -/
theorem Executes.hand_eq (h : Executes i q owner s q' owner' s') (hj : j ≠ i) :
    hand j owner' s' = hand j owner s := by
  cases h with
  | take | giveBack => rw [hand_none, hand_of_ne hj]
  | read | emit => rfl
  | write => rw [hand_of_ne hj, hand_of_ne hj]

end Executes

section Step
variable (round : (i : ι) → α i → ℓ i → Prog Unit σ ω (α i)) {t : Threads ι Unit σ ω α} {i : ι}
  {q : LockProg σ ω Unit} {ends again : Prop}

/-- A thread that has its turn executes an instruction, unless it sleeps, or waits, or
is at the end. -/
theorem step_cases {a : α i} (hprog : t.prog i = q.asRound a)
    (hq : Guarded ends again (hand i (t.owner ()) t.value) q) :
    t.act round (.step i) = t ∨
      ∃ q', (t.act round (.step i)).prog i = q'.asRound a ∧
        (t.act round (.step i)).asleep = t.asleep ∧
        Executes i q (t.owner ()) t.value q' ((t.act round (.step i)).owner ())
          (t.act round (.step i)).value := by
  have howner : ¬ Guarded ends again none q → t.owner () = some i := by
    intro hnot
    by_contra hother
    rw [hand, if_neg hother] at hq
    exact hnot hq
  unfold act
  dsimp only
  rw [hprog]
  split_ifs
  · cases q with
    | done u => exact Or.inl rfl
    | acquire k =>
        rw [asRound, execute]
        split_ifs with hfree
        · refine Or.inr ⟨k, goOn_prog _ _ _, rfl, ?_⟩
          change Executes i _ _ _ k (Function.update t.owner () (some i) ()) t.value
          rw [hfree, Function.update_self]
          exact .take k t.value
        · exact Or.inl rfl
    | release k =>
        refine Or.inr ⟨k, goOn_prog _ _ _, rfl, ?_⟩
        change Executes i _ _ _ k (Function.update t.owner () none ()) t.value
        rw [howner id, Function.update_self]
        exact .giveBack k t.value
    | read k =>
        refine Or.inr ⟨k t.value, goOn_prog _ _ _, rfl, ?_⟩
        change Executes i _ _ _ (k t.value) (t.owner ()) t.value
        rw [howner id]
        exact .read k t.value
    | write s' k =>
        refine Or.inr ⟨k, goOn_prog _ _ _, rfl, ?_⟩
        change Executes i _ _ _ k (t.owner ()) s'
        rw [howner id]
        exact .write s' k t.value
    | emit o k => exact Or.inr ⟨k, goOn_prog _ _ _, rfl, .emit o k (t.owner ()) t.value⟩
  · exact Or.inl rfl

end Step

/-! ## What can be said of all threads -/

section Obeys
variable {round : (i : ι) → α i → ℓ i → Prog Unit σ ω (α i)} {t : Threads ι Unit σ ω α}
  {ends again : ι → Prop} {i : ι}

/-- Each thread is at a program of which so much can be said, and none sleeps. -/
structure Obeys (ends again : ι → Prop) (t : Threads ι Unit σ ω α) : Prop where
  guarded : ∀ i, ∃ (q : LockProg σ ω Unit) (a : α i), t.prog i = q.asRound a ∧
    Guarded (ends i) (again i) (hand i (t.owner ()) t.value) q
  awake : ∀ i, t.asleep i = none

theorem obeys_start (s : σ) (init : (i : ι) → α i) (again : ι → Prop) :
    Obeys (fun _ => True) again (start s init : Threads ι Unit σ ω α) :=
  ⟨fun i => ⟨.done (), init i, rfl, trivial⟩, fun _ => rfl⟩

/-- Who is at the end may be, and does not have the mutex. -/
theorem Obeys.of_done (h : Obeys ends again t) {a : α i} (hdone : t.prog i = .done a) :
    hand i (t.owner ()) t.value = none ∧ ends i := by
  obtain ⟨q, b, hprog, hq⟩ := h.guarded i
  obtain ⟨u, rfl⟩ := eq_done_of_asRound (hprog.symm.trans hdone)
  cases hhand : hand i (t.owner ()) t.value with
  | none =>
      rw [hhand] at hq
      exact ⟨rfl, hq⟩
  | some s =>
      rw [hhand] at hq
      exact hq.elim

theorem Obeys.step (h : Obeys ends again t) (i : ι) :
    Obeys ends again (t.act round (.step i)) := by
  obtain ⟨q, a, hprog, hq⟩ := h.guarded i
  rcases step_cases round hprog hq with hsame | ⟨q', hprog', hasleep, hexec⟩
  · rw [hsame]
    exact h
  · refine ⟨fun j => ?_, fun j => (congrFun hasleep j).trans (h.awake j)⟩
    by_cases hj : j = i
    · subst hj
      exact ⟨q', a, hprog', hexec.guarded hq⟩
    · obtain ⟨p, b, hprog, hp⟩ := h.guarded j
      refine ⟨p, b, ((step_prog round t i).1 j hj).trans hprog, ?_⟩
      rw [hexec.hand_eq hj]
      exact hp

/-- A round begins, of which more may be said, or less. -/
theorem Obeys.goOn (h : Obeys ends again t) {ends' again' : ι → Prop} {p : Prog Unit σ ω (α i)}
    {a : α i} (hdone : t.prog i = .done a)
    (hp : ∃ (q : LockProg σ ω Unit) (b : α i), p = q.asRound b ∧
      Guarded (ends' i) (again' i) none q)
    (hothers : ∀ j, j ≠ i → ends' j = ends j ∧ again' j = again j) :
    Obeys ends' again' (t.goOn i p) := by
  refine ⟨fun j => ?_, h.awake⟩
  by_cases hj : j = i
  · subst hj
    obtain ⟨q, b, hq, hguarded⟩ := hp
    refine ⟨q, b, (goOn_prog _ _ _).trans hq, ?_⟩
    change Guarded _ _ (hand j (t.owner ()) t.value) q
    rw [(h.of_done hdone).1]
    exact hguarded
  · obtain ⟨q, b, hprog, hq⟩ := h.guarded j
    refine ⟨q, b, (goOn_prog_of_ne _ hj _).trans hprog, ?_⟩
    rw [(hothers j hj).1, (hothers j hj).2]
    exact hq

theorem Obeys.act (h : Obeys ends again t) (x : Act ι ℓ)
    (hround : ∀ i l a, x = .begin i l → t.prog i = .done a →
      ∃ (q : LockProg σ ω Unit) (b : α i), round i a l = q.asRound b ∧
        Guarded (ends i) (again i) none q) : Obeys ends again (t.act round x) := by
  cases x with
  | step i => exact h.step i
  | wake i =>
      refine ⟨h.guarded, fun j => ?_⟩
      change Function.update t.asleep i none j = none
      by_cases hj : j = i
      · rw [hj, Function.update_self]
      · rw [Function.update_of_ne hj]
        exact h.awake j
  | begin i l =>
      rcases begin_cases round t i l with hsame | ⟨a, -, hdone, hbegin⟩
      · rw [hsame]
        exact h
      · rw [hbegin]
        exact h.goOn hdone (hround i l a rfl hdone) fun _ _ => ⟨rfl, rfl⟩

theorem Obeys.after_scheduled (h : Obeys ends again t) (f : Nat → ι) (n : Nat) :
    Obeys ends again (after (Threads.act round) t (scheduled f n)) := by
  induction n generalizing t f with
  | zero => exact h
  | succ n ih =>
      rw [scheduled_succ]
      exact ih (h.step (f 0)) _

/-- Who cannot go on is at the end, or waits for the mutex. -/
theorem Obeys.of_not_runs (h : Obeys ends again t) (hi : ¬ t.Runs i) :
    (∃ a, t.prog i = .done a) ∨ (∃ k, t.prog i = .lock () k) ∧ t.owner () ≠ none := by
  by_contra hnot
  push Not at hnot
  refine hi ⟨h.awake i, hnot.1, fun m k hlock => hnot.2 ⟨k, hlock⟩⟩

/-- If nobody can go on, who has the mutex waits for it. -/
theorem Obeys.again_of_owner (h : Obeys ends again t) (hi : ¬ t.Runs i)
    (howner : t.owner () = some i) : again i ∧ ∃ k, t.prog i = .lock () k := by
  obtain ⟨q, a, hprog, hq⟩ := h.guarded i
  rw [howner, hand_self] at hq
  rcases h.of_not_runs hi with ⟨b, hdone⟩ | ⟨⟨k, hlock⟩, -⟩
  · obtain ⟨u, rfl⟩ := eq_done_of_asRound (hprog.symm.trans hdone)
    exact hq.elim
  · refine ⟨?_, k, hlock⟩
    rw [hlock] at hprog
    cases q with
    | acquire k => exact hq
    | done | release | read | write | emit => exact nomatch hprog

end Obeys

/-! ## Turns -/

section Follows
variable {ι' : Type} (program : ι' → LockProg σ ω Unit)
  (round : (i : ι) → α i → ℓ i → Prog Unit σ ω (α i))

/-- The rest of a turn of `p`, begun at `start`, is that of `q`. -/
def SameTurn (p q : LockProg σ ω Unit) (start : σ) : Option σ → Prop
  | none => ∀ s, (p.turn 0 s).rest = (q.turn 0 s).rest ∧ (p.turn 0 s).state = (q.turn 0 s).state
  | some s =>
      (p.turn 0 start).rest = (q.turn 1 s).rest ∧ (p.turn 0 start).state = (q.turn 1 s).state

def Ended (t : Threads ι Unit σ ω α) (i : ι) : Prop :=
  (∃ a, t.prog i = .done a) ∧ hand i (t.owner ()) t.value = none

/-- The thread is in the course of the turn that the task `k` has next. -/
def Going (t : Threads ι Unit σ ω α) (T : Tasks σ ω) (i : ι) (k : Nat) : Prop :=
  ∃ (p q : LockProg σ ω Unit) (a : α i), T.running[k]? = some p ∧ t.prog i = q.asRound a ∧
    Guarded True True (hand i (t.owner ()) t.value) q ∧
    SameTurn p q T.value (hand i (t.owner ()) t.value)

/-- The threads follow the tasks: each has its own, and when nobody has the mutex the
value is the same. -/
structure Follows (t : Threads ι Unit σ ω α) (T : Tasks σ ω) (task : ι → Nat) : Prop where
  value : t.owner () = none → T.value = t.value
  going : ∀ i, Ended t i ∨ Going t T i (task i)
  apart : ∀ i j, i ≠ j → ¬ Ended t i → ¬ Ended t j → task i ≠ task j

section Steps
variable {program round} {t t' : Threads ι Unit σ ω α} {T T' : Tasks σ ω} {task : ι → Nat} {i : ι}
  {q q' p' : LockProg σ ω Unit} {a : α i}

/-- One thread has gone on, and the tasks of the others are as they were. -/
theorem Follows.of_executes (h : Follows t T task) (hi : ¬ Ended t i)
    (hprog' : t'.prog i = q'.asRound a) (hprogs : ∀ j, j ≠ i → t'.prog j = t.prog j)
    (hexec : Executes i q (t.owner ()) t.value q' (t'.owner ()) t'.value)
    (hq' : Guarded True True (hand i (t'.owner ()) t'.value) q')
    (hvalue : t'.owner () = none → T'.value = t'.value) (hp' : T'.running[task i]? = some p')
    (hsame : SameTurn p' q' T'.value (hand i (t'.owner ()) t'.value))
    (hrest : ∀ k, k ≠ task i → T'.running[k]? = T.running[k]?)
    (hstart : ∀ j, j ≠ i → hand j (t.owner ()) t.value = none ∨ T'.value = T.value) :
    Follows t' T' task := by
  have hends : ∀ j, j ≠ i → (Ended t' j ↔ Ended t j) := by
    intro j hj
    unfold Ended
    rw [hprogs j hj, hexec.hand_eq hj]
  have hback : ∀ j, ¬ Ended t' j → ¬ Ended t j := by
    intro j hj
    by_cases hji : j = i
    · rw [hji]
      exact hi
    · rwa [hends j hji] at hj
  refine ⟨hvalue, fun j => ?_, fun j k hjk hj hk => h.apart j k hjk (hback j hj) (hback k hk)⟩
  by_cases hji : j = i
  · subst hji
    exact Or.inr ⟨p', q', a, hp', hprog', hq', hsame⟩
  · by_cases hended : Ended t j
    · exact Or.inl ((hends j hji).mpr hended)
    · obtain ⟨p, r, b, hp, hprog, hr, hturn⟩ := (h.going j).resolve_left hended
      refine Or.inr ⟨p, r, b, (hrest _ (h.apart j i hji hended hi)).trans hp,
        (hprogs j hji).trans hprog, ?_, ?_⟩
      · rw [hexec.hand_eq hji]
        exact hr
      · rw [hexec.hand_eq hji]
        rcases hstart j hji with hnone | hvalue
        · rw [hnone] at hturn ⊢
          exact hturn
        · rw [hvalue]
          exact hturn

/-- As long as it has the mutex, the turn of its task is still to come. -/
theorem Follows.of_held (h : Follows t T task) (hi : ¬ Ended t i)
    (hprog' : t'.prog i = q'.asRound a) (hprogs : ∀ j, j ≠ i → t'.prog j = t.prog j)
    (hexec : Executes i q (t.owner ()) t.value q' (t'.owner ()) t'.value)
    (hq' : Guarded True True (hand i (t'.owner ()) t'.value) q') (hown' : t'.owner () = some i)
    (hp' : T.running[task i]? = some p') (hsame : SameTurn p' q' T.value (some t'.value)) :
    Follows t' T task := by
  refine h.of_executes hi hprog' hprogs hexec hq' (fun hfree => ?_) hp' ?_ (fun _ _ => rfl)
    fun _ _ => Or.inr rfl
  · exact absurd (hown'.symm.trans hfree) (Option.some_ne_none i)
  · rw [hown', hand_self]
    exact hsame

/-- An instruction is of a turn that is still to come, or is its last. -/
theorem Follows.step (h : Follows t T task) (i : ι) :
    ∃ ms, Follows (t.act round (.step i)) (after (Tasks.move program) T ms) task := by
  by_cases hi : Ended t i
  · obtain ⟨⟨a, hdone⟩, -⟩ := hi
    refine ⟨[], ?_⟩
    rw [(step_prog round t i).2.2 fun hruns => hruns.2.1 a hdone]
    exact h
  · obtain ⟨p, q, a, hp, hprog, hq, hturn⟩ := (h.going i).resolve_left hi
    rcases step_cases round hprog hq with hsame | ⟨q', hprog', -, hexec⟩
    · exact ⟨[], by rw [hsame]; exact h⟩
    · have hprogs := (step_prog round t i).1
      have hq' := hexec.guarded hq
      generalize t.act round (.step i) = t' at hprog' hexec hprogs hq' ⊢
      have hcase := hexec
      generalize hown : t.owner () = own, hval : t.value = v, hown' : t'.owner () = own',
        hval' : t'.value = v' at hcase
      cases hcase with
      | take k =>
          rw [hown, hand_none] at hturn
          have hvalue : T.value = t'.value := (h.value hown).trans (hval.trans hval'.symm)
          refine ⟨[], h.of_held hi hprog' hprogs hexec hq' hown' hp ?_⟩
          rw [hvalue]
          exact hturn t'.value
      | giveBack k =>
          rw [hown, hval, hand_self] at hturn
          have hmove : T.move program (.turn (task i)) = ⟨v, T.running.set (task i) q'⟩ := by
            unfold Tasks.move
            dsimp only
            rw [hp]
            exact congrArg₂ (fun v q => Tasks.mk v (T.running.set (task i) q)) hturn.2 hturn.1
          refine ⟨[.turn (task i)], ?_⟩
          rw [after, after, hmove]
          have hnew : (T.running.set (task i) q')[task i]? = some q' :=
            List.getElem?_set_self (List.getElem?_eq_some_iff.mp hp).1
          have hsame : SameTurn q' q' v (hand i (t'.owner ()) t'.value) := by
            rw [hown', hand_none]
            exact fun _ => ⟨rfl, rfl⟩
          refine h.of_executes hi hprog' hprogs hexec hq' (fun _ => hval'.symm) hnew hsame
            (fun k hk => List.getElem?_set_ne hk.symm) fun j hj => Or.inl ?_
          rw [hown, hand_of_ne hj]
      | read k | write s' k =>
          rw [hown, hval, hand_self] at hturn
          refine ⟨[], h.of_held hi hprog' hprogs hexec hq' hown' hp ?_⟩
          rw [hval']
          exact hturn
      | emit o k =>
          refine ⟨[], h.of_executes hi hprog' hprogs hexec hq' (fun hfree => ?_) hp ?_
            (fun _ _ => rfl) fun _ _ => Or.inr rfl⟩
          · exact (h.value (hown.trans (hown'.symm.trans hfree))).trans (hval.trans hval'.symm)
          · rw [hown', hval']
            rw [hown, hval] at hturn
            cases hhand : hand i own v <;> exact hhand ▸ hturn

theorem Follows.ended_of_done (h : Follows t T task) (hdone : t.prog i = .done a) : Ended t i := by
  rcases h.going i with hended | ⟨p, r, c, -, hprog, hr, -⟩
  · exact hended
  · refine ⟨⟨a, hdone⟩, ?_⟩
    obtain ⟨u, rfl⟩ := eq_done_of_asRound (hprog.symm.trans hdone)
    cases hhand : hand i (t.owner ()) t.value with
    | none => rfl
    | some s =>
        rw [hhand] at hr
        exact hr.elim

/-- A new round is a new task. -/
theorem Follows.goOn (h : Follows t T task) {b : α i} (hdone : t.prog i = .done a) (l' : ι')
    (hguarded : Guarded True True none (program l')) :
    ∃ task', Follows (t.goOn i ((program l').asRound b)) (T.move program (.start l')) task' := by
  have hhand := (h.ended_of_done hdone).2
  have hnew : (T.running ++ [program l'])[T.running.length]? = some (program l') :=
    List.getElem?_concat_length
  have hends : ∀ j, j ≠ i → (Ended (t.goOn i ((program l').asRound b)) j ↔ Ended t j) := by
    intro j hj
    unfold Ended
    rw [goOn_prog_of_ne _ hj]
    exact Iff.rfl
  have hold : ∀ j, j ≠ i → ¬ Ended t j → task j < T.running.length := by
    intro j hj hended
    obtain ⟨p, r, c, hp, -⟩ := (h.going j).resolve_left hended
    exact (List.getElem?_eq_some_iff.mp hp).1
  refine ⟨Function.update task i T.running.length, h.value, fun j => ?_, fun j k hjk hj hk => ?_⟩
  · by_cases hji : j = i
    · subst hji
      refine Or.inr ⟨program l', program l', b, ?_, goOn_prog _ _ _, ?_, ?_⟩
      · rw [Function.update_self]
        exact hnew
      · change Guarded True True (hand j (t.owner ()) t.value) _
        rw [hhand]
        exact hguarded
      · change SameTurn _ _ _ (hand j (t.owner ()) t.value)
        rw [hhand]
        exact fun _ => ⟨rfl, rfl⟩
    · by_cases hended : Ended t j
      · exact Or.inl ((hends j hji).mpr hended)
      · obtain ⟨p, r, c, hp, hprog, hr, hturn⟩ := (h.going j).resolve_left hended
        refine Or.inr ⟨p, r, c, ?_, (goOn_prog_of_ne _ hji _).trans hprog, hr, hturn⟩
        rw [Function.update_of_ne hji]
        exact (List.getElem?_append_left (hold j hji hended)).trans hp
  · by_cases hji : j = i
    · have hki : k ≠ i := fun hki => hjk (hji.trans hki.symm)
      rw [hji, Function.update_self, Function.update_of_ne hki]
      exact (hold k hki (mt (hends k hki).mpr hk)).ne'
    · rw [hends j hji] at hj
      rw [Function.update_of_ne hji]
      by_cases hki : k = i
      · rw [hki, Function.update_self]
        exact (hold j hji hj).ne
      · rw [Function.update_of_ne hki]
        exact h.apart j k hjk hj (mt (hends k hki).mpr hk)

/-- Nothing is begun. -/
theorem Follows.goOn_done (h : Follows t T task) {b : α i} (hdone : t.prog i = .done a) :
    Follows (t.goOn i (.done b)) T task := by
  have hended := h.ended_of_done hdone
  have hends : ∀ j, Ended (t.goOn i (.done b)) j ↔ Ended t j := by
    intro j
    by_cases hji : j = i
    · subst hji
      exact iff_of_true ⟨⟨b, goOn_prog _ _ _⟩, hended.2⟩ hended
    · unfold Ended
      rw [goOn_prog_of_ne _ hji]
      exact Iff.rfl
  refine ⟨h.value, fun j => ?_, fun j k hjk hj hk => ?_⟩
  · by_cases hj : Ended t j
    · exact Or.inl ((hends j).mpr hj)
    · obtain ⟨p, r, c, hp, hprog, hr, hturn⟩ := (h.going j).resolve_left hj
      have hji : j ≠ i := fun hji => hj (hji ▸ hended)
      exact Or.inr ⟨p, r, c, hp, (goOn_prog_of_ne _ hji _).trans hprog, hr, hturn⟩
  · exact h.apart j k hjk (mt (hends j).mpr hj) (mt (hends k).mpr hk)

/-- **Turns are enough.**  Whatever order the instructions are executed in: whenever
nobody has the mutex, the value is one that tasks which take turns can come to. -/
theorem exists_moves
    (hround : ∀ i a l, (∃ b, round i a l = .done b) ∨
      ∃ l' b, round i a l = (program l').asRound b ∧ Guarded True True none (program l'))
    (s : σ) (init : (i : ι) → α i) (as : List (Act ι ℓ))
    (hfree : (after (act round) (start s init) as).owner () = none) :
    ∃ ms, (after (Tasks.move program) ⟨s, []⟩ ms).value =
      (after (act round) (start s init) as).value := by
  have hstart : ∃ ms task, Follows (start s init : Threads ι Unit σ ω α)
      (after (Tasks.move program) ⟨s, []⟩ ms) task :=
    ⟨[], fun _ => 0, fun _ => rfl, fun i => Or.inl ⟨⟨init i, rfl⟩, hand_none⟩,
      fun i _ _ hi => absurd ⟨⟨init i, rfl⟩, hand_none⟩ hi⟩
  have hact : ∀ (t : Threads ι Unit σ ω α) x,
      (∃ ms task, Follows t (after (Tasks.move program) ⟨s, []⟩ ms) task) →
      ∃ ms task, Follows (t.act round x) (after (Tasks.move program) ⟨s, []⟩ ms) task := by
    rintro t x ⟨ms, task, h⟩
    cases x with
    | step i =>
        obtain ⟨ms', h'⟩ : ∃ ms', Follows (t.act round (.step i))
            (after (Tasks.move program) (after (Tasks.move program) ⟨s, []⟩ ms) ms')
            task := h.step i
        exact ⟨ms ++ ms', task, by rw [after_append]; exact h'⟩
    | wake i => exact ⟨ms, task, h.value, h.going, h.apart⟩
    | begin i l =>
        rcases begin_cases round t i l with hsame | ⟨a, -, hdone, hbegin⟩
        · rw [hsame]
          exact ⟨ms, task, h⟩
        · rw [hbegin]
          rcases hround i a l with ⟨b, hb⟩ | ⟨l', b, hb, hguarded⟩
          · rw [hb]
            exact ⟨ms, task, h.goOn_done hdone⟩
          · obtain ⟨task', h'⟩ := h.goOn hdone (b := b) l' hguarded
            rw [hb]
            exact ⟨ms ++ [.start l'], task', by rw [after_append]; exact h'⟩
  obtain ⟨ms, task, h⟩ := after_of_always _ as (always_of_step hact as hstart)
  exact ⟨ms, h.value hfree⟩

end Steps

end Follows

end Threads

end NatPiercer
