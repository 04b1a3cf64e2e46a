/-
# `Lib.Threads` — threads that share a value behind mutexes

A thread goes round and round.  What a round does is a program (`Prog`): it
takes a mutex, gives it back, goes to sleep on the condition variable of one,
wakes all who sleep there, reads the shared value, changes it, and puts
something out.  With what the last round ended, and with what comes from
outside, the next begins.

Nothing is atomic but one instruction, and a run is any list of instructions
of any of the threads (`Threads.act`).  A mutex is not reentrant.  Who sleeps
may wake up for no reason.

Programs that take the mutexes in one order (`Ordered`) do not wait for each
other in a circle, nor for themselves.  So the rounds that have begun come to
their ends, however the threads are scheduled, as long as none is left out
(`InOrder.settles`).
-/
import Mathlib.Data.DFinsupp.WellFounded
import Mathlib.SetTheory.Ordinal.Rank
import NatPiercer.Lib.LockProg
import NatPiercer.Lib.Run

namespace NatPiercer

/-- A program over a value behind several mutexes. -/
inductive Prog (μ σ ω α : Type) : Type
  | done (a : α)
  | lock (m : μ) (k : Prog μ σ ω α)
  | unlock (m : μ) (k : Prog μ σ ω α)
  /-- `cvar.wait(guard)`, or `cvar.wait_timeout(guard, …)` if it is timed, up to where
  it takes the mutex again. -/
  | sleep (m : μ) (timed : Bool) (k : Prog μ σ ω α)
  /-- `cvar.notify_all()` -/
  | notify (m : μ) (k : Prog μ σ ω α)
  | read (k : σ → Prog μ σ ω α)
  | write (f : σ → σ) (k : Prog μ σ ω α)
  | emit (o : ω) (k : Prog μ σ ω α)

namespace Prog

variable {μ σ ω α β : Type}

/-- Sequencing. -/
def bind : Prog μ σ ω α → (α → Prog μ σ ω β) → Prog μ σ ω β
  | done a, f => f a
  | lock m k, f => lock m (bind k f)
  | unlock m k, f => unlock m (bind k f)
  | sleep m timed k, f => sleep m timed (bind k f)
  | notify m k, f => notify m (bind k f)
  | read k, f => read fun s => bind (k s) f
  | write g k, f => write g (bind k f)
  | emit o k, f => emit o (bind k f)

instance : Monad (Prog μ σ ω) where
  pure := done
  bind := bind

/-- `let guard = m.lock().unwrap(); …`, up to the end of the block. -/
def locked (m : μ) (p : Prog μ σ ω α) : Prog μ σ ω α :=
  lock m (bind p fun a => unlock m (done a))

/-- What is read of the shared value. -/
def gets (g : σ → α) : Prog μ σ ω α := read fun s => done (g s)

def modify (f : σ → σ) : Prog μ σ ω Unit := write f (done ())

def output (o : ω) : Prog μ σ ω Unit := emit o (done ())

def notifyAll (m : μ) : Prog μ σ ω Unit := notify m (done ())

/-- `for x in xs { … }` -/
def each : List β → (β → Prog μ σ ω Unit) → Prog μ σ ω Unit
  | [], _ => pure ()
  | x :: xs, f => do
      f x
      each xs f

/-- `let mut guard = m.lock().unwrap(); while cond(guard) { guard = cvar.wait(guard).unwrap(); }`
and the end of the block, one time round: whether it is over.  Who wakes up
has to take the mutex again before it looks, and so is where it began. -/
def await (m : μ) (cond : σ → Bool) : Prog μ σ ω Bool :=
  lock m (read fun s => if cond s then sleep m false (done false) else unlock m (done true))

/-- `cvar.wait_timeout(m.lock().unwrap(), …)`, and the guard it gives is dropped. -/
def nap (m : μ) : Prog μ σ ω Unit := lock m (sleep m true (lock m (unlock m (done ()))))

/-! ## Execution -/

/-- Executed with nothing else going on. -/
def run : Prog μ σ ω α → σ → LockProg.Outcome σ ω α
  | done a, s => ⟨a, s, []⟩
  | lock _ k, s => run k s
  | unlock _ k, s => run k s
  | sleep _ _ k, s => run k s
  | notify _ k, s => run k s
  | read k, s => run (k s) s
  | write f k, s => run k (f s)
  | emit o k, s => ⟨(run k s).val, (run k s).state, o :: (run k s).sent⟩

@[simp] theorem run_pure (a : α) (s : σ) :
    (pure a : Prog μ σ ω α).run s = ⟨a, s, []⟩ := rfl

@[simp] theorem run_bind (p : Prog μ σ ω α) (f : α → Prog μ σ ω β) (s : σ) :
    (p >>= f).run s =
      ⟨((f (p.run s).val).run (p.run s).state).val,
        ((f (p.run s).val).run (p.run s).state).state,
        (p.run s).sent ++ ((f (p.run s).val).run (p.run s).state).sent⟩ := by
  change (bind p f).run s = _
  induction p generalizing s with
  | done a => rfl
  | lock m k ih => exact ih s
  | unlock m k ih => exact ih s
  | sleep m timed k ih => exact ih s
  | notify m k ih => exact ih s
  | read k ih => exact ih s s
  | write g k ih => exact ih (g s)
  | emit o k ih => simp [bind, run, ih s]

@[simp] theorem run_locked (m : μ) (p : Prog μ σ ω α) (s : σ) : (locked m p).run s = p.run s := by
  have h := run_bind p (fun a => unlock m (done a)) s
  change (bind p fun a => unlock m (done a)).run s = _ at h
  change (bind p fun a => unlock m (done a)).run s = _
  rw [h]
  simp [run]

@[simp] theorem run_gets (g : σ → α) (s : σ) :
    (gets g : Prog μ σ ω α).run s = ⟨g s, s, []⟩ := rfl

@[simp] theorem run_modify (f : σ → σ) (s : σ) :
    (modify f : Prog μ σ ω Unit).run s = ⟨(), f s, []⟩ := rfl

@[simp] theorem run_output (o : ω) (s : σ) :
    (output o : Prog μ σ ω Unit).run s = ⟨(), s, [o]⟩ := rfl

@[simp] theorem run_notifyAll (m : μ) (s : σ) :
    (notifyAll m : Prog μ σ ω Unit).run s = ⟨(), s, []⟩ := rfl

@[simp] theorem run_await (m : μ) (cond : σ → Bool) (s : σ) :
    (await m cond : Prog μ σ ω Bool).run s = ⟨!cond s, s, []⟩ := by
  change (if cond s then sleep m false (done false) else unlock m (done true)).run s = _
  cases cond s <;> rfl

@[simp] theorem run_nap (m : μ) (s : σ) : (nap m : Prog μ σ ω Unit).run s = ⟨(), s, []⟩ := rfl

/-- A loop of pure outputs emits them in order. -/
theorem run_each_output (xs : List β) (g : β → ω) (s : σ) :
    (each xs fun x => (output (g x) : Prog μ σ ω Unit)).run s = ⟨(), s, xs.map g⟩ := by
  induction xs with
  | nil => rfl
  | cons x xs ih => rw [each, run_bind, run_output, ih, List.map_cons, List.singleton_append]

/-- What the next instruction puts out. -/
def first : Prog μ σ ω α → Option ω
  | emit o _ => some o
  | _ => none

theorem first_eq_some {p : Prog μ σ ω α} {o : ω} (h : p.first = some o) : ∃ k, p = emit o k := by
  cases p with
  | emit o' k => exact ⟨k, congrArg (emit · k) (Option.some.inj h)⟩
  | done | lock | unlock | sleep | notify | read | write =>
      exact absurd h (Option.some_ne_none o).symm

/-- Nothing is put out as long as what is read satisfies `P`. -/
def Silent (P : σ → Prop) : Prog μ σ ω α → Prop
  | done _ => True
  | lock _ k | unlock _ k | sleep _ _ k | notify _ k | write _ k => Silent P k
  | read k => ∀ s, P s → Silent P (k s)
  | emit _ _ => False

/-! ## Order -/

variable {rank : μ → Nat} {base held : Set μ}

/-- With `held` in hand, the mutexes are taken in the order of their ranks, and in
the end those of `base` are left; and nobody goes to sleep with another one in
hand. -/
def Ordered (rank : μ → Nat) (base : Set μ) : Set μ → Prog μ σ ω α → Prop
  | held, done _ => held = base
  | held, lock m k => (∀ m' ∈ held, rank m' < rank m) ∧ Ordered rank base (insert m held) k
  | held, unlock m k => m ∈ held ∧ Ordered rank base (held \ {m}) k
  | held, sleep m _ k => held = {m} ∧ Ordered rank base ∅ k
  | held, notify _ k => Ordered rank base held k
  | held, read k => ∀ s, Ordered rank base held (k s)
  | held, write _ k => Ordered rank base held k
  | held, emit _ k => Ordered rank base held k

theorem Ordered.bind {base' : Set μ} {p : Prog μ σ ω α} {f : α → Prog μ σ ω β}
    (hf : ∀ a, Ordered rank base' base (f a)) :
    ∀ {held : Set μ}, Ordered rank base held p → Ordered rank base' held (p >>= f) := by
  induction p with
  | done a =>
      intro held hp
      rw [show held = base from hp]
      exact hf a
  | lock m k ih => exact fun hp => ⟨hp.1, ih hp.2⟩
  | unlock m k ih => exact fun hp => ⟨hp.1, ih hp.2⟩
  | sleep m timed k ih => exact fun hp => ⟨hp.1, ih hp.2⟩
  | notify m k ih => exact fun hp => ih hp
  | read k ih => exact fun hp s => ih s (hp s)
  | write g k ih => exact fun hp => ih hp
  | emit o k ih => exact fun hp => ih hp

theorem ordered_pure (a : α) : Ordered rank base base (pure a : Prog μ σ ω α) := rfl

theorem ordered_gets (g : σ → α) : Ordered rank base base (gets g : Prog μ σ ω α) := fun _ => rfl

theorem ordered_modify (f : σ → σ) : Ordered rank base base (modify f : Prog μ σ ω Unit) := rfl

theorem ordered_output (o : ω) : Ordered rank base base (output o : Prog μ σ ω Unit) := rfl

theorem ordered_notifyAll (m : μ) : Ordered rank base base (notifyAll m : Prog μ σ ω Unit) := rfl

/-- A mutex is taken that is higher than those in hand. -/
theorem ordered_locked {m : μ} {p : Prog μ σ ω α} (hm : ∀ m' ∈ base, rank m' < rank m)
    (hp : Ordered rank (insert m base) (insert m base) p) :
    Ordered rank base base (locked m p) := by
  have hfree : m ∉ base := fun hmem => lt_irrefl _ (hm m hmem)
  have hback : ∀ a : α, Ordered rank base (insert m base) (unlock m (done a) : Prog μ σ ω α) :=
    fun _ => ⟨Set.mem_insert m base, Set.insert_sdiff_self_of_notMem hfree⟩
  exact ⟨hm, hp.bind hback⟩

theorem ordered_each {xs : List β} {f : β → Prog μ σ ω Unit}
    (hf : ∀ x ∈ xs, Ordered rank base base (f x)) : Ordered rank base base (each xs f) := by
  induction xs with
  | nil => exact ordered_pure ()
  | cons x xs ih =>
      have hrest := ih fun y hy => hf y (List.mem_cons_of_mem x hy)
      exact (hf x List.mem_cons_self).bind fun _ => hrest

theorem ordered_await (m : μ) (cond : σ → Bool) :
    Ordered rank ∅ ∅ (await m cond : Prog μ σ ω Bool) := by
  refine ⟨fun m' hm' => absurd hm' (Set.notMem_empty m'), fun s => ?_⟩
  dsimp only
  split_ifs
  · exact ⟨LawfulSingleton.insert_empty_eq m, rfl⟩
  · exact ⟨Set.mem_insert m ∅, Set.insert_sdiff_self_of_notMem (Set.notMem_empty m)⟩

theorem ordered_nap (m : μ) : Ordered rank ∅ ∅ (nap m : Prog μ σ ω Unit) := by
  have hnone : ∀ m' ∈ (∅ : Set μ), rank m' < rank m :=
    fun m' hm' => absurd hm' (Set.notMem_empty m')
  exact ⟨hnone, LawfulSingleton.insert_empty_eq m, hnone, Set.mem_insert m ∅,
    Set.insert_sdiff_self_of_notMem (Set.notMem_empty m)⟩

/-! ## What is left of a program -/

/-- `k` is what is left of the program after an instruction. -/
inductive Next : Prog μ σ ω α → Prog μ σ ω α → Prop
  | lock (m k) : Next k (lock m k)
  | unlock (m k) : Next k (unlock m k)
  | sleep (m timed k) : Next k (sleep m timed k)
  | notify (m k) : Next k (notify m k)
  | read (k) (s : σ) : Next (k s) (read k)
  | write (f k) : Next k (write f k)
  | emit (o k) : Next k (emit o k)

instance : IsWellFounded (Prog μ σ ω α) Next where
  wf := by
    constructor
    intro p
    induction p with
    | done a => exact ⟨_, fun _ h => nomatch h⟩
    | lock m k ih | unlock m k ih | sleep m timed k ih | notify m k ih | write f k ih
    | emit o k ih =>
        refine ⟨_, fun _ h => ?_⟩
        cases h
        exact ih
    | read k ih =>
        refine ⟨_, fun _ h => ?_⟩
        cases h
        exact ih _

end Prog

/-! ## Threads -/

/-- The shared value, who holds which mutex, who sleeps where and whether for a
time only, and what each thread has still to do. -/
structure Threads (ι μ σ ω : Type) (α : ι → Type) where
  value : σ
  owner : μ → Option ι
  asleep : ι → Option (μ × Bool)
  prog : (i : ι) → Prog μ σ ω (α i)

/-- A thread begins its next round, or executes an instruction, or wakes up. -/
inductive Act (ι : Type) (ℓ : ι → Type)
  | begin (i : ι) (l : ℓ i)
  | step (i : ι)
  | wake (i : ι)

namespace Threads

variable {ι μ σ ω : Type} {α ℓ : ι → Type} [DecidableEq ι] [DecidableEq μ]

/-- The thread `i` goes on with `k`. -/
def goOn (t : Threads ι μ σ ω α) (i : ι) (k : Prog μ σ ω (α i)) : Threads ι μ σ ω α :=
  { t with prog := Function.update t.prog i k }

def take (t : Threads ι μ σ ω α) (i : ι) (m : μ) : Threads ι μ σ ω α :=
  { t with owner := Function.update t.owner m (some i) }

def giveBack (t : Threads ι μ σ ω α) (m : μ) : Threads ι μ σ ω α :=
  { t with owner := Function.update t.owner m none }

def fallAsleep (t : Threads ι μ σ ω α) (i : ι) (m : μ) (timed : Bool) : Threads ι μ σ ω α :=
  { t with asleep := Function.update t.asleep i (some (m, timed)) }

/-- All who sleep there wake up. -/
def wakeAll (t : Threads ι μ σ ω α) (m : μ) : Threads ι μ σ ω α :=
  { t with asleep := fun i => (t.asleep i).filter fun x => x.1 ≠ m }

/-- An instruction of the thread `i`; one that waits for a mutex stays where it
is. -/
def execute (t : Threads ι μ σ ω α) (i : ι) : Prog μ σ ω (α i) → Threads ι μ σ ω α
  | .done _ => t
  | .lock m k => if t.owner m = none then (t.take i m).goOn i k else t
  | .unlock m k => (t.giveBack m).goOn i k
  | .sleep m timed k => ((t.giveBack m).fallAsleep i m timed).goOn i k
  | .notify m k => (t.wakeAll m).goOn i k
  | .read k => t.goOn i (k t.value)
  | .write f k => { t with value := f t.value }.goOn i k
  | .emit _ k => t.goOn i k

variable (round : (i : ι) → α i → ℓ i → Prog μ σ ω (α i))

def act (t : Threads ι μ σ ω α) : Act ι ℓ → Threads ι μ σ ω α
  | .begin i l =>
      match t.asleep i, t.prog i with
      | none, .done a => t.goOn i (round i a l)
      | _, _ => t
  | .step i => if t.asleep i = none then t.execute i (t.prog i) else t
  | .wake i => { t with asleep := Function.update t.asleep i none }

/-- A round begins only where the last one has ended. -/
theorem begin_cases (t : Threads ι μ σ ω α) (i : ι) (l : ℓ i) :
    t.act round (.begin i l) = t ∨
      ∃ a, t.asleep i = none ∧ t.prog i = .done a ∧
        t.act round (.begin i l) = t.goOn i (round i a l) := by
  unfold act
  dsimp only
  split
  · rename_i a hawake hdone
    exact Or.inr ⟨a, hawake, hdone, rfl⟩
  · exact Or.inl rfl

theorem begin_of_done {t : Threads ι μ σ ω α} {i : ι} {a : α i} (hawake : t.asleep i = none)
    (hdone : t.prog i = .done a) (l : ℓ i) :
    t.act round (.begin i l) = t.goOn i (round i a l) := by
  simp only [act, hawake, hdone]

/-- All threads are between two rounds. -/
def start (value : σ) (init : (i : ι) → α i) : Threads ι μ σ ω α :=
  ⟨value, fun _ => none, fun _ => none, fun i => .done (init i)⟩

/-- What the thread has in hand. -/
def held (t : Threads ι μ σ ω α) (i : ι) : Set μ := {m | t.owner m = some i}

/-- The thread is in a round, and can go on with it. -/
def Runs (t : Threads ι μ σ ω α) (i : ι) : Prop :=
  t.asleep i = none ∧ (∀ a, t.prog i ≠ .done a) ∧ ∀ m k, t.prog i = .lock m k → t.owner m = none

/-- Each thread has ended its round, or sleeps. -/
def AtRest (t : Threads ι μ σ ω α) : Prop := ∀ i, t.asleep i ≠ none ∨ ∃ a, t.prog i = .done a

/-- The next thing that the thread does is to put out `o`. -/
def Emits (t : Threads ι μ σ ω α) (i : ι) (o : ω) : Prop :=
  t.asleep i = none ∧ (t.prog i).first = some o

instance [DecidableEq ω] (t : Threads ι μ σ ω α) (i : ι) (o : ω) : Decidable (t.Emits i o) :=
  inferInstanceAs (Decidable (_ = _ ∧ _ = _))

section Hands
variable (t : Threads ι μ σ ω α)

omit [DecidableEq μ] in
@[simp] theorem goOn_held (i j : ι) (k : Prog μ σ ω (α i)) : (t.goOn i k).held j = t.held j := rfl

omit [DecidableEq μ] in
@[simp] theorem goOn_prog (i : ι) (k : Prog μ σ ω (α i)) : (t.goOn i k).prog i = k := by
  simp only [goOn, Function.update_self]

omit [DecidableEq μ] in
theorem goOn_prog_of_ne {i j : ι} (h : j ≠ i) (k : Prog μ σ ω (α i)) :
    (t.goOn i k).prog j = t.prog j := by
  simp only [goOn, Function.update_of_ne h]

variable {t}

theorem take_held {m : μ} (hfree : t.owner m = none) (i j : ι) :
    (t.take i m).held j = if j = i then insert m (t.held j) else t.held j := by
  ext m'
  change Function.update t.owner m (some i) m' = some j ↔ _
  by_cases hm : m' = m
  · subst hm
    have hnot : m' ∉ t.held j := fun h => absurd (hfree.symm.trans h) (Option.some_ne_none j).symm
    rw [Function.update_self, Option.some.injEq]
    split_ifs with hj
    · exact iff_of_true hj.symm (Set.mem_insert m' _)
    · exact iff_of_false (Ne.symm hj) hnot
  · rw [Function.update_of_ne hm]
    split_ifs
    · rw [Set.mem_insert_iff, or_iff_right hm]
      rfl
    · rfl

theorem giveBack_held {m : μ} {i : ι} (hm : m ∈ t.held i) (j : ι) :
    (t.giveBack m).held j = if j = i then t.held j \ {m} else t.held j := by
  ext m'
  change Function.update t.owner m none m' = some j ↔ _
  by_cases hm' : m' = m
  · subst hm'
    rw [Function.update_self]
    refine iff_of_false (Option.some_ne_none j).symm ?_
    split_ifs with hj
    · exact fun h => h.2 rfl
    · exact fun h => hj (Option.some.inj (h.symm.trans hm))
  · rw [Function.update_of_ne hm']
    split_ifs
    · exact (and_iff_left hm').symm
    · rfl

end Hands

/-! ## In order -/

section InOrder
variable {rank : μ → Nat} {round : (i : ι) → α i → ℓ i → Prog μ σ ω (α i)}
  {t : Threads ι μ σ ω α}

/-- Each thread goes on in order with what it has in hand, and sleeps with
nothing. -/
structure InOrder (rank : μ → Nat) (t : Threads ι μ σ ω α) : Prop where
  ordered : ∀ i, (t.prog i).Ordered rank ∅ (t.held i)
  asleep : ∀ i, t.asleep i ≠ none → t.held i = ∅

omit [DecidableEq ι] [DecidableEq μ] in
theorem inOrder_start (value : σ) (init : (i : ι) → α i) :
    InOrder rank (start value init : Threads ι μ σ ω α) where
  ordered _ := Set.eq_empty_of_forall_notMem fun _ h => nomatch h
  asleep _ h := absurd rfl h

omit [DecidableEq ι] [DecidableEq μ] in
/-- What one thread does is no matter to the others. -/
theorem InOrder.of_others (h : InOrder rank t) {t' : Threads ι μ σ ω α} (i : ι)
    (hi : (t'.prog i).Ordered rank ∅ (t'.held i)) (hasleep : t'.asleep i ≠ none → t'.held i = ∅)
    (hothers : ∀ j, j ≠ i → t'.prog j = t.prog j ∧ t'.held j = t.held j ∧
      (t'.asleep j ≠ none → t.asleep j ≠ none)) : InOrder rank t' where
  ordered j := by
    by_cases hj : j = i
    · rw [hj]
      exact hi
    · obtain ⟨hprog, hheld, -⟩ := hothers j hj
      rw [hprog, hheld]
      exact h.ordered j
  asleep j hsleeps := by
    by_cases hj : j = i
    · subst hj
      exact hasleep hsleeps
    · obtain ⟨-, hheld, hback⟩ := hothers j hj
      rw [hheld]
      exact h.asleep j (hback hsleeps)

omit [DecidableEq μ] in
/-- Nothing has changed but what `i` still has to do. -/
theorem InOrder.goOn (h : InOrder rank t) {i : ι} (hawake : t.asleep i = none)
    {k : Prog μ σ ω (α i)} (hk : k.Ordered rank ∅ (t.held i)) : InOrder rank (t.goOn i k) := by
  refine h.of_others i ?_ (fun hsleeps => absurd hawake hsleeps) fun j hj =>
    ⟨goOn_prog_of_ne _ hj k, rfl, id⟩
  rw [goOn_prog]
  exact hk

omit [DecidableEq ι] in
theorem InOrder.wakeAll (h : InOrder rank t) (m : μ) : InOrder rank (t.wakeAll m) where
  ordered := h.ordered
  asleep i hsleeps := by
    refine h.asleep i fun hnone => hsleeps ?_
    change (t.asleep i).filter _ = none
    rw [hnone]
    rfl

theorem InOrder.execute (h : InOrder rank t) {i : ι} (hawake : t.asleep i = none) :
    InOrder rank (t.execute i (t.prog i)) := by
  have hi := h.ordered i
  have hup : ∀ {P : Prop}, t.asleep i ≠ none → P := fun hsleeps => absurd hawake hsleeps
  cases hprog : t.prog i with
  | done a => exact h
  | lock m k =>
      rw [hprog] at hi
      unfold Threads.execute
      dsimp only
      split_ifs with hfree
      · refine h.of_others i ?_ (fun hsleeps => hup hsleeps) fun j hj =>
          ⟨goOn_prog_of_ne _ hj k, ?_, id⟩
        · rw [goOn_prog, goOn_held, take_held hfree, if_pos rfl]
          exact hi.2
        · rw [goOn_held, take_held hfree, if_neg hj]
      · exact h
  | unlock m k =>
      rw [hprog] at hi
      refine h.of_others i ?_ (fun hsleeps => hup hsleeps) fun j hj =>
        ⟨goOn_prog_of_ne _ hj k, ?_, id⟩
      · rw [Threads.execute, goOn_prog, goOn_held, giveBack_held hi.1, if_pos rfl]
        exact hi.2
      · rw [Threads.execute, goOn_held, giveBack_held hi.1, if_neg hj]
  | sleep m timed k =>
      rw [hprog] at hi
      have hm : m ∈ t.held i := hi.1.symm ▸ Set.mem_singleton m
      have hnone : ((t.giveBack m).fallAsleep i m timed).held i = ∅ := by
        change (t.giveBack m).held i = ∅
        rw [giveBack_held hm, if_pos rfl, hi.1, Set.sdiff_self]
      refine h.of_others i ?_ (fun _ => hnone) fun j hj => ⟨goOn_prog_of_ne _ hj k, ?_, ?_⟩
      · rw [Threads.execute, goOn_prog, goOn_held, hnone]
        exact hi.2
      · change (t.giveBack m).held j = _
        rw [giveBack_held hm, if_neg hj]
      · intro hsleeps
        rwa [show (t.execute i (.sleep m timed k)).asleep j = t.asleep j from
          Function.update_of_ne hj _ _] at hsleeps
  | notify m k =>
      rw [hprog] at hi
      have hstill : (t.wakeAll m).asleep i = none := by
        change (t.asleep i).filter _ = none
        rw [hawake]
        rfl
      exact (h.wakeAll m).goOn hstill hi
  | read k =>
      rw [hprog] at hi
      exact h.goOn hawake (hi t.value)
  | write f k =>
      rw [hprog] at hi
      have hchanged : InOrder rank { t with value := f t.value } := ⟨h.ordered, h.asleep⟩
      exact hchanged.goOn hawake hi
  | emit o k =>
      rw [hprog] at hi
      exact h.goOn hawake hi

theorem InOrder.act (hround : ∀ i a l, (round i a l).Ordered rank ∅ ∅) (h : InOrder rank t)
    (a : Act ι ℓ) : InOrder rank (t.act round a) := by
  cases a with
  | begin i l =>
      rcases begin_cases round t i l with hsame | ⟨a, hawake, hdone, hbegin⟩
      · rw [hsame]
        exact h
      · rw [hbegin]
        have hheld : t.held i = ∅ := by
          have hi := h.ordered i
          rw [hdone] at hi
          exact hi
        refine h.goOn hawake ?_
        rw [hheld]
        exact hround i a l
  | step i =>
      unfold Threads.act
      dsimp only
      split_ifs with hawake
      · exact h.execute hawake
      · exact h
  | wake i =>
      refine h.of_others i (h.ordered i)
        (fun hsleeps => absurd (Function.update_self i _ _) hsleeps)
        fun j hj => ⟨rfl, rfl, fun hsleeps => ?_⟩
      rwa [show (t.act round (.wake i)).asleep j = t.asleep j from
        Function.update_of_ne hj _ _] at hsleeps

omit [DecidableEq ι] [DecidableEq μ] in
/-- Somebody can go on: if not the one who holds the mutex, then one who holds a
higher one. -/
theorem InOrder.exists_runs (h : InOrder rank t) {bound : Nat} (hbound : ∀ m, rank m < bound)
    {m : μ} {i : ι} (hm : m ∈ t.held i) : ∃ j, t.Runs j := by
  -- the rank of what is waited for goes up
  suffices hgap : ∀ (gap : Nat) (m : μ) (i : ι), bound ≤ rank m + gap → m ∈ t.held i →
      ∃ j, t.Runs j from hgap bound m i (Nat.le_add_left _ _) hm
  clear hm
  intro gap
  induction gap with
  | zero => exact fun m _ hle _ => absurd (hbound m) (Nat.not_lt.mpr hle)
  | succ gap ih =>
      intro m i hle hm
      have hhand : t.held i ≠ ∅ := Set.nonempty_iff_ne_empty.mp ⟨m, hm⟩
      have hawake : t.asleep i = none := by
        by_contra hasleep
        exact hhand (h.asleep i hasleep)
      have hbusy : ∀ a, t.prog i ≠ .done a := by
        intro a hdone
        have hi := h.ordered i
        rw [hdone] at hi
        exact hhand hi
      by_cases hfree : ∀ m' k, t.prog i = .lock m' k → t.owner m' = none
      · exact ⟨i, hawake, hbusy, hfree⟩
      · push Not at hfree
        obtain ⟨m', k, hlock, howned⟩ := hfree
        obtain ⟨j, hj⟩ := Option.ne_none_iff_exists'.mp howned
        have hi := h.ordered i
        rw [hlock] at hi
        have hrank := hi.1 m hm
        exact ih m' j (by omega) hj

omit [DecidableEq ι] [DecidableEq μ] in
/-- Whoever has not come to the end, somebody can go on. -/
theorem InOrder.exists_runs_or (h : InOrder rank t) {bound : Nat} (hbound : ∀ m, rank m < bound) :
    t.AtRest ∨ ∃ j, t.Runs j := by
  by_cases hrest : t.AtRest
  · exact Or.inl hrest
  · unfold AtRest at hrest
    push Not at hrest
    obtain ⟨i, hawake, hbusy⟩ := hrest
    by_cases hfree : ∀ m k, t.prog i = .lock m k → t.owner m = none
    · exact Or.inr ⟨i, hawake, hbusy, hfree⟩
    · push Not at hfree
      obtain ⟨m, k, -, howned⟩ := hfree
      obtain ⟨j, hj⟩ := Option.ne_none_iff_exists'.mp howned
      exact Or.inr (h.exists_runs hbound (i := j) hj)

omit [DecidableEq ι] [DecidableEq μ] in
/-- Then nobody has a mutex. -/
theorem InOrder.owner_eq_none (h : InOrder rank t) (hrest : t.AtRest) (m : μ) :
    t.owner m = none := by
  by_contra howned
  obtain ⟨i, hi⟩ := Option.ne_none_iff_exists'.mp howned
  have hhand : t.held i ≠ ∅ := Set.nonempty_iff_ne_empty.mp ⟨m, hi⟩
  rcases hrest i with hasleep | ⟨a, hdone⟩
  · exact hhand (h.asleep i hasleep)
  · have hordered := h.ordered i
    rw [hdone] at hordered
    exact hhand hordered

end InOrder

/-! ## To the ends of the rounds -/

section Settles
variable {rank : μ → Nat} (round : (i : ι) → α i → ℓ i → Prog μ σ ω (α i))
  {t : Threads ι μ σ ω α}

/-- Only the thread itself goes on, and if it can it does. -/
theorem step_prog (t : Threads ι μ σ ω α) (i : ι) :
    (∀ j, j ≠ i → (t.act round (.step i)).prog j = t.prog j) ∧
      (t.Runs i → ((t.act round (.step i)).prog i).Next (t.prog i)) ∧
      (¬ t.Runs i → t.act round (.step i) = t) := by
  unfold act
  dsimp only
  split_ifs with hawake
  · cases hprog : t.prog i with
    | done a => exact ⟨fun _ _ => rfl, fun hruns => absurd hprog (hruns.2.1 a), fun _ => rfl⟩
    | lock m k =>
        unfold execute
        dsimp only
        split_ifs with hfree
        · refine ⟨fun j hj => goOn_prog_of_ne _ hj k, fun _ => ?_, fun hnot => absurd ?_ hnot⟩
          · rw [goOn_prog]
            exact .lock m k
          · refine ⟨hawake, fun a h => ?_, fun m' k' h => ?_⟩
            · exact absurd (hprog.symm.trans h) (fun h => nomatch h)
            · obtain ⟨rfl, -⟩ := Prog.lock.inj (hprog.symm.trans h)
              exact hfree
        · exact ⟨fun _ _ => rfl, fun hruns => absurd (hruns.2.2 m k hprog) hfree, fun _ => rfl⟩
    | unlock m k | sleep m timed k | notify m k | read k | write f k | emit o k =>
        refine ⟨fun j hj => goOn_prog_of_ne _ hj _, fun _ => ?_, fun hnot => absurd ?_ hnot⟩
        · rw [execute, goOn_prog]
          constructor
        · exact ⟨hawake, fun a h => absurd (hprog.symm.trans h) (fun h => nomatch h),
            fun m' k' h => absurd (hprog.symm.trans h) (fun h => nomatch h)⟩
  · exact ⟨fun _ _ => rfl, fun hruns => absurd hruns.1 hawake, fun _ => rfl⟩

/-- How far the threads are from the ends of their rounds. -/
noncomputable def toGo (t : Threads ι μ σ ω α) : ι → Ordinal.{0} :=
  fun i => IsWellFounded.rank Prog.Next (t.prog i)

theorem toGo_lt {i : ι} (hruns : t.Runs i) : (t.act round (.step i)).toGo < t.toGo := by
  obtain ⟨hothers, hnext, -⟩ := step_prog round t i
  have hlt := IsWellFounded.rank_lt_of_rel (hnext hruns)
  refine Pi.lt_def.mpr ⟨fun j => ?_, i, hlt⟩
  by_cases hj : j = i
  · rw [hj]
    exact hlt.le
  · exact (congrArg (IsWellFounded.rank Prog.Next) (hothers j hj)).le

/-- Nobody is left out for good. -/
def Fair (f : Nat → ι) : Prop := ∀ i n, ∃ m, n ≤ m ∧ f m = i

/-- The first `n` instructions, in the order `f`. -/
def scheduled (f : Nat → ι) (n : Nat) : List (Act ι ℓ) := (List.range n).map fun k => .step (f k)

omit [DecidableEq ι] [DecidableEq μ] in
theorem scheduled_succ (f : Nat → ι) (n : Nat) :
    (scheduled f (n + 1) : List (Act ι ℓ)) = .step (f 0) :: scheduled (fun k => f (k + 1)) n := by
  rw [scheduled, List.range_succ_eq_map, List.map_cons, List.map_map]
  rfl

omit [DecidableEq ι] in
theorem Fair.tail {f : Nat → ι} (h : Fair f) : Fair fun k => f (k + 1) := by
  intro i n
  obtain ⟨m, hm, hi⟩ := h i (n + 1)
  obtain ⟨m, rfl⟩ := Nat.exists_eq_add_of_lt (Nat.lt_of_lt_of_le (Nat.succ_pos n) hm)
  refine ⟨0 + m, by omega, hi⟩

variable {round}

/-- At last nobody can go on, in whatever order the threads have their turns. -/
theorem exists_still [Finite ι] (t : Threads ι μ σ ω α) {f : Nat → ι} (hfair : Fair f) :
    ∃ n, ∀ i, ¬ (after (Threads.act round) t (scheduled f n)).Runs i := by
  -- on how far there is to go, and then on when one who can go on has a turn
  induction hgo : t.toGo using WellFoundedLT.induction generalizing t f with
  | ind go ih =>
      subst hgo
      by_cases hstill : ∀ i, ¬ t.Runs i
      · exact ⟨0, hstill⟩
      · push Not at hstill
        obtain ⟨j, hj⟩ := hstill
        obtain ⟨m, -, hm⟩ := hfair j 0
        induction m generalizing f with
        | zero =>
            subst hm
            obtain ⟨n, hn⟩ := ih _ (toGo_lt round hj) _ hfair.tail rfl
            refine ⟨n + 1, ?_⟩
            rw [scheduled_succ]
            exact hn
        | succ m ihm =>
            by_cases hruns : t.Runs (f 0)
            · obtain ⟨n, hn⟩ := ih _ (toGo_lt round hruns) _ hfair.tail rfl
              refine ⟨n + 1, ?_⟩
              rw [scheduled_succ]
              exact hn
            · obtain ⟨n, hn⟩ := ihm hfair.tail hm
              refine ⟨n + 1, ?_⟩
              rw [scheduled_succ, after, (step_prog round t (f 0)).2.2 hruns]
              exact hn

/-- **The rounds that have begun come to their ends**, if the mutexes are taken in
order. -/
theorem InOrder.settles [Finite ι] (hround : ∀ i a l, (round i a l).Ordered rank ∅ ∅)
    (h : InOrder rank t) {bound : Nat} (hbound : ∀ m, rank m < bound) {f : Nat → ι}
    (hfair : Fair f) : ∃ n, (after (Threads.act round) t (scheduled f n)).AtRest := by
  obtain ⟨n, hstill⟩ : ∃ n, ∀ i, ¬ (after (Threads.act round) t (scheduled f n)).Runs i :=
    exists_still t hfair
  have horder : (after (Threads.act round) t (scheduled f n)).InOrder rank :=
    after_of_always _ _ (always_of_step (fun t a ht => ht.act hround a) _ h)
  rcases horder.exists_runs_or hbound with hrest | ⟨i, hi⟩
  · exact ⟨n, hrest⟩
  · exact absurd hi (hstill i)

end Settles

/-! ## Silence -/

section Silence
variable {round : (i : ι) → α i → ℓ i → Prog μ σ ω (α i)} {t : Threads ι μ σ ω α} {i : ι}
  {P : σ → Prop}

theorem silent_execute (hP : P t.value) (h : (t.prog i).Silent P) :
    ((t.execute i (t.prog i)).prog i).Silent P := by
  cases hprog : t.prog i with
  | done a => exact h
  | lock m k =>
      unfold execute
      dsimp only
      split_ifs
      · rw [goOn_prog]
        rwa [hprog] at h
      · exact h
  | unlock m k | sleep m timed k | notify m k | write f k =>
      rw [execute, goOn_prog]
      rwa [hprog] at h
  | read k =>
      rw [execute, goOn_prog]
      rw [hprog] at h
      exact h t.value hP
  | emit o k =>
      rw [hprog] at h
      exact h.elim

theorem silent_act (hround : ∀ a l, (round i a l).Silent P) (hP : P t.value)
    (h : (t.prog i).Silent P) (a : Act ι ℓ) : ((t.act round a).prog i).Silent P := by
  cases a with
  | wake j => exact h
  | begin j l =>
      rcases begin_cases round t j l with hsame | ⟨a, -, -, hbegin⟩
      · rw [hsame]
        exact h
      · rw [hbegin]
        by_cases hj : i = j
        · subst hj
          rw [goOn_prog]
          exact hround a l
        · rw [goOn_prog_of_ne _ hj]
          exact h
  | step j =>
      by_cases hj : i = j
      · subst hj
        unfold act
        dsimp only
        split_ifs
        · exact silent_execute hP h
        · exact h
      · rw [(step_prog round t j).1 i hj]
        exact h

/-- As long as `P` holds, who is silent stays silent. -/
theorem silent_after (hround : ∀ a l, (round i a l).Silent P) (h : (t.prog i).Silent P)
    {as : List (Act ι ℓ)} (hP : Always (act round) (fun t => P t.value) t as) (o : ω) :
    ¬ (after (act round) t as).Emits i o := by
  have hsilent := after_of_always _ _ (always_of_always (J := fun t => (t.prog i).Silent P)
    (fun t a ht hPt _ => silent_act hround hPt ht a) h hP)
  intro hemits
  obtain ⟨k, hk⟩ := Prog.first_eq_some hemits.2
  rw [hk] at hsilent
  exact hsilent

end Silence

end Threads

end NatPiercer
