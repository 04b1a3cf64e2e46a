/-
# `Lib.LockProg` — programs over one shared value behind a mutex

An asynchronous handler that shares a value of type `σ` behind a single
mutex does five things: it takes the mutex, gives it back, reads and
replaces the value, and emits outputs of type `ω`.  `LockProg σ ω α` is the
syntax of such a program, with results in `α`.

It has two meanings, on purpose kept apart.

* `run` executes it with nothing else going on: the mutex is ignored, the
  value and the outputs are what the program makes of them.
* `events` keeps only what it does to the mutex, and `lockRun` is the mutex:
  not reentrant, so taking it while it is held blocks for good.

`Keeps held p s` says that `p`, started on the value `s` with the mutex in
state `held`, never blocks and leaves the mutex as it found it; `Blocks
held p s`, that it waits for itself.  The rules follow the syntax;
`keeps_locked` is the one for a guard that lives to the end of its block,
and asks of the block that it leaves the mutex alone.
-/
import Mathlib.Logic.Basic

namespace NatPiercer

/-- A program over a value behind a mutex. -/
inductive LockProg (σ ω α : Type) : Type
  | done (a : α)
  | acquire (k : LockProg σ ω α)
  | release (k : LockProg σ ω α)
  | read (k : σ → LockProg σ ω α)
  | write (s : σ) (k : LockProg σ ω α)
  | emit (o : ω) (k : LockProg σ ω α)

namespace LockProg

variable {σ ω α β : Type}

/-- Sequencing. -/
def bind : LockProg σ ω α → (α → LockProg σ ω β) → LockProg σ ω β
  | done a, f => f a
  | acquire k, f => acquire (bind k f)
  | release k, f => release (bind k f)
  | read k, f => read fun s => bind (k s) f
  | write s k, f => write s (bind k f)
  | emit o k, f => emit o (bind k f)

instance : Monad (LockProg σ ω) where
  pure := done
  bind := bind

/-- The shared value, as it is now. -/
def getState : LockProg σ ω σ := read done

/-- Replaces the shared value. -/
def setState (s : σ) : LockProg σ ω Unit := write s (done ())

/-- Emits an output. -/
def output (o : ω) : LockProg σ ω Unit := emit o (done ())

/-- `let guard = mutex.lock().await; …`: the guard lives to the end of the
block and is given back there. -/
def locked (body : LockProg σ ω α) : LockProg σ ω α :=
  acquire (bind body fun a => release (done a))

/-- `for x in xs { … }`. -/
def each : List β → (β → LockProg σ ω Unit) → LockProg σ ω Unit
  | [], _ => pure ()
  | x :: xs, f => do
      f x
      each xs f

/-- `if b { … }`. -/
def whenever (b : Prop) [Decidable b] (p : LockProg σ ω Unit) : LockProg σ ω Unit :=
  if b then p else pure ()

/-! ## Execution -/

/-- What an execution ends with. -/
structure Outcome (σ ω α : Type) where
  val : α
  state : σ
  sent : List ω

/-- Executes a program with nothing else going on. -/
def run : LockProg σ ω α → σ → Outcome σ ω α
  | done a, s => ⟨a, s, []⟩
  | acquire k, s => run k s
  | release k, s => run k s
  | read k, s => run (k s) s
  | write s' k, _ => run k s'
  | emit o k, s => ⟨(run k s).val, (run k s).state, o :: (run k s).sent⟩

@[simp] theorem run_pure (a : α) (s : σ) :
    (pure a : LockProg σ ω α).run s = ⟨a, s, []⟩ := rfl

@[simp] theorem run_bind (p : LockProg σ ω α) (f : α → LockProg σ ω β) (s : σ) :
    (p >>= f).run s =
      ⟨((f (p.run s).val).run (p.run s).state).val,
        ((f (p.run s).val).run (p.run s).state).state,
        (p.run s).sent ++ ((f (p.run s).val).run (p.run s).state).sent⟩ := by
  change (bind p f).run s = _
  induction p generalizing s with
  | done a => rfl
  | acquire k ih => exact ih s
  | release k ih => exact ih s
  | read k ih => exact ih s s
  | write s' k ih => exact ih s'
  | emit o k ih => simp [bind, run, ih s]

@[simp] theorem run_getState (s : σ) :
    (getState : LockProg σ ω σ).run s = ⟨s, s, []⟩ := rfl

@[simp] theorem run_setState (s s' : σ) :
    (setState s' : LockProg σ ω Unit).run s = ⟨(), s', []⟩ := rfl

@[simp] theorem run_output (o : ω) (s : σ) :
    (output o : LockProg σ ω Unit).run s = ⟨(), s, [o]⟩ := rfl

/-- Executed alone, a critical section is its body. -/
@[simp] theorem run_locked (p : LockProg σ ω α) (s : σ) : (locked p).run s = p.run s := by
  have h := run_bind p (fun a => release (done a)) s
  change (bind p fun a => release (done a)).run s = _
  rw [show bind p (fun a => release (done a)) = p >>= fun a => release (done a) from rfl, h]
  simp [run]

/-- A loop of pure outputs emits them in order. -/
theorem run_each {xs : List β} {f : β → LockProg σ ω Unit} {g : β → List ω} {s : σ}
    (h : ∀ x ∈ xs, (f x).run s = ⟨(), s, g x⟩) :
    (each xs f).run s = ⟨(), s, xs.flatMap g⟩ := by
  induction xs with
  | nil => rfl
  | cons x xs ih =>
      rw [each, run_bind, h x List.mem_cons_self,
        ih (fun y hy => h y (List.mem_cons_of_mem _ hy)), List.flatMap_cons]

theorem run_whenever {b : Prop} [Decidable b] {p : LockProg σ ω Unit} {s : σ} (os : List ω)
    (h : b → p.run s = ⟨(), s, os⟩) :
    (whenever b p).run s = ⟨(), s, if b then os else []⟩ := by
  by_cases hb : b
  · rw [whenever, if_pos hb, if_pos hb, h hb]
  · rw [whenever, if_neg hb, if_neg hb, run_pure]

/-! ## The mutex -/

/-- What a program does to the mutex. -/
inductive LockEvent
  | acquire
  | release
deriving DecidableEq, Repr

/-- The mutex events of an execution, in order. -/
def events : LockProg σ ω α → σ → List LockEvent
  | done _, _ => []
  | acquire k, s => .acquire :: events k s
  | release k, s => .release :: events k s
  | read k, s => events (k s) s
  | write s' k, _ => events k s'
  | emit _ k, s => events k s

/-- A mutex that is not reentrant: `none` when the events block, otherwise
whether it is held at the end. -/
def lockRun : Bool → List LockEvent → Option Bool
  | held, [] => some held
  | false, .acquire :: es => lockRun true es
  | true, .acquire :: _ => none
  | true, .release :: es => lockRun false es
  | false, .release :: _ => none

/-- Started with the mutex in state `held`, the program never blocks and
leaves the mutex in that state. -/
def Keeps (held : Bool) (p : LockProg σ ω α) (s : σ) : Prop :=
  lockRun held (p.events s) = some held

instance (held : Bool) (p : LockProg σ ω α) (s : σ) : Decidable (Keeps held p s) :=
  inferInstanceAs (Decidable (_ = _))

/-- Started with the mutex in state `held`, the program waits forever for a
mutex that it holds itself. -/
def Blocks (held : Bool) (p : LockProg σ ω α) (s : σ) : Prop :=
  lockRun held (p.events s) = none

theorem lockRun_append (es fs : List LockEvent) (held : Bool) :
    lockRun held (es ++ fs) = (lockRun held es).bind fun h => lockRun h fs := by
  induction es generalizing held with
  | nil => rfl
  | cons e es ih =>
      cases e <;> cases held <;> first | exact ih _ | rfl

theorem events_bind (p : LockProg σ ω α) (f : α → LockProg σ ω β) (s : σ) :
    (p >>= f).events s =
      p.events s ++ (f (p.run s).val).events (p.run s).state := by
  change (bind p f).events s = _
  induction p generalizing s with
  | done a => rfl
  | acquire k ih => exact congrArg _ (ih s)
  | release k ih => exact congrArg _ (ih s)
  | read k ih => exact ih s s
  | write s' k ih => exact ih s'
  | emit o k ih => exact ih s

section Rules
variable {held : Bool} {s : σ}

@[simp] theorem keeps_pure (a : α) : Keeps held (pure a : LockProg σ ω α) s := rfl

@[simp] theorem keeps_getState : Keeps held (getState : LockProg σ ω σ) s := rfl

@[simp] theorem keeps_setState (s' : σ) : Keeps held (setState s' : LockProg σ ω Unit) s := rfl

@[simp] theorem keeps_output (o : ω) : Keeps held (output o : LockProg σ ω Unit) s := rfl

theorem Keeps.bind {p : LockProg σ ω α} {f : α → LockProg σ ω β} (hp : Keeps held p s)
    (hf : Keeps held (f (p.run s).val) (p.run s).state) : Keeps held (p >>= f) s := by
  rw [Keeps, events_bind, lockRun_append, show lockRun held (p.events s) = some held from hp]
  exact hf

theorem keeps_whenever {b : Prop} [Decidable b] {p : LockProg σ ω Unit} (hp : Keeps held p s) :
    Keeps held (whenever b p) s := by
  unfold whenever
  split
  · exact hp
  · rfl

theorem keeps_each {xs : List β} {f : β → LockProg σ ω Unit}
    (h : ∀ x ∈ xs, ∀ s, Keeps held (f x) s) : Keeps held (each xs f) s := by
  induction xs generalizing s with
  | nil => rfl
  | cons x xs ih =>
      exact (h x List.mem_cons_self s).bind (ih fun y hy => h y (List.mem_cons_of_mem _ hy))

/-- A loop whose rounds leave the mutex alone leaves it alone. -/
theorem events_each {xs : List β} {f : β → LockProg σ ω Unit} (h : ∀ x s, (f x).events s = []) :
    (each xs f).events s = [] := by
  induction xs generalizing s with
  | nil => rfl
  | cons x xs ih =>
      change (f x >>= fun _ => each xs f).events s = []
      rw [events_bind, h x s, ih]
      rfl

theorem events_locked (p : LockProg σ ω α) :
    (locked p).events s = .acquire :: (p.events s ++ [.release]) := by
  have h := events_bind p (fun a => release (done a)) s
  exact congrArg _ h

/-- A critical section is entered with the mutex free, and its body leaves
the mutex alone. -/
theorem keeps_locked {p : LockProg σ ω α} (hp : Keeps true p s) :
    Keeps false (locked p) s := by
  rw [Keeps, events_locked, lockRun, lockRun_append,
    show lockRun true (p.events s) = some true from hp]
  rfl

/-- A program that blocks goes on blocking whatever comes after. -/
theorem Blocks.bind {p : LockProg σ ω α} (f : α → LockProg σ ω β) (hp : Blocks held p s) :
    Blocks held (p >>= f) s := by
  rw [Blocks, events_bind, lockRun_append, show lockRun held (p.events s) = none from hp]
  rfl

theorem Keeps.bind_blocks {p : LockProg σ ω α} {f : α → LockProg σ ω β} (hp : Keeps held p s)
    (hf : Blocks held (f (p.run s).val) (p.run s).state) : Blocks held (p >>= f) s := by
  rw [Blocks, events_bind, lockRun_append, show lockRun held (p.events s) = some held from hp]
  exact hf

/-- Entering a critical section with the mutex held blocks. -/
theorem blocks_locked_of_held (p : LockProg σ ω α) : Blocks true (locked p) s := by
  rw [Blocks, events_locked]
  rfl

theorem blocks_locked {p : LockProg σ ω α} (hp : Blocks true p s) : Blocks false (locked p) s := by
  rw [Blocks, events_locked, lockRun, lockRun_append,
    show lockRun true (p.events s) = none from hp]
  rfl

theorem Blocks.not_keeps {p : LockProg σ ω α} (hp : Blocks held p s) : ¬ Keeps held p s := by
  rw [Keeps, show lockRun held (p.events s) = none from hp]
  exact fun h => nomatch h

end Rules

end LockProg

end NatPiercer
