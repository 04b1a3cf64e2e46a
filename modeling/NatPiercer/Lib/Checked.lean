/-
# `Lib.Checked` — programs that an index can stop

`v[i]`, `&v[i..j]` and `v.remove(i)` are partial: where `i` is out of range
they do not return, and neither does what they are part of.  A pure function
that indexes is therefore one to `Option`, and a program over a shared value
is a `Checked`: a `LockProg` that may end without a result.  A guard that is
held when that happens is given back (`Checked.locked`).

`NeverPanics p` is about every way through `p`: whatever other tasks have
made of the shared value each time that `p` reads it, `p` ends with a result.

A program proved equal to one that is lifted from `LockProg` never panics,
there being nothing in it to panic, and does what that program does
(`neverPanics_lift`).  The laws below let such a proof go down both programs
at once.
-/
import NatPiercer.Lib.LockProg

namespace NatPiercer

variable {σ ω α β : Type}

namespace LockProg

theorem bind_done (p : LockProg σ ω α) : bind p done = p := by
  induction p with
  | done a => rfl
  | acquire k ih => exact congrArg acquire ih
  | release k ih => exact congrArg release ih
  | read k ih => exact congrArg read (funext ih)
  | write s k ih => exact congrArg (write s) ih
  | emit o k ih => exact congrArg (emit o) ih

theorem bind_bind {γ : Type} (p : LockProg σ ω α) (f : α → LockProg σ ω β)
    (g : β → LockProg σ ω γ) : bind (bind p f) g = bind p fun a => bind (f a) g := by
  induction p with
  | done a => rfl
  | acquire k ih => exact congrArg acquire ih
  | release k ih => exact congrArg release ih
  | read k ih => exact congrArg read (funext ih)
  | write s k ih => exact congrArg (write s) ih
  | emit o k ih => exact congrArg (emit o) ih

/-- Every way through the program, whatever it reads, ends with a `P`. -/
def Ends (P : α → Prop) : LockProg σ ω α → Prop
  | done a => P a
  | acquire k => Ends P k
  | release k => Ends P k
  | read k => ∀ s, Ends P (k s)
  | write _ k => Ends P k
  | emit _ k => Ends P k

theorem ends_bind {P : β → Prop} {p : LockProg σ ω α} {f : α → LockProg σ ω β} :
    Ends P (bind p f) ↔ Ends (fun a => Ends P (f a)) p := by
  induction p with
  | done a => rfl
  | acquire k ih => exact ih
  | release k ih => exact ih
  | read k ih => exact forall_congr' ih
  | write s k ih => exact ih
  | emit o k ih => exact ih

theorem ends_of_forall {P : α → Prop} (h : ∀ a, P a) (p : LockProg σ ω α) : Ends P p := by
  induction p with
  | done a => exact h a
  | acquire k ih => exact ih
  | release k ih => exact ih
  | read k ih => exact ih
  | write s k ih => exact ih
  | emit o k ih => exact ih

end LockProg

/-- A program that an index can stop. -/
abbrev Checked (σ ω : Type) := OptionT (LockProg σ ω)

namespace Checked

/-- The monad laws, for where programs are compared without being run. -/
scoped instance : LawfulMonad (LockProg σ ω) :=
  LawfulMonad.mk' _ LockProg.bind_done (fun _ _ => rfl) LockProg.bind_bind

/-- A result, or a panic. -/
def orPanic (o : Option α) : Checked σ ω α := OptionT.mk (pure o)

/-- `v[i]` -/
def index (v : List α) (i : Nat) : Checked σ ω α := orPanic v[i]?

/-- `LockProg.locked` of a body that may panic: the guard is dropped all the
same. -/
def locked (body : Checked σ ω α) : Checked σ ω α := OptionT.mk (LockProg.locked body.run)

/-- However it goes, there is a result. -/
def NeverPanics (p : Checked σ ω α) : Prop := LockProg.Ends (fun o => o.isSome = true) p.run

/-- What cannot panic does not. -/
theorem neverPanics_lift (p : LockProg σ ω α) :
    NeverPanics (liftM p : Checked σ ω α) :=
  LockProg.ends_bind.mpr (LockProg.ends_of_forall (fun _ => rfl) p)

@[simp] theorem orPanic_some (a : α) : (orPanic (some a) : Checked σ ω α) = pure a := rfl

@[simp] theorem index_zero (a : α) (v : List α) :
    (index (a :: v) 0 : Checked σ ω α) = pure a := rfl

@[simp] theorem index_succ (a : α) (v : List α) (i : Nat) :
    (index (a :: v) (i + 1) : Checked σ ω α) = index v i := rfl

/-- An index that is not there is the end. -/
theorem not_neverPanics_none (f : α → Checked σ ω β) :
    ¬ NeverPanics (orPanic none >>= f) :=
  Bool.false_ne_true

/-- A guard around what cannot panic. -/
theorem locked_lift (p : LockProg σ ω α) :
    locked (liftM p : Checked σ ω α) = liftM (LockProg.locked p) := by
  have hbody : LockProg.bind (LockProg.bind p fun a => .done (some a))
        (fun o => LockProg.release (.done o)) =
      LockProg.bind (LockProg.bind p fun a => .release (.done a)) fun a => .done (some a) := by
    rw [LockProg.bind_bind, LockProg.bind_bind]
    rfl
  exact congrArg LockProg.acquire hbody

end Checked

end NatPiercer
