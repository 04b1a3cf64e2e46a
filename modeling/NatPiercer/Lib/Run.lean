/-
# `Lib.Run` — runs of a labelled, deterministic system

A system is a function `step : σ → ℓ → σ`; a run is a start and a list of
labels.  Three things are said of runs: that a property holds in every state
on the way (`Always`), that every step meets a condition on the state it is
taken from (`EachStep`), and where the run ends (`after`).

`always_iff_eachStep` packages the induction for a property that is not an
invariant.  If, beside an invariant `J` that every step keeps, one step
keeps `P` exactly when it meets `C`, then along a whole run `P` holds in
every state exactly when every step meets `C`: the first step that misses
`C` is the step that breaks `P`.
-/
import Mathlib.Logic.Basic

namespace NatPiercer

variable {σ ℓ : Type} (step : σ → ℓ → σ)

/-- The state a run ends in. -/
def after : σ → List ℓ → σ
  | s, [] => s
  | s, l :: ls => after (step s l) ls

/-- `P` holds in every state of the run, the first and the last included. -/
def Always (P : σ → Prop) : σ → List ℓ → Prop
  | s, [] => P s
  | s, l :: ls => P s ∧ Always P (step s l) ls

/-- Every step of the run meets `C`, in the state it is taken from. -/
def EachStep (C : σ → ℓ → Prop) : σ → List ℓ → Prop
  | _, [] => True
  | s, l :: ls => C s l ∧ EachStep C (step s l) ls

instance decidableAlways (P : σ → Prop) [DecidablePred P] :
    ∀ (s : σ) (ls : List ℓ), Decidable (Always step P s ls)
  | s, [] => inferInstanceAs (Decidable (P s))
  | s, l :: ls =>
      have := decidableAlways P (step s l) ls
      inferInstanceAs (Decidable (P s ∧ Always step P (step s l) ls))

variable {step}

theorem Always.head {P : σ → Prop} {s : σ} {ls : List ℓ} (h : Always step P s ls) : P s := by
  cases ls with
  | nil => exact h
  | cons l ls => exact h.1

theorem after_append (s : σ) (ls ms : List ℓ) :
    after step s (ls ++ ms) = after step (after step s ls) ms := by
  induction ls generalizing s with
  | nil => rfl
  | cons l ls ih => exact ih (step s l)

theorem after_map {κ : Type} (f : κ → ℓ) (s : σ) (ls : List κ) :
    after step s (ls.map f) = after (fun s l => step s (f l)) s ls := by
  induction ls generalizing s with
  | nil => rfl
  | cons l ls ih => exact ih _

/-- The invariant rule. -/
theorem always_of_step {J : σ → Prop} (hstep : ∀ s l, J s → J (step s l)) :
    ∀ {s : σ} (ls : List ℓ), J s → Always step J s ls
  | _, [], h => h
  | s, l :: ls, h => ⟨h, always_of_step hstep ls (hstep s l h)⟩

/-- The invariant rule, with what every step is known to meet. -/
theorem always_of_eachStep {J : σ → Prop} {C : σ → ℓ → Prop}
    (hstep : ∀ s l, J s → C s l → J (step s l)) :
    ∀ {s : σ} (ls : List ℓ), J s → EachStep step C s ls → Always step J s ls
  | _, [], h, _ => h
  | s, l :: ls, h, hC => ⟨h, always_of_eachStep hstep ls (hstep s l h hC.1) hC.2⟩

theorem after_of_always {P : σ → Prop} :
    ∀ (s : σ) (ls : List ℓ), Always step P s ls → P (after step s ls)
  | _, [], h => h
  | s, l :: ls, h => after_of_always (step s l) ls h.2

/-- Of two runs, one after the other. -/
theorem always_append {P : σ → Prop} {s : σ} {ls ms : List ℓ} :
    Always step P s (ls ++ ms) ↔ Always step P s ls ∧ Always step P (after step s ls) ms := by
  induction ls generalizing s with
  | nil => exact ⟨fun h => ⟨h.head, h⟩, fun h => h.2⟩
  | cons l ls ih =>
      change P s ∧ Always step P (step s l) (ls ++ ms) ↔ (P s ∧ Always step P (step s l) ls) ∧ _
      rw [ih, and_assoc]
      rfl

/-- The invariant rule, where a property is known of the whole run. -/
theorem always_of_always {J P : σ → Prop} (hstep : ∀ s l, J s → P s → P (step s l) → J (step s l))
    {s : σ} {ls : List ℓ} (h : J s) (hP : Always step P s ls) : Always step J s ls := by
  induction ls generalizing s with
  | nil => exact h
  | cons l ls ih => exact ⟨h, ih (hstep s l h hP.1 hP.2.head) hP.2⟩

theorem Always.and {P Q : σ → Prop} {s : σ} {ls : List ℓ} (hP : Always step P s ls)
    (hQ : Always step Q s ls) : Always step (fun s => P s ∧ Q s) s ls := by
  induction ls generalizing s with
  | nil => exact ⟨hP, hQ⟩
  | cons l ls ih => exact ⟨⟨hP.1, hQ.1⟩, ih hP.2 hQ.2⟩

theorem Always.mono {P Q : σ → Prop} {s : σ} {ls : List ℓ} (h : Always step P s ls)
    (hPQ : ∀ s, P s → Q s) : Always step Q s ls := by
  induction ls generalizing s with
  | nil => exact hPQ s h
  | cons l ls ih => exact ⟨hPQ s h.1, ih h.2⟩

/-- The same is asked of every step. -/
theorem eachStep_congr {C D : σ → ℓ → Prop} (h : ∀ s l, C s l ↔ D s l) (s : σ) (ls : List ℓ) :
    EachStep step C s ls ↔ EachStep step D s ls := by
  induction ls generalizing s with
  | nil => exact Iff.rfl
  | cons l ls ih => exact and_congr (h s l) (ih _)

/-- Two systems that take the same step wherever `C` holds have the same run, if
every step meets `C`. -/
theorem after_eq_of_eachStep {step' : σ → ℓ → σ} {C : σ → ℓ → Prop}
    (hstep : ∀ s l, C s l → step' s l = step s l) {s : σ} (ls : List ℓ)
    (h : EachStep step C s ls) : after step' s ls = after step s ls := by
  induction ls generalizing s with
  | nil => rfl
  | cons l ls ih =>
      change after step' (step' s l) ls = after step (step s l) ls
      rw [hstep s l h.1]
      exact ih h.2

/-- What an invariant says of the next step holds of every step. -/
theorem eachStep_of_invariant {J : σ → Prop} {C : σ → ℓ → Prop}
    (hstep : ∀ s l, J s → J (step s l)) (hC : ∀ s l, J s → C s l) {s : σ} (ls : List ℓ)
    (h : J s) : EachStep step C s ls := by
  induction ls generalizing s with
  | nil => trivial
  | cons l ls ih => exact ⟨hC s l h, ih (hstep s l h)⟩

/-- Where `P` goes on holding or not is a matter of the label alone. -/
theorem always_iff_forall {P : σ → Prop} {C : ℓ → Prop}
    (hP : ∀ s l, P s → (P (step s l) ↔ C l)) {s : σ} (ls : List ℓ) (h : P s) :
    Always step P s ls ↔ ∀ l ∈ ls, C l := by
  induction ls generalizing s with
  | nil => exact ⟨fun _ _ hl => absurd hl List.not_mem_nil, fun _ => h⟩
  | cons l ls ih =>
      rw [List.forall_mem_cons]
      constructor
      · intro hall
        have hnext : P (step s l) := hall.2.head
        exact ⟨(hP s l h).mp hnext, (ih hnext).mp hall.2⟩
      · rintro ⟨hl, hls⟩
        have hnext : P (step s l) := (hP s l h).mpr hl
        exact ⟨h, (ih hnext).mpr hls⟩

/-- Along a run, `P` holds throughout exactly when each step meets `C`. -/
theorem always_iff_eachStep {J P : σ → Prop} {C : σ → ℓ → Prop}
    (hJ : ∀ s l, J s → J (step s l))
    (hP : ∀ s l, J s → P s → (P (step s l) ↔ C s l)) :
    ∀ {s : σ} (ls : List ℓ), J s → P s → (Always step P s ls ↔ EachStep step C s ls)
  | _, [], _, hPs => ⟨fun _ => trivial, fun _ => hPs⟩
  | s, l :: ls, hJs, hPs => by
      have hstep := hP s l hJs hPs
      constructor
      · intro h
        have hPs' : P (step s l) := h.2.head
        exact ⟨hstep.mp hPs',
          (always_iff_eachStep hJ hP ls (hJ s l hJs) hPs').mp h.2⟩
      · intro h
        have hPs' : P (step s l) := hstep.mpr h.1
        exact ⟨hPs, (always_iff_eachStep hJ hP ls (hJ s l hJs) hPs').mpr h.2⟩

/-- The same where `P` by itself does not say enough to go on from: `J` does, and is
kept by the steps that meet `C`, while a step that misses `C` does not lead
into `P`. -/
theorem always_iff_eachStep_of {I J P : σ → Prop} {C : σ → ℓ → Prop}
    (hI : ∀ s l, I s → I (step s l)) (hJ : ∀ s l, I s → J s → C s l → J (step s l))
    (hP : ∀ s, J s → P s) (hC : ∀ s l, I s → P (step s l) → C s l) {s : σ} (ls : List ℓ)
    (hIs : I s) (hJs : J s) : Always step P s ls ↔ EachStep step C s ls := by
  constructor
  · intro h
    clear hJs
    induction ls generalizing s with
    | nil => trivial
    | cons l ls ih => exact ⟨hC s l hIs h.2.head, ih (hI s l hIs) h.2⟩
  · intro h
    have hboth : Always step (fun s => I s ∧ J s) s ls :=
      always_of_eachStep (fun s l hs hl => ⟨hI s l hs.1, hJ s l hs.1 hs.2 hl⟩) ls ⟨hIs, hJs⟩ h
    exact hboth.mono fun s hs => hP s hs.2

end NatPiercer
