/-
# `Lib.Beats` — signs of life that come again and again

A system keeps something for as long as it hears of it: it writes down when it
last did, and gives up what it finds, at one of its checks, to be older than
its patience.  `Watch` is such a system, apart from what else it does.  What it
watches is never given up if before every check it was heard of in time
(`Watch.lasts`).

The other side sends a sign, sleeps, and starts over.  Between two signs lies
at most `gap`, a sign takes at most `delay`, and of `lost + 1` that follow each
other one arrives.  Then, at any time, one has arrived that was sent less than
`(lost + 1) * gap + delay` before (`recent`), unless hardly any were due; and
`everyGap` is a sender for which no less will do.
-/
import Mathlib.Data.Nat.Find
import NatPiercer.Lib.Run

namespace NatPiercer.Beats

/-! ## The one who watches -/

variable {σ ℓ : Type}

/-- From `t` on, the clock never goes back. -/
def InTime (instant? : ℓ → Option Nat) : Nat → List ℓ → Prop
  | _, [] => True
  | t, l :: ls => (∀ now, instant? l = some now → t ≤ now) ∧
      InTime instant? ((instant? l).getD t) ls

/-- A system that watches something: when a step takes place, which steps are signs
of life and which are checks, and when the last sign was, as the state has
it. -/
structure Watch (σ ℓ : Type) where
  instant? : ℓ → Option Nat
  IsSign : ℓ → Prop
  check? : ℓ → Option Nat
  patience : Nat
  stamp : σ → Option Nat

/-- The step `l` keeps what is watched, unless it is a check that comes too late; it is
stamped anew by nothing but the clock, and by every sign. -/
def Watch.KeptBy (w : Watch σ ℓ) (step : σ → ℓ → σ) (s : σ) (l : ℓ) : Prop :=
  ∀ x, w.stamp s = some x → (∀ now, w.check? l = some now → now ≤ x + w.patience) →
    ∃ y, w.stamp (step s l) = some y ∧ (y = x ∨ w.instant? l = some y) ∧
      (w.IsSign l → w.instant? l = some y)

/-- At every check, there was a sign not long before: in the run, or at `t`. -/
def Watch.HeardInTime (w : Watch σ ℓ) (t : Nat) (ls : List ℓ) : Prop :=
  ∀ pre l post now, ls = pre ++ l :: post → w.check? l = some now →
    now ≤ t + w.patience ∨
      ∃ m ∈ pre, w.IsSign m ∧ ∃ x, w.instant? m = some x ∧ now ≤ x + w.patience

/-- From a sign on, what came before is no matter. -/
theorem Watch.HeardInTime.of_sign {w : Watch σ ℓ} {t y : Nat} {l : ℓ} {ls : List ℓ}
    (h : w.HeardInTime t (l :: ls)) (hnow : w.instant? l = some y) (hkeep : t ≤ y) :
    w.HeardInTime y ls := by
  rintro pre m post now rfl hm
  rcases h (l :: pre) m post now rfl hm with hin | ⟨m', hmem, hs', x', hx', hin⟩
  · exact Or.inl (by omega)
  · rcases List.mem_cons.mp hmem with rfl | hmem
    · rw [Option.some.inj (hnow.symm.trans hx')]
      exact Or.inl hin
    · exact Or.inr ⟨m', hmem, hs', x', hx', hin⟩

theorem Watch.HeardInTime.of_not_sign {w : Watch σ ℓ} {t : Nat} {l : ℓ} {ls : List ℓ}
    (h : w.HeardInTime t (l :: ls)) (hl : ¬ w.IsSign l) : w.HeardInTime t ls := by
  rintro pre m post now rfl hm
  rcases h (l :: pre) m post now rfl hm with hin | ⟨m', hmem, hs', x', hx', hin⟩
  · exact Or.inl hin
  · rcases List.mem_cons.mp hmem with rfl | hmem
    · exact absurd hs' hl
    · exact Or.inr ⟨m', hmem, hs', x', hx', hin⟩

/-- What is heard of in time is kept. -/
theorem Watch.lasts (w : Watch σ ℓ) {step : σ → ℓ → σ} {J : σ → Prop} {ok : ℓ → Prop}
    (hJ : ∀ s l, J s → J (step s l)) (hkept : ∀ s l, J s → ok l → w.KeptBy step s l)
    {ls : List ℓ} :
    ∀ {s : σ} {x t clock : Nat}, J s → w.stamp s = some x → t ≤ x → t ≤ clock →
      InTime w.instant? clock ls → (∀ l ∈ ls, ok l) → w.HeardInTime t ls →
        Always step (fun s => (w.stamp s).isSome = true) s ls := by
  induction ls with
  | nil => exact fun _ hx _ _ _ _ _ => Option.isSome_iff_exists.mpr ⟨_, hx⟩
  | cons l ls ih =>
      intro s x t clock hs hx hfloor hclock htime hok hheard
      have hcheck : ∀ now, w.check? l = some now → now ≤ x + w.patience := by
        intro now hnow
        rcases hheard [] l ls now rfl hnow with hin | ⟨m, hm, -⟩
        · omega
        · exact absurd hm List.not_mem_nil
      obtain ⟨y, hy, hstamp, hsign⟩ := hkept s l hs (hok l List.mem_cons_self) x hx hcheck
      refine ⟨Option.isSome_iff_exists.mpr ⟨x, hx⟩, ?_⟩
      have hkeep : t ≤ y := by
        rcases hstamp with rfl | hnow
        · exact hfloor
        · exact Nat.le_trans hclock (htime.1 y hnow)
      have hclock' : t ≤ (w.instant? l).getD clock := by
        cases hnow : w.instant? l with
        | none => exact hclock
        | some now => exact Nat.le_trans hclock (htime.1 now hnow)
      have hrest : ∀ m ∈ ls, ok m := fun m hm => hok m (List.mem_cons_of_mem l hm)
      by_cases hl : w.IsSign l
      · -- the clock has not gone back, so this is the latest sign
        have hnow := hsign hl
        refine ih (hJ s l hs) hy (Nat.le_refl y) ?_ htime.2 hrest (hheard.of_sign hnow hkeep)
        rw [hnow, Option.getD_some]
      · exact ih (hJ s l hs) hy hkeep hclock' htime.2 hrest (hheard.of_not_sign hl)

/-! ## The one who is watched -/

/-- The `k`-th signal is sent at `sentAt k`, not long after the one before. -/
def Regular (gap : Nat) (sentAt : Nat → Nat) : Prop := ∀ k, sentAt (k + 1) ≤ sentAt k + gap

/-- By `now`, of `lost + 1` signals in a row that are due at least one has been heard. -/
def Heard (delay lost : Nat) (sentAt : Nat → Nat) (heard : Nat → Prop) (now : Nat) : Prop :=
  ∀ k, sentAt (k + lost) + delay < now → ∃ j, k ≤ j ∧ j ≤ k + lost ∧ heard j

section Recent
variable {gap delay lost now : Nat} {sentAt : Nat → Nat} {heard : Nat → Prop}

theorem Regular.add (h : Regular gap sentAt) (k d : Nat) :
    sentAt (k + d) ≤ sentAt k + d * gap := by
  induction d with
  | zero => exact Nat.le_add_right _ _
  | succ d ih =>
      have hstep := h (k + d)
      rw [Nat.succ_mul, ← Nat.add_assoc k d 1]
      omega

/-- What was heard last was sent not long before. -/
theorem recent (hregular : Regular gap sentAt) (hheard : Heard delay lost sentAt heard now)
    (hdue : ∃ k, now ≤ sentAt k + delay) :
    now ≤ sentAt 0 + lost * gap + delay ∨
      ∃ j, heard j ∧ now ≤ sentAt j + ((lost + 1) * gap + delay) := by
  classical
  have hnow := Nat.find_spec hdue
  rcases Nat.lt_or_ge lost (Nat.find hdue) with hmany | hfew
  · -- the last `lost + 1` before the first that is not due
    obtain ⟨k, hk⟩ := Nat.exists_eq_add_of_lt hmany
    have hbefore : sentAt (k + lost) + delay < now :=
      Nat.lt_of_not_le (Nat.find_min hdue (by omega))
    obtain ⟨j, hkj, hjk, hj⟩ := hheard k hbefore
    obtain ⟨d, hd⟩ : ∃ d, Nat.find hdue = j + d := ⟨Nat.find hdue - j, by omega⟩
    have hsince := hregular.add j d
    have hgap : d * gap ≤ (lost + 1) * gap := Nat.mul_le_mul_right gap (by omega)
    rw [hd] at hnow
    exact Or.inr ⟨j, hj, by omega⟩
  · have hsince := hregular.add 0 (Nat.find hdue)
    have hgap : Nat.find hdue * gap ≤ lost * gap := Nat.mul_le_mul_right gap hfew
    rw [Nat.zero_add] at hsince
    exact Or.inl (by omega)

end Recent

/-- One signal in every `gap`, from `0` on. -/
def everyGap (gap k : Nat) : Nat := k * gap

theorem regular_everyGap (gap : Nat) : Regular gap (everyGap gap) := fun k => by
  rw [everyGap, everyGap, Nat.succ_mul]

/-- Nothing but the first is heard of for as long as may be. -/
theorem heard_everyGap {gap delay lost now : Nat} {heard : Nat → Prop}
    (hnow : now ≤ (lost + 1) * gap + delay) (hzero : heard 0) :
    Heard delay lost (everyGap gap) heard now := by
  intro k hdue
  rcases Nat.eq_zero_or_pos k with rfl | hk
  · exact ⟨0, Nat.le_refl 0, Nat.zero_le _, hzero⟩
  · have hlate : (lost + 1) * gap ≤ (k + lost) * gap := Nat.mul_le_mul_right gap (by omega)
    rw [everyGap] at hdue
    omega

end NatPiercer.Beats
