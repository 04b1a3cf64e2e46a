/-
# `Lib.Table` — a list that is meant as a map

The entries of a list have keys and values, and a map says which value each key
is to have.  The list stands for the map (`StandsFor`) if a key has exactly
the entry that the map gives it: one with its value, or none.

A list can be read by its keys or by its values.  What is done to it stays in
step with the map exactly if the two readings agree about the entry it is
done to, and the two equivalences say when.
-/
import Mathlib.Data.List.Basic
import Mathlib.Logic.Function.Basic

namespace NatPiercer

variable {α κ ν : Type} [DecidableEq κ]

def StandsFor (key : α → κ) (val : α → ν) (l : List α) (m : κ → Option ν) : Prop :=
  ∀ k, (l.filter fun x => key x = k).map val = (m k).toList

section StandsFor
variable {key : α → κ} {val : α → ν} {l : List α} {m : κ → Option ν}

theorem standsFor_nil : StandsFor key val [] fun _ => none := fun _ => rfl

theorem StandsFor.eq_some (h : StandsFor key val l m) {x : α} (hx : x ∈ l) :
    m (key x) = some (val x) := by
  have hval : val x ∈ (m (key x)).toList := by
    rw [← h (key x)]
    exact List.mem_map_of_mem (List.mem_filter.mpr ⟨hx, decide_eq_true rfl⟩)
  exact Option.mem_toList.mp hval

theorem StandsFor.exists_mem (h : StandsFor key val l m) {k : κ} {v : ν} (hk : m k = some v) :
    ∃ x ∈ l, key x = k ∧ val x = v := by
  have hval : v ∈ (l.filter fun x => key x = k).map val := by
    rw [h k, hk]
    exact List.mem_singleton_self v
  obtain ⟨x, hx, rfl⟩ := List.mem_map.mp hval
  obtain ⟨hx, hkey⟩ := List.mem_filter.mp hx
  exact ⟨x, hx, of_decide_eq_true hkey, rfl⟩

/-- All entries of a key go. -/
theorem StandsFor.erase (h : StandsFor key val l m) (k : κ) :
    StandsFor key val (l.filter fun x => key x ≠ k) (Function.update m k none) := by
  intro j
  rw [List.filter_filter]
  by_cases hj : j = k
  · subst hj
    rw [Function.update_self, List.filter_eq_nil_iff.mpr]
    · rfl
    · intro x _
      simp
  · rw [Function.update_of_ne hj, ← h j]
    refine congrArg (List.map val) (List.filter_congr fun x _ => ?_)
    by_cases hx : key x = j
    · simp [hx, hj]
    · simp [hx]

/-- An entry more is in step exactly if its key had none. -/
theorem StandsFor.append_iff (h : StandsFor key val l m) (x : α) :
    StandsFor key val (l ++ [x]) (Function.update m (key x) (some (val x))) ↔
      m (key x) = none := by
  have hself : [x].filter (fun y => key y = key x) = [x] := by simp
  constructor
  · intro h'
    have hkey := h' (key x)
    rw [List.filter_append, List.map_append, h (key x), Function.update_self, hself] at hkey
    cases hm : m (key x) with
    | none => rfl
    | some v =>
        rw [hm] at hkey
        exact absurd (congrArg List.length hkey) (by simp)
  · intro hnone j
    rw [List.filter_append, List.map_append, h j]
    by_cases hj : j = key x
    · subst hj
      rw [hnone, Function.update_self, hself]
      rfl
    · rw [Function.update_of_ne hj, List.filter_cons_of_neg (by simpa using Ne.symm hj)]
      exact List.append_nil _

/-- No entry more is in step exactly if nothing was to change. -/
theorem StandsFor.update_iff (h : StandsFor key val l m) (k : κ) (v : ν) :
    StandsFor key val l (Function.update m k (some v)) ↔ m k = some v := by
  constructor
  · intro h'
    have hk := h' k
    rw [h k, Function.update_self] at hk
    cases hm : m k with
    | none =>
        rw [hm] at hk
        exact absurd hk.symm (List.cons_ne_nil v [])
    | some w =>
        rw [hm] at hk
        exact congrArg some (List.cons.inj hk).1
  · intro hk
    rw [← hk, Function.update_eq_self]
    exact h

end StandsFor

end NatPiercer
