/-
# `Lib.Flood` — items in flight that bring forth items

Some items are in flight.  To deliver one takes it out of flight, and puts
what `emit` makes of it into flight; which one is delivered next is anybody's
choice.  What an item brings forth depends on the item alone.

Then the schedule does not matter.  Count in waves: what is in flight, what
that brings forth, and so on.  If some wave is empty, every schedule delivers
the items of the waves before it, each as often as it is there, and no more;
if none is, some schedule never ends (`settles_iff`).
-/
import Mathlib.Data.List.Perm.Basic
import NatPiercer.Lib.Run

namespace NatPiercer

structure Flood (α : Type) where
  inFlight : List α
  delivered : List α

namespace Flood

variable {α : Type} (emit : α → List α)

/-- The item at `i` arrives; if there is none, nothing happens. -/
def deliver (f : Flood α) (i : Nat) : Flood α :=
  match f.inFlight[i]? with
  | some x => ⟨f.inFlight.eraseIdx i ++ emit x, f.delivered ++ [x]⟩
  | none => f

/-- What is in flight after `k` rounds, in each of which everything arrives. -/
def wave : Nat → List α → List α
  | 0, xs => xs
  | k + 1, xs => wave k (xs.flatMap emit)

/-- What has arrived by then. -/
def waves : Nat → List α → List α
  | 0, _ => []
  | k + 1, xs => xs ++ waves k (xs.flatMap emit)

variable {emit} {xs ys : List α} {k : Nat}

/-! ## Waves -/

@[simp] theorem wave_nil : ∀ k, wave emit k [] = []
  | 0 => rfl
  | k + 1 => wave_nil k

@[simp] theorem waves_nil : ∀ k, waves emit k [] = []
  | 0 => rfl
  | k + 1 => waves_nil k

theorem wave_succ : ∀ (k : Nat) (xs : List α),
    wave emit (k + 1) xs = (wave emit k xs).flatMap emit
  | 0, _ => rfl
  | k + 1, xs => wave_succ k (xs.flatMap emit)

variable (emit) in
theorem waves_succ : ∀ (k : Nat) (xs : List α),
    waves emit (k + 1) xs = waves emit k xs ++ wave emit k xs
  | 0, xs => List.append_nil xs
  | k + 1, xs => by
      rw [waves, waves_succ k, ← List.append_assoc]
      rfl

theorem wave_append : ∀ (k : Nat) (xs ys : List α),
    wave emit k (xs ++ ys) = wave emit k xs ++ wave emit k ys
  | 0, _, _ => rfl
  | k + 1, xs, ys => by
      rw [wave, List.flatMap_append, wave_append k]
      rfl

theorem waves_append (k : Nat) (xs ys : List α) :
    (waves emit k (xs ++ ys)).Perm (waves emit k xs ++ waves emit k ys) := by
  induction k generalizing xs ys with
  | zero => exact List.Perm.refl _
  | succ k ih =>
      have hrest := ih (xs.flatMap emit) (ys.flatMap emit)
      calc waves emit (k + 1) (xs ++ ys)
          = xs ++ (ys ++ waves emit k (xs.flatMap emit ++ ys.flatMap emit)) := by
            rw [waves, List.flatMap_append, List.append_assoc]
        _ |>.Perm (xs ++ (ys ++ (waves emit k (xs.flatMap emit) ++
              waves emit k (ys.flatMap emit)))) := (hrest.append_left ys).append_left xs
        _ |>.Perm (xs ++ (waves emit k (xs.flatMap emit) ++
              (ys ++ waves emit k (ys.flatMap emit)))) := by
            refine List.Perm.append_left xs ?_
            rw [← List.append_assoc, ← List.append_assoc]
            exact List.perm_append_comm.append_right _
        _ = waves emit (k + 1) xs ++ waves emit (k + 1) ys := by
            rw [waves, waves, List.append_assoc]

variable (emit k) in
theorem wave_perm (h : xs.Perm ys) : (wave emit k xs).Perm (wave emit k ys) := by
  induction k generalizing xs ys with
  | zero => exact h
  | succ k ih => exact ih (h.flatMap_right emit)

theorem waves_perm (h : xs.Perm ys) : (waves emit k xs).Perm (waves emit k ys) := by
  induction k generalizing xs ys with
  | zero => exact List.Perm.refl _
  | succ k ih => exact h.append (ih (h.flatMap_right emit))

/-- Behind an empty wave there is nothing. -/
theorem wave_of_le {j k : Nat} (h : wave emit j xs = []) (hk : j ≤ k) : wave emit k xs = [] := by
  induction hk with
  | refl => exact h
  | @step k _ ih => rw [wave_succ, ih, List.flatMap_nil]

theorem waves_of_le {j k : Nat} (h : wave emit j xs = []) (hk : j ≤ k) :
    waves emit k xs = waves emit j xs := by
  induction hk with
  | refl => rfl
  | @step k hk ih => rw [waves_succ, ih, wave_of_le h hk, List.append_nil]

/-- The first waves are among all of them. -/
theorem waves_sublist {j : Nat} (h : wave emit k xs = []) :
    (waves emit j xs).Sublist (waves emit k xs) := by
  rcases Nat.le_total k j with hle | hle
  · rw [waves_of_le h hle]
  · clear h
    induction hle with
    | refl => exact List.Sublist.refl _
    | @step k _ ih =>
        rw [waves_succ]
        exact ih.trans (List.sublist_append_left _ _)

theorem length_waves (h : ∀ j, wave emit j xs ≠ []) : ∀ k, k ≤ (waves emit k xs).length
  | 0 => Nat.zero_le _
  | k + 1 => by
      have hpos := List.length_pos_iff.mpr (h k)
      have hk := length_waves h k
      rw [waves_succ, List.length_append]
      omega

theorem mem_waves {i : Nat} {x : α} (hx : x ∈ wave emit i xs) (hik : i < k) :
    x ∈ waves emit k xs := by
  induction hik with
  | refl =>
      rw [waves_succ]
      exact List.mem_append_right _ hx
  | step _ ih =>
      rw [waves_succ]
      exact List.mem_append_left _ ih

/-- What counts at most once among all waves counts in one wave only. -/
theorem wave_unique {p : α → Bool} (h : wave emit k xs = [])
    (hcount : (waves emit k xs).countP p ≤ 1) {i j : Nat} {x y : α} (hx : x ∈ wave emit i xs)
    (hy : y ∈ wave emit j xs) (hpx : p x = true) (hpy : p y = true) : i = j := by
  have hlt : ∀ {i j : Nat} {x y : α}, x ∈ wave emit i xs → y ∈ wave emit j xs → p x = true →
      p y = true → ¬ i < j := by
    intro i j x y hx hy hpx hpy hij
    have hbefore := List.countP_pos_iff.mpr ⟨x, mem_waves hx hij, hpx⟩
    have hthen := List.countP_pos_iff.mpr ⟨y, hy, hpy⟩
    have hle := (waves_sublist (j := j + 1) h).countP_le (p := p)
    rw [waves_succ, List.countP_append] at hle
    omega
  rcases Nat.lt_trichotomy i j with hij | hij | hij
  · exact absurd hij (hlt hx hy hpx hpy)
  · exact hij
  · exact absurd hij (hlt hy hx hpy hpx)

/-! ## Schedules -/

/-- Nothing is lost or gained when an item arrives. -/
theorem deliver_waves {f : Flood α} (h : wave emit k f.inFlight = []) (i : Nat) :
    wave emit k (f.deliver emit i).inFlight = [] ∧
      ((f.deliver emit i).delivered ++ waves emit k (f.deliver emit i).inFlight).Perm
        (f.delivered ++ waves emit k f.inFlight) := by
  unfold deliver
  cases hx : f.inFlight[i]? with
  | none => exact ⟨h, List.Perm.refl _⟩
  | some x =>
      obtain ⟨hi, hxi⟩ := List.getElem?_eq_some_iff.mp hx
      have hperm : ([x] ++ f.inFlight.eraseIdx i).Perm f.inFlight :=
        hxi ▸ List.getElem_cons_eraseIdx_perm hi
      obtain ⟨hhead, hrest⟩ : wave emit k [x] = [] ∧
          wave emit k (f.inFlight.eraseIdx i) = [] := by
        have hall := wave_perm emit k hperm
        rw [h, List.perm_nil, wave_append] at hall
        exact List.append_eq_nil_iff.mp hall
      have hemit : wave emit (k + 1) [x] = wave emit k (emit x) := by
        rw [wave, List.flatMap_singleton]
      have hitem : waves emit k [x] = x :: waves emit k (emit x) := by
        have hsucc := waves_succ emit k [x]
        rw [hhead, List.append_nil, waves, List.flatMap_singleton] at hsucc
        exact hsucc.symm
      constructor
      · rw [wave_append, hrest, ← hemit, wave_succ, hhead]
        rfl
      · rw [List.append_assoc]
        refine List.Perm.append_left _ ?_
        calc ([x] ++ waves emit k (f.inFlight.eraseIdx i ++ emit x)).Perm
              ([x] ++ (waves emit k (emit x) ++ waves emit k (f.inFlight.eraseIdx i))) :=
              ((waves_append k _ _).trans List.perm_append_comm).append_left _
          _ = waves emit k [x] ++ waves emit k (f.inFlight.eraseIdx i) := by
              rw [hitem]
              rfl
          _ |>.Perm (waves emit k f.inFlight) :=
              (waves_append k _ _).symm.trans (waves_perm hperm)

theorem after_waves {f : Flood α} (h : wave emit k f.inFlight = []) (is : List Nat) :
    ((after (deliver emit) f is).delivered ++
        waves emit k (after (deliver emit) f is).inFlight).Perm
      (f.delivered ++ waves emit k f.inFlight) := by
  induction is generalizing f with
  | nil => exact List.Perm.refl _
  | cons i is ih =>
      obtain ⟨hwave, hperm⟩ := deliver_waves h i
      exact (ih hwave).trans hperm

variable (emit) in
/-- In the order of sending. -/
theorem after_round : ∀ (xs ys ds : List α),
    after (deliver emit) ⟨xs ++ ys, ds⟩ (List.replicate xs.length 0) =
      ⟨ys ++ xs.flatMap emit, ds ++ xs⟩
  | [], ys, ds => by simp [after]
  | x :: xs, ys, ds => by
      have hround := after_round xs (ys ++ emit x) (ds ++ [x])
      rw [List.length_cons, List.replicate_succ, after]
      change after (deliver emit) ⟨xs ++ ys ++ emit x, ds ++ [x]⟩ _ = _
      rw [List.append_assoc, hround, List.flatMap_cons, List.append_assoc, List.append_assoc]
      rfl

variable (emit) in
theorem exists_schedule (xs ds : List α) :
    ∀ k, ∃ is, after (deliver emit) ⟨xs, ds⟩ is = ⟨wave emit k xs, ds ++ waves emit k xs⟩
  | 0 => ⟨[], by rw [waves, List.append_nil]; rfl⟩
  | k + 1 => by
      obtain ⟨is, his⟩ := exists_schedule xs ds k
      have hround := after_round emit (wave emit k xs) [] (ds ++ waves emit k xs)
      rw [List.append_nil, List.nil_append] at hround
      refine ⟨is ++ List.replicate (wave emit k xs).length 0, ?_⟩
      rw [after_append, his, hround, wave_succ, waves_succ, List.append_assoc]

/-- **When a flood settles.**  However the items are scheduled, only so many are
ever in flight, and whenever none is, `P` holds of what has arrived: this is
to say that some wave is empty, and `P` holds of the waves before it. -/
theorem settles_iff {P : List α → Prop} (hP : ∀ {ds es : List α}, ds.Perm es → P ds → P es)
    (xs : List α) :
    ((∃ N, ∀ is, (after (deliver emit) ⟨xs, []⟩ is).delivered.length +
        (after (deliver emit) ⟨xs, []⟩ is).inFlight.length ≤ N) ∧
      ∀ is, (after (deliver emit) ⟨xs, []⟩ is).inFlight = [] →
        P (after (deliver emit) ⟨xs, []⟩ is).delivered) ↔
      ∃ k, wave emit k xs = [] ∧ P (waves emit k xs) := by
  constructor
  · rintro ⟨⟨N, hN⟩, hall⟩
    obtain ⟨k, hk⟩ : ∃ k, wave emit k xs = [] := by
      by_contra hnone
      obtain ⟨is, his⟩ := exists_schedule emit xs [] (N + 1)
      have hle := hN is
      have hlong := length_waves (fun j hj => hnone ⟨j, hj⟩) (N + 1)
      rw [his, List.nil_append] at hle
      dsimp only at hle
      omega
    obtain ⟨is, his⟩ := exists_schedule emit xs [] k
    have hlast := hall is
    rw [his, List.nil_append] at hlast
    exact ⟨k, hk, hlast hk⟩
  · rintro ⟨k, hk, hp⟩
    have hperm : ∀ j, k ≤ j → ∀ is, ((after (deliver emit) ⟨xs, []⟩ is).delivered ++
        waves emit j (after (deliver emit) ⟨xs, []⟩ is).inFlight).Perm (waves emit k xs) := by
      intro j hj is
      have hafter := after_waves (f := ⟨xs, []⟩) (wave_of_le hk hj) is
      rwa [List.nil_append, waves_of_le hk hj] at hafter
    refine ⟨⟨(waves emit k xs).length, fun is => ?_⟩, fun is hempty => ?_⟩
    · have hlen := (hperm (k + 1) (Nat.le_succ k) is).length_eq
      rw [waves, List.length_append, List.length_append] at hlen
      omega
    · have hall := hperm k (Nat.le_refl k) is
      rw [hempty, waves_nil, List.append_nil] at hall
      exact hP hall.symm hp

end Flood

end NatPiercer
