/-
# `Lib.Vec` — a vector changed in place

`v.iter_mut().find(p)` hands out the first element that satisfies `p`, and
what is written through it changes that element only.  `modifyFirst` is the
vector afterwards.

`v.remove(i)` panics where there is no `i`-th element, and so is partial here,
as `&v[i..j]` is.  What `position` has found is there (`position_spec`).  To go
through a list of positions from the last to the first is to find each
of them still there, since what is removed only moves what comes after it
(`removeRev_findIdxs`).
-/
import Mathlib.Data.List.Basic
import Mathlib.Data.List.Forall2

namespace NatPiercer.Vec

variable {α β : Type}

/-- `if let Some(x) = v.iter_mut().find(p) { *x = f(x) }`. -/
def modifyFirst (p : α → Bool) (f : α → α) : List α → List α
  | [] => []
  | x :: xs => if p x then f x :: xs else x :: modifyFirst p f xs

/-- Nothing that the change leaves alone can tell the vectors apart. -/
theorem map_modifyFirst {p : α → Bool} {f : α → α} {g : α → β} (h : ∀ x, g (f x) = g x) :
    ∀ xs, (modifyFirst p f xs).map g = xs.map g
  | [] => rfl
  | x :: xs => by
      rw [modifyFirst]
      split_ifs
      · rw [List.map_cons, List.map_cons, h x]
      · rw [List.map_cons, List.map_cons, map_modifyFirst h xs]

@[simp] theorem length_modifyFirst (p : α → Bool) (f : α → α) (xs : List α) :
    (modifyFirst p f xs).length = xs.length := by
  have h := congrArg List.length
    (map_modifyFirst (p := p) (f := f) (g := fun _ => ()) (fun _ => rfl) xs)
  simpa using h

/-- A change after a change that `p` does not see is one to the same element. -/
theorem modifyFirst_modifyFirst {p : α → Bool} {f g : α → α} (h : ∀ x, p (f x) = p x) :
    ∀ xs, modifyFirst p g (modifyFirst p f xs) = modifyFirst p (fun x => g (f x)) xs
  | [] => rfl
  | x :: xs => by
      rw [modifyFirst, modifyFirst]
      cases hp : p x with
      | true =>
          rw [if_pos rfl, if_pos rfl, modifyFirst, if_pos ((h x).trans hp)]
      | false =>
          rw [if_neg Bool.false_ne_true, if_neg Bool.false_ne_true, modifyFirst, hp,
            if_neg Bool.false_ne_true, modifyFirst_modifyFirst h xs]

theorem mem_modifyFirst {p : α → Bool} {f : α → α} {y : α} :
    ∀ {xs : List α}, y ∈ modifyFirst p f xs → y ∈ xs ∨ ∃ x ∈ xs, p x = true ∧ y = f x
  | [], h => absurd h List.not_mem_nil
  | x :: xs, h => by
      rw [modifyFirst] at h
      split_ifs at h with hp
      · rcases List.mem_cons.mp h with rfl | h
        · exact Or.inr ⟨x, List.mem_cons_self, hp, rfl⟩
        · exact Or.inl (List.mem_cons_of_mem _ h)
      · rcases List.mem_cons.mp h with rfl | h
        · exact Or.inl List.mem_cons_self
        · rcases mem_modifyFirst h with h | ⟨z, hz, hpz, rfl⟩
          · exact Or.inl (List.mem_cons_of_mem _ h)
          · exact Or.inr ⟨z, List.mem_cons_of_mem _ hz, hpz, rfl⟩

/-- Element by element, nothing happens, or the change to one that satisfies `p`. -/
theorem forall₂_modifyFirst {p : α → Bool} {f : α → α} {R : α → α → Prop} (hrefl : ∀ x, R x x)
    (hf : ∀ x, p x = true → R x (f x)) : ∀ xs, List.Forall₂ R xs (modifyFirst p f xs)
  | [] => .nil
  | x :: xs => by
      rw [modifyFirst]
      split_ifs with hp
      · exact .cons (hf x hp) (List.forall₂_same.mpr fun y _ => hrefl y)
      · exact .cons (hrefl x) (forall₂_modifyFirst hrefl hf xs)

theorem forall₂_modify {R : α → α → Prop} (hrefl : ∀ x, R x x) {f : α → α} (hf : ∀ x, R x (f x)) :
    ∀ (i : Nat) (xs : List α), List.Forall₂ R xs (xs.modify i f)
  | i, [] => by
      rw [List.modify_nil]
      exact .nil
  | 0, x :: xs => by
      rw [List.modify_zero_cons]
      exact .cons (hf x) (List.forall₂_same.mpr fun y _ => hrefl y)
  | i + 1, x :: xs => by
      rw [List.modify_succ_cons]
      exact .cons (hrefl x) (forall₂_modify hrefl hf i xs)

/-- What is there afterwards was there before, or has come of what was. -/
theorem exists_of_forall₂ {R : α → β → Prop} {xs : List α} {ys : List β}
    (h : List.Forall₂ R xs ys) : ∀ y ∈ ys, ∃ x ∈ xs, R x y := by
  induction h with
  | nil => exact fun y hy => absurd hy List.not_mem_nil
  | cons hxy _ ih =>
      intro z hz
      rcases List.mem_cons.mp hz with rfl | hz
      · exact ⟨_, List.mem_cons_self, hxy⟩
      · obtain ⟨x, hx, hxz⟩ := ih z hz
        exact ⟨x, List.mem_cons_of_mem _ hx, hxz⟩

theorem mem_modifyFirst_of_not {p : α → Bool} {f : α → α} {y : α} (hy : p y = false) :
    ∀ {xs : List α}, y ∈ xs → y ∈ modifyFirst p f xs
  | [], h => absurd h List.not_mem_nil
  | x :: xs, h => by
      rw [modifyFirst]
      split_ifs with hp
      · rcases List.mem_cons.mp h with rfl | h
        · rw [hy] at hp
          exact absurd hp Bool.false_ne_true
        · exact List.mem_cons_of_mem _ h
      · rcases List.mem_cons.mp h with rfl | h
        · exact List.mem_cons_self
        · exact List.mem_cons_of_mem _ (mem_modifyFirst_of_not hy h)

/-- The first is still the first, if `p` does not see the change. -/
theorem find?_modifyFirst {p : α → Bool} {f : α → α} (h : ∀ x, p (f x) = p x) :
    ∀ xs : List α, (modifyFirst p f xs).find? p = (xs.find? p).map f
  | [] => rfl
  | x :: xs => by
      rw [modifyFirst]
      cases hp : p x with
      | true =>
          rw [if_pos rfl, List.find?_cons_of_pos hp, List.find?_cons_of_pos ((h x).trans hp)]
          rfl
      | false =>
          rw [if_neg Bool.false_ne_true, List.find?_cons_of_neg (by simp [hp]),
            List.find?_cons_of_neg (by simp [hp]), find?_modifyFirst h xs]

/-- What a condition that does not see the change finds: it is changed if it is what
`p` finds. -/
theorem find?_modifyFirst_of_same [DecidableEq α] {p q : α → Bool} {f : α → α}
    (h : ∀ x, q (f x) = q x) :
    ∀ xs : List α, (modifyFirst p f xs).find? q =
      (xs.find? q).map fun x => if xs.find? p = some x then f x else x
  | [] => rfl
  | x :: xs => by
      rw [modifyFirst]
      cases hp : p x with
      | true =>
          rw [if_pos rfl, List.find?_cons_of_pos hp]
          cases hq : q x with
          | true =>
              rw [List.find?_cons_of_pos hq, List.find?_cons_of_pos ((h x).trans hq),
                Option.map_some, if_pos rfl]
          | false =>
              have hfx : ¬ q (f x) = true := by
                rw [h x, hq]
                exact Bool.false_ne_true
              rw [List.find?_cons_of_neg hfx, List.find?_cons_of_neg (by simp [hq])]
              cases hy : xs.find? q with
              | none => rfl
              | some y =>
                  have hxy : some x ≠ some y := by
                    intro hxy
                    rw [Option.some.inj hxy, List.find?_some hy] at hq
                    exact Bool.false_ne_true hq.symm
                  rw [Option.map_some, if_neg hxy]
      | false =>
          rw [if_neg Bool.false_ne_true, List.find?_cons_of_neg (p := p) (by simp [hp])]
          cases hq : q x with
          | true =>
              rw [List.find?_cons_of_pos hq, List.find?_cons_of_pos hq, Option.map_some, if_neg]
              exact fun hx => absurd (List.find?_some hx) (by simp [hp])
          | false =>
              rw [List.find?_cons_of_neg (by simp [hq]), List.find?_cons_of_neg (by simp [hq]),
                find?_modifyFirst_of_same h xs]

/-- What is looked for by a condition that it alone meets. -/
theorem find?_of_only {p : α → Bool} {x : α} {xs : List α} (hx : x ∈ xs) (hp : p x = true)
    (honly : ∀ y ∈ xs, p y = true → y = x) : xs.find? p = some x := by
  obtain ⟨y, hy⟩ := Option.isSome_iff_exists.mp (List.find?_isSome.mpr ⟨x, hx, hp⟩)
  rw [hy, honly y (List.mem_of_find?_eq_some hy) (List.find?_some hy)]

/-- What a condition finds that sees nothing of the change, among those that stay. -/
theorem find?_filterMap_of_some {f : α → Option α} {q : α → Bool}
    (h : ∀ x y, f x = some y → q y = q x) {x y : α} (hf : f x = some y) :
    ∀ {xs : List α}, xs.find? q = some x → (xs.filterMap f).find? q = some y
  | z :: xs, hx => by
      cases hq : q z with
      | true =>
          rw [List.find?_cons_of_pos hq] at hx
          obtain rfl := Option.some.inj hx
          rw [List.filterMap_cons_some hf, List.find?_cons_of_pos ((h z y hf).trans hq)]
      | false =>
          have hz : ¬ q z = true := by simp [hq]
          rw [List.find?_cons_of_neg hz] at hx
          cases hfz : f z with
          | none => rw [List.filterMap_cons_none hfz, find?_filterMap_of_some h hf hx]
          | some w =>
              rw [List.filterMap_cons_some hfz,
                List.find?_cons_of_neg (fun hw => hz ((h z w hfz).symm.trans hw)),
                find?_filterMap_of_some h hf hx]

/-- Nor does it find anything there if it did not before. -/
theorem find?_filterMap_of_none {f : α → Option α} {q : α → Bool}
    (h : ∀ x y, f x = some y → q y = q x) {xs : List α} (hx : xs.find? q = none) :
    (xs.filterMap f).find? q = none := by
  refine List.find?_eq_none.mpr fun y hy => ?_
  obtain ⟨x, hmem, hf⟩ := List.mem_filterMap.mp hy
  rw [h x y hf]
  exact List.find?_eq_none.mp hx x hmem

/-- Where `q` picks none of those that can be changed, there is no change. -/
theorem filter_modifyFirst {p q : α → Bool} {f : α → α}
    (h : ∀ x, p x = true → q x = false ∧ q (f x) = false) :
    ∀ xs : List α, (modifyFirst p f xs).filter q = xs.filter q
  | [] => rfl
  | x :: xs => by
      rw [modifyFirst]
      split_ifs with hp
      · obtain ⟨hx, hfx⟩ := h x hp
        rw [List.filter_cons_of_neg (by simp [hfx]), List.filter_cons_of_neg (by simp [hx])]
      · rw [List.filter_cons, List.filter_cons, filter_modifyFirst h xs]

/-- The change is seen through `g` exactly if it is on the first element that
satisfies `p`. -/
theorem map_modifyFirst_eq_iff {p : α → Bool} {f : α → α} {g : α → β} :
    ∀ {l : List α}, (modifyFirst p f l).map g = l.map g ↔
      ∀ x, l.find? p = some x → g (f x) = g x
  | [] => ⟨fun _ _ hx => absurd hx (Option.some_ne_none _).symm, fun _ => rfl⟩
  | x :: xs => by
      rw [modifyFirst]
      cases hp : p x with
      | true =>
          rw [if_pos rfl, List.find?_cons_of_pos hp, List.map_cons, List.map_cons, List.cons.injEq]
          constructor
          · rintro ⟨hx, -⟩ y hy
            rw [← Option.some.inj hy]
            exact hx
          · exact fun h => ⟨h x rfl, rfl⟩
      | false =>
          have hnot : ¬ p x = true := by
            rw [hp]
            exact Bool.false_ne_true
          rw [if_neg Bool.false_ne_true, List.find?_cons_of_neg hnot, List.map_cons, List.map_cons,
            List.cons.injEq, map_modifyFirst_eq_iff]
          exact and_iff_right rfl

/-- The vector stays as it is exactly if the first element that satisfies `p`
does. -/
theorem modifyFirst_eq_self_iff {p : α → Bool} {f : α → α} {xs : List α} :
    modifyFirst p f xs = xs ↔ ∀ x, xs.find? p = some x → f x = x := by
  have h := map_modifyFirst_eq_iff (p := p) (f := f) (g := id) (l := xs)
  rwa [List.map_id, List.map_id] at h

/-- Any number of changes that `p` does not see are one. -/
theorem foldl_modifyFirst {p : α → Bool} {fs : List (α → α)} (h : ∀ f ∈ fs, ∀ x, p (f x) = p x)
    (xs : List α) : fs.foldl (fun xs f => modifyFirst p f xs) xs =
      modifyFirst p (fun x => fs.foldl (fun x f => f x) x) xs := by
  induction fs generalizing xs with
  | nil => exact (modifyFirst_eq_self_iff.mpr fun _ _ => rfl).symm
  | cons f fs ih =>
      rw [List.foldl_cons, ih fun g hg => h g (List.mem_cons_of_mem f hg)]
      exact modifyFirst_modifyFirst (h f List.mem_cons_self) xs

/-- The first is in the one part or in the other. -/
theorem modifyFirst_append {p : α → Bool} {f : α → α} (xs ys : List α) :
    modifyFirst p f (xs ++ ys) =
      if xs.any p then modifyFirst p f xs ++ ys else xs ++ modifyFirst p f ys := by
  induction xs with
  | nil => rfl
  | cons x xs ih =>
      rw [List.cons_append, modifyFirst, modifyFirst, List.any_cons]
      cases p x with
      | true => rfl
      | false =>
          simp only [Bool.false_eq_true, if_false, Bool.false_or]
          rw [ih]
          split_ifs <;> rfl

theorem modifyFirst_of_forall_not {p : α → Bool} {f : α → α} {xs : List α}
    (h : ∀ x ∈ xs, ¬ p x = true) : modifyFirst p f xs = xs := by
  refine modifyFirst_eq_self_iff.mpr fun x hx => ?_
  rw [List.find?_eq_none.mpr h] at hx
  exact absurd hx (Option.some_ne_none x).symm

/-- Where only one element can satisfy `p`, all that do are changed. -/
theorem modifyFirst_eq_map {p : α → Bool} {f : α → α} {g : α → β} {k : β}
    (hp : ∀ x, p x = true → g x = k) :
    ∀ {xs : List α}, (xs.map g).Nodup →
      modifyFirst p f xs = xs.map fun x => if p x then f x else x
  | [], _ => rfl
  | x :: xs, hn => by
      rw [List.map_cons, List.nodup_cons] at hn
      rw [modifyFirst, List.map_cons]
      split_ifs with hx
      · have hrest : xs.map (fun y => if p y then f y else y) = xs := by
          refine (List.map_congr_left fun y hy => ?_).trans (List.map_id xs)
          have hy : p y = false := by
            by_contra hpy
            have hkey : g y = g x := (hp y (by simpa using hpy)).trans (hp x hx).symm
            exact hn.1 (List.mem_map.mpr ⟨y, hy, hkey⟩)
          rw [hy, if_neg Bool.false_ne_true]
          rfl
        rw [hrest]
      · rw [modifyFirst_eq_map hp hn.2]

/-- What is kept of a vector, seen through what does not change. -/
theorem map_filterMap_sublist {f : α → Option α} {g : α → β}
    (h : ∀ x y, f x = some y → g y = g x) :
    ∀ l : List α, ((l.filterMap f).map g).Sublist (l.map g)
  | [] => .slnil
  | x :: l => by
      rw [List.filterMap_cons, List.map_cons]
      cases hx : f x with
      | none => exact (map_filterMap_sublist h l).cons (g x)
      | some y =>
          dsimp only
          rw [List.map_cons, h x y hx]
          exact (map_filterMap_sublist h l).cons_cons (g x)

/-- What is written through the reference to one element. -/
theorem modify_append_cons (f : α → α) (pre l : List α) (x : α) :
    (pre ++ x :: l).modify pre.length f = pre ++ f x :: l := by
  induction pre with
  | nil => exact List.modify_zero_cons f x l
  | cons y pre ih =>
      rw [List.cons_append, List.length_cons, List.modify_succ_cons, ih]
      rfl

/-- `v.remove(i)`, or a panic. -/
def remove (i : Nat) (l : List α) : Option (List α) :=
  if i < l.length then some (l.eraseIdx i) else none

/-- `for &i in is.iter().rev() { v.remove(i) }` -/
def removeRev (is : List Nat) (l : List α) : Option (List α) :=
  is.reverse.foldlM (fun l i => remove i l) l

/-- Where none is missing, they are erased one after the other. -/
theorem foldl_eraseIdx_of_removeRev {is : List Nat} {l l' : List α}
    (h : removeRev is l = some l') : is.reverse.foldl List.eraseIdx l = l' := by
  unfold removeRev at h
  generalize is.reverse = js at h ⊢
  induction js generalizing l with
  | nil => exact Option.some.inj h
  | cons j js ih =>
      rw [List.foldlM_cons, remove] at h
      split_ifs at h
      · exact ih h
      · exact absurd h (Option.some_ne_none l').symm

theorem remove_append_cons (pre l : List α) (x : α) :
    remove pre.length (pre ++ x :: l) = some (pre ++ l) := by
  have hlt : pre.length < (pre ++ x :: l).length := by simp
  rw [remove, if_pos hlt, List.eraseIdx_append_of_length_le (Nat.le_refl _), Nat.sub_self,
    List.eraseIdx_cons_zero]

theorem removeRev_cons (i : Nat) (is : List Nat) (l : List α) :
    removeRev (i :: is) l = (removeRev is l).bind (remove i) := by
  rw [removeRev, List.reverse_cons, List.foldlM_append]
  change (removeRev is l).bind (fun l => [i].foldlM (fun l i => remove i l) l) = _
  refine congrArg _ (funext fun l => ?_)
  rw [List.foldlM_cons]
  exact Option.bind_fun_some _

/-- The positions of what satisfies `p` are there when their turn comes, and what is
left in the end is the rest. -/
theorem removeRev_findIdxs (p : α → Bool) (pre l : List α) :
    removeRev (l.findIdxs p pre.length) (pre ++ l) = some (pre ++ l.filter fun x => !p x) := by
  induction l generalizing pre with
  | nil =>
      rw [List.findIdxs_nil, List.append_nil, List.filter_nil, List.append_nil]
      rfl
  | cons x l ih =>
      -- what comes after `x` has been removed when `x` is
      have hrest := ih (pre ++ [x])
      rw [List.length_append, List.length_singleton, List.append_assoc, List.singleton_append,
        List.append_assoc, List.singleton_append] at hrest
      rw [List.findIdxs_cons]
      cases hx : p x with
      | true =>
          rw [if_pos rfl, removeRev_cons, hrest, Option.bind_some, remove_append_cons,
            List.filter_cons_of_neg (by simp [hx])]
      | false =>
          rw [if_neg Bool.false_ne_true, hrest, List.filter_cons_of_pos (by simp [hx])]

/-- `&v[i..j]`, or a panic. -/
def slice (i j : Nat) (l : List α) : Option (List α) :=
  if i ≤ j ∧ j ≤ l.length then some ((l.drop i).take (j - i)) else none

theorem slice_eq_some {i j : Nat} {l : List α} (hij : i ≤ j) (hj : j ≤ l.length) :
    slice i j l = some ((l.drop i).take (j - i)) :=
  if_pos ⟨hij, hj⟩

/-- `&v[..n]` -/
theorem slice_zero {n : Nat} {l : List α} (h : n ≤ l.length) : slice 0 n l = some (l.take n) :=
  slice_eq_some (Nat.zero_le n) h

/-- What is at the position that `position` has found, and what is left without
it. -/
theorem position_spec {p : α → Bool} {l : List α} {i : Nat} (h : l.findIdx? p = some i) :
    ∃ x, l.find? p = some x ∧ l[i]? = some x ∧ remove i l = some (l.eraseP p) := by
  obtain ⟨hi, hp, -⟩ := List.findIdx?_eq_some_iff_getElem.mp h
  have hget : l[i]? = some l[i] := List.getElem?_eq_getElem hi
  refine ⟨l[i], ?_, hget, ?_⟩
  · rw [List.find?_eq_bind_findIdx?_getElem?, h, Option.bind_some, hget]
  · rw [remove, if_pos hi, List.eraseP_eq_eraseIdx, h]

theorem position_none {p : α → Bool} {l : List α} (h : l.findIdx? p = none) : l.find? p = none := by
  rw [List.find?_eq_bind_findIdx?_getElem?, h, Option.bind_none]

end NatPiercer.Vec
