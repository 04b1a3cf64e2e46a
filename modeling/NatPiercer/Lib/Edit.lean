/-
# `Lib.Edit` — what happens to one element of a vector

A vector is edited in three ways: every element is visited, and stays, changed
or not, or goes, and something may be put out for it; the first that
satisfies a test is changed; one is added unless there is one that satisfies
a test.  A program that does nothing else to a vector is a list of edits.

Two elements may be equal, and nothing in them says which is which.  Here the
edits are done again on a vector whose elements carry the number of the edit
that added them (`Edit.numbered`), and do the same to the elements
themselves (`map_runNumbered`): the numbers are only there for something to
be said about one element over a whole run.

What is said is how often something is put out for it.  Each element has a
budget, which an edit may spend and does not raise; then no element has more
put out for it than the largest budget there is (`fired_le`).
-/
import Mathlib.Data.List.Nodup
import NatPiercer.Lib.Vec

namespace NatPiercer

inductive Edit (α ω : Type)
  | visit (f : α → Option α × List ω)
  | first (p : α → Bool) (f : α → α)
  | insert (p : α → Bool) (x : α)

namespace Edit

variable {α ω : Type}

def apply (l : List α) : Edit α ω → List α × List ω
  | visit f => (l.filterMap fun x => (f x).1, l.flatMap fun x => (f x).2)
  | first p f => (Vec.modifyFirst p f l, [])
  | insert p x => (if l.any p then l else l ++ [x], [])

/-- Some edits, and all that is put out. -/
def run (l : List α) : List (Edit α ω) → List α × List ω
  | [] => (l, [])
  | e :: es => ((run (e.apply l).1 es).1, (e.apply l).2 ++ (run (e.apply l).1 es).2)

theorem run_append (l : List α) (es es' : List (Edit α ω)) :
    run l (es ++ es') =
      ((run (run l es).1 es').1, (run l es).2 ++ (run (run l es).1 es').2) := by
  induction es generalizing l with
  | nil => rfl
  | cons e es ih =>
      rw [List.cons_append, run, ih, run, List.append_assoc]

/-- The rule for what every edit keeps. -/
theorem run_keeps {J : List α → Prop} {es : List (Edit α ω)}
    (h : ∀ e ∈ es, ∀ l, J l → J (e.apply l).1) {l : List α} (hl : J l) : J (run l es).1 := by
  induction es generalizing l with
  | nil => exact hl
  | cons e es ih =>
      exact ih (fun e' he' => h e' (List.mem_cons_of_mem e he')) (h e List.mem_cons_self l hl)

/-- Nothing is put out. -/
def Silent (e : Edit α ω) : Prop := ∀ l, (e.apply l).2 = []

theorem run_silent {es : List (Edit α ω)} (h : ∀ e ∈ es, e.Silent) (l : List α) :
    (run l es).2 = [] := by
  induction es generalizing l with
  | nil => rfl
  | cons e es ih =>
      rw [run, h e List.mem_cons_self l]
      exact ih (fun e' he' => h e' (List.mem_cons_of_mem e he')) _

/-! ## Numbers -/

/-- The `n`-th edit, on a vector with numbers. -/
def numbered (n : Nat) : Edit α ω → Edit (Nat × α) (Nat × ω)
  | visit f => visit fun x => ((f x.2).1.map (Prod.mk x.1), (f x.2).2.map (Prod.mk x.1))
  | first p f => first (fun x => p x.2) fun x => (x.1, f x.2)
  | insert p x => insert (fun y => p y.2) (n, x)

/-- Some edits, the first of which is the `n`-th. -/
def runNumbered (n : Nat) (l : List (Nat × α)) : List (Edit α ω) → List (Nat × α) × List (Nat × ω)
  | [] => (l, [])
  | e :: es =>
      let (l, out) := (e.numbered n).apply l
      let (l, more) := runNumbered (n + 1) l es
      (l, out ++ more)

/-- A vector by itself, numbered from the front. -/
def number (l : List α) : List (Nat × α) := l.zipIdx.map Prod.swap

theorem map_number (l : List α) : (number l).map Prod.snd = l := by
  rw [number, List.map_map]
  exact List.zipIdx_map_fst 0 l

/-- The numbers have no part in what is done, … -/
theorem map_apply_numbered (n : Nat) (l : List (Nat × α)) (e : Edit α ω) :
    (((e.numbered n).apply l).1.map Prod.snd, ((e.numbered n).apply l).2.map Prod.snd) =
      e.apply (l.map Prod.snd) := by
  cases e with
  | visit f =>
      refine Prod.ext ?_ ?_
      · change (l.filterMap _).map Prod.snd = (l.map Prod.snd).filterMap _
        rw [List.map_filterMap, List.filterMap_map]
        refine List.filterMap_congr fun x _ => ?_
        rw [Option.map_map]
        exact Option.map_id'
      · change (l.flatMap _).map Prod.snd = (l.map Prod.snd).flatMap _
        rw [List.map_flatMap, List.flatMap_map]
        refine List.flatMap_congr fun x _ => ?_
        rw [List.map_map]
        exact List.map_id _
  | first p f =>
      refine Prod.ext ?_ rfl
      change (Vec.modifyFirst _ _ l).map Prod.snd = Vec.modifyFirst p f (l.map Prod.snd)
      induction l with
      | nil => rfl
      | cons x l ih =>
          rw [Vec.modifyFirst, List.map_cons, Vec.modifyFirst]
          split_ifs
          · rfl
          · rw [List.map_cons, ih]
  | insert p x =>
      refine Prod.ext ?_ rfl
      change (if l.any _ then l else l ++ [(n, x)]).map Prod.snd =
        if (l.map Prod.snd).any p then _ else _
      rw [List.any_map]
      change _ = if l.any (fun y => p y.2) then _ else _
      split_ifs
      · rfl
      · rw [List.map_append]
        rfl

/-- … and none in a run. -/
theorem map_runNumbered (n : Nat) (l : List (Nat × α)) (es : List (Edit α ω)) :
    ((runNumbered n l es).1.map Prod.snd, (runNumbered n l es).2.map Prod.snd) =
      run (l.map Prod.snd) es := by
  induction es generalizing n l with
  | nil => rfl
  | cons e es ih =>
      have hedit := map_apply_numbered n l e
      have hrest := ih (n + 1) ((e.numbered n).apply l).1
      have hl : ((e.numbered n).apply l).1.map Prod.snd = (e.apply (l.map Prod.snd)).1 :=
        congrArg Prod.fst hedit
      have hout : ((e.numbered n).apply l).2.map Prod.snd = (e.apply (l.map Prod.snd)).2 :=
        congrArg Prod.snd hedit
      rw [hl] at hrest
      rw [run, ← hrest, ← hout, ← List.map_append]
      rfl

/-! ## Budgets -/

section Budget
variable (budget : α → Nat) (fires : ω → Bool)

/-- What is put out for an element is paid for out of its budget. -/
def Spends : Edit α ω → Prop
  | visit f => ∀ x, (f x).2.countP fires + (f x).1.elim 0 budget ≤ budget x
  | first p f => ∀ x, p x = true → budget (f x) ≤ budget x
  | insert _ _ => True

/-- What the element with the number `i` has left. -/
def credit (i : Nat) : List (Nat × α) → Nat
  | [] => 0
  | x :: l => (if x.1 = i then budget x.2 else 0) + credit i l

/-- How often something is put out for it. -/
def fired (i : Nat) (out : List (Nat × ω)) : Nat := out.countP fun o => o.1 = i && fires o.2

variable {budget fires}

theorem credit_append (i : Nat) (l l' : List (Nat × α)) :
    credit budget i (l ++ l') = credit budget i l + credit budget i l' := by
  induction l with
  | nil => exact (Nat.zero_add _).symm
  | cons x l ih => rw [List.cons_append, credit, credit, ih, Nat.add_assoc]

theorem apply_visit (n : Nat) (f : α → Option α × List ω) (l : List (Nat × α)) :
    (((visit f).numbered n).apply l).1 =
      l.filterMap fun x => (f x.2).1.map (Prod.mk x.1) := rfl

theorem fired_append (i : Nat) (out more : List (Nat × ω)) :
    fired fires i (out ++ more) = fired fires i out + fired fires i more := List.countP_append

/-- What is put out for one element. -/
theorem fired_map_mk (i n : Nat) (out : List ω) :
    fired fires i (out.map (Prod.mk n)) = if n = i then out.countP fires else 0 := by
  rw [fired, List.countP_map]
  by_cases hn : n = i
  · rw [if_pos hn]
    exact List.countP_congr fun o _ => by simp [hn]
  · rw [if_neg hn]
    exact List.countP_eq_zero.mpr fun o _ => by simp [hn]

/-- One edit takes what it puts out for an element from what the element has left,
and an element that it adds has no more than any. -/
theorem fired_add_credit_le {b : Nat} (hb : ∀ x, budget x ≤ b) {e : Edit α ω}
    (he : e.Spends budget fires) (n i : Nat) (l : List (Nat × α)) :
    fired fires i ((e.numbered n).apply l).2 + credit budget i ((e.numbered n).apply l).1 ≤
      credit budget i l + if i = n then b else 0 := by
  cases e with
  | visit f =>
      refine Nat.le_add_right_of_le ?_
      induction l with
      | nil => exact Nat.le_refl 0
      | cons x l ih =>
          have hx := he x.2
          have hcredit : credit budget i (((visit f).numbered n).apply (x :: l)).1 =
              (if x.1 = i then (f x.2).1.elim 0 budget else 0) +
                credit budget i (((visit f).numbered n).apply l).1 := by
            rw [apply_visit, apply_visit, List.filterMap_cons]
            cases (f x.2).1 with
            | none => exact ((congrArg (· + _) (ite_self 0)).trans (Nat.zero_add _)).symm
            | some y => rfl
          have hfired : fired fires i (((visit f).numbered n).apply (x :: l)).2 =
              (if x.1 = i then (f x.2).2.countP fires else 0) +
                fired fires i (((visit f).numbered n).apply l).2 := by
            rw [← fired_map_mk, ← fired_append]
            rfl
          rw [hcredit, hfired, credit]
          split_ifs <;> omega
  | first p f =>
      refine Nat.le_add_right_of_le (Nat.le_trans (Nat.le_of_eq (Nat.zero_add _)) ?_)
      change credit budget i (Vec.modifyFirst _ _ l) ≤ _
      induction l with
      | nil => exact Nat.le_refl 0
      | cons x l ih =>
          rw [Vec.modifyFirst]
          split_ifs with hp
          · have hx : budget (f x.2) ≤ budget x.2 := he x.2 hp
            rw [credit, credit]
            dsimp only
            split_ifs <;> omega
          · rw [credit, credit]
            exact Nat.add_le_add_left ih _
  | insert p x =>
      refine Nat.le_trans (Nat.le_of_eq (Nat.zero_add _)) ?_
      change credit budget i (if _ then l else l ++ [(n, x)]) ≤ _
      have hx := hb x
      by_cases hany : l.any (fun y => p y.2) = true
      · rw [if_pos hany]
        exact Nat.le_add_right _ _
      · rw [if_neg hany, credit_append, credit]
        change credit budget i l + ((if n = i then budget x else 0) + 0) ≤ _
        split_ifs <;> omega

/-- Over a run. -/
theorem fired_runNumbered_le {b : Nat} (hb : ∀ x, budget x ≤ b) {es : List (Edit α ω)}
    (hes : ∀ e ∈ es, e.Spends budget fires) (n i : Nat) (l : List (Nat × α)) :
    fired fires i (runNumbered n l es).2 ≤ credit budget i l + if n ≤ i then b else 0 := by
  induction es generalizing n l with
  | nil => exact Nat.zero_le _
  | cons e es ih =>
      have hstep := fired_add_credit_le hb (hes e List.mem_cons_self) n i l
      have hrest := ih (fun e' he' => hes e' (List.mem_cons_of_mem e he')) (n + 1)
        ((e.numbered n).apply l).1
      have hsplit : fired fires i (runNumbered n l (e :: es)).2 =
          fired fires i ((e.numbered n).apply l).2 +
            fired fires i (runNumbered (n + 1) ((e.numbered n).apply l).1 es).2 :=
        fired_append i _ _
      rw [hsplit]
      split_ifs at hstep hrest ⊢ <;> omega

theorem credit_zipIdx_le {b : Nat} (hb : ∀ x, budget x ≤ b) (i k : Nat) (l : List α) :
    credit budget i ((l.zipIdx k).map Prod.swap) ≤ if k ≤ i ∧ i < k + l.length then b else 0 := by
  induction l generalizing k with
  | nil => exact Nat.zero_le _
  | cons x l ih =>
      have hrest := ih (k + 1)
      have hx := hb x
      rw [List.zipIdx_cons, List.map_cons, credit, List.length_cons]
      change (if k = i then budget x else 0) + _ ≤ _
      split_ifs at hrest ⊢ <;> omega

/-- **No element is paid for twice.**  Whatever the edits, no element, whether it was
there or has been added, has more put out for it than the largest budget. -/
theorem fired_le {b : Nat} (hb : ∀ x, budget x ≤ b) {es : List (Edit α ω)}
    (hes : ∀ e ∈ es, e.Spends budget fires) (i : Nat) (l : List α) :
    fired fires i (runNumbered l.length (number l) es).2 ≤ b := by
  have hrun := fired_runNumbered_le hb hes l.length i (number l)
  have hstart : credit budget i (number l) ≤ _ := credit_zipIdx_le hb i 0 l
  split_ifs at hrun hstart <;> omega

end Budget

/-! ## What is over -/

section Over
variable (Over : α → Prop) (fires : ω → Bool)

/-- An element that is over stays so, and nothing is put out for it. -/
def Rests : Edit α ω → Prop
  | visit f => ∀ x, Over x → (f x).2.countP fires = 0 ∧ ∀ y, (f x).1 = some y → Over y
  | first _ f => ∀ x, Over x → Over (f x)
  | insert _ _ => True

/-- The numbers are distinct, and `n` is not yet given. -/
structure Numbered (n : Nat) (l : List (Nat × α)) : Prop where
  nodup : (l.map Prod.fst).Nodup
  lt : ∀ x ∈ l, x.1 < n

/-- Whatever has the number `i` is over. -/
def OverAt (i : Nat) (l : List (Nat × α)) : Prop := ∀ x ∈ l, x.1 = i → Over x.2

variable {Over fires} {n i : Nat} {l : List (Nat × α)}

theorem Numbered.overAt (h : Numbered n l) {x : Nat × α} (hx : x ∈ l) (hover : Over x.2) :
    OverAt Over x.1 l := fun y hy hxy => by
  rw [List.inj_on_of_nodup_map h.nodup hy hx hxy]
  exact hover

theorem Numbered.apply (h : Numbered n l) (e : Edit α ω) :
    Numbered (n + 1) ((e.numbered n).apply l).1 := by
  have hlater : ∀ x ∈ l, x.1 < n + 1 := fun x hx => Nat.lt_succ_of_lt (h.lt x hx)
  cases e with
  | visit f =>
      have hkeeps : ∀ x y : Nat × α, (f x.2).1.map (Prod.mk x.1) = some y → y.1 = x.1 := by
        intro x y hy
        obtain ⟨z, -, rfl⟩ := Option.map_eq_some_iff.mp hy
        rfl
      refine ⟨h.nodup.sublist (Vec.map_filterMap_sublist hkeeps l), fun y hy => ?_⟩
      obtain ⟨x, hx, hxy⟩ := List.mem_filterMap.mp hy
      rw [hkeeps x y hxy]
      exact hlater x hx
  | first p f =>
      have hsame : (Vec.modifyFirst (fun x => p x.2) (fun x => (x.1, f x.2)) l).map Prod.fst =
          l.map Prod.fst := Vec.map_modifyFirst (f := fun x => (x.1, f x.2)) (fun _ => rfl) l
      refine ⟨hsame ▸ h.nodup, fun y hy => ?_⟩
      obtain ⟨x, hx, hxy⟩ := List.mem_map.mp (hsame ▸ List.mem_map.mpr ⟨y, hy, rfl⟩)
      rw [← hxy]
      exact hlater x hx
  | insert p x =>
      change Numbered (n + 1) (if _ then l else l ++ [(n, x)])
      split_ifs
      · exact ⟨h.nodup, hlater⟩
      · refine ⟨?_, fun y hy => ?_⟩
        · rw [List.map_append]
          refine h.nodup.append (List.nodup_singleton n) fun k hk hnew => ?_
          obtain ⟨y, hy, rfl⟩ := List.mem_map.mp hk
          exact Nat.ne_of_lt (h.lt y hy) (List.mem_singleton.mp hnew)
        · rcases List.mem_append.mp hy with hy | hy
          · exact hlater y hy
          · rw [List.mem_singleton.mp hy]
            exact Nat.lt_succ_self n

theorem Numbered.run {es : List (Edit α ω)} :
    ∀ {n : Nat} {l : List (Nat × α)}, Numbered n l →
      Numbered (n + es.length) (runNumbered n l es).1 := by
  induction es with
  | nil => exact fun h => h
  | cons e es ih =>
      intro n l h
      have hrest := ih (h.apply e)
      rw [Nat.add_assoc, Nat.add_comm 1] at hrest
      exact hrest

/-- One edit. -/
theorem overAt_apply {e : Edit α ω} (he : e.Rests Over fires) (hi : i < n)
    (h : OverAt Over i l) :
    fired fires i ((e.numbered n).apply l).2 = 0 ∧ OverAt Over i ((e.numbered n).apply l).1 := by
  cases e with
  | visit f =>
      constructor
      · change fired fires i (l.flatMap fun x => (f x.2).2.map (Prod.mk x.1)) = 0
        refine List.countP_eq_zero.mpr fun o ho hfires => ?_
        obtain ⟨x, hx, ho⟩ := List.mem_flatMap.mp ho
        obtain ⟨o', ho', rfl⟩ := List.mem_map.mp ho
        rw [Bool.and_eq_true, decide_eq_true_eq] at hfires
        exact List.countP_eq_zero.mp (he x.2 (h x hx hfires.1)).1 o' ho' hfires.2
      · intro y hy hyi
        obtain ⟨x, hx, hxy⟩ := List.mem_filterMap.mp hy
        obtain ⟨z, hz, rfl⟩ := Option.map_eq_some_iff.mp hxy
        exact (he x.2 (h x hx hyi)).2 z hz
  | first p f =>
      refine ⟨rfl, fun y hy hyi => ?_⟩
      rcases Vec.mem_modifyFirst hy with hy | ⟨x, hx, -, rfl⟩
      · exact h y hy hyi
      · exact he x.2 (h x hx hyi)
  | insert p x =>
      refine ⟨rfl, fun y hy hyi => ?_⟩
      change y ∈ (if _ then l else l ++ [(n, x)]) at hy
      split_ifs at hy
      · exact h y hy hyi
      · rcases List.mem_append.mp hy with hy | hy
        · exact h y hy hyi
        · rw [List.mem_singleton.mp hy] at hyi
          exact absurd hyi (Nat.ne_of_gt hi)

/-- **What is over rests.** -/
theorem fired_eq_zero_of_over {es : List (Edit α ω)} (hes : ∀ e ∈ es, e.Rests Over fires) :
    ∀ {n : Nat} {l : List (Nat × α)}, i < n → OverAt Over i l →
      fired fires i (runNumbered n l es).2 = 0 := by
  induction es with
  | nil => exact fun _ _ => rfl
  | cons e es ih =>
      intro n l hi h
      obtain ⟨hquiet, hover⟩ := overAt_apply (hes e List.mem_cons_self) hi h
      have hrest := ih (fun e' he' => hes e' (List.mem_cons_of_mem e he')) (Nat.lt_succ_of_lt hi)
        hover
      have hsplit : fired fires i (runNumbered n l (e :: es)).2 =
          fired fires i ((e.numbered n).apply l).2 +
            fired fires i (runNumbered (n + 1) ((e.numbered n).apply l).1 es).2 :=
        fired_append i _ _
      rw [hsplit, hquiet, hrest]

end Over

end Edit

end NatPiercer
