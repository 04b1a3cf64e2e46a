/-
# `Lib.HashMap` — a hash map, with its iteration order

`std::collections::HashMap` as Mathlib's `AList`: entries with distinct
keys, in a list whose order is the order an iteration visits them in.  A
real table fixes no such order, so nothing may be proved from a particular
one.

Mathlib has lookup, insertion and removal.  Added here is `mapValues`, the
loop `for (k, v) in map.iter_mut()`; `modify`, what is done through
`map.get_mut(&k)`; `orInsert`, the entry that `map.entry(k).or_insert(v)`
makes sure of; and `toFront`, from which every layout can be reached.  Where
what is done to a value may panic, so may `tryMapValues` and `tryModify`.
-/
import Mathlib.Data.List.AList

namespace NatPiercer

/-- `HashMap<K, V>`. -/
abbrev HashMap (κ β : Type) := AList fun _ : κ => β

namespace HashMap

variable {κ β : Type} [DecidableEq κ]

/-- `for (k, v) in map.iter_mut() { *v = f(k, v) }`. -/
def mapValues (f : κ → β → β) (t : HashMap κ β) : HashMap κ β where
  entries := t.entries.map (.map id f)
  nodupKeys := List.NodupKeys.map₂ f t.entries t.nodupKeys

/-- `if let Some(v) = map.get_mut(&k) { *v = f(v) }`. -/
def modify (k : κ) (f : β → β) (t : HashMap κ β) : HashMap κ β :=
  t.mapValues fun k' v => if k' = k then f v else v

/-- `mapValues` with a loop body that may panic. -/
def tryMapValues (f : κ → β → Option β) (t : HashMap κ β) : Option (HashMap κ β) :=
  if t.entries.all fun e => (f e.1 e.2).isSome then some (t.mapValues fun k v => (f k v).getD v)
  else none

/-- `modify` with a block that may panic. -/
def tryModify (k : κ) (f : β → Option β) (t : HashMap κ β) : Option (HashMap κ β) :=
  t.tryMapValues fun k' v => if k' = k then f v else some v

/-- `map.entry(k).or_insert(v)`: nothing changes when `k` is there. -/
def orInsert (k : κ) (v : β) (t : HashMap κ β) : HashMap κ β :=
  match t.lookup k with
  | some _ => t
  | none => t.insert k v

/-- The same table, laid out with `k` first. -/
def toFront (k : κ) (t : HashMap κ β) : HashMap κ β :=
  match t.lookup k with
  | some v => t.insert k v
  | none => t

@[simp] theorem lookup_mapValues (f : κ → β → β) (t : HashMap κ β) (k : κ) :
    (t.mapValues f).lookup k = (t.lookup k).map (f k) :=
  List.dlookup_map₂ (f := f) k

@[simp] theorem lookup_modify_self (f : β → β) (t : HashMap κ β) (k : κ) :
    (t.modify k f).lookup k = (t.lookup k).map f := by
  rw [modify, lookup_mapValues]
  simp

theorem lookup_modify_ne (f : β → β) (t : HashMap κ β) {k k' : κ} (h : k' ≠ k) :
    (t.modify k f).lookup k' = t.lookup k' := by
  rw [modify, lookup_mapValues]
  simp [h]

theorem lookup_modify (f : β → β) (t : HashMap κ β) (k k' : κ) :
    (t.modify k f).lookup k' = if k' = k then (t.lookup k).map f else t.lookup k' := by
  split_ifs with h
  · rw [h, lookup_modify_self]
  · exact lookup_modify_ne f t h

theorem lookup_insert (t : HashMap κ β) (k k' : κ) (v : β) :
    (t.insert k v).lookup k' = if k' = k then some v else t.lookup k' := by
  split_ifs with h
  · rw [h, AList.lookup_insert]
  · exact AList.lookup_insert_ne h

theorem lookup_erase (t : HashMap κ β) (k k' : κ) :
    (t.erase k).lookup k' = if k' = k then none else t.lookup k' := by
  split_ifs with h
  · rw [h, AList.lookup_erase]
  · exact AList.lookup_erase_ne h

theorem lookup_orInsert (t : HashMap κ β) (k k' : κ) (v : β) :
    (t.orInsert k v).lookup k' = if k' = k then some ((t.lookup k).getD v) else t.lookup k' := by
  unfold orInsert
  cases h : t.lookup k with
  | none => rw [Option.getD_none, ← lookup_insert]
  | some w =>
      split_ifs with hk
      · rw [hk, h, Option.getD_some]
      · rfl

@[simp] theorem lookup_toFront (t : HashMap κ β) (k k' : κ) :
    (t.toFront k).lookup k' = t.lookup k' := by
  unfold toFront
  cases h : t.lookup k with
  | none => rfl
  | some v =>
      rw [lookup_insert]
      split_ifs with hk
      · rw [hk, h]
      · rfl

/-- The entries are what lookups find. -/
theorem mem_entries_iff {t : HashMap κ β} {k : κ} {v : β} :
    (⟨k, v⟩ : Sigma fun _ : κ => β) ∈ t.entries ↔ t.lookup k = some v := by
  rw [← Option.mem_def, AList.mem_lookup_iff]

theorem entries_ne_nil_of_lookup {t : HashMap κ β} {k : κ} {v : β} (h : t.lookup k = some v) :
    t.entries ≠ [] :=
  List.ne_nil_of_mem (mem_entries_iff.mpr h)

/-- A change that changes nothing that is there. -/
theorem mapValues_eq_self {f : κ → β → β} {t : HashMap κ β}
    (h : ∀ k v, t.lookup k = some v → f k v = v) : t.mapValues f = t := by
  have hid : ∀ x ∈ t.entries, Sigma.map id f x = x := by
    rintro ⟨k, v⟩ hx
    rw [Sigma.map, h k v (mem_entries_iff.mp hx)]
    rfl
  exact AList.ext ((List.map_congr_left hid).trans (List.map_id _))

theorem modify_eq_self {f : β → β} {t : HashMap κ β} {k : κ}
    (h : ∀ v, t.lookup k = some v → f v = v) : t.modify k f = t := by
  refine mapValues_eq_self fun k' v hv => ?_
  split_ifs with hk
  · exact h v (hk ▸ hv)
  · rfl

/-- Two changes that do the same to what is there. -/
theorem modify_congr {f g : β → β} {t : HashMap κ β} {k : κ}
    (h : ∀ v, t.lookup k = some v → f v = g v) : t.modify k f = t.modify k g := by
  refine AList.ext (List.map_congr_left ?_)
  rintro ⟨k', v⟩ hx
  have hv : (if k' = k then f v else v) = if k' = k then g v else v := by
    split_ifs with hk
    · exact h v (hk ▸ mem_entries_iff.mp hx)
    · rfl
  rw [Sigma.map, Sigma.map, hv]

omit [DecidableEq κ] in
theorem tryMapValues_eq_some {f : κ → β → Option β} {g : κ → β → β}
    (h : ∀ k v, f k v = some (g k v)) (t : HashMap κ β) :
    t.tryMapValues f = some (t.mapValues g) := by
  have hf : f = fun k v => some (g k v) := funext fun k => funext fun v => h k v
  have hall : (t.entries.all fun e => (f e.1 e.2).isSome) = true :=
    List.all_eq_true.mpr fun e _ => by rw [h]; rfl
  rw [tryMapValues, if_pos hall, hf]
  rfl

theorem tryModify_eq_some {f : β → Option β} {g : β → β} (h : ∀ v, f v = some (g v)) (k : κ)
    (t : HashMap κ β) : t.tryModify k f = some (t.modify k g) := by
  refine tryMapValues_eq_some (fun k' v => ?_) t
  rw [h, ← apply_ite some]

theorem orInsert_of_lookup {t : HashMap κ β} {k : κ} {v w : β} (h : t.lookup k = some w) :
    t.orInsert k v = t := by
  rw [orInsert, h]

theorem entries_toFront {t : HashMap κ β} {k : κ} {v : β} (h : t.lookup k = some v) :
    ∃ rest, (t.toFront k).entries = ⟨k, v⟩ :: rest := by
  unfold toFront
  rw [h]
  exact ⟨_, AList.entries_insert⟩

theorem entries_modify {t : HashMap κ β} {k : κ} {v : β} {rest : List (Sigma fun _ : κ => β)}
    (f : β → β) (h : t.entries = ⟨k, v⟩ :: rest) :
    ∃ rest', (t.modify k f).entries = ⟨k, f v⟩ :: rest' := by
  have hentries : (t.modify k f).entries =
      (⟨k, v⟩ :: rest).map (.map id fun k' v => if k' = k then f v else v) :=
    congrArg (List.map _) h
  rw [hentries, List.map_cons, Sigma.map, if_pos rfl]
  exact ⟨_, rfl⟩

end HashMap

end NatPiercer
