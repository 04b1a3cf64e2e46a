/-
# `Lib.Rely` — what threads rely on

What is true of the shared value when a thread executes an instruction is not
what was true at the one before: the others have been at it.  A `Contract`
says what each thread may do to the value, with which mutexes in hand.  So it
says what a thread has to reckon with between two of its own instructions
(`Contract.rely`): what the others may do who have none of its mutexes.

A mutex guards a condition on the value (`inv`), which may be broken only by
one who has it, and has to be true again when it is given back.  And who
sleeps on it without a time waits for something that is not there yet
(`waits`): whoever brings it about has to have the mutex, and owes the
sleepers a `notify_all` before it gives it back.

`Contract.wp` is what has to be true for a program to keep to the contract,
and `Contract.Triple` the same as a rule of pre- and postconditions.  If all
rounds keep to it then so does every run, in whatever order the instructions
come (`Coherent.act`).
-/
import NatPiercer.Lib.Threads

namespace NatPiercer

/-- What the threads have agreed on. -/
structure Contract (ι μ σ ω : Type) where
  /-- What a mutex guards. -/
  inv : μ → σ → Prop
  /-- What who sleeps on it waits for is not there. -/
  waits : μ → σ → Prop
  /-- What a thread may do to the value, with these mutexes in hand. -/
  may : ι → Set μ → σ → σ → Prop
  /-- What a thread may put out. -/
  puts : ι → σ → ω → Prop
  keeps : ∀ {i held s s' m}, may i held s s' → m ∉ held →
    (inv m s → inv m s') ∧ (waits m s → waits m s')

/-- The mutexes that a thread has, and those on which it still has to wake the
sleepers. -/
structure Hand (μ : Type) where
  held : Set μ
  owed : Set μ

namespace Contract

variable {ι μ σ ω α β : Type} (c : Contract ι μ σ ω) (i : ι)

/-- What the others may do meanwhile. -/
def rely (held : Set μ) : σ → σ → Prop :=
  Relation.ReflTransGen fun s s' => ∃ j held', j ≠ i ∧ (∀ m ∈ held, m ∉ held') ∧ c.may j held' s s'

/-- The others leave it true. -/
def Stable (held : Set μ) (P : σ → Prop) : Prop := ∀ s s', c.rely i held s s' → P s → P s'

/-- Started so, the program keeps to the contract, and ends so. -/
def wp (post : Hand μ → α → σ → Prop) : Hand μ → Prog μ σ ω α → σ → Prop
  | h, .done a, s => ∀ s', c.rely i h.held s s' → post h a s'
  | h, .lock m k, s => ∀ s', c.rely i h.held s s' → c.inv m s' →
      wp post { h with held := insert m h.held } k s'
  | h, .unlock m k, s => ∀ s', c.rely i h.held s s' →
      (m ∈ h.held ∧ m ∉ h.owed ∧ c.inv m s') ∧ wp post { h with held := h.held \ {m} } k s'
  | h, .sleep m timed k, s => ∀ s', c.rely i h.held s s' →
      (m ∈ h.held ∧ m ∉ h.owed ∧ c.inv m s' ∧ (timed = false → c.waits m s')) ∧
        wp post { h with held := h.held \ {m} } k s'
  | h, .notify m k, s => ∀ s', c.rely i h.held s s' →
      wp post { h with owed := h.owed \ {m} } k s'
  | h, .read k, s => ∀ s', c.rely i h.held s s' → wp post h (k s') s'
  | h, .write f k, s => ∀ s', c.rely i h.held s s' →
      c.may i h.held s' (f s') ∧
        wp post { h with owed := h.owed ∪ {m | c.waits m s' ∧ ¬ c.waits m (f s')} } k (f s')
  | h, .emit o k, s => ∀ s', c.rely i h.held s s' → c.puts i s' o ∧ wp post h k s'

variable {c i}

/-- What is kept by whatever another may do, is stable. -/
theorem stable_of {held : Set μ} {P : σ → Prop}
    (h : ∀ j held' s s', j ≠ i → (∀ m ∈ held, m ∉ held') → c.may j held' s s' → P s → P s') :
    c.Stable i held P := by
  intro s s' hrely hP
  induction hrely with
  | refl => exact hP
  | tail _ hlast ih =>
      obtain ⟨j, held', hj, hdisjoint, hmay⟩ := hlast
      exact h j held' _ _ hj hdisjoint hmay ih

theorem Stable.and {held : Set μ} {P Q : σ → Prop} (hP : c.Stable i held P)
    (hQ : c.Stable i held Q) : c.Stable i held fun s => P s ∧ Q s :=
  fun s s' hrely h => ⟨hP s s' hrely h.1, hQ s s' hrely h.2⟩

/-- With more in hand there is less to reckon with. -/
theorem Stable.mono {held held' : Set μ} {P : σ → Prop} (hP : c.Stable i held P)
    (hle : held ⊆ held') : c.Stable i held' P := by
  refine stable_of fun j held'' s s' hj hdisjoint hmay => hP s s' ?_
  exact .single ⟨j, held'', hj, fun m hm => hdisjoint m (hle hm), hmay⟩

/-- What the mutexes in hand guard, the others leave alone. -/
theorem stable_inv {held : Set μ} {m : μ} (hm : m ∈ held) : c.Stable i held (c.inv m) :=
  stable_of fun _ _ _ _ _ hdisjoint hmay =>
    (c.keeps hmay (hdisjoint _ hm)).1

theorem stable_waits {held : Set μ} {m : μ} (hm : m ∈ held) : c.Stable i held (c.waits m) :=
  stable_of fun _ _ _ _ _ hdisjoint hmay =>
    (c.keeps hmay (hdisjoint _ hm)).2

theorem wp_rely {post : Hand μ → α → σ → Prop} {h : Hand μ} {p : Prog μ σ ω α} {s s' : σ}
    (hrely : c.rely i h.held s s') (hp : c.wp i post h p s) : c.wp i post h p s' := by
  cases p <;> exact fun s'' hrely' => hp s'' (hrely.trans hrely')

theorem wp_mono {post post' : Hand μ → α → σ → Prop} {p : Prog μ σ ω α}
    (hpost : ∀ h a s, post h a s → post' h a s) :
    ∀ {h : Hand μ} {s : σ}, c.wp i post h p s → c.wp i post' h p s := by
  induction p with
  | done a => exact fun hp s' hrely => hpost _ a s' (hp s' hrely)
  | lock m k ih => exact fun hp s' hrely hinv => ih (hp s' hrely hinv)
  | unlock m k ih => exact fun hp s' hrely => ⟨(hp s' hrely).1, ih (hp s' hrely).2⟩
  | sleep m timed k ih => exact fun hp s' hrely => ⟨(hp s' hrely).1, ih (hp s' hrely).2⟩
  | notify m k ih => exact fun hp s' hrely => ih (hp s' hrely)
  | read k ih => exact fun hp s' hrely => ih s' (hp s' hrely)
  | write f k ih => exact fun hp s' hrely => ⟨(hp s' hrely).1, ih (hp s' hrely).2⟩
  | emit o k ih => exact fun hp s' hrely => ⟨(hp s' hrely).1, ih (hp s' hrely).2⟩

theorem wp_bind {post : Hand μ → β → σ → Prop} {p : Prog μ σ ω α} {f : α → Prog μ σ ω β} :
    ∀ {h : Hand μ} {s : σ}, c.wp i (fun h a s => c.wp i post h (f a) s) h p s →
      c.wp i post h (p >>= f) s := by
  induction p with
  | done a => exact fun hp => hp _ .refl
  | lock m k ih => exact fun hp s' hrely hinv => ih (hp s' hrely hinv)
  | unlock m k ih => exact fun hp s' hrely => ⟨(hp s' hrely).1, ih (hp s' hrely).2⟩
  | sleep m timed k ih => exact fun hp s' hrely => ⟨(hp s' hrely).1, ih (hp s' hrely).2⟩
  | notify m k ih => exact fun hp s' hrely => ih (hp s' hrely)
  | read k ih => exact fun hp s' hrely => ih s' (hp s' hrely)
  | write g k ih => exact fun hp s' hrely => ⟨(hp s' hrely).1, ih (hp s' hrely).2⟩
  | emit o k ih => exact fun hp s' hrely => ⟨(hp s' hrely).1, ih (hp s' hrely).2⟩

/-! ## Pre- and postconditions -/

variable (c i)

/-- With `held` in hand and nothing owed, from `P` on the program keeps to the
contract, and ends with the same in hand and with `Q`. -/
def Triple (held : Set μ) (P : σ → Prop) (p : Prog μ σ ω α) (Q : α → σ → Prop) : Prop :=
  ∀ s, P s → c.wp i (fun h a s => h = ⟨held, ∅⟩ ∧ Q a s) ⟨held, ∅⟩ p s

variable {c i} {held : Set μ} {P P' : σ → Prop} {Q : α → σ → Prop}

theorem Triple.bind {p : Prog μ σ ω α} {f : α → Prog μ σ ω β} {R : β → σ → Prop}
    (hp : c.Triple i held P p Q) (hf : ∀ a, c.Triple i held (Q a) (f a) R) :
    c.Triple i held P (p >>= f) R := by
  intro s hs
  refine wp_bind (wp_mono ?_ (hp s hs))
  rintro h a s' ⟨rfl, hQ⟩
  exact hf a s' hQ

theorem Triple.pre {p : Prog μ σ ω α} (hp : c.Triple i held P p Q) (h : ∀ s, P' s → P s) :
    c.Triple i held P' p Q :=
  fun s hs => hp s (h s hs)

theorem Triple.post {p : Prog μ σ ω α} {Q' : α → σ → Prop} (hp : c.Triple i held P p Q)
    (h : ∀ a s, Q a s → Q' a s) : c.Triple i held P p Q' :=
  fun s hs => wp_mono (fun _ a s' hpost => ⟨hpost.1, h a s' hpost.2⟩) (hp s hs)

theorem triple_pure (hP : c.Stable i held P) (a : α) (hQ : ∀ s, P s → Q a s) :
    c.Triple i held P (pure a : Prog μ σ ω α) Q :=
  fun s hs s' hrely => ⟨rfl, hQ s' (hP s s' hrely hs)⟩

theorem triple_gets (hP : c.Stable i held P) {g : σ → α} (hQ : ∀ a, c.Stable i held (Q a))
    (h : ∀ s, P s → Q (g s) s) : c.Triple i held P (Prog.gets g : Prog μ σ ω α) Q :=
  fun s hs s' hrely s'' hrely' => ⟨rfl, hQ _ s' s'' hrely' (h s' (hP s s' hrely hs))⟩

theorem triple_output (hP : c.Stable i held P) {o : ω} (h : ∀ s, P s → c.puts i s o) :
    c.Triple i held P (Prog.output o : Prog μ σ ω Unit) fun _ => P :=
  fun s hs s' hrely =>
    ⟨h s' (hP s s' hrely hs), fun s'' hrely' => ⟨rfl, hP s s'' (hrely.trans hrely') hs⟩⟩

theorem triple_exists {κ : Type} {P : κ → σ → Prop} {p : Prog μ σ ω α}
    (h : ∀ x, c.Triple i held (P x) p Q) : c.Triple i held (fun s => ∃ x, P x s) p Q :=
  fun s ⟨x, hx⟩ => h x s hx

section Change
variable {R : σ → Prop} {f : σ → σ}

/-- A change that nobody is to be woken for. -/
theorem triple_modify (hP : c.Stable i held P) (hR : c.Stable i held R)
    (hmay : ∀ s, P s → c.may i held s (f s)) (h : ∀ s, P s → R (f s))
    (hwaits : ∀ s m, P s → c.waits m s → c.waits m (f s)) :
    c.Triple i held P (Prog.modify f : Prog μ σ ω Unit) fun _ => R := by
  intro s hs s₁ hrely₁
  have hs₁ := hP s s₁ hrely₁ hs
  have hnone : (∅ : Set μ) ∪ {m | c.waits m s₁ ∧ ¬ c.waits m (f s₁)} = ∅ := by
    rw [Set.empty_union]
    exact Set.eq_empty_of_forall_notMem fun m hm => hm.2 (hwaits s₁ m hs₁ hm.1)
  dsimp only
  rw [hnone]
  exact ⟨hmay s₁ hs₁, fun s₂ hrely₂ => ⟨rfl, hR (f s₁) s₂ hrely₂ (h s₁ hs₁)⟩⟩

/-- A change that those who sleep on `m` are woken for. -/
theorem triple_signal {m : μ} (hP : c.Stable i held P) (hR : c.Stable i held R)
    (hmay : ∀ s, P s → c.may i held s (f s)) (h : ∀ s, P s → R (f s))
    (hwaits : ∀ s m', m' ≠ m → P s → c.waits m' s → c.waits m' (f s)) :
    c.Triple i held P (do Prog.modify f; Prog.notifyAll m : Prog μ σ ω Unit) fun _ => R := by
  intro s hs s₁ hrely₁
  have hs₁ := hP s s₁ hrely₁ hs
  refine ⟨hmay s₁ hs₁, fun s₂ hrely₂ s₃ hrely₃ => ⟨?_, ?_⟩⟩
  · have hnone : ((∅ : Set μ) ∪ {m' | c.waits m' s₁ ∧ ¬ c.waits m' (f s₁)}) \ {m} = ∅ := by
      rw [Set.empty_union]
      refine Set.eq_empty_of_forall_notMem fun m' hm => ?_
      exact hm.1.2 (hwaits s₁ m' hm.2 hs₁ hm.1.1)
    exact congrArg (Hand.mk held) hnone
  · exact hR (f s₁) s₃ (hrely₂.trans hrely₃) (h s₁ hs₁)

end Change

section GiveBack
variable {m : μ} {s : σ} {k : Prog μ σ ω β} {post : Hand μ → β → σ → Prop}

/-- What is true of who has a mutex, and stable without it, is true when it has been
given back. -/
theorem wp_sdiff (hm : m ∉ held) (hP : c.Stable i held P) (hs : P s)
    (hk : ∀ s, P s → c.wp i post ⟨held, ∅⟩ k s) {s' : σ} (hrely : c.rely i (insert m held) s s') :
    c.wp i post ⟨insert m held \ {m}, ∅⟩ k s' := by
  have hback : insert m held \ {m} = held := Set.insert_sdiff_self_of_notMem hm
  rw [hback]
  exact hk s' (hP.mono (Set.subset_insert m held) s s' hrely hs)

theorem wp_unlock (hm : m ∉ held) (hP : c.Stable i held P) (hs : P s) (hinv : c.inv m s)
    (hk : ∀ s, P s → c.wp i post ⟨held, ∅⟩ k s) :
    c.wp i post ⟨insert m held, ∅⟩ (.unlock m k) s := by
  intro s' hrely
  have hmem := Set.mem_insert m held
  exact ⟨⟨hmem, Set.notMem_empty m, stable_inv hmem s s' hrely hinv⟩,
    wp_sdiff hm hP hs hk hrely⟩

theorem wp_sleep {timed : Bool} (hm : m ∉ held) (hP : c.Stable i held P) (hs : P s)
    (hinv : c.inv m s) (hwaits : timed = false → c.waits m s)
    (hk : ∀ s, P s → c.wp i post ⟨held, ∅⟩ k s) :
    c.wp i post ⟨insert m held, ∅⟩ (.sleep m timed k) s := by
  intro s' hrely
  have hmem := Set.mem_insert m held
  exact ⟨⟨hmem, Set.notMem_empty m, stable_inv hmem s s' hrely hinv,
    fun htimed => stable_waits hmem s s' hrely (hwaits htimed)⟩, wp_sdiff hm hP hs hk hrely⟩

end GiveBack

/-- A critical section has what the mutex guards to start from, and has to give it
back. -/
theorem triple_locked {m : μ} {p : Prog μ σ ω α} (hm : m ∉ held) (hP : c.Stable i held P)
    (hQ : ∀ a, c.Stable i held (Q a))
    (hp : c.Triple i (insert m held) (fun s => P s ∧ c.inv m s) p fun a s => Q a s ∧ c.inv m s) :
    c.Triple i held P (Prog.locked m p) Q := by
  intro s hs s' hrely hinv
  refine wp_bind (wp_mono ?_ (hp s' ⟨hP s s' hrely hs, hinv⟩))
  rintro h a s₁ ⟨rfl, hQ₁, hinv₁⟩
  refine wp_unlock hm (hQ a) hQ₁ hinv₁ fun s₂ hQ₂ s₃ hrely₃ => ?_
  exact ⟨rfl, hQ a s₂ s₃ hrely₃ hQ₂⟩

theorem triple_each {xs : List β} {f : β → Prog μ σ ω Unit} (hP : c.Stable i held P)
    (hf : ∀ x ∈ xs, c.Triple i held P (f x) fun _ => P) :
    c.Triple i held P (Prog.each xs f) fun _ => P := by
  induction xs with
  | nil => exact triple_pure hP () fun _ hs => hs
  | cons x xs ih =>
      have hrest := ih fun y hy => hf y (List.mem_cons_of_mem x hy)
      exact (hf x List.mem_cons_self).bind fun _ => hrest

/-- One time round a loop of waiting: it sleeps, or is over. -/
theorem triple_await {m : μ} {cond : σ → Bool} {R : σ → Prop} (hP : c.Stable i ∅ P)
    (hR : c.Stable i ∅ R) (hcond : ∀ s, cond s = true → c.waits m s)
    (h : ∀ s, P s → c.inv m s → cond s = false → R s) :
    c.Triple i ∅ P (Prog.await m cond : Prog μ σ ω Bool) fun b s => if b then R s else P s := by
  intro s hs s₁ hrely₁ hinv₁ s₂ hrely₂
  have hnone := Set.notMem_empty m
  have hP₂ : P s₂ := hP.mono (Set.empty_subset _) s₁ s₂ hrely₂ (hP s s₁ hrely₁ hs)
  have hinv₂ := stable_inv (Set.mem_insert m ∅) s₁ s₂ hrely₂ hinv₁
  dsimp only
  cases hb : cond s₂ with
  | true =>
      rw [if_pos rfl]
      refine wp_sleep hnone hP hP₂ hinv₂ (fun _ => hcond s₂ hb) fun s₃ hP₃ s₄ hrely₄ => ?_
      exact ⟨rfl, hP s₃ s₄ hrely₄ hP₃⟩
  | false =>
      rw [if_neg Bool.false_ne_true]
      refine wp_unlock hnone hR (h s₂ hP₂ hinv₂ hb) hinv₂ fun s₃ hR₃ s₄ hrely₄ => ?_
      exact ⟨rfl, hR s₃ s₄ hrely₄ hR₃⟩

/-- Sleeping for a time, with nothing in hand. -/
theorem triple_nap {m : μ} (hP : c.Stable i ∅ P) :
    c.Triple i ∅ P (Prog.nap m : Prog μ σ ω Unit) fun _ => P := by
  intro s hs s₁ hrely₁ hinv₁
  have hnone := Set.notMem_empty m
  refine wp_sleep hnone hP (hP s s₁ hrely₁ hs) hinv₁ (fun h => absurd h.symm Bool.false_ne_true)
    fun s₂ hP₂ s₃ hrely₃ hinv₃ => ?_
  refine wp_unlock hnone hP (hP s₂ s₃ hrely₃ hP₂) hinv₃ fun s₄ hP₄ s₅ hrely₅ => ?_
  exact ⟨rfl, hP s₄ s₅ hrely₅ hP₄⟩

end Contract

/-! ## Runs -/

section Runs
variable {ι μ σ ω : Type} {α ℓ : ι → Type} {c : Contract ι μ σ ω} {post : (i : ι) → α i → σ → Prop}
  {owed : ι → Set μ} {t : Threads ι μ σ ω α}

/-- Each thread keeps to the contract with what it still has to do; what a mutex
guards is true if nobody has it; and who sleeps, sleeps for a reason, or will
be woken. -/
structure Coherent (c : Contract ι μ σ ω) (post : (i : ι) → α i → σ → Prop)
    (owed : ι → Set μ) (t : Threads ι μ σ ω α) : Prop where
  wp : ∀ i, c.wp i (fun h a s => h = ⟨∅, ∅⟩ ∧ post i a s) ⟨t.held i, owed i⟩ (t.prog i) t.value
  owed_le : ∀ i, owed i ⊆ t.held i
  inv : ∀ m, t.owner m = none → c.inv m t.value
  asleep : ∀ i m, t.asleep i = some (m, false) → c.waits m t.value ∨ ∃ j, m ∈ owed j

theorem coherent_start {value : σ} {init : (i : ι) → α i}
    (hpost : ∀ i, c.Stable i ∅ (post i (init i))) (hstart : ∀ i, post i (init i) value)
    (hinv : ∀ m, c.inv m value) :
    Coherent c post (fun _ => ∅) (Threads.start value init : Threads ι μ σ ω α) where
  wp i := by
    have hnone : (Threads.start value init : Threads ι μ σ ω α).held i = ∅ :=
      Set.eq_empty_of_forall_notMem fun _ h => nomatch h
    rw [hnone]
    exact fun s hrely => ⟨rfl, hpost i value s hrely (hstart i)⟩
  owed_le _ := Set.empty_subset _
  inv m _ := hinv m
  asleep _ _ h := nomatch h

/-- What a thread has in hand nobody else has. -/
theorem notMem_held {i j : ι} (hij : i ≠ j) : ∀ m ∈ t.held i, m ∉ t.held j :=
  fun _ hi hj => hij (Option.some.inj (hi.symm.trans hj))

/-- The next thing that is put out may be. -/
theorem Coherent.puts (h : Coherent c post owed t) {i : ι} {o : ω} (hemits : t.Emits i o) :
    c.puts i t.value o := by
  obtain ⟨k, hk⟩ := Prog.first_eq_some hemits.2
  have hwp := h.wp i
  rw [hk] at hwp
  exact (hwp t.value .refl).1

/-- Nobody sleeps for what is there already, unless who brought it about is still at
it. -/
theorem Coherent.waits (h : Coherent c post owed t) {i : ι} {m : μ}
    (hasleep : t.asleep i = some (m, false)) (hfree : t.owner m = none) : c.waits m t.value := by
  refine (h.asleep i m hasleep).resolve_right ?_
  rintro ⟨j, hj⟩
  exact absurd (hfree.symm.trans (h.owed_le j hj)) (Option.some_ne_none j).symm

theorem Coherent.post_of_done (h : Coherent c post owed t) {i : ι} {a : α i}
    (hdone : t.prog i = .done a) : t.held i = ∅ ∧ post i a t.value := by
  have hwp := h.wp i
  rw [hdone] at hwp
  obtain ⟨hhand, hpost⟩ := hwp t.value .refl
  exact ⟨congrArg Hand.held hhand, hpost⟩

variable [DecidableEq ι] [DecidableEq μ]

omit [DecidableEq μ] in
/-- What one thread does is for the others what they reckon with. -/
theorem Coherent.of_others (h : Coherent c post owed t) {t' : Threads ι μ σ ω α} (i : ι) {O : Set μ}
    (hvalue : t'.value = t.value ∨ c.may i (t.held i) t.value t'.value)
    (hothers : ∀ j, j ≠ i → t'.prog j = t.prog j ∧ t'.held j = t.held j)
    (hi : c.wp i (fun h a s => h = ⟨∅, ∅⟩ ∧ post i a s) ⟨t'.held i, O⟩ (t'.prog i) t'.value)
    (hO : O ⊆ t'.held i) (hinv : ∀ m, t'.owner m = none → c.inv m t'.value)
    (hasleep : ∀ j m, t'.asleep j = some (m, false) →
      c.waits m t'.value ∨ m ∈ O ∨ ∃ k, k ≠ i ∧ m ∈ owed k) :
    Coherent c post (Function.update owed i O) t' where
  wp j := by
    by_cases hj : j = i
    · subst hj
      rw [Function.update_self]
      exact hi
    · obtain ⟨hprog, hheld⟩ := hothers j hj
      rw [Function.update_of_ne hj, hprog, hheld]
      refine Contract.wp_rely ?_ (h.wp j)
      rcases hvalue with hsame | hmay
      · rw [hsame]
        exact .refl
      · exact .single ⟨i, t.held i, Ne.symm hj, notMem_held hj, hmay⟩
  owed_le j := by
    by_cases hj : j = i
    · subst hj
      rw [Function.update_self]
      exact hO
    · rw [Function.update_of_ne hj, (hothers j hj).2]
      exact h.owed_le j
  inv := hinv
  asleep j m hsleeps := by
    rcases hasleep j m hsleeps with hwaits | hm | ⟨k, hk, hm⟩
    · exact Or.inl hwaits
    · exact Or.inr ⟨i, by rwa [Function.update_self]⟩
    · exact Or.inr ⟨k, by rwa [Function.update_of_ne hk]⟩

omit [DecidableEq ι] [DecidableEq μ] in
theorem Coherent.asleep_or (h : Coherent c post owed t) (i : ι) {j : ι} {m : μ}
    (hsleeps : t.asleep j = some (m, false)) :
    c.waits m t.value ∨ m ∈ owed i ∨ ∃ k, k ≠ i ∧ m ∈ owed k := by
  rcases h.asleep j m hsleeps with hwaits | ⟨k, hk⟩
  · exact Or.inl hwaits
  · by_cases hki : k = i
    · exact Or.inr (Or.inl (hki ▸ hk))
    · exact Or.inr (Or.inr ⟨k, hki, hk⟩)

omit [DecidableEq ι] in
/-- When a mutex is given back, what it guards is true again. -/
theorem Coherent.inv_giveBack (h : Coherent c post owed t) {m m' : μ} (hinv : c.inv m t.value)
    (hfree : (t.giveBack m).owner m' = none) : c.inv m' t.value := by
  by_cases hm : m' = m
  · rw [hm]
    exact hinv
  · refine h.inv m' ?_
    change Function.update t.owner m none m' = none at hfree
    rwa [Function.update_of_ne hm] at hfree

omit [DecidableEq μ] in
/-- Nothing has changed but what `i` still has to do. -/
theorem Coherent.goOn (h : Coherent c post owed t) {i : ι} {k : Prog μ σ ω (α i)}
    (hk : c.wp i (fun h a s => h = ⟨∅, ∅⟩ ∧ post i a s) ⟨t.held i, owed i⟩ k t.value) :
    ∃ owed', Coherent c post owed' (t.goOn i k) := by
  refine ⟨_, h.of_others i (O := owed i) (Or.inl rfl) (fun j hj => ⟨?_, rfl⟩) ?_ (h.owed_le i)
    h.inv fun j m hsleeps => h.asleep_or i hsleeps⟩
  · exact Threads.goOn_prog_of_ne _ hj k
  · rw [Threads.goOn_prog]
    exact hk

/-- A mutex is given back by who may do so, whoever sleeps then. -/
theorem Coherent.goOn_giveBack (h : Coherent c post owed t) {i : ι} {m : μ}
    {k : Prog μ σ ω (α i)} {asleep : ι → Option (μ × Bool)}
    (hmay : m ∈ t.held i ∧ m ∉ owed i ∧ c.inv m t.value)
    (hk : c.wp i (fun h a s => h = ⟨∅, ∅⟩ ∧ post i a s) ⟨t.held i \ {m}, owed i⟩ k t.value)
    (hasleep : ∀ j m', asleep j = some (m', false) →
      c.waits m' t.value ∨ m' ∈ owed i ∨ ∃ k, k ≠ i ∧ m' ∈ owed k) :
    ∃ owed', Coherent c post owed' (Threads.goOn { t.giveBack m with asleep := asleep } i k) := by
  obtain ⟨hm, howed, hinv⟩ := hmay
  have hheld : ∀ j, (t.giveBack m).held j = if j = i then t.held j \ {m} else t.held j :=
    Threads.giveBack_held hm
  refine ⟨_, h.of_others i (O := owed i) (Or.inl rfl) (fun j hj => ⟨?_, ?_⟩) ?_ ?_
    (fun m' hm' => h.inv_giveBack hinv hm') hasleep⟩
  · exact Threads.goOn_prog_of_ne _ hj k
  · exact (hheld j).trans (if_neg hj)
  · rw [Threads.goOn_prog]
    change c.wp i _ ⟨(t.giveBack m).held i, owed i⟩ k t.value
    rw [hheld, if_pos rfl]
    exact hk
  · change owed i ⊆ (t.giveBack m).held i
    rw [hheld, if_pos rfl]
    exact Set.subset_sdiff_singleton (h.owed_le i) howed

theorem Coherent.execute (h : Coherent c post owed t) (i : ι) :
    ∃ owed', Coherent c post owed' (t.execute i (t.prog i)) := by
  have hi := h.wp i
  cases hprog : t.prog i with
  | done a => exact ⟨owed, h⟩
  | lock m k =>
      rw [hprog] at hi
      unfold Threads.execute
      dsimp only
      split_ifs with hfree
      · refine ⟨_, h.of_others i (O := owed i) (Or.inl rfl) (fun j hj => ⟨?_, ?_⟩) ?_ ?_ ?_
          fun j m' hsleeps => h.asleep_or i hsleeps⟩
        · exact Threads.goOn_prog_of_ne _ hj k
        · rw [Threads.goOn_held, Threads.take_held hfree, if_neg hj]
        · rw [Threads.goOn_prog, Threads.goOn_held, Threads.take_held hfree, if_pos rfl]
          exact hi t.value .refl (h.inv m hfree)
        · rw [Threads.goOn_held, Threads.take_held hfree, if_pos rfl]
          exact (h.owed_le i).trans (Set.subset_insert m _)
        · intro m' hm'
          refine h.inv m' ?_
          change Function.update t.owner m (some i) m' = none at hm'
          by_cases heq : m' = m
          · rw [heq]
            exact hfree
          · rwa [Function.update_of_ne heq] at hm'
      · exact ⟨owed, h⟩
  | unlock m k =>
      rw [hprog] at hi
      obtain ⟨hmay, hk⟩ := hi t.value .refl
      exact h.goOn_giveBack hmay hk fun j m' hsleeps => h.asleep_or i hsleeps
  | sleep m timed k =>
      rw [hprog] at hi
      obtain ⟨⟨hm, howed, hinv, hwaits⟩, hk⟩ := hi t.value .refl
      refine h.goOn_giveBack ⟨hm, howed, hinv⟩ hk fun j m' hsleeps => ?_
      by_cases hj : j = i
      · subst hj
        rw [Function.update_self] at hsleeps
        obtain ⟨rfl, rfl⟩ := Prod.mk.inj (Option.some.inj hsleeps)
        exact Or.inl (hwaits rfl)
      · rw [Function.update_of_ne hj] at hsleeps
        exact h.asleep_or i hsleeps
  | notify m k =>
      rw [hprog] at hi
      refine ⟨_, h.of_others i (O := owed i \ {m}) (Or.inl rfl) (fun j hj => ⟨?_, rfl⟩) ?_ ?_ h.inv
        fun j m' hsleeps => ?_⟩
      · exact Threads.goOn_prog_of_ne _ hj k
      · rw [Threads.execute, Threads.goOn_prog]
        exact hi t.value .refl
      · exact Set.sdiff_subset.trans (h.owed_le i)
      · change (t.asleep j).filter _ = _ at hsleeps
        obtain ⟨hbefore, hne⟩ := Option.filter_eq_some_iff.mp hsleeps
        rcases h.asleep_or i hbefore with hwaits | hm | hm
        · exact Or.inl hwaits
        · exact Or.inr (Or.inl ⟨hm, of_decide_eq_true hne⟩)
        · exact Or.inr (Or.inr hm)
  | read k =>
      rw [hprog] at hi
      exact h.goOn (hi t.value .refl)
  | write f k =>
      rw [hprog] at hi
      obtain ⟨hmay, hk⟩ := hi t.value .refl
      have hkeeps := fun m hm => c.keeps (m := m) hmay hm
      refine ⟨_, h.of_others i (O := owed i ∪ {m | c.waits m t.value ∧ ¬ c.waits m (f t.value)})
        (Or.inr hmay) (fun j hj => ⟨?_, rfl⟩) ?_ ?_ (fun m hm => ?_) fun j m hsleeps => ?_⟩
      · exact Threads.goOn_prog_of_ne _ hj k
      · rw [Threads.execute, Threads.goOn_prog]
        exact hk
      · refine Set.union_subset (h.owed_le i) fun m hm => ?_
        by_contra hnot
        exact hm.2 ((hkeeps m hnot).2 hm.1)
      · have hnot : m ∉ t.held i := fun hi => absurd (hm.symm.trans hi) (Option.some_ne_none i).symm
        exact (hkeeps m hnot).1 (h.inv m hm)
      · rcases h.asleep_or i hsleeps with hwaits | hm | hm
        · by_cases hstill : c.waits m (f t.value)
          · exact Or.inl hstill
          · exact Or.inr (Or.inl (Or.inr ⟨hwaits, hstill⟩))
        · exact Or.inr (Or.inl (Or.inl hm))
        · exact Or.inr (Or.inr hm)
  | emit o k =>
      rw [hprog] at hi
      exact h.goOn (hi t.value .refl).2

variable {round : (i : ι) → α i → ℓ i → Prog μ σ ω (α i)}

/-- **If the rounds keep to the contract, then whatever happens next does.** -/
theorem Coherent.act (h : Coherent c post owed t)
    (hround : ∀ i a l, c.Triple i ∅ (post i a) (round i a l) (post i)) (a : Act ι ℓ) :
    ∃ owed', Coherent c post owed' (t.act round a) := by
  cases a with
  | begin i l =>
      unfold Threads.act
      dsimp only
      split
      · rename_i a hawake hdone
        obtain ⟨hheld, hpost⟩ := h.post_of_done hdone
        have howed : owed i = ∅ := Set.subset_eq_empty (h.owed_le i) hheld
        refine h.goOn ?_
        rw [hheld, howed]
        exact hround i a l t.value hpost
      · exact ⟨owed, h⟩
  | step i =>
      unfold Threads.act
      dsimp only
      split_ifs
      · exact h.execute i
      · exact ⟨owed, h⟩
  | wake i =>
      refine ⟨_, h.of_others i (O := owed i) (Or.inl rfl) (fun j hj => ⟨rfl, rfl⟩) (h.wp i)
        (h.owed_le i) h.inv fun j m' hsleeps => ?_⟩
      change Function.update t.asleep i none j = _ at hsleeps
      by_cases hj : j = i
      · subst hj
        rw [Function.update_self] at hsleeps
        exact absurd hsleeps.symm (Option.some_ne_none _)
      · rw [Function.update_of_ne hj] at hsleeps
        exact h.asleep_or i hsleeps

/-- Along a run. -/
theorem coherent_always (h : ∃ owed, Coherent c post owed t)
    (hround : ∀ i a l, c.Triple i ∅ (post i a) (round i a l) (post i)) (as : List (Act ι ℓ)) :
    Always (Threads.act round) (fun t => ∃ owed, Coherent c post owed t) t as :=
  always_of_step (fun _ a h => h.elim fun _ h => h.act hround a) as h

/-- The value is changed as it may be. -/
theorem Coherent.value_act (h : Coherent c post owed t) (a : Act ι ℓ) :
    (t.act round a).value = t.value ∨ ∃ i held, c.may i held t.value (t.act round a).value := by
  cases a with
  | begin i l =>
      unfold Threads.act
      dsimp only
      split <;> exact Or.inl rfl
  | wake i => exact Or.inl rfl
  | step i =>
      unfold Threads.act
      dsimp only
      have hi := h.wp i
      split_ifs
      · cases hprog : t.prog i with
        | write f k =>
            rw [hprog] at hi
            exact Or.inr ⟨i, t.held i, (hi t.value .refl).1⟩
        | lock m k =>
            unfold Threads.execute
            dsimp only
            split_ifs <;> exact Or.inl rfl
        | done a | unlock m k | sleep m timed k | notify m k | read k | emit o k => exact Or.inl rfl
      · exact Or.inl rfl

/-- What is kept by whatever a thread may do, is kept. -/
theorem Coherent.kept (h : Coherent c post owed t) {P : σ → Prop}
    (hP : ∀ i held s s', c.may i held s s' → P s → P s') (a : Act ι ℓ) (ht : P t.value) :
    P (t.act round a).value := by
  have hvalue : (t.act round a).value = t.value ∨
      ∃ i held, c.may i held t.value (t.act round a).value := h.value_act a
  rcases hvalue with hsame | ⟨i, held, hmay⟩
  · rw [hsame]
    exact ht
  · exact hP i held _ _ hmay ht

end Runs

end NatPiercer
