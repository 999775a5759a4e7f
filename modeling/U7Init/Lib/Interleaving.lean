import Mathlib.Algebra.BigOperators.Group.Finset.Basic
import Mathlib.Algebra.Order.BigOperators.Group.Finset
import Mathlib.Tactic

/-!
# Interleaved Threads

A configuration is a shared state and one local state for each thread. A program says
which atomic steps a thread may take from a shared and a local state, and what each step
does to the two; a step of the configuration is a step of any one thread. Nothing is
assumed about scheduling, so the reachable configurations are those of every
interleaving.

## Main results

* `Reach.invariant`: the rule for inductive invariants.
* `Config.total_move`: how a sum over the threads changes when one thread moves. Every
  counting invariant (tokens held, threads at a place, work done) is kept with it.
* `Config.eq_of_total_le_one`: a sum of at most one singles out one thread.
* `ReachWithin.solo`: what a thread does on its own is part of a run.
-/

namespace Interleaving

/-- A shared state and the local states of the threads. -/
@[ext] structure Config (ι S L : Type*) where
  shared : S
  loc : ι → L

/-- The atomic steps of the threads: `P i s l e s' l'` says that thread `i`, at the
shared state `s` and the local state `l`, may take a step labelled `e` to `s'` and
`l'`. -/
abbrev Program (ι S L E : Type*) :=
  ι → S → L → E → S → L → Prop

variable {ι S L E : Type*} [DecidableEq ι]

/-- Thread `i` moves to `l'` while the shared state becomes `s'`. -/
def Config.move (c : Config ι S L) (i : ι) (s' : S) (l' : L) : Config ι S L :=
  ⟨s', Function.update c.loc i l'⟩

@[simp] theorem Config.move_shared (c : Config ι S L) (i : ι) (s' : S) (l' : L) :
    (c.move i s' l').shared = s' := rfl

@[simp] theorem Config.move_loc_self (c : Config ι S L) (i : ι) (s' : S) (l' : L) :
    (c.move i s' l').loc i = l' := by
  simp [move]

theorem Config.move_loc_of_ne (c : Config ι S L) {i j : ι} (s' : S) (l' : L)
    (h : j ≠ i) : (c.move i s' l').loc j = c.loc j := by
  simp [move, h]

/-- A property of every thread survives a move of one thread that keeps it. -/
theorem Config.forall_move {c : Config ι S L} {Q : ι → L → Prop}
    (h : ∀ j, Q j (c.loc j)) {i : ι} {s' : S} {l' : L} (hi : Q i l') (j : ι) :
    Q j ((c.move i s' l').loc j) := by
  by_cases hj : j = i
  · subst hj
    rwa [Config.move_loc_self]
  · rw [c.move_loc_of_ne s' l' hj]
    exact h j

/-- One step of the configuration. -/
inductive Step (P : Program ι S L E) : Config ι S L → ι → E → Config ι S L → Prop
  | mk {c : Config ι S L} {i : ι} {e : E} {s' : S} {l' : L} :
      P i c.shared (c.loc i) e s' l' → Step P c i e (c.move i s' l')

/-- The configurations reached from `c₀` by runs that take a step only from
configurations satisfying `B`. -/
inductive ReachWithin (P : Program ι S L E) (B : Config ι S L → Prop)
    (c₀ : Config ι S L) : Config ι S L → Prop
  | refl : ReachWithin P B c₀ c₀
  | tail {c c' : Config ι S L} {i : ι} {e : E} :
      ReachWithin P B c₀ c → B c → Step P c i e c' → ReachWithin P B c₀ c'

/-- The configurations reached from `c₀`. -/
abbrev Reach (P : Program ι S L E) (c₀ : Config ι S L) : Config ι S L → Prop :=
  ReachWithin P (fun _ => True) c₀

/-- A run goes on with one more step of one thread. -/
theorem ReachWithin.move {P : Program ι S L E} {c₀ c : Config ι S L} (h : Reach P c₀ c) (i : ι)
    {e : E} {s' : S} {l' : L} (hP : P i c.shared (c.loc i) e s' l') :
    Reach P c₀ (c.move i s' l') :=
  h.tail trivial (.mk hP)

/-- A run within bounds is a run. -/
theorem ReachWithin.reach {P : Program ι S L E} {B : Config ι S L → Prop}
    {c₀ c : Config ι S L} (h : ReachWithin P B c₀ c) : Reach P c₀ c := by
  induction h with
  | refl => exact .refl
  | tail _ _ hs ih => exact ih.tail trivial hs

/-- Bounds that agree on the reachable configurations admit the same runs. -/
theorem ReachWithin.imp {P : Program ι S L E} {B B' : Config ι S L → Prop}
    {c₀ c : Config ι S L} (hB : ∀ c, Reach P c₀ c → B c → B' c)
    (h : ReachWithin P B c₀ c) : ReachWithin P B' c₀ c := by
  induction h with
  | refl => exact .refl
  | tail hr hb hs ih => exact ih.tail (hB _ hr.reach hb) hs

/-- **The invariant rule.** What holds at the start and is kept by every step of every
thread holds in every reachable configuration. -/
theorem ReachWithin.invariant {P : Program ι S L E} {B : Config ι S L → Prop}
    {c₀ : Config ι S L} {I : Config ι S L → Prop} (hstart : I c₀)
    (hstep : ∀ c i e s' l', B c → I c → P i c.shared (c.loc i) e s' l' →
      I (c.move i s' l'))
    {c : Config ι S L} (h : ReachWithin P B c₀ c) : I c := by
  induction h with
  | refl => exact hstart
  | tail _ hB hs ih =>
      cases hs with
      | mk hP => exact hstep _ _ _ _ _ hB ih hP

/-! ### A thread on its own -/

/-- Thread `i` takes steps while no other thread does. -/
inductive Solo (P : Program ι S L E) (i : ι) (s : S) (l : L) : S → L → Prop
  | refl : Solo P i s l s l
  | tail {s' s'' : S} {l' l'' : L} {e : E} :
      Solo P i s l s' l' → P i s' l' e s'' l'' → Solo P i s l s'' l''

omit [DecidableEq ι] in
theorem Solo.single {P : Program ι S L E} {i : ι} {s s' : S} {l l' : L} {e : E}
    (h : P i s l e s' l') : Solo P i s l s' l' :=
  .tail .refl h

omit [DecidableEq ι] in
theorem Solo.trans {P : Program ι S L E} {i : ι} {s s' s'' : S} {l l' l'' : L}
    (h : Solo P i s l s' l') (h' : Solo P i s' l' s'' l'') : Solo P i s l s'' l'' := by
  induction h' with
  | refl => exact h
  | tail _ hP ih => exact ih.tail hP

/-- What a thread does on its own is part of a run. -/
theorem ReachWithin.solo {P : Program ι S L E} {c₀ c : Config ι S L} (h : Reach P c₀ c) {i : ι}
    {s' : S} {l' : L} (hsolo : Solo P i c.shared (c.loc i) s' l') :
    Reach P c₀ (c.move i s' l') := by
  induction hsolo with
  | refl =>
      have hsame : c.move i c.shared (c.loc i) = c :=
        Config.ext rfl (Function.update_eq_self i c.loc)
      rwa [hsame]
  | @tail s' s'' l' l'' e _ hP ih =>
      have hagain : (c.move i s' l').move i s'' l'' = c.move i s'' l'' := by
        simp only [Config.move, Function.update_idem]
      have hP' : P i (c.move i s' l').shared ((c.move i s' l').loc i) e s'' l'' := by
        rwa [Config.move_shared, Config.move_loc_self]
      rw [← hagain]
      exact ih.move i hP'

/-! ### Sums over the threads -/

section Total

variable [Fintype ι]

/-- The sum of a measure of the local states over all threads. -/
def Config.total (f : L → ℕ) (c : Config ι S L) : ℕ :=
  ∑ i, f (c.loc i)

/-- How a sum changes when one share does. -/
theorem sum_update (f : ι → ℕ) (i : ι) (n : ℕ) :
    ∑ j, Function.update f i n j + f i = ∑ j, f j + n := by
  have hnew := Finset.add_sum_erase Finset.univ (Function.update f i n) (Finset.mem_univ i)
  have hold := Finset.add_sum_erase Finset.univ f (Finset.mem_univ i)
  have hrest : ∑ j ∈ Finset.univ.erase i, Function.update f i n j =
      ∑ j ∈ Finset.univ.erase i, f j :=
    Finset.sum_congr rfl fun j hj => Function.update_of_ne (Finset.ne_of_mem_erase hj) _ _
  rw [Function.update_self] at hnew
  omega

/-- **How a sum changes when one thread moves.** -/
theorem Config.total_move (f : L → ℕ) (c : Config ι S L) (i : ι) (s' : S) (l' : L) :
    (c.move i s' l').total f + f (c.loc i) = c.total f + f l' := by
  have hmove : (fun j => f ((c.move i s' l').loc j)) =
      Function.update (fun j => f (c.loc j)) i (f l') := by
    funext j
    exact Function.apply_update (fun _ => f) c.loc i l' j
  have hsum := sum_update (fun j => f (c.loc j)) i (f l')
  rwa [← hmove] at hsum

omit [DecidableEq ι] in
/-- One thread's share is at most the sum. -/
theorem Config.le_total (f : L → ℕ) (c : Config ι S L) (i : ι) :
    f (c.loc i) ≤ c.total f :=
  Finset.single_le_sum (f := fun j => f (c.loc j)) (fun _ _ => Nat.zero_le _)
    (Finset.mem_univ i)

/-- The shares of two threads are together at most the sum. -/
theorem Config.add_le_total (f : L → ℕ) (c : Config ι S L) {i j : ι} (h : i ≠ j) :
    f (c.loc i) + f (c.loc j) ≤ c.total f := by
  have hpair := Finset.sum_le_sum_of_subset (f := fun k => f (c.loc k))
    (Finset.subset_univ {i, j})
  rwa [Finset.sum_pair h] at hpair

/-- A sum of at most one singles out one thread. -/
theorem Config.eq_of_total_le_one {f : L → ℕ} {c : Config ι S L} (h : c.total f ≤ 1)
    {i j : ι} (hi : 0 < f (c.loc i)) (hj : 0 < f (c.loc j)) : i = j := by
  by_contra hne
  have := c.add_le_total f hne
  omega

omit [DecidableEq ι] in
/-- A positive sum has a positive share. -/
theorem Config.exists_of_total_pos {f : L → ℕ} {c : Config ι S L} (h : 0 < c.total f) :
    ∃ i, 0 < f (c.loc i) := by
  obtain ⟨i, -, hi⟩ := Finset.exists_ne_zero_of_sum_ne_zero h.ne'
  exact ⟨i, Nat.pos_of_ne_zero hi⟩

omit [DecidableEq ι] in
/-- A sum of zero shares is zero. -/
theorem Config.total_eq_zero {f : L → ℕ} {c : Config ι S L} (h : ∀ i, f (c.loc i) = 0) :
    c.total f = 0 :=
  Finset.sum_eq_zero fun i _ => h i

end Total

end Interleaving
