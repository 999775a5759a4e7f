import U7Init.Lib.Fairness
import U7Init.Lib.Simulation
import U7Init.Spinlock

/-!
# Progress of the Spinlock

Neither `u7_spinlock_lock` nor a loop around `u7_spinlock_trylock` has a bound of its own.
This module shows what bounds them in the programs of the previous modules: a failed attempt
leaves everything as it was and is made while somebody else holds the lock, and every other
step is one of at most five steps of an iteration.

A run is infinite here, and fair: a thread that is not done takes a step later on
(`FairRun`). The lock itself is not fair. A single thread may fail at every attempt as
long as others are quicker, and nothing is said about which of the waiting threads gets the lock
next; but each time somebody gets it an iteration is used up, and there are finitely many. What
a thread does between two attempts, a pause or a yield, has no effect on the state and belongs
to the failed attempt.

## Main results

* `Spin.Next.left`: what a step does to the steps that are left.
* `spinlock_progress`: every fair run finishes all iterations, every run can be completed, and
  only failed attempts may exceed five steps for each iteration.
-/

open Interleaving

namespace U7Init

namespace Spin

/-- The steps that a thread can still take, failed attempts apart. -/
def Thread.left (t : Thread) : ℕ :=
  5 * t.remaining - match t.place with
    | .idle => 0
    | .spinning _ => 1
    | .acquired => 2
    | .loaded _ => 3
    | .stored => 4

/-- The step is an attempt to take the lock that failed. -/
def failedAttempt (lock : U7Spinlock) : Event → Bool
  | .testAndSet => lock.flag
  | .trylock result => !result
  | .call | .read | .write | .unlock => false

/-- The step of a run, with the configuration that it was taken in, is such an attempt. -/
def Fails {ι : Type*} (step : Config ι Shared Thread × ι × Event) : Bool :=
  failedAttempt step.1.shared.lock step.2.2

section Steps

variable {ι : Type*} {i : ι} {s s' : Shared} {l l' : Thread} {e : Event}

/-- A failed attempt leaves the steps and the lock as they are, every other step is one step
less. -/
theorem Next.left (h : Next i s l e s' l') (hbusy : l.place ≠ .idle → 0 < l.remaining) :
    (failedAttempt s.lock e = true ∧ s.lock.flag = true ∧ ¬ l.Holds ∧ ¬ l'.Holds ∧
      l'.left = l.left) ∨
    (failedAttempt s.lock e = false ∧ l'.left < l.left) := by
  cases h with
  | spin hold =>
      have hset : s.lock.flag = true := by
        rw [← Bool.not_eq_false, ← u7SpinlockLockIter_eq_none, hold]
        exact Option.some_ne_none _
      exact .inl ⟨hset, hset, id, id, rfl⟩
  | lock hold =>
      have hclear := u7SpinlockLockIter_eq_none.mp hold
      have hpos := hbusy (by simp)
      refine .inr ⟨hclear, ?_⟩
      simp only [Thread.left] at hpos ⊢
      omega
  | trylockFail hres =>
      have hset : s.lock.flag = true := by
        simpa [u7SpinlockTrylock, atomicFlagTestAndSet] using hres
      exact .inl ⟨rfl, hset, id, id, rfl⟩
  | call | trylock | unlock =>
      refine .inr ⟨rfl, ?_⟩
      simp only [Thread.left]
      omega
  | read | write =>
      have hpos := hbusy (by simp)
      refine .inr ⟨rfl, ?_⟩
      simp only [Thread.left] at hpos ⊢
      omega

end Steps

section Threads

variable {ι : Type*} [DecidableEq ι] [Fintype ι] {iterations : ι → ℕ}
  {c c' : Config ι Shared Thread} {i : ι} {e : Event}

/-- A step fails, and then somebody else holds the lock before and after it, or one step less
is left. -/
theorem Inv.left (h : Inv iterations c) (hstep : Step Next c i e c') :
    (failedAttempt c.shared.lock e = true ∧ (∃ j, j ≠ i ∧ (c.loc j).Holds) ∧
      (∀ j, (c'.loc j).Holds ↔ (c.loc j).Holds) ∧
      c'.total Thread.left = c.total Thread.left) ∨
    (failedAttempt c.shared.lock e = false ∧
      c'.total Thread.left < c.total Thread.left) := by
  cases hstep with
  | mk hnext =>
  rename_i s' l'
  have htotal := c.total_move Thread.left i s' l'
  rcases hnext.left (h.balanced i).busy with ⟨hfailed, hset, hnot, hnot', heq⟩ | ⟨hfailed, hlt⟩
  · refine .inl ⟨hfailed, ?_, fun j => ?_, by omega⟩
    · obtain ⟨j, hj⟩ := h.flag_iff.mp hset
      exact ⟨j, fun hji => hnot (hji ▸ hj), hj⟩
    · by_cases hj : j = i
      · subst hj
        rw [Config.move_loc_self]
        exact iff_of_false hnot' hnot
      · rw [c.move_loc_of_ne s' l' hj]
  · exact .inr ⟨hfailed, by omega⟩

/-- Who helps: the holder of the lock, and while nobody holds it every thread with iterations
left. -/
def Helpful (c : Config ι Shared Thread) (i : ι) : Prop :=
  (c.loc i).Holds ∨ (∀ j, ¬ (c.loc j).Holds) ∧ ¬ (c.loc i).Finished

omit [DecidableEq ι] [Fintype ι] in
theorem Thread.Holds.not_finished {t : Thread} (h : t.Holds) : ¬ t.Finished := by
  rintro ⟨hplace, -⟩
  rw [Thread.Holds, hplace] at h
  exact h

omit [DecidableEq ι] [Fintype ι] in
/-- Of every configuration that is not finished somebody can be helped. -/
theorem exists_helpful (h : ¬ ∀ i, (c.loc i).Finished) : ∃ i, Helpful c i := by
  by_cases hholds : ∃ j, (c.loc j).Holds
  · obtain ⟨j, hj⟩ := hholds
    exact ⟨j, .inl hj⟩
  · obtain ⟨i, hi⟩ := not_forall.mp h
    exact ⟨i, .inr ⟨not_exists.mp hholds, hi⟩⟩

/-- **The measure.** The steps that are left measure the progress of all threads. -/
theorem progress (iterations : ι → ℕ) :
    Progress Next Thread.Finished (fun c => Reach Next (start iterations) c)
      (fun c => ∀ i, (c.loc i).Finished) (Config.total Thread.left) Helpful where
  invariant := fun _ _ _ _ h hstep => h.tail trivial hstep
  le := by
    intro c i e c' h hstep
    rcases (inv_of_reach h).left hstep with ⟨-, -, -, heq⟩ | ⟨-, hlt⟩
    · exact heq.le
    · exact hlt.le
  exists_helpful := fun _ _ h => exists_helpful h
  not_done := by
    rintro c i - (hi | ⟨-, hi⟩)
    · exact hi.not_finished
    · exact hi
  enabled := by
    intro c i h hi
    have hnot : ¬ (c.loc i).Finished := by
      rcases hi with hi | ⟨-, hi⟩
      · exact hi.not_finished
      · exact hi
    obtain ⟨e, s', l', hnext⟩ := exists_next_of_not_finished h hnot
    exact ⟨e, _, .mk hnext⟩
  lt := by
    intro c i e c' h hi hstep
    rcases (inv_of_reach h).left hstep with ⟨-, ⟨j, hji, hj⟩, -⟩ | ⟨-, hlt⟩
    · -- the thread that is helpful is the holder itself, or there is none
      rcases hi with hi | ⟨hnone, -⟩
      · exact absurd ((inv_of_reach h).eq_of_holds hj hi) hji
      · exact absurd hj (hnone j)
    · exact hlt
  keeps := by
    intro c i j e c' h hi hstep heq
    rcases (inv_of_reach h).left hstep with ⟨-, ⟨k, hkj, hk⟩, hsame, -⟩ | ⟨-, hlt⟩
    · rcases hi with hi | ⟨hnone, -⟩
      · exact .inl ((hsame i).mpr hi)
      · exact absurd hk (hnone k)
    · omega

/-- The steps of a run, failed attempts apart, and the steps that are then left are together at
most those of the start; at every failed attempt another thread holds the lock. -/
theorem steps_le {trace : List (Config ι Shared Thread × ι × Event)}
    (h : Simulation.Run (fun c step c' => Step Next c step.1 step.2 c') (start iterations)
      trace c) :
    Reach Next (start iterations) c ∧
      c.total Thread.left + trace.countP (fun step => !Fails step) ≤
        5 * ∑ i, iterations i ∧
      ∀ step ∈ trace, Fails step = true → ∃ j, j ≠ step.2.1 ∧ (step.1.loc j).Holds := by
  induction h with
  | nil =>
      refine ⟨.refl, ?_, List.forall_mem_nil _⟩
      rw [List.countP_nil, Finset.mul_sum]
      rfl
  | @snoc trace c c' step _ hstep ih =>
      obtain ⟨hreach, hle, hfailed⟩ := ih
      refine ⟨hreach.tail trivial hstep, ?_, ?_⟩
      · rw [List.countP_append, List.countP_singleton]
        rcases (inv_of_reach hreach).left hstep with ⟨hfail, -, -, heq⟩ | ⟨hfail, hlt⟩
        · have hfail : Fails (c, step) = true := hfail
          simp only [hfail, Bool.not_true, Bool.false_eq_true, ↓reduceIte]
          omega
        · have hfail : Fails (c, step) = false := hfail
          simp only [hfail, Bool.not_false, ↓reduceIte]
          omega
      · refine List.forall_mem_append.mpr ⟨hfailed, List.forall_mem_singleton.mpr ?_⟩
        intro hfail
        rcases (inv_of_reach hreach).left hstep with ⟨-, hother, -⟩ | ⟨hnot, -⟩
        · exact hother
        · rw [Fails, hnot] at hfail
          cases hfail

end Threads

end Spin

open Spin in
/-- **The spinlock starves nobody for good.** Every fair run comes to a point from which on
all threads have finished and the counter is the number of their iterations, and from every
reachable configuration there is such a run. In every run the steps that are not failed
attempts to take the lock are at most five for each iteration, and at a failed attempt
another thread holds the lock. -/
theorem spinlock_progress {ι : Type*} [DecidableEq ι] [Fintype ι] (iterations : ι → ℕ) :
    (∀ run, FairRun Next Thread.Finished (start iterations) run →
      ∃ n, ∀ m, n ≤ m → (∀ i, ((run m).loc i).Finished) ∧
        (run m).shared.value = ∑ i, iterations i) ∧
    (∀ c, Reach Next (start iterations) c →
      ∃ run, FairRun Next Thread.Finished (start iterations) run ∧ ∃ n, run n = c) ∧
    (∀ (trace : List (Config ι Shared Thread × ι × Event)) c,
      Simulation.Run (fun c step c' => Step Next c step.1 step.2 c') (start iterations)
        trace c →
      trace.countP (fun step => !Fails step) ≤ 5 * ∑ i, iterations i ∧
      ∀ step ∈ trace, Fails step = true → ∃ j, j ≠ step.2.1 ∧ (step.1.loc j).Holds) := by
  have hprogress := progress iterations
  refine ⟨fun run hrun => ?_, fun c hreach => ?_, fun trace c hrun => ?_⟩
  · obtain ⟨n, hfinished⟩ := hprogress.fairRun .refl hrun
    refine ⟨n, fun m hm => ⟨hfinished m hm, ?_⟩⟩
    obtain ⟨hvalue, hacquisitions⟩ :=
      (inv_of_reach (hrun.reach m)).value_of_finished (hfinished m hm)
    exact hvalue.trans hacquisitions
  · obtain ⟨c', hreach', -, hfinished⟩ := hprogress.exists_goal hreach
    obtain ⟨run, hrun, hvisits⟩ := hreach'.exists_fairRun hfinished
    obtain ⟨run', hrun', hvisits'⟩ := hreach.append_fairRun hrun
    obtain ⟨n, hn⟩ := hvisits' 0
    exact ⟨run', hrun', n, hn.trans hrun.start⟩
  · obtain ⟨-, hle, hfailed⟩ := steps_le hrun
    exact ⟨by omega, hfailed⟩

end U7Init
