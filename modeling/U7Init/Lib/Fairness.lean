import U7Init.Lib.Interleaving

/-!
# Progress of Interleaved Threads

A measure that no step raises, and that at every configuration short of the goal some
helpful thread lowers with its next step, takes every fair run to the goal. It need not be
the thread that waits which helps, and a helpful thread stays so until the measure falls.

## Main results

* `Progress.fairRun`: every fair run reaches the goal and stays there.
* `Progress.exists_goal`: the goal can be reached from everywhere.
* `ReachWithin.exists_fairRun`: a run after which every thread is done is fair.
-/

namespace Interleaving

variable {ι S L E : Type*} [DecidableEq ι]

/-- An infinite run that is fair: a thread that is not done takes a step later on. The
configuration may also stay as it is. -/
structure FairRun (P : Program ι S L E) (Done : L → Prop) (c₀ : Config ι S L)
    (run : ℕ → Config ι S L) : Prop where
  start : run 0 = c₀
  step : ∀ n, run (n + 1) = run n ∨ ∃ i e, Step P (run n) i e (run (n + 1))
  fair : ∀ n i, ¬ Done ((run n).loc i) →
    ∃ m, n ≤ m ∧ ∃ e, Step P (run m) i e (run (m + 1))

/-- The measure `f` of progress towards `Goal`, under the invariant `I`. -/
structure Progress (P : Program ι S L E) (Done : L → Prop) (I Goal : Config ι S L → Prop)
    (f : Config ι S L → ℕ) (Helpful : Config ι S L → ι → Prop) : Prop where
  invariant : ∀ c i e c', I c → Step P c i e c' → I c'
  le : ∀ c i e c', I c → Step P c i e c' → f c' ≤ f c
  exists_helpful : ∀ c, I c → ¬ Goal c → ∃ i, Helpful c i
  not_done : ∀ c i, I c → Helpful c i → ¬ Done (c.loc i)
  enabled : ∀ c i, I c → Helpful c i → ∃ e c', Step P c i e c'
  lt : ∀ c i e c', I c → Helpful c i → Step P c i e c' → f c' < f c
  keeps : ∀ c i j e c', I c → Helpful c i → Step P c j e c' → f c' = f c → Helpful c' i

variable {P : Program ι S L E} {Done : L → Prop} {I Goal : Config ι S L → Prop}
  {f : Config ι S L → ℕ} {Helpful : Config ι S L → ι → Prop} {c₀ c c' : Config ι S L}
  {run : ℕ → Config ι S L}

/-- Every configuration of a run is reached. -/
theorem FairRun.reach (h : FairRun P Done c₀ run) (n : ℕ) : Reach P c₀ (run n) := by
  induction n with
  | zero => rw [h.start]; exact .refl
  | succ n ih =>
      rcases h.step n with hstay | ⟨i, e, hstep⟩
      · rwa [hstay]
      · exact ih.tail trivial hstep

/-- A measure that never rises is constant from some point on. -/
theorem eventually_constant {g : ℕ → ℕ} (h : ∀ n, g (n + 1) ≤ g n) :
    ∃ n, ∀ m, n ≤ m → g m = g n := by
  obtain ⟨n, hn⟩ := WellFoundedGT.monotone_chain_condition
    (⟨fun n => OrderDual.toDual (g n), monotone_nat_of_le_succ h⟩ : ℕ →o ℕᵒᵈ)
  exact ⟨n, fun m hm => (OrderDual.toDual.injective (hn m hm)).symm⟩

theorem Progress.invariant_run (h : Progress P Done I Goal f Helpful) (hstart : I c₀)
    (hrun : FairRun P Done c₀ run) (n : ℕ) : I (run n) :=
  (hrun.reach n).invariant hstart fun _ _ _ _ _ _ hI hP => h.invariant _ _ _ _ hI (.mk hP)

/-- **Fair runs reach the goal** and stay there. -/
theorem Progress.fairRun (h : Progress P Done I Goal f Helpful) (hstart : I c₀)
    (hrun : FairRun P Done c₀ run) : ∃ n, ∀ m, n ≤ m → Goal (run m) := by
  have hI := h.invariant_run hstart hrun
  have hle : ∀ n, f (run (n + 1)) ≤ f (run n) := by
    intro n
    rcases hrun.step n with hstay | ⟨i, e, hstep⟩
    · rw [hstay]
    · exact h.le _ _ _ _ (hI n) hstep
  obtain ⟨n, hconstant⟩ := eventually_constant (g := fun n => f (run n)) hle
  refine ⟨n, fun m hm => ?_⟩
  by_contra hgoal
  obtain ⟨i, hi⟩ := h.exists_helpful _ (hI m) hgoal
  -- as long as the measure is constant the thread stays helpful, and so takes no step
  have hstays : ∀ m', m ≤ m' → Helpful (run m') i := by
    intro m' hm'
    induction m', hm' using Nat.le_induction with
    | base => exact hi
    | succ m' hm' ih =>
        rcases hrun.step m' with hstay | ⟨j, e, hstep⟩
        · rwa [hstay]
        · refine h.keeps _ _ _ _ _ (hI m') ih hstep ?_
          rw [hconstant m' (hm.trans hm'), hconstant (m' + 1) (by omega)]
  obtain ⟨m', hm', e, hstep⟩ := hrun.fair m i (h.not_done _ _ (hI m) hi)
  have hlt := h.lt _ _ _ _ (hI m') (hstays m' hm') hstep
  rw [hconstant m' (hm.trans hm'), hconstant (m' + 1) (by omega)] at hlt
  exact lt_irrefl _ hlt

/-- Runs go on with runs. -/
theorem ReachWithin.trans (h : Reach P c₀ c) (h' : Reach P c c') : Reach P c₀ c' := by
  induction h' with
  | refl => exact h
  | tail _ _ hstep ih => exact ih.tail trivial hstep

/-- **The goal can be reached** from every configuration. -/
theorem Progress.exists_goal (h : Progress P Done I Goal f Helpful) (hI : I c) :
    ∃ c', Reach P c c' ∧ I c' ∧ Goal c' := by
  induction hf : f c using Nat.strong_induction_on generalizing c with
  | _ n ih =>
      by_cases hgoal : Goal c
      · exact ⟨c, .refl, hI, hgoal⟩
      · obtain ⟨i, hi⟩ := h.exists_helpful c hI hgoal
        obtain ⟨e, c₁, hstep⟩ := h.enabled c i hI hi
        obtain ⟨c', hreach, hgoal'⟩ :=
          ih _ (hf ▸ h.lt _ _ _ _ hI hi hstep) (h.invariant _ _ _ _ hI hstep) rfl
        exact ⟨c', (ReachWithin.refl.tail trivial hstep).trans hreach, hgoal'⟩

/-! ### Finite runs -/

/-- A run that starts with `c₀` and goes on as `run`. -/
def cons (c₀ : Config ι S L) (run : ℕ → Config ι S L) : ℕ → Config ι S L
  | 0 => c₀
  | n + 1 => run n

theorem Step.loc_eq_of_ne {i j : ι} {e : E} (h : Step P c i e c') (hj : j ≠ i) :
    c'.loc j = c.loc j := by
  cases h with
  | mk hP => exact c.move_loc_of_ne _ _ hj

/-- A step may be taken before a fair run. -/
theorem FairRun.cons {i : ι} {e : E} (hstep : Step P c₀ i e c) (h : FairRun P Done c run) :
    FairRun P Done c₀ (cons c₀ run) where
  start := rfl
  step := by
    intro n
    cases n with
    | zero => exact .inr ⟨i, e, by simpa [Interleaving.cons, h.start] using hstep⟩
    | succ n => exact h.step n
  fair := by
    intro n j hj
    cases n with
    | zero =>
        by_cases hij : j = i
        · subst hij
          exact ⟨0, le_rfl, e, by simpa [Interleaving.cons, h.start] using hstep⟩
        · rw [Interleaving.cons, ← hstep.loc_eq_of_ne hij, ← h.start] at hj
          obtain ⟨m, -, e', hm⟩ := h.fair 0 j hj
          exact ⟨m + 1, Nat.zero_le _, e', hm⟩
    | succ n =>
        obtain ⟨m, hnm, e', hm⟩ := h.fair n j hj
        exact ⟨m + 1, Nat.succ_le_succ hnm, e', hm⟩

/-- A fair run may be preceded by any run. -/
theorem ReachWithin.append_fairRun (h : Reach P c₀ c) (hrun : FairRun P Done c run) :
    ∃ run', FairRun P Done c₀ run' ∧ ∀ m, ∃ n, run' n = run m := by
  induction h generalizing run with
  | refl => exact ⟨run, hrun, fun m => ⟨m, rfl⟩⟩
  | tail _ _ hstep ih =>
      obtain ⟨run', hrun', hvisits⟩ := ih (hrun.cons hstep)
      exact ⟨run', hrun', fun m => hvisits (m + 1)⟩

/-- **A run after which every thread is done** is fair. -/
theorem ReachWithin.exists_fairRun (h : Reach P c₀ c) (hdone : ∀ i, Done (c.loc i)) :
    ∃ run, FairRun P Done c₀ run ∧ ∃ n, run n = c := by
  have hlast : FairRun P Done c fun _ => c :=
    ⟨rfl, fun _ => .inl rfl, fun _ i hi => absurd (hdone i) hi⟩
  obtain ⟨run, hrun, hvisits⟩ := h.append_fairRun hlast
  exact ⟨run, hrun, hvisits 0⟩

end Interleaving
