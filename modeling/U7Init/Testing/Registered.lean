import U7Init.Lib.IntrusiveList
import U7Init.Lib.Qsort
import U7Init.Testing.Runner

/-!
# The Registered Tests

This module models `u7_testing_register` and `u7_testing_run_registered`. The registered
tests form a list linked through the records themselves. The runner takes pointers to them
into an array, sorts it by name, refuses names that occur twice, and runs copies of the
records whose links are cut. Whether the two allocations succeed, and `qsort`, are
parameters of a call.

The registry is the same data structure as that of `init.c`, and `U7Init.Lib.IntrusiveList` and
`U7Init.Lib.Qsort` serve both. The bodies of the tests are functions on the state; where a
statement is about what a whole call returns, they are assumed to return themselves and to leave
the registry alone. Since names decide the order, and names that are equal are refused, nothing
is left of the order of registration, nor of what `qsort` does with equal keys.

## Main results

* `u7TestingRunRegistered_cases`: a call refuses, or runs the copies of the sorted tests.
* `run_registered_by_name`: it depends on the set of the registered tests only.
-/

namespace U7Init

open Outcome IntrusiveList Qsort

/-- The fields of the registered `struct u7_testing_case`s that never change. -/
structure TestRecords (τ ω : Type) where
  name : τ → CStr
  fn : τ → TestingState τ ω → Except (Stop τ ω) (TestingState τ ω)

/-- What a call of `u7_testing_run_registered` meets with. -/
structure TestingEnv (τ : Type) where
  allocatesIndex : Bool
  allocatesSorted : Bool
  qsort : (τ → τ → ℤ) → List τ → List τ

variable {τ ω : Type}

/-- `u7_testing_register`. -/
def u7TestingRegister [DecidableEq τ] (test : τ) (s : TestingState τ ω) : TestingState τ ω :=
  { s with head := some test, next := Function.update s.next test s.head }

/-- `u7_testing_compare_cases`. -/
def TestRecords.compareCases (R : TestRecords τ ω) (lhs rhs : τ) : ℤ :=
  strcmp (R.name lhs) (R.name rhs)

/-- `*test`. -/
def TestRecords.load (R : TestRecords τ ω) (s : TestingState τ ω) (test : τ) : TestCase τ ω where
  name := R.name test
  fn := R.fn test
  next := s.next test

/-- The loop along the links from `u7_testing_registered_tests`. -/
def TestingState.registered [Fintype τ] (s : TestingState τ ω) :
    Except (Stop τ ω) (List τ) :=
  match follow s.next s.head with
  | some tests => .ok tests
  | none => .error (.fault .diverges)

/-- The state after a `malloc` that succeeds. -/
def TestingState.newArray (s : TestingState τ ω) : TestingState τ ω :=
  { s with arrays := s.arrays + 1 }

/-- The state after a `free`. -/
def TestingState.freeArray (s : TestingState τ ω) : TestingState τ ω :=
  { s with arrays := s.arrays - 1 }

/-- `u7_testing_run_registered`. -/
def u7TestingRunRegistered [Fintype τ] (R : TestRecords τ ω) (env : TestingEnv τ)
    (argv : List CStr) (s : TestingState τ ω) :
    Except (Stop τ ω) (RunResult τ ω × TestingState τ ω) := do
  let count := (← s.registered).length
  if count = 0 then
    .ok (.refused, s.fprintf (ascii "u7_testing: no tests registered\n"))
  else if env.allocatesIndex = false then
    .ok (.refused, s.fprintf (ascii "u7_testing: cannot allocate registered test index\n"))
  else do
    let s := s.newArray
    let tests ← s.registered
    let tests := env.qsort R.compareCases tests
    match adjacent (fun lhs rhs => strcmp (R.name lhs) (R.name rhs) == 0) tests with
    | some test =>
        let s := s.fprintf
          (ascii "u7_testing: duplicate test name: " ++ (R.name test).bytes ++ ascii "\n")
        .ok (.refused, s.freeArray)
    | none =>
        if env.allocatesSorted = false then
          .ok (.refused,
            s.freeArray.fprintf (ascii "u7_testing: cannot allocate sorted test list\n"))
        else do
          let s := s.newArray
          let sorted := tests.map fun test => { R.load s test with next := none }
          let s := s.freeArray
          let (result, s) ← u7TestingRun argv sorted s
          .ok (result, s.freeArray)

/-! ### What a call does -/

/-- `u7_testing_compare_cases` compares names. -/
theorem compares_compareCases (R : TestRecords τ ω) : Compares R.compareCases R.name where
  neg_iff := fun _ _ => strcmp_neg_iff
  pos_iff := fun _ _ => strcmp_pos_iff

/-- The copy of a record, its link cut. -/
def TestRecords.copy (R : TestRecords τ ω) (test : τ) : TestCase τ ω where
  name := R.name test
  fn := R.fn test
  next := none

/-- `u7_testing_run` on the copies of `tests`, the array of which is freed at the end. -/
def runCopies (R : TestRecords τ ω) (argv : List CStr) (tests : List τ)
    (s : TestingState τ ω) : Except (Stop τ ω) (RunResult τ ω × TestingState τ ω) := do
  let (result, s) ← u7TestingRun argv (tests.map R.copy) s.newArray
  .ok (result, s.freeArray)

section Call

variable [Fintype τ] {env : TestingEnv τ} {s : TestingState τ ω} {xs : List τ}

theorem registered_eq (h : Chain s.next s.head xs) : s.registered = .ok xs := by
  rw [TestingState.registered, follow_eq_some_iff.mpr h]

/-- **A call** refuses, for one of four reasons, or runs the copies of the sorted tests. -/
theorem u7TestingRunRegistered_cases (R : TestRecords τ ω) (argv : List CStr)
    (hchain : Chain s.next s.head xs) (hsorts : Sorts env.qsort) :
    ((xs = [] ∨ env.allocatesIndex = false ∨ ¬ (xs.map R.name).Nodup ∨
        env.allocatesSorted = false) ∧
      ∃ text, u7TestingRunRegistered R env argv s = .ok (.refused, s.fprintf text)) ∨
    ((xs ≠ [] ∧ env.allocatesIndex = true ∧ (xs.map R.name).Nodup ∧
        env.allocatesSorted = true) ∧
      u7TestingRunRegistered R env argv s =
        runCopies R argv (env.qsort R.compareCases xs) s) := by
  rw [u7TestingRunRegistered, registered_eq hchain, ok_bind]
  by_cases hempty : xs = []
  · exact .inl ⟨.inl hempty, _, by rw [hempty]; rfl⟩
  rw [if_neg (mt List.length_eq_zero_iff.mp hempty)]
  by_cases hindex : env.allocatesIndex = false
  · rw [if_pos hindex]
    exact .inl ⟨.inr (.inl hindex), _, rfl⟩
  have hchain' : Chain s.newArray.next s.newArray.head xs := hchain
  have hperm := hsorts.perm_of_compares (compares_compareCases R) xs
  have hadjacent : adjacent (fun lhs rhs => strcmp (R.name lhs) (R.name rhs) == 0)
      (env.qsort R.compareCases xs) = none ↔ _ :=
    adjacent_eq_none_iff (fun x y => by rw [beq_iff_eq, strcmp_eq_zero_iff])
      (hsorts.pairwise_le (compares_compareCases R) xs)
  rw [(hperm.map R.name).nodup_iff] at hadjacent
  rw [if_neg hindex]
  simp only [registered_eq hchain', ok_bind]
  cases hcase : adjacent (fun lhs rhs => strcmp (R.name lhs) (R.name rhs) == 0)
      (env.qsort R.compareCases xs) with
  | some test =>
      refine .inl ⟨.inr (.inr (.inl fun hnodup => ?_)), _, rfl⟩
      rw [hadjacent.mpr hnodup] at hcase
      cases hcase
  | none =>
      have hnodup := hadjacent.mp hcase
      by_cases hsorted : env.allocatesSorted = false
      · refine .inl ⟨.inr (.inr (.inr hsorted)),
          ascii "u7_testing: cannot allocate sorted test list\n", ?_⟩
        dsimp only
        rw [if_pos hsorted]
        rfl
      · refine .inr ⟨⟨hempty, Bool.eq_true_of_not_eq_false hindex, hnodup,
          Bool.eq_true_of_not_eq_false hsorted⟩, ?_⟩
        dsimp only
        rw [if_neg hsorted]
        rfl

end Call

/-! ### The registered set decides -/

/-- Registering tests, one after another. -/
def registerAll [DecidableEq τ] (order : List τ) (s : TestingState τ ω) : TestingState τ ω :=
  order.foldl (fun s test => u7TestingRegister test s) s

/-- The registry holds the tests that were registered in this order: the last comes
first. -/
def TestingState.Holds (s : TestingState τ ω) (order : List τ) : Prop :=
  Chain s.next s.head order.reverse

/-- The body of a registered test returns and does not register tests. -/
def TestRecords.LeavesRegistry (R : TestRecords τ ω) (test : τ) : Prop :=
  ∀ s, ∃ s', R.fn test s = .ok s' ∧ s'.head = s.head ∧ s'.next = s.next

/-- Both allocations succeed. -/
def TestingEnv.Allocates (env : TestingEnv τ) : Prop :=
  env.allocatesIndex = true ∧ env.allocatesSorted = true

/-- What a call returns, runs and lists when `tests` are the registered tests by name. -/
def TestRecords.Outcome (R : TestRecords τ ω) (argv : List CStr) (tests : List τ)
    (result : RunResult τ ω) : Prop :=
  (∀ items, argv.tail = arguments items → result = (options items).result (tests.map R.copy)) ∧
    (¬ Accepted argv.tail → result = .refused)

theorem TestRecords.Outcome.unique {R : TestRecords τ ω} {argv : List CStr} {tests : List τ}
    {result result' : RunResult τ ω} (h : R.Outcome argv tests result)
    (h' : R.Outcome argv tests result') : result = result' := by
  by_cases haccepted : Accepted argv.tail
  · obtain ⟨items, hitems⟩ := haccepted
    rw [h.1 items hitems, h'.1 items hitems]
  · rw [h.2 haccepted, h'.2 haccepted]

section Registered

variable {R : TestRecords τ ω} {argv : List CStr} {s : TestingState τ ω} {order : List τ}

theorem holds_registerAll [DecidableEq τ] {registered : List τ} (h : s.Holds registered)
    (hnodup : (registered ++ order).Nodup) :
    (registerAll order s).Holds (registered ++ order) := by
  induction order generalizing registered s with
  | nil => rwa [List.append_nil]
  | cons test order ih =>
      have happend : registered ++ test :: order = (registered ++ [test]) ++ order := by
        simp
      rw [happend] at hnodup ⊢
      refine ih ?_ hnodup
      rw [TestingState.Holds, List.reverse_append]
      have hregistered := List.nodup_append.mp (List.nodup_append.mp hnodup).1
      refine Chain.push h fun hmem => ?_
      exact hregistered.2.2 test (List.mem_reverse.mp hmem) test List.mem_cons_self rfl

variable [Fintype τ] {env : TestingEnv τ}

/-- Otherwise it runs copies of the tests in the order of their names, in whatever order
they were registered. -/
theorem runs_by_name (argv : List CStr) {tests : List τ} (hperm : tests.Perm order)
    (hbyName : tests.Pairwise fun x y => R.name x < R.name y) (hne : order ≠ [])
    (hsorts : Sorts env.qsort) (hallocates : env.Allocates) (hs : s.Holds order) :
    u7TestingRunRegistered R env argv s = runCopies R argv tests s := by
  have hnodup : (tests.map R.name).Nodup :=
    List.pairwise_map.mpr (hbyName.imp fun h => h.ne)
  have hnodup' : (order.reverse.map R.name).Nodup :=
    ((hperm.trans (List.reverse_perm _).symm).map R.name).nodup_iff.mp hnodup
  rcases u7TestingRunRegistered_cases R argv hs hsorts with
    ⟨hrefused, -⟩ | ⟨-, hrun⟩
  · rcases hrefused with hempty | hindex | hdup | hsorted
    · exact absurd (List.reverse_eq_nil_iff.mp hempty) hne
    · exact absurd (hindex.symm.trans hallocates.1) Bool.false_ne_true
    · exact absurd hnodup' hdup
    · exact absurd (hsorted.symm.trans hallocates.2) Bool.false_ne_true
  · have hqsort := hsorts.perm_of_compares (compares_compareCases R) order.reverse
    have hle := hsorts.pairwise_le (compares_compareCases R) order.reverse
    have hnodupSorted := (hqsort.map R.name).nodup_iff.mpr hnodup'
    rw [hrun, eq_of_pairwise_lt (hqsort.trans ((List.reverse_perm _).trans hperm.symm))
      (pairwise_lt_of_pairwise_le hle hnodupSorted) hbyName]

omit [Fintype τ] in
/-- The arrangement by name. -/
theorem exists_by_name (R : TestRecords τ ω) {order : List τ} (hnodup : (order.map R.name).Nodup) :
    ∃ tests : List τ, tests.Perm order ∧ tests.Pairwise fun x y => R.name x < R.name y := by
  have hperm := sorts_insertionSort.perm_of_compares (compares_compareCases R) order
  refine ⟨_, hperm, pairwise_lt_of_pairwise_le
    (sorts_insertionSort.pairwise_le (compares_compareCases R) order) ?_⟩
  exact (hperm.map R.name).nodup_iff.mpr hnodup

end Registered

/-- Nothing was registered or printed yet. -/
def TestingState.start {τ ω : Type} (world : ω) : TestingState τ ω where
  currentName := none
  head := none
  next := fun _ => none
  arrays := 0
  stdout := []
  stderr := []
  world := world

/-- Three tests whose bodies do nothing. -/
def threeTests : TestRecords (Fin 3) Unit where
  name := ![.lit "b", .lit "ab", .lit "a"]
  fn := fun _ s => .ok s

/-- Both allocations succeed, and `qsort` is an insertion sort. -/
def calmTestingEnv : TestingEnv (Fin 3) where
  allocatesIndex := true
  allocatesSorted := true
  qsort := fun cmp xs => xs.insertionSort fun x y => cmp x y ≤ 0

end U7Init
