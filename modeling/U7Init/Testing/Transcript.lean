import U7Init.Testing.Registered

/-!
# What a Test Binary Prints

The program of `test_testing.c` is a `main` that calls `u7_testing_run_registered`, after
constructors have registered the tests. The bodies of its tests work on the state of the code
under test, and return or fail an assertion, which aborts the process.

Beside it stands what its user is told: tests by name, those that the options select, a line
for each that passes, and a line for the first that fails. There are no links, no arrays and no
variable for the name of the active test in it.

## Main results

* `ends_foldlM_visit`: the loop of the runner against the tests run one after another.
* `seen_u7TestingRun`: a call of the runner shows what its options promise.
* `test_binary_transcript`: what a test binary shows, in whatever order its tests were
  registered.
-/

namespace U7Init

open Outcome IntrusiveList Qsort

variable {τ ω : Type}

/-! ### Test binaries -/

/-- The arguments of `u7_testing_assert_fail`, after formatting. -/
structure FailedAssertion where
  file : CStr
  line : ℤ
  rendered : CStr

/-- What a test does with the state of the code under test: it fails an assertion, or leaves
another state. -/
abbrev Check (ω : Type) := ω → Except FailedAssertion ω

/-- The function of a `U7_TEST`. -/
def Check.fn (check : Check ω) (s : TestingState τ ω) :
    Except (Stop τ ω) (TestingState τ ω) :=
  match check s.world with
  | .ok world => .ok { s with world := world }
  | .error a => u7TestingAssertFail a.file a.line a.rendered s

/-- The static records of the `U7_TEST`s. -/
def testRecords (name : τ → CStr) (check : τ → Check ω) : TestRecords τ ω where
  name := name
  fn := fun test => (check test).fn

/-- The process: constructors register the tests, and `main` runs them. -/
def testBinary [DecidableEq τ] [Fintype τ] (R : TestRecords τ ω) (env : TestingEnv τ)
    (registered : List τ) (argv : List CStr) (world : ω) :
    Except (Stop τ ω) (RunResult τ ω × TestingState τ ω) :=
  u7TestingRunRegistered R env argv (registerAll registered (.start world))

/-- What is seen of a process: the exit status, unless it was aborted, and its output. -/
structure Transcript where
  status : Option ℤ
  stdout : List (List UInt8)
  stderr : List (List UInt8)

/-- The transcript, unless the behaviour is undefined. -/
def seen : Except (Stop τ ω) (RunResult τ ω × TestingState τ ω) → Option Transcript
  | .ok (result, s) => some ⟨some result.code, s.stdout, s.stderr⟩
  | .error (.abort s) => some ⟨none, s.stdout, s.stderr⟩
  | .error (.fault _) => none

/-! ### What the user is told -/

/-- Named tests, in the order in which they run. -/
abbrev Suite (ω : Type) := List (CStr × Check ω)

/-- The tests run one after another, up to the first that fails: the names of those that pass,
and the test that fails or the state that is left. -/
def Suite.run : Suite ω → ω → List CStr × Except (CStr × FailedAssertion) ω
  | [], world => ([], .ok world)
  | (name, check) :: suite, world =>
      match check world with
      | .ok world => (name :: (Suite.run suite world).1, (Suite.run suite world).2)
      | .error a => ([], .error (name, a))

/-- The line for a test that passes. -/
def passLine (name : CStr) : List UInt8 :=
  ascii "[ PASS ] " ++ name.bytes ++ ascii "\n"

/-- The line for a test that fails. -/
def failLine (name : CStr) (a : FailedAssertion) : List UInt8 :=
  a.file.bytes ++ ascii ":" ++ ascii (toString a.line) ++ ascii ": " ++ name.bytes ++
    ascii ": " ++ a.rendered.bytes.take 1023 ++ ascii "\n"

/-- The line for a filter that selects nothing. -/
def noMatchLine (text : CStr) : List UInt8 :=
  ascii "u7_testing: no tests match filter: " ++ text.bytes ++ ascii "\n"

/-- The tests that the options select. -/
def Options.selectSuite (o : Options) (suite : Suite ω) : Suite ω :=
  suite.filter fun test => Selects o.filter test.1

/-- The transcript that ends with a complaint if a filter selects nothing. -/
def Options.finish (o : Options) (selected : Suite ω) (stdout : List (List UInt8)) :
    Transcript :=
  match o.filter, selected with
  | some text, [] => ⟨some 2, stdout, [noMatchLine text]⟩
  | _, _ => ⟨some 0, stdout, []⟩

/-- What a binary with these tests shows. -/
def Options.transcript (o : Options) (suite : Suite ω) (world : ω) : Transcript :=
  let selected := o.selectSuite suite
  if o.list then o.finish selected (selected.map fun test => test.1.bytes ++ ascii "\n")
  else
    match selected.run world with
    | (passed, .ok _) => o.finish selected (passed.map passLine)
    | (passed, .error (name, a)) => ⟨none, passed.map passLine, [failLine name a]⟩

/-- The tests with their names. -/
def suiteOf (name : τ → CStr) (check : τ → Check ω) (tests : List τ) : Suite ω :=
  tests.map fun test => (name test, check test)

/-- The transcript of a binary that refuses to run anything. -/
def complaint (line : List UInt8) : Transcript :=
  ⟨some 2, [], [line]⟩

/-- What a binary shows whose tests are those of `order`. The two `Bool`s say whether its
allocations succeed. -/
inductive Shows (name : τ → CStr) (check : τ → Check ω) (order : List τ) (argv : List CStr)
    (world : ω) : Bool → Bool → Transcript → Prop
  /-- There are no tests. -/
  | empty {index sorted : Bool} : order = [] →
      Shows name check order argv world index sorted
        (complaint (ascii "u7_testing: no tests registered\n"))
  /-- There is no memory for the pointers to the tests. -/
  | noIndex {sorted : Bool} : order ≠ [] →
      Shows name check order argv world false sorted
        (complaint (ascii "u7_testing: cannot allocate registered test index\n"))
  /-- Names occur twice, and this is the least of them. -/
  | twice {sorted : Bool} (twice : CStr) :
      IsLeast {n | List.Duplicate n (order.map name)} twice →
      Shows name check order argv world true sorted
        (complaint (ascii "u7_testing: duplicate test name: " ++ twice.bytes ++ ascii "\n"))
  /-- There is no memory for the copies of the tests. -/
  | noSorted : order ≠ [] → (order.map name).Nodup →
      Shows name check order argv world true false
        (complaint (ascii "u7_testing: cannot allocate sorted test list\n"))
  /-- The arguments are accepted: the tests are taken by name. -/
  | ran {tests : List τ} {items : List Item} : order ≠ [] → tests.Perm order →
      tests.Pairwise (fun x y => name x < name y) → argv.tail = arguments items →
      Shows name check order argv world true true
        ((options items).transcript (suiteOf name check tests) world)
  /-- After some items an argument follows that no item begins with. -/
  | refused (items : List Item) (argument : CStr) (rest : List CStr) : order ≠ [] →
      (order.map name).Nodup → argv.tail = arguments items ++ argument :: rest →
      Stray argument rest →
      Shows name check order argv world true true
        (complaint (ascii "u7_testing: unknown argument: " ++ argument.bytes ++ ascii "\n"))

/-! ### The runner -/

section Run

variable {o : Options} {suite : Suite ω} {argv : List CStr} {s : TestingState τ ω}

/-- The test as the runner gets it. -/
def testCase (test : CStr × Check ω) : TestCase τ ω where
  name := test.1
  fn := test.2.fn
  next := none

theorem select_testCase (o : Options) (suite : Suite ω) :
    o.select (suite.map (testCase (τ := τ))) = (o.selectSuite suite).map testCase :=
  List.filter_map

/-- What has become of a state in which tests were run. -/
def Ends (s : TestingState τ ω) (r : List CStr × Except (CStr × FailedAssertion) ω) :
    Except (Stop τ ω) (TestingState τ ω) → Prop
  | .ok s' => s'.stdout = s.stdout ++ r.1.map passLine ∧ s'.stderr = s.stderr ∧
      r.2 = .ok s'.world
  | .error (.abort s') => ∃ name a, r.2 = .error (name, a) ∧
      s'.stdout = s.stdout ++ r.1.map passLine ∧ s'.stderr = s.stderr ++ [failLine name a]
  | .error (.fault _) => False

/-- A test has passed, and printed its line. -/
theorem Ends.pass {s s₁ : TestingState τ ω} {r : List CStr × Except (CStr × FailedAssertion) ω}
    {x : Except (Stop τ ω) (TestingState τ ω)} {name : CStr}
    (h : Ends s₁ r x) (hstdout : s₁.stdout = s.stdout ++ [passLine name])
    (hstderr : s₁.stderr = s.stderr) : Ends s (name :: r.1, r.2) x := by
  have happend : ∀ lines, s₁.stdout ++ lines = s.stdout ++ passLine name :: lines := by
    intro lines
    rw [hstdout, List.append_assoc]
    rfl
  cases x with
  | ok s' =>
      obtain ⟨hout, herr, hworld⟩ := h
      exact ⟨hout.trans (happend _), herr.trans hstderr, hworld⟩
  | error stop =>
      cases stop with
      | fault f => exact h.elim
      | abort s' =>
          obtain ⟨failed, a, hfailed, hout, herr⟩ := h
          exact ⟨failed, a, hfailed, hout.trans (happend _), herr.trans (by rw [hstderr])⟩

/-- **The loop over the selected tests** prints a line for each that passes, and stops at the
first that fails, the name of which it reports. -/
theorem ends_foldlM_visit (hlist : ¬ o.list = true) (suite : Suite ω) (s : TestingState τ ω) :
    Ends s (suite.run s.world) ((suite.map testCase).foldlM o.visit s) := by
  induction suite generalizing s with
  | nil => exact ⟨(List.append_nil _).symm, rfl, rfl⟩
  | cons test suite ih =>
      obtain ⟨name, check⟩ := test
      have hvisit : o.visit s (testCase (name, check)) =
          check.fn (s.setCurrentName (some name)) >>= fun s => .ok (s.printf (passLine name)) :=
        if_neg hlist
      rw [List.map_cons, List.foldlM_cons, hvisit, Suite.run, Check.fn]
      -- the body sees the same state of the code under test
      rw [show (s.setCurrentName (some name)).world = s.world from rfl]
      cases check s.world with
      | error a => exact ⟨name, a, rfl, (List.append_nil _).symm, rfl⟩
      | ok world =>
          have hrest := ih (({ s.setCurrentName (some name) with world := world } :
            TestingState τ ω).printf (passLine name))
          exact hrest.pass rfl rfl

/-- What is left when all selected tests have been taken. -/
theorem seen_finishRun (o : Options) (suite : Suite ω) (s : TestingState τ ω)
    (hstderr : s.stderr = []) :
    seen (.ok (o.result (suite.map testCase),
        (finishRun o (Progress.add ⟨0, [], []⟩ o (suite.map testCase)) s).2)) =
      some (o.finish (o.selectSuite suite) s.stdout) := by
  have hselect := select_testCase (τ := τ) o suite
  obtain ⟨filter, list⟩ := o
  cases filter with
  | none =>
      simp [seen, Options.result, finishRun, Options.finish, TestingState.setCurrentName, hstderr]
  | some text =>
      cases hselected : Options.selectSuite ⟨some text, list⟩ suite with
      | nil =>
          rw [hselected, List.map_nil] at hselect
          simp [seen, Options.result, finishRun, Options.finish, Progress.add, hselect,
            TestingState.setCurrentName, TestingState.fprintf, hstderr, noMatchLine]
      | cons test selected =>
          rw [hselected, List.map_cons] at hselect
          simp [seen, Options.result, finishRun, Options.finish, Progress.add, hselect,
            TestingState.setCurrentName, hstderr]

/-- **A call of the runner** shows what its options promise. -/
theorem seen_u7TestingRun {items : List Item} (hitems : argv.tail = arguments items)
    (suite : Suite ω) (s : TestingState τ ω) (hstdout : s.stdout = []) (hstderr : s.stderr = []) :
    seen (u7TestingRun argv (suite.map testCase) s) =
      some ((options items).transcript suite s.world) := by
  rw [u7TestingRun_eq_foldlM hitems, select_testCase, Options.transcript]
  by_cases hlist : (options items).list = true
  · rw [foldlM_visit_of_list hlist, ok_bind, if_pos hlist]
    refine (seen_finishRun (options items) suite _ ?_).trans ?_
    · exact hstderr
    · simp only [hstdout, List.nil_append, List.map_map]
      rfl
  · rw [if_neg hlist]
    have hends := ends_foldlM_visit hlist ((options items).selectSuite suite) s
    cases hfold : (((options items).selectSuite suite).map testCase).foldlM
        (options items).visit s with
    | ok s' =>
        rw [hfold] at hends
        obtain ⟨hout, herr, hworld⟩ := hends
        rw [ok_bind, seen_finishRun _ _ _ (herr.trans hstderr), hout, hstdout, List.nil_append]
        generalize ((options items).selectSuite suite).run s.world = r at hworld
        obtain ⟨passed, ending⟩ := r
        subst hworld
        rfl
    | error stop =>
        rw [hfold] at hends
        cases stop with
        | fault f => exact hends.elim
        | abort s' =>
            obtain ⟨name, a, hfailed, hout, herr⟩ := hends
            rw [hstdout, List.nil_append] at hout
            rw [hstderr, List.nil_append] at herr
            generalize ((options items).selectSuite suite).run s.world = r at hfailed hout
            obtain ⟨passed, ending⟩ := r
            subst hfailed
            dsimp only at hout ⊢
            rw [← hout, ← herr]
            rfl

/-- Arguments that are not accepted. -/
theorem seen_of_not_accepted (hnot : ¬ Accepted argv.tail) :
    ∃ items argument rest, argv.tail = arguments items ++ argument :: rest ∧
      Stray argument rest ∧ ∀ (tests : List (TestCase τ ω)) (s : TestingState τ ω),
        s.stdout = [] → s.stderr = [] → seen (u7TestingRun argv tests s) = some (complaint
          (ascii "u7_testing: unknown argument: " ++ argument.bytes ++ ascii "\n")) := by
  obtain ⟨argument, hparse⟩ := parseArguments_of_not_accepted hnot
  obtain ⟨items, rest, hsplit, hstray⟩ := stray_of_parseArguments hparse
  rw [List.drop_one] at hsplit
  refine ⟨items, argument, rest, hsplit, hstray, fun tests s hstdout hstderr => ?_⟩
  rw [u7TestingRun, hparse]
  simp [seen, complaint, RunResult.refused, TestingState.fprintf, hstdout, hstderr]

end Run

/-! ### The process -/

section Binary

variable {name : τ → CStr} {check : τ → Check ω} {argv : List CStr} {s : TestingState τ ω}

/-- Running copies is seen as running them from an array that nobody has to free. -/
theorem seen_runCopies (R : TestRecords τ ω) (argv : List CStr) (tests : List τ)
    (s : TestingState τ ω) :
    seen (runCopies R argv tests s) = seen (u7TestingRun argv (tests.map R.copy) s.newArray) := by
  rw [runCopies]
  cases u7TestingRun argv (tests.map R.copy) s.newArray with
  | ok r => rfl
  | error stop => rfl

theorem map_copy_testRecords (tests : List τ) :
    tests.map (testRecords name check).copy = (suiteOf name check tests).map testCase := by
  rw [suiteOf, List.map_map]
  rfl

/-- What registering tests does not touch. -/
theorem registerAll_unprinted [DecidableEq τ] (tests : List τ) (s : TestingState τ ω) :
    (registerAll tests s).stdout = s.stdout ∧ (registerAll tests s).stderr = s.stderr ∧
      (registerAll tests s).world = s.world := by
  induction tests generalizing s with
  | nil => exact ⟨rfl, rfl, rfl⟩
  | cons test tests ih => exact ih (u7TestingRegister test s)

variable [Fintype τ] {env : TestingEnv τ} {order : List τ}

/-- Without tests the process says so. -/
theorem seen_of_empty (R : TestRecords τ ω) (hs : s.Holds []) (hstdout : s.stdout = [])
    (hstderr : s.stderr = []) :
    seen (u7TestingRunRegistered R env argv s) =
      some (complaint (ascii "u7_testing: no tests registered\n")) := by
  rw [u7TestingRunRegistered, registered_eq hs, ok_bind]
  simp [seen, complaint, RunResult.refused, TestingState.fprintf, hstdout, hstderr]

/-- Without memory for the pointers it says that. -/
theorem seen_of_noIndex (R : TestRecords τ ω) (hne : order ≠ [])
    (hindex : env.allocatesIndex = false) (hs : s.Holds order) (hstdout : s.stdout = [])
    (hstderr : s.stderr = []) :
    seen (u7TestingRunRegistered R env argv s) =
      some (complaint (ascii "u7_testing: cannot allocate registered test index\n")) := by
  rw [u7TestingRunRegistered, registered_eq hs, ok_bind, if_neg (by simpa using hne),
    if_pos hindex]
  simp [seen, complaint, RunResult.refused, TestingState.fprintf, hstdout, hstderr]

/-- Without memory for the copies it says that, if all names differ. -/
theorem seen_of_noSorted (R : TestRecords τ ω) (hsorts : Sorts env.qsort) (hne : order ≠ [])
    (hindex : env.allocatesIndex = true) (hsorted : env.allocatesSorted = false)
    (hs : s.Holds order) (hstdout : s.stdout = []) (hstderr : s.stderr = [])
    (hnodup : (order.map R.name).Nodup) :
    seen (u7TestingRunRegistered R env argv s) =
      some (complaint (ascii "u7_testing: cannot allocate sorted test list\n")) := by
  have hperm := (hsorts.perm_of_compares (compares_compareCases R) order.reverse).trans
    (List.reverse_perm order)
  have hnone : adjacent (fun lhs rhs => strcmp (R.name lhs) (R.name rhs) == 0)
      (env.qsort R.compareCases order.reverse) = none :=
    (adjacent_eq_none_iff (fun x y => by rw [beq_iff_eq, strcmp_eq_zero_iff])
      (hsorts.pairwise_le (compares_compareCases R) order.reverse)).mpr
      ((hperm.map R.name).nodup_iff.mpr hnodup)
  have hs' : Chain s.newArray.next s.newArray.head order.reverse := hs
  rw [u7TestingRunRegistered, registered_eq hs, ok_bind, if_neg (by simpa using hne),
    if_neg (by simp [hindex])]
  simp only [registered_eq hs', ok_bind, hnone, if_pos hsorted]
  simp [seen, complaint, RunResult.refused, TestingState.fprintf, TestingState.newArray,
    TestingState.freeArray, hstdout, hstderr]

/-- If a name occurs twice, it says which: the least one. -/
theorem seen_of_duplicate (R : TestRecords τ ω) (hsorts : Sorts env.qsort)
    (hallocates : env.allocatesIndex = true) (hs : s.Holds order) (hstdout : s.stdout = [])
    (hstderr : s.stderr = []) (hdup : ¬ (order.map R.name).Nodup) :
    ∃ twice, IsLeast {n | List.Duplicate n (order.map R.name)} twice ∧
      seen (u7TestingRunRegistered R env argv s) = some (complaint
        (ascii "u7_testing: duplicate test name: " ++ twice.bytes ++ ascii "\n")) := by
  have heq : ∀ x y, (strcmp (R.name x) (R.name y) == 0) = true ↔ R.name x = R.name y := by
    intro x y
    rw [beq_iff_eq, strcmp_eq_zero_iff]
  have hle := hsorts.pairwise_le (compares_compareCases R) order.reverse
  have hperm := (hsorts.perm_of_compares (compares_compareCases R) order.reverse).trans
    (List.reverse_perm order)
  have hne : order.reverse ≠ [] := by
    rintro hempty
    rw [List.reverse_eq_nil_iff.mp hempty] at hdup
    exact hdup List.nodup_nil
  have hs' : Chain s.newArray.next s.newArray.head order.reverse := hs
  have hindex : ¬ env.allocatesIndex = false := by simp [hallocates]
  rw [u7TestingRunRegistered, registered_eq hs, ok_bind,
    if_neg (mt List.length_eq_zero_iff.mp hne), if_neg hindex]
  simp only [registered_eq hs', ok_bind]
  cases hcase : adjacent (fun lhs rhs => strcmp (R.name lhs) (R.name rhs) == 0)
      (env.qsort R.compareCases order.reverse) with
  | none =>
      refine absurd ((hperm.map R.name).nodup_iff.mp ?_) hdup
      exact (adjacent_eq_none_iff heq hle).mp hcase
  | some test =>
      obtain ⟨-, hleast⟩ := isLeast_of_adjacent heq hle hcase
      refine ⟨R.name test, by simpa only [duplicate_perm_iff hperm] using hleast, ?_⟩
      simp [seen, complaint, RunResult.refused, TestingState.fprintf, TestingState.newArray,
        TestingState.freeArray, hstdout, hstderr]

/-- **Otherwise** it shows what its options promise, or refuses its arguments. -/
theorem seen_of_valid {tests : List τ} (hperm : tests.Perm order)
    (hbyName : tests.Pairwise fun x y => name x < name y) (hne : order ≠ [])
    (hsorts : Sorts env.qsort) (hallocates : env.Allocates) (hs : s.Holds order)
    (hstdout : s.stdout = []) (hstderr : s.stderr = []) {items : List Item}
    (hitems : argv.tail = arguments items) :
    seen (u7TestingRunRegistered (testRecords name check) env argv s) =
      some ((options items).transcript (suiteOf name check tests) s.world) := by
  rw [runs_by_name argv hperm hbyName hne hsorts hallocates hs, seen_runCopies,
    map_copy_testRecords]
  exact seen_u7TestingRun hitems _ s.newArray hstdout hstderr

end Binary

/-- What `main` finds when the constructors have run. -/
theorem registerAll_start {τ ω : Type} [DecidableEq τ] {registered : List τ}
    (hnodup : registered.Nodup) (world : ω) :
    (registerAll registered (.start world)).Holds registered ∧
      (registerAll registered (.start world)).stdout = [] ∧
      (registerAll registered (.start world)).stderr = [] ∧
      (registerAll registered (.start world)).world = world := by
  have hempty : (TestingState.start world : TestingState τ ω).Holds [] := .nil
  obtain ⟨hout, herr, hworld⟩ := registerAll_unprinted registered
    (TestingState.start world : TestingState τ ω)
  exact ⟨holds_registerAll hempty hnodup, hout, herr, hworld⟩

/-- The complaint about a name that occurs twice is the same in every order of registration. -/
theorem testBinary_of_duplicate {τ ω : Type} [DecidableEq τ] [Fintype τ] {name : τ → CStr}
    {order registered : List τ} (check : τ → Check ω) (argv : List CStr) (world : ω)
    (env : TestingEnv τ) (hnodup : order.Nodup) (hperm : registered.Perm order)
    (hsorts : Sorts env.qsort) (hindex : env.allocatesIndex = true)
    (hnames : ¬ (order.map name).Nodup) :
    ∃ twice, IsLeast {n | List.Duplicate n (order.map name)} twice ∧
      seen (testBinary (testRecords name check) env registered argv world) =
        some (complaint (ascii "u7_testing: duplicate test name: " ++ twice.bytes ++
          ascii "\n")) := by
  obtain ⟨hs, hout, herr, -⟩ := registerAll_start (hperm.nodup_iff.mpr hnodup) world
  have hdup : ¬ (registered.map name).Nodup :=
    fun h => hnames ((hperm.map name).nodup_iff.mp h)
  have hsame : {n | List.Duplicate n (registered.map name)} =
      {n | List.Duplicate n (order.map name)} := Set.ext (duplicate_perm_iff hperm)
  rw [testBinary, ← hsame]
  exact seen_of_duplicate (testRecords name check) hsorts hindex hs hout herr hdup

/-- **What a test binary shows.** Let a binary have some tests. In whatever order the
constructors register the tests, and whatever `qsort` does with equal keys, one transcript is
seen, which depends on whether the two allocations of the runner succeed. Without tests, if two
tests have one name, and if an allocation fails, it is a complaint, which names the least name
that occurs twice. Otherwise, if the arguments are accepted, it is that of the selected tests in
the order of their names: each line of `stdout` is for a test that passes when it starts from
the state that the one before it left, and if a test fails its assertion is reported under its
name, and no later test is run. -/
theorem test_binary_transcript {τ ω : Type} [DecidableEq τ] [Fintype τ] (name : τ → CStr)
    (check : τ → Check ω) (order : List τ) (hnodup : order.Nodup) (argv : List CStr) (world : ω)
    (index sorted : Bool) :
    ∃ transcript, Shows name check order argv world index sorted transcript ∧
      ∀ (registered : List τ) (env : TestingEnv τ), registered.Perm order → Sorts env.qsort →
        env.allocatesIndex = index → env.allocatesSorted = sorted →
        seen (testBinary (testRecords name check) env registered argv world) =
          some transcript := by
  have hstart : ∀ {registered : List τ}, registered.Perm order → _ := fun hperm =>
    registerAll_start (hperm.nodup_iff.mpr hnodup) world
  by_cases hempty : order = []
  · refine ⟨_, .empty hempty, fun registered env hperm _ _ _ => ?_⟩
    obtain ⟨hs, hout, herr, -⟩ := hstart hperm
    obtain rfl := (hempty ▸ hperm).eq_nil
    exact seen_of_empty _ hs hout herr
  have hne : ∀ {registered : List τ}, registered.Perm order → registered ≠ [] :=
    fun hperm h => hempty (h ▸ hperm).symm.eq_nil
  cases index with
  | false =>
      refine ⟨_, .noIndex hempty, fun registered env hperm _ hindex _ => ?_⟩
      obtain ⟨hs, hout, herr, -⟩ := hstart hperm
      exact seen_of_noIndex _ (hne hperm) hindex hs hout herr
  | true =>
  by_cases hnames : (order.map name).Nodup
  · cases sorted with
    | false =>
        refine ⟨_, .noSorted hempty hnames, fun registered env hperm hsorts hindex hsorted => ?_⟩
        obtain ⟨hs, hout, herr, -⟩ := hstart hperm
        exact seen_of_noSorted _ hsorts (hne hperm) hindex hsorted hs hout herr
          ((hperm.map name).nodup_iff.mpr hnames)
    | true =>
    obtain ⟨tests, hsorted, hbyName⟩ := exists_by_name (testRecords name check) hnames
    have hsorted' : ∀ {registered : List τ}, registered.Perm order → tests.Perm registered :=
      fun hperm => hsorted.trans hperm.symm
    by_cases haccepted : Accepted argv.tail
    · obtain ⟨items, hitems⟩ := haccepted
      refine ⟨_, .ran hempty hsorted hbyName hitems,
        fun registered env hperm hsorts hindex hcopies => ?_⟩
      obtain ⟨hs, hout, herr, hworld⟩ := hstart hperm
      refine (seen_of_valid (hsorted' hperm) hbyName (hne hperm) hsorts ⟨hindex, hcopies⟩ hs hout
        herr hitems).trans ?_
      rw [hworld]
      rfl
    · obtain ⟨items, argument, rest, hsplit, hstray, hseen⟩ :=
        seen_of_not_accepted (τ := τ) (ω := ω) haccepted
      refine ⟨_, .refused items argument rest hempty hnames hsplit hstray,
        fun registered env hperm hsorts hindex hcopies => ?_⟩
      obtain ⟨hs, hout, herr, -⟩ := hstart hperm
      rw [testBinary, runs_by_name argv (hsorted' hperm) hbyName (hne hperm) hsorts
        ⟨hindex, hcopies⟩ hs, seen_runCopies]
      exact hseen _ _ hout herr
  · -- any environment shows which name is reported
    obtain ⟨twice, htwice, -⟩ := testBinary_of_duplicate check argv world
      ⟨true, true, fun cmp xs => xs.insertionSort fun x y => cmp x y ≤ 0⟩ hnodup
      (List.Perm.refl _) sorts_insertionSort rfl hnames
    refine ⟨_, .twice twice htwice, fun registered env hperm hsorts hindex _ => ?_⟩
    obtain ⟨twice', htwice', hseen⟩ :=
      testBinary_of_duplicate check argv world env hnodup hperm hsorts hindex hnames
    obtain rfl := htwice'.unique htwice
    exact hseen

/-- The assertion of a test that expects to be the first. -/
def expectsToBeFirst : FailedAssertion where
  file := .lit "test.c"
  line := 7
  rendered := .lit "assertion failed: runs == 0"

/-- The tests `b`, `ab` and `a` count how many of them have run, and `b` expects none. -/
def countingChecks : Fin 3 → Check ℕ :=
  ![fun runs => if runs = 0 then .ok 1 else .error expectsToBeFirst,
    fun runs => .ok (runs + 1), fun runs => .ok (runs + 1)]

/-- Registered first, `b` is run last, and fails. -/
theorem test_binary_transcript_counting :
    seen (testBinary (testRecords threeTests.name countingChecks) calmTestingEnv [0, 1, 2]
        [.lit "prog"] 0) =
      some ⟨none, [passLine (threeTests.name 2), passLine (threeTests.name 1)],
        [failLine (threeTests.name 0) expectsToBeFirst]⟩ := by
  obtain ⟨transcript, hshows, hseen⟩ := test_binary_transcript threeTests.name countingChecks
    [0, 1, 2] (by decide) [.lit "prog"] 0 true true
  have hnames : ([0, 1, 2].map threeTests.name).Nodup := by decide
  rw [hseen _ _ (List.Perm.refl _) sorts_insertionSort rfl rfl]
  cases hshows with
  | empty hempty => cases hempty
  | twice twice hleast => exact absurd hleast.1 (List.nodup_iff_forall_not_duplicate.mp hnames _)
  | refused items argument rest _ _ hsplit => simp at hsplit
  | @ran tests items _ hperm hbyName hitems =>
      obtain rfl : tests = [2, 1, 0] :=
        eq_of_pairwise_lt (hperm.trans (by decide)) hbyName (by decide)
      obtain rfl : items = [] := arguments_injective hitems.symm
      rfl

end U7Init
