import U7Init.Testing.Arguments

/-!
# The Test Runner

This module models `u7_testing_run` and the failure path of the assertions. A test body is
any function on the state: it may fail an assertion, which ends the process, it may call
the runner again, and it may change whatever the code under test keeps, the `world`.

A call of the runner also says, for the statements only, which tests it ran and which it
listed.

Three things may become of a call: it returns an exit status, an assertion fails, which prints
its report and aborts the process, or it runs into a `Fault`, which is shown not to happen
(`Stop`). Output is a list of texts for each of the two streams, in the order of the calls that
print them; `fflush` has no effect on what is printed at last. The variable with the name of the
active test is part of the state, since tests that call the runner again make it visible.

## Main results

* `runTests_eq_foldlM`: the loop over the tests takes every selected test once, in order.
* `u7TestingRun_of_items`, `u7TestingRun_of_not_accepted`: what a call of the runner
  returns, runs and lists.
* `currentName_of_u7TestingRun`: what it leaves in `u7_testing_current_name`.
-/

namespace U7Init

open Outcome

/-- The static variables of `testing.c` and the `next` fields of the registered tests, how
many arrays the runner has allocated and not freed, what was printed, and the state of the
code under test. -/
structure TestingState (τ ω : Type) where
  currentName : Option CStr
  head : Option τ
  next : τ → Option τ
  arrays : ℕ
  stdout : List (List UInt8)
  stderr : List (List UInt8)
  world : ω

/-- How a computation ends that does not return. -/
inductive Stop (τ ω : Type)
  /-- It has undefined behaviour. -/
  | fault (f : Fault)
  /-- It calls `abort`. -/
  | abort (s : TestingState τ ω)

/-- `struct u7_testing_case`. -/
structure TestCase (τ ω : Type) where
  name : CStr
  fn : TestingState τ ω → Except (Stop τ ω) (TestingState τ ω)
  next : Option τ

/-- The bytes of an ASCII text. -/
def ascii (s : String) : List UInt8 :=
  s.toList.map fun c => UInt8.ofNat c.toNat

variable {τ ω : Type}

/-- A write to `stdout`. -/
def TestingState.printf (s : TestingState τ ω) (text : List UInt8) : TestingState τ ω :=
  { s with stdout := s.stdout ++ [text] }

/-- A write to `stderr`. -/
def TestingState.fprintf (s : TestingState τ ω) (text : List UInt8) : TestingState τ ω :=
  { s with stderr := s.stderr ++ [text] }

/-- An assignment to `u7_testing_current_name`. -/
def TestingState.setCurrentName (s : TestingState τ ω) (name : Option CStr) :
    TestingState τ ω :=
  { s with currentName := name }

/-! ### Failing assertions -/

/-- What a failing assertion reports as the name of the test. -/
def TestingState.reportedName (s : TestingState τ ω) : CStr :=
  match s.currentName with
  | some name => name
  | none => .lit "test"

/-- `u7_testing_fail`. -/
def u7TestingFail {α : Type} (file : CStr) (line : ℤ) (message : List UInt8)
    (s : TestingState τ ω) : Except (Stop τ ω) α :=
  .error <| .abort <| s.fprintf <|
    file.bytes ++ ascii ":" ++ ascii (toString line) ++ ascii ": " ++ s.reportedName.bytes ++
      ascii ": " ++ message ++ ascii "\n"

/-- `u7_testing_assert_fail`, where `rendered` is what the format makes of its arguments:
the buffer has room for 1023 bytes and the terminator. -/
def u7TestingAssertFail {α : Type} (file : CStr) (line : ℤ) (rendered : CStr)
    (s : TestingState τ ω) : Except (Stop τ ω) α :=
  u7TestingFail file line (rendered.bytes.take 1023) s

/-! ### The runner -/

/-- `filter != NULL && strstr(name, filter) == NULL`. -/
def skips (filter : Option CStr) (name : CStr) : Bool :=
  match filter with
  | some filter => (strstr name filter).isNone
  | none => false

/-- The local variable `selected`, and the tests that were run and listed. -/
structure Progress (τ ω : Type) where
  selected : ℕ
  ran : List (TestCase τ ω)
  listed : List (TestCase τ ω)

/-- The loop over the tests. -/
def runTests (o : Options) : List (TestCase τ ω) → Progress τ ω → TestingState τ ω →
    Except (Stop τ ω) (Progress τ ω × TestingState τ ω)
  | [], p, s => .ok (p, s)
  | test :: tests, p, s =>
      if skips o.filter test.name then runTests o tests p s
      else
        let p := { p with selected := p.selected + 1 }
        if o.list then
          runTests o tests { p with listed := p.listed ++ [test] }
            (s.printf (test.name.bytes ++ ascii "\n"))
        else do
          let s ← test.fn (s.setCurrentName (some test.name))
          runTests o tests { p with ran := p.ran ++ [test] }
            (s.printf (ascii "[ PASS ] " ++ test.name.bytes ++ ascii "\n"))

/-- What a call of the runner returns, and the tests that it ran and listed. -/
structure RunResult (τ ω : Type) where
  code : ℤ
  ran : List (TestCase τ ω)
  listed : List (TestCase τ ω)

/-- The runner returns without having looked at a test. -/
def RunResult.refused : RunResult τ ω :=
  ⟨2, [], []⟩

/-- The end of `u7_testing_run`, after the loop over the tests. -/
def finishRun (o : Options) (p : Progress τ ω) (s : TestingState τ ω) :
    RunResult τ ω × TestingState τ ω :=
  let s := s.setCurrentName none
  match o.filter with
  | some filter =>
      if p.selected = 0 then
        (⟨2, p.ran, p.listed⟩,
          s.fprintf (ascii "u7_testing: no tests match filter: " ++ filter.bytes ++ ascii "\n"))
      else (⟨0, p.ran, p.listed⟩, s)
  | none => (⟨0, p.ran, p.listed⟩, s)

/-- `u7_testing_run`. -/
def u7TestingRun (argv : List CStr) (tests : List (TestCase τ ω)) (s : TestingState τ ω) :
    Except (Stop τ ω) (RunResult τ ω × TestingState τ ω) :=
  match parseArguments argv argv.length 1 ⟨none, false⟩ with
  | .error f => .error (.fault f)
  | .ok (.unknown argument) =>
      .ok (.refused,
        s.fprintf (ascii "u7_testing: unknown argument: " ++ argument.bytes ++ ascii "\n"))
  | .ok (.accepted o) => do
      let (p, s) ← runTests o tests ⟨0, [], []⟩ s
      .ok (finishRun o p s)

/-! ### What the runner does -/

/-- The name contains the text of the filter, if there is one. -/
def Selects (filter : Option CStr) (name : CStr) : Prop :=
  ∀ text, filter = some text → text.bytes <:+: name.bytes

theorem skips_eq_false_iff {filter : Option CStr} {name : CStr} :
    skips filter name = false ↔ Selects filter name := by
  cases filter with
  | none => simp [skips, Selects]
  | some text =>
      rw [skips, Option.isNone_eq_false_iff, Option.isSome_iff_ne_none, Ne, strstr_eq_none_iff,
        not_not]
      simp [Selects]

instance (filter : Option CStr) (name : CStr) : Decidable (Selects filter name) :=
  decidable_of_iff _ skips_eq_false_iff

/-- The tests whose names the options select. -/
def Options.select (o : Options) (tests : List (TestCase τ ω)) : List (TestCase τ ω) :=
  tests.filter fun test => Selects o.filter test.name

/-- What a call of the runner with these options has to do: it runs or lists the selected
tests, and returns `2` if a filter selects none. -/
def Options.result (o : Options) (tests : List (TestCase τ ω)) : RunResult τ ω where
  code := if o.filter.isSome ∧ (o.select tests).length = 0 then 2 else 0
  ran := if o.list then [] else o.select tests
  listed := if o.list then o.select tests else []

/-- What the runner does with a selected test: it prints its name, or runs it. -/
def Options.visit (o : Options) (s : TestingState τ ω) (test : TestCase τ ω) :
    Except (Stop τ ω) (TestingState τ ω) :=
  if o.list then .ok (s.printf (test.name.bytes ++ ascii "\n"))
  else do
    let s ← test.fn (s.setCurrentName (some test.name))
    .ok (s.printf (ascii "[ PASS ] " ++ test.name.bytes ++ ascii "\n"))

/-- The progress after further tests. -/
def Progress.add (p : Progress τ ω) (o : Options) (tests : List (TestCase τ ω)) :
    Progress τ ω where
  selected := p.selected + (o.select tests).length
  ran := p.ran ++ (if o.list then [] else o.select tests)
  listed := p.listed ++ (if o.list then o.select tests else [])

/-- The runner itself keeps what does not depend on the current name and on what was
printed. -/
def Stable (I : TestingState τ ω → Prop) : Prop :=
  ∀ s, I s → (∀ text, I (s.printf text)) ∧ (∀ text, I (s.fprintf text)) ∧
    ∀ name, I (s.setCurrentName name)

/-- The body of the test returns and keeps `I`. -/
def TestCase.Returns (I : TestingState τ ω → Prop) (test : TestCase τ ω) : Prop :=
  ∀ s, I s → ∃ s', test.fn s = .ok s' ∧ I s'

section Run

variable {I : TestingState τ ω → Prop} {o : Options} {tests : List (TestCase τ ω)}

theorem select_cons_of_selects {test : TestCase τ ω} (h : Selects o.filter test.name) :
    o.select (test :: tests) = test :: o.select tests := by
  simp [Options.select, h]

theorem select_cons_of_not_selects {test : TestCase τ ω} (h : ¬ Selects o.filter test.name) :
    o.select (test :: tests) = o.select tests := by
  simp [Options.select, h]

/-- Listing a test and going on. -/
theorem Progress.add_cons_of_list (p : Progress τ ω) {test : TestCase τ ω}
    (h : Selects o.filter test.name) (hlist : o.list = true) :
    p.add o (test :: tests) =
      Progress.add ⟨p.selected + 1, p.ran, p.listed ++ [test]⟩ o tests := by
  rw [Progress.add, Progress.add, select_cons_of_selects h, if_pos hlist, if_pos hlist]
  simp [hlist, Nat.add_assoc, Nat.add_comm 1]

/-- Running a test and going on. -/
theorem Progress.add_cons_of_run (p : Progress τ ω) {test : TestCase τ ω}
    (h : Selects o.filter test.name) (hlist : ¬ o.list = true) :
    p.add o (test :: tests) =
      Progress.add ⟨p.selected + 1, p.ran ++ [test], p.listed⟩ o tests := by
  rw [Progress.add, Progress.add, select_cons_of_selects h, if_neg hlist, if_neg hlist]
  simp [hlist, Nat.add_assoc, Nat.add_comm 1]

/-- **The loop over the tests** visits the selected tests, each once and in order,
whatever their bodies do. -/
theorem runTests_eq_foldlM (o : Options) (tests : List (TestCase τ ω)) (p : Progress τ ω)
    (s : TestingState τ ω) :
    runTests o tests p s = (o.select tests).foldlM o.visit s >>= fun s' =>
      .ok (p.add o tests, s') := by
  induction tests generalizing p s with
  | nil => simp [runTests, Progress.add, Options.select, pure, Except.pure]
  | cons test tests ih =>
      rw [runTests]
      by_cases hselects : Selects o.filter test.name
      · rw [skips_eq_false_iff.mpr hselects, if_neg Bool.false_ne_true,
          select_cons_of_selects hselects, List.foldlM_cons, Options.visit]
        by_cases hlist : o.list = true
        · rw [if_pos hlist, if_pos hlist, p.add_cons_of_list hselects hlist, ok_bind]
          exact ih _ _
        · rw [if_neg hlist, if_neg hlist, p.add_cons_of_run hselects hlist]
          cases test.fn (s.setCurrentName (some test.name)) with
          | error stop => rfl
          | ok s' => exact ih _ _
      · have hskips : skips o.filter test.name = true := by
          rwa [← Bool.not_eq_false, skips_eq_false_iff]
        have hadd : p.add o (test :: tests) = p.add o tests := by
          rw [Progress.add, Progress.add, select_cons_of_not_selects hselects]
        rw [if_pos hskips, hadd, select_cons_of_not_selects hselects]
        exact ih p s

/-- Visiting a selected test returns and keeps `I`, if its body does. -/
theorem visit_returns (hstable : Stable I) (hreturns : ∀ test ∈ tests, test.Returns I) :
    ∀ test ∈ o.select tests, ∀ s, I s → ∃ s', o.visit s test = .ok s' ∧ I s' := by
  intro test htest s hs
  rw [Options.visit]
  by_cases hlist : o.list = true
  · exact ⟨_, if_pos hlist, (hstable s hs).1 _⟩
  · obtain ⟨s', hfn, hs'⟩ := hreturns test (List.mem_of_mem_filter htest) _
      ((hstable s hs).2.2 (some test.name))
    rw [if_neg hlist, hfn]
    exact ⟨_, rfl, (hstable s' hs').1 _⟩

/-- With `--list` visiting tests prints their names, and does nothing else. -/
theorem foldlM_visit_of_list (hlist : o.list = true) (tests : List (TestCase τ ω))
    (s : TestingState τ ω) :
    tests.foldlM o.visit s = .ok { s with
      stdout := s.stdout ++ tests.map fun test => test.name.bytes ++ ascii "\n" } := by
  induction tests generalizing s with
  | nil => simp [pure, Except.pure]
  | cons test tests ih =>
      rw [List.foldlM_cons, Options.visit, if_pos hlist, ok_bind, ih]
      simp [TestingState.printf]

theorem finishRun_result (o : Options) (p : Progress τ ω) (s : TestingState τ ω) :
    (finishRun o p s).1 =
      ⟨if o.filter.isSome ∧ p.selected = 0 then 2 else 0, p.ran, p.listed⟩ := by
  obtain ⟨filter, list⟩ := o
  cases filter with
  | none => simp [finishRun]
  | some filter => by_cases hselected : p.selected = 0 <;> simp [finishRun, hselected]

/-- The end of the runner resets the current name, and may print. -/
theorem finishRun_state (o : Options) (p : Progress τ ω) (s : TestingState τ ω) :
    (finishRun o p s).2 = s.setCurrentName none ∨
      ∃ text, (finishRun o p s).2 = (s.setCurrentName none).fprintf text := by
  obtain ⟨filter, list⟩ := o
  cases filter with
  | none => exact .inl rfl
  | some filter =>
      by_cases hselected : p.selected = 0
      · exact .inr ⟨_, by simp only [finishRun, hselected, if_true]; rfl⟩
      · exact .inl (by simp only [finishRun, hselected, if_false])

theorem currentName_finishRun (o : Options) (p : Progress τ ω) (s : TestingState τ ω) :
    (finishRun o p s).2.currentName = none := by
  rcases finishRun_state o p s with h | ⟨text, h⟩ <;> rw [h] <;> rfl

theorem Stable.finishRun (hstable : Stable I) (o : Options) (p : Progress τ ω)
    {s : TestingState τ ω} (hs : I s) : I (finishRun o p s).2 := by
  have hs' := (hstable s hs).2.2 none
  rcases finishRun_state o p s with h | ⟨text, h⟩ <;> rw [h]
  · exact hs'
  · exact (hstable _ hs').2.1 text

/-- A call of the runner with items for arguments visits the tests that they select. -/
theorem u7TestingRun_eq_foldlM {argv : List CStr} {items : List Item}
    (hitems : argv.tail = arguments items) (tests : List (TestCase τ ω))
    (s : TestingState τ ω) :
    u7TestingRun argv tests s =
      ((options items).select tests).foldlM (options items).visit s >>= fun s' =>
        .ok ((options items).result tests,
          (finishRun (options items) (Progress.add ⟨0, [], []⟩ (options items) tests) s').2) := by
  rw [u7TestingRun, parseArguments_of_items hitems]
  simp only [runTests_eq_foldlM, bind_assoc]
  refine bind_congr fun s' => ?_
  refine congrArg Except.ok (Prod.ext ?_ rfl)
  rw [finishRun_result]
  simp only [Progress.add, Options.result, Nat.zero_add, List.nil_append]

/-- **A call of the runner with items for arguments** does what they ask for. -/
theorem u7TestingRun_of_items (hstable : Stable I) (hreturns : ∀ test ∈ tests, test.Returns I)
    {argv : List CStr} {items : List Item} (hitems : argv.tail = arguments items)
    {s : TestingState τ ω} (hs : I s) :
    ∃ s', u7TestingRun argv tests s = .ok ((options items).result tests, s') ∧ I s' := by
  obtain ⟨s₁, hfold, hs₁⟩ :=
    exists_foldlM (visit_returns (o := options items) hstable hreturns) hs
  rw [u7TestingRun_eq_foldlM hitems, hfold]
  exact ⟨_, rfl, hstable.finishRun _ _ hs₁⟩

/-- **A call of the runner with other arguments** does nothing. -/
theorem u7TestingRun_of_not_accepted {argv : List CStr} (hnot : ¬ Accepted argv.tail)
    (tests : List (TestCase τ ω)) (s : TestingState τ ω) :
    ∃ text, u7TestingRun argv tests s = .ok (.refused, s.fprintf text) := by
  obtain ⟨argument, hparse⟩ := parseArguments_of_not_accepted hnot
  rw [u7TestingRun, hparse]
  exact ⟨_, rfl⟩

/-- **What the runner leaves in `u7_testing_current_name`**: `NULL` if it accepts its
arguments, and what was there if it does not. -/
theorem currentName_of_u7TestingRun {argv : List CStr} {s s' : TestingState τ ω}
    {result : RunResult τ ω} (h : u7TestingRun argv tests s = .ok (result, s')) :
    (Accepted argv.tail → s'.currentName = none) ∧
      (¬ Accepted argv.tail → s'.currentName = s.currentName) := by
  constructor
  · rintro ⟨items, hitems⟩
    rw [u7TestingRun, parseArguments_of_items hitems] at h
    obtain ⟨ps, -, hfinish⟩ := bind_eq_ok_iff.mp h
    have hs' : (finishRun (options items) ps.1 ps.2).2 = s' :=
      congrArg Prod.snd (Except.ok.inj hfinish)
    rw [← hs', currentName_finishRun]
  · intro hnot
    obtain ⟨text, hrun⟩ := u7TestingRun_of_not_accepted hnot tests s
    rw [hrun] at h
    obtain ⟨-, rfl⟩ := Prod.mk.inj (Except.ok.inj h)
    rfl

/-- A list item asks for the list. -/
theorem list_options_iff (items : List Item) :
    (options items).list = true ↔ .list ∈ items := by
  rw [options, List.any_eq_true]
  constructor
  · rintro ⟨item, hmem, hlist⟩
    cases item with
    | list => exact hmem
    | filter text => cases hlist
    | filterEq text => cases hlist
  · exact fun hmem => ⟨.list, hmem, rfl⟩

/-- The runner returns `2` for a filter that no name contains. -/
theorem code_result (o : Options) (tests : List (TestCase τ ω)) :
    (o.result tests).code = if ∃ text, o.filter = some text ∧
      ∀ test ∈ tests, ¬ text.bytes <:+: test.name.bytes then 2 else 0 := by
  rw [Options.result]
  refine if_congr ?_ rfl rfl
  rw [Option.isSome_iff_exists, List.length_eq_zero_iff, Options.select, List.filter_eq_nil_iff]
  simp only [decide_eq_true_eq, ← exists_and_right]
  refine exists_congr fun text => and_congr_right fun htext => ?_
  simp only [Selects, htext, Option.some.injEq, forall_eq']

end Run

/-- **The runner accepts exactly its grammar.** The loop over the arguments ends without
reading one that is not there, and accepts exactly the lists of items. Other arguments are
refused with `2` and a message, before any test. For a list of items the last filter
counts, and a `--list` anywhere; the runner visits the tests whose names contain the filter,
each once and in the order of the array, which lists or runs them, and resets the current
name. It returns `2` if there is a filter that no name contains, and `0` otherwise. -/
theorem run_accepts_grammar (argv : List CStr) (tests : List (TestCase τ ω))
    (s : TestingState τ ω) :
    (∃ parsed, parseArguments argv argv.length 1 ⟨none, false⟩ = .ok parsed ∧
      ((∃ o, parsed = .accepted o) ↔ Accepted argv.tail)) ∧
    (¬ Accepted argv.tail → ∃ text,
      u7TestingRun argv tests s = .ok (⟨2, [], []⟩, s.fprintf text)) ∧
    ∀ items, argv.tail = arguments items →
      ∃ (o : Options) (result : RunResult τ ω) (close : TestingState τ ω → TestingState τ ω),
        o.filter = (items.filterMap Item.text).getLast? ∧ (o.list = true ↔ .list ∈ items) ∧
        result.code = (if ∃ text, o.filter = some text ∧
          ∀ test ∈ tests, ¬ text.bytes <:+: test.name.bytes then 2 else 0) ∧
        result.ran = (if o.list then [] else o.select tests) ∧
        result.listed = (if o.list then o.select tests else []) ∧
        (∀ s', close s' = s'.setCurrentName none ∨
          ∃ text, close s' = (s'.setCurrentName none).fprintf text) ∧
        u7TestingRun argv tests s =
          ((o.select tests).foldlM o.visit s >>= fun s' => .ok (result, close s')) ∧
        ((∀ test ∈ tests, test.Returns fun _ => True) →
          ∃ s', u7TestingRun argv tests s = .ok (result, s')) := by
  refine ⟨?_, fun hnot => u7TestingRun_of_not_accepted hnot tests s, fun items hitems => ?_⟩
  · by_cases haccepted : Accepted argv.tail
    · obtain ⟨items, hitems⟩ := haccepted
      exact ⟨_, parseArguments_of_items hitems, fun _ => ⟨items, hitems⟩, fun _ => ⟨_, rfl⟩⟩
    · obtain ⟨argument, hparse⟩ := parseArguments_of_not_accepted haccepted
      exact ⟨_, hparse, nofun, fun h => absurd h haccepted⟩
  · refine ⟨options items, (options items).result tests,
      fun s' => (finishRun (options items)
        (Progress.add ⟨0, [], []⟩ (options items) tests) s').2,
      rfl, list_options_iff items, code_result _ _, rfl, rfl, finishRun_state _ _, ?_,
      fun hreturns => ?_⟩
    · exact u7TestingRun_eq_foldlM hitems tests s
    · obtain ⟨s', hrun, -⟩ := u7TestingRun_of_items (I := fun _ => True)
        (fun _ _ => ⟨fun _ => trivial, fun _ => trivial, fun _ => trivial⟩) hreturns hitems
        (s := s) trivial
      exact ⟨s', hrun⟩

end U7Init
