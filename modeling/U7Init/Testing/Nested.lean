import U7Init.Testing.Runner

/-!
# Nested Runners

Test bodies that check assertions and call `u7_testing_run` on further cases form trees.
While a body runs, every point of it is recorded with the name that an assertion failing
there would report, and every return of a nested call with the arguments of the call.

The runner keeps the name of the active test in one variable, which it sets before it
calls a body and resets when it is done. A body that has called it therefore goes on
without a name.

## Main results

* `sat_runTests`, `sat_u7TestingRun`: the runner leaves a right trace if the bodies do.
* `Body.traced`: so it is for every tree, by induction over the trees.
* `active_name_lost`: a body can lose its name to a nested call.
* `active_name_iff`: the exact condition under which none does.
-/

namespace U7Init

open Outcome

mutual

/-- The body of a test. What it does after a call of the runner may depend on what the
call returns. -/
inductive Body
  | ret
  | assert (holds : Bool) (file : CStr) (line : ℤ) (rendered : CStr) (rest : Body)
  | run (argv : List CStr) (tests : Cases) (rest : ℤ → Body)

/-- An array of test cases. -/
inductive Cases
  | nil
  | cons (name : CStr) (body : Body) (tests : Cases)

end

/-- What is recorded. -/
inductive TestingEvent
  /-- A point inside the body of `test`, and `u7_testing_current_name` there. -/
  | point (test : CStr) (currentName : Option CStr)
  /-- A call of the runner with these arguments returns to the body that made it. -/
  | returned (argv : List CStr)
  deriving DecidableEq

/-- The events up to some point. -/
abbrev TestingTrace := List TestingEvent

variable {τ : Type}

/-- The state with one more event. -/
def TestingState.record (s : TestingState τ TestingTrace) (event : TestingEvent) :
    TestingState τ TestingTrace :=
  { s with world := s.world ++ [event] }

mutual

/-- Running the body of `test`. -/
def Body.exec (test : CStr) : Body → TestingState τ TestingTrace →
    Except (Stop τ TestingTrace) (TestingState τ TestingTrace)
  | .ret, s => .ok (s.record (.point test s.currentName))
  | .assert holds file line rendered rest, s =>
      let s := s.record (.point test s.currentName)
      if holds then rest.exec test s else u7TestingAssertFail file line rendered s
  | .run argv tests rest, s => do
      let (result, s) ← u7TestingRun argv tests.toList (s.record (.point test s.currentName))
      (rest result.code).exec test (s.record (.returned argv))

/-- The array as the runner sees it. -/
def Cases.toList : Cases → List (TestCase τ TestingTrace)
  | .nil => []
  | .cons name body tests => ⟨name, body.exec name, none⟩ :: tests.toList

end

/-- At a point of a body the current name is the name of the test. -/
def TestingEvent.NamesActive : TestingEvent → Prop
  | .point test currentName => currentName = some test
  | .returned _ => True

/-- A nested call returns that had accepted its arguments. -/
def TestingEvent.Resets : TestingEvent → Prop
  | .point _ _ => False
  | .returned argv => Accepted argv.tail

/-- The trace names the active test at every point exactly if no nested call resets the
name. -/
def Exact (events : TestingTrace) : Prop :=
  (∀ event ∈ events, event.NamesActive) ↔ ∀ event ∈ events, ¬ event.Resets

/-! ### Parts of traces -/

theorem Exact.nil : Exact [] := by
  simp [Exact]

theorem Exact.append {events events' : TestingTrace} (h : Exact events) (h' : Exact events') :
    Exact (events ++ events') := by
  rw [Exact, List.forall_mem_append, List.forall_mem_append]
  exact and_congr h h'

/-- A point at which the name is right, and the return of a call that was rejected, make
no difference. -/
theorem Exact.cons {event : TestingEvent} {events : TestingTrace} (hnames : event.NamesActive)
    (hresets : ¬ event.Resets) (h : Exact events) : Exact (event :: events) := by
  rw [Exact, List.forall_mem_cons, List.forall_mem_cons, and_iff_right hnames,
    and_iff_right hresets]
  exact h

/-- What the trace of a body is like that starts with this current name. -/
structure BodyTrace (test : CStr) (currentName : Option CStr) (events : TestingTrace) :
    Prop where
  exact : currentName = some test → Exact events
  wrong : currentName ≠ some test → ∃ event ∈ events, ¬ event.NamesActive

/-- The first point of a body, and what comes then. -/
theorem BodyTrace.cons {test : CStr} {currentName : Option CStr} {events : TestingTrace}
    (h : currentName = some test → Exact events) :
    BodyTrace test currentName (.point test currentName :: events) where
  exact := fun hname => .cons hname id (h hname)
  wrong := fun hname => ⟨_, List.mem_cons_self, hname⟩

/-- A nested call that returns, and the rest of the body. -/
theorem BodyTrace.returned {test : CStr} {argv : List CStr} {currentName : Option CStr}
    {events events' : TestingTrace} (h : Exact events) (h' : BodyTrace test currentName events')
    (haccepted : Accepted argv.tail → currentName = none)
    (hrejected : ¬ Accepted argv.tail → currentName = some test) :
    Exact (events ++ .returned argv :: events') := by
  by_cases hargv : Accepted argv.tail
  · -- the next point of the body reports no name
    have hnone : currentName ≠ some test := by
      rw [haccepted hargv]
      exact (Option.some_ne_none test).symm
    obtain ⟨event, hmem, hwrong⟩ := h'.wrong hnone
    refine iff_of_false (fun hall => hwrong (hall event ?_)) fun hnone => ?_
    · exact List.mem_append_right _ (List.mem_cons_of_mem _ hmem)
    · exact hnone (.returned argv) (List.mem_append_right _ List.mem_cons_self) hargv
  · exact h.append (.cons trivial hargv (h'.exact (hrejected hargv)))

/-! ### Traces of runs -/

/-- After the events of `before` there are further ones, which satisfy `P`. -/
def Adds (before : TestingTrace) (P : TestingTrace → Prop) (s : TestingState τ TestingTrace) :
    Prop :=
  ∃ events, s.world = before ++ events ∧ P events

/-- The process is aborted after further events, which satisfy `P`. -/
def Aborts (before : TestingTrace) (P : TestingTrace → Prop) : Stop τ TestingTrace → Prop
  | .fault _ => False
  | .abort s => Adds before P s

section Traces

variable {before between : TestingTrace} {P Q : TestingTrace → Prop}
  {s : TestingState τ TestingTrace}

theorem Adds.append (h : Adds (before ++ between) P s)
    (hPQ : ∀ events, P events → Q (between ++ events)) : Adds before Q s := by
  obtain ⟨events, hworld, hevents⟩ := h
  exact ⟨between ++ events, by rw [hworld, List.append_assoc], hPQ events hevents⟩

theorem Aborts.append {stop : Stop τ TestingTrace} (h : Aborts (before ++ between) P stop)
    (hPQ : ∀ events, P events → Q (between ++ events)) : Aborts before Q stop := by
  cases stop with
  | fault f => exact h
  | abort s => exact Adds.append h hPQ

/-- What comes later extends the trace. -/
theorem sat_append {x : Except (Stop τ TestingTrace) (TestingState τ TestingTrace)}
    (h : Sat x (Adds (before ++ between) P) (Aborts (before ++ between) P))
    (hPQ : ∀ events, P events → Q (between ++ events)) :
    Sat x (Adds before Q) (Aborts before Q) :=
  h.mono (fun _ hadds => hadds.append hPQ) fun _ haborts => haborts.append hPQ

theorem sat_imp {x : Except (Stop τ TestingTrace) (TestingState τ TestingTrace)}
    (h : Sat x (Adds before P) (Aborts before P)) (hPQ : ∀ events, P events → Q events) :
    Sat x (Adds before Q) (Aborts before Q) := by
  have h' : Sat x (Adds (before ++ []) P) (Aborts (before ++ []) P) := by
    rwa [List.append_nil]
  exact sat_append h' hPQ

/-- The body of the test leaves a right trace if it starts with the right name. -/
def TestCase.Traced (test : TestCase τ TestingTrace) : Prop :=
  ∀ s, s.currentName = some test.name →
    Sat (test.fn s) (Adds s.world Exact) (Aborts s.world Exact)

variable {tests : List (TestCase τ TestingTrace)}

/-- **The loop over the tests** leaves a right trace. -/
theorem sat_runTests (htests : ∀ test ∈ tests, test.Traced) (o : Options)
    (p : Progress τ TestingTrace) (s : TestingState τ TestingTrace) :
    Sat (runTests o tests p s) (fun r => Adds s.world Exact r.2) (Aborts s.world Exact) := by
  induction tests generalizing p s with
  | nil => exact ⟨[], (List.append_nil _).symm, .nil⟩
  | cons test tests ih =>
      obtain ⟨htest, hrest⟩ := List.forall_mem_cons.mp htests
      rw [runTests]
      refine sat_ite (fun _ => ih hrest _ _) fun _ => sat_ite (fun _ => ih hrest _ _) fun _ => ?_
      refine (htest (s.setCurrentName (some test.name)) rfl).bind fun s' hs' => ?_
      obtain ⟨events, hworld, hexact⟩ := hs'
      have hlater := ih hrest { p with selected := p.selected + 1, ran := p.ran ++ [test] }
        (s'.printf (ascii "[ PASS ] " ++ test.name.bytes ++ ascii "\n"))
      have hworld' : (s'.printf (ascii "[ PASS ] " ++ test.name.bytes ++ ascii "\n")).world =
        s.world ++ events := hworld
      rw [hworld'] at hlater
      exact hlater.mono (fun _ h => h.append fun _ => hexact.append)
        fun _ h => h.append fun _ => hexact.append

/-- **A call of the runner** leaves a right trace. -/
theorem sat_u7TestingRun (htests : ∀ test ∈ tests, test.Traced) (argv : List CStr)
    (s : TestingState τ TestingTrace) :
    Sat (u7TestingRun argv tests s) (fun r => Adds s.world Exact r.2)
      (Aborts s.world Exact) := by
  by_cases haccepted : Accepted argv.tail
  · obtain ⟨items, hitems⟩ := haccepted
    rw [u7TestingRun, parseArguments_of_items hitems]
    refine (sat_runTests htests (options items) _ s).bind fun r hr => ?_
    have hworld : (finishRun (options items) r.1 r.2).2.world = r.2.world := by
      rcases finishRun_state (options items) r.1 r.2 with h | ⟨text, h⟩ <;> rw [h] <;> rfl
    obtain ⟨events, hevents, hexact⟩ := hr
    exact ⟨events, hworld.trans hevents, hexact⟩
  · obtain ⟨text, hrun⟩ := u7TestingRun_of_not_accepted haccepted tests s
    rw [hrun]
    exact ⟨[], (List.append_nil _).symm, .nil⟩

end Traces

mutual

/-- **Every body** leaves the trace of a body. -/
theorem Body.traced : ∀ (body : Body) (test : CStr) (s : TestingState τ TestingTrace),
    Sat (body.exec test s) (Adds s.world (BodyTrace test s.currentName))
      (Aborts s.world (BodyTrace test s.currentName))
  | .ret, test, s => by
      rw [Body.exec]
      exact ⟨[_], rfl, .cons fun _ => .nil⟩
  | .assert holds file line rendered rest, test, s => by
      rw [Body.exec]
      refine sat_ite (fun _ => ?_) fun _ => ?_
      · exact sat_append (rest.traced test _) fun events h => .cons h.exact
      · exact ⟨[_], rfl, .cons fun _ => .nil⟩
  | .run argv tests rest, test, s => by
      rw [Body.exec]
      have hrun := sat_u7TestingRun tests.traced argv
        (s.record (.point test s.currentName))
      refine (hrun.mono (fun _ h => h) ?_).with_eq.bind fun r hr => ?_
      · exact fun _ h => h.append fun events hexact => .cons fun _ => hexact
      · obtain ⟨heq, events, hworld, hexact⟩ := hr
        obtain ⟨haccepted, hrejected⟩ := currentName_of_u7TestingRun heq
        have hrest := (rest r.1.code).traced test (r.2.record (.returned argv))
        have hworld' : (r.2.record (.returned argv)).world =
            s.world ++ (.point test s.currentName :: (events ++ [.returned argv])) := by
          rw [TestingState.record, hworld, TestingState.record]
          simp
        rw [hworld'] at hrest
        refine sat_append hrest fun events' h => ?_
        rw [List.cons_append, List.append_assoc]
        exact .cons fun hname => h.returned hexact haccepted fun hnot =>
          (hrejected hnot).trans hname

/-- The bodies of an array leave right traces. -/
theorem Cases.traced : ∀ (tests : Cases),
    ∀ test ∈ (tests.toList : List (TestCase τ TestingTrace)), test.Traced
  | .nil => List.forall_mem_nil _
  | .cons name body tests => by
      rw [Cases.toList]
      refine List.forall_mem_cons.mpr ⟨fun s hname => ?_, tests.traced⟩
      exact sat_imp (body.traced name s) fun events h => h.exact hname

end

/-! ### The active test -/

/-- The events of a call of the runner, whether it returns or the process is aborted. -/
def trace (argv : List CStr) (tests : Cases) (s : TestingState τ TestingTrace) :
    TestingTrace :=
  match u7TestingRun argv tests.toList { s with world := [] } with
  | .ok (_, s) => s.world
  | .error (.abort s) => s.world
  | .error (.fault _) => []

theorem exact_trace (argv : List CStr) (tests : Cases) (s : TestingState τ TestingTrace) :
    Exact (trace argv tests s) := by
  have hrun := sat_u7TestingRun tests.traced argv { s with world := [] }
  rcases hrun.ok_or_error with ⟨r, heq, events, hworld, hexact⟩ | ⟨stop, heq, haborts⟩
  · obtain rfl : r.2.world = events := hworld
    rw [trace, heq]
    exact hexact
  · cases stop with
    | fault f => exact haborts.elim
    | abort s' =>
        obtain ⟨events, hworld, hexact⟩ := haborts
        obtain rfl : s'.world = events := hworld
        rw [trace, heq]
        exact hexact

/-- A test that runs an inner test and then fails an assertion. -/
def nestedTests : Cases :=
  .cons (.lit "outer")
    (.run [.lit "prog"] (.cons (.lit "inner") .ret .nil) fun _ =>
      .assert false (.lit "t.c") 7 (.lit "assertion failed: x") .ret)
    .nil

/-- After the inner test the outer one has no name. -/
theorem trace_nestedTests (s : TestingState τ TestingTrace) :
    trace [.lit "prog"] nestedTests s =
      [.point (.lit "outer") (some (.lit "outer")), .point (.lit "inner") (some (.lit "inner")),
        .returned [.lit "prog"], .point (.lit "outer") none] :=
  rfl

/-- The body of a test can lose its name to a nested call. -/
theorem active_name_lost :
    ¬ ∀ (τ : Type) (argv : List CStr) (tests : Cases) (s : TestingState τ TestingTrace),
        ∀ event ∈ trace argv tests s, event.NamesActive := by
  intro hclaim
  have hpoint := hclaim Empty [.lit "prog"] nestedTests ⟨none, none, nofun, 0, [], [], []⟩
    (.point (.lit "outer") none) (by rw [trace_nestedTests]; simp)
  cases hpoint

/-- **When assertions name the active test.** In every run of a tree of test bodies the
current name is the name of the test at every point of every body exactly if no nested
call that returns to the body that made it had accepted its arguments. A call of the
runner that returns leaves the current name as it was exactly if it does not accept its
arguments, or if there was none. -/
theorem active_name_iff (argv : List CStr) (tests : Cases) (s : TestingState τ TestingTrace) :
    ((∀ event ∈ trace argv tests s, event.NamesActive) ↔
      ∀ event ∈ trace argv tests s, ¬ event.Resets) ∧
    ∀ result s', u7TestingRun argv tests.toList s = .ok (result, s') →
      (s'.currentName = s.currentName ↔ ¬ Accepted argv.tail ∨ s.currentName = none) := by
  refine ⟨exact_trace argv tests s, fun result s' hrun => ?_⟩
  obtain ⟨haccepted, hrejected⟩ := currentName_of_u7TestingRun hrun
  by_cases hargv : Accepted argv.tail
  · rw [haccepted hargv, or_iff_right (not_not.mpr hargv)]
    exact eq_comm
  · exact iff_of_true (hrejected hargv) (.inl hargv)

end U7Init
