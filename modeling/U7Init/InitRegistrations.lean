import U7Init.InitFailures

/-!
# Registering a Record Again

This module looks at runs in which any record may be registered at any time, by the program
or by an `init_fn` of a call that fails, also one that is still in the registry. Registering
writes the link of the record, so a record that is registered again closes a cycle, and no
later registration opens it. What the `init_fn`s of a call that returns ok register is lost
(`initializer_lost`), whether registered before or not, so there are no such calls in these
runs.

## Main results

* `RegistrationRun.lists`: the registry is a list exactly if no record was registered twice
  since the last `u7_init` that returned ok.
* `u7Init_of_cycle`: `u7_init` does not return from any other registry.
* `registrations_iff`: so repeated registrations are looped on, and never reported.
-/

namespace U7Init

open Outcome IntrusiveList Qsort

/-! ### Termination -/

/-- `u7_errnof` has no cause to walk along. -/
theorem u7Errnof_terminates (ℓ : Libc) {format : CStr} {arg : List VaArg}
    (hmatch : Matches format arg) (code : ℤ) (m : Mem) :
    Sat (u7Errnof ℓ code format arg m) (fun _ => True) (· ≠ .diverges) := by
  have hfallback : ∀ message m, Sat (fallbackPayload message u7Ok m) (fun _ => True)
      (· ≠ .diverges) := by
    intro message m
    have hfree : Sat (m.freeMessage message) (fun _ => True) (· ≠ .diverges) :=
      (freeMessage_shrinks m message).mono (fun _ _ => trivial) fun e he => by simp [he]
    have hderef : ∀ m : Mem, Sat (m.deref fallback) (fun _ => True) (· ≠ .diverges) :=
      fun m => (deref_fault m fallback).mono (fun _ _ => trivial) fun e he => by simp [he]
    rw [fallbackPayload]
    refine hfree.bind fun m₁ _ => ?_
    rw [release_u7Ok, ok_bind]
    exact (hderef m₁).bind fun _ _ => sat_ok trivial
  have hformat : Sat (formatMessage ℓ format arg m) (fun _ => True) (· ≠ .diverges) :=
    (formatMessage_safe ℓ format arg m).mono (fun _ _ => trivial)
      fun e he => by simp [(he hmatch).1]
  rw [u7Errnof, u7VerrorfWithCause]
  refine sat_ite (fun _ => ?_) fun _ => ?_
  · rw [release_u7Ok]
    exact sat_ok trivial
  · refine hformat.bind fun r _ => ?_
    have hmake : Sat (u7ErrnoCategoryMakePayloadFn ℓ r.1.1 r.1.2 u7Ok r.2) (fun _ => True)
        (· ≠ .diverges) :=
      sat_ite (fun _ => hfallback _ _) fun _ => sat_ite (fun _ => sat_ok trivial)
        fun _ => hfallback _ _
    exact hmake.bind fun _ _ => sat_ok trivial

variable {ρ : Type} [Fintype ρ] [DecidableEq ρ] {R : Initializers ρ} {env : InitEnv ρ}
  {s : InitState ρ} {xs : List ρ} {trace : InitTrace ρ}

variable (R env) in
/-- On a registry that is a list `u7_init` ends. -/
theorem u7Init_terminates (hchain : Chain s.next s.head xs) :
    Sat (u7Init R env s) (fun _ => True) (· ≠ .diverges) := by
  by_cases hxs : xs = []
  · subst hxs
    rw [u7Init_of_nil hchain]
    exact sat_ok trivial
  cases halloc : env.libc.allocates s.mem.mallocs with
  | false =>
      rw [u7Init_of_noMemory hchain hxs halloc]
      exact (u7Errnof_terminates _ (matches_of_not_fast not_fast_noMemoryFormat []) _ _).bind
        fun _ _ => sat_ok trivial
  | true =>
      rw [u7Init_of_array hchain hxs halloc]
      cases adjacent (fun lhs rhs => R.cmpByName lhs rhs == 0) (env.qsort R.cmpByName xs) with
      | some record =>
          refine Sat.bind (P := fun _ => True) ?_ fun _ _ => sat_ok trivial
          exact (u7Errnof_terminates _ (matches_of_not_fast not_fast_duplicateFormat _) _ _).bind
            fun _ _ => sat_ok trivial
      | none =>
          rcases runInitFns env (env.qsort R.cmp (env.qsort R.cmpByName xs))
            s.countMalloc.newArray with ⟨_ | error, s'⟩
          · exact sat_ok trivial
          · exact sat_ok trivial

/-- On any other registry it does not. -/
theorem u7Init_of_cycle (R : Initializers ρ) (env : InitEnv ρ)
    (hcycle : ∀ xs, ¬ Chain s.next s.head xs) : u7Init R env s = .error .diverges := by
  have hrecords : s.records = .error .diverges := by
    rw [InitState.records]
    cases hfollow : follow s.next s.head with
    | none => rfl
    | some xs => exact absurd (follow_eq_some_iff.mp hfollow) (hcycle xs)
  rw [u7Init, hrecords, error_bind]

/-! ### What the registry lists -/

/-- The registry lists exactly `records`, last first, and is a list only if they are
different. -/
def InitState.Lists (s : InitState ρ) (records : List ρ) : Prop :=
  ∀ xs, Chain s.next s.head xs ↔ records.Nodup ∧ xs = records.reverse

omit [Fintype ρ] [DecidableEq ρ] in
theorem lists_nil (hhead : s.head = none) : s.Lists [] := by
  intro xs
  rw [hhead]
  constructor
  · intro h
    cases h
    exact ⟨List.nodup_nil, rfl⟩
  · rintro ⟨-, rfl⟩
    exact .nil

omit [Fintype ρ] in
/-- **One registration**: the record must not be linked yet. -/
theorem InitState.Lists.register {records : List ρ} (h : s.Lists records) (record : ρ) :
    (u7InitializerRegister record s).Lists (records ++ [record]) := by
  intro xs
  have hupdate : Chain (u7InitializerRegister record s).next
      (u7InitializerRegister record s).head xs ↔
        ∃ ys, xs = record :: ys ∧ record ∉ ys ∧ Chain s.next s.head ys := chain_update_iff
  rw [hupdate, List.reverse_append, List.reverse_singleton, List.singleton_append,
    List.nodup_append]
  constructor
  · rintro ⟨ys, rfl, hnew, hchain⟩
    obtain ⟨hnodup, rfl⟩ := (h ys).mp hchain
    refine ⟨⟨hnodup, List.nodup_singleton record, ?_⟩, rfl⟩
    rintro a ha b hb rfl
    rw [List.mem_singleton] at hb
    exact hnew (hb ▸ List.mem_reverse.mpr ha)
  · rintro ⟨⟨hnodup, -, hdisjoint⟩, rfl⟩
    refine ⟨_, rfl, fun hmem => ?_, (h _).mpr ⟨hnodup, rfl⟩⟩
    exact hdisjoint record (List.mem_reverse.mp hmem) record List.mem_cons_self rfl

omit [Fintype ρ] in
/-- Registrations one after another. -/
theorem InitState.Lists.registerAll {records : List ρ} (h : s.Lists records)
    (more : List ρ) :
    (more.foldl (fun s record => u7InitializerRegister record s) s).Lists (records ++ more) := by
  induction more generalizing s records with
  | nil => rwa [List.append_nil]
  | cons record more ih =>
      rw [List.foldl_cons, List.append_cons]
      exact ih (h.register record)

omit [Fintype ρ] in
variable (env) in
/-- The loop over the sorted array: what the `init_fn`s register is added. -/
theorem InitState.Lists.runAll {records : List ρ} (h : s.Lists records) (array : List ρ) :
    ∃ more, (runInitFns env array s).2.registered = s.registered ++ more ∧
      (runInitFns env array s).2.Lists (records ++ more) := by
  induction array generalizing s records with
  | nil => exact ⟨[], (List.append_nil _).symm, by rwa [List.append_nil]⟩
  | cons record array ih =>
      have hcall : (s.callInitFn env record).Lists
          (records ++ (env.initFn record).registers) :=
        InitState.Lists.registerAll (s := { s with
          mem := (env.initFn record).mem
          calls := s.calls ++ [record]
          output := s.output ++ (env.initFn record).lines }) h _
      have hregistered : (s.callInitFn env record).registered =
          s.registered ++ (env.initFn record).registers := (foldl_register _ _).2.1
      rw [runInitFns]
      split_ifs
      · exact ⟨_, hregistered, hcall⟩
      · obtain ⟨more, hmore, hlists⟩ := ih hcall
        refine ⟨(env.initFn record).registers ++ more, ?_, ?_⟩
        · rw [hmore, hregistered, List.append_assoc]
        · rwa [← List.append_assoc]

/-- **One call of `u7_init`** that returns has found a list. It empties it, or adds to it
what was registered meanwhile. -/
theorem InitState.Lists.init {records : List ρ} {e : U7Error} {s' : InitState ρ}
    (h : s.Lists records) (hinit : u7Init R env s = .ok (e, s')) :
    s'.Lists (if e.errorCode = 0 then []
      else records ++ s'.registered.drop s.registered.length) := by
  have hsame : records ++ s.registered.drop s.registered.length = records := by
    rw [List.drop_length, List.append_nil]
  by_cases hlist : ∃ xs, Chain s.next s.head xs
  · obtain ⟨xs, hchain⟩ := hlist
    by_cases hnil : xs = []
    · subst hnil
      rw [u7Init_of_nil hchain] at hinit
      obtain ⟨rfl, rfl⟩ := Prod.mk.inj (Except.ok.inj hinit)
      exact lists_nil (hchain.eq_nil_iff.mp rfl)
    cases halloc : env.libc.allocates s.mem.mallocs with
    | false =>
        rw [u7Init_of_noMemory hchain hnil halloc] at hinit
        obtain ⟨hcode, mem, rfl⟩ := errnof_effect hinit
        rw [if_neg (hcode.trans_ne ENOMEM_ne_zero)]
        exact hsame.symm ▸ h
    | true =>
        rw [u7Init_of_array hchain hnil halloc] at hinit
        cases hadjacent : adjacent (fun lhs rhs => R.cmpByName lhs rhs == 0)
            (env.qsort R.cmpByName xs) with
        | some record =>
            rw [hadjacent] at hinit
            dsimp only at hinit
            obtain ⟨⟨e₁, s₁⟩, herror, hrest⟩ := bind_eq_ok_iff.mp hinit
            obtain ⟨rfl, rfl⟩ := Prod.mk.inj (Except.ok.inj hrest)
            obtain ⟨hcode, mem, rfl⟩ := errnof_effect herror
            rw [if_neg (hcode.trans_ne EINVAL_ne_zero)]
            exact hsame.symm ▸ h
        | none =>
            rw [hadjacent] at hinit
            dsimp only at hinit
            obtain ⟨more, hmore, hlists⟩ :=
              InitState.Lists.runAll env (s := s.countMalloc.newArray) h
                (env.qsort R.cmp (env.qsort R.cmpByName xs))
            cases hrun : runInitFns env (env.qsort R.cmp (env.qsort R.cmpByName xs))
                s.countMalloc.newArray with
            | mk failure s₂ =>
                rw [hrun] at hinit hmore hlists
                cases failure with
                | none =>
                    obtain ⟨rfl, rfl⟩ := Prod.mk.inj (Except.ok.inj hinit)
                    exact lists_nil rfl
                | some error =>
                    obtain ⟨rfl, rfl⟩ := Prod.mk.inj (Except.ok.inj hinit)
                    obtain ⟨-, -, -, -, -, -, -, hcode⟩ := runInitFns_some hrun
                    have hdrop : s₂.freeArray.registered.drop s.registered.length = more := by
                      change s₂.registered.drop s.registered.length = more
                      rw [hmore]
                      exact List.drop_left
                    rw [if_neg hcode, hdrop]
                    exact hlists
  · rw [u7Init_of_cycle R env (not_exists.mp hlist)] at hinit
    cases hinit

/-! ### Runs -/

/-- The runs in which any record is registered at any time, by the program or by an `init_fn`
of a call that fails, with the records registered since the last `u7_init` that returned ok.
During such a call nothing is registered, because it would be lost. -/
inductive RegistrationRun (R : Initializers ρ) : List ρ → InitState ρ → Prop
  | start : RegistrationRun R [] (InitState.start ρ)
  | register {records : List ρ} {s : InitState ρ} (record : ρ) :
      RegistrationRun R records s →
      RegistrationRun R (records ++ [record]) (u7InitializerRegister record s)
  | init {records : List ρ} {s s' : InitState ρ} {env : InitEnv ρ} {e : U7Error} :
      RegistrationRun R records s → Sorts env.qsort → u7Init R env s = .ok (e, s') →
      (e.errorCode = 0 → s'.registered = s.registered) →
      RegistrationRun R
        (if e.errorCode = 0 then [] else records ++ s'.registered.drop s.registered.length) s'

/-- **The registry is a list** exactly if no record was registered twice since the last
call that returned ok, and then it lists what was registered since. -/
theorem RegistrationRun.lists {records : List ρ} (run : RegistrationRun R records s) :
    s.Lists records := by
  induction run with
  | start => exact lists_nil rfl
  | register record _ ih => exact ih.register record
  | init _ _ hinit _ ih => exact ih.init hinit

/-- Registering was safe: the registry is a finite list of all `records` registered since
the last call that returned ok; a following call ends; and if a record was registered twice,
the call is refused before any `init_fn`. -/
structure RegistersSafely (R : Initializers ρ) (records : List ρ) (s : InitState ρ) :
    Prop where
  list : ∃ xs, Chain s.next s.head xs ∧ ∀ record ∈ records, record ∈ xs
  terminates : ∀ env, Sorts env.qsort → u7Init R env s ≠ .error .diverges
  refused : ¬ records.Nodup → ∀ env, Sorts env.qsort →
    ∃ e s', u7Init R env s = .ok (e, s') ∧ s'.calls = s.calls ∧
      e.errorCode = if env.libc.allocates s.mem.mallocs then EINVAL else ENOMEM

/-- **Repeated registrations are not reported but looped on.** In every state of every run,
with any records registered in any order and any number of times, registering was safe
exactly if no record was registered twice since the last `u7_init` that returned ok; and if
one was, no call of `u7_init` returns. -/
theorem registrations_iff (R : Initializers ρ) (records : List ρ) (s : InitState ρ)
    (run : RegistrationRun R records s) :
    (RegistersSafely R records s ↔ records.Nodup) ∧
      (¬ records.Nodup → ∀ env, u7Init R env s = .error .diverges) := by
  refine ⟨⟨fun hsafe => ?_, fun hnodup => ?_⟩, fun hdup env => ?_⟩
  · obtain ⟨xs, hchain, -⟩ := hsafe.list
    exact ((run.lists xs).mp hchain).1
  · have hchain := (run.lists _).mpr ⟨hnodup, rfl⟩
    exact {
      list := ⟨_, hchain, fun record hmem => List.mem_reverse.mpr hmem⟩
      terminates := by
        intro env _ hdiverges
        have hterminates := u7Init_terminates R env hchain
        rw [hdiverges] at hterminates
        exact hterminates rfl
      refused := fun hdup => absurd hnodup hdup }
  · exact u7Init_of_cycle R env fun xs hchain => hdup ((run.lists xs).mp hchain).1

/-- After two records of different names the registry is safe. -/
theorem registrations_iff_two :
    RegistersSafely threeInitializers [0, 1]
      (u7InitializerRegister 1 (u7InitializerRegister 0 (InitState.start (Fin 3)))) :=
  (registrations_iff threeInitializers [0, 1] _
    (.register 1 (.register 0 .start))).1.mpr (by decide)

/-- **A record registered again is looped on**: its link points to itself, and `u7_init`
counts forever, whatever it meets with. -/
theorem registered_again_loops :
    RegistrationRun (namesakes (.lit "again")) [0, 0] (registeredTwice 0 0) ∧
      (registeredTwice 0 0).head = some 0 ∧ (registeredTwice 0 0).next 0 = some 0 ∧
      (∀ env, u7Init (namesakes (.lit "again")) env (registeredTwice 0 0) = .error .diverges) ∧
      ¬ RegistersSafely (namesakes (.lit "again")) [0, 0] (registeredTwice 0 0) := by
  have run : RegistrationRun (namesakes (.lit "again")) [0, 0] (registeredTwice 0 0) :=
    .register 0 (.register 0 .start)
  have hcycle : ∀ xs, ¬ Chain (registeredTwice 0 0).next (registeredTwice 0 0).head xs := by
    intro xs hchain
    exact absurd ((run.lists xs).mp hchain).1 (by decide)
  refine ⟨run, rfl, rfl, fun env => u7Init_of_cycle _ env hcycle, fun hsafe => ?_⟩
  obtain ⟨xs, hchain, -⟩ := hsafe.list
  exact hcycle xs hchain

end U7Init
