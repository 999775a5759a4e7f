import U7Init.Error.Limits
import U7Init.InitRuns

/-!
# How the Initializer Registry Reports Failures

This module looks at the three ways in which a call of `u7_init` returns an error: the
array cannot be allocated, two records have one name, or an `init_fn` returns an error. The
first two are reported by `u7_errnof`, so they share the limits of its length arithmetic.

Before that the registry may be anything that calls of `u7_initializer_register` have made,
with any precedences and names, and the `init_fn`s leave it alone. `ReportsFailures` is what is
expected of a call on it: no `init_fn` is called before the names are known to differ; then the
ones called are those of a prefix of the order of precedence and name, whose last one has
failed; and the registry lists the same records in the same order as before.

The report of a name is created by `u7_errnof`, whose own allocations may fail. The error then
has the right code and a fixed message, which is not counted as a defect here, since `error.c`
does it by design. Only where its length arithmetic overflows there is no report at all.

## Main results

* `runInitFns_of_failing`: the loop over the sorted array stops at the first error.
* `u7Init_overflows`: a call that reports a text of `INT_MAX` bytes has undefined
  behaviour.
* `init_failures_iff`: otherwise the failure is reported, and the registry is kept.
-/

namespace U7Init

open Outcome IntrusiveList Qsort

theorem nul_free_noMemory :
    0 ∉ "u7_init: malloc: failed to allocate buffer".toList.map fun c => UInt8.ofNat c.toNat := by
  decide

/-- What `u7_init` says when `malloc` fails. -/
def noMemoryFormat : CStr :=
  .lit "u7_init: malloc: failed to allocate buffer" nul_free_noMemory

theorem nul_free_duplicate :
    0 ∉ "u7_init: non-unique initializer name: %s".toList.map fun c => UInt8.ofNat c.toNat := by
  decide

/-- What `u7_init` says when a name occurs twice. -/
def duplicateFormat : CStr :=
  .lit "u7_init: non-unique initializer name: %s" nul_free_duplicate

/-- The part of it in front of the name. -/
def duplicatePrefix : CStr :=
  .lit "u7_init: non-unique initializer name: "

/-! ### Reports by `u7_errnof` -/

section Errnof

variable {ℓ : Libc} {format : CStr} {arg : List VaArg} {m : Mem}

theorem not_fast_noMemoryFormat : ¬ FastFormat noMemoryFormat := by
  decide

theorem not_fast_duplicateFormat : ¬ FastFormat duplicateFormat := by
  decide

/-- `u7_errnof` gives an error of its code. -/
theorem u7Errnof_ok (hmatch : Matches format arg) (hlength : ¬ Overflows ℓ format arg m)
    (hlive : ∃ x, m.payloads.cell fallback = some x) {code : ℤ} (hcode : code ≠ 0) :
    ∃ e mem, u7Errnof ℓ code format arg m = .ok (e, mem) ∧ e.errorCode = code := by
  obtain ⟨-, p, mem, hcreate, -⟩ :=
    (verrorfWithCause_cases hmatch hlength (release_u7Ok m) hlive code).resolve_left
      fun h => hcode h.1
  exact ⟨_, mem, hcreate, rfl⟩

theorem u7Errnof_overflows (h : Overflows ℓ format arg m) {code : ℤ} (hcode : code ≠ 0) :
    u7Errnof ℓ code format arg m = .error .signedOverflow := by
  rw [u7Errnof, u7VerrorfWithCause, if_neg hcode, formatMessage_overflows h, error_bind]

end Errnof

variable {ρ : Type} [DecidableEq ρ]

/-- The loop over the sorted array stops at the first error. -/
theorem runInitFns_of_failing {env : InitEnv ρ} {l r : List ρ} {record : ρ}
    (hok : ∀ x ∈ l, (env.initFn x).error.errorCode = 0)
    (hfail : (env.initFn record).error.errorCode ≠ 0) (s : InitState ρ) :
    ∃ s', runInitFns env (l ++ record :: r) s = (some (env.initFn record).error, s') ∧
      Ran env s (l ++ [record]) s' := by
  induction l generalizing s with
  | nil => exact ⟨_, by rw [List.nil_append, runInitFns, if_pos hfail], ran_callInitFn env s record⟩
  | cons x l ih =>
      obtain ⟨hx, hrest⟩ := List.forall_mem_cons.mp hok
      obtain ⟨s', hrun, hran⟩ := ih hrest (s.callInitFn env x)
      refine ⟨s', ?_, (ran_callInitFn env s x).trans hran⟩
      rw [List.cons_append, runInitFns, if_neg (not_not.mpr hx), hrun]

/-! ### Failing calls -/

/-- The least name that occurs twice. -/
def Initializers.LeastDuplicate (R : Initializers ρ) (xs : List ρ) (name : CStr) : Prop :=
  IsLeast {name | List.Duplicate name (xs.map R.name)} name

/-- **A call of `u7_init` on the registry `xs` reports failures exactly**, and keeps the
registry. -/
structure ReportsFailures [Fintype ρ] (R : Initializers ρ) (env : InitEnv ρ) (s : InitState ρ)
    (xs : List ρ) : Prop where
  /-- The array cannot be allocated: only the memory changes. -/
  noMemory : xs ≠ [] → env.libc.allocates s.mem.mallocs = false →
    ∃ e mem, u7Init R env s = .ok (e, { s with mem := mem }) ∧ e.errorCode = ENOMEM
  /-- A call is refused before any `init_fn` exactly when a name occurs twice. -/
  refuses : env.libc.allocates s.mem.mallocs = true →
    ((∃ e s', u7Init R env s = .ok (e, s') ∧ e.errorCode = EINVAL ∧ s'.calls = s.calls) ↔
      ¬ (xs.map R.name).Nodup)
  /-- It is `u7_errnof` with the least such name that says so, and only the memory
  changes. -/
  duplicate : env.libc.allocates s.mem.mallocs = true → ¬ (xs.map R.name).Nodup →
    ∃ record ∈ xs, R.LeastDuplicate xs (R.name record) ∧ ∃ e mem,
      u7Errnof env.libc EINVAL duplicateFormat [.str (R.name record).object] s.countMalloc.mem =
        .ok (e, mem) ∧
      u7Init R env s = .ok (e, { s with mem := mem })
  /-- With enough memory the message ends with that name. -/
  message : (∀ n, env.libc.allocates n = true) → ∀ render, env.libc.Prints render →
    ∀ name, R.LeastDuplicate xs name →
      render duplicateFormat [.str name.object] = duplicatePrefix.bytes ++ name.bytes →
      ((duplicatePrefix.bytes ++ name.bytes).length : ℤ) + 1 ≤ intMax →
      ∃ e mem p x b bytes, u7Init R env s = .ok (e, { s with mem := mem }) ∧
        e.payload = some p ∧ mem.payloads.cell p = some x ∧ x.message = .block b ∧
        mem.buffers.cell b = some bytes ∧
        (duplicatePrefix.bytes ++ name.bytes).map some ++ [some 0] <+: bytes
  /-- An `init_fn` returns an error: those before it in the execution order and it were
  called, its error is returned, and the registry is what it was. -/
  stopped : env.libc.allocates s.mem.mallocs = true → (xs.map R.name).Nodup →
    ∀ l record r, (l ++ record :: r).Perm xs → (l ++ record :: r).Pairwise R.Before →
      (∀ x ∈ l, (env.initFn x).error.errorCode = 0) →
      (env.initFn record).error.errorCode ≠ 0 →
      ∃ s', u7Init R env s = .ok ((env.initFn record).error, s') ∧
        s'.calls = s.calls ++ (l ++ [record]) ∧ Chain s'.next s'.head xs

/-- The report of a failure computes `INT_MAX + 1`: the text that says that `malloc` has
failed, or the one with the least name that occurs twice. -/
def InitOverflows (R : Initializers ρ) (env : InitEnv ρ) (s : InitState ρ) (xs : List ρ) :
    Prop :=
  xs ≠ [] ∧
    if env.libc.allocates s.mem.mallocs = false then
      Overflows env.libc noMemoryFormat [] s.countMalloc.mem
    else ∃ name, R.LeastDuplicate xs name ∧
      Overflows env.libc duplicateFormat [.str name.object] s.countMalloc.mem

section Calls

variable [Fintype ρ] {R : Initializers ρ} {env : InitEnv ρ} {s : InitState ρ} {xs : List ρ}

/-- A call on a registry in which a name occurs twice reports the least such name. -/
theorem u7Init_of_duplicate (hchain : Chain s.next s.head xs) (hsorts : Sorts env.qsort)
    (halloc : env.libc.allocates s.mem.mallocs = true) (hdup : ¬ (xs.map R.name).Nodup) :
    ∃ record ∈ xs, R.LeastDuplicate xs (R.name record) ∧
      u7Init R env s = (do
        let (error, mem) ← u7Errnof env.libc EINVAL duplicateFormat
          [.str (R.name record).object] s.countMalloc.mem
        .ok (error, { s with mem := mem })) := by
  have hxs : xs ≠ [] := by
    rintro rfl
    exact hdup List.nodup_nil
  obtain ⟨record, hmem, hleast, hadjacent⟩ := exists_adjacent_names hsorts hdup
  refine ⟨record, hmem, hleast, ?_⟩
  rw [u7Init_of_array hchain hxs halloc, hadjacent]
  simp only [InitState.errnof, InitState.newArray, InitState.freeArray, bind_assoc, ok_bind]
  rfl

/-- **A report that computes `INT_MAX + 1`** is undefined behaviour. -/
theorem u7Init_overflows (hchain : Chain s.next s.head xs) (hsorts : Sorts env.qsort)
    (h : InitOverflows R env s xs) : u7Init R env s = .error .signedOverflow := by
  obtain ⟨hxs, hoverflows⟩ := h
  split_ifs at hoverflows with halloc
  · rw [u7Init_of_noMemory hchain hxs halloc, InitState.errnof]
    have herrnof := u7Errnof_overflows hoverflows ENOMEM_ne_zero
    rw [noMemoryFormat] at herrnof
    rw [herrnof, error_bind]
  · obtain ⟨name, hleast, hoverflows⟩ := hoverflows
    rw [Bool.not_eq_false] at halloc
    obtain ⟨record, -, hrecord, hinit⟩ :=
      u7Init_of_duplicate hchain hsorts halloc hleast.1.not_nodup
    rw [hinit, hrecord.unique hleast, u7Errnof_overflows hoverflows EINVAL_ne_zero, error_bind]

/-- A call that cannot allocate the array says so. -/
theorem u7Init_noMemory (hchain : Chain s.next s.head xs) (hxs : xs ≠ [])
    (halloc : env.libc.allocates s.mem.mallocs = false)
    (hlive : ∃ x, s.mem.payloads.cell fallback = some x)
    (hlength : ¬ Overflows env.libc noMemoryFormat [] s.countMalloc.mem) :
    ∃ e mem, u7Init R env s = .ok (e, { s with mem := mem }) ∧ e.errorCode = ENOMEM := by
  obtain ⟨e, mem, herrnof, hcode⟩ :=
    u7Errnof_ok (matches_of_not_fast not_fast_noMemoryFormat []) hlength hlive ENOMEM_ne_zero
  refine ⟨e, mem, ?_, hcode⟩
  rw [noMemoryFormat] at herrnof
  rw [u7Init_of_noMemory hchain hxs halloc, InitState.errnof, herrnof]
  rfl

/-- The loop that fails at a record makes the call return its error. -/
theorem u7Init_stopped (hchain : Chain s.next s.head xs) (henv : LeavesRegistry s env)
    (halloc : env.libc.allocates s.mem.mallocs = true) (hnodup : (xs.map R.name).Nodup)
    {l r : List ρ} {record : ρ} (hperm : (l ++ record :: r).Perm xs)
    (hsorted : (l ++ record :: r).Pairwise R.Before)
    (hok : ∀ x ∈ l, (env.initFn x).error.errorCode = 0)
    (hfail : (env.initFn record).error.errorCode ≠ 0) :
    ∃ s', u7Init R env s = .ok ((env.initFn record).error, s') ∧
      s'.calls = s.calls ++ (l ++ [record]) ∧ Chain s'.next s'.head xs := by
  have hxs : xs ≠ [] := by
    rintro rfl
    simpa using hperm.length_eq
  -- there is one sorted arrangement, so the array is the given one
  obtain ⟨harrayPerm, harraySorted⟩ := sorted_array R henv.sorts hnodup
  have harray : env.qsort R.cmp (env.qsort R.cmpByName xs) = l ++ record :: r :=
    eq_of_pairwise_lt (harrayPerm.trans hperm.symm) harraySorted
      (hsorted.imp fun hbefore => (R.key_lt_iff _ _).mpr hbefore)
  obtain ⟨s', hrun, hran⟩ := runInitFns_of_failing (r := r) hok hfail s.countMalloc.newArray
  refine ⟨s'.freeArray, ?_, hran.freeArray.calls,
    hran.freeArray.chain_of_leaves henv.registers hchain⟩
  rw [u7Init_of_array hchain hxs halloc, (adjacent_names_eq_none_iff henv.sorts xs).mpr hnodup]
  simp only [harray, hrun]

/-- Without equal names no call is refused before the first `init_fn`. -/
theorem not_refused (hchain : Chain s.next s.head xs) (hsorts : Sorts env.qsort)
    (halloc : env.libc.allocates s.mem.mallocs = true) (hnodup : (xs.map R.name).Nodup)
    {e : U7Error} {s' : InitState ρ} (hinit : u7Init R env s = .ok (e, s'))
    (hcode : e.errorCode = EINVAL) : s'.calls ≠ s.calls := by
  intro hcalls
  cases u7Init_effect hchain hsorts hinit with
  | empty => exact EINVAL_ne_zero hcode.symm
  | noMemory _ hfail _ =>
      rw [halloc] at hfail
      cases hfail
  | duplicate _ _ hdup _ => exact hdup hnodup
  | stopped _ _ _ _ hran _ _ =>
      rw [hran.calls] at hcalls
      simp at hcalls
  | done => exact EINVAL_ne_zero hcode.symm

/-- With enough memory the message ends with the least name that occurs twice. -/
theorem u7Init_message (hchain : Chain s.next s.head xs) (hsorts : Sorts env.qsort)
    (halloc : ∀ n, env.libc.allocates n = true) {render : CStr → List VaArg → List UInt8}
    (hprints : env.libc.Prints render) {name : CStr} (hleast : R.LeastDuplicate xs name)
    (hrender : render duplicateFormat [.str name.object] = duplicatePrefix.bytes ++ name.bytes)
    (hlen : ((duplicatePrefix.bytes ++ name.bytes).length : ℤ) + 1 ≤ intMax) :
    ∃ e mem p x b bytes, u7Init R env s = .ok (e, { s with mem := mem }) ∧
      e.payload = some p ∧ mem.payloads.cell p = some x ∧ x.message = .block b ∧
      mem.buffers.cell b = some bytes ∧
      (duplicatePrefix.bytes ++ name.bytes).map some ++ [some 0] <+: bytes := by
  obtain ⟨record, -, hrecord, hinit⟩ :=
    u7Init_of_duplicate hchain hsorts (halloc _) hleast.1.not_nodup
  obtain rfl := hrecord.unique hleast
  rw [← hrender] at hlen ⊢
  have hpath := generalMessage_renders hprints halloc hlen s.countMalloc.mem
  rw [← messagePath_of_not_fast not_fast_duplicateFormat] at hpath
  obtain ⟨p, b, bytes, mem, hcreate, -, -, hpayload, hbuffer, hbytes⟩ :=
    verrorfWithCause_carries halloc EINVAL_ne_zero u7Ok hpath
  refine ⟨⟨EINVAL, some p⟩, mem, p, _, b, bytes, ?_, rfl, hpayload, rfl, hbuffer, hbytes⟩
  rw [hinit, u7Errnof, hcreate]
  rfl

end Calls

/-- **`u7_init` reports failures exactly and keeps the registry**, if and only if the text
it reports does not have `INT_MAX` bytes where `u7_errnof` adds `1` to its length. -/
theorem init_failures_iff [Fintype ρ] (R : Initializers ρ) (env : InitEnv ρ) (s : InitState ρ)
    (xs : List ρ) (hchain : Chain s.next s.head xs) (henv : LeavesRegistry s env)
    (hlive : ∃ x, s.mem.payloads.cell fallback = some x) :
    ReportsFailures R env s xs ↔ ¬ InitOverflows R env s xs := by
  constructor
  · intro hreports hoverflows
    have hfault := u7Init_overflows hchain henv.sorts hoverflows
    obtain ⟨hxs, hoverflows⟩ := hoverflows
    split_ifs at hoverflows with halloc
    · obtain ⟨e, mem, hinit, -⟩ := hreports.noMemory hxs halloc
      rw [hfault] at hinit
      cases hinit
    · obtain ⟨name, hleast, -⟩ := hoverflows
      rw [Bool.not_eq_false] at halloc
      obtain ⟨-, -, -, e, mem, -, hinit⟩ := hreports.duplicate halloc hleast.1.not_nodup
      rw [hfault] at hinit
      cases hinit
  · intro hlength
    have hduplicate : env.libc.allocates s.mem.mallocs = true → ¬ (xs.map R.name).Nodup →
        ∃ record ∈ xs, R.LeastDuplicate xs (R.name record) ∧ ∃ e mem,
          u7Errnof env.libc EINVAL duplicateFormat [.str (R.name record).object]
            s.countMalloc.mem = .ok (e, mem) ∧
          u7Init R env s = .ok (e, { s with mem := mem }) := by
      intro halloc hdup
      obtain ⟨record, hmem, hleast, hinit⟩ :=
        u7Init_of_duplicate hchain henv.sorts halloc hdup
      have hfits : ¬ Overflows env.libc duplicateFormat [.str (R.name record).object]
          s.countMalloc.mem := by
        intro hoverflows
        refine hlength ⟨List.ne_nil_of_mem hmem, ?_⟩
        rw [if_neg (Bool.not_eq_false _ ▸ halloc)]
        exact ⟨_, hleast, hoverflows⟩
      obtain ⟨e, mem, herrnof, -⟩ :=
        u7Errnof_ok (matches_of_not_fast not_fast_duplicateFormat _) hfits hlive EINVAL_ne_zero
      exact ⟨record, hmem, hleast, e, mem, herrnof, by rw [hinit, herrnof]; rfl⟩
    refine ⟨fun hxs halloc => ?_, fun halloc => ⟨?_, fun hdup => ?_⟩, hduplicate, ?_, ?_⟩
    · refine u7Init_noMemory hchain hxs halloc hlive fun hoverflows => hlength ⟨hxs, ?_⟩
      rwa [if_pos halloc]
    · rintro ⟨e, s', hinit, hcode, hcalls⟩ hnodup
      exact not_refused hchain henv.sorts halloc hnodup hinit hcode hcalls
    · obtain ⟨record, -, -, e, mem, herrnof, hinit⟩ := hduplicate halloc hdup
      exact ⟨e, _, hinit, errorCode_of_u7VerrorfWithCause herrnof, rfl⟩
    · intro halloc render hprints name hleast hrender hlen
      exact u7Init_message hchain henv.sorts halloc hprints hleast hrender hlen
    · intro halloc hnodup l record r hperm hsorted hok hfail
      exact u7Init_stopped hchain henv halloc hnodup hperm hsorted hok hfail

/-! ### Two records of one name -/

/-- A renderer for the texts of `u7_init`. -/
def renderInit (format : CStr) : List VaArg → List UInt8
  | .str object :: _ => duplicatePrefix.bytes ++ cString object
  | _ => format.bytes

/-- Enough memory, an insertion sort, and `init_fn`s that return ok. -/
def reportingEnv : InitEnv (Fin 2) :=
  { InitEnv.calm fun _ => [] with libc := .ofRender renderInit }

theorem leavesRegistry_reportingEnv (s : InitState (Fin 2)) : LeavesRegistry s reportingEnv :=
  ⟨sorts_insertionSort, fun _ => rfl⟩

/-- Two records of one name and different precedences. -/
def namesakes (name : CStr) : Initializers (Fin 2) where
  precedence := ![0, 1]
  name := fun _ => name

/-- Two registrations. -/
def registeredTwice (first second : Fin 2) : InitState (Fin 2) :=
  u7InitializerRegister second (u7InitializerRegister first (InitState.start (Fin 2)))

theorem chain_registeredTwice :
    Chain (registeredTwice 0 1).next (registeredTwice 0 1).head [1, 0] :=
  .cons (.cons .nil)

/-- Their name is the only one that occurs twice. -/
theorem leastDuplicate_namesakes {name name' : CStr} :
    (namesakes name).LeastDuplicate [1, 0] name' ↔ name' = name := by
  have hiff : ∀ k, List.Duplicate k ([1, 0].map (namesakes name).name) ↔ k = name := by
    intro k
    have hmap : [1, 0].map (namesakes name).name = [name, name] := rfl
    rw [hmap, List.duplicate_cons_iff]
    simp [List.not_duplicate_singleton, eq_comm]
  constructor
  · exact fun hleast => (hiff name').mp hleast.1
  · rintro rfl
    exact ⟨(hiff name').mpr rfl, fun k hk => ((hiff k).mp hk).ge⟩

/-- The call reports a text of `INT_MAX` bytes if the name is long enough. -/
theorem initOverflows_namesakes_iff (name : CStr) :
    InitOverflows (namesakes name) reportingEnv (registeredTwice 0 1) [1, 0] ↔
      intMax ≤ (duplicatePrefix.bytes ++ name.bytes).length := by
  have hlength : Overflows reportingEnv.libc duplicateFormat [.str name.object]
      (registeredTwice 0 1).countMalloc.mem ↔
        intMax ≤ (duplicatePrefix.bytes ++ cString name.object).length := by
    rw [overflows_of_not_fast_iff not_fast_duplicateFormat]
    exact and_iff_right rfl
  rw [cString_object] at hlength
  have halloc : reportingEnv.libc.allocates (registeredTwice 0 1).mem.mallocs = true := rfl
  simp only [InitOverflows, halloc, Bool.true_eq_false, if_false, leastDuplicate_namesakes,
    exists_eq_left, ← hlength]
  exact and_iff_right (List.cons_ne_nil _ _)

/-- Two records called `duplicate` are reported. -/
theorem init_failures_iff_duplicate :
    ∃ e s', u7Init (namesakes (.lit "duplicate")) reportingEnv (registeredTwice 0 1) =
        .ok (e, s') ∧
      e.errorCode = EINVAL ∧ s'.calls = [] := by
  have hshort : ¬ InitOverflows (namesakes (.lit "duplicate")) reportingEnv (registeredTwice 0 1)
      [1, 0] := by
    rw [initOverflows_namesakes_iff]
    decide
  have hreports := (init_failures_iff (namesakes (.lit "duplicate")) reportingEnv
    (registeredTwice 0 1) [1, 0] chain_registeredTwice (leavesRegistry_reportingEnv _)
    ⟨_, rfl⟩).mpr hshort
  exact (hreports.refuses rfl).mpr (by decide)

/-- A name that is long enough is not reported. -/
theorem namesakes_overflow {name : CStr}
    (hlong : intMax ≤ (duplicatePrefix.bytes ++ name.bytes).length) :
    u7Init (namesakes name) reportingEnv (registeredTwice 0 1) = .error .signedOverflow ∧
      ¬ ReportsFailures (namesakes name) reportingEnv (registeredTwice 0 1) [1, 0] := by
  have hfault := u7Init_overflows chain_registeredTwice
    (leavesRegistry_reportingEnv (registeredTwice 0 1)).sorts
    ((initOverflows_namesakes_iff name).mpr hlong)
  refine ⟨hfault, fun hreports => ?_⟩
  have hdup : (namesakes name).LeastDuplicate [1, 0] name := leastDuplicate_namesakes.mpr rfl
  obtain ⟨-, -, -, e, mem, -, hinit⟩ := hreports.duplicate rfl hdup.1.not_nodup
  rw [hfault] at hinit
  cases hinit

/-- Two records whose name is `38` bytes shorter than `INT_MAX` make `u7_errnof` add `1` to
`INT_MAX`. -/
theorem init_failure_overflows :
    u7Init (namesakes (letters (intMax.toNat - 38))) reportingEnv (registeredTwice 0 1) =
        .error .signedOverflow ∧
      ¬ ReportsFailures (namesakes (letters (intMax.toNat - 38))) reportingEnv
        (registeredTwice 0 1) [1, 0] := by
  refine namesakes_overflow ?_
  have hprefix : duplicatePrefix.bytes.length = 38 := rfl
  have hletters : (letters (intMax.toNat - 38)).bytes.length = intMax.toNat - 38 :=
    List.length_replicate
  have hmax : 38 ≤ intMax := by norm_num [intMax]
  rw [List.length_append, hprefix, hletters]
  omega

end U7Init
