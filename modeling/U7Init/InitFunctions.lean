import U7Init.Error.Forwarding
import U7Init.InitFailures

/-!
# Initializers That Return Errors

The `init_fn`s of a program are functions that return errors, so they follow the patterns of
the library, and whoever calls `u7_init` follows them too. This module puts both together:
with such `init_fn`s a call of `u7_init` is itself a function of these patterns, a chain of
`U7_RETURN_IF_ERROR` in the order of precedence and name.

## Main results

* `runInitFns_eq_exec`: the loop over the array is a chain of `U7_RETURN_IF_ERROR`.
* `u7Init_eq_exec`: so is a call of `u7_init`, or it returns an error of its own.
* `init_is_a_function`: what a call throws and prints, and whose references are left.
-/

namespace U7Init

open Outcome IntrusiveList Qsort

variable {ρ : Type}

/-- `U7_RETURN_IF_ERROR(init_fn())` for each of the records; `return u7_ok();` -/
def initAll (initFn : ρ → ErrorFn) : List ρ → ErrorFn
  | [] => .ok
  | record :: array => .returnIfError (initFn record) (initAll initFn array)

/-- The `init_fn`s do what these functions do when the records are taken one after another,
up to the first error: they return their errors, print their lines, leave their memory to the
next one, and register nothing. -/
def InitEnv.Runs (env : InitEnv ρ) (initFn : ρ → ErrorFn) : List ρ → Mem → Prop
  | [], _ => True
  | record :: array, m => ∀ e lines m', (initFn record).exec env.libc m = .ok ((e, lines), m') →
      env.initFn record = ⟨e, [], lines, m'⟩ ∧ (e.errorCode = 0 → env.Runs initFn array m')

/-- What a call of `u7_init` on the registry `xs` amounts to. -/
inductive InitFunction (R : Initializers ρ) (initFn : ρ → ErrorFn) (xs : List ρ)
    (allocates : Bool) : ErrorFn → Prop
  | empty : xs = [] → InitFunction R initFn xs allocates .ok
  | noMemory : xs ≠ [] → allocates = false →
      InitFunction R initFn xs allocates (.errorf ENOMEM noMemoryFormat [])
  | duplicate {record : ρ} : allocates = true → record ∈ xs →
      R.LeastDuplicate xs (R.name record) →
      InitFunction R initFn xs allocates
        (.errorf EINVAL duplicateFormat [.str (R.name record).object])
  | all {array : List ρ} : xs ≠ [] → allocates = true → array.Perm xs →
      array.Pairwise R.Before → InitFunction R initFn xs allocates (initAll initFn array)

section Loop

variable [DecidableEq ρ] {env : InitEnv ρ} {initFn : ρ → ErrorFn}

/-- **The loop over the array** is a chain of `U7_RETURN_IF_ERROR`. -/
theorem runInitFns_eq_exec {array : List ρ} {s : InitState ρ} {e : U7Error}
    {lines : List (List UInt8)} {m' : Mem} (hruns : env.Runs initFn array s.mem)
    (h : (initAll initFn array).exec env.libc s.mem = .ok ((e, lines), m')) :
    ∃ s', runInitFns env array s = (if e.errorCode ≠ 0 then some e else none, s') ∧
      s'.mem = m' ∧ s'.output = s.output ++ lines ∧ (e.errorCode = 0 → e = u7Ok) ∧
      s'.head = s.head ∧ s'.next = s.next ∧ s'.arrays = s.arrays := by
  induction array generalizing s lines with
  | nil =>
      obtain ⟨hr, rfl⟩ := Prod.mk.inj (Except.ok.inj h)
      obtain ⟨rfl, rfl⟩ := Prod.mk.inj hr
      exact ⟨s, rfl, rfl, (List.append_nil _).symm, fun _ => rfl, rfl, rfl, rfl⟩
  | cons record array ih =>
      rw [initAll, ErrorFn.exec] at h
      obtain ⟨⟨⟨tmp, first⟩, m₁⟩, hexec, h⟩ := bind_eq_ok_iff.mp h
      obtain ⟨houtcome, hrest⟩ := hruns tmp first m₁ hexec
      let called : InitState ρ :=
        { s with mem := m₁, calls := s.calls ++ [record], output := s.output ++ first }
      have hcall : s.callInitFn env record = called := by
        rw [InitState.callInitFn, houtcome]
        rfl
      have herror : (env.initFn record).error = tmp := by rw [houtcome]
      rw [runInitFns, hcall, herror]
      dsimp only at h
      by_cases hcode : tmp.errorCode = 0
      · rw [if_neg (not_not.mpr hcode)] at h
        obtain ⟨⟨⟨e', rest⟩, m₂⟩, hexec', h⟩ := bind_eq_ok_iff.mp h
        obtain ⟨hr, rfl⟩ := Prod.mk.inj (Except.ok.inj h)
        obtain ⟨rfl, rfl⟩ := Prod.mk.inj hr
        obtain ⟨s', hrun, hmem, houtput, hok, hhead, hnext, harrays⟩ :=
          ih (s := called) (hrest hcode) hexec'
        refine ⟨s', ?_, hmem, ?_, hok, hhead, hnext, harrays⟩
        · rw [if_neg (not_not.mpr hcode), hrun]
        · rw [houtput, ← List.append_assoc]
      · rw [if_pos hcode] at h
        obtain ⟨hr, rfl⟩ := Prod.mk.inj (Except.ok.inj h)
        obtain ⟨rfl, rfl⟩ := Prod.mk.inj hr
        refine ⟨called, ?_, rfl, rfl, fun h => absurd h hcode, rfl, rfl, rfl⟩
        rw [if_pos hcode, if_pos hcode]

end Loop

section Call

variable [DecidableEq ρ] [Fintype ρ] {R : Initializers ρ} {env : InitEnv ρ} {initFn : ρ → ErrorFn}
  {s : InitState ρ} {xs : List ρ}

/-- The array after both sorts. -/
def sortedArray (R : Initializers ρ) (env : InitEnv ρ) (xs : List ρ) : List ρ :=
  env.qsort R.cmp (env.qsort R.cmpByName xs)

/-- The memory in which `u7_init` starts to work. -/
def InitState.called (s : InitState ρ) (xs : List ρ) : Mem :=
  if xs = [] then s.mem else s.countMalloc.mem

/-- **A call of `u7_init`** is a chain of `U7_RETURN_IF_ERROR`, or returns an error of its own:
if that function ends so does the call, with the same error, the same output and the same
memory. The registry is emptied by a call that returns ok and kept by any other, and no array
is left. -/
theorem u7Init_eq_exec (hchain : Chain s.next s.head xs) (hsorts : Sorts env.qsort)
    (hruns : env.Runs initFn (sortedArray R env xs) s.countMalloc.mem) :
    ∃ f, InitFunction R initFn xs (env.libc.allocates s.mem.mallocs) f ∧
      ∀ {e lines m'}, f.exec env.libc (s.called xs) = .ok ((e, lines), m') →
        ∃ s', u7Init R env s = .ok (e, s') ∧ s'.mem = m' ∧ s'.output = s.output ++ lines ∧
          s'.arrays = s.arrays ∧
          Chain s'.next s'.head (if e.errorCode = 0 then [] else xs) := by
  by_cases hxs : xs = []
  · subst hxs
    refine ⟨.ok, .empty rfl, fun h => ?_⟩
    obtain ⟨hr, rfl⟩ := Prod.mk.inj (Except.ok.inj h)
    obtain ⟨rfl, rfl⟩ := Prod.mk.inj hr
    exact ⟨s, u7Init_of_nil hchain, rfl, (List.append_nil _).symm, rfl, hchain⟩
  rw [InitState.called, if_neg hxs]
  -- what `u7_errnof` returns is what `u7_errorf` returns
  have herrnof : ∀ {code : ℤ} {format : CStr} {arg : List VaArg} {e lines m'}, code ≠ 0 →
      (ErrorFn.errorf code format arg).exec env.libc s.countMalloc.mem = .ok ((e, lines), m') →
      u7Errnof env.libc code format arg s.countMalloc.mem = .ok (e, m') ∧ e.errorCode ≠ 0 ∧
        lines = [] := by
    intro code format arg e lines m' hcode h
    obtain ⟨r, hcreate, hrest⟩ := bind_eq_ok_iff.mp h
    obtain ⟨hr, rfl⟩ := Prod.mk.inj (Except.ok.inj hrest)
    obtain ⟨rfl, rfl⟩ := Prod.mk.inj hr
    exact ⟨hcreate, by rwa [errorCode_of_u7VerrorfWithCause hcreate], rfl⟩
  cases halloc : env.libc.allocates s.mem.mallocs with
  | false =>
      refine ⟨_, .noMemory hxs rfl, fun h => ?_⟩
      obtain ⟨hcreate, hcode, rfl⟩ := herrnof ENOMEM_ne_zero h
      rw [if_neg hcode]
      rw [noMemoryFormat] at hcreate
      refine ⟨{ s with mem := _ }, ?_, rfl, (List.append_nil _).symm, rfl, hchain⟩
      rw [u7Init_of_noMemory hchain hxs halloc, InitState.errnof, hcreate]
      rfl
  | true =>
      by_cases hnodup : (xs.map R.name).Nodup
      · obtain ⟨hperm, hsorted⟩ := sorted_array R hsorts hnodup
        refine ⟨_, .all hxs rfl hperm (hsorted.imp fun h => (R.key_lt_iff _ _).mp h),
          fun {e lines m'} h => ?_⟩
        obtain ⟨s', hrun, hmem, houtput, hok, hhead, hnext, harrays⟩ :=
          runInitFns_eq_exec (s := s.countMalloc.newArray) hruns h
        have hfree : s'.freeArray.arrays = s.arrays := by
          rw [InitState.freeArray, harrays]
          rfl
        rw [u7Init_of_array hchain hxs halloc,
          (adjacent_names_eq_none_iff hsorts xs).mpr hnodup]
        dsimp only
        rw [sortedArray] at hrun
        rw [hrun]
        by_cases hcode : e.errorCode = 0
        · rw [if_neg (not_not.mpr hcode), if_pos hcode, hok hcode]
          exact ⟨_, rfl, hmem, houtput, hfree, .nil⟩
        · rw [if_pos hcode, if_neg hcode]
          refine ⟨_, rfl, hmem, houtput, hfree, ?_⟩
          change Chain s'.next s'.head xs
          rw [hnext, hhead]
          exact hchain
      · obtain ⟨record, hmem, hleast, hinit⟩ := u7Init_of_duplicate hchain hsorts halloc hnodup
        refine ⟨_, .duplicate rfl hmem hleast, fun h => ?_⟩
        obtain ⟨hcreate, hcode, rfl⟩ := herrnof EINVAL_ne_zero h
        rw [if_neg hcode]
        refine ⟨{ s with mem := _ }, ?_, rfl, (List.append_nil _).symm, rfl, hchain⟩
        rw [hinit, hcreate, ok_bind]

omit [DecidableEq ρ] [Fintype ρ] in
theorem formats_initAll {render : CStr → List VaArg → List UInt8} {array : List ρ}
    (h : ∀ record ∈ array, (initFn record).Formats render) :
    (initAll initFn array).Formats render := by
  induction array with
  | nil => trivial
  | cons record array ih =>
      obtain ⟨hrecord, hrest⟩ := List.forall_mem_cons.mp h
      exact ⟨hrecord, ih hrest⟩

omit [DecidableEq ρ] [Fintype ρ] in
theorem size_initAll (initFn : ρ → ErrorFn) (array : List ρ) :
    (initAll initFn array).size = (array.map fun record => (initFn record).size).sum := by
  induction array with
  | nil => rfl
  | cons record array ih => rw [initAll, ErrorFn.size, ih, List.map_cons, List.sum_cons]

omit [DecidableEq ρ] [Fintype ρ] in
/-- The function that a call amounts to has fitting messages if the `init_fn`s do. -/
theorem InitFunction.formats {render : CStr → List VaArg → List UInt8} {allocates : Bool}
    {f : ErrorFn} (h : InitFunction R initFn xs allocates f)
    (hformats : ∀ record ∈ xs, (initFn record).Formats render)
    (hnoMemory : (render noMemoryFormat []).length + 1 ≤ intMax)
    (hnames : ∀ record ∈ xs,
      (render duplicateFormat [.str (R.name record).object]).length + 1 ≤ intMax) :
    f.Formats render := by
  cases h with
  | empty _ => trivial
  | noMemory _ _ => exact ⟨matches_of_not_fast not_fast_noMemoryFormat [], hnoMemory⟩
  | duplicate _ hmem _ =>
      exact ⟨matches_of_not_fast not_fast_duplicateFormat _, hnames _ hmem⟩
  | all _ _ hperm _ => exact formats_initAll fun record hmem => hformats record (hperm.subset hmem)

omit [DecidableEq ρ] [Fintype ρ] in
/-- It creates no more errors than the `init_fn`s do, or one. -/
theorem InitFunction.size_le {allocates : Bool} {f : ErrorFn}
    (h : InitFunction R initFn xs allocates f) :
    f.size ≤ (xs.map fun record => (initFn record).size).sum + 1 := by
  cases h with
  | empty _ => exact Nat.zero_le _
  | noMemory _ _ | duplicate _ _ _ => exact Nat.le_add_left 1 _
  | all _ _ hperm _ =>
      rw [size_initAll, (hperm.map fun record => (initFn record).size).sum_eq]
      exact Nat.le_succ _

end Call

/-- Counting a call of `malloc` changes nothing. -/
theorem Owned.called {s : InitState ρ} {out loose : ℕ → ℕ} (h : Owned s.mem out loose)
    (xs : List ρ) : Owned (s.called xs) out loose ∧ Keeps s.mem (s.called xs) out ∧
      (s.called xs).links = s.mem.links := by
  rw [InitState.called]
  by_cases hxs : xs = []
  · rw [if_pos hxs]
    exact ⟨h, fun _ _ _ => id, rfl⟩
  · rw [if_neg hxs]
    have howned : Owned s.countMalloc.mem (out + 0) loose :=
      ⟨h.count, h.live, h.held, h.pinned, h.onHeap, h.wellFormed, h.causeLt, h.buffer, h.nodup,
        h.disposed⟩
    have hpreserves : Preserves s.mem s.countMalloc.mem := by
      refine ⟨fun {p x'} hx _ => ⟨x', x'.refcount, hx, rfl⟩, fun {b bytes bytes'} hb hb' => ?_⟩
      exact Option.some.inj (hb'.symm.trans hb)
    exact ⟨howned, hpreserves.keeps howned, rfl⟩

/-- **`u7_init` is a function that returns errors.** If the `init_fn`s are functions of the
library's patterns and leave the registry alone, a call of `u7_init` is one too: the chain of
`U7_RETURN_IF_ERROR` over the records in the order of precedence and name, or an error about
`malloc` or the least name that occurs twice. Its `init_fn`s print the lines, and it returns the
error, that this function means; it leaves one reference to the error and nothing else of it, no
array, and what others own says what it said. A call that returns ok empties the registry, and
any other keeps it. -/
theorem init_is_a_function [DecidableEq ρ] [Fintype ρ] (R : Initializers ρ) (env : InitEnv ρ)
    (initFn : ρ → ErrorFn) (s : InitState ρ) (xs : List ρ)
    (render : CStr → List VaArg → List UInt8) (hrender : Printf render)
    (hprints : env.libc.PrintsOrFails render) (hsorts : Sorts env.qsort)
    (hchain : Chain s.next s.head xs)
    (hruns : env.Runs initFn (sortedArray R env xs) s.countMalloc.mem)
    (hformats : ∀ record ∈ xs, (initFn record).Formats render)
    (hnoMemory : (render noMemoryFormat []).length + 1 ≤ intMax)
    (hnames : ∀ record ∈ xs,
      (render duplicateFormat [.str (R.name record).object]).length + 1 ≤ intMax)
    (out loose : ℕ → ℕ) (howned : Owned s.mem out loose)
    (hbound : ∀ q, out q + s.mem.links q +
      ((xs.map fun record => (initFn record).size).sum + 1) < 2 ^ 32) :
    ∃ f e lines s' v, InitFunction R initFn xs (env.libc.allocates s.mem.mallocs) f ∧
      u7Init R env s = .ok (e, s') ∧
      f.exec env.libc (s.called xs) = .ok ((e, lines), s'.mem) ∧
      f.Means render (env.libc.Fails render) lines v ∧ Denotes s'.mem e v ∧
      (¬ env.libc.Fails render → ∀ lines' v', f.Means render (env.libc.Fails render) lines' v' →
        lines' = lines ∧ v' = v) ∧
      s'.output = s.output ++ lines ∧ Owned s'.mem (out + refsTo e.payload) loose ∧
      Keeps s.mem s'.mem out ∧ s'.arrays = s.arrays ∧
      Chain s'.next s'.head (if v = [] then [] else xs) := by
  obtain ⟨f, hf, hexec_of⟩ := u7Init_eq_exec hchain hsorts hruns
  obtain ⟨howned', hkeeps, hlinks⟩ := howned.called xs
  have hsize := hf.size_le
  obtain ⟨e, lines, m', v, hexec, hmeans, hreturns⟩ :=
    sound_of_formats hrender hprints (hf.formats hformats hnoMemory hnames) (s.called xs) howned'
      fun q => by
        have hq := hbound q
        rw [hlinks]
        omega
  obtain ⟨s', hinit, rfl, houtput, harrays, hregistry⟩ := hexec_of hexec
  refine ⟨f, e, lines, s', v, hf, hinit, hexec, hmeans, hreturns.denotes,
    fun hfails _ _ h => h.unique hfails hmeans, houtput, hreturns.owned,
    hkeeps.trans hreturns.keeps, harrays, ?_⟩
  simpa only [hreturns.denotes.eq_nil_iff] using hregistry

/-- The loader returns ok, and the plugin an error with a cause. -/
def pluginFunctions : Fin 2 → ErrorFn :=
  ![.ok, gnErr]

/-- What an `init_fn` does that registers nothing. -/
def initOutcome {ρ : Type} :
    Except Fault ((U7Error × List (List UInt8)) × Mem) → InitOutcome ρ
  | .ok ((e, lines), m') => ⟨e, [], lines, m'⟩
  | .error _ => ⟨u7Ok, [], [], Mem.start⟩

/-- Both `init_fn`s are called with the memory of a call that has its array. -/
def pluginEnv : InitEnv (Fin 2) where
  libc := .ofShort renderPlain
  qsort := fun cmp xs => xs.insertionSort fun x y => cmp x y ≤ 0
  initFn := fun record => initOutcome
    ((pluginFunctions record).exec (.ofShort renderPlain) { Mem.start with mallocs := 1 })

theorem sortedArray_pluginEnv : sortedArray twoInitializers pluginEnv [1, 0] = [0, 1] := by
  decide

theorem runs_pluginEnv :
    pluginEnv.Runs pluginFunctions (sortedArray twoInitializers pluginEnv [1, 0])
      (registeredTwice 0 1).countMalloc.mem := by
  have houtcome : ∀ {record e lines m'}, (pluginFunctions record).exec pluginEnv.libc
      (registeredTwice 0 1).countMalloc.mem = .ok ((e, lines), m') →
      pluginEnv.initFn record = ⟨e, [], lines, m'⟩ := fun h => congrArg initOutcome h
  rw [sortedArray_pluginEnv]
  refine fun e lines m' h => ⟨houtcome h, fun _ => ?_⟩
  obtain ⟨-, rfl⟩ := Prod.mk.inj (Except.ok.inj h)
  exact fun e lines m' h => ⟨houtcome h, fun _ => trivial⟩

/-- The error of the plugin is what the call returns, and the registry is kept. -/
theorem init_is_a_function_plugin :
    ∃ e s', u7Init twoInitializers pluginEnv (registeredTwice 0 1) = .ok (e, s') ∧
      Denotes s'.mem e [⟨22, (CStr.lit "foo.bar" nul_free_foo_bar).bytes⟩,
        ⟨22, (CStr.lit "Hello, World!" nul_free_hello).bytes⟩] ∧
      Owned s'.mem (refsTo e.payload) 0 ∧ Chain s'.next s'.head [1, 0] := by
  have hstring : ∀ s : CStr, Matches (.lit "%s" nul_free_string) [.str s.object] := fun s =>
    ⟨fun _ => ⟨_, _, rfl, s.nul_mem_object⟩, fun h => absurd h (by decide)⟩
  have hformats : ∀ record ∈ [1, 0], (pluginFunctions record).Formats renderPlain := by
    intro record _
    match record with
    | 0 => exact trivial
    | 1 => exact ⟨⟨⟨hstring _, by decide⟩, trivial⟩, hstring _, by decide⟩
  have hbound : ∀ q, (0 : ℕ → ℕ) q + (registeredTwice 0 1).mem.links q +
      (([1, 0].map fun record => (pluginFunctions record).size).sum + 1) < 2 ^ 32 := by
    intro q
    have hrefs : (0 : ℕ → ℕ) q + (registeredTwice 0 1).mem.links q +
      (([1, 0].map fun record => (pluginFunctions record).size).sum + 1) = 3 := rfl
    rw [hrefs]
    norm_num
  obtain ⟨f, e, lines, s', v, hf, hinit, -, -, hdenotes, hunique, -, howned, -, -,
    hregistry⟩ :=
    init_is_a_function twoInitializers pluginEnv pluginFunctions (registeredTwice 0 1) [1, 0]
      renderPlain printf_renderPlain (printsOrFails_ofShort renderPlain) sorts_insertionSort
      chain_registeredTwice runs_pluginEnv hformats (by decide) (by decide) 0 0 owned_start hbound
  have hnodup : ([1, 0].map twoInitializers.name).Nodup := by decide
  have hchain : f = initAll pluginFunctions [0, 1] := by
    cases hf with
    | empty h => cases h
    | noMemory _ h => cases h
    | duplicate _ _ hleast =>
        exact absurd hleast.1 (List.nodup_iff_forall_not_duplicate.mp hnodup _)
    | all _ _ hperm hbefore =>
        obtain ⟨hperm', hsorted⟩ := sorted_array twoInitializers
          (show Sorts pluginEnv.qsort from sorts_insertionSort) hnodup
        rw [← sortedArray_pluginEnv, eq_of_pairwise_lt (hperm.trans hperm'.symm)
          (hbefore.imp (twoInitializers.key_lt_iff _ _).mpr) hsorted]
        rfl
  subst hchain
  have hmeans : (initAll pluginFunctions [0, 1]).Means renderPlain
      ((Libc.ofShort renderPlain).Fails renderPlain) ([] ++ []) _ :=
    .returned .ok (.thrown (.errorfWithCause (.thrown (.errorf (.entry (by decide)))
      (List.cons_ne_nil _ _)) (.entry (by decide))) (List.cons_ne_nil _ _))
  obtain ⟨-, rfl⟩ := hunique (not_fails_ofShort renderPlain) _ _ hmeans
  rw [zero_add] at howned
  exact ⟨e, s', hinit, hdenotes, howned, hregistry⟩

end U7Init
