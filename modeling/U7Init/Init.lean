import Mathlib.Data.Prod.Lex
import U7Init.Error.Create
import U7Init.Lib.IntrusiveList
import U7Init.Lib.Qsort

/-!
# The Initializer Registry

This module models `init.c`: the registry, a list linked through the records themselves,
`u7_initializer_register` and `u7_init`. The records are the elements of any finite type, which
stand for their addresses. The precedence and the name of a record never change, so they are
functions on that type (`Initializers`); the links do, so they belong to the state
(`InitState`), and nothing forces them to form a list: a loop along them may go round forever,
which is the fault `diverges` here.

## What a call meets with

What lies outside of the repository is a parameter of each call of `u7_init` (`InitEnv`): the C
library, `qsort`, and for every record what its `init_fn` returns, prints and registers and
which memory it leaves. The `init_fn`s may be different from call to call, and a record may
register others, or itself, while `u7_init` walks over its array. Of `qsort` statements assume
that it sorts when its comparison function is consistent, and no more: it may order equal
elements in any way, and the comparison by name alone, which `u7_init` looks for duplicates
with, has equal elements. So the first thing to show is that both comparison functions are
consistent.

## The array

Between its two sorts `u7_init` works on an array of its own, and the registry is not read
again. The array is a list here, and only whether it was freed is part of the state. The head
is set to `NULL` at the end of a call that meets no error, whatever was registered meanwhile.

## Main results

* `compares_cmpByName`, `compares_cmp`: both comparison functions are consistent.
* `u7Init_of_nil`, `u7Init_of_noMemory`, `u7Init_of_array`: the course of a call of
  `u7_init`.
* `u7Init_effect`: everything a call of `u7_init` may do.
* `runInitFns_spec`: what the loop over the sorted array calls and registers.
-/

namespace U7Init

open Outcome IntrusiveList Qsort

/-- `ENOMEM`, with the value it has on Linux. Of this value proofs use only that it is not
zero. -/
def ENOMEM : ℤ := 12

/-- `EINVAL`. -/
def EINVAL : ℤ := 22

theorem ENOMEM_ne_zero : ENOMEM ≠ 0 := by
  norm_num [ENOMEM]

theorem EINVAL_ne_zero : EINVAL ≠ 0 := by
  norm_num [EINVAL]

/-- The fields of `struct u7_initializer` that never change, for all records. The `init_fn`s are
not among them: what a call of one does depends on the state of the program, so it is part of
the environment of each call of `u7_init`. -/
structure Initializers (ρ : Type) where
  precedence : ρ → ℤ
  name : ρ → CStr

/-- `u7_init_record_head` and the `next` fields, the memory of the errors, and how many arrays
`u7_init` has allocated and not freed: the array is only ever seen by the call that allocates
it, so it is counted and not modelled as a block. Which `init_fn`s were called, which records
were registered and what the `init_fn`s printed, in order, is recorded for the statements
only. -/
structure InitState (ρ : Type) where
  head : Option ρ
  next : ρ → Option ρ
  mem : Mem
  arrays : ℕ
  calls : List ρ
  registered : List ρ
  output : List (List UInt8)

/-- What a call of an `init_fn` does: the error it returns, the records it registers in this
order, the lines it prints, and the memory it leaves. An `init_fn` is code of the program, so
all of this is arbitrary, but one that calls `u7_init` itself is outside of the model. -/
structure InitOutcome (ρ : Type) where
  error : U7Error
  registers : List ρ
  lines : List (List UInt8)
  mem : Mem

/-- What a call of `u7_init` meets with outside of the repository: a C library, any function
for `qsort` (statements assume that it sorts, in whatever order it leaves equal elements), and
what each `init_fn` does if this call runs it. A call runs an `init_fn` at most once for each
place of its record in the array, so one outcome for each record is enough. -/
structure InitEnv (ρ : Type) where
  libc : Libc
  qsort : (ρ → ρ → ℤ) → List ρ → List ρ
  initFn : ρ → InitOutcome ρ

variable {ρ : Type}

/-- `u7_initizlizer_cmp_by_name`: the comparison by which records of one name become
neighbours. `qsort` passes pointers into the array, which are followed here already. -/
def Initializers.cmpByName (R : Initializers ρ) (lhs rhs : ρ) : ℤ :=
  strcmp (R.name lhs) (R.name rhs)

/-- `u7_initizlizer_cmp`: by precedence, and by name where the precedences agree. Precedences
are compared and not subtracted, so there is no overflow. -/
def Initializers.cmp (R : Initializers ρ) (lhs rhs : ρ) : ℤ :=
  if R.precedence lhs < R.precedence rhs then -1
  else if R.precedence lhs > R.precedence rhs then 1
  else R.cmpByName lhs rhs

/-- `u7_initializer_register`: the record is put in front, whether it is linked already or not.
The code does not look at the registry at all. -/
def u7InitializerRegister [DecidableEq ρ] (record : ρ) (s : InitState ρ) : InitState ρ :=
  { s with
    head := some record
    next := Function.update s.next record s.head
    registered := s.registered ++ [record] }

/-- The loop along the links from `u7_init_record_head`. On a registry that is no list the loop
does not end. -/
def InitState.records [Fintype ρ] (s : InitState ρ) : Except Fault (List ρ) :=
  match follow s.next s.head with
  | some records => .ok records
  | none => .error .diverges

/-- The state after a call of `malloc`. -/
def InitState.countMalloc (s : InitState ρ) : InitState ρ :=
  { s with mem := { s.mem with mallocs := s.mem.mallocs + 1 } }

/-- The state with one more array. -/
def InitState.newArray (s : InitState ρ) : InitState ρ :=
  { s with arrays := s.arrays + 1 }

/-- `malloc` of the array: whether it succeeds. It is one of the numbered calls of `malloc`, so
the messages of errors and this array draw on the same C library. -/
def InitState.mallocArray (s : InitState ρ) (ℓ : Libc) : Bool × InitState ρ :=
  if ℓ.allocates s.mem.mallocs then (true, s.countMalloc.newArray) else (false, s.countMalloc)

/-- `free(array)`. -/
def InitState.freeArray (s : InitState ρ) : InitState ρ :=
  { s with arrays := s.arrays - 1 }

/-- `u7_errnof`, which changes the memory of the errors and leaves the registry alone. -/
def InitState.errnof (s : InitState ρ) (ℓ : Libc) (errnoCode : ℤ) (format : CStr)
    (arg : List VaArg) : Except Fault (U7Error × InitState ρ) := do
  let (error, mem) ← u7Errnof ℓ errnoCode format arg s.mem
  .ok (error, { s with mem := mem })

variable [DecidableEq ρ]

/-- A call of an `init_fn`, during which it registers records and prints. -/
def InitState.callInitFn (s : InitState ρ) (env : InitEnv ρ) (record : ρ) : InitState ρ :=
  (env.initFn record).registers.foldl (fun s record => u7InitializerRegister record s)
    { s with
      mem := (env.initFn record).mem
      calls := s.calls ++ [record]
      output := s.output ++ (env.initFn record).lines }

/-- The loop over the sorted array, up to the first error. A record that an `init_fn` registers
is put into the registry, but not into the array. -/
def runInitFns (env : InitEnv ρ) : List ρ → InitState ρ → Option U7Error × InitState ρ
  | [], s => (none, s)
  | record :: array, s =>
      let error := (env.initFn record).error
      let s := s.callInitFn env record
      if error.errorCode ≠ 0 then (some error, s) else runInitFns env array s

/-- `u7_init`. The registry is walked over twice, to count the records and to fill the array,
with the `malloc` between the walks. Whether two neighbours have one name is asked of the array
that is sorted by name; the second sort starts from it. -/
def u7Init [Fintype ρ] (R : Initializers ρ) (env : InitEnv ρ) (s : InitState ρ) :
    Except Fault (U7Error × InitState ρ) := do
  let count := (← s.records).length
  if count = 0 then .ok (u7Ok, s)
  else
    let (allocated, s) := s.mallocArray env.libc
    if allocated = false then
      s.errnof env.libc ENOMEM (.lit "u7_init: malloc: failed to allocate buffer") []
    else do
      let array ← s.records
      let array := env.qsort R.cmpByName array
      match adjacent (fun lhs rhs => R.cmpByName lhs rhs == 0) array with
      | some record => do
          let (error, s) ← s.errnof env.libc EINVAL
            (.lit "u7_init: non-unique initializer name: %s") [.str (R.name record).object]
          .ok (error, s.freeArray)
      | none =>
          let array := env.qsort R.cmp array
          match runInitFns env array s with
          | (some error, s) => .ok (error, s.freeArray)
          | (none, s) => .ok (u7Ok, { s.freeArray with head := none })

/-! ### The comparison functions -/

omit [DecidableEq ρ] in
/-- The first comparison function compares names. -/
theorem compares_cmpByName (R : Initializers ρ) : Compares R.cmpByName R.name where
  neg_iff := fun _ _ => strcmp_neg_iff
  pos_iff := fun _ _ => strcmp_pos_iff

/-- The execution order: precedence first, then name. -/
def Initializers.key (R : Initializers ρ) (record : ρ) : ℤ ×ₗ CStr :=
  toLex (R.precedence record, R.name record)

omit [DecidableEq ρ] in
/-- The second comparison function compares precedences, and names where they agree. -/
theorem compares_cmp (R : Initializers ρ) : Compares R.cmp R.key where
  neg_iff := by
    intro x y
    rw [Initializers.key, Initializers.key, Prod.Lex.toLex_lt_toLex, Initializers.cmp]
    split_ifs with hlt hgt
    · simp [hlt]
    · simp only [not_lt.mpr hgt.le, (show R.precedence x ≠ R.precedence y by omega), false_and,
        or_false, iff_false]
      norm_num
    · have heq : R.precedence x = R.precedence y := by omega
      simp only [heq, lt_self_iff_false, true_and, false_or]
      exact strcmp_neg_iff
  pos_iff := by
    intro x y
    rw [Initializers.key, Initializers.key, Prod.Lex.toLex_lt_toLex, Initializers.cmp]
    split_ifs with hlt hgt
    · simp only [not_lt.mpr hlt.le, (show R.precedence y ≠ R.precedence x by omega), false_and,
        or_false, iff_false]
      norm_num
    · simp [hgt]
    · have heq : R.precedence x = R.precedence y := by omega
      simp only [heq, lt_self_iff_false, true_and, false_or]
      exact strcmp_pos_iff

omit [DecidableEq ρ] in
/-- After both sorts records with different names stand in execution order. -/
theorem sorted_array (R : Initializers ρ) {qsort : (ρ → ρ → ℤ) → List ρ → List ρ}
    (hsorts : Sorts qsort) {xs : List ρ} (hnodup : (xs.map R.name).Nodup) :
    (qsort R.cmp (qsort R.cmpByName xs)).Perm xs ∧
      (qsort R.cmp (qsort R.cmpByName xs)).Pairwise fun x y => R.key x < R.key y := by
  have hperm : (qsort R.cmp (qsort R.cmpByName xs)).Perm xs :=
    (hsorts.perm_of_compares (compares_cmp R) _).trans
      (hsorts.perm_of_compares (compares_cmpByName R) xs)
  refine ⟨hperm, pairwise_lt_of_pairwise_le (hsorts.pairwise_le (compares_cmp R) _) ?_⟩
  refine List.Nodup.of_map (fun k => (ofLex k).2) ?_
  rw [List.map_map]
  exact (hperm.map R.name).nodup_iff.mpr hnodup

/-! ### Running the initializers -/

section Run

variable {env : InitEnv ρ} {s s' s'' : InitState ρ} {xs ys : List ρ} {record : ρ}

/-- Registering a record that is not in the registry puts it in front. -/
theorem chain_register (h : Chain s.next s.head xs) (hnew : record ∉ xs) :
    Chain (u7InitializerRegister record s).next (u7InitializerRegister record s).head
      (record :: xs) :=
  h.push hnew

/-- What was registered while the `init_fn`s of some records ran. -/
def registersOf (env : InitEnv ρ) (called : List ρ) : List ρ :=
  called.flatMap fun record => (env.initFn record).registers

/-- `s'` is `s` after calls of the `init_fn`s of `called`. -/
structure Ran (env : InitEnv ρ) (s : InitState ρ) (called : List ρ) (s' : InitState ρ) :
    Prop where
  calls : s'.calls = s.calls ++ called
  registered : s'.registered = s.registered ++ registersOf env called
  arrays : s'.arrays = s.arrays
  chain : ∀ {xs}, Chain s.next s.head xs → ((registersOf env called).reverse ++ xs).Nodup →
    Chain s'.next s'.head ((registersOf env called).reverse ++ xs)

omit [DecidableEq ρ] in
theorem Ran.refl (env : InitEnv ρ) (s : InitState ρ) : Ran env s [] s where
  calls := (List.append_nil _).symm
  registered := (List.append_nil _).symm
  arrays := rfl
  chain := fun h _ => h

omit [DecidableEq ρ] in
theorem Ran.trans (h : Ran env s xs s') (h' : Ran env s' ys s'') :
    Ran env s (xs ++ ys) s'' where
  calls := by rw [h'.calls, h.calls, List.append_assoc]
  registered := by
    rw [h'.registered, h.registered, List.append_assoc, registersOf, registersOf, registersOf,
      List.flatMap_append]
  arrays := h'.arrays.trans h.arrays
  chain := by
    intro zs hchain hnodup
    have happend : (registersOf env (xs ++ ys)).reverse ++ zs =
        (registersOf env ys).reverse ++ ((registersOf env xs).reverse ++ zs) := by
      rw [registersOf, List.flatMap_append, List.reverse_append, List.append_assoc]
      rfl
    rw [happend] at hnodup ⊢
    exact h'.chain (h.chain hchain (List.nodup_append.mp hnodup).2.1) hnodup

/-- The records that one `init_fn` registers, one after another. -/
theorem foldl_register (records : List ρ) (s : InitState ρ) :
    (records.foldl (fun s record => u7InitializerRegister record s) s).calls = s.calls ∧
    (records.foldl (fun s record => u7InitializerRegister record s) s).registered =
      s.registered ++ records ∧
    (records.foldl (fun s record => u7InitializerRegister record s) s).arrays = s.arrays ∧
    ∀ {xs}, Chain s.next s.head xs → (records.reverse ++ xs).Nodup →
      Chain (records.foldl (fun s record => u7InitializerRegister record s) s).next
        (records.foldl (fun s record => u7InitializerRegister record s) s).head
        (records.reverse ++ xs) := by
  induction records generalizing s with
  | nil => exact ⟨rfl, (List.append_nil _).symm, rfl, fun h _ => h⟩
  | cons record records ih =>
      obtain ⟨hcalls, hregistered, harrays, hchain⟩ := ih (u7InitializerRegister record s)
      refine ⟨hcalls, ?_, harrays, fun {xs} h hnodup => ?_⟩
      · rw [List.foldl_cons, hregistered, u7InitializerRegister, List.append_assoc]
        rfl
      · have happend : (record :: records).reverse ++ xs = records.reverse ++ record :: xs := by
          simp
        rw [happend] at hnodup ⊢
        have hnew := (List.nodup_cons.mp (List.nodup_append.mp hnodup).2.1).1
        exact hchain (chain_register h hnew) hnodup

theorem ran_callInitFn (env : InitEnv ρ) (s : InitState ρ) (record : ρ) :
    Ran env s [record] (s.callInitFn env record) := by
  obtain ⟨hcalls, hregistered, harrays, hchain⟩ := foldl_register (env.initFn record).registers
    { s with
      mem := (env.initFn record).mem
      calls := s.calls ++ [record]
      output := s.output ++ (env.initFn record).lines }
  have hregisters : registersOf env [record] = (env.initFn record).registers := by
    simp [registersOf]
  exact ⟨hcalls, by rw [hregisters]; exact hregistered, harrays, by rw [hregisters]; exact hchain⟩

/-- The loop that meets no error calls every `init_fn`. -/
theorem runInitFns_none {array : List ρ} (h : runInitFns env array s = (none, s')) :
    Ran env s array s' ∧ ∀ record ∈ array, (env.initFn record).error.errorCode = 0 := by
  induction array generalizing s with
  | nil =>
      obtain rfl := (Prod.mk.inj h).2
      exact ⟨Ran.refl env s, List.forall_mem_nil _⟩
  | cons record array ih =>
      rw [runInitFns] at h
      split at h
      · cases h
      · next hcode =>
          obtain ⟨hran, hall⟩ := ih h
          refine ⟨(ran_callInitFn env s record).trans hran, ?_⟩
          exact List.forall_mem_cons.mpr ⟨not_not.mp hcode, hall⟩

/-- The loop that meets an error stops there. -/
theorem runInitFns_some {array : List ρ} {e : U7Error}
    (h : runInitFns env array s = (some e, s')) :
    ∃ l record r, array = l ++ record :: r ∧ Ran env s (l ++ [record]) s' ∧
      (∀ x ∈ l, (env.initFn x).error.errorCode = 0) ∧ e = (env.initFn record).error ∧
      e.errorCode ≠ 0 := by
  induction array generalizing s with
  | nil => cases h
  | cons record array ih =>
      rw [runInitFns] at h
      split at h
      · next hcode =>
          obtain ⟨he, rfl⟩ := Prod.mk.inj h
          obtain rfl := Option.some.inj he
          exact ⟨[], record, array, rfl, ran_callInitFn env s record,
            List.forall_mem_nil _, rfl, hcode⟩
      · next hcode =>
          obtain ⟨l, x, r, harray, hran, hall, he, hne⟩ := ih h
          refine ⟨record :: l, x, r, by rw [harray]; rfl,
            (ran_callInitFn env s record).trans hran, ?_, he, hne⟩
          exact List.forall_mem_cons.mpr ⟨not_not.mp hcode, hall⟩

end Run

/-! ### Everything a call may do -/

/-- The effect of a call of `u7_init` on a registry that holds `xs`. -/
inductive InitEffect (R : Initializers ρ) (env : InitEnv ρ) (s : InitState ρ) (xs : List ρ) :
    U7Error → InitState ρ → Prop
  /-- Nothing is registered. -/
  | empty : xs = [] → InitEffect R env s xs u7Ok s
  /-- The array cannot be allocated. -/
  | noMemory {e : U7Error} {mem : Mem} :
      xs ≠ [] → env.libc.allocates s.mem.mallocs = false → e.errorCode = ENOMEM →
      InitEffect R env s xs e { s with mem := mem }
  /-- Two records have one name. -/
  | duplicate {e : U7Error} {mem : Mem} :
      xs ≠ [] → env.libc.allocates s.mem.mallocs = true → ¬ (xs.map R.name).Nodup →
      e.errorCode = EINVAL → InitEffect R env s xs e { s with mem := mem }
  /-- An `init_fn` returns an error. -/
  | stopped {l r : List ρ} {record : ρ} {s' : InitState ρ} :
      env.libc.allocates s.mem.mallocs = true → (xs.map R.name).Nodup →
      (l ++ record :: r).Perm xs → (l ++ record :: r).Pairwise (fun x y => R.key x < R.key y) →
      Ran env s (l ++ [record]) s' → (∀ x ∈ l, (env.initFn x).error.errorCode = 0) →
      (env.initFn record).error.errorCode ≠ 0 →
      InitEffect R env s xs (env.initFn record).error s'
  /-- Every `init_fn` returns ok. -/
  | done {array : List ρ} {s' : InitState ρ} :
      env.libc.allocates s.mem.mallocs = true → (xs.map R.name).Nodup →
      array.Perm xs → array.Pairwise (fun x y => R.key x < R.key y) →
      Ran env s array s' → (∀ x ∈ array, (env.initFn x).error.errorCode = 0) →
      InitEffect R env s xs u7Ok { s' with head := none }

omit [DecidableEq ρ] in
theorem records_eq [Fintype ρ] {s : InitState ρ} {xs : List ρ} (h : Chain s.next s.head xs) :
    s.records = .ok xs := by
  rw [InitState.records, follow_eq_some_iff.mpr h]

omit [DecidableEq ρ] in
/-- A run that started with one more array ends with one more array. -/
theorem Ran.freeArray {env : InitEnv ρ} {s s' : InitState ρ} {called : List ρ}
    (h : Ran env s.countMalloc.newArray called s') :
    Ran env s called s'.freeArray where
  calls := h.calls
  registered := h.registered
  arrays := by
    rw [InitState.freeArray, h.arrays]
    rfl
  chain := h.chain

omit [DecidableEq ρ] in
/-- `u7_errnof` gives an error with the code it was given, and changes the memory only. -/
theorem errnof_effect {ℓ : Libc} {code : ℤ} {format : CStr} {arg : List VaArg}
    {s s' : InitState ρ} {e : U7Error} (h : s.errnof ℓ code format arg = .ok (e, s')) :
    e.errorCode = code ∧ ∃ mem, s' = { s with mem := mem } := by
  obtain ⟨r, herror, hrest⟩ := bind_eq_ok_iff.mp h
  obtain ⟨rfl, rfl⟩ := Prod.mk.inj (Except.ok.inj hrest)
  exact ⟨errorCode_of_u7VerrorfWithCause herror, r.2, rfl⟩

section Equations

variable [Fintype ρ] {R : Initializers ρ} {env : InitEnv ρ} {s s' : InitState ρ} {xs : List ρ}

/-- A call on an empty registry returns ok. -/
theorem u7Init_of_nil (hchain : Chain s.next s.head []) : u7Init R env s = .ok (u7Ok, s) := by
  rw [u7Init, records_eq hchain]
  rfl

/-- A call that cannot allocate the array returns what `u7_errnof` makes of it. -/
theorem u7Init_of_noMemory (hchain : Chain s.next s.head xs) (hxs : xs ≠ [])
    (halloc : env.libc.allocates s.mem.mallocs = false) :
    u7Init R env s = s.countMalloc.errnof env.libc ENOMEM
      (.lit "u7_init: malloc: failed to allocate buffer") [] := by
  rw [u7Init, records_eq hchain, ok_bind, if_neg (by simpa using hxs)]
  simp only [InitState.mallocArray, halloc, Bool.false_eq_true, if_false, if_true]

/-- What `u7_init` does with its array. -/
theorem u7Init_of_array (hchain : Chain s.next s.head xs) (hxs : xs ≠ [])
    (halloc : env.libc.allocates s.mem.mallocs = true) :
    u7Init R env s =
      match adjacent (fun lhs rhs => R.cmpByName lhs rhs == 0)
        (env.qsort R.cmpByName xs) with
      | some record => do
          let (error, s) ← s.countMalloc.newArray.errnof env.libc EINVAL
            (.lit "u7_init: non-unique initializer name: %s") [.str (R.name record).object]
          .ok (error, s.freeArray)
      | none =>
          match runInitFns env (env.qsort R.cmp (env.qsort R.cmpByName xs))
            s.countMalloc.newArray with
          | (some error, s) => .ok (error, s.freeArray)
          | (none, s) => .ok (u7Ok, { s.freeArray with head := none }) := by
  have hrecords : s.countMalloc.newArray.records = .ok xs := records_eq hchain
  rw [u7Init, records_eq hchain, ok_bind, if_neg (by simpa using hxs)]
  simp only [InitState.mallocArray, halloc, Bool.true_eq_false, if_false, if_true, hrecords,
    ok_bind]

omit [DecidableEq ρ] [Fintype ρ] in
/-- The search for equal neighbours finds none if all names differ. -/
theorem adjacent_names_eq_none_iff (hsorts : Sorts env.qsort) (xs : List ρ) :
    adjacent (fun lhs rhs => R.cmpByName lhs rhs == 0) (env.qsort R.cmpByName xs) = none ↔
      (xs.map R.name).Nodup := by
  rw [← ((hsorts.perm_of_compares (compares_cmpByName R) xs).map R.name).nodup_iff]
  exact adjacent_eq_none_iff
    (fun x y => beq_iff_eq.trans ((compares_cmpByName R).eq_zero_iff x y))
    (hsorts.pairwise_le (compares_cmpByName R) xs)

omit [DecidableEq ρ] [Fintype ρ] in
/-- Otherwise it finds a record with the least name that occurs twice. -/
theorem exists_adjacent_names (hsorts : Sorts env.qsort)
    (hdup : ¬ (xs.map R.name).Nodup) :
    ∃ record ∈ xs, IsLeast {name | List.Duplicate name (xs.map R.name)} (R.name record) ∧
      adjacent (fun lhs rhs => R.cmpByName lhs rhs == 0) (env.qsort R.cmpByName xs) =
        some record := by
  cases hcase : adjacent (fun lhs rhs => R.cmpByName lhs rhs == 0)
      (env.qsort R.cmpByName xs) with
  | none => exact absurd ((adjacent_names_eq_none_iff hsorts xs).mp hcase) hdup
  | some record =>
      have hperm := hsorts.perm_of_compares (compares_cmpByName R) xs
      obtain ⟨hmem, hleast⟩ := isLeast_of_adjacent
        (fun x y => beq_iff_eq.trans ((compares_cmpByName R).eq_zero_iff x y))
        (hsorts.pairwise_le (compares_cmpByName R) xs) hcase
      refine ⟨record, hperm.subset hmem, ?_, rfl⟩
      simpa only [duplicate_perm_iff hperm] using hleast

end Equations

/-- **Everything a call of `u7_init` may do.** -/
theorem u7Init_effect [Fintype ρ] {R : Initializers ρ} {env : InitEnv ρ} {s s' : InitState ρ}
    {xs : List ρ} {e : U7Error} (hchain : Chain s.next s.head xs) (hsorts : Sorts env.qsort)
    (h : u7Init R env s = .ok (e, s')) : InitEffect R env s xs e s' := by
  by_cases hxs : xs = []
  · subst hxs
    rw [u7Init_of_nil hchain] at h
    obtain ⟨rfl, rfl⟩ := Prod.mk.inj (Except.ok.inj h)
    exact .empty rfl
  cases halloc : env.libc.allocates s.mem.mallocs with
  | false =>
      rw [u7Init_of_noMemory hchain hxs halloc] at h
      obtain ⟨hcode, mem, rfl⟩ := errnof_effect h
      exact .noMemory hxs halloc hcode
  | true =>
      rw [u7Init_of_array hchain hxs halloc] at h
      by_cases hnodup : (xs.map R.name).Nodup
      · obtain ⟨hperm, hsorted⟩ := sorted_array R hsorts hnodup
        rw [(adjacent_names_eq_none_iff hsorts xs).mpr hnodup] at h
        dsimp only at h
        cases hrun : runInitFns env (env.qsort R.cmp (env.qsort R.cmpByName xs))
            s.countMalloc.newArray with
        | mk failure s₂ =>
            rw [hrun] at h
            cases failure with
            | none =>
                obtain ⟨rfl, rfl⟩ := Prod.mk.inj (Except.ok.inj h)
                obtain ⟨hran, hall⟩ := runInitFns_none hrun
                exact .done halloc hnodup hperm hsorted hran.freeArray hall
            | some error =>
                obtain ⟨rfl, rfl⟩ := Prod.mk.inj (Except.ok.inj h)
                obtain ⟨l, record, r, harray, hran, hall, rfl, hcode⟩ := runInitFns_some hrun
                rw [harray] at hperm hsorted
                exact .stopped halloc hnodup hperm hsorted hran.freeArray hall hcode
      · obtain ⟨record, -, -, hadjacent⟩ := exists_adjacent_names (R := R) hsorts hnodup
        rw [hadjacent] at h
        dsimp only at h
        obtain ⟨⟨e₁, s₁⟩, herror, hrest⟩ := bind_eq_ok_iff.mp h
        obtain ⟨rfl, rfl⟩ := Prod.mk.inj (Except.ok.inj hrest)
        obtain ⟨hcode, mem, rfl⟩ := errnof_effect herror
        exact .duplicate hxs halloc hnodup hcode

end U7Init
