import U7Init.Init

/-!
# Whole Runs of the Initializer Registry

A run is any sequence of `u7_initializer_register` and `u7_init` calls from the empty
registry. Its trace keeps every event with the state it happened in. Two kinds of runs
are looked at: those whose `init_fn`s leave the registry alone, and those in which a
running `init_fn` registers further records.

## Main results

* `InitRun.chain`: between two calls of `u7_init` that return ok the registry holds what
  was registered since, last first.
* `init_runs_in_order`: what a `u7_init` that returns ok has called.
* `initializer_lost`: a record that an `init_fn` registers may never be initialized.
* `no_initializer_lost_iff`: the exact condition under which none is lost.
-/

namespace U7Init

open IntrusiveList Qsort

/-- What happens in a run. -/
inductive InitEvent (ρ : Type)
  | register (record : ρ)
  | init (env : InitEnv ρ) (result : U7Error)

/-- Nothing was registered yet. -/
def InitState.start (ρ : Type) : InitState ρ where
  head := none
  next := fun _ => none
  mem := Mem.start
  arrays := 0
  calls := []
  registered := []
  output := []

/-- A trace: the events of a run and the states they happened in. -/
abbrev InitTrace (ρ : Type) :=
  List (InitState ρ × InitEvent ρ)

/-- One event's effect on the records registered since the last `u7_init` that returned
ok. -/
def InitEvent.sinceOk {ρ : Type} (records : List ρ) : InitEvent ρ → List ρ
  | .register record => records ++ [record]
  | .init _ result => if result.errorCode = 0 then [] else records

/-- The records registered since the last `u7_init` that returned ok, in order. -/
def sinceOk {ρ : Type} (trace : InitTrace ρ) : List ρ :=
  trace.foldl (fun records step => step.2.sinceOk records) []

theorem sinceOk_concat {ρ : Type} (trace : InitTrace ρ) (s : InitState ρ)
    (event : InitEvent ρ) :
    sinceOk (trace ++ [(s, event)]) = event.sinceOk (sinceOk trace) := by
  simp [sinceOk]

variable {ρ : Type} [Fintype ρ] [DecidableEq ρ]

/-- The runs in which records are registered as `mayRegister` allows and `u7_init` meets
what `mayInit` allows. -/
inductive InitRun (R : Initializers ρ) (mayRegister : InitTrace ρ → InitState ρ → ρ → Prop)
    (mayInit : InitState ρ → InitEnv ρ → Prop) : InitTrace ρ → InitState ρ → Prop
  | start : InitRun R mayRegister mayInit [] (InitState.start ρ)
  | register {trace : InitTrace ρ} {s : InitState ρ} {record : ρ} :
      InitRun R mayRegister mayInit trace s → mayRegister trace s record →
      InitRun R mayRegister mayInit (trace ++ [(s, .register record)])
        (u7InitializerRegister record s)
  | init {trace : InitTrace ρ} {s s' : InitState ρ} {env : InitEnv ρ} {result : U7Error} :
      InitRun R mayRegister mayInit trace s → mayInit s env →
      u7Init R env s = .ok (result, s') →
      InitRun R mayRegister mayInit (trace ++ [(s, .init env result)]) s'

/-! ### Initializers that leave the registry alone -/

/-- A record that is still in the registry is not registered again. -/
def NotRegistered (trace : InitTrace ρ) (_ : InitState ρ) (record : ρ) : Prop :=
  record ∉ sinceOk trace

/-- `qsort` sorts, and no `init_fn` registers a record. -/
structure LeavesRegistry (_ : InitState ρ) (env : InitEnv ρ) : Prop where
  sorts : Sorts env.qsort
  registers : ∀ record, (env.initFn record).registers = []

variable {R : Initializers ρ} {env : InitEnv ρ} {s s' : InitState ρ} {xs : List ρ}
  {e : U7Error} {trace : InitTrace ρ}

omit [Fintype ρ] [DecidableEq ρ] in
/-- Calls of `init_fn`s that register nothing leave the registry as it is. -/
theorem Ran.chain_of_leaves {called : List ρ} (h : Ran env s called s')
    (hregisters : ∀ record, (env.initFn record).registers = [])
    (hchain : Chain s.next s.head xs) : Chain s'.next s'.head xs := by
  have hnil : registersOf env called = [] := by
    simp [registersOf, hregisters]
  have hchain' := h.chain hchain
  rw [hnil] at hchain'
  exact hchain' hchain.nodup

omit [Fintype ρ] [DecidableEq ρ] in
/-- A `u7_init` that returns ok empties the registry, and one that does not leaves it as
it is. -/
theorem InitEffect.chain (h : InitEffect R env s xs e s') (hchain : Chain s.next s.head xs)
    (hregisters : ∀ record, (env.initFn record).registers = []) :
    Chain s'.next s'.head (if e.errorCode = 0 then [] else xs) := by
  cases h with
  | empty hxs =>
      rw [hxs] at hchain ⊢
      split_ifs <;> exact hchain
  | noMemory _ _ hcode =>
      rw [if_neg (hcode.trans_ne ENOMEM_ne_zero)]
      exact hchain
  | duplicate _ _ _ hcode =>
      rw [if_neg (hcode.trans_ne EINVAL_ne_zero)]
      exact hchain
  | stopped _ _ _ _ hran _ hcode =>
      rw [if_neg hcode]
      exact hran.chain_of_leaves hregisters hchain
  | done => exact .nil

/-- Between two calls that return ok the registry holds what was registered since, last
first. -/
theorem InitRun.chain (h : InitRun R NotRegistered LeavesRegistry trace s) :
    Chain s.next s.head (sinceOk trace).reverse := by
  induction h with
  | start => exact .nil
  | register _ hnew ih =>
      rw [sinceOk_concat, InitEvent.sinceOk, List.reverse_append]
      exact chain_register ih (fun hmem => hnew (List.mem_reverse.mp hmem))
  | init _ henv hinit ih =>
      have hchain := (u7Init_effect ih henv.sorts hinit).chain ih henv.registers
      rw [sinceOk_concat, InitEvent.sinceOk]
      split_ifs at hchain ⊢ <;> exact hchain

/-- The order of execution: lower precedence first, then the lesser name. -/
def Initializers.Before (R : Initializers ρ) (x y : ρ) : Prop :=
  R.precedence x < R.precedence y ∨ (R.precedence x = R.precedence y ∧ R.name x < R.name y)

omit [Fintype ρ] [DecidableEq ρ] in
theorem Initializers.key_lt_iff (R : Initializers ρ) (x y : ρ) :
    R.key x < R.key y ↔ R.Before x y :=
  Prod.Lex.toLex_lt_toLex

omit [Fintype ρ] [DecidableEq ρ] in
/-- A `u7_init` that returns ok calls everything in the registry, in execution order, and
empties it. -/
theorem InitEffect.of_ok (h : InitEffect R env s xs e s') (hchain : Chain s.next s.head xs)
    (hok : e.errorCode = 0) :
    ∃ called, s'.calls = s.calls ++ called ∧ called.Perm xs ∧ called.Pairwise R.Before ∧
      s'.head = none := by
  cases h with
  | empty hxs =>
      refine ⟨[], (List.append_nil _).symm, ?_, List.Pairwise.nil, hchain.eq_nil_iff.mp hxs⟩
      rw [hxs]
  | noMemory _ _ hcode => exact absurd hok (hcode.trans_ne ENOMEM_ne_zero)
  | duplicate _ _ _ hcode => exact absurd hok (hcode.trans_ne EINVAL_ne_zero)
  | stopped _ _ _ _ _ _ hcode => exact absurd hok hcode
  | done _ _ hperm hsorted hran _ =>
      exact ⟨_, hran.calls, hperm, hsorted.imp fun hlt => (R.key_lt_iff _ _).mp hlt, rfl⟩

/-- **`u7_init` over whole runs.** Both comparison functions are consistent total
preorders, and after any run a `u7_init` that returns ok has called the `init_fn` of
exactly the records registered since the last one that returned ok, each once and in
execution order, and leaves the registry empty. -/
theorem init_runs_in_order (R : Initializers ρ) (trace : InitTrace ρ) (s : InitState ρ)
    (run : InitRun R NotRegistered LeavesRegistry trace s) :
    Consistent R.cmpByName ∧ Consistent R.cmp ∧
    ∀ env e s', LeavesRegistry s env → u7Init R env s = .ok (e, s') → e.errorCode = 0 →
      ∃ called, s'.calls = s.calls ++ called ∧ called.Perm (sinceOk trace) ∧
        called.Pairwise R.Before ∧ s'.head = none := by
  refine ⟨(compares_cmpByName R).consistent, (compares_cmp R).consistent, ?_⟩
  intro env e s' henv hinit hok
  have hchain := run.chain
  obtain ⟨called, hcalls, hperm, hsorted, hhead⟩ :=
    (u7Init_effect hchain henv.sorts hinit).of_ok hchain hok
  exact ⟨called, hcalls, hperm.trans (List.reverse_perm _), hsorted, hhead⟩

/-- An environment in which every allocation succeeds, `qsort` is an insertion sort, and
every `init_fn` returns ok, registers what `registers` says and prints nothing. -/
def InitEnv.calm {ρ : Type} (registers : ρ → List ρ) : InitEnv ρ where
  libc := .ofRender fun format _ => format.bytes
  qsort := fun cmp xs => xs.insertionSort fun x y => cmp x y ≤ 0
  initFn := fun record =>
    { error := u7Ok, registers := registers record, lines := [], mem := Mem.start }

/-- Two records of one precedence and one of the next, in the order of registration. -/
def threeInitializers : Initializers (Fin 3) where
  precedence := ![0, 0, 1]
  name := ![.lit "foo", .lit "bar", .lit "buz"]

/-- Registered as `foo`, `bar`, `buz`, they are executed as `bar`, `foo`, `buz`. -/
theorem init_runs_in_order_three :
    ∃ (s s' : InitState (Fin 3)) (trace : InitTrace (Fin 3)) (called : List (Fin 3)),
      u7Init threeInitializers (.calm fun _ => []) s = .ok (u7Ok, s') ∧
      sinceOk trace = [0, 1, 2] ∧ s'.calls = [1, 0, 2] ∧ s'.calls = s.calls ++ called ∧
      called.Perm (sinceOk trace) ∧ called.Pairwise threeInitializers.Before ∧
      s'.head = none := by
  have hstart : InitRun threeInitializers NotRegistered LeavesRegistry [] _ := .start
  have run := ((hstart.register (show 0 ∉ sinceOk _ by decide)).register
    (show 1 ∉ sinceOk _ by decide)).register (show 2 ∉ sinceOk _ by decide)
  obtain ⟨-, -, hinit⟩ := init_runs_in_order threeInitializers _ _ run
  obtain ⟨called, h⟩ := hinit (.calm fun _ => []) u7Ok _ ⟨sorts_insertionSort, fun _ => rfl⟩
    rfl rfl
  exact ⟨_, _, _, called, rfl, rfl, rfl, h⟩

/-! ### Initializers that register further records -/

/-- A record is registered once. -/
def RegistersOnce (_ : InitTrace ρ) (s : InitState ρ) (record : ρ) : Prop :=
  record ∉ s.registered

/-- `qsort` sorts, and the running `init_fn`s register new records only. -/
structure RegistersNew (s : InitState ρ) (env : InitEnv ρ) : Prop where
  sorts : Sorts env.qsort
  fresh : ∀ xs, Chain s.next s.head xs → (s.registered ++ registersOf env xs).Nodup

/-- Every record registered so far has had its `init_fn` called, or is still in the
registry. -/
def InitState.Kept (s : InitState ρ) : Prop :=
  ∀ record ∈ s.registered,
    record ∈ s.calls ∨ ∃ xs, Chain s.next s.head xs ∧ record ∈ xs

/-- The event is a call of `u7_init` that gets its array, in which every `init_fn` of the
registry returns ok and one of them registers a record. -/
def Loses (s : InitState ρ) : InitEvent ρ → Prop
  | .register _ => False
  | .init env _ => env.libc.allocates s.mem.mallocs = true ∧
      ∃ xs, Chain s.next s.head xs ∧
        (∀ record ∈ xs, (env.initFn record).error.errorCode = 0) ∧
        ∃ record ∈ xs, (env.initFn record).registers ≠ []

/-- The registry is a list of registered records, and only such were called. -/
structure InitState.Sound (s : InitState ρ) (xs : List ρ) : Prop where
  chain : Chain s.next s.head xs
  registered : ∀ record ∈ xs, record ∈ s.registered
  calls : ∀ record ∈ s.calls, record ∈ s.registered

omit [Fintype ρ] [DecidableEq ρ] in
/-- On a registry with one chain, to be in the registry is to be in it. -/
theorem InitState.Sound.kept_iff (h : s.Sound xs) :
    s.Kept ↔ ∀ record ∈ s.registered, record ∈ s.calls ∨ record ∈ xs := by
  refine forall₂_congr fun record _ => or_congr_right ⟨?_, fun hmem => ⟨xs, h.chain, hmem⟩⟩
  rintro ⟨ys, hchain, hmem⟩
  rwa [h.chain.unique hchain]

omit [Fintype ρ] [DecidableEq ρ] in
theorem registersOf_perm (env : InitEnv ρ) {ys : List ρ} (h : xs.Perm ys) :
    (registersOf env xs).Perm (registersOf env ys) :=
  h.flatMap_right _

omit [Fintype ρ] [DecidableEq ρ] in
theorem registersOf_eq_nil_iff :
    registersOf env xs = [] ↔ ∀ record ∈ xs, (env.initFn record).registers = [] :=
  List.flatMap_eq_nil_iff

omit [Fintype ρ] in
/-- Registering a new record loses nothing. -/
theorem InitState.Sound.register {record : ρ} (h : s.Sound xs) (hnew : record ∉ s.registered) :
    (u7InitializerRegister record s).Sound (record :: xs) ∧
      (s.Kept → (u7InitializerRegister record s).Kept) := by
  have hsound : (u7InitializerRegister record s).Sound (record :: xs) :=
    { chain := chain_register h.chain fun hmem => hnew (h.registered record hmem)
      registered := by
        intro x hx
        rcases List.mem_cons.mp hx with rfl | hx
        · exact List.mem_append_right _ List.mem_cons_self
        · exact List.mem_append_left _ (h.registered x hx)
      calls := fun x hx => List.mem_append_left _ (h.calls x hx) }
  refine ⟨hsound, fun hkept => hsound.kept_iff.mpr fun x hx => ?_⟩
  rcases List.mem_append.mp hx with hx | hx
  · exact (h.kept_iff.mp hkept x hx).imp_right (List.mem_cons_of_mem _)
  · exact .inr (List.mem_cons.mpr (.inl (List.mem_singleton.mp hx)))

omit [Fintype ρ] [DecidableEq ρ] in
/-- The `init_fn`s of some records of the registry run: what they register comes in front,
and nothing is lost. -/
theorem InitState.Sound.ran {called rest : List ρ} (h : s.Sound xs) (hran : Ran env s called s')
    (hperm : (called ++ rest).Perm xs) (hfresh : (s.registered ++ registersOf env xs).Nodup) :
    s'.Sound ((registersOf env called).reverse ++ xs) ∧ (s.Kept → s'.Kept) := by
  have hcalled : ∀ x ∈ called, x ∈ xs := fun x hx =>
    hperm.subset (List.mem_append_left _ hx)
  -- what the others would have registered does not matter
  have hfresh' : (s.registered ++ registersOf env called).Nodup := by
    have happend : registersOf env (called ++ rest) =
        registersOf env called ++ registersOf env rest := List.flatMap_append
    have hall := ((registersOf_perm env hperm).append_left s.registered).nodup_iff.mpr
      hfresh
    rw [happend, ← List.append_assoc] at hall
    exact (List.nodup_append.mp hall).1
  obtain ⟨-, hnew, hdisjoint⟩ := List.nodup_append.mp hfresh'
  have hnodup : ((registersOf env called).reverse ++ xs).Nodup := by
    refine List.nodup_append.mpr ⟨List.nodup_reverse.mpr hnew, h.chain.nodup, ?_⟩
    intro x hx y hy hxy
    exact hdisjoint y (h.registered y hy) x (List.mem_reverse.mp hx) hxy.symm
  have hsound : s'.Sound ((registersOf env called).reverse ++ xs) :=
    { chain := hran.chain h.chain hnodup
      registered := by
        intro x hx
        rw [hran.registered]
        rcases List.mem_append.mp hx with hx | hx
        · exact List.mem_append_right _ (List.mem_reverse.mp hx)
        · exact List.mem_append_left _ (h.registered x hx)
      calls := by
        intro x hx
        rw [hran.calls] at hx
        rw [hran.registered]
        rcases List.mem_append.mp hx with hx | hx
        · exact List.mem_append_left _ (h.calls x hx)
        · exact List.mem_append_left _ (h.registered x (hcalled x hx)) }
  refine ⟨hsound, fun hkept => hsound.kept_iff.mpr fun x hx => ?_⟩
  rw [hran.registered] at hx
  rw [hran.calls]
  rcases List.mem_append.mp hx with hx | hx
  · exact (h.kept_iff.mp hkept x hx).imp (List.mem_append_left _) (List.mem_append_right _)
  · exact .inr (List.mem_append_left _ (List.mem_reverse.mpr hx))

omit [Fintype ρ] [DecidableEq ρ] in
/-- **What one call of `u7_init` does to the records**: it keeps the invariant, and it
keeps all of them unless it loses some. -/
theorem InitState.Sound.init (h : s.Sound xs) (heffect : InitEffect R env s xs e s')
    (hnames : Function.Injective R.name) (hfresh : (s.registered ++ registersOf env xs).Nodup) :
    (∃ ys, s'.Sound ys) ∧ (s.Kept → (s'.Kept ↔ ¬ Loses s (.init env e))) := by
  have hloses : Loses s (.init env e) ↔ env.libc.allocates s.mem.mallocs = true ∧
      (∀ record ∈ xs, (env.initFn record).error.errorCode = 0) ∧ registersOf env xs ≠ [] := by
    rw [Ne, registersOf_eq_nil_iff]
    simp only [Loses]
    refine and_congr_right fun _ => ⟨?_, fun ⟨hall, hsome⟩ => ⟨xs, h.chain, hall, ?_⟩⟩
    · rintro ⟨ys, hchain, hall, record, hmem, hne⟩
      rw [h.chain.unique hchain]
      exact ⟨hall, fun hnone => hne (hnone record hmem)⟩
    · simpa only [not_forall, exists_prop] using hsome
  cases heffect with
  | empty hxs =>
      refine ⟨⟨xs, h⟩, fun hkept => iff_of_true hkept ?_⟩
      rw [hloses, hxs]
      exact fun hlost => hlost.2.2 rfl
  | noMemory _ hmalloc _ =>
      refine ⟨⟨xs, h.chain, h.registered, h.calls⟩, fun hkept => iff_of_true hkept ?_⟩
      rw [hloses, hmalloc]
      exact fun hlost => Bool.false_ne_true hlost.1
  | duplicate _ _ hdup _ => exact absurd (h.chain.nodup.map hnames) hdup
  | @stopped l r record s' _ _ hperm _ hran _ hcode =>
      have hsplit : l ++ record :: r = (l ++ [record]) ++ r := by simp
      rw [hsplit] at hperm
      obtain ⟨hsound, hkeeps⟩ := h.ran hran hperm hfresh
      refine ⟨⟨_, hsound⟩, fun hkept => iff_of_true (hkeeps hkept) fun hlost => ?_⟩
      have hmem : record ∈ xs := hperm.subset (by simp)
      exact hcode ((hloses.mp hlost).2.1 record hmem)
  | @done array s' hmalloc _ hperm _ hran hall =>
      have hperm' : (array ++ []).Perm xs := by rwa [List.append_nil]
      obtain ⟨hsound, -⟩ := h.ran hran hperm' hfresh
      have hsound' : InitState.Sound { s' with head := none } [] :=
        { chain := .nil
          registered := List.forall_mem_nil _
          calls := hsound.calls }
      refine ⟨⟨[], hsound'⟩, fun hkept => ?_⟩
      rw [hsound'.kept_iff, hloses]
      dsimp only
      rw [hran.registered, hran.calls]
      have hall' : ∀ record ∈ xs, (env.initFn record).error.errorCode = 0 :=
        fun record hmem => hall record (hperm.mem_iff.mpr hmem)
      have hregisters := registersOf_perm env hperm
      constructor
      · rintro hcalls ⟨-, -, hne⟩
        -- a new record is neither called nor left in the registry
        obtain ⟨x, hx⟩ := List.exists_mem_of_ne_nil _ hne
        have hnew : x ∉ s.registered := fun hold =>
          (List.nodup_append.mp hfresh).2.2 x hold x hx rfl
        have hmem := hcalls x (List.mem_append_right _ (hregisters.mem_iff.mpr hx))
        rcases List.mem_append.mp (hmem.resolve_right List.not_mem_nil) with hmem | hmem
        · exact hnew (h.calls x hmem)
        · exact hnew (h.registered x (hperm.mem_iff.mp hmem))
      · intro hnot x hx
        have hnil : registersOf env xs = [] := by
          by_contra hne
          exact hnot ⟨hmalloc, hall', hne⟩
        rw [hnil] at hregisters
        rw [hregisters.eq_nil, List.append_nil] at hx
        rcases h.kept_iff.mp hkept x hx with hcalled | hmem
        · exact .inl (List.mem_append_left _ hcalled)
        · exact .inl (List.mem_append_right _ (hperm.mem_iff.mpr hmem))

theorem InitRun.sound (hnames : Function.Injective R.name)
    (h : InitRun R RegistersOnce RegistersNew trace s) : ∃ xs, s.Sound xs := by
  induction h with
  | start => exact ⟨[], .nil, List.forall_mem_nil _, List.forall_mem_nil _⟩
  | register _ hnew ih =>
      obtain ⟨xs, hsound⟩ := ih
      exact ⟨_, (hsound.register hnew).1⟩
  | init _ henv hinit ih =>
      obtain ⟨xs, hsound⟩ := ih
      have heffect := u7Init_effect hsound.chain henv.sorts hinit
      exact (hsound.init heffect hnames (henv.fresh xs hsound.chain)).1

/-- Record `0` loads record `1`. -/
def twoInitializers : Initializers (Fin 2) where
  precedence := fun _ => 0
  name := ![.lit "loader", .lit "plugin"]

/-- The `init_fn` of record `0` registers record `1`. -/
def loadingEnv : InitEnv (Fin 2) :=
  .calm ![[1], []]

theorem twoInitializers_injective : Function.Injective twoInitializers.name := by
  decide

/-- The run in which `0` is registered and called and registers `1`: nothing refers to `1`
afterwards, and it was not called. -/
theorem loading_run : ∃ trace s,
    InitRun twoInitializers RegistersOnce RegistersNew trace s ∧ ¬ s.Kept := by
  have hstart : InitRun twoInitializers RegistersOnce RegistersNew [] _ := .start
  have hregister := hstart.register (show 0 ∉ (InitState.start (Fin 2)).registered by decide)
  have hnew : RegistersNew (u7InitializerRegister 0 (InitState.start (Fin 2))) loadingEnv :=
    ⟨sorts_insertionSort, fun xs hxs => by
      rw [hxs.unique (.cons .nil)]
      decide⟩
  refine ⟨_, _, hregister.init hnew rfl, fun hkept => ?_⟩
  rcases hkept 1 (List.mem_cons_of_mem _ List.mem_cons_self) with hcalled | ⟨xs, hchain, hmem⟩
  · exact Fin.zero_ne_one (List.mem_singleton.mp hcalled).symm
  · cases hchain
    cases hmem

/-- A record that a running `init_fn` registers is lost: `u7_init` sets the head to `NULL`
after the loop. -/
theorem initializer_lost :
    ¬ ∀ (ρ : Type) [Fintype ρ] [DecidableEq ρ] (R : Initializers ρ) (trace : InitTrace ρ)
        (s : InitState ρ), Function.Injective R.name →
        InitRun R RegistersOnce RegistersNew trace s → s.Kept := by
  intro hclaim
  obtain ⟨trace, s, run, hlost⟩ := loading_run
  exact hlost (hclaim (Fin 2) twoInitializers trace s twoInitializers_injective run)

/-- **When no initializer is lost.** In a run with distinct names in which every record is
registered once, by the program or by a running `init_fn`, all records are kept in every
state exactly when no call of `u7_init` that gets its array and meets no error runs an
`init_fn` that registers a record. -/
theorem no_initializer_lost_iff (R : Initializers ρ) (hnames : Function.Injective R.name)
    (trace : InitTrace ρ) (s : InitState ρ)
    (run : InitRun R RegistersOnce RegistersNew trace s) :
    ((∀ step ∈ trace, step.1.Kept) ∧ s.Kept) ↔ ∀ step ∈ trace, ¬ Loses step.1 step.2 := by
  induction run with
  | start =>
      refine iff_of_true ⟨List.forall_mem_nil _, ?_⟩ (List.forall_mem_nil _)
      exact List.forall_mem_nil _
  | @register trace s record run hnew ih =>
      obtain ⟨xs, hsound⟩ := run.sound hnames
      have hkept := (hsound.register hnew).2
      simp only [List.forall_mem_append, List.forall_mem_singleton]
      rw [← ih]
      exact ⟨fun h => ⟨h.1, id⟩, fun h => ⟨h.1, hkept h.1.2⟩⟩
  | @init trace s s' env e run henv hinit ih =>
      obtain ⟨xs, hsound⟩ := run.sound hnames
      have heffect := u7Init_effect hsound.chain henv.sorts hinit
      have hkept := (hsound.init heffect hnames (henv.fresh xs hsound.chain)).2
      simp only [List.forall_mem_append, List.forall_mem_singleton]
      rw [← ih]
      exact ⟨fun h => ⟨h.1, (hkept h.1.2).mp h.2⟩, fun h => ⟨h.1, (hkept h.1.2).mpr h.2⟩⟩

/-- In the run of the loader a call of `u7_init` loses a record. -/
theorem no_initializer_lost_iff_loading :
    ∃ (trace : InitTrace (Fin 2)) (s : InitState (Fin 2)),
      ¬ s.Kept ∧ ∃ step ∈ trace, Loses step.1 step.2 := by
  obtain ⟨trace, s, run, hlost⟩ := loading_run
  refine ⟨trace, s, hlost, ?_⟩
  by_contra hnone
  have hsafe : ∀ step ∈ trace, ¬ Loses step.1 step.2 :=
    fun step hmem hstep => hnone ⟨step, hmem, hstep⟩
  exact hlost ((no_initializer_lost_iff twoInitializers twoInitializers_injective trace s
    run).mpr hsafe).2

end U7Init
