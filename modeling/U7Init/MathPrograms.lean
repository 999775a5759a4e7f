import U7Init.Lib.Simulation
import U7Init.Math

/-!
# Programs of Checked Operations

`public/math.h` asks its users to clear a flag, to use it in a chain of operations and to check
it once at the end. This module runs any program that does so: assignments of expressions over
the macros, branches and loops, the conditions of which look at the values that the program has
computed. Next to it runs the same program on the unbounded integers.

The variables are declared with types, and an assignment converts what it assigns. No flag
tells when a conversion changes a number, so the programs looked at here only assign to a
variable what its type represents: `uint32_t n = U7_ADD_OVERFLOW_I32(..)` is not one of them,
`int64_t n = U7_ADD_OVERFLOW_I32(..)` is.

Between an operation that overflows and the check the program goes on with reduced values. It
may then take other branches, and other numbers of iterations, than the exact program.

## Main results

* `Checked.exists_runs`: every expression can be evaluated to the end.
* `Checked.Step.exact`: one step of a program whose flag is clear.
* `checked_programs`: the flag says whether the run up to now was that of the exact program.
-/

open MachineInt Simulation

namespace U7Init

namespace Checked

/-- An expression over the macros, some leaves of which are variables. -/
inductive Term (abi : Abi) (ν : Type*)
  | const (operand : Operand abi)
  | var (x : ν)
  | node (op : BinOp) (dest : Dest) (lhs rhs : Term abi ν)

variable {abi : Abi} {ν : Type*} {types : ν → OperandType}

/-- The type of a term: that of its constant, the one its variable was declared with, or the
destination type of its outermost macro. -/
def Term.intType (types : ν → OperandType) : Term abi ν → IntType
  | const v => v.type.intType abi
  | var x => (types x).intType abi
  | node _ dest _ _ => dest.intType

/-- A statement of a program whose variables are declared with `types`. The type of a variable
represents all values of the terms that are assigned to it. -/
inductive Stmt (abi : Abi) (types : ν → OperandType)
  | assign (x : ν) (term : Term abi ν)
      (represents : ∀ z, (term.intType types).Fits z → ((types x).intType abi).Fits z)
  | ite (cond : (ν → ℤ) → Bool) (thenBody elseBody : List (Stmt abi types))
  | loop (cond : (ν → ℤ) → Bool) (body : List (Stmt abi types))

/-- The variables: each of them holds a value of the type that it was declared with. -/
abbrev Store (abi : Abi) (types : ν → OperandType) :=
  ∀ x, {z : ℤ // ((types x).intType abi).Fits z}

/-- A variable as an operand of a macro. -/
def Store.operand (store : Store abi types) (x : ν) : Operand abi :=
  ⟨types x, store x, (store x).2⟩

/-- An assignment: the value is converted to the type of the variable. -/
def Store.assign [DecidableEq ν] (store : Store abi types) (x : ν) (v : Operand abi) :
    Store abi types :=
  Function.update store x ⟨((types x).intType abi).wrap v.value, IntType.fits_wrap _ _⟩

/-- The expression that a term stands for while the variables have the values `store`. -/
def Term.read (store : Store abi types) : Term abi ν → Expr abi
  | const v => .leaf v
  | var x => .leaf (store.operand x)
  | node op dest l r => .node op dest none (l.read store) (r.read store)

/-- The value of a term over the unbounded integers. -/
def Term.exact (values : ν → ℤ) : Term abi ν → ℤ
  | const v => v.value
  | var x => values x
  | node op _ l r => op.exact (l.exact values) (r.exact values)

/-- The exact value of every node is representable in its destination type. -/
def Term.InRange (values : ν → ℤ) : Term abi ν → Prop
  | const _ | var _ => True
  | node op dest l r =>
      dest.intType.Fits (op.exact (l.exact values) (r.exact values)) ∧ l.InRange values ∧
        r.InRange values

/-- A program under way: what is left of it, its variables and the flag. -/
structure State (abi : Abi) (types : ν → OperandType) where
  rest : List (Stmt abi types)
  store : Store abi types
  overflow : Bool

/-- The numbers that the variables hold. -/
def values (store : Store abi types) (x : ν) : ℤ :=
  store x

/-- The exact program under way. Its variables hold any integers. -/
structure ExactState (abi : Abi) (types : ν → OperandType) where
  rest : List (Stmt abi types)
  values : ν → ℤ

variable [DecidableEq ν]

/-- One statement of a program. The nodes of an expression are evaluated in any order. -/
inductive Step : State abi types → Unit → State abi types → Prop
  | assign {x : ν} {t : Term abi ν}
      {ht : ∀ z, (t.intType types).Fits z → ((types x).intType abi).Fits z}
      {p : List (Stmt abi types)} {store : Store abi types} {f f' : Bool} {e : Expr abi}
      {v : Operand abi} :
      Expr.Runs (t.read store) f e f' → e.Evaluated → e.result = some v →
      Step ⟨.assign x t ht :: p, store, f⟩ () ⟨p, store.assign x v, f'⟩
  | ite {cond : (ν → ℤ) → Bool} {p q r : List (Stmt abi types)} {store : Store abi types}
      {f : Bool} :
      Step ⟨.ite cond p q :: r, store, f⟩ ()
        ⟨(if cond (values store) then p else q) ++ r, store, f⟩
  | loop {cond : (ν → ℤ) → Bool} {p r : List (Stmt abi types)} {store : Store abi types}
      {f : Bool} :
      Step ⟨.loop cond p :: r, store, f⟩ ()
        ⟨if cond (values store) then p ++ .loop cond p :: r else r, store, f⟩

/-- One statement of the exact program. -/
def exactStep (s : ExactState abi types) : Option (ExactState abi types) :=
  match s.rest with
  | [] => none
  | .assign x t _ :: p => some ⟨p, Function.update s.values x (t.exact s.values)⟩
  | .ite cond p q :: r => some ⟨(if cond s.values then p else q) ++ r, s.values⟩
  | .loop cond p :: r => some ⟨if cond s.values then p ++ .loop cond p :: r else r, s.values⟩

/-- The exact program after `n` statements. -/
def exactRun (s : ExactState abi types) : ℕ → Option (ExactState abi types)
  | 0 => some s
  | n + 1 => (exactRun s n).bind exactStep

/-- The next statement computes nothing that is not representable. -/
def ExactState.InRange (s : ExactState abi types) : Prop :=
  match s.rest with
  | .assign _ t _ :: _ => t.InRange s.values
  | _ => True

/-! ### Expressions -/

section Terms

variable {store : Store abi types} {t : Term abi ν}

omit [DecidableEq ν] in
theorem exact_read (store : Store abi types) (t : Term abi ν) :
    (t.read store).exact = t.exact (values store) := by
  induction t with
  | const v => rfl
  | var x => rfl
  | node op dest l r ihl ihr => simp only [Term.read, Expr.exact, Term.exact, ihl, ihr]

omit [DecidableEq ν] in
theorem representable_read (store : Store abi types) (t : Term abi ν) :
    (t.read store).Representable ↔ t.InRange (values store) := by
  induction t with
  | const v => rfl
  | var x => rfl
  | node op dest l r ihl ihr =>
      simp only [Term.read, Expr.Representable, Term.InRange, exact_read, ihl, ihr]

omit [DecidableEq ν] in
/-- The exact value of a term that is in range is one of its type. -/
theorem fits_exact (h : t.InRange (values store)) :
    (t.intType types).Fits (t.exact (values store)) := by
  cases t with
  | const v => exact v.fits
  | var x => exact (store x).2
  | node op dest l r => exact h.1

omit [DecidableEq ν] in
theorem fresh_read (store : Store abi types) (t : Term abi ν) : (t.read store).Fresh := by
  induction t with
  | const v => rfl
  | var x => rfl
  | node op dest l r ihl ihr =>
      rw [Expr.Fresh] at ihl ihr ⊢
      rw [Term.read, Expr.erase, ihl, ihr]

theorem Expr.Evaluated.exists_result {e : Expr abi} (h : e.Evaluated) :
    ∃ v, e.result = some v := by
  cases e with
  | leaf v => exact ⟨v, rfl⟩
  | node op dest res l r => exact Option.isSome_iff_exists.mp h.1

/-- An operand may be evaluated before the other one. -/
theorem runs_lhs {op : BinOp} {dest : Dest} {res : Option (Operand abi)} {l l' r : Expr abi}
    {f f' : Bool} (h : Expr.Runs l f l' f') :
    Expr.Runs (.node op dest res l r) f (.node op dest res l' r) f' := by
  induction h with
  | refl => exact .refl
  | tail _ hstep ih => exact ih.tail (.lhs hstep)

theorem runs_rhs {op : BinOp} {dest : Dest} {res : Option (Operand abi)} {l r r' : Expr abi}
    {f f' : Bool} (h : Expr.Runs r f r' f') :
    Expr.Runs (.node op dest res l r) f (.node op dest res l r') f' := by
  induction h with
  | refl => exact .refl
  | tail _ hstep ih => exact ih.tail (.rhs hstep)

theorem runs_trans {e e' e'' : Expr abi} {f f' f'' : Bool} (h : Expr.Runs e f e' f')
    (h' : Expr.Runs e' f' e'' f'') : Expr.Runs e f e'' f'' := by
  induction h' with
  | refl => exact h
  | tail _ hstep ih => exact ih.tail hstep

omit [DecidableEq ν] in
/-- **Every expression can be evaluated** to the end. -/
theorem exists_runs (store : Store abi types) (t : Term abi ν) (f : Bool) :
    ∃ e f', Expr.Runs (t.read store) f e f' ∧ e.Evaluated := by
  induction t generalizing f with
  | const v => exact ⟨_, f, .refl, trivial⟩
  | var x => exact ⟨_, f, .refl, trivial⟩
  | node op dest l r ihl ihr =>
      obtain ⟨l', f₁, hl, hl'⟩ := ihl f
      obtain ⟨r', f₂, hr, hr'⟩ := ihr f₁
      obtain ⟨a, ha⟩ := Expr.Evaluated.exists_result hl'
      obtain ⟨b, hb⟩ := Expr.Evaluated.exists_result hr'
      refine ⟨_, _, (runs_trans (runs_lhs hl) (runs_rhs hr)).tail (.eval ha hb), ?_⟩
      exact ⟨rfl, hl', hr'⟩

omit [DecidableEq ν] in
/-- **An expression that is evaluated while the flag is clear** leaves it clear exactly if it is
in range, and then has its exact value. -/
theorem runs_exact {e : Expr abi} {v : Operand abi} {f : Bool}
    (h : Expr.Runs (t.read store) false e f) (hdone : e.Evaluated) (hv : e.result = some v) :
    (f = false ↔ t.InRange (values store)) ∧
      (f = false → v.value = t.exact (values store)) := by
  obtain ⟨hflag, hexact⟩ := h.flag_iff (fresh_read store t)
  obtain ⟨herase, -⟩ := h.erase_eq
  refine ⟨?_, fun hf => ?_⟩
  · rw [hflag, hdone.clean_iff, ← Expr.representable_erase, herase, Expr.representable_erase,
      representable_read]
  · rw [(hexact hf).value_eq hv, Expr.exact_congr herase, exact_read]

end Terms

/-! ### Programs -/

section Programs

variable {s s' : State abi types}

/-- The exact state that a state stands for. -/
def State.toExact (s : State abi types) : ExactState abi types :=
  ⟨s.rest, values s.store⟩

/-- A value that the type of the variable represents is assigned as it is. -/
theorem values_assign (store : Store abi types) {x : ν} {v : Operand abi}
    (hv : ((types x).intType abi).Fits v.value) :
    values (store.assign x v) = Function.update (values store) x v.value := by
  funext y
  by_cases hy : y = x
  · subst hy
    simp [values, Store.assign, hv.wrap_eq]
  · simp [values, Store.assign, hy]

/-- The flag is sticky. -/
theorem Step.overflow (h : Step s () s') (hf : s.overflow = true) : s'.overflow = true := by
  cases h with
  | assign hruns _ _ => exact hruns.erase_eq.2 hf
  | ite => exact hf
  | loop => exact hf

/-- **One step of a program whose flag is clear** leaves it clear exactly if the statement is in
range, and then is the step of the exact program. -/
theorem Step.exact (h : Step s () s') (hf : s.overflow = false) :
    (s'.overflow = false ↔ s.toExact.InRange) ∧
      (s'.overflow = false → exactStep s.toExact = some s'.toExact) := by
  cases h with
  | @assign x t ht _ _ _ _ _ _ hruns hdone hv =>
      obtain rfl : _ = false := hf
      obtain ⟨hflag, hvalue⟩ := runs_exact hruns hdone hv
      refine ⟨hflag, fun hf' => ?_⟩
      have hfits := ht _ (fits_exact (hflag.mp hf'))
      rw [← hvalue hf'] at hfits
      simp only [exactStep, State.toExact, values_assign _ hfits, hvalue hf']
  | ite => exact ⟨iff_of_true hf trivial, fun _ => rfl⟩
  | loop => exact ⟨iff_of_true hf trivial, fun _ => rfl⟩

/-- A program that has not ended can go on. -/
theorem exists_step (h : s.rest ≠ []) : ∃ s', Step s () s' := by
  obtain ⟨rest, store, f⟩ := s
  cases rest with
  | nil => exact absurd rfl h
  | cons stmt p =>
      cases stmt with
      | assign x t _ =>
          obtain ⟨e, f', hruns, hdone⟩ := exists_runs store t f
          obtain ⟨v, hv⟩ := Expr.Evaluated.exists_result hdone
          exact ⟨_, .assign hruns hdone hv⟩
      | ite cond p' q => exact ⟨_, .ite⟩
      | loop cond p' => exact ⟨_, .loop⟩

/-- The exact program up to now, as long as the flag is clear. -/
theorem run_exact {s₀ : State abi types} {trace : List (State abi types × Unit)}
    (hstart : s₀.overflow = false) (h : Run Step s₀ trace s) :
    (s.overflow = false → exactRun s₀.toExact trace.length = some s.toExact) ∧
      (s.overflow = true ↔
        ∃ n < trace.length, ∃ e, exactRun s₀.toExact n = some e ∧ ¬ e.InRange) := by
  induction h with
  | nil =>
      refine ⟨fun _ => rfl, ?_⟩
      rw [hstart]
      simp
  | @snoc trace s s' u _ hstep ih =>
      obtain ⟨hexact, hflag⟩ := ih
      rw [List.length_append, List.length_singleton]
      cases hf : s.overflow with
      | true =>
          have hf' := Step.overflow hstep hf
          rw [hf']
          refine ⟨(fun h => by cases h), iff_of_true rfl ?_⟩
          obtain ⟨n, hn, he⟩ := hflag.mp hf
          exact ⟨n, by omega, he⟩
      | false =>
          obtain ⟨hstay, hnext⟩ := Step.exact hstep hf
          have hlast := hexact hf
          refine ⟨fun hf' => ?_, ?_⟩
          · rw [exactRun, hlast]
            exact hnext hf'
          · rw [← Bool.not_eq_false, hstay]
            constructor
            · exact fun hout => ⟨trace.length, Nat.lt_succ_self _, _, hlast, hout⟩
            · rintro ⟨n, hn, e, he, hout⟩
              by_cases hn' : n < trace.length
              · rw [hflag.mpr ⟨n, hn', e, he, hout⟩] at hf
                cases hf
              · obtain rfl : n = trace.length := by omega
                obtain rfl := Option.some.inj (hlast.symm.trans he)
                exact hout

end Programs

end Checked

open Checked in
/-- **Check once at the end.** Run a program of assignments, branches and loops over the macros
with a flag that is clear at the start, the nodes of each expression in any order. The types of
the variables represent what is assigned to them. At every point of the run the flag is set
exactly if the exact program has left the range of some destination type by then. As long as it
is clear the run is that of the exact program, statement by statement: the same branches and
iterations, and the same numbers in all variables. The program ends or goes on, and a flag that
is set stays set. -/
theorem checked_programs {abi : Abi} {ν : Type*} [DecidableEq ν] {types : ν → OperandType}
    {p : List (Stmt abi types)} {store : Store abi types}
    {trace : List (State abi types × Unit)} {s : State abi types}
    (h : Run Step ⟨p, store, false⟩ trace s) :
    (s.overflow = true ↔ ∃ n < trace.length, ∃ e,
      exactRun ⟨p, values store⟩ n = some e ∧ ¬ e.InRange) ∧
    (s.overflow = false →
      exactRun ⟨p, values store⟩ trace.length = some ⟨s.rest, values s.store⟩) ∧
    (s.rest ≠ [] → ∃ s', Step s () s') ∧
    (s.overflow = true → ∀ s', Step s () s' → s'.overflow = true) := by
  obtain ⟨hexact, hflag⟩ := run_exact rfl h
  exact ⟨hflag, hexact, exists_step, fun hf s' hstep => hstep.overflow hf⟩

open Checked in
/-- A loop that counts a `uint32_t` up until it is `0`: from the greatest value it ends after one
iteration, which sets the flag. The exact program goes on. -/
theorem checked_programs_count_up :
    ∃ (p : List (Stmt ⟨true, true⟩ fun _ : Unit => .unsignedInt))
      (store : Store ⟨true, true⟩ fun _ : Unit => .unsignedInt)
      (trace : List (State ⟨true, true⟩ (fun _ : Unit => .unsignedInt) × Unit))
      (s : State ⟨true, true⟩ fun _ : Unit => .unsignedInt),
      Run Step ⟨p, store, false⟩ trace s ∧ s.rest = [] ∧ s.overflow = true ∧
      ∃ n < trace.length, ∃ e, exactRun ⟨p, values store⟩ n = some e ∧ ¬ e.InRange := by
  let one : Operand ⟨true, true⟩ := ⟨.int, 1, by decide⟩
  have hmost : IntType.uint32.Fits (2 ^ 32 - 1) := by decide
  let store : Store ⟨true, true⟩ fun _ : Unit => .unsignedInt := fun _ => ⟨2 ^ 32 - 1, hmost⟩
  let count : Stmt ⟨true, true⟩ fun _ : Unit => .unsignedInt :=
    .assign () (.node .add .u32 (.var ()) (.const one)) fun _ => id
  have hrun := (Run.nil : Run Step
      ⟨[.loop (fun values => values () != 0) [count]], store, false⟩ [] _)
    |>.snoc .loop
    |>.snoc (.assign (.tail .refl (.eval rfl rfl)) ⟨rfl, trivial, trivial⟩ rfl)
    |>.snoc .loop
  have hoverflow : (checkedMacro .add .u32 (store.operand ()) one false).2 = true := rfl
  exact ⟨_, _, _, _, hrun, rfl, hoverflow, (checked_programs hrun).1.mp hoverflow⟩

end U7Init
