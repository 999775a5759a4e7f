import U7Init.Lib.MachineInt
import Mathlib.Logic.Relation

/-!
# Checked Arithmetic

This module models the C side of `public/math.h`: the eleven operand types, the
functions generated by `U7_OVERFLOW_DEFINE_KIND_PAIRS_`, the `_Generic` table that
selects among them, and the twelve macros `U7_ADD_OVERFLOW_I32`, …,
`U7_MUL_OVERFLOW_U64`. Operands are converted to `int64_t` or `uint64_t` before the
compiler builtin sees them; the builtin computes the exact result, stores it reduced
into the destination type and reports whether it did not fit.

Machine integers are unbounded integers with a range (`IntType.Fits`), and conversions are
reduction modulo a power of two (`IntType.wrap`). The widths are those of an LP64 platform; the
signedness of `char`, and which type `int64_t` is a name for, are parameters (`Abi`), as the
header makes no assumption about them.

On top of the macros stand expression trees whose nodes are evaluated one at a time,
in any order that respects the tree, all of them updating one shared flag.

## Main results

* `u7OverflowMacro_eq`: the widening is lossless for each of the 121 operand pairs, so
  every macro computes the exact result and or-s its overflow bit into the flag.
* `Expr.Step.spec`: what one evaluation step does to the tree and to the flag.
* `sticky_overflow`: the flag of a finished evaluation is clear exactly when every
  node's exact value is representable in that node's destination type, and then every
  node holds its exact value.
-/

open MachineInt MachineInt.IntType

namespace U7Init

/-- The operand types that `public/math.h` documents, in the order of its list. -/
inductive OperandType
  | char | signedChar | short | int | long | longLong
  | unsignedChar | unsignedShort | unsignedInt | unsignedLong | unsignedLongLong
  deriving DecidableEq, Repr

/-- What an LP64 platform leaves open: the signedness of plain `char`, and whether
`int64_t` is `long` or `long long`. -/
structure Abi where
  charSigned : Bool
  int64IsLong : Bool
  deriving DecidableEq, Repr

/-- The width and signedness of an operand type. -/
def OperandType.intType (abi : Abi) : OperandType → IntType
  | .char => ⟨8, abi.charSigned, by decide⟩
  | .signedChar => ⟨8, true, by decide⟩
  | .short => ⟨16, true, by decide⟩
  | .int => int32
  | .long => int64
  | .longLong => int64
  | .unsignedChar => ⟨8, false, by decide⟩
  | .unsignedShort => ⟨16, false, by decide⟩
  | .unsignedInt => uint32
  | .unsignedLong => uint64
  | .unsignedLongLong => uint64

/-- A value of one of the operand types. -/
structure Operand (abi : Abi) where
  type : OperandType
  value : ℤ
  fits : (type.intType abi).Fits value

/-- The three operations. -/
inductive BinOp
  | add | sub | mul
  deriving DecidableEq, Repr

/-- The operation on unbounded integers. -/
def BinOp.exact : BinOp → ℤ → ℤ → ℤ
  | .add, a, b => a + b
  | .sub, a, b => a - b
  | .mul, a, b => a * b

/-- The destination tags of the macros. -/
inductive Dest
  | i32 | u32 | i64 | u64
  deriving DecidableEq, Repr

/-- The destination type of a tag. -/
def Dest.intType : Dest → IntType
  | .i32 => int32
  | .u32 => uint32
  | .i64 => int64
  | .u64 => uint64

/-- The operand type a destination type is a name for. -/
def Dest.operandType (abi : Abi) : Dest → OperandType
  | .i32 => .int
  | .u32 => .unsignedInt
  | .i64 => if abi.int64IsLong then .long else .longLong
  | .u64 => if abi.int64IsLong then .unsignedLong else .unsignedLongLong

@[simp] theorem Dest.intType_operandType (abi : Abi) (d : Dest) :
    (d.operandType abi).intType abi = d.intType := by
  cases d with
  | i32 | u32 => rfl
  | i64 | u64 => rw [operandType]; split <;> rfl

/-! ### The generated functions and the macros -/

/-- `__builtin_add_overflow` and its two siblings: the exact result reduced into the
destination type, and whether it did not fit. -/
def builtinOverflow (op : BinOp) (dest : IntType) (lhs rhs : ℤ) : ℤ × Bool :=
  (dest.wrap (op.exact lhs rhs), !decide (dest.Fits (op.exact lhs rhs)))

/-- `U7_OVERFLOW_DEFINE_`: the arguments are converted to the parameter types, and the
builtin's bit is or-ed into `*overflow`. -/
def u7OverflowDefine (op : BinOp) (lhsT rhsT destT : IntType) (lhs rhs : ℤ)
    (overflow : Bool) : ℤ × Bool :=
  let r := builtinOverflow op destT (lhsT.wrap lhs) (rhsT.wrap rhs)
  (r.1, overflow || r.2)

/-- `u7_<op>_overflow_i64_i64_to_<dest>_`, one of the functions of
`U7_OVERFLOW_DEFINE_KIND_PAIRS_`: twelve of them in the header, with the operation and the
destination as parameters here. -/
def u7OverflowI64I64 (op : BinOp) (dest : Dest) : ℤ → ℤ → Bool → ℤ × Bool :=
  u7OverflowDefine op int64 int64 dest.intType

/-- `u7_<op>_overflow_i64_u64_to_<dest>_`. -/
def u7OverflowI64U64 (op : BinOp) (dest : Dest) : ℤ → ℤ → Bool → ℤ × Bool :=
  u7OverflowDefine op int64 uint64 dest.intType

/-- `u7_<op>_overflow_u64_i64_to_<dest>_`. -/
def u7OverflowU64I64 (op : BinOp) (dest : Dest) : ℤ → ℤ → Bool → ℤ × Bool :=
  u7OverflowDefine op uint64 int64 dest.intType

/-- `u7_<op>_overflow_u64_u64_to_<dest>_`. -/
def u7OverflowU64U64 (op : BinOp) (dest : Dest) : ℤ → ℤ → Bool → ℤ × Bool :=
  u7OverflowDefine op uint64 uint64 dest.intType

/-- `U7_OVERFLOW_DISPATCH_RHS_`: the `_Generic` selection by the type of the right operand. The
rows are those of the header, so that a missing or misplaced one would be seen. -/
def u7OverflowDispatchRhs {α : Type*} (rhs : OperandType) (i64Fn u64Fn : α) : α :=
  match rhs with
  | .char => i64Fn
  | .signedChar => i64Fn
  | .short => i64Fn
  | .int => i64Fn
  | .long => i64Fn
  | .longLong => i64Fn
  | .unsignedChar => u64Fn
  | .unsignedShort => u64Fn
  | .unsignedInt => u64Fn
  | .unsignedLong => u64Fn
  | .unsignedLongLong => u64Fn

/-- `U7_OVERFLOW_DISPATCH_`: the selection by the left operand, and in each row by the right
one. -/
def u7OverflowDispatch {α : Type*} (lhs rhs : OperandType) (ii iu ui uu : α) : α :=
  match lhs with
  | .char => u7OverflowDispatchRhs rhs ii iu
  | .signedChar => u7OverflowDispatchRhs rhs ii iu
  | .short => u7OverflowDispatchRhs rhs ii iu
  | .int => u7OverflowDispatchRhs rhs ii iu
  | .long => u7OverflowDispatchRhs rhs ii iu
  | .longLong => u7OverflowDispatchRhs rhs ii iu
  | .unsignedChar => u7OverflowDispatchRhs rhs ui uu
  | .unsignedShort => u7OverflowDispatchRhs rhs ui uu
  | .unsignedInt => u7OverflowDispatchRhs rhs ui uu
  | .unsignedLong => u7OverflowDispatchRhs rhs ui uu
  | .unsignedLongLong => u7OverflowDispatchRhs rhs ui uu

variable {abi : Abi}

/-- `U7_OVERFLOW_MACRO_`: the result and the new value of `*overflow`. -/
def u7OverflowMacro (op : BinOp) (dest : Dest) (lhs rhs : Operand abi)
    (overflow : Bool) : ℤ × Bool :=
  u7OverflowDispatch lhs.type rhs.type (u7OverflowI64I64 op dest)
    (u7OverflowI64U64 op dest) (u7OverflowU64I64 op dest) (u7OverflowU64U64 op dest)
    lhs.value rhs.value overflow

/-- `U7_ADD_OVERFLOW_I32`, the first of the twelve macros `U7_<op>_OVERFLOW_<dest>`: each fixes
the operation and the destination tag of `U7_OVERFLOW_MACRO_`. -/
def u7AddOverflowI32 : Operand abi → Operand abi → Bool → ℤ × Bool :=
  u7OverflowMacro .add .i32

def u7AddOverflowU32 : Operand abi → Operand abi → Bool → ℤ × Bool :=
  u7OverflowMacro .add .u32

def u7AddOverflowI64 : Operand abi → Operand abi → Bool → ℤ × Bool :=
  u7OverflowMacro .add .i64

def u7AddOverflowU64 : Operand abi → Operand abi → Bool → ℤ × Bool :=
  u7OverflowMacro .add .u64

def u7SubOverflowI32 : Operand abi → Operand abi → Bool → ℤ × Bool :=
  u7OverflowMacro .sub .i32

def u7SubOverflowU32 : Operand abi → Operand abi → Bool → ℤ × Bool :=
  u7OverflowMacro .sub .u32

def u7SubOverflowI64 : Operand abi → Operand abi → Bool → ℤ × Bool :=
  u7OverflowMacro .sub .i64

def u7SubOverflowU64 : Operand abi → Operand abi → Bool → ℤ × Bool :=
  u7OverflowMacro .sub .u64

def u7MulOverflowI32 : Operand abi → Operand abi → Bool → ℤ × Bool :=
  u7OverflowMacro .mul .i32

def u7MulOverflowU32 : Operand abi → Operand abi → Bool → ℤ × Bool :=
  u7OverflowMacro .mul .u32

def u7MulOverflowI64 : Operand abi → Operand abi → Bool → ℤ × Bool :=
  u7OverflowMacro .mul .i64

def u7MulOverflowU64 : Operand abi → Operand abi → Bool → ℤ × Bool :=
  u7OverflowMacro .mul .u64

/-- The macro a node of an expression is an invocation of, to speak of all twelve at once. -/
def checkedMacro : BinOp → Dest → Operand abi → Operand abi → Bool → ℤ × Bool
  | .add, .i32 => u7AddOverflowI32
  | .add, .u32 => u7AddOverflowU32
  | .add, .i64 => u7AddOverflowI64
  | .add, .u64 => u7AddOverflowU64
  | .sub, .i32 => u7SubOverflowI32
  | .sub, .u32 => u7SubOverflowU32
  | .sub, .i64 => u7SubOverflowI64
  | .sub, .u64 => u7SubOverflowU64
  | .mul, .i32 => u7MulOverflowI32
  | .mul, .u32 => u7MulOverflowU32
  | .mul, .i64 => u7MulOverflowI64
  | .mul, .u64 => u7MulOverflowU64

/-! ### The widening is lossless -/

/-- The 64-bit type an operand type is dispatched to. -/
def OperandType.wide (t : OperandType) : IntType :=
  u7OverflowDispatchRhs t int64 uint64

/-- Every value of an operand type is represented by the type it is widened to; plain
`char` goes to `int64_t` whatever its signedness. -/
theorem OperandType.fits_wide {t : OperandType} {x : ℤ} (h : (t.intType abi).Fits x) :
    t.wide.Fits x := by
  cases t with
  | char =>
      obtain ⟨hlo, hhi⟩ := h
      cases hs : abi.charSigned <;>
        simp [intType, wide, u7OverflowDispatchRhs, IntType.Fits, IntType.lo, hs] at * <;>
        omega
  | _ =>
      refine IntType.Fits.of_le ?_ ?_ h
      · rfl
      · exact Nat.le_of_ble_eq_true rfl

/-- The `_Generic` table selects by the two widened types. -/
theorem u7OverflowDispatch_wide {α : Type*} (lhs rhs : OperandType)
    (f : IntType → IntType → α) :
    u7OverflowDispatch lhs rhs (f int64 int64) (f int64 uint64) (f uint64 int64)
      (f uint64 uint64) = f lhs.wide rhs.wide := by
  have hrhs : ∀ g : IntType → α,
      u7OverflowDispatchRhs rhs (g int64) (g uint64) = g rhs.wide := by
    intro g
    cases rhs <;> rfl
  cases lhs <;> exact hrhs _

/-- Every macro computes the exact result, stores it reduced into the destination type
and or-s its overflow bit into the flag. -/
theorem u7OverflowMacro_eq (op : BinOp) (dest : Dest) (lhs rhs : Operand abi)
    (overflow : Bool) :
    u7OverflowMacro op dest lhs rhs overflow =
      (dest.intType.wrap (op.exact lhs.value rhs.value),
        overflow || !decide (dest.intType.Fits (op.exact lhs.value rhs.value))) := by
  have hdispatch := u7OverflowDispatch_wide lhs.type rhs.type
    fun lhsT rhsT => u7OverflowDefine op lhsT rhsT dest.intType
  have hl := (OperandType.fits_wide lhs.fits).wrap_eq
  have hr := (OperandType.fits_wide rhs.fits).wrap_eq
  rw [u7OverflowMacro, u7OverflowI64I64, u7OverflowI64U64, u7OverflowU64I64,
    u7OverflowU64U64, hdispatch]
  simp only [u7OverflowDefine, builtinOverflow, hl, hr]

/-- All twelve macros have the one specification. -/
theorem checkedMacro_eq (op : BinOp) (dest : Dest) (lhs rhs : Operand abi)
    (overflow : Bool) :
    checkedMacro op dest lhs rhs overflow =
      (dest.intType.wrap (op.exact lhs.value rhs.value),
        overflow || !decide (dest.intType.Fits (op.exact lhs.value rhs.value))) := by
  rw [← u7OverflowMacro_eq]
  cases op <;> cases dest <;> rfl

/-- The result of a macro is a value of its destination type. -/
theorem fits_checkedMacro (op : BinOp) (dest : Dest) (lhs rhs : Operand abi)
    (overflow : Bool) :
    ((dest.operandType abi).intType abi).Fits
      (checkedMacro op dest lhs rhs overflow).1 := by
  rw [checkedMacro_eq, Dest.intType_operandType]
  exact IntType.fits_wrap _ _

/-- The result of a macro as an operand of the enclosing one. -/
def checkedOperand (op : BinOp) (dest : Dest) (lhs rhs : Operand abi) (overflow : Bool) :
    Operand abi :=
  ⟨dest.operandType abi, (checkedMacro op dest lhs rhs overflow).1,
    fits_checkedMacro op dest lhs rhs overflow⟩

theorem checkedOperand_value (op : BinOp) (dest : Dest) (lhs rhs : Operand abi)
    (overflow : Bool) :
    (checkedOperand op dest lhs rhs overflow).value =
      dest.intType.wrap (op.exact lhs.value rhs.value) := by
  simp only [checkedOperand, checkedMacro_eq]

/-! ### Expressions that share one flag -/

/-- An expression over the macros. An inner node holds its result once it has been
evaluated. -/
inductive Expr (abi : Abi)
  | leaf (operand : Operand abi)
  | node (op : BinOp) (dest : Dest) (result : Option (Operand abi)) (lhs rhs : Expr abi)

namespace Expr

/-- The value an enclosing node reads: a leaf's operand or a node's result. -/
def result : Expr abi → Option (Operand abi)
  | leaf v => some v
  | node _ _ res _ _ => res

/-- The value of an expression over the unbounded integers. -/
def exact : Expr abi → ℤ
  | leaf v => v.value
  | node op _ _ l r => op.exact l.exact r.exact

/-- The expression with every result forgotten. -/
def erase : Expr abi → Expr abi
  | leaf v => leaf v
  | node op dest _ l r => node op dest none l.erase r.erase

/-- No node has been evaluated. -/
def Fresh (e : Expr abi) : Prop :=
  e.erase = e

/-- Every node has been evaluated. -/
def Evaluated : Expr abi → Prop
  | leaf _ => True
  | node _ _ res l r => res.isSome = true ∧ l.Evaluated ∧ r.Evaluated

/-- Every node's exact value is representable in that node's destination type. -/
def Representable : Expr abi → Prop
  | leaf _ => True
  | node op dest _ l r =>
      dest.intType.Fits (op.exact l.exact r.exact) ∧ l.Representable ∧ r.Representable

/-- `Representable`, asked of the evaluated nodes only. -/
def Clean : Expr abi → Prop
  | leaf _ => True
  | node op dest res l r =>
      (res.isSome = true → dest.intType.Fits (op.exact l.exact r.exact)) ∧
        l.Clean ∧ r.Clean

/-- Every evaluated node holds its exact value. -/
def Exact : Expr abi → Prop
  | leaf _ => True
  | node op _ res l r =>
      (∀ v, res = some v → v.value = op.exact l.exact r.exact) ∧ l.Exact ∧ r.Exact

/-- One evaluation step: some node whose two operands have values, and which has no
result yet, calls its macro on the shared flag. Which node that is, is left open. -/
inductive Step : Expr abi → Bool → Expr abi → Bool → Prop
  | eval {op : BinOp} {dest : Dest} {l r : Expr abi} {a b : Operand abi} {f : Bool} :
      l.result = some a → r.result = some b →
      Step (node op dest none l r) f
        (node op dest (some (checkedOperand op dest a b f)) l r)
        (checkedMacro op dest a b f).2
  | lhs {op : BinOp} {dest : Dest} {res : Option (Operand abi)} {l l' r : Expr abi}
      {f f' : Bool} :
      Step l f l' f' → Step (node op dest res l r) f (node op dest res l' r) f'
  | rhs {op : BinOp} {dest : Dest} {res : Option (Operand abi)} {l r r' : Expr abi}
      {f f' : Bool} :
      Step r f r' f' → Step (node op dest res l r) f (node op dest res l r') f'

/-- A sequence of evaluation steps, in any order. -/
inductive Runs (e : Expr abi) (f : Bool) : Expr abi → Bool → Prop
  | refl : Runs e f e f
  | tail {e₁ e₂ : Expr abi} {f₁ f₂ : Bool} :
      Runs e f e₁ f₁ → Step e₁ f₁ e₂ f₂ → Runs e f e₂ f₂

@[simp] theorem exact_erase (e : Expr abi) : e.erase.exact = e.exact := by
  induction e with
  | leaf v => rfl
  | node op dest res l r ihl ihr => simp only [erase, exact, ihl, ihr]

/-- The exact value does not depend on what has been evaluated. -/
theorem exact_congr {e e' : Expr abi} (h : e'.erase = e.erase) : e'.exact = e.exact := by
  rw [← exact_erase e', h, exact_erase]

theorem representable_erase (e : Expr abi) : e.erase.Representable ↔ e.Representable := by
  induction e with
  | leaf v => rfl
  | node op dest res l r ihl ihr =>
      simp only [erase, Representable, exact_erase, ihl, ihr]

/-- A fresh expression has no evaluated node to be wrong about. -/
theorem clean_and_exact_erase (e : Expr abi) : e.erase.Clean ∧ e.erase.Exact := by
  induction e with
  | leaf v => exact ⟨trivial, trivial⟩
  | node op dest res l r ihl ihr =>
      refine ⟨⟨?_, ihl.1, ihr.1⟩, ⟨?_, ihl.2, ihr.2⟩⟩
      · intro h
        cases h
      · intro v h
        cases h

/-- Once every node is evaluated the restriction to evaluated nodes is void. -/
theorem Evaluated.clean_iff {e : Expr abi} (h : e.Evaluated) :
    e.Clean ↔ e.Representable := by
  induction e with
  | leaf v => rfl
  | node op dest res l r ihl ihr =>
      obtain ⟨hres, hl, hr⟩ := h
      simp only [Clean, Representable, hres, ihl hl, ihr hr, true_implies]

/-- In an exact expression every value that can be read is the exact one. -/
theorem Exact.value_eq {e : Expr abi} {v : Operand abi} (h : e.Exact)
    (hv : e.result = some v) : v.value = e.exact := by
  cases e with
  | leaf w =>
      obtain rfl : w = v := Option.some.inj hv
      rfl
  | node op dest res l r => exact h.1 v hv

/-- What a step does: it keeps the tree, it never clears the flag, and, on an expression
that is exact so far, it raises the flag exactly when the node it evaluates has an exact
value outside its destination type (`fit` is `false`). -/
theorem Step.spec {e e' : Expr abi} {f f' : Bool} (h : Step e f e' f') :
    e'.erase = e.erase ∧ (f = true → f' = true) ∧ (e'.Clean → e.Clean) ∧
      (e.Exact → ∃ fit : Bool, f' = (f || !fit) ∧
        (e'.Clean ↔ e.Clean ∧ fit = true) ∧ (fit = true → e'.Exact)) := by
  induction h with
  | @eval op dest l r a b f ha hb =>
      refine ⟨rfl, ?_, ?_, ?_⟩
      · intro hf
        rw [checkedMacro_eq, hf, Bool.true_or]
      · rintro ⟨-, hl, hr⟩
        exact ⟨nofun, hl, hr⟩
      · rintro ⟨-, hl, hr⟩
        have hav := hl.value_eq ha
        have hbv := hr.value_eq hb
        refine ⟨decide (dest.intType.Fits (op.exact l.exact r.exact)), ?_, ?_, ?_⟩
        · rw [checkedMacro_eq, hav, hbv]
        · simp only [Clean, Option.isSome_some, true_implies, Option.isSome_none,
            Bool.false_eq_true, false_implies, true_and, decide_eq_true_eq]
          exact and_comm
        · intro hfit
          refine ⟨?_, hl, hr⟩
          intro v hv
          obtain rfl := Option.some.inj hv
          rw [checkedOperand_value, hav, hbv]
          exact (of_decide_eq_true hfit).wrap_eq
  | @lhs op dest res l l' r f f' _ ih =>
      obtain ⟨herase, hmono, hclean, hexact⟩ := ih
      have hval := exact_congr herase
      refine ⟨by simp only [erase, herase], hmono, ?_, ?_⟩
      · rintro ⟨hres, hl, hr⟩
        exact ⟨hval ▸ hres, hclean hl, hr⟩
      · rintro ⟨hres, hl, hr⟩
        obtain ⟨fit, hf, hc, hx⟩ := hexact hl
        refine ⟨fit, hf, ?_, fun hfit => ⟨hval ▸ hres, hx hfit, hr⟩⟩
        simp only [Clean, hval, hc]
        exact ⟨fun ⟨h, ⟨hl, hfit⟩, hr⟩ => ⟨⟨h, hl, hr⟩, hfit⟩,
          fun ⟨⟨h, hl, hr⟩, hfit⟩ => ⟨h, ⟨hl, hfit⟩, hr⟩⟩
  | @rhs op dest res l r r' f f' _ ih =>
      obtain ⟨herase, hmono, hclean, hexact⟩ := ih
      have hval := exact_congr herase
      refine ⟨by simp only [erase, herase], hmono, ?_, ?_⟩
      · rintro ⟨hres, hl, hr⟩
        exact ⟨hval ▸ hres, hl, hclean hr⟩
      · rintro ⟨hres, hl, hr⟩
        obtain ⟨fit, hf, hc, hx⟩ := hexact hr
        refine ⟨fit, hf, ?_, fun hfit => ⟨hval ▸ hres, hl, hx hfit⟩⟩
        simp only [Clean, hval, hc, and_assoc]

/-- A run keeps the tree and never clears the flag. -/
theorem Runs.erase_eq {e e' : Expr abi} {f f' : Bool} (h : Runs e f e' f') :
    e'.erase = e.erase ∧ (f = true → f' = true) := by
  induction h with
  | refl => exact ⟨rfl, id⟩
  | tail _ hstep ih =>
      obtain ⟨herase, hmono, -⟩ := hstep.spec
      exact ⟨herase.trans ih.1, fun hf => hmono (ih.2 hf)⟩

/-- From a fresh expression and a clear flag, the flag stays clear exactly as long as
every evaluated node is representable, and meanwhile every evaluated node is exact. -/
theorem Runs.flag_iff {e e' : Expr abi} {f : Bool} (hfresh : e.Fresh)
    (h : Runs e false e' f) : (f = false ↔ e'.Clean) ∧ (f = false → e'.Exact) := by
  induction h with
  | refl =>
      rw [← hfresh]
      exact ⟨⟨fun _ => (clean_and_exact_erase e).1, fun _ => rfl⟩,
        fun _ => (clean_and_exact_erase e).2⟩
  | @tail e₁ e₂ f₁ f₂ _ hstep ih =>
      obtain ⟨-, hmono, hclean, hexact⟩ := hstep.spec
      cases f₁ with
      | true =>
          -- the flag is sticky, and so is the unrepresentable node behind it
          obtain rfl := hmono rfl
          refine ⟨⟨nofun, fun hc => ?_⟩, nofun⟩
          exact absurd (ih.1.mpr (hclean hc)) nofun
      | false =>
          obtain ⟨fit, rfl, hc, hx⟩ := hexact (ih.2 rfl)
          have hclean₁ := ih.1.mp rfl
          cases fit with
          | true => exact ⟨⟨fun _ => hc.mpr ⟨hclean₁, rfl⟩, fun _ => rfl⟩, fun _ => hx rfl⟩
          | false => exact ⟨⟨nofun, fun h => absurd (hc.mp h).2 nofun⟩, nofun⟩

end Expr

/-- **Sticky overflow.** Evaluate an expression on one shared flag, its nodes in any
order that respects the tree. A flag that was raised at the start is raised at the end.
If it was clear, it ends clear exactly when every node's exact integer value is
representable in that node's destination type, and then every node of the evaluated
tree, which is the given one, holds its exact value. -/
theorem sticky_overflow {e e' : Expr abi} {f₀ f : Bool} (hfresh : e.Fresh)
    (hrun : Expr.Runs e f₀ e' f) (hdone : e'.Evaluated) :
    e'.erase = e ∧ (f₀ = true → f = true) ∧
      (f₀ = false → ((f = false ↔ e.Representable) ∧ (f = false → e'.Exact))) := by
  obtain ⟨herase, hmono⟩ := hrun.erase_eq
  rw [hfresh] at herase
  refine ⟨herase, hmono, ?_⟩
  rintro rfl
  obtain ⟨hflag, hexact⟩ := hrun.flag_iff hfresh
  refine ⟨?_, hexact⟩
  rw [hflag, hdone.clean_iff, ← Expr.representable_erase e', herase]

/-- The sum of `U7_ADD_OVERFLOW_I32(2147483647, 1, &f)` and `U7_SUB_OVERFLOW_U32(5u, 3, &f)` in
an `int64_t`, the second operand first: the first one raises the flag, and the outer addition,
which does not overflow, leaves it raised. -/
theorem sticky_overflow_inner :
    ∃ e e' : Expr ⟨true, true⟩, Expr.Runs e false e' true ∧ ¬ e.Representable ∧
      e'.result.map Operand.value = some (-2147483646) := by
  let a : Operand ⟨true, true⟩ := ⟨.int, 2147483647, by decide⟩
  let b : Operand ⟨true, true⟩ := ⟨.int, 1, by decide⟩
  let c : Operand ⟨true, true⟩ := ⟨.unsignedInt, 5, by decide⟩
  let d : Operand ⟨true, true⟩ := ⟨.int, 3, by decide⟩
  let sum : Expr ⟨true, true⟩ := .node .add .i32 none (.leaf a) (.leaf b)
  let difference : Expr ⟨true, true⟩ := .node .sub .u32 none (.leaf c) (.leaf d)
  let e : Expr ⟨true, true⟩ := .node .add .i64 none sum difference
  have hrun := (Expr.Runs.refl : Expr.Runs e false e false)
    |>.tail (.rhs (.eval rfl rfl)) |>.tail (.lhs (.eval rfl rfl)) |>.tail (.eval rfl rfl)
  have hfresh : e.Fresh := rfl
  obtain ⟨-, -, hsticky⟩ := sticky_overflow hfresh hrun
    ⟨rfl, ⟨rfl, trivial, trivial⟩, rfl, trivial, trivial⟩
  obtain ⟨hflag, -⟩ := hsticky rfl
  exact ⟨e, _, hrun, fun hrange => Bool.noConfusion (hflag.mpr hrange), rfl⟩

end U7Init
