import U7Init.Math

/-!
# Checked Arithmetic in C++

This module models the C++ side of `public/math.h` and compares it with the C side, which is
modelled in `U7Init.Math`. The header has both because C++ has no `_Generic`: in C a table
picks a function by the types of the operands, which are converted to the wide type of their
signedness on the way; in C++ a generic lambda takes the operands as they are, and the compiler
builtin sees their own types.

The lambda rejects every type that is not in the list of operand types when it is compiled.
A macro application that does not compile is `none` here, so that accepting all operand types
is something to prove: it is a list of eleven comparisons against the table of the C side.
`bool`, `char8_t` and the like are not operand types on either side, and are not modelled.

Both sides end in the compiler builtin `__builtin_*_overflow`, whose documented behaviour
`builtinOverflow` is: the exact result in unbounded integers, wrapped to the destination type,
and whether wrapping has changed it. The difference is what reaches it. The C side must not
lose anything when it widens the operands, and this is where the eleven operand types and the
two wide types come in (`OperandType.fits_wide`); the C++ side widens nothing.

## Main results

* `u7OverflowLambda_eq`: the lambda accepts all operand types, and computes the exact
  result.
* `checked_macros_agree`: the C macros and the C++ macros are the same function.
-/

open MachineInt MachineInt.IntType

namespace U7Init

namespace Cpp

variable {abi : Abi}

/-- `u7_overflow_is_operand_v`: the variable template is true of the listed types only. The
list is written out as in the header, to be compared with the operand types of the C table. -/
def u7OverflowIsOperandV (t : OperandType) : Bool :=
  t == .char || t == .signedChar || t == .short || t == .int || t == .long ||
    t == .longLong || t == .unsignedChar || t == .unsignedShort || t == .unsignedInt ||
    t == .unsignedLong || t == .unsignedLongLong

/-- `U7_OVERFLOW_LAMBDA_`, applied to its arguments: `none` if a static assertion fails,
and otherwise the result and the new value of `*overflow_`. The flag is only ever raised: the
result of the builtin is combined with what was there by `|=`. -/
def u7OverflowLambda (builtin : BinOp) (destT : IntType) (lhs rhs : Operand abi)
    (overflow : Bool) : Option (ℤ × Bool) :=
  if u7OverflowIsOperandV lhs.type = false then none
  else if u7OverflowIsOperandV rhs.type = false then none
  else
    let r := builtinOverflow builtin destT lhs.value rhs.value
    some (r.1, overflow || r.2)

/-- `U7_ADD_OVERFLOW_I32`, the first of the twelve macros, which are named as those of the C
side. They differ in the builtin and in the type of the destination, both of which the macro
passes to the lambda. -/
def u7AddOverflowI32 : Operand abi → Operand abi → Bool → Option (ℤ × Bool) :=
  u7OverflowLambda .add int32

def u7AddOverflowU32 : Operand abi → Operand abi → Bool → Option (ℤ × Bool) :=
  u7OverflowLambda .add uint32

def u7AddOverflowI64 : Operand abi → Operand abi → Bool → Option (ℤ × Bool) :=
  u7OverflowLambda .add int64

def u7AddOverflowU64 : Operand abi → Operand abi → Bool → Option (ℤ × Bool) :=
  u7OverflowLambda .add uint64

def u7SubOverflowI32 : Operand abi → Operand abi → Bool → Option (ℤ × Bool) :=
  u7OverflowLambda .sub int32

def u7SubOverflowU32 : Operand abi → Operand abi → Bool → Option (ℤ × Bool) :=
  u7OverflowLambda .sub uint32

def u7SubOverflowI64 : Operand abi → Operand abi → Bool → Option (ℤ × Bool) :=
  u7OverflowLambda .sub int64

def u7SubOverflowU64 : Operand abi → Operand abi → Bool → Option (ℤ × Bool) :=
  u7OverflowLambda .sub uint64

def u7MulOverflowI32 : Operand abi → Operand abi → Bool → Option (ℤ × Bool) :=
  u7OverflowLambda .mul int32

def u7MulOverflowU32 : Operand abi → Operand abi → Bool → Option (ℤ × Bool) :=
  u7OverflowLambda .mul uint32

def u7MulOverflowI64 : Operand abi → Operand abi → Bool → Option (ℤ × Bool) :=
  u7OverflowLambda .mul int64

def u7MulOverflowU64 : Operand abi → Operand abi → Bool → Option (ℤ × Bool) :=
  u7OverflowLambda .mul uint64

/-- The macro for an operation and a destination tag, to speak of all twelve at once. -/
def checkedMacro : BinOp → Dest → Operand abi → Operand abi → Bool → Option (ℤ × Bool)
  | .add, .i32 => u7AddOverflowI32
  | .add, .u32 => u7AddOverflowU32
  | .add, .i64 => u7AddOverflowI64
  | .add, .u64 => u7AddOverflowU64
  | .sub, .i32 => u7SubOverflowI32
  | .sub, .u32 => u7SubOverflowU32
  | .sub, .i64 => u7SubOverflowI64
  | .sub, .u64 => u7SubOverflowU64
  | .mul, .i32 => u7MulOverflowI32
  | .mul, .u32 => u7MulOverflowU32
  | .mul, .i64 => u7MulOverflowI64
  | .mul, .u64 => u7MulOverflowU64

/-- The list of the static assertions is the list of the operand types. -/
theorem u7OverflowIsOperandV_eq (t : OperandType) : u7OverflowIsOperandV t = true := by
  cases t <;> rfl

/-- **The lambda** accepts all operand types, and computes the exact result. -/
theorem u7OverflowLambda_eq (builtin : BinOp) (destT : IntType) (lhs rhs : Operand abi)
    (overflow : Bool) :
    u7OverflowLambda builtin destT lhs rhs overflow =
      some (destT.wrap (builtin.exact lhs.value rhs.value),
        overflow || !decide (destT.Fits (builtin.exact lhs.value rhs.value))) := by
  simp only [u7OverflowLambda, u7OverflowIsOperandV_eq, Bool.true_eq_false, if_false,
    builtinOverflow]

theorem checkedMacro_eq_lambda (op : BinOp) (dest : Dest) (lhs rhs : Operand abi)
    (overflow : Bool) :
    checkedMacro op dest lhs rhs overflow =
      u7OverflowLambda op dest.intType lhs rhs overflow := by
  cases op <;> cases dest <;> rfl

end Cpp

/-- **The C and the C++ macros are the same function.** Both accept every pair of operand
types; the result is the only value of the destination type that is congruent to the exact
one, and the flag is raised if it was or if the exact result is not representable. -/
theorem checked_macros_agree (abi : Abi) (op : BinOp) (dest : Dest) (lhs rhs : Operand abi)
    (overflow : Bool) :
    ∃ result flag,
      checkedMacro op dest lhs rhs overflow = (result, flag) ∧
      Cpp.checkedMacro op dest lhs rhs overflow = some (result, flag) ∧
      dest.intType.Fits result ∧
      result ≡ op.exact lhs.value rhs.value [ZMOD 2 ^ dest.intType.width] ∧
      (flag = true ↔ overflow = true ∨ ¬ dest.intType.Fits (op.exact lhs.value rhs.value)) := by
  refine ⟨_, _, checkedMacro_eq op dest lhs rhs overflow, ?_, fits_wrap _ _, ?_, ?_⟩
  · rw [Cpp.checkedMacro_eq_lambda, Cpp.u7OverflowLambda_eq]
  · exact dest.intType.wrap_modEq _
  · rw [Bool.or_eq_true, Bool.not_eq_true', decide_eq_false_iff_not]

end U7Init
