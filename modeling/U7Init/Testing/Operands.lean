import U7Init.Math
import U7Init.Testing.Values

/-!
# The Operands of Assertions

This module models `U7_TESTING_VALUE` for the numbers it accepts, and next to it the operator
`==` of C on the same operands: the integer promotions, the usual arithmetic conversions and
the comparison in the common type. The operator is modelled from the rules of the language and
not from the comparison of the test library, so that the two can be compared: `==` holds of
equal numbers and of the numbers that the conversions map onto each other, and the assertion
tells some of the latter apart.

Only finite `float`s and `double`s are looked at, and the platform evaluates both in their own
type.

## Main results

* `converts_commonType`: what becomes of an operand in the common type of two integers.
* `cEqual_iff`: which different numbers `==` takes for equal.
* `valuesEqual_operands_iff`: which of them the assertion takes for equal too.
* `assert_eq_against_c`: so the assertion tells apart what the conversions to a common integer
  type and to `float` have mapped onto each other, but no integer from the `double` it is
  rounded to.
-/

open MachineInt MachineInt.IntType Rounding

namespace U7Init

/-- An operand of `U7_ASSERT_EQ` that is a number. -/
inductive AssertOperand (abi : Abi)
  | integer (v : Operand abi)
  | float (v : Double) (single : v.IsSingle)
  | double (v : Double)

variable {abi : Abi} {σ τ : IntType} {v w : ℤ}

/-- `u7_testing_value_i64`: the operand is converted to `int64_t`. -/
def u7TestingValueI64 (v : ℤ) : U7TestingNumber :=
  .i64 (int64.wrap v) (fits_wrap _ _)

/-- `u7_testing_value_u64`: the operand is converted to `uint64_t`. -/
def u7TestingValueU64 (v : ℤ) : U7TestingNumber :=
  .u64 (uint64.wrap v) (fits_wrap _ _)

/-- `u7_testing_value_f64`. -/
def u7TestingValueF64 (v : Double) : U7TestingNumber :=
  .f64 v

/-- `U7_TESTING_VALUE`. -/
def u7TestingValue : AssertOperand abi → U7TestingNumber
  | .integer ⟨.char, v, _⟩ => u7TestingValueI64 v
  | .integer ⟨.signedChar, v, _⟩ => u7TestingValueI64 v
  | .integer ⟨.short, v, _⟩ => u7TestingValueI64 v
  | .integer ⟨.int, v, _⟩ => u7TestingValueI64 v
  | .integer ⟨.long, v, _⟩ => u7TestingValueI64 v
  | .integer ⟨.longLong, v, _⟩ => u7TestingValueI64 v
  | .integer ⟨.unsignedChar, v, _⟩ => u7TestingValueU64 v
  | .integer ⟨.unsignedShort, v, _⟩ => u7TestingValueU64 v
  | .integer ⟨.unsignedInt, v, _⟩ => u7TestingValueU64 v
  | .integer ⟨.unsignedLong, v, _⟩ => u7TestingValueU64 v
  | .integer ⟨.unsignedLongLong, v, _⟩ => u7TestingValueU64 v
  | .float v _ => u7TestingValueF64 v
  | .double v => u7TestingValueF64 v

/-- The number that an operand denotes. -/
def AssertOperand.value : AssertOperand abi → ℚ
  | .integer v => v.value
  | .float v _ => v.value
  | .double v => v.value

/-- An integer operand is found in the value as it is. -/
theorem u7TestingValue_integer (v : Operand abi) :
    (∃ h, u7TestingValue (.integer v) = .i64 v.value h) ∨
      ∃ h, u7TestingValue (.integer v) = .u64 v.value h := by
  obtain ⟨t, v, hfits⟩ := v
  have hwide := OperandType.fits_wide hfits
  have hsigned : t.wide = int64 → ∃ h, u7TestingValueI64 v = .i64 v h := by
    intro ht
    rw [ht] at hwide
    refine ⟨hwide, ?_⟩
    simp only [u7TestingValueI64, hwide.wrap_eq]
  have hunsigned : t.wide = uint64 → ∃ h, u7TestingValueU64 v = .u64 v h := by
    intro ht
    rw [ht] at hwide
    refine ⟨hwide, ?_⟩
    simp only [u7TestingValueU64, hwide.wrap_eq]
  cases t with
  | char | signedChar | short | int | long | longLong => exact .inl (hsigned rfl)
  | unsignedChar | unsignedShort | unsignedInt | unsignedLong | unsignedLongLong =>
      exact .inr (hunsigned rfl)

/-- The value denotes the number that the operand does. -/
theorem value_u7TestingValue (a : AssertOperand abi) : (u7TestingValue a).value = a.value := by
  cases a with
  | integer v =>
      obtain ⟨h, heq⟩ | ⟨h, heq⟩ := u7TestingValue_integer v <;> rw [heq] <;> rfl
  | float v single => rfl
  | double v => rfl

theorem natAbs_operand_le (v : Operand abi) : v.value.natAbs ≤ 2 ^ 64 := by
  obtain ⟨h, -⟩ | ⟨h, -⟩ := u7TestingValue_integer v
  · exact natAbs_le_of_fits_int64 h
  · exact natAbs_le_of_fits_uint64 h

/-! ### The operator of C -/

/-- The integer conversion rank. -/
def OperandType.rank : OperandType → ℕ
  | .char | .signedChar | .unsignedChar => 1
  | .short | .unsignedShort => 2
  | .int | .unsignedInt => 3
  | .long | .unsignedLong => 4
  | .longLong | .unsignedLongLong => 5

/-- The integer promotions: `int` represents all values of the types of lower rank. -/
def OperandType.promote (t : OperandType) : OperandType :=
  if t.rank < OperandType.int.rank then .int else t

/-- The unsigned type that corresponds to a promoted type. -/
def OperandType.toUnsigned : OperandType → OperandType
  | .int => .unsignedInt
  | .long => .unsignedLong
  | .longLong => .unsignedLongLong
  | t => t

/-- The common type of a signed and an unsigned type. -/
def mixedConversion (abi : Abi) (signed unsigned : OperandType) : OperandType :=
  if signed.rank ≤ unsigned.rank then unsigned
  else if (unsigned.intType abi).width < (signed.intType abi).width then signed
  else signed.toUnsigned

/-- The usual arithmetic conversions of two integer types. -/
def usualArithmeticConversions (abi : Abi) (lhs rhs : OperandType) : OperandType :=
  let lhs := lhs.promote
  let rhs := rhs.promote
  match (lhs.intType abi).signed, (rhs.intType abi).signed with
  | true, true | false, false => if lhs.rank < rhs.rank then rhs else lhs
  | true, false => mixedConversion abi lhs rhs
  | false, true => mixedConversion abi rhs lhs

/-- The common type of two integer operands. -/
def commonType (lhs rhs : Operand abi) : IntType :=
  (usualArithmeticConversions abi lhs.type rhs.type).intType abi

/-- `(float)` of an integer operand. -/
def Operand.toFloat (v : Operand abi) : Double :=
  .singleOfInt v.value (natAbs_operand_le v)

/-- `(double)` of an integer operand. -/
def Operand.toDouble (v : Operand abi) : Double :=
  .ofInt v.value (natAbs_operand_le v)

/-- The operator `==`: both operands are converted to their common type. A `float` is the
`double` it is converted to. -/
def cEqual : AssertOperand abi → AssertOperand abi → Bool
  | .integer lhs, .integer rhs =>
      (commonType lhs rhs).wrap lhs.value == (commonType lhs rhs).wrap rhs.value
  -- the common type is `float`
  | .integer lhs, .float rhs _ => decide (lhs.toFloat = rhs)
  | .float lhs _, .integer rhs => decide (lhs = rhs.toFloat)
  -- the common type is `double`
  | .integer lhs, .double rhs => decide (lhs.toDouble = rhs)
  | .double lhs, .integer rhs => decide (lhs = rhs.toDouble)
  -- neither operand changes
  | .float lhs _, .float rhs _ | .float lhs _, .double rhs | .double lhs, .float rhs _
  | .double lhs, .double rhs => decide (lhs = rhs)

/-- One of two integers is what the other, which is negative, becomes in their common type. -/
def SignSurprise (lhs rhs : Operand abi) : Prop :=
  (commonType lhs rhs).signed = false ∧
    (rhs.value = lhs.value + 2 ^ (commonType lhs rhs).width ∨
      lhs.value = rhs.value + 2 ^ (commonType lhs rhs).width)

/-- An integer with more significant bits than a `float` is rounded onto this one. -/
def FloatSurprise (v : Operand abi) (d : Double) : Prop :=
  ¬ Representable 24 v.value ∧ v.toFloat = d

/-- An integer with more significant bits than a `double` is rounded onto this one. -/
def DoubleSurprise (v : Operand abi) (d : Double) : Prop :=
  ¬ Representable 53 v.value ∧ v.toDouble = d

/-- The implicit conversions of C map two numbers onto each other. -/
def ConversionSurprise : AssertOperand abi → AssertOperand abi → Prop
  | .integer lhs, .integer rhs => SignSurprise lhs rhs
  | .integer lhs, .float rhs _ => FloatSurprise lhs rhs
  | .float lhs _, .integer rhs => FloatSurprise rhs lhs
  | .integer lhs, .double rhs => DoubleSurprise lhs rhs
  | .double lhs, .integer rhs => DoubleSurprise rhs lhs
  | _, _ => False

/-- One operand is an integer, and the other one the `double` that it is rounded to. It may be
the `double` of a `float`. -/
def RoundedOntoDouble : AssertOperand abi → AssertOperand abi → Prop
  | .integer lhs, .float rhs _ | .integer lhs, .double rhs => DoubleSurprise lhs rhs
  | .float lhs _, .integer rhs | .double lhs, .integer rhs => DoubleSurprise rhs lhs
  | _, _ => False

/-! ### Integers in their common type -/

/-- The type represents `v`, or is unsigned and adds its modulus to `v`, which is negative. -/
def Converts (τ : IntType) (v : ℤ) : Prop :=
  τ.Fits v ∨ τ.signed = false ∧ v < 0 ∧ -2 ^ (τ.width - 1) ≤ v

/-- `σ` represents the values of `τ` that are not negative, and if it is signed all of them. -/
def keepsNonneg (τ σ : IntType) : Bool :=
  match τ.signed, σ.signed with
  | false, true => decide (τ.width < σ.width)
  | _, _ => decide (τ.width ≤ σ.width)

theorem converts_of_keepsNonneg (h : τ.Fits v) (hkeeps : keepsNonneg τ σ = true) :
    Converts σ v := by
  have hτ := τ.two_pow_width
  have hσ := σ.two_pow_width
  cases hsτ : τ.signed <;> cases hsσ : σ.signed <;>
    simp only [keepsNonneg, hsτ, hsσ, decide_eq_true_eq] at hkeeps
  · exact .inl (h.of_le (hsτ.trans hsσ.symm) hkeeps)
  · -- an unsigned type into a wider signed one
    have hle : (2 : ℤ) ^ τ.width ≤ 2 ^ (σ.width - 1) :=
      pow_le_pow_right₀ (by norm_num) (by omega)
    simp only [Fits, lo, hsτ, Bool.false_eq_true, if_false] at h
    refine .inl ?_
    simp only [Fits, lo, hsσ, if_true]
    omega
  · -- a signed type into an unsigned one
    have hle : (2 : ℤ) ^ (τ.width - 1) ≤ 2 ^ (σ.width - 1) :=
      pow_le_pow_right₀ (by norm_num) (by omega)
    simp only [Fits, lo, hsτ, if_true] at h
    rcases lt_or_ge v 0 with hneg | hneg
    · exact .inr ⟨hsσ, hneg, by omega⟩
    · refine .inl ?_
      simp only [Fits, lo, hsσ, Bool.false_eq_true, if_false]
      omega
  · exact .inl (h.of_le (hsτ.trans hsσ.symm) hkeeps)

/-- The integer promotions keep the value. -/
theorem fits_promote {t : OperandType} (h : (t.intType abi).Fits v) :
    (t.promote.intType abi).Fits v := by
  have hsmall : ∀ width : ℕ, width ≤ 16 → ∀ signed hpos,
      Fits ⟨width, signed, hpos⟩ v → int32.Fits v := by
    intro width hwidth signed hpos h
    have hle : (2 : ℤ) ^ width ≤ 2 ^ 16 := pow_le_pow_right₀ (by norm_num) hwidth
    have hhalf := two_pow_width ⟨width, signed, hpos⟩
    cases signed <;> simp [Fits, lo] at h hhalf ⊢ <;> omega
  cases t with
  | char | signedChar | unsignedChar => exact hsmall 8 (by norm_num) _ _ h
  | short | unsignedShort => exact hsmall 16 (by norm_num) _ _ h
  | _ => exact h

/-- The common type keeps the operands as far as it can. -/
theorem keepsNonneg_commonType (a b : OperandType) :
    keepsNonneg (a.promote.intType abi) ((usualArithmeticConversions abi a b).intType abi) =
        true ∧
      keepsNonneg (b.promote.intType abi) ((usualArithmeticConversions abi a b).intType abi) =
        true := by
  cases a <;> cases b <;> exact ⟨rfl, rfl⟩

/-- **An operand in the common type** is kept, unless it is negative and the type is unsigned. -/
theorem converts_commonType (lhs rhs : Operand abi) :
    Converts (commonType lhs rhs) lhs.value ∧ Converts (commonType lhs rhs) rhs.value :=
  ⟨converts_of_keepsNonneg (fits_promote lhs.fits) (keepsNonneg_commonType lhs.type rhs.type).1,
    converts_of_keepsNonneg (fits_promote rhs.fits) (keepsNonneg_commonType lhs.type rhs.type).2⟩

/-- Converted values are equal if they were, or if the modulus has been added to one of them. -/
theorem wrap_eq_wrap_iff_of_converts (hv : Converts τ v) (hw : Converts τ w) :
    τ.wrap v = τ.wrap w ↔
      v = w ∨ τ.signed = false ∧ (w = v + 2 ^ τ.width ∨ v = w + 2 ^ τ.width) := by
  have hhalf := τ.two_pow_width
  cases hs : τ.signed with
  | true =>
      have hfits : ∀ {x}, Converts τ x → τ.Fits x := by
        rintro x (h | ⟨h, -⟩)
        · exact h
        · exact absurd (h.symm.trans hs) Bool.noConfusion
      rw [(hfits hv).wrap_eq, (hfits hw).wrap_eq]
      simp
  | false =>
      have hrange : ∀ {x}, Converts τ x → -2 ^ (τ.width - 1) ≤ x ∧ x < 2 ^ τ.width := by
        intro x hx
        have hpos : (0 : ℤ) < 2 ^ (τ.width - 1) := by positivity
        rcases hx with h | ⟨-, hneg, hlow⟩
        · simp only [Fits, lo, hs, Bool.false_eq_true, if_false] at h
          omega
        · omega
      obtain ⟨hv0, hv1⟩ := hrange hv
      obtain ⟨hw0, hw1⟩ := hrange hw
      rw [wrap_eq_wrap_iff, Int.modEq_iff_dvd]
      constructor
      · -- less than two moduli lie between them
        rintro ⟨k, hk⟩
        have hlow : -2 < k := by nlinarith
        have hhigh : k < 2 := by nlinarith
        obtain rfl | rfl | rfl : k = -1 ∨ k = 0 ∨ k = 1 := by omega
        · exact .inr ⟨rfl, .inr (by omega)⟩
        · exact .inl (by omega)
        · exact .inr ⟨rfl, .inl (by omega)⟩
      · rintro (rfl | ⟨-, h | h⟩)
        · simp
        · exact ⟨1, by omega⟩
        · exact ⟨-1, by omega⟩

/-! ### The operator -/

theorem toFloat_eq_iff (v : Operand abi) {d : Double} (hd : d.IsSingle) :
    v.toFloat = d ↔ (v.value : ℚ) = d.value ∨ FloatSurprise v d :=
  Double.singleOfInt_eq_iff_or _ hd

theorem toDouble_eq_iff_or (v : Operand abi) (d : Double) :
    v.toDouble = d ↔ (v.value : ℚ) = d.value ∨ DoubleSurprise v d :=
  Double.ofInt_eq_iff_or _

/-- **`==` holds** of equal numbers and of those that the conversions map onto each other. -/
theorem cEqual_iff (a b : AssertOperand abi) :
    cEqual a b = true ↔ a.value = b.value ∨ ConversionSurprise a b := by
  have hsame : ∀ d d' : Double, decide (d = d') = true ↔ d.value = d'.value ∨ False := by
    intro d d'
    rw [decide_eq_true_iff, or_false, Double.value_inj]
  cases a with
  | integer v =>
      cases b with
      | integer w =>
          obtain ⟨hv, hw⟩ := converts_commonType v w
          rw [cEqual, beq_iff_eq, wrap_eq_wrap_iff_of_converts hv hw]
          exact or_congr Int.cast_inj.symm Iff.rfl
      | float d hd =>
          rw [cEqual, decide_eq_true_iff]
          exact toFloat_eq_iff v hd
      | double d =>
          rw [cEqual, decide_eq_true_iff]
          exact toDouble_eq_iff_or v d
  | float d hd =>
      cases b with
      | integer w =>
          rw [cEqual, decide_eq_true_iff, eq_comm, toFloat_eq_iff w hd]
          exact or_congr eq_comm Iff.rfl
      | float d' _ => exact hsame d d'
      | double d' => exact hsame d d'
  | double d =>
      cases b with
      | integer w =>
          rw [cEqual, decide_eq_true_iff, eq_comm, toDouble_eq_iff_or w d]
          exact or_congr eq_comm Iff.rfl
      | float d' _ => exact hsame d d'
      | double d' => exact hsame d d'

/-- Numbers that the conversions map onto each other are different. -/
theorem ConversionSurprise.value_ne {a b : AssertOperand abi} (h : ConversionSurprise a b) :
    a.value ≠ b.value := by
  have hfloat : ∀ {v : Operand abi} {d : Double}, d.IsSingle → FloatSurprise v d →
      (v.value : ℚ) ≠ d.value := fun hd hsurprise heq => hsurprise.1 (hd.representable heq)
  have hdouble : ∀ {v : Operand abi} {d : Double}, DoubleSurprise v d →
      (v.value : ℚ) ≠ d.value := fun hsurprise heq =>
    hsurprise.1 (Double.representable_of_value heq)
  cases a with
  | integer v =>
      cases b with
      | integer w =>
          have hpos : (0 : ℤ) < 2 ^ (commonType v w).width := by positivity
          intro heq
          have hvalue : v.value = w.value := Int.cast_inj.mp heq
          rcases h with ⟨-, h | h⟩ <;> omega
      | float d hd => exact hfloat hd h
      | double d => exact hdouble h
  | float d hd =>
      cases b with
      | integer w => exact (hfloat hd h).symm
      | float d' _ => exact h.elim
      | double d' => exact h.elim
  | double d =>
      cases b with
      | integer w => exact (hdouble h).symm
      | float d' _ => exact h.elim
      | double d' => exact h.elim

/-- What is rounded onto a `float` as a `double` is rounded onto it as a `float` too. -/
theorem RoundedOntoDouble.surprise {a b : AssertOperand abi} (h : RoundedOntoDouble a b) :
    ConversionSurprise a b := by
  have hfloat : ∀ {v : Operand abi} {d : Double}, d.IsSingle → DoubleSurprise v d →
      FloatSurprise v d := fun hd hsurprise =>
    ⟨fun hshort => hsurprise.1 (hshort.mono (by norm_num)),
      Double.singleOfInt_of_ofInt_eq _ hd hsurprise.2⟩
  cases a with
  | integer v =>
      cases b with
      | integer w => exact h.elim
      | float d hd => exact hfloat hd h
      | double d => exact h
  | float d hd =>
      cases b with
      | integer w => exact hfloat hd h
      | float d' _ => exact h
      | double d' => exact h
  | double d => cases b <;> exact h

/-! ### The assertion -/

/-- The value of an integer operand is rounded onto the double that the operand is. -/
theorem roundedOnto_integer_iff (v : Operand abi) (d : Double) :
    (u7TestingValue (.integer v)).RoundedOnto d ↔ DoubleSurprise v d := by
  obtain ⟨h, heq⟩ | ⟨h, heq⟩ := u7TestingValue_integer v <;> rw [heq] <;> exact Iff.rfl

/-- The values of two operands are rounded together if the operands are. -/
theorem roundedTogether_operands_iff (a b : AssertOperand abi) :
    RoundedTogether (u7TestingValue a) (u7TestingValue b) ↔ RoundedOntoDouble a b := by
  -- a floating-point number on the right
  have hright : ∀ (v : Operand abi) (d : Double),
      RoundedTogether (u7TestingValue (.integer v)) (.f64 d) ↔ DoubleSurprise v d :=
    fun v d => roundedTogether_f64_iff.trans (roundedOnto_integer_iff v d)
  have hinteger : ∀ (v : Operand abi) (d : Double), u7TestingValue (.integer v) ≠ .f64 d := by
    intro v d heq
    obtain ⟨h, heq'⟩ | ⟨h, heq'⟩ := u7TestingValue_integer v <;> rw [heq'] at heq <;> cases heq
  cases a with
  | integer v =>
      cases b with
      | integer w =>
          refine iff_of_false ?_ not_false
          rintro (⟨d, h, -⟩ | ⟨d, h, -⟩)
          · exact hinteger w d h
          · exact hinteger v d h
      | float d hd => exact hright v d
      | double d => exact hright v d
  | float d hd =>
      cases b with
      | integer w => exact roundedTogether_comm.trans (hright w d)
      | float d' _ => exact roundedTogether_f64_iff
      | double d' => exact roundedTogether_f64_iff
  | double d =>
      cases b with
      | integer w => exact roundedTogether_comm.trans (hright w d)
      | float d' _ => exact roundedTogether_f64_iff
      | double d' => exact roundedTogether_f64_iff

/-- **The assertion finds equal** what is equal or rounded onto a `double`. -/
theorem valuesEqual_operands_iff (a b : AssertOperand abi) :
    u7TestingValuesEqual (u7TestingValue a) (u7TestingValue b) = true ↔
      a.value = b.value ∨ RoundedOntoDouble a b := by
  rw [valuesEqual_iff_or, value_u7TestingValue, value_u7TestingValue,
    roundedTogether_operands_iff]

/-- `U7_ASSERT_EQ`, of numbers. -/
def u7AssertEq {τ ω : Type} (f64Text : Double → List UInt8) (actual expected : AssertOperand abi)
    (actualExpression expectedExpression file : CStr) (line : ℤ) :
    TestingState τ ω → Except (Stop τ ω) (TestingState τ ω) :=
  u7TestingAssertEq f64Text (.number (u7TestingValue actual)) (.number (u7TestingValue expected))
    actualExpression expectedExpression file line

/-- **`U7_ASSERT_EQ` against `==`.** The operator holds exactly of equal numbers and of those
that the implicit conversions of C map onto each other, which are different. The assertion
passes exactly for equal numbers and for an integer that is rounded onto the other operand as a
`double`, where the operator holds too. So it tells apart all that the conversions to a common
integer type map onto each other, and of what is converted to `float` all but what a `double`
does not tell apart; integers of any two types pass only if they are equal. -/
theorem assert_eq_against_c {τ ω : Type} (f64Text : Double → List UInt8)
    (a b : AssertOperand abi) (actualExpression expectedExpression file : CStr) (line : ℤ)
    (s : TestingState τ ω) :
    (cEqual a b = true ↔ a.value = b.value ∨ ConversionSurprise a b) ∧
    (ConversionSurprise a b → a.value ≠ b.value) ∧
    (u7AssertEq f64Text a b actualExpression expectedExpression file line s = .ok s ↔
      a.value = b.value ∨ RoundedOntoDouble a b) ∧
    (RoundedOntoDouble a b → ConversionSurprise a b) ∧
    (u7AssertEq f64Text a b actualExpression expectedExpression file line s = .ok s ↔
      cEqual a b = true ∧ ¬ (ConversionSurprise a b ∧ ¬ RoundedOntoDouble a b)) ∧
    (∀ v w, a = .integer v → b = .integer w →
      u7AssertEq f64Text a b actualExpression expectedExpression file line s = .ok s →
      a.value = b.value) := by
  have hpasses : u7AssertEq f64Text a b actualExpression expectedExpression file line s = .ok s ↔
      a.value = b.value ∨ RoundedOntoDouble a b :=
    u7TestingAssertEq_numbers.trans (valuesEqual_operands_iff a b)
  refine ⟨cEqual_iff a b, fun h => h.value_ne, hpasses, fun h => h.surprise, ?_, ?_⟩
  · rw [hpasses, cEqual_iff]
    constructor
    · rintro (heq | hrounded)
      · exact ⟨.inl heq, fun h => h.1.value_ne heq⟩
      · exact ⟨.inr hrounded.surprise, fun h => h.2 hrounded⟩
    · rintro ⟨heq | hsurprise, hnot⟩
      · exact .inl heq
      · exact .inr (not_not.mp fun hrounded => hnot ⟨hsurprise, hrounded⟩)
  · rintro v w rfl rfl h
    exact (hpasses.mp h).resolve_right not_false

/-- `-1` is told from `UINT_MAX`, which it is converted to. -/
example : SignSurprise (⟨.int, -1, by decide⟩ : Operand ⟨true, true⟩)
    ⟨.unsignedInt, 2 ^ 32 - 1, by decide⟩ :=
  ⟨rfl, .inl rfl⟩

/-- `2 ^ 24 + 1` is told from the `float` it is rounded to. -/
example : (⟨.int, 2 ^ 24 + 1, by decide⟩ : Operand ⟨true, true⟩).toFloat =
      .ofInt (2 ^ 24) (by decide) ∧
    (⟨.int, 2 ^ 24 + 1, by decide⟩ : Operand ⟨true, true⟩).toDouble ≠
      .ofInt (2 ^ 24) (by decide) := by
  decide +kernel

end U7Init
