import U7Init.Lib.Double
import U7Init.Lib.MachineInt
import U7Init.Testing.Runner

/-!
# Comparing Values in Assertions

This module models the values that `U7_ASSERT_EQ` compares, the comparison of two numbers,
and the assertion. Two integers are compared as numbers, whatever their signs. An integer and
a `double` are compared as doubles, so the integer is rounded first.

Only finite doubles are looked at. How `printf` prints one is a parameter, `f64Text`.

## Main results

* `valuesEqual_integers`: integers are compared as numbers.
* `valuesEqual_of_value_eq`: equal numbers are always found equal.
* `u7TestingAssertEq_eq_ok_iff`: the assertion passes exactly if the values can be compared
  and are found equal.
* `values_equal_iff`: two numbers are compared right unless one is an integer with more than
  53 significant bits and the other the double it rounds to.
-/

namespace U7Init

open Rounding MachineInt

/-! ### Values -/

/-- `enum u7_testing_kind`. -/
inductive U7TestingKind
  | i64
  | u64
  | f64
  | str
  deriving DecidableEq, Repr

/-- A `struct u7_testing_value` of one of the kinds of numbers. -/
inductive U7TestingNumber
  | i64 (v : ℤ) (fits : IntType.int64.Fits v)
  | u64 (v : ℤ) (fits : IntType.uint64.Fits v)
  | f64 (v : Double)

/-- A `struct u7_testing_value`. A string may be `NULL`. -/
inductive U7TestingValue
  | number (v : U7TestingNumber)
  | str (v : Option CStr)

/-- `kind`. -/
def U7TestingValue.kind : U7TestingValue → U7TestingKind
  | .number (.i64 _ _) => .i64
  | .number (.u64 _ _) => .u64
  | .number (.f64 _) => .f64
  | .str _ => .str

theorem natAbs_le_of_fits_int64 {v : ℤ} (h : IntType.int64.Fits v) : v.natAbs ≤ 2 ^ 64 := by
  simp only [IntType.Fits, IntType.lo] at h
  norm_num at h ⊢
  omega

theorem natAbs_le_of_fits_uint64 {v : ℤ} (h : IntType.uint64.Fits v) : v.natAbs ≤ 2 ^ 64 := by
  simp only [IntType.Fits, IntType.lo] at h
  norm_num at h ⊢
  omega

/-- `(double)` of a number. -/
def U7TestingNumber.toDouble : U7TestingNumber → Double
  | .i64 v fits => .ofInt v (natAbs_le_of_fits_int64 fits)
  | .u64 v fits => .ofInt v (natAbs_le_of_fits_uint64 fits)
  | .f64 v => v

/-! ### The comparison -/

/-- `u7_testing_kind_name`. -/
def u7TestingKindName : U7TestingKind → CStr
  | .i64 => .lit "a signed integer"
  | .u64 => .lit "an unsigned integer"
  | .f64 => .lit "a floating-point number"
  | .str => .lit "a string"

/-- `u7_testing_values_equal`. It is called for numbers only. -/
def u7TestingValuesEqual (actual expected : U7TestingNumber) : Bool :=
  match actual, expected with
  | .i64 a _, .i64 b _ => a == b
  | .u64 a _, .u64 b _ => a == b
  | .i64 a _, .u64 b _ => decide (a ≥ 0) && IntType.uint64.wrap a == b
  | .u64 a _, .i64 b _ => decide (b ≥ 0) && a == IntType.uint64.wrap b
  -- at least one operand is floating-point
  | actual, expected => decide (actual.toDouble = expected.toDouble)

/-- `u7_testing_format_value`: what is in the buffer afterwards. -/
def u7TestingFormatValue (f64Text : Double → List UInt8) (size : ℕ) (value : U7TestingValue) :
    List UInt8 :=
  let text := match value with
    | .number (.i64 v _) => decimal v
    | .number (.u64 v _) => decimal v
    | .number (.f64 v) => f64Text v
    | .str none => ascii "(null)"
    | .str (some v) => ascii "\"" ++ v.bytes ++ ascii "\""
  text.take (size - 1) ++ [0]

/-- The variable `equal` of `u7_testing_assert_eq`. -/
def U7TestingValue.equal : U7TestingValue → U7TestingValue → Bool
  | .str actual, .str expected =>
      actual.isNone == expected.isNone &&
        match actual, expected with
        | some actual, some expected => strcmp actual expected == 0
        | _, _ => true
  | .number actual, .number expected => u7TestingValuesEqual actual expected
  -- a string and a number have been refused before
  | _, _ => false

variable {τ ω : Type}

/-- `u7_testing_assert_eq`. -/
def u7TestingAssertEq (f64Text : Double → List UInt8) (actual expected : U7TestingValue)
    (actualExpression expectedExpression file : CStr) (line : ℤ) (s : TestingState τ ω) :
    Except (Stop τ ω) (TestingState τ ω) :=
  let actualIsStr := decide (actual.kind = .str)
  let expectedIsStr := decide (expected.kind = .str)
  if actualIsStr ≠ expectedIsStr then
    u7TestingAssertFail file line
      (.ofObject (ascii "cannot compare " ++ actualExpression.bytes ++ ascii " (" ++
        (u7TestingKindName actual.kind).bytes ++ ascii ") with " ++ expectedExpression.bytes ++
        ascii " (" ++ (u7TestingKindName expected.kind).bytes ++ ascii ")")) s
  else if actual.equal expected then .ok s
  else
    u7TestingAssertFail file line
      (.ofObject (ascii "expected " ++ actualExpression.bytes ++ ascii " == " ++
        expectedExpression.bytes ++ ascii "; actual: " ++
        cString (u7TestingFormatValue f64Text 256 actual) ++ ascii " != " ++
        cString (u7TestingFormatValue f64Text 256 expected))) s

/-! ### Numbers -/

/-- The number that a value denotes. -/
def U7TestingNumber.value : U7TestingNumber → ℚ
  | .i64 v _ => v
  | .u64 v _ => v
  | .f64 v => v.value

/-- The integer `n` has more significant bits than a `double`, and `d` is the double it
rounds to. -/
def U7TestingNumber.RoundedOnto (n : U7TestingNumber) (d : Double) : Prop :=
  match n with
  | .i64 v _ => ¬ Representable 53 v ∧ n.toDouble = d
  | .u64 v _ => ¬ Representable 53 v ∧ n.toDouble = d
  | .f64 _ => False

/-- One of the numbers is an integer that is rounded onto the other, which is a double. -/
def RoundedTogether (a b : U7TestingNumber) : Prop :=
  (∃ d, b = .f64 d ∧ a.RoundedOnto d) ∨ ∃ d, a = .f64 d ∧ b.RoundedOnto d

section Numbers

variable {a b c : U7TestingNumber} {v w : ℤ}

/-- A signed integer that is not negative is compared with an unsigned one as it is. -/
theorem signed_eq_unsigned_iff (hv : IntType.int64.Fits v) (hw : IntType.uint64.Fits w) :
    0 ≤ v ∧ IntType.uint64.wrap v = w ↔ v = w := by
  have hfits : 0 ≤ v → IntType.uint64.Fits v := by
    intro h0
    simp only [IntType.Fits, IntType.lo] at hv ⊢
    norm_num at hv ⊢
    omega
  constructor
  · rintro ⟨h0, hwrap⟩
    rwa [(hfits h0).wrap_eq] at hwrap
  · rintro rfl
    exact ⟨hw.1, hw.wrap_eq⟩

/-- The order of the operands makes no difference. -/
theorem u7TestingValuesEqual_comm (a b : U7TestingNumber) :
    u7TestingValuesEqual a b = u7TestingValuesEqual b a := by
  cases a <;> cases b <;> simp only [u7TestingValuesEqual, Bool.beq_comm, eq_comm]

theorem roundedTogether_comm : RoundedTogether a b ↔ RoundedTogether b a :=
  or_comm

theorem roundedTogether_f64_iff {d : Double} : RoundedTogether a (.f64 d) ↔ a.RoundedOnto d := by
  constructor
  · rintro (⟨d', ⟨⟩, h⟩ | ⟨_, _, ⟨⟩⟩)
    exact h
  · exact fun h => .inl ⟨d, rfl, h⟩

/-- With a double on the right the numbers are compared as doubles. -/
theorem valuesEqual_f64_iff (a : U7TestingNumber) (d : Double) :
    u7TestingValuesEqual a (.f64 d) = true ↔ a.toDouble = d := by
  cases a <;> exact decide_eq_true_iff

/-- A number is compared right with a double unless it is rounded onto it. -/
theorem toDouble_eq_iff (a : U7TestingNumber) (d : Double) :
    (a.toDouble = d ↔ a.value = d.value) ↔ ¬ a.RoundedOnto d := by
  cases a with
  | i64 v hv => exact Double.ofInt_eq_iff (natAbs_le_of_fits_int64 hv)
  | u64 v hv => exact Double.ofInt_eq_iff (natAbs_le_of_fits_uint64 hv)
  | f64 d' => exact iff_of_true Double.value_inj.symm not_false

/-- **Integers are compared as numbers**, whatever their signs. -/
theorem valuesEqual_integers (hv : IntType.int64.Fits v) (hw : IntType.uint64.Fits w) :
    u7TestingValuesEqual (.i64 v hv) (.u64 w hw) = true ↔ v = w := by
  rw [u7TestingValuesEqual, Bool.and_eq_true, decide_eq_true_eq, beq_iff_eq]
  exact signed_eq_unsigned_iff hv hw

/-- **Two numbers are compared right** exactly if none of them is rounded onto the other. -/
theorem valuesEqual_iff_value_iff (a b : U7TestingNumber) :
    (u7TestingValuesEqual a b = true ↔ a.value = b.value) ↔ ¬ RoundedTogether a b := by
  have hright : ∀ a d, (u7TestingValuesEqual a (.f64 d) = true ↔ a.value = d.value) ↔
      ¬ RoundedTogether a (.f64 d) := by
    intro a d
    rw [valuesEqual_f64_iff, toDouble_eq_iff, roundedTogether_f64_iff]
  -- two integers
  have hinteger : ∀ {a b : U7TestingNumber} {v w : ℤ}, (∀ d, a ≠ .f64 d) → (∀ d, b ≠ .f64 d) →
      a.value = v → b.value = w → (u7TestingValuesEqual a b = true ↔ v = w) →
      ((u7TestingValuesEqual a b = true ↔ a.value = b.value) ↔ ¬ RoundedTogether a b) := by
    intro a b v w ha hb hv hw hequal
    refine iff_of_true ?_ ?_
    · rw [hequal, hv, hw, Int.cast_inj]
    · rintro (⟨d, h, -⟩ | ⟨d, h, -⟩)
      · exact hb d h
      · exact ha d h
  cases a with
  | i64 v hv =>
      cases b with
      | i64 w hw =>
          refine hinteger (by rintro _ ⟨⟩) (by rintro _ ⟨⟩) rfl rfl ?_
          rw [u7TestingValuesEqual, beq_iff_eq]
      | u64 w hw =>
          refine hinteger (by rintro _ ⟨⟩) (by rintro _ ⟨⟩) rfl rfl ?_
          rw [valuesEqual_integers]
      | f64 d => exact hright _ d
  | u64 v hv =>
      cases b with
      | i64 w hw =>
          refine hinteger (by rintro _ ⟨⟩) (by rintro _ ⟨⟩) rfl rfl ?_
          rw [u7TestingValuesEqual_comm, valuesEqual_integers, eq_comm]
      | u64 w hw =>
          refine hinteger (by rintro _ ⟨⟩) (by rintro _ ⟨⟩) rfl rfl ?_
          rw [u7TestingValuesEqual, beq_iff_eq]
      | f64 d => exact hright _ d
  | f64 d =>
      rw [u7TestingValuesEqual_comm, roundedTogether_comm, eq_comm (b := b.value)]
      exact hright b d

/-- Numbers of which one is rounded onto the other are found equal. -/
theorem RoundedTogether.valuesEqual (h : RoundedTogether a b) :
    u7TestingValuesEqual a b = true := by
  have hright : ∀ {n : U7TestingNumber} {d : Double}, n.RoundedOnto d →
      u7TestingValuesEqual n (.f64 d) = true := by
    intro n d hrounded
    rw [valuesEqual_f64_iff]
    cases n with
    | i64 v hv => exact hrounded.2
    | u64 v hv => exact hrounded.2
    | f64 d' => exact hrounded.elim
  rcases h with ⟨d, rfl, h⟩ | ⟨d, rfl, h⟩
  · exact hright h
  · rw [u7TestingValuesEqual_comm]
    exact hright h

/-- **What is found equal**: equal numbers, and numbers of which one is rounded onto the other. -/
theorem valuesEqual_iff_or (a b : U7TestingNumber) :
    u7TestingValuesEqual a b = true ↔ a.value = b.value ∨ RoundedTogether a b := by
  by_cases hrounded : RoundedTogether a b
  · exact iff_of_true hrounded.valuesEqual (.inr hrounded)
  · rw [or_iff_left hrounded]
    exact (valuesEqual_iff_value_iff a b).mpr hrounded

/-- **Equal numbers are found equal**: the comparison errs in one direction only. -/
theorem valuesEqual_of_value_eq (h : a.value = b.value) : u7TestingValuesEqual a b = true :=
  (valuesEqual_iff_or a b).mpr (.inl h)

end Numbers

/-! ### The assertion -/

section Assert

variable {f64Text : Double → List UInt8} {actual expected : U7TestingValue}
  {actualExpression expectedExpression file : CStr} {line : ℤ} {s s' : TestingState τ ω}

/-- **The assertion** passes, and then changes nothing, if both values are strings or both
are numbers and they are found equal. Otherwise it aborts. -/
theorem u7TestingAssertEq_eq_ok_iff :
    u7TestingAssertEq f64Text actual expected actualExpression expectedExpression file line s =
        .ok s' ↔
      s' = s ∧ (actual.kind = .str ↔ expected.kind = .str) ∧ actual.equal expected = true := by
  have hfail : ∀ {message : CStr}, u7TestingAssertFail file line message s ≠ .ok s' := by
    rintro _ ⟨⟩
  rw [u7TestingAssertEq]
  by_cases hkind : actual.kind = .str ↔ expected.kind = .str
  · rw [if_neg (not_not.mpr (decide_eq_decide.mpr hkind)), and_iff_right hkind]
    cases hequal : actual.equal expected with
    | true => simp [eq_comm]
    | false => simpa using hfail
  · rw [if_pos (fun h => hkind (decide_eq_decide.mp h))]
    exact iff_of_false hfail fun h => hkind h.2.1

/-- Two numbers pass if they are found equal. -/
theorem u7TestingAssertEq_numbers {a b : U7TestingNumber} :
    u7TestingAssertEq f64Text (.number a) (.number b) actualExpression expectedExpression file
        line s = .ok s ↔ u7TestingValuesEqual a b = true := by
  have hkind : ∀ n, (U7TestingValue.number n).kind ≠ .str := by
    intro n
    cases n <;> exact U7TestingKind.noConfusion
  rw [u7TestingAssertEq_eq_ok_iff, and_iff_right rfl, and_iff_right]
  · rfl
  · exact iff_of_false (hkind a) (hkind b)

end Assert

/-- **Numbers are compared right unless an integer is rounded onto a double.** The comparison
of two numbers, in either order, and the assertion on them, say that they are the same number
exactly if they are, if and only if none of them is an integer with more than 53 significant
bits and the other the double it rounds to. Where no numbers are rounded together the
comparison is transitive across kinds. -/
theorem values_equal_iff {τ ω : Type} (f64Text : Double → List UInt8) (a b : U7TestingNumber)
    (actualExpression expectedExpression file : CStr) (line : ℤ) (s : TestingState τ ω) :
    ((u7TestingValuesEqual a b = true ↔ a.value = b.value) ↔ ¬ RoundedTogether a b) ∧
    ((u7TestingAssertEq f64Text (.number a) (.number b) actualExpression expectedExpression file
        line s = .ok s ↔ a.value = b.value) ↔ ¬ RoundedTogether a b) ∧
    (∀ c, u7TestingValuesEqual a b = true → u7TestingValuesEqual b c = true →
      ¬ RoundedTogether a b → ¬ RoundedTogether b c → u7TestingValuesEqual a c = true) := by
  refine ⟨valuesEqual_iff_value_iff a b, ?_, fun c hab hbc ha hc => ?_⟩
  · rw [u7TestingAssertEq_numbers]
    exact valuesEqual_iff_value_iff a b
  · have hab' := ((valuesEqual_iff_value_iff a b).mpr ha).mp hab
    have hbc' := ((valuesEqual_iff_value_iff b c).mpr hc).mp hbc
    exact valuesEqual_of_value_eq (hab'.trans hbc')

/-- `2 ^ 53 + 1`, as an `int64_t`. -/
def oddInteger : U7TestingNumber :=
  .i64 (2 ^ 53 + 1) (by decide)

/-- `2 ^ 53`, as an `int64_t`. -/
def evenInteger : U7TestingNumber :=
  .i64 (2 ^ 53) (by decide)

/-- `2 ^ 53`, as a `double`. -/
def evenDouble : U7TestingNumber :=
  .f64 (.ofInt (2 ^ 53) (by decide))

/-- **A false pass**: `2 ^ 53 + 1` is found equal to the double `2 ^ 53`, which is another
number, and that to the integer `2 ^ 53`, from which `2 ^ 53 + 1` is told apart. -/
theorem rounded_integer_passes :
    u7TestingValuesEqual oddInteger evenDouble = true ∧ oddInteger.value ≠ evenDouble.value ∧
      u7TestingValuesEqual evenDouble evenInteger = true ∧
      u7TestingValuesEqual oddInteger evenInteger = false := by
  have hodd : roundInt 53 (2 ^ 53 + 1) = 2 ^ 53 := by decide +kernel
  have heven : roundInt 53 (2 ^ 53) = 2 ^ 53 := by decide +kernel
  have hsame : oddInteger.toDouble = .ofInt (2 ^ 53) (by decide) := by
    rw [← Double.value_inj, oddInteger, U7TestingNumber.toDouble, Double.value_ofInt,
      Double.value_ofInt, hodd, heven]
  have hvalue : evenDouble.value = 2 ^ 53 := by
    rw [evenDouble, U7TestingNumber.value, Double.value_ofInt, heven]
    norm_num
  refine ⟨(valuesEqual_f64_iff _ _).mpr hsame, ?_, ?_, ?_⟩
  · rw [hvalue, oddInteger, U7TestingNumber.value]
    norm_num
  · rw [u7TestingValuesEqual_comm]
    exact (valuesEqual_f64_iff _ _).mpr rfl
  · rw [oddInteger, evenInteger, u7TestingValuesEqual]
    decide

end U7Init
