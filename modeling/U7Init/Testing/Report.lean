import U7Init.Testing.Values

/-!
# The Report of a Failed Comparison

When `U7_ASSERT_EQ` fails, `u7_testing_assert_eq` prints both values into buffers of 256 bytes
and the message into one of 1024. This module asks what of the values gets through: two numbers
that were found different have to look different, or the report is of no use.

`printf` prints integers exactly. Of `%.17g` it is assumed that 17 digits identify a double.

Doubles are finite here. The texts of two NaNs are the same although they are different from each
other, and infinities have texts of their own; neither has a place in `Double`. Strings may
contain anything but a NUL, also a newline, and then the report has several lines. An assertion that
fails outside of any test is reported under the name `test`.

## Main results

* `valueText_eq`: what is printed of a value.
* `valueText_eq_iff`: values that were found different look the same exactly if they are
  strings that are cut where they still agree.
* `assert_eq_report`: the line that a failed assertion prints.
-/

namespace U7Init

open Rounding MachineInt

/-! ### The texts -/

/-- The text of a number. -/
def U7TestingNumber.text (f64Text : Double → List UInt8) : U7TestingNumber → List UInt8
  | .i64 v _ => decimal v
  | .u64 v _ => decimal v
  | .f64 v => f64Text v

/-- A string with quotes around it. -/
def quoted (s : CStr) : List UInt8 :=
  ascii "\"" ++ s.bytes ++ ascii "\""

/-- The text of a value. -/
def U7TestingValue.text (f64Text : Double → List UInt8) : U7TestingValue → List UInt8
  | .number v => v.text f64Text
  | .str none => ascii "(null)"
  | .str (some v) => quoted v

/-- What a report says of a value. -/
def valueText (f64Text : Double → List UInt8) (value : U7TestingValue) : List UInt8 :=
  cString (u7TestingFormatValue f64Text 256 value)

/-- The text of a double is short, and no number that becomes another double has it. -/
structure Identifies (f64Text : Double → List UInt8) (d : Double) : Prop where
  nul_free : 0 ∉ f64Text d
  short : (f64Text d).length < 256
  toDouble_eq : ∀ n : U7TestingNumber, n.text f64Text = f64Text d → n.toDouble = d

/-- If the value is a double its text identifies it. -/
def U7TestingValue.Identified (f64Text : Double → List UInt8) : U7TestingValue → Prop
  | .number (.f64 d) => Identifies f64Text d
  | _ => True

/-- Two strings that agree as far as they are printed, the quote behind them included. -/
def CutAlike : U7TestingValue → U7TestingValue → Prop
  | .str (some v), .str (some w) =>
      (v.bytes ++ ascii "\"").take 254 = (w.bytes ++ ascii "\"").take 254
  | _, _ => False

section Text

variable {f64Text : Double → List UInt8} {a b : U7TestingValue} {m n : U7TestingNumber}

theorem nul_not_mem_quoted (s : CStr) : 0 ∉ quoted s := by
  have hquote : (0 : UInt8) ∉ ascii "\"" := by decide
  simp [quoted, s.nul_free, hquote]

theorem nul_not_mem_text (h : a.Identified f64Text) : 0 ∉ a.text f64Text := by
  cases a with
  | number n =>
      cases n with
      | i64 v _ => exact nul_not_mem_decimal v
      | u64 v _ => exact nul_not_mem_decimal v
      | f64 d => exact h.nul_free
  | str v =>
      cases v with
      | none => exact (by decide : (0 : UInt8) ∉ ascii "(null)")
      | some v => exact nul_not_mem_quoted v

/-- **What is printed of a value**: its text, up to 255 bytes. -/
theorem valueText_eq (h : a.Identified f64Text) :
    valueText f64Text a = (a.text f64Text).take 255 := by
  have htext : u7TestingFormatValue f64Text 256 a = (a.text f64Text).take 255 ++ [0] := by
    cases a with
    | number n => cases n <;> rfl
    | str v => cases v <;> rfl
  have hfree : 0 ∉ (a.text f64Text).take 255 :=
    fun hmem => nul_not_mem_text h (List.mem_of_mem_take hmem)
  rw [valueText, htext]
  exact cString_object ⟨_, hfree⟩

/-- Numbers are printed in full. -/
theorem valueText_number (h : (U7TestingValue.number n).Identified f64Text) :
    valueText f64Text (.number n) = n.text f64Text := by
  rw [valueText_eq h]
  refine List.take_of_length_le ?_
  have hinteger : ∀ {v : ℤ}, v.natAbs ≤ 2 ^ 64 → (decimal v).length ≤ 255 := by
    intro v hv
    have hdigits := length_decimal_le (k := 20) (by norm_num) (n := v) (by omega)
    omega
  cases n with
  | i64 v hv => exact hinteger (natAbs_le_of_fits_int64 hv)
  | u64 v hv => exact hinteger (natAbs_le_of_fits_uint64 hv)
  | f64 d => exact Nat.le_of_lt_succ h.short

/-- **Numbers that look the same are found equal.** -/
theorem valuesEqual_of_text_eq (hm : (U7TestingValue.number m).Identified f64Text)
    (hn : (U7TestingValue.number n).Identified f64Text)
    (h : m.text f64Text = n.text f64Text) : u7TestingValuesEqual m n = true := by
  have hinteger : ∀ {v w : ℤ}, decimal v = decimal w → m.value = v → n.value = w →
      u7TestingValuesEqual m n = true := by
    intro v w htext hmv hnw
    refine valuesEqual_of_value_eq ?_
    rw [hmv, hnw, decimal_injective htext]
  cases n with
  | f64 d => exact (valuesEqual_f64_iff m d).mpr (hn.toDouble_eq m h)
  | i64 w hw =>
      cases m with
      | i64 v hv => exact hinteger h rfl rfl
      | u64 v hv => exact hinteger h rfl rfl
      | f64 d =>
          rw [u7TestingValuesEqual_comm]
          exact (valuesEqual_f64_iff _ d).mpr (hm.toDouble_eq _ h.symm)
  | u64 w hw =>
      cases m with
      | i64 v hv => exact hinteger h rfl rfl
      | u64 v hv => exact hinteger h rfl rfl
      | f64 d =>
          rw [u7TestingValuesEqual_comm]
          exact (valuesEqual_f64_iff _ d).mpr (hm.toDouble_eq _ h.symm)

/-- **Values that were found different** look the same exactly if they are strings that are
cut where they still agree. -/
theorem valueText_eq_iff (ha : a.Identified f64Text) (hb : b.Identified f64Text)
    (hkind : a.kind = .str ↔ b.kind = .str) (hequal : a.equal b = false) :
    valueText f64Text a = valueText f64Text b ↔ CutAlike a b := by
  have hnumber : ∀ n : U7TestingNumber, (U7TestingValue.number n).kind ≠ .str := by
    intro n
    cases n <;> exact U7TestingKind.noConfusion
  cases a with
  | number m =>
      cases b with
      | number n =>
          rw [valueText_number ha, valueText_number hb]
          refine iff_of_false (fun htext => ?_) not_false
          exact absurd (hequal.symm.trans (valuesEqual_of_text_eq ha hb htext)) Bool.noConfusion
      | str w => exact absurd (hkind.mpr rfl) (hnumber m)
  | str v =>
      cases b with
      | number n => exact absurd (hkind.mp rfl) (hnumber n)
      | str w =>
          rw [valueText_eq ha, valueText_eq hb]
          -- no string in quotes begins like `(null)`
          have hnull : ∀ s, (ascii "(null)").take 255 ≠ (quoted s).take 255 := by
            intro s h
            exact absurd (congrArg List.head? h) (by decide : some (40 : UInt8) ≠ some 34)
          cases v with
          | none =>
              cases w with
              | none => exact Bool.noConfusion hequal
              | some w => exact iff_of_false (hnull w) not_false
          | some v =>
              cases w with
              | none => exact iff_of_false (fun h => hnull v h.symm) not_false
              | some w =>
                  constructor
                  · exact fun h => (List.cons.inj h).2
                  · exact fun h => congrArg (34 :: ·) h

end Text

/-! ### The lines -/

/-- A line of `u7_testing_fail`. -/
def reportLine (file : CStr) (line : ℤ) (name : CStr) (message : List UInt8) : List UInt8 :=
  file.bytes ++ ascii ":" ++ ascii (toString line) ++ ascii ": " ++ name.bytes ++ ascii ": " ++
    message ++ ascii "\n"

/-- The message for values that are found different. -/
def differMessage (actualExpression expectedExpression : CStr) (actual expected : List UInt8) :
    List UInt8 :=
  ascii "expected " ++ actualExpression.bytes ++ ascii " == " ++ expectedExpression.bytes ++
    ascii "; actual: " ++ actual ++ ascii " != " ++ expected

/-- The message for a string and a number. -/
def incomparableMessage (actualExpression expectedExpression : CStr)
    (actual expected : U7TestingKind) : List UInt8 :=
  ascii "cannot compare " ++ actualExpression.bytes ++ ascii " (" ++
    (u7TestingKindName actual).bytes ++ ascii ") with " ++ expectedExpression.bytes ++
    ascii " (" ++ (u7TestingKindName expected).bytes ++ ascii ")"

section Line

variable {τ ω : Type} {f64Text : Double → List UInt8} {a b : U7TestingValue}
  {actualExpression expectedExpression file : CStr} {line : ℤ} {s : TestingState τ ω}

/-- A message that fits is printed in full. -/
theorem assertFail_of_short {α : Type} {message : List UInt8} (hfree : 0 ∉ message)
    (hshort : message.length ≤ 1023) :
    (u7TestingAssertFail file line (.ofObject message) s : Except (Stop τ ω) α) =
      .error (.abort (s.fprintf (reportLine file line s.reportedName message))) := by
  have hbytes : (CStr.ofObject message).bytes.take 1023 = message := by
    change (cString message).take 1023 = message
    rw [cString_eq_self hfree, List.take_of_length_le hshort]
  rw [u7TestingAssertFail, u7TestingFail, hbytes]
  rfl

theorem length_valueText_le (h : a.Identified f64Text) : (valueText f64Text a).length ≤ 255 := by
  rw [valueText_eq h]
  exact List.length_take_le 255 _

theorem length_kindName_le (kind : U7TestingKind) : (u7TestingKindName kind).bytes.length ≤ 23 := by
  cases kind <;> decide

/-- A string and a number are reported as such. -/
theorem report_of_incomparable (hkind : ¬ (a.kind = .str ↔ b.kind = .str))
    (hshort : actualExpression.bytes.length + expectedExpression.bytes.length ≤ 486) :
    u7TestingAssertEq f64Text a b actualExpression expectedExpression file line s =
      .error (.abort (s.fprintf (reportLine file line s.reportedName
        (incomparableMessage actualExpression expectedExpression a.kind b.kind)))) := by
  have ha := length_kindName_le a.kind
  have hb := length_kindName_le b.kind
  rw [u7TestingAssertEq, if_pos (fun h => hkind (decide_eq_decide.mp h))]
  refine assertFail_of_short ?_ ?_
  · simp [actualExpression.nul_free, expectedExpression.nul_free, CStr.nul_free]
    decide
  · simp [ascii]
    omega

/-- Values that are found different are reported with their texts. -/
theorem report_of_different (ha : a.Identified f64Text) (hb : b.Identified f64Text)
    (hkind : a.kind = .str ↔ b.kind = .str) (hequal : a.equal b = false)
    (hshort : actualExpression.bytes.length + expectedExpression.bytes.length ≤ 486) :
    u7TestingAssertEq f64Text a b actualExpression expectedExpression file line s =
      .error (.abort (s.fprintf (reportLine file line s.reportedName
        (differMessage actualExpression expectedExpression (valueText f64Text a)
          (valueText f64Text b))))) := by
  have hla := length_valueText_le ha
  have hlb := length_valueText_le hb
  rw [u7TestingAssertEq, if_neg (not_not.mpr (decide_eq_decide.mpr hkind)), hequal,
    if_neg Bool.false_ne_true]
  have hfree : 0 ∉ differMessage actualExpression expectedExpression (valueText f64Text a)
      (valueText f64Text b) := by
    simp [differMessage, valueText, nul_not_mem_cString, actualExpression.nul_free,
      expectedExpression.nul_free]
    decide
  have hlength : (differMessage actualExpression expectedExpression (valueText f64Text a)
      (valueText f64Text b)).length ≤ 1023 := by
    simp [differMessage, ascii]
    omega
  exact assertFail_of_short hfree hlength

end Line

/-- **The report of a failed comparison.** If the expressions have at most 486 bytes together,
a failed `U7_ASSERT_EQ` prints the file, the line, the name of the active test, both expressions
and the texts of both values, strings in quotes, up to 255 bytes each: one line, if none of these
contains a newline. The texts are different unless the values are strings that agree as far as
they are printed. A string and a number are reported as what they are. -/
theorem assert_eq_report {τ ω : Type} (f64Text : Double → List UInt8) (a b : U7TestingValue)
    (actualExpression expectedExpression file : CStr) (line : ℤ) (s : TestingState τ ω)
    (ha : a.Identified f64Text) (hb : b.Identified f64Text)
    (hshort : actualExpression.bytes.length + expectedExpression.bytes.length ≤ 486) :
    ((a.kind = .str ↔ b.kind = .str) → a.equal b = false →
      u7TestingAssertEq f64Text a b actualExpression expectedExpression file line s =
        .error (.abort (s.fprintf (reportLine file line s.reportedName
          (differMessage actualExpression expectedExpression ((a.text f64Text).take 255)
            ((b.text f64Text).take 255))))) ∧
      ((a.text f64Text).take 255 = (b.text f64Text).take 255 ↔ CutAlike a b)) ∧
    (¬ (a.kind = .str ↔ b.kind = .str) →
      u7TestingAssertEq f64Text a b actualExpression expectedExpression file line s =
        .error (.abort (s.fprintf (reportLine file line s.reportedName
          (incomparableMessage actualExpression expectedExpression a.kind b.kind))))) := by
  refine ⟨fun hkind hequal => ?_, fun hkind => report_of_incomparable hkind hshort⟩
  have hreport : u7TestingAssertEq f64Text a b actualExpression expectedExpression file line s =
      _ := report_of_different ha hb hkind hequal hshort
  have htexts := valueText_eq_iff ha hb hkind hequal
  rw [valueText_eq ha, valueText_eq hb] at hreport htexts
  exact ⟨hreport, htexts⟩

/-- `1`, as a `double`. -/
def oneDouble : Double :=
  .ofInt 1 (by decide)

/-- `%.17g` of `1`. -/
def oneText (d : Double) : List UInt8 :=
  if d = oneDouble then decimal 1 else ascii "?"

theorem identifies_oneText : Identifies oneText oneDouble := by
  have hone : oneText oneDouble = decimal 1 := if_pos rfl
  refine ⟨by rw [hone]; exact nul_not_mem_decimal 1, by decide +kernel, fun n htext => ?_⟩
  rw [hone] at htext
  cases n with
  | i64 v hv =>
      obtain rfl := decimal_injective htext
      rfl
  | u64 v hv =>
      obtain rfl := decimal_injective htext
      rfl
  | f64 d =>
      by_cases hd : d = oneDouble
      · exact hd
      · rw [U7TestingNumber.text, oneText, if_neg hd] at htext
        exact absurd htext (by decide)

/-- In the test `ratios`, `1.0` is not equal to the integer `2`. -/
theorem assert_eq_report_ratios :
    u7TestingAssertEq oneText (.number (.f64 oneDouble)) (.number (.i64 2 (by decide)))
        (.lit "ratio") (.lit "limit") (.lit "report.c") 12
        (⟨some (.lit "ratios"), none, fun _ => none, 0, [], [], ()⟩ : TestingState Unit Unit) =
      .error (.abort ⟨some (.lit "ratios"), none, fun _ => none, 0, [],
        [ascii "report.c:12: ratios: expected ratio == limit; actual: 1 != 2\n"], ()⟩) := by
  have hreport := assert_eq_report oneText (.number (.f64 oneDouble))
    (.number (.i64 2 (by decide))) (.lit "ratio") (.lit "limit") (.lit "report.c") 12
    (⟨some (.lit "ratios"), none, fun _ => none, 0, [], [], ()⟩ : TestingState Unit Unit)
    identifies_oneText trivial (by decide)
  have htext : (U7TestingValue.number (.f64 oneDouble)).text oneText = decimal 1 := by
    rw [U7TestingValue.text, U7TestingNumber.text, oneText, if_pos rfl]
  have hequal : (U7TestingValue.number (.f64 oneDouble)).equal (.number (.i64 2 (by decide))) =
      false := by
    decide +kernel
  rw [(hreport.1 (by decide) hequal).1, htext]
  rfl

end U7Init
