import U7Init.Error.Forwarding
import U7Init.Testing.Operands
import U7Init.Testing.Report
import U7Init.Testing.Transcript

/-!
# Tests of Functions That Return Errors

The tests of `test_error.c` call functions that return errors, assert what they expect of an
error and of its causes, and release it. This module models such tests with the assertions
that `testing.h` has for them. What a test reads goes through the accessors of `error.h`, and
the report of `U7_ASSERT_OK` through `printf`.

Beside it stands a judge who knows nothing of handles and payloads. He is told what the
functions throw, compares codes and lengths as numbers and texts as texts, and names the first
assertion that does not hold.

A test creates its errors by calling functions of the library's patterns (`ErrorFn`), so what it
asserts is a matter of what these throw, which `U7Init.Error.Forwarding` says. The code of an
error goes through `int64_t` when it is compared, so codes are assumed to be `int`s, as they are
in C. An assertion that fails ends the process; the reference to the error is not given back
then, and nothing is said about the heap.

## Main results

* `run_eq_judge`: the assertions about an error against the judge.
* `error_tests`: a test passes, or reports what the judge names, and leaves no reference.
-/

namespace U7Init

open Outcome MachineInt MachineInt.IntType Rounding

/-! ### Tests -/

/-- What `U7_ASSERT_EQ` is told of an error. -/
inductive ErrorPart
  /-- `error.error_code`, also as `U7_ASSERT_ERROR_CODE` has it. -/
  | errorCode
  /-- `u7_error_category_name(error)` -/
  | categoryName
  /-- `u7_error_message(error)` -/
  | message
  /-- `u7_error_message_length(error)` -/
  | messageLength

/-- Assertions about an error, with their lines and with the expressions as they are spelled. -/
inductive ErrorAsserts
  | done
  /-- `U7_ASSERT_OK(error); rest` -/
  | ok (line : ℤ) (expression : CStr) (rest : ErrorAsserts)
  /-- `U7_ASSERT_EQ(actual, expected); rest` -/
  | eq (line : ℤ) (part : ErrorPart) (expected : U7TestingValue)
      (actualExpression expectedExpression : CStr) (rest : ErrorAsserts)
  /-- `U7_ASSERT(error.payload != NULL);`, then assertions about `error.payload->cause`. -/
  | cause (line : ℤ) (expression : CStr) (inner rest : ErrorAsserts)

/-- `u7_error error = fn(); assertions; u7_error_release(error);` -/
structure ErrorTest where
  fn : ErrorFn
  asserts : ErrorAsserts

/-- `"expected %s to be ok; actual: %" U7_ERROR_FMT`. -/
def assertOkFmt : CStr :=
  (CStr.lit "expected %s to be ok; actual: %").append u7ErrorFmt

variable {τ ω : Type}

/-- A computation on the heap, in a test. -/
def orFault {α : Type} : Except Fault α → Except (Stop τ ω) α
  | .ok a => .ok a
  | .error f => .error (.fault f)

/-- The operand of `U7_ASSERT_EQ`. -/
def ErrorPart.read : ErrorPart → U7Error → Mem → Except Fault U7TestingValue
  | .errorCode, e, _ => .ok (.number (u7TestingValueI64 e.errorCode))
  | .categoryName, e, m => do
      let name ← u7ErrorCategoryName e m
      .ok (.str (some name))
  | .message, e, m => do
      let object ← u7ErrorMessage e m
      .ok (.str (some (.ofObject object)))
  | .messageLength, e, m => do
      let length ← u7ErrorMessageLength e m
      .ok (.number (u7TestingValueI64 length))

/-- The assertions about the error `e`. -/
def ErrorAsserts.run (f64Text : Double → List UInt8) (file : CStr) :
    ErrorAsserts → U7Error → TestingState τ Mem → Except (Stop τ Mem) (TestingState τ Mem)
  | .done, _, s => .ok s
  | .ok line expression rest, e, s =>
      if e.errorCode ≠ 0 then do
        let arg ← orFault (u7ErrorFmtParams e s.world)
        let text ← orFault (printf assertOkFmt (.str expression.object :: arg))
        u7TestingAssertFail file line (.ofObject text) s
      else rest.run f64Text file e s
  | .eq line part expected actualExpression expectedExpression rest, e, s => do
      let actual ← orFault (part.read e s.world)
      let s ← u7TestingAssertEq f64Text actual expected actualExpression expectedExpression file
        line s
      rest.run f64Text file e s
  | .cause line expression inner rest, e, s =>
      if e.payload ≠ none then do
        let x ← orFault (e.deref s.world)
        let s ← inner.run f64Text file x.cause s
        rest.run f64Text file e s
      else
        u7TestingAssertFail file line
          (.ofObject (ascii "assertion failed: " ++ expression.bytes)) s

/-- The body of a test. -/
def runErrorTests (ℓ : Libc) (f64Text : Double → List UInt8) (file : CStr) :
    List ErrorTest → TestingState τ Mem → Except (Stop τ Mem) (TestingState τ Mem)
  | [], s => .ok s
  | test :: tests, s => do
      let ((error, lines), m) ← orFault (test.fn.exec ℓ s.world)
      let s ← test.asserts.run f64Text file error { s with
        world := m
        stderr := s.stderr ++ lines }
      let m ← orFault (u7ErrorRelease error s.world)
      runErrorTests ℓ f64Text file tests { s with world := m }

/-! ### The judge -/

/-- The text that is printed of an error. -/
def ErrorValue.text (v : ErrorValue) : List UInt8 :=
  errorText v.categoryName v.errorCode (padded v.message.length (cString v.message))

/-- What `U7_ASSERT_EQ` is told of an error that says `v`. -/
def ErrorPart.value : ErrorPart → ErrorValue → U7TestingValue
  | .errorCode, v => .number (u7TestingValueI64 v.errorCode)
  | .categoryName, v => .str (some v.categoryName)
  | .message, v => .str (some (.ofObject v.message))
  | .messageLength, v => .number (u7TestingValueI64 v.message.length)

/-- That part of an error is what is expected: the same number, or the same text. -/
def ErrorPart.Is : ErrorPart → ErrorValue → U7TestingValue → Prop
  | .errorCode, v, .number n => n.value = v.errorCode
  | .categoryName, v, .str text => text = some v.categoryName
  | .message, v, .str text => text = some (.ofObject v.message)
  | .messageLength, v, .number n => n.value = v.message.length
  | _, _, _ => False

instance (part : ErrorPart) (v : ErrorValue) (expected : U7TestingValue) :
    Decidable (part.Is v expected) :=
  match part, expected with
  | .errorCode, .number n => inferInstanceAs (Decidable (n.value = v.errorCode))
  | .categoryName, .str text => inferInstanceAs (Decidable (text = some v.categoryName))
  | .message, .str text => inferInstanceAs (Decidable (text = some (.ofObject v.message)))
  | .messageLength, .number n => inferInstanceAs (Decidable (n.value = v.message.length))
  | .errorCode, .str _ | .messageLength, .str _ => .isFalse id
  | .categoryName, .number _ | .message, .number _ => .isFalse id

/-- The message of a failed `U7_ASSERT_EQ`. -/
def unequalMessage (f64Text : Double → List UInt8) (actual expected : U7TestingValue)
    (actualExpression expectedExpression : CStr) : List UInt8 :=
  if actual.kind = .str ↔ expected.kind = .str then
    differMessage actualExpression expectedExpression (valueText f64Text actual)
      (valueText f64Text expected)
  else incomparableMessage actualExpression expectedExpression actual.kind expected.kind

/-- The first assertion that does not hold of an error that says `v`. -/
def ErrorAsserts.judge (f64Text : Double → List UInt8) (file : CStr) :
    ErrorAsserts → ErrorValue → Option FailedAssertion
  | .done, _ => none
  | .ok line expression rest, v =>
      if v = [] then rest.judge f64Text file v
      else some ⟨file, line, .ofObject
        (ascii "expected " ++ expression.bytes ++ ascii " to be ok; actual: " ++ v.text)⟩
  | .eq line part expected actualExpression expectedExpression rest, v =>
      if part.Is v expected then rest.judge f64Text file v
      else some ⟨file, line, .ofObject
        (unequalMessage f64Text (part.value v) expected actualExpression expectedExpression)⟩
  | .cause line expression inner rest, v =>
      if v = [] then some ⟨file, line, .ofObject (ascii "assertion failed: " ++ expression.bytes)⟩
      else (inner.judge f64Text file v.tail).or (rest.judge f64Text file v)

/-- What the functions print, and the first assertion that does not hold of what they throw. -/
inductive Judged (render : CStr → List VaArg → List UInt8) (Fails : Prop)
    (f64Text : Double → List UInt8) (file : CStr) :
    List ErrorTest → List (List UInt8) → Option FailedAssertion → Prop
  | done : Judged render Fails f64Text file [] [] none
  | passes {test : ErrorTest} {tests : List ErrorTest} {lines lines' : List (List UInt8)}
      {v : ErrorValue} {verdict : Option FailedAssertion} :
      test.fn.Means render Fails lines v → test.asserts.judge f64Text file v = none →
      Judged render Fails f64Text file tests lines' verdict →
      Judged render Fails f64Text file (test :: tests) (lines ++ lines') verdict
  | fails {test : ErrorTest} {tests : List ErrorTest} {lines : List (List UInt8)}
      {v : ErrorValue} {a : FailedAssertion} :
      test.fn.Means render Fails lines v → test.asserts.judge f64Text file v = some a →
      Judged render Fails f64Text file (test :: tests) lines (some a)

/-- The process goes on, or reports the assertion and aborts. -/
def finish (verdict : Option FailedAssertion) (s : TestingState τ ω) :
    Except (Stop τ ω) (TestingState τ ω) :=
  match verdict with
  | none => .ok s
  | some a => u7TestingAssertFail a.file a.line a.rendered s

/-! ### What an assertion finds -/

/-- Error codes and the lengths of messages are values of `int`. -/
def ErrorValue.FitsInt (v : ErrorValue) : Prop :=
  ∀ entry ∈ v, int32.Fits entry.errorCode ∧ int32.Fits entry.message.length

section Values

variable {f64Text : Double → List UInt8} {file : CStr} {e : U7Error} {m : Mem} {v : ErrorValue}
  {s : TestingState τ Mem} {part : ErrorPart} {expected : U7TestingValue}

@[simp] theorem orFault_ok {α : Type} (a : α) :
    orFault (.ok a : Except Fault α) = (.ok a : Except (Stop τ ω) α) := rfl

/-- Text without conversions is printed as it is. -/
theorem printfFrom_text {text : List UInt8} (h : '%'.toUInt8 ∉ text) (format : List UInt8)
    (arg : List VaArg) :
    printfFrom none (text ++ format) arg =
      (do
        let rest ← printfFrom none format arg
        .ok (text ++ rest)) := by
  induction text with
  | nil => cases hrest : printfFrom none format arg <;> rw [List.nil_append, hrest] <;> rfl
  | cons c text ih =>
      obtain ⟨hc, htext⟩ : '%'.toUInt8 ≠ c ∧ '%'.toUInt8 ∉ text := by simpa using h
      rw [List.cons_append, printfFrom, if_neg (Ne.symm hc), ih htext]
      cases printfFrom none format arg <;> rfl

/-- The message of a failed `U7_ASSERT_OK`. -/
theorem printf_assertOkFmt (expression : CStr) (h : Denotes m e v) :
    ∃ arg, u7ErrorFmtParams e m = .ok arg ∧
      printf assertOkFmt (.str expression.object :: arg) =
        .ok (ascii "expected " ++ expression.bytes ++ ascii " to be ok; actual: " ++ v.text) := by
  obtain ⟨hname, ⟨junk, hmessage⟩, hlength, -⟩ := h.readsAs
  refine ⟨[.str v.categoryName.object, .int e.errorCode, .int v.message.length,
    .str (v.message ++ 0 :: junk)], ?_, ?_⟩
  · rw [u7ErrorFmtParams, hname, ok_bind, hlength, ok_bind, hmessage, ok_bind]
  have hformat : assertOkFmt.bytes = ascii "expected " ++ ('%'.toUInt8 :: 's'.toUInt8 ::
      (ascii " to be ok; actual: " ++ ((CStr.lit "%").append u7ErrorFmt).bytes)) := rfl
  have herror := printf_u7ErrorFmt v.categoryName e.errorCode v.message.length
    (show 0 ∈ v.message ++ 0 :: junk by simp)
  rw [printf] at herror
  have hpercent : '%'.toUInt8 ∉ ascii " to be ok; actual: " := by decide
  have hrest := printfFrom_text hpercent ((CStr.lit "%").append u7ErrorFmt).bytes
    [.str v.categoryName.object, .int e.errorCode, .int v.message.length,
      .str (v.message ++ 0 :: junk)]
  rw [herror, ok_bind] at hrest
  rw [printf, hformat, printfFrom_text (by decide)]
  rw [printfFrom, if_pos rfl, printfFrom, if_neg (by decide), conversion, if_pos rfl, vaArgStr,
    ok_bind]
  dsimp only
  rw [if_pos expression.nul_mem_object, ok_bind]
  dsimp only
  rw [hrest, ok_bind, ok_bind, padded_zero, cString_object, cString_terminated, h.errorCode,
    List.append_assoc, List.append_assoc, ErrorValue.text]

/-- **What an assertion reads** of an error on the heap is part of what the error says. -/
theorem Denotes.read (h : Denotes m e v) (part : ErrorPart) :
    part.read e m = .ok (part.value v) := by
  obtain ⟨hname, ⟨junk, hmessage⟩, hlength, -⟩ := h.readsAs
  cases part with
  | errorCode => rw [ErrorPart.read, h.errorCode, ErrorPart.value]
  | categoryName => rw [ErrorPart.read, hname, ok_bind, ErrorPart.value]
  | message =>
      have htext : CStr.ofObject (v.message ++ 0 :: junk) = CStr.ofObject v.message :=
        CStr.ext (cString_terminated _ _)
      rw [ErrorPart.read, hmessage, ok_bind, ErrorPart.value, htext]
  | messageLength => rw [ErrorPart.read, hlength, ok_bind, ErrorPart.value]

/-- An `int` is found equal to a number exactly if it is that number. -/
theorem equal_int_iff {k : ℤ} (hk : int32.Fits k) (n : U7TestingNumber) :
    (U7TestingValue.number (u7TestingValueI64 k)).equal (.number n) = true ↔ n.value = k := by
  have hk' : int64.Fits k := by
    simp only [IntType.Fits, IntType.lo] at hk ⊢
    norm_num at hk ⊢
    omega
  have hvalue : u7TestingValueI64 k = .i64 k hk' := by
    simp only [u7TestingValueI64, hk'.wrap_eq]
  have hexact : ¬ RoundedTogether (.i64 k hk') n := by
    have hrepresentable : Representable 53 k := by
      refine representable_of_lt ?_
      simp only [IntType.Fits, IntType.lo] at hk
      norm_num at hk ⊢
      omega
    rintro (⟨d, rfl, hrounded, -⟩ | ⟨d, ⟨⟩, -⟩)
    exact hrounded hrepresentable
  rw [hvalue, U7TestingValue.equal, (valuesEqual_iff_value_iff _ _).mpr hexact]
  exact eq_comm

/-- That part of an error is what is expected exactly if `U7_ASSERT_EQ` finds it equal. -/
theorem is_iff_equal (hfits : v.FitsInt) (part : ErrorPart) (expected : U7TestingValue) :
    part.Is v expected ↔ ((part.value v).kind = .str ↔ expected.kind = .str) ∧
      (part.value v).equal expected = true := by
  have hnumber : ∀ n : U7TestingNumber, (U7TestingValue.number n).kind ≠ .str := by
    intro n
    cases n <;> exact U7TestingKind.noConfusion
  have hcode : int32.Fits v.errorCode := by
    cases v with
    | nil => decide
    | cons entry v => exact (hfits entry List.mem_cons_self).1
  have hlength : int32.Fits v.message.length := by
    cases v with
    | nil => decide
    | cons entry v => exact (hfits entry List.mem_cons_self).2
  have hnumbers : ∀ {k : ℤ}, int32.Fits k → ∀ n : U7TestingNumber, n.value = k ↔
      ((U7TestingValue.number (u7TestingValueI64 k)).kind = .str ↔
        (U7TestingValue.number n).kind = .str) ∧
      (U7TestingValue.number (u7TestingValueI64 k)).equal (.number n) = true := by
    intro k hk n
    rw [equal_int_iff hk, and_iff_right (iff_of_false (hnumber _) (hnumber n))]
  have htexts : ∀ (t : CStr) (text : Option CStr), text = some t ↔
      ((U7TestingValue.str (some t)).kind = .str ↔ (U7TestingValue.str text).kind = .str) ∧
      (U7TestingValue.str (some t)).equal (.str text) = true := by
    intro t text
    have hkind : (U7TestingValue.str (some t)).kind = .str ↔
        (U7TestingValue.str text).kind = .str := Iff.rfl
    rw [and_iff_right hkind]
    cases text with
    | none => simp [U7TestingValue.equal]
    | some text =>
        rw [Option.some_inj, eq_comm]
        simp [U7TestingValue.equal, strcmp_eq_zero_iff]
  cases expected with
  | number n =>
      cases part with
      | errorCode => exact hnumbers hcode n
      | messageLength => exact hnumbers hlength n
      | categoryName | message =>
          exact iff_of_false id fun h => hnumber n (h.1.mp rfl)
  | str text =>
      cases part with
      | errorCode | messageLength =>
          exact iff_of_false id fun h => hnumber _ (h.1.mpr rfl)
      | categoryName => exact htexts _ text
      | message => exact htexts _ text

/-- **`U7_ASSERT_EQ` of a part of an error** passes exactly if that is what is expected. -/
theorem assertEq_part (hfits : v.FitsInt) (part : ErrorPart) (expected : U7TestingValue)
    (actualExpression expectedExpression file : CStr) (line : ℤ) (s : TestingState τ ω) :
    u7TestingAssertEq f64Text (part.value v) expected actualExpression expectedExpression file
        line s =
      if part.Is v expected then .ok s
      else u7TestingAssertFail file line
        (.ofObject (unequalMessage f64Text (part.value v) expected actualExpression
          expectedExpression)) s := by
  have his := is_iff_equal hfits part expected
  rw [u7TestingAssertEq, unequalMessage]
  by_cases hkind : (part.value v).kind = .str ↔ expected.kind = .str
  · rw [if_neg (not_not.mpr (decide_eq_decide.mpr hkind)), if_pos hkind]
    rw [and_iff_right hkind] at his
    by_cases hequal : (part.value v).equal expected = true
    · rw [if_pos hequal, if_pos (his.mpr hequal)]
    · rw [if_neg hequal, if_neg (his.not.mpr hequal)]
      rfl
  · rw [if_pos fun h => hkind (decide_eq_decide.mp h), if_neg fun h => hkind (his.mp h).1,
      if_neg hkind]
    rfl

/-- **The assertions about an error** do what the judge says who is told what the error says.
The induction is along the assertions; a cause says what is left of the error. -/
theorem run_eq_judge (f64Text : Double → List UInt8) (file : CStr) (asserts : ErrorAsserts)
    (h : Denotes s.world e v) (hfits : v.FitsInt) :
    asserts.run f64Text file e s = finish (asserts.judge f64Text file v) s := by
  induction asserts generalizing e v with
  | done => rfl
  | ok line expression rest ih =>
      rw [ErrorAsserts.run, ErrorAsserts.judge]
      by_cases hv : v = []
      · rw [if_neg (not_not.mpr (h.eq_nil_iff.mp hv)), if_pos hv, ih h hfits]
      · obtain ⟨arg, hparams, hprint⟩ := printf_assertOkFmt expression h
        rw [if_pos (h.eq_nil_iff.not.mp hv), if_neg hv, hparams, orFault_ok, ok_bind, hprint,
          orFault_ok, ok_bind, finish]
  | eq line part expected actualExpression expectedExpression rest ih =>
      rw [ErrorAsserts.run, ErrorAsserts.judge, h.read, orFault_ok, ok_bind,
        assertEq_part hfits]
      by_cases his : part.Is v expected
      · rw [if_pos his, if_pos his, ok_bind, ih h hfits]
      · rw [if_neg his, if_neg his]
        rfl
  | cause line expression inner rest ihinner ihrest =>
      rw [ErrorAsserts.run, ErrorAsserts.judge]
      cases h with
      | ok =>
          have hpayload : u7Ok.payload = none := rfl
          rw [if_neg (not_not.mpr hpayload), if_pos rfl]
          rfl
      | @error _ p x text v hcode hp hx hsays hcause =>
          have hderef : e.deref s.world = .ok x := by
            rw [U7Error.deref, hp]
            simp only [Mem.deref, hx]
          have herror : Denotes s.world e (⟨e.errorCode, text⟩ :: v) :=
            .error hcode hp hx hsays hcause
          rw [hp, if_pos (Option.some_ne_none p), if_neg (List.cons_ne_nil _ _), hderef,
            orFault_ok, ok_bind, ihinner hcause fun entry hmem => hfits entry (.tail _ hmem),
            List.tail_cons]
          cases hinner : inner.judge f64Text file v with
          | none => rw [finish, ok_bind, ihrest herror hfits, Option.none_or]
          | some a => rfl

end Values

/-! ### Test bodies -/

/-- The error codes of a function are values of `int`. -/
def ErrorFn.CodesFit : ErrorFn → Prop
  | .ok => True
  | .errorf errorCode _ _ => int32.Fits errorCode
  | .errorfWithCause errorCode call _ _ => call.CodesFit ∧ int32.Fits errorCode
  | .returnIfError call rest | .handle call rest => call.CodesFit ∧ rest.CodesFit

section Bodies

variable {ℓ : Libc} {render : CStr → List VaArg → List UInt8} {Fails : Prop}
  {f64Text : Double → List UInt8} {file : CStr} {out loose : ℕ → ℕ}

theorem Created.fitsInt {errorCode : ℤ} {cause v : ErrorValue} {message : List UInt8}
    (h : Created Fails errorCode cause message v) (hcode : int32.Fits errorCode)
    (hlen : (message.length : ℤ) + 1 ≤ intMax) (hcause : cause.FitsInt) : v.FitsInt := by
  have hmessage : int32.Fits message.length := by
    simp only [intMax] at hlen
    simp only [IntType.Fits, IntType.lo]
    norm_num
    omega
  cases h with
  | none => exact fun entry hmem => absurd hmem List.not_mem_nil
  | entry _ =>
      intro entry hmem
      rcases List.mem_cons.mp hmem with rfl | hmem
      · exact ⟨hcode, hmessage⟩
      · exact hcause entry hmem
  | fallBack _ _ =>
      intro entry hmem
      obtain rfl := List.mem_singleton.mp hmem
      have hlength : int32.Fits fallbackText.length := by decide
      exact ⟨hcode, hlength⟩

/-- **What a function throws** has codes and lengths that fit. -/
theorem ErrorFn.Means.fitsInt {f : ErrorFn} {lines : List (List UInt8)} {v : ErrorValue}
    (h : f.Means render Fails lines v) (hformats : f.Formats render) (hcodes : f.CodesFit) :
    v.FitsInt := by
  have hnil : ErrorValue.FitsInt [] := fun entry hmem => absurd hmem List.not_mem_nil
  induction h with
  | ok => exact hnil
  | errorf hcreated => exact hcreated.fitsInt hcodes hformats.2 hnil
  | errorfWithCause _ hcreated ih =>
      exact hcreated.fitsInt hcodes.2 hformats.2.2 (ih hformats.1 hcodes.1)
  | thrown _ _ ih => exact ih hformats.1 hcodes.1
  | returned _ _ _ ih => exact ih hformats.2 hcodes.2
  | handled _ _ _ _ ih => exact ih hformats.2 hcodes.2
  | unhandled _ _ _ ih => exact ih hformats.2 hcodes.2

/-- Unless something fails there is one verdict. -/
theorem Judged.unique (hfails : ¬ Fails) {tests : List ErrorTest}
    {lines lines' : List (List UInt8)} {verdict verdict' : Option FailedAssertion}
    (h : Judged render Fails f64Text file tests lines verdict)
    (h' : Judged render Fails f64Text file tests lines' verdict') :
    lines = lines' ∧ verdict = verdict' := by
  induction h generalizing lines' verdict' with
  | done =>
      cases h'
      exact ⟨rfl, rfl⟩
  | passes hmeans hjudge _ ih =>
      cases h' with
      | passes hmeans' _ hrest =>
          obtain ⟨rfl, -⟩ := hmeans.unique hfails hmeans'
          obtain ⟨rfl, rfl⟩ := ih hrest
          exact ⟨rfl, rfl⟩
      | fails hmeans' hjudge' =>
          obtain ⟨-, rfl⟩ := hmeans.unique hfails hmeans'
          cases hjudge.symm.trans hjudge'
  | fails hmeans hjudge =>
      cases h' with
      | passes hmeans' hjudge' _ =>
          obtain ⟨-, rfl⟩ := hmeans.unique hfails hmeans'
          cases hjudge.symm.trans hjudge'
      | fails hmeans' hjudge' =>
          obtain ⟨rfl, rfl⟩ := hmeans.unique hfails hmeans'
          exact ⟨rfl, hjudge.symm.trans hjudge'⟩

/-- **The body of a test** does what the judge says. If it passes, every error has been
released. -/
theorem runErrorTests_eq_finish (f64Text : Double → List UInt8) (file : CStr)
    (hrender : Printf render) (hprints : ℓ.PrintsOrFails render) {tests : List ErrorTest}
    (htests : ∀ test ∈ tests, test.fn.Formats render ∧ test.fn.CodesFit)
    {s : TestingState τ Mem} (howned : Owned s.world out loose)
    (hbound : ∀ q, out q + s.world.links q + (tests.map fun test => test.fn.size).sum < 2 ^ 32) :
    ∃ lines verdict m, Judged render (ℓ.Fails render) f64Text file tests lines verdict ∧
      runErrorTests ℓ f64Text file tests s =
        finish verdict { s with
          world := m
          stderr := s.stderr ++ lines } ∧
      (verdict = none → Owned m out loose ∧ Keeps s.world m out) := by
  induction tests generalizing s with
  | nil =>
      refine ⟨[], none, s.world, .done, ?_, fun _ => ⟨howned, fun _ _ _ => id⟩⟩
      rw [List.append_nil]
      rfl
  | cons test tests ih =>
      obtain ⟨⟨hformats, hcodes⟩, htests⟩ := List.forall_mem_cons.mp htests
      simp only [List.map_cons, List.sum_cons] at hbound
      obtain ⟨e, lines, m₁, v, hexec, hmeans, hreturns⟩ :=
        sound_of_formats hrender hprints hformats s.world howned fun q => by
          have hq := hbound q
          omega
      obtain ⟨m₂, hrelease, howned₂, hkeeps, hlinks⟩ := hreturns.release fun q => by
        have hq := hbound q
        omega
      have hasserts := run_eq_judge f64Text file
        (s := { s with world := m₁, stderr := s.stderr ++ lines }) test.asserts
        hreturns.denotes (hmeans.fitsInt hformats hcodes)
      rw [runErrorTests, hexec, orFault_ok, ok_bind]
      dsimp only
      rw [hasserts]
      cases hjudge : test.asserts.judge f64Text file v with
      | some a =>
          refine ⟨lines, some a, m₁, .fails hmeans hjudge, rfl, fun h => ?_⟩
          cases h
      | none =>
          obtain ⟨lines', verdict, m', hjudged, hrun, hleft⟩ :=
            ih (s := { s with world := m₂, stderr := s.stderr ++ lines }) htests howned₂
              fun q => by
                have hq := hbound q
                have hq' := hlinks q
                dsimp only
                omega
          refine ⟨lines ++ lines', verdict, m', .passes hmeans hjudge hjudged, ?_, fun h => ?_⟩
          · rw [finish, ok_bind, hrelease, orFault_ok, ok_bind, hrun, List.append_assoc]
          · obtain ⟨howned', hkeeps'⟩ := hleft h
            exact ⟨howned', hkeeps.trans hkeeps'⟩

end Bodies

/-- **Tests of functions that return errors** are judged by what the functions throw. A test
that calls functions of the library's patterns, asserts something of each error and of its
causes, and releases it, prints what the functions print and then passes, or reports the first
assertion that does not hold of what was thrown, and this is unique unless a call of the C
library fails. A test that passes leaves no reference, and what others own says what it said. -/
theorem error_tests {τ : Type} (ℓ : Libc) (render : CStr → List VaArg → List UInt8)
    (hrender : Printf render) (hprints : ℓ.PrintsOrFails render) (f64Text : Double → List UInt8)
    (file : CStr) (tests : List ErrorTest)
    (htests : ∀ test ∈ tests, test.fn.Formats render ∧ test.fn.CodesFit)
    (s : TestingState τ Mem) (out loose : ℕ → ℕ) (howned : Owned s.world out loose)
    (hbound : ∀ q, out q + s.world.links q + (tests.map fun test => test.fn.size).sum < 2 ^ 32) :
    ∃ lines verdict m, Judged render (ℓ.Fails render) f64Text file tests lines verdict ∧
      (¬ ℓ.Fails render → ∀ lines' verdict',
        Judged render (ℓ.Fails render) f64Text file tests lines' verdict' →
        lines' = lines ∧ verdict' = verdict) ∧
      runErrorTests ℓ f64Text file tests s =
        finish verdict { s with
          world := m
          stderr := s.stderr ++ lines } ∧
      (verdict = none → Owned m out loose ∧ Keeps s.world m out) := by
  obtain ⟨lines, verdict, m, hjudged, hrun, hleft⟩ :=
    runErrorTests_eq_finish f64Text file hrender hprints htests howned hbound
  exact ⟨lines, verdict, m, hjudged, fun hfails _ _ h => h.unique hfails hjudged, hrun, hleft⟩

/-- `test_error_cause`. -/
def testErrorCause : ErrorTest where
  fn := gnErr
  asserts :=
    .eq 37 .errorCode (.number (u7TestingValueI64 22)) (.lit "(error).error_code") (.lit "(22)") <|
    .eq 38 .message (.str (some (.lit "foo.bar" nul_free_foo_bar)))
      (.lit "u7_error_message(error)") (.lit "\"foo.bar\"") <|
    .cause 39 (.lit "error.payload != NULL")
      (.eq 40 .errorCode (.number (u7TestingValueI64 22))
        (.lit "(error.payload->cause).error_code") (.lit "(22)") <|
      .eq 41 .message (.str (some (.lit "Hello, World!" nul_free_hello)))
        (.lit "u7_error_message(error.payload->cause)") (.lit "\"Hello, World!\"") .done)
      .done

/-- It passes, and releases the error and its cause. -/
theorem error_tests_cause :
    ∃ m, runErrorTests (.ofShort renderPlain) oneText (.lit "test_error.c") [testErrorCause]
        (.start Mem.start : TestingState Unit Mem) = .ok (.start m) ∧ Owned m 0 0 := by
  have hstring : ∀ s : CStr, Matches (.lit "%s" nul_free_string) [.str s.object] := fun s =>
    ⟨fun _ => ⟨_, _, rfl, s.nul_mem_object⟩, fun h => absurd h (by decide)⟩
  have htests : ∀ test ∈ [testErrorCause],
      test.fn.Formats renderPlain ∧ test.fn.CodesFit := by
    intro test hmem
    obtain rfl := List.mem_singleton.mp hmem
    have hcode : int32.Fits 22 := by decide
    exact ⟨⟨⟨⟨hstring _, by decide⟩, trivial⟩, hstring _, by decide⟩, ⟨hcode, trivial⟩, hcode⟩
  have hbound : ∀ q, (0 : ℕ → ℕ) q + Mem.start.links q +
      ([testErrorCause].map fun test => test.fn.size).sum < 2 ^ 32 := by
    intro q
    have hrefs : (0 : ℕ → ℕ) q + Mem.start.links q +
      ([testErrorCause].map fun test => test.fn.size).sum = 2 := rfl
    rw [hrefs]
    norm_num
  obtain ⟨lines, verdict, m, -, hunique, hrun, hleft⟩ :=
    error_tests (.ofShort renderPlain) renderPlain printf_renderPlain
      (printsOrFails_ofShort renderPlain) oneText (.lit "test_error.c") [testErrorCause] htests
      (.start Mem.start : TestingState Unit Mem) 0 0 owned_start hbound
  have hmeans : gnErr.Means renderPlain ((Libc.ofShort renderPlain).Fails renderPlain) [] _ :=
    .errorfWithCause (.thrown (.errorf (.entry (by decide))) (List.cons_ne_nil _ _))
      (.entry (by decide))
  obtain ⟨rfl, rfl⟩ := hunique (not_fails_ofShort renderPlain) _ _
    (.passes hmeans (by decide +kernel) .done)
  exact ⟨m, hrun, (hleft rfl).1⟩

end U7Init
