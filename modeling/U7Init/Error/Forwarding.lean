import U7Init.Error.Meaning

/-!
# Forwarding and Handling Errors

The functions that use the library return a `u7_error` and pass on the errors of the
functions they call. This module models them as the patterns of the library's
documentation allow: `return u7_ok()`, `return u7_errorf(..)`, `U7_RETURN_IF_ERROR(call)`,
`return u7_errorf_with_cause(.., call, ..)`, and printing an error before it is released.

What such a function does with handles, counters and `return` statements is what a language
with exceptions would do: an error ends every function that does not handle it, and
nothing else is left of it.

## Main results

* `ErrorFn.Means`: the exceptions that a function throws and what it prints.
* `errors_are_exceptions`: running a function on the heap gives the exception it throws,
  and every reference is accounted for again.
-/

namespace U7Init

open Outcome

/-! ### Functions that return errors -/

/-- The body of a function that returns a `u7_error`. The category is that of `errno`. -/
inductive ErrorFn
  /-- `return u7_ok();` -/
  | ok
  /-- `return u7_errorf(category, error_code, format, ...);` -/
  | errorf (errorCode : ℤ) (format : CStr) (arg : List VaArg)
  /-- `return u7_errorf_with_cause(category, error_code, call(), format, ...);` -/
  | errorfWithCause (errorCode : ℤ) (call : ErrorFn) (format : CStr) (arg : List VaArg)
  /-- `U7_RETURN_IF_ERROR(call()); rest` -/
  | returnIfError (call rest : ErrorFn)
  /-- `if ((error = call()).error_code) { fprintf(..); u7_error_release(error); } rest` -/
  | handle (call rest : ErrorFn)

theorem nul_free_percent : 0 ∉ "%".toList.map fun c => UInt8.ofNat c.toNat := by
  decide

theorem nul_free_newline : 0 ∉ "\n".toList.map fun c => UInt8.ofNat c.toNat := by
  decide

/-- `"%" U7_ERROR_FMT "\n"`. -/
def u7ErrorLineFmt : CStr :=
  ((CStr.lit "%" nul_free_percent).append u7ErrorFmt).append (.lit "\n" nul_free_newline)

/-- What `fprintf(stderr, "%" U7_ERROR_FMT "\n", U7_ERROR_FMT_PARAMS(error))` prints. -/
def printErrorLine (error : U7Error) (m : Mem) : Except Fault (List UInt8) := do
  let arg ← u7ErrorFmtParams error m
  printf u7ErrorLineFmt arg

namespace ErrorFn

/-- A call: the returned error, and the lines that were printed. -/
def exec (ℓ : Libc) : ErrorFn → Mem → Except Fault ((U7Error × List (List UInt8)) × Mem)
  | .ok, m => .ok ((u7Ok, []), m)
  | .errorf errorCode format arg, m => do
      let (error, m) ← u7Verrorf ℓ u7ErrnoCategory errorCode format arg m
      .ok ((error, []), m)
  | .errorfWithCause errorCode call format arg, m => do
      let ((cause, lines), m) ← call.exec ℓ m
      let (error, m) ← u7VerrorfWithCause ℓ u7ErrnoCategory errorCode cause format arg m
      .ok ((error, lines), m)
  | .returnIfError call rest, m => do
      let ((tmp, lines), m) ← call.exec ℓ m
      if tmp.errorCode ≠ 0 then .ok ((tmp, lines), m)
      else do
        let ((error, lines'), m) ← rest.exec ℓ m
        .ok ((error, lines ++ lines'), m)
  | .handle call rest, m => do
      let ((error, lines), m) ← call.exec ℓ m
      if error.errorCode ≠ 0 then do
        let line ← printErrorLine error m
        let m ← u7ErrorRelease error m
        let ((error, lines'), m) ← rest.exec ℓ m
        .ok ((error, lines ++ line :: lines'), m)
      else do
        let ((error, lines'), m) ← rest.exec ℓ m
        .ok ((error, lines ++ lines'), m)

/-- The number of calls that create an error. -/
def size : ErrorFn → ℕ
  | .ok => 0
  | .errorf _ _ _ => 1
  | .errorfWithCause _ call _ _ => call.size + 1
  | .returnIfError call rest | .handle call rest => call.size + rest.size

/-- Every format has its arguments, and every message with its terminator at most `INT_MAX`
bytes. -/
def Formats (render : CStr → List VaArg → List UInt8) : ErrorFn → Prop
  | .ok => True
  | .errorf _ format arg => Matches format arg ∧ (render format arg).length + 1 ≤ intMax
  | .errorfWithCause _ call format arg =>
      call.Formats render ∧ Matches format arg ∧ (render format arg).length + 1 ≤ intMax
  | .returnIfError call rest | .handle call rest => call.Formats render ∧ rest.Formats render

end ErrorFn

/-! ### Exceptions -/

/-- The code of an error. -/
def ErrorValue.errorCode : ErrorValue → ℤ
  | [] => 0
  | entry :: _ => entry.errorCode

/-- The line that is printed for an error. -/
def ErrorValue.line (v : ErrorValue) : List UInt8 :=
  errorText v.categoryName v.errorCode (padded v.message.length (cString v.message)) ++
    (CStr.lit "\n" nul_free_newline).bytes

/-- The function prints the lines and throws the error, or returns if that is `[]`. An
error that was thrown skips what follows, up to the place where it is handled. -/
inductive ErrorFn.Means (render : CStr → List VaArg → List UInt8) (Fails : Prop) :
    ErrorFn → List (List UInt8) → ErrorValue → Prop
  | ok : Means render Fails .ok [] []
  | errorf {errorCode : ℤ} {format : CStr} {arg : List VaArg} {v : ErrorValue} :
      Created Fails errorCode [] (render format arg) v →
      Means render Fails (.errorf errorCode format arg) [] v
  | errorfWithCause {errorCode : ℤ} {call : ErrorFn} {format : CStr} {arg : List VaArg}
      {lines : List (List UInt8)} {cause v : ErrorValue} :
      Means render Fails call lines cause → Created Fails errorCode cause (render format arg) v →
      Means render Fails (.errorfWithCause errorCode call format arg) lines v
  | thrown {call rest : ErrorFn} {lines : List (List UInt8)} {v : ErrorValue} :
      Means render Fails call lines v → v ≠ [] →
      Means render Fails (.returnIfError call rest) lines v
  | returned {call rest : ErrorFn} {lines lines' : List (List UInt8)} {v : ErrorValue} :
      Means render Fails call lines [] → Means render Fails rest lines' v →
      Means render Fails (.returnIfError call rest) (lines ++ lines') v
  | handled {call rest : ErrorFn} {lines lines' : List (List UInt8)} {error v : ErrorValue} :
      Means render Fails call lines error → error ≠ [] → Means render Fails rest lines' v →
      Means render Fails (.handle call rest) (lines ++ error.line :: lines') v
  | unhandled {call rest : ErrorFn} {lines lines' : List (List UInt8)} {v : ErrorValue} :
      Means render Fails call lines [] → Means render Fails rest lines' v →
      Means render Fails (.handle call rest) (lines ++ lines') v

section Unique

variable {render : CStr → List VaArg → List UInt8} {Fails : Prop}

/-- Unless something fails a function has one meaning. -/
theorem ErrorFn.Means.unique (hfails : ¬ Fails) {f : ErrorFn} {lines lines' : List (List UInt8)}
    {v v' : ErrorValue} (h : f.Means render Fails lines v)
    (h' : f.Means render Fails lines' v') : lines = lines' ∧ v = v' := by
  induction h generalizing lines' v' with
  | ok =>
      cases h'
      exact ⟨rfl, rfl⟩
  | errorf hcreated =>
      cases h' with
      | errorf hcreated' => exact ⟨rfl, hcreated.unique hfails hcreated'⟩
  | errorfWithCause _ hcreated ih =>
      cases h' with
      | errorfWithCause hcall hcreated' =>
          obtain ⟨rfl, rfl⟩ := ih hcall
          exact ⟨rfl, hcreated.unique hfails hcreated'⟩
  | thrown _ hne ih =>
      cases h' with
      | thrown hcall _ => exact ih hcall
      | returned hcall _ => exact absurd (ih hcall).2 hne
  | returned _ _ ihcall ihrest =>
      cases h' with
      | thrown hcall hne => exact absurd (ihcall hcall).2.symm hne
      | returned hcall hrest =>
          obtain ⟨rfl, -⟩ := ihcall hcall
          obtain ⟨rfl, rfl⟩ := ihrest hrest
          exact ⟨rfl, rfl⟩
  | handled _ hne _ ihcall ihrest =>
      cases h' with
      | handled hcall _ hrest =>
          obtain ⟨rfl, rfl⟩ := ihcall hcall
          obtain ⟨rfl, rfl⟩ := ihrest hrest
          exact ⟨rfl, rfl⟩
      | unhandled hcall _ => exact absurd (ihcall hcall).2 hne
  | unhandled _ _ ihcall ihrest =>
      cases h' with
      | handled hcall hne _ => exact absurd (ihcall hcall).2.symm hne
      | unhandled hcall hrest =>
          obtain ⟨rfl, -⟩ := ihcall hcall
          obtain ⟨rfl, rfl⟩ := ihrest hrest
          exact ⟨rfl, rfl⟩

end Unique

/-! ### References -/

section References

variable {ℓ : Libc} {render : CStr → List VaArg → List UInt8} {m m' : Mem} {cause e : U7Error}
  {format : CStr} {arg : List VaArg} {errorCode : ℤ} {v : ErrorValue} {out loose : ℕ → ℕ}

/-- What is left has no more references. -/
theorem Shrinks.links_le (h : Shrinks m m') (q : ℕ) : m'.links q ≤ m.links q := by
  refine BlockHeap.sum_le_sum fun p => ?_
  cases hx' : m'.payloads.cell p with
  | none => exact Nat.zero_le _
  | some x' =>
      obtain ⟨x, count, hx, rfl⟩ := h.payload hx'
      rw [hx]
      exact le_rfl

/-- The cause of a new payload has one more reference. -/
theorem NewPayload.links_eq {p : ℕ} (h : NewPayload m m' cause p) (q : ℕ) :
    m'.links q = m.links q + refsTo cause.payload q := by
  obtain ⟨b, n, bytes, -, -, hx, -⟩ := h.payload
  exact BlockHeap.sum_eq_add_of_fresh h.fresh hx h.others

/-- The fallback payload refers to nothing. -/
theorem FallsBack.links_le (h : FallsBack m m') (q : ℕ) : m'.links q ≤ m.links q := by
  refine BlockHeap.sum_le_sum fun p => ?_
  by_cases hp : p = fallback
  · obtain ⟨x, hx, hx'⟩ := h.counter
    rw [hp, hx, hx']
    exact le_rfl
  · rw [h.others p hp]

/-- A message that fits does not overflow. -/
theorem not_overflows (hrender : Printf render) (hprints : ℓ.PrintsOrFails render)
    (hmatch : Matches format arg) (hlen : (render format arg).length + 1 ≤ intMax) (m : Mem) :
    ¬ Overflows ℓ format arg m := by
  rintro ⟨-, hoverflows⟩
  split_ifs at hoverflows with hempty hstring hprecision
  · obtain ⟨object, rest, rfl, hlong⟩ := hoverflows
    obtain ⟨object', rest', harg, hnul⟩ := hmatch.string hstring
    obtain ⟨rfl, rfl⟩ : object = object' ∧ rest = rest' := by simpa using harg
    rw [hstring, hrender.string object rest hnul] at hlen
    omega
  · rcases hprints m.prints 128 format arg (by norm_num) with hneg | ⟨-, hprint⟩
    · have hpos : 0 ≤ intMax := by norm_num [intMax]
      omega
    · rw [hprint] at hoverflows
      dsimp only at hoverflows
      omega

/-- **Creating an error** with a message that fits succeeds, and takes the reference to the
cause over or gives it back; at most one more reference to any payload there is. -/
theorem Owned.create (hrender : Printf render) (hprints : ℓ.PrintsOrFails render)
    (hmatch : Matches format arg) (hlen : (render format arg).length + 1 ≤ intMax)
    (howned : Owned m (out + refsTo cause.payload) loose)
    (hbound : ∀ q, out q + refsTo cause.payload q + m.links q < 2 ^ 32)
    (hcause : Denotes m cause v) (errorCode : ℤ) :
    ∃ e m' value, u7VerrorfWithCause ℓ u7ErrnoCategory errorCode cause format arg m =
        .ok (e, m') ∧
      Owned m' (out + refsTo e.payload) loose ∧ Preserves m m' ∧
      (∀ q, m'.links q + refsTo e.payload q ≤ m.links q + refsTo cause.payload q + 1) ∧
      Created (ℓ.Fails render) errorCode v (render format arg) value ∧ Denotes m' e value := by
  obtain ⟨released, hrelease, hreleased, hshrinks⟩ := (howned.release hbound).exists_ok
  have hlength := not_overflows hrender hprints hmatch hlen m
  have hresult : ∃ e m', u7VerrorfWithCause ℓ u7ErrnoCategory errorCode cause format arg m =
        .ok (e, m') ∧
      ∀ q, m'.links q + refsTo e.payload q ≤ m.links q + refsTo cause.payload q + 1 := by
    have hone : ∀ (o : Option ℕ) q, refsTo o q ≤ 1 := fun o q => by
      rw [refsTo]
      split_ifs <;> omega
    rcases verrorfWithCause_cases hmatch hlength hrelease hreleased.cell_fallback errorCode with
      ⟨-, hcreate⟩ | ⟨-, p, m', hcreate, hcases⟩
    · refine ⟨_, _, hcreate, fun q => ?_⟩
      have hle := hshrinks.links_le q
      have hok := hone u7Ok.payload q
      omega
    · refine ⟨_, m', hcreate, fun q => ?_⟩
      change m'.links q + refsTo (some p) q ≤ _
      have hp := hone (some p) q
      rcases hcases with hnew | ⟨rfl, hfalls⟩
      · have hlinks := hnew.links_eq q
        omega
      · have hle := hshrinks.links_le q
        have hle' := hfalls.links_le q
        omega
  obtain ⟨e, m', hcreate, hlinks⟩ := hresult
  obtain ⟨-, -, howned', -⟩ := (howned.verrorfWithCause ℓ u7ErrnoCategory errorCode format arg
    hcause.wellFormed hbound).of_eq_ok hcreate
  obtain ⟨value, hcreated, hdenotes⟩ := verrorfWithCause_denotes hrender hprints hmatch (by omega)
    howned.hasFallback hcause hcreate howned'
  exact ⟨e, m', value, hcreate, howned',
    (verrorfWithCause_preserves ℓ errorCode cause format arg m).of_eq_ok hcreate, hlinks,
    hcreated, hdenotes⟩

end References

/-! ### What is printed -/

section Printing

variable {m : Mem} {e : U7Error} {v : ErrorValue}

/-- `printf` with the format of a line. -/
theorem printf_u7ErrorLineFmt (category : CStr) (errorCode length : ℤ) {message : List UInt8}
    (hnul : 0 ∈ message) :
    printf u7ErrorLineFmt
        [.str category.object, .int errorCode, .int length, .str message] =
      .ok (errorText category errorCode (padded length (cString message)) ++
        (CStr.lit "\n" nul_free_newline).bytes) := by
  have hformat : u7ErrorLineFmt.bytes =
      [37, 115, 40, 37, 100, 41, 58, 32, 37, 42, 115, 10] := rfl
  have hopen : (CStr.lit "(").bytes = [40] := rfl
  have hclose : (CStr.lit "): ").bytes = [41, 58, 32] := rfl
  have hnewline : (CStr.lit "\n" nul_free_newline).bytes = [10] := rfl
  rw [printf, hformat, errorText, hopen, hclose, hnewline]
  have hpercent : '%'.toUInt8 = 37 := rfl
  have hstar : '*'.toUInt8 = 42 := rfl
  have hs : 's'.toUInt8 = 115 := rfl
  have hd : 'd'.toUInt8 = 100 := rfl
  simp [printfFrom, conversion, hpercent, hstar, hs, hd, vaArgStr, vaArgInt, padded_zero,
    cString_object, CStr.nul_mem_object, hnul]

theorem Denotes.errorCode (h : Denotes m e v) : e.errorCode = v.errorCode := by
  cases h <;> rfl

/-- The line that is printed for an error is the line of what it says. -/
theorem Denotes.printErrorLine (h : Denotes m e v) : printErrorLine e m = .ok v.line := by
  obtain ⟨hname, ⟨junk, hmessage⟩, hlength, -⟩ := h.readsAs
  rw [U7Init.printErrorLine, u7ErrorFmtParams, hname, ok_bind, hlength, ok_bind, hmessage,
    ok_bind, ok_bind, printf_u7ErrorLineFmt _ _ _ (by simp), cString_terminated, h.errorCode]
  rfl

end Printing

/-! ### Functions on the heap -/

section Exec

variable {ℓ : Libc} {render : CStr → List VaArg → List UInt8} {f : ErrorFn} {m m' m'' : Mem}
  {e : U7Error} {v : ErrorValue} {out loose : ℕ → ℕ} {lines : List (List UInt8)} {n : ℕ}

/-- What someone else owns says what it said. -/
def Keeps (m m' : Mem) (out : ℕ → ℕ) : Prop :=
  ∀ e v, (∀ p, e.payload = some p → 0 < out p) → Denotes m e v → Denotes m' e v

theorem Keeps.trans (h : Keeps m m' out) (h' : Keeps m' m'' out) : Keeps m m'' out :=
  fun e v hheld hv => h' e v hheld (h e v hheld hv)

/-- More owners do not matter. -/
theorem Preserves.keeps {more : ℕ → ℕ} (h : Preserves m m') (howned : Owned m' (out + more) loose) :
    Keeps m m' out := by
  intro e v hheld hv
  refine hv.mono h howned fun p hp => ?_
  have hpos := hheld p hp
  rw [Pi.add_apply]
  omega

/-- What a call leaves behind: the returned error says `v`, its reference is the only one
that is left of it, at most `n` references to any payload there was are new, and the errors of
others are as they were. -/
structure Returns (m m' : Mem) (out loose : ℕ → ℕ) (n : ℕ) (e : U7Error) (v : ErrorValue) :
    Prop where
  owned : Owned m' (out + refsTo e.payload) loose
  links : ∀ q, m'.links q + refsTo e.payload q ≤ m.links q + n
  keeps : Keeps m m' out
  denotes : Denotes m' e v

/-- A call that returns `u7_ok()` gives no reference. -/
theorem Returns.ok (h : Returns m m' out loose n e []) :
    Owned m' out loose ∧ ∀ q, m'.links q ≤ m.links q + n := by
  obtain rfl := h.denotes.eq_u7Ok
  have hrefs : refsTo u7Ok.payload = 0 := rfl
  have howned := h.owned
  have hlinks := h.links
  simp only [hrefs, add_zero, Pi.zero_apply] at howned hlinks
  exact ⟨howned, hlinks⟩

/-- A call that goes on with another one. -/
theorem Returns.trans {k : ℕ} {e' : U7Error} {v' : ErrorValue} (hkeeps : Keeps m m' out)
    (hlinks : ∀ q, m'.links q ≤ m.links q + n) (h : Returns m' m'' out loose k e' v') :
    Returns m m'' out loose (n + k) e' v' where
  owned := h.owned
  links := by
    intro q
    have hq := h.links q
    have hq' := hlinks q
    omega
  keeps := hkeeps.trans h.keeps
  denotes := h.denotes

/-- Releasing the returned error leaves nothing of it. -/
theorem Returns.release (h : Returns m m' out loose n e v)
    (hbound : ∀ q, out q + m.links q + n < 2 ^ 32) :
    ∃ m'', u7ErrorRelease e m' = .ok m'' ∧ Owned m'' out loose ∧ Keeps m m'' out ∧
      ∀ q, m''.links q ≤ m.links q + n := by
  have hbound' : ∀ q, out q + refsTo e.payload q + m'.links q < 2 ^ 32 := fun q => by
    have hq := h.links q
    have hq' := hbound q
    omega
  obtain ⟨m'', hrelease, howned, hshrinks⟩ := (h.owned.release hbound').exists_ok
  refine ⟨m'', hrelease, howned, h.keeps.trans ?_, fun q => ?_⟩
  · have howned₀ : Owned m'' (out + 0) loose := by rwa [add_zero]
    exact hshrinks.preserves.keeps howned₀
  · have hq := h.links q
    have hq' := hshrinks.links_le q
    omega

/-- The function returns, and throws what it means. -/
def ErrorFn.Sound (ℓ : Libc) (render : CStr → List VaArg → List UInt8) (out loose : ℕ → ℕ)
    (f : ErrorFn) : Prop :=
  ∀ m, Owned m out loose → (∀ q, out q + m.links q + f.size < 2 ^ 32) →
    ∃ e lines m' v, f.exec ℓ m = .ok ((e, lines), m') ∧
      f.Means render (ℓ.Fails render) lines v ∧ Returns m m' out loose f.size e v

section Patterns

variable (hrender : Printf render) (hprints : ℓ.PrintsOrFails render) {call rest : ErrorFn}
  {format : CStr} {arg : List VaArg} (errorCode : ℤ)

include hrender hprints

theorem sound_errorf (hmatch : Matches format arg)
    (hlen : (render format arg).length + 1 ≤ intMax) :
    (ErrorFn.errorf errorCode format arg).Sound ℓ render out loose := by
  intro m howned hbound
  have hheld : Owned m (out + refsTo u7Ok.payload) loose := howned
  obtain ⟨e, m', v, hcreate, howned', hpreserves, hlinks, hcreated, hdenotes⟩ :=
    hheld.create hrender hprints hmatch hlen
      (fun q => (Nat.le_add_right _ _).trans_lt (hbound q)) .ok errorCode
  refine ⟨e, [], m', v, ?_, .errorf hcreated, howned', hlinks, hpreserves.keeps howned', hdenotes⟩
  rw [ErrorFn.exec, u7Verrorf, hcreate, ok_bind]

/-- The new error takes the reference over that the call gave. -/
theorem sound_errorfWithCause (hcall : call.Sound ℓ render out loose)
    (hmatch : Matches format arg) (hlen : (render format arg).length + 1 ≤ intMax) :
    (ErrorFn.errorfWithCause errorCode call format arg).Sound ℓ render out loose := by
  intro m howned hbound
  simp only [ErrorFn.size] at hbound ⊢
  obtain ⟨cause, lines, m₁, v, hexec, hmeans, hreturns⟩ := hcall m howned fun q => by
    have hq := hbound q
    omega
  have hbound₁ : ∀ q, out q + refsTo cause.payload q + m₁.links q < 2 ^ 32 := fun q => by
    have hq := hbound q
    have hq' := hreturns.links q
    omega
  obtain ⟨e, m', v', hcreate, howned', hpreserves, hlinks, hcreated, hdenotes⟩ :=
    hreturns.owned.create hrender hprints hmatch hlen hbound₁ hreturns.denotes errorCode
  refine ⟨e, lines, m', v', ?_, .errorfWithCause hmeans hcreated, howned', fun q => ?_,
    hreturns.keeps.trans (hpreserves.keeps howned'), hdenotes⟩
  · simp only [ErrorFn.exec, hexec, ok_bind, hcreate]
  · have hq := hreturns.links q
    have hq' := hlinks q
    omega

end Patterns

section Calls

variable {call rest : ErrorFn} (hcall : call.Sound ℓ render out loose)
  (hrest : rest.Sound ℓ render out loose)

include hcall hrest

/-- The reference that the call gave is forwarded, or there is none. -/
theorem sound_returnIfError :
    (ErrorFn.returnIfError call rest).Sound ℓ render out loose := by
  intro m howned hbound
  simp only [ErrorFn.size] at hbound ⊢
  obtain ⟨e, lines, m₁, v, hexec, hmeans, hreturns⟩ := hcall m howned fun q => by
    have hq := hbound q
    omega
  by_cases hv : v = []
  · subst hv
    obtain ⟨howned₁, hlinks₁⟩ := hreturns.ok
    obtain ⟨e', lines', m', v', hexec', hmeans', hreturns'⟩ := hrest m₁ howned₁ fun q => by
      have hq := hbound q
      have hq' := hlinks₁ q
      omega
    refine ⟨e', lines ++ lines', m', v', ?_, .returned hmeans hmeans',
      .trans hreturns.keeps hlinks₁ hreturns'⟩
    have hcode := hreturns.denotes.eq_nil_iff.mp rfl
    simp only [ErrorFn.exec, hexec, ok_bind, hcode, ne_eq, not_true_eq_false, if_false, hexec']
  · have hcode := mt hreturns.denotes.eq_nil_iff.mpr hv
    refine ⟨e, lines, m₁, v, ?_, .thrown hmeans hv, hreturns.owned, fun q => ?_,
      hreturns.keeps, hreturns.denotes⟩
    · simp only [ErrorFn.exec, hexec, ok_bind, hcode, ne_eq, not_false_eq_true, if_true]
    · exact (hreturns.links q).trans (Nat.add_le_add_left (Nat.le_add_right _ _) _)

/-- The reference that the call gave is given back, or there is none. -/
theorem sound_handle : (ErrorFn.handle call rest).Sound ℓ render out loose := by
  intro m howned hbound
  simp only [ErrorFn.size] at hbound ⊢
  have hbound₁ : ∀ q, out q + m.links q + call.size < 2 ^ 32 := fun q => by
    have hq := hbound q
    omega
  obtain ⟨e, lines, m₁, v, hexec, hmeans, hreturns⟩ := hcall m howned hbound₁
  have hnext : ∀ {m₂ : Mem}, Owned m₂ out loose → (∀ q, m₂.links q ≤ m.links q + call.size) →
      ∃ e lines m' v, rest.exec ℓ m₂ = .ok ((e, lines), m') ∧
        rest.Means render (ℓ.Fails render) lines v ∧ Returns m₂ m' out loose rest.size e v :=
    fun howned₂ hlinks₂ => hrest _ howned₂ fun q => by
      have hq := hbound q
      have hq' := hlinks₂ q
      omega
  by_cases hv : v = []
  · subst hv
    obtain ⟨howned₁, hlinks₁⟩ := hreturns.ok
    obtain ⟨e', lines', m', v', hexec', hmeans', hreturns'⟩ := hnext howned₁ hlinks₁
    refine ⟨e', lines ++ lines', m', v', ?_, .unhandled hmeans hmeans',
      .trans hreturns.keeps hlinks₁ hreturns'⟩
    have hcode := hreturns.denotes.eq_nil_iff.mp rfl
    simp only [ErrorFn.exec, hexec, ok_bind, hcode, ne_eq, not_true_eq_false, if_false, hexec']
  · have hcode := mt hreturns.denotes.eq_nil_iff.mpr hv
    obtain ⟨m₂, hrelease, howned₂, hkeeps₂, hlinks₂⟩ := hreturns.release hbound₁
    obtain ⟨e', lines', m', v', hexec', hmeans', hreturns'⟩ := hnext howned₂ hlinks₂
    refine ⟨e', lines ++ v.line :: lines', m', v', ?_, .handled hmeans hv hmeans',
      .trans hkeeps₂ hlinks₂ hreturns'⟩
    simp only [ErrorFn.exec, hexec, ok_bind, hcode, ne_eq, not_false_eq_true, if_true,
      hreturns.denotes.printErrorLine, hrelease, hexec']

end Calls

/-- **A function on the heap** throws what it means. The induction is along the body: a call
returns with the reference that it gives, and whoever called it forwards that, hands it to a
new error or gives it back. -/
theorem sound_of_formats (hrender : Printf render) (hprints : ℓ.PrintsOrFails render)
    (hformats : f.Formats render) : f.Sound ℓ render out loose := by
  induction f with
  | ok =>
      intro m howned _
      refine ⟨u7Ok, [], m, [], rfl, .ok, howned, fun q => ?_, fun _ _ _ => id, .ok⟩
      exact Nat.add_le_add_left (Nat.le_refl 0) _
  | errorf errorCode format arg =>
      exact sound_errorf hrender hprints errorCode hformats.1 hformats.2
  | errorfWithCause errorCode call format arg ih =>
      obtain ⟨hcall, hmatch, hlen⟩ := hformats
      exact sound_errorfWithCause hrender hprints errorCode (ih hcall) hmatch hlen
  | returnIfError call rest ihcall ihrest =>
      exact sound_returnIfError (ihcall hformats.1) (ihrest hformats.2)
  | handle call rest ihcall ihrest =>
      exact sound_handle (ihcall hformats.1) (ihrest hformats.2)

end Exec

/-- **Errors are exceptions.** A function of the library's patterns returns, whatever the C
library does, as long as its messages and the number of references fit: it prints what it
means and returns the error that it throws, and unless some call of the C library fails that
is its only meaning. One reference to the error is all that is left of it: every payload and
every buffer is accounted for again, and what others own says what it said. -/
theorem errors_are_exceptions (ℓ : Libc) (render : CStr → List VaArg → List UInt8)
    (hrender : Printf render) (hprints : ℓ.PrintsOrFails render) (f : ErrorFn)
    (hformats : f.Formats render) (m : Mem) (out loose : ℕ → ℕ) (howned : Owned m out loose)
    (hbound : ∀ q, out q + m.links q + f.size < 2 ^ 32) :
    ∃ e lines m' v, f.exec ℓ m = .ok ((e, lines), m') ∧
      f.Means render (ℓ.Fails render) lines v ∧ Denotes m' e v ∧
      (¬ ℓ.Fails render → ∀ lines' v', f.Means render (ℓ.Fails render) lines' v' →
        lines' = lines ∧ v' = v) ∧
      Owned m' (out + refsTo e.payload) loose ∧ Keeps m m' out := by
  obtain ⟨e, lines, m', v, hexec, hmeans, hreturns⟩ :=
    sound_of_formats hrender hprints hformats m howned hbound
  exact ⟨e, lines, m', v, hexec, hmeans, hreturns.denotes,
    fun hfails _ _ h => h.unique hfails hmeans, hreturns.owned, hreturns.keeps⟩

theorem nul_free_hello : 0 ∉ "Hello, World!".toList.map fun c => UInt8.ofNat c.toNat := by
  decide

theorem nul_free_foo_bar : 0 ∉ "foo.bar".toList.map fun c => UInt8.ofNat c.toNat := by
  decide

/-- `fn_err`, which the tests call. -/
def fnErr : ErrorFn :=
  .returnIfError (.errorf 22 (.lit "%s" nul_free_string)
    [.str (CStr.lit "Hello, World!" nul_free_hello).object]) .ok

/-- `gn_err`, which the tests call. -/
def gnErr : ErrorFn :=
  .errorfWithCause 22 fnErr (.lit "%s" nul_free_string)
    [.str (CStr.lit "foo.bar" nul_free_foo_bar).object]

theorem not_fails_ofShort (render : CStr → List VaArg → List UInt8) :
    ¬ (Libc.ofShort render).Fails render := by
  rintro (⟨n, hn⟩ | ⟨call, size, format, arg, hsize, hlen, hneg⟩)
  · cases hn
  · simp only [Libc.ofShort, if_pos hlen, Libc.ofRender] at hneg
    omega

/-- The tests' error says its message and that of its cause. -/
theorem errors_are_exceptions_gn_err :
    ∃ e lines m', gnErr.exec (.ofShort renderPlain) Mem.start = .ok ((e, lines), m') ∧
      lines = [] ∧
      Denotes m' e [⟨22, (CStr.lit "foo.bar" nul_free_foo_bar).bytes⟩,
        ⟨22, (CStr.lit "Hello, World!" nul_free_hello).bytes⟩] ∧
      Owned m' (refsTo e.payload) 0 := by
  have hstring : ∀ s : CStr, Matches (.lit "%s" nul_free_string) [.str s.object] := fun s =>
    ⟨fun _ => ⟨_, _, rfl, s.nul_mem_object⟩, fun h => absurd h (by decide)⟩
  have hformats : gnErr.Formats renderPlain :=
    ⟨⟨⟨hstring _, by decide⟩, trivial⟩, hstring _, by decide⟩
  have hbound : ∀ q, (0 : ℕ → ℕ) q + Mem.start.links q + gnErr.size < 2 ^ 32 := by
    intro q
    have hrefs : (0 : ℕ → ℕ) q + Mem.start.links q + gnErr.size = 2 := rfl
    rw [hrefs]
    norm_num
  obtain ⟨e, lines, m', v, hexec, -, hdenotes, hunique, howned, -⟩ :=
    errors_are_exceptions (.ofShort renderPlain) renderPlain printf_renderPlain
      (printsOrFails_ofShort renderPlain) gnErr hformats Mem.start 0 0 owned_start hbound
  have hmeans : gnErr.Means renderPlain ((Libc.ofShort renderPlain).Fails renderPlain) [] _ :=
    .errorfWithCause (.thrown (.errorf (.entry (by decide))) (List.cons_ne_nil _ _))
      (.entry (by decide))
  obtain ⟨rfl, rfl⟩ := hunique (not_fails_ofShort renderPlain) _ _ hmeans
  refine ⟨e, _, m', hexec, rfl, hdenotes, ?_⟩
  rwa [zero_add] at howned

end U7Init
