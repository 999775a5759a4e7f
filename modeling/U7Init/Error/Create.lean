import U7Init.Error.Heap
import U7Init.Lib.MachineInt

/-!
# Creating Errors

This module models `u7_verrorf_with_cause` and its wrappers, and the factory function of
the errno category. The C library is a parameter: `Libc` says which calls of `malloc` and
`realloc` succeed and what each call of `vsnprintf` writes and returns.

## Control flow

The control flow of `u7_verrorf_with_cause` is kept: every path ends at the label `ret`
or at the label `fail` (`Label`), and what happens behind the labels is a function of its own.
There are five paths: no code at all, the three formats that are recognized by comparing them
with a literal, and the general one, which prints into a buffer of 128 bytes and, if the text
did not fit, prints again into a larger one.

A format is a C string in an array of its own, and an argument of type `const char*` is the
array it points into, so that a read past the end is a `Fault`. Buffers hold bytes that may not
have been written yet, and reading such a byte is a fault too. Lengths are of type `int`, as in
the code, and an addition that overflows is the fault `signedOverflow`: which formats and
arguments lead to it is the subject of `U7Init.Error.Limits`, and all other faults are shown
not to occur.

## Main results

* `formatMessage_safe`: formatting leaves a new buffer behind, or nothing at all, and its
  only fault on matching arguments is an overflow of `message_length + 1`.
* `Owned.verrorfWithCause`: creating an error consumes the cause and gives one new
  reference.
-/

namespace U7Init

open Outcome MachineInt

/-! ### The C library -/

/-- A variadic argument, as the promoted type it is passed with. -/
inductive VaArg
  | int (n : ℤ)
  /-- A `const char*`: the array from the pointer on. -/
  | str (object : List UInt8)
  /-- Any other type. -/
  | other (bits : BitVec 64)
  deriving DecidableEq, Repr

/-- What the C library does in a run: whether the `n`-th call of `malloc` or `realloc`
succeeds, and which value the `n`-th call of `vsnprintf` returns and which bytes, at most
`size` of them, it writes. Calls are numbered because the library may fail at any of them for
reasons that a program does not see; that `vsnprintf` prints what its arguments say is assumed
where it is needed, and only then. -/
structure Libc where
  allocates : ℕ → Bool
  vsnprintf : ℕ → ℕ → CStr → List VaArg → ℤ × List UInt8
  vsnprintf_le : ∀ n size format args, (vsnprintf n size format args).2.length ≤ size

/-- A C library that never runs out of memory and prints `render format arg`. -/
def Libc.ofRender (render : CStr → List VaArg → List UInt8) : Libc where
  allocates := fun _ => true
  vsnprintf := fun _ size format arg =>
    ((render format arg).length, ((render format arg).take (size - 1) ++ [0]).take size)
  vsnprintf_le := fun _ _ _ _ => List.length_take_le _ _

/-- `INT_MAX`, for an `int` of 32 bits. -/
def intMax : ℤ := 2 ^ 31 - 1

/-- `a + b` in `int`, where overflow is undefined behaviour. -/
def intAdd (a b : ℤ) : Except Fault ℤ :=
  if IntType.int32.Fits (a + b) then .ok (a + b) else .error .signedOverflow

/-- `va_arg(arg, int)`: asking for an argument of another type is undefined behaviour. -/
def vaArgInt : List VaArg → Except Fault (ℤ × List VaArg)
  | .int n :: arg => .ok (n, arg)
  | _ => .error .badVaArg

/-- `va_arg(arg, const char*)`. -/
def vaArgStr : List VaArg → Except Fault (List UInt8 × List VaArg)
  | .str object :: arg => .ok (object, arg)
  | _ => .error .badVaArg

/-- `malloc` of a buffer of `size` bytes. -/
def Mem.malloc (ℓ : Libc) (size : ℕ) (m : Mem) : CharPtr × Mem :=
  if ℓ.allocates m.mallocs then
    (.block m.buffers.next,
      { m with
        buffers := m.buffers.alloc (List.replicate size none)
        mallocs := m.mallocs + 1 })
  else (.null, { m with mallocs := m.mallocs + 1 })

/-- The contents of a buffer of `size` bytes that begins with the bytes of an old one. -/
def resize (size : ℕ) (old : List (Option UInt8)) : List (Option UInt8) :=
  old.take size ++ List.replicate (size - old.length) none

/-- `realloc`: a new buffer that begins with the bytes of the old one, which is gone, or
`NULL` and the old one as it was. -/
def Mem.realloc (ℓ : Libc) (message : CharPtr) (size : ℕ) (m : Mem) :
    Except Fault (CharPtr × Mem) :=
  match message with
  | .null => .ok (m.malloc ℓ size)
  | .fallbackMessage => .error .badFree
  | .block b =>
      match m.buffers.cell b with
      | none => .error .badFree
      | some bytes =>
          if ℓ.allocates m.mallocs then
            .ok (.block m.buffers.next,
              { m with
                buffers := (m.buffers.free b).alloc (resize size bytes)
                mallocs := m.mallocs + 1 })
          else .ok (.null, { m with mallocs := m.mallocs + 1 })

/-- The contents of a buffer after a write of `bytes` at `offset`. -/
def overwrite (offset : ℕ) (bytes : List UInt8) (old : List (Option UInt8)) :
    List (Option UInt8) :=
  old.take offset ++ bytes.map some ++ old.drop (offset + bytes.length)

/-- A write of `bytes` at `message + offset`. -/
def Mem.store (m : Mem) (message : CharPtr) (offset : ℕ) (bytes : List UInt8) :
    Except Fault Mem :=
  match message with
  | .null | .fallbackMessage => .error .outOfBounds
  | .block b =>
      match m.buffers.cell b with
      | none => .error .deadObject
      | some old =>
          if offset + bytes.length ≤ old.length then
            .ok { m with buffers := m.buffers.modify b (overwrite offset bytes) }
          else .error .outOfBounds

/-- `vsnprintf`: the returned value. -/
def Mem.vsnprintf (ℓ : Libc) (message : CharPtr) (size : ℕ) (format : CStr)
    (arg : List VaArg) (m : Mem) : Except Fault (ℤ × Mem) := do
  let (n, bytes) := ℓ.vsnprintf m.prints size format arg
  let m := { m with prints := m.prints + 1 }
  let m ← m.store message 0 bytes
  .ok (n, m)

/-! ### The message -/

/-- `u7_safe_strlen`. -/
def u7SafeStrlen (str : List UInt8) (maxlen : ℤ) : Except Fault ℤ := do
  let maxlen := if maxlen < 0 then intMax else maxlen
  match ← memchr str 0 maxlen.toNat with
  | none => .ok maxlen
  | some «end» => .ok «end»

/-- Where a path of `u7_verrorf_with_cause` ends, with the variables it leaves. -/
inductive Label
  | ret (message : CharPtr) (messageLength : ℤ)
  | fail (message : CharPtr)
  deriving DecidableEq, Repr

/-- Fast case: `format=""`. -/
def emptyMessage (ℓ : Libc) (m : Mem) : Except Fault (Label × Mem) := do
  let (message, m) := m.malloc ℓ 1
  if message = .null then .ok (.fail message, m)
  else do
    let m ← m.store message 0 [0]
    .ok (.ret message 0, m)

/-- Fast case: `format="%s"`. -/
def stringMessage (ℓ : Libc) (arg : List VaArg) (m : Mem) :
    Except Fault (Label × Mem) := do
  let (tmp, _) ← vaArgStr arg
  let messageLength ← u7SafeStrlen tmp (-1)
  let (message, m) := m.malloc ℓ (messageLength.toNat + 1)
  if message = .null then .ok (.fail message, m)
  else do
    let size ← intAdd messageLength 1
    let bytes ← readBytes tmp size.toNat
    let m ← m.store message 0 bytes
    .ok (.ret message messageLength, m)

/-- A copy of the first `messageLength` bytes of `tmp`, with a terminator. -/
def copyMessage (ℓ : Libc) (tmp : List UInt8) (messageLength : ℤ) (m : Mem) :
    Except Fault (Label × Mem) := do
  let (message, m) := m.malloc ℓ (messageLength.toNat + 1)
  if message = .null then .ok (.fail message, m)
  else do
    let bytes ← readBytes tmp messageLength.toNat
    let m ← m.store message 0 bytes
    let m ← m.store message messageLength.toNat [0]
    .ok (.ret message messageLength, m)

/-- Fast case: `format="%.*s"`. -/
def precisionMessage (ℓ : Libc) (arg : List VaArg) (m : Mem) :
    Except Fault (Label × Mem) := do
  let (messageLength, arg) ← vaArgInt arg
  let (tmp, _) ← vaArgStr arg
  let messageLength ← u7SafeStrlen tmp messageLength
  copyMessage ℓ tmp messageLength m

/-- Long message. -/
def longMessage (ℓ : Libc) (message : CharPtr) (messageLength : ℤ) (format : CStr)
    (arg : List VaArg) (m : Mem) : Except Fault (Label × Mem) := do
  let size ← intAdd messageLength 1
  let (tmp, m) ← m.realloc ℓ message size.toNat
  if tmp = .null then .ok (.fail message, m)
  else do
    let message := tmp
    let size ← intAdd messageLength 1
    let (n, m) ← m.vsnprintf ℓ message size.toNat format arg
    if n ≠ messageLength then .ok (.fail message, m)
    else .ok (.ret message messageLength, m)

/-- Short message, and the long one if it does not fit. -/
def generalMessage (ℓ : Libc) (format : CStr) (arg : List VaArg) (m : Mem) :
    Except Fault (Label × Mem) := do
  let kN := 128
  let (message, m) := m.malloc ℓ kN
  if message = .null then .ok (.fail message, m)
  else do
    let (n, m) ← m.vsnprintf ℓ message kN format arg
    if n < 0 then .ok (.fail message, m)
    else if n < kN then .ok (.ret message n, m)
    else longMessage ℓ message n format arg m

/-- The body of `u7_verrorf_with_cause` up to its labels. -/
def messagePath (ℓ : Libc) (format : CStr) (arg : List VaArg) (m : Mem) :
    Except Fault (Label × Mem) := do
  if ← bytesEq format.object (CStr.lit "").object then emptyMessage ℓ m
  else if ← bytesEq format.object (CStr.lit "%s").object then stringMessage ℓ arg m
  else if ← bytesEq format.object (CStr.lit "%.*s").object then precisionMessage ℓ arg m
  else generalMessage ℓ format arg m

/-- From the label a path ends at to the variables at the label `ret`. -/
def Label.toRet : Label → Mem → Except Fault ((CharPtr × ℤ) × Mem)
  | .ret message messageLength, m => .ok ((message, messageLength), m)
  | .fail message, m => do
      let m ← m.freeMessage message
      .ok ((.null, -1), m)

/-- `message` and `message_length` at the label `ret`. -/
def formatMessage (ℓ : Libc) (format : CStr) (arg : List VaArg) (m : Mem) :
    Except Fault ((CharPtr × ℤ) × Mem) := do
  let (label, m) ← messagePath ℓ format arg m
  label.toRet m

/-! ### The payload -/

/-- What `u7_errno_category_make_payload_fn` does when it cannot make a payload. -/
def fallbackPayload (message : CharPtr) (cause : U7Error) (m : Mem) :
    Except Fault (ℕ × Mem) := do
  let m ← m.freeMessage message
  let m ← u7ErrorRelease cause m
  let x ← m.deref fallback
  .ok (fallback, m.setRefcount fallback (u7RefcountIncrement x.refcount))

/-- The fields of a payload that `u7_errno_category_make_payload_fn` has allocated. -/
def errnoPayload (message : CharPtr) (messageLength : ℤ) (cause : U7Error) :
    U7ErrorPayload where
  refcount := u7RefcountInit
  disposeFn := some .errnoCategoryPayload
  category := .errno
  message := message
  messageLength := messageLength
  cause := cause

/-- `u7_errno_category_make_payload_fn`. -/
def u7ErrnoCategoryMakePayloadFn (ℓ : Libc) (message : CharPtr) (messageLength : ℤ)
    (cause : U7Error) (m : Mem) : Except Fault (ℕ × Mem) :=
  if messageLength < 0 then fallbackPayload message cause m
  else if ℓ.allocates m.mallocs then
    .ok (m.payloads.next,
      { m with
        payloads := m.payloads.alloc (errnoPayload message messageLength cause)
        mallocs := m.mallocs + 1 })
  else fallbackPayload message cause { m with mallocs := m.mallocs + 1 }

/-- `category->make_payload_fn`. -/
def U7ErrorCategory.makePayloadFn (ℓ : Libc) :
    U7ErrorCategory → CharPtr → ℤ → U7Error → Mem → Except Fault (ℕ × Mem)
  | .errno => u7ErrnoCategoryMakePayloadFn ℓ

/-- `u7_errno_category`. -/
def u7ErrnoCategory : U7ErrorCategory :=
  .errno

/-- `u7_verrorf_with_cause`, and `u7_errorf_with_cause`, which passes its arguments on.
The assertions are compiled out. -/
def u7VerrorfWithCause (ℓ : Libc) (category : U7ErrorCategory) (errorCode : ℤ)
    (cause : U7Error) (format : CStr) (arg : List VaArg) (m : Mem) :
    Except Fault (U7Error × Mem) :=
  if errorCode = 0 then do
    let m ← u7ErrorRelease cause m
    .ok (u7Ok, m)
  else do
    let ((message, messageLength), m) ← formatMessage ℓ format arg m
    let (payload, m) ← category.makePayloadFn ℓ message messageLength cause m
    .ok ({ errorCode := errorCode, payload := some payload }, m)

/-- `u7_verrorf` and `u7_errorf`. -/
def u7Verrorf (ℓ : Libc) (category : U7ErrorCategory) (errorCode : ℤ) (format : CStr)
    (arg : List VaArg) (m : Mem) : Except Fault (U7Error × Mem) :=
  u7VerrorfWithCause ℓ category errorCode u7Ok format arg m

/-- `u7_errnof`. -/
def u7Errnof (ℓ : Libc) (errnoCode : ℤ) (format : CStr) (arg : List VaArg) (m : Mem) :
    Except Fault (U7Error × Mem) :=
  u7VerrorfWithCause ℓ u7ErrnoCategory errnoCode u7Ok format arg m

/-- A created error has the code it was created with. -/
theorem errorCode_of_u7VerrorfWithCause {ℓ : Libc} {category : U7ErrorCategory}
    {errorCode : ℤ} {cause e : U7Error} {format : CStr} {arg : List VaArg} {m m' : Mem}
    (h : u7VerrorfWithCause ℓ category errorCode cause format arg m = .ok (e, m')) :
    e.errorCode = errorCode := by
  have hcode : Sat (u7VerrorfWithCause ℓ category errorCode cause format arg m)
      (fun r => r.1.errorCode = errorCode) (fun _ => True) := by
    rw [u7VerrorfWithCause]
    refine sat_ite (fun hzero => ?_) fun _ => ?_
    · exact (sat_true _).bind fun _ _ => sat_ok hzero.symm
    · exact (sat_true _).bind fun _ _ => (sat_true _).bind fun _ _ => sat_ok rfl
  exact hcode.of_eq_ok h

/-! ### Buffers -/

section Buffers

variable {m m' : Mem} {b : ℕ} {old : List (Option UInt8)} {ℓ : Libc}

/-- `m'` has the payloads and the buffers of `m`. -/
structure SameHeap (m m' : Mem) : Prop where
  payloads : m'.payloads = m.payloads
  disposed : m'.disposed = m.disposed
  cell : ∀ c, m'.buffers.cell c = m.buffers.cell c

/-- `m'` has the payloads of `m` and one more buffer, `b`, which holds `bytes`. -/
structure NewBuffer (m m' : Mem) (b : ℕ) (bytes : List (Option UInt8)) : Prop where
  payloads : m'.payloads = m.payloads
  disposed : m'.disposed = m.disposed
  fresh : m.buffers.cell b = none
  self : m'.buffers.cell b = some bytes
  of_ne : ∀ c, c ≠ b → m'.buffers.cell c = m.buffers.cell c

theorem length_overwrite {offset : ℕ} {bytes : List UInt8}
    (h : offset + bytes.length ≤ old.length) :
    (overwrite offset bytes old).length = old.length := by
  simp only [overwrite, List.length_append, List.length_take, List.length_map,
    List.length_drop]
  omega

/-- `malloc` fails, or gives a buffer of uninitialized bytes. -/
theorem malloc_cases (ℓ : Libc) (size : ℕ) (m : Mem) :
    (∃ m', m.malloc ℓ size = (.null, m') ∧ SameHeap m m' ∧ ℓ.allocates m.mallocs = false) ∨
      ∃ b m', m.malloc ℓ size = (.block b, m') ∧
        NewBuffer m m' b (List.replicate size none) := by
  rw [Mem.malloc]
  cases hok : ℓ.allocates m.mallocs with
  | false => exact .inl ⟨_, rfl, ⟨rfl, rfl, fun _ => rfl⟩, rfl⟩
  | true =>
      refine .inr ⟨_, _, rfl, rfl, rfl, m.buffers.cell_next, BlockHeap.cell_alloc_self, ?_⟩
      exact fun c hc => BlockHeap.cell_alloc_of_ne hc

/-- A call of `malloc` that gives a buffer was one that succeeds. -/
theorem malloc_ok {size : ℕ} (h : m.malloc ℓ size = (.block b, m')) :
    ℓ.allocates m.mallocs = true ∧ m'.prints = m.prints := by
  rw [Mem.malloc] at h
  split at h
  · next hok =>
      obtain ⟨-, rfl⟩ := Prod.mk.inj h
      exact ⟨hok, rfl⟩
  · cases h

/-- A write inside a new buffer. -/
theorem NewBuffer.store (h : NewBuffer m m' b old) (offset : ℕ) (bytes : List UInt8)
    (hle : offset + bytes.length ≤ old.length) :
    ∃ m'', m'.store (.block b) offset bytes = .ok m'' ∧
      NewBuffer m m'' b (overwrite offset bytes old) := by
  refine ⟨{ m' with buffers := m'.buffers.modify b (overwrite offset bytes) }, ?_,
    h.payloads, h.disposed, h.fresh, ?_, ?_⟩
  · simp only [Mem.store, h.self, hle, if_true]
  · rw [BlockHeap.cell_modify_self, h.self]
    rfl
  · intro c hc
    rw [BlockHeap.cell_modify_of_ne hc]
    exact h.of_ne c hc

/-- `vsnprintf` into a new buffer that is large enough. -/
theorem NewBuffer.vsnprintf (h : NewBuffer m m' b old) (ℓ : Libc) {size : ℕ}
    (hle : size ≤ old.length)
    (format : CStr) (arg : List VaArg) :
    ∃ m'', m'.vsnprintf ℓ (.block b) size format arg =
        .ok ((ℓ.vsnprintf m'.prints size format arg).1, m'') ∧
      NewBuffer m m'' b (overwrite 0 (ℓ.vsnprintf m'.prints size format arg).2 old) := by
  have hprints : NewBuffer m { m' with prints := m'.prints + 1 } b old :=
    ⟨h.payloads, h.disposed, h.fresh, h.self, h.of_ne⟩
  have hfits : 0 + (ℓ.vsnprintf m'.prints size format arg).2.length ≤ old.length := by
    have := ℓ.vsnprintf_le m'.prints size format arg
    omega
  obtain ⟨m'', hstore, hnew⟩ := hprints.store 0 _ hfits
  refine ⟨m'', ?_, hnew⟩
  simp only [Mem.vsnprintf, hstore, ok_bind]

/-- `realloc` of a new buffer fails, or gives another new buffer instead. -/
theorem NewBuffer.realloc (h : NewBuffer m m' b old) (ℓ : Libc) (size : ℕ) :
    (∃ m'', m'.realloc ℓ (.block b) size = .ok (.null, m'') ∧ NewBuffer m m'' b old ∧
        ℓ.allocates m'.mallocs = false) ∨
      ∃ c bytes m'', m'.realloc ℓ (.block b) size = .ok (.block c, m'') ∧
        NewBuffer m m'' c bytes ∧ bytes.length = size := by
  simp only [Mem.realloc, h.self]
  cases hok : ℓ.allocates m'.mallocs with
  | false =>
      exact .inl ⟨_, rfl, ⟨h.payloads, h.disposed, h.fresh, h.self, h.of_ne⟩, rfl⟩
  | true =>
      have hnext : m'.buffers.next ≠ b := (BlockHeap.lt_next h.self).ne'
      refine .inr ⟨_, resize size old, _, rfl, ⟨h.payloads, h.disposed, ?_, ?_, ?_⟩, ?_⟩
      · rw [← h.of_ne _ hnext]
        exact m'.buffers.cell_next
      · exact BlockHeap.cell_alloc_self (h := m'.buffers.free b)
      · intro c hc
        have halloc := BlockHeap.cell_alloc_of_ne (h := m'.buffers.free b)
          (a := resize size old) hc
        refine halloc.trans ?_
        by_cases hcb : c = b
        · rw [hcb, BlockHeap.cell_free_self, h.fresh]
        · rw [BlockHeap.cell_free_of_ne hcb, h.of_ne c hcb]
      · simp only [resize, List.length_append, List.length_take, List.length_replicate]
        omega

/-- Freeing a new buffer undoes its allocation. -/
theorem NewBuffer.free (h : NewBuffer m m' b old) :
    ∃ m'', m'.freeMessage (.block b) = .ok m'' ∧ SameHeap m m'' := by
  refine ⟨{ m' with buffers := m'.buffers.free b }, ?_, h.payloads, h.disposed, ?_⟩
  · simp only [Mem.freeMessage, h.self]
  · intro c
    by_cases hc : c = b
    · rw [hc, BlockHeap.cell_free_self, h.fresh]
    · rw [BlockHeap.cell_free_of_ne hc, h.of_ne c hc]

end Buffers

/-! ### The paths of the formatter -/

/-- The buffer begins with the NUL-terminated `text`, whose length is `n`. -/
def Carries (text : List UInt8) (n : ℤ) (bytes : List (Option UInt8)) : Prop :=
  n = text.length ∧ text.map some ++ [some 0] <+: bytes

/-- How a path may end: at `ret` with a message in a new buffer that satisfies `C`, or,
if `failing`, at `fail` with at most a new buffer. -/
inductive Label.Leaves (m m' : Mem) (C : ℤ → List (Option UInt8) → Prop) (failing : Prop) :
    Label → Prop
  | ret {b : ℕ} {n : ℤ} {bytes : List (Option UInt8)} :
      NewBuffer m m' b bytes → 0 ≤ n → C n bytes → Leaves m m' C failing (.ret (.block b) n)
  | failNull : SameHeap m m' → failing → Leaves m m' C failing (.fail .null)
  | failBlock {b : ℕ} {bytes : List (Option UInt8)} :
      NewBuffer m m' b bytes → failing → Leaves m m' C failing (.fail (.block b))

section Paths

variable {ℓ : Libc} {m : Mem}

theorem emptyMessage_leaves (ℓ : Libc) (m : Mem) :
    Sat (emptyMessage ℓ m)
      (fun r => r.1.Leaves m r.2 (Carries []) (∃ n, ℓ.allocates n = false))
      (fun _ => False) := by
  rw [emptyMessage]
  rcases malloc_cases ℓ 1 m with ⟨m', hmalloc, hsame, hfail⟩ | ⟨b, m', hmalloc, hnew⟩
  · rw [hmalloc]
    exact sat_ok (.failNull hsame ⟨_, hfail⟩)
  · obtain ⟨m'', hstore, hnew'⟩ := hnew.store 0 [0] (by simp)
    simp only [hmalloc, reduceCtorEq, if_false, hstore, ok_bind]
    exact sat_ok (.ret hnew' le_rfl ⟨rfl, by simp [overwrite]⟩)

/-- What `u7_safe_strlen` computes: the length of the string, up to the limit. -/
theorem u7SafeStrlen_eq (str : List UInt8) (maxlen : ℤ) :
    u7SafeStrlen str maxlen =
      if (cString str).length < (if maxlen < 0 then intMax else maxlen).toNat then
        if (cString str).length < str.length then .ok ((cString str).length : ℤ)
        else .error .outOfBounds
      else .ok (if maxlen < 0 then intMax else maxlen) := by
  simp only [u7SafeStrlen, memchr_zero]
  split_ifs <;> rfl

theorem intAdd_of_lt {n : ℤ} (h0 : 0 ≤ n) (h : n < intMax) : intAdd n 1 = .ok (n + 1) := by
  rw [intAdd, if_pos]
  simp only [IntType.Fits, IntType.lo, intMax] at *
  norm_num
  omega

theorem intAdd_intMax {n : ℤ} (h : intMax ≤ n) : intAdd n 1 = .error .signedOverflow := by
  rw [intAdd, if_neg]
  simp only [IntType.Fits, IntType.lo, intMax] at *
  norm_num
  omega

theorem overwrite_replicate (bytes : List UInt8) :
    overwrite 0 bytes (List.replicate bytes.length none) = bytes.map some := by
  simp [overwrite]

/-- The path of `"%s"`. -/
theorem stringMessage_leaves (ℓ : Libc) (m : Mem) (object : List UInt8)
    (arg : List VaArg) :
    Sat (stringMessage ℓ (.str object :: arg) m)
      (fun r => r.1.Leaves m r.2 (Carries (cString object)) (∃ n, ℓ.allocates n = false))
      (fun e => (e = .outOfBounds ∧ 0 ∉ object) ∨ (e = .signedOverflow ∧
        ℓ.allocates m.mallocs = true ∧ intMax ≤ (cString object).length)) := by
  have hneg : (-1 : ℤ) < 0 := by norm_num
  simp only [stringMessage, vaArgStr, ok_bind, u7SafeStrlen_eq, hneg, if_true]
  split_ifs with hmax hin
  · -- the terminator was found
    have hread : readBytes object ((cString object).length + 1) =
        .ok (cString object ++ [0]) := by
      rw [readBytes, if_pos (by omega), take_cString_succ hin]
    rcases malloc_cases ℓ ((cString object).length + 1) m with
      ⟨m', hmalloc, hsame, hfail⟩ | ⟨b, m', hmalloc, hnew⟩
    · simp only [ok_bind, Int.toNat_natCast, hmalloc, if_true]
      exact sat_ok (.failNull hsame ⟨_, hfail⟩)
    · obtain ⟨m'', hstore, hnew'⟩ :=
        hnew.store 0 (cString object ++ [0]) (by simp)
      have hadd := intAdd_of_lt (n := (cString object).length) (by omega)
        (by omega)
      have htoNat : ((cString object).length + 1 : ℤ).toNat = (cString object).length + 1 := by
        omega
      simp only [ok_bind, Int.toNat_natCast, hmalloc, reduceCtorEq, if_false, hadd, htoNat,
        hread, hstore]
      refine sat_ok (.ret hnew' (by omega) ⟨rfl, ?_⟩)
      have hover := overwrite_replicate (cString object ++ [0])
      rw [List.length_append, List.length_singleton] at hover
      rw [hover, List.map_append]
      exact List.prefix_rfl
  · rw [length_cString_lt_iff] at hin
    exact sat_error (.inl ⟨rfl, hin⟩)
  · -- no terminator among the first `INT_MAX` bytes
    have hlong : intMax ≤ (cString object).length := by omega
    rcases malloc_cases ℓ (intMax.toNat + 1) m with
      ⟨m', hmalloc, hsame, hfail⟩ | ⟨b, m', hmalloc, -⟩
    · simp only [ok_bind, hmalloc, if_true]
      exact sat_ok (.failNull hsame ⟨_, hfail⟩)
    · simp only [ok_bind, hmalloc, reduceCtorEq, if_false, intAdd_intMax le_rfl, error_bind]
      exact sat_error (.inr ⟨rfl, (malloc_ok hmalloc).1, hlong⟩)

/-- The limit that `u7_safe_strlen` works with. -/
def strlenLimit (maxlen : ℤ) : ℤ :=
  if maxlen < 0 then intMax else maxlen

theorem strlenLimit_nonneg (maxlen : ℤ) : 0 ≤ strlenLimit maxlen := by
  rw [strlenLimit]
  split_ifs
  · simp [intMax]
  · omega

/-- `"%.*s"` with this precision reads nothing outside of the array. -/
def Readable (object : List UInt8) (precision : ℤ) : Prop :=
  0 ∈ object ∨ (0 ≤ precision ∧ precision ≤ object.length)

theorem copyMessage_leaves (ℓ : Libc) (m : Mem) {object : List UInt8} {n : ℕ}
    (hn : n ≤ object.length) :
    Sat (copyMessage ℓ object n m)
      (fun r => r.1.Leaves m r.2 (Carries (object.take n)) (∃ n, ℓ.allocates n = false))
      (fun _ => False) := by
  rw [copyMessage, Int.toNat_natCast]
  have hlen : (object.take n).length = n := by simp [hn]
  have hread : readBytes object n = .ok (object.take n) := by
    rw [readBytes, if_pos hn]
  rcases malloc_cases ℓ (n + 1) m with ⟨m', hmalloc, hsame, hfail⟩ | ⟨b, m', hmalloc, hnew⟩
  · simp only [hmalloc, if_true]
    exact sat_ok (.failNull hsame ⟨_, hfail⟩)
  · obtain ⟨m₁, hstore₁, hnew₁⟩ :=
      hnew.store 0 (object.take n) (by simp)
    have hlen₁ : (overwrite 0 (object.take n) (List.replicate (n + 1) none)).length =
        n + 1 := by
      rw [length_overwrite (by simp), List.length_replicate]
    obtain ⟨m₂, hstore₂, hnew₂⟩ :=
      hnew₁.store n [0] (by rw [hlen₁]; simp)
    simp only [hmalloc, reduceCtorEq, if_false, hread, ok_bind, hstore₁, hstore₂]
    refine sat_ok (.ret hnew₂ (by omega) ⟨by rw [hlen], ?_⟩)
    simp [overwrite, hlen, hn]

/-- The path of `"%.*s"`. -/
theorem precisionMessage_leaves (ℓ : Libc) (m : Mem) (precision : ℤ)
    (object : List UInt8) (arg : List VaArg) :
    Sat (precisionMessage ℓ (.int precision :: .str object :: arg) m)
      (fun r => r.1.Leaves m r.2
        (Carries ((cString object).take (strlenLimit precision).toNat))
        (∃ n, ℓ.allocates n = false))
      (fun e => e = .outOfBounds ∧ ¬ Readable object precision) := by
  have hlimit : (if precision < 0 then intMax else precision) = strlenLimit precision := rfl
  simp only [precisionMessage, vaArgInt, vaArgStr, ok_bind, u7SafeStrlen_eq, hlimit]
  split_ifs with hmax hin
  · -- the terminator comes before the limit
    have htext : (cString object).take (strlenLimit precision).toNat =
        object.take (cString object).length := by
      rw [List.take_of_length_le hmax.le]
      exact List.prefix_iff_eq_take.mp (cString_isPrefixOf object)
    rw [htext]
    exact (copyMessage_leaves ℓ m hin.le).mono (fun _ => id) fun _ => False.elim
  · rw [length_cString_lt_iff] at hin
    refine sat_error ⟨rfl, ?_⟩
    rintro (hnul | ⟨hp0, hp⟩)
    · exact hin hnul
    · rw [← length_cString_lt_iff] at hin
      rw [strlenLimit, if_neg (by omega)] at hmax
      omega
  · -- the limit comes before the terminator
    have htext : (cString object).take (strlenLimit precision).toNat =
        object.take (strlenLimit precision).toNat := by
      obtain ⟨rest, hrest⟩ := cString_isPrefixOf object
      conv_rhs => rw [← hrest]
      rw [List.take_append_of_le_length (not_lt.mp hmax)]
    have hle : (strlenLimit precision).toNat ≤ object.length :=
      (not_lt.mp hmax).trans (cString_isPrefixOf object).length_le
    have hcast : ((strlenLimit precision).toNat : ℤ) = strlenLimit precision :=
      Int.toNat_of_nonneg (strlenLimit_nonneg precision)
    have hcopy := copyMessage_leaves ℓ m hle
    rw [hcast, ← htext] at hcopy
    exact hcopy.mono (fun _ => id) fun _ => False.elim

/-- The general path. `C` holds of what `vsnprintf` writes where it reports that it wrote
everything; the path fails when an allocation fails, when `vsnprintf` does, or when its
second call reports another length than its first. -/
theorem generalMessage_leaves {format : CStr} {arg : List VaArg}
    {C : ℤ → List (Option UInt8) → Prop} {failing : Prop} (m : Mem)
    (hC : ∀ call size old, old.length = size → 0 ≤ (ℓ.vsnprintf call size format arg).1 →
      (ℓ.vsnprintf call size format arg).1 < size →
      C (ℓ.vsnprintf call size format arg).1
        (overwrite 0 (ℓ.vsnprintf call size format arg).2 old))
    (hmalloc : (∃ n, ℓ.allocates n = false) → failing)
    (hneg : ∀ call, (ℓ.vsnprintf call 128 format arg).1 < 0 → failing)
    (hdiff : ∀ (call call' size : ℕ), 128 < size →
      (size : ℤ) = (ℓ.vsnprintf call 128 format arg).1 + 1 →
      (ℓ.vsnprintf call' size format arg).1 ≠ (ℓ.vsnprintf call 128 format arg).1 →
      failing) :
    Sat (generalMessage ℓ format arg m) (fun r => r.1.Leaves m r.2 C failing)
      (fun e => e = .signedOverflow ∧ ℓ.allocates m.mallocs = true ∧
        intMax ≤ (ℓ.vsnprintf m.prints 128 format arg).1) := by
  rw [generalMessage]
  rcases malloc_cases ℓ 128 m with ⟨m', hmem, hsame, hfail⟩ | ⟨b, m', hmem, hnew⟩
  · simp only [hmem, if_true]
    exact sat_ok (.failNull hsame (hmalloc ⟨_, hfail⟩))
  obtain ⟨m₁, hprint, hnew₁⟩ := hnew.vsnprintf ℓ (show 128 ≤ _ by simp) format arg
  simp only [hmem, reduceCtorEq, if_false, hprint, ok_bind]
  have hfirst := hC m'.prints 128 (List.replicate 128 none) (by simp)
  have hdiff' := hdiff m'.prints
  have hneg' := hneg m'.prints
  obtain ⟨hok, hcall⟩ := malloc_ok hmem
  rw [← hcall]
  generalize hn : (ℓ.vsnprintf m'.prints 128 format arg).1 = n at *
  refine sat_ite (fun hlt => sat_ok (.failBlock hnew₁ (hneg' hlt))) fun hge => ?_
  refine sat_ite (fun hlt => sat_ok (.ret hnew₁ (by omega) (hfirst (by omega) hlt)))
    fun hlong => ?_
  rw [longMessage]
  by_cases hmax : intMax ≤ n
  · rw [intAdd_intMax hmax, error_bind]
    exact sat_error ⟨rfl, hok, hmax⟩
  have hadd := intAdd_of_lt (n := n) (by omega) (by omega)
  simp only [hadd, ok_bind]
  obtain ⟨k, hk⟩ : ∃ k : ℕ, n = k := ⟨n.toNat, by omega⟩
  have hsize : (n + 1).toNat = k + 1 := by omega
  rw [hsize]
  rcases hnew₁.realloc ℓ (k + 1) with ⟨m₂, hmem₂, hold, hfail⟩ | ⟨c, bytes, m₂, hmem₂, hnew₂, hlen⟩
  · simp only [hmem₂, ok_bind, if_true]
    exact sat_ok (.failBlock hold (hmalloc ⟨_, hfail⟩))
  obtain ⟨m₃, hprint₃, hnew₃⟩ :=
    hnew₂.vsnprintf ℓ hlen.ge format arg
  simp only [hmem₂, ok_bind, reduceCtorEq, if_false, hprint₃]
  refine sat_ite (fun hne => sat_ok (.failBlock hnew₃ ?_)) fun heq => ?_
  · exact hdiff' m₂.prints (k + 1) (by omega) (by omega) hne
  · rw [ne_eq, not_not] at heq
    have hsecond := hC m₂.prints (k + 1) bytes hlen (by omega) (by omega)
    rw [heq] at hsecond
    exact sat_ok (.ret hnew₃ (by omega) hsecond)

theorem Label.Leaves.mono {m m' : Mem} {C C' : ℤ → List (Option UInt8) → Prop}
    {failing failing' : Prop} {label : Label} (h : label.Leaves m m' C failing)
    (hC : ∀ n bytes, C n bytes → C' n bytes) (hfailing : failing → failing') :
    label.Leaves m m' C' failing' := by
  cases h with
  | ret hnew hn hc => exact .ret hnew hn (hC _ _ hc)
  | failNull hsame hfail => exact .failNull hsame (hfailing hfail)
  | failBlock hnew hfail => exact .failBlock hnew (hfailing hfail)

/-- The arguments that the fast cases read are there. -/
structure Matches (format : CStr) (arg : List VaArg) : Prop where
  string : format = .lit "%s" →
    ∃ object rest, arg = .str object :: rest ∧ 0 ∈ object
  precision : format = .lit "%.*s" →
    ∃ precision object rest, arg = .int precision :: .str object :: rest ∧
      Readable object precision

theorem messagePath_eq (ℓ : Libc) (format : CStr) (arg : List VaArg) (m : Mem) :
    messagePath ℓ format arg m =
      if format = .lit "" then emptyMessage ℓ m
      else if format = .lit "%s" then stringMessage ℓ arg m
      else if format = .lit "%.*s" then precisionMessage ℓ arg m
      else generalMessage ℓ format arg m := by
  simp only [messagePath, bytesEq_cstr, ok_bind, decide_eq_true_eq]

theorem nul_free_empty : 0 ∉ "".toList.map fun c => UInt8.ofNat c.toNat := by
  decide

theorem nul_free_string : 0 ∉ "%s".toList.map fun c => UInt8.ofNat c.toNat := by
  decide

theorem nul_free_precision : 0 ∉ "%.*s".toList.map fun c => UInt8.ofNat c.toNat := by
  decide

/-- The formats with a path of their own. -/
def FastFormat (format : CStr) : Prop :=
  format = .lit "" nul_free_empty ∨ format = .lit "%s" nul_free_string ∨
    format = .lit "%.*s" nul_free_precision

instance (format : CStr) : Decidable (FastFormat format) :=
  inferInstanceAs (Decidable (_ ∨ _))

section General

variable {format : CStr} (hslow : ¬ FastFormat format)

include hslow

/-- Every other format takes the general path. -/
theorem messagePath_of_not_fast (ℓ : Libc) (arg : List VaArg) (m : Mem) :
    messagePath ℓ format arg m = generalMessage ℓ format arg m := by
  obtain ⟨hempty, hrest⟩ := not_or.mp hslow
  obtain ⟨hstring, hprecision⟩ := not_or.mp hrest
  rw [messagePath_eq, if_neg hempty, if_neg hstring, if_neg hprecision]

/-- It reads no argument itself. -/
theorem matches_of_not_fast (arg : List VaArg) : Matches format arg where
  string := fun h => absurd (.inr (.inl h)) hslow
  precision := fun h => absurd (.inr (.inr h)) hslow

end General

/-- The message has `INT_MAX` bytes or more where the code adds `1` to its length in `int`:
on the path of `"%s"` and on the general path, if their first allocation succeeds. -/
def Overflows (ℓ : Libc) (format : CStr) (arg : List VaArg) (m : Mem) : Prop :=
  ℓ.allocates m.mallocs = true ∧
    if format = .lit "" then False
    else if format = .lit "%s" then
      ∃ object rest, arg = .str object :: rest ∧ intMax ≤ (cString object).length
    else if format = .lit "%.*s" then False
    else intMax ≤ (ℓ.vsnprintf m.prints 128 format arg).1

/-- On the general path the text may have `INT_MAX` bytes. -/
theorem overflows_of_not_fast_iff {format : CStr} (hslow : ¬ FastFormat format) (ℓ : Libc)
    (arg : List VaArg) (m : Mem) :
    Overflows ℓ format arg m ↔ ℓ.allocates m.mallocs = true ∧
      intMax ≤ (ℓ.vsnprintf m.prints 128 format arg).1 := by
  obtain ⟨hempty, hrest⟩ := not_or.mp hslow
  obtain ⟨hstring, hprecision⟩ := not_or.mp hrest
  rw [Overflows, if_neg hempty, if_neg hstring, if_neg hprecision]

/-- Every path leaves a new buffer behind, or nothing, whatever the C library does. -/
theorem messagePath_leaves (ℓ : Libc) (format : CStr) (arg : List VaArg) (m : Mem) :
    Sat (messagePath ℓ format arg m)
      (fun r => r.1.Leaves m r.2 (fun _ _ => True) True)
      (fun e => Matches format arg → e = .signedOverflow ∧ Overflows ℓ format arg m) := by
  rw [messagePath_eq]
  refine sat_ite (fun _ => ?_) fun hempty => sat_ite (fun hstring => ?_) fun hstring =>
    sat_ite (fun hprecision => ?_) fun hprecision => ?_
  · exact (emptyMessage_leaves ℓ m).mono
      (fun _ h => h.mono (fun _ _ _ => trivial) fun _ => trivial) fun _ => False.elim
  · rcases arg with _ | ⟨_ | object | _, rest⟩
    case cons.str =>
      refine (stringMessage_leaves ℓ m object rest).mono
        (fun _ h => h.mono (fun _ _ _ => trivial) fun _ => trivial) ?_
      rintro e (⟨-, hnul⟩ | ⟨rfl, hok, hlong⟩) hmatch
      · obtain ⟨object', rest', harg, hnul'⟩ := hmatch.string hstring
        obtain ⟨rfl, rfl⟩ : object = object' ∧ rest = rest' := by simpa using harg
        exact absurd hnul' hnul
      · refine ⟨rfl, hok, ?_⟩
        rw [if_neg hempty, if_pos hstring]
        exact ⟨object, rest, rfl, hlong⟩
    all_goals
      refine sat_error fun hmatch => ?_
      obtain ⟨object, rest, harg, -⟩ := hmatch.string hstring
      simp at harg
  · by_cases harg : ∃ precision object rest, arg = .int precision :: .str object :: rest
    · obtain ⟨precision, object, rest, rfl⟩ := harg
      refine (precisionMessage_leaves ℓ m precision object rest).mono
        (fun _ h => h.mono (fun _ _ _ => trivial) fun _ => trivial) ?_
      rintro e ⟨-, hread⟩ hmatch
      obtain ⟨precision', object', rest', harg, hread'⟩ := hmatch.precision hprecision
      obtain ⟨rfl, rfl, rfl⟩ :
          precision = precision' ∧ object = object' ∧ rest = rest' := by simpa using harg
      exact absurd hread' hread
    · have hbad : ¬ Matches format arg := by
        intro hmatch
        obtain ⟨precision, object, rest, h, -⟩ := hmatch.precision hprecision
        exact harg ⟨precision, object, rest, h⟩
      rcases arg with _ | ⟨precision | _ | _, _ | ⟨_ | object | _, rest⟩⟩
      case cons.int.cons.str => exact absurd ⟨precision, object, rest, rfl⟩ harg
      all_goals exact sat_error fun hmatch => absurd hmatch hbad
  · refine (generalMessage_leaves m (fun _ _ _ _ _ _ => trivial) (fun _ => trivial)
      (fun _ _ => trivial) fun _ _ _ _ _ _ => trivial).mono (fun _ => id) ?_
    rintro e ⟨rfl, hok, hlong⟩ -
    refine ⟨rfl, hok, ?_⟩
    rw [if_neg hempty, if_neg hstring, if_neg hprecision]
    exact hlong

/-- What `message` and `message_length` are at the label `ret`: a message in a new
buffer that satisfies `C`, or, if `failing`, no message. -/
def Formatted (m : Mem) (C : ℤ → List (Option UInt8) → Prop) (failing : Prop)
    (r : (CharPtr × ℤ) × Mem) : Prop :=
  (∃ b n bytes, r.1 = (.block b, n) ∧ 0 ≤ n ∧ NewBuffer m r.2 b bytes ∧ C n bytes) ∨
    (r.1 = (.null, -1) ∧ SameHeap m r.2 ∧ failing)

/-- A path that ends at `fail` gives its buffer back. -/
theorem formatMessage_of_leaves {format : CStr} {arg : List VaArg}
    {C : ℤ → List (Option UInt8) → Prop} {failing : Prop} {E : Fault → Prop}
    (h : Sat (messagePath ℓ format arg m) (fun r => r.1.Leaves m r.2 C failing) E) :
    Sat (formatMessage ℓ format arg m) (Formatted m C failing) E := by
  refine h.bind ?_
  rintro ⟨label, m'⟩ hleaves
  cases hleaves with
  | ret hnew hn hc => exact sat_ok (.inl ⟨_, _, _, rfl, hn, hnew, hc⟩)
  | failNull hsame hfail => exact sat_ok (.inr ⟨rfl, hsame, hfail⟩)
  | failBlock hnew hfail =>
      obtain ⟨m'', hfree, hsame⟩ := hnew.free
      simp only [Label.toRet, hfree, ok_bind]
      exact sat_ok (.inr ⟨rfl, hsame, hfail⟩)

/-- **Formatting is safe.** It leaves a message in a new buffer, or nothing; its only
fault on matching arguments is an overflow of `message_length + 1`. -/
theorem formatMessage_safe (ℓ : Libc) (format : CStr) (arg : List VaArg) (m : Mem) :
    Sat (formatMessage ℓ format arg m) (Formatted m (fun _ _ => True) True)
      (fun e => Matches format arg → e = .signedOverflow ∧ Overflows ℓ format arg m) :=
  formatMessage_of_leaves (messagePath_leaves ℓ format arg m)

end Paths

/-! ### Ownership -/

section Ownership

variable {ℓ : Libc} {m m' : Mem} {out loose : ℕ → ℕ} {cause : U7Error}

theorem links_congr (h : m'.payloads = m.payloads) (p : ℕ) : m'.links p = m.links p := by
  simp only [Mem.links, h]

theorem messages_congr (h : m'.payloads = m.payloads) (b : ℕ) :
    m'.messages b = m.messages b := by
  simp only [Mem.messages, h]

/-- The invariant depends on the payloads and on which buffers are live. -/
theorem Owned.congr {loose' : ℕ → ℕ} (h : Owned m out loose)
    (hpayloads : m'.payloads = m.payloads) (hdisposed : m'.disposed = m.disposed)
    (hbuffer : ∀ b, m.messages b + loose' b = if (m'.buffers.cell b).isSome then 1 else 0) :
    Owned m' out loose' where
  count := by
    intro p x hx
    rw [links_congr hpayloads]
    exact h.count (hpayloads ▸ hx)
  live := by
    intro p hpos
    rw [links_congr hpayloads] at hpos
    rw [hpayloads]
    exact h.live hpos
  held := by
    intro p x hx
    rw [links_congr hpayloads]
    exact h.held (hpayloads ▸ hx)
  pinned := hpayloads ▸ h.pinned
  onHeap := fun hx => h.onHeap (hpayloads ▸ hx)
  wellFormed := fun hx => h.wellFormed (hpayloads ▸ hx)
  causeLt := fun hx => h.causeLt (hpayloads ▸ hx)
  buffer := by
    intro b
    rw [messages_congr hpayloads]
    exact hbuffer b
  nodup := hdisposed ▸ h.nodup
  disposed := by
    intro p
    rw [hdisposed, hpayloads]
    exact h.disposed

theorem Owned.sameHeap (h : Owned m out loose) (hsame : SameHeap m m') :
    Owned m' out loose :=
  h.congr hsame.payloads hsame.disposed fun b => by rw [hsame.cell, h.buffer]

/-- A new buffer belongs to whoever asked for it. -/
theorem Owned.newBuffer {b : ℕ} {bytes : List (Option UInt8)} (h : Owned m out loose)
    (hnew : NewBuffer m m' b bytes) : Owned m' out (loose + refsTo (some b)) := by
  refine h.congr hnew.payloads hnew.disposed fun c => ?_
  have hbuffer := h.buffer c
  rw [Pi.add_apply]
  by_cases hc : c = b
  · subst hc
    rw [hnew.fresh] at hbuffer
    rw [hnew.self, refsTo_self]
    simp only [Option.isSome_none, Option.isSome_some, Bool.false_eq_true, if_false,
      if_true] at hbuffer ⊢
    omega
  · rw [hnew.of_ne c hc, refsTo_of_ne (Ne.symm hc), add_zero]
    exact hbuffer

/-- `free` of a message that its caller owns. -/
theorem Owned.freeMessage {message : CharPtr} (h : Owned m out (loose + refsTo message.buffer))
    (hmessage : message ≠ .fallbackMessage) :
    Sat (m.freeMessage message) (fun m' => Owned m' out loose ∧ Shrinks m m' ∧
      m'.payloads = m.payloads) (fun _ => False) := by
  cases message with
  | null => exact sat_ok ⟨h, Shrinks.refl m, rfl⟩
  | fallbackMessage => exact absurd rfl hmessage
  | block b =>
      have hb := h.buffer b
      rw [CharPtr.buffer, Pi.add_apply, refsTo_self] at hb
      obtain ⟨bytes, hbytes⟩ : ∃ bytes, m.buffers.cell b = some bytes := by
        cases hcell : m.buffers.cell b with
        | some bytes => exact ⟨bytes, rfl⟩
        | none =>
            rw [hcell] at hb
            simp at hb
      have hfree : m.freeMessage (.block b) = .ok { m with buffers := m.buffers.free b } := by
        simp only [Mem.freeMessage, hbytes]
      rw [hfree]
      refine sat_ok ⟨h.congr rfl rfl fun c => ?_,
        ((freeMessage_shrinks m (.block b)).of_eq_ok hfree).1, rfl⟩
      by_cases hc : c = b
      · subst hc
        rw [hbytes] at hb
        rw [BlockHeap.cell_free_self]
        simp only [Option.isSome_some, Option.isSome_none, Bool.false_eq_true, if_false,
          if_true] at hb ⊢
        omega
      · have hbuffer := h.buffer c
        rw [CharPtr.buffer, Pi.add_apply, refsTo_of_ne (Ne.symm hc), add_zero] at hbuffer
        rw [BlockHeap.cell_free_of_ne hc]
        exact hbuffer

/-- The fallback payload instead of a new one: the message is freed, the cause released,
and one more reference given to the fallback payload. -/
theorem Owned.fallbackPayload {message : CharPtr}
    (h : Owned m (out + refsTo cause.payload) (loose + refsTo message.buffer))
    (hmessage : message ≠ .fallbackMessage)
    (hbound : ∀ q, out q + refsTo cause.payload q + m.links q < 2 ^ 32) :
    Sat (fallbackPayload message cause m)
      (fun r => Owned r.2 (out + refsTo (some r.1)) loose ∧ Shrinks m r.2)
      (fun _ => False) := by
  refine (h.freeMessage hmessage).bind fun m₁ ⟨howned, hshrinks, hpayloads⟩ => ?_
  refine (howned.release fun q => ?_).bind fun m₂ ⟨howned₂, hshrinks₂⟩ => ?_
  · rw [links_congr hpayloads]
    exact hbound q
  · obtain ⟨x, hx⟩ := howned₂.cell_fallback
    simp only [Mem.deref, hx, ok_bind]
    exact sat_ok ⟨howned₂.increment hx,
      (hshrinks.trans hshrinks₂).trans (shrinks_setRefcount _ _ _)⟩

/-- A new payload takes over the message and the cause. -/
theorem Owned.newPayload {b : ℕ} {x : U7ErrorPayload}
    (h : Owned m (out + refsTo x.cause.payload) (loose + refsTo (some b)))
    (hcause : x.cause.WellFormed) (hrefcount : x.refcount = u7RefcountInit)
    (hdispose : x.disposeFn = some .errnoCategoryPayload) (hmessage : x.message = .block b)
    (hm' : m'.payloads = m.payloads.alloc x) (hbuffers : m'.buffers = m.buffers)
    (hdisposed : m'.disposed = m.disposed) :
    Owned m' (out + refsTo (some m.payloads.next)) loose := by
  have hlinks : ∀ q, m'.links q = m.links q + refsTo x.cause.payload q := fun q => by
    rw [Mem.links, hm', BlockHeap.sum_alloc]
    rfl
  have hmessages : ∀ c, m'.messages c = m.messages c + refsTo (some b) c := fun c => by
    rw [Mem.messages, hm', BlockHeap.sum_alloc, hmessage]
    rfl
  -- nothing refers to the new payload yet
  have hnext : out m.payloads.next + refsTo x.cause.payload m.payloads.next +
      m.links m.payloads.next = 0 := by
    by_contra hne
    obtain ⟨y, hy⟩ := h.live (p := m.payloads.next) (Nat.pos_of_ne_zero hne)
    simp at hy
  have hfall : m.payloads.next ≠ fallback := by
    obtain ⟨y, hy⟩ := h.cell_fallback
    exact (BlockHeap.lt_next hy).ne'
  have hold : ∀ {q y}, q ≠ m.payloads.next → m'.payloads.cell q = some y →
      m.payloads.cell q = some y := by
    intro q y hq hy
    rwa [hm', BlockHeap.cell_alloc_of_ne hq] at hy
  have hself : m'.payloads.cell m.payloads.next = some x := by
    rw [hm', BlockHeap.cell_alloc_self]
  refine
    { count := ?_, live := ?_, held := ?_, pinned := ?_, onHeap := ?_, wellFormed := ?_,
      causeLt := ?_, buffer := ?_, nodup := hdisposed ▸ h.nodup, disposed := ?_ }
  · intro q y hy
    rw [hlinks, Pi.add_apply]
    by_cases hq : q = m.payloads.next
    · subst hq
      rw [hself] at hy
      rw [← Option.some.inj hy, hrefcount, refsTo_self, pin, refsTo_of_ne (Ne.symm hfall)]
      have hone : out m.payloads.next + 1 +
          (m.links m.payloads.next + refsTo x.cause.payload m.payloads.next) + 0 = 1 := by
        omega
      rw [hone]
      rfl
    · rw [h.count (hold hq hy), Pi.add_apply, refsTo_of_ne (Ne.symm hq)]
      congr 1
      omega
  · intro q hpos
    by_cases hq : q = m.payloads.next
    · exact ⟨x, hq ▸ hself⟩
    · rw [Pi.add_apply, refsTo_of_ne (Ne.symm hq), hlinks] at hpos
      obtain ⟨y, hy⟩ := h.live (p := q) (by rw [Pi.add_apply]; omega)
      exact ⟨y, by rw [hm', BlockHeap.cell_alloc_of_ne hq, hy]⟩
  · intro q y hy hq0
    rw [Pi.add_apply, hlinks]
    by_cases hq : q = m.payloads.next
    · rw [hq, refsTo_self]
      omega
    · have hheld := h.held (hold hq hy) hq0
      rw [Pi.add_apply] at hheld
      omega
  · obtain ⟨count, hcount⟩ := h.pinned
    exact ⟨count, by rw [hm', BlockHeap.cell_alloc_of_ne hfall.symm, hcount]⟩
  · intro q y hy hq0
    by_cases hq : q = m.payloads.next
    · rw [hq, hself] at hy
      obtain rfl := Option.some.inj hy
      exact ⟨hdispose, b, hmessage⟩
    · exact h.onHeap (hold hq hy) hq0
  · intro q y hy
    by_cases hq : q = m.payloads.next
    · rw [hq, hself] at hy
      obtain rfl := Option.some.inj hy
      exact hcause
    · exact h.wellFormed (hold hq hy)
  · intro q r y hy hr
    by_cases hq : q = m.payloads.next
    · rw [hq, hself] at hy
      obtain rfl := Option.some.inj hy
      obtain ⟨z, hz⟩ := h.live (p := r) (by
        rw [Pi.add_apply, hr, refsTo_self]
        omega)
      rw [hq]
      exact BlockHeap.lt_next hz
    · exact h.causeLt (hold hq hy) hr
  · intro c
    have hbuffer := h.buffer c
    rw [Pi.add_apply] at hbuffer
    rw [hmessages, hbuffers]
    omega
  · intro q
    rw [hdisposed, h.disposed, hm', BlockHeap.next_alloc]
    by_cases hq : q = m.payloads.next
    · subst hq
      simp
    · have hlt : q < m.payloads.next + 1 ↔ q < m.payloads.next := by omega
      rw [BlockHeap.cell_alloc_of_ne hq, hlt]

/-- What creating an error does to the payloads there were: it may release the cause. At
most one payload is new, and `result` refers to it. -/
structure Creates (m m' : Mem) (result : U7Error) : Prop where
  next : m.payloads.next ≤ m'.payloads.next
  fresh : ∀ p, m.payloads.next ≤ p → p < m'.payloads.next → result.payload = some p
  disposed : m.disposed <+: m'.disposed

theorem Shrinks.creates (h : Shrinks m m') (result : U7Error) : Creates m m' result where
  next := h.next.ge
  fresh := by
    intro p hp hp'
    rw [h.next] at hp'
    omega
  disposed := h.disposed

/-- The factory function consumes the message and the cause and gives one reference. -/
theorem Owned.makePayload (ℓ : Libc) {message : CharPtr} {messageLength : ℤ} (errorCode : ℤ)
    (h : Owned m (out + refsTo cause.payload) (loose + refsTo message.buffer))
    (hcause : cause.WellFormed)
    (hmessage : message = .null ∧ messageLength < 0 ∨ ∃ b, message = .block b)
    (hbound : ∀ q, out q + refsTo cause.payload q + m.links q < 2 ^ 32) :
    Sat (u7ErrnoCategoryMakePayloadFn ℓ message messageLength cause m)
      (fun r => Owned r.2 (out + refsTo (some r.1)) loose ∧
        Creates m r.2 ⟨errorCode, some r.1⟩) (fun _ => False) := by
  have hne : message ≠ .fallbackMessage := by
    rcases hmessage with ⟨rfl, -⟩ | ⟨b, rfl⟩ <;> simp
  rw [u7ErrnoCategoryMakePayloadFn]
  refine sat_ite (fun _ => ?_) fun hlen => sat_ite (fun _ => ?_) fun _ => ?_
  · exact (h.fallbackPayload hne hbound).mono (fun _ hr => ⟨hr.1, hr.2.creates _⟩) fun _ => id
  · obtain ⟨b, rfl⟩ := hmessage.resolve_left fun hnull => hlen hnull.2
    refine sat_ok ⟨h.newPayload hcause rfl rfl rfl rfl rfl rfl, ?_, ?_, List.prefix_rfl⟩
    · exact Nat.le_succ _
    · intro p hp hp'
      rw [BlockHeap.next_alloc] at hp'
      have : p = m.payloads.next := by omega
      rw [this]
  · have h' : Owned { m with mallocs := m.mallocs + 1 } (out + refsTo cause.payload)
        (loose + refsTo message.buffer) := h.congr rfl rfl h.buffer
    refine (h'.fallbackPayload hne hbound).mono (fun _ hr => ⟨hr.1, ?_⟩) fun _ => id
    exact ⟨hr.2.next.ge, (hr.2.creates _).fresh, hr.2.disposed⟩

/-- **Creating an error** consumes the reference to the cause and gives one reference;
its only fault on matching arguments is an overflow of `message_length + 1`. -/
theorem Owned.verrorfWithCause (ℓ : Libc) (category : U7ErrorCategory) (errorCode : ℤ)
    (format : CStr) (arg : List VaArg) (h : Owned m (out + refsTo cause.payload) loose)
    (hcause : cause.WellFormed)
    (hbound : ∀ q, out q + refsTo cause.payload q + m.links q < 2 ^ 32) :
    Sat (u7VerrorfWithCause ℓ category errorCode cause format arg m)
      (fun r => r.1.errorCode = errorCode ∧ r.1.WellFormed ∧
        Owned r.2 (out + refsTo r.1.payload) loose ∧ Creates m r.2 r.1)
      (fun e => Matches format arg → e = .signedOverflow) := by
  rw [u7VerrorfWithCause]
  refine sat_ite (fun hzero => ?_) fun hcode => ?_
  · refine ((h.release hbound).mono (fun _ => id) fun _ => False.elim).bind
      fun m' ⟨howned, hshrinks⟩ => ?_
    exact sat_ok ⟨hzero.symm, ⟨fun _ => rfl, fun _ => rfl⟩, howned, hshrinks.creates _⟩
  · refine ((formatMessage_safe ℓ format arg m).mono (fun _ => id)
      fun e he hmatch => (he hmatch).1).bind ?_
    rintro ⟨⟨message, messageLength⟩, m₁⟩ hformatted
    have hmake : ∀ {m₁ : Mem}, m₁.payloads = m.payloads → m₁.disposed = m.disposed →
        Owned m₁ (out + refsTo cause.payload) (loose + refsTo message.buffer) →
        (message = .null ∧ messageLength < 0 ∨ ∃ b, message = .block b) →
        Sat (do
          let (payload, m) ← category.makePayloadFn ℓ message messageLength cause m₁
          Except.ok (({ errorCode := errorCode, payload := some payload } : U7Error), m))
        (fun r => r.1.errorCode = errorCode ∧ r.1.WellFormed ∧
          Owned r.2 (out + refsTo r.1.payload) loose ∧ Creates m r.2 r.1)
        (fun e => Matches format arg → e = .signedOverflow) := by
      intro m₁ hpayloads hdisposed howned hmessage
      have hbound₁ : ∀ q, out q + refsTo cause.payload q + m₁.links q < 2 ^ 32 := fun q => by
        rw [links_congr hpayloads]
        exact hbound q
      cases category
      refine ((howned.makePayload ℓ errorCode hcause hmessage hbound₁).mono
        (fun _ => id) fun _ => False.elim).bind ?_
      rintro ⟨payload, m₂⟩ ⟨howned₂, hcreates⟩
      refine sat_ok ⟨rfl, ⟨fun hc => absurd hc hcode, fun hc => by cases hc⟩, howned₂, ?_⟩
      have hnext : m.payloads.next = m₁.payloads.next := by rw [hpayloads]
      exact ⟨hnext ▸ hcreates.next, hnext ▸ hcreates.fresh, hdisposed ▸ hcreates.disposed⟩
    rcases hformatted with ⟨b, n, bytes, hr, hn, hnew, -⟩ | ⟨hr, hsame, -⟩
    · obtain ⟨rfl, rfl⟩ := Prod.mk.inj hr
      exact hmake hnew.payloads hnew.disposed (h.newBuffer hnew) (.inr ⟨b, rfl⟩)
    · obtain ⟨rfl, rfl⟩ := Prod.mk.inj hr
      exact hmake hsame.payloads hsame.disposed (h.sameHeap hsame) (.inl ⟨rfl, by norm_num⟩)

end Ownership

end U7Init
