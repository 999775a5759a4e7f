import U7Init.Error.Limits

/-!
# Printing Errors

This module models the accessors of `error.h` and `printf` with `U7_ERROR_FMT`. The macro
passes the length of the message as a field width, not as a precision, so the message is
padded to the length that the error was created with. `printf` prints the message up to its
first NUL, which is all of it unless the general path has rendered a NUL byte.

## What printing right means

`PrintsMessage` compares what `printf` prints with the category, the code and the message up to
its first NUL. The two sides read the heap in different ways: the left one uses the stored
length, as the macro does, and the right one the text alone. They agree as long as the stored
length is the length of the text, so the question is which path of `u7_verrorf_with_cause`
stores which length. `vsnprintf` counts the NUL bytes that `%c` prints and the scan of the fast
paths stops at them, so the paths have to be told apart here, and with them the calls of the C
library after which an error falls back to a static message. `printf` itself is modelled as far
as `%s`, `%d` and `%*s` go (`printfFrom`), and its output may have any length.

## Main results

* `prints_iff_of_carries`: an error is printed right exactly if its message has no NUL
  inside of its length.
* `generalMessage_keeps_iff`: when the general path makes an error of its own.
* `prints_message_iff`: which errors are printed right.
-/

namespace U7Init

open Outcome MachineInt

/-! ### `printf` -/

/-- A field width: spaces in front of the text, or behind it if the width is negative. -/
def padded (width : ℤ) (text : List UInt8) : List UInt8 :=
  if width < 0 then text ++ List.replicate (width.natAbs - text.length) ' '.toUInt8
  else List.replicate (width.toNat - text.length) ' '.toUInt8 ++ text

/-- The conversions `s` and `d`: their text, and the arguments that are left. -/
def conversion (specifier : UInt8) (arg : List VaArg) :
    Except Fault (List UInt8 × List VaArg) :=
  if specifier = 's'.toUInt8 then do
    let (object, arg) ← vaArgStr arg
    if 0 ∈ object then .ok (cString object, arg) else .error .outOfBounds
  else if specifier = 'd'.toUInt8 then do
    let (n, arg) ← vaArgInt arg
    .ok (decimal n, arg)
  else .error .badVaArg

/-- `printf`, for formats with `%s`, `%d` and a field width `*`: what it prints. Inside of
a conversion the field width read so far is kept. -/
def printfFrom : Option ℤ → List UInt8 → List VaArg → Except Fault (List UInt8)
  | _, [], _ => .ok []
  | none, c :: format, arg =>
      if c = '%'.toUInt8 then printfFrom (some 0) format arg
      else do
        let rest ← printfFrom none format arg
        .ok (c :: rest)
  | some width, c :: format, arg =>
      if c = '*'.toUInt8 then do
        let (width, arg) ← vaArgInt arg
        printfFrom (some width) format arg
      else do
        let (text, arg) ← conversion c arg
        let rest ← printfFrom none format arg
        .ok (padded width text ++ rest)

/-- `printf`. -/
def printf (format : CStr) (arg : List VaArg) : Except Fault (List UInt8) :=
  printfFrom none format.bytes arg

/-! ### The accessors -/

/-- `category->name`. -/
def U7ErrorCategory.name : U7ErrorCategory → CStr
  | .errno => .lit "Errno"

/-- `*error.payload`. -/
def U7Error.deref (error : U7Error) (m : Mem) : Except Fault U7ErrorPayload :=
  match error.payload with
  | some p => m.deref p
  | none => .error .deadObject

/-- The initialized bytes at the front of a buffer. -/
def initialized : List (Option UInt8) → List UInt8
  | some b :: bytes => b :: initialized bytes
  | _ => []

/-- The array that a message points to, as far as it may be read. -/
def Mem.text (m : Mem) : CharPtr → Except Fault (List UInt8)
  | .null => .error .outOfBounds
  | .fallbackMessage => .ok u7ErrnoCategoryStaticFallbackMessage.object
  | .block b =>
      match m.buffers.cell b with
      | some bytes => .ok (initialized bytes)
      | none => .error .deadObject

/-- `u7_error_category_name`. -/
def u7ErrorCategoryName (error : U7Error) (m : Mem) : Except Fault CStr :=
  if error.errorCode ≠ 0 then do
    let x ← error.deref m
    .ok x.category.name
  else .ok (.lit "OK")

/-- `u7_error_message`: the array that the result points to. -/
def u7ErrorMessage (error : U7Error) (m : Mem) : Except Fault (List UInt8) :=
  if error.errorCode ≠ 0 then do
    let x ← error.deref m
    m.text x.message
  else .ok (CStr.lit "ok").object

/-- `u7_error_message_length`. -/
def u7ErrorMessageLength (error : U7Error) (m : Mem) : Except Fault ℤ :=
  if error.errorCode ≠ 0 then do
    let x ← error.deref m
    .ok x.messageLength
  else .ok 2

/-- `U7_ERROR_FMT`. -/
def u7ErrorFmt : CStr :=
  .lit "s(%d): %*s"

/-- `U7_ERROR_FMT_PARAMS`. -/
def u7ErrorFmtParams (e : U7Error) (m : Mem) : Except Fault (List VaArg) := do
  let name ← u7ErrorCategoryName e m
  let length ← u7ErrorMessageLength e m
  let message ← u7ErrorMessage e m
  .ok [.str name.object, .int e.errorCode, .int length, .str message]

/-- What `printf("%" U7_ERROR_FMT, U7_ERROR_FMT_PARAMS(e))` prints. -/
def printError (e : U7Error) (m : Mem) : Except Fault (List UInt8) := do
  let arg ← u7ErrorFmtParams e m
  printf ((CStr.lit "%").append u7ErrorFmt) arg

/-! ### What is printed -/

theorem padded_zero (text : List UInt8) : padded 0 text = text := by
  simp [padded]

/-- A width that is not negative pads unless the text is at least as long. -/
theorem padded_eq_self_iff {width : ℤ} (hwidth : 0 ≤ width) {text : List UInt8} :
    padded width text = text ↔ width.toNat ≤ text.length := by
  rw [padded, if_neg (not_lt.mpr hwidth)]
  constructor
  · intro h
    have hlength := congrArg List.length h
    rw [List.length_append, List.length_replicate] at hlength
    omega
  · intro h
    rw [Nat.sub_eq_zero_of_le h]
    rfl

/-- The text of an error: its category, its code and its message. -/
def errorText (category : CStr) (errorCode : ℤ) (message : List UInt8) : List UInt8 :=
  category.bytes ++ (CStr.lit "(").bytes ++ decimal errorCode ++ (CStr.lit "): ").bytes ++ message

/-- `printf` with the format of errors pads the message. -/
theorem printf_u7ErrorFmt (category : CStr) (errorCode length : ℤ) {message : List UInt8}
    (hnul : 0 ∈ message) :
    printf ((CStr.lit "%").append u7ErrorFmt)
        [.str category.object, .int errorCode, .int length, .str message] =
      .ok (errorText category errorCode (padded length (cString message))) := by
  have hformat : ((CStr.lit "%").append u7ErrorFmt).bytes =
      [37, 115, 40, 37, 100, 41, 58, 32, 37, 42, 115] := rfl
  have hopen : (CStr.lit "(").bytes = [40] := rfl
  have hclose : (CStr.lit "): ").bytes = [41, 58, 32] := rfl
  rw [printf, hformat, errorText, hopen, hclose]
  have hpercent : '%'.toUInt8 = 37 := rfl
  have hstar : '*'.toUInt8 = 42 := rfl
  have hs : 's'.toUInt8 = 115 := rfl
  have hd : 'd'.toUInt8 = 100 := rfl
  simp [printfFrom, conversion, hpercent, hstar, hs, hd, vaArgStr, vaArgInt, padded_zero,
    cString_object, CStr.nul_mem_object, hnul]

/-- **Printing shows the message and nothing else**: the name of the category, the code, and
the message up to its first NUL, without padding. -/
def PrintsMessage (m : Mem) (e : U7Error) : Prop :=
  ∃ category message, u7ErrorCategoryName e m = .ok category ∧
    u7ErrorMessage e m = .ok message ∧ 0 ∈ message ∧
    printError e m = .ok (errorText category e.errorCode (cString message))

/-- `u7_ok()` is printed right. -/
theorem prints_u7Ok (m : Mem) : PrintsMessage m u7Ok := by
  refine ⟨.lit "OK", (CStr.lit "ok").object, rfl, rfl, CStr.nul_mem_object _, ?_⟩
  have hparams : u7ErrorFmtParams u7Ok m =
      .ok [.str (CStr.lit "OK").object, .int 0, .int 2, .str (CStr.lit "ok").object] := rfl
  have hpadded : padded 2 (cString (CStr.lit "ok").object) = cString (CStr.lit "ok").object :=
    (padded_eq_self_iff (by norm_num)).mpr le_rfl
  rw [printError, hparams, ok_bind, printf_u7ErrorFmt _ _ _ (CStr.nul_mem_object _), hpadded]
  rfl

section Payload

variable {m : Mem} {e : U7Error} {p : ℕ} {x : U7ErrorPayload}

/-- **An error with a payload** is printed right exactly if its message has no NUL inside of
its length. -/
theorem prints_payload_iff (hcode : e.errorCode ≠ 0) (hp : e.payload = some p)
    (hx : m.payloads.cell p = some x) {message : List UInt8}
    (htext : m.text x.message = .ok message) (hnul : 0 ∈ message) (hlength : 0 ≤ x.messageLength) :
    PrintsMessage m e ↔ x.messageLength.toNat ≤ (cString message).length := by
  have hderef : e.deref m = .ok x := by
    rw [U7Error.deref, hp]
    simp only [Mem.deref, hx]
  have hname : u7ErrorCategoryName e m = .ok x.category.name := by
    rw [u7ErrorCategoryName, if_pos hcode, hderef, ok_bind]
  have hmessage : u7ErrorMessage e m = .ok message := by
    rw [u7ErrorMessage, if_pos hcode, hderef, ok_bind, htext]
  have hlen : u7ErrorMessageLength e m = .ok x.messageLength := by
    rw [u7ErrorMessageLength, if_pos hcode, hderef, ok_bind]
  have hprint : printError e m = .ok (errorText x.category.name e.errorCode
      (padded x.messageLength (cString message))) := by
    rw [printError, u7ErrorFmtParams, hname, ok_bind, hlen, ok_bind, hmessage, ok_bind, ok_bind,
      printf_u7ErrorFmt _ _ _ hnul]
  rw [← padded_eq_self_iff hlength]
  constructor
  · rintro ⟨category, message', hname', hmessage', -, hprint'⟩
    rw [hname] at hname'
    rw [hmessage] at hmessage'
    obtain rfl := Except.ok.inj hname'
    obtain rfl := Except.ok.inj hmessage'
    rw [hprint] at hprint'
    exact List.append_cancel_left (Except.ok.inj hprint')
  · intro hpadded
    exact ⟨_, message, hname, hmessage, hnul, by rw [hprint, hpadded]⟩

/-- The fallback payload is as it was made, but for its counter. -/
def Mem.HasFallback (m : Mem) : Prop :=
  ∃ count, m.payloads.cell fallback =
    some { u7ErrnoCategoryStaticFallbackPayload with refcount := count }

/-- An error that fell back is printed right. -/
theorem prints_fallback (hfallback : m.HasFallback) {errorCode : ℤ} (hcode : errorCode ≠ 0) :
    PrintsMessage m ⟨errorCode, some fallback⟩ := by
  obtain ⟨count, hx⟩ := hfallback
  refine (prints_payload_iff hcode rfl hx rfl (CStr.nul_mem_object _) ?_).mpr ?_
  · norm_num [u7ErrnoCategoryStaticFallbackPayload, CStr.object]
  · rw [cString_object]
    norm_num [u7ErrnoCategoryStaticFallbackPayload, CStr.object]

end Payload

/-! ### What the calls of the C library count -/

section Counts

variable {ℓ : Libc} {m : Mem} {format : CStr} {arg : List VaArg}

theorem malloc_counts (ℓ : Libc) (size : ℕ) (m : Mem) :
    ((m.malloc ℓ size).1 = .null ↔ ℓ.allocates m.mallocs = false) ∧
      (m.malloc ℓ size).2.mallocs = m.mallocs + 1 ∧ (m.malloc ℓ size).2.prints = m.prints := by
  rw [Mem.malloc]
  cases ℓ.allocates m.mallocs <;> simp

theorem realloc_counts (ℓ : Libc) (message : CharPtr) (size : ℕ) (m : Mem) :
    Sat (m.realloc ℓ message size)
      (fun r => (r.1 = .null ↔ ℓ.allocates m.mallocs = false) ∧
        r.2.mallocs = m.mallocs + 1 ∧ r.2.prints = m.prints)
      (fun _ => True) := by
  cases message with
  | null => exact sat_ok (malloc_counts ℓ size m)
  | fallbackMessage => exact sat_error trivial
  | block b =>
      rw [Mem.realloc]
      cases m.buffers.cell b with
      | none => exact sat_error trivial
      | some bytes => cases hok : ℓ.allocates m.mallocs <;> simp [Sat]

theorem store_counts (m : Mem) (message : CharPtr) (offset : ℕ) (bytes : List UInt8) :
    Sat (m.store message offset bytes)
      (fun m' => m'.mallocs = m.mallocs ∧ m'.prints = m.prints) (fun _ => True) := by
  cases message with
  | null => exact sat_error trivial
  | fallbackMessage => exact sat_error trivial
  | block b =>
      rw [Mem.store]
      cases m.buffers.cell b with
      | none => exact sat_error trivial
      | some old => exact sat_ite (fun _ => sat_ok ⟨rfl, rfl⟩) fun _ => sat_error trivial

theorem vsnprintf_counts (ℓ : Libc) (message : CharPtr) (size : ℕ) (format : CStr)
    (arg : List VaArg) (m : Mem) :
    Sat (m.vsnprintf ℓ message size format arg)
      (fun r => r.1 = (ℓ.vsnprintf m.prints size format arg).1 ∧ r.2.mallocs = m.mallocs ∧
        r.2.prints = m.prints + 1)
      (fun _ => True) := by
  rw [Mem.vsnprintf]
  exact (store_counts _ _ _ _).bind fun m' h => sat_ok ⟨rfl, h⟩

/-- No call of the C library fails while an error with a text of the general path is made:
neither `malloc` or `realloc` of the message, nor `vsnprintf`, nor `malloc` of the
payload. -/
def NothingFails (ℓ : Libc) (format : CStr) (arg : List VaArg) (m : Mem) : Prop :=
  let n := (ℓ.vsnprintf m.prints 128 format arg).1
  ℓ.allocates m.mallocs = true ∧ 0 ≤ n ∧ ℓ.allocates (m.mallocs + 1) = true ∧
    (128 ≤ n → (ℓ.vsnprintf (m.prints + 1) (n + 1).toNat format arg).1 = n ∧
      ℓ.allocates (m.mallocs + 2) = true)

/-- The path ended at `ret`, and `malloc` of the payload will succeed. -/
def KeepsMessage (ℓ : Libc) (r : Label × Mem) : Prop :=
  (∃ message n, r.1 = .ret message n) ∧ ℓ.allocates r.2.mallocs = true

theorem not_keepsMessage_fail {message : CharPtr} : ¬ KeepsMessage ℓ (.fail message, m) := by
  rintro ⟨⟨_, _, ⟨⟩⟩, -⟩

/-- The path of a text that does not fit the first buffer. -/
theorem longMessage_keeps_iff (ℓ : Libc) (message : CharPtr) (n : ℤ) (format : CStr)
    (arg : List VaArg) (m : Mem) :
    Sat (longMessage ℓ message n format arg m)
      (fun r => KeepsMessage ℓ r ↔ ℓ.allocates m.mallocs = true ∧
        (ℓ.vsnprintf m.prints (n + 1).toNat format arg).1 = n ∧
        ℓ.allocates (m.mallocs + 1) = true)
      (fun _ => True) := by
  have hadd : Sat (intAdd n 1) (fun size => size = n + 1) (fun _ => True) :=
    sat_ite (fun _ => sat_ok rfl) fun _ => sat_error trivial
  rw [longMessage]
  refine hadd.bind ?_
  rintro _ rfl
  refine (realloc_counts ℓ message (n + 1).toNat m).bind ?_
  rintro ⟨tmp, m₁⟩ ⟨hnull, hmallocs, hprints⟩
  dsimp only at hnull hmallocs hprints ⊢
  refine sat_ite (fun h => sat_ok (iff_of_false not_keepsMessage_fail ?_)) fun h => ?_
  · rintro ⟨hok, -⟩
    rw [hnull.mp h] at hok
    cases hok
  have hok : ℓ.allocates m.mallocs = true := by simpa using hnull.not.mp h
  refine hadd.bind ?_
  rintro _ rfl
  refine (vsnprintf_counts ℓ tmp (n + 1).toNat format arg m₁).bind ?_
  rintro ⟨n', m₂⟩ ⟨hn', hmallocs₂, -⟩
  rw [hprints] at hn'
  rw [hmallocs] at hmallocs₂
  dsimp only at hn' hmallocs₂ ⊢
  rw [← hn']
  refine sat_ite (fun hne => sat_ok (iff_of_false not_keepsMessage_fail ?_)) fun heq => sat_ok ?_
  · rintro ⟨-, heq, -⟩
    exact hne heq
  · rw [KeepsMessage, hmallocs₂]
    constructor
    · rintro ⟨-, hpayload⟩
      exact ⟨hok, not_not.mp heq, hpayload⟩
    · rintro ⟨-, -, hpayload⟩
      exact ⟨⟨tmp, n, rfl⟩, hpayload⟩

/-- **The general path** ends at `ret`, with a payload to follow, exactly if nothing fails. -/
theorem generalMessage_keeps_iff (ℓ : Libc) (format : CStr) (arg : List VaArg) (m : Mem) :
    Sat (generalMessage ℓ format arg m)
      (fun r => KeepsMessage ℓ r ↔ NothingFails ℓ format arg m) (fun _ => True) := by
  rw [generalMessage]
  rcases hmalloc : m.malloc ℓ 128 with ⟨message, m₀⟩
  obtain ⟨hnull, hmallocs, hprints⟩ := malloc_counts ℓ 128 m
  rw [hmalloc] at hnull hmallocs hprints
  dsimp only at hnull hmallocs hprints ⊢
  refine sat_ite (fun h => sat_ok (iff_of_false not_keepsMessage_fail ?_)) fun h => ?_
  · rintro ⟨hok, -⟩
    rw [hnull.mp h] at hok
    cases hok
  have hok : ℓ.allocates m.mallocs = true := by simpa using hnull.not.mp h
  refine (vsnprintf_counts ℓ message 128 format arg m₀).bind ?_
  rintro ⟨n, m₁⟩ ⟨hn, hmallocs₁, hprints₁⟩
  rw [hprints] at hn hprints₁
  rw [hmallocs] at hmallocs₁
  dsimp only at hn hmallocs₁ hprints₁ ⊢
  rw [NothingFails, ← hn]
  refine sat_ite (fun hneg => sat_ok (iff_of_false not_keepsMessage_fail ?_)) fun hge => ?_
  · rintro ⟨-, hpos, -⟩
    omega
  refine sat_ite (fun hlt => sat_ok ?_) fun hlong => ?_
  · rw [KeepsMessage, hmallocs₁]
    constructor
    · rintro ⟨-, hpayload⟩
      exact ⟨hok, by omega, hpayload, fun hge => by omega⟩
    · rintro ⟨-, -, hpayload, -⟩
      exact ⟨⟨message, n, rfl⟩, hpayload⟩
  · refine (longMessage_keeps_iff ℓ message n format arg m₁).mono ?_ fun _ => id
    rintro r hr
    rw [hr, hmallocs₁, hprints₁]
    constructor
    · rintro ⟨hbuffer, hprint, hpayload⟩
      exact ⟨hok, by omega, hbuffer, fun _ => ⟨hprint, hpayload⟩⟩
    · rintro ⟨-, -, hbuffer, hrest⟩
      obtain ⟨hprint, hpayload⟩ := hrest (by omega)
      exact ⟨hbuffer, hprint, hpayload⟩

end Counts

/-! ### Created errors -/

theorem initialized_append (text : List UInt8) (rest : List (Option UInt8)) :
    initialized (text.map some ++ rest) = text ++ initialized rest := by
  induction text with
  | nil => rfl
  | cons b text ih => rw [List.map_cons, List.cons_append, initialized, ih, List.cons_append]

/-- What `%s` prints of a buffer is as long as the text in it unless the text has a NUL. -/
theorem length_le_cString_iff (text junk : List UInt8) :
    text.length ≤ (cString (text ++ 0 :: junk)).length ↔ 0 ∉ text := by
  constructor
  · intro hle hnul
    rw [cString_append _ hnul] at hle
    exact absurd (length_cString_lt_iff.mpr hnul) (not_lt.mpr hle)
  · exact length_le_cString_append _

section Created

variable {ℓ : Libc} {render : CStr → List VaArg → List UInt8} {m m' : Mem} {cause e : U7Error}
  {format : CStr} {arg : List VaArg}

/-- A message in a buffer is printed right exactly if its text has no NUL. -/
theorem prints_iff_of_carries {p b : ℕ} {n : ℤ} {bytes : List (Option UInt8)}
    {text : List UInt8} (hcode : e.errorCode ≠ 0) (hp : e.payload = some p)
    (hx : m.payloads.cell p = some (errnoPayload (.block b) n cause))
    (hb : m.buffers.cell b = some bytes) (hcarries : Carries text n bytes) :
    PrintsMessage m e ↔ 0 ∉ text := by
  obtain ⟨rfl, rest, rfl⟩ := hcarries
  have hinitialized : initialized (text.map some ++ [some 0] ++ rest) =
      text ++ 0 :: initialized rest := by
    rw [List.append_assoc, initialized_append]
    rfl
  have htext : m.text (.block b) = .ok (text ++ 0 :: initialized rest) := by
    simp only [Mem.text, hb, hinitialized]
  rw [prints_payload_iff hcode hp hx htext (by simp) (Int.natCast_nonneg _),
    ← length_le_cString_iff text (initialized rest)]
  rfl

/-- `vsnprintf` prints `render format arg`, cut off at `size`, or it fails and returns a
negative value, as it has to if the length is not an `int`. -/
def Libc.PrintsOrFails (ℓ : Libc) (render : CStr → List VaArg → List UInt8) : Prop :=
  ∀ call size format arg, 0 < size →
    (ℓ.vsnprintf call size format arg).1 < 0 ∨
      ((render format arg).length ≤ intMax ∧
        ℓ.vsnprintf call size format arg =
          (((render format arg).length : ℤ), (render format arg).take (size - 1) ++ [0]))

/-- The buffer carries a text, with a NUL in it exactly if the general path rendered one. -/
def CarriesText (render : CStr → List VaArg → List UInt8) (format : CStr) (arg : List VaArg)
    (n : ℤ) (bytes : List (Option UInt8)) : Prop :=
  ∃ text, Carries text n bytes ∧ (0 ∈ text ↔ ¬ FastFormat format ∧ 0 ∈ render format arg)

/-- The texts of the fast cases have no NUL. -/
theorem Carries.of_fast {text : List UInt8} {n : ℤ} {bytes : List (Option UInt8)}
    (h : Carries text n bytes) (hfast : FastFormat format) (hnul : 0 ∉ text) :
    CarriesText render format arg n bytes :=
  ⟨text, h, iff_of_false hnul fun hnot => hnot.1 hfast⟩

/-- **Every path leaves such a text behind**, or fails. -/
theorem messagePath_carriesText (hprints : ℓ.PrintsOrFails render) (format : CStr)
    (arg : List VaArg) (m : Mem) :
    Sat (messagePath ℓ format arg m)
      (fun r => r.1.Leaves m r.2 (CarriesText render format arg) True) (fun _ => True) := by
  rw [messagePath_eq]
  refine sat_ite (fun hempty => ?_) fun hempty => sat_ite (fun hstring => ?_) fun hstring =>
    sat_ite (fun hprecision => ?_) fun hprecision => ?_
  · refine (emptyMessage_leaves ℓ m).mono (fun _ h => h.mono (fun n bytes hcarries => ?_)
      fun _ => trivial) fun _ _ => trivial
    exact hcarries.of_fast (.inl hempty) List.not_mem_nil
  · rcases arg with _ | ⟨_ | object | _, rest⟩
    case cons.str =>
      refine (stringMessage_leaves ℓ m object rest).mono (fun _ h => h.mono
        (fun n bytes hcarries => ?_) fun _ => trivial) fun _ _ => trivial
      exact hcarries.of_fast (.inr (.inl hstring)) (nul_not_mem_cString object)
    all_goals exact sat_error trivial
  · rcases arg with _ | ⟨precision | _ | _, _ | ⟨_ | object | _, rest⟩⟩
    case cons.int.cons.str =>
      refine (precisionMessage_leaves ℓ m precision object rest).mono (fun _ h => h.mono
        (fun n bytes hcarries => ?_) fun _ => trivial) fun _ _ => trivial
      exact hcarries.of_fast (.inr (.inr hprecision))
        fun h => nul_not_mem_cString object (List.mem_of_mem_take h)
    all_goals exact sat_error trivial
  · have hslow : ¬ FastFormat format := by
      rintro (h | h | h)
      · exact hempty h
      · exact hstring h
      · exact hprecision h
    refine (generalMessage_leaves m ?_ (fun _ => trivial) (fun _ _ => trivial)
      fun _ _ _ _ _ _ => trivial).mono (fun _ => id) fun _ _ => trivial
    intro call size old hold h0 hlt
    have hsize : 0 < size := by omega
    obtain ⟨-, hprint⟩ := (hprints call size format arg hsize).resolve_left (not_lt.mpr h0)
    rw [hprint] at hlt ⊢
    refine ⟨render format arg, ⟨rfl, ?_⟩, (and_iff_right hslow).symm⟩
    rw [List.take_of_length_le (by omega)]
    simp [overwrite]

theorem Shrinks.hasFallback (h : Shrinks m m') (hfallback : m.HasFallback)
    {x : U7ErrorPayload} (hx : m'.payloads.cell fallback = some x) : m'.HasFallback := by
  obtain ⟨count, hcell⟩ := hfallback
  obtain ⟨y, count', hy, rfl⟩ := h.payload hx
  rw [hcell] at hy
  obtain rfl := Option.some.inj hy
  exact ⟨count', hx⟩

/-- The factory function makes a payload for a message if `malloc` succeeds, and else falls
back. -/
theorem makePayload_outcome (ℓ : Libc) (message : CharPtr) (n : ℤ) (cause : U7Error)
    (hfallback : m.HasFallback) :
    Sat (u7ErrnoCategoryMakePayloadFn ℓ message n cause m)
      (fun r => ((0 ≤ n ∧ ℓ.allocates m.mallocs = true) ∧ r.2.buffers = m.buffers ∧
          r.2.payloads.cell r.1 = some (errnoPayload message n cause)) ∨
        (¬ (0 ≤ n ∧ ℓ.allocates m.mallocs = true) ∧ r.1 = fallback ∧ r.2.HasFallback))
      (fun _ => True) := by
  have hfalls : ∀ m : Mem, m.HasFallback → Sat (fallbackPayload message cause m)
      (fun r => r.1 = fallback ∧ r.2.HasFallback) (fun _ => True) := by
    intro m hm
    refine ((freeMessage_shrinks m message).mono (fun _ => id) fun _ _ => trivial).bind
      fun m₁ hm₁ => ?_
    refine ((releaseLoop_shrinks _ _ m₁).mono (fun _ => id) fun _ _ => trivial).bind
      fun m₂ hm₂ => ?_
    refine ((deref_fault m₂ fallback).mono (fun _ => id) fun _ _ => trivial).bind
      fun x hx => sat_ok ⟨rfl, ?_⟩
    exact ((hm₁.1.trans hm₂.1).trans (shrinks_setRefcount _ _ _)).hasFallback hm
      (cell_setRefcount_self hx)
  rw [u7ErrnoCategoryMakePayloadFn]
  refine sat_ite (fun hneg => ?_) fun hge => sat_ite (fun hok => sat_ok ?_) fun hfail => ?_
  · exact (hfalls m hfallback).mono
      (fun r hr => .inr ⟨fun h => absurd h.1 (not_le.mpr hneg), hr⟩) fun _ => id
  · exact .inl ⟨⟨not_lt.mp hge, hok⟩, rfl, BlockHeap.cell_alloc_self⟩
  · exact (hfalls { m with mallocs := m.mallocs + 1 } hfallback).mono
      (fun r hr => .inr ⟨fun h => hfail h.2, hr⟩) fun _ => id

/-- **A created error** has a payload of its own with the message that its path left behind,
or it falls back. -/
theorem verrorfWithCause_outcome {C : ℤ → List (Option UInt8) → Prop} {E : Fault → Prop}
    {errorCode : ℤ} (hcode : errorCode ≠ 0) (hfallback : m.HasFallback)
    (hpath : Sat (messagePath ℓ format arg m) (fun r => r.1.Leaves m r.2 C True) E)
    (hcreate : u7VerrorfWithCause ℓ u7ErrnoCategory errorCode cause format arg m =
      .ok (e, m')) :
    ∃ r, messagePath ℓ format arg m = .ok r ∧
      ((KeepsMessage ℓ r ∧ ∃ p b n bytes, e = ⟨errorCode, some p⟩ ∧
          m'.payloads.cell p = some (errnoPayload (.block b) n cause) ∧
          m'.buffers.cell b = some bytes ∧ C n bytes) ∨
        (¬ KeepsMessage ℓ r ∧ e = ⟨errorCode, some fallback⟩ ∧ m'.HasFallback)) := by
  rw [u7VerrorfWithCause, if_neg hcode, bind_eq_ok_iff] at hcreate
  obtain ⟨⟨⟨message, n⟩, m₂⟩, hformat, hcreate⟩ := hcreate
  obtain ⟨⟨p, m₃⟩, hmake, hcreate⟩ := bind_eq_ok_iff.mp hcreate
  obtain ⟨rfl, rfl⟩ := Prod.mk.inj (Except.ok.inj hcreate)
  obtain ⟨⟨label, m₁⟩, hlabel, hret⟩ := bind_eq_ok_iff.mp hformat
  refine ⟨(label, m₁), hlabel, ?_⟩
  have hcongr : ∀ {m₂ : Mem}, m₂.payloads = m.payloads → m₂.HasFallback := by
    intro m₂ hpayloads
    rw [Mem.HasFallback, hpayloads]
    exact hfallback
  have hfails : ∀ {message m₂}, (CharPtr.null, (-1 : ℤ)) = (message, n) →
      m₂.payloads = m.payloads →
      u7ErrnoCategoryMakePayloadFn ℓ message n cause m₂ = .ok (p, m₃) →
      p = fallback ∧ m₃.HasFallback := by
    intro message m₂ hn hpayloads hmake
    obtain ⟨rfl, rfl⟩ := Prod.mk.inj hn
    rcases (makePayload_outcome ℓ _ _ cause (hcongr hpayloads)).of_eq_ok hmake with
      ⟨⟨hpos, -⟩, -⟩ | ⟨-, hfalls⟩
    · norm_num at hpos
    · exact hfalls
  cases hpath.of_eq_ok hlabel with
  | @ret b k bytes hnew hk hc =>
      obtain ⟨hr, rfl⟩ := Prod.mk.inj (Except.ok.inj hret)
      obtain ⟨rfl, rfl⟩ := Prod.mk.inj hr
      have hkeeps : KeepsMessage ℓ (.ret (.block b) k, m₁) ↔
          0 ≤ k ∧ ℓ.allocates m₁.mallocs = true :=
        ⟨fun h => ⟨hk, h.2⟩, fun h => ⟨⟨_, _, rfl⟩, h.2⟩⟩
      rw [hkeeps]
      rcases (makePayload_outcome ℓ _ _ cause (hcongr hnew.payloads)).of_eq_ok hmake with
        ⟨hkeep, hbuffers, hpayload⟩ | ⟨hnot, rfl, hfalls⟩
      · exact .inl ⟨hkeep, p, b, k, bytes, rfl, hpayload, by rw [hbuffers, hnew.self], hc⟩
      · exact .inr ⟨hnot, rfl, hfalls⟩
  | failNull hsame _ =>
      obtain ⟨hr, rfl⟩ := Prod.mk.inj (Except.ok.inj hret)
      obtain ⟨rfl, hfalls⟩ := hfails hr hsame.payloads hmake
      exact .inr ⟨not_keepsMessage_fail, rfl, hfalls⟩
  | failBlock hnew _ =>
      obtain ⟨m₄, hfree, hsame⟩ := hnew.free
      simp only [Label.toRet, hfree, ok_bind] at hret
      obtain ⟨hr, rfl⟩ := Prod.mk.inj (Except.ok.inj hret)
      obtain ⟨rfl, hfalls⟩ := hfails hr hsame.payloads hmake
      exact .inr ⟨not_keepsMessage_fail, rfl, hfalls⟩

end Created

/-- The ownership invariant keeps the fallback payload as it was made. -/
theorem Owned.hasFallback {m : Mem} {out loose : ℕ → ℕ} (h : Owned m out loose) :
    m.HasFallback :=
  h.pinned

/-- **Errors are printed right unless the general path rendered a NUL.** `u7_ok()` is, and
every error with the fallback payload is. A created error is exactly if its code is `0`, its
format has a path of its own, the rendered text has no NUL, or some call of the C library
failed, so that the error fell back. -/
theorem prints_message_iff (ℓ : Libc) (render : CStr → List VaArg → List UInt8)
    (hprints : ℓ.PrintsOrFails render) (errorCode : ℤ) (cause : U7Error) (format : CStr)
    (arg : List VaArg) (m m' : Mem) (hfallback : m.HasFallback) (e : U7Error)
    (hcreate : u7VerrorfWithCause ℓ u7ErrnoCategory errorCode cause format arg m =
      .ok (e, m')) :
    (∀ m, PrintsMessage m u7Ok) ∧
    (∀ m errorCode, m.HasFallback → errorCode ≠ 0 →
      PrintsMessage m ⟨errorCode, some fallback⟩) ∧
    (PrintsMessage m' e ↔ errorCode = 0 ∨ FastFormat format ∨ 0 ∉ render format arg ∨
      ¬ NothingFails ℓ format arg m) := by
  refine ⟨prints_u7Ok, fun m errorCode hm hcode => prints_fallback hm hcode, ?_⟩
  by_cases hcode : errorCode = 0
  · rw [u7VerrorfWithCause, if_pos hcode, bind_eq_ok_iff] at hcreate
    obtain ⟨m₁, -, hr⟩ := hcreate
    obtain ⟨rfl, rfl⟩ := Prod.mk.inj (Except.ok.inj hr)
    exact iff_of_true (prints_u7Ok m₁) (.inl hcode)
  rw [or_iff_right hcode]
  obtain ⟨r, hpath, hcases⟩ := verrorfWithCause_outcome hcode hfallback
    (messagePath_carriesText hprints format arg m) hcreate
  -- on the general path the error has a payload of its own exactly if nothing failed
  have hkeeps : ¬ FastFormat format → (KeepsMessage ℓ r ↔ NothingFails ℓ format arg m) := by
    intro hslow
    rw [messagePath_of_not_fast hslow] at hpath
    exact (generalMessage_keeps_iff ℓ format arg m).of_eq_ok hpath
  rcases hcases with ⟨hkeep, p, b, n, bytes, rfl, hx, hb, text, hcarries, hnul⟩ |
    ⟨hnot, rfl, hfalls⟩
  · rw [prints_iff_of_carries hcode rfl hx hb hcarries, hnul, not_and_or, not_not]
    refine or_congr_right' fun hslow => ⟨.inl, fun h => h.resolve_right ?_⟩
    exact not_not.mpr ((hkeeps hslow).mp hkeep)
  · refine iff_of_true (prints_fallback hfalls hcode) ?_
    by_cases hfast : FastFormat format
    · exact .inl hfast
    · exact .inr (.inr (mt (hkeeps hfast).mpr hnot))

/-- A renderer for formats that begin with `%c`. -/
def renderChar (format : CStr) : List VaArg → List UInt8
  | .int n :: _ => [UInt8.ofNat n.toNat]
  | _ => format.bytes

/-- A C library that never runs out of memory, and whose `vsnprintf` fails on texts whose
length is not an `int`. -/
def Libc.ofShort (render : CStr → List VaArg → List UInt8) : Libc where
  allocates := fun _ => true
  vsnprintf := fun call size format arg =>
    if (render format arg).length ≤ intMax then
      (Libc.ofRender render).vsnprintf call size format arg
    else (-1, [])
  vsnprintf_le := by
    intro call size format arg
    split_ifs
    · exact (Libc.ofRender render).vsnprintf_le call size format arg
    · exact Nat.zero_le size

theorem printsOrFails_ofShort (render : CStr → List VaArg → List UInt8) :
    (Libc.ofShort render).PrintsOrFails render := by
  intro call size format arg hsize
  by_cases hlength : (render format arg).length ≤ intMax
  · refine .inr ⟨hlength, ?_⟩
    rw [← prints_ofRender render call size format arg hsize hlength]
    exact if_pos hlength
  · refine .inl ?_
    simp only [Libc.ofShort, if_neg hlength]
    norm_num

theorem hasFallback_start : Mem.start.HasFallback :=
  owned_start.hasFallback

set_option maxRecDepth 2000 in
/-- The letter `A` is printed. -/
theorem prints_message_iff_letter :
    ∃ e m', u7VerrorfWithCause (.ofShort renderChar) u7ErrnoCategory 22 u7Ok (.lit "%c")
        [.int 65] Mem.start = .ok (e, m') ∧ PrintsMessage m' e :=
  ⟨_, _, rfl, (prints_message_iff (.ofShort renderChar) renderChar
    (printsOrFails_ofShort renderChar) 22 u7Ok (.lit "%c") [.int 65] Mem.start _
    hasFallback_start _ rfl).2.2.mpr (.inr (.inr (.inl (by decide))))⟩

set_option maxRecDepth 2000 in
/-- **A NUL is printed as a space**: the message of an error that `"%c"` and `0` made has
length `1`, and `%*s` pads the empty string to that. -/
theorem printed_nul_pads :
    ∃ e m', u7VerrorfWithCause (.ofShort renderChar) u7ErrnoCategory 22 u7Ok (.lit "%c")
        [.int 0] Mem.start = .ok (e, m') ∧
      printError e m' = .ok (CStr.lit "Errno(22):  ").bytes ∧
      u7ErrorMessage e m' = .ok [0, 0] ∧ ¬ PrintsMessage m' e := by
  refine ⟨_, _, rfl, rfl, rfl, ?_⟩
  rintro ⟨category, message, hcategory, hmessage, -, hprint⟩
  obtain rfl := Except.ok.inj hcategory
  obtain rfl := Except.ok.inj hmessage
  exact absurd (Except.ok.inj hprint) (by decide)

end U7Init
