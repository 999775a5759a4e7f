import U7Init.Error.Create

/-!
# What a Created Error Says

This module compares the paths of `u7_verrorf_with_cause` with the general formatter. The
byte string that `printf` would produce is a parameter, `render`; what the C standard says
of it for the three formats of the fast cases, and of `vsnprintf` in terms of it, are the
named assumptions `Printf` and `Libc.Prints`.

## Main results

* `messagePath_renders`: every path leaves the rendered bytes and a terminator behind.
* `message_eq_render`: so does the created error, whichever path was taken, and bytes
  behind the end of a string are not looked at.
-/

namespace U7Init

open Outcome MachineInt

/-- What `printf` produces for the formats of the fast cases. -/
structure Printf (render : CStr → List VaArg → List UInt8) : Prop where
  empty : ∀ arg, render (.lit "") arg = []
  string : ∀ object arg, 0 ∈ object →
    render (.lit "%s") (.str object :: arg) = cString object
  precision : ∀ precision object arg, Readable object precision →
    render (.lit "%.*s") (.int precision :: .str object :: arg) =
      if precision < 0 then cString object else (cString object).take precision.toNat

/-- `vsnprintf` writes the first `size - 1` bytes and a terminator, and returns the full
length, if that is an `int`. -/
def Libc.Prints (ℓ : Libc) (render : CStr → List VaArg → List UInt8) : Prop :=
  ∀ call size format arg, 0 < size → (render format arg).length ≤ intMax →
    ℓ.vsnprintf call size format arg =
      (((render format arg).length : ℤ), (render format arg).take (size - 1) ++ [0])

section Render

variable {ℓ : Libc} {render : CStr → List VaArg → List UInt8} {format : CStr}
  {arg : List VaArg}

/-- The general path prints the whole text, on its first or on its second attempt. -/
theorem generalMessage_renders (hprints : ℓ.Prints render)
    (halloc : ∀ n, ℓ.allocates n = true)
    (hlen : ((render format arg).length : ℤ) + 1 ≤ intMax) (m : Mem) :
    Sat (generalMessage ℓ format arg m)
      (fun r => r.1.Leaves m r.2 (Carries (render format arg)) False) (fun _ => False) := by
  have hprint : ∀ call size, 0 < size → ℓ.vsnprintf call size format arg =
      (((render format arg).length : ℤ), (render format arg).take (size - 1) ++ [0]) :=
    fun call size hsize => hprints call size format arg hsize (by omega)
  have hreturn : ∀ call size, 0 < size →
      (ℓ.vsnprintf call size format arg).1 = (render format arg).length :=
    fun call size hsize => by rw [hprint call size hsize]
  refine (generalMessage_leaves m ?_ ?_ ?_ ?_).mono (fun _ => id) ?_
  · intro call size old hold h0 hlt
    have hsize : 0 < size := by omega
    rw [hreturn call size hsize] at hlt
    rw [hprint call size hsize, List.take_of_length_le (by omega)]
    refine ⟨rfl, ?_⟩
    simp [overwrite]
  · rintro ⟨n, hn⟩
    rw [halloc n] at hn
    cases hn
  · intro call hneg
    rw [hreturn call 128 (by norm_num)] at hneg
    omega
  · intro call call' size hsize _ hne
    rw [hreturn call 128 (by norm_num), hreturn call' size (by omega)] at hne
    exact hne rfl
  · rintro e ⟨-, -, hmax⟩
    rw [hreturn m.prints 128 (by norm_num)] at hmax
    omega

/-- **Every path leaves the rendered text behind.** -/
theorem messagePath_renders (hrender : Printf render) (hprints : ℓ.Prints render)
    (halloc : ∀ n, ℓ.allocates n = true) (hmatch : Matches format arg)
    (hlen : ((render format arg).length : ℤ) + 1 ≤ intMax) (m : Mem) :
    Sat (messagePath ℓ format arg m)
      (fun r => r.1.Leaves m r.2 (Carries (render format arg)) False) (fun _ => False) := by
  have hfailing : (∃ n, ℓ.allocates n = false) → False := by
    rintro ⟨n, hn⟩
    rw [halloc n] at hn
    cases hn
  rw [messagePath_eq]
  refine sat_ite (fun hempty => ?_) fun _ => sat_ite (fun hstring => ?_) fun _ =>
    sat_ite (fun hprecision => ?_) fun _ => generalMessage_renders hprints halloc hlen m
  · rw [hempty, hrender.empty arg]
    exact (emptyMessage_leaves ℓ m).mono (fun _ h => h.mono (fun _ _ => id) hfailing)
      fun _ => id
  · obtain ⟨object, rest, rfl, hnul⟩ := hmatch.string hstring
    rw [hstring, hrender.string object rest hnul] at hlen ⊢
    refine (stringMessage_leaves ℓ m object rest).mono
      (fun _ h => h.mono (fun _ _ => id) hfailing) ?_
    rintro e (⟨-, hnul'⟩ | ⟨-, -, hmax⟩)
    · exact hnul' hnul
    · omega
  · obtain ⟨precision, object, rest, rfl, hread⟩ := hmatch.precision hprecision
    have htext : (cString object).take (strlenLimit precision).toNat =
        render format (.int precision :: .str object :: rest) := by
      rw [hprecision, hrender.precision precision object rest hread] at hlen ⊢
      rw [strlenLimit]
      split_ifs at hlen ⊢ with hneg
      · exact List.take_of_length_le (by omega)
      · rfl
    rw [← htext]
    exact (precisionMessage_leaves ℓ m precision object rest).mono
      (fun _ h => h.mono (fun _ _ => id) hfailing) fun e he => he.2 hread

end Render

/-! ### What is not read -/

section Tails

variable {object : List UInt8} {precision : ℤ} (ℓ : Libc) (junk : List UInt8)

/-- A string ends at its terminator. -/
theorem cString_append (hnul : 0 ∈ object) : cString (object ++ junk) = cString object := by
  induction object with
  | nil => simp at hnul
  | cons b object ih =>
      by_cases hb : b = 0
      · subst hb
        simp [cString]
      · have hrest : 0 ∈ object := (List.mem_cons.mp hnul).resolve_left (Ne.symm hb)
        have hcons : ∀ l, cString (b :: l) = b :: cString l := by
          intro l
          simp [cString, hb]
        rw [List.cons_append, hcons, hcons, ih hrest]

/-- Without a terminator the string is at least the whole array. -/
theorem length_le_cString_append (hnul : 0 ∉ object) :
    object.length ≤ (cString (object ++ junk)).length := by
  have hall : ∀ b ∈ object, (b != 0) = true := by
    intro b hb
    exact bne_iff_ne.mpr fun h0 => hnul (h0 ▸ hb)
  rw [cString, List.takeWhile_append_of_pos hall, List.length_append]
  exact Nat.le_add_right _ _

theorem readBytes_append {n : ℕ} (hn : n ≤ object.length) :
    readBytes (object ++ junk) n = readBytes object n := by
  rw [readBytes, readBytes, if_pos hn, if_pos (by rw [List.length_append]; omega),
    List.take_append_of_le_length hn]

/-- The length does not depend on what follows the string. -/
theorem u7SafeStrlen_append (hread : Readable object precision) :
    u7SafeStrlen (object ++ junk) precision = u7SafeStrlen object precision := by
  rw [u7SafeStrlen_eq, u7SafeStrlen_eq]
  by_cases hnul : 0 ∈ object
  · have hlt := length_cString_lt_iff.mpr hnul
    have hlt' : (cString object).length < (object ++ junk).length := by
      rw [List.length_append]
      omega
    rw [cString_append junk hnul, if_pos hlt, if_pos hlt']
  · -- the precision ends the string before the array does
    obtain ⟨h0, hle⟩ := hread.resolve_left hnul
    have hold := length_le_cString_append [] hnul
    have hnew := length_le_cString_append junk hnul
    rw [List.append_nil] at hold
    rw [if_neg (not_lt.mpr h0), if_neg (by omega), if_neg (by omega)]

/-- The length is at most that of the string. -/
theorem toNat_u7SafeStrlen_le {n : ℤ} (hn : u7SafeStrlen object precision = .ok n) :
    n.toNat ≤ (cString object).length := by
  rw [u7SafeStrlen_eq] at hn
  split_ifs at hn
  all_goals
    obtain rfl := Except.ok.inj hn
    omega

theorem stringMessage_append (arg : List VaArg) (m : Mem) (hnul : 0 ∈ object) :
    stringMessage ℓ (.str (object ++ junk) :: arg) m =
      stringMessage ℓ (.str object :: arg) m := by
  simp only [stringMessage, vaArgStr, ok_bind, u7SafeStrlen_append junk (.inl hnul)]
  cases hlen : u7SafeStrlen object (-1) with
  | error e => rfl
  | ok n =>
      have hn := toNat_u7SafeStrlen_le hlen
      have hlt := length_cString_lt_iff.mpr hnul
      simp only [ok_bind]
      cases hadd : intAdd n 1 with
      | error e => rfl
      | ok size =>
          rw [intAdd] at hadd
          split_ifs at hadd
          obtain rfl := Except.ok.inj hadd
          have hsize : (n + 1).toNat ≤ object.length := by omega
          simp only [ok_bind, readBytes_append junk hsize]

theorem precisionMessage_append (arg : List VaArg) (m : Mem)
    (hread : Readable object precision) :
    precisionMessage ℓ (.int precision :: .str (object ++ junk) :: arg) m =
      precisionMessage ℓ (.int precision :: .str object :: arg) m := by
  simp only [precisionMessage, vaArgInt, vaArgStr, ok_bind, u7SafeStrlen_append junk hread]
  cases hlen : u7SafeStrlen object precision with
  | error e => rfl
  | ok n =>
      have hn : n.toNat ≤ object.length :=
        (toNat_u7SafeStrlen_le hlen).trans (cString_isPrefixOf object).length_le
      simp only [ok_bind, copyMessage, readBytes_append junk hn]

end Tails

/-- The same arguments with more bytes behind the first string. -/
def appendJunk (junk : List UInt8) : List VaArg → List VaArg
  | .str object :: arg => .str (object ++ junk) :: arg
  | .int precision :: .str object :: arg => .int precision :: .str (object ++ junk) :: arg
  | arg => arg

/-- The fast cases do not look at what lies behind the string. -/
theorem messagePath_appendJunk (ℓ : Libc) {format : CStr} {arg : List VaArg}
    (hmatch : Matches format arg) (hfast : format = .lit "%s" ∨ format = .lit "%.*s")
    (junk : List UInt8) (m : Mem) :
    messagePath ℓ format (appendJunk junk arg) m = messagePath ℓ format arg m := by
  rw [messagePath_eq, messagePath_eq]
  rcases hfast with rfl | rfl
  · obtain ⟨object, rest, rfl, hnul⟩ := hmatch.string rfl
    rw [appendJunk, stringMessage_append ℓ junk rest m hnul]
    rfl
  · obtain ⟨precision, object, rest, rfl, hread⟩ := hmatch.precision rfl
    rw [appendJunk, precisionMessage_append ℓ junk rest m hread]
    rfl

/-- A path that leaves a text behind makes an error that carries it. -/
theorem verrorfWithCause_carries {ℓ : Libc} {format : CStr} {arg : List VaArg} {m : Mem}
    {text : List UInt8} (halloc : ∀ n, ℓ.allocates n = true) {errorCode : ℤ}
    (hcode : errorCode ≠ 0) (cause : U7Error)
    (hpath : Sat (messagePath ℓ format arg m)
      (fun r => r.1.Leaves m r.2 (Carries text) False) (fun _ => False)) :
    ∃ p b bytes m', u7VerrorfWithCause ℓ u7ErrnoCategory errorCode cause format arg m =
        .ok ({ errorCode := errorCode, payload := some p }, m') ∧
      m.payloads.cell p = none ∧ m.buffers.cell b = none ∧
      m'.payloads.cell p = some (errnoPayload (.block b) text.length cause) ∧
      m'.buffers.cell b = some bytes ∧ text.map some ++ [some 0] <+: bytes := by
  obtain ⟨⟨⟨message, n⟩, m₁⟩, hformat, hformatted⟩ :=
    (formatMessage_of_leaves hpath).exists_ok
  obtain ⟨b, n, bytes, hr, hn, hnew, rfl, hbytes⟩ := hformatted.resolve_right fun h => h.2.2
  obtain ⟨rfl, rfl⟩ := Prod.mk.inj hr
  refine ⟨m₁.payloads.next, b, bytes,
    { m₁ with
      payloads := m₁.payloads.alloc (errnoPayload (.block b) text.length cause)
      mallocs := m₁.mallocs + 1 }, ?_, ?_, hnew.fresh, BlockHeap.cell_alloc_self, hnew.self,
    hbytes⟩
  · simp only [u7VerrorfWithCause, hcode, if_false, hformat, ok_bind,
      U7ErrorCategory.makePayloadFn, u7ErrnoCategoryMakePayloadFn, halloc, if_true,
      not_lt.mpr hn]
  · rw [← hnew.payloads]
    exact m₁.payloads.cell_next

/-- **The created error says what `printf` would print.** When every allocation succeeds
and the rendered text with its terminator has at most `INT_MAX` bytes, the new payload
carries the rendered text followed by a terminator, its length, the cause and the code.
The format is an array that ends with its terminator, and so may be the string of `"%s"`
and of `"%.*s"`, or it may have exactly as many bytes as the precision says: no byte
behind them is read, and none there changes the result. -/
theorem message_eq_render (ℓ : Libc) (render : CStr → List VaArg → List UInt8)
    (hrender : Printf render) (hprints : ℓ.Prints render)
    (halloc : ∀ n, ℓ.allocates n = true) (errorCode : ℤ) (hcode : errorCode ≠ 0)
    (cause : U7Error) (format : CStr) (arg : List VaArg) (hmatch : Matches format arg)
    (hlen : ((render format arg).length : ℤ) + 1 ≤ intMax) (m : Mem) :
    (∃ p b bytes m',
      u7VerrorfWithCause ℓ u7ErrnoCategory errorCode cause format arg m =
        .ok ({ errorCode := errorCode, payload := some p }, m') ∧
      m.payloads.cell p = none ∧ m.buffers.cell b = none ∧
      m'.payloads.cell p = some
        { refcount := u7RefcountInit
          disposeFn := some .errnoCategoryPayload
          category := .errno
          message := .block b
          messageLength := (render format arg).length
          cause := cause } ∧
      m'.buffers.cell b = some bytes ∧
      (render format arg).map some ++ [some 0] <+: bytes) ∧
    ((format = .lit "%s" ∨ format = .lit "%.*s") → ∀ junk,
      u7VerrorfWithCause ℓ u7ErrnoCategory errorCode cause format (appendJunk junk arg) m =
        u7VerrorfWithCause ℓ u7ErrnoCategory errorCode cause format arg m) := by
  constructor
  · exact verrorfWithCause_carries halloc hcode cause
      (messagePath_renders hrender hprints halloc hmatch hlen m)
  · intro hfast junk
    simp only [u7VerrorfWithCause, formatMessage, messagePath_appendJunk ℓ hmatch hfast]

/-- A renderer for the three formats of the fast cases and for formats without
conversions. -/
def renderPlain (format : CStr) : List VaArg → List UInt8
  | .str object :: _ => if format = .lit "%s" nul_free_string then cString object else format.bytes
  | .int precision :: .str object :: _ =>
      if format = .lit "%.*s" nul_free_precision then
        if precision < 0 then cString object else (cString object).take precision.toNat
      else format.bytes
  | _ => format.bytes

theorem printf_renderPlain : Printf renderPlain where
  empty := by
    intro arg
    rcases arg with _ | ⟨_ | _ | _, _ | ⟨_ | _ | _, _⟩⟩ <;> rfl
  string := fun _ _ _ => rfl
  precision := fun _ _ _ _ => rfl

theorem prints_ofRender (render : CStr → List VaArg → List UInt8) :
    (Libc.ofRender render).Prints render := by
  intro call size format arg hsize _
  have hle : ((render format arg).take (size - 1) ++ [0]).length ≤ size := by
    simp only [List.length_append, List.length_take, List.length_singleton]
    omega
  simp only [Libc.ofRender, List.take_of_length_le hle]

/-- `"%.*s"` with precision `3` and an array of three bytes without a terminator. -/
theorem message_eq_render_unterminated :
    ∃ p b bytes m', u7VerrorfWithCause (.ofRender renderPlain) u7ErrnoCategory 22 u7Ok
        (.lit "%.*s") [.int 3, .str [97, 98, 99]] Mem.start =
          .ok ({ errorCode := 22, payload := some p }, m') ∧
      m'.payloads.cell p = some
        { refcount := u7RefcountInit
          disposeFn := some .errnoCategoryPayload
          category := .errno
          message := .block b
          messageLength := 3
          cause := u7Ok } ∧
      m'.buffers.cell b = some bytes ∧
      [some 97, some 98, some 99, some 0] <+: bytes := by
  obtain ⟨⟨p, b, bytes, m', hcreate, -, -, hpayload, hbuffer, hbytes⟩, -⟩ :=
    message_eq_render (.ofRender renderPlain) renderPlain printf_renderPlain
      (prints_ofRender renderPlain) (fun _ => rfl) 22 (by decide) u7Ok (.lit "%.*s")
      [.int 3, .str [97, 98, 99]]
      { string := fun h => absurd h (by decide)
        precision := fun _ => ⟨3, [97, 98, 99], [], rfl, .inr (by decide)⟩ }
      (by decide) Mem.start
  exact ⟨p, b, bytes, m', hcreate, hpayload, hbuffer, hbytes⟩

end U7Init
