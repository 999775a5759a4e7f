import U7Init.Error.Failures
import U7Init.Error.Message

/-!
# Lengths near `INT_MAX`

This module says for which inputs the length arithmetic of `u7_verrorf_with_cause` stays
in the range of `int`. `u7_safe_strlen` looks at `INT_MAX` bytes at most, so it may return
`INT_MAX`, and so may `vsnprintf`. The path of `"%.*s"` adds `1` to the length in `size_t`;
the path of `"%s"` and the general path add it in `int`.

What the path of `"%s"` does depends on the argument alone, and so is its condition. The
general path asks `vsnprintf`, so its condition speaks of the value that this call returns,
which the C library decides. Neither is reached when the first allocation fails. The property
that is characterised, `LengthsSafe`, says more than that nothing overflows: nothing is written
outside of the message buffer, and nothing is read behind the terminator of a string or behind
the given precision.

## Main results

* `messagePath_overflows`: where a path adds `1` to `INT_MAX`, the program has undefined
  behaviour.
* `formatMessage_ok_iff`: this is the only way in which formatting fails.
* `lengths_safe_iff`: so it is for `u7_verrorf_with_cause`.
-/

namespace U7Init

open Outcome

section Overflow

variable {ℓ : Libc} {m : Mem} {format : CStr} {arg : List VaArg}

/-- Where `malloc` succeeds it gives a buffer. -/
theorem malloc_block (size : ℕ) (h : ℓ.allocates m.mallocs = true) :
    ∃ b m', m.malloc ℓ size = (.block b, m') ∧ NewBuffer m m' b (List.replicate size none) ∧
      m'.prints = m.prints := by
  rcases malloc_cases ℓ size m with ⟨m', -, -, hfail⟩ | ⟨b, m', hmalloc, hnew⟩
  · rw [h] at hfail
    cases hfail
  · exact ⟨b, m', hmalloc, hnew, (malloc_ok hmalloc).2⟩

/-- The path of `"%s"` with a string of `INT_MAX` bytes or more. -/
theorem stringMessage_overflows {object : List UInt8} (rest : List VaArg)
    (hok : ℓ.allocates m.mallocs = true) (hlong : intMax ≤ (cString object).length) :
    stringMessage ℓ (.str object :: rest) m = .error .signedOverflow := by
  obtain ⟨b, m', hmalloc, -, -⟩ := malloc_block (intMax.toNat + 1) hok
  have hneg : (-1 : ℤ) < 0 := by norm_num
  have hmax : ¬ (cString object).length < intMax.toNat := by omega
  simp only [stringMessage, vaArgStr, ok_bind, u7SafeStrlen_eq, hneg, if_true, hmax, if_false,
    hmalloc, reduceCtorEq, intAdd_intMax le_rfl, error_bind]

/-- The general path with a text of `INT_MAX` bytes. -/
theorem generalMessage_overflows (hok : ℓ.allocates m.mallocs = true)
    (hlong : intMax ≤ (ℓ.vsnprintf m.prints 128 format arg).1) :
    generalMessage ℓ format arg m = .error .signedOverflow := by
  obtain ⟨b, m', hmalloc, hnew, hcall⟩ := malloc_block 128 hok
  obtain ⟨m₁, hprint, -⟩ := hnew.vsnprintf ℓ (show 128 ≤ _ by simp) format arg
  rw [← hcall] at hlong
  have hbig : (128 : ℤ) < intMax := by norm_num [intMax]
  have hneg : ¬ (ℓ.vsnprintf m'.prints 128 format arg).1 < 0 := by omega
  have hshort : ¬ (ℓ.vsnprintf m'.prints 128 format arg).1 < ((128 : ℕ) : ℤ) := by
    push_cast
    omega
  simp only [generalMessage, hmalloc, reduceCtorEq, if_false, hprint, ok_bind, hneg, hshort,
    longMessage, intAdd_intMax hlong, error_bind]

/-- **A path that adds `1` to `INT_MAX`** has undefined behaviour. -/
theorem messagePath_overflows (h : Overflows ℓ format arg m) :
    messagePath ℓ format arg m = .error .signedOverflow := by
  obtain ⟨hok, hlong⟩ := h
  rw [messagePath_eq]
  split_ifs at hlong ⊢ with hempty hstring hprecision
  · obtain ⟨object, rest, rfl, hlong⟩ := hlong
    exact stringMessage_overflows rest hok hlong
  · exact generalMessage_overflows hok hlong

theorem formatMessage_overflows (h : Overflows ℓ format arg m) :
    formatMessage ℓ format arg m = .error .signedOverflow := by
  rw [formatMessage, messagePath_overflows h, error_bind]

/-- **Formatting** succeeds unless the length leaves the range of `int`. -/
theorem formatMessage_ok_iff (hmatch : Matches format arg) :
    (∃ r, formatMessage ℓ format arg m = .ok r) ↔ ¬ Overflows ℓ format arg m := by
  constructor
  · rintro ⟨r, hr⟩ hoverflows
    rw [formatMessage_overflows hoverflows] at hr
    cases hr
  · intro hlength
    obtain ⟨r, hr, -⟩ := ((formatMessage_safe ℓ format arg m).mono (fun _ => id)
      fun _ he => hlength (he hmatch).2).exists_ok
    exact ⟨r, hr⟩

end Overflow

/-- Creating an error computes no `int` outside of the range of `int`, writes nothing
outside of the message buffer, and reads nothing behind the terminator of a string or the
given precision, so that no byte there makes a difference. -/
structure LengthsSafe (ℓ : Libc) (errorCode : ℤ) (cause : U7Error) (format : CStr)
    (arg : List VaArg) (m : Mem) : Prop where
  overflow : u7VerrorfWithCause ℓ u7ErrnoCategory errorCode cause format arg m ≠
    .error .signedOverflow
  bounds : u7VerrorfWithCause ℓ u7ErrnoCategory errorCode cause format arg m ≠
    .error .outOfBounds
  formats : errorCode ≠ 0 → ∃ r, formatMessage ℓ format arg m = .ok r
  tails : (format = .lit "%s" ∨ format = .lit "%.*s") → ∀ junk,
    u7VerrorfWithCause ℓ u7ErrnoCategory errorCode cause format (appendJunk junk arg) m =
      u7VerrorfWithCause ℓ u7ErrnoCategory errorCode cause format arg m

/-- The factory function runs into faults of the heap only. -/
theorem makePayload_fault (ℓ : Libc) (message : CharPtr) (n : ℤ) (cause : U7Error) (m : Mem) :
    Sat (u7ErrnoCategoryMakePayloadFn ℓ message n cause m) (fun _ => True) HeapFault := by
  have hfallback : ∀ m, Sat (fallbackPayload message cause m) (fun _ => True) HeapFault := by
    intro m
    refine ((freeMessage_shrinks m message).mono (fun _ => id)
      fun _ he => .inr (.inl he)).bind fun m₁ _ => ?_
    refine (releaseLoop_shrinks _ _ m₁).bind fun m₂ _ => ?_
    exact ((deref_fault m₂ fallback).mono (fun _ => id) fun _ => .inl).bind
      fun _ _ => sat_ok trivial
  rw [u7ErrnoCategoryMakePayloadFn]
  exact sat_ite (fun _ => hfallback m) fun _ =>
    sat_ite (fun _ => sat_ok trivial) fun _ => hfallback _

theorem HeapFault.ne {e : Fault} (h : HeapFault e) : e ≠ .signedOverflow ∧ e ≠ .outOfBounds := by
  rcases h with rfl | rfl | rfl <;> exact ⟨nofun, nofun⟩

/-- **The length arithmetic is safe exactly when nothing is added to `INT_MAX`**: when the
code is `0`, and otherwise on the path of `"%s"` when the first allocation fails or the
string has fewer than `INT_MAX` bytes, and on the general path when the first allocation
fails or the first call of `vsnprintf` returns less than `INT_MAX`. The paths of `""` and
of `"%.*s"` are always safe. -/
theorem lengths_safe_iff (ℓ : Libc) (errorCode : ℤ) (cause : U7Error) (format : CStr)
    (arg : List VaArg) (hmatch : Matches format arg) (m : Mem) :
    LengthsSafe ℓ errorCode cause format arg m ↔
      errorCode = 0 ∨ ¬ Overflows ℓ format arg m := by
  constructor
  · intro hsafe
    by_contra hnot
    obtain ⟨hcode, hoverflows⟩ := not_or.mp hnot
    exact hoverflows ((formatMessage_ok_iff hmatch).mp (hsafe.formats hcode))
  · intro hcond
    have hfault : Sat (u7VerrorfWithCause ℓ u7ErrnoCategory errorCode cause format arg m)
        (fun _ => True) HeapFault := by
      rw [u7VerrorfWithCause]
      refine sat_ite (fun _ => ?_) fun hcode => ?_
      · exact (releaseLoop_shrinks _ _ m).bind fun _ _ => sat_ok trivial
      · obtain ⟨⟨⟨message, n⟩, m₁⟩, hformat⟩ :=
          (formatMessage_ok_iff hmatch).mpr (hcond.resolve_left hcode)
        rw [hformat, ok_bind]
        exact (makePayload_fault ℓ message n cause m₁).bind fun _ _ => sat_ok trivial
    refine ⟨fun hoverflow => ?_, fun hbounds => ?_,
      fun hcode => (formatMessage_ok_iff hmatch).mpr (hcond.resolve_left hcode),
      fun hfast junk => ?_⟩
    · rw [hoverflow] at hfault
      exact hfault.ne.1 rfl
    · rw [hbounds] at hfault
      exact hfault.ne.2 rfl
    · simp only [u7VerrorfWithCause, formatMessage, messagePath_appendJunk ℓ hmatch hfast]

/-- `"%s"` with the string `"abc"` is safe. -/
theorem lengths_safe_iff_abc :
    LengthsSafe (.ofRender renderPlain) 22 u7Ok (.lit "%s") [.str [97, 98, 99, 0]] Mem.start := by
  have hmatch : Matches (.lit "%s") [.str [97, 98, 99, 0]] :=
    { string := fun _ => ⟨[97, 98, 99, 0], [], rfl, by decide⟩
      precision := fun h => absurd h (by decide) }
  refine (lengths_safe_iff _ _ _ _ _ hmatch _).mpr (.inr fun hoverflows => ?_)
  obtain ⟨object, rest, harg, hlong⟩ := hoverflows.2
  obtain ⟨rfl, -⟩ : [97, 98, 99, 0] = object ∧ [] = rest := by simpa using harg
  exact absurd hlong (by decide)

/-- A string of `n` letters. -/
def letters (n : ℕ) : CStr where
  bytes := List.replicate n 97
  nul_free := fun h => absurd (List.eq_of_mem_replicate h) (by decide)

/-- `"%s"` with a string of `INT_MAX` letters adds `1` to `INT_MAX`. -/
theorem lengths_unsafe_letters :
    Matches (.lit "%s") [.str (letters intMax.toNat).object] ∧
      u7VerrorfWithCause (.ofRender renderPlain) u7ErrnoCategory 22 u7Ok (.lit "%s")
        [.str (letters intMax.toNat).object] Mem.start = .error .signedOverflow ∧
      ¬ LengthsSafe (.ofRender renderPlain) 22 u7Ok (.lit "%s")
        [.str (letters intMax.toNat).object] Mem.start := by
  have hlong : intMax ≤ (cString (letters intMax.toNat).object).length := by
    have hpos : 0 ≤ intMax := by norm_num [intMax]
    rw [cString_object, letters, List.length_replicate]
    omega
  have hoverflows : Overflows (.ofRender renderPlain) (.lit "%s")
      [.str (letters intMax.toNat).object] Mem.start := ⟨rfl, _, [], rfl, hlong⟩
  have hcreate : u7VerrorfWithCause (.ofRender renderPlain) u7ErrnoCategory 22 u7Ok (.lit "%s")
      [.str (letters intMax.toNat).object] Mem.start = .error .signedOverflow := by
    rw [u7VerrorfWithCause, if_neg (by norm_num), formatMessage_overflows hoverflows, error_bind]
  refine ⟨⟨fun _ => ⟨_, [], rfl, ?_⟩, fun h => absurd h (by decide)⟩, hcreate,
    fun hsafe => hsafe.overflow hcreate⟩
  exact List.mem_append_right _ List.mem_cons_self

end U7Init
