import Mathlib.Data.List.Lex
import Mathlib.Order.Lattice
import Mathlib.Tactic

/-!
# NUL-Terminated Strings

A C string is the sequence of bytes before its terminator, none of which is zero; in
memory it is an array object that ends with the terminator. Functions that scan memory
read it byte by byte from such an object and fail when they leave it.

## Main results

* `strcmp_neg_iff`, `strcmp_eq_zero_iff`, `strcmp_pos_iff`: the sign of `strcmp` is the
  lexicographic order of the bytes as unsigned values.
* `CStr.instLinearOrder`: the strings are linearly ordered by it.
* `memchr_zero`: `memchr` finds the terminator if it may read that far, and otherwise
  reads no further than it was told to.
* `bytesEq_cstr`: a string is compared with another one within its own array.
* `strncmp_eq_zero_iff_startsWith`, `strstr_eq_none_iff`: the tests for a prefix and for a
  substring.
* `decimal_injective`: the digits of a number tell it from all others.
-/

/-- The undefined behaviour a C function can run into. -/
inductive Fault
  /-- A read or a write outside the object it addresses. -/
  | outOfBounds
  /-- An access to an object that is no longer live. -/
  | deadObject
  /-- `free` or `realloc` of something that is not a live allocation. -/
  | badFree
  /-- A signed `int` expression leaves the range of `int`. -/
  | signedOverflow
  /-- `va_arg` with a type that does not match the next argument. -/
  | badVaArg
  /-- A loop that does not end. -/
  | diverges
  deriving DecidableEq, Repr

/-- A C string without its terminator. That it has no NUL inside belongs to the type, so that
lengths and comparisons need not care. -/
@[ext] structure CStr where
  bytes : List UInt8
  nul_free : 0 ∉ bytes
  deriving DecidableEq, Repr

namespace CStr

/-- The array object that holds the string. -/
def object (s : CStr) : List UInt8 :=
  s.bytes ++ [0]

/-- The string literal with the ASCII characters of `s`. -/
def lit (s : String) (h : 0 ∉ s.toList.map fun c => UInt8.ofNat c.toNat := by decide) :
    CStr :=
  ⟨s.toList.map fun c => UInt8.ofNat c.toNat, h⟩

/-- The bytes as numbers, which `strcmp` compares. -/
def key (s : CStr) : List ℕ :=
  s.bytes.map UInt8.toNat

theorem key_injective : Function.Injective key := by
  intro s t h
  refine CStr.ext (List.map_injective_iff.mpr ?_ h)
  exact fun _ _ => UInt8.toNat_inj.mp

/-- Strings are ordered lexicographically by their bytes. -/
instance instLinearOrder : LinearOrder CStr :=
  LinearOrder.lift' key key_injective

end CStr

/-! ### Comparison -/

/-- `strcmp` on the bytes before the terminators: the difference of the first bytes that
differ, the terminator counting as `0`. -/
def strcmpBytes : List UInt8 → List UInt8 → ℤ
  | [], [] => 0
  | [], y :: _ => 0 - y.toNat
  | x :: _, [] => x.toNat
  | x :: xs, y :: ys => if x = y then strcmpBytes xs ys else x.toNat - y.toNat

/-- `strcmp`. Only the sign of the result is specified by the C standard, and only the sign is
used. -/
def strcmp (s t : CStr) : ℤ :=
  strcmpBytes s.bytes t.bytes

private theorem toNat_pos {x : UInt8} {xs : List UInt8} (h : 0 ∉ x :: xs) :
    0 < x.toNat := by
  refine Nat.pos_of_ne_zero fun hx => h ?_
  rw [UInt8.toNat_inj.mp (hx.trans UInt8.toNat_zero.symm)]
  exact List.mem_cons_self

private theorem strcmpBytes_spec (xs ys : List UInt8) (hx : 0 ∉ xs) (hy : 0 ∉ ys) :
    (strcmpBytes xs ys < 0 ↔ xs.map UInt8.toNat < ys.map UInt8.toNat) ∧
      (0 < strcmpBytes xs ys ↔ ys.map UInt8.toNat < xs.map UInt8.toNat) := by
  induction xs, ys using strcmpBytes.induct with
  | case1 => simp [strcmpBytes]
  | case2 y ys =>
      have := toNat_pos hy
      simp [strcmpBytes]
      omega
  | case3 x xs =>
      have := toNat_pos hx
      simp [strcmpBytes]
      omega
  | case4 xs y ys ih =>
      have hih := ih (fun h => hx (List.mem_cons_of_mem _ h))
        (fun h => hy (List.mem_cons_of_mem _ h))
      simpa [strcmpBytes, List.cons_lt_cons_iff] using hih
  | case5 x xs y ys hne =>
      have hne' : x.toNat ≠ y.toNat := fun h => hne (UInt8.toNat_inj.mp h)
      simp only [strcmpBytes, hne, if_false, List.map_cons, List.cons_lt_cons_iff, hne',
        hne'.symm, false_and, or_false]
      omega

/-- `strcmp` is negative exactly when its first argument comes first. -/
theorem strcmp_neg_iff {s t : CStr} : strcmp s t < 0 ↔ s < t :=
  (strcmpBytes_spec s.bytes t.bytes s.nul_free t.nul_free).1

/-- `strcmp` is positive exactly when its second argument comes first. -/
theorem strcmp_pos_iff {s t : CStr} : 0 < strcmp s t ↔ t < s :=
  (strcmpBytes_spec s.bytes t.bytes s.nul_free t.nul_free).2

/-- `strcmp` is zero exactly on equal strings. -/
theorem strcmp_eq_zero_iff {s t : CStr} : strcmp s t = 0 ↔ s = t := by
  constructor
  · intro h
    refine le_antisymm (not_lt.mp fun hlt => ?_) (not_lt.mp fun hlt => ?_)
    · exact (strcmp_pos_iff.mpr hlt).ne' h
    · exact (strcmp_neg_iff.mpr hlt).ne h
  · rintro rfl
    refine le_antisymm (not_lt.mp fun h => ?_) (not_lt.mp fun h => ?_)
    · exact lt_irrefl s (strcmp_pos_iff.mp h)
    · exact lt_irrefl s (strcmp_neg_iff.mp h)

/-- `strncmp` on the bytes before the terminators: the difference of the first bytes that
differ among the first `n`. -/
def strncmpBytes : List UInt8 → List UInt8 → ℕ → ℤ
  | _, _, 0 => 0
  | [], [], _ + 1 => 0
  | [], y :: _, _ + 1 => 0 - y.toNat
  | x :: _, [], _ + 1 => x.toNat
  | x :: xs, y :: ys, n + 1 => if x = y then strncmpBytes xs ys n else x.toNat - y.toNat

/-- `strncmp`: the comparison ends after `n` bytes, or at a terminator in front of that. -/
def strncmp (s t : CStr) (n : ℕ) : ℤ :=
  strncmpBytes s.bytes t.bytes n

private theorem strncmpBytes_eq_zero_iff (xs ys : List UInt8) (n : ℕ) (hx : 0 ∉ xs)
    (hy : 0 ∉ ys) : strncmpBytes xs ys n = 0 ↔ xs.take n = ys.take n := by
  induction xs, ys, n using strncmpBytes.induct with
  | case1 => simp [strncmpBytes]
  | case2 => simp [strncmpBytes]
  | case3 y ys n =>
      have := toNat_pos hy
      simp [strncmpBytes]
      omega
  | case4 x xs n =>
      have := toNat_pos hx
      simp [strncmpBytes]
      omega
  | case5 xs y ys n ih =>
      have hih := ih (fun h => hx (List.mem_cons_of_mem _ h))
        (fun h => hy (List.mem_cons_of_mem _ h))
      simpa [strncmpBytes] using hih
  | case6 x xs y ys n hne =>
      have hne' : x.toNat ≠ y.toNat := fun h => hne (UInt8.toNat_inj.mp h)
      simp only [strncmpBytes, hne, if_false, List.take_succ_cons, List.cons.injEq, false_and,
        iff_false]
      omega

/-- `strncmp` with the length of its second argument tests for a prefix. -/
theorem strncmp_eq_zero_iff_startsWith {s t : CStr} :
    strncmp s t t.bytes.length = 0 ↔ t.bytes <+: s.bytes := by
  rw [strncmp, strncmpBytes_eq_zero_iff _ _ _ s.nul_free t.nul_free, List.take_length,
    List.prefix_iff_eq_take]
  exact eq_comm

/-! ### Parts of strings -/

/-- One string after another. -/
def CStr.append (s t : CStr) : CStr where
  bytes := s.bytes ++ t.bytes
  nul_free := fun h => (List.mem_append.mp h).elim s.nul_free t.nul_free

theorem CStr.exists_append {s t : CStr} (h : s.bytes <+: t.bytes) : ∃ u, t = s.append u := by
  obtain ⟨rest, hrest⟩ := h
  refine ⟨⟨rest, fun hmem => t.nul_free ?_⟩, CStr.ext hrest.symm⟩
  rw [← hrest]
  exact List.mem_append_right _ hmem

theorem CStr.prefix_append (s t : CStr) : s.bytes <+: (s.append t).bytes :=
  List.prefix_append _ _

/-- `s + n`: the string from the `n`-th byte on. -/
def CStr.offset (s : CStr) (n : ℕ) : Except Fault CStr :=
  if n ≤ s.bytes.length then .ok ⟨s.bytes.drop n, fun h => s.nul_free (List.mem_of_mem_drop h)⟩
  else .error .outOfBounds

theorem CStr.offset_append (s t : CStr) : (s.append t).offset s.bytes.length = .ok t := by
  have hle : s.bytes.length ≤ (s.append t).bytes.length := by
    simp [CStr.append]
  rw [CStr.offset, if_pos hle]
  refine congrArg Except.ok (CStr.ext ?_)
  exact List.drop_left

/-- `strstr`: where the first occurrence of `needle` starts. -/
def strstr (haystack needle : CStr) : Option ℕ :=
  haystack.bytes.tails.findIdx? fun rest => needle.bytes.isPrefixOf rest

/-- `strstr` finds nothing exactly when there is no occurrence. -/
theorem strstr_eq_none_iff {s t : CStr} : strstr s t = none ↔ ¬ t.bytes <:+: s.bytes := by
  rw [strstr, List.findIdx?_eq_none_iff, List.infix_iff_prefix_suffix]
  simp only [List.mem_tails, ← Bool.not_eq_true, List.isPrefixOf_iff_prefix, not_exists, not_and']

/-! ### Scanning memory -/

/-- `memchr`: the offset of the first byte equal to `c` among the first `n`. It reads
sequentially and stops at the first match. -/
def memchr : List UInt8 → UInt8 → ℕ → Except Fault (Option ℕ)
  | _, _, 0 => .ok none
  | [], _, _ + 1 => .error .outOfBounds
  | b :: object, c, n + 1 =>
      if b = c then .ok (some 0)
      else (memchr object c n).map fun r => r.map (· + 1)

/-- The bytes of an array before its first NUL: the string a pointer to it stands for. -/
def cString (object : List UInt8) : List UInt8 :=
  object.takeWhile (· != 0)

theorem CStr.nul_mem_object (s : CStr) : 0 ∈ s.object :=
  List.mem_append_right _ List.mem_cons_self

/-- The string that an array object holds. -/
theorem cString_object (s : CStr) : cString s.object = s.bytes := by
  have hall : ∀ b ∈ s.bytes, (b != 0) = true := fun b hb =>
    bne_iff_ne.mpr fun h0 => s.nul_free (h0 ▸ hb)
  rw [cString, CStr.object, List.takeWhile_append_of_pos hall]
  simp

/-- Bytes without a NUL are taken as they are. -/
theorem cString_eq_self {bytes : List UInt8} (h : 0 ∉ bytes) : cString bytes = bytes := by
  have hall : ∀ b ∈ bytes, (b != 0) = true := fun b hb =>
    bne_iff_ne.mpr fun h0 => h (h0 ▸ hb)
  rw [cString, ← List.append_nil bytes, List.takeWhile_append_of_pos hall, List.takeWhile_nil]

/-- It has no NUL. -/
theorem nul_not_mem_cString (object : List UInt8) : 0 ∉ cString object := by
  intro h
  simpa using List.all_eq_true.mp (List.all_takeWhile (l := object)) 0 h

theorem cString_isPrefixOf (object : List UInt8) : cString object <+: object :=
  List.takeWhile_prefix _

/-- What `memchr` does in terms of the string: it finds the terminator if it may read
that far, and otherwise reads as far as it may. -/
theorem memchr_zero (object : List UInt8) (n : ℕ) :
    memchr object 0 n =
      if (cString object).length < n then
        if (cString object).length < object.length then .ok (some (cString object).length)
        else .error .outOfBounds
      else .ok none := by
  induction object generalizing n with
  | nil =>
      cases n with
      | zero => rfl
      | succ n => rfl
  | cons b object ih =>
      cases n with
      | zero => rfl
      | succ n =>
          by_cases hb : b = 0
          · subst hb
            simp [memchr, cString]
          · have hcons : cString (b :: object) = b :: cString object := by
              simp [cString, hb]
            rw [memchr, if_neg hb, ih n, hcons]
            simp only [List.length_cons, Nat.succ_lt_succ_iff]
            split
            · split <;> rfl
            · rfl

/-- A string whose terminator lies in the array is followed by it. -/
theorem take_cString_succ {object : List UInt8}
    (h : (cString object).length < object.length) :
    object.take ((cString object).length + 1) = cString object ++ [0] := by
  induction object with
  | nil => simp at h
  | cons b object ih =>
      by_cases hb : b = 0
      · subst hb
        simp [cString]
      · have hcons : cString (b :: object) = b :: cString object := by
          simp [cString, hb]
        rw [hcons] at h ⊢
        rw [List.length_cons, List.take_succ_cons, ih (by simpa using h)]
        rfl

/-- The string ends inside the array exactly when the array has a NUL. -/
theorem length_cString_lt_iff {object : List UInt8} :
    (cString object).length < object.length ↔ 0 ∈ object := by
  induction object with
  | nil => simp
  | cons b object ih =>
      by_cases hb : b = 0
      · subst hb
        simp [cString]
      · have hcons : cString (b :: object) = b :: cString object := by
          simp [cString, hb]
        rw [hcons, List.length_cons, List.length_cons, Nat.add_lt_add_iff_right, ih,
          List.mem_cons, or_iff_right (Ne.symm hb)]

/-- `object[0] == expected[0] && object[1] == expected[1] && …`, tested from left to
right up to the first difference. -/
def bytesEq : List UInt8 → List UInt8 → Except Fault Bool
  | _, [] => .ok true
  | [], _ :: _ => .error .outOfBounds
  | b :: object, c :: expected => if b = c then bytesEq object expected else .ok false

private theorem bytesEq_object {xs ys : List UInt8} (hx : 0 ∉ xs) (hy : 0 ∉ ys) :
    bytesEq (xs ++ [0]) (ys ++ [0]) = .ok (decide (xs = ys)) := by
  induction xs generalizing ys with
  | nil =>
      cases ys with
      | nil => rfl
      | cons y ys =>
          have hy0 : ¬ 0 = y := fun h => hy (h ▸ List.mem_cons_self)
          simp [bytesEq, hy0]
  | cons x xs ih =>
      have hx0 : ¬ x = 0 := fun h => hx (h ▸ List.mem_cons_self)
      cases ys with
      | nil => simp [bytesEq, hx0]
      | cons y ys =>
          rw [List.mem_cons, not_or] at hx hy
          by_cases hxy : x = y
          · subst hxy
            simp [bytesEq, ih hx.2 hy.2]
          · simp [bytesEq, hxy]

/-- Two strings are told apart, or found equal with their terminators, without a read
past the terminator of the first. -/
theorem bytesEq_cstr (s t : CStr) : bytesEq s.object t.object = .ok (decide (s = t)) := by
  rw [CStr.object, CStr.object, bytesEq_object s.nul_free t.nul_free]
  simp [CStr.ext_iff]

/-- The first `n` bytes of an array. -/
def readBytes (object : List UInt8) (n : ℕ) : Except Fault (List UInt8) :=
  if n ≤ object.length then .ok (object.take n) else .error .outOfBounds

/-! ### Making text -/

/-- The string at the beginning of an array. -/
def CStr.ofObject (object : List UInt8) : CStr :=
  ⟨cString object, nul_not_mem_cString object⟩

/-- The decimal digits that `%d` prints. -/
def decimal (n : ℤ) : List UInt8 :=
  (toString n).toList.map fun c => UInt8.ofNat c.toNat

/-- The digits of a number that is not negative. -/
theorem decimal_natCast (n : ℕ) :
    decimal n = (Nat.toDigits 10 n).map fun c => UInt8.ofNat c.toNat := by
  rw [decimal, ← Nat.toList_repr]
  rfl

/-- A sign, and the digits. -/
theorem decimal_negSucc (n : ℕ) :
    decimal (Int.negSucc n) =
      45 :: (Nat.toDigits 10 (n + 1)).map fun c => UInt8.ofNat c.toNat := by
  have hsplit : toString (Int.negSucc n) = "-" ++ (n + 1).repr := rfl
  rw [decimal, hsplit, String.toList_append, ← Nat.toList_repr, List.map_append]
  rfl

theorem digit_of_mem_toDigits {n : ℕ} {c : Char} (h : c ∈ Nat.toDigits 10 n) :
    48 ≤ c.toNat ∧ c.toNat ≤ 57 :=
  Char.isDigit_iff_toNat.mp (Nat.isDigit_of_mem_toDigits (by norm_num) (by norm_num) h)

theorem toNat_ofNat_digit {c : Char} (h : 48 ≤ c.toNat ∧ c.toNat ≤ 57) :
    (UInt8.ofNat c.toNat).toNat = c.toNat := by
  rw [UInt8.toNat_ofNat']
  omega

/-- What `%d` prints: a sign or digits. -/
theorem byte_of_mem_decimal {n : ℤ} {b : UInt8} (h : b ∈ decimal n) :
    b = 45 ∨ 48 ≤ b.toNat ∧ b.toNat ≤ 57 := by
  have hdigit : ∀ {m : ℕ}, b ∈ (Nat.toDigits 10 m).map (fun c => UInt8.ofNat c.toNat) →
      48 ≤ b.toNat ∧ b.toNat ≤ 57 := by
    intro m hb
    obtain ⟨c, hc, rfl⟩ := List.mem_map.mp hb
    have hrange := digit_of_mem_toDigits hc
    rwa [toNat_ofNat_digit hrange]
  cases n with
  | ofNat m => exact .inr (hdigit (decimal_natCast m ▸ h))
  | negSucc m =>
      rw [decimal_negSucc] at h
      exact (List.mem_cons.mp h).imp_right hdigit

theorem nul_not_mem_decimal (n : ℤ) : 0 ∉ decimal n := by
  intro h
  rcases byte_of_mem_decimal h with h | h
  · exact absurd h (by decide)
  · exact absurd h.1 (by decide)

/-- The digits tell numbers apart. -/
theorem toDigits_bytes_injective {m n : ℕ}
    (h : (Nat.toDigits 10 m).map (fun c => UInt8.ofNat c.toNat) =
      (Nat.toDigits 10 n).map fun c => UInt8.ofNat c.toNat) : m = n := by
  have hback : ∀ k : ℕ, ((Nat.toDigits 10 k).map fun c => UInt8.ofNat c.toNat).map
      (fun b => Char.ofNat b.toNat) = Nat.toDigits 10 k := by
    intro k
    rw [List.map_map]
    refine (List.map_congr_left fun c hc => ?_).trans (List.map_id _)
    have hrange := digit_of_mem_toDigits hc
    rw [Function.comp_apply, toNat_ofNat_digit hrange, Char.ofNat_toNat, id]
  have hdigits : Nat.toDigits 10 m = Nat.toDigits 10 n := by
    rw [← hback m, h, hback n]
  rw [← Nat.ofDigitChars_ten_toDigits (n := m), hdigits, Nat.ofDigitChars_ten_toDigits]

/-- **`%d` tells numbers apart.** -/
theorem decimal_injective : Function.Injective decimal := by
  intro m n h
  have hsign : ∀ k l : ℕ, decimal k ≠ decimal (Int.negSucc l) := by
    intro k l heq
    have hmem : (45 : UInt8) ∈ decimal k := by
      rw [heq, decimal_negSucc]
      exact List.mem_cons_self
    rw [decimal_natCast] at hmem
    obtain ⟨c, hc, hbyte⟩ := List.mem_map.mp hmem
    have hrange := digit_of_mem_toDigits hc
    have hvalue := congrArg UInt8.toNat hbyte
    rw [toNat_ofNat_digit hrange] at hvalue
    exact absurd hvalue (by simp; omega)
  cases m with
  | ofNat m =>
      cases n with
      | ofNat n =>
          simp only [Int.ofNat_eq_natCast, decimal_natCast] at h
          rw [toDigits_bytes_injective h]
      | negSucc n => exact absurd h (hsign m n)
  | negSucc m =>
      cases n with
      | ofNat n => exact absurd h.symm (hsign n m)
      | negSucc n =>
          rw [decimal_negSucc, decimal_negSucc] at h
          have hsucc := toDigits_bytes_injective (List.cons.inj h).2
          rw [Nat.succ.inj hsucc]

/-- Numbers of at most `k` digits. -/
theorem length_decimal_le {n : ℤ} {k : ℕ} (hk : 0 < k) (h : n.natAbs < 10 ^ k) :
    (decimal n).length ≤ k + 1 := by
  have hdigits : (Nat.toDigits 10 n.natAbs).length ≤ k :=
    (Nat.length_toDigits_le_iff (by norm_num) hk).mpr h
  cases n with
  | ofNat m =>
      rw [Int.ofNat_eq_natCast, decimal_natCast, List.length_map]
      exact hdigits.trans (Nat.le_succ k)
  | negSucc m =>
      rw [decimal_negSucc, List.length_cons, List.length_map]
      exact Nat.succ_le_succ hdigits
