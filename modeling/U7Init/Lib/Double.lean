import U7Init.Lib.Rounding

/-!
# Finite Doubles

A finite `double` is taken as the dyadic rational it denotes, so that equality of doubles is
equality of numbers. An integer of at most 64 bits is converted to the double it rounds to.

## Main results

* `Double.value_inj`: equal values, equal doubles.
* `Double.ofInt_eq_iff`: comparing a converted integer with a double compares the numbers
  unless the integer was rounded onto the double.
* `Double.singleOfInt_eq_iff_or`: so it is with a `float`.
* `Double.singleOfInt_of_ofInt_eq`: comparing with a `float` as doubles is finer than comparing
  as `float`s.
-/

namespace Rounding

/-- `d` is the value of a finite `double`: a significand of 53 bits, scaled. -/
def FiniteDouble (d : Dyadic) : Prop :=
  ∃ m e : ℤ, m.natAbs < 2 ^ 53 ∧ -1074 ≤ e ∧ e ≤ 971 ∧ d = .ofIntWithPrec m (-e)

/-- A finite `double`. -/
structure Double where
  dyadic : Dyadic
  finite : FiniteDouble dyadic
  deriving DecidableEq

namespace Double

variable {n : ℤ} {d d' : Double}

/-- The number that a double denotes. -/
def value (d : Double) : ℚ :=
  d.dyadic.toRat

theorem value_inj : d.value = d'.value ↔ d = d' := by
  rw [value, value, Dyadic.toRat_inj]
  constructor
  · intro h
    cases d
    cases d'
    subst h
    rfl
  · rintro rfl
    rfl

/-- Representable integers that are not too large are doubles. -/
theorem finiteDouble_of_representable (h : Representable 53 n) (hn : n.natAbs < 2 ^ 100) :
    FiniteDouble (.ofInt n) := by
  obtain ⟨m, e, hm, rfl⟩ := h
  by_cases hzero : m = 0
  · subst hzero
    exact ⟨0, 0, by norm_num, by norm_num, by norm_num, by simp [Dyadic.ofInt]⟩
  have he : e < 100 := by
    rw [Int.natAbs_mul, Int.natAbs_pow] at hn
    have hpos : 1 ≤ m.natAbs := Int.natAbs_pos.mpr hzero
    have hpow : 2 ^ e < 2 ^ 100 := by
      calc 2 ^ e ≤ m.natAbs * 2 ^ e := Nat.le_mul_of_pos_left _ hpos
        _ < 2 ^ 100 := hn
    exact (Nat.pow_lt_pow_iff_right (by norm_num)).mp hpow
  refine ⟨m, e, hm, by omega, by omega, ?_⟩
  rw [← Dyadic.toRat_inj, Dyadic.ofInt, Dyadic.toRat_ofIntWithPrec_eq_mul_two_pow,
    Dyadic.toRat_ofIntWithPrec_eq_mul_two_pow]
  push_cast
  simp

/-- The conversion of an integer to `double`. -/
def ofInt (n : ℤ) (h : n.natAbs ≤ 2 ^ 64) : Double where
  dyadic := .ofInt (roundInt 53 n)
  finite := by
    have hrounds := roundsTo_roundInt (p := 53) (by norm_num) n
    refine finiteDouble_of_representable hrounds.representable ?_
    calc (roundInt 53 n).natAbs ≤ 2 * n.natAbs := hrounds.natAbs_le
      _ ≤ 2 * 2 ^ 64 := by omega
      _ < 2 ^ 100 := by norm_num

theorem value_ofInt (h : n.natAbs ≤ 2 ^ 64) : (ofInt n h).value = roundInt 53 n :=
  Dyadic.toRat_intCast (roundInt 53 n)

/-- An integer that is a scaled significand has the bits of the significand. -/
theorem representable_of_scaled {p : ℕ} {m e : ℤ} (hm : m.natAbs < 2 ^ p)
    (h : (n : ℚ) = (Dyadic.ofIntWithPrec m (-e)).toRat) : Representable p n := by
  rw [Dyadic.toRat_ofIntWithPrec_eq_mul_two_pow, neg_neg] at h
  obtain ⟨k, rfl | rfl⟩ := e.eq_nat_or_neg
  · exact ⟨m, k, hm, by exact_mod_cast h⟩
  · -- the scale divides the significand
    have hscale : n * 2 ^ k = m := by
      have hpow : (2 : ℚ) ^ k ≠ 0 := by positivity
      rw [zpow_neg, zpow_natCast, eq_mul_inv_iff_mul_eq₀ hpow] at h
      exact_mod_cast h
    refine representable_of_lt (lt_of_le_of_lt ?_ hm)
    rw [← hscale, Int.natAbs_mul]
    exact Nat.le_mul_of_pos_right _ (Int.natAbs_pos.mpr (by positivity))

/-- A double that denotes an integer has its significant bits. -/
theorem representable_of_value (h : (n : ℚ) = d.value) : Representable 53 n := by
  obtain ⟨m, e, hm, -, -, hd⟩ := d.finite
  rw [value, hd] at h
  exact representable_of_scaled hm h

/-- An integer with few bits is converted to itself. -/
theorem value_ofInt_of_representable (h : n.natAbs ≤ 2 ^ 64) (hn : Representable 53 n) :
    (ofInt n h).value = n := by
  rw [value_ofInt, (roundsTo_roundInt (p := 53) (by norm_num) n).eq_self_iff.mpr hn]

/-- An integer that is a double is converted to it. -/
theorem ofInt_of_value_eq (h : n.natAbs ≤ 2 ^ 64) (hd : (n : ℚ) = d.value) : ofInt n h = d := by
  rw [← value_inj, value_ofInt_of_representable h (representable_of_value hd), hd]

/-- **Comparing a converted integer with a double** compares the numbers, unless the integer
has too many significant bits and was rounded onto the double. -/
theorem ofInt_eq_iff (h : n.natAbs ≤ 2 ^ 64) :
    (ofInt n h = d ↔ (n : ℚ) = d.value) ↔ ¬ (¬ Representable 53 n ∧ ofInt n h = d) := by
  constructor
  · rintro hiff ⟨hlong, heq⟩
    exact hlong (representable_of_value (hiff.mp heq))
  · intro hnot
    refine ⟨fun heq => ?_, ofInt_of_value_eq h⟩
    have hshort : Representable 53 n := by
      by_contra hlong
      exact hnot ⟨hlong, heq⟩
    rw [← heq, value_ofInt_of_representable h hshort]

/-- A converted integer is the double it is equal to, or it was rounded onto another one. -/
theorem ofInt_eq_iff_or (h : n.natAbs ≤ 2 ^ 64) :
    ofInt n h = d ↔ (n : ℚ) = d.value ∨ ¬ Representable 53 n ∧ ofInt n h = d := by
  by_cases hrounded : ¬ Representable 53 n ∧ ofInt n h = d
  · exact iff_of_true hrounded.2 (.inr hrounded)
  · exact ((ofInt_eq_iff h).mpr hrounded).trans (or_iff_left hrounded).symm

/-! ### Single precision -/

/-- The double is the value of a finite `float`: a significand of 24 bits, scaled. -/
def IsSingle (d : Double) : Prop :=
  ∃ m e : ℤ, m.natAbs < 2 ^ 24 ∧ -149 ≤ e ∧ e ≤ 104 ∧ d.dyadic = .ofIntWithPrec m (-e)

/-- The conversion of an integer to `float`. -/
def singleOfInt (n : ℤ) (h : n.natAbs ≤ 2 ^ 64) : Double where
  dyadic := .ofInt (roundInt 24 n)
  finite := by
    have hrounds := roundsTo_roundInt (p := 24) (by norm_num) n
    refine finiteDouble_of_representable (hrounds.representable.mono (by norm_num)) ?_
    calc (roundInt 24 n).natAbs ≤ 2 * n.natAbs := hrounds.natAbs_le
      _ ≤ 2 * 2 ^ 64 := by omega
      _ < 2 ^ 100 := by norm_num

theorem value_singleOfInt (h : n.natAbs ≤ 2 ^ 64) : (singleOfInt n h).value = roundInt 24 n :=
  Dyadic.toRat_intCast (roundInt 24 n)

/-- A `float` that denotes an integer has its significant bits. -/
theorem IsSingle.representable (hd : d.IsSingle) (h : (n : ℚ) = d.value) :
    Representable 24 n := by
  obtain ⟨m, e, hm, -, -, hdyadic⟩ := hd
  rw [value, hdyadic] at h
  exact representable_of_scaled hm h

/-- An integer that is converted to a `float` is the one it is equal to, or it was rounded onto
another one. -/
theorem singleOfInt_eq_iff_or (h : n.natAbs ≤ 2 ^ 64) (hd : d.IsSingle) :
    singleOfInt n h = d ↔ (n : ℚ) = d.value ∨ ¬ Representable 24 n ∧ singleOfInt n h = d := by
  have hself : Representable 24 n → (singleOfInt n h).value = n := fun hn => by
    rw [value_singleOfInt, (roundsTo_roundInt (p := 24) (by norm_num) n).eq_self_iff.mpr hn]
  constructor
  · rintro rfl
    by_cases hn : Representable 24 n
    · exact .inl (hself hn).symm
    · exact .inr ⟨hn, rfl⟩
  · rintro (hvalue | ⟨-, heq⟩)
    · rw [← value_inj, hself (hd.representable hvalue), hvalue]
    · exact heq

/-- **An integer that is converted to a `float` as a double** is converted to it as a `float`
too. -/
theorem singleOfInt_of_ofInt_eq (h : n.natAbs ≤ 2 ^ 64) (hd : d.IsSingle) (heq : ofInt n h = d) :
    singleOfInt n h = d := by
  have hvalue : ((roundInt 53 n : ℤ) : ℚ) = d.value := by
    rw [← heq, value_ofInt]
  have hshort : Representable 24 (roundInt 53 n) := hd.representable hvalue
  have hround := (roundsTo_roundInt (p := 24) (by norm_num) n).eq_of_representable (by norm_num)
    (by norm_num) (roundsTo_roundInt (p := 53) (by norm_num) n) hshort
  rw [← value_inj, value_singleOfInt, hround, hvalue]

end Double

end Rounding
