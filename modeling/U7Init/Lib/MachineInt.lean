import Mathlib.Algebra.Order.Ring.Int
import Mathlib.Data.Int.ModEq
import Mathlib.Tactic

/-!
# Machine Integer Types

A machine integer type is a width and a signedness. Its values are the integers of
the half-open interval `[lo, lo + 2 ^ width)`, and conversion into it keeps the
residue modulo `2 ^ width`. Everything is stated over `ℤ`, so that exact results and
converted results live in one type and can be compared.

## Main results

* `IntType.Fits.wrap_eq`: conversion is the identity on the values the type represents.
* `IntType.Fits.of_le`: a type contains every narrower type of its own signedness.
-/

namespace MachineInt

/-- A fixed-width integer type, in two's complement if it is signed. Its values are unbounded
integers that lie in its range, so that two types can be compared by the values they share. -/
structure IntType where
  width : ℕ
  signed : Bool
  width_pos : 0 < width
  deriving DecidableEq, Repr

namespace IntType

/-- `int32_t`, and `int`. -/
abbrev int32 : IntType := ⟨32, true, by decide⟩

/-- `uint32_t`, and `unsigned int`. -/
abbrev uint32 : IntType := ⟨32, false, by decide⟩

/-- `int64_t`. -/
abbrev int64 : IntType := ⟨64, true, by decide⟩

/-- `uint64_t`, and `size_t`. -/
abbrev uint64 : IntType := ⟨64, false, by decide⟩

/-- The least value of the type. -/
def lo (τ : IntType) : ℤ :=
  if τ.signed then -2 ^ (τ.width - 1) else 0

/-- The type represents `x`: the number lies in the range of the type, the upper end of which
is given by its distance from the lower one for both signednesses alike. -/
def Fits (τ : IntType) (x : ℤ) : Prop :=
  τ.lo ≤ x ∧ x < τ.lo + 2 ^ τ.width

instance (τ : IntType) (x : ℤ) : Decidable (τ.Fits x) :=
  inferInstanceAs (Decidable (_ ∧ _))

/-- Conversion to the type: reduction modulo `2 ^ width` into its range. For a signed type this
is what compilers document; the C standard leaves it to them. -/
def wrap (τ : IntType) (x : ℤ) : ℤ :=
  τ.lo + (x - τ.lo) % 2 ^ τ.width

/-- A converted value is represented by the type. -/
theorem fits_wrap (τ : IntType) (x : ℤ) : τ.Fits (τ.wrap x) := by
  have hpos : (0 : ℤ) < 2 ^ τ.width := by positivity
  have h0 := Int.emod_nonneg (x - τ.lo) hpos.ne'
  have h1 := Int.emod_lt_of_pos (x - τ.lo) hpos
  exact ⟨by rw [wrap]; omega, by rw [wrap]; omega⟩

/-- A converted value has the residue it had. -/
theorem wrap_modEq (τ : IntType) (x : ℤ) : τ.wrap x ≡ x [ZMOD 2 ^ τ.width] := by
  have hmod : (x - τ.lo) % 2 ^ τ.width ≡ x - τ.lo [ZMOD 2 ^ τ.width] := Int.mod_modEq _ _
  have hadd := hmod.add_left τ.lo
  rwa [add_sub_cancel] at hadd

/-- Two values are converted to the same one exactly if they have the same residue. -/
theorem wrap_eq_wrap_iff {τ : IntType} {x y : ℤ} :
    τ.wrap x = τ.wrap y ↔ x ≡ y [ZMOD 2 ^ τ.width] := by
  constructor
  · intro h
    exact (τ.wrap_modEq x).symm.trans (h ▸ τ.wrap_modEq y)
  · intro h
    have hlo : (x - τ.lo) % 2 ^ τ.width = (y - τ.lo) % 2 ^ τ.width := h.sub_right τ.lo
    rw [wrap, wrap, hlo]

/-- Conversion is the identity on the values the type represents. -/
theorem Fits.wrap_eq {τ : IntType} {x : ℤ} (h : τ.Fits x) : τ.wrap x = x := by
  have hmod : (x - τ.lo) % 2 ^ τ.width = x - τ.lo :=
    Int.emod_eq_of_lt (by have := h.1; omega) (by have := h.2; omega)
  rw [wrap, hmod]
  omega

/-- The width of the type, read off the doubling of its half range. -/
theorem two_pow_width (τ : IntType) : (2 : ℤ) ^ τ.width = 2 * 2 ^ (τ.width - 1) := by
  have := τ.width_pos
  rw [← pow_succ']
  congr 1
  omega

/-- A type contains every narrower type of its own signedness. -/
theorem Fits.of_le {τ σ : IntType} {x : ℤ} (hs : τ.signed = σ.signed)
    (hw : τ.width ≤ σ.width) (h : τ.Fits x) : σ.Fits x := by
  have hhalf : (2 : ℤ) ^ (τ.width - 1) ≤ 2 ^ (σ.width - 1) :=
    pow_le_pow_right₀ (by norm_num) (by omega)
  have hτ := τ.two_pow_width
  have hσ := σ.two_pow_width
  obtain ⟨hlo, hhi⟩ := h
  simp only [Fits, lo, ← hs] at hlo hhi ⊢
  cases hsign : τ.signed <;>
    simp only [hsign, Bool.false_eq_true, if_false, if_true] at hlo hhi ⊢ <;> omega

end IntType

end MachineInt
