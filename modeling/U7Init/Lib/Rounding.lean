import Mathlib.Algebra.Order.Ring.Int
import Mathlib.Tactic

/-!
# Rounding Integers to Significant Bits

An integer is representable with `p` significant bits if it is an integer of at most `p`
bits times a power of two. `RoundsTo p n r` says that `r` is `n` rounded to such an integer:
the nearest one, and the one with an even significand if there are two. `roundInt` computes
it by dropping bits.

## Main results

* `RoundsTo.eq_self_iff`: rounding changes nothing exactly on the representable integers.
* `roundsTo_roundInt`: `roundInt` rounds to nearest, ties to even.
* `RoundsTo.eq_of_representable`: when rounding to more bits agrees with rounding to fewer.
-/

namespace Rounding

/-- `n` has at most `p` significant bits. -/
def Representable (p : ℕ) (n : ℤ) : Prop :=
  ∃ (m : ℤ) (e : ℕ), m.natAbs < 2 ^ p ∧ n = m * 2 ^ e

/-- `r` is `n` rounded to `p` significant bits, to nearest, ties to even. An even
significand leaves one bit less. -/
structure RoundsTo (p : ℕ) (n r : ℤ) : Prop where
  representable : Representable p r
  nearest : ∀ x, Representable p x → (n - r).natAbs ≤ (n - x).natAbs
  even : ∀ x, Representable p x → x ≠ r → (n - x).natAbs = (n - r).natAbs →
    Representable (p - 1) r

variable {p s : ℕ} {n r lo hi : ℤ}

theorem Representable.neg (h : Representable p n) : Representable p (-n) := by
  obtain ⟨m, e, hm, rfl⟩ := h
  exact ⟨-m, e, by rwa [Int.natAbs_neg], (neg_mul m _).symm⟩

theorem representable_of_lt (h : n.natAbs < 2 ^ p) : Representable p n :=
  ⟨n, 0, h, by simp⟩

/-- A power of two needs one bit. -/
theorem representable_two_pow (hp : 0 < p) (e : ℕ) : Representable p (2 ^ e) :=
  ⟨1, e, Nat.one_lt_two_pow hp.ne', (one_mul _).symm⟩

/-- A significand may reach the next power of two. -/
theorem representable_mul_two_pow {m : ℤ} (hp : 0 < p) (hm : m.natAbs ≤ 2 ^ p) (h0 : 0 ≤ m)
    (e : ℕ) : Representable p (m * 2 ^ e) := by
  rcases hm.lt_or_eq with hlt | heq
  · exact ⟨m, e, hlt, rfl⟩
  · have hpow : m * 2 ^ e = 2 ^ (p + e) := by
      rw [pow_add, ← Int.natAbs_of_nonneg h0, heq]
      push_cast
      rfl
    exact hpow ▸ representable_two_pow hp _

/-! ### Nearest values -/

/-- **Rounding changes nothing** exactly on the representable integers. -/
theorem RoundsTo.eq_self_iff (h : RoundsTo p n r) : r = n ↔ Representable p n := by
  constructor
  · rintro rfl
    exact h.representable
  · intro hn
    have hnearest := h.nearest n hn
    omega

/-- A rounded value is at most twice as large. -/
theorem RoundsTo.natAbs_le (h : RoundsTo p n r) : r.natAbs ≤ 2 * n.natAbs := by
  have hzero := h.nearest 0 (representable_of_lt (by simp))
  omega

theorem roundsTo_self (h : Representable p n) : RoundsTo p n n where
  representable := h
  nearest := fun x _ => by omega
  even := fun x _ hne heq => by omega

theorem RoundsTo.neg (h : RoundsTo p n r) : RoundsTo p (-n) (-r) where
  representable := h.representable.neg
  nearest := by
    intro x hx
    have hnearest := h.nearest (-x) hx.neg
    omega
  even := by
    intro x hx hne heq
    exact (h.even (-x) hx.neg (by omega) (by omega)).neg

/-- Between two neighbours the lower one is the nearest if it is not farther away. -/
theorem roundsTo_lo (hlo : Representable p lo) (hgap : ∀ x, Representable p x → x ≤ lo ∨ hi ≤ x)
    (hle : lo ≤ n) (hnear : n - lo ≤ hi - n)
    (heven : n - lo = hi - n → Representable (p - 1) lo) : RoundsTo p n lo where
  representable := hlo
  nearest := by
    intro x hx
    rcases hgap x hx with h | h <;> omega
  even := by
    intro x hx hne heq
    rcases hgap x hx with h | h
    · omega
    · exact heven (by omega)

/-- And so is the upper one. -/
theorem roundsTo_hi (hhi : Representable p hi) (hgap : ∀ x, Representable p x → x ≤ lo ∨ hi ≤ x)
    (hle : n ≤ hi) (hnear : hi - n ≤ n - lo)
    (heven : hi - n = n - lo → Representable (p - 1) hi) : RoundsTo p n hi := by
  have hgap' : ∀ x, Representable p x → x ≤ -hi ∨ -lo ≤ x := by
    intro x hx
    rcases hgap (-x) hx.neg with h | h
    · exact .inr (by omega)
    · exact .inl (by omega)
  have h := (roundsTo_lo hhi.neg hgap' (by omega) (by omega)
    fun heq => (heven (by omega)).neg : RoundsTo p (-n) (-hi)).neg
  rwa [neg_neg, neg_neg] at h

/-! ### Two precisions -/

theorem Representable.mono {p' : ℕ} (hle : p ≤ p') (h : Representable p n) :
    Representable p' n := by
  obtain ⟨m, e, hm, rfl⟩ := h
  exact ⟨m, e, hm.trans_le (Nat.pow_le_pow_right (by norm_num) hle), rfl⟩

/-- A number half way between neighbours, of which the lower one has the shorter step, has one
bit more. -/
theorem representable_of_midpoint {m : ℤ} {e : ℕ} (hp : 0 < p) (hm : m.natAbs < 2 ^ p)
    (hlt : m * 2 ^ e < hi) (hdvd : 2 ^ e ∣ hi)
    (hgap : ∀ x, Representable p x → x ≤ m * 2 ^ e ∨ hi ≤ x)
    (hmid : n - m * 2 ^ e = hi - n) : Representable (p + 1) n := by
  obtain ⟨k, rfl⟩ := hdvd
  have hpos : (0 : ℤ) < 2 ^ e := by positivity
  have hstep : (m + 1) * 2 ^ e = m * 2 ^ e + 2 ^ e := by ring
  have hnext : Representable p ((m + 1) * 2 ^ e) := by
    rcases le_or_gt 0 m with h0 | h0
    · exact representable_mul_two_pow hp (by omega) (by omega) e
    · exact ⟨m + 1, e, by omega, rfl⟩
  -- the next number with this step is the upper neighbour
  have hupper : 2 ^ e * k = (m + 1) * 2 ^ e := by
    have hk : m < k := by
      rw [mul_comm m] at hlt
      exact lt_of_mul_lt_mul_left hlt hpos.le
    refine le_antisymm ?_ ?_
    · rcases hgap _ hnext with h | h <;> omega
    · rw [mul_comm]
      exact mul_le_mul_of_nonneg_left hk hpos.le
  have hdouble : 2 * n = (2 * m + 1) * 2 ^ e := by linarith
  cases e with
  | zero => omega
  | succ e =>
      refine ⟨2 * m + 1, e, ?_, ?_⟩
      · rw [pow_succ]
        omega
      · rw [pow_succ] at hdouble
        linarith

/-- A number with two nearest representable ones has one bit more. -/
theorem representable_of_tie (hp : 0 < p) (hlo : Representable p lo) (hhi : Representable p hi)
    (hlt : lo < hi) (hgap : ∀ x, Representable p x → x ≤ lo ∨ hi ≤ x)
    (hmid : n - lo = hi - n) : Representable (p + 1) n := by
  obtain ⟨a, e, ha, rfl⟩ := hlo
  obtain ⟨b, f, hb, rfl⟩ := hhi
  rcases le_total e f with hef | hef
  · exact representable_of_midpoint hp ha hlt (dvd_mul_of_dvd_right (pow_dvd_pow 2 hef) b) hgap
      hmid
  · -- seen from below
    have hneg : Representable (p + 1) (-n) := by
      refine representable_of_midpoint (m := -b) hp (by rwa [Int.natAbs_neg]) (by linarith)
        ((dvd_mul_of_dvd_right (pow_dvd_pow 2 hef) a).neg_right) ?_ (by linarith)
      intro x hx
      rcases hgap (-x) hx.neg with h | h
      · exact .inr (by omega)
      · exact .inl (by linarith)
    rw [← neg_neg n]
    exact hneg.neg

/-- **Rounding to more bits first**: if that gives a number of few bits, rounding to few bits
at once gives the same one. -/
theorem RoundsTo.eq_of_representable {p' : ℕ} {r' : ℤ} (hp : 0 < p) (hlt : p < p')
    (h : RoundsTo p n r) (h' : RoundsTo p' n r') (hr' : Representable p r') : r = r' := by
  by_contra hne
  have hnear := h.nearest r' hr'
  have hnear' := h'.nearest r (h.representable.mono hlt.le)
  -- `n` lies half way between them, and nothing nearer is representable
  have htie : Representable (p + 1) n := by
    rcases Int.lt_or_gt_of_ne hne with hside | hside
    · refine representable_of_tie hp h.representable hr' hside ?_ (by omega)
      intro x hx
      have := h.nearest x hx
      omega
    · refine representable_of_tie hp hr' h.representable hside ?_ (by omega)
      intro x hx
      have := h.nearest x hx
      omega
  have hexact := h'.eq_self_iff.mpr (htie.mono hlt)
  omega

/-! ### Dropping bits -/

/-- `n` rounded to `p` significant bits. -/
def roundNat (p n : ℕ) : ℕ :=
  let shift := n.log2 + 1 - p
  let quotient := n / 2 ^ shift
  let rest := n % 2 ^ shift
  if 2 ^ shift < 2 * rest ∨ (2 * rest = 2 ^ shift ∧ quotient % 2 = 1) then
    (quotient + 1) * 2 ^ shift
  else quotient * 2 ^ shift

/-- An integer is rounded as its absolute value. -/
def roundInt (p : ℕ) (n : ℤ) : ℤ :=
  if n < 0 then -(roundNat p n.natAbs : ℤ) else roundNat p n.natAbs

/-- No representable integer lies between neighbours with a full significand. -/
theorem representable_gap {q : ℤ} (hp : 0 < p) (hq : 2 ^ (p - 1) ≤ q) (x : ℤ)
    (hx : Representable p x) : x ≤ q * 2 ^ s ∨ (q + 1) * 2 ^ s ≤ x := by
  obtain ⟨m, e, hm, rfl⟩ := hx
  have hpos : (0 : ℤ) < 2 ^ s := by positivity
  by_cases he : e < s
  · -- the significand has too few bits to get that far
    left
    have hm' : m ≤ 2 ^ p := by
      have hcast : ((2 ^ p : ℕ) : ℤ) = 2 ^ p := by push_cast; rfl
      omega
    have hsplit : (2 : ℤ) ^ p * 2 ^ (s - 1) = 2 ^ (p - 1) * 2 ^ s := by
      rw [← pow_add, ← pow_add]
      congr 1
      omega
    calc m * 2 ^ e ≤ 2 ^ p * 2 ^ e := by gcongr
      _ ≤ 2 ^ p * 2 ^ (s - 1) := by
          gcongr
          · norm_num
          · omega
      _ = 2 ^ (p - 1) * 2 ^ s := hsplit
      _ ≤ q * 2 ^ s := by gcongr
  · obtain ⟨d, rfl⟩ := Nat.exists_eq_add_of_le (not_lt.mp he)
    have hmul : m * 2 ^ (s + d) = m * 2 ^ d * 2 ^ s := by ring
    rw [hmul]
    rcases le_or_gt (m * 2 ^ d) q with h | h
    · exact .inl (by gcongr)
    · exact .inr (by gcongr; omega)

/-- An even significand is a shorter one, one place further left. -/
theorem representable_of_even {k : ℤ} (hp : 2 ≤ p) (h0 : 0 ≤ k) (hk : k ≤ 2 ^ p)
    (heven : k % 2 = 0) (s : ℕ) : Representable (p - 1) (k * 2 ^ s) := by
  have hhalf : k * 2 ^ s = k / 2 * 2 ^ (s + 1) := by
    rw [pow_succ', ← mul_assoc]
    congr 1
    omega
  have hpow : (2 : ℤ) ^ p = 2 * 2 ^ (p - 1) := by
    rw [← pow_succ']
    congr 1
    omega
  have hcast : ((2 ^ (p - 1) : ℕ) : ℤ) = 2 ^ (p - 1) := by push_cast; rfl
  rw [hhalf]
  exact representable_mul_two_pow (by omega) (by omega) (by omega) _

/-- **Dropping `s` bits**: the neighbours are the quotient and its successor, and the rest
says which of them is nearer. -/
theorem roundsTo_of_quotient {q t : ℕ} (hp : 2 ≤ p) (hlow : 2 ^ (p - 1) ≤ q)
    (hhigh : q < 2 ^ p) (hrest : t < 2 ^ s) :
    RoundsTo p ((q * 2 ^ s + t : ℕ) : ℤ)
      ((if 2 ^ s < 2 * t ∨ (2 * t = 2 ^ s ∧ q % 2 = 1) then (q + 1) * 2 ^ s
        else q * 2 ^ s : ℕ) : ℤ) := by
  have hgap := representable_gap (p := p) (s := s) (q := q) (by omega) (by exact_mod_cast hlow)
  have hlo : Representable p ((q : ℤ) * 2 ^ s) := ⟨q, s, by simpa using hhigh, rfl⟩
  have hhi : Representable p (((q : ℤ) + 1) * 2 ^ s) :=
    representable_mul_two_pow (by omega) (by omega) (by omega) s
  have hsucc : ((q : ℤ) + 1) * 2 ^ s = q * 2 ^ s + 2 ^ s := by ring
  have hcastp : ((2 ^ p : ℕ) : ℤ) = 2 ^ p := by push_cast; rfl
  have hcasts : ((2 ^ s : ℕ) : ℤ) = 2 ^ s := by push_cast; rfl
  split_ifs with hup
  · push_cast
    refine roundsTo_hi hhi hgap (by omega) (by omega) fun htie => ?_
    exact representable_of_even hp (by omega) (by omega) (by omega) s
  · push_cast
    refine roundsTo_lo hlo hgap (by omega) (by omega) fun htie => ?_
    exact representable_of_even hp (by omega) (by omega) (by omega) s

/-- Dropping all bits but `p` rounds to nearest, ties to even. -/
theorem roundsTo_roundNat (hp : 2 ≤ p) (n : ℕ) : RoundsTo p n (roundNat p n) := by
  rw [roundNat]
  generalize hs : n.log2 + 1 - p = s
  by_cases hzero : s = 0
  · -- nothing is dropped
    have hsmall : n < 2 ^ p :=
      Nat.lt_log2_self.trans_le (Nat.pow_le_pow_right (by norm_num) (by omega))
    rw [hzero, pow_zero, Nat.mod_one, Nat.div_one, if_neg (by omega), mul_one]
    exact roundsTo_self (representable_of_lt (by simpa using hsmall))
  have hn : n ≠ 0 := by
    rintro rfl
    simp at hs
    omega
  have hlow : 2 ^ (p - 1) ≤ n / 2 ^ s := by
    have hexp : p - 1 + s = n.log2 := by omega
    rw [Nat.le_div_iff_mul_le (by positivity), ← pow_add, hexp]
    exact Nat.log2_self_le hn
  have hhigh : n / 2 ^ s < 2 ^ p := by
    have hexp : p + s = n.log2 + 1 := by omega
    rw [Nat.div_lt_iff_lt_mul (by positivity), ← pow_add, hexp]
    exact Nat.lt_log2_self
  have hrest : n % 2 ^ s < 2 ^ s := Nat.mod_lt n (by positivity)
  have hrounds := roundsTo_of_quotient hp hlow hhigh hrest
  rwa [Nat.div_add_mod' n (2 ^ s)] at hrounds

/-- **Rounding an integer** rounds to nearest, ties to even. -/
theorem roundsTo_roundInt (hp : 2 ≤ p) (n : ℤ) : RoundsTo p n (roundInt p n) := by
  have h := roundsTo_roundNat hp n.natAbs
  rw [roundInt]
  split_ifs with hneg
  · have habs : n = -(n.natAbs : ℤ) := by omega
    rw [habs, Int.natAbs_neg, Int.natAbs_natCast]
    exact h.neg
  · have habs : (n.natAbs : ℤ) = n := by omega
    rwa [habs] at h

end Rounding
