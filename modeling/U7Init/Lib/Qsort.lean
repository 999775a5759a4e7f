import Mathlib.Data.List.Duplicate
import Mathlib.Data.List.Sort
import Mathlib.Tactic

/-!
# Sorting with a Comparison Function

`qsort` promises a sorted permutation of its array if the comparison function is a
consistent total preorder, and nothing about the order of elements that compare equal.
`Consistent` and `Sorts` state the two halves of this contract. A comparison function is
best understood through a key in a linear order whose comparison it computes.

## Main results

* `Compares.consistent`: a function that compares keys is consistent.
* `eq_of_pairwise_lt`: on arrays without equal keys there is one sorted arrangement, so
  the result does not depend on the order of the input.
* `adjacent_eq_none_iff`: in a sorted array equal keys are found by looking at neighbours.
* `isLeast_of_adjacent`: the first pair of equal neighbours has the least key that occurs
  twice.
* `sorts_insertionSort`: the contract can be met.
-/

namespace Qsort

variable {α κ : Type*}

/-- The comparison function is a consistent total preorder, which is what the C standard wants
of it before `qsort` has to sort anything. -/
structure Consistent (cmp : α → α → ℤ) : Prop where
  neg_iff : ∀ x y, cmp x y < 0 ↔ 0 < cmp y x
  trans : ∀ x y z, cmp x y ≤ 0 → cmp y z ≤ 0 → cmp x z ≤ 0

/-- The contract of `qsort`: for a consistent comparison function it returns the same elements
in sorted order. Equal elements may come in any order, and need not come in the same order
twice. -/
structure Sorts (qsort : (α → α → ℤ) → List α → List α) : Prop where
  perm : ∀ cmp xs, Consistent cmp → (qsort cmp xs).Perm xs
  sorted : ∀ cmp xs, Consistent cmp → (qsort cmp xs).Pairwise fun x y => cmp x y ≤ 0

/-- The comparison function compares keys in a linear order. It may give any numbers of the
right signs. -/
structure Compares [LinearOrder κ] (cmp : α → α → ℤ) (key : α → κ) : Prop where
  neg_iff : ∀ x y, cmp x y < 0 ↔ key x < key y
  pos_iff : ∀ x y, 0 < cmp x y ↔ key y < key x

section Compares

variable [LinearOrder κ] {cmp : α → α → ℤ} {key : α → κ}

theorem Compares.nonpos_iff (h : Compares cmp key) (x y : α) : cmp x y ≤ 0 ↔ key x ≤ key y := by
  rw [← not_lt, h.pos_iff, not_lt]

theorem Compares.eq_zero_iff (h : Compares cmp key) (x y : α) : cmp x y = 0 ↔ key x = key y := by
  have hsplit : cmp x y = 0 ↔ ¬ 0 < cmp x y ∧ ¬ cmp x y < 0 := by omega
  rw [hsplit, h.neg_iff, h.pos_iff, not_lt, not_lt, le_antisymm_iff]

/-- A function that compares keys is consistent. -/
theorem Compares.consistent (h : Compares cmp key) : Consistent cmp where
  neg_iff := fun x y => (h.neg_iff x y).trans (h.pos_iff y x).symm
  trans := by
    intro x y z hxy hyz
    rw [h.nonpos_iff] at *
    exact hxy.trans hyz

end Compares

/-! ### Sorted arrays -/

section Sorted

variable [LinearOrder κ] {cmp : α → α → ℤ} {key : α → κ}
  {qsort : (α → α → ℤ) → List α → List α} {xs ys : List α}

theorem Sorts.perm_of_compares (hsorts : Sorts qsort) (h : Compares cmp key) (xs : List α) :
    (qsort cmp xs).Perm xs :=
  hsorts.perm cmp xs h.consistent

/-- The result is sorted by key. -/
theorem Sorts.pairwise_le (hsorts : Sorts qsort) (h : Compares cmp key) (xs : List α) :
    (qsort cmp xs).Pairwise fun x y => key x ≤ key y :=
  (hsorts.sorted cmp xs h.consistent).imp fun hxy => (h.nonpos_iff _ _).mp hxy

/-- Sorted by key without equal keys is strictly sorted by key. -/
theorem pairwise_lt_of_pairwise_le (hle : xs.Pairwise fun x y => key x ≤ key y)
    (hnodup : (xs.map key).Nodup) : xs.Pairwise fun x y => key x < key y := by
  have hne : xs.Pairwise fun x y => key x ≠ key y := List.pairwise_map.mp hnodup
  exact (hle.and hne).imp fun h => lt_of_le_of_ne h.1 h.2

/-- Without equal keys there is one strictly sorted arrangement. -/
theorem eq_of_pairwise_lt (hperm : xs.Perm ys) (hxs : xs.Pairwise fun x y => key x < key y)
    (hys : ys.Pairwise fun x y => key x < key y) : xs = ys :=
  hperm.eq_of_pairwise (fun _ _ _ _ h h' => absurd h' h.asymm) hxs hys

/-- The first element that equals its left neighbour: the loop that looks for duplicates in a
sorted array. -/
def adjacent (eq : α → α → Bool) : List α → Option α
  | x :: y :: xs => if eq x y then some y else adjacent eq (y :: xs)
  | [_] | [] => none

/-- **In a sorted array equal keys are neighbours**: without equal neighbours there are no
equal keys at all. -/
theorem adjacent_eq_none_iff {eq : α → α → Bool} (heq : ∀ x y, eq x y = true ↔ key x = key y)
    (hle : xs.Pairwise fun x y => key x ≤ key y) :
    adjacent eq xs = none ↔ (xs.map key).Nodup := by
  induction xs with
  | nil => simp [adjacent]
  | cons x xs ih =>
      cases xs with
      | nil => simp [adjacent]
      | cons y xs =>
          have hle' := List.pairwise_cons.mp hle
          by_cases hxy : key x = key y
          · have hdup : ¬ ((x :: y :: xs).map key).Nodup := by
              simp [hxy]
            simp only [adjacent, (heq x y).mpr hxy, if_true, reduceCtorEq, hdup]
          · have hfalse : ¬ eq x y = true := fun h => hxy ((heq x y).mp h)
            rw [adjacent, if_neg hfalse, ih hle'.2, List.map_cons (l := y :: xs),
              List.nodup_cons]
            refine (and_iff_right ?_).symm
            -- everything from `y` on is at least `y`, and `x` is less than that
            intro hmem
            obtain ⟨z, hz, hzx⟩ := List.mem_map.mp hmem
            have hxy' := lt_of_le_of_ne (hle'.1 y List.mem_cons_self) hxy
            rcases List.mem_cons.mp hz with rfl | hz
            · exact hxy hzx.symm
            · have hyz := (List.pairwise_cons.mp hle'.2).1 z hz
              exact absurd hzx (hxy'.trans_le hyz).ne'

/-- **The first equal neighbours** have the least key that occurs twice. -/
theorem isLeast_of_adjacent {eq : α → α → Bool} (heq : ∀ x y, eq x y = true ↔ key x = key y)
    (hle : xs.Pairwise fun x y => key x ≤ key y) {z : α} (h : adjacent eq xs = some z) :
    z ∈ xs ∧ IsLeast {k | List.Duplicate k (xs.map key)} (key z) := by
  induction xs with
  | nil => cases h
  | cons x xs ih =>
      cases xs with
      | nil => cases h
      | cons y xs =>
          obtain ⟨hx, hle'⟩ := List.pairwise_cons.mp hle
          by_cases hxy : key x = key y
          · rw [adjacent, if_pos ((heq x y).mpr hxy)] at h
            obtain rfl := Option.some.inj h
            refine ⟨List.mem_cons_of_mem _ List.mem_cons_self, ?_, fun k hk => ?_⟩
            · refine List.duplicate_cons_iff.mpr (.inl ⟨hxy, ?_⟩)
              exact List.mem_map_of_mem List.mem_cons_self
            · -- the list begins with that key, and is sorted
              obtain ⟨w, hw, rfl⟩ := List.mem_map.mp hk.mem
              rcases List.mem_cons.mp hw with rfl | hw
              · exact hxy.ge
              · exact hxy ▸ hx w hw
          · have hfalse : ¬ eq x y = true := fun h => hxy ((heq x y).mp h)
            rw [adjacent, if_neg hfalse] at h
            obtain ⟨hz, hleast⟩ := ih hle' h
            have hiff : ∀ k, List.Duplicate k ((x :: y :: xs).map key) ↔
                List.Duplicate k ((y :: xs).map key) := by
              intro k
              rw [List.map_cons, List.duplicate_cons_iff]
              refine or_iff_right ?_
              rintro ⟨hkx, hmem⟩
              -- `x` comes strictly before all others
              obtain ⟨w, hw, rfl⟩ := List.mem_map.mp hmem
              have hyw : key y ≤ key w := by
                rcases List.mem_cons.mp hw with rfl | hw
                · exact le_rfl
                · exact (List.pairwise_cons.mp hle').1 w hw
              have hlt := lt_of_le_of_ne (hx y List.mem_cons_self) hxy
              exact absurd hkx (hlt.trans_le hyw).ne
            refine ⟨List.mem_cons_of_mem _ hz, (hiff _).mpr hleast.1, fun k hk => ?_⟩
            exact hleast.2 ((hiff k).mp hk)

/-- The keys that occur twice do not depend on the order. -/
theorem duplicate_perm_iff (h : xs.Perm ys) (k : κ) :
    List.Duplicate k (xs.map key) ↔ List.Duplicate k (ys.map key) := by
  rw [List.duplicate_iff_two_le_count, List.duplicate_iff_two_le_count,
    (h.map key).count_eq k]

end Sorted

/-- Insertion sort meets the contract. -/
theorem sorts_insertionSort :
    Sorts fun (cmp : α → α → ℤ) xs => xs.insertionSort fun x y => cmp x y ≤ 0 where
  perm := fun _ xs _ => List.perm_insertionSort _ xs
  sorted := by
    intro cmp xs h
    have htotal : Std.Total fun x y => cmp x y ≤ 0 := ⟨fun x y => by
      have := h.neg_iff x y
      have := h.neg_iff y x
      omega⟩
    have htrans : IsTrans α fun x y => cmp x y ≤ 0 := ⟨h.trans⟩
    exact List.pairwise_insertionSort _ xs

end Qsort
