import Mathlib.Algebra.BigOperators.Group.Finset.Basic
import Mathlib.Algebra.Order.BigOperators.Group.Finset
import Mathlib.Tactic

/-!
# Heaps of Numbered Blocks

A heap maps block numbers to the contents of the live blocks. Numbers are given out in
increasing order and never again, so a dangling number is always recognizable and the
order of the numbers is the order of allocation. That no number at or above `next` is
live is part of the structure.

## Main results

* `BlockHeap.sum_alloc`, `BlockHeap.sum_free`, `BlockHeap.sum_modify_of_eq`: how a sum over the
  live blocks changes with each operation. Reference counts, owners of a resource and
  every other census of the heap are such sums.
* `BlockHeap.sum_le_sum`, `BlockHeap.sum_eq_add_of_fresh`: how two such sums compare, whatever
  operations lie between them.
-/

/-- A heap of numbered blocks. `next` is the number that the next block gets, and a number is
never given out twice, so that a pointer to a block that was freed is not mistaken for a pointer
to a younger one. -/
@[ext] structure BlockHeap (α : Type*) where
  cell : ℕ → Option α
  next : ℕ
  fresh : ∀ n, next ≤ n → cell n = none

namespace BlockHeap

variable {α : Type*}

/-- The heap without blocks. -/
def empty : BlockHeap α where
  cell := fun _ => none
  next := 0
  fresh := fun _ _ => rfl

/-- The heap with one more block, whose number is `h.next`. -/
def alloc (h : BlockHeap α) (a : α) : BlockHeap α where
  cell := Function.update h.cell h.next (some a)
  next := h.next + 1
  fresh := by
    intro n hn
    rw [Function.update_of_ne (by omega)]
    exact h.fresh n (by omega)

/-- The heap without block `n`. Whether the block is live is for the caller to find out: freeing
one that is not is nothing that this operation notices. -/
def free (h : BlockHeap α) (n : ℕ) : BlockHeap α where
  cell := Function.update h.cell n none
  next := h.next
  fresh := by
    intro k hk
    by_cases hkn : k = n
    · rw [hkn, Function.update_self]
    · rw [Function.update_of_ne hkn]
      exact h.fresh k hk

/-- The heap with the contents of block `n`, if it is live, changed by `f`. -/
def modify (h : BlockHeap α) (n : ℕ) (f : α → α) : BlockHeap α where
  cell := Function.update h.cell n ((h.cell n).map f)
  next := h.next
  fresh := by
    intro k hk
    by_cases hkn : k = n
    · subst hkn
      rw [Function.update_self, h.fresh k hk]
      rfl
    · rw [Function.update_of_ne hkn]
      exact h.fresh k hk

variable {h : BlockHeap α} {n k : ℕ} {a b : α} {f : α → α} {w : α → ℕ}

@[simp] theorem next_empty : (empty : BlockHeap α).next = 0 := rfl

@[simp] theorem next_alloc : (h.alloc a).next = h.next + 1 := rfl

@[simp] theorem next_free : (h.free n).next = h.next := rfl

@[simp] theorem cell_alloc_self : (h.alloc a).cell h.next = some a := by
  simp [alloc]

theorem cell_alloc_of_ne (hk : k ≠ h.next) : (h.alloc a).cell k = h.cell k := by
  simp [alloc, hk]

@[simp] theorem cell_free_self : (h.free n).cell n = none := by
  simp [free]

theorem cell_free_of_ne (hk : k ≠ n) : (h.free n).cell k = h.cell k := by
  simp [free, hk]

@[simp] theorem cell_modify_self : (h.modify n f).cell n = (h.cell n).map f := by
  simp [modify]

theorem cell_modify_of_ne (hk : k ≠ n) : (h.modify n f).cell k = h.cell k := by
  simp [modify, hk]

/-- What a block held before it was freed does not matter. -/
@[simp] theorem free_modify : (h.modify n f).free n = h.free n := by
  ext k : 2
  · by_cases hk : k = n
    · rw [hk, cell_free_self, cell_free_self]
    · rw [cell_free_of_ne hk, cell_free_of_ne hk, cell_modify_of_ne hk]
  · rfl

/-- A live block was given out. -/
theorem lt_next (ha : h.cell n = some a) : n < h.next := by
  by_contra hn
  rw [h.fresh n (by omega)] at ha
  cases ha

/-- The next block is not live yet. -/
@[simp] theorem cell_next (h : BlockHeap α) : h.cell h.next = none :=
  h.fresh _ le_rfl

/-! ### Sums over the live blocks -/

/-- The sum of `w` over the live blocks. With the number of pointers that a block holds as its
weight this counts the pointers that the heap holds. -/
def sum (h : BlockHeap α) (w : α → ℕ) : ℕ :=
  ∑ n ∈ Finset.range h.next, (h.cell n).elim 0 w

/-- The sum without block `n`. -/
private theorem sum_eq_add (hn : n < h.next) :
    h.sum w = (h.cell n).elim 0 w +
      ∑ k ∈ (Finset.range h.next).erase n, (h.cell k).elim 0 w :=
  (Finset.add_sum_erase _ _ (Finset.mem_range.mpr hn)).symm

theorem sum_alloc (h : BlockHeap α) (a : α) (w : α → ℕ) :
    (h.alloc a).sum w = h.sum w + w a := by
  have hold : ∑ k ∈ Finset.range h.next, ((h.alloc a).cell k).elim 0 w = h.sum w :=
    Finset.sum_congr rfl fun k hk => by
      rw [cell_alloc_of_ne (Finset.mem_range.mp hk).ne]
  rw [sum, next_alloc, Finset.sum_range_succ, hold, cell_alloc_self]
  rfl

/-- Replacing the contents of one block changes the sum by the difference. -/
private theorem sum_update {h' : BlockHeap α} (hnext : h'.next = h.next)
    (hcell : ∀ k, k ≠ n → h'.cell k = h.cell k) (hn : n < h.next) :
    h'.sum w + (h.cell n).elim 0 w = h.sum w + (h'.cell n).elim 0 w := by
  have hrest : ∑ k ∈ (Finset.range h'.next).erase n, (h'.cell k).elim 0 w =
      ∑ k ∈ (Finset.range h.next).erase n, (h.cell k).elim 0 w := by
    rw [hnext]
    exact Finset.sum_congr rfl fun k hk => by rw [hcell k (Finset.ne_of_mem_erase hk)]
  rw [sum_eq_add hn, sum_eq_add (hnext.symm ▸ hn : n < h'.next), hrest]
  omega

theorem sum_free (ha : h.cell n = some a) (w : α → ℕ) :
    (h.free n).sum w + w a = h.sum w := by
  have hsum : (h.free n).sum w + (h.cell n).elim 0 w =
      h.sum w + ((h.free n).cell n).elim 0 w :=
    sum_update rfl (fun _ => cell_free_of_ne) (lt_next ha)
  rw [ha, cell_free_self] at hsum
  exact hsum

/-- A change of contents that keeps every weight keeps the sum. -/
theorem sum_modify_of_eq (hw : ∀ a, w (f a) = w a) : (h.modify n f).sum w = h.sum w := by
  refine Finset.sum_congr rfl fun k _ => ?_
  by_cases hk : k = n
  · subst hk
    rw [cell_modify_self]
    cases h.cell k with
    | none => rfl
    | some a => exact hw a
  · rw [cell_modify_of_ne hk]

/-- The blocks that were not given out yet add nothing. -/
theorem sum_eq_range (hk : h.next ≤ k) :
    h.sum w = ∑ n ∈ Finset.range k, (h.cell n).elim 0 w := by
  refine Finset.sum_subset (Finset.range_mono hk) fun n _ hn => ?_
  rw [h.fresh n (not_lt.mp (mt Finset.mem_range.mpr hn))]
  rfl

/-- A heap whose blocks weigh less weighs less. -/
theorem sum_le_sum {h' : BlockHeap α}
    (hle : ∀ n, (h'.cell n).elim 0 w ≤ (h.cell n).elim 0 w) : h'.sum w ≤ h.sum w := by
  rw [sum_eq_range (le_max_left h'.next h.next), sum_eq_range (le_max_right h'.next h.next)]
  exact Finset.sum_le_sum fun n _ => hle n

/-- One more block adds its weight. -/
theorem sum_eq_add_of_fresh {h' : BlockHeap α} (hn : h.cell n = none)
    (ha : h'.cell n = some a) (hcell : ∀ k, k ≠ n → h'.cell k = h.cell k) :
    h'.sum w = h.sum w + w a := by
  have hlt : n < max h'.next h.next := (lt_next ha).trans_le (le_max_left _ _)
  rw [sum_eq_range (le_max_left h'.next h.next), sum_eq_range (le_max_right h'.next h.next),
    ← Finset.add_sum_erase _ _ (Finset.mem_range.mpr hlt),
    ← Finset.add_sum_erase _ _ (Finset.mem_range.mpr hlt), hn, ha]
  have hrest : ∀ k ∈ (Finset.range (max h'.next h.next)).erase n,
      (h'.cell k).elim 0 w = (h.cell k).elim 0 w := fun k hk => by
    rw [hcell k (Finset.ne_of_mem_erase hk)]
  rw [Finset.sum_congr rfl hrest, Option.elim_none, Option.elim_some]
  omega

/-- One block's weight is at most the sum. -/
theorem le_sum (ha : h.cell n = some a) (w : α → ℕ) : w a ≤ h.sum w := by
  rw [sum_eq_add (lt_next ha), ha]
  exact Nat.le_add_right _ _

/-- A positive sum has a block of positive weight. -/
theorem exists_of_sum_pos (hpos : 0 < h.sum w) : ∃ n a, h.cell n = some a ∧ 0 < w a := by
  obtain ⟨n, -, hn⟩ := Finset.exists_ne_zero_of_sum_ne_zero hpos.ne'
  cases hcell : h.cell n with
  | none => simp [hcell] at hn
  | some a => exact ⟨n, a, hcell, Nat.pos_of_ne_zero (by simpa [hcell] using hn)⟩

/-- A sum of zero weights is zero. -/
theorem sum_eq_zero (hw : ∀ n a, h.cell n = some a → w a = 0) : h.sum w = 0 := by
  by_contra hne
  obtain ⟨n, a, ha, hpos⟩ := exists_of_sum_pos (Nat.pos_of_ne_zero hne)
  exact hpos.ne' (hw n a ha)

end BlockHeap
