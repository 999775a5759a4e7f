import Mathlib.Data.Fintype.Card
import Mathlib.Order.WellFoundedSet
import Mathlib.Tactic

/-!
# Intrusive Singly Linked Lists

The elements of an intrusive list carry the link to their successor themselves, so a list
is a head pointer and a `next` function that may link anything to anything. `Chain` says
that following the links from a pointer visits the elements of a list in order and then
ends at `NULL`. A loop along the links is a function with a bound on its rounds; as no
chain visits an element twice, the number of elements there are is enough.

## Main results

* `Chain.unique`, `Chain.nodup`: a chain is determined by its head and has no repetitions.
* `Chain.push`, `chain_update_iff`: linking an element in front.
* `exists_chain_of_acyclic`: links without a cycle among finitely many elements end.
* `follow_eq_some_iff`: the loop along the links sees exactly the chain, and ends if
  there is one.
-/

namespace IntrusiveList

variable {α : Type*}

/-- Following `next` from a pointer visits the elements of a list and ends. -/
inductive Chain (next : α → Option α) : Option α → List α → Prop
  | nil : Chain next none []
  | cons {a : α} {xs : List α} : Chain next (next a) xs → Chain next (some a) (a :: xs)

variable {next next' : α → Option α} {o : Option α} {xs ys : List α}

theorem Chain.unique (h : Chain next o xs) (h' : Chain next o ys) : xs = ys := by
  induction h generalizing ys with
  | nil =>
      cases h'
      rfl
  | cons _ ih =>
      cases h' with
      | cons h' => rw [ih h']

theorem Chain.eq_nil_iff (h : Chain next o xs) : xs = [] ↔ o = none := by
  cases h <;> simp

/-- From every element of a chain the rest of it is a chain. -/
theorem Chain.exists_of_mem (h : Chain next o xs) {a : α} (ha : a ∈ xs) :
    ∃ l r, xs = l ++ a :: r ∧ Chain next (some a) (a :: r) := by
  induction h with
  | nil => cases ha
  | cons h ih =>
      rcases List.mem_cons.mp ha with rfl | ha
      · exact ⟨[], _, rfl, h.cons⟩
      · obtain ⟨l, r, hxs, hr⟩ := ih ha
        exact ⟨_ :: l, r, by rw [hxs]; rfl, hr⟩

/-- A chain does not come back to an element: it would go round for ever. -/
theorem Chain.nodup (h : Chain next o xs) : xs.Nodup := by
  induction h with
  | nil => exact List.nodup_nil
  | @cons a xs h ih =>
      refine List.nodup_cons.mpr ⟨fun ha => ?_, ih⟩
      obtain ⟨l, r, hxs, hr⟩ := h.exists_of_mem ha
      have hlen := congrArg List.length (h.cons.unique hr)
      simp only [hxs, List.length_cons, List.length_append] at hlen
      omega

/-- A chain depends on the links of its elements only. -/
theorem Chain.congr (h : Chain next o xs) (heq : ∀ a ∈ xs, next' a = next a) :
    Chain next' o xs := by
  induction h with
  | nil => exact .nil
  | cons _ ih =>
      refine .cons ?_
      rw [heq _ List.mem_cons_self]
      exact ih fun a ha => heq a (List.mem_cons_of_mem _ ha)

/-- **Linking a new element in front.** -/
theorem Chain.push [DecidableEq α] (h : Chain next o xs) {a : α} (ha : a ∉ xs) :
    Chain (Function.update next a o) (some a) (a :: xs) := by
  refine .cons ?_
  rw [Function.update_self]
  refine h.congr fun b hb => Function.update_of_ne ?_ _ _
  rintro rfl
  exact ha hb

/-- **Linking an element in front leaves a chain behind only if it was not linked yet**: else
the links from it come back to it. -/
theorem chain_update_iff [DecidableEq α] {a : α} :
    Chain (Function.update next a o) (some a) ys ↔
      ∃ xs, ys = a :: xs ∧ a ∉ xs ∧ Chain next o xs := by
  constructor
  · intro h
    have hnodup := h.nodup
    cases h with
    | @cons _ xs h =>
        rw [Function.update_self] at h
        have hnew := (List.nodup_cons.mp hnodup).1
        refine ⟨xs, rfl, hnew, h.congr fun b hb => ?_⟩
        rw [Function.update_of_ne (ne_of_mem_of_not_mem hb hnew)]
  · rintro ⟨xs, rfl, hnew, h⟩
    exact h.push hnew

/-- **Links that do not go round end**: from every element of a finite set that the links
do not leave, if no element of it comes after itself. -/
theorem exists_chain_of_acyclic {s : Set α} (hfinite : s.Finite)
    (hstay : ∀ a ∈ s, ∀ b, next a = some b → b ∈ s)
    (hacyclic : ∀ a, ¬ Relation.TransGen (fun b a => next a = some b) a a)
    {a : α} (ha : a ∈ s) : ∃ xs, Chain next (some a) xs := by
  have hirrefl : Std.Irrefl (Relation.TransGen fun b a => next a = some b) := ⟨hacyclic⟩
  have horder : IsStrictOrder α (Relation.TransGen fun b a => next a = some b) := { }
  have hwf := hfinite.wellFoundedOn (r := Relation.TransGen fun b a => next a = some b)
  refine hwf.induction (P := fun a => ∃ xs, Chain next (some a) xs) ha fun a ha ih => ?_
  cases hb : next a with
  | none => exact ⟨[a], .cons (hb ▸ .nil)⟩
  | some b =>
      obtain ⟨xs, hxs⟩ := ih b (hstay a ha b hb) (.single hb)
      exact ⟨a :: xs, .cons (hb ▸ hxs)⟩

/-! ### The loop along the links -/

/-- The elements a loop along the links visits, if it ends after at most `fuel` of them. -/
def walk (next : α → Option α) : ℕ → Option α → Option (List α)
  | _, none => some []
  | 0, some _ => none
  | fuel + 1, some a => (walk next fuel (next a)).map (a :: ·)

theorem Chain.walk_eq (h : Chain next o xs) {fuel : ℕ} (hfuel : xs.length ≤ fuel) :
    walk next fuel o = some xs := by
  induction h generalizing fuel with
  | nil => cases fuel <;> rfl
  | cons _ ih =>
      cases fuel with
      | zero => simp at hfuel
      | succ fuel =>
          rw [walk, ih (by simpa using hfuel)]
          rfl

theorem chain_of_walk {fuel : ℕ} (h : walk next fuel o = some xs) : Chain next o xs := by
  induction fuel generalizing o xs with
  | zero =>
      cases o with
      | none =>
          obtain rfl := Option.some.inj h
          exact .nil
      | some a => cases h
  | succ fuel ih =>
      cases o with
      | none =>
          obtain rfl := Option.some.inj h
          exact .nil
      | some a =>
          obtain ⟨ys, hys, rfl⟩ := Option.map_eq_some_iff.mp h
          exact (ih hys).cons

/-- The loop along the links. A loop that has not ended after as many rounds as there are
elements has come back to one and never ends. -/
def follow [Fintype α] (next : α → Option α) (o : Option α) : Option (List α) :=
  walk next (Fintype.card α) o

/-- **The loop along the links** ends exactly on a chain, and visits its elements. -/
theorem follow_eq_some_iff [Fintype α] : follow next o = some xs ↔ Chain next o xs :=
  ⟨chain_of_walk, fun h => h.walk_eq h.nodup.length_le_card⟩

end IntrusiveList
