import Mathlib.Tactic

/-!
# Outcomes of Fallible Computations

`Sat x P E` says of a computation `x : Except ε α` that its result satisfies `P` if it
has one, and that its error satisfies `E` otherwise. It is a Hoare triple with a second
postcondition for errors; the rules below follow the constructors of `Except` and the
sequencing of `do` blocks. `Alike R x y` compares two computations: they end with results
that `R` relates, or with the same error.

## Main results

* `Sat.bind`: the rule for sequencing.
* `sat_ite`, `sat_ok`, `sat_error`: the rules for branches and for the two outcomes.
* `Sat.exists_ok`: a computation without possible errors has a result.
* `bind_eq_ok_iff`: the inversion of sequencing.
* `exists_foldlM`: the rule for loops over a list.
* `Alike.bind`: the rule for sequencing two computations side by side.
-/

universe u v

namespace Outcome

variable {ε : Type u} {α β : Type v}

/-- The result of `x` satisfies `P`, its error satisfies `E`. -/
def Sat (x : Except ε α) (P : α → Prop) (E : ε → Prop) : Prop :=
  match x with
  | .ok a => P a
  | .error e => E e

variable {x : Except ε α} {f : α → Except ε β} {P P' : α → Prop} {Q : β → Prop}
  {E E' : ε → Prop}

theorem sat_ok {a : α} (h : P a) : Sat (.ok a : Except ε α) P E := h

theorem sat_error {e : ε} (h : E e) : Sat (.error e : Except ε α) P E := h

theorem sat_true (x : Except ε α) : Sat x (fun _ => True) (fun _ => True) := by
  cases x <;> trivial

/-- Sequencing: what the first computation establishes, the second may assume. -/
theorem Sat.bind (hx : Sat x P E) (hf : ∀ a, P a → Sat (f a) Q E) :
    Sat (x >>= f) Q E := by
  cases x with
  | ok a => exact hf a hx
  | error e => exact hx

theorem Sat.mono (h : Sat x P E) (hP : ∀ a, P a → P' a) (hE : ∀ e, E e → E' e) :
    Sat x P' E' := by
  cases x with
  | ok a => exact hP a h
  | error e => exact hE e h

theorem sat_ite {c : Prop} [Decidable c] {x y : Except ε α} (hx : c → Sat x P E)
    (hy : ¬ c → Sat y P E) : Sat (if c then x else y) P E := by
  by_cases h : c
  · rw [if_pos h]
    exact hx h
  · rw [if_neg h]
    exact hy h

/-- The result may be assumed to be the result. -/
theorem Sat.with_eq (h : Sat x P E) : Sat x (fun a => x = .ok a ∧ P a) E := by
  cases x with
  | ok a => exact ⟨rfl, h⟩
  | error e => exact h

/-- What is known of every result is known of the result there is. -/
theorem Sat.of_eq_ok (h : Sat x P E) {a : α} (ha : x = .ok a) : P a := by
  rw [ha] at h
  exact h

/-- A computation without possible errors has a result. -/
theorem Sat.exists_ok (h : Sat x P fun _ => False) : ∃ a, x = .ok a ∧ P a := by
  cases x with
  | ok a => exact ⟨a, rfl, h⟩
  | error e => exact h.elim

/-- A computation has a result, or one of the errors it may have. -/
theorem Sat.ok_or_error (h : Sat x P E) :
    (∃ a, x = .ok a ∧ P a) ∨ ∃ e, x = .error e ∧ E e := by
  cases x with
  | ok a => exact .inl ⟨a, rfl, h⟩
  | error e => exact .inr ⟨e, rfl, h⟩

@[simp] theorem ok_bind (a : α) (f : α → Except ε β) : (Except.ok a >>= f) = f a := rfl

@[simp] theorem error_bind (e : ε) (f : α → Except ε β) :
    ((Except.error e : Except ε α) >>= f) = .error e := rfl

/-- A sequence that has a result comes from a first computation that has one. -/
theorem bind_eq_ok_iff {b : β} : x >>= f = .ok b ↔ ∃ a, x = .ok a ∧ f a = .ok b := by
  cases x with
  | error e =>
      rw [error_bind]
      constructor
      · rintro ⟨⟩
      · rintro ⟨_, ⟨⟩, _⟩
  | ok a => simp

/-- The rule for loops over a list: every round has a result and keeps `I`. -/
theorem exists_foldlM {g : β → α → Except ε β} {I : β → Prop} {l : List α} {b : β}
    (hround : ∀ a ∈ l, ∀ b, I b → ∃ b', g b a = .ok b' ∧ I b') (hb : I b) :
    ∃ b', l.foldlM g b = .ok b' ∧ I b' := by
  induction l generalizing b with
  | nil => exact ⟨b, rfl, hb⟩
  | cons a l ih =>
      obtain ⟨hhead, htail⟩ := List.forall_mem_cons.mp hround
      obtain ⟨b', hb', hI⟩ := hhead b hb
      rw [List.foldlM_cons, hb', ok_bind]
      exact ih htail hI

/-! ### Two computations side by side -/

/-- The two computations have related results, or the same error. -/
def Alike (R : α → α → Prop) (x y : Except ε α) : Prop :=
  match x, y with
  | .ok a, .ok b => R a b
  | .error e, .error e' => e = e'
  | .ok _, .error _ | .error _, .ok _ => False

variable {y : Except ε α} {R : α → α → Prop}

theorem alike_ok {a b : α} (h : R a b) : Alike R (.ok a : Except ε α) (.ok b) := h

theorem alike_error (e : ε) : Alike R (.error e) (.error e) := rfl

/-- Computations that read the same go on alike. -/
theorem alike_bind_same {S : β → β → Prop} {g : α → Except ε β}
    (h : ∀ a, Alike S (f a) (g a)) : Alike S (x >>= f) (x >>= g) := by
  cases x with
  | ok a => exact h a
  | error e => rfl

theorem Alike.bind {S : β → β → Prop} {g : α → Except ε β} (h : Alike R x y)
    (hfg : ∀ a b, R a b → Alike S (f a) (g b)) : Alike S (x >>= f) (y >>= g) := by
  cases x <;> cases y
  case ok.ok a b => exact hfg a b h
  case error.error e e' => exact h
  all_goals exact h.elim

theorem alike_ite {c : Prop} [Decidable c] {x' y' : Except ε α} (h : c → Alike R x y)
    (h' : ¬ c → Alike R x' y') : Alike R (if c then x else x') (if c then y else y') := by
  by_cases hc : c
  · rw [if_pos hc, if_pos hc]
    exact h hc
  · rw [if_neg hc, if_neg hc]
    exact h' hc

/-- Where the one has a result the other has a related one. -/
theorem Alike.exists_ok (h : Alike R x y) {a : α} (hx : x = .ok a) :
    ∃ b, y = .ok b ∧ R a b := by
  subst hx
  cases y with
  | ok b => exact ⟨b, rfl, h⟩
  | error e => exact h.elim

end Outcome
