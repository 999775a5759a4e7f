import Mathlib.Tactic

/-!
# Happens-Before on Logs

A log records the steps of several threads in the order in which they were taken, some of
them accesses to atomic objects with a memory order. A read-modify-write reads the last
write of its object, and a load is logged where the write it reads is the last one, as
coherence allows. So an access that acquires synchronizes with the release that heads the
release sequence it reads from: read-modify-writes continue that sequence, plain stores end
it. Happens-before is what follows from this and from the order of each thread. Two steps
that it does not order are concurrent, however close or far apart the log has them.

## Main results

* `Before.append`: a longer log orders what it ordered before.
* `Knows.before_next`, `Published.before_next`: what the next step of a thread comes after.
* `Before.same_thread`: without synchronization threads are not ordered.
-/

namespace HappensBefore

/-- The memory orders of C11 but for `memory_order_consume`. -/
inductive MemoryOrder
  | relaxed
  | acquire
  | release
  | acqRel
  | seqCst
  deriving DecidableEq, Repr

/-- A read with this order is an acquire operation. -/
def MemoryOrder.Acquires : MemoryOrder → Prop
  | .acquire | .acqRel | .seqCst => True
  | .relaxed | .release => False

/-- A write with this order is a release operation. -/
def MemoryOrder.Releases : MemoryOrder → Prop
  | .release | .acqRel | .seqCst => True
  | .relaxed | .acquire => False

/-- An access to an atomic object. A read-modify-write that fails, as a compare-and-swap may, is
a `load`. -/
inductive AtomicAccess (κ : Type*)
  | load (object : κ) (order : MemoryOrder)
  | store (object : κ) (order : MemoryOrder)
  | readModifyWrite (object : κ) (order : MemoryOrder)

/-- The access is a release write of `x`. -/
def AtomicAccess.ReleasesAt {κ : Type*} (x : κ) : AtomicAccess κ → Prop
  | .load _ _ => False
  | .store object order | .readModifyWrite object order => object = x ∧ order.Releases

/-- The access is an acquire read of `x`. -/
def AtomicAccess.AcquiresAt {κ : Type*} (x : κ) : AtomicAccess κ → Prop
  | .store _ _ => False
  | .load object order | .readModifyWrite object order => object = x ∧ order.Acquires

/-- The access is a plain store to `x`. -/
def AtomicAccess.StoresAt {κ : Type*} (x : κ) : AtomicAccess κ → Prop
  | .store object _ => object = x
  | .load _ _ | .readModifyWrite _ _ => False

variable {ι κ E : Type*} (atomic : E → Option (AtomicAccess κ)) (log : List (ι × E))

/-- Step `a` of the log heads the release sequence of `x` that the steps from `n` on read
from: since then nothing was stored to `x`. -/
def Heads (x : κ) (a n : ℕ) : Prop :=
  (∃ i e access, log[a]? = some (i, e) ∧ atomic e = some access ∧ access.ReleasesAt x) ∧
    ∀ k, a < k → k < n → ∀ i e access, log[k]? = some (i, e) → atomic e = some access →
      ¬ access.StoresAt x

/-- Step `a` of the log synchronizes with step `b`: `b` is an acquire read that reads from the
release sequence of `a`. -/
def Synchronizes (a b : ℕ) : Prop :=
  a < b ∧ ∃ x, Heads atomic log x a b ∧
    ∃ i e access, log[b]? = some (i, e) ∧ atomic e = some access ∧ access.AcquiresAt x

/-- **Happens-before**: program order and synchronization, and what follows from them by
transitivity. -/
inductive Before : ℕ → ℕ → Prop
  | program {a b : ℕ} {i : ι} {e e' : E} : a < b → log[a]? = some (i, e) →
      log[b]? = some (i, e') → Before a b
  | synchronizes {a b : ℕ} : Synchronizes atomic log a b → Before a b
  | trans {a b c : ℕ} : Before a b → Before b c → Before a c

/-- Step `a` is a step of thread `i` or happens before one. -/
def Knows (i : ι) (a : ℕ) : Prop :=
  ∃ b e, log[b]? = some (i, e) ∧ (a = b ∨ Before atomic log a b)

/-- Step `a` happens before the release that a read of `x` reads from. -/
def Published (x : κ) (a : ℕ) : Prop :=
  ∃ j, Heads atomic log x j log.length ∧ Before atomic log a j

section Lemmas

variable {atomic log} {a b n : ℕ} {i j : ι} {e : E} {x : κ} {access : AtomicAccess κ}

/-- A step of a log is a step of every longer one. -/
theorem getElem?_append_of_eq_some {l l' : List (ι × E)} {k : ℕ} {p : ι × E}
    (h : l[k]? = some p) : (l ++ l')[k]? = some p := by
  rw [List.getElem?_append_left (List.getElem?_eq_some_iff.mp h).1]
  exact h

theorem getElem?_length_concat (l : List (ι × E)) (p : ι × E) :
    (l ++ [p])[l.length]? = some p := by
  simp

/-- The entries of a log with one more step. -/
theorem getElem?_concat_cases {l : List (ι × E)} {p q : ι × E} {k : ℕ}
    (h : (l ++ [p])[k]? = some q) : l[k]? = some q ∨ (k = l.length ∧ p = q) := by
  rcases Nat.lt_or_ge k l.length with hlt | hge
  · rw [List.getElem?_append_left hlt] at h
    exact .inl h
  · have hlt := (List.getElem?_eq_some_iff.mp h).1
    rw [List.length_append, List.length_singleton] at hlt
    obtain rfl : k = l.length := by omega
    rw [getElem?_length_concat] at h
    exact .inr ⟨rfl, Option.some.inj h⟩

theorem Heads.lt (h : Heads atomic log x a n) : a < log.length := by
  obtain ⟨⟨_, _, _, ha, -⟩, -⟩ := h
  exact (List.getElem?_eq_some_iff.mp ha).1

theorem Heads.append (h : Heads atomic log x a n) (hn : n ≤ log.length)
    (log' : List (ι × E)) : Heads atomic (log ++ log') x a n := by
  obtain ⟨⟨i, e, access, ha, hrest⟩, hstores⟩ := h
  refine ⟨⟨i, e, access, getElem?_append_of_eq_some ha, hrest⟩, fun k hak hkn => ?_⟩
  rw [List.getElem?_append_left (hkn.trans_le hn)]
  exact hstores k hak hkn

/-- A step that is not a store to `x` continues the release sequence. -/
theorem Heads.concat (h : Heads atomic log x a log.length)
    (he : ∀ access, atomic e = some access → ¬ access.StoresAt x) :
    Heads atomic (log ++ [(i, e)]) x a (log ++ [(i, e)]).length := by
  obtain ⟨hhead, hstores⟩ := h
  obtain ⟨j, f, access, ha, hrest⟩ := hhead
  refine ⟨⟨j, f, access, getElem?_append_of_eq_some ha, hrest⟩, fun k hak _ => ?_⟩
  intro i' e' access' hk
  rcases getElem?_concat_cases hk with hk | ⟨-, heq⟩
  · exact hstores k hak (List.getElem?_eq_some_iff.mp hk).1 i' e' access' hk
  · obtain ⟨-, rfl⟩ := Prod.mk.inj heq
    exact he access'

/-- A release heads a release sequence. -/
theorem heads_concat (he : atomic e = some access) (hreleases : access.ReleasesAt x) :
    Heads atomic (log ++ [(i, e)]) x log.length (log ++ [(i, e)]).length := by
  refine ⟨⟨i, e, access, getElem?_length_concat _ _, he, hreleases⟩, fun k hk hk' => ?_⟩
  rw [List.length_append, List.length_singleton] at hk'
  omega

/-- **A longer log** orders what it ordered before. -/
theorem Before.append (h : Before atomic log a b) (log' : List (ι × E)) :
    Before atomic (log ++ log') a b := by
  induction h with
  | program hlt ha hb =>
      exact .program hlt (getElem?_append_of_eq_some ha) (getElem?_append_of_eq_some hb)
  | synchronizes h =>
      obtain ⟨hlt, x, hheads, i, e, access, hb, he⟩ := h
      have hlength := (List.getElem?_eq_some_iff.mp hb).1
      exact .synchronizes ⟨hlt, x, hheads.append hlength.le log', i, e, access,
        getElem?_append_of_eq_some hb, he⟩
  | trans _ _ ih ih' => exact ih.trans ih'

/-- Happens-before agrees with the log. -/
theorem Before.lt (h : Before atomic log a b) : a < b := by
  induction h with
  | program hlt => exact hlt
  | synchronizes h => exact h.1
  | trans _ _ ih ih' => exact ih.trans ih'

/-- **Without synchronization** only the steps of one thread are ordered. -/
theorem Before.same_thread (hnone : ∀ a b, ¬ Synchronizes atomic log a b)
    (h : Before atomic log a b) :
    ∃ i e e', log[a]? = some (i, e) ∧ log[b]? = some (i, e') := by
  induction h with
  | program _ ha hb => exact ⟨_, _, _, ha, hb⟩
  | synchronizes h => exact absurd h (hnone _ _)
  | trans _ _ ih ih' =>
      obtain ⟨i, e, e', ha, hb⟩ := ih
      obtain ⟨j, f, f', hb', hc⟩ := ih'
      obtain ⟨rfl, rfl⟩ := Prod.mk.inj (Option.some.inj (hb.symm.trans hb'))
      exact ⟨_, _, _, ha, hc⟩

theorem Knows.append (h : Knows atomic log i a) (log' : List (ι × E)) :
    Knows atomic (log ++ log') i a := by
  obtain ⟨b, e, hb, hab⟩ := h
  exact ⟨b, e, getElem?_append_of_eq_some hb, hab.imp_right fun h => h.append log'⟩

/-- A thread's next step comes after what the thread knows. -/
theorem Knows.before_next (h : Knows atomic log i a) (e : E) :
    Before atomic (log ++ [(i, e)]) a log.length := by
  obtain ⟨b, f, hb, hab⟩ := h
  have hnext : Before atomic (log ++ [(i, e)]) b log.length :=
    .program (List.getElem?_eq_some_iff.mp hb).1 (getElem?_append_of_eq_some hb)
      (getElem?_length_concat _ _)
  rcases hab with rfl | hbefore
  · exact hnext
  · exact (hbefore.append _).trans hnext

/-- What happens before a thread's next step it knows from then on. -/
theorem knows_of_before_next (h : Before atomic (log ++ [(i, e)]) a log.length) :
    Knows atomic (log ++ [(i, e)]) i a :=
  ⟨log.length, e, getElem?_length_concat _ _, .inr h⟩

/-- A step that is not a store to `x` leaves what was published. -/
theorem Published.concat (h : Published atomic log x a)
    (he : ∀ access, atomic e = some access → ¬ access.StoresAt x) :
    Published atomic (log ++ [(i, e)]) x a := by
  obtain ⟨j, hheads, hbefore⟩ := h
  exact ⟨j, hheads.concat he, hbefore.append _⟩

/-- **An acquire** comes after what was published. -/
theorem Published.before_next (h : Published atomic log x a) (he : atomic e = some access)
    (hacquires : access.AcquiresAt x) (i : ι) :
    Before atomic (log ++ [(i, e)]) a log.length := by
  obtain ⟨j, hheads, hbefore⟩ := h
  refine (hbefore.append _).trans (.synchronizes ⟨hheads.lt, x, hheads.append le_rfl _, ?_⟩)
  exact ⟨i, e, access, getElem?_length_concat _ _, he, hacquires⟩

/-- **A release** publishes what its thread knows. -/
theorem Knows.published (h : Knows atomic log i a) (he : atomic e = some access)
    (hreleases : access.ReleasesAt x) : Published atomic (log ++ [(i, e)]) x a :=
  ⟨log.length, heads_concat he hreleases, h.before_next e⟩

end Lemmas

end HappensBefore
