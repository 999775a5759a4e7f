import Mathlib.Data.BitVec
import U7Init.Lib.Interleaving

/-!
# The Reference Counter

This module models `public/refcount.h`: the 32-bit atomic counter, its increment, its
plain decrement and its skewed decrement, and threads that share one counted object. The
C and the C++ half of the header use the same operations with the same memory orders, so
one model serves both.

The memory orders are explicit. Every object access gets a number, its position in the
log of the run; every thread and the counter carry the set of accesses that happen before
them. An `acq_rel` read-modify-write joins the counter's set into the thread and publishes
the thread's set in the counter, a relaxed read-modify-write keeps what the counter
already publishes and gives the thread nothing, and a relaxed load gives the thread
nothing.

## Main results

* `Refs.seen_iff`: what happens before a thread is exactly its own accesses and those
  handed over to it, through a `fetch_sub` of the accessing thread and a later
  `fetch_sub` of its own.
* `Refs.ordered_of_no_loadOne`: as long as no call takes the shortcut of the skewed
  decrement, a decrement that returns `false` comes after every access made before a
  reference was given up.
* `Refs.ordered_step_iff`: the exact condition on one step, on the configuration before it.
* `skewed_decrement_not_ordered`: the shortcut does not, since its load is relaxed.
* `disposal_ordered_iff`: the exact condition on the schedule under which it does.
-/

open Interleaving

namespace U7Init

/-- The value of the `atomic_int`. -/
abbrev U7Refcount := BitVec 32

/-- `U7_REFCOUNT_INIT` and `u7_refcount_init`. -/
def u7RefcountInit : U7Refcount :=
  1#32

/-- `u7_refcount_increment`. -/
def u7RefcountIncrement (count : U7Refcount) : U7Refcount :=
  count + 1#32

/-- `u7_refcount_decrement`: the new counter and the returned value. -/
def u7RefcountDecrement (count : U7Refcount) : U7Refcount × Bool :=
  (count - 1#32, count != 1#32)

/-- `u7_refcount_skewed_decrement`, its load and its `fetch_sub` run without a step of
another thread in between: a counter that reads `1` is not written. -/
def u7RefcountSkewedDecrement (count : U7Refcount) : U7Refcount × Bool :=
  if count != 1#32 then u7RefcountDecrement count else (count, false)

/-- A counter that stands for `n` references reads `1` exactly when there is one. -/
theorem ofNat_eq_one_iff {n : ℕ} (hle : n ≤ 2 ^ 32) : BitVec.ofNat 32 n = 1#32 ↔ n = 1 := by
  constructor
  · intro h
    have := congrArg BitVec.toNat h
    simp only [BitVec.toNat_ofNat] at this
    omega
  · rintro rfl
    rfl

/-- A decremented counter stands for one reference less. -/
theorem ofNat_succ_sub_one (n : ℕ) : BitVec.ofNat 32 (n + 1) - 1#32 = BitVec.ofNat 32 n := by
  apply BitVec.eq_of_toNat_eq
  simp only [BitVec.toNat_sub, BitVec.toNat_ofNat]
  omega

/-- The skewed decrement of a counter that stands for `n` references: it returns `false`
on the last one and leaves the counter alone, and otherwise counts one reference less. -/
theorem u7RefcountSkewedDecrement_ofNat {n : ℕ} (hpos : 0 < n) (hle : n ≤ 2 ^ 32) :
    u7RefcountSkewedDecrement (BitVec.ofNat 32 n) =
      if n = 1 then (1#32, false) else (BitVec.ofNat 32 (n - 1), true) := by
  by_cases h : n = 1
  · subst h
    rfl
  · have hbne : (BitVec.ofNat 32 n != 1#32) = true :=
      bne_iff_ne.mpr fun hone => h ((ofNat_eq_one_iff hle).mp hone)
    obtain ⟨k, rfl⟩ : ∃ k, n = k + 1 := ⟨n - 1, by omega⟩
    rw [u7RefcountSkewedDecrement, if_pos hbne, if_neg h, u7RefcountDecrement, hbne,
      ofNat_succ_sub_one, Nat.add_sub_cancel]

/-- Incrementing a counter that stands for `n` references. -/
theorem u7RefcountIncrement_ofNat (n : ℕ) :
    u7RefcountIncrement (BitVec.ofNat 32 n) = BitVec.ofNat 32 (n + 1) :=
  (BitVec.ofNat_add n 1).symm

namespace Refs

/-- What a thread does in one atomic step. -/
inductive Event (ι : Type*)
  /-- It reads or writes the object. -/
  | access
  /-- `u7_refcount_increment`; the new reference belongs to thread `owner`. -/
  | increment (owner : ι)
  /-- `u7_refcount_decrement`, which returned `result`. -/
  | decrement (result : Bool)
  /-- The load of `u7_refcount_skewed_decrement` read `1`: the call returned `false`. -/
  | loadOne
  /-- The load of `u7_refcount_skewed_decrement` read something else. -/
  | loadMany
  /-- The `fetch_sub` of `u7_refcount_skewed_decrement`; the call returned `result`. -/
  | skewedSub (result : Bool)
  deriving DecidableEq

/-- The value a decrement function returned in this step, if one did. -/
def Event.returned {ι : Type*} : Event ι → Option Bool
  | .decrement result | .skewedSub result => some result
  | .loadOne => some false
  | .access | .increment _ | .loadMany => none

/-- The step is an `acq_rel` read-modify-write. -/
def Event.IsSub {ι : Type*} (e : Event ι) : Prop :=
  match e with
  | .decrement _ | .skewedSub _ => True
  | .access | .increment _ | .loadOne | .loadMany => False

/-- The counter, the set it publishes, who holds how many references, and the log of all
steps so far. -/
structure Shared (ι : Type*) where
  count : U7Refcount
  released : Finset ℕ
  refs : ι → ℕ
  log : List (ι × Event ι)

/-- Where a thread is. -/
inductive Place
  | idle
  /-- In `u7_refcount_skewed_decrement`, between its load and its `fetch_sub`. -/
  | subtracting
  deriving DecidableEq

/-- A thread: where it is and which accesses happen before it. -/
structure Thread where
  place : Place
  seen : Finset ℕ

variable {ι : Type*}

/-! ### What the log says -/

/-- Step `a` was an object access by thread `i`. -/
def Accessed (log : List (ι × Event ι)) (i : ι) (a : ℕ) : Prop :=
  log[a]? = some (i, .access)

/-- Thread `i` performed an `acq_rel` read-modify-write in step `k`. -/
def SubAt (log : List (ι × Event ι)) (i : ι) (k : ℕ) : Prop :=
  ∃ e : Event ι, log[k]? = some (i, e) ∧ e.IsSub

/-- The thread that made access `a` gave up a reference afterwards. -/
def GivenUp (log : List (ι × Event ι)) (a : ℕ) : Prop :=
  ∃ u j, a < j ∧ Accessed log u a ∧
    ∃ e : Event ι, log[j]? = some (u, e) ∧ e.returned.isSome = true

/-- The thread that made access `a` performed a `fetch_sub` afterwards. -/
def Published (log : List (ι × Event ι)) (a : ℕ) : Prop :=
  ∃ u j, a < j ∧ Accessed log u a ∧ SubAt log u j

/-- The thread that made access `a` performed a `fetch_sub` afterwards, and thread `i`
performed one after that. -/
def HandedOver (log : List (ι × Event ι)) (i : ι) (a : ℕ) : Prop :=
  ∃ u j k, a < j ∧ j < k ∧ Accessed log u a ∧ SubAt log u j ∧ SubAt log i k

/-- An entry of a log with one more step: an old entry or the new one. -/
theorem getElem?_concat {log : List (ι × Event ι)} {p q : ι × Event ι} {k : ℕ} :
    (log ++ [p])[k]? = some q ↔ log[k]? = some q ∨ (k = log.length ∧ p = q) := by
  rcases Nat.lt_trichotomy k log.length with h | rfl | h
  · rw [List.getElem?_append_left h]
    exact ⟨.inl, fun hk => hk.resolve_right fun hk => h.ne hk.1⟩
  · simp
  · simp [List.getElem?_eq_none, h.le, h.ne', Nat.succ_le_of_lt h]

theorem accessed_concat {log : List (ι × Event ι)} {t i : ι} {e : Event ι} {a : ℕ} :
    Accessed (log ++ [(t, e)]) i a ↔
      Accessed log i a ∨ (a = log.length ∧ t = i ∧ e = .access) := by
  rw [Accessed, getElem?_concat, Prod.mk.injEq]
  rfl

theorem subAt_concat {log : List (ι × Event ι)} {t i : ι} {e : Event ι} {k : ℕ} :
    SubAt (log ++ [(t, e)]) i k ↔
      SubAt log i k ∨ (k = log.length ∧ t = i ∧ e.IsSub) := by
  simp only [SubAt, getElem?_concat, Prod.mk.injEq]
  constructor
  · rintro ⟨e', h | ⟨hk, ht, rfl⟩, hsub⟩
    · exact .inl ⟨e', h, hsub⟩
    · exact .inr ⟨hk, ht, hsub⟩
  · rintro (⟨e', h, hsub⟩ | ⟨hk, ht, hsub⟩)
    · exact ⟨e', .inl h, hsub⟩
    · exact ⟨e, .inr ⟨hk, ht, rfl⟩, hsub⟩

theorem Accessed.lt {log : List (ι × Event ι)} {i : ι} {a : ℕ} (h : Accessed log i a) :
    a < log.length :=
  (List.getElem?_eq_some_iff.mp h).1

theorem SubAt.lt {log : List (ι × Event ι)} {i : ι} {k : ℕ} (h : SubAt log i k) :
    k < log.length := by
  obtain ⟨e, hk, -⟩ := h
  exact (List.getElem?_eq_some_iff.mp hk).1

/-- A step publishes what was published before and, if it is a `fetch_sub`, the accesses
of the thread that takes it. -/
theorem published_concat {log : List (ι × Event ι)} {t : ι} {e : Event ι} {a : ℕ} :
    Published (log ++ [(t, e)]) a ↔ Published log a ∨ (e.IsSub ∧ Accessed log t a) := by
  constructor
  · rintro ⟨u, j, haj, hacc, hsub⟩
    rw [subAt_concat] at hsub
    rw [accessed_concat] at hacc
    rcases hsub with hsub | ⟨rfl, rfl, hsub⟩
    · have hj := hsub.lt
      exact .inl ⟨u, j, haj, hacc.resolve_right fun h => by omega, hsub⟩
    · exact .inr ⟨hsub, hacc.resolve_right fun h => by omega⟩
  · rintro (⟨u, j, haj, hacc, hsub⟩ | ⟨hsub, hacc⟩)
    · exact ⟨u, j, haj, accessed_concat.mpr (.inl hacc), subAt_concat.mpr (.inl hsub)⟩
    · exact ⟨t, log.length, hacc.lt, accessed_concat.mpr (.inl hacc),
        subAt_concat.mpr (.inr ⟨rfl, rfl, hsub⟩)⟩

/-- A step gives up what was given up before and, if it ends a decrement, the accesses of
the thread that takes it. -/
theorem givenUp_concat {log : List (ι × Event ι)} {t : ι} {e : Event ι} {a : ℕ} :
    GivenUp (log ++ [(t, e)]) a ↔
      GivenUp log a ∨ (e.returned.isSome = true ∧ Accessed log t a) := by
  constructor
  · rintro ⟨u, j, haj, hacc, e', hj, hret⟩
    rw [getElem?_concat, Prod.mk.injEq] at hj
    rw [accessed_concat] at hacc
    rcases hj with hj | ⟨rfl, rfl, rfl⟩
    · have hlt := (List.getElem?_eq_some_iff.mp hj).1
      exact .inl ⟨u, j, haj, hacc.resolve_right fun h => by omega, e', hj, hret⟩
    · exact .inr ⟨hret, hacc.resolve_right fun h => by omega⟩
  · rintro (⟨u, j, haj, hacc, e', hj, hret⟩ | ⟨hret, hacc⟩)
    · exact ⟨u, j, haj, accessed_concat.mpr (.inl hacc), e',
        getElem?_concat.mpr (.inl hj), hret⟩
    · exact ⟨t, log.length, hacc.lt, accessed_concat.mpr (.inl hacc), e,
        getElem?_concat.mpr (.inr ⟨rfl, rfl⟩), hret⟩

/-- A step hands over what was handed over before and, if it is a `fetch_sub`, everything
published to the thread that takes it. -/
theorem handedOver_concat {log : List (ι × Event ι)} {t i : ι} {e : Event ι} {a : ℕ} :
    HandedOver (log ++ [(t, e)]) i a ↔
      HandedOver log i a ∨ (t = i ∧ e.IsSub ∧ Published log a) := by
  constructor
  · rintro ⟨u, j, k, haj, hjk, hacc, hj, hk⟩
    rw [subAt_concat] at hj hk
    rw [accessed_concat] at hacc
    have hjlt : j < log.length := by
      rcases hk with hk | ⟨rfl, -, -⟩
      · exact hjk.trans hk.lt
      · exact hjk
    have hj' := hj.resolve_right fun h => by omega
    have hacc' := hacc.resolve_right fun h => by omega
    rcases hk with hk | ⟨rfl, rfl, hsub⟩
    · exact .inl ⟨u, j, k, haj, hjk, hacc', hj', hk⟩
    · exact .inr ⟨rfl, hsub, u, j, haj, hacc', hj'⟩
  · rintro (⟨u, j, k, haj, hjk, hacc, hj, hk⟩ | ⟨rfl, hsub, u, j, haj, hacc, hj⟩)
    · exact ⟨u, j, k, haj, hjk, accessed_concat.mpr (.inl hacc),
        subAt_concat.mpr (.inl hj), subAt_concat.mpr (.inl hk)⟩
    · exact ⟨u, j, log.length, haj, hj.lt, accessed_concat.mpr (.inl hacc),
        subAt_concat.mpr (.inl hj), subAt_concat.mpr (.inr ⟨rfl, rfl, hsub⟩)⟩

/-! ### The atomic steps -/

variable [DecidableEq ι]

/-- The shared state after thread `i` gave up a reference in step `e`. -/
def Shared.giveUp (s : Shared ι) (i : ι) (e : Event ι) : Shared ι :=
  { s with refs := Function.update s.refs i (s.refs i - 1), log := s.log ++ [(i, e)] }

/-- The atomic steps of a thread, each of them by a thread that holds a reference. -/
inductive Next : Program ι (Shared ι) Thread (Event ι)
  | access {i : ι} {s : Shared ι} {seen : Finset ℕ} :
      0 < s.refs i →
      Next i s ⟨.idle, seen⟩ .access
        { s with log := s.log ++ [(i, .access)] } ⟨.idle, insert s.log.length seen⟩
  | increment {i owner : ι} {s : Shared ι} {seen : Finset ℕ} :
      0 < s.refs i →
      Next i s ⟨.idle, seen⟩ (.increment owner)
        { s with
          count := u7RefcountIncrement s.count
          refs := Function.update s.refs owner (s.refs owner + 1)
          log := s.log ++ [(i, .increment owner)] } ⟨.idle, seen⟩
  | decrement {i : ι} {s : Shared ι} {seen : Finset ℕ} {result : Bool} :
      0 < s.refs i → (u7RefcountDecrement s.count).2 = result →
      Next i s ⟨.idle, seen⟩ (.decrement result)
        { s.giveUp i (.decrement result) with
          count := (u7RefcountDecrement s.count).1
          released := s.released ∪ seen } ⟨.idle, seen ∪ s.released⟩
  | loadOne {i : ι} {s : Shared ι} {seen : Finset ℕ} :
      0 < s.refs i → s.count = 1#32 →
      Next i s ⟨.idle, seen⟩ .loadOne (s.giveUp i .loadOne) ⟨.idle, seen⟩
  | loadMany {i : ι} {s : Shared ι} {seen : Finset ℕ} :
      0 < s.refs i → s.count ≠ 1#32 →
      Next i s ⟨.idle, seen⟩ .loadMany
        { s with log := s.log ++ [(i, .loadMany)] } ⟨.subtracting, seen⟩
  | skewedSub {i : ι} {s : Shared ι} {seen : Finset ℕ} {result : Bool} :
      (u7RefcountDecrement s.count).2 = result →
      Next i s ⟨.subtracting, seen⟩ (.skewedSub result)
        { s.giveUp i (.skewedSub result) with
          count := (u7RefcountDecrement s.count).1
          released := s.released ∪ seen } ⟨.idle, seen ∪ s.released⟩

/-- Every thread holds its share of the references, the counter counts them, and nothing
has happened yet. -/
def start [Fintype ι] (refs : ι → ℕ) : Config ι (Shared ι) Thread :=
  ⟨⟨BitVec.ofNat 32 (∑ i, refs i), ∅, refs, []⟩, fun _ => ⟨.idle, ∅⟩⟩

/-! ### The sets are what the log says -/

variable {c : Config ι (Shared ι) Thread}

/-- The invariant of the two kinds of sets: a thread's set holds its own accesses and
those handed over to it, the counter's set holds the published ones. -/
structure Views (c : Config ι (Shared ι) Thread) : Prop where
  seen : ∀ i a, a ∈ (c.loc i).seen ↔ Accessed c.shared.log i a ∨ HandedOver c.shared.log i a
  released : ∀ a, a ∈ c.shared.released ↔ Published c.shared.log a

/-- What a step does to the sets: it logs itself; an access joins the thread's own set;
an `acq_rel` step joins the counter's set and the thread's set; every other step leaves
both alone. -/
theorem Next.views {i : ι} {s s' : Shared ι} {l l' : Thread} {e : Event ι}
    (h : Next i s l e s' l') :
    s'.log = s.log ++ [(i, e)] ∧
      (∀ a, a ∈ l'.seen ↔ a ∈ l.seen ∨ (e = .access ∧ a = s.log.length) ∨
        (e.IsSub ∧ a ∈ s.released)) ∧
      (∀ a, a ∈ s'.released ↔ a ∈ s.released ∨ (e.IsSub ∧ a ∈ l.seen)) := by
  cases h <;>
    simp [Event.IsSub, Shared.giveUp, or_comm]

/-- **The step lemma of the sets.** -/
theorem Views.step (h : Views c) {i : ι} {s' : Shared ι} {l' : Thread} {e : Event ι}
    (hnext : Next i c.shared (c.loc i) e s' l') : Views (c.move i s' l') := by
  obtain ⟨hlog, hseen, hreleased⟩ := hnext.views
  constructor
  · intro j a
    rw [Config.move_shared, hlog, accessed_concat, handedOver_concat]
    by_cases hj : j = i
    · subst hj
      rw [Config.move_loc_self, hseen, h.seen, h.released]
      constructor
      · rintro ((hacc | hover) | ⟨he, ha⟩ | ⟨hsub, hpub⟩)
        · exact .inl (.inl hacc)
        · exact .inr (.inl hover)
        · exact .inl (.inr ⟨ha, rfl, he⟩)
        · exact .inr (.inr ⟨rfl, hsub, hpub⟩)
      · rintro ((hacc | ⟨ha, -, he⟩) | hover | ⟨-, hsub, hpub⟩)
        · exact .inl (.inl hacc)
        · exact .inr (.inl ⟨he, ha⟩)
        · exact .inl (.inr hover)
        · exact .inr (.inr ⟨hsub, hpub⟩)
    · rw [c.move_loc_of_ne s' l' hj, h.seen]
      constructor
      · rintro (hacc | hover)
        · exact .inl (.inl hacc)
        · exact .inr (.inl hover)
      · rintro ((hacc | ⟨-, hij, -⟩) | hover | ⟨hij, -⟩)
        · exact .inl hacc
        · exact absurd hij.symm hj
        · exact .inr hover
        · exact absurd hij.symm hj
  · intro a
    rw [Config.move_shared, hlog, published_concat, hreleased, h.released, h.seen]
    constructor
    · rintro (hpub | ⟨hsub, hacc | ⟨u, j, k, haj, -, hacc, hj, -⟩⟩)
      · exact .inl hpub
      · exact .inr ⟨hsub, hacc⟩
      · exact .inl ⟨u, j, haj, hacc, hj⟩
    · rintro (hpub | ⟨hsub, hacc⟩)
      · exact .inl hpub
      · exact .inr ⟨hsub, .inl hacc⟩

variable [Fintype ι] {refs : ι → ℕ}

omit [DecidableEq ι] in
theorem views_start (refs : ι → ℕ) : Views (start refs) where
  seen := by
    intro i a
    simp [start, Accessed, HandedOver]
  released := by
    intro a
    simp [start, Accessed, Published]

/-- In every reachable configuration the sets are what the log says. -/
theorem views_of_reach (h : Reach Next (start refs) c) : Views c :=
  h.invariant (views_start refs) fun _ _ _ _ _ _ hviews hnext => hviews.step hnext

/-- What happens before a thread is its own accesses and those handed over to it. -/
theorem seen_iff (h : Reach Next (start refs) c) (i : ι) (a : ℕ) :
    a ∈ (c.loc i).seen ↔ Accessed c.shared.log i a ∨ HandedOver c.shared.log i a :=
  (views_of_reach h).seen i a

/-! ### Disposal -/

/-- If the last step returned `false` in a thread, every access that any thread made
before it gave up a reference happens before that thread. The log does not tell a
thread's references apart, so this asks for all accesses of a thread that precede one of
its decrements. -/
def Ordered (c : Config ι (Shared ι) Thread) : Prop :=
  ∀ i e, c.shared.log.getLast? = some (i, e) → e.returned = some false →
    ∀ a, GivenUp c.shared.log a → a ∈ (c.loc i).seen

/-- If the last step returned `false` in a thread, every access that another thread made
before it gave up a reference was followed by a `fetch_sub` of that other thread and then
by one of this thread. It is a condition on the schedule alone. -/
def Synchronized (c : Config ι (Shared ι) Thread) : Prop :=
  ∀ i e, c.shared.log.getLast? = some (i, e) → e.returned = some false →
    ∀ a, GivenUp c.shared.log a → Accessed c.shared.log i a ∨ HandedOver c.shared.log i a

theorem ordered_iff_synchronized (h : Reach Next (start refs) c) :
    Ordered c ↔ Synchronized c := by
  simp only [Ordered, Synchronized, seen_iff h]

/-- The condition on a step of thread `i`, on the configuration before it. If the step
gives up a reference while the counter reads `1`, every access given up before is the
thread's own, or was handed over to it, or is published and the step is a `fetch_sub`. -/
def Covers (c : Config ι (Shared ι) Thread) (i : ι) (e : Event ι) : Prop :=
  e.returned.isSome = true → c.shared.count = 1#32 → ∀ a, GivenUp c.shared.log a →
    Accessed c.shared.log i a ∨ HandedOver c.shared.log i a ∨
      (e.IsSub ∧ Published c.shared.log a)

omit [Fintype ι] in
/-- A decrement returns `false` exactly when it finds the counter at `1`. -/
theorem Next.returned_iff {i : ι} {s s' : Shared ι} {l l' : Thread} {e : Event ι}
    (h : Next i s l e s' l') :
    e.returned = some false ↔ e.returned.isSome = true ∧ s.count = 1#32 := by
  cases h with
  | access | increment | loadMany => simp [Event.returned]
  | loadOne _ hone => simp [Event.returned, hone]
  | decrement _ hres | skewedSub hres =>
      simp [Event.returned, ← hres, u7RefcountDecrement]

omit [Fintype ι] in
/-- After a step the schedule is synchronized exactly if the step met its condition. -/
theorem Next.synchronized_iff {i : ι} {s' : Shared ι} {l' : Thread} {e : Event ι}
    (h : Next i c.shared (c.loc i) e s' l') :
    Synchronized (c.move i s' l') ↔ Covers c i e := by
  have hlast : (c.shared.log ++ [(i, e)]).getLast? = some (i, e) := by simp
  simp only [Synchronized, Covers, Config.move_shared, h.views.1, givenUp_concat,
    accessed_concat, handedOver_concat]
  constructor
  · intro hsync hret hone a ha
    have he := h.returned_iff.mpr ⟨hret, hone⟩
    rcases hsync i e hlast he a (.inl ha) with (hacc | ⟨-, -, rfl⟩) | hover | ⟨-, hsub, hpub⟩
    · exact .inl hacc
    · cases he
    · exact .inr (.inl hover)
    · exact .inr (.inr ⟨hsub, hpub⟩)
  · intro hcovers j e' hlast' he a ha
    obtain ⟨rfl, rfl⟩ := Prod.mk.inj (Option.some.inj (hlast.symm.trans hlast'))
    rcases ha with ha | ⟨-, hacc⟩
    · obtain ⟨hret, hone⟩ := h.returned_iff.mp he
      rcases hcovers hret hone a ha with hacc | hover | ⟨hsub, hpub⟩
      · exact .inl (.inl hacc)
      · exact .inr (.inl hover)
      · exact .inr (.inr ⟨rfl, hsub, hpub⟩)
    · exact .inl (.inl hacc)

/-- **The step lemma of disposal.** After a step of a run disposal is ordered exactly if
the step met its condition. -/
theorem ordered_step_iff (h : Reach Next (start refs) c) {i : ι} {e : Event ι}
    {c' : Config ι (Shared ι) Thread} (hstep : Step Next c i e c') :
    Ordered c' ↔ Covers c i e := by
  rw [ordered_iff_synchronized (h.tail trivial hstep)]
  cases hstep with
  | mk hnext => exact hnext.synchronized_iff

/-- Without the shortcut of the skewed decrement, every `false` is returned by a
`fetch_sub`, and every reference was given up by one. -/
theorem ordered_of_no_loadOne (h : Reach Next (start refs) c)
    (hslow : ∀ (i : ι) (k : ℕ), c.shared.log[k]? ≠ some (i, Event.loadOne)) : Ordered c := by
  rw [ordered_iff_synchronized h]
  have hsub : ∀ {i : ι} {k : ℕ} {e : Event ι}, c.shared.log[k]? = some (i, e) →
      e.returned.isSome = true → e.IsSub := by
    intro i k e hk he
    cases e with
    | decrement | skewedSub => trivial
    | loadOne => exact absurd hk (hslow i k)
    | access | increment | loadMany => cases he
  rintro i e hlast hfalse a ⟨u, j, haj, hacc, e', hj, he'⟩
  rw [List.getLast?_eq_getElem?] at hlast
  have hk : SubAt c.shared.log i (c.shared.log.length - 1) :=
    ⟨e, hlast, hsub hlast (by rw [hfalse]; rfl)⟩
  have hj' : SubAt c.shared.log u j := ⟨e', hj, hsub hj he'⟩
  rcases Nat.lt_or_ge j (c.shared.log.length - 1) with hlt | hge
  · exact .inr ⟨u, j, _, haj, hlt, hacc, hj', hk⟩
  · -- the reference was given up by the returning call itself
    have hjeq : j = c.shared.log.length - 1 := by
      have := hj'.lt
      omega
    rw [hjeq, hlast] at hj
    obtain ⟨rfl, -⟩ := Prod.mk.inj (Option.some.inj hj)
    exact .inl hacc

end Refs

open Refs in
/-- The shortcut of `u7_refcount_skewed_decrement` does not order disposal: thread `0`
accesses the object and gives up its reference with `u7_refcount_decrement`; thread `1`
then reads the counter as `1` with a relaxed load and returns `false`, although the
access of thread `0` does not happen before it. -/
theorem skewed_decrement_not_ordered :
    ¬ ∀ (ι : Type) [DecidableEq ι] [Fintype ι] (refs : ι → ℕ)
        (c : Config ι (Shared ι) Thread), Reach Next (start refs) c → Ordered c := by
  intro hclaim
  have h := (ReachWithin.refl : Reach Next (start fun _ : Fin 2 => 1) _)
    |>.move 0 (.access (by decide)) |>.move 0 (.decrement (by decide) rfl)
    |>.move 1 (.loadOne (by decide) rfl)
  have hseen := hclaim _ _ _ h 1 .loadOne rfl rfl 0
    ⟨0, 1, by decide, rfl, .decrement true, rfl, rfl⟩
  exact absurd hseen (by decide)

open Refs in
/-- **When disposal is ordered.** After a step from a reachable configuration, a decrement
that returned `false` comes after every access made through a reference before it was
given up exactly when the step met its condition on the configuration before it; and this
holds all along a run exactly when the schedule is synchronized. It always does while no
call has taken the shortcut of the skewed decrement. -/
theorem disposal_ordered_iff {ι : Type*} [DecidableEq ι] [Fintype ι] (refs : ι → ℕ)
    (c : Config ι (Shared ι) Thread) :
    (Reach Next (start refs) c → ∀ i e c', Step Next c i e c' →
      (Ordered c' ↔ Covers c i e)) ∧
      (Reach Next (start refs) c → (Ordered c ↔ Synchronized c)) ∧
      (Reach Next (start refs) c →
        (∀ (i : ι) (k : ℕ), c.shared.log[k]? ≠ some (i, Event.loadOne)) → Ordered c) ∧
      (ReachWithin Next Ordered (start refs) c ↔
        ReachWithin Next Synchronized (start refs) c) :=
  ⟨fun h _ _ _ hstep => ordered_step_iff h hstep, ordered_iff_synchronized,
    ordered_of_no_loadOne, fun h => h.imp fun _ hr => (ordered_iff_synchronized hr).mp,
    fun h => h.imp fun _ hr => (ordered_iff_synchronized hr).mpr⟩

end U7Init
