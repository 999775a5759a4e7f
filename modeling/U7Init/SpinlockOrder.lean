import U7Init.Lib.HappensBefore
import U7Init.Spinlock

/-!
# The Spinlock and Data Races

This module runs any number of threads over any number of spinlocks, each of which protects
an object of its own. A thread may hold several locks, takes them with `u7_spinlock_lock` or
`u7_spinlock_trylock`, and accesses an object while it holds its lock; nothing else is
assumed about it. The memory orders of the three functions are a parameter, and those of
`public/spinlock.h` one value of it.

A data race is two accesses of different threads to one object, not ordered by happens-before;
that both are reads is no excuse here, which makes the result stronger. Happens-before is
derived from the log of the run, in which every `atomic_flag_test_and_set`, successful or not,
is a read-modify-write, and `atomic_flag_clear` a store. A store ends the release sequences in
front of it, so `u7_spinlock_unlock` must publish everything on its own, and it does, because
whoever unlocks has acquired before.

## Main results

* `Locks.Inv.step`: a holder knows every access to the object, and between two holders the
  flag publishes them.
* `spinlock_race_free`: accesses to a protected object are never concurrent.
* `race_free_iff_ordered`: weaker memory orders than those of the source would not do.
-/

open Interleaving HappensBefore

namespace U7Init

/-- The memory orders of the three functions. -/
structure SpinlockOrders where
  lock : MemoryOrder
  trylock : MemoryOrder
  unlock : MemoryOrder
  deriving DecidableEq, Repr

/-- The memory orders of `u7_spinlock_lock`, `u7_spinlock_trylock` and
`u7_spinlock_unlock`. -/
def u7SpinlockOrders : SpinlockOrders where
  lock := .acquire
  trylock := .acquire
  unlock := .release

namespace Locks

/-- What a thread does in one step. -/
inductive Event (κ : Type*)
  /-- It calls `u7_spinlock_lock`. -/
  | call (k : κ)
  /-- It evaluates the loop condition of `u7_spinlock_lock`. -/
  | testAndSet (k : κ)
  /-- `u7_spinlock_trylock`, which returned `result`. -/
  | trylock (k : κ) (result : Bool)
  /-- It reads or writes the object that the lock protects. -/
  | access (k : κ)
  /-- `u7_spinlock_unlock`. -/
  | unlock (k : κ)
  deriving DecidableEq

/-- The access of a step to the flag of a lock. -/
def Event.atomic {κ : Type*} (o : SpinlockOrders) : Event κ → Option (AtomicAccess κ)
  | .testAndSet k => some (.readModifyWrite k o.lock)
  | .trylock k _ => some (.readModifyWrite k o.trylock)
  | .unlock k => some (.store k o.unlock)
  | .call _ | .access _ => none

/-- The locks, and the log of all steps so far. -/
structure Shared (ι κ : Type*) where
  lock : κ → U7Spinlock
  log : List (ι × Event κ)

/-- Where a thread is. -/
inductive Place (κ : Type*)
  | idle
  /-- In the loop of `u7_spinlock_lock`, with this back-off counter. -/
  | spinning (k : κ) (backoff : ℤ)

/-- A thread: where it is and the locks it holds. -/
structure Thread (κ : Type*) where
  place : Place κ
  held : Finset κ

variable {ι κ : Type*} [DecidableEq κ]

/-- The shared state after step `e` of thread `i` left lock `k` as `lock`. -/
def Shared.record (s : Shared ι κ) (i : ι) (e : Event κ) (k : κ) (lock : U7Spinlock) :
    Shared ι κ where
  lock := Function.update s.lock k lock
  log := s.log ++ [(i, e)]

@[simp] theorem Shared.record_lock_self {s : Shared ι κ} {i : ι} {e : Event κ} {k : κ}
    {lock : U7Spinlock} : (s.record i e k lock).lock k = lock :=
  Function.update_self _ _ _

theorem Shared.record_lock_of_ne {s : Shared ι κ} {i : ι} {e : Event κ} {k k' : κ}
    {lock : U7Spinlock} (hk : k ≠ k') : (s.record i e k' lock).lock k = s.lock k :=
  Function.update_of_ne hk _ _

/-- The atomic steps of a thread. -/
inductive Next : Program ι (Shared ι κ) (Thread κ) (Event κ)
  | call {i : ι} {s : Shared ι κ} {held : Finset κ} {k : κ} :
      Next i s ⟨.idle, held⟩ (.call k) (s.record i (.call k) k (s.lock k))
        ⟨.spinning k 0, held⟩
  | spin {i : ι} {s : Shared ι κ} {held : Finset κ} {k : κ} {n n' : ℤ} :
      (u7SpinlockLockIter (s.lock k) n).2 = some n' →
      Next i s ⟨.spinning k n, held⟩ (.testAndSet k)
        (s.record i (.testAndSet k) k (u7SpinlockLockIter (s.lock k) n).1)
        ⟨.spinning k n', held⟩
  | lock {i : ι} {s : Shared ι κ} {held : Finset κ} {k : κ} {n : ℤ} :
      (u7SpinlockLockIter (s.lock k) n).2 = none →
      Next i s ⟨.spinning k n, held⟩ (.testAndSet k)
        (s.record i (.testAndSet k) k (u7SpinlockLockIter (s.lock k) n).1)
        ⟨.idle, insert k held⟩
  | trylock {i : ι} {s : Shared ι κ} {held : Finset κ} {k : κ} :
      (u7SpinlockTrylock (s.lock k)).2 = true →
      Next i s ⟨.idle, held⟩ (.trylock k true)
        (s.record i (.trylock k true) k (u7SpinlockTrylock (s.lock k)).1)
        ⟨.idle, insert k held⟩
  | trylockFail {i : ι} {s : Shared ι κ} {held : Finset κ} {k : κ} :
      (u7SpinlockTrylock (s.lock k)).2 = false →
      Next i s ⟨.idle, held⟩ (.trylock k false)
        (s.record i (.trylock k false) k (u7SpinlockTrylock (s.lock k)).1) ⟨.idle, held⟩
  | access {i : ι} {s : Shared ι κ} {held : Finset κ} {k : κ} :
      k ∈ held →
      Next i s ⟨.idle, held⟩ (.access k) (s.record i (.access k) k (s.lock k)) ⟨.idle, held⟩
  | unlock {i : ι} {s : Shared ι κ} {held : Finset κ} {k : κ} :
      k ∈ held →
      Next i s ⟨.idle, held⟩ (.unlock k)
        (s.record i (.unlock k) k (u7SpinlockUnlock (s.lock k))) ⟨.idle, held.erase k⟩

/-- No thread has done anything yet. -/
def start : Config ι (Shared ι κ) (Thread κ) :=
  ⟨⟨fun _ => u7SpinlockInit, []⟩, fun _ => ⟨.idle, ∅⟩⟩

/-- **No data race.** Of two accesses to an object the earlier one happens before the
later one. -/
def RaceFree (o : SpinlockOrders) (log : List (ι × Event κ)) : Prop :=
  ∀ k a b i j, a < b → log[a]? = some (i, .access k) → log[b]? = some (j, .access k) →
    Before (Event.atomic o) log a b

/-! ### One step -/

section Steps

variable {o : SpinlockOrders} {i : ι} {s s' : Shared ι κ} {l l' : Thread κ} {e : Event κ}
  {k : κ}

/-- What a step does to lock `k`: it takes it while it is free, gives it up, or changes neither
its flag nor whether the thread holds it. -/
inductive Effect (s : Shared ι κ) (l l' : Thread κ) (k : κ) : Event κ → Bool → Prop
  | quiet {e : Event κ} : e ≠ .unlock k → (e = .access k → k ∈ l.held) →
      (k ∈ l'.held ↔ k ∈ l.held) → Effect s l l' k e (s.lock k).flag
  | take {e : Event κ} : (s.lock k).flag = false → e = .testAndSet k ∨ e = .trylock k true →
      k ∈ l'.held → Effect s l l' k e true
  | give : k ∈ l.held → k ∉ l'.held → Effect s l l' k (.unlock k) false

/-- A step that is about another lock. -/
theorem Effect.of_ne {k' : κ} {lock : U7Spinlock} (hk : k ≠ k') (hunlock : e ≠ .unlock k)
    (haccess : e ≠ .access k) (hheld : k ∈ l'.held ↔ k ∈ l.held) :
    Effect s l l' k e ((s.record i e k' lock).lock k).flag := by
  rw [Shared.record_lock_of_ne hk]
  exact .quiet hunlock (fun he => absurd he haccess) hheld

/-- A step that leaves the flag as it was. -/
theorem Effect.of_flag_eq {lock : U7Spinlock} (hflag : lock.flag = (s.lock k).flag)
    (hunlock : e ≠ .unlock k) (haccess : e = .access k → k ∈ l.held)
    (hheld : k ∈ l'.held ↔ k ∈ l.held) :
    Effect s l l' k e ((s.record i e k lock).lock k).flag := by
  rw [Shared.record_lock_self, hflag]
  exact .quiet hunlock haccess hheld

/-- Every step logs itself and has one of these effects on every lock. -/
theorem Next.effect (h : Next i s l e s' l') :
    s'.log = s.log ++ [(i, e)] ∧ ∀ k, Effect s l l' k e (s'.lock k).flag := by
  refine ⟨by cases h <;> rfl, fun k => ?_⟩
  cases h with
  | call =>
      rename_i held k'
      by_cases hk : k = k'
      · subst hk
        exact .of_flag_eq rfl (by simp) (by simp) Iff.rfl
      · exact .of_ne hk (by simp) (by simp) Iff.rfl
  | spin hold =>
      rename_i held k' n n'
      by_cases hk : k = k'
      · subst hk
        have hset : (s.lock k).flag = true := by
          rw [← Bool.not_eq_false, ← u7SpinlockLockIter_eq_none, hold]
          exact Option.some_ne_none _
        exact .of_flag_eq hset.symm (by simp) (by simp) Iff.rfl
      · exact .of_ne hk (by simp) (by simp) Iff.rfl
  | lock hold =>
      rename_i held k' n
      by_cases hk : k = k'
      · subst hk
        rw [Shared.record_lock_self]
        exact .take (u7SpinlockLockIter_eq_none.mp hold) (.inl rfl) (Finset.mem_insert_self _ _)
      · exact .of_ne hk (by simp) (by simp) (by simp [hk])
  | trylock hres =>
      rename_i held k'
      by_cases hk : k = k'
      · subst hk
        rw [Shared.record_lock_self]
        refine .take ?_ (.inr rfl) (Finset.mem_insert_self _ _)
        simpa [u7SpinlockTrylock, atomicFlagTestAndSet] using hres
      · exact .of_ne hk (by simp) (by simp) (by simp [hk])
  | trylockFail hres =>
      rename_i held k'
      by_cases hk : k = k'
      · subst hk
        have hset : (s.lock k).flag = true := by
          simpa [u7SpinlockTrylock, atomicFlagTestAndSet] using hres
        exact .of_flag_eq hset.symm (by simp) (by simp) Iff.rfl
      · exact .of_ne hk (by simp) (by simp) Iff.rfl
  | access hheld =>
      rename_i held k'
      by_cases hk : k = k'
      · subst hk
        exact .of_flag_eq rfl (by simp) (fun _ => hheld) Iff.rfl
      · exact .of_ne hk (by simp) (fun he => hk (Event.access.inj he).symm) Iff.rfl
  | unlock hheld =>
      rename_i held k'
      by_cases hk : k = k'
      · subst hk
        rw [Shared.record_lock_self]
        exact .give hheld (Finset.notMem_erase _ _)
      · exact .of_ne hk (fun he => hk (Event.unlock.inj he).symm) (by simp) (by simp [hk])

end Steps

/-! ### Every interleaving -/

section Threads

variable {o : SpinlockOrders} {c : Config ι (Shared ι κ) (Thread κ)} {k : κ}

/-- The invariant of a lock. It has at most one holder, and its flag is set while it has one.
The holder knows every access to the object so far; between two holders the flag publishes
them. -/
structure LockInv (o : SpinlockOrders) (c : Config ι (Shared ι κ) (Thread κ)) (k : κ) :
    Prop where
  flag : (c.shared.lock k).flag = true ↔ ∃ i, k ∈ (c.loc i).held
  unique : ∀ i j, k ∈ (c.loc i).held → k ∈ (c.loc j).held → i = j
  knows : ∀ i, k ∈ (c.loc i).held → ∀ a j, c.shared.log[a]? = some (j, .access k) →
    Knows (Event.atomic o) c.shared.log i a
  published : (c.shared.lock k).flag = false → ∀ a j,
    c.shared.log[a]? = some (j, .access k) → Published (Event.atomic o) c.shared.log k a

omit [DecidableEq κ] in
theorem lockInv_start (o : SpinlockOrders) (k : κ) :
    LockInv o (start : Config ι (Shared ι κ) (Thread κ)) k where
  flag := ⟨nofun, fun ⟨_, hi⟩ => absurd hi (Finset.notMem_empty k)⟩
  unique := fun _ _ hi => absurd hi (Finset.notMem_empty k)
  knows := fun _ hi => absurd hi (Finset.notMem_empty k)
  published := fun _ _ _ ha => by cases ha

omit [DecidableEq κ] in
/-- **An access** to an object comes after all accesses that its thread knows. -/
theorem RaceFree.concat {log : List (ι × Event κ)} {i : ι} {e : Event κ}
    (h : RaceFree o log)
    (hknows : ∀ k, e = .access k → ∀ a j, log[a]? = some (j, .access k) →
      Knows (Event.atomic o) log i a) : RaceFree o (log ++ [(i, e)]) := by
  intro k a b j j' hab ha hb
  rcases getElem?_concat_cases hb with hb | ⟨rfl, hlast⟩
  · have hlt := (List.getElem?_eq_some_iff.mp hb).1
    have ha := (getElem?_concat_cases ha).resolve_right fun h => by omega
    exact (h k a b j j' hab ha hb).append _
  · obtain ⟨rfl, rfl⟩ := Prod.mk.inj hlast
    have ha := (getElem?_concat_cases ha).resolve_right fun h => by omega
    exact (hknows k rfl a j ha).before_next _

variable [DecidableEq ι]

/-- The orders acquire where a lock is taken, and release where it is given up. -/
structure Ordered (o : SpinlockOrders) : Prop where
  lock : o.lock.Acquires
  trylock : o.trylock.Acquires
  unlock : o.unlock.Releases

/-- **The step lemma.** Every atomic step of every thread keeps the invariant of every
lock. -/
theorem LockInv.step (h : LockInv o c k) (ho : Ordered o) {i : ι} {e : Event κ}
    {s' : Shared ι κ} {l' : Thread κ} (hnext : Next i c.shared (c.loc i) e s' l') :
    LockInv o (c.move i s' l') k := by
  obtain ⟨hlog, heffect⟩ := hnext.effect
  replace heffect := heffect k
  generalize hflag' : (s'.lock k).flag = flag' at heffect
  -- an access in the longer log is an old one, or this step, of a thread that holds the lock
  have hold : ∀ {a j}, s'.log[a]? = some (j, .access k) →
      c.shared.log[a]? = some (j, .access k) ∨
        (a = c.shared.log.length ∧ e = .access k ∧ k ∈ (c.loc i).held) := by
    intro a j ha
    rw [hlog] at ha
    refine (getElem?_concat_cases ha).imp_right fun ⟨hlast, heq⟩ => ?_
    obtain ⟨rfl, rfl⟩ := Prod.mk.inj heq
    cases heffect with
    | quiet _ haccess _ => exact ⟨hlast, rfl, haccess rfl⟩
    | take _ he _ => simp at he
  -- who held the lock and holds it still knows what it knew and what it did itself
  have hkept : ∀ j, k ∈ (c.loc j).held → ∀ a j', s'.log[a]? = some (j', .access k) →
      Knows (Event.atomic o) s'.log j a := by
    intro j hj a j' ha
    rw [hlog]
    rcases hold ha with ha | ⟨rfl, -, hi⟩
    · exact (h.knows j hj a j' ha).append _
    · rw [h.unique j i hj hi]
      exact ⟨_, e, getElem?_length_concat _ _, .inl rfl⟩
  have hnew : ∀ j, j ≠ i → (k ∈ ((c.move i s' l').loc j).held ↔ k ∈ (c.loc j).held) :=
    fun j hj => by rw [c.move_loc_of_ne s' l' hj]
  have hself : k ∈ ((c.move i s' l').loc i).held ↔ k ∈ l'.held := by
    rw [Config.move_loc_self]
  cases heffect with
  | quiet hunlock haccess hheld =>
      have hsame : ∀ j, k ∈ ((c.move i s' l').loc j).held ↔ k ∈ (c.loc j).held := by
        intro j
        by_cases hj : j = i
        · rw [hj, hself, hheld]
        · exact hnew j hj
      refine ⟨?_, fun j j' => ?_, fun j hj => hkept j ((hsame j).mp hj), fun hk a j ha => ?_⟩
      · rw [Config.move_shared, hflag', h.flag]
        exact exists_congr fun j => (hsame j).symm
      · rw [hsame, hsame]
        exact h.unique j j'
      · rw [Config.move_shared] at hk ha ⊢
        rw [hflag'] at hk
        have ha := (hold ha).resolve_right fun hlast => by
          rw [h.flag.mpr ⟨i, hlast.2.2⟩] at hk
          cases hk
        rw [hlog]
        refine (h.published hk a j ha).concat fun access hatomic hstores => ?_
        cases e with
        | unlock k' =>
            obtain rfl := Option.some.inj hatomic
            exact hunlock (congrArg Event.unlock hstores)
        | call | access => cases hatomic
        | testAndSet | trylock =>
            obtain rfl := Option.some.inj hatomic
            exact hstores
  | take hfree he hheld =>
      have hnone : ∀ j, k ∉ (c.loc j).held := fun j hj => by
        rw [h.flag.mpr ⟨j, hj⟩] at hfree
        cases hfree
      have honly : ∀ j, k ∈ ((c.move i s' l').loc j).held → j = i := by
        intro j hj
        by_contra hne
        exact hnone j ((hnew j hne).mp hj)
      refine ⟨?_, fun j j' hj hj' => (honly j hj).trans (honly j' hj').symm,
        fun j hj a j' ha => ?_, fun hk => ?_⟩
      · rw [Config.move_shared, hflag']
        exact iff_of_true rfl ⟨i, hself.mpr hheld⟩
      · obtain rfl := honly j hj
        rw [Config.move_shared] at ha ⊢
        have ha := (hold ha).resolve_right fun hlast => hnone _ hlast.2.2
        rw [hlog]
        refine knows_of_before_next ?_
        have hpublished := h.published hfree a j' ha
        have hlock : (AtomicAccess.readModifyWrite k o.lock).AcquiresAt k := ⟨rfl, ho.lock⟩
        have htrylock : (AtomicAccess.readModifyWrite k o.trylock).AcquiresAt k :=
          ⟨rfl, ho.trylock⟩
        rcases he with rfl | rfl
        · exact hpublished.before_next rfl hlock j
        · exact hpublished.before_next rfl htrylock j
      · rw [Config.move_shared, hflag'] at hk
        cases hk
  | give hi hheld =>
      have hnone : ∀ j, k ∉ ((c.move i s' l').loc j).held := by
        intro j hj
        by_cases hne : j = i
        · rw [hne, hself] at hj
          exact hheld hj
        · exact hne (h.unique j i ((hnew j hne).mp hj) hi)
      refine ⟨?_, fun j _ hj => absurd hj (hnone j), fun j hj => absurd hj (hnone j),
        fun _ a j ha => ?_⟩
      · rw [Config.move_shared, hflag']
        exact iff_of_false Bool.false_ne_true fun ⟨j, hj⟩ => hnone j hj
      · rw [Config.move_shared] at ha ⊢
        have ha := (hold ha).resolve_right fun hlast => by cases hlast.2.1
        rw [hlog]
        exact (h.knows i hi a j ha).published rfl ⟨rfl, ho.unlock⟩

/-- The invariant of all locks and of the log. -/
structure Inv (o : SpinlockOrders) (c : Config ι (Shared ι κ) (Thread κ)) : Prop where
  lock : ∀ k, LockInv o c k
  raceFree : RaceFree o c.shared.log

theorem Inv.step (h : Inv o c) (ho : Ordered o) {i : ι} {e : Event κ} {s' : Shared ι κ}
    {l' : Thread κ} (hnext : Next i c.shared (c.loc i) e s' l') : Inv o (c.move i s' l') where
  lock := fun k => (h.lock k).step ho hnext
  raceFree := by
    obtain ⟨hlog, heffect⟩ := hnext.effect
    rw [Config.move_shared, hlog]
    refine h.raceFree.concat fun k he => (h.lock k).knows i ?_
    replace heffect := heffect k
    generalize (s'.lock k).flag = flag' at heffect
    subst he
    cases heffect with
    | quiet _ haccess _ => exact haccess rfl
    | take _ he _ => simp at he

theorem inv_of_reach (ho : Ordered o) (h : Reach Next start c) : Inv o c :=
  h.invariant ⟨lockInv_start o, fun _ _ _ _ _ _ ha => by cases ha⟩
    fun _ _ _ _ _ _ hinv hnext => hinv.step ho hnext

end Threads

/-! ### Weaker orders -/

section Weaker

variable {o : SpinlockOrders}

omit [DecidableEq κ] in
/-- In a log without synchronization the accesses of two threads race. -/
theorem not_raceFree {log : List (ι × Event κ)} {k : κ} {i j : ι} (hij : i ≠ j) {a b : ℕ}
    (hab : a < b) (ha : log[a]? = some (i, .access k)) (hb : log[b]? = some (j, .access k))
    (hnone : ∀ a b, ¬ Synchronizes (Event.atomic o) log a b) : ¬ RaceFree o log := by
  intro h
  obtain ⟨t, e, e', ha', hb'⟩ := (h k a b i j hab ha hb).same_thread hnone
  obtain ⟨rfl, -⟩ := Prod.mk.inj (Option.some.inj (ha.symm.trans ha'))
  obtain ⟨rfl, -⟩ := Prod.mk.inj (Option.some.inj (hb.symm.trans hb'))
  exact hij rfl

/-- The steps of a thread that takes a lock with `u7_spinlock_trylock`, accesses the object and
unlocks. -/
def oneThread (i : ι) (k : κ) : List (ι × Event κ) :=
  [(i, .trylock k true), (i, .access k), (i, .unlock k)]

/-- A release sequence that one of them heads and that still lasts behind them is that of the
unlock, which ends the one that the trylock may have headed. -/
theorem heads_oneThread {rest : List (Fin 2 × Event Unit)} {x : Unit} {a b : ℕ}
    (h : Heads (Event.atomic o) (oneThread 0 () ++ rest) x a b) (ha : a < 3) (hb : 3 ≤ b) :
    o.unlock.Releases := by
  obtain ⟨⟨i, e, access, hentry, hatomic, hreleases⟩, hstores⟩ := h
  interval_cases a
  · exact absurd rfl (hstores 2 (by omega) (by omega) 0 (.unlock ()) _ rfl rfl)
  · obtain ⟨-, rfl⟩ := Prod.mk.inj (Option.some.inj hentry)
    cases hatomic
  · obtain ⟨-, rfl⟩ := Prod.mk.inj (Option.some.inj hentry)
    obtain rfl := Option.some.inj hatomic
    exact hreleases.2

/-- Thread `1` takes the lock after them with `u7_spinlock_lock`. -/
theorem ordered_of_lock {log : List (Fin 2 × Event Unit)}
    (hlog : log = oneThread 0 () ++ [(1, .call ()), (1, .testAndSet ()), (1, .access ())])
    (h : RaceFree o log) : o.lock.Acquires ∧ o.unlock.Releases := by
  subst hlog
  by_contra hnot
  refine not_raceFree (i := 0) (j := 1) (a := 1) (b := 5) (k := ()) (by decide) (by decide) rfl
    rfl (fun a b hsync => hnot ?_) h
  obtain ⟨hab, x, hheads, j, e, access, hentry, hatomic, hacquires⟩ := hsync
  -- the step that takes the lock is the only one that acquires
  match b with
  | 0 => omega
  | 1 | 3 | 5 =>
      obtain ⟨-, rfl⟩ := Prod.mk.inj (Option.some.inj hentry)
      cases hatomic
  | 2 =>
      obtain ⟨-, rfl⟩ := Prod.mk.inj (Option.some.inj hentry)
      obtain rfl := Option.some.inj hatomic
      exact hacquires.elim
  | 4 =>
      obtain ⟨-, rfl⟩ := Prod.mk.inj (Option.some.inj hentry)
      obtain rfl := Option.some.inj hatomic
      refine ⟨hacquires.2, ?_⟩
      by_cases ha : a < 3
      · exact heads_oneThread hheads ha (by omega)
      · obtain rfl : a = 3 := by omega
        obtain ⟨⟨_, _, _, hcall, hnone, -⟩, -⟩ := hheads
        obtain ⟨-, rfl⟩ := Prod.mk.inj (Option.some.inj hcall)
        cases hnone
  | n + 6 => cases hentry

/-- Thread `1` takes the lock after them with `u7_spinlock_trylock`. -/
theorem ordered_of_trylock {log : List (Fin 2 × Event Unit)}
    (hlog : log = oneThread 0 () ++ [(1, .trylock () true), (1, .access ())])
    (h : RaceFree o log) : o.trylock.Acquires ∧ o.unlock.Releases := by
  subst hlog
  by_contra hnot
  refine not_raceFree (i := 0) (j := 1) (a := 1) (b := 4) (k := ()) (by decide) (by decide) rfl
    rfl (fun a b hsync => hnot ?_) h
  obtain ⟨hab, x, hheads, j, e, access, hentry, hatomic, hacquires⟩ := hsync
  match b with
  | 0 => omega
  | 1 | 4 =>
      obtain ⟨-, rfl⟩ := Prod.mk.inj (Option.some.inj hentry)
      cases hatomic
  | 2 =>
      obtain ⟨-, rfl⟩ := Prod.mk.inj (Option.some.inj hentry)
      obtain rfl := Option.some.inj hatomic
      exact hacquires.elim
  | 3 =>
      obtain ⟨-, rfl⟩ := Prod.mk.inj (Option.some.inj hentry)
      obtain rfl := Option.some.inj hatomic
      exact ⟨hacquires.2, heads_oneThread hheads hab le_rfl⟩
  | n + 5 => cases hentry

end Weaker

end Locks

open Locks in
/-- **Accesses to an object that a spinlock protects never race.** For any number of threads
and of locks and every interleaving of calls, each lock has at most one holder, its flag is set
exactly while it has one, a trylock succeeds exactly when it has none, and of two accesses to
an object the earlier one happens before the later one: by the memory orders of
`public/spinlock.h`, not by the order in which the steps were taken. -/
theorem spinlock_race_free {ι κ : Type*} [DecidableEq ι] [DecidableEq κ]
    (c : Config ι (Shared ι κ) (Thread κ)) (h : Reach Next start c) :
    (∀ k i j, k ∈ (c.loc i).held → k ∈ (c.loc j).held → i = j) ∧
      (∀ k, (c.shared.lock k).flag = true ↔ ∃ i, k ∈ (c.loc i).held) ∧
      (∀ i k result c', Step Next c i (.trylock k result) c' →
        (result = true ↔ ∀ j, k ∉ (c.loc j).held)) ∧
      RaceFree u7SpinlockOrders c.shared.log := by
  have hinv : Inv u7SpinlockOrders c := inv_of_reach ⟨trivial, trivial, trivial⟩ h
  refine ⟨fun k => (hinv.lock k).unique, fun k => (hinv.lock k).flag, ?_, hinv.raceFree⟩
  intro i k result c' hstep
  have hfree : (∀ j, k ∉ (c.loc j).held) ↔ (c.shared.lock k).flag = false := by
    rw [← Bool.not_eq_true, (hinv.lock k).flag, not_exists]
  have hresult : result = (u7SpinlockTrylock (c.shared.lock k)).2 := by
    obtain ⟨hnext⟩ := hstep
    generalize c.loc i = l at hnext
    cases hnext with
    | trylock hres => exact hres.symm
    | trylockFail hres => exact hres.symm
  rw [hfree, hresult]
  simp [u7SpinlockTrylock, atomicFlagTestAndSet]

open Locks in
/-- Thread `0` accesses the object and unlocks, then thread `1` takes the lock. -/
theorem spinlock_race_free_hand_off :
    ∃ c : Config (Fin 2) (Shared (Fin 2) Unit) (Thread Unit), Reach Next start c ∧
      c.shared.log = oneThread 0 () ++ [(1, .trylock () true), (1, .access ())] ∧
      RaceFree u7SpinlockOrders c.shared.log := by
  have hfirst := (ReachWithin.refl : Reach Next (start : Config (Fin 2) _ (Thread Unit)) _)
    |>.move 0 (.trylock (k := ()) rfl) |>.move 0 (.access (k := ()) (by decide))
    |>.move 0 (.unlock (k := ()) (by decide))
  have hlast := hfirst.move 1 (.trylock (k := ()) rfl) |>.move 1 (.access (k := ()) (by decide))
  exact ⟨_, hlast, rfl, (spinlock_race_free _ hlast).2.2.2⟩

open Locks in
/-- **The memory orders of the source are the weakest.** No interleaving has a race exactly if
both ways of taking a lock acquire and the unlock releases. -/
theorem race_free_iff_ordered (o : SpinlockOrders) :
    (∀ (ι κ : Type) [DecidableEq ι] [DecidableEq κ] (c : Config ι (Shared ι κ) (Thread κ)),
      Reach Next start c → RaceFree o c.shared.log) ↔
    o.lock.Acquires ∧ o.trylock.Acquires ∧ o.unlock.Releases := by
  constructor
  · intro h
    have hfirst := (ReachWithin.refl : Reach Next (start : Config (Fin 2) _ (Thread Unit)) _)
      |>.move 0 (.trylock (k := ()) rfl) |>.move 0 (.access (k := ()) (by decide))
      |>.move 0 (.unlock (k := ()) (by decide))
    have hlock := hfirst.move 1 (.call (k := ())) |>.move 1 (.lock rfl)
      |>.move 1 (.access (k := ()) (by decide))
    have htrylock := hfirst.move 1 (.trylock (k := ()) rfl)
      |>.move 1 (.access (k := ()) (by decide))
    obtain ⟨hacquires, hreleases⟩ := ordered_of_lock rfl (h _ _ _ hlock)
    exact ⟨hacquires, (ordered_of_trylock rfl (h _ _ _ htrylock)).1, hreleases⟩
  · rintro ⟨hlock, htrylock, hunlock⟩ ι κ _ _ c h
    exact (inv_of_reach ⟨hlock, htrylock, hunlock⟩ h).raceFree

end U7Init
