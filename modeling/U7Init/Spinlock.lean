import U7Init.Lib.Interleaving

/-!
# The Spinlock

This module models the non-Apple implementation of `public/spinlock.h` together with the
back-off counter of `spinlock.c`, and the threads of the repository's own use of it:
each thread repeats *acquire, read a shared counter, write back the value read plus one,
unlock*, where the acquisition is `u7_spinlock_lock` or a successful
`u7_spinlock_trylock`. The read and the write are separate steps, and so is every
`atomic_flag_test_and_set` of the loop in `u7_spinlock_lock`; atomics are sequentially
consistent.

## Main results

* `u7SpinlockInternalYieldK_mem`: the back-off counter stays in `[0, 32]`, so its
  increment never overflows.
* `Spin.Inv.step`: the invariant of one step, with one case for each atomic step.
* `spinlock_no_lost_update`: in every reachable configuration at most one thread is
  between its acquisition and its unlock, the flag is set exactly when one is, and the
  counter is the number of completed writes; at the end it is the number of acquisitions.
-/

open Interleaving

namespace U7Init

/-- `u7_spinlock`: the `atomic_flag`. -/
structure U7Spinlock where
  flag : Bool
  deriving DecidableEq, Repr

/-- `u7_spinlock_init`. -/
def u7SpinlockInit : U7Spinlock :=
  ⟨false⟩

/-- `atomic_flag_test_and_set_explicit`: sets the flag and returns what it was. -/
def atomicFlagTestAndSet (lock : U7Spinlock) : U7Spinlock × Bool :=
  (⟨true⟩, lock.flag)

/-- `u7_spinlock_internal_yield_k`: the next back-off counter. The pause, the yield and
the sleeps do not change it. -/
def u7SpinlockInternalYieldK (k : ℤ) : ℤ :=
  if k < 4 then k + 1
  else if k < 16 then k + 1
  else if k < 32 then k + 1
  else k

/-- One evaluation of the loop condition of `u7_spinlock_lock`, and its body if the flag
was set: `some k'` when the thread goes on spinning, `none` when it has the lock. -/
def u7SpinlockLockIter (lock : U7Spinlock) (k : ℤ) : U7Spinlock × Option ℤ :=
  let (lock, old) := atomicFlagTestAndSet lock
  (lock, if old then some (u7SpinlockInternalYieldK k) else none)

/-- `u7_spinlock_trylock`. -/
def u7SpinlockTrylock (lock : U7Spinlock) : U7Spinlock × Bool :=
  let (lock, old) := atomicFlagTestAndSet lock
  (lock, !old)

/-- `u7_spinlock_unlock`. -/
def u7SpinlockUnlock (_lock : U7Spinlock) : U7Spinlock :=
  ⟨false⟩

/-- The loop of `u7_spinlock_lock` ends exactly when it finds the flag clear. -/
theorem u7SpinlockLockIter_eq_none {lock : U7Spinlock} {k : ℤ} :
    (u7SpinlockLockIter lock k).2 = none ↔ lock.flag = false := by
  cases hflag : lock.flag <;> simp [u7SpinlockLockIter, atomicFlagTestAndSet, hflag]

/-- A thread that goes on spinning has backed off once more. -/
theorem u7SpinlockLockIter_eq_some {lock : U7Spinlock} {k k' : ℤ}
    (h : (u7SpinlockLockIter lock k).2 = some k') : k' = u7SpinlockInternalYieldK k := by
  cases hflag : lock.flag <;>
    simp [u7SpinlockLockIter, atomicFlagTestAndSet, hflag] at h
  exact h.symm

/-- The back-off counter starts at `0` and stays in `[0, 32]`. -/
theorem u7SpinlockInternalYieldK_mem {k : ℤ} (h : 0 ≤ k ∧ k ≤ 32) :
    0 ≤ u7SpinlockInternalYieldK k ∧ u7SpinlockInternalYieldK k ≤ 32 := by
  unfold u7SpinlockInternalYieldK
  split_ifs <;> omega

namespace Spin

/-- The shared memory of the threads: the lock and the counter it protects. -/
structure Shared where
  lock : U7Spinlock
  value : ℕ

/-- Where a thread is in its iteration. -/
inductive Place
  /-- Between two iterations. -/
  | idle
  /-- In the loop of `u7_spinlock_lock`, with back-off counter `k`. -/
  | spinning (k : ℤ)
  /-- It holds the lock and has not read the counter. -/
  | acquired
  /-- It has read `v` from the counter. -/
  | loaded (v : ℕ)
  /-- It has written the counter and has not unlocked. -/
  | stored
  deriving DecidableEq

/-- A thread: where it is, the iterations it still has to complete, and how many
acquisitions and writes it has made. -/
structure Thread where
  place : Place
  remaining : ℕ
  acquisitions : ℕ
  writes : ℕ

/-- What a step does, and for a trylock what it returns. -/
inductive Event
  | call
  | testAndSet
  | trylock (result : Bool)
  | read
  | write
  | unlock

/-- The atomic steps of a thread. An iteration may acquire with `u7_spinlock_lock` or
with `u7_spinlock_trylock`; after a failed trylock it starts over. -/
inductive Next {ι : Type*} : Program ι Shared Thread Event
  | call {i : ι} {s : Shared} {n a w : ℕ} :
      Next i s ⟨.idle, n + 1, a, w⟩ .call s ⟨.spinning 0, n + 1, a, w⟩
  | spin {i : ι} {s : Shared} {k k' : ℤ} {n a w : ℕ} :
      (u7SpinlockLockIter s.lock k).2 = some k' →
      Next i s ⟨.spinning k, n, a, w⟩ .testAndSet
        { s with lock := (u7SpinlockLockIter s.lock k).1 } ⟨.spinning k', n, a, w⟩
  | lock {i : ι} {s : Shared} {k : ℤ} {n a w : ℕ} :
      (u7SpinlockLockIter s.lock k).2 = none →
      Next i s ⟨.spinning k, n, a, w⟩ .testAndSet
        { s with lock := (u7SpinlockLockIter s.lock k).1 } ⟨.acquired, n, a + 1, w⟩
  | trylock {i : ι} {s : Shared} {n a w : ℕ} :
      (u7SpinlockTrylock s.lock).2 = true →
      Next i s ⟨.idle, n + 1, a, w⟩ (.trylock true)
        { s with lock := (u7SpinlockTrylock s.lock).1 } ⟨.acquired, n + 1, a + 1, w⟩
  | trylockFail {i : ι} {s : Shared} {n a w : ℕ} :
      (u7SpinlockTrylock s.lock).2 = false →
      Next i s ⟨.idle, n + 1, a, w⟩ (.trylock false)
        { s with lock := (u7SpinlockTrylock s.lock).1 } ⟨.idle, n + 1, a, w⟩
  | read {i : ι} {s : Shared} {n a w : ℕ} :
      Next i s ⟨.acquired, n, a, w⟩ .read s ⟨.loaded s.value, n, a, w⟩
  | write {i : ι} {s : Shared} {v n a w : ℕ} :
      Next i s ⟨.loaded v, n, a, w⟩ .write { s with value := v + 1 }
        ⟨.stored, n, a, w + 1⟩
  | unlock {i : ι} {s : Shared} {n a w : ℕ} :
      Next i s ⟨.stored, n + 1, a, w⟩ .unlock
        { s with lock := u7SpinlockUnlock s.lock } ⟨.idle, n, a, w⟩

/-- Every thread is about to start, with its own number of iterations. -/
def start {ι : Type*} (iterations : ι → ℕ) : Config ι Shared Thread :=
  ⟨⟨u7SpinlockInit, 0⟩, fun i => ⟨.idle, iterations i, 0, 0⟩⟩

/-- The thread is between its acquisition and its unlock. -/
def Thread.Holds (t : Thread) : Prop :=
  match t.place with
  | .idle | .spinning _ => False
  | .acquired | .loaded _ | .stored => True

instance (t : Thread) : Decidable t.Holds := by
  unfold Thread.Holds
  cases t.place <;> infer_instance

/-- `1` while the thread is between its acquisition and its unlock. -/
def Thread.held (t : Thread) : ℕ :=
  if t.Holds then 1 else 0

/-- `1` while the thread has acquired the lock and not yet written. -/
def Thread.owed (t : Thread) : ℕ :=
  match t.place with
  | .acquired | .loaded _ => 1
  | _ => 0

theorem Thread.held_pos_iff {t : Thread} : 0 < t.held ↔ t.Holds := by
  unfold held
  split_ifs with h <;> simp [h]

/-- A thread that started with `n` iterations has its books in order: every acquisition
has been written or is about to be, and acquisitions and remaining iterations add up,
the current iteration being counted in both while the thread holds the lock. The back-off
counter of a spinning thread stays in its range. -/
structure Thread.Balanced (n : ℕ) (t : Thread) : Prop where
  backoff : ∀ k, t.place = .spinning k → 0 ≤ k ∧ k ≤ 32
  owed : t.acquisitions = t.writes + t.owed
  count : t.acquisitions + t.remaining = n + t.held
  busy : t.place ≠ .idle → 0 < t.remaining

/-- Every step keeps the books of the thread that takes it in order. -/
theorem Next.balanced {ι : Type*} {i : ι} {s s' : Shared} {l l' : Thread} {e : Event}
    {n : ℕ} (hnext : Next i s l e s' l') (h : l.Balanced n) : l'.Balanced n := by
  obtain ⟨hbackoff, howed, hcount, hbusy⟩ := h
  refine ⟨?_, ?_, ?_, ?_⟩
  · intro k' hk
    cases hnext with
    | call =>
        cases hk
        decide
    | spin hold =>
        cases hk
        rw [u7SpinlockLockIter_eq_some hold]
        exact u7SpinlockInternalYieldK_mem (hbackoff _ rfl)
    | _ => cases hk
  all_goals
    cases hnext <;>
      simp [Thread.owed, Thread.held, Thread.Holds] at howed hcount hbusy ⊢ <;> omega

/-- What a step does to the shared memory, provided that a holder finds the flag set and
that a value read is still current: the flag follows the thread's holding, the counter
follows its writes, a value it has just read is current, and only a holder changes the
counter. -/
theorem Next.shared {ι : Type*} {i : ι} {s s' : Shared} {l l' : Thread} {e : Event}
    (hnext : Next i s l e s' l') (hflag : l.Holds → s.lock.flag = true)
    (hcur : ∀ v, l.place = .loaded v → v = s.value) :
    s'.lock.flag.toNat + l.held = s.lock.flag.toNat + l'.held ∧
      s'.value + l.writes = s.value + l'.writes ∧
      (∀ v, l'.place = .loaded v → v = s'.value) ∧ (s'.value = s.value ∨ l.Holds) := by
  cases hnext with
  | call => exact ⟨rfl, rfl, nofun, .inl rfl⟩
  | spin hold =>
      have hset : s.lock.flag = true := by
        rw [← Bool.not_eq_false, ← u7SpinlockLockIter_eq_none, hold]
        exact Option.some_ne_none _
      refine ⟨?_, rfl, nofun, .inl rfl⟩
      rw [hset]
      rfl
  | lock hold =>
      have hclear := u7SpinlockLockIter_eq_none.mp hold
      refine ⟨?_, rfl, nofun, .inl rfl⟩
      rw [hclear]
      rfl
  | trylock hres =>
      have hclear : s.lock.flag = false := by
        simpa [u7SpinlockTrylock, atomicFlagTestAndSet] using hres
      refine ⟨?_, rfl, nofun, .inl rfl⟩
      rw [hclear]
      rfl
  | trylockFail hres =>
      have hset : s.lock.flag = true := by
        simpa [u7SpinlockTrylock, atomicFlagTestAndSet] using hres
      refine ⟨?_, rfl, nofun, .inl rfl⟩
      rw [hset]
      rfl
  | read =>
      refine ⟨rfl, rfl, ?_, .inl rfl⟩
      intro v hv
      cases hv
      rfl
  | write =>
      have hv := hcur _ rfl
      refine ⟨rfl, ?_, nofun, .inr trivial⟩
      dsimp only
      omega
  | unlock =>
      refine ⟨?_, rfl, nofun, .inl rfl⟩
      rw [hflag trivial]
      rfl

section Threads

variable {ι : Type*} [DecidableEq ι] [Fintype ι]

/-- The invariant: the flag counts the holders, a value read is still current, the
counter counts the writes, and every thread's books are in order. -/
structure Inv (iterations : ι → ℕ) (c : Config ι Shared Thread) : Prop where
  flag : c.total Thread.held = c.shared.lock.flag.toNat
  current : ∀ i v, (c.loc i).place = .loaded v → v = c.shared.value
  value : c.total Thread.writes = c.shared.value
  balanced : ∀ i, (c.loc i).Balanced (iterations i)

variable {iterations : ι → ℕ} {c : Config ι Shared Thread}

omit [DecidableEq ι] in
theorem inv_start (iterations : ι → ℕ) : Inv iterations (start iterations) where
  flag := Config.total_eq_zero fun _ => rfl
  current := nofun
  value := Config.total_eq_zero fun _ => rfl
  balanced := fun _ => ⟨nofun, rfl, Nat.zero_add _, fun h => absurd rfl h⟩

/-- At most one thread is between its acquisition and its unlock. -/
theorem Inv.eq_of_holds (h : Inv iterations c) {i j : ι} (hi : (c.loc i).Holds)
    (hj : (c.loc j).Holds) : i = j := by
  have hone : c.total Thread.held ≤ 1 := h.flag ▸ Bool.toNat_le _
  exact Config.eq_of_total_le_one hone (Thread.held_pos_iff.mpr hi)
    (Thread.held_pos_iff.mpr hj)

omit [DecidableEq ι] in
/-- The flag is set exactly when some thread is between its acquisition and its
unlock. -/
theorem Inv.flag_iff (h : Inv iterations c) :
    c.shared.lock.flag = true ↔ ∃ i, (c.loc i).Holds := by
  constructor
  · intro hflag
    have hpos : 0 < c.total Thread.held := by rw [h.flag, hflag]; decide
    obtain ⟨i, hi⟩ := Config.exists_of_total_pos hpos
    exact ⟨i, Thread.held_pos_iff.mp hi⟩
  · rintro ⟨i, hi⟩
    have hpos := Thread.held_pos_iff.mpr hi
    have hle := c.le_total Thread.held i
    rw [h.flag] at hle
    exact Bool.toNat_eq_one.mp (le_antisymm (Bool.toNat_le _) (by omega))

/-- **The step lemma.** Every atomic step of every thread keeps the invariant. -/
theorem Inv.step (h : Inv iterations c) {i : ι} {e : Event} {s' : Shared} {l' : Thread}
    (hnext : Next i c.shared (c.loc i) e s' l') : Inv iterations (c.move i s' l') := by
  obtain ⟨hflag, hvalue, hcur, hchange⟩ :=
    hnext.shared (fun hi => h.flag_iff.mpr ⟨i, hi⟩) (h.current i)
  constructor
  · have hmove := c.total_move Thread.held i s' l'
    have := h.flag
    rw [Config.move_shared]
    omega
  · intro j v hv
    by_cases hj : j = i
    · subst hj
      rw [Config.move_loc_self] at hv
      exact hcur v hv
    · -- a second holder excludes that `i` has just written
      rw [c.move_loc_of_ne s' l' hj] at hv
      have hjholds : (c.loc j).Holds := by
        rw [Thread.Holds, hv]
        trivial
      rw [Config.move_shared, hchange.resolve_right fun hi => hj (h.eq_of_holds hjholds hi)]
      exact h.current j v hv
  · have hmove := c.total_move Thread.writes i s' l'
    have := h.value
    rw [Config.move_shared]
    omega
  · exact Config.forall_move h.balanced (hnext.balanced (h.balanced i))

/-- The invariant holds in every reachable configuration. -/
theorem inv_of_reach (h : Reach Next (start iterations) c) : Inv iterations c :=
  h.invariant (inv_start iterations) fun _ _ _ _ _ _ hinv hnext => hinv.step hnext

/-- A thread has finished: no iteration is left and none is under way. -/
def Thread.Finished (t : Thread) : Prop :=
  t.place = .idle ∧ t.remaining = 0

instance (t : Thread) : Decidable t.Finished :=
  inferInstanceAs (Decidable (_ ∧ _))

/-- No thread is ever stuck: one that has not finished can take a step. -/
theorem exists_next_of_not_finished (h : Reach Next (start iterations) c) {i : ι}
    (hi : ¬ (c.loc i).Finished) :
    ∃ e s' l', Next i c.shared (c.loc i) e s' l' := by
  have hbusy := ((inv_of_reach h).balanced i).busy
  generalize c.loc i = l at hi hbusy
  obtain ⟨place, n, a, w⟩ := l
  cases place with
  | idle =>
      obtain ⟨m, rfl⟩ : ∃ m, n = m + 1 :=
        Nat.exists_eq_succ_of_ne_zero fun hn => hi ⟨rfl, hn⟩
      exact ⟨_, _, _, .call⟩
  | spinning k =>
      cases hold : (u7SpinlockLockIter c.shared.lock k).2 with
      | none => exact ⟨_, _, _, .lock hold⟩
      | some k' => exact ⟨_, _, _, .spin hold⟩
  | acquired => exact ⟨_, _, _, .read⟩
  | loaded v => exact ⟨_, _, _, .write⟩
  | stored =>
      obtain ⟨m, rfl⟩ : ∃ m, n = m + 1 :=
        Nat.exists_eq_succ_of_ne_zero (hbusy nofun).ne'
      exact ⟨_, _, _, .unlock⟩

omit [DecidableEq ι] in
/-- When every thread has finished, the counter is the number of acquisitions, which is
the number of iterations. -/
theorem Inv.value_of_finished (h : Inv iterations c) (hdone : ∀ i, (c.loc i).Finished) :
    c.shared.value = c.total Thread.acquisitions ∧
      c.total Thread.acquisitions = ∑ i, iterations i := by
  have hbooks : ∀ i, (c.loc i).writes = (c.loc i).acquisitions ∧
      (c.loc i).acquisitions = iterations i := by
    intro i
    obtain ⟨hplace, hrem⟩ := hdone i
    have howed := (h.balanced i).owed
    have hcount := (h.balanced i).count
    simp only [Thread.owed, Thread.held, Thread.Holds, hplace, hrem] at howed hcount
    simp at howed hcount
    omega
  constructor
  · rw [← h.value]
    exact Finset.sum_congr rfl fun i _ => (hbooks i).1
  · exact Finset.sum_congr rfl fun i _ => (hbooks i).2

end Threads

end Spin

open Spin in
/-- **The spinlock loses no update.** For any number of threads, any number of iterations
of each, and every interleaving: at most one thread is between its acquisition and its
unlock; the flag is set exactly when one is; a trylock returns true exactly when nobody
holds the lock at that step; the counter is the number of completed writes; and once
every thread has finished it is the total number of acquisitions. -/
theorem spinlock_no_lost_update {ι : Type*} [DecidableEq ι] [Fintype ι]
    (iterations : ι → ℕ) {c : Config ι Shared Thread}
    (h : Reach Next (start iterations) c) :
    (∀ i j, (c.loc i).Holds → (c.loc j).Holds → i = j) ∧
      (c.shared.lock.flag = true ↔ ∃ i, (c.loc i).Holds) ∧
      (∀ i result c', Step Next c i (.trylock result) c' →
        (result = true ↔ ∀ j, ¬ (c.loc j).Holds)) ∧
      c.shared.value = c.total Thread.writes ∧
      ((∀ i, (c.loc i).Finished) →
        c.shared.value = c.total Thread.acquisitions ∧
          c.total Thread.acquisitions = ∑ i, iterations i) := by
  have hinv := inv_of_reach h
  refine ⟨fun i j => hinv.eq_of_holds, hinv.flag_iff, ?_, hinv.value.symm,
    hinv.value_of_finished⟩
  intro i result c' hstep
  have hfree : (∀ j, ¬ (c.loc j).Holds) ↔ c.shared.lock.flag = false := by
    rw [← Bool.not_eq_true, hinv.flag_iff, not_exists]
  have hresult : result = (u7SpinlockTrylock c.shared.lock).2 := by
    obtain ⟨hnext⟩ := hstep
    generalize c.loc i = l at hnext
    cases hnext with
    | trylock hres => exact hres.symm
    | trylockFail hres => exact hres.symm
  rw [hfree, hresult]
  simp [u7SpinlockTrylock, atomicFlagTestAndSet]

open Spin in
/-- Two threads, one iteration each: thread `0` acquires by trylock, a trylock of thread
`1` fails meanwhile, and thread `1` then goes through `u7_spinlock_lock`. -/
theorem spinlock_no_lost_update_two_threads :
    ∃ c, Reach Next (start fun _ : Fin 2 => 1) c ∧ c.shared.value = 2 ∧
      c.total Thread.acquisitions = 2 := by
  have h := (ReachWithin.refl : Reach Next (start fun _ : Fin 2 => 1) _)
    |>.move 0 (.trylock rfl) |>.move 1 (.trylockFail rfl) |>.move 0 .read
    |>.move 0 .write |>.move 0 .unlock |>.move 1 .call |>.move 1 (.lock rfl)
    |>.move 1 .read |>.move 1 .write |>.move 1 .unlock
  obtain ⟨-, -, -, -, hdone⟩ := spinlock_no_lost_update _ h
  obtain ⟨hvalue, hacq⟩ := hdone (by decide)
  exact ⟨_, h, hvalue.trans hacq, hacq⟩

end U7Init
