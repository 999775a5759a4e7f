import U7Init.Lib.Simulation
import U7Init.Error.Calls

/-!
# The Safety of Concurrent Calls

This module proves what `U7Init.Error.Calls` is safe for: any number of threads that create,
share, read and release errors, whatever calls of the C library fail.

The invariant (`Calls.Sound`) has two ledgers. In the first one every payload is in one of the
phases that `Calls.Phase` lists: not created, counted by its counter, claimed by the one thread
that has seen the last reference go, or freed. The second one counts for every message buffer
the owners it has and how often it was freed, which is one in sum from its allocation on. Both
are kept because a step changes the references, claims and buffers of its own thread only
(`Calls.Next.effect`), so that of the other threads no more than their sums matters. What a
thread remembers between two steps (the cause it has read, the payload it is at) has to stay
true while others run; `Thread.Coherent` says so, and it does because payloads do not change
after their creation and cannot be freed while somebody refers to them.

## Main results

* `Calls.Sound.phase_step`, `Calls.Sound.buffers_step`: the life of a payload and that of a
  message buffer, step by step.
* `concurrent_calls`: what this says about every interleaving.
-/

open Interleaving

namespace U7Init

namespace Calls

open Walk (points points_none points_self points_of_ne points_pos_iff)

section Steps

variable {ι : Type*} [Fintype ι] {c : Config ι Shared Thread} {i : ι} {p q b : ℕ}

/-- The part of the heap that never changes: the fallback payload is the only one without a
`dispose_fn`, and causes are older than what they cause. -/
structure Shared.WellFormed (s : Shared) : Prop where
  next_pos : 0 < s.next
  fallback : s.payload 0 = fallbackPayload
  unborn : ∀ p, s.next ≤ p → s.payload p = fallbackPayload
  disposes : ∀ p, 0 < p → p < s.next → (s.payload p).disposes = true
  cause_lt : ∀ p q, IsCause s p q → q < p

/-- The invariant of a run. -/
structure Sound (c : Config ι Shared Thread) : Prop where
  wellFormed : c.shared.WellFormed
  phase : ∀ p,
    Phase c.shared.next p (c.shared.freed p) (claimants c p) (refs c p) (c.shared.count p)
  disposed : ∀ p,
    c.shared.disposed p = c.shared.freed p + c.total fun t => points t.place.frees p
  buffers : ∀ b,
    c.shared.freedBuffer b + owners c b = if b < c.shared.nextBuffer then 1 else 0
  coherent : ∀ i, (c.loc i).Coherent c.shared

theorem claimants_pos (h : (c.loc i).place.claims = some p) : 0 < claimants c p := by
  have := c.le_total (fun t => points t.place.claims p) i
  rw [h, points_self] at this
  exact this

/-- A payload that nobody is about to free and that was not freed was not disposed of. -/
theorem Sound.disposed_eq_zero (h : Sound c) (hfreed : c.shared.freed p = 0)
    (hclaims : claimants c p = 0) : c.shared.disposed p = 0 := by
  have hle : c.total (fun t => points t.place.frees p) ≤ claimants c p :=
    Finset.sum_le_sum fun j _ => (c.loc j).place.points_frees_le p
  have := h.disposed p
  omega

/-- The next payload was not disposed of. -/
theorem Sound.disposed_next (h : Sound c) : c.shared.disposed c.shared.next = 0 := by
  obtain ⟨hfreed, hclaims, -⟩ := (h.phase c.shared.next).create
  exact h.disposed_eq_zero hfreed hclaims

/-- Nor was one disposed of whose walk is about to. -/
theorem Sound.disposed_of_claims (h : Sound c) (hclaims : (c.loc i).place.claims = some p)
    (hfrees : (c.loc i).place.frees = none) : c.shared.disposed p = 0 := by
  obtain ⟨-, hfreed, hone, -⟩ := (h.phase p).of_claimants_pos (claimants_pos hclaims)
  have hlt : c.total (fun t => points t.place.frees p) < claimants c p := by
    refine Finset.sum_lt_sum (fun j _ => (c.loc j).place.points_frees_le p)
      ⟨i, Finset.mem_univ i, ?_⟩
    dsimp only
    rw [hclaims, hfrees, points_none, points_self]
    exact Nat.one_pos
  have := h.disposed p
  omega

theorem le_refs (c : Config ι Shared Thread) (i : ι) (p : ℕ) :
    (c.loc i).refs p ≤ refs c p := by
  have := c.le_total (fun t => t.refs p) i
  rw [refs]
  omega

/-- The program itself refers to the fallback payload. -/
theorem refs_zero_pos (c : Config ι Shared Thread) : 0 < refs c 0 := by
  rw [refs, points_self]
  omega

/-- Only the fallback payload has no `dispose_fn`, and the program's own reference keeps it from
being claimed. -/
theorem Sound.disposes_of_claims (h : Sound c) (hclaims : (c.loc i).place.claims = some p) :
    (c.shared.payload p).disposes ≠ false := by
  obtain ⟨hborn, -, -, hzero⟩ := (h.phase p).of_claimants_pos (claimants_pos hclaims)
  have hp : p ≠ 0 := by
    rintro rfl
    exact absurd hzero (refs_zero_pos c).ne'
  rw [h.wellFormed.disposes p (Nat.pos_of_ne_zero hp) hborn]
  exact Bool.true_eq_false_eq_False

variable [DecidableEq ι] {s' : Shared} {l' : Thread}

theorem refs_move (c : Config ι Shared Thread) (i : ι) (s' : Shared) (l' : Thread) (q : ℕ) :
    refs (c.move i s' l') q + (c.loc i).refs q + c.shared.mailbox.count (some q) +
        c.shared.pointers Payload.cause q =
      refs c q + l'.refs q + s'.mailbox.count (some q) + s'.pointers Payload.cause q := by
  have := c.total_move (fun t => t.refs q) i s' l'
  simp only [refs, Config.move_shared]
  omega

theorem claimants_move (c : Config ι Shared Thread) (i : ι) (s' : Shared) (l' : Thread)
    (q : ℕ) : claimants (c.move i s' l') q + points (c.loc i).place.claims q =
      claimants c q + points l'.place.claims q :=
  c.total_move (fun t : Thread => points t.place.claims q) i s' l'

theorem owners_move (c : Config ι Shared Thread) (i : ι) (s' : Shared) (l' : Thread) (b : ℕ) :
    owners (c.move i s' l') b + points (c.loc i).place.message b +
        c.shared.pointers Payload.message b =
      owners c b + points l'.place.message b + s'.pointers Payload.message b := by
  have := c.total_move (fun t => points t.place.message b) i s' l'
  simp only [owners, Config.move_shared]
  omega

/-- **The life of a payload.** Every step takes every payload to the same or to the next phase
of its life. -/
theorem Sound.phase_step (h : Sound c) (hbound : Bounded c)
    (heffect : Effect c.shared (c.loc i) s' l') (q : ℕ) :
    Phase s'.next q (s'.freed q) (claimants (c.move i s' l') q) (refs (c.move i s' l') q)
      (s'.count q) := by
  have hrefs := refs_move c i s' l' q
  have hclaims := claimants_move c i s' l' q
  have hphase := h.phase q
  have hq2 := hbound q
  generalize refs (c.move i s' l') q = r' at *
  generalize claimants (c.move i s' l') q = k' at *
  cases heffect with
  | quiet mailbox hr hk _ _ =>
      have hr := hr q
      rw [hk] at hclaims
      rw [pointers_setMailbox, setMailbox_mailbox] at hrefs
      obtain rfl : r' = refs c q := by omega
      obtain rfl : k' = claimants c q := by omega
      exact hphase
  | increment p hpos hr hk _ _ =>
      have hr := hr q
      rw [hk] at hclaims
      rw [pointers_setCount, setCount_mailbox] at hrefs
      obtain rfl : k' = claimants c q := by omega
      by_cases hq : p = q
      · subst hq
        rw [points_self] at hr
        obtain rfl : r' = refs c p + 1 := by omega
        have hpos : 0 < refs c p := by
          rcases hpos with hpos | rfl
          · exact hpos.trans_le (le_refs c i p)
          · exact refs_zero_pos c
        simp only [Shared.setCount, Function.update_self]
        exact hphase.increment hpos
      · rw [points_of_ne hq] at hr
        obtain rfl : r' = refs c q := by omega
        simpa [Shared.setCount, Function.update_of_ne (Ne.symm hq)] using hphase
  | decrement p hmany hr hk _ _ =>
      have hr := hr q
      rw [hk] at hclaims
      rw [pointers_setCount, setCount_mailbox] at hrefs
      obtain rfl : k' = claimants c q := by omega
      by_cases hq : p = q
      · subst hq
        rw [points_self] at hr
        have hr' : refs c p = r' + 1 := by omega
        rw [hr'] at hphase hq2
        simp only [Shared.setCount, Function.update_self]
        exact hphase.decrement hq2 hmany
      · rw [points_of_ne hq] at hr
        obtain rfl : r' = refs c q := by omega
        simpa [Shared.setCount, Function.update_of_ne (Ne.symm hq)] using hphase
  | claim p count hone hr hk hk' _ _ =>
      have hr := hr q
      rw [hk, hk', points_none] at hclaims
      rw [pointers_setCount, setCount_mailbox] at hrefs
      by_cases hq : p = q
      · subst hq
        rw [points_self] at hr hclaims
        have hr' : refs c p = r' + 1 := by omega
        obtain rfl : k' = claimants c p + 1 := by omega
        rw [hr'] at hphase hq2
        simp only [Shared.setCount, Function.update_self]
        exact hphase.claim hq2 hone count
      · rw [points_of_ne hq] at hr hclaims
        obtain rfl : r' = refs c q := by omega
        obtain rfl : k' = claimants c q := by omega
        simpa [Shared.setCount, Function.update_of_ne (Ne.symm hq)] using hphase
  | dispose p hr hk hk' hf _ _ =>
      -- the thread takes over the reference that the payload had on its cause
      have hclaimed := (h.phase p).of_claimants_pos (claimants_pos hk)
      have hpointers := pointers_dispose (h.disposed_of_claims hk hf) hclaimed.1 Payload.cause q
      have hr := hr q
      rw [hk, hk'] at hclaims
      rw [dispose_mailbox] at hrefs
      obtain rfl : r' = refs c q := by omega
      obtain rfl : k' = claimants c q := by omega
      simpa [Shared.dispose] using hphase
  | noDispose p hdisposes hk => exact absurd hdisposes (h.disposes_of_claims hk)
  | free p hr hk hk' _ _ _ =>
      have hr := hr q
      rw [hk, hk', points_none] at hclaims
      rw [pointers_freePayload, freePayload_mailbox] at hrefs
      obtain rfl : r' = refs c q := by omega
      by_cases hq : p = q
      · subst hq
        rw [points_self] at hclaims
        have hk : claimants c p = k' + 1 := by omega
        rw [hk] at hphase
        simp only [Shared.freePayload, Function.update_self]
        exact hphase.free
      · rw [points_of_ne hq] at hclaims
        obtain rfl : k' = claimants c q := by omega
        simpa [Shared.freePayload, Function.update_of_ne (Ne.symm hq)] using hphase
  | freeBuffer hr hk _ _ =>
      have hr := hr q
      rw [hk] at hclaims
      rw [pointers_freeBuffer, freeBuffer_mailbox] at hrefs
      obtain rfl : r' = refs c q := by omega
      obtain rfl : k' = claimants c q := by omega
      simpa using hphase
  | realloc hr hk _ _ =>
      have hr := hr q
      rw [hk] at hclaims
      rw [pointers_malloc, malloc_mailbox, pointers_freeBuffer, freeBuffer_mailbox] at hrefs
      obtain rfl : r' = refs c q := by omega
      obtain rfl : k' = claimants c q := by omega
      simpa [Shared.malloc] using hphase
  | create cause b _ hr hk _ _ _ =>
      have hr := hr q
      have hpointers := pointers_create h.disposed_next cause b Payload.cause q
      rw [hk] at hclaims
      rw [create_mailbox, hpointers] at hrefs
      dsimp only [newPayload] at hrefs
      obtain rfl : k' = claimants c q := by omega
      by_cases hq : c.shared.next = q
      · subst hq
        rw [points_self] at hr
        obtain rfl : r' = refs c c.shared.next + 1 := by omega
        simp only [Shared.create, Function.update_self]
        exact hphase.create.2.2.2
      · rw [points_of_ne hq] at hr
        obtain rfl : r' = refs c q := by omega
        simpa [Shared.create, Function.update_of_ne (Ne.symm hq)] using hphase.create_of_ne hq

/-- Message and payload are freed one after the other. -/
theorem Sound.disposed_step (h : Sound c) (heffect : Effect c.shared (c.loc i) s' l') (p : ℕ) :
    s'.disposed p =
      s'.freed p + (c.move i s' l').total fun t => points t.place.frees p := by
  have hfrees := c.total_move (fun t => points t.place.frees p) i s' l'
  have hold := h.disposed p
  generalize (c.move i s' l').total (fun t => points t.place.frees p) = f' at *
  cases heffect with
  | quiet _ _ _ hf _ | increment _ _ _ _ hf _ | decrement _ _ _ _ hf _
  | claim _ _ _ _ _ _ hf _ | create _ _ _ _ _ hf _ _ =>
      rw [hf] at hfrees
      obtain rfl : f' = c.total fun t => points t.place.frees p := by omega
      exact hold
  | freeBuffer _ _ hf _ =>
      rw [hf] at hfrees
      rw [freeBuffer_disposed, freeBuffer_freed]
      omega
  | realloc _ _ hf _ =>
      rw [hf] at hfrees
      simp only [Shared.malloc, freeBuffer_disposed, freeBuffer_freed]
      omega
  | dispose p' _ _ _ hf hf' _ =>
      rw [hf, hf', points_none] at hfrees
      simp only [Shared.dispose, freeBuffer_freed]
      by_cases hp : p' = p
      · subst hp
        rw [points_self] at hfrees
        rw [Function.update_self]
        omega
      · rw [points_of_ne hp] at hfrees
        rw [Function.update_of_ne (Ne.symm hp)]
        omega
  | noDispose _ hdisposes hk => exact absurd hdisposes (h.disposes_of_claims hk)
  | free p' _ _ _ hf hf' _ =>
      rw [hf, hf', points_none] at hfrees
      simp only [Shared.freePayload]
      by_cases hp : p' = p
      · subst hp
        rw [points_self] at hfrees
        rw [Function.update_self]
        omega
      · rw [points_of_ne hp] at hfrees
        rw [Function.update_of_ne (Ne.symm hp)]
        omega

/-- **The life of a message buffer.** A buffer belongs to one creation or to one payload, until
it is freed. -/
theorem Sound.buffers_step (h : Sound c) (heffect : Effect c.shared (c.loc i) s' l') (b : ℕ) :
    s'.freedBuffer b + owners (c.move i s' l') b = if b < s'.nextBuffer then 1 else 0 := by
  have howners := owners_move c i s' l' b
  have hold := h.buffers b
  generalize owners (c.move i s' l') b = n at *
  cases heffect with
  | quiet _ _ _ _ hm | increment _ _ _ _ _ hm | decrement _ _ _ _ _ hm
  | claim _ _ _ _ _ _ _ hm =>
      rw [hm] at howners
      simp only [pointers_setMailbox, pointers_setCount] at howners
      obtain rfl : n = owners c b := by omega
      exact hold
  | dispose p _ hk _ hf _ hm =>
      have hborn := ((h.phase p).of_claimants_pos (claimants_pos hk)).1
      have hpointers := pointers_dispose (h.disposed_of_claims hk hf) hborn Payload.message b
      have hfreed : (c.shared.dispose p).freedBuffer b =
          c.shared.freedBuffer b + points (c.shared.payload p).message b :=
        freeBuffer_freedBuffer _ _ _
      have hnext : (c.shared.dispose p).nextBuffer = c.shared.nextBuffer :=
        freeBuffer_nextBuffer
      rw [hm] at howners
      rw [hfreed, hnext, ← hold]
      omega
  | noDispose _ hdisposes hk => exact absurd hdisposes (h.disposes_of_claims hk)
  | free p _ _ _ _ _ hm =>
      rw [hm, pointers_freePayload] at howners
      obtain rfl : n = owners c b := by omega
      exact hold
  | freeBuffer _ _ _ hm =>
      rw [hm, points_none, pointers_freeBuffer] at howners
      rw [freeBuffer_freedBuffer, freeBuffer_nextBuffer, ← hold]
      omega
  | realloc _ _ _ hm =>
      rw [hm, pointers_malloc, pointers_freeBuffer] at howners
      have hfreed := freeBuffer_freedBuffer c.shared (c.loc i).place.message b
      have hfreed' : (c.shared.freeBuffer (c.loc i).place.message).malloc.freedBuffer b =
          (c.shared.freeBuffer (c.loc i).place.message).freedBuffer b := rfl
      have hnext : (c.shared.freeBuffer (c.loc i).place.message).malloc.nextBuffer =
          c.shared.nextBuffer + 1 := congrArg Nat.succ freeBuffer_nextBuffer
      rw [hfreed', hfreed, hnext]
      by_cases hb : c.shared.nextBuffer = b
      · subst hb
        rw [points_self] at howners
        rw [if_neg (lt_irrefl _)] at hold
        rw [if_pos (Nat.lt_succ_self _)]
        omega
      · rw [points_of_ne hb] at howners
        have hiff : b < c.shared.nextBuffer + 1 ↔ b < c.shared.nextBuffer := by omega
        simp only [hiff, ← hold]
        omega
  | create cause b' _ _ _ _ hm hm' =>
      have hpointers := pointers_create h.disposed_next cause b' Payload.message b
      rw [hm, hm', points_none, hpointers] at howners
      dsimp only [newPayload] at howners
      obtain rfl : n = owners c b := by omega
      exact hold

omit [Fintype ι] in
/-- Payloads stay what they were created as. -/
theorem Effect.payload_eq {s : Shared} {l : Thread} (h : Effect s l s' l') :
    s.next ≤ s'.next ∧ ∀ p < s.next, s'.payload p = s.payload p := by
  cases h with
  | create =>
      refine ⟨Nat.le_succ _, fun p hp => ?_⟩
      exact Function.update_of_ne hp.ne _ _
  | freeBuffer | dispose | realloc => simp [Shared.dispose, Shared.malloc]
  | _ => exact ⟨le_rfl, fun _ _ => rfl⟩

omit [Fintype ι] [DecidableEq ι] in
/-- Causes stay what they are, also that of the next payload, which has none. -/
theorem IsCause.mono {s : Shared} {p q : ℕ} (hcause : IsCause s p q) (hwf : s.WellFormed)
    (h : ∀ p < s.next, s'.payload p = s.payload p) : IsCause s' p q := by
  have hborn : p < s.next := by
    by_contra hp
    rw [IsCause, hwf.unborn p (not_lt.mp hp)] at hcause
    cases hcause
  rwa [IsCause, h p hborn]

omit [Fintype ι] [DecidableEq ι] in
theorem Thread.Coherent.mono {s : Shared} {t : Thread} (ht : t.Coherent s)
    (hwf : s.WellFormed) (h : ∀ p < s.next, s'.payload p = s.payload p)
    (hclaims : ∀ p, t.place.claims = some p → p < s.next) : t.Coherent s' := by
  obtain ⟨place, hs⟩ := t
  cases place with
  | dispose after p o | free after p o => exact ht.trans (congrArg _ (h p (hclaims p rfl)).symm)
  | read p q =>
      refine ⟨ht.1, ?_⟩
      exact Relation.ReflTransGen.mono (fun _ _ hpq => IsCause.mono hpq hwf h) _ _ ht.2
  | _ => trivial

omit [Fintype ι] [DecidableEq ι] in
theorem After.resume_coherent {s : Shared} {hs : Multiset (Option ℕ)} (after : After) :
    (after.resume hs).Coherent s := by
  cases after <;> trivial

omit [Fintype ι] [DecidableEq ι] in
/-- The thread that takes a step stays coherent. -/
theorem Next.coherent {s : Shared} {l : Thread} {e : Event} (h : Next i s l e s' l')
    (hl : l.Coherent s) : l'.Coherent s' := by
  cases h with
  | readFirst hmem => exact ⟨hmem, .refl⟩
  | readNext hcause => exact ⟨hl.1, hl.2.tail hcause⟩
  | readCause => rfl
  | dispose => simpa [Thread.Coherent, Shared.dispose] using hl
  | loopNull | subMany => exact After.resume_coherent _
  | _ => trivial

omit [DecidableEq ι] in
theorem Sound.wellFormed_step (h : Sound c) (heffect : Effect c.shared (c.loc i) s' l') :
    s'.WellFormed := by
  obtain ⟨hpos, hfallback, hunborn, hdisposes, hcause⟩ := h.wellFormed
  cases heffect with
  | create cause b howned _ _ _ _ _ =>
      refine ⟨Nat.succ_pos _, ?_, fun p hp => ?_, fun p hp hborn => ?_, fun p q hpq => ?_⟩
      · simpa only [Shared.create, Function.update_of_ne hpos.ne] using hfallback
      · have hne : p ≠ c.shared.next := by
          have : c.shared.next + 1 ≤ p := hp
          omega
        simp only [Shared.create, Function.update_of_ne hne]
        exact hunborn p (Nat.le_of_succ_le hp)
      · by_cases hne : p = c.shared.next
        · subst hne
          simp [Shared.create, newPayload]
        · simp only [Shared.create, Function.update_of_ne hne] at hborn ⊢
          exact hdisposes p hp (by omega)
      · by_cases hne : p = c.shared.next
        · -- the thread owns the cause of the new payload, so it is one that exists
          subst hne
          have hcause : cause = some q := by
            simpa [IsCause, Shared.create, newPayload] using hpq
          exact ((h.phase q).of_refs_pos ((howned q hcause).trans_le (le_refs c i q))).1
        · simp only [IsCause, Shared.create, Function.update_of_ne hne] at hpq
          exact hcause p q hpq
  | freeBuffer | realloc | dispose =>
      constructor <;> simpa [IsCause, Shared.dispose, Shared.malloc]
  | _ => exact ⟨hpos, hfallback, hunborn, hdisposes, hcause⟩

/-- **The step lemma.** Every atomic step of every thread keeps the invariant. -/
theorem Sound.step (h : Sound c) (hbound : Bounded c) {e : Event}
    (hnext : Next i c.shared (c.loc i) e s' l') : Sound (c.move i s' l') := by
  have heffect := hnext.effect (h.coherent i)
  obtain ⟨-, hpayload⟩ := heffect.payload_eq
  refine ⟨h.wellFormed_step heffect, h.phase_step hbound heffect, h.disposed_step heffect,
    h.buffers_step heffect, fun j => ?_⟩
  by_cases hj : j = i
  · subst hj
    rw [Config.move_loc_self]
    exact hnext.coherent (h.coherent j)
  · rw [c.move_loc_of_ne s' l' hj]
    refine (h.coherent j).mono h.wellFormed hpayload fun p hclaims => ?_
    exact ((h.phase p).of_claimants_pos (claimants_pos hclaims)).1

omit [DecidableEq ι] in
/-- At the start the only reference is that of the program to the fallback payload. -/
theorem refs_start (p : ℕ) : refs (start : Config ι Shared Thread) p = points (some 0) p := by
  have hthreads : (start : Config ι Shared Thread).total (fun t => t.refs p) = 0 :=
    Config.total_eq_zero fun _ => rfl
  have hpointers : Shared.start.pointers Payload.cause p = 0 := by
    simp [Shared.pointers, Shared.start, fallbackPayload]
  rw [refs, hthreads]
  simp only [start, hpointers]
  simp [Shared.start]

omit [DecidableEq ι] in
theorem sound_start : Sound (start : Config ι Shared Thread) where
  wellFormed := ⟨Nat.one_pos, rfl, fun _ _ => rfl, fun p hp hborn => by
    have : p < 1 := hborn
    omega, fun _ _ h => by cases h⟩
  phase := by
    intro p
    have hclaimants : claimants (start : Config ι Shared Thread) p = 0 :=
      Config.total_eq_zero fun _ => rfl
    rw [hclaimants, refs_start]
    cases p with
    | zero => exact .born Nat.one_pos (.counted Nat.one_pos)
    | succ p => exact .unborn (Nat.le_add_left 1 p)
  disposed := by
    intro p
    have hthreads : (start : Config ι Shared Thread).total
        (fun t => points t.place.frees p) = 0 := Config.total_eq_zero fun _ => rfl
    rw [hthreads]
    rfl
  buffers := by
    intro b
    have hthreads : (start : Config ι Shared Thread).total
        (fun t => points t.place.message b) = 0 := Config.total_eq_zero fun _ => rfl
    have hpointers : Shared.start.pointers Payload.message b = 0 := by
      simp [Shared.pointers, Shared.start, fallbackPayload]
    rw [owners, hthreads]
    simp only [start, hpointers]
    rfl
  coherent := fun _ => trivial

theorem sound_of_reach (h : ReachWithin Next Bounded start c) : Sound c :=
  h.invariant sound_start fun _ _ _ _ _ hbound hsound hnext => hsound.step hbound hnext

end Steps

/-! ### What is alive -/

section Alive

variable {ι : Type*} [Fintype ι] {c : Config ι Shared Thread} {i : ι} {p q b : ℕ}

/-- The payload has been created, and neither it nor its message has been freed. -/
def Alive (s : Shared) (p : ℕ) : Prop :=
  p < s.next ∧ s.freed p = 0 ∧ s.disposed p = 0

theorem Sound.alive_of_refs (h : Sound c) (hpos : 0 < refs c p) : Alive c.shared p := by
  obtain ⟨hborn, hfreed, hclaims⟩ := (h.phase p).of_refs_pos hpos
  exact ⟨hborn, hfreed, h.disposed_eq_zero hfreed hclaims⟩

theorem Sound.alive_of_handle (h : Sound c) (hmem : some p ∈ (c.loc i).handles) :
    Alive c.shared p := by
  have hpos : 0 < (c.loc i).refs p :=
    (Multiset.count_pos.mpr hmem).trans_le (Nat.le_add_right _ _)
  exact h.alive_of_refs (hpos.trans_le (le_refs c i p))

/-- The cause of a payload that is alive is alive. -/
theorem Sound.alive_of_cause (h : Sound c) (hp : Alive c.shared p)
    (hcause : IsCause c.shared p q) : Alive c.shared q := by
  have hpos := pointers_pos Payload.cause hp.1 hp.2.2 hcause
  refine h.alive_of_refs ?_
  rw [refs]
  omega

theorem Sound.alive_of_causes (h : Sound c) (hp : Alive c.shared p)
    (hcauses : Relation.ReflTransGen (IsCause c.shared) p q) : Alive c.shared q := by
  induction hcauses with
  | refl => exact hp
  | tail _ hcause ih => exact h.alive_of_cause ih hcause

/-- A buffer that has an owner has been allocated and was not freed. -/
theorem Sound.buffer_of_owners (h : Sound c) (hpos : 0 < owners c b) :
    b < c.shared.nextBuffer ∧ c.shared.freedBuffer b = 0 := by
  have hbuffer := h.buffers b
  split_ifs at hbuffer with hb
  · exact ⟨hb, by omega⟩
  · omega

theorem Sound.buffer_of_alive (h : Sound c) (hp : Alive c.shared p)
    (hmessage : (c.shared.payload p).message = some b) :
    b < c.shared.nextBuffer ∧ c.shared.freedBuffer b = 0 := by
  have hpos := pointers_pos Payload.message hp.1 hp.2.2 hmessage
  refine h.buffer_of_owners ?_
  rw [owners]
  omega

theorem Sound.buffer_of_place (h : Sound c) (hplace : (c.loc i).place.message = some b) :
    b < c.shared.nextBuffer ∧ c.shared.freedBuffer b = 0 := by
  have hle := c.le_total (fun t => points t.place.message b) i
  rw [hplace, points_self] at hle
  refine h.buffer_of_owners ?_
  rw [owners]
  omega

/-- A payload that a walk has claimed has not been freed, and before `dispose_fn` is called nor
has its message. -/
theorem Sound.claimed (h : Sound c) (hclaims : (c.loc i).place.claims = some p) :
    p < c.shared.next ∧ c.shared.freed p = 0 ∧
      ((c.loc i).place.frees = none → Alive c.shared p) := by
  obtain ⟨hborn, hfreed, -⟩ := (h.phase p).of_claimants_pos (claimants_pos hclaims)
  exact ⟨hborn, hfreed, fun hfrees => ⟨hborn, hfreed, h.disposed_of_claims hclaims hfrees⟩⟩

/-- What entitles a thread to what its step accesses. -/
inductive Access (s : Shared) (l : Thread) : Event → Prop
  | silent : Access s l .silent
  | owned (p : ℕ) : 0 < l.refs p → Access s l ⟨some p, none⟩
  | fallback : Access s l ⟨some 0, none⟩
  | claimed (p : ℕ) : l.place.claims = some p → Access s l ⟨some p, none⟩
  | disposing (p : ℕ) : l.place.claims = some p → l.place.frees = none →
      Access s l ⟨some p, (s.payload p).message⟩
  | reading (p q : ℕ) : some p ∈ l.handles → Relation.ReflTransGen (IsCause s) p q →
      Access s l ⟨some q, (s.payload q).message⟩
  | buffer : Access s l ⟨none, l.place.message⟩

omit [Fintype ι] in
theorem Next.access {s s' : Shared} {l l' : Thread} {e : Event} (h : Next i s l e s' l')
    (hl : l.Coherent s) : Access s l e := by
  cases h with
  | ok | put | take | acquireNull | readFirst | release | loopNull | malloc | mallocFail
  | noMessage | create | createFail => exact .silent
  | acquire hmem =>
      exact .owned _ ((Multiset.count_pos.mpr hmem).trans_le (Nat.le_add_right _ _))
  | loadOne | loadMany | subOne | subMany => exact .owned _ (by simp [Thread.refs, Place.owes])
  | readNext | readLast => exact .reading _ _ hl.1 hl.2
  | readCause | noDispose | free => exact .claimed _ rfl
  | dispose => exact .disposing _ rfl rfl
  | short | shortFail | realloc | long | longFail | fail | freeMessage => exact .buffer
  | increment => exact .fallback

/-- **No step accesses what is gone.** -/
theorem Sound.access (h : Sound c) {e : Event} {s' : Shared} {l' : Thread}
    (hnext : Next i c.shared (c.loc i) e s' l') :
    (∀ p, e.payload = some p → p < c.shared.next ∧ c.shared.freed p = 0) ∧
    ∀ b, e.message = some b → b < c.shared.nextBuffer ∧ c.shared.freedBuffer b = 0 := by
  cases hnext.access (h.coherent i) with
  | silent => exact ⟨nofun, nofun⟩
  | owned p hpos =>
      have hp := h.alive_of_refs (hpos.trans_le (le_refs c i p))
      refine ⟨fun p' hp' => ?_, nofun⟩
      obtain rfl := Option.some.inj hp'
      exact ⟨hp.1, hp.2.1⟩
  | fallback =>
      have hp := h.alive_of_refs (refs_zero_pos c)
      refine ⟨fun p' hp' => ?_, nofun⟩
      obtain rfl := Option.some.inj hp'
      exact ⟨hp.1, hp.2.1⟩
  | claimed p hclaims =>
      obtain ⟨hborn, hfreed, -⟩ := h.claimed hclaims
      refine ⟨fun p' hp' => ?_, nofun⟩
      obtain rfl := Option.some.inj hp'
      exact ⟨hborn, hfreed⟩
  | disposing p hclaims hfrees =>
      have hp := (h.claimed hclaims).2.2 hfrees
      refine ⟨fun p' hp' => ?_, fun b => h.buffer_of_alive hp⟩
      obtain rfl := Option.some.inj hp'
      exact ⟨hp.1, hp.2.1⟩
  | reading p q hmem hcauses =>
      have hq := h.alive_of_causes (h.alive_of_handle hmem) hcauses
      refine ⟨fun p' hp' => ?_, fun b => h.buffer_of_alive hq⟩
      obtain rfl := Option.some.inj hp'
      exact ⟨hq.1, hq.2.1⟩
  | buffer => exact ⟨nofun, fun b => h.buffer_of_place⟩

omit [Fintype ι] in
/-- Only the thread that has claimed a payload frees it. -/
theorem Effect.claims_of_freed {s s' : Shared} {l l' : Thread} (h : Effect s l s' l')
    (hfreed : s'.freed p ≠ s.freed p) : l.place.claims = some p := by
  cases h with
  | free p' _ hclaims =>
      by_cases hp : p' = p
      · rwa [← hp]
      · exact absurd (Function.update_of_ne (Ne.symm hp) _ _) hfreed
  | freeBuffer | realloc | dispose => simp [Shared.dispose, Shared.malloc] at hfreed
  | _ => exact absurd rfl hfreed

omit [Fintype ι] in
/-- A walk that is about to free a payload has taken over its reference. -/
theorem Thread.Coherent.owes_of_frees {s : Shared} {t : Thread} (ht : t.Coherent s)
    (hfrees : t.place.frees = some p) : t.place.owes = (s.payload p).cause := by
  obtain ⟨place, hs⟩ := t
  cases place with
  | free after p' o =>
      obtain rfl := Option.some.inj hfrees
      exact ht
  | _ => cases hfrees

/-- Nothing that is still there points to a payload without references. -/
theorem Sound.not_isCause (h : Sound c) (hrefs : refs c p = 0) (hborn : q < c.shared.next)
    (hfreed : c.shared.freed q = 0) : ¬ IsCause c.shared q p := by
  intro hcause
  by_cases hdisposed : c.shared.disposed q = 0
  · have hpos := pointers_pos Payload.cause hborn hdisposed hcause
    rw [refs] at hrefs
    omega
  · have hfrees : 0 < c.total fun t => points t.place.frees q := by
      have := h.disposed q
      omega
    obtain ⟨j, hj⟩ := Config.exists_of_total_pos hfrees
    have howes := (h.coherent j).owes_of_frees (points_pos_iff.mp hj)
    rw [IsCause] at hcause
    have hle := le_refs c j p
    rw [Thread.refs, howes, hcause, points_self] at hle
    omega

/-- When every thread has finished and nobody owns an error, every payload and every message
has been freed, and the fallback payload is as it was. -/
theorem Sound.freed_of_idle (h : Sound c)
    (hidle : ∀ i, (c.loc i).place = .idle ∧ ∀ p, some p ∉ (c.loc i).handles)
    (hmailbox : ∀ p, some p ∉ c.shared.mailbox) :
    (∀ p, 0 < p → p < c.shared.next → c.shared.freed p = 1) ∧
      (∀ b, b < c.shared.nextBuffer → c.shared.freedBuffer b = 1) ∧
      c.shared.count 0 = 1#32 := by
  have hclaimants : ∀ p, claimants c p = 0 := fun p =>
    Config.total_eq_zero fun i => by rw [(hidle i).1]; rfl
  have hrefs : ∀ p, refs c p = c.shared.pointers Payload.cause p + points (some 0) p := by
    intro p
    have hthreads : c.total (fun t => t.refs p) = 0 := Config.total_eq_zero fun i => by
      rw [Thread.refs, (hidle i).1, Multiset.count_eq_zero_of_notMem ((hidle i).2 p)]
      rfl
    rw [refs, hthreads, Multiset.count_eq_zero_of_notMem (hmailbox p)]
    omega
  have hdisposed : ∀ p, c.shared.disposed p = c.shared.freed p := by
    intro p
    have hfrees : c.total (fun t => points t.place.frees p) = 0 :=
      Config.total_eq_zero fun i => by rw [(hidle i).1]; rfl
    rw [h.disposed p, hfrees, add_zero]
  -- along the causes: a payload that was not freed has a younger one above it that was not
  have hfreed : ∀ p, 0 < p → p < c.shared.next → c.shared.freed p = 1 := by
    intro p
    induction hn : c.shared.next - p using Nat.strong_induction_on generalizing p with
    | _ n ih =>
        intro hp hborn
        have hphase := h.phase p
        rw [hclaimants, hrefs, points_of_ne hp.ne, add_zero] at hphase
        refine (hphase.freed_or_refs_pos hborn).resolve_right fun hpos => ?_
        obtain ⟨q, hqborn, hq, hcause⟩ := exists_of_pointers_pos hpos
        have hlt : p < q := h.wellFormed.cause_lt q p hcause
        have hqfreed := ih (c.shared.next - q) (by omega) q rfl (by omega) hqborn
        rw [hdisposed, hqfreed] at hq
        cases hq
  -- what is left points nowhere
  have hleft : ∀ field b, field fallbackPayload = none → c.shared.pointers field b = 0 := by
    intro field b hfield
    by_contra hpointers
    obtain ⟨q, hborn, hq, hqfield⟩ := exists_of_pointers_pos (Nat.pos_of_ne_zero hpointers)
    rw [hdisposed] at hq
    obtain rfl : q = 0 := by
      by_contra hne
      rw [hfreed q (Nat.pos_of_ne_zero hne) hborn] at hq
      cases hq
    rw [h.wellFormed.fallback, hfield] at hqfield
    cases hqfield
  refine ⟨hfreed, fun b hb => ?_, ?_⟩
  · have hthreads : c.total (fun t => points t.place.message b) = 0 :=
      Config.total_eq_zero fun i => by rw [(hidle i).1]; rfl
    have hbuffer := h.buffers b
    rw [owners, hthreads, hleft Payload.message b rfl, if_pos hb] at hbuffer
    exact hbuffer
  · have hone : refs c 0 = 1 := by rw [hrefs, hleft Payload.cause 0 rfl, points_self]
    have hcount := (h.phase 0).count_eq (by omega)
    rw [hcount, hone]

end Alive

end Calls

open Calls in
/-- **Concurrent calls.** In every interleaving of creations, acquisitions, hand-overs, reads
and releases of errors, with fewer than `2 ^ 32` references to each payload at all times and
whatever calls of `malloc`, `realloc` and `vsnprintf` fail:

* no payload and no message is freed twice;
* no step accesses a payload or a message that has not been allocated or was freed;
* an error that a thread owns, all its causes and their messages are there;
* a payload is freed only when nobody owns it and nothing that is still there has it as its
  cause;
* when every thread has finished and released its errors, every payload and every message has
  been freed exactly once, and the counter of the fallback payload is back at `1`. -/
theorem concurrent_calls {ι : Type*} [DecidableEq ι] [Fintype ι] {c : Config ι Shared Thread}
    (h : ReachWithin Next Bounded start c) :
    (∀ p, c.shared.freed p ≤ 1) ∧ (∀ b, c.shared.freedBuffer b ≤ 1) ∧
    (∀ i e s' l', Next i c.shared (c.loc i) e s' l' →
      (∀ p, e.payload = some p → p < c.shared.next ∧ c.shared.freed p = 0) ∧
      ∀ b, e.message = some b → b < c.shared.nextBuffer ∧ c.shared.freedBuffer b = 0) ∧
    (∀ i p q, some p ∈ (c.loc i).handles → Relation.ReflTransGen (IsCause c.shared) p q →
      q < c.shared.next ∧ c.shared.freed q = 0 ∧
        ∀ b, (c.shared.payload q).message = some b → c.shared.freedBuffer b = 0) ∧
    (∀ i e s' l', Next i c.shared (c.loc i) e s' l' → ∀ p, s'.freed p ≠ c.shared.freed p →
      (∀ j, some p ∉ (c.loc j).handles) ∧ some p ∉ c.shared.mailbox ∧
      ∀ q, q < c.shared.next → c.shared.freed q = 0 → ¬ IsCause c.shared q p) ∧
    ((∀ i, (c.loc i).place = .idle ∧ ∀ p, some p ∉ (c.loc i).handles) →
      (∀ p, some p ∉ c.shared.mailbox) →
      (∀ p, 0 < p → p < c.shared.next → c.shared.freed p = 1) ∧
        (∀ b, b < c.shared.nextBuffer → c.shared.freedBuffer b = 1) ∧
        c.shared.count 0 = 1#32) := by
  have hsound := sound_of_reach h
  refine ⟨fun p => (hsound.phase p).freed_le_one, fun b => ?_, fun i e s' l' => hsound.access,
    fun i p q hmem hcauses => ?_, fun i e s' l' hnext p hp => ?_, hsound.freed_of_idle⟩
  · have := hsound.buffers b
    split_ifs at this <;> omega
  · have hq := hsound.alive_of_causes (hsound.alive_of_handle hmem) hcauses
    exact ⟨hq.1, hq.2.1, fun b hb => (hsound.buffer_of_alive hq hb).2⟩
  · have hclaims := (hnext.effect (hsound.coherent i)).claims_of_freed hp
    have hzero := ((hsound.phase p).of_claimants_pos (claimants_pos hclaims)).2.2.2
    refine ⟨fun j hmem => ?_, fun hmem => ?_, fun q => hsound.not_isCause hzero⟩
    · have hle := le_refs c j p
      have hpos := Multiset.count_pos.mpr hmem
      rw [Thread.refs] at hle
      omega
    · have hpos := Multiset.count_pos.mpr hmem
      rw [refs] at hzero
      omega

open Calls in
/-- Thread `0` creates an error and hands a reference to thread `1`, which fails to allocate a
payload for an error with this cause. Both release it at the same time, and thread `1`, which
disposes of it, releases the fallback payload it got. -/
theorem concurrent_calls_two_threads :
    ∃ c : Config (Fin 2) Shared Thread, ReachWithin Next Bounded start c ∧
      c.shared.next = 2 ∧ c.shared.freed 1 = 1 ∧ c.shared.nextBuffer = 3 ∧
      (∀ b, b < 3 → c.shared.freedBuffer b = 1) ∧ c.shared.count 0 = 1#32 := by
  have hcreated := (ReachWithin.refl : ReachWithin Next Bounded
      (start : Config (Fin 2) Shared Thread) _)
    |> (tail_of_size · (by decide) 0 .ok)
    |> (tail_of_size · (by decide) 0 (.malloc (o := none) (by decide)))
    |> (tail_of_size · (by decide) 0 .short)
    |> (tail_of_size · (by decide) 0 .create)
  have hshared := hcreated
    |> (tail_of_size · (by decide) 0 (.acquire (p := 1) (by decide)))
    |> (tail_of_size · (by decide) 0 (.put (o := some 1) (by decide)))
    |> (tail_of_size · (by decide) 1 (.take (o := some 1) (by decide)))
  have hfailed := hshared
    |> (tail_of_size · (by decide) 1 (.malloc (o := some 1) (by decide)))
    |> (tail_of_size · (by decide) 1 .realloc)
    |> (tail_of_size · (by decide) 1 .long)
    |> (tail_of_size · (by decide) 1 .createFail)
    |> (tail_of_size · (by decide) 1 .freeMessage)
  have hdone : After.done ≠ .fallback := by decide
  have hreleased := hfailed
    |> (tail_of_size · (by decide) 0 (.release (o := some 1) (by decide) hdone))
    |> (tail_of_size · (by decide) 0 (.loadMany (by decide)))
    |> (tail_of_size · (by decide) 1 (.loadMany (by decide)))
    |> (tail_of_size · (by decide) 0 (.subMany (by decide)))
    |> (tail_of_size · (by decide) 1 (.subOne (by decide)))
    |> (tail_of_size · (by decide) 1 .readCause)
    |> (tail_of_size · (by decide) 1 (.dispose (by decide)))
    |> (tail_of_size · (by decide) 1 .free)
    |> (tail_of_size · (by decide) 1 .loopNull)
    |> (tail_of_size · (by decide) 1 .increment)
  have hfinished := hreleased
    |> (tail_of_size · (by decide) 1 (.release (o := some 0) (by decide) hdone))
    |> (tail_of_size · (by decide) 1 (.loadMany (by decide)))
    |> (tail_of_size · (by decide) 1 (.subMany (by decide)))
  obtain ⟨c, hreach, hthreads, hmailbox, hnext, hnextBuffer⟩ :
      ∃ c : Config (Fin 2) Shared Thread, ReachWithin Next Bounded start c ∧
        (∀ i, (c.loc i).place = .idle ∧ (c.loc i).handles = 0) ∧ c.shared.mailbox = 0 ∧
        c.shared.next = 2 ∧ c.shared.nextBuffer = 3 :=
    ⟨_, hfinished, by decide, by decide, by decide, by decide⟩
  obtain ⟨-, -, -, -, -, hidle⟩ := concurrent_calls hreach
  obtain ⟨hfreed, hbuffers, hcount⟩ := hidle
    (fun i => ⟨(hthreads i).1, fun p => by simp [(hthreads i).2]⟩) fun p => by simp [hmailbox]
  refine ⟨c, hreach, hnext, hfreed 1 Nat.one_pos (by omega), hnextBuffer, ?_, hcount⟩
  exact fun b hb => hbuffers b (by omega)

end U7Init
