import U7Init.Refcount

/-!
# The Last Reference

This module looks at the runs of `U7Init.Refcount` without their memory orders: which
call is told that it gave up the last reference. `u7_refcount_skewed_decrement` decides
from a value it loaded in an earlier step, and leaves the counter alone when it reads
`1`, so the counter counts the references only as long as there are any.

Both decrements are looked at in one program: any thread may use either of them, for every
single reference. Memory orders do not matter for the question, so only the values that the
atomic steps read and write are left of the runs. What does matter is the gap between the load
and the `fetch_sub` of the skewed variant: a thread that has read a larger value may find `1` in
its `fetch_sub`, and a thread that has read `1` decides without a second access. That this is
sound follows from the fact that a counter that is `1` can only be changed by the thread that
holds the one reference.

## Main results

* `Refs.Next.outstanding`: what a step does to the number of references and the counter.
* `Refs.Counted.step`: the counter counts the references, and the first call that returns
  `false` is the one after which there are none.
* `last_reference`: both decrement functions agree on who is last.
-/

open Interleaving

namespace U7Init

namespace Refs

variable {ι : Type*} [DecidableEq ι] [Fintype ι]

/-- The number of references, those that a running call is about to give up included. -/
def Shared.outstanding (s : Shared ι) : ℕ :=
  ∑ i, s.refs i

/-- The number of calls that returned `false`. -/
def Shared.lasts (s : Shared ι) : ℕ :=
  s.log.countP fun step => step.2.returned = some false

omit [DecidableEq ι] in
theorem outstanding_pos {s : Shared ι} {i : ι} (h : 0 < s.refs i) : 0 < s.outstanding :=
  h.trans_le (Finset.single_le_sum (fun _ _ => Nat.zero_le _) (Finset.mem_univ i))

omit [DecidableEq ι] in
theorem outstanding_eq_zero_iff {s : Shared ι} : s.outstanding = 0 ↔ ∀ i, s.refs i = 0 := by
  simp [Shared.outstanding]

/-- Giving up a reference leaves one less. -/
theorem outstanding_giveUp {s : Shared ι} {i : ι} (h : 0 < s.refs i) (e : Event ι) :
    (s.giveUp i e).outstanding + 1 = s.outstanding := by
  have hsum := sum_update s.refs i (s.refs i - 1)
  have hnew : (s.giveUp i e).outstanding = ∑ j, Function.update s.refs i (s.refs i - 1) j := rfl
  rw [hnew, Shared.outstanding]
  omega

omit [DecidableEq ι] [Fintype ι] in
theorem lasts_concat {s s' : Shared ι} {i : ι} {e : Event ι} (h : s'.log = s.log ++ [(i, e)]) :
    s'.lasts = s.lasts + if e.returned = some false then 1 else 0 := by
  rw [Shared.lasts, Shared.lasts, h, List.countP_append, List.countP_singleton]
  simp only [decide_eq_true_eq]

/-- What a thread that stands between its load and its `fetch_sub` still holds. -/
def Pending (s : Shared ι) (i : ι) (l : Thread) : Prop :=
  l.place = .subtracting → 0 < s.refs i

omit [Fintype ι] in
/-- Every step is taken by a thread with a reference. -/
theorem Next.refs_pos {i : ι} {s s' : Shared ι} {l l' : Thread} {e : Event ι}
    (h : Next i s l e s' l') (hpending : Pending s i l) : 0 < s.refs i := by
  cases h with
  | access hpos => exact hpos
  | increment hpos => exact hpos
  | decrement hpos => exact hpos
  | loadOne hpos => exact hpos
  | loadMany hpos => exact hpos
  | skewedSub => exact hpending rfl

/-- What a step does to the number of references: a call that returns gives up one, and
it returns `false` exactly if that was the last. As long as any reference is left the
counter counts them. -/
theorem Next.outstanding {i : ι} {s s' : Shared ι} {l l' : Thread} {e : Event ι}
    (h : Next i s l e s' l') (hpending : Pending s i l)
    (hcount : s.count = BitVec.ofNat 32 s.outstanding) (hbound : s.outstanding < 2 ^ 31) :
    (e.returned = none → 0 < s'.outstanding) ∧
      (∀ result, e.returned = some result → (result = false ↔ s'.outstanding = 0)) ∧
      (0 < s'.outstanding → s'.count = BitVec.ofNat 32 s'.outstanding) := by
  have hpos := outstanding_pos (h.refs_pos hpending)
  -- a `fetch_sub` finds the counter at the number of references
  have hsub : ∀ n, n + 1 = s.outstanding →
      ((u7RefcountDecrement s.count).2 = false ↔ n = 0) ∧
        (u7RefcountDecrement s.count).1 = BitVec.ofNat 32 n := by
    intro n hn
    rw [u7RefcountDecrement, hcount, ← hn, bne_eq_false_iff_eq, ofNat_succ_sub_one,
      ofNat_eq_one_iff (by omega)]
    exact ⟨by omega, rfl⟩
  cases h with
  | access => exact ⟨fun _ => hpos, by rintro _ ⟨⟩, fun _ => hcount⟩
  | @increment _ owner =>
      have hsum := sum_update s.refs owner (s.refs owner + 1)
      have hsucc : (∑ j, Function.update s.refs owner (s.refs owner + 1) j) =
          s.outstanding + 1 := by
        rw [Shared.outstanding]
        omega
      refine ⟨fun _ => (Nat.succ_pos _).trans_eq hsucc.symm, by rintro _ ⟨⟩, fun _ => ?_⟩
      rw [hcount, u7RefcountIncrement_ofNat, ← hsucc]
      rfl
  | @decrement _ _ _ result hrefs hresult =>
      obtain ⟨hfalse, hnew⟩ := hsub _ (outstanding_giveUp hrefs (.decrement result))
      refine ⟨by rintro ⟨⟩, ?_, fun _ => hnew⟩
      rintro _ hreturned
      obtain rfl := Option.some.inj hreturned
      rw [← hresult]
      exact hfalse
  | loadOne hrefs hone =>
      have hless := outstanding_giveUp hrefs .loadOne
      rw [hcount, ofNat_eq_one_iff (by omega)] at hone
      have hzero : (s.giveUp i .loadOne).outstanding = 0 := by omega
      refine ⟨by rintro ⟨⟩, ?_, fun hleft => absurd hzero hleft.ne'⟩
      rintro _ hreturned
      obtain rfl := Option.some.inj hreturned
      exact iff_of_true rfl hzero
  | loadMany => exact ⟨fun _ => hpos, by rintro _ ⟨⟩, fun _ => hcount⟩
  | @skewedSub _ _ _ result hresult =>
      obtain ⟨hfalse, hnew⟩ := hsub _ (outstanding_giveUp (hpending rfl) (.skewedSub result))
      refine ⟨by rintro ⟨⟩, ?_, fun _ => hnew⟩
      rintro _ hreturned
      obtain rfl := Option.some.inj hreturned
      rw [← hresult]
      exact hfalse

/-- **The invariant**: a thread between its load and its `fetch_sub` holds a reference;
the counter counts the references as long as there are any; and one call returned `false`
if there are none, and no call otherwise. -/
structure Counted (c : Config ι (Shared ι) Thread) : Prop where
  pending : ∀ i, Pending c.shared i (c.loc i)
  count : 0 < c.shared.outstanding → c.shared.count = BitVec.ofNat 32 c.shared.outstanding
  lasts : c.shared.lasts = if c.shared.outstanding = 0 then 1 else 0

variable {c : Config ι (Shared ι) Thread} {refs : ι → ℕ}

omit [DecidableEq ι] in
theorem counted_start (h : 0 < ∑ i, refs i) : Counted (start refs) where
  pending := nofun
  count := fun _ => rfl
  lasts := (if_neg h.ne').symm

omit [Fintype ι] in
/-- A step of another thread takes no reference away from a thread. -/
theorem Next.refs_le {i j : ι} {s s' : Shared ι} {l l' : Thread} {e : Event ι}
    (h : Next i s l e s' l') (hj : j ≠ i) : s.refs j ≤ s'.refs j := by
  cases h with
  | @increment _ owner =>
      by_cases ho : j = owner
      · subst ho
        simp
      · exact (Function.update_of_ne ho _ _).ge
  | decrement | loadOne | skewedSub => exact (Function.update_of_ne hj _ _).ge
  | access | loadMany => exact le_rfl

omit [Fintype ι] in
/-- After its load a thread still holds its reference. -/
theorem Next.pending {i : ι} {s s' : Shared ι} {l l' : Thread} {e : Event ι}
    (h : Next i s l e s' l') : Pending s' i l' := by
  cases h with
  | loadMany hpos => exact fun _ => hpos
  | access | increment | decrement | loadOne | skewedSub => nofun

/-- **The step lemma.** -/
theorem Counted.step (h : Counted c) (hbound : c.shared.outstanding < 2 ^ 31) {i : ι}
    {s' : Shared ι} {l' : Thread} {e : Event ι}
    (hnext : Next i c.shared (c.loc i) e s' l') : Counted (c.move i s' l') := by
  have hpos := outstanding_pos (hnext.refs_pos (h.pending i))
  obtain ⟨hnone, hreturned, hcount⟩ :=
    hnext.outstanding (h.pending i) (h.count hpos) hbound
  constructor
  · intro j
    rw [Config.move_shared]
    by_cases hj : j = i
    · subst hj
      rw [Config.move_loc_self]
      exact hnext.pending
    · rw [c.move_loc_of_ne s' l' hj]
      exact fun hplace => (h.pending j hplace).trans_le (hnext.refs_le hj)
  · exact hcount
  · rw [Config.move_shared, lasts_concat hnext.views.1, h.lasts, if_neg hpos.ne', zero_add]
    cases he : e.returned with
    | none => simp [(hnone he).ne']
    | some result => simp [hreturned result he]

/-- In a run with fewer than `2 ^ 31` references at any time the invariant holds. -/
theorem counted_of_reach (hpos : 0 < ∑ i, refs i)
    (h : ReachWithin Next (fun c => c.shared.outstanding < 2 ^ 31) (start refs) c) :
    Counted c :=
  h.invariant (counted_start hpos) fun _ _ _ _ _ hbound hcounted hnext =>
    hcounted.step hbound hnext

end Refs

open Refs in
/-- **Both decrement functions agree on who is last.** The counter starts at `1`, for the
one reference there is. In every run of increments and decrements of both kinds with fewer
than `2 ^ 31` references at any time, a call that gives up a reference returns `false`
exactly when no reference is left, and then no other call stands between its load and its
`fetch_sub`; and once all references have been given up exactly one call has returned
`false`. -/
theorem last_reference {ι : Type*} [DecidableEq ι] [Fintype ι] (refs : ι → ℕ)
    (hone : ∑ i, refs i = 1) (c : Config ι (Shared ι) Thread)
    (h : ReachWithin Next (fun c => c.shared.outstanding < 2 ^ 31) (start refs) c) :
    (start refs).shared.count = u7RefcountInit ∧
      (c.shared.outstanding < 2 ^ 31 → ∀ i e c' result, Step Next c i e c' →
        e.returned = some result →
          (result = false ↔ ∀ j, c'.shared.refs j = 0) ∧
          (result = false → ∀ j, (c'.loc j).place = .idle)) ∧
      ((∀ i, c.shared.refs i = 0) →
        c.shared.log.countP (fun step => step.2.returned = some false) = 1) := by
  have hpos : 0 < ∑ i, refs i := by omega
  have hcounted := counted_of_reach hpos h
  refine ⟨congrArg (BitVec.ofNat 32) hone, ?_, ?_⟩
  · intro hbound i e c' result hstep hreturned
    have hcounted' := counted_of_reach hpos (h.tail hbound hstep)
    cases hstep with
    | mk hnext =>
        have hrefs := outstanding_pos (hnext.refs_pos (hcounted.pending i))
        obtain ⟨-, hresult, -⟩ :=
          hnext.outstanding (hcounted.pending i) (hcounted.count hrefs) hbound
        have hiff := (hresult result hreturned).trans outstanding_eq_zero_iff
        refine ⟨hiff, fun hfalse j => ?_⟩
        cases hplace : ((c.move i _ _).loc j).place with
        | idle => rfl
        | subtracting => exact absurd (hiff.mp hfalse j) (hcounted'.pending j hplace).ne'
  · intro hzero
    have hlasts := hcounted.lasts
    rwa [if_pos (outstanding_eq_zero_iff.mpr hzero)] at hlasts

open Refs in
/-- Two threads: thread `0` gives thread `1` a reference, both load `2`, and thread `0`
takes its `fetch_sub` last. -/
theorem last_reference_two_threads :
    ∃ c : Config (Fin 2) (Shared (Fin 2)) Thread, (∀ i, c.shared.refs i = 0) ∧
      c.shared.log = [(0, .increment 1), (0, .loadMany), (1, .loadMany),
        (1, .skewedSub true), (0, .skewedSub false)] ∧
      c.shared.log.countP (fun step => step.2.returned = some false) = 1 := by
  have hrun {c c' : Config (Fin 2) (Shared (Fin 2)) Thread} {i : Fin 2} {e : Event (Fin 2)}
      (h : ReachWithin Next (fun c => c.shared.outstanding < 2 ^ 31) (start ![1, 0]) c)
      (hbound : c.shared.outstanding < 2 ^ 31) (hstep : Step Next c i e c') :
      ReachWithin Next (fun c => c.shared.outstanding < 2 ^ 31) (start ![1, 0]) c' :=
    h.tail hbound hstep
  have h₁ := hrun (e := .increment 1) .refl (by decide) (.mk (i := 0) (.increment (by decide)))
  have h₂ := hrun h₁ (by decide) (.mk (i := 0) (.loadMany (by decide) (by decide)))
  have h₃ := hrun h₂ (by decide) (.mk (i := 1) (.loadMany (by decide) (by decide)))
  have h₄ := hrun h₃ (by decide) (.mk (i := 1) (.skewedSub rfl))
  have h₅ := hrun h₄ (by decide) (.mk (i := 0) (.skewedSub rfl))
  have hlast := last_reference ![1, 0] (by decide) _ h₅
  exact ⟨_, by decide, rfl, hlast.2.2 (by decide)⟩

end U7Init
