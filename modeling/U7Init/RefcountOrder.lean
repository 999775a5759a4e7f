import U7Init.LastReference
import U7Init.Lib.HappensBefore

/-!
# The Reference Counter and Happens-Before

`U7Init.Refcount` keeps the accesses that happen before a thread as sets. This module reads
the same runs as logs of atomic accesses with memory orders, and happens-before as it follows
from them. The memory orders of the three functions are a parameter, and those of
`public/refcount.h` one value of it.

Happens-before is that of C11, for the operations there are: what a thread does is ordered by
its program; a read-modify-write continues the release sequence that it reads from, so that an
acquire operation synchronizes with all releases in front of it on the same counter; and the two
together are closed transitively. The log is one sequence, so an access reads from the last one
in front of it.

## Main results

* `Refs.before_cases`: what the memory orders of the source order across threads.
* `refcount_happens_before`: the sets are happens-before.
* `Refs.Covered.step`: while a reference is left, what was accessed through those given up is
  published.
* `disposal_ordered_iff_orders`: which memory orders let disposal come last.
-/

open Interleaving HappensBefore

namespace U7Init

/-- The memory orders of the three functions, those of the load and of the `fetch_sub` of
`u7_refcount_skewed_decrement` apart. -/
structure RefcountOrders where
  increment : MemoryOrder
  decrement : MemoryOrder
  skewedLoad : MemoryOrder
  skewedSub : MemoryOrder
  deriving DecidableEq, Repr

/-- The memory orders of `u7_refcount_increment`, `u7_refcount_decrement` and
`u7_refcount_skewed_decrement`. -/
def u7RefcountOrders : RefcountOrders where
  increment := .relaxed
  decrement := .acqRel
  skewedLoad := .relaxed
  skewedSub := .acqRel

namespace Refs

/-- The access of a step to the counter. -/
def Event.atomic {ι : Type*} (o : RefcountOrders) : Event ι → Option (AtomicAccess Unit)
  | .access => none
  | .increment _ => some (.readModifyWrite () o.increment)
  | .decrement _ => some (.readModifyWrite () o.decrement)
  | .loadOne | .loadMany => some (.load () o.skewedLoad)
  | .skewedSub _ => some (.readModifyWrite () o.skewedSub)

/-- **Disposal comes last.** Every access to the object happens before every step in which a
decrement returned `false`. -/
def DisposalLast {ι : Type*} (o : RefcountOrders) (log : List (ι × Event ι)) : Prop :=
  ∀ a b i j e, log[a]? = some (i, .access) → log[b]? = some (j, e) → e.returned = some false →
    Before (Event.atomic o) log a b

section Logs

variable {ι : Type*} {o : RefcountOrders} {log : List (ι × Event ι)} {i j u v : ι}
  {e e' : Event ι} {access : AtomicAccess Unit} {a b : ℕ}

/-- Nothing is stored to the counter, so all release sequences last. -/
theorem not_storesAt (h : e.atomic o = some access) (x : Unit) : ¬ access.StoresAt x := by
  cases e <;> cases h <;> exact id

theorem heads_of_releases (ha : log[a]? = some (i, e)) (he : e.atomic o = some access)
    (hreleases : access.ReleasesAt ()) (n : ℕ) : Heads (Event.atomic o) log () a n :=
  ⟨⟨i, e, access, ha, he, hreleases⟩, fun _ _ _ _ _ _ _ he' => not_storesAt he' ()⟩

/-! ### The orders of the source -/

/-- A `fetch_sub` releases and acquires. -/
theorem Event.IsSub.atomic (h : e.IsSub) :
    e.atomic u7RefcountOrders = some (.readModifyWrite () .acqRel) := by
  cases e with
  | decrement | skewedSub => rfl
  | access | increment | loadOne | loadMany => exact h.elim

/-- No other access to the counter does either. -/
theorem isSub_of_order {x : Unit} (h : e.atomic u7RefcountOrders = some access)
    (horder : access.ReleasesAt x ∨ access.AcquiresAt x) : e.IsSub := by
  cases e with
  | decrement | skewedSub => trivial
  | access => cases h
  | increment =>
      cases h
      exact (horder.elim And.right And.right).elim
  | loadOne | loadMany =>
      cases h
      exact horder.elim id And.right

theorem SubAt.heads {n : ℕ} (h : SubAt log i a) :
    Heads (Event.atomic u7RefcountOrders) log () a n := by
  obtain ⟨e, ha, hsub⟩ := h
  exact heads_of_releases ha hsub.atomic ⟨rfl, trivial⟩ n

theorem SubAt.synchronizes (h : SubAt log i a) (h' : SubAt log j b) (hab : a < b) :
    Synchronizes (Event.atomic u7RefcountOrders) log a b := by
  obtain ⟨e, hb, hsub⟩ := h'
  exact ⟨hab, (), h.heads, j, e, _, hb, hsub.atomic, rfl, trivial⟩

/-- **What the orders of the source order.** A step that happens before another one is of the
same thread, or its thread performed a `fetch_sub` from then on, and the other thread performed
one after that. -/
theorem before_cases (h : Before (Event.atomic u7RefcountOrders) log a b)
    (ha : log[a]? = some (u, e)) (hb : log[b]? = some (v, e')) :
    u = v ∨ ∃ j k, a ≤ j ∧ j < k ∧ k ≤ b ∧ SubAt log u j ∧ SubAt log v k := by
  induction h generalizing u v e e' with
  | program _ ha' hb' =>
      obtain ⟨rfl, -⟩ := Prod.mk.inj (Option.some.inj (ha.symm.trans ha'))
      obtain ⟨rfl, -⟩ := Prod.mk.inj (Option.some.inj (hb.symm.trans hb'))
      exact .inl rfl
  | @synchronizes a b h =>
      obtain ⟨hab, x, ⟨⟨_, _, _, ha', hatomic, hreleases⟩, -⟩, hread⟩ := h
      obtain ⟨_, _, _, hb', hatomic', hacquires⟩ := hread
      obtain ⟨rfl, rfl⟩ := Prod.mk.inj (Option.some.inj (ha.symm.trans ha'))
      obtain ⟨rfl, rfl⟩ := Prod.mk.inj (Option.some.inj (hb.symm.trans hb'))
      exact .inr ⟨a, b, le_rfl, hab, le_rfl, ⟨_, ha, isSub_of_order hatomic (.inl hreleases)⟩,
        ⟨_, hb, isSub_of_order hatomic' (.inr hacquires)⟩⟩
  | @trans a b d hab hbd ih ih' =>
      have hb' : b < log.length := hbd.lt.trans (List.getElem?_eq_some_iff.mp hb).1
      have hmid : log[b]? = some (log[b].1, log[b].2) := List.getElem?_eq_getElem hb'
      have hab := hab.lt
      have hbd := hbd.lt
      rcases ih ha hmid with hu | ⟨j, k, haj, hjk, hkb, hj, hk⟩
      · rcases ih' hmid hb with hv | ⟨j', k', hbj', hjk', hkd', hj', hk'⟩
        · exact .inl (hu.trans hv)
        · exact .inr ⟨j', k', by omega, hjk', hkd', hu ▸ hj', hk'⟩
      · rcases ih' hmid hb with hv | ⟨j', k', hbj', hjk', hkd', -, hk'⟩
        · exact .inr ⟨j, k, haj, hjk, by omega, hj, hv ▸ hk⟩
        · exact .inr ⟨j, k', haj, by omega, hkd', hj, hk'⟩

/-- An access is no `fetch_sub`. -/
theorem Accessed.lt_sub (h : Accessed log u a) (hsub : SubAt log v b) (hab : a ≤ b) : a < b := by
  refine lt_of_le_of_ne hab ?_
  rintro rfl
  obtain ⟨e, ha, hsub⟩ := hsub
  obtain ⟨-, rfl⟩ := Prod.mk.inj (Option.some.inj (h.symm.trans ha))
  exact hsub

/-- What a thread knows of an access. -/
theorem knows_iff (h : Accessed log u a) :
    Knows (Event.atomic u7RefcountOrders) log i a ↔ Accessed log i a ∨ HandedOver log i a := by
  constructor
  · rintro ⟨b, e, hb, rfl | hbefore⟩
    · obtain ⟨rfl, -⟩ := Prod.mk.inj (Option.some.inj (h.symm.trans hb))
      exact .inl h
    · rcases before_cases hbefore h hb with rfl | ⟨j, k, haj, hjk, -, hj, hk⟩
      · exact .inl h
      · exact .inr ⟨u, j, k, h.lt_sub hj haj, hjk, h, hj, hk⟩
  · rintro (hacc | ⟨u', j, k, haj, hjk, hacc, hj, hk⟩)
    · exact ⟨a, .access, hacc, .inl rfl⟩
    · have hsync := hj.synchronizes hk hjk
      obtain ⟨e, hj, -⟩ := hj
      obtain ⟨e', hk, -⟩ := hk
      exact ⟨k, e', hk, .inr (.trans (.program haj hacc hj) (.synchronizes hsync))⟩

/-- What the counter publishes of an access. -/
theorem published_iff (h : Accessed log u a) :
    HappensBefore.Published (Event.atomic u7RefcountOrders) log () a ↔ Published log a := by
  constructor
  · rintro ⟨j, ⟨⟨v, e, access, hj, hatomic, hreleases⟩, -⟩, hbefore⟩
    rcases before_cases hbefore h hj with rfl | ⟨j', k, haj, -, -, hj', -⟩
    · exact ⟨u, j, hbefore.lt, h, e, hj, isSub_of_order hatomic (.inl hreleases)⟩
    · exact ⟨u, j', h.lt_sub hj' haj, h, hj'⟩
  · rintro ⟨u', j, haj, hacc, hj⟩
    have hheads := hj.heads (n := log.length)
    obtain ⟨e, hj, -⟩ := hj
    exact ⟨j, hheads, .program haj hacc hj⟩

/-- What a thread knows when it returns `false` happens before that step. -/
theorem knows_last_iff (h : Accessed log u a) (hlast : log.getLast? = some (i, e))
    (hfalse : e.returned = some false) :
    Knows (Event.atomic o) log i a ↔ Before (Event.atomic o) log a (log.length - 1) := by
  rw [List.getLast?_eq_getElem?] at hlast
  constructor
  · rintro ⟨b, e', hb, hab⟩
    have hlt := (List.getElem?_eq_some_iff.mp hb).1
    rcases (Nat.le_sub_one_of_lt hlt).eq_or_lt with rfl | hlt
    · refine hab.resolve_left ?_
      rintro rfl
      obtain ⟨-, rfl⟩ := Prod.mk.inj (Option.some.inj (h.symm.trans hlast))
      cases hfalse
    · have hnext : Before (Event.atomic o) log b (log.length - 1) := .program hlt hb hlast
      rcases hab with rfl | hbefore
      · exact hnext
      · exact hbefore.trans hnext
  · exact fun hbefore => ⟨log.length - 1, e, hlast, .inr hbefore⟩

/-! ### Orders that are needed -/

/-- If thread `i` gives up its reference and thread `j` returns `false` next, and nothing was
released before, then the one releases and the other acquires. -/
theorem orders_of_handOver {start : List (ι × Event ι)} {give last : Event ι} (hij : i ≠ j)
    (hstart : ∀ p ∈ start, ∀ access, p.2.atomic o = some access → ¬ access.ReleasesAt ())
    (ha : start[a]? = some (i, .access)) (hlast : last.returned = some false)
    (h : DisposalLast o (start ++ [(i, give)] ++ [(j, last)])) :
    (∃ access, give.atomic o = some access ∧ access.ReleasesAt ()) ∧
      ∃ access, last.atomic o = some access ∧ access.AcquiresAt () := by
  by_contra hnot
  have ha' : (start ++ [(i, give)] ++ [(j, last)])[a]? = some (i, .access) :=
    getElem?_append_of_eq_some (getElem?_append_of_eq_some ha)
  have hb := getElem?_length_concat (start ++ [(i, give)]) (j, last)
  have hnone : ∀ a b,
      ¬ Synchronizes (Event.atomic o) (start ++ [(i, give)] ++ [(j, last)]) a b := by
    rintro a b ⟨hab, x, ⟨⟨t, e, access, hhead, he, hreleases⟩, -⟩, t', e', access', hread, he',
      hacquires⟩
    have hb := (List.getElem?_eq_some_iff.mp hread).1
    simp only [List.length_append, List.length_singleton] at hb
    rcases getElem?_concat_cases hhead with hhead | ⟨rfl, -⟩
    · rcases getElem?_concat_cases hhead with hhead | ⟨rfl, hgive⟩
      · exact hstart _ (List.mem_of_getElem? hhead) _ he hreleases
      · obtain ⟨-, rfl⟩ := Prod.mk.inj hgive
        rcases getElem?_concat_cases hread with hread | ⟨-, hlast⟩
        · have := (List.getElem?_eq_some_iff.mp hread).1
          rw [List.length_append, List.length_singleton] at this
          omega
        · obtain ⟨-, rfl⟩ := Prod.mk.inj hlast
          exact hnot ⟨⟨access, he, hreleases⟩, access', he', hacquires⟩
    · simp only [List.length_append, List.length_singleton] at hab
      omega
  obtain ⟨t, e, e', ha'', hb'⟩ := (h _ _ _ _ _ ha' hb hlast).same_thread hnone
  obtain ⟨rfl, -⟩ := Prod.mk.inj (Option.some.inj (ha'.symm.trans ha''))
  obtain ⟨rfl, -⟩ := Prod.mk.inj (Option.some.inj (hb.symm.trans hb'))
  exact hij rfl

/-! ### Orders that suffice -/

/-- Both `fetch_sub`s acquire and release, and the load of the skewed decrement acquires. -/
structure Suffices (o : RefcountOrders) : Prop where
  decrementAcquires : o.decrement.Acquires
  decrementReleases : o.decrement.Releases
  loadAcquires : o.skewedLoad.Acquires
  subAcquires : o.skewedSub.Acquires
  subReleases : o.skewedSub.Releases

/-- A step that returns `false` acquires. -/
theorem Suffices.acquires (ho : Suffices o)
    (h : e.returned = some false) :
    ∃ access, e.atomic o = some access ∧ access.AcquiresAt () := by
  cases e with
  | decrement => exact ⟨_, rfl, rfl, ho.decrementAcquires⟩
  | loadOne => exact ⟨_, rfl, rfl, ho.loadAcquires⟩
  | skewedSub => exact ⟨_, rfl, rfl, ho.subAcquires⟩
  | access | increment | loadMany => cases h

/-- A step that gives up a reference, and not the last one, releases. -/
theorem Suffices.releases (ho : Suffices o)
    (h : e.returned = some true) :
    ∃ access, e.atomic o = some access ∧ access.ReleasesAt () := by
  cases e with
  | decrement => exact ⟨_, rfl, rfl, ho.decrementReleases⟩
  | skewedSub => exact ⟨_, rfl, rfl, ho.subReleases⟩
  | access | increment | loadOne | loadMany => cases h

end Logs

section Threads

variable {ι : Type*} [DecidableEq ι] {o : RefcountOrders} {i : ι} {s s' : Shared ι}
  {l l' : Thread} {e : Event ι}

/-- A thread only loses references in a step that returns from a decrement. -/
theorem Next.refs_le_of_returned (h : Next i s l e s' l') (hnone : e.returned = none) :
    s.refs i ≤ s'.refs i := by
  cases h with
  | @increment _ owner =>
      by_cases ho : i = owner
      · subst ho
        simp
      · exact (Function.update_of_ne ho _ _).ge
  | access | loadMany => exact le_rfl
  | decrement | loadOne | skewedSub => cases hnone

/-- Only a thread with a reference accesses the object. -/
theorem Next.refs_of_access (h : Next i s l .access s' l') : 0 < s'.refs i := by
  cases h with
  | access hpos => exact hpos

variable [Fintype ι] {c : Config ι (Shared ι) Thread} {refs : ι → ℕ}

/-- **The invariant**: the counter counts the references; while any of them is left, an access
is one of a thread that still holds one, or is published; and disposal comes last. -/
structure Covered (o : RefcountOrders) (c : Config ι (Shared ι) Thread) : Prop where
  counted : Counted c
  published : 0 < c.shared.outstanding → ∀ a u, Accessed c.shared.log u a →
    0 < c.shared.refs u ∨ HappensBefore.Published (Event.atomic o) c.shared.log () a
  disposalLast : DisposalLast o c.shared.log

omit [DecidableEq ι] in
theorem covered_start (o : RefcountOrders) (h : 0 < ∑ i, refs i) : Covered o (start refs) where
  counted := counted_start h
  published := fun _ _ _ hacc => by cases hacc
  disposalLast := fun _ _ _ _ _ ha => by cases ha

omit [DecidableEq ι] in
/-- As long as a reference is left no call has returned `false`. -/
theorem Counted.not_returned (h : Counted c) (hpos : 0 < c.shared.outstanding) {b : ℕ} {j : ι}
    (hb : c.shared.log[b]? = some (j, e)) : e.returned ≠ some false := by
  have hlasts := h.lasts
  rw [if_neg hpos.ne', Shared.lasts, List.countP_eq_zero] at hlasts
  simpa using hlasts _ (List.mem_of_getElem? hb)

/-- **The step lemma.** -/
theorem Covered.step (h : Covered o c) (ho : Suffices o)
    (hbound : c.shared.outstanding < 2 ^ 31) (hnext : Next i c.shared (c.loc i) e s' l') :
    Covered o (c.move i s' l') := by
  have hpos := outstanding_pos (hnext.refs_pos (h.counted.pending i))
  obtain ⟨-, hreturned, -⟩ :=
    hnext.outstanding (h.counted.pending i) (h.counted.count hpos) hbound
  have hlog := hnext.views.1
  -- an access whose thread has no reference left is one of this step's thread, or published
  have hgiven : ∀ {a u}, Accessed c.shared.log u a → s'.refs u = 0 →
      u = i ∨ HappensBefore.Published (Event.atomic o) c.shared.log () a := by
    intro a u hacc hzero
    refine (h.published hpos a u hacc).imp_left fun hrefs => ?_
    by_contra hu
    have := hnext.refs_le hu
    omega
  refine ⟨h.counted.step hbound hnext, fun hleft a u hacc => ?_, ?_⟩
  · rw [Config.move_shared] at hleft hacc ⊢
    rw [hlog] at hacc ⊢
    refine Nat.eq_zero_or_pos (s'.refs u) |>.symm.imp_right fun hzero => ?_
    rcases accessed_concat.mp hacc with hold | ⟨-, rfl, rfl⟩
    · rcases hgiven hold hzero with rfl | hpublished
      · have hrefs := hnext.refs_pos (h.counted.pending u)
        have htrue : e.returned = some true := by
          cases hres : e.returned with
          | none => exact absurd (hnext.refs_le_of_returned hres) (by omega)
          | some result =>
              cases result with
              | true => rfl
              | false => exact absurd ((hreturned _ hres).mp rfl) hleft.ne'
        obtain ⟨access, he, hreleases⟩ := ho.releases htrue
        have hknows : Knows (Event.atomic o) c.shared.log u a := ⟨a, .access, hold, .inl rfl⟩
        exact hknows.published he hreleases
      · exact hpublished.concat fun _ he => not_storesAt he ()
    · exact absurd hnext.refs_of_access (by omega)
  · rw [Config.move_shared, hlog]
    intro a b u j e' ha hb hfalse
    rcases getElem?_concat_cases hb with hb | ⟨rfl, hlast⟩
    · exact absurd hfalse (h.counted.not_returned hpos hb)
    · obtain ⟨rfl, rfl⟩ := Prod.mk.inj hlast
      rcases accessed_concat.mp ha with hacc | ⟨-, -, rfl⟩
      · have hzero := outstanding_eq_zero_iff.mp ((hreturned _ hfalse).mp rfl) u
        rcases hgiven hacc hzero with rfl | hpublished
        · have hknows : Knows (Event.atomic o) c.shared.log u a := ⟨a, .access, hacc, .inl rfl⟩
          exact hknows.before_next e
        · obtain ⟨access, he, hacquires⟩ := ho.acquires hfalse
          exact hpublished.before_next he hacquires i
      · cases hfalse

/-- In a run with fewer than `2 ^ 31` references at any time disposal comes last. -/
theorem covered_of_reach (ho : Suffices o) (hpos : 0 < ∑ i, refs i)
    (h : ReachWithin Next (fun c => c.shared.outstanding < 2 ^ 31) (start refs) c) :
    Covered o c :=
  h.invariant (covered_start o hpos) fun _ _ _ _ _ hbound hcovered hnext =>
    hcovered.step ho hbound hnext

end Threads

end Refs

open Refs in
/-- **The sets are happens-before.** In every run the set of a thread holds the accesses to the
object that happen before the thread's latest step or are its own, and the set of the counter
those that happen before a release which later read-modify-writes read from: as the memory
orders of `public/refcount.h` give it on the log, where nothing is said about sets. So a
decrement that returned `false` is ordered in terms of the sets exactly if every access that was
given up happens before it. -/
theorem refcount_happens_before {ι : Type*} [DecidableEq ι] [Fintype ι] (refs : ι → ℕ)
    (c : Config ι (Shared ι) Thread) (h : Reach Next (start refs) c) :
    (∀ i a, a ∈ (c.loc i).seen ↔ (∃ u, Accessed c.shared.log u a) ∧
      Knows (Event.atomic u7RefcountOrders) c.shared.log i a) ∧
    (∀ a, a ∈ c.shared.released ↔ (∃ u, Accessed c.shared.log u a) ∧
      HappensBefore.Published (Event.atomic u7RefcountOrders) c.shared.log () a) ∧
    (Ordered c ↔ ∀ i e, c.shared.log.getLast? = some (i, e) → e.returned = some false →
      ∀ a, GivenUp c.shared.log a →
        Before (Event.atomic u7RefcountOrders) c.shared.log a (c.shared.log.length - 1)) := by
  have hviews := views_of_reach h
  have hseen : ∀ {i a u}, Accessed c.shared.log u a → (a ∈ (c.loc i).seen ↔
      Knows (Event.atomic u7RefcountOrders) c.shared.log i a) := by
    intro i a u hacc
    rw [hviews.seen, knows_iff hacc]
  refine ⟨fun i a => ?_, fun a => ?_, ?_⟩
  · constructor
    · intro ha
      obtain ⟨u, hacc⟩ : ∃ u, Accessed c.shared.log u a := by
        rcases (hviews.seen i a).mp ha with hacc | ⟨u, -, -, -, -, hacc, -⟩
        · exact ⟨i, hacc⟩
        · exact ⟨u, hacc⟩
      exact ⟨⟨u, hacc⟩, (hseen hacc).mp ha⟩
    · rintro ⟨⟨u, hacc⟩, hknows⟩
      exact (hseen hacc).mpr hknows
  · rw [hviews.released]
    constructor
    · rintro ⟨u, j, haj, hacc, hj⟩
      exact ⟨⟨u, hacc⟩, (published_iff hacc).mpr ⟨u, j, haj, hacc, hj⟩⟩
    · rintro ⟨⟨u, hacc⟩, hpublished⟩
      exact (published_iff hacc).mp hpublished
  · refine forall₄_congr fun i e hlast hfalse => forall₂_congr fun a ha => ?_
    obtain ⟨u, j, -, hacc, -⟩ := ha
    rw [hseen hacc]
    exact knows_last_iff hacc hlast hfalse

open Refs in
/-- Thread `0` accesses the object and gives up its reference, and the load of thread `1` reads
`1`: the access does not happen before it. -/
theorem refcount_happens_before_shortcut :
    ∃ c : Config Bool (Shared Bool) Thread, Reach Next (start fun _ => 1) c ∧
      c.shared.log = [(false, .access), (false, .decrement true), (true, .loadOne)] ∧
      ¬ Before (Event.atomic u7RefcountOrders) c.shared.log 0 2 := by
  have h := (ReachWithin.refl : Reach Next (start fun _ : Bool => 1) _)
    |>.move false (.access (by decide)) |>.move false (.decrement (by decide) rfl)
    |>.move true (.loadOne (by decide) rfl)
  refine ⟨_, h, rfl, fun hbefore => ?_⟩
  have hknows := ((refcount_happens_before _ _ h).1 true 0).mpr
    ⟨⟨false, rfl⟩, 2, .loadOne, rfl, .inr hbefore⟩
  exact absurd hknows (by decide)

open Refs in
/-- **Which memory orders let disposal come last.** Every access to the object happens before
every step in which a decrement returned `false`, in all runs of any number of threads with
fewer than `2 ^ 31` references at any time, exactly if both `fetch_sub`s acquire and release and
the load of `u7_refcount_skewed_decrement` acquires; the increment may be relaxed. Of the
orders of the source only that of the load does not do. -/
theorem disposal_ordered_iff_orders (o : RefcountOrders) :
    (∀ (ι : Type) [DecidableEq ι] [Fintype ι] (refs : ι → ℕ) (c : Config ι (Shared ι) Thread),
      0 < ∑ i, refs i →
      ReachWithin Next (fun c => c.shared.outstanding < 2 ^ 31) (start refs) c →
      DisposalLast o c.shared.log) ↔
    (o.decrement.Acquires ∧ o.decrement.Releases ∧ o.skewedLoad.Acquires ∧
      o.skewedSub.Acquires ∧ o.skewedSub.Releases) := by
  constructor
  · intro h
    have hstep {c c' : Config Bool (Shared Bool) Thread} {i : Bool} {e : Event Bool}
        (h : ReachWithin Next (fun c => c.shared.outstanding < 2 ^ 31) (start fun _ => 1) c)
        (hbound : c.shared.outstanding < 2 ^ 31) (hstep : Step Next c i e c') :
        ReachWithin Next (fun c => c.shared.outstanding < 2 ^ 31) (start fun _ => 1) c' :=
      h.tail hbound hstep
    have haccess := hstep (e := .access) .refl (by decide) (.mk (i := false) (.access (by decide)))
    have hdecrement := hstep haccess (by decide)
      (.mk (i := false) (.decrement (by decide) rfl))
    have hload := hstep haccess (by decide) (.mk (i := true) (.loadMany (by decide) (by decide)))
    have hown := hstep haccess (by decide) (.mk (i := false) (.loadMany (by decide) (by decide)))
    have hother := hstep hload (by decide) (.mk (i := false) (.decrement (by decide) rfl))
    have hsub := hstep hown (by decide) (.mk (i := false) (.skewedSub rfl))
    have hpos : 0 < ∑ i : Bool, (fun _ => 1) i := by decide
    -- each of the four runs ends with a hand-over from the one thread to the other
    have hrun (start : List (Bool × Event Bool)) {give last : Event Bool}
        {c : Config Bool (Shared Bool) Thread}
        (hreach : ReachWithin Next (fun c => c.shared.outstanding < 2 ^ 31)
          (Refs.start fun _ => 1) c)
        (hlog : c.shared.log = start ++ [(false, give)] ++ [(true, last)])
        (hstart : ∀ p ∈ start, p.2 = .access ∨ p.2 = .loadMany)
        (ha : start[0]? = some (false, .access)) (hlast : last.returned = some false) :
        (∃ access, give.atomic o = some access ∧ access.ReleasesAt ()) ∧
          ∃ access, last.atomic o = some access ∧ access.AcquiresAt () := by
      refine orders_of_handOver Bool.false_ne_true (fun p hp access he => ?_) ha hlast
        (hlog ▸ h Bool _ _ hpos hreach)
      rcases hstart p hp with heq | heq
      · rw [heq] at he
        cases he
      · rw [heq] at he
        cases he
        exact id
    obtain ⟨⟨_, ⟨⟩, -, hdr⟩, _, ⟨⟩, -, hda⟩ := hrun [(false, .access)]
      (hstep hdecrement (by decide) (.mk (i := true) (.decrement (by decide) rfl)))
      rfl (by decide) rfl rfl
    obtain ⟨-, _, ⟨⟩, -, hla⟩ := hrun [(false, .access)]
      (hstep hdecrement (by decide) (.mk (i := true) (.loadOne (by decide) rfl)))
      rfl (by decide) rfl rfl
    obtain ⟨-, _, ⟨⟩, -, hsa⟩ := hrun [(false, .access), (true, .loadMany)]
      (hstep hother (by decide) (.mk (i := true) (.skewedSub rfl))) rfl (by decide) rfl rfl
    obtain ⟨⟨_, ⟨⟩, -, hsr⟩, -⟩ := hrun [(false, .access), (false, .loadMany)]
      (hstep hsub (by decide) (.mk (i := true) (.decrement (by decide) rfl)))
      rfl (by decide) rfl rfl
    exact ⟨hda, hdr, hla, hsa, hsr⟩
  · rintro ⟨hda, hdr, hla, hsa, hsr⟩ ι _ _ refs c hpos h
    exact (covered_of_reach ⟨hda, hdr, hla, hsa, hsr⟩ hpos h).disposalLast

end U7Init
