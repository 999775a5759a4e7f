import Mathlib.Data.Fintype.EquivFin
import Mathlib.Data.Multiset.Count
import Mathlib.Logic.Relation
import Mathlib.Order.WellFounded
import U7Init.Lib.Interleaving
import U7Init.Refcount

/-!
# Concurrent Release of Shared Chains

This module runs `u7_error_acquire` and `u7_error_release` in any number of threads that
share a finite heap of payloads. Inside `u7_error_release` the load of the counter, the
`fetch_sub`, the read of `cause` and the call of `dispose_fn` are separate atomic steps.
The fields that neither function writes, `cause` and whether there is a `dispose_fn`, are
the shape of the heap, a parameter.

A walk disposes of a payload when it calls its `dispose_fn`. Where that is `NULL` there is
nothing to call, and the walk goes on to the cause all the same, with the reference that the
payload had on it: the payload is disposed of in this sense too. What is counted apart is how
often `dispose_fn` was called.

A reference to a payload is a handle, the `cause` of a payload that was not disposed of,
or what a walk still owes a decrement. The reference of the program itself to its static
fallback payload is a handle that no thread releases. A payload that nothing refers to is
out of reach of all threads, and so are the references it holds.

## Main results

* `Phase.step`: a payload is counted, then claimed by one thread, then disposed of.
* `concurrent_release`: what this says about every interleaving.
-/

open Interleaving

namespace U7Init

namespace Walk

/-- The cause of `q` is `p`. -/
def IsCause {P : Type*} (cause : P → Option P) (q p : P) : Prop :=
  cause q = some p

/-- The part of the heap that does not change: a finite acyclic graph, and which of the
payloads have a `dispose_fn`. -/
structure Shape (P : Type*) where
  cause : P → Option P
  disposes : P → Bool
  acyclic : ∀ p, ¬ Relation.TransGen (IsCause cause) p p

/-- The part of the heap that changes: the counters, how often each payload was disposed of,
and how often its `dispose_fn` was called. -/
structure Shared (P : Type*) where
  count : P → U7Refcount
  disposed : P → ℕ
  called : P → ℕ

/-- Where a thread is in `u7_error_release`. -/
inductive Place (P : Type*)
  | idle
  /-- At the head of the loop. -/
  | loop (payload : Option P)
  /-- Between the load and the `fetch_sub` of the counter. -/
  | sub (payload : P)
  /-- In the body, before `cause` is read. -/
  | body (payload : P)
  /-- In the body, before `dispose_fn` is called if there is one. -/
  | dispose (payload : P) (causePayload : Option P)
  deriving DecidableEq

/-- A thread: where it is and the payload pointers of the handles it owns. -/
structure Thread (P : Type*) where
  place : Place P
  handles : Multiset (Option P)

/-- What a step accesses. -/
inductive Event (P : Type*)
  /-- Nothing of the heap. -/
  | silent
  /-- A field of the payload. -/
  | access (payload : P)
  /-- It disposes of the payload. -/
  | dispose (payload : P)

/-- The payload a step accesses, if any. -/
def Event.payload {P : Type*} : Event P → Option P
  | .silent => none
  | .access p | .dispose p => some p

variable {ι P : Type*} [DecidableEq P]

/-- The atomic steps of a thread. -/
inductive Next (G : Shape P) : Program ι (Shared P) (Thread P) (Event P)
  | acquireNull {i : ι} {s : Shared P} {hs : Multiset (Option P)} :
      none ∈ hs → Next G i s ⟨.idle, hs⟩ .silent s ⟨.idle, none ::ₘ hs⟩
  | acquire {i : ι} {s : Shared P} {hs : Multiset (Option P)} {p : P} :
      some p ∈ hs →
      Next G i s ⟨.idle, hs⟩ (.access p)
        { s with count := Function.update s.count p (u7RefcountIncrement (s.count p)) }
        ⟨.idle, some p ::ₘ hs⟩
  | release {i : ι} {s : Shared P} {hs : Multiset (Option P)} {o : Option P} :
      o ∈ hs → Next G i s ⟨.idle, hs⟩ .silent s ⟨.loop o, hs.erase o⟩
  | loopNull {i : ι} {s : Shared P} {hs : Multiset (Option P)} :
      Next G i s ⟨.loop none, hs⟩ .silent s ⟨.idle, hs⟩
  | loadOne {i : ι} {s : Shared P} {hs : Multiset (Option P)} {p : P} :
      s.count p = 1#32 →
      Next G i s ⟨.loop (some p), hs⟩ (.access p) s ⟨.body p, hs⟩
  | loadMany {i : ι} {s : Shared P} {hs : Multiset (Option P)} {p : P} :
      s.count p ≠ 1#32 →
      Next G i s ⟨.loop (some p), hs⟩ (.access p) s ⟨.sub p, hs⟩
  | subOne {i : ι} {s : Shared P} {hs : Multiset (Option P)} {p : P} :
      (u7RefcountDecrement (s.count p)).2 = false →
      Next G i s ⟨.sub p, hs⟩ (.access p)
        { s with count := Function.update s.count p (u7RefcountDecrement (s.count p)).1 }
        ⟨.body p, hs⟩
  | subMany {i : ι} {s : Shared P} {hs : Multiset (Option P)} {p : P} :
      (u7RefcountDecrement (s.count p)).2 = true →
      Next G i s ⟨.sub p, hs⟩ (.access p)
        { s with count := Function.update s.count p (u7RefcountDecrement (s.count p)).1 }
        ⟨.idle, hs⟩
  | readCause {i : ι} {s : Shared P} {hs : Multiset (Option P)} {p : P} :
      Next G i s ⟨.body p, hs⟩ (.access p) s ⟨.dispose p (G.cause p), hs⟩
  | dispose {i : ι} {s : Shared P} {hs : Multiset (Option P)} {p : P} {o : Option P} :
      G.disposes p = true →
      Next G i s ⟨.dispose p o, hs⟩ (.dispose p)
        { s with
          disposed := Function.update s.disposed p (s.disposed p + 1)
          called := Function.update s.called p (s.called p + 1) } ⟨.loop o, hs⟩
  | noDispose {i : ι} {s : Shared P} {hs : Multiset (Option P)} {p : P} {o : Option P} :
      G.disposes p = false →
      Next G i s ⟨.dispose p o, hs⟩ (.dispose p)
        { s with disposed := Function.update s.disposed p (s.disposed p + 1) } ⟨.loop o, hs⟩

/-! ### References -/

/-- How many references to `p` a pointer is. -/
def points (o : Option P) (p : P) : ℕ :=
  if o = some p then 1 else 0

@[simp] theorem points_none (p : P) : points none p = 0 := rfl

@[simp] theorem points_self (p : P) : points (some p) p = 1 := by
  simp [points]

theorem points_of_ne {p q : P} (h : p ≠ q) : points (some p) q = 0 := by
  simp [points, h]

theorem points_pos_iff {o : Option P} {p : P} : 0 < points o p ↔ o = some p := by
  by_cases h : o = some p <;> simp [points, h]

/-- The decrement a walk still owes. -/
def Place.owes : Place P → Option P
  | .loop o => o
  | .sub p => some p
  | .idle | .body _ | .dispose _ _ => none

/-- The payload a walk is about to dispose of. -/
def Place.claims : Place P → Option P
  | .body p | .dispose p _ => some p
  | .idle | .loop _ | .sub _ => none

/-- The references of a thread to `p`. -/
def Thread.refs (t : Thread P) (p : P) : ℕ :=
  t.handles.count (some p) + points t.place.owes p

/-- Whether a thread is about to dispose of `p`. -/
def Thread.claims (t : Thread P) (p : P) : ℕ :=
  points t.place.claims p

/-- The pointer to the cause that a walk has read is the right one. -/
def Thread.Coherent (G : Shape P) (t : Thread P) : Prop :=
  ∀ p o, t.place = .dispose p o → o = G.cause p

variable [Fintype P]

omit [DecidableEq P] in
/-- Nothing is its own cause, however remote, so induction along the causes is sound. -/
theorem Shape.wellFounded_isCause (G : Shape P) : WellFounded (IsCause G.cause) := by
  have hirrefl : Std.Irrefl (Relation.TransGen (IsCause G.cause)) := ⟨G.acyclic⟩
  have hsub : Subrelation (IsCause G.cause) (Relation.TransGen (IsCause G.cause)) :=
    fun hcause => Relation.TransGen.single hcause
  exact hsub.wf (Finite.wellFounded_of_trans_of_irrefl _)

/-- The number of payloads with cause `p` that were not disposed of. -/
def Shape.links (G : Shape P) (disposed : P → ℕ) (p : P) : ℕ :=
  (Finset.univ.filter fun q => disposed q = 0 ∧ G.cause q = some p).card

/-- Disposing of a payload takes its reference to its cause away. -/
theorem Shape.links_dispose (G : Shape P) {disposed : P → ℕ} {p : P} (hp : disposed p = 0)
    (q : P) :
    G.links (Function.update disposed p (disposed p + 1)) q + points (G.cause p) q =
      G.links disposed q := by
  have herase : (Finset.univ.filter fun r =>
      Function.update disposed p (disposed p + 1) r = 0 ∧ G.cause r = some q) =
      (Finset.univ.filter fun r => disposed r = 0 ∧ G.cause r = some q).erase p := by
    ext r
    simp only [Finset.mem_filter, Finset.mem_univ, true_and, Finset.mem_erase]
    by_cases hr : r = p
    · subst hr
      simp
    · simp [hr]
  rw [links, links, herase]
  by_cases hcause : G.cause p = some q
  · have hmem : p ∈ Finset.univ.filter fun r => disposed r = 0 ∧ G.cause r = some q := by
      simp [hp, hcause]
    have hpos := Finset.card_pos.mpr ⟨p, hmem⟩
    rw [Finset.card_erase_of_mem hmem, points, if_pos hcause]
    omega
  · rw [Finset.erase_eq_of_notMem (by simp [hcause]), points, if_neg hcause, add_zero]

variable [Fintype ι]

/-- The number of references to `p`. -/
def refs (G : Shape P) (c : Config ι (Shared P) (Thread P)) (p : P) : ℕ :=
  c.total (fun t => t.refs p) + G.links c.shared.disposed p

/-- The number of threads about to dispose of `p`. -/
def claimants (c : Config ι (Shared P) (Thread P)) (p : P) : ℕ :=
  c.total fun t => t.claims p

/-- No payload has `2 ^ 32` or more references. -/
def Bounded (G : Shape P) (c : Config ι (Shared P) (Thread P)) : Prop :=
  ∀ p, refs G c p < 2 ^ 32

instance (G : Shape P) (c : Config ι (Shared P) (Thread P)) : Decidable (Bounded G c) :=
  inferInstanceAs (Decidable (∀ _, _))

/-- Threads that own handles, and a heap whose counters count the references. Nothing was
disposed of. -/
structure Initial (G : Shape P) (c : Config ι (Shared P) (Thread P)) : Prop where
  idle : ∀ i, (c.loc i).place = .idle
  count : ∀ p, c.shared.count p = BitVec.ofNat 32 (refs G c p)
  disposed : ∀ p, c.shared.disposed p = 0
  called : ∀ p, c.shared.called p = 0

/-! ### The life of a payload -/

/-- The life of a payload in four numbers: how often it was disposed of, how many threads
are about to do so, how many references there are, and its counter. It is counted while
there are references, then claimed by the thread that gave up the last one, then disposed
of. -/
inductive Life : ℕ → ℕ → ℕ → U7Refcount → Prop
  | counted {r : ℕ} : 0 < r → Life 0 0 r (BitVec.ofNat 32 r)
  | claimed {count : U7Refcount} : Life 0 1 0 count
  | disposed {count : U7Refcount} : Life 1 0 0 count

/-- A payload that is `used`, as something referred to it at the start, lives its life. To one
that nothing refers to nothing happens. -/
inductive Standing (used : Prop) : ℕ → ℕ → ℕ → U7Refcount → Prop
  | used {d k r : ℕ} {count : U7Refcount} : used → Life d k r count → Standing used d k r count
  | unused {count : U7Refcount} : ¬ used → Standing used 0 0 0 count

/-- The phase of its life that a payload is in. -/
def Phase (G : Shape P) (used : P → Prop) (c : Config ι (Shared P) (Thread P)) (p : P) : Prop :=
  Standing (used p) (c.shared.disposed p) (claimants c p) (refs G c p) (c.shared.count p)

/-- What a step does to the thread's references and claims and to the heap. -/
inductive Effect (G : Shape P) (s : Shared P) (l : Thread P) :
    Shared P → Thread P → Prop
  | quiet {l' : Thread P} :
      (∀ q, l'.refs q = l.refs q) → (∀ q, l'.claims q = l.claims q) → Effect G s l s l'
  | acquire {l' : Thread P} (p : P) :
      0 < l.refs p → (∀ q, l'.refs q = l.refs q + points (some p) q) →
      (∀ q, l'.claims q = l.claims q) →
      Effect G s l
        { s with count := Function.update s.count p (u7RefcountIncrement (s.count p)) } l'
  | decrement {l' : Thread P} (p : P) :
      s.count p ≠ 1#32 → (∀ q, l'.refs q + points (some p) q = l.refs q) →
      (∀ q, l'.claims q = l.claims q) →
      Effect G s l { s with count := Function.update s.count p (s.count p - 1#32) } l'
  | claim {count : P → U7Refcount} {l' : Thread P} (p : P) :
      s.count p = 1#32 → (∀ q, q ≠ p → count q = s.count q) →
      (∀ q, l'.refs q + points (some p) q = l.refs q) →
      (∀ q, l'.claims q = l.claims q + points (some p) q) →
      Effect G s l { s with count := count } l'
  | dispose {called : P → ℕ} {l' : Thread P} (p : P) :
      (∀ q, l'.refs q = l.refs q + points (G.cause p) q) →
      (∀ q, l'.claims q + points (some p) q = l.claims q) →
      Effect G s l
        { s with
          disposed := Function.update s.disposed p (s.disposed p + 1)
          called := called } l'

omit [Fintype P] [Fintype ι] in
/-- Every step has one of these effects. -/
theorem Next.effect {G : Shape P} {i : ι} {s s' : Shared P} {l l' : Thread P}
    {e : Event P} (h : Next G i s l e s' l') (hcoherent : l.Coherent G) :
    Effect G s l s' l' := by
  cases h with
  | acquireNull hmem =>
      refine .quiet (fun q => ?_) fun q => rfl
      simp [Thread.refs]
  | acquire hmem =>
      rename_i hs p
      have hpos : 0 < hs.count (some p) := Multiset.count_pos.mpr hmem
      refine .acquire p (Nat.lt_of_lt_of_le hpos (Nat.le_add_right _ _)) (fun q => ?_)
        fun q => rfl
      by_cases hq : p = q
      · subst hq
        simp [Thread.refs, Place.owes]
      · have hne : some q ≠ some p := fun h => hq (Option.some.inj h).symm
        simp [Thread.refs, Place.owes, points_of_ne hq, Multiset.count_cons_of_ne hne]
  | release hmem =>
      rename_i hs o
      refine .quiet (fun q => ?_) fun q => rfl
      have hsplit := congrArg (Multiset.count (some q)) (Multiset.cons_erase hmem)
      rw [Multiset.count_cons] at hsplit
      simp only [Thread.refs, Place.owes, points, eq_comm (a := o)] at hsplit ⊢
      simp only [← hsplit, reduceCtorEq, if_false, add_zero]
  | loopNull => exact .quiet (fun q => rfl) fun q => rfl
  | loadOne hone =>
      rename_i hs p
      refine .claim p hone (fun q _ => rfl) (fun q => rfl) fun q => ?_
      simp [Thread.claims, Place.claims]
  | loadMany hmany => exact .quiet (fun q => rfl) fun q => rfl
  | subOne hone =>
      rename_i hs p
      have hcount : s.count p = 1#32 := by
        simpa [u7RefcountDecrement] using hone
      refine .claim p hcount (fun q hq => ?_) (fun q => rfl) fun q => ?_
      · simp [hq]
      · simp [Thread.claims, Place.claims]
  | subMany hmany =>
      rename_i hs p
      have hcount : s.count p ≠ 1#32 := by
        simpa [u7RefcountDecrement] using hmany
      exact .decrement p hcount (fun q => rfl) fun q => rfl
  | readCause => exact .quiet (fun q => rfl) fun q => rfl
  | dispose hdisposes | noDispose hdisposes =>
      rename_i hs p o
      obtain rfl := hcoherent p o rfl
      refine .dispose p (fun q => ?_) fun q => ?_
      · simp [Thread.refs, Place.owes]
      · simp [Thread.claims, Place.claims]

/-! ### One step -/

section Life

variable {d k r : ℕ} {count : U7Refcount}

/-- A payload that someone refers to is still counted. -/
theorem Life.of_refs_pos (h : Life d k r count) (hpos : 0 < r) :
    d = 0 ∧ k = 0 ∧ count = BitVec.ofNat 32 r := by
  cases h with
  | counted => exact ⟨rfl, rfl, rfl⟩
  | claimed => exact absurd hpos (lt_irrefl 0)
  | disposed => exact absurd hpos (lt_irrefl 0)

/-- A payload that some thread is about to dispose of has no references left, and no other
thread is about to. -/
theorem Life.of_claimants_pos (h : Life d k r count) (hpos : 0 < k) :
    d = 0 ∧ k = 1 ∧ r = 0 := by
  cases h with
  | counted => exact absurd hpos (lt_irrefl 0)
  | claimed => exact ⟨rfl, rfl, rfl⟩
  | disposed => exact absurd hpos (lt_irrefl 0)

theorem Life.disposed_le_one (h : Life d k r count) : d ≤ 1 := by
  cases h <;> omega

/-- `u7_refcount_increment` of a payload that someone refers to. -/
theorem Life.increment (h : Life d k r count) (hpos : 0 < r) :
    Life d k (r + 1) (u7RefcountIncrement count) := by
  obtain ⟨rfl, rfl, rfl⟩ := h.of_refs_pos hpos
  rw [u7RefcountIncrement_ofNat]
  exact .counted (Nat.succ_pos r)

/-- A decrement of a counter that does not read `1`. -/
theorem Life.decrement (h : Life d k (r + 1) count) (hr : r + 1 < 2 ^ 32)
    (hmany : count ≠ 1#32) : Life d k r (count - 1#32) := by
  obtain ⟨rfl, rfl, rfl⟩ := h.of_refs_pos (Nat.succ_pos r)
  rw [ne_eq, ofNat_eq_one_iff hr.le] at hmany
  rw [ofNat_succ_sub_one]
  exact .counted (by omega)

/-- The reference behind a counter that reads `1` is the last one. -/
theorem Life.claim (h : Life d k (r + 1) count) (hr : r + 1 < 2 ^ 32)
    (hone : count = 1#32) (count' : U7Refcount) : Life d (k + 1) r count' := by
  obtain ⟨rfl, rfl, rfl⟩ := h.of_refs_pos (Nat.succ_pos r)
  obtain rfl : r = 0 := by
    rw [ofNat_eq_one_iff hr.le] at hone
    omega
  exact .claimed

/-- A claimed payload is disposed of once. -/
theorem Life.dispose (h : Life d (k + 1) r count) : Life (d + 1) k r count := by
  obtain ⟨rfl, hk, rfl⟩ := h.of_claimants_pos (Nat.succ_pos k)
  obtain rfl : k = 0 := by omega
  exact .disposed

variable {used : Prop}

/-- What someone refers to is used, and still counted. -/
theorem Standing.of_refs_pos (h : Standing used d k r count) (hpos : 0 < r) :
    used ∧ Life d k r count := by
  cases h with
  | used hused hlife => exact ⟨hused, hlife⟩
  | unused => exact absurd hpos (lt_irrefl 0)

/-- What a thread is about to dispose of was used. -/
theorem Standing.of_claimants_pos (h : Standing used d k r count) (hpos : 0 < k) :
    used ∧ Life d k r count := by
  cases h with
  | used hused hlife => exact ⟨hused, hlife⟩
  | unused => exact absurd hpos (lt_irrefl 0)

theorem Standing.disposed_le_one (h : Standing used d k r count) : d ≤ 1 := by
  cases h with
  | used _ hlife => exact hlife.disposed_le_one
  | unused => exact zero_le_one

end Life

section Steps

variable {G : Shape P} {used : P → Prop} {c : Config ι (Shared P) (Thread P)} {i : ι}

theorem le_refs (G : Shape P) (c : Config ι (Shared P) (Thread P)) (i : ι) (p : P) :
    (c.loc i).refs p ≤ refs G c p := by
  have := c.le_total (fun t => t.refs p) i
  rw [refs]
  omega

omit [Fintype P] in
theorem le_claimants (c : Config ι (Shared P) (Thread P)) (i : ι) (p : P) :
    (c.loc i).claims p ≤ claimants c p :=
  c.le_total (fun t => t.claims p) i

variable [DecidableEq ι]

/-- How the references to `q` change when one thread moves. -/
theorem refs_move (s' : Shared P) (l' : Thread P) (q : P) :
    refs G (c.move i s' l') q + (c.loc i).refs q + G.links c.shared.disposed q =
      refs G c q + l'.refs q + G.links s'.disposed q := by
  have := c.total_move (fun t => t.refs q) i s' l'
  simp only [refs, Config.move_shared]
  omega

omit [Fintype P] in
/-- How the claims on `q` change when one thread moves. -/
theorem claimants_move (s' : Shared P) (l' : Thread P) (q : P) :
    claimants (c.move i s' l') q + (c.loc i).claims q = claimants c q + l'.claims q :=
  c.total_move (fun t => t.claims q) i s' l'

/-- **The step lemma.** Every step takes every payload to the same or to the next phase of
its life. -/
theorem Phase.step (h : ∀ q, Phase G used c q) (hbound : Bounded G c) {s' : Shared P}
    {l' : Thread P} (heffect : Effect G c.shared (c.loc i) s' l') (q : P) :
    Phase G used (c.move i s' l') q := by
  have hrefs := refs_move (G := G) (c := c) (i := i) s' l' q
  have hclaims := claimants_move (c := c) (i := i) s' l' q
  have hlife := h q
  have hq2 := hbound q
  rw [Phase] at hlife ⊢
  rw [Config.move_shared]
  generalize refs G (c.move i s' l') q = r' at *
  generalize claimants (c.move i s' l') q = k' at *
  cases heffect with
  | quiet hr hk =>
      obtain rfl : r' = refs G c q := by
        have := hr q
        omega
      obtain rfl : k' = claimants c q := by
        have := hk q
        omega
      exact hlife
  | acquire p hpos hr hk =>
      obtain rfl : k' = claimants c q := by
        have := hk q
        omega
      have hr := hr q
      dsimp only at hrefs ⊢
      by_cases hq : p = q
      · subst hq
        rw [points_self] at hr
        obtain rfl : r' = refs G c p + 1 := by omega
        rw [Function.update_self]
        have := le_refs G c i p
        obtain ⟨hused, hlife⟩ := hlife.of_refs_pos (by omega)
        exact .used hused (hlife.increment (by omega))
      · rw [points_of_ne hq] at hr
        obtain rfl : r' = refs G c q := by omega
        rwa [Function.update_of_ne (Ne.symm hq)]
  | decrement p hmany hr hk =>
      obtain rfl : k' = claimants c q := by
        have := hk q
        omega
      have hr := hr q
      dsimp only at hrefs ⊢
      by_cases hq : p = q
      · subst hq
        rw [points_self] at hr
        have hr' : refs G c p = r' + 1 := by omega
        rw [hr'] at hlife hq2
        rw [Function.update_self]
        obtain ⟨hused, hlife⟩ := hlife.of_refs_pos (Nat.succ_pos r')
        exact .used hused (hlife.decrement hq2 hmany)
      · rw [points_of_ne hq] at hr
        obtain rfl : r' = refs G c q := by omega
        rwa [Function.update_of_ne (Ne.symm hq)]
  | claim p hone hother hr hk =>
      have hr := hr q
      have hk := hk q
      dsimp only at hrefs ⊢
      by_cases hq : p = q
      · subst hq
        rw [points_self] at hr hk
        have hr' : refs G c p = r' + 1 := by omega
        obtain rfl : k' = claimants c p + 1 := by omega
        rw [hr'] at hlife hq2
        obtain ⟨hused, hlife⟩ := hlife.of_refs_pos (Nat.succ_pos r')
        exact .used hused (hlife.claim hq2 hone _)
      · rw [points_of_ne hq] at hr hk
        obtain rfl : r' = refs G c q := by omega
        obtain rfl : k' = claimants c q := by omega
        rwa [hother q (Ne.symm hq)]
  | dispose p hr hk =>
      -- the thread takes over the reference that the payload had on its cause
      have hpos : 0 < claimants c p := by
        have := hk p
        have := le_claimants c i p
        rw [points_self] at *
        omega
      have hlinks := G.links_dispose (((h p).of_claimants_pos hpos).2.of_claimants_pos hpos).1 q
      have hr := hr q
      have hk := hk q
      dsimp only at hrefs ⊢
      obtain rfl : r' = refs G c q := by omega
      by_cases hq : p = q
      · subst hq
        rw [points_self] at hk
        have hk' : claimants c p = k' + 1 := by omega
        rw [hk'] at hlife
        rw [Function.update_self]
        obtain ⟨hused, hlife⟩ := hlife.of_claimants_pos (Nat.succ_pos k')
        exact .used hused hlife.dispose
      · rw [points_of_ne hq] at hk
        obtain rfl : k' = claimants c q := by omega
        rwa [Function.update_of_ne (Ne.symm hq)]

/-- The invariant of a run. -/
structure Sound (G : Shape P) (used : P → Prop) (c : Config ι (Shared P) (Thread P)) : Prop where
  phase : ∀ p, Phase G used c p
  coherent : ∀ i, (c.loc i).Coherent G
  called : ∀ p, c.shared.called p = if G.disposes p then c.shared.disposed p else 0

omit [Fintype P] [Fintype ι] [DecidableEq ι] in
/-- A step accesses a payload only through a reference or a claim of its thread. -/
theorem Next.payload_held {s s' : Shared P} {l l' : Thread P} {e : Event P} {p : P}
    (h : Next G i s l e s' l') (he : e.payload = some p) : 0 < l.refs p ∨ 0 < l.claims p := by
  cases h with
  | acquireNull | release | loopNull => cases he
  | acquire hmem =>
      obtain rfl := Option.some.inj he
      have hpos := Multiset.count_pos.mpr hmem
      exact .inl (Nat.lt_of_lt_of_le hpos (Nat.le_add_right _ _))
  | loadOne | loadMany | subOne | subMany =>
      obtain rfl := Option.some.inj he
      exact .inl (by simp [Thread.refs, Place.owes])
  | readCause | dispose | noDispose =>
      obtain rfl := Option.some.inj he
      exact .inr (by simp [Thread.claims, Place.claims])

omit [Fintype P] [Fintype ι] [DecidableEq ι] in
/-- A step disposes of a payload only if its thread has claimed it. -/
theorem Next.dispose_claims {s s' : Shared P} {l l' : Thread P} {p : P}
    (h : Next G i s l (.dispose p) s' l') : 0 < l.claims p := by
  cases h with
  | dispose | noDispose => simp [Thread.claims, Place.claims]

omit [Fintype P] [Fintype ι] [DecidableEq ι] in
/-- `dispose_fn` is called once for each disposal of a payload that has one. -/
theorem Next.called {s s' : Shared P} {l l' : Thread P} {e : Event P}
    (h : Next G i s l e s' l')
    (hcalled : ∀ p, s.called p = if G.disposes p then s.disposed p else 0) (q : P) :
    s'.called q = if G.disposes q then s'.disposed q else 0 := by
  cases h with
  | dispose hdisposes | noDispose hdisposes =>
      rename_i hs p o
      by_cases hq : q = p
      · subst hq
        simp [hcalled, hdisposes]
      · simp [Function.update_of_ne hq, hcalled]
  | _ => exact hcalled q

omit [Fintype P] [Fintype ι] [DecidableEq ι] in
/-- What a walk has read as the cause stays what it is. -/
theorem Next.coherent {s s' : Shared P} {l l' : Thread P} {e : Event P}
    (h : Next G i s l e s' l') : l'.Coherent G := by
  intro p o hplace
  cases h with
  | readCause =>
      obtain ⟨rfl, rfl⟩ := Place.dispose.inj hplace
      rfl
  | _ => cases hplace

theorem Sound.step (h : Sound G used c) (hbound : Bounded G c) {s' : Shared P} {l' : Thread P}
    {e : Event P} (hnext : Next G i c.shared (c.loc i) e s' l') :
    Sound G used (c.move i s' l') where
  phase := Phase.step h.phase hbound (hnext.effect (h.coherent i))
  coherent := fun j =>
    Config.forall_move (Q := fun _ t => Thread.Coherent G t) h.coherent hnext.coherent j
  called := hnext.called h.called

omit [DecidableEq ι] in
theorem Initial.sound (h : Initial G c) : Sound G (fun p => 0 < refs G c p) c where
  phase := by
    intro p
    have hclaimants : claimants c p = 0 :=
      Config.total_eq_zero fun i => by rw [Thread.claims, h.idle i]; rfl
    rw [Phase, h.disposed, hclaimants, h.count]
    rcases Nat.eq_zero_or_pos (refs G c p) with hzero | hpos
    · rw [hzero]
      exact .unused (lt_irrefl 0)
    · exact .used hpos (.counted hpos)
  coherent := by
    intro i p o hplace
    rw [h.idle i] at hplace
    cases hplace
  called := by
    intro p
    rw [h.called, h.disposed, ite_self]

omit [DecidableEq ι] in
/-- When no walk is under way a payload was disposed of, unless it, or one that it is a cause
of, is still owned or was not used. -/
theorem Sound.disposed_of_idle (h : Sound G used c) (hidle : ∀ i, (c.loc i).place = .idle) (p : P)
    (hgone : ∀ q, Relation.ReflTransGen (IsCause G.cause) q p →
      used q ∧ ∀ i, some q ∉ (c.loc i).handles) :
    c.shared.disposed p = 1 := by
  have hclaimants : ∀ q, claimants c q = 0 := fun q =>
    Config.total_eq_zero fun i => by rw [Thread.claims, hidle i]; rfl
  -- along the causes: a payload that was not disposed of has one above it that was not
  induction p using G.wellFounded_isCause.induction with
  | h p ih =>
      have hphase := h.phase p
      rw [Phase, hclaimants] at hphase
      generalize hd : c.shared.disposed p = d at hphase ⊢
      generalize hr : refs G c p = r at hphase
      generalize c.shared.count p = count at hphase
      obtain ⟨hused, hhandles⟩ := hgone p .refl
      have hthreads : c.total (fun t => t.refs p) = 0 :=
        Config.total_eq_zero fun i => by
          rw [Thread.refs, hidle i, Multiset.count_eq_zero_of_notMem (hhandles i)]
          rfl
      cases hphase with
      | unused hunused => exact absurd hused hunused
      | used _ hlife =>
          cases hlife with
          | disposed => rfl
          | counted hpos =>
              rw [refs, hthreads] at hr
              have hlinks : 0 < G.links c.shared.disposed p := by omega
              obtain ⟨q, hq⟩ := Finset.card_pos.mp hlinks
              obtain ⟨-, hq0, hcause⟩ := Finset.mem_filter.mp hq
              have := ih q hcause fun r hr => hgone r (hr.tail hcause)
              omega

end Steps

end Walk

open Walk in
/-- **Concurrent release of shared chains.** In every interleaving of acquisitions and
releases from an initial configuration, with fewer than `2 ^ 32` references to each
payload at all times:

* no payload is disposed of twice, and its `dispose_fn` is called when it is, if it has one;
* no step accesses a payload that was disposed of;
* a payload is disposed of only when no handle and no undisposed payload refers to it, no
  walk owes its decrement and no other walk is about to dispose of it;
* when every thread has finished and every handle was released, each payload has been
  disposed of exactly once; and as long as some handles are kept, so has each that is not
  owned and not a cause of what is. Payloads that nothing referred to in the first place, and
  the causes behind them, are beyond reach and do not count here. -/
theorem concurrent_release {ι P : Type*} [DecidableEq ι] [Fintype ι] [DecidableEq P]
    [Fintype P] (G : Shape P) (c₀ c : Config ι (Shared P) (Thread P)) (h₀ : Initial G c₀)
    (h : ReachWithin (Next G) (Bounded G) c₀ c) :
    (∀ p, c.shared.disposed p ≤ 1 ∧
      c.shared.called p = if G.disposes p then c.shared.disposed p else 0) ∧
    (∀ i e s' l', Next G i c.shared (c.loc i) e s' l' →
      ∀ p, e.payload = some p → c.shared.disposed p = 0) ∧
    (∀ i p s' l', Next G i c.shared (c.loc i) (.dispose p) s' l' →
      (∀ j, some p ∉ (c.loc j).handles) ∧
      (∀ q, c.shared.disposed q = 0 → G.cause q ≠ some p) ∧
      (∀ j, (c.loc j).place.owes ≠ some p) ∧
      ∀ j, (c.loc j).place.claims = some p → j = i) ∧
    ((∀ i, (c.loc i).place = .idle) → ∀ p, (∀ q, Relation.ReflTransGen (IsCause G.cause) q p →
      0 < refs G c₀ q ∧ ∀ i, some q ∉ (c.loc i).handles) → c.shared.disposed p = 1) := by
  have hsound : Sound G (fun p => 0 < refs G c₀ p) c := h.invariant h₀.sound
    fun _ _ _ _ _ hbound hsound hnext => hsound.step hbound hnext
  refine ⟨fun p => ⟨(hsound.phase p).disposed_le_one, hsound.called p⟩, ?_, ?_, ?_⟩
  · intro i e s' l' hnext p he
    rcases hnext.payload_held he with hrefs | hclaims
    · have hpos := hrefs.trans_le (le_refs G c i p)
      exact (((hsound.phase p).of_refs_pos hpos).2.of_refs_pos hpos).1
    · have hpos := hclaims.trans_le (le_claimants c i p)
      exact (((hsound.phase p).of_claimants_pos hpos).2.of_claimants_pos hpos).1
  · intro i p s' l' hnext
    have hclaims := hnext.dispose_claims
    have hpos := hclaims.trans_le (le_claimants c i p)
    obtain ⟨-, hone, hzero⟩ := ((hsound.phase p).of_claimants_pos hpos).2.of_claimants_pos hpos
    have hthread : ∀ j, (c.loc j).refs p = 0 := fun j => by
      have := le_refs G c j p
      omega
    refine ⟨fun j hmem => ?_, fun q hq hcause => ?_, fun j howes => ?_, fun j hplace => ?_⟩
    · have hpos := Multiset.count_pos.mpr hmem
      have := hthread j
      rw [Thread.refs] at this
      omega
    · have hpos : 0 < G.links c.shared.disposed p :=
        Finset.card_pos.mpr ⟨q, Finset.mem_filter.mpr ⟨Finset.mem_univ q, hq, hcause⟩⟩
      rw [refs] at hzero
      omega
    · have := hthread j
      rw [Thread.refs, howes, points_self] at this
      omega
    · have hj : 0 < (c.loc j).claims p := points_pos_iff.mpr hplace
      exact Config.eq_of_total_le_one (f := fun t => Thread.claims t p) hone.le hj hclaims
  · exact hsound.disposed_of_idle

/-- Two payloads with one cause, which is `none`. The second one has no `dispose_fn`. -/
def Walk.sharedCause : Walk.Shape (Option Bool) where
  cause := fun p => p.map fun _ => none
  disposes := fun p => p != some true
  acyclic := by
    have hends : ∀ q p : Option Bool, Relation.TransGen
        (Walk.IsCause fun p : Option Bool => p.map fun _ => none) q p → q ≠ none ∧ p = none := by
      intro q p h
      induction h with
      | single h => cases q <;> cases h; exact ⟨Option.some_ne_none _, rfl⟩
      | @tail p r _ h ih => cases p <;> cases h; exact ⟨ih.1, rfl⟩
    exact fun p h => (hends p p h).1 (hends p p h).2

open Walk in
/-- Two threads release errors with one cause. Both come to the cause and read its counter as
`2`, both go on to the `fetch_sub`, and the later one disposes of it. -/
theorem concurrent_release_shared_cause :
    ∃ c : Config Bool (Shared (Option Bool)) (Thread (Option Bool)),
      (∀ i, (c.loc i).place = .idle) ∧ ∀ p, c.shared.disposed p = 1 ∧
        c.shared.called p = if p = some true then 0 else 1 := by
  let c₀ : Config Bool (Shared (Option Bool)) (Thread (Option Bool)) :=
    ⟨⟨fun p => if p = none then 2#32 else 1#32, fun _ => 0, fun _ => 0⟩,
      fun i => ⟨.idle, {some (some i)}⟩⟩
  have h₀ : Initial sharedCause c₀ := ⟨fun _ => rfl, by decide, fun _ => rfl, fun _ => rfl⟩
  have h := (ReachWithin.refl : ReachWithin (Next sharedCause) (Bounded sharedCause) c₀ c₀)
    |>.tail (by decide) (.mk (i := false) (.release (o := some (some false)) (by decide)))
    |>.tail (by decide) (.mk (i := true) (.release (o := some (some true)) (by decide)))
    |>.tail (by decide) (.mk (i := false) (.loadOne rfl))
    |>.tail (by decide) (.mk (i := true) (.loadOne rfl))
    |>.tail (by decide) (.mk (i := false) .readCause)
    |>.tail (by decide) (.mk (i := true) .readCause)
    |>.tail (by decide) (.mk (i := false) (.dispose rfl))
    |>.tail (by decide) (.mk (i := true) (.noDispose rfl))
    |>.tail (by decide) (.mk (i := false) (.loadMany (by decide)))
    |>.tail (by decide) (.mk (i := true) (.loadMany (by decide)))
    |>.tail (by decide) (.mk (i := false) (.subMany (by decide)))
    |>.tail (by decide) (.mk (i := true) (.subOne (by decide)))
    |>.tail (by decide) (.mk (i := true) .readCause)
    |>.tail (by decide) (.mk (i := true) (.dispose rfl))
    |>.tail (by decide) (.mk (i := true) .loopNull)
  obtain ⟨c, h, hthreads⟩ : ∃ c, ReachWithin (Next sharedCause) (Bounded sharedCause) c₀ c ∧
      ∀ i, (c.loc i).place = .idle ∧ (c.loc i).handles = 0 := ⟨_, h, by decide⟩
  obtain ⟨hcalled, -, -, hdone⟩ := concurrent_release sharedCause c₀ c h₀ h
  have hreferenced : ∀ q, 0 < refs sharedCause c₀ q := by decide
  have hnone : ∀ i q, some q ∉ (c.loc i).handles := fun i q => by
    rw [(hthreads i).2]
    exact Multiset.notMem_zero _
  have hdisposed := fun p => hdone (fun i => (hthreads i).1) p
    fun q _ => ⟨hreferenced q, fun i => hnone i q⟩
  have hshape : ∀ p, (if sharedCause.disposes p then 1 else 0) =
      if p = some true then 0 else 1 := by
    decide
  refine ⟨c, fun i => (hthreads i).1, fun p => ⟨hdisposed p, ?_⟩⟩
  rw [(hcalled p).2, hdisposed p, hshape]

end U7Init
