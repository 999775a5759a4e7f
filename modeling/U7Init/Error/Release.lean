import U7Init.Error.Create
import U7Init.Lib.IntrusiveList

/-!
# The Walk along the Causes

This module looks at one call of `u7_error_release` on a heap of payloads linked by their
causes, whatever their counters are: which payloads the loop disposes of and where it
stops. The links that the loop follows are those of the heap before the call, although it
frees the payloads behind it.

## Main results

* `releaseLoop_dropped`: the loop drops the longest prefix of the chain whose counters are
  `1`, and lowers the next counter.
* `releaseLoop_shrinks`: whatever the heap looks like, the loop changes counters, frees
  payloads and buffers, and never frees the fallback payload.
* `SameHeap.releaseLoop`: the loop depends on the payloads and the buffers only.
* `error_release_chain`: `u7_error_release` on any finite acyclic heap.
-/

namespace U7Init

open Outcome IntrusiveList

/-- The link from a payload to its cause. -/
def Mem.causePayload (m : Mem) (p : ℕ) : Option ℕ :=
  (m.payloads.cell p).bind fun x => x.cause.payload

/-- The counter of the payload is `1`. -/
def Mem.isOne (m : Mem) (p : ℕ) : Bool :=
  (m.payloads.cell p).any fun x => x.refcount == 1#32

/-- The payload has a `dispose_fn`. -/
def Mem.disposes (m : Mem) (p : ℕ) : Bool :=
  (m.payloads.cell p).any fun x => x.disposeFn.isSome

/-- The payloads and their causes are an acyclic graph without dangling pointers. -/
structure Mem.Acyclic (m : Mem) : Prop where
  live : ∀ p q, m.causePayload p = some q → ∃ x, m.payloads.cell q = some x
  acyclic : ∀ p, ¬ Relation.TransGen (fun q p => m.causePayload p = some q) p p

/-- What a `dispose_fn` frees was allocated, and nothing else frees it. -/
structure Mem.Disposable (m : Mem) : Prop where
  onHeap : ∀ p x, m.payloads.cell p = some x → x.disposeFn ≠ none →
    p ≠ fallback ∧ ∃ b bytes, x.message = .block b ∧ m.buffers.cell b = some bytes
  message : ∀ p q x y, m.payloads.cell p = some x → m.payloads.cell q = some y →
    x.disposeFn ≠ none → y.disposeFn ≠ none → x.message = y.message → p = q

/-- `m'` is `m` after the payloads of `dropped` have lost their last reference, in order,
and the counter of `stop`, if any, was lowered. -/
structure Dropped (m m' : Mem) (dropped : List ℕ) (stop : Option ℕ) : Prop where
  disposed : m'.disposed = m.disposed ++ dropped.filter m.disposes
  gone : ∀ p ∈ dropped, m.disposes p = true → m'.payloads.cell p = none
  lowered : ∀ p, stop = some p → m'.payloads.cell p =
    (m.payloads.cell p).map fun x => { x with refcount := x.refcount - 1#32 }
  payload : ∀ p, (p ∈ dropped → m.disposes p = false) → stop ≠ some p →
    m'.payloads.cell p = m.payloads.cell p
  freed : ∀ p ∈ dropped, ∀ x b, m.payloads.cell p = some x → x.disposeFn ≠ none →
    x.message = .block b → m'.buffers.cell b = none
  buffer : ∀ b, (∀ p ∈ dropped, ∀ x, m.payloads.cell p = some x → x.disposeFn ≠ none →
    x.message ≠ .block b) → m'.buffers.cell b = m.buffers.cell b

section Chain

variable {m m' : Mem} {p b : ℕ} {x : U7ErrorPayload} {ps dropped : List ℕ}
  {o stop : Option ℕ}

/-- A write that does not change a counter changes nothing. -/
theorem setRefcount_refcount (hx : m.payloads.cell p = some x) :
    m.setRefcount p x.refcount = m := by
  have hmodify : m.payloads.modify p (fun y => { y with refcount := x.refcount }) =
      m.payloads := by
    ext q : 2
    · by_cases hq : q = p
      · subst hq
        rw [BlockHeap.cell_modify_self, hx]
        rfl
      · exact BlockHeap.cell_modify_of_ne hq
    · rfl
  rw [Mem.setRefcount, hmodify]

theorem cell_dispose_of_ne {q : ℕ} (hq : q ≠ p) :
    (m.dispose p b).payloads.cell q = m.payloads.cell q :=
  BlockHeap.cell_free_of_ne hq

/-- The walk that is at its end. -/
theorem Dropped.nil (m : Mem) : Dropped m m [] none where
  disposed := (List.append_nil _).symm
  gone := fun _ hp => absurd hp List.not_mem_nil
  lowered := nofun
  payload := fun _ _ _ => rfl
  freed := fun _ hp => absurd hp List.not_mem_nil
  buffer := fun _ _ => rfl

/-- The walk that stops at a shared payload. -/
theorem Dropped.lower (hx : m.payloads.cell p = some x) :
    Dropped m (m.setRefcount p (x.refcount - 1#32)) [] (some p) where
  disposed := (List.append_nil _).symm
  gone := fun _ hq => absurd hq List.not_mem_nil
  lowered := by
    rintro q hq
    obtain rfl := Option.some.inj hq
    rw [cell_setRefcount_self hx, hx]
    rfl
  payload := fun q _ hq => cell_setRefcount_of_ne fun hqp => hq (congrArg some hqp.symm)
  freed := fun _ hq => absurd hq List.not_mem_nil
  buffer := fun _ _ => rfl

/-- Before the rest of the walk a payload without a `dispose_fn` was passed. -/
theorem Dropped.pass (h : Dropped m m' dropped stop) (hx : m.payloads.cell p = some x)
    (hdispose : x.disposeFn = none) : Dropped m m' (p :: dropped) stop where
  disposed := by
    have hp : ¬ m.disposes p = true := by simp [Mem.disposes, hx, hdispose]
    rw [List.filter_cons_of_neg hp]
    exact h.disposed
  gone := by
    intro q hq hdisposes
    rcases List.mem_cons.mp hq with rfl | hq
    · simp [Mem.disposes, hx, hdispose] at hdisposes
    · exact h.gone q hq hdisposes
  lowered := h.lowered
  payload := fun q hq => h.payload q fun hmem => hq (List.mem_cons_of_mem _ hmem)
  freed := by
    intro q hq y c hy hne
    rcases List.mem_cons.mp hq with rfl | hq
    · rw [hx] at hy
      obtain rfl := Option.some.inj hy
      exact absurd hdispose hne
    · exact h.freed q hq y c hy hne
  buffer := fun c hc => h.buffer c fun q hq => hc q (List.mem_cons_of_mem _ hq)

/-- Before the rest of the walk a payload was disposed of. -/
theorem Dropped.cons (h : Dropped (m.dispose p b) m' dropped stop)
    (hx : m.payloads.cell p = some x) (hdispose : x.disposeFn ≠ none)
    (hb : x.message = .block b) (hp : p ∉ dropped) (hstop : stop ≠ some p) :
    Dropped m m' (p :: dropped) stop := by
  have hne : ∀ q ∈ dropped, q ≠ p := by
    rintro q hq rfl
    exact hp hq
  have hdisposes : ∀ q, q ≠ p → (m.dispose p b).disposes q = m.disposes q := fun q hq => by
    rw [Mem.disposes, Mem.disposes, cell_dispose_of_ne hq]
  have hself : m.disposes p = true := by
    simpa [Mem.disposes, hx, Option.isSome_iff_ne_none] using hdispose
  have hgone : m'.payloads.cell p = none := by
    rw [h.payload p (fun hmem => absurd hmem hp) hstop]
    exact BlockHeap.cell_free_self
  constructor
  · have hfilter : dropped.filter (m.dispose p b).disposes = dropped.filter m.disposes :=
      List.filter_congr fun q hq => hdisposes q (hne q hq)
    rw [List.filter_cons_of_pos hself, h.disposed, hfilter]
    exact List.append_assoc _ _ _
  · intro q hq hq'
    rcases List.mem_cons.mp hq with rfl | hq
    · exact hgone
    · exact h.gone q hq (by rwa [hdisposes q (hne q hq)])
  · intro q hq
    have hqp : q ≠ p := by
      rintro rfl
      exact hstop hq
    rw [h.lowered q hq, cell_dispose_of_ne hqp]
  · intro q hq hq'
    have hqp : q ≠ p := by
      rintro rfl
      have hfalse := hq List.mem_cons_self
      rw [hself] at hfalse
      cases hfalse
    rw [h.payload q (fun hmem => ?_) hq', cell_dispose_of_ne hqp]
    rw [hdisposes q hqp]
    exact hq (List.mem_cons_of_mem _ hmem)
  · intro q hq y c hy hy' hc
    rcases List.mem_cons.mp hq with rfl | hq
    · rw [hx] at hy
      obtain rfl := Option.some.inj hy
      rw [hb] at hc
      obtain rfl := CharPtr.block.inj hc
      by_cases hother : ∃ r ∈ dropped, ∃ y, (m.dispose q b).payloads.cell r = some y ∧
          y.disposeFn ≠ none ∧ y.message = .block b
      · obtain ⟨r, hr, y, hy, hy', hmessage⟩ := hother
        exact h.freed r hr y b hy hy' hmessage
      · rw [h.buffer b fun r hr y hy hy' hmessage => hother ⟨r, hr, y, hy, hy', hmessage⟩]
        exact BlockHeap.cell_free_self
    · exact h.freed q hq y c (by rwa [cell_dispose_of_ne (hne q hq)]) hy' hc
  · intro c hc
    have hcb : c ≠ b := by
      rintro rfl
      exact hc p List.mem_cons_self x hx hdispose hb
    rw [h.buffer c fun q hq y hy => ?_]
    · exact BlockHeap.cell_free_of_ne hcb
    · rw [cell_dispose_of_ne (hne q hq)] at hy
      exact hc q (List.mem_cons_of_mem _ hq) y hy

/-- Disposing of a payload leaves the others as they were. -/
theorem Mem.Disposable.dispose (h : m.Disposable) (hx : m.payloads.cell p = some x)
    (hdispose : x.disposeFn ≠ none) (hb : x.message = .block b) :
    (m.dispose p b).Disposable where
  onHeap := by
    intro q y hcell hy'
    obtain ⟨hq, hy⟩ := cell_dispose hcell
    obtain ⟨hfall, c, bytes, hc, hbytes⟩ := h.onHeap q y hy hy'
    refine ⟨hfall, c, bytes, hc, ?_⟩
    have hcb : c ≠ b := by
      rintro rfl
      exact hq (h.message q p y x hy hx hy' hdispose (hc.trans hb.symm))
    exact (BlockHeap.cell_free_of_ne hcb).trans hbytes
  message := fun q r y z hy hz => h.message q r y z (cell_dispose hy).2 (cell_dispose hz).2

/-- The split of a list at the first element that fails a test depends on the test on its
elements only. -/
private theorem span_congr {f g : ℕ → Bool} (h : ∀ p ∈ ps, f p = g p) :
    ps.takeWhile f = ps.takeWhile g ∧ ps.dropWhile f = ps.dropWhile g := by
  induction ps with
  | nil => exact ⟨rfl, rfl⟩
  | cons p ps ih =>
      obtain ⟨hp, hrest⟩ := List.forall_mem_cons.mp h
      obtain ⟨htake, hdrop⟩ := ih hrest
      cases hg : g p <;> simp [hp, hg, htake, hdrop]

/-! ### One round of the loop -/

/-- A counter that is not `1` is lowered, and the loop ends. -/
theorem releaseLoop_of_ne_one (hx : m.payloads.cell p = some x) (hone : x.refcount ≠ 1#32)
    (fuel : ℕ) : u7ErrorReleaseLoop (fuel + 1) (some p) m =
      .ok (m.setRefcount p (x.refcount - 1#32)) := by
  have hbne : (x.refcount != 1#32) = true := bne_iff_ne.mpr hone
  simp only [u7ErrorReleaseLoop, Mem.deref, hx, ok_bind, u7RefcountSkewedDecrement, hbne,
    if_true, u7RefcountDecrement]

/-- A counter that is `1` stays, and the loop goes on, here past a payload without a
`dispose_fn`. -/
theorem releaseLoop_of_static (hx : m.payloads.cell p = some x) (hone : x.refcount = 1#32)
    (hdispose : x.disposeFn = none) (fuel : ℕ) :
    u7ErrorReleaseLoop (fuel + 1) (some p) m = u7ErrorReleaseLoop fuel x.cause.payload m := by
  have hsame := setRefcount_refcount hx
  rw [hone] at hsame
  simp only [u7ErrorReleaseLoop, Mem.deref, hx, ok_bind, u7RefcountSkewedDecrement, hone,
    bne_self_eq_false, Bool.false_eq_true, if_false, hsame]
  rw [hdispose]

/-- Here it disposes of the payload. -/
theorem releaseLoop_of_one (hx : m.payloads.cell p = some x) (hone : x.refcount = 1#32)
    (hdispose : x.disposeFn ≠ none) {bytes : List (Option UInt8)} (hb : x.message = .block b)
    (hbytes : m.buffers.cell b = some bytes) (hfall : p ≠ fallback) (fuel : ℕ) :
    u7ErrorReleaseLoop (fuel + 1) (some p) m =
      u7ErrorReleaseLoop fuel x.cause.payload (m.dispose p b) := by
  obtain ⟨disposeFn, hfn⟩ := Option.ne_none_iff_exists'.mp hdispose
  cases disposeFn
  simp only [u7ErrorReleaseLoop, Mem.deref, hx, ok_bind, u7RefcountSkewedDecrement, hone,
    bne_self_eq_false, Bool.false_eq_true, if_false]
  rw [hfn]
  simp only [call_disposeFn 1#32 hx hb hbytes hfall, ok_bind]

/-- **The loop of `u7_error_release`** drops the longest prefix of the chain whose counters
are `1` and lowers the next counter. The induction is on the chain of the heap before the
call, which no element comes back to. -/
theorem releaseLoop_dropped {fuel : ℕ} (hchain : Chain m.causePayload o ps)
    (hlive : ∀ p ∈ ps, ∃ x, m.payloads.cell p = some x) (hdispose : m.Disposable)
    (hfuel : ps.length ≤ fuel) :
    ∃ m', u7ErrorReleaseLoop fuel o m = .ok m' ∧
      Dropped m m' (ps.takeWhile m.isOne) (ps.dropWhile m.isOne).head? := by
  induction ps generalizing fuel o m with
  | nil =>
      cases hchain
      exact ⟨m, by cases fuel <;> rfl, Dropped.nil m⟩
  | cons p ps ih =>
      obtain ⟨fuel, rfl⟩ : ∃ n, fuel = n + 1 :=
        Nat.exists_eq_succ_of_ne_zero fun hzero => by simp [hzero] at hfuel
      have hfuel' : ps.length ≤ fuel := by simpa using hfuel
      have hnew := (List.nodup_cons.mp hchain.nodup).1
      obtain ⟨⟨x, hx⟩, hrest⟩ := List.forall_mem_cons.mp hlive
      have hcause : m.causePayload p = x.cause.payload := by
        rw [Mem.causePayload, hx]
        rfl
      cases hchain with
      | cons hchain =>
          rw [hcause] at hchain
          by_cases hone : x.refcount = 1#32
          · have hp : m.isOne p = true := by simp [Mem.isOne, hx, hone]
            rw [List.takeWhile_cons_of_pos hp, List.dropWhile_cons_of_pos hp]
            by_cases hfn : x.disposeFn = none
            · obtain ⟨m', hloop, hdropped⟩ := ih hchain hrest hdispose hfuel'
              rw [releaseLoop_of_static hx hone hfn]
              exact ⟨m', hloop, hdropped.pass hx hfn⟩
            · obtain ⟨hfall, b, bytes, hb, hbytes⟩ := hdispose.onHeap p x hx hfn
              rw [releaseLoop_of_one hx hone hfn hb hbytes hfall]
              -- the rest of the chain does not come back to `p`
              have hcell : ∀ q ∈ ps, (m.dispose p b).payloads.cell q = m.payloads.cell q :=
                fun q hq => cell_dispose_of_ne (ne_of_mem_of_not_mem hq hnew)
              have hisOne : ∀ q ∈ ps, (m.dispose p b).isOne q = m.isOne q := fun q hq => by
                rw [Mem.isOne, Mem.isOne, hcell q hq]
              have hchain' : Chain (m.dispose p b).causePayload x.cause.payload ps :=
                hchain.congr fun q hq => by
                  rw [Mem.causePayload, Mem.causePayload, hcell q hq]
              have hlive' : ∀ q ∈ ps, ∃ y, (m.dispose p b).payloads.cell q = some y :=
                fun q hq => by
                  rw [hcell q hq]
                  exact hrest q hq
              obtain ⟨m', hloop, hdropped⟩ :=
                ih hchain' hlive' (hdispose.dispose hx hfn hb) hfuel'
              rw [(span_congr hisOne).1, (span_congr hisOne).2] at hdropped
              refine ⟨m', hloop, hdropped.cons hx hfn hb ?_ ?_⟩
              · exact fun hmem => hnew ((List.takeWhile_sublist _).subset hmem)
              · exact fun hhead => hnew ((List.dropWhile_sublist _).subset
                  (List.mem_of_mem_head? hhead))
          · have hp : ¬ m.isOne p = true := by simp [Mem.isOne, hx, hone]
            rw [List.takeWhile_cons_of_neg hp, List.dropWhile_cons_of_neg hp,
              releaseLoop_of_ne_one hx hone]
            exact ⟨_, rfl, Dropped.lower hx⟩

/-- Whatever a `dispose_fn` is called with, it frees a message and a payload, and never
the fallback payload. -/
theorem call_shrinks (disposeFn : DisposeFn) (p : ℕ) (m : Mem) :
    Sat (disposeFn.call p m)
      (fun m' => Shrinks m m' ∧ m'.payloads.cell fallback = m.payloads.cell fallback)
      HeapFault := by
  cases disposeFn
  have hlog : Shrinks m { m with disposed := m.disposed ++ [p] } :=
    ⟨rfl, fun hx => ⟨_, _, hx, rfl⟩, id, List.prefix_append _ _, rfl, rfl⟩
  refine ((deref_fault _ p).mono (fun _ => id) fun _ => .inl).bind fun x _ => ?_
  refine ((freeMessage_shrinks _ x.message).mono (fun _ => id) fun _ he => .inr (.inl he)).bind ?_
  rintro m₁ ⟨hmessage, hpayloads⟩
  refine (freePayload_shrinks m₁ p).mono ?_ fun _ he => .inr (.inl he)
  rintro m₂ ⟨hpayload, hfallback⟩
  refine ⟨(hlog.trans hmessage).trans hpayload, ?_⟩
  rw [hfallback, hpayloads]

/-- **Whatever the heap looks like**, the loop changes counters, frees payloads and
buffers, and does nothing else; and it never frees the fallback payload. -/
theorem releaseLoop_shrinks (fuel : ℕ) (o : Option ℕ) (m : Mem) :
    Sat (u7ErrorReleaseLoop fuel o m)
      (fun m' => Shrinks m m' ∧ ((m.payloads.cell fallback).isSome →
        (m'.payloads.cell fallback).isSome)) HeapFault := by
  induction fuel generalizing o m with
  | zero =>
      cases o with
      | none => exact sat_ok ⟨Shrinks.refl m, id⟩
      | some p => exact sat_error (.inr (.inr rfl))
  | succ fuel ih =>
      cases o with
      | none => exact sat_ok ⟨Shrinks.refl m, id⟩
      | some p =>
          rw [u7ErrorReleaseLoop]
          refine ((deref_fault m p).mono (fun _ => id) fun _ => .inl).bind fun x _ => ?_
          have hwrite := shrinks_setRefcount m p (u7RefcountSkewedDecrement x.refcount).1
          have hfallback : (m.payloads.cell fallback).isSome →
              ((m.setRefcount p (u7RefcountSkewedDecrement x.refcount).1).payloads.cell
                fallback).isSome := by
            simp only [Option.isSome_iff_ne_none, ne_eq, cell_setRefcount_eq_none, imp_self]
          refine sat_ite (fun _ => sat_ok ⟨hwrite, hfallback⟩) fun _ => ?_
          cases x.disposeFn with
          | none =>
              refine (ih x.cause.payload _).mono ?_ fun _ => id
              rintro m' ⟨hshrinks, hlive⟩
              exact ⟨hwrite.trans hshrinks, fun h => hlive (hfallback h)⟩
          | some disposeFn =>
              refine (call_shrinks disposeFn p _).bind ?_
              rintro m₁ ⟨hcall, heq⟩
              refine (ih x.cause.payload m₁).mono ?_ fun _ => id
              rintro m' ⟨hshrinks, hlive⟩
              refine ⟨(hwrite.trans hcall).trans hshrinks, fun h => hlive ?_⟩
              rw [heq]
              exact hfallback h

end Chain

/-! ### What a release depends on -/

section Alike

variable {m m' : Mem}

theorem SameHeap.setRefcount (h : SameHeap m m') (p : ℕ) (count : U7Refcount) :
    SameHeap (m.setRefcount p count) (m'.setRefcount p count) where
  payloads := by rw [Mem.setRefcount, Mem.setRefcount, h.payloads]
  disposed := h.disposed
  cell := h.cell

theorem SameHeap.deref (h : SameHeap m m') (p : ℕ) : m'.deref p = m.deref p := by
  rw [Mem.deref, Mem.deref, h.payloads]

theorem SameHeap.freeMessage (h : SameHeap m m') (message : CharPtr) :
    Alike SameHeap (m.freeMessage message) (m'.freeMessage message) := by
  cases message with
  | null => exact alike_ok h
  | fallbackMessage => exact alike_error _
  | block b =>
      rw [Mem.freeMessage, Mem.freeMessage, h.cell]
      cases m.buffers.cell b with
      | none => exact alike_error _
      | some bytes =>
          refine alike_ok ⟨h.payloads, h.disposed, fun c => ?_⟩
          by_cases hc : c = b
          · rw [hc, BlockHeap.cell_free_self, BlockHeap.cell_free_self]
          · rw [BlockHeap.cell_free_of_ne hc, BlockHeap.cell_free_of_ne hc, h.cell]

theorem SameHeap.freePayload (h : SameHeap m m') (p : ℕ) :
    Alike SameHeap (m.freePayload p) (m'.freePayload p) := by
  rw [Mem.freePayload, Mem.freePayload, h.payloads]
  refine alike_ite (fun _ => alike_error _) fun _ => ?_
  cases m.payloads.cell p with
  | none => exact alike_error _
  | some x => exact alike_ok ⟨rfl, h.disposed, h.cell⟩

theorem SameHeap.call (h : SameHeap m m') (disposeFn : DisposeFn) (p : ℕ) :
    Alike SameHeap (disposeFn.call p m) (disposeFn.call p m') := by
  cases disposeFn
  have hlog : SameHeap { m with disposed := m.disposed ++ [p] }
      { m' with disposed := m'.disposed ++ [p] } :=
    ⟨h.payloads, congrArg (· ++ [p]) h.disposed, h.cell⟩
  simp only [DisposeFn.call, u7ErrnoCategoryPayloadDisposeFn, hlog.deref]
  refine alike_bind_same fun x => ?_
  exact (hlog.freeMessage x.message).bind fun _ _ h₁ => h₁.freePayload p

/-- **The loop of `u7_error_release`** depends on the payloads and on the contents of the
buffers only. -/
theorem SameHeap.releaseLoop (h : SameHeap m m') (fuel : ℕ) (o : Option ℕ) :
    Alike SameHeap (u7ErrorReleaseLoop fuel o m) (u7ErrorReleaseLoop fuel o m') := by
  induction fuel generalizing o m m' with
  | zero =>
      cases o with
      | none => exact alike_ok h
      | some p => exact alike_error _
  | succ fuel ih =>
      cases o with
      | none => exact alike_ok h
      | some p =>
          simp only [u7ErrorReleaseLoop, h.deref]
          refine alike_bind_same fun x => ?_
          have hwrite := h.setRefcount p (u7RefcountSkewedDecrement x.refcount).1
          refine alike_ite (fun _ => alike_ok hwrite) fun _ => ?_
          cases x.disposeFn with
          | none => exact ih hwrite x.cause.payload
          | some disposeFn =>
              exact (hwrite.call disposeFn p).bind fun _ _ h₁ => ih h₁ x.cause.payload

theorem SameHeap.release (h : SameHeap m m') (e : U7Error) :
    Alike SameHeap (u7ErrorRelease e m) (u7ErrorRelease e m') := by
  rw [u7ErrorRelease, u7ErrorRelease, h.payloads]
  exact h.releaseLoop _ _

end Alike

/-! ### Acyclic heaps -/

section Acyclic

variable {m : Mem} {o : Option ℕ} {ps : List ℕ}

/-- From every live payload the causes are a chain. -/
theorem Mem.Acyclic.exists_chain (h : m.Acyclic)
    (ho : ∀ p, o = some p → ∃ x, m.payloads.cell p = some x) :
    ∃ ps, Chain m.causePayload o ps := by
  cases o with
  | none => exact ⟨[], .nil⟩
  | some p =>
      obtain ⟨x, hx⟩ := ho p rfl
      refine exists_chain_of_acyclic (Set.finite_lt_nat m.payloads.next) ?_ h.acyclic
        (BlockHeap.lt_next hx)
      intro q _ r hr
      obtain ⟨y, hy⟩ := h.live q r hr
      exact BlockHeap.lt_next hy

/-- Its payloads are live. -/
theorem Mem.Acyclic.live_of_chain (h : m.Acyclic) (hchain : Chain m.causePayload o ps)
    (ho : ∀ p, o = some p → ∃ x, m.payloads.cell p = some x) :
    ∀ p ∈ ps, ∃ x, m.payloads.cell p = some x := by
  induction hchain with
  | nil => exact List.forall_mem_nil _
  | cons _ ih => exact List.forall_mem_cons.mpr ⟨ho _ rfl, ih (h.live _)⟩

/-- Causes that were there before what they are the causes of are such a graph. -/
theorem acyclic_of_lt
    (hlive : ∀ p q, m.causePayload p = some q → ∃ x, m.payloads.cell q = some x)
    (hlt : ∀ p q, m.causePayload p = some q → q < p) : m.Acyclic where
  live := hlive
  acyclic := by
    intro p hp
    have hless : ∀ {q r}, Relation.TransGen (fun q p => m.causePayload p = some q) q r →
        q < r := by
      intro q r hqr
      induction hqr with
      | single hlink => exact hlt _ _ hlink
      | tail _ hlink ih => exact ih.trans (hlt _ _ hlink)
    exact lt_irrefl p (hless hp)

/-- Lowering a positive counter does not wrap. -/
theorem toInt_sub_one {count : U7Refcount} (h : 1 ≤ count.toInt) :
    (count - 1#32).toInt = count.toInt - 1 := by
  have hlt := BitVec.toInt_lt (x := count)
  rw [BitVec.toInt_sub, BitVec.toInt_one (by decide), Int.bmod_eq_of_le (by omega) (by omega)]

end Acyclic

/-- **`u7_error_release` on any finite acyclic heap** whose counters are at least `1`. It
ends, and no access on its way is to a payload that it has freed. Along the chain of
payloads from the handle it passes the longest prefix whose counters are `1`, and calls
`dispose_fn`, where there is one, on each of them once and in order. It lowers the counter
of the payload behind the prefix, if there is one, by one. All other payloads, and the
buffers that hold no message of a payload it disposed of, are what they were. -/
theorem error_release_chain (m : Mem) (hacyclic : m.Acyclic) (hdispose : m.Disposable)
    (hcount : ∀ p x, m.payloads.cell p = some x → 1 ≤ x.refcount.toInt) (self : U7Error)
    (hself : ∀ p, self.payload = some p → ∃ x, m.payloads.cell p = some x) :
    ∃ ps m', Chain m.causePayload self.payload ps ∧ u7ErrorRelease self m = .ok m' ∧
      m'.disposed = m.disposed ++ (ps.takeWhile m.isOne).filter m.disposes ∧
      (∀ p x, (ps.dropWhile m.isOne).head? = some p → m.payloads.cell p = some x →
        ∃ count, m'.payloads.cell p = some { x with refcount := count } ∧
          count.toInt = x.refcount.toInt - 1) ∧
      (∀ p, p ∉ (ps.takeWhile m.isOne).filter m.disposes →
        (ps.dropWhile m.isOne).head? ≠ some p →
        m'.payloads.cell p = m.payloads.cell p) ∧
      (∀ p ∈ (ps.takeWhile m.isOne).filter m.disposes, m'.payloads.cell p = none) ∧
      ∀ b, (∀ p ∈ (ps.takeWhile m.isOne).filter m.disposes, ∀ x,
        m.payloads.cell p = some x → x.message ≠ .block b) →
        m'.buffers.cell b = m.buffers.cell b := by
  obtain ⟨ps, hchain⟩ := hacyclic.exists_chain hself
  have hlive := hacyclic.live_of_chain hchain hself
  have hlen : ps.length ≤ m.payloads.next := by
    rw [← List.toFinset_card_of_nodup hchain.nodup, ← Finset.card_range m.payloads.next]
    refine Finset.card_le_card fun p hp => ?_
    obtain ⟨x, hx⟩ := hlive p (List.mem_toFinset.mp hp)
    exact Finset.mem_range.mpr (BlockHeap.lt_next hx)
  obtain ⟨m', hloop, hdropped⟩ := releaseLoop_dropped hchain hlive hdispose hlen
  refine ⟨ps, m', hchain, hloop, hdropped.disposed, ?_, ?_, ?_, ?_⟩
  · intro p x hp hx
    refine ⟨x.refcount - 1#32, by rw [hdropped.lowered p hp, hx]; rfl, ?_⟩
    exact toInt_sub_one (hcount p x hx)
  · intro p hp hstop
    refine hdropped.payload p (fun hmem => ?_) hstop
    by_contra hdisposes
    exact hp (List.mem_filter.mpr ⟨hmem, by simpa using hdisposes⟩)
  · intro p hp
    obtain ⟨hmem, hdisposes⟩ := List.mem_filter.mp hp
    exact hdropped.gone p hmem hdisposes
  · intro b hb
    refine hdropped.buffer b fun p hp x hx hne => ?_
    refine hb p (List.mem_filter.mpr ⟨hp, ?_⟩) x hx
    simpa [Mem.disposes, hx, Option.isSome_iff_ne_none] using hne

/-- An error whose cause has a second owner. -/
def sharedCause : Mem where
  payloads := (Mem.start.payloads.alloc
    { errnoPayload (.block 0) 0 u7Ok with refcount := 2#32 }).alloc
      (errnoPayload (.block 1) 0 ⟨2, some 1⟩)
  buffers := (BlockHeap.empty.alloc [some 0]).alloc [some 0]
  mallocs := 4
  prints := 0
  disposed := []

/-- Its release disposes of its payload, and leaves one reference to the cause. -/
theorem error_release_chain_shared :
    ∃ m', u7ErrorRelease ⟨5, some 2⟩ sharedCause = .ok m' ∧ m'.disposed = [2] ∧
      ∃ x, m'.payloads.cell 1 = some x ∧ x.refcount.toInt = 1 := by
  have hcell : ∀ p x, sharedCause.payloads.cell p = some x → p < 3 :=
    fun p x hx => BlockHeap.lt_next hx
  have hlink : ∀ p q, sharedCause.causePayload p = some q → p = 2 ∧ q = 1 := by
    intro p q hq
    obtain ⟨x, hx, -⟩ := Option.bind_eq_some_iff.mp hq
    have hp := hcell p x hx
    interval_cases p
    · cases (show none = some q from hq)
    · cases (show none = some q from hq)
    · exact ⟨rfl, (Option.some.inj hq).symm⟩
  have hacyclic : sharedCause.Acyclic := by
    refine acyclic_of_lt (fun p q hq => ?_) fun p q hq => ?_
    all_goals obtain ⟨rfl, rfl⟩ := hlink p q hq
    · exact ⟨_, rfl⟩
    · norm_num
  have hmessage : ∀ p x, sharedCause.payloads.cell p = some x → x.disposeFn ≠ none →
      0 < p ∧ x.message = .block (p - 1) ∧
        ∃ bytes, sharedCause.buffers.cell (p - 1) = some bytes := by
    intro p x hx hne
    have hp := hcell p x hx
    interval_cases p <;> obtain rfl := Option.some.inj hx
    · exact absurd rfl hne
    · exact ⟨by norm_num, rfl, _, rfl⟩
    · exact ⟨by norm_num, rfl, _, rfl⟩
  have hdisposable : sharedCause.Disposable := by
    constructor
    · intro p x hx hne
      obtain ⟨hp, hb, bytes, hbytes⟩ := hmessage p x hx hne
      exact ⟨hp.ne', p - 1, bytes, hb, hbytes⟩
    · intro p q x y hx hy hxne hyne hsame
      obtain ⟨hp, hb, -⟩ := hmessage p x hx hxne
      obtain ⟨hq, hc, -⟩ := hmessage q y hy hyne
      rw [hb, hc] at hsame
      have := CharPtr.block.inj hsame
      omega
  have hcount : ∀ p x, sharedCause.payloads.cell p = some x → 1 ≤ x.refcount.toInt := by
    intro p x hx
    have hp := hcell p x hx
    interval_cases p <;> obtain rfl := Option.some.inj hx <;> decide
  obtain ⟨ps, m', hchain, hrelease, hdisposed, hlowered, -⟩ :=
    error_release_chain sharedCause hacyclic hdisposable hcount ⟨5, some 2⟩
      fun p hp => ⟨_, by obtain rfl := Option.some.inj hp; rfl⟩
  obtain rfl : ps = [2, 1] := hchain.unique (.cons (.cons .nil))
  obtain ⟨count, hpayload, hcount'⟩ := hlowered 1 _ rfl rfl
  exact ⟨m', hrelease, hdisposed, _, hpayload, hcount'⟩

end U7Init
