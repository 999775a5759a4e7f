import Mathlib.Data.Multiset.Count
import U7Init.Error.Create

/-!
# Ownership over Whole Runs

This module runs the operations on errors in any order. A world is the memory together
with the handles that the program owns; an operation takes the handle it is applied to
out of them and puts its results back, so a released or consumed handle is not used
again. Everything the C library may do, failing allocations included, is a parameter.

## Which programs are looked at

An operation may be applied to a handle that the program owns, or to `u7_ok()`, which everybody
may make (`Op.IsOwned`). Otherwise the order is free: a handle may be acquired any number of
times, become the cause of a new error, be moved, cleared or released. There is no step for a
program that frees twice or uses a handle it has given away; such a program is wrong by itself.
Counters are words of 32 bits, and one that wraps would lose references, so the runs keep the
number of references to each payload below `2 ^ 32` (`World.Bounded`). A call in which the
length of a message overflows is undefined behaviour and has no successor state;
`error_ownership` says that with matching arguments this is the only way in which an operation
has none.

## Main results

* `Op.run_sound`: every operation keeps the ownership invariant, with the owned handles as
  the pointers from outside of the heap.
* `error_ownership`: what follows for every reachable world.
-/

namespace U7Init

open Outcome

/-- The memory and the handles that are owned by someone. -/
structure World where
  mem : Mem
  handles : Multiset U7Error

/-- The operations of the public interface. -/
inductive Op
  | verrorfWithCause (errorCode : ℤ) (cause : U7Error) (format : CStr) (arg : List VaArg)
  | acquire (e : U7Error)
  | release (e : U7Error)
  | move (e : U7Error)
  | clear (e : U7Error)

namespace Op

/-- The handle an operation is applied to. -/
def handle : Op → U7Error
  | .verrorfWithCause _ cause _ _ => cause
  | .acquire e | .release e | .move e | .clear e => e

/-- The caller owns the handle. Everybody owns `u7_ok()`. -/
def IsOwned (op : Op) (w : World) : Prop :=
  op.handle ∈ w.handles ∨ op.handle = u7Ok

/-- The arguments are those that the format asks for. -/
def ArgsMatch : Op → Prop
  | .verrorfWithCause _ _ format arg => Matches format arg
  | .acquire _ | .release _ | .move _ | .clear _ => True

/-- The operation and what becomes of the handles. -/
def run (ℓ : Libc) (w : World) : Op → Except Fault World
  | .verrorfWithCause errorCode cause format arg => do
      let (result, m) ← u7VerrorfWithCause ℓ u7ErrnoCategory errorCode cause format arg w.mem
      .ok { mem := m, handles := result ::ₘ w.handles.erase cause }
  | .acquire e => do
      let (result, m) ← u7ErrorAcquire e w.mem
      .ok { mem := m, handles := result ::ₘ w.handles }
  | .release e => do
      let m ← u7ErrorRelease e w.mem
      .ok { mem := m, handles := w.handles.erase e }
  | .move e =>
      let (result, e') := u7ErrorMove e
      .ok { mem := w.mem, handles := result ::ₘ e' ::ₘ w.handles.erase e }
  | .clear e => do
      let (e', m) ← u7ErrorClear e w.mem
      .ok { mem := m, handles := e' ::ₘ w.handles.erase e }

end Op

/-! ### References -/

/-- The number of handles to payload `p`. -/
def handleRefs (handles : Multiset U7Error) (p : ℕ) : ℕ :=
  handles.countP fun e => e.payload = some p

/-- The number of references to payload `p`: handles and live payloads with that cause. -/
def World.refs (w : World) (p : ℕ) : ℕ :=
  handleRefs w.handles p + w.mem.links p

/-- No payload has `2 ^ 32` or more references. -/
def World.Bounded (w : World) : Prop :=
  ∀ p, w.refs p < 2 ^ 32

theorem handleRefs_cons (e : U7Error) (handles : Multiset U7Error) :
    handleRefs (e ::ₘ handles) = handleRefs handles + refsTo e.payload := by
  funext p
  exact Multiset.countP_cons _ _ _

/-- Taking an owned handle out takes its reference out. -/
theorem handleRefs_erase {e : U7Error} {handles : Multiset U7Error}
    (h : e ∈ handles ∨ e = u7Ok) :
    handleRefs handles = handleRefs (handles.erase e) + refsTo e.payload := by
  by_cases hmem : e ∈ handles
  · rw [← handleRefs_cons, Multiset.cons_erase hmem]
  · obtain rfl := h.resolve_left hmem
    rw [Multiset.erase_of_notMem hmem]
    rfl

/-! ### Runs -/

/-- The worlds reached by operations on owned handles, with bounded references. -/
inductive Reachable (ℓ : Libc) : World → Prop
  | start : Reachable ℓ { mem := Mem.start, handles := 0 }
  | step {w w' : World} (op : Op) :
      Reachable ℓ w → w.Bounded → op.IsOwned w → op.run ℓ w = .ok w' → Reachable ℓ w'

/-- The invariant of a run. -/
structure World.Sound (w : World) : Prop where
  owned : Owned w.mem (handleRefs w.handles) 0
  wellFormed : ∀ e ∈ w.handles, e.WellFormed

/-- What one operation does to the payloads: every new one is referred to, and disposals
are added to those there were. -/
structure World.Advances (w w' : World) : Prop where
  fresh : ∀ p, w.mem.payloads.next ≤ p → p < w'.mem.payloads.next → 0 < w'.refs p
  next : w.mem.payloads.next ≤ w'.mem.payloads.next
  disposed : w.mem.disposed <+: w'.mem.disposed

theorem Shrinks.advances {w w' : World} (h : Shrinks w.mem w'.mem) : w.Advances w' where
  fresh := by
    intro p hp hp'
    rw [h.next] at hp'
    omega
  next := h.next.ge
  disposed := h.disposed

theorem sound_start : World.Sound { mem := Mem.start, handles := 0 } where
  owned := owned_start
  wellFormed := fun e he => absurd he (Multiset.notMem_zero e)

section Steps

variable {ℓ : Libc} {w : World} {op : Op}

theorem World.Sound.of_isOwned (h : w.Sound) (howned : op.IsOwned w) :
    op.handle.WellFormed := by
  rcases howned with hmem | hok
  · exact h.wellFormed _ hmem
  · rw [hok]
    exact ⟨fun _ => rfl, fun _ => rfl⟩

/-- **Every operation keeps the invariant**, and its only fault is an overflow of
`message_length + 1`. -/
theorem Op.run_sound (h : w.Sound) (hbound : w.Bounded) (howned : op.IsOwned w) :
    Sat (op.run ℓ w) (fun w' => w'.Sound ∧ w.Advances w')
      (fun e => op.ArgsMatch → e = .signedOverflow) := by
  have hsplit := handleRefs_erase howned
  have hwell := h.of_isOwned howned
  have hrest : ∀ e ∈ w.handles.erase op.handle, e.WellFormed :=
    fun e he => h.wellFormed e (Multiset.mem_of_mem_erase he)
  -- the operation's own reference apart, the invariant and the bound read as follows
  have hheld := h.owned
  rw [hsplit] at hheld
  have hbound' : ∀ q, handleRefs (w.handles.erase op.handle) q +
      refsTo op.handle.payload q + w.mem.links q < 2 ^ 32 := fun q => by
    have hq := hbound q
    rwa [World.refs, hsplit] at hq
  cases op with
  | verrorfWithCause errorCode cause format arg =>
      refine (hheld.verrorfWithCause ℓ u7ErrnoCategory errorCode format arg hwell
        hbound').bind ?_
      rintro ⟨result, m'⟩ ⟨-, hresult, howned', hcreates⟩
      refine sat_ok ⟨⟨?_, ?_⟩, ?_, hcreates.next, hcreates.disposed⟩
      · rw [handleRefs_cons]
        exact howned'
      · exact Multiset.forall_mem_cons.mpr ⟨hresult, hrest⟩
      · intro p hp hp'
        have hresult := hcreates.fresh p hp hp'
        rw [World.refs, handleRefs_cons, Pi.add_apply, hresult, refsTo_self]
        omega
  | acquire e =>
      have hlive : ∀ p, e.payload = some p → 0 < handleRefs w.handles p + w.mem.links p := by
        intro p hp
        rw [hsplit, Pi.add_apply, Op.handle, hp, refsTo_self]
        omega
      refine ((h.owned.acquire hlive).mono (fun _ => id) fun _ => False.elim).bind ?_
      rintro ⟨result, m'⟩ ⟨rfl, howned', hshrinks⟩
      refine sat_ok ⟨⟨?_, ?_⟩, hshrinks.advances⟩
      · rw [handleRefs_cons]
        exact howned'
      · exact Multiset.forall_mem_cons.mpr ⟨hwell, h.wellFormed⟩
  | release e =>
      refine ((hheld.release hbound').mono (fun _ => id) fun _ => False.elim).bind ?_
      rintro m' ⟨howned', hshrinks⟩
      exact sat_ok ⟨⟨howned', hrest⟩, hshrinks.advances⟩
  | move e =>
      have hsame : Shrinks w.mem
          (World.mk w.mem (e ::ₘ u7Ok ::ₘ w.handles.erase e)).mem := Shrinks.refl w.mem
      refine sat_ok ⟨⟨?_, ?_⟩, hsame.advances⟩
      · rw [handleRefs_cons, handleRefs_cons, add_assoc, add_comm (refsTo _), ← add_assoc]
        exact hheld
      · exact Multiset.forall_mem_cons.mpr ⟨hwell,
          Multiset.forall_mem_cons.mpr ⟨⟨fun _ => rfl, fun _ => rfl⟩, hrest⟩⟩
  | clear e =>
      refine ((hheld.clear hbound').mono (fun _ => id) fun _ => False.elim).bind ?_
      rintro ⟨result, m'⟩ ⟨rfl, howned', hshrinks⟩
      refine sat_ok ⟨⟨?_, ?_⟩, hshrinks.advances⟩
      · rw [handleRefs_cons]
        exact howned'
      · exact Multiset.forall_mem_cons.mpr ⟨⟨fun _ => rfl, fun _ => rfl⟩, hrest⟩

theorem sound_of_reachable (h : Reachable ℓ w) : w.Sound := by
  induction h with
  | start => exact sound_start
  | step _ _ hbound howned hrun ih => exact ((Op.run_sound ih hbound howned).of_eq_ok hrun).1

end Steps

/-! ### What the invariant says -/

section Consequences

variable {w w' : World} {p : ℕ}

/-- A heap payload was disposed of exactly when nothing refers to it any more. -/
theorem World.Sound.mem_disposed_iff (h : w.Sound) (hp : p ≠ fallback) :
    p ∈ w.mem.disposed ↔ p < w.mem.payloads.next ∧ w.refs p = 0 := by
  rw [h.owned.disposed]
  refine and_congr_right fun _ => ⟨fun hnone => ?_, fun hzero => ?_⟩
  · by_contra hne
    obtain ⟨x, hx⟩ := h.owned.live (Nat.pos_of_ne_zero hne)
    rw [hnone] at hx
    cases hx
  · cases hx : w.mem.payloads.cell p with
    | none => rfl
    | some x => exact absurd hzero (h.owned.held hx hp).ne'

/-- The fallback payload is never disposed of. -/
theorem World.Sound.fallback_notMem_disposed (h : w.Sound) : fallback ∉ w.mem.disposed := by
  obtain ⟨x, hx⟩ := h.owned.cell_fallback
  rw [h.owned.disposed, hx]
  rintro ⟨-, hnone⟩
  cases hnone

/-- An operation disposes of exactly the heap payloads whose last reference it drops. -/
theorem World.Advances.disposed_iff (hstep : w.Advances w') (h : w.Sound) (h' : w'.Sound) :
    ∃ new, w'.mem.disposed = w.mem.disposed ++ new ∧
      ∀ p, p ∈ new ↔ p ≠ fallback ∧ 0 < w.refs p ∧ w'.refs p = 0 := by
  obtain ⟨new, hnew⟩ := hstep.disposed
  refine ⟨new, hnew.symm, fun p => ?_⟩
  have hnodup : (w.mem.disposed ++ new).Nodup := hnew ▸ h'.owned.nodup
  have hmem : p ∈ w'.mem.disposed ↔ p ∈ w.mem.disposed ∨ p ∈ new := by
    rw [← hnew, List.mem_append]
  constructor
  · intro hp
    have hp' := hmem.mpr (.inr hp)
    have hfall : p ≠ fallback := by
      rintro rfl
      exact h'.fallback_notMem_disposed hp'
    obtain ⟨hlt, hzero⟩ := (h'.mem_disposed_iff hfall).mp hp'
    refine ⟨hfall, ?_, hzero⟩
    by_contra hpos
    have hold : p < w.mem.payloads.next := by
      by_contra hge
      have := hstep.fresh p (by omega) hlt
      omega
    have hdisposed := (h.mem_disposed_iff hfall).mpr ⟨hold, by omega⟩
    exact (List.nodup_append.mp hnodup).2.2 p hdisposed p hp rfl
  · rintro ⟨hfall, hpos, hzero⟩
    obtain ⟨x, hx⟩ := h.owned.live hpos
    have hlt : p < w'.mem.payloads.next := (BlockHeap.lt_next hx).trans_le hstep.next
    refine (hmem.mp ((h'.mem_disposed_iff hfall).mpr ⟨hlt, hzero⟩)).resolve_left ?_
    intro hdisposed
    have := ((h.mem_disposed_iff hfall).mp hdisposed).2
    omega

/-- Without a handle to any payload nothing is left on the heap: the youngest payload
would have no one to refer to it. -/
theorem World.Sound.cell_eq_none (h : w.Sound) (hnone : ∀ e ∈ w.handles, e.payload = none)
    (hp : p ≠ fallback) : w.mem.payloads.cell p = none := by
  have hout : ∀ q, handleRefs w.handles q = 0 := fun q =>
    Multiset.countP_eq_zero.mpr fun e he => by simp [hnone e he]
  -- induction on the number of payloads younger than `p`
  have hyoung : ∀ k q, w.mem.payloads.next ≤ q + k → q ≠ fallback →
      w.mem.payloads.cell q = none := by
    intro k
    induction k with
    | zero => exact fun q hq _ => w.mem.payloads.fresh q hq
    | succ k ih =>
        intro q hq hfall
        cases hx : w.mem.payloads.cell q with
        | none => rfl
        | some x =>
            have hheld := h.owned.held hx hfall
            rw [hout, zero_add] at hheld
            obtain ⟨r, y, hy, hlink⟩ := BlockHeap.exists_of_sum_pos hheld
            have hlt := h.owned.causeLt hy (refsTo_pos_iff.mp hlink)
            have hr : r ≠ fallback := by
              rw [fallback] at hfall ⊢
              omega
            rw [ih r (by omega) hr] at hy
            cases hy
  exact hyoung w.mem.payloads.next p (by omega) hp

/-- Without a handle to any payload no buffer is left, and the counter of the fallback
payload is back at its initial value. -/
theorem World.Sound.all_released (h : w.Sound) (hnone : ∀ e ∈ w.handles, e.payload = none) :
    (∀ b, w.mem.buffers.cell b = none) ∧
      ∃ x, w.mem.payloads.cell fallback = some x ∧ x.refcount = u7RefcountInit := by
  obtain ⟨count, hcount⟩ := h.owned.pinned
  have hcell : ∀ {p x}, w.mem.payloads.cell p = some x →
      x = { u7ErrnoCategoryStaticFallbackPayload with refcount := count } := by
    intro p x hx
    by_cases hp : p = fallback
    · rw [hp, hcount] at hx
      exact (Option.some.inj hx).symm
    · rw [h.cell_eq_none hnone hp] at hx
      cases hx
  constructor
  · intro b
    have hmessages : w.mem.messages b = 0 := BlockHeap.sum_eq_zero fun p x hx => by
      rw [hcell hx]
      rfl
    have hbuffer := h.owned.buffer b
    rw [hmessages] at hbuffer
    cases hb : w.mem.buffers.cell b with
    | none => rfl
    | some bytes =>
        rw [hb] at hbuffer
        simp at hbuffer
  · refine ⟨_, hcount, ?_⟩
    have hlinks : w.mem.links fallback = 0 := BlockHeap.sum_eq_zero fun p x hx => by
      rw [hcell hx]
      rfl
    have hout : handleRefs w.handles fallback = 0 :=
      Multiset.countP_eq_zero.mpr fun e he => by simp [hnone e he]
    have hrefcount := h.owned.count hcount
    rw [hlinks, hout, pin, refsTo_self] at hrefcount
    exact hrefcount

end Consequences

/-- **The ownership invariant of the error heap.** In every reachable world:

* the counter of every live payload is, modulo `2 ^ 32`, the number of handles to it and
  of live payloads whose cause it is, and one more for the fallback payload;
* a handle has a live payload if its code is not `0`, and none otherwise;
* no payload was disposed of twice, and an operation disposes of exactly the heap payloads
  whose last reference it drops;
* an operation on an owned handle with matching arguments succeeds, unless
  `message_length + 1` overflows;
* when no handle to a payload is left, no heap payload and no buffer is, and the counter
  of the fallback payload is back at `1`. -/
theorem error_ownership (ℓ : Libc) (w : World) (h : Reachable ℓ w) :
    (∀ p x, w.mem.payloads.cell p = some x →
      x.refcount = BitVec.ofNat 32 (w.refs p + if p = fallback then 1 else 0)) ∧
    (∀ e ∈ w.handles,
      (e.errorCode ≠ 0 → ∃ p x, e.payload = some p ∧ w.mem.payloads.cell p = some x) ∧
      (e.errorCode = 0 → e.payload = none)) ∧
    w.mem.disposed.Nodup ∧
    (∀ (op : Op) (w' : World), w.Bounded → op.IsOwned w → op.run ℓ w = .ok w' →
      ∃ new, w'.mem.disposed = w.mem.disposed ++ new ∧
        ∀ p, p ∈ new ↔ p ≠ fallback ∧ 0 < w.refs p ∧ w'.refs p = 0) ∧
    (∀ op : Op, w.Bounded → op.IsOwned w → op.ArgsMatch →
      (∃ w', op.run ℓ w = .ok w') ∨ op.run ℓ w = .error .signedOverflow) ∧
    ((∀ e ∈ w.handles, e.payload = none) →
      (∀ p, p ≠ fallback → w.mem.payloads.cell p = none) ∧
      (∀ b, w.mem.buffers.cell b = none) ∧
      ∃ x, w.mem.payloads.cell fallback = some x ∧ x.refcount = u7RefcountInit) := by
  have hsound := sound_of_reachable h
  refine ⟨?_, ?_, hsound.owned.nodup, ?_, ?_, ?_⟩
  · intro p x hx
    rw [hsound.owned.count hx, World.refs, pin, refsTo]
    simp only [Option.some.injEq, eq_comm]
  · intro e he
    have hwell := hsound.wellFormed e he
    refine ⟨fun hcode => ?_, hwell.mp⟩
    cases hp : e.payload with
    | none => exact absurd (hwell.mpr hp) hcode
    | some p =>
        have hpos : 0 < handleRefs w.handles p :=
          Multiset.countP_pos.mpr ⟨e, he, hp⟩
        obtain ⟨x, hx⟩ := hsound.owned.live (p := p) (by omega)
        exact ⟨p, x, rfl, hx⟩
  · intro op w' hbound howned hrun
    obtain ⟨hsound', hadvances⟩ := (Op.run_sound hsound hbound howned).of_eq_ok hrun
    exact hadvances.disposed_iff hsound hsound'
  · intro op hbound howned hmatch
    rcases (Op.run_sound hsound hbound howned).ok_or_error with ⟨w', hw', -⟩ | ⟨e, he, hE⟩
    · exact .inl ⟨w', hw'⟩
    · rw [hE hmatch] at he
      exact .inr he
  · intro hnone
    exact ⟨fun p hp => hsound.cell_eq_none hnone hp, hsound.all_released hnone⟩

/-- There are at most as many references as handles and payloads. -/
theorem World.refs_le (w : World) (p : ℕ) :
    w.refs p ≤ Multiset.card w.handles + w.mem.payloads.next := by
  have hlinks : w.mem.links p ≤ w.mem.payloads.next := by
    have hle : ∀ q ∈ Finset.range w.mem.payloads.next,
        ((w.mem.payloads.cell q).elim 0 fun x => refsTo x.cause.payload p) ≤ 1 := by
      intro q _
      cases w.mem.payloads.cell q with
      | none => exact Nat.zero_le 1
      | some x =>
          simp only [Option.elim_some, refsTo]
          split_ifs <;> omega
    have hsum := Finset.sum_le_card_nsmul _ _ 1 hle
    rwa [Finset.card_range, smul_eq_mul, mul_one] at hsum
  have hout := Multiset.countP_le_card (fun e : U7Error => e.payload = some p) w.handles
  exact Nat.add_le_add hout hlinks

instance (op : Op) (w : World) : Decidable (op.IsOwned w) :=
  inferInstanceAs (Decidable (_ ∨ _))

/-- Operations one after another, each of them on an owned handle and in a world with few
references. -/
def World.runAll (ℓ : Libc) (w : World) : List Op → Option World
  | [] => some w
  | op :: ops =>
      if op.IsOwned w ∧ Multiset.card w.handles + w.mem.payloads.next < 2 ^ 32 then
        match op.run ℓ w with
        | .ok w' => w'.runAll ℓ ops
        | .error _ => none
      else none

theorem Reachable.runAll {ℓ : Libc} {w w' : World} {ops : List Op} (h : Reachable ℓ w)
    (hrun : w.runAll ℓ ops = some w') : Reachable ℓ w' := by
  induction ops generalizing w with
  | nil =>
      obtain rfl := Option.some.inj hrun
      exact h
  | cons op ops ih =>
      rw [World.runAll] at hrun
      split at hrun
      · next hop =>
          split at hrun
          · next w₁ hstep =>
              have hbound : w.Bounded := fun p => (World.refs_le w p).trans_lt hop.2
              exact ih (h.step op hbound hop.1 hstep) hrun
          · cases hrun
      · cases hrun

/-- A C library whose memory is enough for two errors. -/
def Libc.forTwo : Libc :=
  { Libc.ofRender fun format _ => format.bytes with allocates := fun n => n < 4 }

/-- Two errors have one cause. For the second one there is no memory left, so it is the fallback
payload, and its reference to the cause was given back. When both have been released the first
one and then the cause have been disposed of, and nothing is left. -/
theorem error_ownership_shared_cause :
    ∃ w, Reachable .forTwo w ∧ w.mem.disposed = [2, 1] ∧
      (∀ b, w.mem.buffers.cell b = none) ∧
      ∃ x, w.mem.payloads.cell fallback = some x ∧ x.refcount = u7RefcountInit := by
  have hrun : (World.runAll .forTwo ⟨Mem.start, 0⟩
      [.verrorfWithCause 5 u7Ok (.lit "") [], .acquire ⟨5, some 1⟩,
        .verrorfWithCause 6 ⟨5, some 1⟩ (.lit "") [],
        .verrorfWithCause 12 ⟨5, some 1⟩ (.lit "") [], .release ⟨12, some fallback⟩,
        .release ⟨6, some 2⟩]).map (fun w => (w.mem.disposed, w.handles)) = some ([2, 1], 0) := by
    decide +kernel
  obtain ⟨w, hrun, hw⟩ := Option.map_eq_some_iff.mp hrun
  obtain ⟨hdisposed, hhandles⟩ := Prod.mk.inj hw
  have hreach : Reachable .forTwo w := Reachable.start.runAll hrun
  obtain ⟨-, -, -, -, -, hreleased⟩ := error_ownership _ _ hreach
  refine ⟨w, hreach, hdisposed, (hreleased fun e he => ?_).2⟩
  rw [hhandles] at he
  exact absurd he (Multiset.notMem_zero e)

end U7Init
