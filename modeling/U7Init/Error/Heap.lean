import U7Init.Lib.BlockHeap
import U7Init.Lib.CString
import U7Init.Lib.Outcome
import U7Init.Refcount

/-!
# The Error Heap

This module models the part of `error.c` that keeps errors alive: error handles, the
payloads they point to, `u7_error_acquire`, `u7_error_release` with its walk along the
causes, `u7_error_clear`, `u7_error_move` and the disposal of a payload of the errno
category. One thread runs at a time; `U7Init.Error.Calls` looks at several.

## The memory

Payloads and message buffers live in two heaps of numbered blocks, `Mem.payloads` and
`Mem.buffers`. A block is never used again once it was freed, so that a pointer to a freed
block stays recognizable: an access to a block that is not live is a `Fault`, and so is
freeing one. `malloc` may hand out an address again, but a program without faults cannot see
the difference, and `Owned.release` and the other operations show that there are none.

Block `0` of the payloads is the static fallback payload, which the program refers to all the
time (`pin`) and never frees. Reference counters are the 32 bit words of `U7Init.Refcount`,
with the wrapping of the machine, and statements about them assume fewer than `2 ^ 32`
references where they need it.

## Ownership

`Owned m out loose` is relative to the pointers held outside of the heaps: `out p` is the
number of handles to payload `p`, in variables of the program or of a function under way, and
`loose b` the number of pointers to a buffer that has not become a message yet. An operation
is specified by how it changes these numbers, so it can be used in the middle of another one.

## Main results

* `Owned`: the ownership invariant of the two heaps, relative to the pointers that are
  held outside of them.
* `Owned.acquire`, `Owned.release`: the two operations transfer one reference, and
  neither runs into a fault.
-/

namespace U7Init

open Outcome

/-! ### Data -/

/-- A pointer to characters: what a payload has as its message. What can be freed depends
on where a message lies, so this is the place and not the text. -/
inductive CharPtr
  | null
  /-- A buffer obtained from `malloc`. -/
  | block (b : ℕ)
  /-- `u7_errno_category_static_fallback_message`. -/
  | fallbackMessage
  deriving DecidableEq, Repr

/-- `u7_error`: the code and a pointer to the payload, which is the number of its block. This is
a plain value, as in C: copying one does not count as a reference, and `Owned` says which
copies do. -/
structure U7Error where
  errorCode : ℤ
  payload : Option ℕ
  deriving DecidableEq, Repr

/-- `u7_ok`: the value without a code and without a payload. `u7_ok` has no category either; the
functions that ask for one look at the payload first. -/
def u7Ok : U7Error where
  errorCode := 0
  payload := none

/-- The functions a payload may have as its `dispose_fn`. The library has one; a payload
without any, as the fallback payload, has `none` in its field. -/
inductive DisposeFn
  /-- `u7_errno_category_payload_dispose_fn`. -/
  | errnoCategoryPayload
  deriving DecidableEq, Repr

/-- The error categories, identified by their addresses. Code outside of the repository may
define more of them; the errno category is the only one of the library. -/
inductive U7ErrorCategory
  /-- `u7_errno_category_static_category`. -/
  | errno
  deriving DecidableEq, Repr

/-- `struct u7_error_payload`, with all its fields. The length of the message is stored as an
`int`, next to the text in the buffer, which has a NUL behind it. -/
structure U7ErrorPayload where
  refcount : U7Refcount
  disposeFn : Option DisposeFn
  category : U7ErrorCategory
  message : CharPtr
  messageLength : ℤ
  cause : U7Error
  deriving DecidableEq, Repr

/-- The memory: payloads, message buffers with their initialized bytes, how many calls
of `malloc` or `realloc` and of `vsnprintf` there were, and the payloads that were passed
to a `dispose_fn`, which no code reads. -/
structure Mem where
  payloads : BlockHeap U7ErrorPayload
  buffers : BlockHeap (List (Option UInt8))
  mallocs : ℕ
  prints : ℕ
  disposed : List ℕ

/-- The address of `u7_errno_category_static_fallback_payload`: the block that is there when the
program starts. -/
def fallback : ℕ := 0

/-- The bytes of `u7_errno_category_static_fallback_message`. -/
def u7ErrnoCategoryStaticFallbackMessage : CStr :=
  .lit "<u7_error:fail>"

/-- `u7_errno_category_static_fallback_payload`, which has no `dispose_fn`: its counter starts
with the reference of the program itself and does not get to zero. -/
def u7ErrnoCategoryStaticFallbackPayload : U7ErrorPayload where
  refcount := u7RefcountInit
  disposeFn := none
  category := .errno
  message := .fallbackMessage
  messageLength := u7ErrnoCategoryStaticFallbackMessage.object.length - 1
  cause := u7Ok

/-- The memory when the program starts: the static fallback payload only. -/
def Mem.start : Mem where
  payloads := BlockHeap.empty.alloc u7ErrnoCategoryStaticFallbackPayload
  buffers := BlockHeap.empty
  mallocs := 0
  prints := 0
  disposed := []

/-! ### Reading and freeing -/

/-- `*p`: reading a payload that was freed, or was never allocated, is a fault. -/
def Mem.deref (m : Mem) (p : ℕ) : Except Fault U7ErrorPayload :=
  match m.payloads.cell p with
  | some x => .ok x
  | none => .error .deadObject

/-- A write to `p->refcount`. It follows a read of the same payload, which has faulted already
if there is none. -/
def Mem.setRefcount (m : Mem) (p : ℕ) (count : U7Refcount) : Mem :=
  { m with payloads := m.payloads.modify p fun x => { x with refcount := count } }

/-- `free` of a message buffer. `free(NULL)` does nothing; the static fallback message was not
obtained from `malloc`, and a buffer may be freed once only. -/
def Mem.freeMessage (m : Mem) : CharPtr → Except Fault Mem
  | .null => .ok m
  | .fallbackMessage => .error .badFree
  | .block b =>
      match m.buffers.cell b with
      | some _ => .ok { m with buffers := m.buffers.free b }
      | none => .error .badFree

/-- `free` of a payload, which must be live and must not be the static one. -/
def Mem.freePayload (m : Mem) (p : ℕ) : Except Fault Mem :=
  if p = fallback then .error .badFree
  else
    match m.payloads.cell p with
    | some _ => .ok { m with payloads := m.payloads.free p }
    | none => .error .badFree

/-- `u7_errno_category_payload_dispose_fn`: the message is read from the payload and freed
before the payload itself is. -/
def u7ErrnoCategoryPayloadDisposeFn (self : ℕ) (m : Mem) : Except Fault Mem := do
  let x ← m.deref self
  let m ← m.freeMessage x.message
  m.freePayload self

/-- A call of a `dispose_fn` through the pointer in the payload. It is recorded in `disposed`
before the function runs, so that a run shows every disposal in order. -/
def DisposeFn.call : DisposeFn → ℕ → Mem → Except Fault Mem
  | .errnoCategoryPayload, self, m =>
      u7ErrnoCategoryPayloadDisposeFn self { m with disposed := m.disposed ++ [self] }

/-! ### Operations -/

/-- `u7_error_acquire`: it returns the same error, of which there is one more reference now. -/
def u7ErrorAcquire (self : U7Error) (m : Mem) : Except Fault (U7Error × Mem) :=
  match self.payload with
  | none => .ok (self, m)
  | some p => do
      let x ← m.deref p
      .ok (self, m.setRefcount p (u7RefcountIncrement x.refcount))

/-- The loop of `u7_error_release`, for at most `fuel` rounds. The cause is read before the
payload is disposed of, since it is gone afterwards; a payload without a `dispose_fn` is
passed by without being freed, and the loop goes on with its cause all the same. -/
def u7ErrorReleaseLoop : ℕ → Option ℕ → Mem → Except Fault Mem
  | _, none, m => .ok m
  | 0, some _, _ => .error .diverges
  | fuel + 1, some payload, m => do
      let x ← m.deref payload
      let (count, more) := u7RefcountSkewedDecrement x.refcount
      let m := m.setRefcount payload count
      if more then .ok m
      else do
        let causePayload := x.cause.payload
        let m ← match x.disposeFn with
          | some disposeFn => disposeFn.call payload m
          | none => .ok m
        u7ErrorReleaseLoop fuel causePayload m

/-- `u7_error_release`. A walk visits every payload at most once, so it has as many
rounds as payloads were ever allocated. -/
def u7ErrorRelease (self : U7Error) (m : Mem) : Except Fault Mem :=
  u7ErrorReleaseLoop m.payloads.next self.payload m

/-- `u7_error_clear`: the new value of the variable. -/
def u7ErrorClear (self : U7Error) (m : Mem) : Except Fault (U7Error × Mem) := do
  let m ← u7ErrorRelease self m
  .ok (u7Ok, m)

/-- `u7_error_move`: the result and the new value of the variable. -/
def u7ErrorMove (self : U7Error) : U7Error × U7Error :=
  (self, u7Ok)

/-! ### References -/

/-- How often a pointer refers to block `n`. -/
def refsTo (pointer : Option ℕ) (n : ℕ) : ℕ :=
  if pointer = some n then 1 else 0

@[simp] theorem refsTo_self (n : ℕ) : refsTo (some n) n = 1 := by
  simp [refsTo]

theorem refsTo_of_ne {n k : ℕ} (h : n ≠ k) : refsTo (some n) k = 0 := by
  simp [refsTo, h]

theorem refsTo_pos_iff {pointer : Option ℕ} {n : ℕ} :
    0 < refsTo pointer n ↔ pointer = some n := by
  by_cases h : pointer = some n <;> simp [refsTo, h]

/-- The buffer a message lies in. -/
def CharPtr.buffer : CharPtr → Option ℕ
  | .block b => some b
  | .null | .fallbackMessage => none

/-- The number of live payloads whose cause is `p`. -/
def Mem.links (m : Mem) (p : ℕ) : ℕ :=
  m.payloads.sum fun x => refsTo x.cause.payload p

/-- The number of live payloads whose message lies in buffer `b`. -/
def Mem.messages (m : Mem) (b : ℕ) : ℕ :=
  m.payloads.sum fun x => refsTo x.message.buffer b

/-- The reference that the program itself holds on the fallback payload. -/
def pin (p : ℕ) : ℕ :=
  refsTo (some fallback) p

/-- An error without a code has no payload, and an error with a code has one. -/
def U7Error.WellFormed (e : U7Error) : Prop :=
  e.errorCode = 0 ↔ e.payload = none

/-- What `u7_errno_category_make_payload_fn` allocates. -/
structure U7ErrorPayload.OnHeap (x : U7ErrorPayload) : Prop where
  disposeFn : x.disposeFn = some .errnoCategoryPayload
  message : ∃ b, x.message = .block b

/-- **The ownership invariant.** `out p` counts the pointers to payload `p` from outside
the heap, and `loose b` those to buffer `b`. -/
structure Owned (m : Mem) (out loose : ℕ → ℕ) : Prop where
  /-- Every counter counts the pointers from outside and the causes. -/
  count : ∀ {p : ℕ} {x : U7ErrorPayload}, m.payloads.cell p = some x →
    x.refcount = BitVec.ofNat 32 (out p + m.links p + pin p)
  /-- What is referred to is live. -/
  live : ∀ {p : ℕ}, 0 < out p + m.links p → ∃ x, m.payloads.cell p = some x
  /-- What is live on the heap is referred to. -/
  held : ∀ {p : ℕ} {x : U7ErrorPayload}, m.payloads.cell p = some x → p ≠ fallback →
    0 < out p + m.links p
  pinned : ∃ count, m.payloads.cell fallback =
    some { u7ErrnoCategoryStaticFallbackPayload with refcount := count }
  onHeap : ∀ {p : ℕ} {x : U7ErrorPayload}, m.payloads.cell p = some x → p ≠ fallback →
    x.OnHeap
  wellFormed : ∀ {p : ℕ} {x : U7ErrorPayload}, m.payloads.cell p = some x →
    x.cause.WellFormed
  /-- A payload is younger than its cause. -/
  causeLt : ∀ {p q : ℕ} {x : U7ErrorPayload}, m.payloads.cell p = some x →
    x.cause.payload = some q → q < p
  /-- Every live buffer has one owner, and no other buffer has any. -/
  buffer : ∀ b, m.messages b + loose b = if (m.buffers.cell b).isSome then 1 else 0
  nodup : m.disposed.Nodup
  disposed : ∀ {p : ℕ}, p ∈ m.disposed ↔ p < m.payloads.next ∧ m.payloads.cell p = none

/-- `m'` is what is left of `m`: payloads with other counters, and the same buffers. -/
structure Shrinks (m m' : Mem) : Prop where
  next : m'.payloads.next = m.payloads.next
  payload : ∀ {p : ℕ} {x' : U7ErrorPayload}, m'.payloads.cell p = some x' →
    ∃ x count, m.payloads.cell p = some x ∧ x' = { x with refcount := count }
  buffer : ∀ {b : ℕ} {bytes : List (Option UInt8)}, m'.buffers.cell b = some bytes →
    m.buffers.cell b = some bytes
  disposed : m.disposed <+: m'.disposed
  mallocs : m'.mallocs = m.mallocs
  prints : m'.prints = m.prints

theorem Shrinks.refl (m : Mem) : Shrinks m m where
  next := rfl
  payload := fun h => ⟨_, _, h, rfl⟩
  buffer := id
  disposed := List.prefix_rfl
  mallocs := rfl
  prints := rfl

theorem Shrinks.trans {m₁ m₂ m₃ : Mem} (h : Shrinks m₁ m₂) (h' : Shrinks m₂ m₃) :
    Shrinks m₁ m₃ where
  next := h'.next.trans h.next
  payload := by
    intro p x₃ h₃
    obtain ⟨x₂, count, h₂, rfl⟩ := h'.payload h₃
    obtain ⟨x₁, _, h₁, rfl⟩ := h.payload h₂
    exact ⟨x₁, count, h₁, rfl⟩
  buffer := fun hb => h.buffer (h'.buffer hb)
  disposed := h.disposed.trans h'.disposed
  mallocs := h'.mallocs.trans h.mallocs
  prints := h'.prints.trans h.prints

/-- The faults of reading and freeing payloads and messages. -/
def HeapFault (e : Fault) : Prop :=
  e = .deadObject ∨ e = .badFree ∨ e = .diverges

theorem deref_fault (m : Mem) (p : ℕ) :
    Sat (m.deref p) (fun x => m.payloads.cell p = some x) (· = .deadObject) := by
  rw [Mem.deref]
  cases m.payloads.cell p with
  | none => exact sat_error rfl
  | some x => exact sat_ok rfl

/-- `free` of a message leaves the payloads alone. -/
theorem freeMessage_shrinks (m : Mem) (message : CharPtr) :
    Sat (m.freeMessage message) (fun m' => Shrinks m m' ∧ m'.payloads = m.payloads)
      (· = .badFree) := by
  cases message with
  | null => exact sat_ok ⟨Shrinks.refl m, rfl⟩
  | fallbackMessage => exact sat_error rfl
  | block b =>
      rw [Mem.freeMessage]
      cases m.buffers.cell b with
      | none => exact sat_error rfl
      | some bytes =>
          refine sat_ok ⟨⟨rfl, fun hx => ⟨_, _, hx, rfl⟩, ?_, List.prefix_rfl, rfl, rfl⟩, rfl⟩
          intro c bytes' hc'
          by_cases hc : c = b
          · rw [hc, BlockHeap.cell_free_self] at hc'
            cases hc'
          · rwa [BlockHeap.cell_free_of_ne hc] at hc'

/-- `free` of a payload is never one of the fallback payload. -/
theorem freePayload_shrinks (m : Mem) (p : ℕ) :
    Sat (m.freePayload p)
      (fun m' => Shrinks m m' ∧ m'.payloads.cell fallback = m.payloads.cell fallback)
      (· = .badFree) := by
  rw [Mem.freePayload]
  refine sat_ite (fun _ => sat_error rfl) fun hfall => ?_
  cases m.payloads.cell p with
  | none => exact sat_error rfl
  | some x =>
      refine sat_ok ⟨⟨rfl, ?_, id, List.prefix_rfl, rfl, rfl⟩,
        BlockHeap.cell_free_of_ne (Ne.symm hfall)⟩
      intro q y hy
      by_cases hq : q = p
      · rw [hq, BlockHeap.cell_free_self] at hy
        cases hy
      · rw [BlockHeap.cell_free_of_ne hq] at hy
        exact ⟨y, y.refcount, hy, rfl⟩

/-- Releasing `u7_ok()` does nothing. -/
theorem release_u7Ok (m : Mem) : u7ErrorRelease u7Ok m = .ok m := by
  cases hnext : m.payloads.next <;> simp only [u7ErrorRelease, hnext, u7Ok, u7ErrorReleaseLoop]

/-! ### Writing a counter -/

section Counters

variable {m : Mem} {p : ℕ} {x : U7ErrorPayload} {count : U7Refcount}

@[simp] theorem links_setRefcount (m : Mem) (p : ℕ) (count : U7Refcount) (q : ℕ) :
    (m.setRefcount p count).links q = m.links q :=
  BlockHeap.sum_modify_of_eq fun _ => rfl

@[simp] theorem messages_setRefcount (m : Mem) (p : ℕ) (count : U7Refcount) (b : ℕ) :
    (m.setRefcount p count).messages b = m.messages b :=
  BlockHeap.sum_modify_of_eq fun _ => rfl

theorem cell_setRefcount_self (hx : m.payloads.cell p = some x) :
    (m.setRefcount p count).payloads.cell p = some { x with refcount := count } := by
  simp [Mem.setRefcount, hx]

theorem cell_setRefcount_of_ne {q : ℕ} (hq : q ≠ p) :
    (m.setRefcount p count).payloads.cell q = m.payloads.cell q :=
  BlockHeap.cell_modify_of_ne hq

/-- A write to a counter changes nothing else of any payload. -/
theorem cell_setRefcount {q : ℕ} {y : U7ErrorPayload}
    (hy : (m.setRefcount p count).payloads.cell q = some y) :
    ∃ z c, m.payloads.cell q = some z ∧ y = { z with refcount := c } := by
  by_cases hq : q = p
  · subst hq
    cases hz : m.payloads.cell q with
    | none => simp [Mem.setRefcount, hz] at hy
    | some z =>
        rw [cell_setRefcount_self hz] at hy
        obtain rfl := Option.some.inj hy
        exact ⟨z, count, rfl, rfl⟩
  · rw [cell_setRefcount_of_ne hq] at hy
    exact ⟨y, y.refcount, hy, rfl⟩

theorem cell_setRefcount_eq_none {q : ℕ} :
    (m.setRefcount p count).payloads.cell q = none ↔ m.payloads.cell q = none := by
  by_cases hq : q = p
  · subst hq
    simp [Mem.setRefcount]
  · rw [cell_setRefcount_of_ne hq]

theorem shrinks_setRefcount (m : Mem) (p : ℕ) (count : U7Refcount) :
    Shrinks m (m.setRefcount p count) where
  next := rfl
  payload := cell_setRefcount
  buffer := id
  disposed := List.prefix_rfl
  mallocs := rfl
  prints := rfl

/-- The invariant survives a write to the counter of `p` that counts a new number of
outside pointers to `p`, provided it is not the first or the last reference that comes
or goes. -/
theorem Owned.setRefcount {out out' loose : ℕ → ℕ} (h : Owned m out loose)
    (hx : m.payloads.cell p = some x)
    (hcount : count = BitVec.ofNat 32 (out' p + m.links p + pin p))
    (hout : ∀ q, q ≠ p → out' q = out q)
    (hheld : p ≠ fallback → 0 < out' p + m.links p) :
    Owned (m.setRefcount p count) out' loose where
  count := by
    intro q y hy
    rw [links_setRefcount]
    by_cases hq : q = p
    · subst hq
      rw [cell_setRefcount_self hx] at hy
      rw [← Option.some.inj hy]
      exact hcount
    · rw [cell_setRefcount_of_ne hq] at hy
      rw [hout q hq]
      exact h.count hy
  live := by
    intro q hpos
    rw [links_setRefcount] at hpos
    by_cases hq : q = p
    · subst hq
      exact ⟨_, cell_setRefcount_self hx⟩
    · rw [cell_setRefcount_of_ne hq]
      rw [hout q hq] at hpos
      exact h.live hpos
  held := by
    intro q y hy hfall
    rw [links_setRefcount]
    by_cases hq : q = p
    · subst hq
      exact hheld hfall
    · rw [cell_setRefcount_of_ne hq] at hy
      rw [hout q hq]
      exact h.held hy hfall
  pinned := by
    obtain ⟨c, hc⟩ := h.pinned
    by_cases hq : fallback = p
    · subst hq
      exact ⟨count, by rw [cell_setRefcount_self hc]⟩
    · exact ⟨c, (cell_setRefcount_of_ne hq).trans hc⟩
  onHeap := by
    intro q y hy hfall
    obtain ⟨z, c, hz, rfl⟩ := cell_setRefcount hy
    exact ⟨(h.onHeap hz hfall).disposeFn, (h.onHeap hz hfall).message⟩
  wellFormed := by
    intro q y hy
    obtain ⟨z, c, hz, hyz⟩ := cell_setRefcount hy
    have hwell := h.wellFormed hz
    rwa [hyz]
  causeLt := by
    intro q r y hy hr
    obtain ⟨z, c, hz, rfl⟩ := cell_setRefcount hy
    exact h.causeLt hz hr
  buffer := by
    intro b
    rw [messages_setRefcount]
    exact h.buffer b
  nodup := h.nodup
  disposed := by
    intro q
    rw [cell_setRefcount_eq_none]
    exact h.disposed

/-- The program's reference keeps the fallback payload alive without any other. -/
theorem Owned.cell_fallback {out loose : ℕ → ℕ} (h : Owned m out loose) :
    ∃ x, m.payloads.cell fallback = some x := by
  obtain ⟨c, hc⟩ := h.pinned
  exact ⟨_, hc⟩

/-- **`u7_refcount_increment`** of a live payload gives one more pointer to it. -/
theorem Owned.increment {out loose : ℕ → ℕ} (h : Owned m out loose)
    (hx : m.payloads.cell p = some x) :
    Owned (m.setRefcount p (u7RefcountIncrement x.refcount)) (out + refsTo (some p))
      loose := by
  refine h.setRefcount hx ?_ ?_ ?_
  · rw [h.count hx, u7RefcountIncrement_ofNat, Pi.add_apply, refsTo_self]
    congr 1
    omega
  · intro q hq
    rw [Pi.add_apply, refsTo_of_ne hq.symm, add_zero]
  · intro _
    rw [Pi.add_apply, refsTo_self]
    omega

/-- A decrement that is not the last one takes one pointer. -/
theorem Owned.decrement {out loose : ℕ → ℕ} (h : Owned m (out + refsTo (some p)) loose)
    (hx : m.payloads.cell p = some x) (hmany : 0 < out p + m.links p + pin p) :
    Owned (m.setRefcount p (BitVec.ofNat 32 (out p + m.links p + pin p))) out loose := by
  refine h.setRefcount hx rfl ?_ ?_
  · intro q hq
    rw [Pi.add_apply, refsTo_of_ne hq.symm, add_zero]
  · intro hfall
    rw [pin, refsTo_of_ne (Ne.symm hfall)] at hmany
    omega

end Counters

/-! ### Disposal -/

section Disposal

variable {m : Mem} {p b : ℕ} {x : U7ErrorPayload} {out loose : ℕ → ℕ}

/-- The memory after the disposal of payload `p` with its message in buffer `b`. -/
def Mem.dispose (m : Mem) (p b : ℕ) : Mem :=
  { m with
    payloads := m.payloads.free p
    buffers := m.buffers.free b
    disposed := m.disposed ++ [p] }

theorem links_dispose (hx : m.payloads.cell p = some x) (b q : ℕ) :
    (m.dispose p b).links q + refsTo x.cause.payload q = m.links q :=
  BlockHeap.sum_free hx _

theorem messages_dispose (hx : m.payloads.cell p = some x) (b c : ℕ) :
    (m.dispose p b).messages c + refsTo x.message.buffer c = m.messages c :=
  BlockHeap.sum_free hx _

theorem cell_dispose {q : ℕ} {y : U7ErrorPayload}
    (hy : (m.dispose p b).payloads.cell q = some y) :
    q ≠ p ∧ m.payloads.cell q = some y := by
  have hq : q ≠ p := by
    rintro rfl
    rw [Mem.dispose, BlockHeap.cell_free_self] at hy
    cases hy
  rw [Mem.dispose, BlockHeap.cell_free_of_ne hq] at hy
  exact ⟨hq, hy⟩

theorem shrinks_dispose (m : Mem) (p b : ℕ) : Shrinks m (m.dispose p b) where
  next := rfl
  payload := fun hy => ⟨_, _, (cell_dispose hy).2, rfl⟩
  buffer := by
    intro c bytes hc
    by_cases hcb : c = b
    · subst hcb
      rw [Mem.dispose, BlockHeap.cell_free_self] at hc
      cases hc
    · rwa [Mem.dispose, BlockHeap.cell_free_of_ne hcb] at hc
  disposed := List.prefix_append _ _
  mallocs := rfl
  prints := rfl

/-- The message of a live payload lies in a live buffer that nothing else owns. -/
theorem Owned.message_live (h : Owned m out loose) (hx : m.payloads.cell p = some x)
    (hb : x.message = .block b) :
    (∃ bytes, m.buffers.cell b = some bytes) ∧ m.messages b + loose b = 1 := by
  have hle : 1 ≤ m.messages b := by
    have hmessages := BlockHeap.le_sum hx fun y => refsTo y.message.buffer b
    simp only [hb, CharPtr.buffer, refsTo_self] at hmessages
    exact hmessages
  have hbuffer := h.buffer b
  cases hc : m.buffers.cell b with
  | none =>
      simp only [hc, Option.isSome_none, Bool.false_eq_true, if_false] at hbuffer
      omega
  | some bytes =>
      refine ⟨⟨bytes, rfl⟩, ?_⟩
      simpa only [hc, Option.isSome_some, if_true] using hbuffer

/-- `dispose_fn` frees the message and the payload. -/
theorem call_disposeFn {bytes : List (Option UInt8)} (count : U7Refcount)
    (hx : m.payloads.cell p = some x) (hb : x.message = .block b)
    (hbytes : m.buffers.cell b = some bytes) (hfall : p ≠ fallback) :
    DisposeFn.call .errnoCategoryPayload p (m.setRefcount p count) =
      .ok (m.dispose p b) := by
  have hbuffers : (m.setRefcount p count).buffers.cell b = some bytes := hbytes
  have hcell : (m.setRefcount p count).payloads.cell p = some { x with refcount := count } :=
    cell_setRefcount_self hx
  simp only [DisposeFn.call, u7ErrnoCategoryPayloadDisposeFn, Mem.deref, hcell, ok_bind, hb,
    Mem.freeMessage, hbuffers, Mem.freePayload, hfall, if_false]
  simp [Mem.dispose, Mem.setRefcount]

theorem Owned.call_disposeFn (h : Owned m out loose) (count : U7Refcount)
    (hx : m.payloads.cell p = some x) (hb : x.message = .block b)
    (hfall : p ≠ fallback) :
    DisposeFn.call .errnoCategoryPayload p (m.setRefcount p count) =
      .ok (m.dispose p b) := by
  obtain ⟨⟨bytes, hbytes⟩, -⟩ := h.message_live hx hb
  exact U7Init.call_disposeFn count hx hb hbytes hfall

/-- Disposing of a payload whose last reference is given up hands its reference to the
cause to whoever disposes of it. -/
theorem Owned.dispose (h : Owned m (out + refsTo (some p)) loose)
    (hx : m.payloads.cell p = some x) (hb : x.message = .block b)
    (hfall : p ≠ fallback) (hlast : out p + m.links p = 0) :
    Owned (m.dispose p b) (out + refsTo x.cause.payload) loose where
  count := by
    intro q y hy
    obtain ⟨hq, hy⟩ := cell_dispose hy
    have hlinks := links_dispose hx b q
    rw [h.count hy, Pi.add_apply, Pi.add_apply, refsTo_of_ne hq.symm, ← hlinks]
    congr 1
    omega
  live := by
    intro q hpos
    have hlinks := links_dispose hx b q
    rw [Pi.add_apply] at hpos
    have hq : q ≠ p := by
      rintro rfl
      omega
    rw [Mem.dispose, BlockHeap.cell_free_of_ne hq]
    refine h.live ?_
    rw [Pi.add_apply]
    omega
  held := by
    intro q y hy hq0
    obtain ⟨hq, hy⟩ := cell_dispose hy
    have hlinks := links_dispose hx b q
    have hheld := h.held hy hq0
    rw [Pi.add_apply, refsTo_of_ne hq.symm] at hheld
    rw [Pi.add_apply]
    omega
  pinned := by
    obtain ⟨c, hc⟩ := h.pinned
    exact ⟨c, (BlockHeap.cell_free_of_ne (Ne.symm hfall)).trans hc⟩
  onHeap := fun hy hq0 => h.onHeap (cell_dispose hy).2 hq0
  wellFormed := fun hy => h.wellFormed (cell_dispose hy).2
  causeLt := fun hy hr => h.causeLt (cell_dispose hy).2 hr
  buffer := by
    intro c
    have hmessages := messages_dispose hx b c
    rw [hb, CharPtr.buffer] at hmessages
    by_cases hcb : c = b
    · subst hcb
      obtain ⟨-, hone⟩ := h.message_live hx hb
      rw [refsTo_self] at hmessages
      rw [Mem.dispose, BlockHeap.cell_free_self]
      simp only [Option.isSome_none, Bool.false_eq_true, if_false]
      rw [Mem.dispose] at hmessages
      omega
    · rw [refsTo_of_ne (Ne.symm hcb), add_zero] at hmessages
      rw [hmessages, h.buffer c, Mem.dispose, BlockHeap.cell_free_of_ne hcb]
  nodup := by
    refine List.nodup_append.mpr ⟨h.nodup, List.nodup_singleton p, ?_⟩
    rintro q hq r hr rfl
    rw [List.mem_singleton.mp hr, h.disposed, hx] at hq
    exact absurd hq.2 (by simp)
  disposed := by
    intro q
    have hnext := BlockHeap.lt_next hx
    rw [Mem.dispose, List.mem_append, List.mem_singleton, h.disposed]
    by_cases hq : q = p
    · subst hq
      simp [hnext]
    · rw [BlockHeap.cell_free_of_ne hq, BlockHeap.next_free]
      simp [hq]

end Disposal

/-! ### The start of the program -/

/-- At the start there is only the fallback payload. -/
theorem cell_start {p : ℕ} {x : U7ErrorPayload} (hx : Mem.start.payloads.cell p = some x) :
    p = fallback ∧ x = u7ErrnoCategoryStaticFallbackPayload := by
  by_cases hp : p = fallback
  · subst hp
    exact ⟨rfl, (Option.some.inj hx).symm⟩
  · cases (BlockHeap.cell_alloc_of_ne hp).symm.trans hx

theorem owned_start : Owned Mem.start 0 0 where
  count := by
    intro p x hx
    obtain ⟨rfl, rfl⟩ := cell_start hx
    rfl
  live := by
    intro p hpos
    have hlinks : Mem.start.links p = 0 := rfl
    rw [hlinks] at hpos
    exact absurd hpos (lt_irrefl 0)
  held := fun hx hp => absurd (cell_start hx).1 hp
  pinned := ⟨u7RefcountInit, rfl⟩
  onHeap := fun hx hp => absurd (cell_start hx).1 hp
  wellFormed := by
    intro p x hx
    obtain ⟨rfl, rfl⟩ := cell_start hx
    exact ⟨fun _ => rfl, fun _ => rfl⟩
  causeLt := by
    intro p q x hx hq
    obtain ⟨rfl, rfl⟩ := cell_start hx
    cases hq
  buffer := fun _ => rfl
  nodup := List.nodup_nil
  disposed := by
    intro p
    by_cases hp : p = fallback
    · subst hp
      simp [Mem.start, fallback, BlockHeap.alloc]
    · have hlt : ¬ p < 1 := by
        rw [fallback] at hp
        omega
      simp [Mem.start, hlt]

/-! ### The operations keep the invariant -/

section Operations

variable {m : Mem} {out loose : ℕ → ℕ}

/-- `u7_error_acquire` of an error someone owns gives one more reference. -/
theorem Owned.acquire {e : U7Error} (h : Owned m out loose)
    (he : ∀ p, e.payload = some p → 0 < out p + m.links p) :
    Sat (u7ErrorAcquire e m)
      (fun r => r.1 = e ∧ Owned r.2 (out + refsTo e.payload) loose ∧ Shrinks m r.2)
      (fun _ => False) := by
  rw [u7ErrorAcquire]
  cases hp : e.payload with
  | none => exact sat_ok ⟨rfl, h, Shrinks.refl m⟩
  | some p =>
      obtain ⟨x, hx⟩ := h.live (he p hp)
      simp only [Mem.deref, hx, ok_bind]
      exact sat_ok ⟨rfl, h.increment hx, shrinks_setRefcount _ _ _⟩

/-- **The walk of `u7_error_release`** gives up one reference to the payload it starts
from. The induction is on the rounds; every payload is younger than its cause, so the
rounds do not run out. -/
theorem Owned.releaseLoop {fuel : ℕ} {o : Option ℕ} (h : Owned m (out + refsTo o) loose)
    (hbound : ∀ q, out q + refsTo o q + m.links q < 2 ^ 32)
    (hfuel : ∀ p, o = some p → p < fuel) :
    Sat (u7ErrorReleaseLoop fuel o m) (fun m' => Owned m' out loose ∧ Shrinks m m')
      (fun _ => False) := by
  induction fuel generalizing m o with
  | zero =>
      cases o with
      | none => exact sat_ok ⟨h, Shrinks.refl m⟩
      | some p => exact absurd (hfuel p rfl) (Nat.not_lt_zero p)
  | succ fuel ih =>
      cases o with
      | none => exact sat_ok ⟨h, Shrinks.refl m⟩
      | some p =>
          have hpos : 0 < out p + refsTo (some p) p := by simp
          obtain ⟨x, hx⟩ := h.live (p := p) (by rw [Pi.add_apply]; omega)
          have hbp := hbound p
          have hpin : pin p ≤ 1 := by
            rw [pin, refsTo]
            split <;> omega
          -- the counter stands for all references, this one included
          have hcount : x.refcount = BitVec.ofNat 32 (out p + m.links p + pin p + 1) := by
            rw [h.count hx, Pi.add_apply, refsTo_self]
            congr 1
            omega
          rw [refsTo_self] at hbp
          have hdecrement := u7RefcountSkewedDecrement_ofNat
            (n := out p + m.links p + pin p + 1) (by omega) (by omega)
          simp only [u7ErrorReleaseLoop, Mem.deref, hx, ok_bind, hcount, hdecrement]
          by_cases hlast : out p + m.links p + pin p = 0
          · -- the last reference: only a payload on the heap can lose it
            have hfall : p ≠ fallback := by
              rintro rfl
              rw [pin, refsTo_self] at hlast
              omega
            obtain ⟨b, hb⟩ := (h.onHeap hx hfall).message
            have hcall := h.call_disposeFn 1#32 hx hb hfall
            simp only [hlast, zero_add, if_true, Bool.false_eq_true, if_false,
              (h.onHeap hx hfall).disposeFn, hcall, ok_bind]
            have hlinks := links_dispose hx b
            refine (ih (h.dispose hx hb hfall (by omega)) ?_ ?_).mono ?_ fun _ => id
            · intro q
              have := hbound q
              have := hlinks q
              omega
            · intro q hq
              have := h.causeLt hx hq
              have := hfuel p rfl
              omega
            · rintro m' ⟨howned, hshrinks⟩
              exact ⟨howned, (shrinks_dispose m p b).trans hshrinks⟩
          · have hne : out p + m.links p + pin p + 1 ≠ 1 := by omega
            simp only [hne, if_false, if_true]
            exact sat_ok ⟨h.decrement hx (by omega), shrinks_setRefcount _ _ _⟩

/-- `u7_error_release` gives up the reference it is called with. -/
theorem Owned.release {e : U7Error} (h : Owned m (out + refsTo e.payload) loose)
    (hbound : ∀ q, out q + refsTo e.payload q + m.links q < 2 ^ 32) :
    Sat (u7ErrorRelease e m) (fun m' => Owned m' out loose ∧ Shrinks m m')
      (fun _ => False) := by
  refine h.releaseLoop hbound fun p hp => ?_
  obtain ⟨x, hx⟩ := h.live (p := p) (by rw [Pi.add_apply, hp, refsTo_self]; omega)
  exact BlockHeap.lt_next hx

/-- `u7_error_clear` gives up the reference and leaves `u7_ok` behind. -/
theorem Owned.clear {e : U7Error} (h : Owned m (out + refsTo e.payload) loose)
    (hbound : ∀ q, out q + refsTo e.payload q + m.links q < 2 ^ 32) :
    Sat (u7ErrorClear e m) (fun r => r.1 = u7Ok ∧ Owned r.2 out loose ∧ Shrinks m r.2)
      (fun _ => False) :=
  (h.release hbound).bind fun _ hm => sat_ok ⟨rfl, hm⟩

end Operations

end U7Init
