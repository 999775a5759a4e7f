import U7Init.Error.Calls
import U7Init.Error.Ownership
import U7Init.Lib.Simulation

/-!
# Threads That Take Turns

The functions of `error.c` are modelled twice: as functions on the heap, with all data and
without threads, and as atomic steps of threads, without codes and texts. This module relates
the two. What a function does to the heap is what its atomic steps do if no other thread takes
one in between, so a program whose threads take turns, call by call, is one of the
interleavings, whatever the C library does.

## Main results

* `releaseLoop_steps`, `messagePath_steps`, `makePayload_steps`: the parts of the functions as
  atomic steps.
* `call_steps`: a call is a run of atomic steps of its thread.
* `turns_are_interleavings`: threads that take turns.
-/

namespace U7Init

namespace Calls

open Outcome Interleaving Simulation

/-! ### Two views of the heap -/

/-- What the atomic steps know of a payload. -/
def viewOf (x : U7ErrorPayload) : Payload :=
  ⟨x.disposeFn.isSome, x.cause.payload, x.message.buffer⟩

/-- The heap of the functions, as the atomic steps see it: what is live has its fields and its
counter, and what is not was freed once. -/
structure Sees (m : Mem) (s : Shared) : Prop where
  next : s.next = m.payloads.next
  nextBuffer : s.nextBuffer = m.buffers.next
  payload : ∀ {p : ℕ} {x : U7ErrorPayload}, m.payloads.cell p = some x →
    s.payload p = viewOf x ∧ s.count p = x.refcount
  disposed : ∀ p, s.disposed p = m.disposed.count p
  freed : ∀ p, s.freed p =
    if p < m.payloads.next ∧ m.payloads.cell p = none then 1 else 0
  freedBuffer : ∀ b, s.freedBuffer b =
    if b < m.buffers.next ∧ m.buffers.cell b = none then 1 else 0

section Heaps

variable {m m' : Mem} {s : Shared} {p b : ℕ} {x : U7ErrorPayload}

theorem sees_start : Sees Mem.start .start where
  next := rfl
  nextBuffer := rfl
  payload := by
    intro p x hx
    obtain ⟨rfl, rfl⟩ := cell_start hx
    exact ⟨rfl, rfl⟩
  disposed := fun _ => rfl
  freed := by
    intro p
    rw [if_neg]
    · rfl
    · rintro ⟨hp, hcell⟩
      obtain rfl : p = 0 := Nat.lt_one_iff.mp hp
      cases hcell
  freedBuffer := fun b => (if_neg fun h => Nat.not_lt_zero b h.1).symm

/-- Texts and counts of calls are not seen. -/
theorem Sees.congr (h : Sees m s) (hpayloads : m'.payloads = m.payloads)
    (hdisposed : m'.disposed = m.disposed) (hnext : m'.buffers.next = m.buffers.next)
    (hcell : ∀ b, m'.buffers.cell b = none ↔ m.buffers.cell b = none) : Sees m' s where
  next := hpayloads ▸ h.next
  nextBuffer := h.nextBuffer.trans hnext.symm
  payload := fun hx => h.payload (hpayloads ▸ hx)
  disposed := hdisposed ▸ h.disposed
  freed := hpayloads ▸ h.freed
  freedBuffer := by
    intro b
    rw [h.freedBuffer, hnext]
    simp only [hcell]

/-- A new buffer. -/
theorem Sees.newBuffer (h : Sees m s) {bytes : List (Option UInt8)}
    (hpayloads : m'.payloads = m.payloads) (hdisposed : m'.disposed = m.disposed)
    (hbuffers : m'.buffers = m.buffers.alloc bytes) : Sees m' s.malloc where
  next := hpayloads ▸ h.next
  nextBuffer := by
    rw [hbuffers, BlockHeap.next_alloc, ← h.nextBuffer]
    rfl
  payload := fun hx => h.payload (hpayloads ▸ hx)
  disposed := hdisposed ▸ h.disposed
  freed := hpayloads ▸ h.freed
  freedBuffer := by
    intro b
    change s.freedBuffer b = _
    rw [h.freedBuffer, hbuffers, BlockHeap.next_alloc]
    by_cases hb : b = m.buffers.next
    · rw [hb, BlockHeap.cell_alloc_self, if_neg fun h => absurd h.1 (lt_irrefl _),
        if_neg fun h => Option.some_ne_none _ h.2]
    · rw [BlockHeap.cell_alloc_of_ne hb]
      refine if_congr (and_congr_left fun _ => ?_) rfl rfl
      omega

/-- A buffer that is freed. -/
theorem Sees.freeBuffer (h : Sees m s) {bytes : List (Option UInt8)}
    (hb : m.buffers.cell b = some bytes) (hpayloads : m'.payloads = m.payloads)
    (hdisposed : m'.disposed = m.disposed) (hbuffers : m'.buffers = m.buffers.free b) :
    Sees m' (s.freeBuffer (some b)) where
  next := hpayloads ▸ h.next
  nextBuffer := by
    rw [hbuffers, BlockHeap.next_free, ← h.nextBuffer]
    rfl
  payload := fun hx => h.payload (hpayloads ▸ hx)
  disposed := hdisposed ▸ h.disposed
  freed := hpayloads ▸ h.freed
  freedBuffer := by
    intro c
    rw [freeBuffer_freedBuffer, h.freedBuffer, hbuffers, BlockHeap.next_free]
    by_cases hc : c = b
    · subst hc
      rw [BlockHeap.cell_free_self, hb, if_neg fun h => Option.some_ne_none _ h.2,
        if_pos ⟨BlockHeap.lt_next hb, rfl⟩, Walk.points_self]
    · rw [BlockHeap.cell_free_of_ne hc, Walk.points_of_ne (Ne.symm hc), add_zero]

/-- `free` of a message. -/
theorem Sees.freeMessage (h : Sees m s) (message : CharPtr) :
    Sat (m.freeMessage message) (fun m' => Sees m' (s.freeBuffer message.buffer))
      (fun _ => True) := by
  cases message with
  | null => exact sat_ok h
  | fallbackMessage => exact sat_error trivial
  | block b =>
      rw [Mem.freeMessage]
      cases hb : m.buffers.cell b with
      | none => exact sat_error trivial
      | some bytes => exact sat_ok (h.freeBuffer hb rfl rfl rfl)

/-- A write to a counter. -/
theorem Sees.setRefcount (h : Sees m s) (hx : m.payloads.cell p = some x) (count : U7Refcount) :
    Sees (m.setRefcount p count) (s.setCount p count) where
  next := h.next
  nextBuffer := h.nextBuffer
  payload := by
    intro q y hy
    by_cases hq : q = p
    · subst hq
      rw [cell_setRefcount_self hx] at hy
      obtain rfl := Option.some.inj hy
      have hcount : (s.setCount q count).count q = count := by
        simp only [Shared.setCount, Function.update_self]
      exact ⟨(h.payload hx).1, hcount⟩
    · rw [cell_setRefcount_of_ne hq] at hy
      exact ⟨(h.payload hy).1, (Function.update_of_ne hq _ _).trans (h.payload hy).2⟩
  disposed := h.disposed
  freed := by
    intro q
    simp only [cell_setRefcount_eq_none]
    exact h.freed q
  freedBuffer := h.freedBuffer

/-- A payload that is freed. -/
theorem Sees.freePayload (h : Sees m s) (p : ℕ) :
    Sat (m.freePayload p) (fun m' => Sees m' (s.freePayload p)) (fun _ => True) := by
  rw [Mem.freePayload]
  refine sat_ite (fun _ => sat_error trivial) fun _ => ?_
  cases hx : m.payloads.cell p with
  | none => exact sat_error trivial
  | some x =>
      refine sat_ok ⟨h.next, h.nextBuffer, fun {q y} hy => ?_, h.disposed, fun q => ?_,
        h.freedBuffer⟩
      · by_cases hq : q = p
        · rw [hq] at hy
          cases BlockHeap.cell_free_self.symm.trans hy
        · rw [BlockHeap.cell_free_of_ne hq] at hy
          exact h.payload hy
      · have hfreed := h.freed q
        by_cases hq : q = p
        · subst hq
          rw [hx, if_neg fun h => Option.some_ne_none _ h.2] at hfreed
          rw [BlockHeap.cell_free_self, BlockHeap.next_free,
            if_pos ⟨BlockHeap.lt_next hx, rfl⟩]
          change Function.update s.freed q (s.freed q + 1) q = 1
          rw [Function.update_self, hfreed]
        · rw [BlockHeap.cell_free_of_ne hq, BlockHeap.next_free, ← hfreed]
          exact Function.update_of_ne hq _ _

/-- A call of `dispose_fn` is counted. -/
theorem Sees.logged (h : Sees m s) (p : ℕ) :
    Sees { m with disposed := m.disposed ++ [p] }
      { s with disposed := Function.update s.disposed p (s.disposed p + 1) } where
  next := h.next
  nextBuffer := h.nextBuffer
  payload := h.payload
  disposed := by
    intro q
    dsimp only
    rw [List.count_append, ← h.disposed]
    by_cases hq : q = p
    · subst hq
      rw [Function.update_self, List.count_singleton_self]
    · rw [Function.update_of_ne hq, List.count_eq_zero_of_not_mem
        fun hmem => hq (List.mem_singleton.mp hmem), add_zero]
  freed := h.freed
  freedBuffer := h.freedBuffer

/-- **`dispose_fn`** frees the message, and then the payload. -/
theorem Sees.dispose (h : Sees m s) (hx : m.payloads.cell p = some x) (disposeFn : DisposeFn) :
    Sat (disposeFn.call p m) (fun m' => Sees m' ((s.dispose p).freePayload p))
      (fun _ => True) := by
  cases disposeFn
  rw [DisposeFn.call, u7ErrnoCategoryPayloadDisposeFn, Mem.deref]
  simp only [hx, ok_bind]
  refine ((h.logged p).freeMessage x.message).bind fun m₁ h₁ => ?_
  have hdispose : s.dispose p =
      Shared.freeBuffer { s with
        disposed := Function.update s.disposed p (s.disposed p + 1) } x.message.buffer := by
    have hmessage : (s.payload p).message = x.message.buffer := by rw [(h.payload hx).1, viewOf]
    rw [Shared.dispose, hmessage]
    cases x.message.buffer <;> rfl
  rw [hdispose]
  exact h₁.freePayload p

/-- A new payload. -/
theorem Sees.create (h : Sees m s) {n : ℤ} {cause : U7Error}
    (hpayloads : m'.payloads = m.payloads.alloc (errnoPayload (.block b) n cause))
    (hdisposed : m'.disposed = m.disposed) (hbuffers : m'.buffers = m.buffers) :
    Sees m' (s.create cause.payload b) where
  next := by
    rw [hpayloads, BlockHeap.next_alloc, ← h.next]
    rfl
  nextBuffer := hbuffers ▸ h.nextBuffer
  payload := by
    intro p x hx
    rw [hpayloads] at hx
    simp only [Shared.create, h.next]
    by_cases hp : p = m.payloads.next
    · rw [hp, BlockHeap.cell_alloc_self] at hx
      obtain rfl := Option.some.inj hx
      rw [hp, Function.update_self, Function.update_self]
      exact ⟨rfl, rfl⟩
    · rw [BlockHeap.cell_alloc_of_ne hp] at hx
      rw [Function.update_of_ne hp, Function.update_of_ne hp]
      exact h.payload hx
  disposed := hdisposed ▸ h.disposed
  freed := by
    intro p
    change s.freed p = _
    rw [h.freed, hpayloads, BlockHeap.next_alloc]
    by_cases hp : p = m.payloads.next
    · rw [hp, BlockHeap.cell_alloc_self, if_neg fun h => absurd h.1 (lt_irrefl _),
        if_neg fun h => Option.some_ne_none _ h.2]
    · rw [BlockHeap.cell_alloc_of_ne hp]
      refine if_congr (and_congr_left fun _ => ?_) rfl rfl
      omega
  freedBuffer := hbuffers ▸ h.freedBuffer

end Heaps

/-! ### The functions as steps -/

/-- On its own the thread gets from `l` to `l'`, with the heap of the functions as it is then,
and hands over no errors. -/
def Takes {ι : Type*} (i : ι) (s : Shared) (l : Thread) (m' : Mem) (l' : Thread) : Prop :=
  ∃ s', Solo Next i s l s' l' ∧ Sees m' s' ∧ s'.mailbox = s.mailbox

section Steps

variable {ι : Type*} {i : ι} {ℓ : Libc} {m m' : Mem} {s : Shared} {l l' : Thread}
  {hs : Multiset (Option ℕ)} {o : Option ℕ} {b : ℕ}

/-- A computation goes on where the thread has got to. -/
theorem Takes.sat {α : Type} {x : Except Fault α} {mem : α → Mem} {thread : α → Thread}
    {E : Fault → Prop} (h : Takes i s l m l')
    (hx : ∀ s', Sees m s' → Sat x (fun r => Takes i s' l' (mem r) (thread r)) E) :
    Sat x (fun r => Takes i s l (mem r) (thread r)) E := by
  obtain ⟨s', hsolo, hsees, hmailbox⟩ := h
  refine (hx s' hsees).mono ?_ fun _ => id
  rintro r ⟨s'', hsolo', hsees', hmailbox'⟩
  exact ⟨s'', hsolo.trans hsolo', hsees', hmailbox'.trans hmailbox⟩

/-- **The loop of `u7_error_release`** as atomic steps. The induction is on the rounds. -/
theorem releaseLoop_steps (after : After) (hs : Multiset (Option ℕ)) {fuel : ℕ}
    {payload : Option ℕ} (h : Sees m s) :
    Sat (u7ErrorReleaseLoop fuel payload m)
      (fun m' => Takes i s ⟨.loop after payload, hs⟩ m' (after.resume hs)) (fun _ => True) := by
  induction fuel generalizing payload m s with
  | zero =>
      cases payload with
      | none => exact sat_ok ⟨s, .single .loopNull, h, rfl⟩
      | some p => exact sat_error trivial
  | succ fuel ih =>
      cases payload with
      | none => exact sat_ok ⟨s, .single .loopNull, h, rfl⟩
      | some p =>
          rw [u7ErrorReleaseLoop, Mem.deref]
          cases hx : m.payloads.cell p with
          | none => exact sat_error trivial
          | some x =>
              obtain ⟨hview, hload⟩ := h.payload hx
              simp only [ok_bind]
              by_cases hone : x.refcount = 1#32
              · have hskewed : u7RefcountSkewedDecrement x.refcount = (x.refcount, false) := by
                  rw [hone]
                  rfl
                have hsees : Sees (m.setRefcount p x.refcount) s := by
                  have hsame := h.setRefcount hx x.refcount
                  rwa [← hload, setCount_self, hload] at hsame
                have hbody : Solo Next i s ⟨.loop after (some p), hs⟩ s
                    ⟨.dispose after p x.cause.payload, hs⟩ := by
                  have hcause : (s.payload p).cause = x.cause.payload := by rw [hview, viewOf]
                  rw [← hcause]
                  exact (Solo.single (.loadOne (hload.trans hone))).tail .readCause
                have hdisposes : (s.payload p).disposes = x.disposeFn.isSome := by
                  rw [hview, viewOf]
                rw [hskewed]
                simp only [Bool.false_eq_true, if_false]
                cases hdispose : x.disposeFn with
                | none =>
                    rw [hdispose] at hdisposes
                    have hround : Takes i s ⟨.loop after (some p), hs⟩ _
                        ⟨.loop after x.cause.payload, hs⟩ :=
                      ⟨s, hbody.tail (.noDispose hdisposes), hsees, rfl⟩
                    exact hround.sat fun s₁ h₁ => ih h₁
                | some disposeFn =>
                    rw [hdispose] at hdisposes
                    refine (hsees.dispose (cell_setRefcount_self hx) disposeFn).bind
                      fun m₁ h₁ => ?_
                    have hround : Takes i s ⟨.loop after (some p), hs⟩ m₁
                        ⟨.loop after x.cause.payload, hs⟩ :=
                      ⟨_, (hbody.tail (.dispose hdisposes)).tail .free, h₁, dispose_mailbox⟩
                    exact hround.sat fun s₁ h₁ => ih h₁
              · have hskewed : u7RefcountSkewedDecrement x.refcount =
                    ((u7RefcountDecrement x.refcount).1, true) := by
                  simp [u7RefcountSkewedDecrement, u7RefcountDecrement, hone]
                have hmany : s.count p ≠ 1#32 := by rwa [hload]
                have hmore : (u7RefcountDecrement (s.count p)).2 = true := by
                  simp [u7RefcountDecrement, hmany]
                rw [hskewed]
                simp only [if_true]
                refine sat_ok ⟨_, (Solo.single (.loadMany hmany)).tail (.subMany hmore), ?_, rfl⟩
                rw [hload]
                exact h.setRefcount hx _

/-! ### Making a message -/

/-- A call of `malloc`: a buffer, or `NULL`. -/
theorem Sees.malloc (h : Sees m s) (ℓ : Libc) (size : ℕ) :
    (∃ m', m.malloc ℓ size = (.null, m') ∧ Sees m' s) ∨
      ∃ m', m.malloc ℓ size = (.block s.nextBuffer, m') ∧ Sees m' s.malloc := by
  rw [Mem.malloc, h.nextBuffer]
  cases ℓ.allocates m.mallocs with
  | false => exact .inl ⟨_, rfl, h.congr rfl rfl rfl fun _ => Iff.rfl⟩
  | true => exact .inr ⟨_, rfl, h.newBuffer rfl rfl rfl⟩

/-- A write to a buffer is not seen. -/
theorem Sees.store (h : Sees m s) (message : CharPtr) (offset : ℕ) (bytes : List UInt8) :
    Sat (m.store message offset bytes) (fun m' => Sees m' s) (fun _ => True) := by
  cases message with
  | null => exact sat_error trivial
  | fallbackMessage => exact sat_error trivial
  | block b =>
      rw [Mem.store]
      cases hb : m.buffers.cell b with
      | none => exact sat_error trivial
      | some old =>
          refine sat_ite (fun _ => sat_ok (h.congr rfl rfl rfl fun c => ?_)) fun _ =>
            sat_error trivial
          by_cases hc : c = b
          · subst hc
            simp [hb]
          · rw [BlockHeap.cell_modify_of_ne hc]

theorem Sees.vsnprintf (h : Sees m s) (ℓ : Libc) (message : CharPtr) (size : ℕ) (format : CStr)
    (arg : List VaArg) :
    Sat (m.vsnprintf ℓ message size format arg) (fun r => Sees r.2 s) (fun _ => True) := by
  have hcounted : Sees { m with prints := m.prints + 1 } s := h.congr rfl rfl rfl fun _ => Iff.rfl
  rw [Mem.vsnprintf]
  exact (hcounted.store _ _ _).bind fun m' h' => sat_ok h'

/-- The place of a thread that has come to a label. -/
def labelPlace (cause : Option ℕ) : Label → Place
  | .ret message _ => .ret cause message.buffer
  | .fail message => .fail cause message.buffer

/-- The call of `u7_verrorf_with_cause` has come to a label, with a buffer if it is `ret`. -/
def Arrives (i : ι) (s : Shared) (hs : Multiset (Option ℕ)) (o : Option ℕ) (r : Label × Mem) :
    Prop :=
  Takes i s ⟨.idle, hs⟩ r.2 ⟨labelPlace o r.1, hs.erase o⟩ ∧
    ∀ message n, r.1 = .ret message n → ∃ b, message = .block b

/-- Without memory for the message. -/
theorem arrives_null (h : Sees m s) (ho : o ∈ hs) : Arrives i s hs o (.fail .null, m) :=
  ⟨⟨s, .single (.mallocFail ho), h, rfl⟩, by rintro _ _ ⟨⟩⟩

/-- With a message that fits. -/
theorem arrives_ret (h : Sees m s.malloc) (ho : o ∈ hs) (n : ℤ) :
    Arrives i s hs o (.ret (.block s.nextBuffer) n, m) :=
  ⟨⟨_, (Solo.single (.malloc ho)).tail .short, h, rfl⟩, by
    rintro _ _ ⟨⟩
    exact ⟨_, rfl⟩⟩

/-- With a buffer, but without a message. -/
theorem arrives_fail (h : Sees m s.malloc) (ho : o ∈ hs) :
    Arrives i s hs o (.fail (.block s.nextBuffer), m) :=
  ⟨⟨_, (Solo.single (.malloc ho)).tail .shortFail, h, rfl⟩, by rintro _ _ ⟨⟩⟩

theorem emptyMessage_steps (h : Sees m s) (ho : o ∈ hs) :
    Sat (emptyMessage ℓ m) (Arrives i s hs o) (fun _ => True) := by
  rw [emptyMessage]
  rcases h.malloc ℓ 1 with ⟨m', hmalloc, h'⟩ | ⟨m', hmalloc, h'⟩
  · rw [hmalloc]
    exact sat_ite (fun _ => sat_ok (arrives_null h' ho)) fun hne => absurd rfl hne
  · rw [hmalloc]
    refine sat_ite (fun heq => CharPtr.noConfusion heq) fun _ => ?_
    exact (h'.store _ _ _).bind fun m₁ h₁ => sat_ok (arrives_ret h₁ ho 0)

theorem stringMessage_steps (h : Sees m s) (ho : o ∈ hs) (arg : List VaArg) :
    Sat (stringMessage ℓ arg m) (Arrives i s hs o) (fun _ => True) := by
  rw [stringMessage]
  refine (sat_true _).bind ?_
  rintro ⟨tmp, _⟩ -
  refine (sat_true _).bind fun n _ => ?_
  dsimp only
  rcases h.malloc ℓ (n.toNat + 1) with ⟨m', hmalloc, h'⟩ | ⟨m', hmalloc, h'⟩
  · rw [hmalloc]
    exact sat_ite (fun _ => sat_ok (arrives_null h' ho)) fun hne => absurd rfl hne
  · rw [hmalloc]
    refine sat_ite (fun heq => CharPtr.noConfusion heq) fun _ => ?_
    refine (sat_true _).bind fun size _ => (sat_true _).bind fun bytes _ => ?_
    exact (h'.store _ _ _).bind fun m₁ h₁ => sat_ok (arrives_ret h₁ ho n)

theorem precisionMessage_steps (h : Sees m s) (ho : o ∈ hs) (arg : List VaArg) :
    Sat (precisionMessage ℓ arg m) (Arrives i s hs o) (fun _ => True) := by
  rw [precisionMessage]
  refine (sat_true _).bind ?_
  rintro ⟨precision, _⟩ -
  refine (sat_true _).bind ?_
  rintro ⟨tmp, _⟩ -
  refine (sat_true _).bind fun n _ => ?_
  rw [copyMessage]
  rcases h.malloc ℓ (n.toNat + 1) with ⟨m', hmalloc, h'⟩ | ⟨m', hmalloc, h'⟩
  · rw [hmalloc]
    exact sat_ite (fun _ => sat_ok (arrives_null h' ho)) fun hne => absurd rfl hne
  · rw [hmalloc]
    refine sat_ite (fun heq => CharPtr.noConfusion heq) fun _ => ?_
    refine (sat_true _).bind fun bytes _ => (h'.store _ _ _).bind fun m₁ h₁ => ?_
    exact (h₁.store _ _ _).bind fun m₂ h₂ => sat_ok (arrives_ret h₂ ho n)

/-- **The general path** as atomic steps; `realloc` gives a buffer of another name. -/
theorem generalMessage_steps (h : Sees m s) (ho : o ∈ hs) (format : CStr) (arg : List VaArg) :
    Sat (generalMessage ℓ format arg m) (Arrives i s hs o) (fun _ => True) := by
  rw [generalMessage]
  rcases h.malloc ℓ 128 with ⟨m', hmalloc, h'⟩ | ⟨m', hmalloc, h'⟩
  · rw [hmalloc]
    exact sat_ite (fun _ => sat_ok (arrives_null h' ho)) fun hne => absurd rfl hne
  rw [hmalloc]
  refine sat_ite (fun heq => CharPtr.noConfusion heq) fun _ => ?_
  refine (h'.vsnprintf _ _ _ _ _).bind ?_
  rintro ⟨n, m₁⟩ h₁
  refine sat_ite (fun _ => sat_ok (arrives_fail h₁ ho)) fun _ =>
    sat_ite (fun _ => sat_ok (arrives_ret h₁ ho n)) fun _ => ?_
  rw [longMessage]
  refine (sat_true _).bind fun size _ => ?_
  rw [Mem.realloc]
  cases hb : m₁.buffers.cell s.nextBuffer with
  | none => exact trivial
  | some bytes =>
      dsimp only
      cases ℓ.allocates m₁.mallocs with
      | false =>
          have hfailed : Sees { m₁ with mallocs := m₁.mallocs + 1 } s.malloc :=
            h₁.congr rfl rfl rfl fun _ => Iff.rfl
          rw [if_neg Bool.false_ne_true, ok_bind]
          exact sat_ite (fun _ => sat_ok (arrives_fail hfailed ho)) fun hne => absurd rfl hne
      | true =>
          have hfreed : Sees { m₁ with buffers := m₁.buffers.free s.nextBuffer }
              (s.malloc.freeBuffer (some s.nextBuffer)) := h₁.freeBuffer hb rfl rfl rfl
          have hnew : Sees { m₁ with
              buffers := (m₁.buffers.free s.nextBuffer).alloc (resize size.toNat bytes)
              mallocs := m₁.mallocs + 1 } (s.malloc.freeBuffer (some s.nextBuffer)).malloc :=
            hfreed.newBuffer rfl rfl rfl
          have hlong : Solo Next i s ⟨.idle, hs⟩ (s.malloc.freeBuffer (some s.nextBuffer)).malloc
              ⟨.long o s.malloc.nextBuffer, hs.erase o⟩ :=
            (Solo.single (.malloc ho)).tail .realloc
          have hmailbox :
              (s.malloc.freeBuffer (some s.nextBuffer)).malloc.mailbox = s.mailbox := rfl
          rw [if_pos rfl, ok_bind, ← h₁.nextBuffer]
          refine sat_ite (fun heq => CharPtr.noConfusion heq) fun _ => ?_
          refine (sat_true _).bind fun size _ => (hnew.vsnprintf _ _ _ _ _).bind ?_
          rintro ⟨n', m₂⟩ h₂
          refine sat_ite (fun _ => sat_ok ⟨⟨_, hlong.tail .longFail, h₂, hmailbox⟩, ?_⟩) fun _ =>
            sat_ok ⟨⟨_, hlong.tail .long, h₂, hmailbox⟩, ?_⟩
          · rintro _ _ ⟨⟩
          · rintro _ _ ⟨⟩
            exact ⟨_, rfl⟩

/-- **Making a message** as atomic steps. -/
theorem messagePath_steps (h : Sees m s) (ho : o ∈ hs) (format : CStr) (arg : List VaArg) :
    Sat (messagePath ℓ format arg m) (Arrives i s hs o) (fun _ => True) := by
  rw [messagePath_eq]
  exact sat_ite (fun _ => emptyMessage_steps h ho) fun _ =>
    sat_ite (fun _ => stringMessage_steps h ho arg) fun _ =>
    sat_ite (fun _ => precisionMessage_steps h ho arg) fun _ => generalMessage_steps h ho format arg

/-- **The label `ret`**: the message lies in a buffer, or its length is negative. -/
theorem formatMessage_steps (h : Sees m s) (ho : o ∈ hs) (format : CStr) (arg : List VaArg) :
    Sat (formatMessage ℓ format arg m)
      (fun r => Takes i s ⟨.idle, hs⟩ r.2 ⟨.ret o r.1.1.buffer, hs.erase o⟩ ∧
        (r.1.2 < 0 ∨ ∃ b, r.1.1 = .block b))
      (fun _ => True) := by
  rw [formatMessage]
  refine (messagePath_steps (i := i) h ho format arg).bind ?_
  rintro ⟨label, m₁⟩ ⟨htakes, hblock⟩
  cases label with
  | ret message n => exact sat_ok ⟨htakes, .inr (hblock message n rfl)⟩
  | fail message =>
      obtain ⟨s₁, hsolo, h₁, hmailbox⟩ := htakes
      refine (h₁.freeMessage message).bind fun m₂ h₂ => sat_ok ⟨?_, .inl (by norm_num)⟩
      exact ⟨_, hsolo.tail .fail, h₂, freeBuffer_mailbox.trans hmailbox⟩

/-! ### Making a payload -/

/-- Falling back, from the walk over the causes on. -/
theorem fallback_steps (h : Sees m s) (cause : U7Error) (hs : Multiset (Option ℕ)) :
    Sat (do
        let m ← u7ErrorRelease cause m
        let x ← m.deref fallback
        .ok (fallback, m.setRefcount fallback (u7RefcountIncrement x.refcount)))
      (fun r => Takes i s ⟨.loop .fallback cause.payload, hs⟩ r.2 ⟨.idle, some r.1 ::ₘ hs⟩)
      (fun _ => True) := by
  refine (releaseLoop_steps (i := i) .fallback hs h).bind fun m₁ h₁ => ?_
  obtain ⟨s₁, hsolo, h₁, hmailbox⟩ := h₁
  rw [Mem.deref]
  cases hx : m₁.payloads.cell fallback with
  | none => exact trivial
  | some x =>
      refine sat_ok ⟨_, hsolo.tail .increment, ?_, hmailbox⟩
      have hcount := (h₁.payload hx).2
      change s₁.count 0 = x.refcount at hcount
      rw [hcount]
      exact h₁.setRefcount hx _

/-- **`u7_errno_category_make_payload_fn`** as atomic steps. -/
theorem makePayload_steps (h : Sees m s) (message : CharPtr) (n : ℤ) (cause : U7Error)
    (hmessage : n < 0 ∨ ∃ b, message = .block b) (hs : Multiset (Option ℕ)) :
    Sat (u7ErrnoCategoryMakePayloadFn ℓ message n cause m)
      (fun r => Takes i s ⟨.ret cause.payload message.buffer, hs⟩ r.2 ⟨.idle, some r.1 ::ₘ hs⟩)
      (fun _ => True) := by
  have hfalls : ∀ {m : Mem}, Sees m s → Sat (U7Init.fallbackPayload message cause m)
      (fun r => Takes i s ⟨.ret cause.payload message.buffer, hs⟩ r.2 ⟨.idle, some r.1 ::ₘ hs⟩)
      (fun _ => True) := by
    intro m h
    rw [U7Init.fallbackPayload]
    refine (h.freeMessage message).bind fun m₁ h₁ => ?_
    have hwalk : Takes i s ⟨.ret cause.payload message.buffer, hs⟩ m₁
        ⟨.loop .fallback cause.payload, hs⟩ := by
      cases hbuffer : message.buffer with
      | none =>
          rw [hbuffer] at h₁
          exact ⟨s, .single .noMessage, h₁, rfl⟩
      | some b =>
          rw [hbuffer] at h₁
          exact ⟨_, (Solo.single .createFail).tail .freeMessage, h₁, rfl⟩
    exact hwalk.sat fun s₁ h₁ => fallback_steps h₁ cause hs
  rw [u7ErrnoCategoryMakePayloadFn]
  refine sat_ite (fun _ => hfalls h) fun hn => sat_ite (fun _ => ?_) fun _ =>
    hfalls (h.congr rfl rfl rfl fun _ => Iff.rfl)
  obtain ⟨b, rfl⟩ := hmessage.resolve_left hn
  refine sat_ok ⟨_, ?_, h.create rfl rfl rfl, rfl⟩
  rw [← h.next]
  exact .single .create

/-! ### Calls -/

/-- The payload pointers of the errors that a thread owns. -/
def pointersOf (handles : Multiset U7Error) : Multiset (Option ℕ) :=
  handles.map U7Error.payload

theorem pointersOf_cons (e : U7Error) (handles : Multiset U7Error) :
    pointersOf (e ::ₘ handles) = e.payload ::ₘ pointersOf handles :=
  Multiset.map_cons _ _ _

/-- The error that a call is applied to: the thread owns it, or makes a `u7_ok()`. -/
theorem owned_steps {handles : Multiset U7Error} {e : U7Error} (s : Shared)
    (howned : e ∈ handles ∨ e = u7Ok) :
    ∃ hs, Solo Next i s ⟨.idle, pointersOf handles⟩ s ⟨.idle, hs⟩ ∧ e.payload ∈ hs ∧
      hs.erase e.payload = pointersOf (handles.erase e) := by
  by_cases hmem : e ∈ handles
  · refine ⟨_, .refl, Multiset.mem_map_of_mem _ hmem, ?_⟩
    rw [pointersOf, pointersOf, Multiset.map_erase_of_mem _ _ hmem]
  · obtain rfl := howned.resolve_left hmem
    refine ⟨_, .single .ok, Multiset.mem_cons_self _ _, ?_⟩
    rw [Multiset.erase_of_notMem hmem]
    exact Multiset.erase_cons_head _ _

/-- `u7_error_release`, and the functions that begin with it. -/
theorem release_steps (after : After) (hafter : after ≠ .fallback)
    {handles : Multiset U7Error} {e : U7Error} (h : Sees m s) (howned : e ∈ handles ∨ e = u7Ok) :
    Sat (u7ErrorRelease e m)
      (fun m' => Takes i s ⟨.idle, pointersOf handles⟩ m'
        (after.resume (pointersOf (handles.erase e))))
      (fun _ => True) := by
  obtain ⟨hs, hsolo, hmem, herase⟩ := owned_steps (i := i) s howned
  rw [← herase]
  have hcalls : Takes i s ⟨.idle, pointersOf handles⟩ m
      ⟨.loop after e.payload, hs.erase e.payload⟩ :=
    ⟨s, hsolo.tail (.release hmem hafter), h, rfl⟩
  exact hcalls.sat fun s₁ h₁ => releaseLoop_steps after _ h₁

/-- `u7_error_acquire`. -/
theorem acquire_steps {handles : Multiset U7Error} {e : U7Error} (h : Sees m s)
    (howned : e ∈ handles ∨ e = u7Ok) :
    Sat (u7ErrorAcquire e m)
      (fun r => Takes i s ⟨.idle, pointersOf handles⟩ r.2
        ⟨.idle, r.1.payload ::ₘ pointersOf handles⟩)
      (fun _ => True) := by
  rw [u7ErrorAcquire]
  cases hp : e.payload with
  | none =>
      refine sat_ok ⟨s, ?_, h, rfl⟩
      rw [hp]
      exact .single .ok
  | some p =>
      have hmem : some p ∈ pointersOf handles := by
        rcases howned with hmem | rfl
        · exact Multiset.mem_map.mpr ⟨e, hmem, hp⟩
        · cases hp
      refine ((deref_fault m p).mono (fun _ => id) fun _ _ => trivial).bind fun x hx => sat_ok ?_
      rw [hp]
      refine ⟨_, .single (.acquire hmem), ?_, rfl⟩
      rw [(h.payload hx).2]
      exact h.setRefcount hx _

/-- **`u7_verrorf_with_cause`** as atomic steps. -/
theorem verrorfWithCause_steps (errorCode : ℤ) {handles : Multiset U7Error} {cause : U7Error}
    (h : Sees m s) (howned : cause ∈ handles ∨ cause = u7Ok) (format : CStr) (arg : List VaArg) :
    Sat (u7VerrorfWithCause ℓ u7ErrnoCategory errorCode cause format arg m)
      (fun r => Takes i s ⟨.idle, pointersOf handles⟩ r.2
        ⟨.idle, r.1.payload ::ₘ pointersOf (handles.erase cause)⟩)
      (fun _ => True) := by
  rw [u7VerrorfWithCause]
  refine sat_ite (fun _ => ?_) fun _ => ?_
  · exact (release_steps (i := i) .ok (by rintro ⟨⟩) h howned).bind fun m' h' => sat_ok h'
  · obtain ⟨hs, hsolo, hmem, herase⟩ := owned_steps (i := i) s howned
    rw [← herase]
    have hcalls : Takes i s ⟨.idle, pointersOf handles⟩ m ⟨.idle, hs⟩ := ⟨s, hsolo, h, rfl⟩
    refine hcalls.sat fun s₁ h₁ => ?_
    refine (formatMessage_steps (i := i) h₁ hmem format arg).bind ?_
    rintro ⟨⟨message, n⟩, m₂⟩ ⟨htakes, hmessage⟩
    refine htakes.sat fun s₂ h₂ => ?_
    exact (makePayload_steps h₂ message n cause hmessage _).bind fun r hr => sat_ok hr

/-- **A call of a function is a run of atomic steps** of its thread. The steps begin and end
outside of all functions, with the payloads of the errors that the thread owns. -/
theorem call_steps (op : Op) {w : World} (h : Sees w.mem s) (howned : op.IsOwned w) :
    Sat (op.run ℓ w)
      (fun w' => Takes i s ⟨.idle, pointersOf w.handles⟩ w'.mem ⟨.idle, pointersOf w'.handles⟩)
      (fun _ => True) := by
  cases op with
  | verrorfWithCause errorCode cause format arg =>
      refine (verrorfWithCause_steps (i := i) errorCode h howned format arg).bind ?_
      rintro ⟨result, m'⟩ h'
      refine sat_ok ?_
      dsimp only
      rw [pointersOf_cons]
      exact h'
  | acquire e =>
      refine (acquire_steps (i := i) h howned).bind ?_
      rintro ⟨result, m'⟩ h'
      refine sat_ok ?_
      dsimp only
      rw [pointersOf_cons]
      exact h'
  | release e =>
      exact (release_steps (i := i) .done (by rintro ⟨⟩) h howned).bind fun m' h' => sat_ok h'
  | move e =>
      obtain ⟨hs, hsolo, hmem, herase⟩ := owned_steps (i := i) s howned
      dsimp only [Op.handle] at hmem herase
      have hhandles : pointersOf (e ::ₘ u7Ok ::ₘ w.handles.erase e) = none ::ₘ hs := by
        rw [Multiset.cons_swap, pointersOf_cons, pointersOf_cons, ← herase]
        exact congrArg (none ::ₘ ·) (Multiset.cons_erase hmem)
      refine sat_ok ⟨s, ?_, h, rfl⟩
      change Solo Next i s _ s ⟨.idle, pointersOf (e ::ₘ u7Ok ::ₘ w.handles.erase e)⟩
      rw [hhandles]
      exact hsolo.tail .ok
  | clear e =>
      have hclear : Sat (u7ErrorClear e w.mem)
          (fun r => r.1 = u7Ok ∧ Takes i s ⟨.idle, pointersOf w.handles⟩ r.2
            ⟨.idle, none ::ₘ pointersOf (w.handles.erase e)⟩)
          (fun _ => True) :=
        (release_steps (i := i) .ok (by rintro ⟨⟩) h howned).bind fun m' h' => sat_ok ⟨rfl, h'⟩
      refine hclear.bind ?_
      rintro ⟨e', m'⟩ ⟨rfl, h'⟩
      refine sat_ok ?_
      dsimp only
      rw [pointersOf_cons]
      exact h'

end Steps

/-! ### Taking turns -/

/-- The heap and the errors that each thread owns, between two calls. -/
structure Turns (ι : Type*) where
  mem : Mem
  handles : ι → Multiset U7Error

/-- What a thread does when it is its turn. -/
inductive Turn (ι : Type*)
  /-- It calls a function. -/
  | call (i : ι) (op : Op)
  /-- It hands an error over to another thread. -/
  | hand (i j : ι) (e : U7Error)

variable {ι : Type*} [DecidableEq ι]

/-- One turn. -/
inductive Turns.Step (ℓ : Libc) : Turns ι → Turn ι → Turns ι → Prop
  | call {t : Turns ι} {i : ι} {op : Op} {w : World} :
      op.IsOwned ⟨t.mem, t.handles i⟩ → op.run ℓ ⟨t.mem, t.handles i⟩ = .ok w →
      Step ℓ t (.call i op) ⟨w.mem, Function.update t.handles i w.handles⟩
  | hand {t : Turns ι} {i j : ι} {e : U7Error} :
      e ∈ t.handles i → i ≠ j →
      Step ℓ t (.hand i j e) ⟨t.mem, Function.update
        (Function.update t.handles i ((t.handles i).erase e)) j (e ::ₘ t.handles j)⟩

/-- The heap of the functions, seen by threads that are outside of all functions. -/
structure Turns.Shown (t : Turns ι) (c : Config ι Shared Thread) : Prop where
  sees : Sees t.mem c.shared
  loc : ∀ i, c.loc i = ⟨.idle, pointersOf (t.handles i)⟩
  mailbox : c.shared.mailbox = 0

omit [DecidableEq ι] in
theorem shown_start : Turns.Shown ⟨Mem.start, fun _ : ι => 0⟩ start where
  sees := sees_start
  loc := fun _ => rfl
  mailbox := rfl

/-- One thread has moved, and is outside of all functions again. -/
theorem loc_move {c : Config ι Shared Thread} {handles : ι → Multiset U7Error} {i : ι}
    (h : ∀ j, c.loc j = ⟨.idle, pointersOf (handles j)⟩) (s : Shared)
    (new : Multiset U7Error) (j : ι) :
    (c.move i s ⟨.idle, pointersOf new⟩).loc j =
      ⟨.idle, pointersOf (Function.update handles i new j)⟩ := by
  by_cases hj : j = i
  · subst hj
    rw [Config.move_loc_self, Function.update_self]
  · rw [Config.move_loc_of_ne _ _ _ hj, h j, Function.update_of_ne hj]

/-- **One turn** is a run of atomic steps. -/
theorem Turns.Shown.step {ℓ : Libc} {t t' : Turns ι} {turn : Turn ι} {c : Config ι Shared Thread}
    (h : t.Shown c) (hreach : Reach Next start c) (hstep : Turns.Step ℓ t turn t') :
    ∃ c', Reach Next start c' ∧ t'.Shown c' := by
  cases hstep with
  | @call i op w howned hrun =>
      obtain ⟨s', hsolo, hsees, hmailbox⟩ :=
        (call_steps (i := i) op (w := ⟨t.mem, t.handles i⟩) h.sees howned).of_eq_ok hrun
      dsimp only at hsolo
      rw [← h.loc i] at hsolo
      exact ⟨_, hreach.solo hsolo, hsees, loc_move h.loc s' w.handles,
        hmailbox.trans h.mailbox⟩
  | @hand i j e hmem hne =>
      have hput : Next i c.shared (c.loc i) .silent (c.shared.setMailbox {e.payload})
          ⟨.idle, pointersOf ((t.handles i).erase e)⟩ := by
        have hpointer : e.payload ∈ pointersOf (t.handles i) := Multiset.mem_map_of_mem _ hmem
        have hnext := Next.put (i := i) (s := c.shared) hpointer
        rwa [h.mailbox, ← h.loc i, pointersOf, ← Multiset.map_erase_of_mem _ _ hmem] at hnext
      have hreach₁ := hreach.move i hput
      have hloc₁ := loc_move (i := i) h.loc (c.shared.setMailbox {e.payload})
        ((t.handles i).erase e)
      have htake : Next j (c.shared.setMailbox {e.payload})
          ((c.move i (c.shared.setMailbox {e.payload})
            ⟨.idle, pointersOf ((t.handles i).erase e)⟩).loc j) .silent (c.shared.setMailbox 0)
          ⟨.idle, pointersOf (e ::ₘ t.handles j)⟩ := by
        have hnext : Next j _ ⟨.idle, pointersOf (t.handles j)⟩ _ _ _ :=
          .take (s := c.shared.setMailbox {e.payload}) (Multiset.mem_singleton_self e.payload)
        have hempty : (c.shared.setMailbox {e.payload}).mailbox.erase e.payload = 0 :=
          Multiset.erase_cons_head e.payload 0
        rw [hempty] at hnext
        rw [hloc₁ j, Function.update_of_ne (Ne.symm hne), pointersOf_cons]
        exact hnext
      refine ⟨_, hreach₁.move j htake, ?_, loc_move hloc₁ _ (e ::ₘ t.handles j), rfl⟩
      exact ⟨h.sees.next, h.sees.nextBuffer, h.sees.payload, h.sees.disposed, h.sees.freed,
        h.sees.freedBuffer⟩

/-- **Threads that take turns are interleaved.** Whatever the C library does, a call that a
thread makes while no other thread takes a step, wherever the others are, is a run of the
thread's atomic steps, and does to the payloads, the counters and the buffers what they do. So
the heap that threads reach who take turns, call by call, and hand errors to each other, is
reached by an interleaving: with the same payloads, causes and counters, with what is left and
what was freed, and with the same errors owned. -/
theorem turns_are_interleavings {ι : Type*} [DecidableEq ι] (ℓ : Libc) :
    (∀ (c : Config ι Shared Thread) (i : ι) (op : Op) (w w' : World), Sees w.mem c.shared →
      c.loc i = ⟨.idle, pointersOf w.handles⟩ → op.IsOwned w → op.run ℓ w = .ok w' →
      ∃ s', Solo Next i c.shared (c.loc i) s' ⟨.idle, pointersOf w'.handles⟩ ∧
        Sees w'.mem s' ∧ s'.mailbox = c.shared.mailbox) ∧
    ∀ (trace : List (Turns ι × Turn ι)) (t : Turns ι),
      Run (Turns.Step ℓ) ⟨Mem.start, fun _ => 0⟩ trace t →
      ∃ c, Reach Next start c ∧ t.Shown c := by
  refine ⟨fun c i op w w' hsees hloc howned hrun => ?_, fun trace t h => ?_⟩
  · rw [hloc]
    exact (call_steps op hsees howned).of_eq_ok hrun
  · refine h.invariant (I := fun t => ∃ c, Reach Next start c ∧ t.Shown c)
      ⟨start, .refl, shown_start⟩ ?_
    rintro t turn t' ⟨c, hreach, hshown⟩ hstep
    exact hshown.step hreach hstep

/-- One thread creates an error, and another one releases it: the payload and its message have
been freed once. -/
theorem turns_are_interleavings_hand_over :
    ∃ c : Config Bool Shared Thread, Reach Next start c ∧ c.shared.freed 1 = 1 ∧
      c.shared.freedBuffer 0 = 1 ∧ ∀ i, c.loc i = ⟨.idle, 0⟩ := by
  let started : Turns Bool := ⟨Mem.start, fun _ => 0⟩
  let format : CStr := .lit ""
  have hcreate : Turns.Step (.ofRender fun format _ => format.bytes) started
      (.call false (.verrorfWithCause 5 u7Ok format [])) _ := .call (.inr rfl) rfl
  have hhand := (Run.nil.snoc hcreate).snoc
    (.hand (i := false) (j := true) (e := ⟨5, some 1⟩) (by decide) (by decide))
  have hrelease := hhand.snoc (show Turns.Step _ _ (.call true (.release ⟨5, some 1⟩)) _ from
    .call (.inl (by decide)) rfl)
  obtain ⟨c, hreach, hshown⟩ := (turns_are_interleavings _).2 _ _ hrelease
  refine ⟨c, hreach, ?_, ?_, fun i => ?_⟩
  · exact hshown.sees.freed 1
  · exact hshown.sees.freedBuffer 0
  · rw [hshown.loc]
    cases i <;> rfl

end Calls

end U7Init
