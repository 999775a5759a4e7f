import U7Init.Error.Ownership
import U7Init.Error.Release

/-!
# Creating Errors when the C Library Fails

This module follows the message buffer, the cause and the reference counters through
`u7_verrorf_with_cause`, whichever of its calls of `malloc`, `realloc` and `vsnprintf`
fail. The created error has a payload of its own, which owns the buffer and the cause, or
the fallback payload, and then the cause was released and every buffer given back.

## Main results

* `NewPayload`, `FallsBack`: the two ways in which creating an error may end.
* `verrorfWithCause_cases`: it ends in one of them, on any memory in which the cause may be
  released.
* `creation_accounts`: so it does in the program, and the ownership invariant holds again.
-/

namespace U7Init

open Outcome

/-- `p` is a new payload of the errno category. It owns a new buffer with its message, and
the cause; all other payloads and buffers are what they were. -/
structure NewPayload (m m' : Mem) (cause : U7Error) (p : ℕ) : Prop where
  fresh : m.payloads.cell p = none
  payload : ∃ b n bytes, m.buffers.cell b = none ∧ m'.buffers.cell b = some bytes ∧
    m'.payloads.cell p = some
      { refcount := 1#32
        disposeFn := some .errnoCategoryPayload
        category := .errno
        message := .block b
        messageLength := n
        cause := cause } ∧
    ∀ c, c ≠ b → m'.buffers.cell c = m.buffers.cell c
  others : ∀ q, q ≠ p → m'.payloads.cell q = m.payloads.cell q
  disposed : m'.disposed = m.disposed

/-- `m'` is `m` with one more reference to the fallback payload. -/
structure FallsBack (m m' : Mem) : Prop where
  counter : ∃ x, m.payloads.cell fallback = some x ∧
    m'.payloads.cell fallback = some { x with refcount := x.refcount + 1#32 }
  others : ∀ q, q ≠ fallback → m'.payloads.cell q = m.payloads.cell q
  buffer : ∀ b, m'.buffers.cell b = m.buffers.cell b
  disposed : m'.disposed = m.disposed

section Factory

variable {ℓ : Libc} {m m₁ released : Mem} {cause : U7Error} {message : CharPtr}

theorem NewBuffer.countMalloc {b : ℕ} {bytes : List (Option UInt8)}
    (h : NewBuffer m m₁ b bytes) :
    NewBuffer m { m₁ with mallocs := m₁.mallocs + 1 } b bytes :=
  ⟨h.payloads, h.disposed, h.fresh, h.self, h.of_ne⟩

/-- The fallback payload instead of a new one, once the message is freed. -/
theorem fallbackPayload_falls {m₂ : Mem} (hfree : m₁.freeMessage message = .ok m₂)
    (hsame : SameHeap m m₂) (hrelease : u7ErrorRelease cause m = .ok released)
    (hlive : ∃ x, released.payloads.cell fallback = some x) :
    ∃ m', fallbackPayload message cause m₁ = .ok (fallback, m') ∧ FallsBack released m' := by
  obtain ⟨m₃, hrelease₃, hsame₃⟩ := (hsame.release cause).exists_ok hrelease
  obtain ⟨x, hx⟩ := hlive
  have hx₃ : m₃.payloads.cell fallback = some x := by rw [hsame₃.payloads, hx]
  refine ⟨m₃.setRefcount fallback (u7RefcountIncrement x.refcount), ?_,
    ⟨x, hx, cell_setRefcount_self hx₃⟩, fun q hq => ?_, hsame₃.cell, hsame₃.disposed⟩
  · simp only [fallbackPayload, hfree, ok_bind, hrelease₃, Mem.deref, hx₃]
  · rw [cell_setRefcount_of_ne hq, hsame₃.payloads]

/-- The factory function gives a new payload, or falls back. -/
theorem makePayload_cases {n : ℤ} {C : ℤ → List (Option UInt8) → Prop} {failing : Prop}
    (h : Formatted m C failing ((message, n), m₁))
    (hrelease : u7ErrorRelease cause m = .ok released)
    (hlive : ∃ x, released.payloads.cell fallback = some x) :
    ∃ p m', u7ErrnoCategoryMakePayloadFn ℓ message n cause m₁ = .ok (p, m') ∧
      (NewPayload m m' cause p ∨ p = fallback ∧ FallsBack released m') := by
  rw [u7ErrnoCategoryMakePayloadFn]
  rcases h with ⟨b, n, bytes, hr, hn, hnew, -⟩ | ⟨hr, hsame, -⟩
  · obtain ⟨rfl, rfl⟩ := Prod.mk.inj hr
    rw [if_neg (not_lt.mpr hn)]
    cases hok : ℓ.allocates m₁.mallocs with
    | true =>
        refine ⟨_, _, if_pos rfl, .inl ⟨?_, ?_, fun q hq => ?_, hnew.disposed⟩⟩
        · rw [← hnew.payloads]
          exact m₁.payloads.cell_next
        · exact ⟨b, n, bytes, hnew.fresh, hnew.self, BlockHeap.cell_alloc_self, hnew.of_ne⟩
        · exact (BlockHeap.cell_alloc_of_ne hq).trans (congrArg (BlockHeap.cell · q) hnew.payloads)
    | false =>
        obtain ⟨m₂, hfree, hsame⟩ := hnew.countMalloc.free
        obtain ⟨m', hfallback, hfalls⟩ := fallbackPayload_falls hfree hsame hrelease hlive
        exact ⟨fallback, m', hfallback, .inr ⟨rfl, hfalls⟩⟩
  · obtain ⟨rfl, rfl⟩ := Prod.mk.inj hr
    have hfree : m₁.freeMessage .null = .ok m₁ := rfl
    obtain ⟨m', hfallback, hfalls⟩ := fallbackPayload_falls hfree hsame hrelease hlive
    rw [if_pos (by norm_num)]
    exact ⟨fallback, m', hfallback, .inr ⟨rfl, hfalls⟩⟩

end Factory

section Create

variable {ℓ : Libc} {m released : Mem} {cause : U7Error} {format : CStr} {arg : List VaArg}

/-- **Creating an error** on a memory in which the cause may be released: the error of code
`0` releases it, and every other error has a new payload that holds it, or falls back. -/
theorem verrorfWithCause_cases (hmatch : Matches format arg)
    (hlength : ¬ Overflows ℓ format arg m) (hrelease : u7ErrorRelease cause m = .ok released)
    (hlive : ∃ x, released.payloads.cell fallback = some x) (errorCode : ℤ) :
    (errorCode = 0 ∧
      u7VerrorfWithCause ℓ u7ErrnoCategory errorCode cause format arg m =
        .ok (u7Ok, released)) ∨
    (errorCode ≠ 0 ∧ ∃ p m',
      u7VerrorfWithCause ℓ u7ErrnoCategory errorCode cause format arg m =
        .ok ({ errorCode := errorCode, payload := some p }, m') ∧
      (NewPayload m m' cause p ∨ p = fallback ∧ FallsBack released m')) := by
  rw [u7VerrorfWithCause]
  by_cases hcode : errorCode = 0
  · rw [if_pos hcode, hrelease]
    exact .inl ⟨hcode, rfl⟩
  · obtain ⟨⟨⟨message, n⟩, m₁⟩, hformat, hformatted⟩ :=
      ((formatMessage_safe ℓ format arg m).mono (fun _ => id)
        fun _ he => hlength (he hmatch).2).exists_ok
    obtain ⟨p, m', hmake, hcases⟩ := makePayload_cases (ℓ := ℓ) hformatted hrelease hlive
    refine .inr ⟨hcode, p, m', ?_, hcases⟩
    rw [if_neg hcode, hformat]
    simp only [ok_bind, U7ErrorCategory.makePayloadFn, hmake]

end Create

/-- **Creating an error never leaks and never frees twice**, whatever the calls of `malloc`,
`realloc` and `vsnprintf` do, as long as the rendered message is shorter than `INT_MAX`.
Every buffer has exactly one owner again, and:

* the error of code `0` is `u7_ok()`, and one reference to the cause was released;
* any other error has its code and a payload: a new one with counter `1`, which owns the
  new buffer and the cause, and nothing else has changed; or the fallback payload with one
  more reference, and one reference to the cause was released and no new buffer is left. -/
theorem creation_accounts (ℓ : Libc) (m : Mem) (out loose : ℕ → ℕ) (cause : U7Error)
    (howned : Owned m (out + refsTo cause.payload) loose) (hcause : cause.WellFormed)
    (hbound : ∀ q, out q + refsTo cause.payload q + m.links q < 2 ^ 32) (errorCode : ℤ)
    (format : CStr) (arg : List VaArg) (hmatch : Matches format arg)
    (hlength : ¬ Overflows ℓ format arg m) :
    ∃ e m' released, u7ErrorRelease cause m = .ok released ∧
      u7VerrorfWithCause ℓ u7ErrnoCategory errorCode cause format arg m = .ok (e, m') ∧
      Owned m' (out + refsTo e.payload) loose ∧
      (errorCode = 0 → e = u7Ok ∧ m' = released) ∧
      (errorCode ≠ 0 → e.errorCode = errorCode ∧ ∃ p, e.payload = some p ∧
        (NewPayload m m' cause p ∨ p = fallback ∧ FallsBack released m' ∧
          ∀ b, m.buffers.cell b = none → m'.buffers.cell b = none)) := by
  obtain ⟨released, hrelease, hreleased, hshrinks⟩ := (howned.release hbound).exists_ok
  have hafter := howned.verrorfWithCause ℓ u7ErrnoCategory errorCode format arg hcause hbound
  rcases verrorfWithCause_cases hmatch hlength hrelease hreleased.cell_fallback errorCode with
    ⟨hcode, hcreate⟩ | ⟨hcode, p, m', hcreate, hcases⟩
  · obtain ⟨-, -, howned', -⟩ := hafter.of_eq_ok hcreate
    exact ⟨_, _, released, hrelease, hcreate, howned', fun _ => ⟨rfl, rfl⟩,
      fun hne => absurd hcode hne⟩
  · obtain ⟨-, -, howned', -⟩ := hafter.of_eq_ok hcreate
    refine ⟨_, m', released, hrelease, hcreate, howned', fun hzero => absurd hzero hcode,
      fun _ => ⟨rfl, p, rfl, hcases.imp_right fun ⟨hp, hfalls⟩ => ⟨hp, hfalls, ?_⟩⟩⟩
    intro b hb
    cases hb' : m'.buffers.cell b with
    | none => rfl
    | some bytes =>
        rw [hfalls.buffer] at hb'
        rw [hshrinks.buffer hb'] at hb
        cases hb

/-- A C library whose memory is enough for an error and the message of another one. -/
def Libc.forMessage : Libc :=
  { Libc.ofRender fun format _ => format.bytes with allocates := fun n => n < 3 }

/-- An error with two owners is the cause of a new one, for which there is no payload left: the
buffer of its message is given back, and the reference to the cause too. -/
theorem creation_accounts_no_payload :
    ∃ m e m', Owned m (refsTo (some 1) + refsTo (some 1)) 0 ∧
      u7VerrorfWithCause .forMessage u7ErrnoCategory 6 ⟨5, some 1⟩ (.lit "") [] m = .ok (e, m') ∧
      Owned m' (refsTo (some 1) + refsTo e.payload) 0 ∧ e = ⟨6, some fallback⟩ ∧
      m.buffers.next < m'.buffers.next ∧ m'.buffers.cell m.buffers.next = none ∧
      (m'.payloads.cell 1).map U7ErrorPayload.refcount = some 1#32 := by
  have hrun : (World.runAll .forMessage ⟨Mem.start, 0⟩
      [.verrorfWithCause 5 u7Ok (.lit "") [], .acquire ⟨5, some 1⟩]).any (fun w =>
        w.handles = {⟨5, some 1⟩, ⟨5, some 1⟩} ∧ w.mem.payloads.next = 2 ∧
        (u7VerrorfWithCause .forMessage u7ErrnoCategory 6 ⟨5, some 1⟩ (.lit "") []
          w.mem).toOption.all fun r => r.1 = ⟨6, some fallback⟩ ∧
            w.mem.buffers.next < r.2.buffers.next ∧ r.2.buffers.cell w.mem.buffers.next = none ∧
            (r.2.payloads.cell 1).map U7ErrorPayload.refcount = some 1#32) := by
    decide +kernel
  obtain ⟨w, hrun, hw⟩ := (Option.any_eq_true _ _).mp hrun
  obtain ⟨hhandles, hnext, hresult⟩ := of_decide_eq_true hw
  have hsound : w.Sound := sound_of_reachable (Reachable.start.runAll hrun)
  have hrefs : handleRefs w.handles = refsTo (some 1) + refsTo (some 1) := by
    rw [hhandles, Multiset.insert_eq_cons, ← Multiset.cons_zero, handleRefs_cons, handleRefs_cons]
    exact congrArg (· + _) (zero_add _)
  have hcard : Multiset.card w.handles = 2 := by
    rw [hhandles]
    rfl
  have hbound : ∀ q, refsTo (some 1) q + refsTo (some 1) q + w.mem.links q < 2 ^ 32 := by
    intro q
    have hle := World.refs_le w q
    rw [World.refs, hrefs, Pi.add_apply] at hle
    omega
  have howned : Owned w.mem (refsTo (some 1) + refsTo (some 1)) 0 := hrefs ▸ hsound.owned
  have hcause : (⟨5, some 1⟩ : U7Error).WellFormed :=
    hsound.wellFormed _ (hhandles ▸ Multiset.mem_cons_self _ _)
  have hmatch : Matches (.lit "") [] := ⟨fun h => by simp [CStr.lit] at h, fun h => by
    simp [CStr.lit] at h⟩
  have hlength : ¬ Overflows .forMessage (.lit "") [] w.mem := by
    rw [Overflows, if_pos rfl]
    exact And.right
  obtain ⟨e, m', -, -, hcreate, howned', -⟩ :=
    creation_accounts .forMessage w.mem (refsTo (some 1)) 0 ⟨5, some 1⟩ howned hcause hbound 6
      (.lit "") [] hmatch hlength
  rw [hcreate] at hresult
  obtain ⟨he, hnew, hfreed, hcount⟩ := of_decide_eq_true hresult
  exact ⟨w.mem, e, m', howned, hcreate, howned', he, hnew, hfreed, hcount⟩

end U7Init
