import U7Init.Error.Ownership
import U7Init.Error.Print
import U7Init.Lib.Simulation

/-!
# Errors as Values

An error stands for what it says: its code and its message, and the same of its cause, and
so on. This module forgets the heap. On one side stand the operations of `error.c` on
handles, payloads, counters and buffers; on the other a program that owns values, copies
them, drops them and puts new entries in front of them. The first simulates the second, so
errors are immutable: an operation on one handle never changes what another one says.

An entry that could not be made is replaced by that of the fallback payload, and then what
it was the cause of is lost; this is the only thing the value level leaves open.

## Main results

* `Denotes.mono`: what an error says does not depend on what is done to other errors.
* `errors_are_values`: every run of the operations is a run of the value operations.
* `owned_errors_read_alike`: an error reads the same for as long as it is owned.
-/

namespace U7Init

open Outcome Simulation

/-! ### What an error says -/

/-- What an error says itself: its code and its message. -/
structure Entry where
  errorCode : ℤ
  message : List UInt8
  deriving DecidableEq, Repr

/-- What an error says: its own entry, that of its cause, and so on. `u7_ok()` says
nothing. -/
abbrev ErrorValue := List Entry

/-- The message of the fallback payload. -/
def fallbackText : List UInt8 :=
  u7ErrnoCategoryStaticFallbackMessage.bytes

/-- The message of payload `x` is `text`, and `message_length` is its length. -/
inductive Mem.Says (m : Mem) (x : U7ErrorPayload) : List UInt8 → Prop
  | buffer {b : ℕ} {bytes : List (Option UInt8)} {text : List UInt8} :
      x.message = .block b → m.buffers.cell b = some bytes →
      Carries text x.messageLength bytes → Says m x text
  | fallback :
      x.message = .fallbackMessage → x.messageLength = fallbackText.length →
      Says m x fallbackText

/-- The error says `v`. -/
inductive Denotes (m : Mem) : U7Error → ErrorValue → Prop
  | ok : Denotes m u7Ok []
  | error {e : U7Error} {p : ℕ} {x : U7ErrorPayload} {text : List UInt8} {v : ErrorValue} :
      e.errorCode ≠ 0 → e.payload = some p → m.payloads.cell p = some x → m.Says x text →
      Denotes m x.cause v → Denotes m e (⟨e.errorCode, text⟩ :: v)

/-- What was there in `m` and still is in `m'` has not changed, but for the counters. -/
structure Preserves (m m' : Mem) : Prop where
  payload : ∀ {p : ℕ} {x' : U7ErrorPayload}, m'.payloads.cell p = some x' →
    p < m.payloads.next → ∃ x count, m.payloads.cell p = some x ∧
      x' = { x with refcount := count }
  buffer : ∀ {b : ℕ} {bytes bytes' : List (Option UInt8)}, m.buffers.cell b = some bytes →
    m'.buffers.cell b = some bytes' → bytes' = bytes

section Values

variable {m m' : Mem} {e : U7Error} {x : U7ErrorPayload} {v v' : ErrorValue}
  {text text' : List UInt8} {out loose : ℕ → ℕ}

theorem Carries.unique {n : ℤ} {bytes : List (Option UInt8)} (h : Carries text n bytes)
    (h' : Carries text' n bytes) : text = text' := by
  obtain ⟨hn, rest, hbytes⟩ := h
  obtain ⟨hn', rest', hbytes'⟩ := h'
  have hlength : (text.map some).length = (text'.map some).length := by
    rw [List.length_map, List.length_map]
    omega
  rw [← hbytes, List.append_assoc, List.append_assoc] at hbytes'
  have hmap := (List.append_inj hbytes' hlength.symm).1
  exact (List.map_injective_iff.mpr (Option.some_injective _) hmap).symm

theorem Mem.Says.unique (h : m.Says x text) (h' : m.Says x text') : text = text' := by
  cases h with
  | buffer hb hbytes hcarries =>
      cases h' with
      | buffer hb' hbytes' hcarries' =>
          obtain rfl := CharPtr.block.inj (hb.symm.trans hb')
          obtain rfl := Option.some.inj (hbytes.symm.trans hbytes')
          exact hcarries.unique hcarries'
      | fallback hb' _ => cases hb.symm.trans hb'
  | fallback hb _ =>
      cases h' with
      | buffer hb' _ _ => cases hb.symm.trans hb'
      | fallback _ _ => rfl

/-- An error says one thing. -/
theorem Denotes.unique (h : Denotes m e v) (h' : Denotes m e v') : v = v' := by
  induction h generalizing v' with
  | ok =>
      cases h' with
      | ok => rfl
      | error hcode => exact absurd rfl hcode
  | error hcode hp hx hdenotes _ ih =>
      cases h' with
      | ok => exact absurd rfl hcode
      | error _ hp' hx' hdenotes' hcause' =>
          obtain rfl := Option.some.inj (hp.symm.trans hp')
          obtain rfl := Option.some.inj (hx.symm.trans hx')
          rw [hdenotes.unique hdenotes', ih hcause']

theorem Denotes.wellFormed (h : Denotes m e v) : e.WellFormed := by
  cases h with
  | ok => exact ⟨fun _ => rfl, fun _ => rfl⟩
  | error hcode hp =>
      refine ⟨fun h => absurd h hcode, fun h => ?_⟩
      rw [hp] at h
      cases h

/-- Only `u7_ok()` says nothing. -/
theorem Denotes.eq_nil_iff (h : Denotes m e v) : v = [] ↔ e.errorCode = 0 := by
  cases h with
  | ok => exact iff_of_true rfl rfl
  | error hcode => exact iff_of_false (List.cons_ne_nil _ _) hcode

theorem Denotes.eq_u7Ok (h : Denotes m e []) : e = u7Ok := by
  cases h
  rfl

/-- A live payload refers to its cause. -/
theorem links_pos {p q : ℕ} (hx : m.payloads.cell p = some x)
    (hq : x.cause.payload = some q) : 0 < m.links q := by
  have hlink : refsTo x.cause.payload q ≤ m.links q :=
    BlockHeap.le_sum hx fun y => refsTo y.cause.payload q
  rw [hq, refsTo_self] at hlink
  exact hlink

/-- **What an error says does not change** as long as someone refers to it: neither do the
payloads along its causes, which are referred to themselves. The induction is along the
causes. -/
theorem Denotes.mono (hpreserves : Preserves m m') (howned : Owned m' out loose)
    (h : Denotes m e v) (hlive : ∀ p, e.payload = some p → 0 < out p + m'.links p) :
    Denotes m' e v := by
  induction h with
  | ok => exact .ok
  | @error e p x text v hcode hp hx hdenotes _ ih =>
      obtain ⟨x', hx'⟩ := howned.live (hlive p hp)
      obtain ⟨y, count, hy, rfl⟩ := hpreserves.payload hx' (BlockHeap.lt_next hx)
      obtain rfl := Option.some.inj (hx.symm.trans hy)
      have hcause : Denotes m' x.cause v :=
        ih fun q hq => Nat.add_pos_right _ (links_pos hx' hq)
      refine .error hcode hp hx' ?_ hcause
      cases hdenotes with
      | buffer hb hbytes hcarries =>
          obtain ⟨⟨bytes', hbytes'⟩, -⟩ := howned.message_live hx' hb
          rw [hpreserves.buffer hbytes hbytes'] at hbytes'
          exact .buffer hb hbytes' hcarries
      | fallback hb hlength => exact .fallback hb hlength

end Values

/-! ### What operations leave as it was -/

section Preserve

variable {m m₁ m₂ : Mem} {ℓ : Libc} {cause : U7Error} {format : CStr} {arg : List VaArg}

theorem Shrinks.preserves (h : Shrinks m m₁) : Preserves m m₁ where
  payload := fun hx _ => h.payload hx
  buffer := fun hb hb' => Option.some.inj ((h.buffer hb').symm.trans hb)

theorem Preserves.shrinks (h : Preserves m m₁) (h' : Shrinks m₁ m₂) : Preserves m m₂ where
  payload := by
    intro p x₂ hx₂ hp
    obtain ⟨x₁, count, hx₁, rfl⟩ := h'.payload hx₂
    obtain ⟨x, _, hx, rfl⟩ := h.payload hx₁ hp
    exact ⟨x, count, hx, rfl⟩
  buffer := fun hb hb' => h.buffer hb (h'.buffer hb')

/-- Formatting a message leaves the other buffers and all payloads alone. -/
theorem Formatted.preserves {C : ℤ → List (Option UInt8) → Prop} {failing : Prop}
    {r : (CharPtr × ℤ) × Mem} (h : Formatted m C failing r) :
    Preserves m r.2 ∧ r.2.payloads = m.payloads := by
  have hpayload : r.2.payloads = m.payloads → ∀ {p x'}, r.2.payloads.cell p = some x' →
      p < m.payloads.next →
      ∃ x count, m.payloads.cell p = some x ∧ x' = { x with refcount := count } := by
    intro hpayloads p x' hx' _
    rw [hpayloads] at hx'
    exact ⟨x', x'.refcount, hx', rfl⟩
  rcases h with ⟨b, n, bytes, -, -, hnew, -⟩ | ⟨-, hsame, -⟩
  · refine ⟨⟨hpayload hnew.payloads, fun {c _ _} hc hc' => ?_⟩, hnew.payloads⟩
    have hne : c ≠ b := by
      rintro rfl
      rw [hnew.fresh] at hc
      cases hc
    rw [hnew.of_ne c hne] at hc'
    exact Option.some.inj (hc'.symm.trans hc)
  · refine ⟨⟨hpayload hsame.payloads, fun {c _ _} hc hc' => ?_⟩, hsame.payloads⟩
    rw [hsame.cell] at hc'
    exact Option.some.inj (hc'.symm.trans hc)

/-- Falling back frees and lowers counters only. -/
theorem fallbackPayload_shrinks (message : CharPtr) (cause : U7Error) (m : Mem) :
    Sat (fallbackPayload message cause m) (fun r => Shrinks m r.2) (fun _ => True) := by
  rw [fallbackPayload]
  refine ((freeMessage_shrinks m message).mono (fun _ => id) fun _ _ => trivial).bind
    fun m₁ h₁ => ?_
  refine ((releaseLoop_shrinks _ _ m₁).mono (fun _ => id) fun _ _ => trivial).bind
    fun m₂ h₂ => ?_
  refine ((deref_fault m₂ fallback).mono (fun _ => id) fun _ _ => trivial).bind
    fun x _ => sat_ok ?_
  exact (h₁.1.trans h₂.1).trans (shrinks_setRefcount _ _ _)

/-- Creating an error changes nothing that was there and still is. -/
theorem verrorfWithCause_preserves (ℓ : Libc) (errorCode : ℤ) (cause : U7Error)
    (format : CStr) (arg : List VaArg) (m : Mem) :
    Sat (u7VerrorfWithCause ℓ u7ErrnoCategory errorCode cause format arg m)
      (fun r => Preserves m r.2) (fun _ => True) := by
  rw [u7VerrorfWithCause]
  refine sat_ite (fun _ => ?_) fun _ => ?_
  · exact ((releaseLoop_shrinks _ _ m).mono (fun _ => id) fun _ _ => trivial).bind
      fun m₁ h₁ => sat_ok h₁.1.preserves
  · refine ((formatMessage_safe ℓ format arg m).mono (fun _ => id) fun _ _ => trivial).bind ?_
    rintro ⟨⟨message, n⟩, m₁⟩ hformatted
    obtain ⟨hpreserves, hpayloads⟩ := hformatted.preserves
    have hfalls : ∀ {m₂ : Mem}, m₂.payloads = m₁.payloads → m₂.buffers = m₁.buffers →
        Sat (fallbackPayload message cause m₂) (fun r => Preserves m r.2) (fun _ => True) := by
      intro m₂ hpayloads₂ hbuffers₂
      have hsame : Preserves m m₂ :=
        ⟨fun hx => hpreserves.payload (hpayloads₂ ▸ hx),
          fun hb hb' => hpreserves.buffer hb (hbuffers₂ ▸ hb')⟩
      exact (fallbackPayload_shrinks message cause m₂).mono (fun _ h => hsame.shrinks h)
        fun _ => id
    refine Sat.bind (P := fun r => Preserves m r.2) ?_ fun r hr => sat_ok hr
    change Sat (u7ErrnoCategoryMakePayloadFn ℓ message n cause m₁) _ _
    rw [u7ErrnoCategoryMakePayloadFn]
    refine sat_ite (fun _ => hfalls rfl rfl) fun _ => sat_ite (fun _ => sat_ok ?_)
      fun _ => hfalls rfl rfl
    refine ⟨fun {p x'} hx hp => ?_, hpreserves.buffer⟩
    rw [← hpayloads] at hp
    rw [BlockHeap.cell_alloc_of_ne hp.ne] at hx
    exact hpreserves.payload hx (hpayloads ▸ hp)

end Preserve

/-! ### What a created error says -/

/-- What is created with a code, a cause and a message: their value, or, if `Fails`, that of
the fallback payload. -/
inductive Created (Fails : Prop) : ℤ → ErrorValue → List UInt8 → ErrorValue → Prop
  | none {cause : ErrorValue} {message : List UInt8} : Created Fails 0 cause message []
  | entry {errorCode : ℤ} {cause : ErrorValue} {message : List UInt8} : errorCode ≠ 0 →
      Created Fails errorCode cause message (⟨errorCode, message⟩ :: cause)
  | fallBack {errorCode : ℤ} {cause : ErrorValue} {message : List UInt8} : errorCode ≠ 0 →
      Fails → Created Fails errorCode cause message [⟨errorCode, fallbackText⟩]

/-- Unless something fails one value is created. -/
theorem Created.unique {Fails : Prop} (hfails : ¬ Fails) {errorCode : ℤ} {cause v v' : ErrorValue}
    {message : List UInt8} (h : Created Fails errorCode cause message v)
    (h' : Created Fails errorCode cause message v') : v = v' := by
  cases h with
  | none =>
      cases h' with
      | none => rfl
      | entry hcode => exact absurd rfl hcode
      | fallBack hcode => exact absurd rfl hcode
  | entry hcode =>
      cases h' with
      | none => exact absurd rfl hcode
      | entry => rfl
      | fallBack _ hF => exact absurd hF hfails
  | fallBack _ hF => exact absurd hF hfails

section Created

variable {ℓ : Libc} {render : CStr → List VaArg → List UInt8} {m m' : Mem}
  {format : CStr} {arg : List VaArg} {cause e : U7Error} {errorCode : ℤ} {v : ErrorValue}
  {out loose : ℕ → ℕ}

/-- Some call of the C library fails although it need not: an allocation, or a call of
`vsnprintf` whose text has a length that is an `int`. A `Libc` answers any number of calls with
any arguments, and this speaks of all of them, whether a run makes them or not. Nothing is lost
by that: statements hold for every `Libc`, so a run whose own calls succeed may be looked at
with a `Libc` that answers these calls alike and all others with success. -/
def Libc.Fails (ℓ : Libc) (render : CStr → List VaArg → List UInt8) : Prop :=
  (∃ n, ℓ.allocates n = false) ∨ ∃ call size format arg, 0 < size ∧
    (render format arg).length ≤ intMax ∧ (ℓ.vsnprintf call size format arg).1 < 0

/-- **Every path leaves the rendered text behind**, unless some call fails. -/
theorem messagePath_renders_or_fails (hrender : Printf render)
    (hprints : ℓ.PrintsOrFails render) (hmatch : Matches format arg)
    (hlen : (render format arg).length ≤ intMax) (m : Mem) :
    Sat (messagePath ℓ format arg m)
      (fun r => r.1.Leaves m r.2 (Carries (render format arg)) (ℓ.Fails render))
      (fun _ => True) := by
  have hleaves : ∀ {text : List UInt8} {r : Label × Mem}, text = render format arg →
      r.1.Leaves m r.2 (Carries text) (∃ n, ℓ.allocates n = false) →
      r.1.Leaves m r.2 (Carries (render format arg)) (ℓ.Fails render) := by
    rintro _ r rfl h
    exact h.mono (fun _ _ => id) .inl
  rw [messagePath_eq]
  refine sat_ite (fun hempty => ?_) fun _ => sat_ite (fun hstring => ?_) fun _ =>
    sat_ite (fun hprecision => ?_) fun _ => ?_
  · have htext : [] = render format arg := by rw [hempty, hrender.empty]
    exact (emptyMessage_leaves ℓ m).mono (fun _ => hleaves htext) fun _ _ => trivial
  · obtain ⟨object, rest, rfl, hnul⟩ := hmatch.string hstring
    have htext : cString object = render format (.str object :: rest) := by
      rw [hstring, hrender.string object rest hnul]
    exact (stringMessage_leaves ℓ m object rest).mono (fun _ => hleaves htext)
      fun _ _ => trivial
  · obtain ⟨precision, object, rest, rfl, hread⟩ := hmatch.precision hprecision
    have htext : (cString object).take (strlenLimit precision).toNat =
        render format (.int precision :: .str object :: rest) := by
      rw [hprecision, hrender.precision precision object rest hread] at hlen ⊢
      rw [strlenLimit]
      split_ifs at hlen ⊢ with hneg
      · exact List.take_of_length_le (by omega)
      · rfl
    exact (precisionMessage_leaves ℓ m precision object rest).mono (fun _ => hleaves htext)
      fun _ _ => trivial
  · have hneg : ∀ call size, 0 < size → (ℓ.vsnprintf call size format arg).1 < 0 →
        ℓ.Fails render :=
      fun call size hsize hneg => .inr ⟨call, size, format, arg, hsize, hlen, hneg⟩
    refine (generalMessage_leaves m ?_ .inl (fun call => hneg call 128 (by norm_num))
      ?_).mono (fun _ => id) fun _ _ => trivial
    · intro call size old hold h0 hlt
      have hsize : 0 < size := by omega
      obtain ⟨-, hprint⟩ := (hprints call size format arg hsize).resolve_left (not_lt.mpr h0)
      rw [hprint] at hlt ⊢
      refine ⟨rfl, ?_⟩
      rw [List.take_of_length_le (by omega)]
      simp [overwrite]
    · intro call call' size hlong _ hne
      rcases hprints call 128 format arg (by norm_num) with hfail | ⟨-, hprint⟩
      · exact hneg call 128 (by norm_num) hfail
      · rcases hprints call' size format arg (by omega) with hfail | ⟨-, hprint'⟩
        · exact hneg call' size (by omega) hfail
        · rw [hprint, hprint'] at hne
          exact absurd rfl hne

/-- The fallback payload says its own message. -/
theorem Mem.HasFallback.denotes (h : m.HasFallback) (hcode : errorCode ≠ 0) :
    Denotes m ⟨errorCode, some fallback⟩ [⟨errorCode, fallbackText⟩] := by
  obtain ⟨count, hx⟩ := h
  refine .error hcode rfl hx (.fallback rfl ?_) .ok
  norm_num [u7ErrnoCategoryStaticFallbackPayload, CStr.object, fallbackText]

/-- **A created error says** its code, the rendered message and what its cause said; or some
call failed, and it says its code and the message of the fallback payload. With code `0` it is
`u7_ok()`. -/
theorem verrorfWithCause_denotes (hrender : Printf render) (hprints : ℓ.PrintsOrFails render)
    (hmatch : Matches format arg) (hlen : (render format arg).length ≤ intMax)
    (hfallback : m.HasFallback) (hcause : Denotes m cause v)
    (hcreate : u7VerrorfWithCause ℓ u7ErrnoCategory errorCode cause format arg m =
      .ok (e, m'))
    (howned : Owned m' out loose) :
    ∃ value, Created (ℓ.Fails render) errorCode v (render format arg) value ∧
      Denotes m' e value := by
  by_cases hcode : errorCode = 0
  · subst hcode
    rw [u7VerrorfWithCause, if_pos rfl, bind_eq_ok_iff] at hcreate
    obtain ⟨m₁, -, hr⟩ := hcreate
    obtain ⟨rfl, rfl⟩ := Prod.mk.inj (Except.ok.inj hr)
    exact ⟨[], .none, .ok⟩
  have hpath := messagePath_renders_or_fails hrender hprints hmatch hlen m
  have hpreserves := (verrorfWithCause_preserves ℓ errorCode cause format arg m).of_eq_ok hcreate
  obtain ⟨⟨label, m₁⟩, hr, hcases⟩ := verrorfWithCause_outcome hcode hfallback
    (hpath.mono (fun _ h => h.mono (fun _ _ => id) fun _ => trivial) fun _ => id) hcreate
  rcases hcases with ⟨-, p, b, n, bytes, rfl, hx, hb, hcarries⟩ | ⟨hnot, rfl, hfalls⟩
  · refine ⟨_, .entry hcode, .error hcode rfl hx (.buffer rfl hb hcarries) ?_⟩
    -- the new payload refers to the cause
    exact hcause.mono hpreserves howned fun q hq => Nat.add_pos_right _ (links_pos hx hq)
  · refine ⟨_, .fallBack hcode ?_, hfalls.denotes hcode⟩
    cases hpath.of_eq_ok hr with
    | failNull _ hfails => exact hfails
    | failBlock _ hfails => exact hfails
    | ret =>
        -- the message was there, so `malloc` of the payload failed
        refine .inl ⟨m₁.mallocs, ?_⟩
        by_contra hok
        exact hnot ⟨⟨_, _, rfl⟩, by simpa using hok⟩

end Created

/-! ### Programs on values -/

/-- The operations of a program that owns values. -/
inductive ValueOp
  | create (errorCode : ℤ) (cause : ErrorValue) (message : List UInt8)
  | copy (v : ErrorValue)
  | drop (v : ErrorValue)
  | move (v : ErrorValue)
  | clear (v : ErrorValue)

/-- The value an operation is applied to. -/
def ValueOp.value : ValueOp → ErrorValue
  | .create _ v _ | .copy v | .drop v | .move v | .clear v => v

/-- What an operation makes of the values that are owned, where creating an error may only
fall back if `Fails`. `[]` need not be owned. -/
inductive ValueOp.Makes (Fails : Prop) : ValueOp → Multiset ErrorValue → Multiset ErrorValue → Prop
  | create {errorCode : ℤ} {cause v : ErrorValue} {message : List UInt8}
      {V : Multiset ErrorValue} : Created Fails errorCode cause message v →
      Makes Fails (.create errorCode cause message) V (v ::ₘ V.erase cause)
  | copy {v : ErrorValue} {V : Multiset ErrorValue} : Makes Fails (.copy v) V (v ::ₘ V)
  | drop {v : ErrorValue} {V : Multiset ErrorValue} : Makes Fails (.drop v) V (V.erase v)
  | move {v : ErrorValue} {V : Multiset ErrorValue} :
      Makes Fails (.move v) V (v ::ₘ [] ::ₘ V.erase v)
  | clear {v : ErrorValue} {V : Multiset ErrorValue} :
      Makes Fails (.clear v) V ([] ::ₘ V.erase v)

/-- A step of such a program: it owns the value that it uses. -/
def ValueStep (Fails : Prop) (V : Multiset ErrorValue) (op : ValueOp)
    (V' : Multiset ErrorValue) : Prop :=
  (op.value ∈ V ∨ op.value = []) ∧ op.Makes Fails V V'

/-- The same operation on values, where the handle stands for `v`. -/
def Op.onValue (render : CStr → List VaArg → List UInt8) (v : ErrorValue) : Op → ValueOp
  | .verrorfWithCause errorCode _ format arg => .create errorCode v (render format arg)
  | .acquire _ => .copy v
  | .release _ => .drop v
  | .move _ => .move v
  | .clear _ => .clear v

/-- What is printed has a length that is an `int`. -/
def Op.Fits (render : CStr → List VaArg → List UInt8) : Op → Prop
  | .verrorfWithCause _ _ format arg => (render format arg).length ≤ intMax
  | .acquire _ | .release _ | .move _ | .clear _ => True

/-- A step of the program on handles. -/
structure ErrorStep (ℓ : Libc) (render : CStr → List VaArg → List UInt8) (w : World) (op : Op)
    (w' : World) : Prop where
  bounded : w.Bounded
  owned : op.IsOwned w
  matching : op.ArgsMatch
  fits : op.Fits render
  run : op.run ℓ w = .ok w'

/-- The values are what the handles say. -/
structure World.HasValues (w : World) (V : Multiset ErrorValue) : Prop where
  sound : w.Sound
  denotes : w.handles.Rel (Denotes w.mem) V

section Refinement

variable {ℓ : Libc} {render : CStr → List VaArg → List UInt8} {w w' : World} {op : Op}
  {V : Multiset ErrorValue} {e : U7Error} {v : ErrorValue}

/-- The handle that an operation is applied to says something, and what is left without it
says what is left without that. -/
theorem World.HasValues.erase (h : w.HasValues V) (howned : e ∈ w.handles ∨ e = u7Ok) :
    ∃ v, Denotes w.mem e v ∧ (v ∈ V ∨ v = []) ∧
      (w.handles.erase e).Rel (Denotes w.mem) (V.erase v) := by
  by_cases hmem : e ∈ w.handles
  · have hrel := h.denotes
    rw [← Multiset.cons_erase hmem, Multiset.rel_cons_left] at hrel
    obtain ⟨v, V', hv, hrest, rfl⟩ := hrel
    refine ⟨v, hv, .inl (Multiset.mem_cons_self _ _), ?_⟩
    rwa [Multiset.erase_cons_head]
  · obtain rfl := howned.resolve_left hmem
    refine ⟨[], .ok, .inr rfl, ?_⟩
    have hnot : [] ∉ V := by
      intro hnil
      have hflip : V.Rel (fun v e => Denotes w.mem e v) w.handles :=
        Multiset.rel_flip.mpr h.denotes
      obtain ⟨e, he, hdenotes⟩ := Multiset.exists_mem_of_rel_of_mem hflip hnil
      rw [hdenotes.eq_u7Ok] at he
      exact hmem he
    rw [Multiset.erase_of_notMem hmem, Multiset.erase_of_notMem hnot]
    exact h.denotes

/-- `u7_error_acquire` returns its argument. -/
theorem acquire_same (e : U7Error) (m : Mem) :
    Sat (u7ErrorAcquire e m) (fun r => r.1 = e) (fun _ => True) := by
  rw [u7ErrorAcquire]
  cases e.payload with
  | none => exact sat_ok rfl
  | some p => exact (sat_true _).bind fun _ _ => sat_ok rfl

/-- What is live before and after an operation says the same before and after. -/
theorem Op.run_preserves (ℓ : Libc) (op : Op) (w : World) :
    Sat (op.run ℓ w) (fun w' => Preserves w.mem w'.mem) (fun _ => True) := by
  have hrelease : ∀ e, Sat (u7ErrorRelease e w.mem) (fun m => Preserves w.mem m)
      (fun _ => True) :=
    fun e => (releaseLoop_shrinks _ _ w.mem).mono (fun _ h => h.1.preserves) fun _ _ => trivial
  cases op with
  | verrorfWithCause errorCode cause format arg =>
      exact (verrorfWithCause_preserves ℓ errorCode cause format arg w.mem).bind
        fun _ h => sat_ok h
  | acquire e =>
      refine Sat.bind (P := fun r => Preserves w.mem r.2) ?_ fun _ h => sat_ok h
      rw [u7ErrorAcquire]
      cases e.payload with
      | none => exact sat_ok (Shrinks.refl w.mem).preserves
      | some p =>
          refine ((deref_fault w.mem p).mono (fun _ => id) fun _ _ => trivial).bind
            fun x _ => sat_ok ?_
          exact (shrinks_setRefcount w.mem p _).preserves
  | release e => exact (hrelease e).bind fun _ h => sat_ok h
  | move e => exact sat_ok (Shrinks.refl w.mem).preserves
  | clear e =>
      refine Sat.bind (P := fun r => Preserves w.mem r.2) ?_ fun _ h => sat_ok h
      exact (hrelease e).bind fun _ h => sat_ok h

/-- A handle that is still owned says what it said. -/
theorem Denotes.owned (hdenotes : Denotes w.mem e v) (hpreserves : Preserves w.mem w'.mem)
    (hsound : w'.Sound) (he : e ∈ w'.handles) : Denotes w'.mem e v := by
  refine hdenotes.mono hpreserves hsound.owned fun p hp => ?_
  have hpos : 0 < handleRefs w'.handles p := Multiset.countP_pos.mpr ⟨e, he, hp⟩
  omega

/-- The handles that an operation leaves alone and the ones it makes. -/
theorem World.HasValues.step (made : Multiset U7Error) (values : Multiset ErrorValue)
    {rest : Multiset U7Error} {V' : Multiset ErrorValue} (hsound : w'.Sound)
    (hpreserves : Preserves w.mem w'.mem) (hhandles : w'.handles = made + rest)
    (hrest : rest.Rel (Denotes w.mem) V') (hmade : made.Rel (Denotes w'.mem) values) :
    w'.HasValues (values + V') where
  sound := hsound
  denotes := by
    rw [hhandles]
    refine hmade.add (hrest.mono fun e he v _ hv => hv.owned hpreserves hsound ?_)
    rw [hhandles]
    exact Multiset.mem_add.mpr (.inr he)

/-- **One operation** on handles is the same operation on what they say. -/
theorem errors_simulate_values (hrender : Printf render) (hprints : ℓ.PrintsOrFails render) :
    Simulates (ErrorStep ℓ render) (ValueStep (ℓ.Fails render)) World.HasValues
      (fun step step' => step.1.HasValues step'.1 ∧
        ∃ v, Denotes step.1.mem step.2.handle v ∧ step'.2 = step.2.onValue render v)
      (fun _ => False) := by
  intro w V op w' h hstep
  obtain ⟨v, hv, hmem, hrest⟩ := h.erase hstep.owned
  have hsound := ((Op.run_sound h.sound hstep.bounded hstep.owned).of_eq_ok hstep.run).1
  have hpreserves := (Op.run_preserves ℓ op w).of_eq_ok hstep.run
  have hmatched : ∀ {V'}, (op.onValue render v).Makes (ℓ.Fails render) V V' → w'.HasValues V' →
      ∃ f V', (w.HasValues V ∧ ∃ v, Denotes w.mem op.handle v ∧ f = op.onValue render v) ∧
        ValueStep (ℓ.Fails render) V f V' ∧ w'.HasValues V' := by
    intro V' hmakes hvalues
    refine ⟨_, V', ⟨h, v, hv, rfl⟩, ⟨?_, hmakes⟩, hvalues⟩
    cases op <;> exact hmem
  refine .inl ?_
  have hrun := hstep.run
  cases op with
  | verrorfWithCause errorCode cause format arg =>
      obtain ⟨⟨e, m'⟩, hcreate, hw'⟩ := bind_eq_ok_iff.mp hrun
      obtain rfl := Except.ok.inj hw'
      obtain ⟨value, hcreated, hdenotes⟩ := verrorfWithCause_denotes hrender hprints hstep.matching
        hstep.fits h.sound.owned.hasFallback hv hcreate hsound.owned
      exact hmatched (.create hcreated)
        (World.HasValues.step {e} {value} hsound hpreserves rfl hrest (.cons hdenotes .zero))
  | acquire e =>
      obtain ⟨⟨e', m'⟩, hacquire, hw'⟩ := bind_eq_ok_iff.mp hrun
      obtain rfl := Except.ok.inj hw'
      obtain rfl := (acquire_same e w.mem).of_eq_ok hacquire
      have hkept : Denotes m' e' v :=
        Denotes.owned (w := w) hv hpreserves hsound (Multiset.mem_cons_self _ _)
      exact hmatched .copy
        (World.HasValues.step {e'} {v} hsound hpreserves rfl h.denotes (.cons hkept .zero))
  | release e =>
      obtain ⟨m', -, hw'⟩ := bind_eq_ok_iff.mp hrun
      obtain rfl := Except.ok.inj hw'
      refine hmatched .drop ?_
      rw [← zero_add (V.erase v)]
      exact World.HasValues.step 0 0 hsound hpreserves (zero_add _).symm hrest .zero
  | move e =>
      obtain rfl := Except.ok.inj hrun
      have hsplit : e ::ₘ u7Ok ::ₘ w.handles.erase e = e ::ₘ {u7Ok} + w.handles.erase e := by
        rw [Multiset.cons_add, Multiset.singleton_add]
      have hvalues := World.HasValues.step _ _ hsound hpreserves hsplit hrest
        (.cons hv (.cons .ok .zero))
      rw [Multiset.cons_add, Multiset.cons_add, zero_add] at hvalues
      exact hmatched .move hvalues
  | clear e =>
      obtain ⟨⟨e', m'⟩, hclear, hw'⟩ := bind_eq_ok_iff.mp hrun
      obtain rfl := Except.ok.inj hw'
      obtain ⟨m₁, -, hr⟩ := bind_eq_ok_iff.mp hclear
      obtain ⟨rfl, rfl⟩ := Prod.mk.inj (Except.ok.inj hr)
      exact hmatched .clear
        (World.HasValues.step {u7Ok} {[]} hsound hpreserves rfl hrest (.cons .ok .zero))

end Refinement

/-! ### What is read of an error -/

theorem nul_free_OK : 0 ∉ "OK".toList.map fun c => UInt8.ofNat c.toNat := by
  decide

theorem nul_free_ok : 0 ∉ "ok".toList.map fun c => UInt8.ofNat c.toNat := by
  decide

/-- The name of the category of an error. -/
def ErrorValue.categoryName : ErrorValue → CStr
  | [] => .lit "OK" nul_free_OK
  | _ :: _ => U7ErrorCategory.errno.name

/-- The message of an error. -/
def ErrorValue.message : ErrorValue → List UInt8
  | [] => (CStr.lit "ok" nul_free_ok).bytes
  | entry :: _ => entry.message

/-- What the accessors and `printf` give for an error that says `v`. -/
structure ReadsAs (m : Mem) (e : U7Error) (v : ErrorValue) : Prop where
  categoryName : u7ErrorCategoryName e m = .ok v.categoryName
  message : ∃ junk, u7ErrorMessage e m = .ok (v.message ++ 0 :: junk)
  messageLength : u7ErrorMessageLength e m = .ok (v.message.length : ℤ)
  print : printError e m =
    .ok (errorText v.categoryName e.errorCode (padded v.message.length (cString v.message)))

section Reading

variable {m m' : Mem} {e e' : U7Error} {x : U7ErrorPayload} {v : ErrorValue}
  {text : List UInt8} {out out' loose loose' : ℕ → ℕ}

/-- A string ends at its first NUL. -/
theorem cString_terminated (text junk : List UInt8) :
    cString (text ++ 0 :: junk) = cString text := by
  induction text with
  | nil => rfl
  | cons b text ih =>
      by_cases hb : b = 0
      · simp [cString, hb]
      · have hcons : ∀ l, cString (b :: l) = b :: cString l := by
          intro l
          simp [cString, hb]
        rw [List.cons_append, hcons, hcons, ih]

/-- The array of a message is the message, a NUL, and whatever lies behind it. -/
theorem Mem.Says.read (h : m.Says x text) :
    (∃ junk, m.text x.message = .ok (text ++ 0 :: junk)) ∧
      x.messageLength = text.length := by
  cases h with
  | @buffer b _ _ hmessage hbytes hcarries =>
      obtain ⟨hn, rest, rfl⟩ := hcarries
      refine ⟨⟨initialized rest, ?_⟩, hn⟩
      rw [hmessage, Mem.text, hbytes]
      simp only
      rw [List.append_assoc, initialized_append]
      rfl
  | fallback hmessage hlength =>
      refine ⟨⟨[], ?_⟩, hlength⟩
      rw [hmessage]
      rfl

/-- **What an error says is what is read of it.** -/
theorem Denotes.readsAs (h : Denotes m e v) : ReadsAs m e v := by
  have hprint : ∀ {e : U7Error} {v : ErrorValue}, u7ErrorCategoryName e m = .ok v.categoryName →
      (∃ junk, u7ErrorMessage e m = .ok (v.message ++ 0 :: junk)) →
      u7ErrorMessageLength e m = .ok (v.message.length : ℤ) → ReadsAs m e v := by
    intro e v hname hmessage hlength
    refine ⟨hname, hmessage, hlength, ?_⟩
    obtain ⟨junk, hmessage⟩ := hmessage
    rw [printError, u7ErrorFmtParams, hname, ok_bind, hlength, ok_bind, hmessage, ok_bind,
      ok_bind, printf_u7ErrorFmt _ _ _ (by simp), cString_terminated]
  cases h with
  | ok => exact hprint rfl ⟨[], rfl⟩ rfl
  | @error _ p x text v hcode hp hx hdenotes _ =>
      obtain ⟨⟨junk, htext⟩, hlength⟩ := hdenotes.read
      have hderef : e.deref m = .ok x := by
        rw [U7Error.deref, hp]
        simp only [Mem.deref, hx]
      refine hprint ?_ ⟨junk, ?_⟩ ?_
      · rw [u7ErrorCategoryName, if_pos hcode, hderef, ok_bind]
        rfl
      · rw [u7ErrorMessage, if_pos hcode, hderef, ok_bind, htext]
        rfl
      · rw [u7ErrorMessageLength, if_pos hcode, hderef, ok_bind, hlength]
        rfl

end Reading

/-- **Errors are values.** Every run of the operations of `error.c` on owned handles is the
run of a program that owns values, in which copies are equal, a dropped value is gone, and a
created error is its code and its rendered message in front of its cause: the operations of
the two runs match one by one, every handle stands for the value it is matched with, and
that is what is read of it and printed. Only where an error falls back, which it does not
unless some call of the C library fails, the message and the cause are replaced by the
message of the fallback payload. -/
theorem errors_are_values (ℓ : Libc) (render : CStr → List VaArg → List UInt8)
    (hrender : Printf render) (hprints : ℓ.PrintsOrFails render) (trace : List (World × Op))
    (w : World) (hrun : Run (ErrorStep ℓ render) ⟨Mem.start, 0⟩ trace w) :
    ∃ trace' V, Run (ValueStep (ℓ.Fails render)) 0 trace' V ∧
      w.handles.Rel (fun e v => Denotes w.mem e v ∧ ReadsAs w.mem e v) V ∧
      Matched (fun step step' => step.1.handles.Rel (Denotes step.1.mem) step'.1 ∧
        ∃ v, Denotes step.1.mem step.2.handle v ∧ step'.2 = step.2.onValue render v)
        (fun _ => False) trace trace' := by
  have hstart : World.HasValues ⟨Mem.start, 0⟩ 0 := ⟨sound_start, .zero⟩
  obtain ⟨trace', V, hrun', hvalues, hmatched⟩ :=
    (errors_simulate_values hrender hprints).run hstart hrun
  refine ⟨trace', V, hrun', hvalues.denotes.mono fun _ _ _ _ h => ⟨h, h.readsAs⟩, ?_⟩
  exact hmatched.mono (fun _ _ h => ⟨h.1.denotes, h.2⟩) fun _ => id

/-- An error is created and becomes the cause of another one, whose message is `abc`. -/
theorem errors_are_values_two :
    ∃ trace w, trace.length = 2 ∧
      Run (ErrorStep (.ofShort renderPlain) renderPlain) ⟨Mem.start, 0⟩ trace w ∧
      ∃ trace' V,
        Run (ValueStep ((Libc.ofShort renderPlain).Fails renderPlain)) 0 trace' V ∧
        w.handles.Rel (fun e v => Denotes w.mem e v ∧ ReadsAs w.mem e v) V ∧
        Matched (fun step step' => step.1.handles.Rel (Denotes step.1.mem) step'.1 ∧
          ∃ v, Denotes step.1.mem step.2.handle v ∧ step'.2 = step.2.onValue renderPlain v)
          (fun _ => False) trace trace' := by
  have hcreate : ∀ {w w' : World} {format : CStr} {arg : List VaArg} (errorCode : ℤ)
      (cause : U7Error), Multiset.card w.handles + w.mem.payloads.next < 2 ^ 32 →
      cause ∈ w.handles ∨ cause = u7Ok → Matches format arg →
      (renderPlain format arg).length ≤ intMax →
      Op.run (.ofShort renderPlain) w (.verrorfWithCause errorCode cause format arg) = .ok w' →
      ErrorStep (.ofShort renderPlain) renderPlain w
        (.verrorfWithCause errorCode cause format arg) w' :=
    fun _ _ hcard howned hmatch hlen hrun =>
      ⟨fun p => (World.refs_le _ p).trans_lt hcard, howned, hmatch, hlen, hrun⟩
  have hempty : Matches (.lit "" nul_free_empty) [] :=
    ⟨fun h => absurd h (by decide), fun h => absurd h (by decide)⟩
  have hstring : Matches (.lit "%s" nul_free_string) [.str [97, 98, 99, 0]] :=
    ⟨fun _ => ⟨_, _, rfl, by decide⟩, fun h => absurd h (by decide)⟩
  have hfirst := Run.nil.snoc (hcreate (w := ⟨Mem.start, 0⟩) 5 u7Ok (by decide) (.inr rfl)
    hempty (by decide) rfl)
  have hrun := hfirst.snoc (hcreate 22 ⟨5, some 1⟩ (by decide)
    (.inl (by decide)) hstring (by decide) rfl)
  exact ⟨_, _, rfl, hrun, errors_are_values (.ofShort renderPlain) renderPlain
    printf_renderPlain (printsOrFails_ofShort renderPlain) _ _ hrun⟩

/-! ### Whatever the C library does -/

/-- `e'` is `e`, or its cause, or the cause of that, and so on. -/
inductive Mem.Behind (m : Mem) : U7Error → U7Error → Prop
  | self (e : U7Error) : Behind m e e
  | cause {e e' : U7Error} {p : ℕ} {x : U7ErrorPayload} : e.payload = some p →
      m.payloads.cell p = some x → Behind m x.cause e' → Behind m e e'

/-- The accessors and `printf` give the same for `e` in both memories. -/
structure ReadsAlike (m m' : Mem) (e : U7Error) : Prop where
  categoryName : u7ErrorCategoryName e m' = u7ErrorCategoryName e m
  message : u7ErrorMessage e m' = u7ErrorMessage e m
  messageLength : u7ErrorMessageLength e m' = u7ErrorMessageLength e m
  print : printError e m' = printError e m

/-- A step of a program on handles, whatever the C library does. -/
def OwnedStep (ℓ : Libc) (w : World) (op : Op) (w' : World) : Prop :=
  w.Bounded ∧ op.IsOwned w ∧ op.run ℓ w = .ok w'

section Alike

variable {ℓ : Libc} {m m' : Mem} {e e' : U7Error} {out out' loose loose' : ℕ → ℕ}

/-- `e` is owned in `m`, by someone outside or by a payload. -/
def Mem.Holds (m : Mem) (out : ℕ → ℕ) (e : U7Error) : Prop :=
  ∀ p, e.payload = some p → 0 < out p + m.links p

/-- The cause of a live payload is owned by it. -/
theorem holds_cause {p : ℕ} {x : U7ErrorPayload} (hx : m.payloads.cell p = some x) :
    m.Holds out x.cause :=
  fun _ hq => Nat.add_pos_right _ (links_pos hx hq)

/-- The payload of an error that is owned before and after is the same but for its
counter. -/
theorem Preserves.payload_eq (h : Preserves m m') (howned : Owned m out loose)
    (howned' : Owned m' out' loose') (hheld : m.Holds out e) (hheld' : m'.Holds out' e)
    {p : ℕ} (hp : e.payload = some p) :
    ∃ x count, m.payloads.cell p = some x ∧
      m'.payloads.cell p = some { x with refcount := count } := by
  obtain ⟨y, hy⟩ := howned.live (hheld p hp)
  obtain ⟨x', hx'⟩ := howned'.live (hheld' p hp)
  obtain ⟨x, count, hx, rfl⟩ := h.payload hx' (BlockHeap.lt_next hy)
  exact ⟨x, count, hx, hx'⟩

/-- What is printed depends on the accessors only. -/
theorem ReadsAlike.of_accessors (hname : u7ErrorCategoryName e m' = u7ErrorCategoryName e m)
    (hmessage : u7ErrorMessage e m' = u7ErrorMessage e m)
    (hlength : u7ErrorMessageLength e m' = u7ErrorMessageLength e m) : ReadsAlike m m' e := by
  refine ⟨hname, hmessage, hlength, ?_⟩
  rw [printError, printError, u7ErrorFmtParams, u7ErrorFmtParams, hname, hmessage, hlength]

/-- So it reads the same. -/
theorem Preserves.readsAlike (h : Preserves m m') (howned : Owned m out loose)
    (howned' : Owned m' out' loose') (hheld : m.Holds out e) (hheld' : m'.Holds out' e) :
    ReadsAlike m m' e := by
  cases hp : e.payload with
  | none =>
      have hderef : ∀ m, e.deref m = .error .deadObject := by
        intro m
        rw [U7Error.deref, hp]
      apply ReadsAlike.of_accessors
      · rw [u7ErrorCategoryName, u7ErrorCategoryName, hderef, hderef]
      · rw [u7ErrorMessage, u7ErrorMessage, hderef, hderef]
        rfl
      · rw [u7ErrorMessageLength, u7ErrorMessageLength, hderef, hderef]
  | some p =>
      obtain ⟨x, count, hx, hx'⟩ := h.payload_eq howned howned' hheld hheld' hp
      have hderef : e.deref m = .ok x := by
        rw [U7Error.deref, hp]
        simp only [Mem.deref, hx]
      have hderef' : e.deref m' = .ok { x with refcount := count } := by
        rw [U7Error.deref, hp]
        simp only [Mem.deref, hx']
      have htext : m'.text x.message = m.text x.message := by
        cases hb : x.message with
        | null => rfl
        | fallbackMessage => rfl
        | block b =>
            obtain ⟨⟨bytes, hbytes⟩, -⟩ := howned.message_live hx hb
            obtain ⟨⟨bytes', hbytes'⟩, -⟩ := howned'.message_live hx' hb
            obtain rfl := h.buffer hbytes hbytes'
            simp only [Mem.text, hbytes, hbytes']
      apply ReadsAlike.of_accessors
      · rw [u7ErrorCategoryName, u7ErrorCategoryName, hderef, hderef', ok_bind, ok_bind]
      · rw [u7ErrorMessage, u7ErrorMessage, hderef, hderef', ok_bind, ok_bind, htext]
      · rw [u7ErrorMessageLength, u7ErrorMessageLength, hderef, hderef', ok_bind, ok_bind]

/-- **The errors behind an owned one** are the same before and after, and read the same. The
induction is along the causes, which the payloads on the way own. -/
theorem Preserves.behind (h : Preserves m m') (howned : Owned m out loose)
    (howned' : Owned m' out' loose') (hheld : m.Holds out e) (hheld' : m'.Holds out' e)
    (hbehind : m.Behind e e') : m'.Behind e e' ∧ ReadsAlike m m' e' := by
  induction hbehind with
  | self e => exact ⟨.self e, h.readsAlike howned howned' hheld hheld'⟩
  | @cause e _ p x hp hx _ ih =>
      obtain ⟨y, count, hy, hx'⟩ := h.payload_eq howned howned' hheld hheld' hp
      obtain rfl := Option.some.inj (hx.symm.trans hy)
      have hcause' : m'.Holds out' x.cause := holds_cause (x := { x with refcount := count }) hx'
      obtain ⟨hbehind', halike⟩ := ih (holds_cause hx) hcause'
      exact ⟨.cause hp hx' hbehind', halike⟩

end Alike

/-- **An owned error never changes.** Whatever the C library does, and whatever is done to
other handles, to copies of this one and to errors it is a cause of: as long as someone owns
the handle, the errors behind it stay the same, and each of them reads the same. -/
theorem owned_errors_read_alike (ℓ : Libc) (w w' : World) (hreach : Reachable ℓ w)
    (trace : List (World × Op)) (hrun : Run (OwnedStep ℓ) w trace w') (e : U7Error)
    (hsteps : ∀ step ∈ trace, e ∈ step.1.handles) (hend : e ∈ w'.handles) :
    ∀ e', w.mem.Behind e e' → w'.mem.Behind e e' ∧ ReadsAlike w.mem w'.mem e' := by
  have hheld : ∀ {w : World}, e ∈ w.handles → w.mem.Holds (handleRefs w.handles) e :=
    fun he p hp => Nat.add_pos_left (Multiset.countP_pos.mpr ⟨e, he, hp⟩) _
  have hreaches : ∀ {trace w'}, Run (OwnedStep ℓ) w trace w' → Reachable ℓ w' :=
    fun hrun => hrun.invariant hreach fun _ op _ hw ⟨hbounded, howned, hrun⟩ =>
      hw.step op hbounded howned hrun
  induction hrun with
  | nil => exact fun e' hbehind => ⟨hbehind, rfl, rfl, rfl, rfl⟩
  | @snoc trace w₁ w₂ op hrun hstep ih =>
      obtain ⟨hbefore, hlast⟩ := List.forall_mem_append.mp hsteps
      have hlast : e ∈ w₁.handles := hlast _ (List.mem_singleton_self _)
      intro e' hbehind
      obtain ⟨hbehind₁, halike⟩ := ih hbefore hlast e' hbehind
      have hsound := sound_of_reachable (hreaches hrun)
      have hsound' := sound_of_reachable (hreaches (hrun.snoc hstep))
      have hpreserves := (Op.run_preserves ℓ op w₁).of_eq_ok hstep.2.2
      obtain ⟨hbehind₂, halike'⟩ := hpreserves.behind hsound.owned hsound'.owned
        (hheld hlast) (hheld hend) hbehind₁
      exact ⟨hbehind₂, halike'.categoryName.trans halike.categoryName,
        halike'.message.trans halike.message,
        halike'.messageLength.trans halike.messageLength, halike'.print.trans halike.print⟩

/-- An error is copied, and one of the two handles is released. -/
theorem owned_errors_read_alike_copy :
    ∃ w trace w', Reachable (.ofShort renderPlain) w ∧ trace.length = 2 ∧
      Run (OwnedStep (.ofShort renderPlain)) w trace w' ∧
      ReadsAlike w.mem w'.mem ⟨22, some 1⟩ := by
  have hbounded : ∀ {w : World}, Multiset.card w.handles + w.mem.payloads.next < 2 ^ 32 →
      w.Bounded := fun hcard p => (World.refs_le _ p).trans_lt hcard
  have hstart : Reachable (.ofShort renderPlain) _ := .start
  have hreach := hstart.step (.verrorfWithCause 22 u7Ok (.lit "" nul_free_empty) [])
    (hbounded (by decide)) (.inr rfl) rfl
  have hnil : ∀ {w : World}, Reachable (.ofShort renderPlain) w →
      Run (OwnedStep (.ofShort renderPlain)) w [] w := fun _ => .nil
  have hcopy := (hnil hreach).snoc (e := .acquire ⟨22, some 1⟩)
    ⟨hbounded (by decide), .inl (by decide), rfl⟩
  have hrun := hcopy.snoc (e := .release ⟨22, some 1⟩)
    ⟨hbounded (by decide), .inl (by decide), rfl⟩
  refine ⟨_, _, _, hreach, rfl, hrun, ?_⟩
  exact (owned_errors_read_alike _ _ _ hreach _ hrun ⟨22, some 1⟩ (by decide) (by decide) _
    (.self _)).2

end U7Init
