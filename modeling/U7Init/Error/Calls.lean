import U7Init.Error.Concurrent

/-!
# Concurrent Creation and Release

This module runs all functions of `error.c` in any number of threads over one heap. Unlike in
`U7Init.Error.Concurrent` the heap grows: `u7_verrorf_with_cause` allocates message buffers and
payloads, any call of `malloc` and `realloc` may fail and any call of `vsnprintf` may report an
error, and on those paths it frees its buffer, releases the cause and takes a reference to the
fallback payload. Threads may hand errors to each other, and may read the messages of an error
they own and of its causes, through `payload->cause`, while other threads release theirs.

Payloads and message buffers are numbered in the order of their allocation, payload `0` being
the fallback payload. What a thread does to memory that nobody else can see is part of the
step before it; atomics are sequentially consistent.

## Main results

* `Calls.Phase`: a payload has not been created, or it is counted, claimed or freed.
* `Calls.Next.effect`: what a step does to the references, claims and buffers of its thread and
  to the heap.
-/

open Interleaving

namespace U7Init

namespace Calls

open Walk (points points_none points_self points_of_ne points_pos_iff Life)

/-- The fields of a payload that are not written after its creation. -/
structure Payload where
  disposes : Bool
  cause : Option ℕ
  message : Option ℕ

/-- `u7_errno_category_static_fallback_payload`, whose message is not a buffer. -/
def fallbackPayload : Payload :=
  ⟨false, none, none⟩

/-- What `u7_errno_category_make_payload_fn` stores in a new payload. -/
def newPayload (cause : Option ℕ) (message : ℕ) : Payload :=
  ⟨true, cause, some message⟩

/-- The heap. The payloads `p < next` and the buffers `b < nextBuffer` have been allocated;
`disposed` and `freed` say how often `dispose_fn` has freed the message of a payload and how
often the payload itself. The errors in `mailbox` are on their way between threads. -/
structure Shared where
  next : ℕ
  payload : ℕ → Payload
  count : ℕ → U7Refcount
  disposed : ℕ → ℕ
  freed : ℕ → ℕ
  nextBuffer : ℕ
  freedBuffer : ℕ → ℕ
  mailbox : Multiset (Option ℕ)

/-- What a thread does when its walk over the causes ends. -/
inductive After
  /-- `u7_error_release` returns. -/
  | done
  /-- The caller has or returns `u7_ok()`: `u7_error_clear`, and `u7_verrorf_with_cause`
  without an error code. -/
  | ok
  /-- `u7_errno_category_make_payload_fn` goes on to the fallback payload. -/
  | fallback
  deriving DecidableEq

/-- Where a thread is. -/
inductive Place
  | idle
  /-- In `u7_error_release`, at the head of the loop. -/
  | loop (after : After) (payload : Option ℕ)
  /-- Between the load and the `fetch_sub` of the counter. -/
  | sub (after : After) (payload : ℕ)
  /-- In the body, before `cause` is read. -/
  | body (after : After) (payload : ℕ)
  /-- In the body, before `dispose_fn` is called. -/
  | dispose (after : After) (payload : ℕ) (causePayload : Option ℕ)
  /-- In `dispose_fn`, between `free(self->message)` and `free(self)`. -/
  | free (after : After) (payload : ℕ) (causePayload : Option ℕ)
  /-- Before `u7_refcount_increment` of the fallback payload. -/
  | increment
  /-- In `u7_verrorf_with_cause`, before the message is written for the first time. -/
  | short (cause : Option ℕ) (message : ℕ)
  /-- Before a long message is written to the buffer that `realloc` returned. -/
  | long (cause : Option ℕ) (message : ℕ)
  /-- At the label `fail`. -/
  | fail (cause : Option ℕ) (message : Option ℕ)
  /-- At the label `ret`; `message_length` is negative if there is no message. -/
  | ret (cause : Option ℕ) (message : Option ℕ)
  /-- Before the `free(message)` of `u7_errno_category_make_payload_fn`. -/
  | freeMessage (cause : Option ℕ) (message : ℕ)
  /-- At `payload` of the causes of `owned`, which the thread keeps. -/
  | read (owned : ℕ) (payload : ℕ)
  deriving DecidableEq

/-- A thread: where it is and the payload pointers of the errors it owns. -/
structure Thread where
  place : Place
  handles : Multiset (Option ℕ)

/-- The payload and the message buffer that a step accesses. -/
structure Event where
  payload : Option ℕ
  message : Option ℕ

/-- A step that accesses nothing that other threads can see. -/
def Event.silent : Event :=
  ⟨none, none⟩

/-- How a thread goes on behind its walk. -/
def After.resume (after : After) (hs : Multiset (Option ℕ)) : Thread :=
  match after with
  | .done => ⟨.idle, hs⟩
  | .ok => ⟨.idle, none ::ₘ hs⟩
  | .fallback => ⟨.increment, hs⟩

/-- The heap with other errors on their way. -/
def Shared.setMailbox (s : Shared) (mailbox : Multiset (Option ℕ)) : Shared :=
  { s with mailbox := mailbox }

/-- The heap with another counter. -/
def Shared.setCount (s : Shared) (p : ℕ) (count : U7Refcount) : Shared :=
  { s with count := Function.update s.count p count }

/-- `malloc` of a message buffer. -/
def Shared.malloc (s : Shared) : Shared :=
  { s with nextBuffer := s.nextBuffer + 1 }

/-- `free` of a message buffer, or of `NULL`. -/
def Shared.freeBuffer (s : Shared) : Option ℕ → Shared
  | none => s
  | some b => { s with freedBuffer := Function.update s.freedBuffer b (s.freedBuffer b + 1) }

/-- The first half of `u7_errno_category_payload_dispose_fn`: `free(self->message)`. -/
def Shared.dispose (s : Shared) (p : ℕ) : Shared :=
  { s.freeBuffer (s.payload p).message with
    disposed := Function.update s.disposed p (s.disposed p + 1) }

/-- The second half: `free(self)`. -/
def Shared.freePayload (s : Shared) (p : ℕ) : Shared :=
  { s with freed := Function.update s.freed p (s.freed p + 1) }

/-- `malloc` of a payload and the stores to its fields. -/
def Shared.create (s : Shared) (cause : Option ℕ) (message : ℕ) : Shared :=
  { s with
    next := s.next + 1
    payload := Function.update s.payload s.next (newPayload cause message)
    count := Function.update s.count s.next u7RefcountInit }

/-- The atomic steps of a thread. -/
inductive Next {ι : Type*} : Program ι Shared Thread Event
  -- what a program does with the errors it owns
  | ok {i : ι} {s : Shared} {hs : Multiset (Option ℕ)} :
      Next i s ⟨.idle, hs⟩ .silent s ⟨.idle, none ::ₘ hs⟩
  | put {i : ι} {s : Shared} {hs : Multiset (Option ℕ)} {o : Option ℕ} :
      o ∈ hs →
      Next i s ⟨.idle, hs⟩ .silent (s.setMailbox (o ::ₘ s.mailbox)) ⟨.idle, hs.erase o⟩
  | take {i : ι} {s : Shared} {hs : Multiset (Option ℕ)} {o : Option ℕ} :
      o ∈ s.mailbox →
      Next i s ⟨.idle, hs⟩ .silent (s.setMailbox (s.mailbox.erase o)) ⟨.idle, o ::ₘ hs⟩
  -- `u7_error_acquire`
  | acquireNull {i : ι} {s : Shared} {hs : Multiset (Option ℕ)} :
      none ∈ hs → Next i s ⟨.idle, hs⟩ .silent s ⟨.idle, none ::ₘ hs⟩
  | acquire {i : ι} {s : Shared} {hs : Multiset (Option ℕ)} {p : ℕ} :
      some p ∈ hs →
      Next i s ⟨.idle, hs⟩ ⟨some p, none⟩ (s.setCount p (u7RefcountIncrement (s.count p)))
        ⟨.idle, some p ::ₘ hs⟩
  -- `u7_error_message` of an error and of its causes
  | readFirst {i : ι} {s : Shared} {hs : Multiset (Option ℕ)} {p : ℕ} :
      some p ∈ hs → Next i s ⟨.idle, hs⟩ .silent s ⟨.read p p, hs⟩
  | readNext {i : ι} {s : Shared} {hs : Multiset (Option ℕ)} {p q r : ℕ} :
      (s.payload q).cause = some r →
      Next i s ⟨.read p q, hs⟩ ⟨some q, (s.payload q).message⟩ s ⟨.read p r, hs⟩
  | readLast {i : ι} {s : Shared} {hs : Multiset (Option ℕ)} {p q : ℕ} :
      (s.payload q).cause = none →
      Next i s ⟨.read p q, hs⟩ ⟨some q, (s.payload q).message⟩ s ⟨.idle, hs⟩
  -- the calls that start with `u7_error_release`
  | release {i : ι} {s : Shared} {hs : Multiset (Option ℕ)} {o : Option ℕ} {after : After} :
      o ∈ hs → after ≠ .fallback →
      Next i s ⟨.idle, hs⟩ .silent s ⟨.loop after o, hs.erase o⟩
  | loopNull {i : ι} {s : Shared} {hs : Multiset (Option ℕ)} {after : After} :
      Next i s ⟨.loop after none, hs⟩ .silent s (after.resume hs)
  | loadOne {i : ι} {s : Shared} {hs : Multiset (Option ℕ)} {after : After} {p : ℕ} :
      s.count p = 1#32 →
      Next i s ⟨.loop after (some p), hs⟩ ⟨some p, none⟩ s ⟨.body after p, hs⟩
  | loadMany {i : ι} {s : Shared} {hs : Multiset (Option ℕ)} {after : After} {p : ℕ} :
      s.count p ≠ 1#32 →
      Next i s ⟨.loop after (some p), hs⟩ ⟨some p, none⟩ s ⟨.sub after p, hs⟩
  | subOne {i : ι} {s : Shared} {hs : Multiset (Option ℕ)} {after : After} {p : ℕ} :
      (u7RefcountDecrement (s.count p)).2 = false →
      Next i s ⟨.sub after p, hs⟩ ⟨some p, none⟩
        (s.setCount p (u7RefcountDecrement (s.count p)).1) ⟨.body after p, hs⟩
  | subMany {i : ι} {s : Shared} {hs : Multiset (Option ℕ)} {after : After} {p : ℕ} :
      (u7RefcountDecrement (s.count p)).2 = true →
      Next i s ⟨.sub after p, hs⟩ ⟨some p, none⟩
        (s.setCount p (u7RefcountDecrement (s.count p)).1) (after.resume hs)
  | readCause {i : ι} {s : Shared} {hs : Multiset (Option ℕ)} {after : After} {p : ℕ} :
      Next i s ⟨.body after p, hs⟩ ⟨some p, none⟩ s ⟨.dispose after p (s.payload p).cause, hs⟩
  | noDispose {i : ι} {s : Shared} {hs : Multiset (Option ℕ)} {after : After} {p : ℕ}
      {o : Option ℕ} :
      (s.payload p).disposes = false →
      Next i s ⟨.dispose after p o, hs⟩ ⟨some p, none⟩ s ⟨.loop after o, hs⟩
  | dispose {i : ι} {s : Shared} {hs : Multiset (Option ℕ)} {after : After} {p : ℕ}
      {o : Option ℕ} :
      (s.payload p).disposes = true →
      Next i s ⟨.dispose after p o, hs⟩ ⟨some p, (s.payload p).message⟩ (s.dispose p)
        ⟨.free after p o, hs⟩
  | free {i : ι} {s : Shared} {hs : Multiset (Option ℕ)} {after : After} {p : ℕ}
      {o : Option ℕ} :
      Next i s ⟨.free after p o, hs⟩ ⟨some p, none⟩ (s.freePayload p) ⟨.loop after o, hs⟩
  -- `u7_verrorf_with_cause` up to its labels
  | malloc {i : ι} {s : Shared} {hs : Multiset (Option ℕ)} {o : Option ℕ} :
      o ∈ hs →
      Next i s ⟨.idle, hs⟩ .silent s.malloc ⟨.short o s.nextBuffer, hs.erase o⟩
  | mallocFail {i : ι} {s : Shared} {hs : Multiset (Option ℕ)} {o : Option ℕ} :
      o ∈ hs → Next i s ⟨.idle, hs⟩ .silent s ⟨.fail o none, hs.erase o⟩
  | short {i : ι} {s : Shared} {hs : Multiset (Option ℕ)} {o : Option ℕ} {b : ℕ} :
      Next i s ⟨.short o b, hs⟩ ⟨none, some b⟩ s ⟨.ret o (some b), hs⟩
  | shortFail {i : ι} {s : Shared} {hs : Multiset (Option ℕ)} {o : Option ℕ} {b : ℕ} :
      Next i s ⟨.short o b, hs⟩ ⟨none, some b⟩ s ⟨.fail o (some b), hs⟩
  | realloc {i : ι} {s : Shared} {hs : Multiset (Option ℕ)} {o : Option ℕ} {b : ℕ} :
      Next i s ⟨.short o b, hs⟩ ⟨none, some b⟩ (s.freeBuffer (some b)).malloc
        ⟨.long o s.nextBuffer, hs⟩
  | long {i : ι} {s : Shared} {hs : Multiset (Option ℕ)} {o : Option ℕ} {b : ℕ} :
      Next i s ⟨.long o b, hs⟩ ⟨none, some b⟩ s ⟨.ret o (some b), hs⟩
  | longFail {i : ι} {s : Shared} {hs : Multiset (Option ℕ)} {o : Option ℕ} {b : ℕ} :
      Next i s ⟨.long o b, hs⟩ ⟨none, some b⟩ s ⟨.fail o (some b), hs⟩
  | fail {i : ι} {s : Shared} {hs : Multiset (Option ℕ)} {o message : Option ℕ} :
      Next i s ⟨.fail o message, hs⟩ ⟨none, message⟩ (s.freeBuffer message) ⟨.ret o none, hs⟩
  -- `u7_errno_category_make_payload_fn`
  | noMessage {i : ι} {s : Shared} {hs : Multiset (Option ℕ)} {o : Option ℕ} :
      Next i s ⟨.ret o none, hs⟩ .silent s ⟨.loop .fallback o, hs⟩
  | create {i : ι} {s : Shared} {hs : Multiset (Option ℕ)} {o : Option ℕ} {b : ℕ} :
      Next i s ⟨.ret o (some b), hs⟩ .silent (s.create o b) ⟨.idle, some s.next ::ₘ hs⟩
  | createFail {i : ι} {s : Shared} {hs : Multiset (Option ℕ)} {o : Option ℕ} {b : ℕ} :
      Next i s ⟨.ret o (some b), hs⟩ .silent s ⟨.freeMessage o b, hs⟩
  | freeMessage {i : ι} {s : Shared} {hs : Multiset (Option ℕ)} {o : Option ℕ} {b : ℕ} :
      Next i s ⟨.freeMessage o b, hs⟩ ⟨none, some b⟩ (s.freeBuffer (some b))
        ⟨.loop .fallback o, hs⟩
  | increment {i : ι} {s : Shared} {hs : Multiset (Option ℕ)} :
      Next i s ⟨.increment, hs⟩ ⟨some 0, none⟩ (s.setCount 0 (u7RefcountIncrement (s.count 0)))
        ⟨.idle, some 0 ::ₘ hs⟩

/-- The heap of a new program: only the fallback payload, with `U7_REFCOUNT_INIT`. -/
def Shared.start : Shared where
  next := 1
  payload := fun _ => fallbackPayload
  count := fun _ => u7RefcountInit
  disposed := fun _ => 0
  freed := fun _ => 0
  nextBuffer := 0
  freedBuffer := fun _ => 0
  mailbox := 0

/-- No thread owns an error yet. -/
def start {ι : Type*} : Config ι Shared Thread :=
  ⟨.start, fun _ => ⟨.idle, 0⟩⟩

/-! ### References -/

/-- The reference that a walk still owes a decrement, or that a creation is to give to the
new payload. -/
def Place.owes : Place → Option ℕ
  | .loop _ o | .free _ _ o | .short o _ | .long o _ | .fail o _ | .ret o _
  | .freeMessage o _ => o
  | .sub _ p => some p
  | .idle | .body _ _ | .dispose _ _ _ | .increment | .read _ _ => none

/-- The payload that a walk is about to dispose of or to free. -/
def Place.claims : Place → Option ℕ
  | .body _ p | .dispose _ p _ | .free _ p _ => some p
  | _ => none

/-- The payload that a walk is about to free. -/
def Place.frees : Place → Option ℕ
  | .free _ p _ => some p
  | _ => none

/-- The buffer that belongs to a creation. -/
def Place.message : Place → Option ℕ
  | .short _ b | .long _ b | .freeMessage _ b => some b
  | .fail _ message | .ret _ message => message
  | _ => none

theorem Place.points_frees_le (place : Place) (p : ℕ) :
    points place.frees p ≤ points place.claims p := by
  cases place <;> first | exact le_rfl | exact Nat.zero_le _

/-- The references of a thread to `p`. -/
def Thread.refs (t : Thread) (p : ℕ) : ℕ :=
  t.handles.count (some p) + points t.place.owes p

/-- How many payloads that were not disposed of point to `r` with a field. -/
def Shared.pointers (s : Shared) (field : Payload → Option ℕ) (r : ℕ) : ℕ :=
  ((Finset.range s.next).filter fun q => s.disposed q = 0 ∧ field (s.payload q) = some r).card

section Totals

variable {ι : Type*} [Fintype ι]

/-- The number of references to `p`, that of the program to the fallback payload included. -/
def refs (c : Config ι Shared Thread) (p : ℕ) : ℕ :=
  c.total (fun t => t.refs p) + c.shared.mailbox.count (some p) +
    c.shared.pointers Payload.cause p + points (some 0) p

/-- The number of threads that are about to dispose of `p` or to free it. -/
def claimants (c : Config ι Shared Thread) (p : ℕ) : ℕ :=
  c.total fun t => points t.place.claims p

/-- The number of owners of message buffer `b`. -/
def owners (c : Config ι Shared Thread) (b : ℕ) : ℕ :=
  c.total (fun t => points t.place.message b) + c.shared.pointers Payload.message b

/-- No payload has `2 ^ 32` or more references. -/
def Bounded (c : Config ι Shared Thread) : Prop :=
  ∀ p, refs c p < 2 ^ 32

/-- A bound on the number of references to any payload that can be computed. -/
def size (c : Config ι Shared Thread) : ℕ :=
  c.total (fun t => t.handles.card + 1) + c.shared.mailbox.card + c.shared.next + 1

theorem refs_le_size (c : Config ι Shared Thread) (p : ℕ) : refs c p ≤ size c := by
  have hpoints : ∀ o, points o p ≤ 1 := fun o => by
    unfold points
    split_ifs <;> omega
  have hthreads : c.total (fun t => t.refs p) ≤ c.total fun t => t.handles.card + 1 :=
    Finset.sum_le_sum fun i _ =>
      add_le_add (Multiset.count_le_card _ _) (hpoints (c.loc i).place.owes)
  have hmailbox := Multiset.count_le_card (some p) c.shared.mailbox
  have hpointers : c.shared.pointers Payload.cause p ≤ c.shared.next :=
    (Finset.card_filter_le _ _).trans_eq (Finset.card_range _)
  have := hpoints (some 0)
  rw [refs, size]
  omega

theorem bounded_of_size {c : Config ι Shared Thread} (h : size c < 2 ^ 32) : Bounded c :=
  fun p => (refs_le_size c p).trans_lt h

/-- A run goes on with a step from a small configuration. -/
theorem tail_of_size [DecidableEq ι] {c₀ c : Config ι Shared Thread}
    (h : ReachWithin Next Bounded c₀ c) (hsize : size c < 2 ^ 32) (i : ι) {e : Event}
    {s' : Shared} {l' : Thread} (hnext : Next i c.shared (c.loc i) e s' l') :
    ReachWithin Next Bounded c₀ (c.move i s' l') :=
  h.tail (bounded_of_size hsize) (.mk hnext)

end Totals

/-! ### Pointers -/

section Pointers

variable {s : Shared} {field : Payload → Option ℕ} {p r : ℕ} {o : Option ℕ} {b : ℕ}

@[simp] theorem freeBuffer_next : (s.freeBuffer o).next = s.next := by
  cases o <;> rfl

@[simp] theorem freeBuffer_payload : (s.freeBuffer o).payload = s.payload := by
  cases o <;> rfl

@[simp] theorem freeBuffer_count : (s.freeBuffer o).count = s.count := by
  cases o <;> rfl

@[simp] theorem freeBuffer_disposed : (s.freeBuffer o).disposed = s.disposed := by
  cases o <;> rfl

@[simp] theorem freeBuffer_freed : (s.freeBuffer o).freed = s.freed := by
  cases o <;> rfl

@[simp] theorem freeBuffer_mailbox : (s.freeBuffer o).mailbox = s.mailbox := by
  cases o <;> rfl

@[simp] theorem freeBuffer_nextBuffer : (s.freeBuffer o).nextBuffer = s.nextBuffer := by
  cases o <;> rfl

/-- `free` of a buffer counts one more `free` of it. -/
theorem freeBuffer_freedBuffer (s : Shared) (o : Option ℕ) (b : ℕ) :
    (s.freeBuffer o).freedBuffer b = s.freedBuffer b + points o b := by
  cases o with
  | none => rfl
  | some b' =>
      by_cases hb : b' = b
      · subst hb
        simp [Shared.freeBuffer]
      · simp [Shared.freeBuffer, points_of_ne hb, Function.update_of_ne (Ne.symm hb)]

@[simp] theorem pointers_freeBuffer :
    (s.freeBuffer o).pointers field r = s.pointers field r := by
  simp [Shared.pointers]

@[simp] theorem pointers_setMailbox {mailbox : Multiset (Option ℕ)} :
    (s.setMailbox mailbox).pointers field r = s.pointers field r := rfl

@[simp] theorem pointers_setCount {count : U7Refcount} :
    (s.setCount p count).pointers field r = s.pointers field r := rfl

@[simp] theorem pointers_malloc : s.malloc.pointers field r = s.pointers field r := rfl

@[simp] theorem pointers_freePayload :
    (s.freePayload p).pointers field r = s.pointers field r := rfl

@[simp] theorem setMailbox_mailbox {mailbox : Multiset (Option ℕ)} :
    (s.setMailbox mailbox).mailbox = mailbox := rfl

@[simp] theorem setCount_mailbox {count : U7Refcount} :
    (s.setCount p count).mailbox = s.mailbox := rfl

@[simp] theorem malloc_mailbox : s.malloc.mailbox = s.mailbox := rfl

@[simp] theorem freePayload_mailbox : (s.freePayload p).mailbox = s.mailbox := rfl

@[simp] theorem create_mailbox : (s.create o b).mailbox = s.mailbox := rfl

@[simp] theorem dispose_mailbox : (s.dispose p).mailbox = s.mailbox := freeBuffer_mailbox

/-- A payload that is disposed of no longer points to anything. -/
theorem pointers_dispose (hp : s.disposed p = 0) (hborn : p < s.next)
    (field : Payload → Option ℕ) (r : ℕ) :
    (s.dispose p).pointers field r + points (field (s.payload p)) r = s.pointers field r := by
  have herase : ((Finset.range s.next).filter fun q =>
      Function.update s.disposed p (s.disposed p + 1) q = 0 ∧ field (s.payload q) = some r) =
      ((Finset.range s.next).filter fun q =>
        s.disposed q = 0 ∧ field (s.payload q) = some r).erase p := by
    ext q
    by_cases hq : q = p
    · subst hq
      simp
    · simp [hq]
  simp only [Shared.pointers, Shared.dispose, freeBuffer_next, freeBuffer_payload]
  rw [herase]
  by_cases hfield : field (s.payload p) = some r
  · have hmem : p ∈ (Finset.range s.next).filter fun q =>
        s.disposed q = 0 ∧ field (s.payload q) = some r := by
      simp [hp, hborn, hfield]
    have hpos := Finset.card_pos.mpr ⟨p, hmem⟩
    rw [Finset.card_erase_of_mem hmem, points, if_pos hfield]
    omega
  · rw [Finset.erase_eq_of_notMem (by simp [hfield]), points, if_neg hfield, add_zero]

/-- A new payload points to its cause and to its message. -/
theorem pointers_create (hnew : s.disposed s.next = 0) (o : Option ℕ) (b : ℕ)
    (field : Payload → Option ℕ) (r : ℕ) :
    (s.create o b).pointers field r =
      s.pointers field r + points (field (newPayload o b)) r := by
  have hold : ∀ q ∈ Finset.range s.next,
      Function.update s.payload s.next (newPayload o b) q = s.payload q := fun q hq =>
    Function.update_of_ne (Finset.mem_range.mp hq).ne _ _
  have hcreate : (s.create o b).pointers field r = ((Finset.range (s.next + 1)).filter fun q =>
      s.disposed q = 0 ∧
        field (Function.update s.payload s.next (newPayload o b) q) = some r).card := rfl
  rw [hcreate, Finset.range_add_one, Finset.filter_insert, Function.update_self]
  have hsame : ((Finset.range s.next).filter fun q => s.disposed q = 0 ∧
      field (Function.update s.payload s.next (newPayload o b) q) = some r) =
      (Finset.range s.next).filter fun q => s.disposed q = 0 ∧ field (s.payload q) = some r :=
    Finset.filter_congr fun q hq => by rw [hold q hq]
  rw [hsame, Shared.pointers]
  by_cases hfield : field (newPayload o b) = some r
  · rw [if_pos ⟨hnew, hfield⟩, Finset.card_insert_of_notMem (by simp), points, if_pos hfield]
  · rw [if_neg (fun h => hfield h.2), points, if_neg hfield, add_zero]

/-- What a payload that was not disposed of points to is pointed to. -/
theorem pointers_pos (field : Payload → Option ℕ) (hborn : p < s.next)
    (hp : s.disposed p = 0) (hfield : field (s.payload p) = some r) : 0 < s.pointers field r :=
  Finset.card_pos.mpr ⟨p, Finset.mem_filter.mpr ⟨Finset.mem_range.mpr hborn, hp, hfield⟩⟩

/-- What is pointed to is pointed to by a payload that was not disposed of. -/
theorem exists_of_pointers_pos (h : 0 < s.pointers field r) :
    ∃ q < s.next, s.disposed q = 0 ∧ field (s.payload q) = some r := by
  obtain ⟨q, hq⟩ := Finset.card_pos.mp h
  obtain ⟨hborn, hzero, hfield⟩ := Finset.mem_filter.mp hq
  exact ⟨q, Finset.mem_range.mp hborn, hzero, hfield⟩

end Pointers

/-! ### The life of a payload -/

/-- The phase of its life that payload `p` is in: it has not been created, or it is counted,
claimed or freed. -/
inductive Phase (next p : ℕ) : ℕ → ℕ → ℕ → U7Refcount → Prop
  | unborn {count : U7Refcount} : next ≤ p → Phase next p 0 0 0 count
  | born {d k r : ℕ} {count : U7Refcount} : p < next → Life d k r count →
      Phase next p d k r count

section Phase

variable {next p d k r : ℕ} {count : U7Refcount}

/-- A payload that someone refers to has been created and is still counted. -/
theorem Phase.of_refs_pos (h : Phase next p d k r count) (hpos : 0 < r) :
    p < next ∧ d = 0 ∧ k = 0 := by
  rcases h with - | ⟨hborn, hlife⟩
  · exact absurd hpos (lt_irrefl 0)
  · obtain ⟨hd, hk, -⟩ := hlife.of_refs_pos hpos
    exact ⟨hborn, hd, hk⟩

/-- A payload that some thread is about to free has no references left, and no other thread is
about to. -/
theorem Phase.of_claimants_pos (h : Phase next p d k r count) (hpos : 0 < k) :
    p < next ∧ d = 0 ∧ k = 1 ∧ r = 0 := by
  rcases h with - | ⟨hborn, hlife⟩
  · exact absurd hpos (lt_irrefl 0)
  · exact ⟨hborn, hlife.of_claimants_pos hpos⟩

theorem Phase.count_eq (h : Phase next p d k r count) (hpos : 0 < r) :
    count = BitVec.ofNat 32 r := by
  rcases h with - | ⟨-, hlife⟩
  · exact absurd hpos (lt_irrefl 0)
  · exact (hlife.of_refs_pos hpos).2.2

/-- A payload that was created and that nobody is about to free was freed or is referred to. -/
theorem Phase.freed_or_refs_pos (h : Phase next p d 0 r count) (hborn : p < next) :
    d = 1 ∨ 0 < r := by
  rcases h with hp | ⟨-, hlife⟩
  · omega
  · cases hlife with
    | counted hpos => exact .inr hpos
    | disposed => exact .inl rfl

theorem Phase.freed_le_one (h : Phase next p d k r count) : d ≤ 1 := by
  rcases h with - | ⟨-, hlife⟩
  · exact Nat.zero_le 1
  · exact hlife.disposed_le_one

theorem Phase.increment (h : Phase next p d k r count) (hpos : 0 < r) :
    Phase next p d k (r + 1) (u7RefcountIncrement count) := by
  rcases h with - | ⟨hborn, hlife⟩
  · exact absurd hpos (lt_irrefl 0)
  · exact .born hborn (hlife.increment hpos)

theorem Phase.decrement (h : Phase next p d k (r + 1) count) (hr : r + 1 < 2 ^ 32)
    (hmany : count ≠ 1#32) : Phase next p d k r (count - 1#32) := by
  rcases h with - | ⟨hborn, hlife⟩
  exact .born hborn (hlife.decrement hr hmany)

theorem Phase.claim (h : Phase next p d k (r + 1) count) (hr : r + 1 < 2 ^ 32)
    (hone : count = 1#32) (count' : U7Refcount) : Phase next p d (k + 1) r count' := by
  rcases h with - | ⟨hborn, hlife⟩
  exact .born hborn (hlife.claim hr hone count')

theorem Phase.free (h : Phase next p d (k + 1) r count) : Phase next p (d + 1) k r count := by
  rcases h with - | ⟨hborn, hlife⟩
  exact .born hborn hlife.dispose

/-- A new payload has one reference. -/
theorem Phase.create (h : Phase p p d k r count) :
    d = 0 ∧ k = 0 ∧ r = 0 ∧ Phase (p + 1) p d k (r + 1) u7RefcountInit := by
  rcases h with - | ⟨hborn, -⟩
  · exact ⟨rfl, rfl, rfl, .born (Nat.lt_succ_self p) (.counted Nat.one_pos)⟩
  · exact absurd hborn (lt_irrefl p)

/-- The creation of another payload. -/
theorem Phase.create_of_ne (h : Phase next p d k r count) (hp : next ≠ p) :
    Phase (next + 1) p d k r count := by
  rcases h with hborn | ⟨hborn, hlife⟩
  · exact .unborn (by omega)
  · exact .born (by omega) hlife

end Phase

/-! ### One step -/

/-- What a step does to the references, claims and buffers of its thread and to the heap. -/
inductive Effect (s : Shared) (l : Thread) : Shared → Thread → Prop
  | quiet {l' : Thread} (mailbox : Multiset (Option ℕ)) :
      (∀ q, l'.refs q + mailbox.count (some q) = l.refs q + s.mailbox.count (some q)) →
      l'.place.claims = l.place.claims → l'.place.frees = l.place.frees →
      l'.place.message = l.place.message → Effect s l (s.setMailbox mailbox) l'
  | increment {l' : Thread} (p : ℕ) :
      0 < l.refs p ∨ p = 0 → (∀ q, l'.refs q = l.refs q + points (some p) q) →
      l'.place.claims = l.place.claims → l'.place.frees = l.place.frees →
      l'.place.message = l.place.message →
      Effect s l (s.setCount p (u7RefcountIncrement (s.count p))) l'
  | decrement {l' : Thread} (p : ℕ) :
      s.count p ≠ 1#32 → (∀ q, l'.refs q + points (some p) q = l.refs q) →
      l'.place.claims = l.place.claims → l'.place.frees = l.place.frees →
      l'.place.message = l.place.message → Effect s l (s.setCount p (s.count p - 1#32)) l'
  | claim {l' : Thread} (p : ℕ) (count : U7Refcount) :
      s.count p = 1#32 → (∀ q, l'.refs q + points (some p) q = l.refs q) →
      l.place.claims = none → l'.place.claims = some p → l'.place.frees = l.place.frees →
      l'.place.message = l.place.message → Effect s l (s.setCount p count) l'
  | dispose {l' : Thread} (p : ℕ) :
      (∀ q, l'.refs q = l.refs q + points (s.payload p).cause q) →
      l.place.claims = some p → l'.place.claims = some p → l.place.frees = none →
      l'.place.frees = some p → l'.place.message = l.place.message →
      Effect s l (s.dispose p) l'
  | noDispose {l' : Thread} (p : ℕ) :
      (s.payload p).disposes = false → l.place.claims = some p → Effect s l s l'
  | free {l' : Thread} (p : ℕ) :
      (∀ q, l'.refs q = l.refs q) → l.place.claims = some p → l'.place.claims = none →
      l.place.frees = some p → l'.place.frees = none → l'.place.message = l.place.message →
      Effect s l (s.freePayload p) l'
  | freeBuffer {l' : Thread} :
      (∀ q, l'.refs q = l.refs q) → l'.place.claims = l.place.claims →
      l'.place.frees = l.place.frees → l'.place.message = none →
      Effect s l (s.freeBuffer l.place.message) l'
  | realloc {l' : Thread} :
      (∀ q, l'.refs q = l.refs q) → l'.place.claims = l.place.claims →
      l'.place.frees = l.place.frees → l'.place.message = some s.nextBuffer →
      Effect s l (s.freeBuffer l.place.message).malloc l'
  | create {l' : Thread} (cause : Option ℕ) (b : ℕ) :
      (∀ p, cause = some p → 0 < l.refs p) →
      (∀ q, l'.refs q + points cause q = l.refs q + points (some s.next) q) →
      l'.place.claims = l.place.claims → l'.place.frees = l.place.frees →
      l.place.message = some b → l'.place.message = none → Effect s l (s.create cause b) l'

/-- The heap with the counter it has. -/
theorem setCount_self (s : Shared) (p : ℕ) : s.setCount p (s.count p) = s := by
  simp [Shared.setCount]

section Refs

variable {place : Place} {hs : Multiset (Option ℕ)} {o : Option ℕ}

theorem count_cons (o : Option ℕ) (hs : Multiset (Option ℕ)) (q : ℕ) :
    (o ::ₘ hs).count (some q) = hs.count (some q) + points o q := by
  simp only [Multiset.count_cons, points, eq_comm]

theorem count_erase (h : o ∈ hs) (q : ℕ) :
    (hs.erase o).count (some q) + points o q = hs.count (some q) := by
  rw [← count_cons, Multiset.cons_erase h]

/-- A handle that is given up for what its thread then owes. -/
theorem refs_erase (h : o ∈ hs) (howes : place.owes = o) (q : ℕ) :
    Thread.refs ⟨place, hs.erase o⟩ q = Thread.refs ⟨.idle, hs⟩ q := by
  simp only [Thread.refs, howes, count_erase h]
  rfl

/-- A handle that an idle thread has received. -/
theorem refs_cons (o : Option ℕ) (hs : Multiset (Option ℕ)) (q : ℕ) :
    Thread.refs ⟨.idle, o ::ₘ hs⟩ q = hs.count (some q) + points o q := by
  simp only [Thread.refs, Place.owes, points_none, count_cons, add_zero]

/-- Behind its walk a thread owes and claims nothing. -/
theorem After.resume_refs (after : After) (q : ℕ) :
    (after.resume hs).refs q = hs.count (some q) := by
  cases after <;> simp [After.resume, Thread.refs, Place.owes]

theorem After.resume_place (after : After) (hs : Multiset (Option ℕ)) :
    (after.resume hs).place.claims = none ∧ (after.resume hs).place.frees = none ∧
      (after.resume hs).place.message = none := by
  cases after <;> exact ⟨rfl, rfl, rfl⟩

end Refs

/-- The cause of `p` is `q`. -/
def IsCause (s : Shared) (p q : ℕ) : Prop :=
  (s.payload p).cause = some q

/-- The pointers that a thread has read are what they were read from, and what it reads it
reaches from an error that it owns. -/
def Thread.Coherent (s : Shared) (t : Thread) : Prop :=
  match t.place with
  | .dispose _ p o | .free _ p o => o = (s.payload p).cause
  | .read p q => some p ∈ t.handles ∧ Relation.ReflTransGen (IsCause s) p q
  | _ => True

/-- Every step has one of these effects. -/
theorem Next.effect {ι : Type*} {i : ι} {s s' : Shared} {l l' : Thread} {e : Event}
    (h : Next i s l e s' l') (hcoherent : l.Coherent s) : Effect s l s' l' := by
  cases h with
  | ok | acquireNull =>
      exact .quiet _ (fun q => by rw [refs_cons]; rfl) rfl rfl rfl
  | put hmem =>
      refine .quiet _ (fun q => ?_) rfl rfl rfl
      have hcount := count_erase hmem q
      simp only [Thread.refs, Place.owes, points_none, count_cons]
      omega
  | take hmem =>
      refine .quiet _ (fun q => ?_) rfl rfl rfl
      have hcount := count_erase hmem q
      simp only [Thread.refs, Place.owes, points_none, count_cons]
      omega
  | acquire hmem =>
      refine .increment _ (.inl ?_) (fun q => by rw [refs_cons]; rfl) rfl rfl rfl
      exact (Multiset.count_pos.mpr hmem).trans_le (Nat.le_add_right _ _)
  | readFirst | readNext | readLast | loadMany | readCause | short | shortFail | long | longFail
  | noMessage | createFail =>
      exact .quiet _ (fun q => rfl) rfl rfl rfl
  | release hmem hafter => exact .quiet _ (fun q => by rw [refs_erase hmem rfl]) rfl rfl rfl
  | loopNull =>
      rename_i hs after
      obtain ⟨hclaims, hfrees, hmessage⟩ := after.resume_place hs
      exact .quiet _ (fun q => by rw [after.resume_refs]; rfl) hclaims hfrees hmessage
  | loadOne hone =>
      rename_i hs after p
      have heffect : Effect s ⟨.loop after (some p), hs⟩ (s.setCount p (s.count p))
          ⟨.body after p, hs⟩ := .claim p _ hone (fun q => rfl) rfl rfl rfl rfl
      rwa [setCount_self] at heffect
  | subOne hone =>
      refine .claim _ _ ?_ (fun q => rfl) rfl rfl rfl rfl
      simpa [u7RefcountDecrement] using hone
  | subMany hmany =>
      rename_i hs after p
      obtain ⟨hclaims, hfrees, hmessage⟩ := after.resume_place hs
      refine .decrement p ?_ (fun q => by rw [after.resume_refs]; rfl) hclaims hfrees hmessage
      simpa [u7RefcountDecrement] using hmany
  | noDispose hdisposes => exact .noDispose _ hdisposes rfl
  | dispose hdisposes =>
      rename_i hs after p o
      obtain rfl : o = (s.payload p).cause := hcoherent
      exact .dispose p (fun q => rfl) rfl rfl rfl rfl rfl
  | free => exact .free _ (fun q => rfl) rfl rfl rfl rfl rfl
  | malloc hmem => exact .realloc (fun q => by rw [refs_erase hmem rfl]) rfl rfl rfl
  | mallocFail hmem => exact .quiet _ (fun q => by rw [refs_erase hmem rfl]) rfl rfl rfl
  | realloc => exact .realloc (fun q => rfl) rfl rfl rfl
  | fail => exact .freeBuffer (fun q => rfl) rfl rfl rfl
  | freeMessage => exact .freeBuffer (fun q => rfl) rfl rfl rfl
  | create =>
      rename_i hs o b
      refine .create o b (fun p hp => ?_) (fun q => ?_) rfl rfl rfl rfl
      · simp [Thread.refs, Place.owes, hp]
      · rw [refs_cons]
        simp only [Thread.refs, Place.owes]
        omega
  | increment => exact .increment 0 (.inr rfl) (fun q => by rw [refs_cons]; rfl) rfl rfl rfl

end Calls

end U7Init
