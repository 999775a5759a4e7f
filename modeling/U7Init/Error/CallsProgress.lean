import U7Init.Error.CallsSafety

/-!
# The Progress of Concurrent Calls

`u7_error_release` is a loop over the causes of an error, and calls of `u7_error_message` for
all of them are another one. This module bounds the loops: a call takes no more steps than there
are payloads when it starts, up to a factor, whatever other threads do to the counters
meanwhile, and it never has to wait for them.

## Main results

* `Calls.rank_lt`: every step of a call lowers its rank.
* `calls_wait_free`: no call waits for another thread.
-/

open Interleaving

namespace U7Init

namespace Calls

/-- How many payloads a walk may still visit: causes are older than what they cause. -/
def height : Option ℕ → ℕ
  | none => 0
  | some p => p + 1

/-- How many steps a call may still take. -/
def Place.rank : Place → ℕ
  | .idle => 0
  | .increment => 1
  | .loop _ o => 6 * height o + 2
  | .sub _ p => 6 * p + 7
  | .body _ p => 6 * p + 6
  | .dispose _ p _ => 6 * p + 5
  | .free _ p _ => 6 * p + 4
  | .freeMessage o _ => 6 * height o + 3
  | .ret o _ => 6 * height o + 4
  | .fail o _ => 6 * height o + 5
  | .long o _ => 6 * height o + 6
  | .short o _ => 6 * height o + 7
  | .read _ p => p + 1

section Progress

variable {ι : Type*} {i : ι} {s s' : Shared} {l l' : Thread} {e : Event} {p : ℕ}
  {o : Option ℕ}

theorem After.resume_rank (after : After) (hs : Multiset (Option ℕ)) :
    (after.resume hs).place.rank ≤ 1 := by
  cases after <;> simp [After.resume, Place.rank]

/-- A cause has at most the height of the payload. -/
theorem height_cause_le (h : s.WellFormed) : height (s.payload p).cause ≤ p := by
  cases hcause : (s.payload p).cause with
  | none => exact Nat.zero_le p
  | some q => exact h.cause_lt p q hcause

/-- **Every step of a call lowers its rank.** -/
theorem Next.rank_lt (h : Next i s l e s' l') (hwf : s.WellFormed) (hl : l.Coherent s)
    (hbusy : l.place ≠ .idle) : l'.place.rank < l.place.rank := by
  cases h with
  | ok | put | take | acquireNull | acquire | readFirst | release | malloc | mallocFail =>
      exact absurd rfl hbusy
  | readNext hcause => exact Nat.succ_lt_succ (hwf.cause_lt _ _ hcause)
  | readLast => exact Nat.succ_pos _
  | loopNull => exact Nat.lt_succ_of_le (After.resume_rank _ _)
  | subMany =>
      rename_i hs after p hmany
      calc (after.resume hs).place.rank ≤ 1 := after.resume_rank hs
        _ < 6 * p + 7 := by omega
  | noDispose =>
      rename_i hs after p o hdisposes
      obtain rfl : o = (s.payload p).cause := hl
      have := height_cause_le (p := p) hwf
      simp only [Place.rank]
      omega
  | free =>
      rename_i hs after p o
      obtain rfl : o = (s.payload p).cause := hl
      have := height_cause_le (p := p) hwf
      simp only [Place.rank]
      omega
  | _ =>
      simp only [Place.rank, height]
      omega

/-- A call that is under way can always take its next step. -/
theorem exists_next (i : ι) (s : Shared) (hbusy : l.place ≠ .idle) :
    ∃ e s' l', Next i s l e s' l' := by
  obtain ⟨place, hs⟩ := l
  cases place with
  | idle => exact absurd rfl hbusy
  | loop after o =>
      cases o with
      | none => exact ⟨_, _, _, .loopNull⟩
      | some p =>
          by_cases hone : s.count p = 1#32
          · exact ⟨_, _, _, .loadOne hone⟩
          · exact ⟨_, _, _, .loadMany hone⟩
  | sub after p =>
      cases hresult : (u7RefcountDecrement (s.count p)).2 with
      | false => exact ⟨_, _, _, .subOne hresult⟩
      | true => exact ⟨_, _, _, .subMany hresult⟩
  | body after p => exact ⟨_, _, _, .readCause⟩
  | dispose after p o =>
      cases hdisposes : (s.payload p).disposes with
      | false => exact ⟨_, _, _, .noDispose hdisposes⟩
      | true => exact ⟨_, _, _, .dispose hdisposes⟩
  | free after p o => exact ⟨_, _, _, .free⟩
  | increment => exact ⟨_, _, _, .increment⟩
  | short o b => exact ⟨_, _, _, .short⟩
  | long o b => exact ⟨_, _, _, .long⟩
  | fail o message => exact ⟨_, _, _, .fail⟩
  | ret o message =>
      cases message with
      | none => exact ⟨_, _, _, .noMessage⟩
      | some b => exact ⟨_, _, _, .create⟩
  | freeMessage o b => exact ⟨_, _, _, .freeMessage⟩
  | read p q =>
      cases hcause : (s.payload q).cause with
      | none => exact ⟨_, _, _, .readLast hcause⟩
      | some r => exact ⟨_, _, _, .readNext hcause⟩

variable [Fintype ι] {c c' : Config ι Shared Thread}

/-- A thread refers only to payloads that exist. -/
theorem Sound.height_owes_le (h : Sound c) (i : ι) :
    height (c.loc i).place.owes ≤ c.shared.next := by
  cases howes : (c.loc i).place.owes with
  | none => exact Nat.zero_le _
  | some p =>
      have hpos : 0 < (c.loc i).refs p := by
        simp [Thread.refs, howes]
      exact (h.alive_of_refs (hpos.trans_le (le_refs c i p))).1

/-- The steps of a call are bounded by the number of payloads. -/
theorem Sound.rank_le (h : Sound c) (i : ι) :
    (c.loc i).place.rank ≤ 6 * c.shared.next + 7 := by
  have howes := h.height_owes_le i
  have hclaimed : ∀ p, (c.loc i).place.claims = some p → p < c.shared.next :=
    fun p hclaims => (h.claimed hclaims).1
  have hcoherent := h.coherent i
  have hread : ∀ p q, (c.loc i).place = .read p q → q < c.shared.next := by
    intro p q hplace
    rw [Thread.Coherent, hplace] at hcoherent
    exact (h.alive_of_causes (h.alive_of_handle hcoherent.1) hcoherent.2).1
  generalize (c.loc i).place = place at *
  cases place with
  | idle | increment => simp [Place.rank]
  | sub after p => simp only [Place.rank, Place.owes, height] at howes ⊢; omega
  | body after p | dispose after p o | free after p o =>
      have := hclaimed p rfl
      simp only [Place.rank]
      omega
  | read p q =>
      have := hread p q rfl
      simp only [Place.rank]
      omega
  | _ => simp only [Place.rank, Place.owes] at howes ⊢; omega

/-- One step of a run within the bounds, and who took it. -/
def BoundedStep [DecidableEq ι] (c : Config ι Shared Thread) (step : ι × Event)
    (c' : Config ι Shared Thread) : Prop :=
  Bounded c ∧ Step Next c step.1 step.2 c'

variable [DecidableEq ι]

/-- A run goes on with a step from a small configuration. -/
theorem run_snoc {trace : List (Config ι Shared Thread × ι × Event)}
    (h : Simulation.Run BoundedStep c trace c') (hsize : size c' < 2 ^ 32) (i : ι)
    (hnext : Next i c'.shared (c'.loc i) e s' l') :
    Simulation.Run BoundedStep c (trace ++ [(c', i, e)]) (c'.move i s' l') :=
  h.snoc ⟨bounded_of_size hsize, .mk hnext⟩

/-- The steps that a thread takes inside a call use up the rank of its place. -/
theorem rank_add_steps_le {trace : List (Config ι Shared Thread × ι × Event)}
    (hsound : Sound c) (hrun : Simulation.Run BoundedStep c trace c')
    (hcall : ∀ step ∈ trace, step.2.1 = i → (step.1.loc i).place ≠ .idle) :
    Sound c' ∧ (c'.loc i).place.rank + trace.countP (fun step => step.2.1 = i) ≤
      (c.loc i).place.rank := by
  induction hrun with
  | nil => exact ⟨hsound, le_rfl⟩
  | @snoc trace c₁ c₂ step _ hstep ih =>
      obtain ⟨htrace, hlast⟩ := List.forall_mem_append.mp hcall
      obtain ⟨hsound₁, hle⟩ := ih htrace
      obtain ⟨hbound, hstep⟩ := hstep
      obtain ⟨j, e⟩ := step
      cases hstep with
      | mk hnext =>
      replace hnext : Next j c₁.shared (c₁.loc j) e _ _ := hnext
      refine ⟨hsound₁.step hbound hnext, ?_⟩
      rw [List.countP_append, List.countP_singleton]
      by_cases hj : j = i
      · subst hj
        have hbusy := hlast _ (List.mem_singleton_self _) rfl
        have hlt := hnext.rank_lt hsound₁.wellFormed (hsound₁.coherent j) hbusy
        rw [Config.move_loc_self]
        simp only [decide_true, ↓reduceIte]
        omega
      · rw [c₁.move_loc_of_ne _ _ (Ne.symm hj)]
        simp only [hj, decide_false, Bool.false_eq_true, ↓reduceIte]
        omega

end Progress

end Calls

open Calls in
/-- **The calls are wait-free.** From every configuration on that was reached with fewer than
`2 ^ 32` references to each payload, a thread that is inside a call can always take its next
step. As long as the references stay below that bound it takes at most `6 * n + 7` of them until
the call returns, where `n` is the number of payloads that exist, whatever the other threads do
between them. -/
theorem calls_wait_free {ι : Type*} [DecidableEq ι] [Fintype ι] {c c' : Config ι Shared Thread}
    {trace : List (Config ι Shared Thread × ι × Event)} {i : ι}
    (h : ReachWithin Next Bounded start c) (hrun : Simulation.Run BoundedStep c trace c')
    (hcall : ∀ step ∈ trace, step.2.1 = i → (step.1.loc i).place ≠ .idle) :
    trace.countP (fun step => step.2.1 = i) ≤ 6 * c.shared.next + 7 ∧
      ((c'.loc i).place ≠ .idle →
        ∃ e s' l', Next i c'.shared (c'.loc i) e s' l') := by
  have hsound := sound_of_reach h
  obtain ⟨-, hle⟩ := rank_add_steps_le hsound hrun hcall
  have := hsound.rank_le i
  exact ⟨by omega, exists_next i _⟩

open Calls in
/-- Thread `false` releases an error and, through it, the cause, which thread `true` releases
too. It takes ten steps, between which thread `true` decrements the counter of the cause. -/
theorem calls_wait_free_shared_cause :
    ∃ (c c' : Config (Bool) Shared Thread) (trace : List (_ × Bool × Event)),
      ReachWithin Next Bounded start c ∧ Simulation.Run BoundedStep c trace c' ∧
      trace.length = 13 ∧ trace.countP (fun step => step.2.1 = false) = 10 ∧
      10 ≤ 6 * c.shared.next + 7 ∧ (c'.loc false).place = .idle ∧ c'.shared.freed 1 = 1 := by
  have hcause := (ReachWithin.refl : ReachWithin Next Bounded
      (start : Config (Bool) Shared Thread) _)
    |> (tail_of_size · (by decide) false .ok)
    |> (tail_of_size · (by decide) false (.malloc (o := none) (by decide)))
    |> (tail_of_size · (by decide) false .short)
    |> (tail_of_size · (by decide) false .create)
    |> (tail_of_size · (by decide) false (.acquire (p := 1) (by decide)))
    |> (tail_of_size · (by decide) false (.put (o := some 1) (by decide)))
    |> (tail_of_size · (by decide) true (.take (o := some 1) (by decide)))
  have hdone : After.done ≠ .fallback := by decide
  have hreach := hcause
    |> (tail_of_size · (by decide) false (.malloc (o := some 1) (by decide)))
    |> (tail_of_size · (by decide) false .short)
    |> (tail_of_size · (by decide) false .create)
    |> (tail_of_size · (by decide) false (.release (o := some 2) (by decide) hdone))
  have hrun := (fun {c} (_ : ReachWithin Next Bounded start c) =>
      (.nil : Simulation.Run BoundedStep c [] c)) hreach
    |> (run_snoc · (by decide) false (.loadOne (by decide)))
    |> (run_snoc · (by decide) false .readCause)
    |> (run_snoc · (by decide) false (.dispose (by decide)))
    |> (run_snoc · (by decide) true (.release (o := some 1) (by decide) hdone))
    |> (run_snoc · (by decide) false .free)
    |> (run_snoc · (by decide) true (.loadMany (by decide)))
    |> (run_snoc · (by decide) false (.loadMany (by decide)))
    |> (run_snoc · (by decide) true (.subMany (by decide)))
    |> (run_snoc · (by decide) false (.subOne (by decide)))
    |> (run_snoc · (by decide) false .readCause)
    |> (run_snoc · (by decide) false (.dispose (by decide)))
    |> (run_snoc · (by decide) false .free)
    |> (run_snoc · (by decide) false .loopNull)
  obtain ⟨hle, -⟩ := calls_wait_free (i := false) hreach hrun (by decide)
  exact ⟨_, _, _, hreach, hrun, rfl, rfl, hle, rfl, rfl⟩

end U7Init
