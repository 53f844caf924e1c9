import SimpleMachine.Proofs.Refinement

/-!
# SimpleMachine.Proofs.Simulation

Whole executions, without tracing and without a budget, and how two of them compare.

* `Stops m r m'`: at `m` no instruction is obeyed any more; the result is `r`, and `m'` is left.
* `Ends m r m'`: the execution from `m` comes to an end, with result `r`, and leaves `m'`. It makes
  some steps and then stops (`ends_iff`).
* `RunsForever m`: it does not; then it makes any number of steps (`runsForever_iff`).
* `execute_of_halting`, `execute_of_small_budget`: a run that halts after `k` steps is the same with a
  budget of `k` steps or more, and uses up any smaller one.
* `Alike p q`: two machines have the same data, wherever they stand. What both do to it keeps it the
  same (`Alike.apply`).
* `Simulation R S`: from machines that `R` relates, every step of the left one is matched by one or
  more steps of the right one, and where the left one stops, the right one ends in a way that `S`
  relates. Then the two executions end in such a way, or none of them ends (`Simulation.ends`,
  `Simulation.ends_of_right`, `Simulation.runsForever_iff`).
-/

namespace SimpleMachine
namespace Machine

inductive Stops (m : Machine) : Except Failure Unit → Machine → Prop where
  | halted : m.position = .pastEnd → Stops m (.ok ()) m
  | failed {f : Failure} {m' : Machine} : m.step = (.error f, m') → Stops m (.error f) m'

def Ends (m : Machine) (r : Except Failure Unit) (m' : Machine) : Prop :=
  ∃ rounds, m.execute {} rounds = some (r, m')

def RunsForever (m : Machine) : Prop := ∀ rounds, m.execute {} rounds = none

namespace Steps

variable {j k : Nat} {m m' m'' : Machine}

theorem single (h : m.step = (.ok true, m')) : Steps 1 m m' := .cons h .refl

theorem trans (h₁ : Steps j m m') (h₂ : Steps k m' m'') : Steps (j + k) m m'' := by
  induction h₁ with
  | refl => rwa [Nat.zero_add]
  | @cons j m m₁ m' hs _ ih =>
    rw [show j + 1 + k = j + k + 1 by omega]
    exact .cons hs (ih h₂)

end Steps

/-! ## Where an execution stops -/

theorem stops_iff_endsAt {done : Nat} {m m' : Machine} {r : Except Failure Unit} :
    Stops m r m' ↔ EndsAt none done m r m' := by
  constructor
  · intro h
    cases h with
    | halted hp => exact .finished (position_eq_pastEnd_iff.1 hp)
    | failed hs =>
      cases step_eq_iff.1 hs with
      | astray hp => exact .astray (position_eq_beforeStart_iff.1 hp)
      | faulted hp _ =>
        obtain ⟨h₀, hi⟩ := position_eq_at_iff.1 hp
        obtain ⟨hlt, -⟩ := Array.getElem?_eq_some_iff.1 hi
        exact .faulted h₀ (by omega) nofun hs
  · intro h
    cases h with
    | finished hle => exact .halted (position_eq_pastEnd_iff.2 hle)
    | astray hlt =>
      exact .failed (StepCase.astray (position_eq_beforeStart_iff.2 hlt)).step_eq
    | spent _ _ hn _ => cases hn
    | faulted _ _ _ hs => exact .failed hs

/-- A machine that stops makes no step. -/
theorem Stops.not_step {m m' m'' : Machine} {r : Except Failure Unit} (h : Stops m r m') :
    m.step ≠ (.ok true, m'') := by
  intro hs
  cases h with
  | halted hp =>
    rw [step_of_pastEnd hp] at hs
    cases hs
  | failed he =>
    rw [he] at hs
    cases hs

theorem stops_or_steps (m : Machine) :
    (∃ r m', Stops m r m') ∨ ∃ m', m.step = (.ok true, m') := by
  cases hs : m.step with
  | mk r m' =>
    cases step_eq_iff.1 hs with
    | halted hp => exact .inl ⟨_, _, .halted hp⟩
    | astray _ => exact .inl ⟨_, _, .failed hs⟩
    | faulted _ _ => exact .inl ⟨_, _, .failed hs⟩
    | obeyed _ _ => exact .inr ⟨_, rfl⟩

/-- A machine that makes a step is at an end only if the budget is used up. -/
theorem not_endsAt_of_step {limit : Option Int} {done : Nat} {m m' m₁ : Machine}
    {r : Except Failure Unit} (hs : m.step = (.ok true, m₁))
    (hl : ∀ n, limit = some n → done < n) : ¬ EndsAt limit done m r m' := by
  intro h
  cases h with
  | finished hle => exact (Stops.halted (position_eq_pastEnd_iff.2 hle)).not_step hs
  | astray hlt =>
    have hfail := (StepCase.astray (position_eq_beforeStart_iff.2 hlt)).step_eq
    exact (Stops.failed hfail).not_step hs
  | spent _ _ hn hle => exact absurd (hl _ hn) (Int.not_lt.2 hle)
  | faulted _ _ _ he => exact (Stops.failed he).not_step hs

/-- No state on the way is an end if the budget suffices for it, so the one after it is the first. -/
theorem firstEnd_of_steps {limit : Option Int} {k : Nat} {m mk m' : Machine}
    {r : Except Failure Unit} (hk : Steps k m mk) (he : EndsAt limit k mk r m')
    (hl : ∀ j : Nat, j < k → ∀ n, limit = some n → j < n) : FirstEnd limit 0 m k r m' := by
  refine ⟨⟨mk, hk, by rwa [Nat.zero_add]⟩, ?_⟩
  intro j mj hj hmj r' m''
  obtain ⟨m₁, hs⟩ := hk.step_of_lt hmj hj
  rw [Nat.zero_add]
  exact not_endsAt_of_step hs (hl j hj)

theorem firstEnd_none_iff {k : Nat} {m m' : Machine} {r : Except Failure Unit} :
    FirstEnd none 0 m k r m' ↔ ∃ mk, Steps k m mk ∧ Stops mk r m' := by
  constructor
  · intro h
    obtain ⟨mk, hk, he⟩ := h.ends
    exact ⟨mk, hk, stops_iff_endsAt.2 he⟩
  · rintro ⟨mk, hk, hstop⟩
    exact firstEnd_of_steps hk (stops_iff_endsAt.1 hstop) nofun

/-! ## Whole executions -/

theorem ends_iff {m m' : Machine} {r : Except Failure Unit} :
    Ends m r m' ↔ ∃ k mk, Steps k m mk ∧ Stops mk r m' := by
  have hrun : ∀ rounds, m.execute {} rounds = some (r, m') ↔
      ∃ k, k < rounds ∧ FirstEnd none 0 m k r m' :=
    fun rounds => runFor_eq_some_iff (Nat.add_zero m.steps).symm
  constructor
  · rintro ⟨rounds, h⟩
    obtain ⟨k, -, hf⟩ := (hrun rounds).1 h
    exact ⟨k, firstEnd_none_iff.1 hf⟩
  · rintro ⟨k, h⟩
    exact ⟨k + 1, (hrun (k + 1)).2 ⟨k, Nat.lt_succ_self k, firstEnd_none_iff.2 h⟩⟩

theorem Stops.ends {m m' : Machine} {r : Except Failure Unit} (h : Stops m r m') : Ends m r m' :=
  ends_iff.2 ⟨0, m, .refl, h⟩

theorem Ends.of_steps {k : Nat} {m m₁ m' : Machine} {r : Except Failure Unit} (hk : Steps k m m₁)
    (h : Ends m₁ r m') : Ends m r m' := by
  obtain ⟨j, mj, hj, hstop⟩ := ends_iff.1 h
  exact ends_iff.2 ⟨k + j, mj, hk.trans hj, hstop⟩

theorem Ends.unique {m m₁ m₂ : Machine} {r₁ r₂ : Except Failure Unit} (h₁ : Ends m r₁ m₁)
    (h₂ : Ends m r₂ m₂) : r₁ = r₂ ∧ m₁ = m₂ :=
  EndsUnder.unique h₁ h₂

theorem ends_of_not_runsForever {m : Machine} (h : ¬ RunsForever m) : ∃ r m', Ends m r m' := by
  unfold RunsForever at h
  rw [Classical.not_forall] at h
  obtain ⟨rounds, hx⟩ := h
  obtain ⟨⟨r, m'⟩, hx⟩ := Option.ne_none_iff_exists'.1 hx
  exact ⟨r, m', rounds, hx⟩

theorem Ends.not_runsForever {m m' : Machine} {r : Except Failure Unit} (h : Ends m r m') :
    ¬ RunsForever m := by
  obtain ⟨rounds, hx⟩ := h
  intro hf
  rw [hf rounds] at hx
  cases hx

/-- An execution goes on for ever exactly when it makes any number of steps. -/
theorem runsForever_iff {m : Machine} : RunsForever m ↔ ∀ k, ∃ mk, Steps k m mk := by
  constructor
  · intro h k
    induction k with
    | zero => exact ⟨m, .refl⟩
    | succ k ih =>
      obtain ⟨mk, hk⟩ := ih
      rcases stops_or_steps mk with ⟨r, m', hstop⟩ | ⟨m', hs⟩
      · exact absurd h (hstop.ends.of_steps hk).not_runsForever
      · exact ⟨m', hk.trans (.single hs)⟩
  · intro h
    by_cases hf : RunsForever m
    · exact hf
    · obtain ⟨r, m', he⟩ := ends_of_not_runsForever hf
      obtain ⟨k, mk, hk, hstop⟩ := ends_iff.1 he
      -- one step more than there are contradicts that it stops after `k`
      obtain ⟨mj, hj⟩ := h (k + 1)
      obtain ⟨m₁, hs⟩ := hj.step_of_lt hk (Nat.lt_succ_self k)
      exact absurd hs hstop.not_step

/-! ## A run that halts, with and without a budget -/

section Halting

variable {k rounds : Nat} {m m' : Machine}

theorem execute_of_halting {limit : Option Int} (hk : Steps k m m') (hp : m'.position = .pastEnd)
    (hl : ∀ n, limit = some n → k ≤ n) (hr : k < rounds) :
    m.execute { limit } rounds = some (.ok (), m') := by
  refine (runFor_eq_some_iff (Nat.add_zero m.steps).symm).2 ⟨k, hr, ?_⟩
  refine firstEnd_of_steps hk (.finished (position_eq_pastEnd_iff.1 hp)) ?_
  intro j hj n hn
  have hle := hl n hn
  omega

/-- A budget of fewer steps than there are is used up. -/
theorem execute_of_small_budget {n : Int} (hk : Steps k m m') (hlt : n.toNat < k)
    (hr : k < rounds) :
    ∃ pc i mj, m.execute { limit := some n } rounds =
      some (.error (.ofMachine (.stepLimit n pc i)), mj) := by
  obtain ⟨mj, hj⟩ := hk.take (Nat.le_of_lt hlt)
  obtain ⟨m₁, hs⟩ := hk.step_of_lt hj hlt
  obtain ⟨⟨i, hp⟩, -, -⟩ := Steps.step_inv hs
  obtain ⟨h₀, hi⟩ := position_eq_at_iff.1 hp
  have hspent : EndsAt (some n) n.toNat mj (.error (.ofMachine (.stepLimit n mj.pc i))) mj :=
    .spent h₀ hi rfl (by omega)
  refine ⟨mj.pc, i, mj, (runFor_eq_some_iff (Nat.add_zero m.steps).symm).2 ⟨n.toNat, by omega, ?_⟩⟩
  refine firstEnd_of_steps hj hspent ?_
  intro j hjlt n' hn'
  cases hn'
  omega

end Halting

/-! ## What two machines have in common -/

/-- The machines have the same data. Their programs and their counters may differ. -/
structure Alike (p q : Machine) : Prop where
  registers_eq : q.registers = p.registers
  output_eq : q.output = p.output
  console_eq : q.console = p.console
  steps_eq : q.steps = p.steps

/-- A jump moves the counter at most, to wherever the label leads. -/
theorem Alike.jump {p q : Machine} (h : Alike p q) (name name' : String) :
    Alike (p.jump name) (q.jump name') := by
  obtain ⟨a, ha⟩ := jump_eq name p
  obtain ⟨b, hb⟩ := jump_eq name' q
  rw [ha, hb]
  exact ⟨h.registers_eq, h.output_eq, h.console_eq, h.steps_eq⟩

theorem Alike.apply {p q : Machine} (h : Alike p q) (e : Effect) :
    Alike (Machine.apply e p) (Machine.apply e q) := by
  cases e with
  | none => exact h
  | write slot v =>
    exact { h with registers_eq := congrArg (fun b : Bank => b.write slot v) h.registers_eq }
  | emit v =>
    exact
      { h with
        output_eq := congrArg (fun output : Array Int32 => output.push v) h.output_eq
        console_eq := congrArg (fun console : Array String => console.push _) h.console_eq }
  | jump name => exact h.jump name name

/-! ## Simulations -/

structure Simulation (R : Machine → Machine → Prop)
    (S : Except Failure Unit → Machine → Except Failure Unit → Machine → Prop) : Prop where
  step : ∀ {p q p' : Machine}, R p q → p.step = (.ok true, p') →
    ∃ j q', 0 < j ∧ Steps j q q' ∧ R p' q'
  stop : ∀ {p q : Machine} {r : Except Failure Unit} {p' : Machine}, R p q → Stops p r p' →
    ∃ r' q', Ends q r' q' ∧ S r p' r' q'

namespace Simulation

variable {R : Machine → Machine → Prop}
  {S : Except Failure Unit → Machine → Except Failure Unit → Machine → Prop} {p q : Machine}

theorem steps {k : Nat} {p' : Machine} (h : Simulation R S) (hr : R p q) (hk : Steps k p p') :
    ∃ j q', k ≤ j ∧ Steps j q q' ∧ R p' q' := by
  induction hk generalizing q with
  | refl => exact ⟨0, q, Nat.le_refl 0, .refl, hr⟩
  | cons hs _ ih =>
    obtain ⟨i, q₁, hi, hsteps₁, hr₁⟩ := h.step hr hs
    obtain ⟨j, q₂, hj, hsteps₂, hr₂⟩ := ih hr₁
    exact ⟨i + j, q₂, by omega, hsteps₁.trans hsteps₂, hr₂⟩

theorem ends {r : Except Failure Unit} {p' : Machine} (h : Simulation R S) (hr : R p q)
    (he : Ends p r p') : ∃ r' q', Ends q r' q' ∧ S r p' r' q' := by
  obtain ⟨k, pk, hk, hstop⟩ := ends_iff.1 he
  obtain ⟨j, qj, -, hj, hr'⟩ := h.steps hr hk
  obtain ⟨r', q', he', hS⟩ := h.stop hr' hstop
  exact ⟨r', q', he'.of_steps hj, hS⟩

theorem runsForever_iff (h : Simulation R S) (hr : R p q) : RunsForever p ↔ RunsForever q := by
  constructor
  · intro hf
    rw [Machine.runsForever_iff] at hf ⊢
    intro k
    obtain ⟨pk, hk⟩ := hf k
    obtain ⟨j, qj, hle, hj, -⟩ := h.steps hr hk
    exact hj.take hle
  · intro hf
    by_cases hp : RunsForever p
    · exact hp
    · obtain ⟨r, p', he⟩ := ends_of_not_runsForever hp
      obtain ⟨r', q', he', -⟩ := h.ends hr he
      exact absurd hf he'.not_runsForever

/-- The right machine ends only where the left one does: it has but one way to go. -/
theorem ends_of_right {r' : Except Failure Unit} {q' : Machine} (h : Simulation R S) (hr : R p q)
    (he : Ends q r' q') : ∃ r p', Ends p r p' ∧ S r p' r' q' := by
  have hp : ¬ RunsForever p := mt (h.runsForever_iff hr).1 he.not_runsForever
  obtain ⟨r, p', hep⟩ := ends_of_not_runsForever hp
  obtain ⟨r₁, q₁, hq, hS⟩ := h.ends hr hep
  obtain ⟨rfl, rfl⟩ := hq.unique he
  exact ⟨r, p', hep, hS⟩

end Simulation
end Machine
end SimpleMachine
