import SimpleMachine.Machine.Execution

/-!
# SimpleMachine.Proofs.Transition

What one step and one round of an execution can do, case by case.

* `StepCase m r m'`: the four outcomes of `step`, with the conditions of each; `step` is exactly
  this relation (`step_eq_iff`).
* `TurnCase o start m t`: the six outcomes of `turn`, in the same way (`turn_eq_iff`).
* `RunOptions.Allows o done`: the budget lets a run obey one more instruction after `done` of them.
* `Rounds o start k m m'`: `k` rounds lead from `m` to `m'`. A run is some rounds and then one that
  stops (`runFor_eq_some_iff_rounds`).
* `EndsUnder o m r m'`: the execution from `m` with these options ends, with result `r`, and leaves
  `m'`. There is one such end at most (`EndsUnder.unique`).

Every invariant of a run is proved by cases on these two relations, so that no later proof opens
`step`, `obey` or `turn`.
-/

namespace SimpleMachine

/-- The budget is not used up after `done` instructions. -/
def RunOptions.Allows (o : RunOptions) (done : Int) : Prop := ∀ n, o.limit = some n → done < n

namespace Machine

inductive StepCase (m : Machine) : Except Failure Bool → Machine → Prop where
  | halted : m.position = .pastEnd → StepCase m (.ok false) m
  | astray : m.position = .beforeStart →
      StepCase m (.error (.ofMachine (.counterOutOfRange m.pc))) m
  | faulted {i : Instruction} {f : Fault} :
      m.position = .at i → i.effect m.registers = .error f →
      StepCase m (.error (.machine (.fault f m.pc i))) { m with pc := m.pc + 1 }
  | obeyed {i : Instruction} {e : Effect} :
      m.position = .at i → i.effect m.registers = .ok e →
      StepCase m (.ok true) (apply e { m with pc := m.pc + 1, steps := m.steps + 1 })

theorem stepCase_step (m : Machine) : StepCase m m.step.1 m.step.2 := by
  cases hp : m.position with
  | pastEnd => simpa [step, hp] using StepCase.halted hp
  | beforeStart => simpa [step, hp] using StepCase.astray hp
  | «at» i =>
    cases he : i.effect m.registers with
    | error f => simpa [step, hp, obey, he] using StepCase.faulted hp he
    | ok e => simpa [step, hp, obey, he] using StepCase.obeyed hp he

theorem StepCase.step_eq {m m' : Machine} {r : Except Failure Bool}
    (h : StepCase m r m') : m.step = (r, m') := by
  cases h with
  | halted hp => simp [step, hp]
  | astray hp => simp [step, hp]
  | faulted hp he => simp [step, hp, obey, he]
  | obeyed hp he => simp [step, hp, obey, he]

theorem step_eq_iff {m m' : Machine} {r : Except Failure Bool} :
    m.step = (r, m') ↔ StepCase m r m' := by
  constructor
  · intro h
    have hc := stepCase_step m
    rw [h] at hc
    exact hc
  · exact StepCase.step_eq

/-- A fault is that of the instruction at the counter. -/
theorem step_fault_inv {m m' : Machine} {f : Fault} {a : Int} {i : Instruction}
    (h : m.step = (.error (.machine (.fault f a i)), m')) :
    m.position = .at i ∧ i.effect m.registers = .error f ∧ a = m.pc ∧
      m' = { m with pc := m.pc + 1 } := by
  generalize hr : (.error (.machine (.fault f a i)) : Except Failure Bool) = r at h
  cases step_eq_iff.1 h with
  | halted _ => cases hr
  | astray _ => cases Failure.eq_of_ofMachine (Except.error.inj hr).symm
  | faulted hp he => cases hr; exact ⟨hp, he, rfl, rfl⟩
  | obeyed _ _ => cases hr

/-- A step leaves the program alone, whatever comes of it. -/
theorem program_step (m : Machine) : m.step.2.program = m.program := by
  have hc := stepCase_step m
  generalize m.step.1 = r, m.step.2 = m' at hc ⊢
  cases hc with
  | halted _ => rfl
  | astray _ => rfl
  | faulted _ _ => rfl
  | obeyed _ _ => exact program_apply _ _

/-- The lines with which an instruction is announced before it is obeyed. -/
def announcement (o : RunOptions) (i : Instruction) (m : Machine) :
    Except ShowError (Array String) :=
  if o.trace then m.traceLines i else .ok #[]

inductive TurnCase (o : RunOptions) (start : Nat) (m : Machine) : Turn → Prop where
  | finished : m.position = .pastEnd → TurnCase o start m (.stop (.ok ()) m)
  | astray : m.position = .beforeStart →
      TurnCase o start m (.stop (.error (.ofMachine (.counterOutOfRange m.pc))) m)
  | spent {i : Instruction} {n : Int} :
      m.position = .at i → o.limit = some n → n ≤ (m.steps : Int) - start →
      TurnCase o start m (.stop (.error (.ofMachine (.stepLimit n m.pc i))) m)
  | unshowable {i : Instruction} {e : ShowError} :
      m.position = .at i → o.Allows ((m.steps : Int) - start) → m.announcement o i = .error e →
      TurnCase o start m (.stop (.error (.unshowable e)) m)
  | faulted {i : Instruction} {lines : Array String} {f : Fault} :
      m.position = .at i → o.Allows ((m.steps : Int) - start) → m.announcement o i = .ok lines →
      i.effect m.registers = .error f →
      TurnCase o start m
        (.stop (.error (.machine (.fault f m.pc i))) { m.print lines with pc := m.pc + 1 })
  | obeyed {i : Instruction} {lines : Array String} {e : Effect} :
      m.position = .at i → o.Allows ((m.steps : Int) - start) → m.announcement o i = .ok lines →
      i.effect m.registers = .ok e →
      TurnCase o start m
        (.next (apply e { m.print lines with pc := m.pc + 1, steps := m.steps + 1 }))

/-- The budget filter of a round finds nothing exactly while the budget allows more. -/
theorem filter_limit_eq_none_iff {o : RunOptions} {done : Int} :
    (o.limit.filter fun n => n ≤ done) = none ↔ o.Allows done := by
  simp only [Option.filter_eq_none_iff, RunOptions.Allows, decide_eq_true_eq, Int.not_le]

theorem TurnCase.turn_eq {o : RunOptions} {start : Nat} {m : Machine} {t : Turn}
    (h : TurnCase o start m t) : m.turn o start = t := by
  cases h with
  | finished hp => simp [turn, hp]
  | astray hp => simp [turn, hp]
  | @spent i n hp hn hle =>
    have hf : (o.limit.filter fun n => n ≤ (m.steps : Int) - start) = some n := by
      simp [hn, hle]
    simp only [turn, hp, hf]
  | unshowable hp ha hl =>
    simp only [announcement] at hl
    simp only [turn, hp, filter_limit_eq_none_iff.2 ha, hl]
  | faulted hp ha hl he =>
    simp only [announcement] at hl
    simp only [turn, hp, filter_limit_eq_none_iff.2 ha, hl, obey, print, he,
      Failure.ofMachine_fault]
  | obeyed hp ha hl he =>
    simp only [announcement] at hl
    simp only [turn, hp, filter_limit_eq_none_iff.2 ha, hl, obey, print, he]

theorem turnCase_turn (o : RunOptions) (start : Nat) (m : Machine) :
    TurnCase o start m (m.turn o start) := by
  have key : ∀ {t : Turn}, TurnCase o start m t → TurnCase o start m (m.turn o start) := by
    intro t ht
    rw [ht.turn_eq]; exact ht
  cases hp : m.position with
  | pastEnd => exact key (.finished hp)
  | beforeStart => exact key (.astray hp)
  | «at» i =>
    cases hf : o.limit.filter fun n => n ≤ (m.steps : Int) - start with
    | some n =>
      obtain ⟨hn, hle⟩ := Option.filter_eq_some_iff.1 hf
      exact key (.spent hp hn (by simpa using hle))
    | none =>
      have ha := filter_limit_eq_none_iff.1 hf
      cases hl : m.announcement o i with
      | error e => exact key (.unshowable hp ha hl)
      | ok lines =>
        cases he : i.effect m.registers with
        | error f => exact key (.faulted hp ha hl he)
        | ok e => exact key (.obeyed hp ha hl he)

theorem turn_eq_iff {o : RunOptions} {start : Nat} {m : Machine} {t : Turn} :
    m.turn o start = t ↔ TurnCase o start m t := by
  constructor
  · rintro rfl
    exact turnCase_turn o start m
  · exact TurnCase.turn_eq

/-! ## Whole executions -/

inductive Rounds (o : RunOptions) (start : Nat) : Nat → Machine → Machine → Prop where
  | refl {m : Machine} : Rounds o start 0 m m
  | cons {k : Nat} {m m' m'' : Machine} :
      m.turn o start = .next m' → Rounds o start k m' m'' → Rounds o start (k + 1) m m''

variable {o : RunOptions} {start : Nat} {m m' : Machine}

/-- A round that goes on has an instruction to obey, counts it, and leaves the program alone. -/
theorem turn_next_inv (h : m.turn o start = .next m') :
    o.Allows ((m.steps : Int) - start) ∧ m'.steps = m.steps + 1 ∧ m'.program = m.program := by
  cases turn_eq_iff.1 h with
  | obeyed _ ha _ _ => exact ⟨ha, by simp, by rw [program_apply]; rfl⟩

theorem Rounds.steps_eq {k : Nat} (h : Rounds o start k m m') : m'.steps = m.steps + k := by
  induction h with
  | refl => rfl
  | cons ht _ ih => rw [ih, (turn_next_inv ht).2.1]; omega

theorem Rounds.program_eq {k : Nat} (h : Rounds o start k m m') : m'.program = m.program := by
  induction h with
  | refl => rfl
  | cons ht _ ih => rw [ih, (turn_next_inv ht).2.2]

theorem runFor_of_rounds {k rest : Nat} (h : Rounds o start k m m') :
    runFor o start (k + rest) m = runFor o start rest m' := by
  induction h with
  | refl => rw [Nat.zero_add]
  | @cons k m m₁ m' ht _ ih =>
    rw [show k + 1 + rest = k + rest + 1 by omega, runFor, ht]
    exact ih

/-- A run goes some rounds on, and then there is one that stops. -/
theorem runFor_eq_some_iff_rounds {rounds : Nat} {r : Except Failure Unit} :
    runFor o start rounds m = some (r, m') ↔
      ∃ k mk, k < rounds ∧ Rounds o start k m mk ∧ mk.turn o start = .stop r m' := by
  constructor
  · intro h
    induction rounds generalizing m with
    | zero => cases h
    | succ rounds ih =>
      rw [runFor] at h
      cases ht : m.turn o start with
      | stop r₁ m₁ =>
        rw [ht] at h
        cases h
        exact ⟨0, m, Nat.succ_pos rounds, .refl, ht⟩
      | next m₁ =>
        rw [ht] at h
        obtain ⟨k, mk, hk, hrounds, hstop⟩ := ih h
        exact ⟨k + 1, mk, Nat.succ_lt_succ hk, .cons ht hrounds, hstop⟩
  · rintro ⟨k, mk, hk, hrounds, hstop⟩
    obtain ⟨rest, rfl⟩ : ∃ rest, rounds = k + (rest + 1) := ⟨rounds - k - 1, by omega⟩
    rw [runFor_of_rounds hrounds, runFor, hstop]

def EndsUnder (o : RunOptions) (m : Machine) (r : Except Failure Unit) (m' : Machine) : Prop :=
  ∃ rounds, m.execute o rounds = some (r, m')

theorem EndsUnder.unique {m₁ m₂ : Machine} {r₁ r₂ : Except Failure Unit}
    (h₁ : EndsUnder o m r₁ m₁) (h₂ : EndsUnder o m r₂ m₂) : r₁ = r₂ ∧ m₁ = m₂ := by
  obtain ⟨n, hn⟩ := h₁
  obtain ⟨k, hk⟩ := h₂
  have hn' : m.execute o (max n k) = some (r₁, m₁) := runFor_mono hn (Nat.le_max_left n k)
  have hk' : m.execute o (max n k) = some (r₂, m₂) := runFor_mono hk (Nat.le_max_right n k)
  rw [hn'] at hk'
  cases hk'
  exact ⟨rfl, rfl⟩

end Machine
end SimpleMachine
