import SimpleMachine.Proofs.Refinement

/-!
# SimpleMachine.Proofs.Faults

What a machine error leaves behind.

* `Blames e m m'`: the error `e` is that of a step from `m`, which leaves `m'`. It names the counter
  and the instruction there, if there is one. Nothing but the counter has moved, and it stands where
  a no-op in place of the instruction would have left it.
* `exists_blames`: a step fails with an error of this kind, raised by it.
* `fault_moves_only_counter`: so does an execution without tracing, from the state that its successful
  steps have reached; the only other error is that of the budget, which leaves that state as it is.
  An error about a number of too many digits is not reported as such.
-/

namespace SimpleMachine
namespace Machine

/-- The machine with another instruction at its counter. -/
def substitute (i : Instruction) (m : Machine) : Machine :=
  { m with program := m.program.setIfInBounds m.pc.toNat i }

inductive Blames (e : MachineError) (m m' : Machine) : Prop where
  | inside {i : Instruction} :
      0 ≤ m.pc → m.program[m.pc.toNat]? = some i →
      (∃ f, i.effect m.registers = .error f ∧ e = .fault f m.pc i) →
      m' = { m with pc := m.pc + 1 } →
      (∀ x, x.opcode = .noop → ∃ m₁, (m.substitute x).step = (.ok true, m₁) ∧
        m' = { m₁ with program := m.program, steps := m.steps }) →
      Blames e m m'
  | before : m.pc < 0 → e = .counterOutOfRange m.pc → m' = m → Blames e m m'

theorem position_substitute {m : Machine} {i x : Instruction} (h : m.position = .at i) :
    (m.substitute x).position = .at x := by
  obtain ⟨h₀, hi⟩ := position_eq_at_iff.1 h
  obtain ⟨hlt, -⟩ := Array.getElem?_eq_some_iff.1 hi
  refine position_eq_at_iff.2 ⟨h₀, ?_⟩
  simp [substitute, hlt]

/-- A no-op moves the counter and is counted. -/
theorem step_substitute_noop {m : Machine} {i x : Instruction} (h : m.position = .at i)
    (hx : x.opcode = .noop) :
    (m.substitute x).step =
      (.ok true, { m.substitute x with pc := m.pc + 1, steps := m.steps + 1 }) := by
  have he : x.effect (m.substitute x).registers = .ok .none := by simp [Instruction.effect, hx]
  exact (StepCase.obeyed (position_substitute h) he).step_eq

theorem exists_blames {m m' : Machine} {f : Failure} (h : m.step = (.error f, m')) :
    ∃ e, f = .ofMachine e ∧ Blames e m m' := by
  cases step_eq_iff.1 h with
  | astray hp => exact ⟨_, rfl, .before (position_eq_beforeStart_iff.1 hp) rfl rfl⟩
  | faulted hp he =>
    obtain ⟨h₀, hi⟩ := position_eq_at_iff.1 hp
    refine ⟨_, rfl, .inside h₀ hi ⟨_, he, rfl⟩ rfl fun x hx => ?_⟩
    exact ⟨_, step_substitute_noop hp hx, rfl⟩

/-- The errors of a step name the counter and the instruction at it. -/
theorem Blames.place {m m' : Machine} {e : MachineError} (h : Blames e m m') :
    e.pc = m.pc ∧ e.instruction? = if m.pc < 0 then none else m.program[m.pc.toNat]? := by
  cases h with
  | inside h₀ hi he _ _ =>
    obtain ⟨f, -, rfl⟩ := he
    exact ⟨rfl, by rw [if_neg (by omega), hi]; rfl⟩
  | before hlt he _ =>
    subst he
    exact ⟨rfl, by rw [if_pos hlt]; rfl⟩

/-- A failed step moves nothing but the counter, and is about an error of the machine that names the
counter and the instruction there. So is a failed execution without tracing, from the state that its
successful steps have reached, unless its budget is used up, which leaves that state as it is. The
failure is this error, but for an error of which the number has too many digits: then it is a failure
to show that number. -/
theorem fault_moves_only_counter (m : Machine) :
    (∀ f m', m.step = (.error f, m') → ∃ e, Blames e m m' ∧ e.pc = m.pc ∧
      (e.instruction? = if m.pc < 0 then none else m.program[m.pc.toNat]?) ∧
      f = if e.Sayable then .machine e else .unshowable .tooManyDigits) ∧
    (∀ limit rounds f m', m.execute { limit } rounds = some (.error f, m') →
      ∃ k mk e, Steps k m mk ∧
        (f = if e.Sayable then .machine e else .unshowable .tooManyDigits) ∧
        (mk.step = (.error f, m') ∧ Blames e mk m' ∨
          m' = mk ∧ ∃ n i, limit = some n ∧ mk.position = .at i ∧ e = .stepLimit n mk.pc i)) := by
  refine ⟨fun f m' h => ?_, fun limit rounds f m' h => ?_⟩
  · obtain ⟨e, rfl, hb⟩ := exists_blames h
    exact ⟨e, hb, hb.place.1, hb.place.2, Failure.ofMachine_eq e⟩
  · obtain ⟨k, -, ⟨mk, hk, he⟩, -⟩ := (runFor_eq_some_iff (Nat.add_zero m.steps).symm).1 h
    cases he with
    | astray hlt =>
      have hs := (StepCase.astray (position_eq_beforeStart_iff.2 hlt)).step_eq
      exact ⟨k, m', _, hk, Failure.ofMachine_eq _, .inl ⟨hs, .before hlt rfl rfl⟩⟩
    | spent h₀ hi hn _ =>
      exact ⟨k, m', _, hk, Failure.ofMachine_eq _,
        .inr ⟨rfl, _, _, hn, position_eq_at_iff.2 ⟨h₀, hi⟩, rfl⟩⟩
    | faulted _ _ _ hs =>
      obtain ⟨e, rfl, hb⟩ := exists_blames hs
      exact ⟨k, mk, e, hk, Failure.ofMachine_eq e, .inl ⟨hs, hb⟩⟩

/-- A word in place of a register, met by a step and by an execution within a budget. -/
theorem fault_moves_only_counter_word :
    let i : Instruction := ⟨"a", .bnz, [.word "r0", .word "a"]⟩
    let m : Machine := { registers := .zeros 1, program := #[i], output := #[5], steps := 7 }
    let e : MachineError := .fault .wordAsRegister 0 i
    m.step = (.error (.machine e), { m with pc := 1 }) ∧ Blames e m { m with pc := 1 } ∧
      m.execute { limit := some 1 } 1 = some (.error (.machine e), { m with pc := 1 }) ∧
      ∃ k mk, Steps k m mk ∧ mk.step = (.error (.machine e), { m with pc := 1 }) := by
  intro i m e
  have hs : m.step = (.error (.machine e), { m with pc := 1 }) := by rfl
  have hx : m.execute { limit := some 1 } 1 = some (.error (.machine e), { m with pc := 1 }) := by
    rfl
  obtain ⟨e₁, hb, -, -, he₁⟩ := (fault_moves_only_counter m).1 _ _ hs
  have heq : e₁ = e := by
    rw [← Failure.ofMachine_eq] at he₁
    exact (Failure.eq_of_ofMachine he₁.symm).symm
  refine ⟨hs, heq ▸ hb, hx, ?_⟩
  obtain ⟨k, mk, e', hk, -, ⟨hmk, -⟩ | ⟨hm, -⟩⟩ := (fault_moves_only_counter m).2 _ _ _ _ hx
  · exact ⟨k, mk, hk, hmk⟩
  · have hsteps := hk.steps_eq
    subst hm
    obtain rfl : k = 0 := by simpa [m] using hsteps
    exact absurd (congrArg Machine.pc (hk.unique .refl)) (by decide)

theorem step_of_far_counter {m : Machine} (hneg : m.pc < 0) (hlong : ¬ Numeral.Short m.pc) :
    m.step = (.error (.unshowable .tooManyDigits), m) := by
  rw [(StepCase.astray (position_eq_beforeStart_iff.2 hneg)).step_eq,
    Failure.ofMachine_counterOutOfRange_of_long hlong]

/-- A step from a counter far before the program, and an execution with a limit that is as far below
zero, fail with the number that they cannot show and not with an error of the machine. -/
theorem far_counter_is_no_machine_error :
    let far : Int := -Numeral.leastLong
    let i : Instruction := ⟨"a", .noop, []⟩
    let m : Machine := { registers := .zeros 1, program := #[i] }
    (∃ f m', ({ m with pc := far } : Machine).step = (.error f, m') ∧ ∀ e, f ≠ .machine e) ∧
      ∃ f m', m.execute { limit := some far } 1 = some (.error f, m') ∧ ∀ e, f ≠ .machine e := by
  intro far i m
  have hneg : far < 0 := Int.neg_neg_of_pos Numeral.leastLong_pos
  have hlong : ¬ Numeral.Short far := Numeral.not_short_neg_leastLong
  have hs := step_of_far_counter (m := { m with pc := far }) hneg hlong
  have hx := execute_of_far_limit (m := m) (i := i) rfl hneg hlong 0
  exact ⟨⟨_, _, hs, nofun⟩, ⟨_, _, hx, nofun⟩⟩

end Machine
end SimpleMachine
