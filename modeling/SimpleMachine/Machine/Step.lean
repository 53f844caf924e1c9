import SimpleMachine.Machine.Effect
import SimpleMachine.Machine.State

/-!
# SimpleMachine.Machine.Step

One step of the machine.

- `Machine.apply`: makes the change that an instruction asks for.
- `Machine.obey`: moves the counter to the next address and makes the change. A fault leaves all
  but the counter as it was.
- `Machine.step`: obeys the instruction at the counter, unless the machine has halted.
-/

namespace SimpleMachine
namespace Machine

/-- Makes a change. A value that is sent out is also printed, in decimal. -/
def apply (e : Effect) (m : Machine) : Machine :=
  match e with
  | .none => m
  | .write slot v => { m with registers := m.registers.write slot v }
  | .emit v =>
    { m with output := m.output.push v, console := m.console.push (Numeral.text v.toInt) }
  | .jump name => m.jump name

/-- Obeys an instruction as the one at the counter. -/
def obey (i : Instruction) (m : Machine) : Except MachineError Unit × Machine :=
  match i.effect m.registers with
  | .error f => (.error (.fault f m.pc i), { m with pc := m.pc + 1 })
  | .ok e => (.ok (), apply e { m with pc := m.pc + 1, steps := m.steps + 1 })

/-- Obeys the instruction at the counter; the answer tells whether there was one to obey. -/
def step (m : Machine) : Except Failure Bool × Machine :=
  match m.position with
  | .pastEnd => (.ok false, m)
  | .beforeStart => (.error (.ofMachine (.counterOutOfRange m.pc)), m)
  | .at i =>
    match m.obey i with
    | (.error e, m') => (.error (.ofMachine e), m')
    | (.ok (), m') => (.ok true, m')

theorem step_of_pastEnd {m : Machine} (h : m.position = .pastEnd) : m.step = (.ok false, m) := by
  simp [step, h]

@[simp]
theorem program_apply (e : Effect) (m : Machine) : (apply e m).program = m.program := by
  cases e with
  | jump name => obtain ⟨pc, h⟩ := jump_eq name m; simp [apply, h]
  | _ => rfl

@[simp]
theorem labels_apply (e : Effect) (m : Machine) : (apply e m).labels = m.labels := by
  cases e with
  | jump name => obtain ⟨pc, h⟩ := jump_eq name m; simp [apply, h]
  | _ => rfl

@[simp]
theorem steps_apply (e : Effect) (m : Machine) : (apply e m).steps = m.steps := by
  cases e with
  | jump name => obtain ⟨pc, h⟩ := jump_eq name m; simp [apply, h]
  | _ => rfl

@[simp]
theorem size_registers_apply (e : Effect) (m : Machine) :
    (apply e m).registers.size = m.registers.size := by
  cases e with
  | jump name => obtain ⟨pc, h⟩ := jump_eq name m; simp [apply, h]
  | write slot v => exact Bank.size_write m.registers slot v
  | _ => rfl

end Machine
end SimpleMachine
