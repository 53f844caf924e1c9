import SimpleMachine.Failure
import SimpleMachine.LabelTable
import SimpleMachine.Source.Listing

/-!
# SimpleMachine.Machine.State

The state of the machine and the requests that only look at it or replace a part of it.

- `Machine`: the program counter, the registers, the labels and the program, the values sent out
  so far, the number of instructions executed, and the lines printed so far. Printing never fails.
- `Machine.position`: where the program counter stands relative to the program.
- `Machine.jump`: points the counter at a label.
- `Machine.snapshot`: what an observer sees of an execution.
-/

namespace SimpleMachine

structure Machine where
  /-- The address of the next instruction; any integer. -/
  pc : Int := 0
  registers : Bank
  labels : LabelTable := ∅
  program : Array Instruction := #[]
  output : Array Int32 := #[]
  steps : Nat := 0
  mode : Source.Mode := .lenient
  console : Array String := #[]
  deriving DecidableEq, Repr, Inhabited

inductive Position where
  /-- At or after the end of the program: the machine has halted. -/
  | pastEnd
  | beforeStart
  | at (instruction : Instruction)
  deriving DecidableEq, Repr

structure Snapshot where
  pc : Int
  registers : List Int
  output : List Int
  steps : Nat
  deriving DecidableEq, Repr

namespace Machine

def defaultRegisterCount : Int := 32

def build (pc registerCount : Int) (mode : Source.Mode) : Except Failure Machine :=
  match Bank.ofCount registerCount with
  | .error e => .error (.ofBank e)
  | .ok registers => .ok { pc, registers, mode }

def position (m : Machine) : Position :=
  if m.program.size ≤ m.pc then .pastEnd
  else if m.pc < 0 then .beforeStart
  else match m.program[m.pc.toNat]? with
    | some i => .at i
    | none => .pastEnd

/-- Points the counter at a label; an unknown label leaves it where it is. -/
def jump (name : String) (m : Machine) : Machine :=
  match m.labels.address? name with
  | some address => { m with pc := address }
  | none => m

def setCounter (pc : Int) (m : Machine) : Machine := { m with pc }

def getRegister (m : Machine) (index : Int) : Except Failure Int :=
  (m.registers.get index).mapError Failure.ofBank

def setRegister (index v : Int) (m : Machine) : Except Failure Machine :=
  match m.registers.set index v with
  | .error e => .error (.ofBank e)
  | .ok registers => .ok { m with registers }

def clearRegisters (m : Machine) : Machine := { m with registers := m.registers.clear }

/-- Defines a label, unless it is defined already. -/
def addLabel (name : String) (address : Int) (m : Machine) : Machine :=
  { m with labels := m.labels.add name address }

def resetLabels (m : Machine) : Machine := { m with labels := ∅ }

def print (lines : Array String) (m : Machine) : Machine :=
  { m with console := m.console ++ lines }

def snapshot (m : Machine) : Snapshot :=
  { pc := m.pc
    registers := m.registers.toList
    output := m.output.toList.map Int32.toInt
    steps := m.steps }

def programLines (m : Machine) : Except ShowError (List String) :=
  m.program.toList.mapM Instruction.shown

end Machine

def printedText (lines : List String) : String :=
  String.join (lines.map (· ++ "\n"))

namespace Machine

def programText (m : Machine) : Except ShowError String :=
  m.programLines.map printedText

theorem position_of_lt {m : Machine} (h₀ : 0 ≤ m.pc) (h : m.pc.toNat < m.program.size) :
    m.position = .at m.program[m.pc.toNat] := by
  have h₁ : ¬ (m.program.size : Int) ≤ m.pc := by omega
  have h₂ : ¬ m.pc < 0 := by omega
  simp [position, h₁, h₂, h]

/-- The machine has halted exactly when the counter is at or after the end of the program. -/
theorem position_eq_pastEnd_iff {m : Machine} : m.position = .pastEnd ↔ m.program.size ≤ m.pc := by
  unfold position
  split
  · simp [*]
  · split
    · simp only [reduceCtorEq, false_iff]
      omega
    · have h : m.pc.toNat < m.program.size := by omega
      simp only [h, Array.getElem?_eq_getElem, reduceCtorEq, false_iff]
      omega

theorem position_eq_beforeStart_iff {m : Machine} : m.position = .beforeStart ↔ m.pc < 0 := by
  unfold position
  split
  · simp only [reduceCtorEq, false_iff]
    omega
  · split
    · simp [*]
    · split <;> simp [*]

/-- The counter stands at an instruction exactly when the program has it at that address. -/
theorem position_eq_at_iff {m : Machine} {i : Instruction} :
    m.position = .at i ↔ 0 ≤ m.pc ∧ m.program[m.pc.toNat]? = some i := by
  by_cases h : 0 ≤ m.pc ∧ m.pc.toNat < m.program.size
  · rw [position_of_lt h.1 h.2]
    simp [h.1, h.2]
  · constructor
    · intro hi
      unfold position at hi
      split at hi
      · cases hi
      · split at hi
        · cases hi
        · omega
    · rintro ⟨h₀, hi⟩
      obtain ⟨hlt, -⟩ := Array.getElem?_eq_some_iff.1 hi
      exact absurd ⟨h₀, hlt⟩ h

@[simp]
theorem print_empty (m : Machine) : m.print #[] = m := by simp [print]

theorem jump_eq (name : String) (m : Machine) : ∃ pc, m.jump name = { m with pc } := by
  unfold jump
  split
  · exact ⟨_, rfl⟩
  · exact ⟨m.pc, rfl⟩

theorem setRegister_eq_ok {index v : Int} {m m' : Machine} (h : m.setRegister index v = .ok m') :
    ∃ slot, m' = { m with registers := m.registers.write slot (Int32.ofInt v) } := by
  unfold setRegister Bank.set at h
  cases hs : m.registers.slot? index with
  | none => rw [hs] at h; cases h
  | some slot => rw [hs] at h; cases h; exact ⟨slot, rfl⟩

theorem setRegister_eq_error {index v : Int} {m : Machine} {f : Failure}
    (h : m.setRegister index v = .error f) :
    f = .ofBank (.noSuchRegister index m.registers.size) := by
  unfold setRegister Bank.set at h
  cases hs : m.registers.slot? index with
  | none => rw [hs] at h; cases h; rfl
  | some slot => rw [hs] at h; cases h

end Machine
end SimpleMachine
