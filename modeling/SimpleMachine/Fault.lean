import SimpleMachine.Instruction

/-!
# SimpleMachine.Fault

Why an execution stops before the end of its program.

- `Fault`: why an instruction cannot take effect.
- `MachineError`: a fault with the address and the instruction, a program counter before the
  program, or a step budget that is used up.
- `MachineError.cause`: what has gone wrong. It is put into words when the error is raised, and there
  are none if it is about a number of too many digits.
-/

namespace SimpleMachine

/-- Why an instruction cannot take effect. -/
inductive Fault where
  | operandCount (expected given : Nat)
  | noOperand
  | wordAsRegister
  | wordAsValue
  | invalidRegister (index : Int)
  | divisionByZero
  deriving DecidableEq, Repr

namespace Fault

def message : Fault → String
  | .operandCount expected given =>
    if given < expected then
      "not enough values to unpack (expected " ++ Numeral.text expected ++ ", got " ++
        Numeral.text given ++ ")"
    else "too many values to unpack (expected " ++ Numeral.text expected ++ ")"
  | .noOperand => "tuple index out of range"
  | .wordAsRegister => "'<=' not supported between instances of 'int' and 'str'"
  | .wordAsValue => "unsupported operand type(s) for &=: 'str' and 'int'"
  | .invalidRegister index =>
    match Numeral.shown index with
    | .ok shown => "invalid register " ++ shown
    | .error e => e.message
  | .divisionByZero => "division by zero"

end Fault

/-- Why an execution stops before the end of its program. -/
inductive MachineError where
  | fault (cause : Fault) (pc : Int) (instruction : Instruction)
  | counterOutOfRange (pc : Int)
  /-- The given number of instructions has been executed and the program has not ended; with the
  instruction that comes next. -/
  | stepLimit (limit : Int) (pc : Int) (instruction : Instruction)
  deriving DecidableEq, Repr

namespace MachineError

def pc : MachineError → Int
  | .fault _ pc _ => pc
  | .counterOutOfRange pc => pc
  | .stepLimit _ pc _ => pc

def instruction? : MachineError → Option Instruction
  | .fault _ _ i => some i
  | .counterOutOfRange _ => none
  | .stepLimit _ _ i => some i

def cause : MachineError → Except ShowError String
  | .fault f _ _ => .ok f.message
  | .counterOutOfRange pc =>
    (Numeral.shown pc).map fun shown => "program counter " ++ shown ++ " out of range"
  | .stepLimit limit _ _ =>
    -- a limit that is used up and not negative is the number of instructions executed
    (if limit < 0 then Numeral.shown limit else .ok (Numeral.text limit)).map fun shown =>
      "step limit of " ++ shown ++ " exceeded"

/-- A message with the place it is about and, if there is one, the instruction there. -/
def located (message place : String) : Option Instruction → Except ShowError String
  | none => .ok (message ++ " (pc=" ++ place ++ ")")
  | some i => i.shown.map fun shown => message ++ " (pc=" ++ place ++ ", " ++ shown ++ ")"

/-- The whole message. The counter is an address, or the cause has been found to be short. -/
def message (e : MachineError) : Except ShowError String := do
  located (← e.cause) (Numeral.text e.pc) e.instruction?

/-- The number in the cause, if there is one that may have too many digits, has not. -/
def Sayable : MachineError → Prop
  | .fault .. => True
  | .counterOutOfRange pc => Numeral.Short pc
  | .stepLimit limit .. => limit < 0 → Numeral.Short limit

instance : (e : MachineError) → Decidable e.Sayable
  | .fault .. => inferInstanceAs (Decidable True)
  | .counterOutOfRange pc => inferInstanceAs (Decidable (Numeral.Short pc))
  | .stepLimit limit .. => inferInstanceAs (Decidable (limit < 0 → Numeral.Short limit))

theorem exists_cause {e : MachineError} (h : e.Sayable) : ∃ text, e.cause = .ok text := by
  cases e with
  | fault f pc i => exact ⟨_, rfl⟩
  | counterOutOfRange pc => exact ⟨_, by rw [cause, Numeral.shown_of_short h]; rfl⟩
  | stepLimit limit pc i =>
    by_cases hneg : limit < 0
    · exact ⟨_, by rw [cause, if_pos hneg, Numeral.shown_of_short (h hneg)]; rfl⟩
    · exact ⟨_, by rw [cause, if_neg hneg]; rfl⟩

theorem cause_of_not_sayable {e : MachineError} (h : ¬ e.Sayable) :
    e.cause = .error .tooManyDigits := by
  cases e with
  | fault f pc i => exact absurd trivial h
  | counterOutOfRange pc => rw [cause, Numeral.shown_of_not_short h]; rfl
  | stepLimit limit pc i =>
    obtain ⟨hneg, hlong⟩ := Classical.not_imp.1 h
    rw [cause, if_pos hneg, Numeral.shown_of_not_short hlong]; rfl

end MachineError
end SimpleMachine
