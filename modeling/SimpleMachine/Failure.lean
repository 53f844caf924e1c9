import SimpleMachine.Bank
import SimpleMachine.Fault
import SimpleMachine.Source.Statement

/-!
# SimpleMachine.Failure

Everything that can go wrong with a request to the machine, from building it to running it, and
the text of each failure.

- `Failure.raise`: raises a failure of which the text is made at once. If that cannot be done, this is
  the failure. Errors of the machine and of the bank are raised in this way (`ofMachine`, `ofBank`).
-/

namespace SimpleMachine

inductive Failure where
  | assembly (e : Source.AssemblyError)
  | tooLong (e : Numeral.TooLong)
  | machine (e : MachineError)
  | bank (e : BankError)
  | unshowable (e : ShowError)
  | unknownOpcode (name : String)
  | unknownEncoding (name : String)
  | nulInPath
  deriving DecidableEq, Repr

/-- The text of a bank error; that of a lack of memory is empty. -/
def BankError.message : BankError → Except ShowError String
  | .negativeCount count =>
    (Numeral.shown count).map fun shown => "register count must be non-negative, got " ++ shown
  | .hugeCount => .ok "cannot fit 'int' into an index-sized integer"
  | .outOfMemory => .ok ""
  | .noSuchRegister index size => (Numeral.shown index).map fun shown =>
    "register index " ++ shown ++ " out of range 0.." ++ Numeral.text (size - 1)

def Numeral.TooLong.message (e : Numeral.TooLong) : String :=
  "Exceeds the limit (" ++ Numeral.text Numeral.maxDigits ++
    " digits) for integer string conversion: value has " ++ Numeral.text e.digits ++
    " digits; use sys.set_int_max_str_digits() to increase the limit"

namespace Failure

def ofSource : Source.SourceError → Failure
  | .assembly e => .assembly e
  | .tooLong e => .tooLong e

def raise (f : Failure) : Except ShowError String → Failure
  | .ok _ => f
  | .error e => .unshowable e

def ofMachine (e : MachineError) : Failure := raise (.machine e) e.cause

def ofBank (e : BankError) : Failure := raise (.bank e) e.message

/-- The text of a failure. It has none if it would show an instruction that cannot be shown. -/
def message : Failure → Except ShowError String
  | .assembly e => .ok e.message
  | .tooLong e => .ok e.message
  | .machine e => e.message
  | .bank e => e.message
  | .unshowable e => .ok e.message
  | .unknownOpcode name => .ok (Text.quoted name ++ " is not a valid Opcode")
  | .unknownEncoding name => .ok ("unknown encoding: " ++ name)
  | .nulInPath => .ok "embedded null byte"

theorem ofMachine_of_sayable {e : MachineError} (h : e.Sayable) : ofMachine e = .machine e := by
  obtain ⟨text, ht⟩ := MachineError.exists_cause h
  rw [ofMachine, ht, raise]

theorem ofMachine_of_not_sayable {e : MachineError} (h : ¬ e.Sayable) :
    ofMachine e = .unshowable .tooManyDigits := by
  rw [ofMachine, MachineError.cause_of_not_sayable h, raise]

theorem ofMachine_eq (e : MachineError) :
    ofMachine e = if e.Sayable then .machine e else .unshowable .tooManyDigits := by
  split
  · next h => exact ofMachine_of_sayable h
  · next h => exact ofMachine_of_not_sayable h

/-- An error of the machine is reported only as itself. -/
theorem eq_of_ofMachine {e e' : MachineError} (h : ofMachine e = .machine e') : e' = e := by
  unfold ofMachine at h
  cases hc : e.cause with
  | ok text => rw [hc] at h; cases h; rfl
  | error s => rw [hc] at h; cases h

theorem ofBank_ne_machine (e : BankError) (e' : MachineError) : ofBank e ≠ .machine e' := by
  unfold ofBank
  cases e.message <;> nofun

/-- A budget that is not negative is short enough by the time that it is used up. -/
theorem ofMachine_stepLimit {limit : Int} (h : 0 ≤ limit) (pc : Int) (i : Instruction) :
    ofMachine (.stepLimit limit pc i) = .machine (.stepLimit limit pc i) :=
  ofMachine_of_sayable fun hneg => absurd hneg (Int.not_lt.2 h)

theorem ofMachine_counterOutOfRange_of_long {pc : Int} (h : ¬ Numeral.Short pc) :
    ofMachine (.counterOutOfRange pc) = .unshowable .tooManyDigits :=
  ofMachine_of_not_sayable h

theorem ofMachine_stepLimit_of_long {limit : Int} (hneg : limit < 0) (hlong : ¬ Numeral.Short limit)
    (pc : Int) (i : Instruction) :
    ofMachine (.stepLimit limit pc i) = .unshowable .tooManyDigits :=
  ofMachine_of_not_sayable fun hsay : limit < 0 → Numeral.Short limit => hlong (hsay hneg)

@[simp]
theorem ofMachine_fault (f : Fault) (pc : Int) (i : Instruction) :
    ofMachine (.fault f pc i) = .machine (.fault f pc i) := rfl

end Failure

def Opcode.named (name : String) : Except Failure Opcode :=
  match Opcode.ofName? name with
  | some op => .ok op
  | none => .error (.unknownOpcode name)

end SimpleMachine
