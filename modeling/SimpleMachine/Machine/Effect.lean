import SimpleMachine.Bank
import SimpleMachine.Fault

/-!
# SimpleMachine.Machine.Effect

What an instruction does, given the registers: `Instruction.effect` is either one change to make
or the fault that prevents it. The number of operands is checked first, then the registers from
left to right, then the values in them.

Arithmetic is that of 32-bit signed words: sums, differences and products wrap, and a quotient is
rounded toward zero.
-/

namespace SimpleMachine

/-- The one change that an instruction makes, besides moving the counter to the next address. -/
inductive Effect where
  | none
  | write (slot : Nat) (v : Int32)
  | emit (v : Int32)
  | jump (name : String)
  deriving DecidableEq, Repr

namespace Bank

def register (b : Bank) : Operand → Except Fault Nat
  | .word _ => .error .wordAsRegister
  | .int index =>
    match b.slot? index with
    | some slot => .ok slot
    | none => .error (.invalidRegister index)

def combine (b : Bank) (f : Int32 → Int32 → Except Fault Int32) :
    List Operand → Except Fault Effect
  | [d, l, r] => do
    let dst ← b.register d
    let left ← b.register l
    let right ← b.register r
    let v ← f (b.read left) (b.read right)
    return .write dst v
  | operands => .error (.operandCount 3 operands.length)

def loadInteger (b : Bank) : List Operand → Except Fault Effect
  | [d, v] => do
    let dst ← b.register d
    match v with
    | .int v => return .write dst (Int32.ofInt v)
    | .word _ => .error .wordAsValue
  | operands => .error (.operandCount 2 operands.length)

/-- Sends out the register that the first operand names; further operands are ignored. -/
def send (b : Bank) : List Operand → Except Fault Effect
  | s :: _ => do
    let src ← b.register s
    return .emit (b.read src)
  | [] => .error .noOperand

/-- Goes to a label if a register is not zero. An integer is no label. -/
def branch (b : Bank) : List Operand → Except Fault Effect
  | [s, target] => do
    let src ← b.register s
    match target with
    | .word name => return if b.read src ≠ 0 then .jump name else .none
    | .int _ => return .none
  | operands => .error (.operandCount 2 operands.length)

end Bank

/-- The quotient rounded toward zero. -/
def quotient (a b : Int32) : Except Fault Int32 :=
  if b = 0 then .error .divisionByZero else .ok (a / b)

def Instruction.effect (i : Instruction) (b : Bank) : Except Fault Effect :=
  match i.opcode with
  | .add => b.combine (fun x y => .ok (x + y)) i.operands
  | .sub => b.combine (fun x y => .ok (x - y)) i.operands
  | .mul => b.combine (fun x y => .ok (x * y)) i.operands
  | .div => b.combine quotient i.operands
  | .lin => b.loadInteger i.operands
  | .out => b.send i.operands
  | .bnz => b.branch i.operands
  | .noop => .ok .none

theorem Bank.register_eq_ok_iff {b : Bank} {o : Operand} {slot : Nat} :
    b.register o = .ok slot ↔ slot < b.size ∧ o = .int slot := by
  cases o with
  | word s => simp [register]
  | int index =>
    simp only [register, Operand.int.injEq]
    rw [← Bank.slot?_eq_some_iff]
    cases b.slot? index <;> simp

end SimpleMachine
