import SimpleMachine.FileTree
import SimpleMachine.Machine.Execution

/-!
# SimpleMachine.Machine.Session

The requests that change a machine, and what each of them answers.

- `Request`: the requests.
- `Machine.perform`: carries one out. A request that fails answers with the failure, and the
  machine goes on from the state in which the failure left it.
-/

namespace SimpleMachine

inductive Request where
  | assemble (lines : List String)
  | read (path encoding : String)
  | load (program : List Instruction)
  | step
  | execute (o : RunOptions)
  | jump (name : String)
  | setCounter (pc : Int)
  | setRegister (index v : Int)
  | clearRegisters
  | addLabel (name : String) (address : Int)
  | resetLabels
  deriving DecidableEq, Repr

inductive Reply where
  | done
  | flag (b : Bool)
  | output (values : List Int)
  deriving DecidableEq, Repr

structure Performed where
  result : Except Failure Reply
  notices : List Notice := []
  machine : Machine

namespace Machine

private def done (m : Machine) : Performed := { result := .ok .done, machine := m }

/-- Carries out a request. The answer is `none` when it needs more than the given number of rounds
of an execution. -/
def perform (files : FileTree) (rounds : Nat) (m : Machine) : Request → Option Performed
  | .assemble lines =>
    let (result, m') := m.assemble lines
    some { result := result.map fun _ => .done, machine := m' }
  | .read path encoding =>
    let r := m.read files path encoding
    some { result := r.result.map .flag, notices := r.notices, machine := r.machine }
  | .load program => some (done (m.load program))
  | .step =>
    let (result, m') := m.step
    some { result := result.map .flag, machine := m' }
  | .execute o =>
    (m.execute o rounds).map fun (result, m') =>
      { result := result.map fun _ => .output (m'.output.toList.map Int32.toInt), machine := m' }
  | .jump name => some (done (m.jump name))
  | .setCounter pc => some (done (m.setCounter pc))
  | .setRegister index v =>
    match m.setRegister index v with
    | .ok m' => some (done m')
    | .error f => some { result := .error f, machine := m }
  | .clearRegisters => some (done m.clearRegisters)
  | .addLabel name address => some (done (m.addLabel name address))
  | .resetLabels => some (done m.resetLabels)

end Machine
end SimpleMachine
