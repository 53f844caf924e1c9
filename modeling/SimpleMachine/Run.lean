import SimpleMachine.FileTree
import SimpleMachine.Machine.Execution

/-!
# SimpleMachine.Run

Running a program from its text to its end.

- `Setup`: the size and first contents of the registers, the reading mode and the way of
  execution.
- `Setup.runText`: runs the program of a text.
- `Setup.runFile`: runs the program of a file.
-/

namespace SimpleMachine

/-- Pairs of a key and a value, each key once: a repeated key keeps its first place and its last
value. -/
def lastValues (pairs : List (Int × Int)) : List (Int × Int) :=
  pairs.foldl (fun kept (key, v) =>
    if kept.any fun p => p.1 == key then kept.map fun p => if p.1 = key then (key, v) else p
    else kept ++ [(key, v)]) []

structure Setup where
  registerCount : Int := Machine.defaultRegisterCount
  /-- Registers that do not start at zero; a repeated index keeps its last value. -/
  registers : List (Int × Int) := []
  mode : Source.Mode := .lenient
  options : RunOptions := {}

structure Report where
  result : Except Failure Machine
  printed : List String

namespace Setup

def machine (s : Setup) : Except Failure Machine := do
  let m ← Machine.build 0 s.registerCount s.mode
  (lastValues s.registers).foldlM (fun m (index, v) => m.setRegister index v) m

def finish (s : Setup) (rounds : Nat) (m : Machine) : Option Report :=
  (m.execute s.options rounds).map fun (result, m') =>
    { result := result.map fun _ => m', printed := m'.console.toList }

def runText (s : Setup) (rounds : Nat) (text : String) : Option Report :=
  match s.machine with
  | .error f => some ⟨.error f, []⟩
  | .ok m =>
    match m.assemble (Text.textLines text.toList) with
    | (.error f, m') => some ⟨.error f, m'.console.toList⟩
    | (.ok (), m') => s.finish rounds m'

def runFile (s : Setup) (rounds : Nat) (files : FileTree) (path : String)
    (encoding : String := "utf-8") : Option Report :=
  match s.machine with
  | .error f => some ⟨.error f, []⟩
  | .ok m =>
    let r := m.read files path encoding
    match r.result with
    | .error f => some ⟨.error f, r.machine.console.toList⟩
    | .ok false =>
      some ⟨.error (.assembly (.unreadableFile path)), r.machine.console.toList⟩
    | .ok true => s.finish rounds r.machine

end Setup
end SimpleMachine
