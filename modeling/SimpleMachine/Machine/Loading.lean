import SimpleMachine.Machine.State
import SimpleMachine.Text.Encoding
import SimpleMachine.Text.Lines

/-!
# SimpleMachine.Machine.Loading

The ways of giving the machine a program. None of them touches the counter, the registers, the
output or the number of steps.

- `Machine.assemble`: from the lines of a text.
- `Machine.readContents`: from the bytes of a file.
- `Machine.load`: from a list of instructions.
-/

namespace SimpleMachine

inductive OpenError where
  | unreadable
  | nulInPath
  /-- The path runs into a symbolic link that leads back to itself. -/
  | linkLoop
  deriving DecidableEq, Repr

inductive Notice where
  | unreadable
  | assembled (path : String) (instructions labels : Nat)
  deriving DecidableEq, Repr

namespace Notice

def isDetail : Notice → Bool
  | .unreadable => false
  | .assembled .. => true

/-- The line of a report. The detail of an input error is known to the caller only. -/
def line (detail : String) : Notice → String
  | .unreadable => "WARNING sml.machine: File: IO error " ++ detail
  | .assembled path instructions labels =>
    "DEBUG sml.machine: translated " ++ path ++ ": " ++ Numeral.text instructions ++
      " instructions, " ++ Numeral.text labels ++ " labels"

end Notice

structure ReadResult where
  /-- Whether the file could be read, or the failure of its text to be a program. -/
  result : Except Failure Bool
  notices : List Notice
  machine : Machine

namespace Machine

def install (l : Source.Listing) (m : Machine) : Machine :=
  { m with labels := l.labels, program := l.program }

def unload (m : Machine) : Machine := m.install {}

/-- Makes the lines of a text the program. A text that is no program leaves the machine without
one; a numeral of too many digits leaves it with the instructions before that numeral. -/
def assemble (lines : List String) (m : Machine) : Except Failure Unit × Machine :=
  match Source.Listing.ofLines m.mode lines with
  | (.ok (), l) => (.ok (), m.install l)
  | (.error (.assembly e), _) => (.error (.assembly e), m.unload)
  | (.error (.tooLong e), l) => (.error (.tooLong e), m.install l)

/-- Makes the text of a file the program. The earlier program is given up before the file is
looked at. -/
def readContents (path encoding : String) (contents : Except OpenError ByteArray) (m : Machine) :
    ReadResult :=
  let bare := m.unload
  match contents with
  | .error .nulInPath => ⟨.error .nulInPath, [], bare⟩
  | .error .unreadable | .error .linkLoop => ⟨.ok false, [.unreadable], bare⟩
  | .ok bytes =>
    match Encoding.ofName? encoding with
    | none => ⟨.error (.unknownEncoding encoding), [], bare⟩
    | some e =>
      match e.decode? bytes with
      | none => ⟨.ok false, [.unreadable], bare⟩
      | some text =>
        match bare.assemble (Text.fileLines text) with
        | (.error f, m') => ⟨.error f, [], m'⟩
        | (.ok (), m') => ⟨.ok true, [.assembled path m'.program.size m'.labels.size], m'⟩

/-- The labels of a list of instructions; an empty label names nothing. -/
def labelsOf (program : List Instruction) : LabelTable :=
  program.zipIdx.foldl (fun t (i, address) => if i.label = "" then t else t.add i.label address) ∅

def load (program : List Instruction) (m : Machine) : Machine :=
  m.install { labels := labelsOf program, program := program.toArray }

@[simp]
theorem program_load (program : List Instruction) (m : Machine) :
    (m.load program).program = program.toArray := rfl

@[simp]
theorem registers_install (l : Source.Listing) (m : Machine) :
    (m.install l).registers = m.registers := rfl

theorem registers_assemble (lines : List String) (m : Machine) :
    (m.assemble lines).2.registers = m.registers := by
  unfold assemble
  split <;> simp [unload]

end Machine
end SimpleMachine
