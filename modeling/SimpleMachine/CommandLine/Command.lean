import SimpleMachine.CommandLine.Invocation
import SimpleMachine.FileTree
import SimpleMachine.Machine.Execution

/-!
# SimpleMachine.CommandLine.Command

Carrying out a command line: the machine is built, registers are assigned, the file of the program
is read, the program is shown if that is asked for, executed, and the registers are shown if that
is asked for.

- `Transcript`: what a command prints, and how it ends.
- `Invocation.prepare`: everything before the execution.
- `Job.finish`: everything after it.
- `run`: a whole command on a tree of files.
-/

namespace SimpleMachine
namespace CommandLine

inductive CommandFailure where
  | request (f : Failure)
  | linkLoop (path : String)
  | droppedCount
  | droppedAssignment
  | droppedLimit
  deriving DecidableEq, Repr

namespace CommandFailure

def message : CommandFailure → Except ShowError String
  | .request f => f.message
  | .linkLoop path => .ok ("Symlink loop from " ++ Text.quoted path)
  | .droppedCount => .ok "'<' not supported between instances of 'list' and 'int'"
  | .droppedAssignment => .ok (Fault.operandCount 2 0).message
  | .droppedLimit => .ok "'>=' not supported between instances of 'int' and 'list'"

/-- Whether a failure is one that a command is expected to report. -/
def isReported : CommandFailure → Bool
  | .request (.bank .hugeCount) => false
  | .request (.bank .outOfMemory) => false
  | .request (.unshowable .integerRemark) => false
  | .request (.unknownEncoding _) => false
  | .request _ => true
  | .linkLoop _ => false
  | .droppedCount => false
  | .droppedAssignment => true
  | .droppedLimit => false

end CommandFailure

inductive Ending where
  | exit (code : Nat)
  | escaped (f : CommandFailure)
  deriving DecidableEq, Repr

structure Transcript where
  stdout : List String := []
  stderr : List String := []
  ending : Ending
  deriving DecidableEq, Repr

def Stop.transcript : Stop → Transcript
  | .help => { stdout := helpLines, ending := .exit 0 }
  | .usage e =>
    { stderr := usageLines ++ ["sml: error: " ++ e.message], ending := .exit 2 }

def Transcript.failed (stdout stderr : List String) (f : CommandFailure) : Transcript :=
  if f.isReported then
    match f.message with
    | .ok text =>
      { stdout, stderr := stderr ++ ["SML execution failed: " ++ text], ending := .exit 1 }
    | .error e => { stdout, stderr, ending := .escaped (.request (.unshowable e)) }
  else { stdout, stderr, ending := .escaped f }

/-- A program that is ready to be executed. -/
structure Job where
  machine : Machine
  options : RunOptions
  heading : List String
  log : List String
  printRegisters : Bool

namespace Invocation

def machine (i : Invocation) : Except CommandFailure Machine :=
  match i.settings.registers with
  | .dropped => .error .droppedCount
  | .value count => do
    let mode := if i.settings.strict then Source.Mode.strict else .lenient
    let m ← (Machine.build 0 count mode).mapError CommandFailure.request
    i.settings.assignments.foldlM (fun m a =>
      match a with
      | .dropped => .error .droppedAssignment
      | .value (index, v) => (m.setRegister index v).mapError CommandFailure.request) m

/-- The lines printed before the execution: if the program is to be shown, how many instructions
it has, each of them, and the labels. A program with an instruction that cannot be shown is an
error after the first of these lines. -/
def heading (i : Invocation) (m : Machine) : Except (List String × ShowError) (List String) :=
  if i.settings.dump then
    let first := "Here is the program; it has " ++ Numeral.text m.program.size ++ " instructions."
    match m.programLines with
    | .ok program => .ok (first :: program ++ ["Labels: " ++ m.labels.shown])
    | .error e => .error ([first], e)
  else .ok []

/-- The path of the program in a directory, shortened. -/
def fullPath (i : Invocation) (directory : String) : String :=
  "/".intercalate (directory :: (FileTree.place? i.program).getD [])

/-- How the program is executed. A dropped limit is of no consequence to an empty program. -/
def runOptions (i : Invocation) (m : Machine) : Except CommandFailure RunOptions :=
  match i.settings.limit with
  | none => .ok { trace := i.settings.trace }
  | some (.value n) => .ok { trace := i.settings.trace, limit := some n }
  | some .dropped =>
    if m.position = .pastEnd then .ok { trace := i.settings.trace } else .error .droppedLimit

def checkPath (path : String) : Except OpenError ByteArray → Except CommandFailure Unit
  | .error .linkLoop => .error (.linkLoop path)
  | _ => .ok ()

/-- Builds the machine and gives it the program of a file, of which the path to report, the bytes
and the detail of an input error are known. The path is resolved before the file is opened. -/
def prepare (i : Invocation) (path : String) (contents : Except OpenError ByteArray)
    (detail : String) : Except Transcript Job := do
  let m ← i.machine.mapError (Transcript.failed [] [])
  (checkPath path contents).mapError (Transcript.failed [] [])
  let r := m.readContents path "utf-8" contents
  let log := (r.notices.filter fun n => i.settings.verbose || !n.isDetail).map (Notice.line detail)
  match r.result with
  | .error f => .error (.failed [] log (.request f))
  | .ok false =>
    .error { stderr := log ++ ["sml: cannot read " ++ i.program], ending := .exit 1 }
  | .ok true =>
    let heading ← (i.heading r.machine).mapError fun (lines, e) =>
      Transcript.failed lines log (.request (.unshowable e))
    let options ← (i.runOptions r.machine).mapError (Transcript.failed heading log)
    return { machine := r.machine, options, heading, log
             printRegisters := i.settings.printRegisters }

end Invocation

namespace Job

def finish (j : Job) (result : Except Failure Unit) (m : Machine) : Transcript :=
  let stdout := j.heading ++ m.console.toList
  match result with
  | .error f => .failed stdout j.log (.request f)
  | .ok () =>
    { stdout := stdout ++
        if j.printRegisters then ["Registers: " ++ m.registers.shown] else []
      stderr := j.log
      ending := .exit 0 }

def run (j : Job) (rounds : Nat) : Option Transcript :=
  (j.machine.execute j.options rounds).map fun (result, m) => j.finish result m

end Job

/-- Carries out a command line in a directory with the given files and name. The path of the
program is shortened before the file is looked for. The answer is `none` when the given number of
rounds is not enough for the execution. -/
def run (files : FileTree) (directory detail : String) (rounds : Nat) (arguments : List String) :
    Option Transcript :=
  match Invocation.parse arguments with
  | .error stop => some stop.transcript
  | .ok i =>
    match i.prepare (i.fullPath directory) (files.findShortened i.program) detail with
    | .error t => some t
    | .ok job => job.run rounds

end CommandLine
end SimpleMachine
