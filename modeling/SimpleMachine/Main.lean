import SimpleMachine.CommandLine.Command

/-!
# SimpleMachine.Main

The program: reads the file that the command line names, prints what the execution prints as it
goes on, and exits with the code of the command.
-/

namespace SimpleMachine
namespace CommandLine

/-- The code of the error of a path with too many links. The numbers of Linux are negated here. -/
def linkLoopCode : UInt32 := -40

def readBytes (path : String) : IO (Except OpenError ByteArray) := do
  if '\x00' ∈ path.toList then return .error .nulInPath
  try
    return .ok (← IO.FS.readBinFile path)
  catch
    | .invalidArgument _ code _ =>
      return .error (if code = linkLoopCode then .linkLoop else .unreadable)
    | _ => return .error .unreadable

/-- The path under which the file of a program is looked for: shortened and with the current
directory before it, unless it leads out of that directory. -/
def fullPath (path : String) : IO String := do
  match FileTree.place? path with
  | some names => return "/".intercalate ((← IO.currentDir).toString :: names)
  | none => return path

def printLines (lines : List String) : IO Unit := IO.print (printedText lines)

/-- Prints the lines that a machine has printed since an earlier state. -/
def printNew (before after : Machine) : IO Unit :=
  printLines (after.console.extract before.console.size after.console.size).toList

partial def executeAloud (o : RunOptions) (start : Nat) (m : Machine) :
    IO (Except Failure Unit × Machine) := do
  match m.turn o start with
  | .stop result m' =>
    printNew m m'
    return (result, m')
  | .next m' =>
    printNew m m'
    executeAloud o start m'

/-- Prints the rest of a transcript of which some lines have been printed, and gives the exit
code. -/
def conclude (printed reported : Nat) (t : Transcript) : IO UInt32 := do
  printLines (t.stdout.drop printed)
  IO.eprint (printedText (t.stderr.drop reported))
  match t.ending with
  | .exit code => return code.toUInt32
  | .escaped f =>
    match f.message with
    | .ok text => IO.eprintln text
    | .error e => IO.eprintln e.message
    return 1

end CommandLine
end SimpleMachine

open SimpleMachine SimpleMachine.CommandLine

def main (arguments : List String) : IO UInt32 := do
  match Invocation.parse arguments with
  | .error stop => conclude 0 0 stop.transcript
  | .ok i =>
    let path ← fullPath i.program
    match i.prepare path (← readBytes path) "cannot be read" with
    | .error t => conclude 0 0 t
    | .ok job =>
      printLines job.heading
      IO.eprint (printedText job.log)
      let (result, m) ← executeAloud job.options job.machine.steps job.machine
      conclude (job.heading.length + m.console.size) job.log.length (job.finish result m)
