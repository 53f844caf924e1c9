import SimpleMachine.CommandLine.Switch
import SimpleMachine.Text.DecimalDigit
import SimpleMachine.Text.Quoted

/-!
# SimpleMachine.CommandLine.Argument

The arguments of a command line, each by itself.

- `UsageError`: everything that can be wrong with a command line, and the text of each error.
- `Argument`: what an argument is taken for.
- `Argument.classify`: takes one argument for an option if it is spelled in full, with or without
  a value after an equals sign; then if it abbreviates a single option; a negative number, or
  anything else with a space in it, is a positional argument.
- `Argument.classifyAll`: all arguments; those after the first `--` are positional.
-/

namespace SimpleMachine
namespace CommandLine

inductive UsageError where
  | ambiguous (argument : String) (candidates : List String)
  | noValue (p : Parameter)
  | unwantedValue (f : Flag) (value : String)
  | notAnInteger (p : Parameter) (value : String)
  | noAssignment (value : String)
  | notIntegers (value : String)
  | noProgram
  | surplus (arguments : List String)
  deriving DecidableEq, Repr

namespace UsageError

def about (s : Switch) (message : String) : String := "argument " ++ s.name ++ ": " ++ message

def message : UsageError → String
  | .ambiguous argument candidates =>
    "ambiguous option: " ++ argument ++ " could match " ++ ", ".intercalate candidates
  | .noValue p => about (.parameter p) "expected one argument"
  | .unwantedValue f value =>
    about (.flag f) ("ignored explicit argument " ++ Text.quoted value)
  | .notAnInteger p value => about (.parameter p) ("invalid int value: " ++ Text.quoted value)
  | .noAssignment value =>
    about (.parameter .set) ("expected IDX=VALUE, got " ++ Text.quoted value)
  | .notIntegers value =>
    about (.parameter .set) ("expected integers in IDX=VALUE, got " ++ Text.quoted value)
  | .noProgram => "the following arguments are required: program"
  | .surplus arguments => "unrecognized arguments: " ++ " ".intercalate arguments

end UsageError

inductive Argument where
  | positional (text : String)
  | separator
  | option (spelling : String) (s : Switch) (value? : Option String)
  /-- It looks like an option and is none. -/
  | unknown (text : String)
  deriving DecidableEq, Repr

/-- What stands before the first equals sign, and what stands after it if there is one. -/
def splitAtEquals (s : String) : String × Option String :=
  let cs := s.toList
  (String.ofList (cs.takeWhile (· != '=')),
    match cs.dropWhile (· != '=') with
    | [] => none
    | _ :: value => some (String.ofList value))

/-- The options that an argument may abbreviate. After two hyphens any beginning of a spelling
will do; a single hyphen and a letter may be followed by more letters. -/
def abbreviated (s : String) : List (String × Switch × Option String) :=
  match s.toList with
  | '-' :: '-' :: _ =>
    let (beginning, value?) := splitAtEquals s
    (Switch.spellings.filter fun e => e.1.startsWith beginning).map fun e => (e.1, e.2, value?)
  | '-' :: c :: more =>
    Switch.spellings.filterMap fun e =>
      if e.1 = String.ofList ['-', c] then some (e.1, e.2, some (String.ofList more))
      else if e.1.startsWith s then some (e.1, e.2, none)
      else none
  | _ => []

/-- A negative number: a hyphen and digits, with a point before the last of them at most; a line
feed may follow. -/
def isNegativeNumber (s : String) : Bool :=
  let isDigit (c : Char) : Bool := (Text.digitValue? c).isSome
  match s.toList with
  | '-' :: run =>
    let run := if run.getLast? = some '\n' then run.dropLast else run
    match run.dropWhile isDigit with
    | [] => !run.isEmpty
    | '.' :: fraction => !fraction.isEmpty && fraction.all isDigit
    | _ => false
  | _ => false

namespace Argument

def classify (s : String) : Except UsageError Argument :=
  if s = "" ∨ s = "-" ∨ !s.startsWith "-" then .ok (.positional s)
  else
    match Switch.ofSpelling? s with
    | some switch => .ok (.option s switch none)
    | none =>
      let (spelling, value?) := splitAtEquals s
      match if value?.isSome then Switch.ofSpelling? spelling else none with
      | some switch => .ok (.option spelling switch value?)
      | none =>
        match abbreviated s with
        | [(spelling, switch, value?)] => .ok (.option spelling switch value?)
        | _ :: _ :: _ => .error (.ambiguous s ((abbreviated s).map Prod.fst))
        | [] =>
          if isNegativeNumber s || ' ' ∈ s.toList then .ok (.positional s)
          else .ok (.unknown s)

def classifyAll : List String → Except UsageError (List Argument)
  | [] => .ok []
  | "--" :: more => .ok (.separator :: more.map .positional)
  | s :: more => do
    let a ← classify s
    let as ← classifyAll more
    return a :: as

end Argument
end CommandLine
end SimpleMachine
