import SimpleMachine.CommandLine.Argument
import SimpleMachine.CommandLine.Integer

/-!
# SimpleMachine.CommandLine.Invocation

What a command line asks for.

- `Settings`: what the options say.
- `Progress.consume`: goes through the arguments from left to right.
- `Invocation.parse`: the program and the settings of a whole command line, or the reason to stop:
  the help text is asked for, or the command line is wrong.

An option takes effect when it is met, so the help text is shown before later errors, and not
after earlier ones. Missing and surplus arguments are looked for at the end.
-/

namespace SimpleMachine
namespace CommandLine

inductive Setting (α : Type) where
  | value (a : α)
  /-- It was written as `--`, which is dropped wherever it stands, so that nothing is left. -/
  | dropped
  deriving DecidableEq, Repr

structure Settings where
  registers : Setting Int := .value 32
  assignments : List (Setting (Int × Int)) := []
  limit : Option (Setting Int) := none
  strict : Bool := false
  trace : Bool := false
  dump : Bool := false
  printRegisters : Bool := false
  verbose : Bool := false
  deriving DecidableEq, Repr

inductive Stop where
  | help
  | usage (e : UsageError)
  deriving DecidableEq, Repr

def assignment (s : String) : Except UsageError (Int × Int) :=
  match splitAtEquals s with
  | (_, none) => .error (.noAssignment s)
  | (index, some v) =>
    match integer? index, integer? v with
    | some index, some v => .ok (index, v)
    | _, _ => .error (.notIntegers s)

def integerFor (p : Parameter) (s : String) : Except UsageError Int :=
  match integer? s with
  | some v => .ok v
  | none => .error (.notAnInteger p s)

/-- Reads a value, unless it is to be dropped. -/
def Setting.read {α : Type} (f : String → Except UsageError α) (s : String) :
    Except UsageError (Setting α) :=
  if s = "--" then .ok .dropped else (f s).map .value

def Flag.ofLetter? (c : Char) : Option Flag :=
  match Switch.ofSpelling? (String.ofList ['-', c]) with
  | some (.flag f) => some f
  | _ => none

/-- The flags of letters that are written together after a first one. A letter that is no flag is
taken for an unwanted value of the flag before it, together with all letters after it. -/
def Flag.chain (f : Flag) : List Char → Except UsageError (List Flag)
  | [] => .ok [f]
  | c :: more =>
    match Flag.ofLetter? c with
    | none => .error (.unwantedValue f (String.ofList (c :: more)))
    | some g => (g.chain more).map (f :: ·)

def Flag.expand (f : Flag) (spelling : String) : Option String → Except UsageError (List Flag)
  | none => .ok [f]
  | some value =>
    if value = "" ∨ spelling.startsWith "--" then .error (.unwantedValue f value)
    else f.chain value.toList

namespace Settings

def apply (s : Settings) : Flag → Except Stop Settings
  | .help => .error .help
  | .strict => .ok { s with strict := true }
  | .trace => .ok { s with trace := true }
  | .dump => .ok { s with dump := true }
  | .printRegisters => .ok { s with printRegisters := true }
  | .verbose => .ok { s with verbose := true }

/-- The effect of an option with a value. The last of several numbers counts; assignments are
collected. -/
def assign (s : Settings) (p : Parameter) (value : String) : Except UsageError Settings :=
  match p with
  | .registers => do
    return { s with registers := ← Setting.read (integerFor p) value }
  | .set => do
    return { s with assignments := s.assignments ++ [← Setting.read assignment value] }
  | .maxSteps => do
    return { s with limit := some (← Setting.read (integerFor p) value) }

end Settings

structure Progress where
  program : Option String := none
  settings : Settings := {}
  surplus : List String := []
  deriving DecidableEq, Repr

namespace Progress

/-- Takes arguments that follow each other, of which the given one is positional: it is the
program, or, if that is known, all of them are surplus. -/
def take (p : Progress) (text : String) (all : List String) : Progress :=
  match p.program with
  | none => { p with program := some text }
  | some _ => { p with surplus := p.surplus ++ all }

def leave (p : Progress) (text : String) : Progress := { p with surplus := p.surplus ++ [text] }

def assign (p : Progress) (parameter : Parameter) (value : String) : Except Stop Progress :=
  match p.settings.assign parameter value with
  | .ok settings => .ok { p with settings }
  | .error e => .error (.usage e)

def raise (p : Progress) (f : Flag) (spelling : String) (value? : Option String) :
    Except Stop Progress := do
  let flags ← (f.expand spelling value?).mapError Stop.usage
  let settings ← flags.foldlM Settings.apply p.settings
  return { p with settings }

/-- Goes through the arguments. The first positional one is the program, and the separator is
dropped when it stands next to it. An option that needs a value takes it from the next argument,
which must be positional. -/
def consume : List Argument → Progress → Except Stop Progress
  | [], p => .ok p
  | .option spelling (.flag f) value? :: more, p => do
    consume more (← p.raise f spelling value?)
  | .option _ (.parameter q) (some value) :: more, p => do
    consume more (← p.assign q value)
  | .option _ (.parameter q) none :: .positional value :: more, p => do
    consume more (← p.assign q value)
  | .option _ (.parameter q) none :: _, _ => .error (.usage (.noValue q))
  | .unknown text :: more, p => consume more (p.leave text)
  | .separator :: .positional text :: more, p => consume more (p.take text ["--", text])
  | .separator :: more, p => consume more (p.leave "--")
  | .positional text :: .separator :: more, p => consume more (p.take text [text, "--"])
  | .positional text :: more, p => consume more (p.take text [text])

end Progress

structure Invocation where
  program : String
  settings : Settings
  deriving DecidableEq, Repr

def Invocation.parse (arguments : List String) : Except Stop Invocation := do
  let classified ← (Argument.classifyAll arguments).mapError Stop.usage
  let p ← Progress.consume classified {}
  match p.program, p.surplus with
  | none, _ => .error (.usage .noProgram)
  | some program, [] => .ok { program, settings := p.settings }
  | some _, surplus => .error (.usage (.surplus surplus))

end CommandLine
end SimpleMachine
