/-!
# SimpleMachine.CommandLine.Switch

The options of the command line: their spellings, the names by which messages refer to them, and
their lines in the help text. The order of `Switch.spellings` is that of the usage text.
-/

namespace SimpleMachine
namespace CommandLine

inductive Flag where
  | help
  | strict
  | trace
  | dump
  | printRegisters
  | verbose
  deriving DecidableEq, Repr

inductive Parameter where
  | registers
  | set
  | maxSteps
  deriving DecidableEq, Repr

inductive Switch where
  | flag (f : Flag)
  | parameter (p : Parameter)
  deriving DecidableEq, Repr

namespace Switch

def spellings : List (String × Switch) :=
  [("-h", .flag .help), ("--help", .flag .help), ("--registers", .parameter .registers),
    ("--set", .parameter .set), ("--max-steps", .parameter .maxSteps), ("--strict", .flag .strict),
    ("--trace", .flag .trace), ("--dump", .flag .dump),
    ("--print-registers", .flag .printRegisters), ("-v", .flag .verbose),
    ("--verbose", .flag .verbose)]

def ofSpelling? (s : String) : Option Switch := spellings.lookup s

def name (s : Switch) : String :=
  "/".intercalate ((spellings.filter fun e => e.2 == s).map Prod.fst)

end Switch

def usageLines : List String :=
  ["usage: sml [-h] [--registers N] [--set IDX=VALUE] [--max-steps N] [--strict]",
    "           [--trace] [--dump] [--print-registers] [-v]",
    "           program"]

def positionalHelp : List (String × String) := [("program", "Path to the SML program")]

def optionHelp : List (String × String) :=
  [("-h, --help", "show this help message and exit"),
    ("--registers N", "Number of registers (default 32)"),
    ("--set IDX=VALUE", "Initial register value, may be repeated"),
    ("--max-steps N", "Abort after N executed instructions"),
    ("--strict", "Reject malformed integer operands"),
    ("--trace", "Print every instruction before it runs"),
    ("--dump", "Print the translated program before running"),
    ("--print-registers", "Print the registers after running"),
    ("-v, --verbose", "Enable debug logging")]

/-- An entry of the help text: two blanks, the argument in a column of 19 characters, and what it
is for. -/
def helpLine (entry : String × String) : String :=
  "  " ++ entry.1 ++ String.ofList (List.replicate (19 - entry.1.length) ' ') ++ entry.2

def helpLines : List String :=
  usageLines ++ ["", "Run Simple Machine Language programs", "", "positional arguments:"] ++
    positionalHelp.map helpLine ++ ["", "options:"] ++ optionHelp.map helpLine

end CommandLine
end SimpleMachine
