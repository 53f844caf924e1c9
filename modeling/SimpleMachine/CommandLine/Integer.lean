import SimpleMachine.Numeral
import SimpleMachine.Text.Blank
import SimpleMachine.Text.DecimalDigit

/-!
# SimpleMachine.CommandLine.Integer

Integers as they may be typed on a command line. They are freer than the numerals of a source
text: white space around them, one sign, the decimal digits of any script, and single underscores
between digits.
-/

namespace SimpleMachine
namespace CommandLine

/-- White space around a typed integer. The information separators U+001C to U+001F do not count.
-/
def isPadding (c : Char) : Bool :=
  Text.isSpace c && !(0x1C ≤ c.toNat && c.toNat ≤ 0x1F)

/-- The values of a run of digits, with single underscores between some of them. -/
def digitRun? : List Char → Option (List Nat)
  | [] => none
  | [c] => (Text.digitValue? c).map ([·])
  | c :: '_' :: more => do
    let d ← Text.digitValue? c
    let ds ← digitRun? more
    return d :: ds
  | c :: more => do
    let d ← Text.digitValue? c
    let ds ← digitRun? more
    return d :: ds

def ofDigits (ds : List Nat) : Nat := ds.foldl (fun n d => 10 * n + d) 0

def integer? (s : String) : Option Int := do
  let (negative, run) := Numeral.unsigned (Text.trim isPadding s.toList)
  let ds ← digitRun? run
  if Numeral.maxDigits < ds.length then none
  else return if negative then -(ofDigits ds : Int) else ofDigits ds

end CommandLine
end SimpleMachine
