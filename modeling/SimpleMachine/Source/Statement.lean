import SimpleMachine.Instruction
import SimpleMachine.Source.Word
import SimpleMachine.Text.Quoted

/-!
# SimpleMachine.Source.Statement

The statement of a source line: what follows the label.

- `Mode`: whether a malformed integer operand is an error or counts as `maxInt`.
- `readOperands`: operands of given kinds, from left to right.
- `readStatement`: the instruction of a labelled line, together with what is left of the line. A
  line whose first word is no operation is a remark.
- `AssemblyError`: why a text cannot be made into a program, and where.
-/

namespace SimpleMachine
namespace Source

/-- How malformed integer operands are treated. -/
inductive Mode where
  /-- They count as `maxInt`. -/
  | lenient
  | strict
  deriving DecidableEq, Repr, Inhabited

inductive OperandError where
  /-- The word, empty if the line has ended, is no integer of the machine's range. -/
  | notAnInteger (word : String)
  | tooLong (e : Numeral.TooLong)
  deriving DecidableEq, Repr

inductive AssemblyError where
  /-- An operand of an operation is no integer; with the number of the line and what follows its
  label. -/
  | malformedOperand (opcode : Opcode) (word : String) (lineNumber : Int) (line : String)
  | unreadableFile (path : String)
  deriving DecidableEq, Repr

namespace AssemblyError

def located (lineNumber : Option Int) (message : String) : String :=
  match lineNumber with
  | none => message
  | some n => "line " ++ Numeral.text n ++ ": " ++ message

def lineNumber? : AssemblyError → Option Int
  | .malformedOperand _ _ n _ => some n
  | .unreadableFile _ => none

def line? : AssemblyError → Option String
  | .malformedOperand _ _ _ line => some line
  | .unreadableFile _ => none

def cause : AssemblyError → String
  | .malformedOperand op word _ _ =>
    "expected an integer operand for '" ++ op.name ++ "', got " ++
      Text.quoted (if word = "" then "nothing" else word)
  | .unreadableFile path => "cannot read program file " ++ path

def message (e : AssemblyError) : String := located e.lineNumber? e.cause

end AssemblyError

inductive SourceError where
  | assembly (e : AssemblyError)
  /-- A numeral has too many digits; this is an error in both modes. -/
  | tooLong (e : Numeral.TooLong)
  deriving DecidableEq, Repr

def OperandError.at (op : Opcode) (lineNumber : Int) (line : String) : OperandError → SourceError
  | .notAnInteger word => .assembly (.malformedOperand op word lineNumber line)
  | .tooLong e => .tooLong e

def integerOperand (mode : Mode) (word : List Char) : Except OperandError Int :=
  match Numeral.read word, mode with
  | .error e, _ => .error (.tooLong e)
  | .ok (some v), _ => .ok v
  | .ok none, .lenient => .ok maxInt
  | .ok none, .strict => .error (.notAnInteger (String.ofList word))

/-- The next operand of a line, of the given kind, and what is left of the line. -/
def readOperand (mode : Mode) (kind : OperandKind) (line : List Char) :
    Except OperandError Operand × List Char :=
  let (word, rest) := nextWord line
  match kind with
  | .label => (.ok (.word (String.ofList word)), rest)
  | .integer => ((integerOperand mode word).map Operand.int, rest)

/-- Operands of the given kinds, and what is left of the line after the last one that was read. -/
def readOperands (mode : Mode) :
    List OperandKind → List Char → Except OperandError (List Operand) × List Char
  | [], line => (.ok [], line)
  | kind :: kinds, line =>
    match readOperand mode kind line with
    | (.error e, rest) => (.error e, rest)
    | (.ok operand, rest) =>
      let (operands, last) := readOperands mode kinds rest
      (operands.map (operand :: ·), last)

/-- The instruction that follows a label, and what is left of the line. -/
def readStatement (mode : Mode) (label : String) (lineNumber : Int) (line : List Char) :
    Except SourceError Instruction × List Char :=
  let (word, rest) := nextWord line
  match Opcode.ofWord? word with
  | none => (.ok (.remark label (String.ofList line)), rest)
  | some op =>
    let (operands, last) := readOperands mode op.operandKinds rest
    match operands with
    | .ok operands => (.ok ⟨label, op, operands⟩, last)
    | .error e => (.error (e.at op lineNumber (String.ofList line)), last)

theorem integerOperand_lenient_of_strict {word : List Char} {v : Int}
    (h : integerOperand .strict word = .ok v) : integerOperand .lenient word = .ok v := by
  unfold integerOperand at h ⊢
  match hr : Numeral.read word, h with
  | .ok (some _), h => simpa [hr] using h

end Source
end SimpleMachine
