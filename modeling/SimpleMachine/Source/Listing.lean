import SimpleMachine.LabelTable
import SimpleMachine.Source.Statement

/-!
# SimpleMachine.Source.Listing

A listing is a program together with the table of its labels.

- `Listing.extend`: adds the instructions of further lines.
- `Listing.ofLines`: the listing of a list of lines, and the error that cut it short, if any.

A line starts with a label; blank lines hold no instruction but are counted in line numbers. The
label of a line is recorded, with the address of the instruction to come, before its statement is
read, so a listing cut short by an error has the label of the line at fault.
-/

namespace SimpleMachine
namespace Source

structure Listing where
  labels : LabelTable := ∅
  program : Array Instruction := #[]
  deriving DecidableEq, Repr, Inhabited

namespace Listing

def mark (l : Listing) (label : String) : Listing :=
  { l with labels := l.labels.add label l.program.size }

def push (l : Listing) (i : Instruction) : Listing :=
  { l with program := l.program.push i }

/-- Appends the instructions of the lines, the first of which has the given number. -/
def extend (mode : Mode) : Nat → Listing → List String → Except SourceError Unit × Listing
  | _, l, [] => (.ok (), l)
  | number, l, line :: lines =>
    let (word, rest) := nextWord line.toList
    if word = [] then extend mode (number + 1) l lines
    else
      let label := String.ofList word
      match (readStatement mode label number rest).1 with
      | .error e => (.error e, l.mark label)
      | .ok i => extend mode (number + 1) ((l.mark label).push i) lines

def ofLines (mode : Mode) (lines : List String) : Except SourceError Unit × Listing :=
  extend mode 1 {} lines

@[simp]
theorem extend_nil (mode : Mode) (number : Nat) (l : Listing) :
    extend mode number l [] = (.ok (), l) := rfl

theorem extend_cons_of_blank {mode : Mode} {number : Nat} {l : Listing} {line : String}
    {lines : List String} (h : (nextWord line.toList).1 = []) :
    extend mode number l (line :: lines) = extend mode (number + 1) l lines := by
  simp [extend, h]

theorem extend_cons_of_label {mode : Mode} {number : Nat} {l : Listing} {line : String}
    {lines : List String} (h : (nextWord line.toList).1 ≠ []) :
    extend mode number l (line :: lines) =
      match (readStatement mode (String.ofList (nextWord line.toList).1) number
          (nextWord line.toList).2).1 with
      | .error e => (.error e, l.mark (String.ofList (nextWord line.toList).1))
      | .ok i =>
        extend mode (number + 1) ((l.mark (String.ofList (nextWord line.toList).1)).push i)
          lines := by
  cases hr : (readStatement mode (String.ofList (nextWord line.toList).1) number
      (nextWord line.toList).2).1 with
  | error e => simp only [extend, if_neg h, hr]
  | ok i => simp only [extend, if_neg h, hr]

end Listing
end Source
end SimpleMachine
