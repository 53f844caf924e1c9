import SimpleMachine.Numeral
import SimpleMachine.Text.Blank

/-!
# SimpleMachine.Instruction

The instructions of the machine and the form in which they are shown.

- `Opcode`: the eight operations, by their lower-case names.
- `Operand`: an integer or a word. A program that is read from a text has operands of the kinds
  its opcode asks for (`Opcode.operandKinds`); one that is built by hand may have any integers and
  words. No other values are operands here.
- `Instruction`: a label, an opcode and operands.
- `ShowError`: why there is no form to show.
- `Instruction.shown`: `label: opcode operands`, without blanks at the right end.
-/

namespace SimpleMachine

inductive Opcode where
  | add
  | sub
  | mul
  | div
  | lin
  | out
  | bnz
  /-- Do nothing; stands for a line that holds no other instruction. -/
  | noop
  deriving DecidableEq, Repr, Inhabited

inductive OperandKind where
  | integer
  | label
  deriving DecidableEq, Repr

namespace Opcode

def name : Opcode → String
  | .add => "add"
  | .sub => "sub"
  | .mul => "mul"
  | .div => "div"
  | .lin => "lin"
  | .out => "out"
  | .bnz => "bnz"
  | .noop => "noop"

def ofName? : String → Option Opcode
  | "add" => some .add
  | "sub" => some .sub
  | "mul" => some .mul
  | "div" => some .div
  | "lin" => some .lin
  | "out" => some .out
  | "bnz" => some .bnz
  | "noop" => some .noop
  | _ => none

/-- The operation that a word of a source line calls for. Doing nothing cannot be called for by
name. -/
def ofWord? (word : List Char) : Option Opcode :=
  (ofName? (String.ofList word)).filter (· ≠ .noop)

def operandKinds : Opcode → List OperandKind
  | .add | .sub | .mul | .div => [.integer, .integer, .integer]
  | .lin => [.integer, .integer]
  | .out => [.integer]
  | .bnz => [.integer, .label]
  | .noop => []

@[simp]
theorem ofName?_name (op : Opcode) : ofName? op.name = some op := by
  cases op <;> rfl

end Opcode

inductive Operand where
  | int (value : Int)
  | word (text : String)
  deriving DecidableEq, Repr

inductive ShowError where
  /-- The remark of a no-op is an integer and not a text. -/
  | integerRemark
  /-- An integer has more digits than its decimal form may have. -/
  | tooManyDigits
  deriving DecidableEq, Repr

namespace ShowError

def message : ShowError → String
  | .integerRemark => "'int' object has no attribute 'strip'"
  | .tooManyDigits =>
    "Exceeds the limit (" ++ Numeral.text Numeral.maxDigits ++
      " digits) for integer string conversion; use sys.set_int_max_str_digits() to increase the limit"

end ShowError

/-- The decimal form of any integer. -/
def Numeral.shown (v : Int) : Except ShowError String :=
  if Short v then .ok (text v) else .error .tooManyDigits

theorem Numeral.shown_of_short {v : Int} (h : Short v) : shown v = .ok (text v) := if_pos h

theorem Numeral.shown_of_not_short {v : Int} (h : ¬ Short v) : shown v = .error .tooManyDigits :=
  if_neg h

namespace Operand

def shown : Operand → Except ShowError String
  | .int v => Numeral.shown v
  | .word s => .ok s

/-- What is shown of an operand that can be shown. -/
def text : Operand → String
  | .int v => Numeral.text v
  | .word s => s

def Short : Operand → Prop
  | .int v => Numeral.Short v
  | .word _ => True

theorem shown_of_short {o : Operand} (h : o.Short) : o.shown = .ok o.text := by
  cases o with
  | int v => exact Numeral.shown_of_short h
  | word s => rfl

theorem short_of_shown {o : Operand} {text : String} (h : o.shown = .ok text) : o.Short := by
  cases o with
  | int v =>
    by_cases hv : Numeral.Short v
    · exact hv
    · rw [shown, Numeral.shown_of_not_short hv] at h
      cases h
  | word s => trivial

theorem shown_eq_error {o : Operand} {e : ShowError} (h : o.shown = .error e) :
    e = .tooManyDigits := by
  cases o with
  | int v =>
    by_cases hv : Numeral.Short v
    · rw [shown, Numeral.shown_of_short hv] at h
      cases h
    · rw [shown, Numeral.shown_of_not_short hv] at h
      cases h; rfl
  | word s => cases h

theorem mapM_shown_eq_error {operands : List Operand} {e : ShowError}
    (h : operands.mapM shown = .error e) : e = .tooManyDigits := by
  induction operands with
  | nil => cases h
  | cons o operands ih =>
    rw [List.mapM_cons] at h
    cases ho : o.shown with
    | error e' => rw [ho] at h; cases h; exact shown_eq_error ho
    | ok text =>
      rw [ho] at h
      cases hm : operands.mapM shown with
      | error e' => rw [hm] at h; cases h; exact ih hm
      | ok texts => rw [hm] at h; cases h

theorem mapM_shown {operands : List Operand} (h : ∀ o ∈ operands, o.Short) :
    operands.mapM shown = .ok (operands.map text) := by
  induction operands with
  | nil => rfl
  | cons o operands ih =>
    rw [List.mapM_cons, shown_of_short (h o List.mem_cons_self),
      ih fun o' ho' => h o' (List.mem_cons_of_mem o ho')]
    rfl

end Operand

structure Instruction where
  /-- The name by which branches refer to it; may be empty. -/
  label : String
  opcode : Opcode
  /-- The operands, of any number and kinds. -/
  operands : List Operand := []
  deriving DecidableEq, Repr

namespace Instruction

/-- The no-op that stands for a line with the given label and remark. The remark is kept as it is
written. -/
def remark (label : String) (text : String := "") : Instruction :=
  ⟨label, .noop, [.word text]⟩

def shownBody (i : Instruction) : Except ShowError String :=
  match i.opcode, i.operands with
  | .noop, [] => .ok ""
  | .noop, .word text :: _ => .ok (String.ofList (Text.trim Text.isSpace text.toList))
  | .noop, .int _ :: _ => .error .integerRemark
  | op, operands => (operands.mapM Operand.shown).map fun shown =>
    op.name ++ " " ++ " ".intercalate shown

/-- The label, a colon, a space and the body, without white space at the right end. -/
def shown (i : Instruction) : Except ShowError String :=
  i.shownBody.map fun body =>
    String.ofList (Text.trimEnd Text.isSpace (i.label ++ ": " ++ body).toList)

theorem shownBody_of_ne_noop {i : Instruction} (h : i.opcode ≠ .noop) :
    i.shownBody = (i.operands.mapM Operand.shown).map fun shown =>
      i.opcode.name ++ " " ++ " ".intercalate shown := by
  obtain ⟨label, op, operands⟩ := i
  cases op <;> first | rfl | exact absurd rfl h

end Instruction
end SimpleMachine
