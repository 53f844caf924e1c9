import SimpleMachine.Source.Listing

/-!
# SimpleMachine.Proofs.Operands

The words of a text that are read as integers, and the first of them that is refused.

* `lineIntegers line`: the words of a line that its operation takes as integers, in order; a missing
  word is empty, and a blank line or a remark has none.
* `firstRefused mode lines`: the first of these words in the whole text that is no operand.
* `firstRefused_of_error`, `firstRefused_of_ok`: reading a text fails exactly at that word.
* `extend_eq_error`: a listing that is cut short holds the lines before the one at fault, and the
  label of that line.
-/

namespace SimpleMachine

def FitsRegister (v : Int) : Prop := minInt ≤ v ∧ v ≤ maxInt

instance (v : Int) : Decidable (FitsRegister v) := inferInstanceAs (Decidable (_ ∧ _))

namespace Source

def integerWords : List OperandKind → List Char → List (List Char)
  | [], _ => []
  | .label :: kinds, line => integerWords kinds (nextWord line).2
  | .integer :: kinds, line => (nextWord line).1 :: integerWords kinds (nextWord line).2

def statementIntegers (statement : List Char) : List (List Char) :=
  match Opcode.ofWord? (nextWord statement).1 with
  | none => []
  | some op => integerWords op.operandKinds (nextWord statement).2

def lineIntegers (line : String) : List (List Char) :=
  statementIntegers (nextWord line.toList).2

def refuses (mode : Mode) (word : List Char) : Bool :=
  match integerOperand mode word with
  | .ok _ => false
  | .error _ => true

def firstRefused (mode : Mode) (lines : List String) : Option (List Char) :=
  (lines.flatMap lineIntegers).find? (refuses mode)

/-- A numeral with more digits than are converted. -/
def Overlong (word : List Char) : Prop :=
  Numeral.isNumeral word = true ∧ Numeral.maxDigits < (Numeral.unsigned word).2.length

instance (word : List Char) : Decidable (Overlong word) := inferInstanceAs (Decidable (_ ∧ _))

theorem refuses_eq_true_iff {mode : Mode} {word : List Char} :
    refuses mode word = true ↔ ∃ e, integerOperand mode word = .error e := by
  unfold refuses
  cases integerOperand mode word <;> simp

/-- An overlong numeral is refused for its length, in both modes; no other word is. -/
theorem integerOperand_eq_tooLong_iff {mode : Mode} {word : List Char} :
    (∃ e, integerOperand mode word = .error (.tooLong e)) ↔ Overlong word := by
  have key : (∃ e, Numeral.read word = .error e) ↔ Overlong word := by
    simp only [Numeral.read_eq_error_iff, Overlong]
    constructor
    · rintro ⟨e, hn, hd, -⟩; exact ⟨hn, hd⟩
    · rintro ⟨hn, hd⟩; exact ⟨_, hn, hd, rfl⟩
  rw [← key]
  unfold integerOperand
  cases Numeral.read word with
  | error e => simp
  | ok v => cases v <;> cases mode <;> simp

/-! ## One statement -/

theorem map_eq_error_iff {ε α β : Type} {x : Except ε α} {f : α → β} {e : ε} :
    x.map f = .error e ↔ x = .error e := by
  cases x <;> simp [Except.map]

theorem readOperand_integer_eq_ok_iff {mode : Mode} {line : List Char} {operand : Operand} :
    (readOperand mode .integer line).1 = .ok operand ↔
      ∃ v, integerOperand mode (nextWord line).1 = .ok v ∧ operand = .int v := by
  simp only [readOperand]
  cases integerOperand mode (nextWord line).1 <;> simp [Except.map, eq_comm]

theorem readOperands_cons_eq_ok_iff {mode : Mode} {kind : OperandKind} {kinds : List OperandKind}
    {line : List Char} {operands : List Operand} :
    (readOperands mode (kind :: kinds) line).1 = .ok operands ↔
      ∃ operand rest, (readOperand mode kind line).1 = .ok operand ∧
        (readOperands mode kinds (nextWord line).2).1 = .ok rest ∧ operands = operand :: rest := by
  have hrest : (readOperand mode kind line).2 = (nextWord line).2 := by cases kind <;> rfl
  cases ho : readOperand mode kind line with
  | mk first rest =>
    rw [ho] at hrest
    subst hrest
    cases first with
    | error e => simp [readOperands, ho]
    | ok operand =>
      cases hos : (readOperands mode kinds (nextWord line).2).1 with
      | error e => simp [readOperands, ho, hos, Except.map]
      | ok others => simp [readOperands, ho, hos, Except.map, eq_comm]

/-- Operands are read up to the first refused word. -/
theorem readOperands_eq_error_iff {mode : Mode} {kinds : List OperandKind} {line : List Char}
    {e : OperandError} :
    (readOperands mode kinds line).1 = .error e ↔
      ∃ w, (integerWords kinds line).find? (refuses mode) = some w ∧
        integerOperand mode w = .error e := by
  induction kinds generalizing line with
  | nil => simp [readOperands, integerWords]
  | cons kind kinds ih =>
    cases kind with
    | label => simp only [readOperands, readOperand, integerWords, map_eq_error_iff, ih]
    | integer =>
      cases hw : integerOperand mode (nextWord line).1 with
      | error e' =>
        have hr : refuses mode (nextWord line).1 = true := refuses_eq_true_iff.2 ⟨e', hw⟩
        simp only [readOperands, readOperand, integerWords, hw, Except.map,
          List.find?_cons_of_pos hr, Option.some.injEq, exists_eq_left', Except.error.injEq]
      | ok v =>
        have hr : ¬ refuses mode (nextWord line).1 = true := by simp [refuses, hw]
        simp only [readOperands, readOperand, integerWords, hw, Except.map,
          List.find?_cons_of_neg hr, ← ih]
        cases (readOperands mode kinds (nextWord line).2).1 <;> simp

theorem readStatement_eq_error_iff {mode : Mode} {label : String} {number : Int}
    {statement : List Char} {e : SourceError} :
    (readStatement mode label number statement).1 = .error e ↔
      ∃ op w e', Opcode.ofWord? (nextWord statement).1 = some op ∧
        (statementIntegers statement).find? (refuses mode) = some w ∧
        integerOperand mode w = .error e' ∧ e = e'.at op number (String.ofList statement) := by
  cases hop : Opcode.ofWord? (nextWord statement).1 with
  | none => simp [readStatement, hop]
  | some op =>
    simp only [statementIntegers, hop]
    cases hr : (readOperands mode op.operandKinds (nextWord statement).2).1 with
    | ok operands =>
      simp only [readStatement, hop, hr, reduceCtorEq, false_iff]
      rintro ⟨_, w, e', -, hw, he, -⟩
      rw [readOperands_eq_error_iff.2 ⟨w, hw, he⟩] at hr
      cases hr
    | error e₀ =>
      obtain ⟨w, hw, he⟩ := readOperands_eq_error_iff.1 hr
      simp only [readStatement, hop, hr, Except.error.injEq, hw, Option.some.injEq]
      constructor
      · rintro rfl; exact ⟨op, w, e₀, rfl, rfl, he, rfl⟩
      · rintro ⟨_, _, e', rfl, rfl, he', rfl⟩
        rw [he] at he'; cases he'
        rfl

/-- The line number plays no part in a statement that can be read. -/
theorem readStatement_eq_ok_iff {mode : Mode} {label : String} {number : Int}
    {statement : List Char} {i : Instruction} :
    (readStatement mode label number statement).1 = .ok i ↔
      Opcode.ofWord? (nextWord statement).1 = none ∧
          i = .remark label (String.ofList statement) ∨
        ∃ op operands, Opcode.ofWord? (nextWord statement).1 = some op ∧
          (readOperands mode op.operandKinds (nextWord statement).2).1 = .ok operands ∧
          i = ⟨label, op, operands⟩ := by
  cases hop : Opcode.ofWord? (nextWord statement).1 with
  | none => simp [readStatement, hop, eq_comm]
  | some op =>
    cases hr : (readOperands mode op.operandKinds (nextWord statement).2).1 with
    | ok operands => simp [readStatement, hop, hr, eq_comm]
    | error e => simp [readStatement, hop, hr]

/-- A statement is read when none of its integer words is refused. -/
theorem exists_ok_readStatement_iff {mode : Mode} {label : String} {number : Int}
    {statement : List Char} :
    (∃ i, (readStatement mode label number statement).1 = .ok i) ↔
      (statementIntegers statement).find? (refuses mode) = none := by
  cases hr : (readStatement mode label number statement).1 with
  | error e =>
    obtain ⟨_, w, _, _, hw, _, _⟩ := readStatement_eq_error_iff.1 hr
    simp [hw]
  | ok i =>
    simp only [Except.ok.injEq, exists_eq', true_iff]
    cases hw : (statementIntegers statement).find? (refuses mode) with
    | none => rfl
    | some w =>
      obtain ⟨e', he⟩ := refuses_eq_true_iff.1 (List.find?_some hw)
      cases hop : Opcode.ofWord? (nextWord statement).1 with
      | none => simp [statementIntegers, hop] at hw
      | some op =>
        rw [readStatement_eq_error_iff.2 ⟨op, w, e', hop, hw, he, rfl⟩] at hr
        cases hr

/-! ## All lines -/

theorem lineIntegers_of_blank {line : String} (h : (nextWord line.toList).1 = []) :
    lineIntegers line = [] := by
  rw [lineIntegers, snd_nextWord_of_fst_eq_nil h]
  rfl

theorem firstRefused_cons (mode : Mode) (line : String) (lines : List String) :
    firstRefused mode (line :: lines) =
      ((lineIntegers line).find? (refuses mode)).or (firstRefused mode lines) := by
  simp [firstRefused]

theorem firstRefused_append (mode : Mode) (before after : List String) :
    firstRefused mode (before ++ after) =
      (firstRefused mode before).or (firstRefused mode after) := by
  simp [firstRefused]

open Listing

theorem firstRefused_of_ok {mode : Mode} {number : Nat} {l : Listing} {lines : List String}
    (h : (extend mode number l lines).1 = .ok ()) : firstRefused mode lines = none := by
  induction lines generalizing number l with
  | nil => rfl
  | cons line lines ih =>
    rw [firstRefused_cons]
    by_cases hb : (nextWord line.toList).1 = []
    · rw [extend_cons_of_blank hb] at h
      simpa [lineIntegers_of_blank hb] using ih h
    · rw [extend_cons_of_label hb] at h
      cases hr : (readStatement mode (String.ofList (nextWord line.toList).1) number
          (nextWord line.toList).2).1 with
      | error e₁ => rw [hr] at h; cases h
      | ok i =>
        rw [hr] at h
        have hn := exists_ok_readStatement_iff.1 ⟨i, hr⟩
        simpa [lineIntegers, hn] using ih h

/-- A listing cut short holds the lines before the one at fault and the label of that line. -/
theorem extend_eq_error {mode : Mode} {number : Nat} {l l' : Listing} {lines : List String}
    {e : SourceError} (h : extend mode number l lines = (.error e, l')) :
    ∃ before line after l₁, lines = before ++ line :: after ∧
      extend mode number l before = (.ok (), l₁) ∧ (nextWord line.toList).1 ≠ [] ∧
      (readStatement mode (String.ofList (nextWord line.toList).1)
        ((number + before.length : Nat) : Int) (nextWord line.toList).2).1 = .error e ∧
      l' = l₁.mark (String.ofList (nextWord line.toList).1) := by
  induction lines generalizing number l with
  | nil => cases h
  | cons line lines ih =>
    have hcount : ∀ before : List String,
        number + (line :: before).length = number + 1 + before.length := by
      intro before
      rw [List.length_cons]; omega
    by_cases hb : (nextWord line.toList).1 = []
    · rw [extend_cons_of_blank hb] at h
      obtain ⟨before, bad, after, l₁, rfl, hl₁, hne, hr, rfl⟩ := ih h
      refine ⟨line :: before, bad, after, l₁, rfl, ?_, hne, ?_, rfl⟩
      · rw [extend_cons_of_blank hb, hl₁]
      · rw [hcount]; exact hr
    · rw [extend_cons_of_label hb] at h
      cases hr : (readStatement mode (String.ofList (nextWord line.toList).1) number
          (nextWord line.toList).2).1 with
      | error e₁ =>
        rw [hr] at h; cases h
        exact ⟨[], line, lines, l, rfl, rfl, hb, by simpa using hr, rfl⟩
      | ok i =>
        rw [hr] at h
        obtain ⟨before, bad, after, l₁, rfl, hl₁, hne, hr', rfl⟩ := ih h
        refine ⟨line :: before, bad, after, l₁, rfl, ?_, hne, ?_, rfl⟩
        · rw [extend_cons_of_label hb, hr]; exact hl₁
        · rw [hcount]; exact hr'

/-- Reading fails at the first refused word, for the reason for which it is refused. -/
theorem firstRefused_of_error {mode : Mode} {number : Nat} {l : Listing} {lines : List String}
    {e : SourceError} (h : (extend mode number l lines).1 = .error e) :
    ∃ w e' op n s, firstRefused mode lines = some w ∧ integerOperand mode w = .error e' ∧
      e = OperandError.at op n s e' := by
  obtain ⟨before, line, after, l₁, rfl, hl₁, -, hr, -⟩ := extend_eq_error (Prod.ext h rfl)
  obtain ⟨op, w, e', -, hw, he, rfl⟩ := readStatement_eq_error_iff.1 hr
  have hline : (lineIntegers line).find? (refuses mode) = some w := hw
  refine ⟨w, e', op, _, _, ?_, he, rfl⟩
  rw [firstRefused_append, firstRefused_of_ok (congrArg Prod.fst hl₁), firstRefused_cons, hline]
  rfl

/-- Reading fails if and only if a word is refused. -/
theorem exists_error_extend_iff {mode : Mode} {number : Nat} {l : Listing} {lines : List String} :
    (∃ e, (extend mode number l lines).1 = .error e) ↔ ∃ w, firstRefused mode lines = some w := by
  constructor
  · rintro ⟨e, h⟩
    obtain ⟨w, _, _, _, _, hw, -⟩ := firstRefused_of_error h
    exact ⟨w, hw⟩
  · rintro ⟨w, hw⟩
    cases h : (extend mode number l lines).1 with
    | error e => exact ⟨e, rfl⟩
    | ok u => rw [firstRefused_of_ok h] at hw; cases hw

end Source
end SimpleMachine
