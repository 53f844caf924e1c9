import SimpleMachine.Proofs.Strictness
import SimpleMachine.Proofs.WellFormed
import SimpleMachine.Proofs.Words

/-!
# SimpleMachine.Proofs.Leniency

What lenient reading makes of a text.

* `lenientValue w`: what a word that ought to be an integer counts as. A word that is not overlong is
  never refused, and counts as this (`integerOperand_lenient_eq_ok_iff`).
* `Instruction.integers`: the integers among the operands. Those of an operation that has been read
  are the values of its words (`integers_of_readOperands`).
* `ReadsLeniently line i`: the instruction is the one that lenient reading ought to give for the line.
* `lenient_reading_fails_iff`: a text is read, each of its lines that is not blank into its
  instruction, unless it has an overlong numeral; the first of these is what makes reading fail.
-/

namespace SimpleMachine

open Source

/-- The integers among the operands, from left to right. -/
def Instruction.integers (i : Instruction) : List Int :=
  i.operands.filterMap fun
    | .int v => some v
    | .word _ => none

namespace Source

/-- The value of a word that is an integer; `maxInt` for any other word, and for a missing one. -/
def lenientValue (word : List Char) : Int :=
  if IsInteger word then Numeral.value word else maxInt

/-- The line has a character that is not blank. -/
def hasVisible (line : String) : Bool := line.toList.any fun c => 0x20 < c.toNat

structure ReadsLeniently (line : String) (i : Instruction) : Prop where
  label_eq : i.label = String.ofList (nextWord line.toList).1
  opcode_eq : i.opcode = (Opcode.ofWord? (nextWord (nextWord line.toList).2).1).getD .noop
  shape : HasShape i.opcode i.operands
  integers_eq : i.integers = (lineIntegers line).map lenientValue

/-! ## One word -/

theorem integerOperand_lenient_eq {word : List Char} (h : ¬ Overlong word) :
    integerOperand .lenient word = .ok (lenientValue word) := by
  have hs := integerOperand_strict_eq h
  by_cases hi : IsInteger word
  · rw [if_pos hi] at hs
    rw [lenientValue, if_pos hi]
    exact integerOperand_lenient_of_strict hs
  · rw [if_neg hi] at hs
    rw [lenientValue, if_neg hi]
    -- strict reading refuses the word because it has no value, and this is when lenient reading
    -- falls back on the greatest integer
    cases hr : Numeral.read word with
    | error e => simp [integerOperand, hr] at hs
    | ok v =>
      cases v with
      | some v => simp [integerOperand, hr] at hs
      | none => simp [integerOperand, hr]

theorem integerOperand_lenient_eq_ok_iff {word : List Char} {v : Int} :
    integerOperand .lenient word = .ok v ↔ ¬ Overlong word ∧ v = lenientValue word := by
  by_cases ho : Overlong word
  · obtain ⟨e, he⟩ : ∃ e, integerOperand .lenient word = .error (.tooLong e) :=
      integerOperand_eq_tooLong_iff.2 ho
    simp [he, ho]
  · simp [integerOperand_lenient_eq ho, ho, eq_comm]

theorem integerOperand_lenient_eq_error_iff {word : List Char} {e : OperandError} :
    integerOperand .lenient word = .error e ↔
      Overlong word ∧ e = .tooLong ⟨(Numeral.unsigned word).2.length⟩ := by
  by_cases ho : Overlong word
  · have hr : Numeral.read word = .error ⟨(Numeral.unsigned word).2.length⟩ :=
      Numeral.read_eq_error_iff.2 ⟨ho.1, ho.2, rfl⟩
    simp [integerOperand, hr, ho, eq_comm]
  · simp [integerOperand_lenient_eq ho, ho]

theorem refuses_lenient_iff {word : List Char} : refuses .lenient word = true ↔ Overlong word := by
  simp only [refuses_eq_true_iff, integerOperand_lenient_eq_error_iff, exists_and_left, exists_eq,
    and_true]

/-- The first refused word of a text that is read leniently is its first overlong one. -/
theorem firstRefused_lenient (lines : List String) :
    firstRefused .lenient lines = (lines.flatMap lineIntegers).find? fun w => Overlong w := by
  have heq : refuses .lenient = fun w => decide (Overlong w) := by
    funext w
    rw [Bool.eq_iff_iff, decide_eq_true_eq]
    exact refuses_lenient_iff
  rw [firstRefused, heq]

/-! ## One line -/

/-- The integers of the operands that are read are the values of the words that are wanted. -/
theorem integers_of_readOperands {kinds : List OperandKind} {line : List Char}
    {operands : List Operand} (h : (readOperands .lenient kinds line).1 = .ok operands)
    (label : String) (op : Opcode) :
    (⟨label, op, operands⟩ : Instruction).integers = (integerWords kinds line).map lenientValue := by
  induction kinds generalizing line operands with
  | nil => cases h; rfl
  | cons kind kinds ih =>
    obtain ⟨operand, rest, ho, hrest, rfl⟩ := readOperands_cons_eq_ok_iff.1 h
    have htail := ih hrest
    cases kind with
    | label =>
      cases ho
      exact htail
    | integer =>
      obtain ⟨v, hv, rfl⟩ := readOperand_integer_eq_ok_iff.1 ho
      obtain ⟨-, rfl⟩ := integerOperand_lenient_eq_ok_iff.1 hv
      exact congrArg (lenientValue (nextWord line).1 :: ·) htail

theorem readsLeniently_of_lineInstruction? {line : String} {i : Instruction}
    (h : lineInstruction? .lenient line = some i) : ReadsLeniently line i := by
  obtain ⟨-, hr⟩ := lineInstruction?_eq_some_iff.1 h
  have hshape := (wellFormed_of_lineInstruction? h).shape
  rcases readStatement_eq_ok_iff.1 hr with ⟨hop, rfl⟩ | ⟨op, operands, hop, hos, rfl⟩
  · refine ⟨rfl, by rw [hop]; rfl, hshape, ?_⟩
    rw [lineIntegers, statementIntegers, hop]
    rfl
  · refine ⟨rfl, by rw [hop]; rfl, hshape, ?_⟩
    rw [integers_of_readOperands hos, lineIntegers, statementIntegers, hop]

theorem hasVisible_iff {line : String} :
    hasVisible line = true ↔ (nextWord line.toList).1 ≠ [] := by
  rw [ne_eq, fst_nextWord_eq_nil_iff, hasVisible, List.any_eq_true]
  simp [Text.isBlank]

/-- A line has an instruction if it is not blank and none of its words is overlong. -/
theorem lineInstruction?_lenient {line : String} (h : ∀ w ∈ lineIntegers line, ¬ Overlong w) :
    if hasVisible line then ∃ i, lineInstruction? .lenient line = some i
    else lineInstruction? .lenient line = none := by
  by_cases hv : hasVisible line = true
  · rw [if_pos hv]
    have hnone : (lineIntegers line).find? (refuses .lenient) = none := by
      rw [List.find?_eq_none]
      intro w hw hr
      exact h w hw (refuses_lenient_iff.1 hr)
    obtain ⟨i, hi⟩ := exists_ok_readStatement_iff.2 hnone
    exact ⟨i, lineInstruction?_eq_some_iff.2 ⟨hasVisible_iff.1 hv, hi⟩⟩
  · rw [if_neg hv, lineInstruction?, if_pos]
    exact Classical.not_not.1 (mt hasVisible_iff.2 hv)

/-! ## All lines -/

theorem forall₂_readsLeniently {lines : List String}
    (h : ∀ line ∈ lines, ∀ w ∈ lineIntegers line, ¬ Overlong w) :
    List.Forall₂ ReadsLeniently (lines.filter hasVisible)
      (lines.filterMap (lineInstruction? .lenient)) := by
  induction lines with
  | nil => exact .nil
  | cons line lines ih =>
    have hline := lineInstruction?_lenient (h line List.mem_cons_self)
    have hlines := ih fun x hx => h x (List.mem_cons_of_mem line hx)
    by_cases hv : hasVisible line = true
    · rw [if_pos hv] at hline
      obtain ⟨i, hi⟩ := hline
      rw [List.filter_cons_of_pos hv, List.filterMap_cons_some hi]
      exact .cons (readsLeniently_of_lineInstruction? hi) hlines
    · rw [if_neg hv] at hline
      rw [List.filter_cons_of_neg hv, List.filterMap_cons_none hline]
      exact hlines

theorem firstRefused_lenient_eq_none_iff {lines : List String} :
    firstRefused .lenient lines = none ↔
      ∀ line ∈ lines, ∀ w ∈ lineIntegers line, ¬ Overlong w := by
  rw [firstRefused_lenient, List.find?_eq_none]
  simp only [List.mem_flatMap, decide_eq_true_eq, forall_exists_index, and_imp]
  constructor
  · intro h line hline w hw
    exact h w line hline hw
  · intro h w line hline hw
    exact h line hline w hw

theorem ofLines_lenient_eq_error_iff {lines : List String} {e : SourceError} :
    (Listing.ofLines .lenient lines).1 = .error e ↔
      ∃ w, ((lines.flatMap lineIntegers).find? fun w => Overlong w) = some w ∧
        e = .tooLong ⟨(Numeral.unsigned w).2.length⟩ := by
  rw [← firstRefused_lenient]
  have key : ∀ {e₁}, (Listing.ofLines .lenient lines).1 = .error e₁ →
      ∃ w, firstRefused .lenient lines = some w ∧
        e₁ = .tooLong ⟨(Numeral.unsigned w).2.length⟩ := by
    intro e₁ h
    obtain ⟨w, e', op, n, s, hw, he, rfl⟩ := firstRefused_of_error h
    obtain ⟨-, rfl⟩ := integerOperand_lenient_eq_error_iff.1 he
    exact ⟨w, hw, rfl⟩
  constructor
  · exact key
  · rintro ⟨w, hw, rfl⟩
    obtain ⟨e₁, he₁⟩ := exists_error_extend_iff.2 ⟨w, hw⟩
    obtain ⟨w', hw', rfl⟩ := key he₁
    rw [hw] at hw'; cases hw'
    exact he₁

/-- Lenient reading fails exactly when a word that ought to be an integer is an overlong numeral, and
for the length of the first such word. Otherwise it gives one instruction for each line that is not
blank, and every integer of it is the value of its word, or `maxInt` if the word has none. -/
theorem lenient_reading_fails_iff (lines : List String) :
    ((Listing.ofLines .lenient lines).1 = .ok () ↔
      ∀ line ∈ lines, ∀ w ∈ lineIntegers line, ¬ Overlong w) ∧
    (∀ l, Listing.ofLines .lenient lines = (.ok (), l) →
      List.Forall₂ ReadsLeniently (lines.filter hasVisible) l.program.toList) ∧
    ∀ e, (Listing.ofLines .lenient lines).1 = .error e ↔
      ∃ w, ((lines.flatMap lineIntegers).find? fun w => Overlong w) = some w ∧
        e = .tooLong ⟨(Numeral.unsigned w).2.length⟩ := by
  refine ⟨?_, fun l h => ?_, fun e => ofLines_lenient_eq_error_iff⟩
  · rw [← firstRefused_lenient_eq_none_iff]
    constructor
    · exact firstRefused_of_ok
    · intro hnone
      rw [ofLines_eq_ok_iff.2 ⟨hnone, rfl⟩]
  · obtain ⟨hnone, rfl⟩ := ofLines_eq_ok_iff.1 h
    exact forall₂_readsLeniently (firstRefused_lenient_eq_none_iff.1 hnone)

/-- A number out of range, a word that is no number, missing words, and a line of blanks. -/
theorem lenient_reading_fails_iff_words :
    let lines : List String := ["a lin -0 2147483648", "\x1f\t ", "b out x", "c add +7"]
    (∀ line ∈ lines, ∀ w ∈ lineIntegers line, ¬ Overlong w) ∧
      ∃ l, Listing.ofLines .lenient lines = (.ok (), l) ∧
        l.program.toList.map Instruction.integers =
          [[0, maxInt], [maxInt], [7, maxInt, maxInt]] := by
  intro lines
  have hshort : ∀ line ∈ lines, ∀ w ∈ lineIntegers line, ¬ Overlong w := by decide
  obtain ⟨hok, hread, -⟩ := lenient_reading_fails_iff lines
  have hl : Listing.ofLines .lenient lines = (.ok (), (Listing.ofLines .lenient lines).2) :=
    Prod.ext (hok.2 hshort) rfl
  refine ⟨hshort, _, hl, ?_⟩
  have hf := hread _ hl
  rw [show lines.filter hasVisible = ["a lin -0 2147483648", "b out x", "c add +7"] by decide] at hf
  simp only [List.forall₂_cons_left_iff, List.forall₂_nil_left_iff] at hf
  obtain ⟨i, _, hi, ⟨j, _, hj, ⟨k, _, hk, rfl, rfl⟩, rfl⟩, hp⟩ := hf
  rw [hp, List.map_cons, List.map_cons, List.map_cons, List.map_nil, hi.integers_eq, hj.integers_eq,
    hk.integers_eq]
  decide

/-! ## An overlong numeral -/

theorem ofLines_longLine {n : Nat} (hn : Numeral.maxDigits < n) :
    (Listing.ofLines .lenient [Machine.longLine n]).1 = .error (.tooLong ⟨n⟩) := by
  obtain ⟨-, hw⟩ := Machine.firstRefused_longLine .lenient hn
  rw [firstRefused_lenient] at hw
  refine ofLines_lenient_eq_error_iff.2 ⟨_, hw, ?_⟩
  have hdigits : ∀ c ∈ List.replicate n '1', c.isDigit = true := by
    intro c hc
    rw [(List.mem_replicate.1 hc).2]
    rfl
  rw [Numeral.unsigned_of_isDigit hdigits, List.length_replicate]

/-- A numeral of 4301 digits makes lenient reading fail. -/
theorem overlong_numeral_stops_lenient_reading :
    (Listing.ofLines .lenient [Machine.longLine 4301]).1 = .error (.tooLong ⟨4301⟩) :=
  ofLines_longLine (by decide)

end Source
end SimpleMachine
