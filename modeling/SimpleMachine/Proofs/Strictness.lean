import SimpleMachine.Proofs.Installation

/-!
# SimpleMachine.Proofs.Strictness

How strict reading differs from lenient reading.

* `IsInteger w`: the word is a numeral whose value fits a register. Unless it is overlong, it is
  refused by strict reading exactly when it is not (`refuses_strict_iff`).
* `extend_lenient_of_strict`: lines that can be read strictly are read in the same way leniently.
* `FirstOffence lines before line w`: the word `w` of the line `line`, which follows the lines
  `before`, is the first in the text that ought to be an integer and is none.
* `strict_reading_exact`: strict reading fails at the first offence, if there is one, and says where
  it is; otherwise it does what lenient reading does.
-/

namespace SimpleMachine
namespace Source

/-- The word is there, is a numeral, and its value fits a register. -/
def IsInteger (word : List Char) : Prop :=
  word ≠ [] ∧ Numeral.isNumeral word = true ∧ FitsRegister (Numeral.value word)

structure FirstOffence (lines before : List String) (line : String) (w : List Char) : Prop where
  lines_eq : ∃ after, lines = before ++ line :: after
  before_fine : ∀ x ∈ before, ∀ w' ∈ lineIntegers x, IsInteger w'
  words_eq : ∃ fine rest, lineIntegers line = fine ++ w :: rest ∧ ∀ w' ∈ fine, IsInteger w'
  offends : ¬ IsInteger w

instance (word : List Char) : Decidable (IsInteger word) := inferInstanceAs (Decidable (_ ∧ _))

/-- What strict reading makes of a word that is not overlong. -/
theorem integerOperand_strict_eq {word : List Char} (h : ¬ Overlong word) :
    integerOperand .strict word =
      if IsInteger word then .ok (Numeral.value word)
      else .error (.notAnInteger (String.ofList word)) := by
  by_cases hi : IsInteger word
  · have hn := hi.2.1
    have hd : (Numeral.unsigned word).2.length ≤ Numeral.maxDigits := by
      by_cases hd : Numeral.maxDigits < (Numeral.unsigned word).2.length
      · exact absurd ⟨hn, hd⟩ h
      · omega
    have hr : Numeral.read word = .ok (some (Numeral.value word)) :=
      Numeral.read_eq_some_iff.2 ⟨hn, hd, rfl, hi.2.2⟩
    simp [integerOperand, hr, hi]
  · cases hr : Numeral.read word with
    | error e =>
      have he : ∃ e, integerOperand .strict word = .error (.tooLong e) :=
        ⟨e, by simp [integerOperand, hr]⟩
      exact absurd (integerOperand_eq_tooLong_iff.1 he) h
    | ok v =>
      cases v with
      | none => simp [integerOperand, hr, hi]
      | some v =>
        obtain ⟨hn, -, rfl, hf⟩ := Numeral.read_eq_some_iff.1 hr
        have hne : word ≠ [] := by rintro rfl; cases hn
        exact absurd ⟨hne, hn, hf⟩ hi

theorem refuses_strict_iff {word : List Char} (h : ¬ Overlong word) :
    refuses .strict word = true ↔ ¬ IsInteger word := by
  rw [refuses, integerOperand_strict_eq h]
  by_cases hi : IsInteger word <;> simp [hi]

/-! ## What is read strictly is read leniently -/

theorem readOperands_lenient_of_strict {kinds : List OperandKind} {line : List Char}
    {operands : List Operand} (h : (readOperands .strict kinds line).1 = .ok operands) :
    (readOperands .lenient kinds line).1 = .ok operands := by
  induction kinds generalizing line operands with
  | nil => exact h
  | cons kind kinds ih =>
    obtain ⟨operand, rest, ho, hrest, rfl⟩ := readOperands_cons_eq_ok_iff.1 h
    refine readOperands_cons_eq_ok_iff.2 ⟨operand, rest, ?_, ih hrest, rfl⟩
    cases kind with
    | label => exact ho
    | integer =>
      obtain ⟨v, hv, rfl⟩ := readOperand_integer_eq_ok_iff.1 ho
      exact readOperand_integer_eq_ok_iff.2 ⟨v, integerOperand_lenient_of_strict hv, rfl⟩

theorem readStatement_lenient_of_strict {label : String} {number : Int} {statement : List Char}
    {i : Instruction} (h : (readStatement .strict label number statement).1 = .ok i) :
    (readStatement .lenient label number statement).1 = .ok i := by
  rw [readStatement_eq_ok_iff] at h ⊢
  rcases h with h | ⟨op, operands, hop, hos, rfl⟩
  · exact .inl h
  · exact .inr ⟨op, operands, hop, readOperands_lenient_of_strict hos, rfl⟩

theorem extend_lenient_of_strict {number : Nat} {l l' : Listing} {lines : List String}
    (h : Listing.extend .strict number l lines = (.ok (), l')) :
    Listing.extend .lenient number l lines = (.ok (), l') := by
  induction lines generalizing number l with
  | nil => exact h
  | cons line lines ih =>
    by_cases hb : (nextWord line.toList).1 = []
    · rw [Listing.extend_cons_of_blank hb] at h ⊢
      exact ih h
    · rw [Listing.extend_cons_of_label hb] at h ⊢
      cases hr : (readStatement .strict (String.ofList (nextWord line.toList).1) number
          (nextWord line.toList).2).1 with
      | error e => rw [hr] at h; cases h
      | ok i =>
        rw [hr] at h
        rw [readStatement_lenient_of_strict hr]
        exact ih h

/-! ## Where strict reading fails -/

theorem ofLines_strict_eq_ok_iff {lines : List String}
    (hshort : ∀ line ∈ lines, ∀ w ∈ lineIntegers line, ¬ Overlong w) :
    (Listing.ofLines .strict lines).1 = .ok () ↔
      ∀ line ∈ lines, ∀ w ∈ lineIntegers line, IsInteger w := by
  have hnone : firstRefused .strict lines = none ↔
      ∀ line ∈ lines, ∀ w ∈ lineIntegers line, IsInteger w := by
    simp only [firstRefused, List.find?_eq_none, List.mem_flatMap, forall_exists_index, and_imp]
    constructor
    · intro h line hline w hw
      exact Classical.not_not.1
        (mt (refuses_strict_iff (hshort line hline w hw)).2 (h w line hline hw))
    · intro h w line hline hw hr
      exact (refuses_strict_iff (hshort line hline w hw)).1 hr (h line hline w hw)
  rw [← hnone]
  constructor
  · exact firstRefused_of_ok
  · intro hn
    rw [ofLines_eq_ok_iff.2 ⟨hn, rfl⟩]

theorem firstOffence_of_error {lines : List String} {e : SourceError} {l : Listing}
    (hshort : ∀ line ∈ lines, ∀ w ∈ lineIntegers line, ¬ Overlong w)
    (h : Listing.ofLines .strict lines = (.error e, l)) :
    ∃ before line w op l₀, FirstOffence lines before line w ∧
      (nextWord line.toList).1 ≠ [] ∧
      Opcode.ofWord? (nextWord (nextWord line.toList).2).1 = some op ∧
      e = .assembly (.malformedOperand op (String.ofList w) (before.length + 1)
        (String.ofList (nextWord line.toList).2)) ∧
      Listing.ofLines .lenient before = (.ok (), l₀) ∧
      l = l₀.mark (String.ofList (nextWord line.toList).1) := by
  obtain ⟨before, line, after, l₀, rfl, hl₀, hb, hr, rfl⟩ := extend_eq_error h
  obtain ⟨op, w, e', hop, hw, he, rfl⟩ := readStatement_eq_error_iff.1 hr
  obtain ⟨hrw, fine, rest, hwords, hfine⟩ := List.find?_eq_some_iff_append.1 hw
  have hshort' : ∀ w' ∈ lineIntegers line, ¬ Overlong w' := hshort line (by simp)
  have hwords' : lineIntegers line = fine ++ w :: rest := hwords
  have hwshort : ¬ Overlong w := hshort' w (by simp [hwords'])
  -- the lines before were read, so they have no offence and are read leniently as well
  refine ⟨before, line, w, op, l₀, ⟨⟨after, rfl⟩, ?_, ⟨fine, rest, hwords', ?_⟩, ?_⟩, hb, hop, ?_,
    extend_lenient_of_strict hl₀, rfl⟩
  · refine (ofLines_strict_eq_ok_iff fun x hx => hshort x (by simp [hx])).1 ?_
    exact congrArg Prod.fst hl₀
  · intro w' hw'
    have hnr : ¬ refuses .strict w' = true := by simpa using hfine w' hw'
    exact Classical.not_not.1
      (mt (refuses_strict_iff (hshort' w' (by simp [hwords', hw']))).2 hnr)
  · exact (refuses_strict_iff hwshort).1 hrw
  · rw [integerOperand_strict_eq hwshort, if_neg ((refuses_strict_iff hwshort).1 hrw)] at he
    cases he
    simp [OperandError.at, Int.add_comm]

/-- Strict reading of a text without overlong numerals succeeds if every word that is wanted as an
integer is one, and then does what lenient reading does. Otherwise it names the first line at fault
and the first offending word in it, and leaves what lenient reading makes of the lines before,
together with the label of that line. -/
theorem strict_reading_exact {lines : List String}
    (hshort : ∀ line ∈ lines, ∀ w ∈ lineIntegers line, ¬ Overlong w) :
    ((Listing.ofLines .strict lines).1 = .ok () ↔
      ∀ line ∈ lines, ∀ w ∈ lineIntegers line, IsInteger w) ∧
    ((Listing.ofLines .strict lines).1 = .ok () →
      Listing.ofLines .lenient lines = Listing.ofLines .strict lines) ∧
    ∀ e l, Listing.ofLines .strict lines = (.error e, l) →
      ∃ before line w label statement op a l₀, FirstOffence lines before line w ∧
        nextWord line.toList = (label, statement) ∧ label ≠ [] ∧
        label ++ statement = Text.trim Text.isBlank line.toList ∧
        Opcode.ofWord? (nextWord statement).1 = some op ∧
        e = .assembly a ∧
        a = .malformedOperand op (String.ofList w) (before.length + 1) (String.ofList statement) ∧
        a.message = "line " ++ Numeral.text (before.length + 1) ++ ": " ++ a.cause ∧
        a.cause = "expected an integer operand for '" ++ op.name ++ "', got " ++
          Text.quoted (if w = [] then "nothing" else String.ofList w) ∧
        Listing.ofLines .lenient before = (.ok (), l₀) ∧
        l.program = l₀.program ∧
        l.labels.entries =
          if String.ofList label ∈ l₀.labels.names then l₀.labels.entries
          else l₀.labels.entries ++ [(String.ofList label, (l₀.program.size : Int))] := by
  refine ⟨ofLines_strict_eq_ok_iff hshort, fun h => ?_, fun e l h => ?_⟩
  · have hs : Listing.ofLines .strict lines = (.ok (), (Listing.ofLines .strict lines).2) :=
      Prod.ext h rfl
    exact (extend_lenient_of_strict hs).trans hs.symm
  · obtain ⟨before, line, w, op, l₀, hfirst, hb, hop, rfl, hl₀, rfl⟩ :=
      firstOffence_of_error hshort h
    have hw : (if String.ofList w = "" then "nothing" else String.ofList w) =
        if w = [] then "nothing" else String.ofList w := by
      cases w <;> simp
    refine ⟨before, line, w, (nextWord line.toList).1, (nextWord line.toList).2, op, _, l₀, hfirst,
      rfl, hb, fst_append_snd_nextWord _, hop, rfl, rfl, ?_, ?_, hl₀, rfl, ?_⟩
    · simp only [AssemblyError.message, AssemblyError.located, AssemblyError.lineNumber?]
    · exact congrArg (fun got => "expected an integer operand for '" ++ op.name ++ "', got " ++
        Text.quoted got) hw
    · by_cases hm : String.ofList (nextWord line.toList).1 ∈ l₀.labels.names
      · rw [Listing.mark, LabelTable.add_of_mem hm, if_pos hm]
      · rw [Listing.mark, LabelTable.entries_add_of_notMem hm, if_neg hm]

/-- The third of four lines lacks an operand, and the first has the same label. -/
theorem strict_reading_exact_missing :
    let lines : List String := ["a lin 0 1", "", "a add +0 -0 ", "b out x"]
    let e : SourceError := .assembly (.malformedOperand .add "" 3 " add +0 -0")
    (∀ line ∈ lines, ∀ w ∈ lineIntegers line, ¬ Overlong w) ∧
      ∃ l, Listing.ofLines .strict lines = (.error e, l) ∧ l.labels.entries = [("a", 0)] ∧
        ∃ before line l₀, FirstOffence lines before line [] ∧ before.length = 2 ∧
          Listing.ofLines .lenient before = (.ok (), l₀) ∧ l.program = l₀.program := by
  intro lines e
  have hshort : ∀ line ∈ lines, ∀ w ∈ lineIntegers line, ¬ Overlong w := by decide
  obtain ⟨l, hl, ht⟩ : ∃ l, Listing.ofLines .strict lines = (.error e, l) ∧
      l.labels.entries = [("a", 0)] := ⟨_, by rfl, by rfl⟩
  obtain ⟨-, -, hfail⟩ := strict_reading_exact hshort
  obtain ⟨before, line, w, _, _, _, _, l₀, hfirst, -, -, -, -, he, ha, -, -, hl₀, hp, -⟩ :=
    hfail e l hl
  obtain ⟨-, hw, hn, -⟩ :=
    AssemblyError.malformedOperand.inj ((SourceError.assembly.inj he).trans ha)
  obtain rfl : w = [] := by simpa using hw.symm
  exact ⟨hshort, l, hl, ht, before, line, l₀, hfirst, by omega, hl₀, hp⟩

end Source
end SimpleMachine
