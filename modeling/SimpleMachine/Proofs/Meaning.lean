import SimpleMachine.Proofs.Leniency

/-!
# SimpleMachine.Proofs.Meaning

What a line says, without reading it word by word, and that lenient reading makes just that of it.

* `words text`: the words of a text, all at once. `nextWord` takes off the first of them
  (`words_eq`), so a statement is read at its words by their places (`wordAt_zero`, `wordAt_succ`).
* `labelPart line`, `statementPart line`: the line without the blanks at its ends, cut at its first
  gap.
* `meaning line`: the instruction that the line says; nothing of the line is lost if that is a remark
  (`label_append_remark`).
* `lineInstruction?_lenient_eq`: the instruction that is read from a line without overlong numerals
  is the one that it says.
* `lenient_reading_is_meaning`: the program of a text is the list of the meanings of its lines that
  are not blank.
-/

namespace SimpleMachine

open Source

namespace Source

/-! ## Words -/

/-- The pieces of a text between its gaps, without the blanks at their beginning; those that are
then empty are no pieces. -/
def pieces (text : List Char) : List (List Char) :=
  ((text.splitOnP isGap).map fun piece => piece.dropWhile Text.isBlank).filter (· ≠ [])

/-- The words of a text. Blanks at its ends belong to no word. -/
def words (text : List Char) : List (List Char) := pieces (Text.trim Text.isBlank text)

/-- The word at a place, counted from zero; empty if there are not so many. -/
def wordAt (text : List Char) (place : Nat) : List Char := (words text).getD place []

theorem pieces_cons_of_isGap {c : Char} (h : isGap c = true) (text : List Char) :
    pieces (c :: text) = pieces text := by
  rw [pieces, List.splitOnP_cons_eq_if_modifyHead, if_pos h, List.map_cons, List.dropWhile_nil,
    List.filter_cons_of_neg (by simp)]
  rfl

/-- A blank before a text belongs to none of its pieces: it is a gap, or its piece loses it. -/
theorem pieces_cons_of_isBlank {c : Char} (h : Text.isBlank c = true) (text : List Char) :
    pieces (c :: text) = pieces text := by
  by_cases hg : isGap c = true
  · exact pieces_cons_of_isGap hg text
  · obtain ⟨piece, rest, hs⟩ := List.exists_cons_of_ne_nil (List.splitOnP_ne_nil isGap text)
    rw [pieces, pieces, List.splitOnP_cons_eq_if_modifyHead, if_neg hg, hs, List.modifyHead_cons,
      List.map_cons, List.map_cons, List.dropWhile_cons_of_pos h]

theorem pieces_dropWhile (text : List Char) :
    pieces (text.dropWhile Text.isBlank) = pieces text := by
  induction text with
  | nil => rfl
  | cons c text ih =>
    by_cases hc : Text.isBlank c = true
    · rw [List.dropWhile_cons_of_pos hc, pieces_cons_of_isBlank hc, ih]
    · rw [List.dropWhile_cons_of_neg hc]

/-- What stands before the first gap is the first piece, if it does not begin with a blank. -/
theorem pieces_append {w rest : List Char} (hw : ∀ c ∈ w, isGap c = false)
    (hb : ∀ c ∈ w.head?, Text.isBlank c = false) (hr : ∀ c ∈ rest.head?, isGap c = true) :
    pieces (w ++ rest) = if w = [] then pieces rest else w :: pieces rest := by
  have hdrop : w.dropWhile Text.isBlank = w := by
    cases w with
    | nil => rfl
    | cons c w => exact List.dropWhile_cons_of_neg (by simp [hb c rfl])
  by_cases hne : w = []
  · rw [if_pos hne, hne, List.nil_append]
  rw [if_neg hne]
  cases rest with
  | nil =>
    rw [List.append_nil, pieces, List.splitOnP_eq_singleton hw, List.map_singleton, hdrop,
      List.filter_cons_of_pos (by simpa using hne)]
    rfl
  | cons c rest =>
    have hc : isGap c = true := hr c rfl
    rw [pieces_cons_of_isGap hc, pieces, List.splitOnP_append_cons w rest hc,
      List.splitOnP_eq_singleton hw, List.singleton_append, List.map_cons, hdrop,
      List.filter_cons_of_pos (by simpa using hne)]
    rfl

/-- Blanks at the beginning of a text do not matter to its pieces. -/
theorem words_eq_pieces (text : List Char) :
    words text = pieces (Text.trimEnd Text.isBlank text) := by
  rw [words, Text.trim_eq_dropWhile_trimEnd, pieces_dropWhile]

/-- What follows a word still ends where the line ended, so that no blank is trimmed there again. -/
theorem words_snd_nextWord (line : List Char) :
    words (nextWord line).2 = pieces (nextWord line).2 := by
  rw [words_eq_pieces, trimEnd_snd_nextWord]

/-- Reading takes off the first word and leaves the others. -/
theorem words_eq (line : List Char) :
    words line =
      if (nextWord line).1 = [] then [] else (nextWord line).1 :: words (nextWord line).2 := by
  have hcut : pieces (Text.trim Text.isBlank line) =
      if (nextWord line).1 = [] then pieces (nextWord line).2
      else (nextWord line).1 :: pieces (nextWord line).2 := by
    rw [← fst_append_snd_nextWord]
    exact pieces_append (fun _ hc => isGap_eq_false_of_mem_nextWord hc)
      (fun _ hc => eq_false_of_mem_head?_nextWord hc) fun _ hc => isGap_of_mem_head?_nextWord hc
  rw [words, hcut, words_snd_nextWord]
  by_cases hw : (nextWord line).1 = []
  · rw [if_pos hw, if_pos hw, snd_nextWord_of_fst_eq_nil hw]
    rfl
  · rw [if_neg hw, if_neg hw]

theorem wordAt_zero (line : List Char) : wordAt line 0 = (nextWord line).1 := by
  rw [wordAt, words_eq]
  split
  · exact Eq.symm ‹_›
  · rfl

theorem wordAt_succ (line : List Char) (place : Nat) :
    wordAt line (place + 1) = wordAt (nextWord line).2 place := by
  rw [wordAt, words_eq]
  split
  · rw [snd_nextWord_of_fst_eq_nil ‹_›]
    rfl
  · rfl

end Source

/-! ## The meaning of a line -/

/-- The operations that a line can call for. -/
def Opcode.operations : List Opcode := [.add, .sub, .mul, .div, .lin, .out, .bnz]

/-- The operand that a word stands for; an empty one is a word that is missing. -/
def OperandKind.value : OperandKind → List Char → Operand
  | .integer, word => .int (lenientValue word)
  | .label, word => .word (String.ofList word)

namespace Source

/-- What stands before the first gap of a line, blanks at its ends apart. -/
def labelPart (line : String) : List Char :=
  (Text.trim Text.isBlank line.toList).takeWhile fun c => !isGap c

def statementPart (line : String) : List Char :=
  (Text.trim Text.isBlank line.toList).dropWhile fun c => !isGap c

/-- The operation that a statement calls for by its first word. -/
def operationOf (statement : List Char) : Option Opcode :=
  Opcode.operations.find? fun op => op.name.toList = wordAt statement 0

/-- What a line says. If the first word after the label names an operation, the words after it are
its operands, as many as it has; if not, all that follows the label is a remark. -/
def meaning (line : String) : Instruction :=
  match operationOf (statementPart line) with
  | some op =>
    { label := String.ofList (labelPart line)
      opcode := op
      operands := op.operandKinds.mapIdx fun place kind =>
        kind.value (wordAt (statementPart line) (place + 1)) }
  | none => .remark (String.ofList (labelPart line)) (String.ofList (statementPart line))

/-- A remark has the whole of its line, blanks at the ends apart. -/
theorem label_append_remark {line : String} (h : (meaning line).opcode = .noop) :
    ∃ text, (meaning line).operands = [.word text] ∧
      (meaning line).label ++ text = String.ofList (Text.trim Text.isBlank line.toList) := by
  cases hop : operationOf (statementPart line) with
  | some op =>
    obtain rfl : op = .noop := by simpa only [meaning, hop] using h
    exact absurd (List.mem_of_find?_eq_some hop) (by decide)
  | none =>
    refine ⟨String.ofList (statementPart line), by simp only [meaning, hop, Instruction.remark], ?_⟩
    have hlabel : (meaning line).label = String.ofList (labelPart line) := by
      simp only [meaning, hop, Instruction.remark]
    rw [hlabel, ← String.ofList_append, labelPart, statementPart, List.takeWhile_append_dropWhile]

/-! ## Reading a line -/

theorem eq_name_of_ofName? {name : String} {op : Opcode} (h : Opcode.ofName? name = some op) :
    name = op.name := by
  unfold Opcode.ofName? at h
  split at h
  case h_9 => cases h
  all_goals
    cases h
    rfl

theorem ofWord?_eq_some_iff {word : List Char} {op : Opcode} :
    Opcode.ofWord? word = some op ↔ op ≠ .noop ∧ op.name.toList = word := by
  have hname : Opcode.ofName? (String.ofList word) = some op ↔ op.name.toList = word := by
    constructor
    · intro h
      rw [← eq_name_of_ofName? h, String.toList_ofList]
    · rintro rfl
      rw [String.ofList_toList, Opcode.ofName?_name]
  rw [Opcode.ofWord?, Option.filter_eq_some_iff, hname, decide_eq_true_eq, and_comm]

/-- A word calls for the operation that it is the name of. -/
theorem ofWord?_eq_find? (word : List Char) :
    Opcode.ofWord? word = Opcode.operations.find? fun op => op.name.toList = word := by
  cases hf : Opcode.operations.find? fun op => op.name.toList = word with
  | some op =>
    have hmem := List.mem_of_find?_eq_some hf
    have hname : op.name.toList = word := by simpa using List.find?_some hf
    refine ofWord?_eq_some_iff.2 ⟨?_, hname⟩
    rintro rfl
    exact absurd hmem (by decide)
  | none =>
    rw [Option.eq_none_iff_forall_ne_some]
    intro op hop
    obtain ⟨hne, hname⟩ := ofWord?_eq_some_iff.1 hop
    have hmem : op ∈ Opcode.operations := by
      cases op with
      | noop => exact absurd rfl hne
      | _ => decide
    exact absurd hname (by simpa using List.find?_eq_none.1 hf op hmem)

/-- Operands that can be read are the values of the words at their places. -/
theorem readOperands_lenient_eq {kinds : List OperandKind} {line : List Char}
    (h : ∀ w ∈ integerWords kinds line, ¬ Overlong w) :
    (readOperands .lenient kinds line).1 =
      .ok (kinds.mapIdx fun place kind => kind.value (wordAt line place)) := by
  induction kinds generalizing line with
  | nil => rfl
  | cons kind kinds ih =>
    rw [readOperands_cons_eq_ok_iff]
    -- the places of the later operands are counted from what follows the first word
    have hplaces : kinds.mapIdx (fun place kind => kind.value (wordAt line (place + 1))) =
        kinds.mapIdx fun place kind => kind.value (wordAt (nextWord line).2 place) := by
      simp only [wordAt_succ]
    rw [List.mapIdx_cons, wordAt_zero, hplaces]
    cases kind with
    | label => exact ⟨_, _, rfl, ih h, rfl⟩
    | integer =>
      have hword : ¬ Overlong (nextWord line).1 := h _ List.mem_cons_self
      refine ⟨_, _, readOperand_integer_eq_ok_iff.2 ⟨_, integerOperand_lenient_eq hword, rfl⟩,
        ih fun w hw => h w (List.mem_cons_of_mem _ hw), rfl⟩

/-- A line is read as what it says. -/
theorem lineInstruction?_lenient_eq {line : String}
    (h : ∀ w ∈ lineIntegers line, ¬ Overlong w) :
    lineInstruction? .lenient line = if hasVisible line then some (meaning line) else none := by
  by_cases hv : hasVisible line = true
  · rw [if_pos hv, lineInstruction?_eq_some_iff]
    refine ⟨hasVisible_iff.1 hv, readStatement_eq_ok_iff.2 ?_⟩
    have hfirst : Opcode.ofWord? (nextWord (nextWord line.toList).2).1 =
        operationOf (statementPart line) := by
      rw [ofWord?_eq_find?, operationOf, wordAt_zero]
      rfl
    cases hop : operationOf (statementPart line) with
    | none =>
      refine .inl ⟨hfirst.trans hop, ?_⟩
      simp only [meaning, hop]
      rfl
    | some op =>
      have hread : Opcode.ofWord? (nextWord (nextWord line.toList).2).1 = some op :=
        hfirst.trans hop
      have hwords : ∀ w ∈ integerWords op.operandKinds (nextWord (nextWord line.toList).2).2,
          ¬ Overlong w := by
        intro w hw
        refine h w ?_
        rw [lineIntegers, statementIntegers, hread]
        exact hw
      refine .inr ⟨op, _, hread, readOperands_lenient_eq hwords, ?_⟩
      simp only [meaning, hop, wordAt_succ]
      rfl
  · rw [if_neg hv, lineInstruction?, if_pos]
    exact Classical.not_not.1 (mt hasVisible_iff.2 hv)

/-! ## All lines -/

theorem filterMap_lineInstruction?_eq {lines : List String}
    (h : ∀ line ∈ lines, ∀ w ∈ lineIntegers line, ¬ Overlong w) :
    lines.filterMap (lineInstruction? .lenient) = (lines.filter hasVisible).map meaning := by
  induction lines with
  | nil => rfl
  | cons line lines ih =>
    have hline := lineInstruction?_lenient_eq (h line List.mem_cons_self)
    have hlines := ih fun x hx => h x (List.mem_cons_of_mem line hx)
    by_cases hv : hasVisible line = true
    · rw [if_pos hv] at hline
      rw [List.filterMap_cons_some hline, List.filter_cons_of_pos hv, List.map_cons, hlines]
    · rw [if_neg hv] at hline
      rw [List.filterMap_cons_none hline, List.filter_cons_of_neg hv, hlines]

theorem exists_listing_of_meanings {lines : List String}
    (h : ∀ line ∈ lines, ∀ w ∈ lineIntegers line, ¬ Overlong w) :
    ∃ l, Listing.ofLines .lenient lines = (.ok (), l) ∧
      l.program.toList = (lines.filter hasVisible).map meaning := by
  rw [← filterMap_lineInstruction?_eq h]
  exact ⟨_, ofLines_eq_ok_iff.2 ⟨firstRefused_lenient_eq_none_iff.2 h, rfl⟩, rfl⟩

/-- A text without overlong numerals is read leniently, and its program is what its lines say, in
order, blank ones left out. Of a line that says no operation nothing is lost but the blanks at its
ends. The program of two texts, one after the other, is that of the first followed by that of the
second. -/
theorem lenient_reading_is_meaning {lines : List String}
    (h : ∀ line ∈ lines, ∀ w ∈ lineIntegers line, ¬ Overlong w) :
    ∃ l, Listing.ofLines .lenient lines = (.ok (), l) ∧
      l.program.toList = (lines.filter hasVisible).map meaning ∧
      (∀ line, (meaning line).opcode = .noop → ∃ text, (meaning line).operands = [.word text] ∧
        (meaning line).label ++ text = String.ofList (Text.trim Text.isBlank line.toList)) ∧
      ∀ xs ys, lines = xs ++ ys → ∃ l₁ l₂, Listing.ofLines .lenient xs = (.ok (), l₁) ∧
        Listing.ofLines .lenient ys = (.ok (), l₂) ∧ l.program = l₁.program ++ l₂.program := by
  obtain ⟨l, hl, hp⟩ := exists_listing_of_meanings h
  refine ⟨l, hl, hp, fun line hline => label_append_remark hline, ?_⟩
  rintro xs ys rfl
  obtain ⟨l₁, hl₁, hp₁⟩ :=
    exists_listing_of_meanings fun x hx => h x (List.mem_append_left ys hx)
  obtain ⟨l₂, hl₂, hp₂⟩ :=
    exists_listing_of_meanings fun y hy => h y (List.mem_append_right xs hy)
  refine ⟨l₁, l₂, hl₁, hl₂, ?_⟩
  rw [← Array.toList_inj, Array.toList_append, hp, hp₁, hp₂, List.filter_append, List.map_append]

/-- Control characters before a line, before a word and after a line, a missing operand, one operand
too many, and a word that is no operation because of its first letter. -/
theorem lenient_reading_is_meaning_controls :
    let xs : List String := ["\x01a\tadd 1 \x02+2", " \x1f\n", "b bnz 0"]
    let ys : List String := ["c Out  1\x03\r", "d out -7 8"]
    (∀ line ∈ xs ++ ys, ∀ w ∈ lineIntegers line, ¬ Overlong w) ∧
      ∃ l l₁ l₂, Listing.ofLines .lenient (xs ++ ys) = (.ok (), l) ∧
        l.program.toList =
          [⟨"a", .add, [.int 1, .int 2, .int maxInt]⟩, ⟨"b", .bnz, [.int 0, .word ""]⟩,
            ⟨"c", .noop, [.word " Out  1"]⟩, ⟨"d", .out, [.int (-7)]⟩] ∧
        Listing.ofLines .lenient xs = (.ok (), l₁) ∧ Listing.ofLines .lenient ys = (.ok (), l₂) ∧
        l.program = l₁.program ++ l₂.program := by
  intro xs ys
  have hshort : ∀ line ∈ xs ++ ys, ∀ w ∈ lineIntegers line, ¬ Overlong w := by decide
  obtain ⟨l, hl, hp, -, happend⟩ := lenient_reading_is_meaning hshort
  obtain ⟨l₁, l₂, hl₁, hl₂, hp₁₂⟩ := happend xs ys rfl
  refine ⟨hshort, l, l₁, l₂, hl, ?_, hl₁, hl₂, hp₁₂⟩
  rw [hp]
  decide

end Source
end SimpleMachine
