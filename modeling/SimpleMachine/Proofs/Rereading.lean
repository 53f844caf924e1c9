import SimpleMachine.Proofs.Installation
import SimpleMachine.Proofs.WellFormed
import SimpleMachine.Proofs.Words

/-!
# SimpleMachine.Proofs.Rereading

A program that is shown, line by line, and read again.

* `IsPlain cs`: spaces and tabs are the only characters that reading or showing trims.
* `Instruction.reread`: what an instruction becomes. Its label has a colon, and a remark is trimmed
  and has a space before it; everything else is as it was.
* `PlainInstruction i`: what is known of an instruction that has been read from a plain line.
* `shown_operation`, `shown_remark`: the line in which such an instruction is shown, word by word.
* `lineInstruction?_shown`: that line, read in any mode, is the instruction again.
* `shown_program_reads_back`: so it is for a whole program.
-/

namespace SimpleMachine

open Source

def IsPlain (cs : List Char) : Prop :=
  ∀ c ∈ cs, Text.isBlank c = true ∨ Text.isSpace c = true → isGap c = true

instance (cs : List Char) : Decidable (IsPlain cs) :=
  decidable_of_iff ((cs.all fun c => !(Text.isBlank c || Text.isSpace c) || isGap c) = true)
    (by simp [IsPlain, Decidable.imp_iff_not_or])

/-- The remark of a line that shows a remark. -/
def rereadRemark (text : String) : String :=
  if text.toList.all isGap then "" else " " ++ String.ofList (Text.trim isGap text.toList)

/-- What an instruction becomes when it is shown and the line is read. -/
def Instruction.reread (i : Instruction) : Instruction where
  label := i.label ++ ":"
  opcode := i.opcode
  operands :=
    match i.opcode, i.operands with
    | .noop, [.word text] => [.word (rereadRemark text)]
    | _, operands => operands

theorem isSpace_of_isGap {c : Char} (h : isGap c = true) : Text.isSpace c = true := by
  simp only [isGap, Bool.or_eq_true, beq_iff_eq] at h
  rcases h with rfl | rfl <;> rfl

namespace IsPlain

variable {cs : List Char}

theorem isBlank_eq (h : IsPlain cs) {c : Char} (hc : c ∈ cs) : Text.isBlank c = isGap c := by
  rw [Bool.eq_iff_iff]
  exact ⟨fun hb => h c hc (.inl hb), isBlank_of_isGap⟩

theorem isSpace_eq (h : IsPlain cs) {c : Char} (hc : c ∈ cs) : Text.isSpace c = isGap c := by
  rw [Bool.eq_iff_iff]
  exact ⟨fun hs => h c hc (.inr hs), isSpace_of_isGap⟩

theorem solid (h : IsPlain cs) (hne : cs ≠ []) (hg : ∀ c ∈ cs, isGap c = false) : Solid cs :=
  ⟨hne, fun c hc => ⟨by rw [h.isBlank_eq hc, hg c hc], by rw [h.isSpace_eq hc, hg c hc]⟩⟩

theorem mono {cs' : List Char} (h : IsPlain cs) (hs : ∀ c ∈ cs', c ∈ cs) : IsPlain cs' :=
  fun c hc => h c (hs c hc)

/-- The first word of a plain line and what follows it are plain. -/
theorem nextWord (h : IsPlain (Text.trim Text.isBlank cs)) :
    IsPlain (Source.nextWord cs).1 ∧ IsPlain (Source.nextWord cs).2 := by
  rw [← fst_append_snd_nextWord] at h
  exact ⟨h.mono fun c hc => List.mem_append_left _ hc,
    h.mono fun c hc => List.mem_append_right _ hc⟩

end IsPlain

/-! ## What is read from a plain line -/

inductive PlainInstruction : Instruction → Prop where
  | operation {label : String} {op : Opcode} {operands : List Operand} :
      op ≠ .noop → Solid label.toList → HasShape op operands →
      (∀ text, .word text ∈ operands → IsPlain text.toList) →
      PlainInstruction ⟨label, op, operands⟩
  | remark {label : String} {text : String} :
      Solid label.toList → IsPlain text.toList →
      Opcode.ofWord? (nextWord text.toList).1 = none → PlainInstruction (.remark label text)

theorem isPlain_of_readOperands {mode : Mode} {kinds : List OperandKind} {line : List Char}
    {operands : List Operand} (h : (readOperands mode kinds line).1 = .ok operands)
    (hp : IsPlain line) {text : String} (ht : .word text ∈ operands) : IsPlain text.toList := by
  induction kinds generalizing line operands with
  | nil => cases h; cases ht
  | cons kind kinds ih =>
    obtain ⟨operand, rest, ho, hrest, rfl⟩ := readOperands_cons_eq_ok_iff.1 h
    obtain ⟨hw, hr⟩ := IsPlain.nextWord (hp.mono fun c hc => Text.mem_of_mem_trim hc)
    rcases List.mem_cons.1 ht with rfl | ht
    · cases kind with
      | integer =>
        obtain ⟨v, -, hv⟩ := readOperand_integer_eq_ok_iff.1 ho
        cases hv
      | label =>
        cases ho
        rw [String.toList_ofList]; exact hw
    · exact ih hrest hr ht

theorem plainInstruction_of_line {mode : Mode} {line : String} {i : Instruction}
    (hp : IsPlain (Text.trim Text.isBlank line.toList)) (h : lineInstruction? mode line = some i) :
    PlainInstruction i := by
  obtain ⟨hb, hr⟩ := lineInstruction?_eq_some_iff.1 h
  obtain ⟨hw, hrest⟩ := IsPlain.nextWord hp
  have hl : Solid (String.ofList (nextWord line.toList).1).toList := by
    rw [String.toList_ofList]
    exact hw.solid hb fun c hc => isGap_eq_false_of_mem_nextWord hc
  rcases readStatement_eq_ok_iff.1 hr with ⟨hop, rfl⟩ | ⟨op, operands, hop, hos, rfl⟩
  · refine .remark hl ?_ ?_
    · rw [String.toList_ofList]; exact hrest
    · rw [String.toList_ofList]; exact hop
  · have hne := ofWord?_ne_noop hop
    have hrest' := (IsPlain.nextWord (hrest.mono fun c hc => Text.mem_of_mem_trim hc)).2
    exact .operation hne hl (hasShape_of_admits hne (admits_of_readOperands hos)) fun text ht =>
      isPlain_of_readOperands hos hrest' ht

/-! ## The line in which an instruction is shown -/

/-- The words in which operands are written. A target may be empty, and then it leaves no word. -/
inductive Writes : List OperandKind → List Operand → List (List Char) → Prop where
  | nil : Writes [] [] []
  | int {v : Int} {kinds : List OperandKind} {operands : List Operand} {ws : List (List Char)} :
      FitsRegister v → Writes kinds operands ws →
      Writes (.integer :: kinds) (.int v :: operands) ((Numeral.text v).toList :: ws)
  | target {text : String} : Solid text.toList → Writes [.label] [.word text] [text.toList]
  | noTarget : Writes [.label] [.word ""] []

namespace Writes

variable {kinds : List OperandKind} {operands : List Operand} {ws : List (List Char)}

theorem solid (h : Writes kinds operands ws) : ∀ w ∈ ws, Solid w := by
  induction h with
  | nil => simp
  | int _ _ ih => exact List.forall_mem_cons.2 ⟨solid_text _, ih⟩
  | target ht => simpa using ht
  | noTarget => simp

theorem short (h : Writes kinds operands ws) : ∀ o ∈ operands, o.Short := by
  induction h with
  | nil => nofun
  | int hv _ ih => exact List.forall_mem_cons.2 ⟨Numeral.short_of_mem_range hv, ih⟩
  | target _ => exact List.forall_mem_singleton.2 trivial
  | noTarget => exact List.forall_mem_singleton.2 trivial

/-- The words are all there is of the operands, but for a space before an empty target. -/
theorem spaced_texts (h : Writes kinds operands ws) :
    spaced (operands.map fun o => o.text.toList) = spaced ws ∨
      spaced (operands.map fun o => o.text.toList) = spaced ws ++ [' '] := by
  induction h with
  | nil => exact .inl rfl
  | int _ _ ih => simpa [Operand.text] using ih
  | target _ => exact .inl rfl
  | noTarget => exact .inr rfl

theorem read (h : Writes kinds operands ws) (mode : Mode) :
    (readOperands mode kinds (spaced ws)).1 = .ok operands := by
  induction h with
  | nil => rfl
  | @int v kinds operands ws hv hw ih =>
    have hnext : nextWord (spaced ((Numeral.text v).toList :: ws)) =
        ((Numeral.text v).toList, spaced ws) := nextWord_spaced (Writes.int hv hw).solid
    have hint : integerOperand mode (Numeral.text v).toList = .ok v := by
      simp [integerOperand, Numeral.read_text hv]
    refine readOperands_cons_eq_ok_iff.2 ⟨.int v, operands, ?_, ?_, rfl⟩
    · exact readOperand_integer_eq_ok_iff.2 ⟨v, by rw [hnext]; exact hint, rfl⟩
    · rw [hnext]; exact ih
  | @target text ht =>
    have hnext : nextWord (spaced [text.toList]) = (text.toList, []) :=
      nextWord_spaced (by simpa using ht)
    refine readOperands_cons_eq_ok_iff.2 ⟨.word text, [], ?_, rfl, rfl⟩
    show Except.ok (Operand.word (String.ofList (nextWord (spaced [text.toList])).1)) = _
    rw [hnext, String.ofList_toList]
  | noTarget => rfl

end Writes

theorem exists_writes {op : Opcode} {operands : List Operand} (hop : op ≠ .noop)
    (hs : HasShape op operands) (ht : ∀ text, .word text ∈ operands → IsPlain text.toList) :
    ∃ ws, Writes op.operandKinds operands ws := by
  cases hs with
  | arithmetic hop hd hl hr =>
    rcases hop with rfl | rfl | rfl | rfl <;> exact ⟨_, .int hd (.int hl (.int hr .nil))⟩
  | lin hd hv => exact ⟨_, .int hd (.int hv .nil)⟩
  | out hs => exact ⟨_, .int hs .nil⟩
  | @bnz src target hs hu =>
    by_cases he : target = ""
    · subst he
      exact ⟨_, .int hs .noTarget⟩
    · exact ⟨_, .int hs (.target ((ht target (by simp)).solid (by simpa using he) hu))⟩
  | noop => exact absurd rfl hop

/-- The word with which a shown line begins. -/
def labelWord (label : String) : List Char := label.toList ++ [':']

theorem solid_labelWord {label : String} (h : Solid label.toList) : Solid (labelWord label) :=
  h.append (by decide)

theorem ofList_labelWord (label : String) : String.ofList (labelWord label) = label ++ ":" := by
  rw [← String.toList_inj]
  simp [labelWord]

theorem shown_operation {label : String} {op : Opcode} {operands : List Operand}
    {ws : List (List Char)} (hop : op ≠ .noop) (hl : Solid label.toList)
    (hw : Writes op.operandKinds operands ws) :
    (⟨label, op, operands⟩ : Instruction).shown =
      .ok (String.ofList (labelWord label ++ spaced (op.name.toList :: ws))) := by
  obtain ⟨o, os, rfl⟩ : ∃ o os, operands = o :: os := by
    refine List.exists_cons_of_ne_nil ?_
    rintro rfl
    cases op <;> first | exact hop rfl | cases hw
  have hline : (label ++ ": " ++ (op.name ++ " " ++
        " ".intercalate ((o :: os).map Operand.text))).toList =
      labelWord label ++ spaced (op.name.toList :: (o :: os).map fun o => o.text.toList) := by
    have hcolon : ": ".toList = [':', ' '] := rfl
    have hspace : " ".toList = [' '] := rfl
    simp [String.toList_append, String.toList_intercalate, intercalate_cons, labelWord, hcolon,
      hspace, Function.comp_def]
  have hsolid : ∀ w ∈ op.name.toList :: ws, Solid w :=
    List.forall_mem_cons.2 ⟨solid_name op, hw.solid⟩
  have htrim : Text.trimEnd Text.isSpace (labelWord label ++
        spaced (op.name.toList :: (o :: os).map fun o => o.text.toList)) =
      labelWord label ++ spaced (op.name.toList :: ws) := by
    have hall := trimEnd_words (solid_labelWord hl) hsolid
    rw [spaced_cons] at hall ⊢
    rcases hw.spaced_texts with he | he
    · rw [he]; exact hall
    -- an empty target leaves the space before it at the end of the line
    · rw [he, ← List.append_assoc, ← List.cons_append, ← List.append_assoc, Text.trimEnd_concat rfl]
      exact hall
  rw [Instruction.shown, Instruction.shownBody_of_ne_noop hop, Operand.mapM_shown hw.short]
  simp only [Except.map, hline, htrim]

/-- An operation that is written word by word, after a word for its label, is read. -/
theorem lineInstruction?_words {label : List Char} {op : Opcode} {operands : List Operand}
    {ws : List (List Char)} (hop : op ≠ .noop) (hl : Solid label)
    (hw : Writes op.operandKinds operands ws) (mode : Mode) :
    lineInstruction? mode (String.ofList (label ++ spaced (op.name.toList :: ws))) =
      some ⟨String.ofList label, op, operands⟩ := by
  have hsolid : ∀ w ∈ op.name.toList :: ws, Solid w :=
    List.forall_mem_cons.2 ⟨solid_name op, hw.solid⟩
  have hword : Opcode.ofWord? op.name.toList = some op := by simp [Opcode.ofWord?, hop]
  rw [lineInstruction?_eq_some_iff, String.toList_ofList, nextWord_words hl hsolid,
    readStatement_eq_ok_iff, nextWord_spaced hsolid]
  exact ⟨hl.1, .inr ⟨op, operands, hword, hw.read mode, rfl⟩⟩

theorem lineInstruction?_operation {label : String} {op : Opcode} {operands : List Operand}
    {ws : List (List Char)} (hop : op ≠ .noop) (hl : Solid label.toList)
    (hw : Writes op.operandKinds operands ws) (mode : Mode) :
    lineInstruction? mode (String.ofList (labelWord label ++ spaced (op.name.toList :: ws))) =
      some ⟨label ++ ":", op, operands⟩ := by
  rw [lineInstruction?_words hop (solid_labelWord hl) hw, ofList_labelWord]

/-! ## The line in which a remark is shown -/

namespace IsPlain

variable {cs : List Char}

theorem trim_isSpace (h : IsPlain cs) : Text.trim Text.isSpace cs = Text.trim isGap cs :=
  Text.trim_congr fun _ hc => h.isSpace_eq hc

theorem trim_isBlank (h : IsPlain cs) : Text.trim Text.isBlank cs = Text.trim isGap cs :=
  Text.trim_congr fun _ hc => h.isBlank_eq hc

end IsPlain

theorem toList_rereadRemark (text : String) :
    (rereadRemark text).toList =
      if Text.trim isGap text.toList = [] then [] else ' ' :: Text.trim isGap text.toList := by
  have hall : text.toList.all isGap = true ↔ Text.trim isGap text.toList = [] := by
    rw [Text.trim_eq_nil_iff, List.all_eq_true]
  by_cases h : Text.trim isGap text.toList = []
  · rw [rereadRemark, if_pos (hall.2 h), if_pos h]
    rfl
  · have hspace : " ".toList = [' '] := rfl
    rw [rereadRemark, if_neg (mt hall.1 h), if_neg h, String.toList_append, hspace,
      String.toList_ofList]
    rfl

/-- A remark that is not empty ends a line in a character that is not trimmed. -/
theorem last_of_remark {w cs : List Char} (h : IsPlain cs) (hne : Text.trim isGap cs ≠ [])
    {c : Char} (hc : c ∈ (w ++ ' ' :: Text.trim isGap cs).getLast?) :
    Text.isBlank c = false ∧ Text.isSpace c = false := by
  rw [List.append_cons, List.getLast?_append, List.getLast?_eq_some_getLast hne, Option.some_or,
    ← List.getLast?_eq_some_getLast hne] at hc
  constructor
  · rw [← h.trim_isBlank] at hc
    exact Text.eq_false_of_mem_getLast?_trim hc
  · rw [← h.trim_isSpace] at hc
    exact Text.eq_false_of_mem_getLast?_trim hc

theorem shown_remark {label text : String} (hl : Solid label.toList) (ht : IsPlain text.toList) :
    (Instruction.remark label text).shown =
      .ok (String.ofList (labelWord label ++ (rereadRemark text).toList)) := by
  have hbody : (Instruction.remark label text).shownBody =
      .ok (String.ofList (Text.trim Text.isSpace text.toList)) := rfl
  have hline : (label ++ ": " ++ String.ofList (Text.trim isGap text.toList)).toList =
      labelWord label ++ ' ' :: Text.trim isGap text.toList := by
    have hcolon : ": ".toList = [':', ' '] := rfl
    simp [String.toList_append, labelWord, hcolon]
  have hlabel : (Instruction.remark label text).label = label := rfl
  rw [Instruction.shown, hbody, ht.trim_isSpace, Except.map, hlabel, hline, toList_rereadRemark]
  by_cases h : Text.trim isGap text.toList = []
  · have hword := trimEnd_words (solid_labelWord hl) (List.forall_mem_nil Solid)
    rw [spaced_nil, List.append_nil] at hword
    rw [h, if_pos rfl, Text.trimEnd_concat rfl, hword, List.append_nil]
  · rw [if_neg h, Text.trimEnd_eq_self fun c hc => (last_of_remark ht h hc).2]

theorem lineInstruction?_remark {label text : String} (hl : Solid label.toList)
    (ht : IsPlain text.toList) (hop : Opcode.ofWord? (nextWord text.toList).1 = none)
    (mode : Mode) :
    lineInstruction? mode (String.ofList (labelWord label ++ (rereadRemark text).toList)) =
      some (.remark (label ++ ":") (rereadRemark text)) := by
  have hnext : nextWord (labelWord label ++ (rereadRemark text).toList) =
        (labelWord label, (rereadRemark text).toList) ∧
      Opcode.ofWord? (nextWord (rereadRemark text).toList).1 = none := by
    rw [toList_rereadRemark]
    by_cases h : Text.trim isGap text.toList = []
    · have hword := nextWord_words (solid_labelWord hl) (List.forall_mem_nil Solid)
      rw [spaced_nil] at hword
      rw [if_pos h]
      exact ⟨hword, rfl⟩
    · rw [if_neg h, nextWord_cons_of_isBlank rfl, ← ht.trim_isBlank, nextWord_trim, ht.trim_isBlank]
      refine ⟨nextWord_solid (solid_labelWord hl) (by rintro c ⟨⟩; rfl) ?_, hop⟩
      exact fun c hc => (last_of_remark ht h hc).1
  rw [lineInstruction?_eq_some_iff, String.toList_ofList, hnext.1, ofList_labelWord,
    readStatement_eq_ok_iff]
  exact ⟨(solid_labelWord hl).1, .inl ⟨hnext.2, by rw [String.ofList_toList]⟩⟩

/-! ## A whole program -/

/-- An instruction from a plain line is shown in a line from which it is read again. -/
theorem lineInstruction?_shown {i : Instruction} (h : PlainInstruction i) (mode : Mode) :
    ∃ line, i.shown = .ok line ∧ lineInstruction? mode line = some i.reread := by
  cases h with
  | @operation label op operands hop hl hs ht =>
    obtain ⟨ws, hw⟩ := exists_writes hop hs ht
    have hsame : (⟨label, op, operands⟩ : Instruction).reread = ⟨label ++ ":", op, operands⟩ := by
      cases op <;> first | rfl | exact absurd rfl hop
    refine ⟨_, shown_operation hop hl hw, ?_⟩
    rw [hsame]
    exact lineInstruction?_operation hop hl hw mode
  | remark hl ht hop => exact ⟨_, shown_remark hl ht, lineInstruction?_remark hl ht hop mode⟩

theorem mapM_shown {program : List Instruction} (h : ∀ i ∈ program, PlainInstruction i)
    (mode : Mode) :
    ∃ lines, program.mapM Instruction.shown = .ok lines ∧
      firstRefused mode lines = none ∧
      lines.filterMap (lineInstruction? mode) = program.map Instruction.reread := by
  induction program with
  | nil => exact ⟨[], rfl, rfl, rfl⟩
  | cons i program ih =>
    obtain ⟨lines, hm, hn, hf⟩ := ih fun j hj => h j (List.mem_cons_of_mem i hj)
    obtain ⟨line, hs, hline⟩ := lineInstruction?_shown (h i List.mem_cons_self) mode
    refine ⟨line :: lines, ?_, ?_, ?_⟩
    · rw [List.mapM_cons, hs, hm]
      rfl
    · rw [firstRefused_cons, find?_lineIntegers_eq_none hline, hn]
      rfl
    · rw [List.filterMap_cons_some hline, hf, List.map_cons]

/-- A program from lines that are plain, but for the blanks at their ends, can be shown, and the
lines in which it is shown can be read, in either mode, into the same program with a colon after
each label and trimmed remarks. -/
theorem shown_program_reads_back {mode : Mode} {lines : List String} {l : Listing}
    (hplain : ∀ line ∈ lines, IsPlain (Text.trim Text.isBlank line.toList))
    (h : Listing.ofLines mode lines = (.ok (), l)) (mode' : Mode) :
    ∃ shown l', l.program.toList.mapM Instruction.shown = .ok shown ∧
      Listing.ofLines mode' shown = (.ok (), l') ∧
      l'.program.toList = l.program.toList.map Instruction.reread := by
  obtain ⟨-, rfl⟩ := ofLines_eq_ok_iff.1 h
  have hi : ∀ i ∈ lines.filterMap (lineInstruction? mode), PlainInstruction i := by
    intro i hi
    obtain ⟨line, hline, hl⟩ := List.mem_filterMap.1 hi
    exact plainInstruction_of_line (hplain line hline) hl
  obtain ⟨shown, hm, hn, hf⟩ := mapM_shown hi mode'
  exact ⟨shown, _, hm, ofLines_eq_ok_iff.2 ⟨hn, rfl⟩, hf⟩

/-- A branch without a target, a register that cannot be read, and remarks with and without text. -/
theorem shown_program_reads_back_branch :
    let lines : List String :=
      ["a bnz x", " b add 1  -2 +03 add\n", "c\t out? \t1 \r\n", "", "d noop", "e"]
    let shown : List String :=
      ["a: bnz 2147483647", "b: add 1 -2 3", "c: out? \t1", "d: noop", "e:"]
    (∀ line ∈ lines, IsPlain (Text.trim Text.isBlank line.toList)) ∧
      ∃ l l', Listing.ofLines .lenient lines = (.ok (), l) ∧
        Listing.ofLines .strict shown = (.ok (), l') ∧
        l'.program.toList =
          [⟨"a:", .bnz, [.int 2147483647, .word ""]⟩, ⟨"b:", .add, [.int 1, .int (-2), .int 3]⟩,
            .remark "c:" " out? \t1", .remark "d:" " noop", .remark "e:"] := by
  intro lines shown
  have hplain : ∀ line ∈ lines, IsPlain (Text.trim Text.isBlank line.toList) := by decide
  obtain ⟨l, hl, hm, hr⟩ : ∃ l, Listing.ofLines .lenient lines = (.ok (), l) ∧
      l.program.toList.mapM Instruction.shown = .ok shown ∧
      l.program.toList.map Instruction.reread =
        [⟨"a:", .bnz, [.int 2147483647, .word ""]⟩, ⟨"b:", .add, [.int 1, .int (-2), .int 3]⟩,
          .remark "c:" " out? \t1", .remark "d:" " noop", .remark "e:"] :=
    ⟨_, by rfl, by rfl, by rfl⟩
  obtain ⟨shown', l', hm', hl', hp⟩ := shown_program_reads_back hplain hl .strict
  rw [hm] at hm'; cases hm'
  exact ⟨hplain, l, l', hl, hl', hp.trans hr⟩

end SimpleMachine
