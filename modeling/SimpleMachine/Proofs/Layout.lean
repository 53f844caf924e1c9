import Mathlib.Data.List.Forall2
import Mathlib.Logic.Relation
import SimpleMachine.Proofs.Meaning

/-!
# SimpleMachine.Proofs.Layout

How a text is laid out does not matter to the program that it is.

* `Padded line line'`: the right line is the left one with more blanks at its ends. Reading drops
  them before anything else (`nextWord_of_padded`).
* `outline f g reading`: what is left of a reading when only `f` is left of its error and `g` of its
  instructions. Two texts have the same outline if their lines have, one by one
  (`outline_extend_cons`).
* `withoutNumber`: the error without the number of the line. Blank lines leave all the rest alone
  (`outline_extend_filter`).
* `Respaced line line'`: a run of spaces and tabs has become another one. The words are the same
  (`words_of_respaced`), and a line is read from its words, but for a remark and the line in the
  report of an error, which are as written (`outline_extend_of_words`).
* `layout_does_not_matter`: all of this for one text and another.
-/

namespace SimpleMachine

open Source

/-- The instruction without the text of its remark, if it is one. -/
def Instruction.withoutRemark (i : Instruction) : Instruction :=
  if i.opcode = .noop then .remark i.label else i

namespace Text

variable {p : Char → Bool}

/-- More characters of the class at both ends are trimmed as well. -/
theorem trim_append_append {before after : List Char} (hb : ∀ c ∈ before, p c = true)
    (ha : ∀ c ∈ after, p c = true) (cs : List Char) :
    trim p (before ++ cs ++ after) = trim p cs := by
  have hend : trim p (before ++ cs ++ after) = trim p (before ++ cs) := by
    rw [trim_eq_dropWhile_trimEnd, trimEnd_append, if_pos (trimEnd_eq_nil_iff.2 ha),
      ← trim_eq_dropWhile_trimEnd]
  rw [hend, trim, List.dropWhile_append_of_pos hb, trim]

end Text

namespace Source

/-! ## Blanks at the ends of a line -/

/-- There are more blanks at the ends of the line. -/
def Padded (line line' : String) : Prop :=
  ∃ before after, before.all Text.isBlank = true ∧ after.all Text.isBlank = true ∧
    line'.toList = before ++ line.toList ++ after

theorem nextWord_of_padded {line line' : String} (h : Padded line line') :
    nextWord line'.toList = nextWord line.toList := by
  obtain ⟨before, after, hb, ha, hline⟩ := h
  rw [hline, nextWord, Text.trim_append_append (List.all_eq_true.1 hb) (List.all_eq_true.1 ha),
    nextWord]

theorem extend_of_padded {mode : Mode} {number : Nat} {l : Listing} {lines lines' : List String}
    (h : List.Forall₂ Padded lines lines') :
    Listing.extend mode number l lines' = Listing.extend mode number l lines := by
  induction h generalizing number l with
  | nil => rfl
  | cons hline _ ih => simp only [Listing.extend, nextWord_of_padded hline, ih]

/-! ## What is left of a reading -/

/-- What is left of a listing when `g` is left of its instructions. -/
def Listing.outline (g : Instruction → Instruction) (l : Listing) :
    LabelTable × Array Instruction :=
  (l.labels, l.program.map g)

/-- What is left of a reading when `f` is left of its error and `g` of the instructions. -/
def outline (f : SourceError → SourceError) (g : Instruction → Instruction)
    (reading : Except SourceError Unit × Listing) :
    Except SourceError Unit × LabelTable × Array Instruction :=
  (reading.1.mapError f, reading.2.outline g)

section Outline

variable {f : SourceError → SourceError} {g : Instruction → Instruction} {mode : Mode}
  {l l' : Listing}

/-- All of a listing is left if all of its instructions is. -/
theorem eq_of_outline_id (h : l'.outline id = l.outline id) : l' = l := by
  obtain ⟨hlabels, hprogram⟩ := Prod.mk.inj h
  rw [Array.map_id, Array.map_id] at hprogram
  cases l
  cases l'
  cases hlabels
  cases hprogram
  rfl

theorem outline_mark (h : l'.outline g = l.outline g) (label : String) :
    (l'.mark label).outline g = (l.mark label).outline g := by
  obtain ⟨hlabels, hprogram⟩ := Prod.mk.inj h
  have hsize : l'.program.size = l.program.size := by
    simpa using congrArg Array.size hprogram
  rw [Listing.outline, Listing.outline, Listing.mark, Listing.mark, hlabels, hsize]
  exact congrArg _ hprogram

theorem outline_push (h : l'.outline g = l.outline g) {i i' : Instruction} (hi : g i' = g i) :
    (l'.push i').outline g = (l.push i).outline g := by
  obtain ⟨hlabels, hprogram⟩ := Prod.mk.inj h
  rw [Listing.outline, Listing.outline, Listing.push, Listing.push, Array.map_push, Array.map_push,
    hlabels, hprogram, hi]

/-- Two lines with the same label, of whose statements the same is left, have the same part in a
reading. -/
theorem outline_extend_cons {n k : Nat} {line line' : String} {lines lines' : List String}
    (hl : l'.outline g = l.outline g) (hword : (nextWord line'.toList).1 = (nextWord line.toList).1)
    (hread : ∀ label,
      ((readStatement mode label k (nextWord line'.toList).2).1.map g).mapError f =
        ((readStatement mode label n (nextWord line.toList).2).1.map g).mapError f)
    (hlines : ∀ {l l' : Listing}, l'.outline g = l.outline g →
      outline f g (Listing.extend mode (k + 1) l' lines') =
        outline f g (Listing.extend mode (n + 1) l lines)) :
    outline f g (Listing.extend mode k l' (line' :: lines')) =
      outline f g (Listing.extend mode n l (line :: lines)) := by
  by_cases hb : (nextWord line.toList).1 = []
  · rw [Listing.extend_cons_of_blank hb, Listing.extend_cons_of_blank (hword.trans hb)]
    exact hlines hl
  · rw [Listing.extend_cons_of_label hb, Listing.extend_cons_of_label (hword ▸ hb), hword]
    have hstatement := hread (String.ofList (nextWord line.toList).1)
    have hmark := outline_mark hl (String.ofList (nextWord line.toList).1)
    generalize (readStatement mode _ k _).1 = r', (readStatement mode _ n _).1 = r at hstatement ⊢
    -- what is left of an error and of an instruction is never the same
    cases r with
    | error e =>
      cases r' with
      | error e' => exact Prod.ext (congrArg Except.error (Except.error.inj hstatement)) hmark
      | ok i' => cases hstatement
    | ok i =>
      cases r' with
      | error e' => cases hstatement
      | ok i' => exact hlines (outline_push hmark (Except.ok.inj hstatement))

end Outline

theorem fst_readOperands_cons (mode : Mode) (kind : OperandKind) (kinds : List OperandKind)
    (line : List Char) :
    (readOperands mode (kind :: kinds) line).1 =
      (readOperand mode kind line).1 >>= fun operand =>
        (readOperands mode kinds (nextWord line).2).1.map (operand :: ·) := by
  have hrest : (readOperand mode kind line).2 = (nextWord line).2 := by cases kind <;> rfl
  cases ho : readOperand mode kind line with
  | mk first rest =>
    rw [ho] at hrest
    subst hrest
    cases first with
    | error e => simp only [readOperands, ho]; rfl
    | ok operand => simp only [readOperands, ho]; rfl

/-- A statement is read from the word that says what to do and the operands after it. -/
theorem fst_readStatement (mode : Mode) (label : String) (number : Int) (statement : List Char) :
    (readStatement mode label number statement).1 =
      match Opcode.ofWord? (nextWord statement).1 with
      | none => .ok (.remark label (String.ofList statement))
      | some op =>
        ((readOperands mode op.operandKinds (nextWord statement).2).1.map
          (Instruction.mk label op)).mapError
            (OperandError.at op number (String.ofList statement)) := by
  cases hop : Opcode.ofWord? (nextWord statement).1 with
  | none => simp only [readStatement, hop]
  | some op =>
    cases hr : (readOperands mode op.operandKinds (nextWord statement).2).1 with
    | ok operands => simp only [readStatement, hop, hr]; rfl
    | error e => simp only [readStatement, hop, hr]; rfl

/-! ## Blank lines -/

/-- The error without the number of its line. -/
def SourceError.withoutNumber : SourceError → SourceError
  | .assembly (.malformedOperand op word _ line) => .assembly (.malformedOperand op word 0 line)
  | e => e

theorem readStatement_renumbered (mode : Mode) (label : String) (n k : Int)
    (statement : List Char) :
    ((readStatement mode label n statement).1.map id).mapError SourceError.withoutNumber =
      ((readStatement mode label k statement).1.map id).mapError SourceError.withoutNumber := by
  rw [fst_readStatement, fst_readStatement]
  cases Opcode.ofWord? (nextWord statement).1 with
  | none => rfl
  | some op =>
    dsimp only
    cases (readOperands mode op.operandKinds (nextWord statement).2).1 with
    | ok operands => rfl
    | error e => cases e <;> rfl

/-- Lines without a word count for nothing but the numbers of the others. -/
theorem outline_extend_filter (mode : Mode) (n k : Nat) {l l' : Listing}
    (hl : l'.outline id = l.outline id) (lines : List String) :
    outline SourceError.withoutNumber id (Listing.extend mode k l' (lines.filter hasVisible)) =
      outline SourceError.withoutNumber id (Listing.extend mode n l lines) := by
  induction lines generalizing n k l l' with
  | nil => exact Prod.ext rfl hl
  | cons line lines ih =>
    by_cases hv : hasVisible line = true
    · rw [List.filter_cons_of_pos hv]
      exact outline_extend_cons hl rfl (fun label => readStatement_renumbered mode label k n _)
        (ih (n + 1) (k + 1))
    · have hword : (nextWord line.toList).1 = [] := Classical.not_not.1 (mt hasVisible_iff.2 hv)
      rw [List.filter_cons_of_neg hv, Listing.extend_cons_of_blank hword]
      exact ih (n + 1) k hl

/-! ## Other gaps -/

/-- A run of spaces and tabs. -/
def Gap (cs : List Char) : Prop := cs ≠ [] ∧ cs.all isGap = true

instance (cs : List Char) : Decidable (Gap cs) := inferInstanceAs (Decidable (_ ∧ _))

theorem Gap.isGap {cs : List Char} {c : Char} (h : Gap cs) (hc : c ∈ cs) : isGap c = true :=
  List.all_eq_true.1 h.2 c hc

/-- One run of spaces and tabs has become another one. -/
def Respaced (line line' : String) : Prop :=
  ∃ front gap gap' rest, Gap gap ∧ Gap gap' ∧
    line.toList = front ++ gap ++ rest ∧ line'.toList = front ++ gap' ++ rest

/-- The error without the text of its line. -/
def SourceError.withoutLine : SourceError → SourceError
  | .assembly (.malformedOperand op word n _) => .assembly (.malformedOperand op word n "")
  | e => e

theorem pieces_gap_append {gap : List Char} (h : ∀ c ∈ gap, isGap c = true) (rest : List Char) :
    pieces (gap ++ rest) = pieces rest := by
  induction gap with
  | nil => rfl
  | cons c gap ih =>
    rw [List.cons_append, pieces_cons_of_isGap (h c List.mem_cons_self),
      ih fun d hd => h d (List.mem_cons_of_mem c hd)]

/-- A gap parts the pieces before it from those after it. -/
theorem pieces_append_gap {gap : List Char} (h : Gap gap) (front rest : List Char) :
    pieces (front ++ gap ++ rest) = pieces front ++ pieces rest := by
  obtain ⟨c, gap, rfl⟩ := List.exists_cons_of_ne_nil h.1
  have hc : isGap c = true := h.isGap List.mem_cons_self
  have hrest : pieces (gap ++ rest) = pieces rest :=
    pieces_gap_append (fun d hd => h.isGap (List.mem_cons_of_mem c hd)) rest
  rw [List.append_assoc, List.cons_append, pieces, List.splitOnP_append_cons front (gap ++ rest) hc,
    List.map_append, List.filter_append, ← pieces, ← pieces, hrest]

/-- The words of a text do not tell one gap in it from another one. -/
theorem words_append_gap {gap : List Char} (h : Gap gap) (front rest : List Char) :
    words (front ++ gap ++ rest) =
      if Text.trimEnd Text.isBlank rest = [] then words front else pieces front ++ words rest := by
  rw [words_eq_pieces, Text.trimEnd_append]
  -- before blanks alone the gap is trimmed away with them
  split
  · have hgap : Text.trimEnd Text.isBlank gap = [] :=
      Text.trimEnd_eq_nil_iff.2 fun c hc => isBlank_of_isGap (h.isGap hc)
    rw [Text.trimEnd_append, if_pos hgap, words_eq_pieces]
  · rw [pieces_append_gap h, words_eq_pieces]

theorem words_of_respaced {line line' : String} (h : Respaced line line') :
    words line'.toList = words line.toList := by
  obtain ⟨front, gap, gap', rest, hgap, hgap', hline, hline'⟩ := h
  rw [hline, hline', words_append_gap hgap, words_append_gap hgap']

theorem words_of_reflTransGen {line line' : String}
    (h : Relation.ReflTransGen Respaced line line') :
    words line'.toList = words line.toList := by
  induction h with
  | refl => rfl
  | tail _ hlast ih => exact (words_of_respaced hlast).trans ih

/-- Texts with the same words have the same first word, and what follows it has the same words. -/
theorem nextWord_of_words {s t : List Char} (h : words t = words s) :
    (nextWord t).1 = (nextWord s).1 ∧ words (nextWord t).2 = words (nextWord s).2 := by
  rw [words_eq t, words_eq s] at h
  by_cases hs : (nextWord s).1 = []
  · by_cases ht : (nextWord t).1 = []
    · rw [hs, ht, snd_nextWord_of_fst_eq_nil hs, snd_nextWord_of_fst_eq_nil ht]
      exact ⟨rfl, rfl⟩
    · rw [if_pos hs, if_neg ht] at h
      cases h
  · by_cases ht : (nextWord t).1 = []
    · rw [if_neg hs, if_pos ht] at h
      cases h
    · rw [if_neg hs, if_neg ht] at h
      exact List.cons.inj h

theorem readOperands_of_words {mode : Mode} {kinds : List OperandKind} {s t : List Char}
    (h : words t = words s) : (readOperands mode kinds t).1 = (readOperands mode kinds s).1 := by
  induction kinds generalizing s t with
  | nil => rfl
  | cons kind kinds ih =>
    obtain ⟨hword, hrest⟩ := nextWord_of_words h
    have hfirst : (readOperand mode kind t).1 = (readOperand mode kind s).1 := by
      cases kind <;> simp only [readOperand, hword]
    rw [fst_readOperands_cons, fst_readOperands_cons, hfirst, ih hrest]

theorem readStatement_of_words {mode : Mode} {label : String} {number : Int} {s t : List Char}
    (h : words t = words s) :
    ((readStatement mode label number t).1.map Instruction.withoutRemark).mapError
        SourceError.withoutLine =
      ((readStatement mode label number s).1.map Instruction.withoutRemark).mapError
        SourceError.withoutLine := by
  obtain ⟨hword, hrest⟩ := nextWord_of_words h
  rw [fst_readStatement, fst_readStatement, hword]
  cases Opcode.ofWord? (nextWord s).1 with
  | none => rfl
  | some op =>
    dsimp only
    rw [readOperands_of_words hrest]
    cases (readOperands mode op.operandKinds (nextWord s).2).1 with
    | ok operands => rfl
    | error e => cases e <;> rfl

theorem outline_extend_of_words {mode : Mode} {number : Nat} {l l' : Listing}
    {lines lines' : List String}
    (hl : l'.outline Instruction.withoutRemark = l.outline Instruction.withoutRemark)
    (h : List.Forall₂ (fun line line' => words line'.toList = words line.toList) lines lines') :
    outline SourceError.withoutLine Instruction.withoutRemark
        (Listing.extend mode number l' lines') =
      outline SourceError.withoutLine Instruction.withoutRemark
        (Listing.extend mode number l lines) := by
  induction h generalizing number l l' with
  | nil => exact Prod.ext rfl hl
  | cons hline _ ih =>
    obtain ⟨hword, hrest⟩ := nextWord_of_words hline
    exact outline_extend_cons hl hword (fun label => readStatement_of_words hrest) ih

/-- In either mode, more blanks at the ends of the lines change nothing, whether the text can be
read or not. More lines of blanks, or fewer, change nothing but the number of the line in the report
of an error. Other runs of spaces and tabs, in any number of places, change nothing but the line in
such a report and the texts of remarks. -/
theorem layout_does_not_matter (mode : Mode) (lines lines' : List String) :
    let reading := Listing.ofLines mode lines
    let reading' := Listing.ofLines mode lines'
    (List.Forall₂ Padded lines lines' → reading' = reading) ∧
    (lines'.filter hasVisible = lines.filter hasVisible →
      reading'.2 = reading.2 ∧
        reading'.1.mapError SourceError.withoutNumber =
          reading.1.mapError SourceError.withoutNumber) ∧
    (List.Forall₂ (Relation.ReflTransGen Respaced) lines lines' →
      reading'.2.labels = reading.2.labels ∧
        reading'.2.program.map Instruction.withoutRemark =
          reading.2.program.map Instruction.withoutRemark ∧
        reading'.1.mapError SourceError.withoutLine =
          reading.1.mapError SourceError.withoutLine) := by
  intro reading reading'
  refine ⟨extend_of_padded, fun h => ?_, fun h => ?_⟩
  · have hfilter : ∀ xs : List String,
        outline SourceError.withoutNumber id (Listing.ofLines mode (xs.filter hasVisible)) =
          outline SourceError.withoutNumber id (Listing.ofLines mode xs) :=
      outline_extend_filter mode 1 1 rfl
    have hsame := hfilter lines'
    rw [h, hfilter lines] at hsame
    obtain ⟨herror, hlisting⟩ := Prod.mk.inj hsame
    exact ⟨(eq_of_outline_id hlisting).symm, herror.symm⟩
  · have hwords : List.Forall₂ (fun line line' => words line'.toList = words line.toList)
        lines lines' := h.imp fun line line' hline => words_of_reflTransGen hline
    obtain ⟨herror, hlisting⟩ := Prod.mk.inj (outline_extend_of_words rfl hwords)
    obtain ⟨hlabels, hprogram⟩ := Prod.mk.inj hlisting
    exact ⟨hlabels, hprogram, herror⟩

/-- Control characters at the ends of a line, before a word and inside one, lines of blanks, and
gaps of either kind. The same operand is refused each time. -/
theorem layout_does_not_matter_controls :
    let lines := ["a lin 0 7", "b see \x01 be\x02low", "c out\t\x03x"]
    let padded := ["\x00 a lin 0 7\r\n", "b see \x01 be\x02low \x1f", "c out\t\x03x"]
    let blanked := ["", "a lin 0 7", " \t\x0b\n", "b see \x01 be\x02low", "c out\t\x03x"]
    let respaced := ["a lin\t\t0 7", "b see \x01\tbe\x02low", "c  out\t\x03x"]
    (List.Forall₂ Padded lines padded ∧ blanked.filter hasVisible = lines.filter hasVisible ∧
      List.Forall₂ (Relation.ReflTransGen Respaced) lines respaced) ∧
      (Listing.ofLines .strict padded).1 =
        .error (.assembly (.malformedOperand .out "x" 3 " out\t\x03x")) ∧
      (Listing.ofLines .strict blanked).2.program.toList =
        [⟨"a", .lin, [.int 0, .int 7]⟩, .remark "b" " see \x01 be\x02low"] ∧
      (Listing.ofLines .strict blanked).1.mapError SourceError.withoutNumber =
        .error (.assembly (.malformedOperand .out "x" 0 " out\t\x03x")) ∧
      ((Listing.ofLines .strict respaced).2.program.map Instruction.withoutRemark).toList =
        [⟨"a", .lin, [.int 0, .int 7]⟩, .remark "b"] ∧
      (Listing.ofLines .strict respaced).1.mapError SourceError.withoutLine =
        .error (.assembly (.malformedOperand .out "x" 3 "")) := by
  intro lines padded blanked respaced
  have hpadded : List.Forall₂ Padded lines padded := by
    refine .cons ⟨['\x00', ' '], ['\r', '\n'], by decide, by decide, by decide⟩ ?_
    refine .cons ⟨[], [' ', '\x1f'], by decide, by decide, by decide⟩ ?_
    exact .cons ⟨[], [], by decide, by decide, by decide⟩ .nil
  have hblanked : blanked.filter hasVisible = lines.filter hasVisible := by decide
  have hrespaced : List.Forall₂ (Relation.ReflTransGen Respaced) lines respaced := by
    refine .cons (.single ⟨"a lin".toList, [' '], ['\t', '\t'], "0 7".toList, ?_⟩) ?_
    · decide
    refine .cons (.single ⟨"b see \x01".toList, [' '], ['\t'], "be\x02low".toList, ?_⟩) ?_
    · decide
    refine .cons (.single ⟨"c".toList, [' '], [' ', ' '], "out\t\x03x".toList, ?_⟩) .nil
    decide
  obtain ⟨hpad, -, -⟩ := layout_does_not_matter .strict lines padded
  obtain ⟨-, hblank, -⟩ := layout_does_not_matter .strict lines blanked
  obtain ⟨-, -, hgap⟩ := layout_does_not_matter .strict lines respaced
  obtain ⟨hlisting, hnumber⟩ := hblank hblanked
  obtain ⟨-, hprogram, hline⟩ := hgap hrespaced
  refine ⟨⟨hpadded, hblanked, hrespaced⟩, ?_, ?_, ?_, ?_, ?_⟩
  · rw [hpad hpadded]
    decide
  · rw [hlisting]
    decide
  · rw [hnumber]
    decide
  · rw [hprogram, Array.toList_map]
    decide
  · rw [hline]
    decide

end Source
end SimpleMachine
