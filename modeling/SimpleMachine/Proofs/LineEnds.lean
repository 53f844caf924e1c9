import SimpleMachine.Proofs.Atomicity
import SimpleMachine.Run

/-!
# SimpleMachine.Proofs.LineEnds

A program runs in the same way from a file and from the text of the file.

* `splitLines ends cs`: a text cut in one pass, where a carriage return and a line feed, a carriage
  return alone, and any character of the class end a line. Unifying the line ends first and cutting
  afterwards comes to the same (`cutAfter_unifyLineEnds`), so both the lines of a file and those of a
  text in memory are cut in this way (`fileLines_eq`, `textLines_eq`).
* `textOnlyBreaks`: the characters that end a line of a text in memory but not one of a file. Without
  them the lines are the same (`fileLines_eq_textLines`).
* `runFile_eq_runText`: hence so is the whole run, with its result, its machine and what it prints.
-/

namespace SimpleMachine

namespace Text

/-- The lines with a character put in front of the first of them. -/
def prepend (c : Char) : List (List Char) → List (List Char)
  | [] => [[c]]
  | line :: lines => (c :: line) :: lines

/-- The lines of a text: each ends at a carriage return, which takes in a line feed directly after
it, or at a character of the class. The ends are dropped. -/
def splitLines (ends : Char → Bool) : List Char → List (List Char)
  | [] => []
  | '\r' :: '\n' :: cs => [] :: splitLines ends cs
  | c :: cs =>
    if c = '\r' ∨ ends c = true then [] :: splitLines ends cs else prepend c (splitLines ends cs)

/-- What unifying the line ends makes of a text that stands after the given character. -/
def unifyAfter : Char → List Char → List Char
  | _, [] => []
  | before, c :: cs =>
    if c = '\n' ∧ before = '\r' then unifyAfter c cs
    else (if c = '\r' then '\n' else c) :: unifyAfter c cs

/-- The line breaks of a text in memory that do not end a line of a file. -/
def textOnlyBreaks : List Char :=
  ['\x0B', '\x0C', '\x1C', '\x1D', '\x1E', '\x85', '\u2028', '\u2029']

/-! ## Two ways to cut a text -/

/-- A text beside itself moved on by one character shows what each character stands after. -/
theorem filterMap_zip_eq_unifyAfter {f : Char × Char → Option Char}
    (hf : ∀ c before, f (c, before) =
      if c = '\n' ∧ before = '\r' then none else some (if c = '\r' then '\n' else c))
    (before : Char) (cs : List Char) :
    (cs.zip (before :: cs)).filterMap f = unifyAfter before cs := by
  induction cs generalizing before with
  | nil => rfl
  | cons c cs ih =>
    rw [List.zip_cons_cons, List.filterMap_cons, unifyAfter, ← ih c, hf]
    by_cases h : c = '\n' ∧ before = '\r'
    · simp only [if_pos h]
    · simp only [if_neg h]

theorem unifyLineEnds_eq (cs : List Char) : unifyLineEnds cs = unifyAfter '\n' cs :=
  filterMap_zip_eq_unifyAfter (fun _ _ => rfl) '\n' cs

/-- Only a line feed directly after a carriage return is dropped. -/
theorem unifyAfter_cons {before c : Char} {cs : List Char}
    (hb : before ≠ '\r' ∨ (c :: cs).head? ≠ some '\n') :
    unifyAfter before (c :: cs) = (if c = '\r' then '\n' else c) :: unifyAfter c cs := by
  have hkept : ¬ (c = '\n' ∧ before = '\r') := by
    rintro ⟨rfl, rfl⟩
    simp at hb
  rw [unifyAfter, if_neg hkept]

theorem cutAfter_cons_of_not_ends {ends : Char → Bool} {c : Char} (h : ends c = false)
    (cs : List Char) : cutAfter ends (c :: cs) = prepend c (cutAfter ends cs) := by
  rw [cutAfter, List.foldr_cons, h, ← cutAfter, if_neg Bool.false_ne_true]
  cases cutAfter ends cs <;> rfl

/-- Cutting after the line ends have been unified is cutting in one pass, unless the text starts with
a line feed that belongs to a carriage return before it. -/
theorem cutAfter_unifyAfter {ends : Char → Bool} (hn : ends '\n' = true) {before : Char}
    {cs : List Char} (hb : before ≠ '\r' ∨ cs.head? ≠ some '\n') :
    cutAfter ends (unifyAfter before cs) = splitLines ends cs := by
  fun_induction splitLines ends cs generalizing before with
  | case1 => rfl
  | case2 cs ih =>
    -- the pair has become one line feed, and what follows stands after a line feed
    have hrest : unifyAfter before ('\r' :: '\n' :: cs) = '\n' :: unifyAfter '\n' cs := by
      simp [unifyAfter]
    rw [hrest, cutAfter_cons_of_ends hn, ih (.inl (by decide))]
  | case3 c cs hpair hend ih =>
    have hends : ends (if c = '\r' then '\n' else c) = true := by
      split
      · exact hn
      · exact hend.resolve_left ‹_›
    have hnext : c ≠ '\r' ∨ cs.head? ≠ some '\n' := by
      by_cases hc : c = '\r'
      · right
        intro hhead
        obtain ⟨rest, rfl⟩ := List.head?_eq_some_iff.1 hhead
        exact hpair rest hc rfl
      · exact .inl hc
    rw [unifyAfter_cons hb, cutAfter_cons_of_ends hends, ih hnext]
  | case4 c cs hpair hend ih =>
    have hc : c ≠ '\r' := fun hc => hend (.inl hc)
    have hends : ends c = false := by simpa using fun he => hend (.inr he)
    rw [unifyAfter_cons hb, if_neg hc, cutAfter_cons_of_not_ends hends, ih (.inl hc)]

theorem cutAfter_unifyLineEnds {ends : Char → Bool} (hn : ends '\n' = true) (cs : List Char) :
    cutAfter ends (unifyLineEnds cs) = splitLines ends cs := by
  rw [unifyLineEnds_eq]
  exact cutAfter_unifyAfter hn (.inl (by decide))

theorem fileLines_eq (cs : List Char) :
    fileLines cs = (splitLines (· == '\n') cs).map String.ofList := by
  rw [fileLines, cutAfter_unifyLineEnds rfl]

theorem textLines_eq (cs : List Char) :
    textLines cs = (splitLines isLineBreak cs).map String.ofList := by
  rw [textLines, cutAfter_unifyLineEnds rfl]

/-- The class is asked only about the characters of the text that are no carriage return. -/
theorem splitLines_congr {ends ends' : Char → Bool} {cs : List Char}
    (h : ∀ c ∈ cs, c ≠ '\r' → ends c = ends' c) : splitLines ends cs = splitLines ends' cs := by
  fun_induction splitLines ends cs with
  | case1 => rfl
  | case2 cs ih =>
    rw [splitLines, ih fun c hc => h c (by simp [hc])]
  | case3 c cs hpair hend ih =>
    have hend' : c = '\r' ∨ ends' c = true := by
      by_cases hc : c = '\r'
      · exact .inl hc
      · rw [← h c List.mem_cons_self hc]
        exact hend
    rw [splitLines.eq_3 _ _ _ hpair, if_pos hend', ih fun d hd => h d (List.mem_cons_of_mem c hd)]
  | case4 c cs hpair hend ih =>
    have hend' : ¬ (c = '\r' ∨ ends' c = true) := by
      have hc : c ≠ '\r' := fun hc => hend (.inl hc)
      rw [← h c List.mem_cons_self hc]
      exact hend
    rw [splitLines.eq_3 _ _ _ hpair, if_neg hend', ih fun d hd => h d (List.mem_cons_of_mem c hd)]

/-- A line that has no end in it is cut off at the line feed after it. -/
theorem splitLines_append {ends : Char → Bool} (hn : ends '\n' = true) {line : List Char}
    (hline : ∀ c ∈ line, c ≠ '\r' ∧ ends c = false) (rest : List Char) :
    splitLines ends (line ++ '\n' :: rest) = line :: splitLines ends rest := by
  induction line with
  | nil => rw [List.nil_append, splitLines.eq_3 _ _ _ (by simp), if_pos (.inr hn)]
  | cons c line ih =>
    obtain ⟨hc, hends⟩ := hline c List.mem_cons_self
    have hkeep : ¬ (c = '\r' ∨ ends c = true) := by simp [hc, hends]
    rw [List.cons_append, splitLines.eq_3 _ _ _ (fun _ h => absurd h hc), if_neg hkeep,
      ih fun d hd => hline d (List.mem_cons_of_mem c hd)]
    rfl

/-- The lines of a printed text are those that were printed. -/
theorem textLines_printedText {lines : List String}
    (h : ∀ line ∈ lines, ∀ c ∈ line.toList, isLineBreak c = false) :
    textLines (printedText lines).toList = lines := by
  have hcut : splitLines isLineBreak (printedText lines).toList = lines.map String.toList := by
    induction lines with
    | nil => rfl
    | cons line lines ih =>
      have htext : (printedText (line :: lines)).toList =
          line.toList ++ '\n' :: (printedText lines).toList := by
        simp [printedText, String.toList_append]
      have hline : ∀ c ∈ line.toList, c ≠ '\r' ∧ isLineBreak c = false := by
        intro c hc
        have hb := h line List.mem_cons_self c hc
        refine ⟨?_, hb⟩
        intro hr
        rw [hr] at hb
        cases hb
      rw [htext, splitLines_append rfl hline, List.map_cons,
        ih fun l hl => h l (List.mem_cons_of_mem line hl)]
  rw [textLines_eq, hcut]
  simp [Function.comp_def]

theorem isLineBreak_iff {c : Char} :
    isLineBreak c = true ↔ c = '\n' ∨ c = '\r' ∨ c ∈ textOnlyBreaks := by
  simp only [isLineBreak, textOnlyBreaks, List.mem_cons, List.not_mem_nil, or_false,
    decide_eq_true_eq]
  grind

/-- What ends a line is white space. -/
theorem isSpace_of_isLineBreak {c : Char} (h : isLineBreak c = true) : isSpace c = true := by
  simp only [isLineBreak, List.mem_cons, List.not_mem_nil, or_false, decide_eq_true_eq] at h
  rcases h with rfl | rfl | rfl | rfl | rfl | rfl | rfl | rfl | rfl | rfl <;> rfl

theorem fileLines_eq_textLines {cs : List Char} (h : ∀ c ∈ cs, c ∉ textOnlyBreaks) :
    fileLines cs = textLines cs := by
  rw [fileLines_eq, textLines_eq]
  refine congrArg (List.map String.ofList) (splitLines_congr fun c hc hr => ?_)
  rw [Bool.eq_iff_iff, beq_iff_eq, isLineBreak_iff]
  simp [hr, h c hc]

end Text

/-! ## Two ways to run a program -/

namespace Setup

/-- Running a file whose bytes encode a text in UTF-8 is the same as running the text, if the text has
no line break that ends no line of a file: it goes on for ever in both cases, or ends in both with
the same machine or the same failure, and with the same lines printed. -/
theorem runFile_eq_runText (s : Setup) {files : FileTree} {path text : String}
    (hf : files.find path = .ok text.toUTF8) (ht : ∀ c ∈ text.toList, c ∉ Text.textOnlyBreaks)
    (rounds : Nat) : s.runFile rounds files path = s.runText rounds text := by
  have hl : files.lines? path "utf-8" = some (Text.textLines text.toList) := by
    simp only [FileTree.lines?, hf, Encoding.ofName?, Encoding.decode?_toUTF8, Option.map_some,
      Text.fileLines_eq_textLines ht]
  unfold runFile runText
  cases s.machine with
  | error f => rfl
  | ok m =>
    obtain ⟨hr, hm⟩ := Machine.read_of_lines (m := m) hl
    cases ha : m.assemble (Text.textLines text.toList) with
    | mk r m' =>
      rw [ha] at hr hm
      cases r with
      | error f => simp only [hr, hm, ha, Except.map]
      | ok u => simp only [hr, hm, ha, Except.map]

/-- The fourth line is at fault, after lines that end in two, one and another one character; what the
file makes of it is what the text makes of it. -/
theorem runFile_eq_runText_mixed :
    let text := "a out 0\r\n\r\nb noop\rc out x\n"
    let s : Setup := { registerCount := 1, mode := .strict }
    let files : FileTree := { entries := [(["p"], .file text.toUTF8)] }
    let e : Source.AssemblyError := .malformedOperand .out "x" 4 " out x"
    s.runText 0 text = some ⟨.error (.assembly e), []⟩ ∧
      s.runFile 0 files "p" = some ⟨.error (.assembly e), []⟩ := by
  intro text s files e
  have hm : s.machine = .ok { registers := .zeros 1, mode := .strict } := by rfl
  have hl : Text.textLines text.toList = ["a out 0", "", "b noop", "c out x"] := by decide
  have hrun : s.runText 0 text = some ⟨.error (.assembly e), []⟩ := by
    simp only [runText, hm, hl]
    rfl
  have hs : "p".startsWith "/" = false := by simp
  have hf : files.find "p" = .ok text.toUTF8 := by
    simp only [FileTree.find, hs]
    rfl
  have hplain : (text.toList.all fun c => decide (c ∉ Text.textOnlyBreaks)) = true := by decide
  have ht : ∀ c ∈ text.toList, c ∉ Text.textOnlyBreaks :=
    fun c hc => of_decide_eq_true (List.all_eq_true.1 hplain c hc)
  exact ⟨hrun, (runFile_eq_runText s hf ht 0).trans hrun⟩

end Setup
end SimpleMachine
