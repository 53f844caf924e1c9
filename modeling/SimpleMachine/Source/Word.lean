import SimpleMachine.Numeral
import SimpleMachine.Text.Blank

/-!
# SimpleMachine.Source.Word

A source line is read word by word, from left to right.

- `nextWord`: the next word of a line and what is left after it.
- `nextInteger`: the next word as an integer; a word that cannot be read counts as `maxInt`.

Blanks at both ends of the line are dropped before a word is taken, but only a space or a tab ends
a word, so that other control characters may stand inside one.
-/

namespace SimpleMachine
namespace Source

def isGap (c : Char) : Bool := c == ' ' || c == '\t'

/-- The first word of a line, empty if the line is blank, and what is left of the line. -/
def nextWord (line : List Char) : List Char × List Char :=
  let body := Text.trim Text.isBlank line
  (body.takeWhile fun c => !isGap c, body.dropWhile fun c => !isGap c)

def integerOrMax (word : List Char) : Except Numeral.TooLong Int :=
  (Numeral.read word).map fun v => v.getD maxInt

def nextInteger (line : List Char) : Except Numeral.TooLong Int × List Char :=
  let (word, rest) := nextWord line
  (integerOrMax word, rest)

@[simp]
theorem nextWord_nil : nextWord [] = ([], []) := rfl

/-- The word and what is left make up the line without the blanks at its ends. -/
theorem fst_append_snd_nextWord (line : List Char) :
    (nextWord line).1 ++ (nextWord line).2 = Text.trim Text.isBlank line := by
  simp [nextWord]

theorem isBlank_of_isGap {c : Char} (h : isGap c = true) : Text.isBlank c = true := by
  simp only [isGap, Bool.or_eq_true, beq_iff_eq] at h
  rcases h with rfl | rfl <;> rfl

theorem isGap_eq_false_of_isBlank {c : Char} (h : Text.isBlank c = false) : isGap c = false := by
  cases hg : isGap c with
  | false => rfl
  | true => rw [isBlank_of_isGap hg] at h; cases h

theorem snd_nextWord_of_fst_eq_nil {line : List Char} (h : (nextWord line).1 = []) :
    (nextWord line).2 = [] := by
  cases hb : Text.trim Text.isBlank line with
  | nil => simp [nextWord, hb]
  | cons c rest =>
    have hc : isGap c = true := by simpa [nextWord, hb, List.takeWhile_cons] using h
    have hn := Text.eq_false_of_trim_eq_cons hb
    rw [isBlank_of_isGap hc] at hn
    cases hn

theorem nextWord_cons_of_isBlank {c : Char} (h : Text.isBlank c = true) (line : List Char) :
    nextWord (c :: line) = nextWord line := by
  simp [nextWord, Text.trim, h]

/-- The first word of a line that has no blanks at its ends is what stands before the first gap. -/
theorem nextWord_append {a : Char} {w rest : List Char} (ha : Text.isBlank a = false)
    (hw : ∀ c ∈ w, isGap c = false) (hr : ∀ c ∈ rest.head?, isGap c = true)
    (hl : ∀ c ∈ (a :: w ++ rest).getLast?, Text.isBlank c = false) :
    nextWord (a :: w ++ rest) = (a :: w, rest) := by
  have ht : Text.trim Text.isBlank (a :: w ++ rest) = a :: w ++ rest :=
    Text.trim_eq_self (by rintro c ⟨⟩; exact ha) hl
  have hw' : ∀ c ∈ a :: w, (!isGap c) = true := by
    intro c hc
    cases hc with
    | head => rw [isGap_eq_false_of_isBlank ha]; rfl
    | tail _ hc => rw [hw c hc]; rfl
  rw [nextWord, ht, List.takeWhile_append_of_pos hw', List.dropWhile_append_of_pos hw']
  cases rest with
  | nil => simp
  | cons c rest => simp [hr c rfl]

theorem isGap_eq_false_of_mem_nextWord {line : List Char} {c : Char}
    (h : c ∈ (nextWord line).1) : isGap c = false := by
  have hall : ((nextWord line).1.all fun c => !isGap c) = true := List.all_takeWhile
  simpa using List.all_eq_true.1 hall c h

end Source
end SimpleMachine
