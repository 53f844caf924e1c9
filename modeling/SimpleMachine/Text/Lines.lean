/-!
# SimpleMachine.Text.Lines

Cutting a text into lines.

- `unifyLineEnds`: a carriage return, alone or before a line feed, becomes one line feed.
- `cutAfter`: the pieces of a text that end at a class of characters; a text that ends with such a
  character has no further, empty, piece.
- `fileLines`: the lines of a file, which end at line feeds only.
- `textLines`: the lines of a text in memory, which also end at the other vertical separators.
-/

namespace SimpleMachine
namespace Text

/-- Every line end written with a carriage return becomes a line feed. A line feed directly after
a carriage return is part of the same line end and is dropped. -/
def unifyLineEnds (cs : List Char) : List Char :=
  (cs.zip ('\n' :: cs)).filterMap fun (c, before) =>
    if c = '\n' ∧ before = '\r' then none else some (if c = '\r' then '\n' else c)

/-- The pieces of a text, each of which ends before a character of the class or at the end of the
text; the separators themselves are dropped. -/
def cutAfter (ends : Char → Bool) (cs : List Char) : List (List Char) :=
  cs.foldr (fun c pieces =>
    if ends c then [] :: pieces
    else match pieces with
      | [] => [[c]]
      | piece :: more => (c :: piece) :: more) []

/-- A vertical separator: line feed, vertical tab, form feed, the three largest information
separators, next line, and the line and paragraph separators. -/
def isLineBreak (c : Char) : Bool :=
  c ∈ ['\n', '\x0B', '\x0C', '\r', '\x1C', '\x1D', '\x1E', '\x85', '\u2028', '\u2029']

def fileLines (cs : List Char) : List String :=
  (cutAfter (· == '\n') (unifyLineEnds cs)).map String.ofList

def textLines (cs : List Char) : List String :=
  (cutAfter isLineBreak (unifyLineEnds cs)).map String.ofList

@[simp]
theorem cutAfter_nil (ends : Char → Bool) : cutAfter ends [] = [] := rfl

theorem cutAfter_cons_of_ends {ends : Char → Bool} {c : Char} (h : ends c = true)
    (cs : List Char) : cutAfter ends (c :: cs) = [] :: cutAfter ends cs := by
  simp [cutAfter, h]

end Text
end SimpleMachine
