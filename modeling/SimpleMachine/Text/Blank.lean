/-!
# SimpleMachine.Text.Blank

Two notions of blank character, and trimming by any of them.

- `isBlank`: the blanks of a source line, U+0000 to U+0020.
- `isSpace`: Unicode white space together with the four separators U+001C to U+001F; the form in
  which an instruction is shown is trimmed of these.
- `trim`, `trimEnd`: remove a class of characters at both ends, or at the right end only.
-/

namespace SimpleMachine
namespace Text

def isBlank (c : Char) : Bool := c.toNat ≤ 0x20

/-- White space: the tab to carriage return range, the four information separators, the space, and
the white space of Unicode beyond ASCII. -/
def isSpace (c : Char) : Bool :=
  let n := c.toNat
  (0x09 ≤ n && n ≤ 0x0D) || (0x1C ≤ n && n ≤ 0x20) || n == 0x85 || n == 0xA0 || n == 0x1680 ||
    (0x2000 ≤ n && n ≤ 0x200A) || n == 0x2028 || n == 0x2029 || n == 0x202F || n == 0x205F ||
    n == 0x3000

def trimEnd (p : Char → Bool) (cs : List Char) : List Char :=
  (cs.reverse.dropWhile p).reverse

/-- Removes the longest prefix and the longest suffix whose characters are all in the class. -/
def trim (p : Char → Bool) (cs : List Char) : List Char :=
  trimEnd p (cs.dropWhile p)

@[simp]
theorem trimEnd_nil (p : Char → Bool) : trimEnd p [] = [] := rfl

@[simp]
theorem trim_nil (p : Char → Bool) : trim p [] = [] := rfl

theorem trimEnd_append_takeWhile (p : Char → Bool) (cs : List Char) :
    trimEnd p cs ++ (cs.reverse.takeWhile p).reverse = cs := by
  rw [trimEnd, ← List.reverse_append, List.takeWhile_append_dropWhile, List.reverse_reverse]

theorem eq_false_of_trim_eq_cons {p : Char → Bool} {cs rest : List Char} {c : Char}
    (h : trim p cs = c :: rest) : p c = false := by
  have hsplit := trimEnd_append_takeWhile p (cs.dropWhile p)
  have hhead := List.head?_dropWhile_not p cs
  rw [← hsplit, show trimEnd p (cs.dropWhile p) = c :: rest from h] at hhead
  simpa using hhead

theorem trim_eq_self {p : Char → Bool} {cs : List Char} (hh : ∀ c ∈ cs.head?, p c = false)
    (hl : ∀ c ∈ cs.getLast?, p c = false) : trim p cs = cs := by
  have key : ∀ ds : List Char, (∀ c ∈ ds.head?, p c = false) → ds.dropWhile p = ds := by
    intro ds hd
    cases ds with
    | nil => rfl
    | cons d ds => simp [hd d rfl]
  rw [trim, key cs hh, trimEnd, key cs.reverse (by rw [List.head?_reverse]; exact hl),
    List.reverse_reverse]

end Text
end SimpleMachine
