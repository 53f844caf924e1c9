import SimpleMachine.Text.Printable

/-!
# SimpleMachine.Text.Quoted

The quoted form in which error messages show a piece of input.

- The text stands in single quotes, or in double quotes when it holds a single quote and no double
  quote.
- The backslash and the chosen quote are written with a backslash before them; tab, line feed and
  carriage return have short escapes; any other unprintable character is written by its code
  point, in two, four or eight hexadecimal digits.
-/

namespace SimpleMachine
namespace Text

/-- The number in lower-case hexadecimal digits, with leading zeros up to the given width. -/
def hexDigits (width n : Nat) : List Char :=
  let digits := Nat.toDigits 16 n
  List.replicate (width - digits.length) '0' ++ digits

/-- An unprintable character, by its code point in the shortest of three widths. -/
def escapeCodePoint (c : Char) : List Char :=
  let n := c.toNat
  if n < 0x100 then '\\' :: 'x' :: hexDigits 2 n
  else if n < 0x10000 then '\\' :: 'u' :: hexDigits 4 n
  else '\\' :: 'U' :: hexDigits 8 n

def escapeChar (quote c : Char) : List Char :=
  if c = '\\' ∨ c = quote then ['\\', c]
  else if c = '\t' then ['\\', 't']
  else if c = '\n' then ['\\', 'n']
  else if c = '\r' then ['\\', 'r']
  else if isPrintable c then [c]
  else escapeCodePoint c

/-- Double quotes only around a text that holds a single quote and no double quote. -/
def quoteFor (cs : List Char) : Char :=
  if '\'' ∈ cs ∧ '"' ∉ cs then '"' else '\''

def quoted (s : String) : String :=
  let cs := s.toList
  let quote := quoteFor cs
  String.ofList (quote :: (cs.flatMap (escapeChar quote) ++ [quote]))

end Text
end SimpleMachine
